import ApiDecl.Proofs.Types.Agreement
import ApiDecl.Proofs.Types.Names
import Mathlib.Data.List.Induction

/-!
# Objects under `allOf`

Objects that hold together are made into one, field by field: each field is put in place of the one
with its wire name, or at the end.  Of the one object, the wire names stand in the order of their
first occurrence (`map_wireName_mergeFields`), a field is that of the last object with its wire name
(`isLast_of_mem_mergeObjects`) and required if that of some object is (`requires_mergeObjects`).
Each of these holds of one field put in place, and then of a list by induction from its end, since
that is where fields and objects are added.

`Composed` says what the types of the members of a schema are, and `draftNode_allOf_yields` that the
type of the schema is made of these and of nothing else, wherever it stands.  So objects under `allOf`
make one object that `Merges` them (`allOf_merges`).
-/

namespace ApiDecl

/-! ### Fields put in place -/

section Fields

variable {field : FieldOf Ty} {fields more : List (FieldOf Ty)} {name : String}

/-- Some field of the wire name is required. -/
def Requires (fields : List (FieldOf Ty)) (name : String) : Prop :=
  ∃ field ∈ fields, field.wireName = name ∧ field.required = true

theorem requires_cons : Requires (field :: fields) name ↔
    field.wireName = name ∧ field.required = true ∨ Requires fields name :=
  List.exists_mem_cons_iff ..

theorem requires_mergeField : ∀ {fields : List (FieldOf Ty)},
    Requires (mergeField field fields) name ↔ Requires (field :: fields) name
  | [] => Iff.rfl
  | first :: rest => by
    unfold mergeField
    split_ifs with he
    · simp only [requires_cons, Bool.or_eq_true, he]
      tauto
    · simp only [requires_cons, requires_mergeField]
      tauto

theorem requires_mergeFields : Requires (mergeFields fields more) name ↔
    Requires fields name ∨ Requires more name := by
  unfold mergeFields
  induction more generalizing fields with
  | nil => simp [Requires]
  | cons field rest ih =>
    rw [List.foldl_cons, ih, requires_mergeField, requires_cons, requires_cons]
    tauto

theorem map_wireName_mergeField (field : FieldOf Ty) : ∀ fields : List (FieldOf Ty),
    (mergeField field fields).map FieldOf.wireName =
      if field.wireName ∈ fields.map FieldOf.wireName then fields.map FieldOf.wireName
      else fields.map FieldOf.wireName ++ [field.wireName]
  | [] => rfl
  | first :: rest => by
    have ih := map_wireName_mergeField field rest
    unfold mergeField
    by_cases he : first.wireName = field.wireName
    · simp [he]
    · rw [if_neg he, List.map_cons, ih, List.map_cons]
      by_cases hm : field.wireName ∈ rest.map FieldOf.wireName
      · rw [if_pos hm, if_pos (List.mem_cons_of_mem _ hm)]
      · rw [if_neg hm, if_neg (by simpa [Ne.symm he] using hm), List.cons_append]

theorem removeAll_singleton (name : String) (names : List String) :
    [name].removeAll names = if name ∈ names then [] else [name] := by
  unfold List.removeAll
  split_ifs with h <;> simp [h]

/-- Of fields put in place one after the other, the wire names come in the order of their first
occurrence. -/
theorem map_wireName_mergeFields (declared : List (FieldOf Ty)) :
    (mergeFields [] declared).map FieldOf.wireName =
      (declared.map FieldOf.wireName).eraseDups := by
  induction declared using List.reverseRecOn with
  | nil => rfl
  | append_singleton declared field ih =>
    have hstep : mergeFields [] (declared ++ [field]) = mergeField field (mergeFields [] declared) :=
      List.foldl_append
    rw [hstep, map_wireName_mergeField, ih, List.map_append, List.eraseDups_append]
    by_cases hm : field.wireName ∈ declared.map FieldOf.wireName
    · rw [if_pos (List.mem_eraseDups.mpr hm), List.map_singleton, removeAll_singleton, if_pos hm,
        List.eraseDups_nil, List.append_nil]
    · rw [if_neg (mt List.mem_eraseDups.mp hm), List.map_singleton, removeAll_singleton, if_neg hm]
      rfl

/-- A field put in place of another is the only one of its wire name. -/
theorem isOf_or_of_mem_mergeField {other : FieldOf Ty} : ∀ {fields : List (FieldOf Ty)},
    (fields.map FieldOf.wireName).Nodup → other ∈ mergeField field fields →
      other.IsOf [field] ∨ other ∈ fields ∧ other.wireName ≠ field.wireName
  | [], _, h => Or.inl (FieldOf.isOf_of_mem h)
  | first :: rest, hd, h => by
    obtain ⟨hfirst, hrest⟩ := List.nodup_cons.mp hd
    unfold mergeField at h
    split_ifs at h with he
    · rcases List.mem_cons.mp h with rfl | h
      · exact Or.inl ⟨field, List.mem_singleton.mpr rfl, rfl⟩
      · refine Or.inr ⟨List.mem_cons_of_mem _ h, fun hw => hfirst ?_⟩
        rw [he, ← hw]
        exact List.mem_map_of_mem h
    · rcases List.mem_cons.mp h with rfl | h
      · exact Or.inr ⟨List.mem_cons_self, he⟩
      · exact (isOf_or_of_mem_mergeField hrest h).imp_right
          (And.imp_left (List.mem_cons_of_mem _))

/-- Fields put in place of others are all that have their wire names. -/
theorem isOf_or_of_mem_mergeFields {other : FieldOf Ty} (hd : (fields.map FieldOf.wireName).Nodup)
    (h : other ∈ mergeFields fields more) :
    other.IsOf more ∨ other ∈ fields ∧ other.wireName ∉ more.map FieldOf.wireName := by
  unfold mergeFields at h
  induction more generalizing fields with
  | nil => exact Or.inr ⟨h, List.not_mem_nil⟩
  | cons field rest ih =>
    rcases ih (nodup_mergeField hd) h with ⟨own, hm, he⟩ | ⟨h, hrest⟩
    · exact Or.inl ⟨own, List.mem_cons_of_mem _ hm, he⟩
    · rcases isOf_or_of_mem_mergeField hd h with ⟨own, hm, he⟩ | ⟨h, hne⟩
      · exact Or.inl ⟨own, List.mem_cons.mpr (Or.inl (List.mem_singleton.mp hm)), he⟩
      · refine Or.inr ⟨h, ?_⟩
        rw [List.map_cons, List.mem_cons, not_or]
        exact ⟨hne, hrest⟩

theorem required_iff_requires (hd : (fields.map FieldOf.wireName).Nodup) (hm : field ∈ fields) :
    field.required = true ↔ Requires fields field.wireName := by
  refine ⟨fun hr => ⟨field, hm, rfl, hr⟩, fun ⟨other, ho, hw, hr⟩ => ?_⟩
  obtain rfl := List.inj_on_of_nodup_map hd ho hm hw
  exact hr

end Fields

/-! ### Objects made into one -/

section Objects

variable {objects : List (List (FieldOf Ty) × Option Ty)} {field : FieldOf Ty} {name : String}

theorem mergeObjects_append (objects : List (List (FieldOf Ty) × Option Ty))
    (o : List (FieldOf Ty) × Option Ty) : mergeObjects (objects ++ [o]) =
      (mergeFields (mergeObjects objects).1 o.1, o.2 <|> (mergeObjects objects).2) :=
  List.foldl_append

/-- The fields of the one object are the fields of all, put in place one after the other. -/
theorem fst_mergeObjects (objects : List (List (FieldOf Ty) × Option Ty)) :
    (mergeObjects objects).1 = mergeFields [] (objects.flatMap Prod.fst) := by
  induction objects using List.reverseRecOn with
  | nil => rfl
  | append_singleton objects o ih =>
    rw [mergeObjects_append, ih, List.flatMap_append, List.flatMap_singleton]
    exact List.foldl_append.symm

theorem requires_mergeObjects :
    Requires (mergeObjects objects).1 name ↔ ∃ o ∈ objects, Requires o.1 name := by
  induction objects using List.reverseRecOn with
  | nil => simp [mergeObjects, Requires]
  | append_singleton objects o ih =>
    rw [mergeObjects_append, requires_mergeFields, ih]
    simp only [List.mem_append, List.mem_singleton, or_and_right, exists_or, exists_eq_left]

/-- The second is an element of the list, and none behind it has the property. -/
def IsLast {α : Type} (Q : α → Prop) (l : List α) (x : α) : Prop :=
  ∃ before behind, l = before ++ x :: behind ∧ Q x ∧ ∀ later ∈ behind, ¬ Q later

theorem isLast_concat {α : Type} {Q : α → Prop} {l : List α} {x last : α} :
    IsLast Q (l ++ [last]) x ↔ Q last ∧ x = last ∨ ¬ Q last ∧ IsLast Q l x := by
  constructor
  · rintro ⟨before, behind, he, hx, hbehind⟩
    rcases List.eq_nil_or_concat behind with rfl | ⟨more, later, rfl⟩
    · obtain ⟨-, hlast⟩ := List.append_inj' he rfl
      obtain rfl := List.singleton_inj.mp hlast
      exact Or.inl ⟨hx, rfl⟩
    · rw [List.concat_eq_append, ← List.cons_append, ← List.append_assoc] at he
      obtain ⟨rfl, hlast⟩ := List.append_inj' he rfl
      obtain rfl := List.singleton_inj.mp hlast
      rw [List.concat_eq_append, List.forall_mem_append, List.forall_mem_singleton] at hbehind
      exact Or.inr ⟨hbehind.2, before, more, rfl, hx, hbehind.1⟩
  · rintro (⟨hlast, rfl⟩ | ⟨hlast, before, behind, rfl, hx, hbehind⟩)
    · exact ⟨l, [], rfl, hlast, fun _ hm => absurd hm List.not_mem_nil⟩
    · refine ⟨before, behind ++ [last], by simp, hx, ?_⟩
      rw [List.forall_mem_append, List.forall_mem_singleton]
      exact ⟨hbehind, hlast⟩

theorem FieldOf.IsOf.mem_wireNames {fields : List (FieldOf Ty)} (h : field.IsOf fields) :
    field.wireName ∈ fields.map FieldOf.wireName := by
  obtain ⟨own, hm, he⟩ := h
  rw [show field.wireName = own.wireName by rw [he]]
  exact List.mem_map_of_mem hm

/-- **A field of the one object** is that of the last object that has its wire name. -/
theorem isLast_of_mem_mergeObjects (h : field ∈ (mergeObjects objects).1) :
    ∃ o, IsLast (fun o => field.wireName ∈ o.1.map FieldOf.wireName) objects o ∧ field.IsOf o.1 := by
  induction objects using List.reverseRecOn with
  | nil => cases h
  | append_singleton objects o ih =>
    rw [mergeObjects_append] at h
    rcases isOf_or_of_mem_mergeFields (nodup_mergeObjects objects) h with hown | ⟨h, hlast⟩
    · exact ⟨o, isLast_concat.mpr (Or.inl ⟨hown.mem_wireNames, rfl⟩), hown⟩
    · obtain ⟨earlier, hearlier, hown⟩ := ih h
      exact ⟨earlier, isLast_concat.mpr (Or.inr ⟨hlast, hearlier⟩), hown⟩

/-- So is the type of its further members that of the last object that gives one. -/
theorem snd_mergeObjects_eq_some {ty : Ty} : (mergeObjects objects).2 = some ty ↔
    ∃ o, IsLast (fun o => o.2.isSome = true) objects o ∧ o.2 = some ty := by
  induction objects using List.reverseRecOn with
  | nil =>
    refine ⟨fun h => (by cases h), ?_⟩
    rintro ⟨o, ⟨before, behind, he, -⟩, -⟩
    exact absurd he.symm (List.append_ne_nil_of_right_ne_nil _ (List.cons_ne_nil _ _))
  | append_singleton objects o ih =>
    rw [mergeObjects_append]
    simp only [isLast_concat]
    cases ho : o.2 with
    | some own =>
      constructor
      · exact fun h => ⟨o, Or.inl ⟨rfl, rfl⟩, ho.trans h⟩
      · rintro ⟨_, ⟨-, rfl⟩ | ⟨hne, -⟩, he⟩
        · exact ho.symm.trans he
        · exact absurd rfl hne
    | none =>
      -- the object gives no type, so the last that does is among those before it
      refine Iff.trans ih (exists_congr fun other => and_congr_left fun _ => ?_)
      simp

end Objects

/-! ### The one object -/

theorem exists_of_mem_nameFields : ∀ {fields : List (FieldOf Ty)} {taken : List String}
    {field : FieldOf Ty}, field ∈ nameFields taken fields →
      ∃ own ∈ fields, field = { own with name := field.name }
  | first :: rest, taken, field, h => by
    rcases List.mem_cons.mp h with rfl | h
    · exact ⟨first, List.mem_cons_self, rfl⟩
    · obtain ⟨own, hm, he⟩ := exists_of_mem_nameFields h
      exact ⟨own, List.mem_cons_of_mem _ hm, he⟩

/-- The fields and the type of further members are made of those of objects that hold together, where
some names are required besides. -/
structure Merges (objects : List (List (FieldOf Ty) × Option Ty)) (listed : String → Prop)
    (fields : List (FieldOf Ty)) (additional : Option Ty) : Prop where
  /-- Each wire name once, in the order of first occurrence. -/
  wireNames : fields.map FieldOf.wireName =
    (objects.flatMap fun o => o.1.map FieldOf.wireName).eraseDups
  wireNames_nodup : (fields.map FieldOf.wireName).Nodup
  names_nodup : (fields.map FieldOf.name).Nodup
  /-- All but its identifier and whether it is required, a field has of the last object with its
  wire name. -/
  last : ∀ field ∈ fields, ∃ o,
    IsLast (fun o => field.wireName ∈ o.1.map FieldOf.wireName) objects o ∧
      ∃ own ∈ o.1, field = { own with name := field.name, required := field.required }
  required : ∀ field ∈ fields, field.required = true ↔
    (∃ o ∈ objects, Requires o.1 field.wireName) ∨ listed field.wireName
  additional : ∀ ty, additional = some ty ↔
    ∃ o, IsLast (fun o => o.2.isSome = true) objects o ∧ o.2 = some ty

section Merges

variable {objects : List (List (FieldOf Ty) × Option Ty)} {field : FieldOf Ty}
  {required : List String}

/-- The fields of the one object that objects make, with names of their own. -/
def mergedFields (required : List String) (objects : List (List (FieldOf Ty) × Option Ty)) :
    List (FieldOf Ty) :=
  nameFields [] ((mergeObjects objects).1.map fun field =>
    { field with required := field.required || required.contains field.wireName })

theorem map_wireName_mergedFields : (mergedFields required objects).map FieldOf.wireName =
    (mergeObjects objects).1.map FieldOf.wireName := by
  unfold mergedFields
  rw [map_wireName_nameFields, List.map_map]
  rfl

theorem exists_of_mem_mergedFields (h : field ∈ mergedFields required objects) :
    ∃ own ∈ (mergeObjects objects).1, field = { own with
      name := field.name, required := own.required || required.contains own.wireName } := by
  obtain ⟨named, hn, he⟩ := exists_of_mem_nameFields h
  obtain ⟨own, hm, rfl⟩ := List.mem_map.mp hn
  exact ⟨own, hm, he⟩

theorem merges_mergedFields :
    Merges objects (· ∈ required) (mergedFields required objects) (mergeObjects objects).2 where
  wireNames := by
    rw [map_wireName_mergedFields, fst_mergeObjects, map_wireName_mergeFields, List.map_flatMap]
  wireNames_nodup := by
    rw [map_wireName_mergedFields]
    exact nodup_mergeObjects objects
  names_nodup := by
    unfold mergedFields
    rw [map_name_nameFields]
    exact nodup_claimFields _ _
  last field h := by
    obtain ⟨merged, hm, he⟩ := exists_of_mem_mergedFields h
    obtain ⟨o, ho, own, hown, hof⟩ := isLast_of_mem_mergeObjects hm
    have hw : field.wireName = merged.wireName := by rw [he]
    refine ⟨o, hw ▸ ho, own, hown, ?_⟩
    rw [he, hof]
  required field h := by
    obtain ⟨own, hm, he⟩ := exists_of_mem_mergedFields h
    have hw : field.wireName = own.wireName := by rw [he]
    have hr : field.required = (own.required || required.contains own.wireName) := by rw [he]
    rw [hr, hw, Bool.or_eq_true, List.contains_iff_mem,
      required_iff_requires (nodup_mergeObjects objects) hm, requires_mergeObjects]
  additional _ := snd_mergeObjects_eq_some

theorem mapM_asObject? : ∀ objects : List (List (FieldOf Ty) × Option Ty),
    (objects.map fun o => Ty.object o.1 o.2).mapM Ty.asObject? = some objects
  | [] => rfl
  | o :: rest => by
    rw [List.map_cons, List.mapM_cons, mapM_asObject? rest]
    rfl

theorem allOfType_objects (ho : objects ≠ []) :
    allOfType required (objects.map fun o => Ty.object o.1 o.2) =
      .object (mergedFields required objects) (mergeObjects objects).2 := by
  obtain ⟨o, rest, rfl⟩ := List.exists_cons_of_ne_nil ho
  have hobjects := mapM_asObject? (o :: rest)
  rw [List.map_cons] at hobjects ⊢
  simp only [allOfType, hobjects]
  rfl

end Merges

/-! ### The members of a schema -/

section Members

variable {scope : Scope} {P : Mention → Prop} {s : Schema} {members : List Node} {ty : Ty}
  {tys : List Ty} {name place base : String}

/-- The schema or one of its members lists the name as required. -/
def Schema.Lists (s : Schema) (members : List Node) (name : String) : Prop :=
  (∃ m : Schema, .schema m ∈ members ∧ name ∈ m.facets.required) ∨ name ∈ s.facets.required

theorem mem_requiredNames : name ∈ requiredNames members ↔
    ∃ m : Schema, .schema m ∈ members ∧ name ∈ m.facets.required := by
  unfold requiredNames
  rw [List.mem_flatMap]
  constructor
  · rintro ⟨m | value, hm, hn⟩
    · exact ⟨m, hm, hn⟩
    · cases hn
  · rintro ⟨m, hm, hn⟩
    exact ⟨.schema m, hm, hn⟩

theorem Schema.lists_eq (s : Schema) (members : List Node) :
    (· ∈ requiredNames members ++ s.facets.required) = s.Lists members := by
  funext name
  rw [List.mem_append, mem_requiredNames]
  rfl

/-- The types are those of the members, lists of required names left out; behind them stands that of
the properties of the schema itself, if it has any. -/
inductive Schema.Composed (scope : Scope) (P : Mention → Prop) (s : Schema) (members : List Node) :
    List Ty → Prop
  | members {tys : List Ty} : s.parts.properties.isEmpty = true →
      List.Forall₂ (Drafted scope P) (members.filter Node.isSubstantial) tys →
      Composed scope P s members tys
  | own {tys : List Ty} {place : String} {object : Ty} : s.parts.properties.isEmpty = false →
      List.Forall₂ (Drafted scope P) (members.filter Node.isSubstantial) tys →
      (draftObject scope s (draftParts scope place s.parts)).Yields P object →
      Composed scope P s members (tys ++ [object])

theorem Draft.Same.yields {α : Type} {draft draft' : Draft α} {value : α} (h : draft.Same draft')
    (hy : draft.Yields P value) : draft'.Yields P value :=
  ⟨(h.2 value).mp hy.1, h.1 ▸ hy.2⟩

theorem Scope.alike_self (scope : Scope) : scope.Alike scope := ⟨rfl, rfl⟩

/-- What is made at some place is made at any. -/
theorem Drafted.yields {node : Node} (h : Drafted scope P node ty) (place : String) :
    (draftNode scope place node).Yields P ty := by
  obtain ⟨other, h⟩ := h
  exact (same_draftNode scope.alike_self node other place).yields h

theorem draftObject_yields (place' : String)
    (h : (draftObject scope s (draftParts scope place s.parts)).Yields P ty) :
    (draftObject scope s (draftParts scope place' s.parts)).Yields P ty :=
  (related_draftObject scope.alike_self.related fun part _ =>
    same_draftNode scope.alike_self part).yields h

theorem forall₂_substantial : ∀ {nodes : List Node} {index : Nat} {tys : List Ty},
    List.Forall₂ (Drafted scope P) (nodes.filter Node.isSubstantial) tys →
      List.Forall₂ (Draft.Yields P) (substantial nodes (draftMembers scope base index nodes)) tys
  | [], _, _, .nil => .nil
  | .other _ :: _, _, _, .cons h rest => .cons (h.yields _) (forall₂_substantial rest)
  | .schema s :: rest, index, tys, h => by
    rw [List.filter_cons, Node.isSubstantial] at h
    rw [draftMembers, substantial]
    cases hs : s.isRequiredOnly with
    | true =>
      rw [hs] at h
      exact forall₂_substantial h
    | false =>
      rw [hs] at h
      cases h with
      | cons h hrest => exact .cons (h.yields _) (forall₂_substantial hrest)

/-- **A schema under `allOf`** has the type that the types of its members make, if it has members. -/
theorem draftAllOf_yields :
    (draftAllOf scope place s members (draftParts scope place s.parts)
      (draftMembers scope base 0 members)).Yields P ty ↔ members ≠ [] ∧ ∃ tys,
        s.Composed scope P members tys ∧
          ty = allOfType (requiredNames members ++ s.facets.required) tys := by
  unfold draftAllOf
  cases members with
  | nil => exact iff_of_false Draft.not_yields_fail fun h => h.1 rfl
  | cons node rest =>
    rw [List.isEmpty_cons, if_neg Bool.false_ne_true]
    cases hp : s.parts.properties.isEmpty with
    | true =>
      simp only [if_true, Draft.yields_bind, Draft.yields_pure, exists_eq_left', List.append_nil]
      constructor
      · rintro ⟨tys, htys, rfl⟩
        exact ⟨List.cons_ne_nil _ _, tys, .members hp (substantial_yields htys), rfl⟩
      · rintro ⟨-, tys, hc, rfl⟩
        cases hc with
        | members _ htys => exact ⟨tys, Draft.yields_all.mpr (forall₂_substantial htys), rfl⟩
        | own hown => rw [hp] at hown; cases hown
    | false =>
      simp only [Bool.false_eq_true, if_false, Draft.yields_bind, Draft.yields_pure,
        exists_eq_left']
      constructor
      · rintro ⟨tys, htys, object, ho, rfl⟩
        exact ⟨List.cons_ne_nil _ _, _, .own hp (substantial_yields htys) ho, rfl⟩
      · rintro ⟨-, _, hc, rfl⟩
        cases hc with
        | members hown => rw [hp] at hown; cases hown
        | @own tys other object _ htys ho =>
          exact ⟨tys, Draft.yields_all.mpr (forall₂_substantial htys), object,
            draftObject_yields place ho, rfl⟩

/-- **What `allOf` decides**: the type that the types of the members make, with null where the schema
allows it. -/
theorem draftNode_allOf_yields (hr : s.facets.reference = none) (hc : s.facets.constant = none)
    (ha : s.parts.allOf = some members) : (draftNode scope place (.schema s)).Yields P ty ↔
      members ≠ [] ∧ ∃ tys, s.Composed scope P members tys ∧
        ty = (if s.facets.isNullable then Ty.nullable else id)
          (allOfType (requiredNames members ++ s.facets.required) tys) := by
  have hshape : draftShape scope place s (draftParts scope place s.parts) =
      draftAllOf scope place s members (draftParts scope place s.parts)
        (draftMembers scope (Pointer.child place "allOf") 0 members) := by
    simp only [draftShape, hr, hc, draftParts, ha, Option.map_some]
  rw [draftNode_schema, hshape, Draft.yields_map]
  simp only [draftAllOf_yields]
  constructor
  · rintro ⟨_, ⟨hm, tys, hcomposed, rfl⟩, rfl⟩
    exact ⟨hm, tys, hcomposed, rfl⟩
  · rintro ⟨hm, tys, hcomposed, rfl⟩
    exact ⟨_, ⟨hm, tys, hcomposed, rfl⟩, rfl⟩

/-- **Objects under `allOf` make one object**, merged field by field, wherever the schema stands and
whatever else it says of null. -/
theorem allOf_merges {objects : List (List (FieldOf Ty) × Option Ty)}
    (hr : s.facets.reference = none) (hc : s.facets.constant = none)
    (ha : s.parts.allOf = some members) (hm : members ≠ [])
    (ht : s.Composed scope P members (objects.map fun o => .object o.1 o.2)) (ho : objects ≠ []) :
    ∃ fields additional, Merges objects (s.Lists members) fields additional ∧
      ∀ place, (draftNode scope place (.schema s)).Yields P
        ((if s.facets.isNullable then Ty.nullable else id) (.object fields additional)) := by
  refine ⟨mergedFields (requiredNames members ++ s.facets.required) objects,
    (mergeObjects objects).2, s.lists_eq members ▸ merges_mergedFields, fun place => ?_⟩
  rw [draftNode_allOf_yields hr hc ha]
  exact ⟨hm, _, ht, by rw [allOfType_objects ho]⟩

end Members

/-! ### A schema with members and properties -/

/-- A schema of a scalar type. -/
def scalarNode (type : String) : Node :=
  .schema ⟨{ Facets.empty with types := some (.one type) }, ⟨[], none, none, none, none, none⟩⟩

/-- A number and a time of which only the number has to be given. -/
def markedNode : Node := .schema ⟨{ Facets.empty with required := ["id"] },
  ⟨[("id", scalarNode "integer"), ("at", scalarNode "string")], none, none, none, none, none⟩⟩

/-- A list of required names. -/
def requiredNode (names : List String) : Node :=
  .schema ⟨{ Facets.empty with required := names }, ⟨[], none, none, none, none, none⟩⟩

/-- A schema with members that has a text as its own property, and any further members. -/
def gatheringSchema (facets : Facets) (members : List Node) : Schema :=
  ⟨facets, ⟨[("id", scalarNode "string")], none, some (.other (.bool true)), none, none,
    some members⟩⟩

/-- A document without components. -/
def bareScope : Scope := ⟨[], [], .default⟩

/-- The object that the marked node makes. -/
def markedObject : List (FieldOf Ty) × Option Ty :=
  ([⟨"id", "id", .scalar .integer none, true, none, false⟩,
    ⟨"at", "at", .scalar .string none, false, none, false⟩], none)

/-- The object that the properties of a gathering schema make. -/
def gatheringObject : List (FieldOf Ty) × Option Ty :=
  ([⟨"id", "id", .scalar .string none, false, none, false⟩], some .any)

theorem drafted_markedNode : Drafted bareScope (fun _ => True) markedNode
    (.object markedObject.1 markedObject.2) :=
  ⟨"", by rfl, fun _ _ => trivial⟩

theorem composed_gatheringSchema (facets : Facets) (hf : facets.required = [])
    (members : List Node) (tys : List Ty) (h : List.Forall₂ (Drafted bareScope fun _ => True)
      (members.filter Node.isSubstantial) tys) :
    (gatheringSchema facets members).Composed bareScope (fun _ => True) members
      (tys ++ [.object gatheringObject.1 gatheringObject.2]) := by
  have hown : (draftObject bareScope (gatheringSchema facets members) (draftParts bareScope ""
      (gatheringSchema facets members).parts)).Yields (fun _ => True)
        (.object gatheringObject.1 gatheringObject.2) := by
    obtain ⟨types, reference, format, required⟩ := facets
    subst hf
    exact ⟨by rfl, fun _ _ => trivial⟩
  exact .own rfl h hown

/-- The text takes the place of the number, and the time has to be given. -/
theorem allOf_merges_gathering :
    (gatheringSchema .empty [markedNode, requiredNode ["at"]]).Composed bareScope (fun _ => True)
        [markedNode, requiredNode ["at"]]
        ([markedObject, gatheringObject].map fun o => .object o.1 o.2) ∧
      (∃ fields additional, Merges [markedObject, gatheringObject]
        ((gatheringSchema .empty [markedNode, requiredNode ["at"]]).Lists
          [markedNode, requiredNode ["at"]]) fields additional ∧
        ∀ place, (draftNode bareScope place (.schema (gatheringSchema .empty
          [markedNode, requiredNode ["at"]]))).Yields (fun _ => True) (.object fields additional)) ∧
      (draftNode bareScope "" (.schema (gatheringSchema .empty
        [markedNode, requiredNode ["at"]]))).result = .ok (.object
          [⟨"id", "id", .scalar .string none, true, none, false⟩,
            ⟨"at", "at", .scalar .string none, true, none, false⟩] (some .any)) := by
  have hcomposed := composed_gatheringSchema .empty rfl [markedNode, requiredNode ["at"]] _
    (.cons drafted_markedNode .nil)
  exact ⟨hcomposed, allOf_merges rfl rfl rfl (List.cons_ne_nil _ _) hcomposed (List.cons_ne_nil _ _),
    by rfl⟩

/-- No object is made where there are no members, null is allowed, or the value is given. -/
theorem gathering_not_object :
    ((gatheringSchema .empty []).Composed bareScope (fun _ => True) []
        [.object gatheringObject.1 gatheringObject.2] ∧
      (draftNode bareScope "#" (.schema (gatheringSchema .empty []))).result =
        .error (.invalid "#/allOf" (.noMembers "allOf"))) ∧
      ((gatheringSchema { Facets.empty with nullable := some true } [requiredNode ["id"]]).Composed
          bareScope (fun _ => True) [requiredNode ["id"]]
          [.object gatheringObject.1 gatheringObject.2] ∧
        (draftNode bareScope "#" (.schema (gatheringSchema
          { Facets.empty with nullable := some true } [requiredNode ["id"]]))).result =
            .ok (.unionOf [.object [⟨"id", "id", .scalar .string none, true, none, false⟩]
              (some .any), .null])) ∧
      (gatheringSchema { Facets.empty with constant := some (.string "a") }
          [requiredNode ["id"]]).Composed bareScope (fun _ => True) [requiredNode ["id"]]
          [.object gatheringObject.1 gatheringObject.2] ∧
        (draftNode bareScope "#" (.schema (gatheringSchema
          { Facets.empty with constant := some (.string "a") } [requiredNode ["id"]]))).result =
            .ok (.literal (.string "a")) :=
  ⟨⟨composed_gatheringSchema _ rfl _ [] .nil, by rfl⟩,
    ⟨composed_gatheringSchema _ rfl _ [] .nil, by rfl⟩,
    composed_gatheringSchema _ rfl _ [] .nil, by rfl⟩

end ApiDecl
