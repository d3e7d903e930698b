import ApiDecl.Proofs.Description.Parts
import ApiDecl.Proofs.Types.Inclusion

/-!
# What types hold

`Contains` says that a type occurs anywhere inside another, and `Each` that all that occurs has a
property.  `MadeWith` lists what has to hold of a property so that all types that drafts make have
it, at any depth: one clause for each way in which a type is made of parts.  Then `Drafted.each`
holds, by induction on the schema.

For one such property, types made of drafts are `LinkedBy` what the drafts mention: each reference
inside is the name of a mention, and each value of a discriminator the name of a type that some
pointer leads to (`Drafted.linked`).
-/

namespace ApiDecl

namespace Ty

/-- The second type occurs in the first, at any depth. -/
inductive Contains : Ty → Ty → Prop
  | self {ty : Ty} : Contains ty ty
  | element {element inner : Ty} : Contains element inner → Contains (.array element) inner
  | field {fields : List (FieldOf Ty)} {additional : Option Ty} {field : FieldOf Ty} {inner : Ty} :
      field ∈ fields → Contains field.ty inner → Contains (.object fields additional) inner
  | additional {fields : List (FieldOf Ty)} {ty inner : Ty} :
      Contains ty inner → Contains (.object fields (some ty)) inner
  | union {members : List Ty} {discriminator : Option Discriminator} {member inner : Ty} :
      member ∈ members → Contains member inner → Contains (.union members discriminator) inner
  | intersection {members : List Ty} {member inner : Ty} :
      member ∈ members → Contains member inner → Contains (.intersection members) inner

/-- All that occurs in the type has the property. -/
def Each (Q : Ty → Prop) (ty : Ty) : Prop := ∀ inner, ty.Contains inner → Q inner

variable {Q : Ty → Prop} {ty : Ty} {tys : List Ty} {fields : List (FieldOf Ty)}
  {additional : Option Ty} {discriminator : Option Discriminator}

theorem each_array {element : Ty} :
    (Ty.array element).Each Q ↔ Q (.array element) ∧ element.Each Q := by
  constructor
  · exact fun h => ⟨h _ .self, fun inner hi => h inner (.element hi)⟩
  · rintro ⟨hq, he⟩ inner hi
    cases hi with
    | self => exact hq
    | element hi => exact he inner hi

theorem each_object : (Ty.object fields additional).Each Q ↔ Q (.object fields additional) ∧
    (∀ field ∈ fields, field.ty.Each Q) ∧ ∀ ty, additional = some ty → ty.Each Q := by
  constructor
  · refine fun h => ⟨h _ .self, fun field hf inner hi => h inner (.field hf hi), ?_⟩
    rintro ty rfl inner hi
    exact h inner (.additional hi)
  · rintro ⟨hq, hf, ha⟩ inner hi
    cases hi with
    | self => exact hq
    | field hm hi => exact hf _ hm inner hi
    | additional hi => exact ha _ rfl inner hi

theorem each_union :
    (Ty.union tys discriminator).Each Q ↔ Q (.union tys discriminator) ∧ ∀ ty ∈ tys, ty.Each Q := by
  constructor
  · exact fun h => ⟨h _ .self, fun ty ht inner hi => h inner (.union ht hi)⟩
  · rintro ⟨hq, hm⟩ inner hi
    cases hi with
    | self => exact hq
    | union ht hi => exact hm _ ht inner hi

theorem each_intersection :
    (Ty.intersection tys).Each Q ↔ Q (.intersection tys) ∧ ∀ ty ∈ tys, ty.Each Q := by
  constructor
  · exact fun h => ⟨h _ .self, fun ty ht inner hi => h inner (.intersection ht hi)⟩
  · rintro ⟨hq, hm⟩ inner hi
    cases hi with
    | self => exact hq
    | intersection ht hi => exact hm _ ht inner hi

theorem each_scalar {scalar : Scalar} {format : Option String} (h : Q (.scalar scalar format)) :
    (Ty.scalar scalar format).Each Q := by
  intro inner hi
  cases hi
  exact h

theorem each_enumeration {values : List Literal} (h : Q (.enumeration values)) :
    (Ty.enumeration values).Each Q := by
  intro inner hi
  cases hi
  exact h

theorem each_literal {value : Literal} (h : Q (.literal value)) : (Ty.literal value).Each Q := by
  intro inner hi
  cases hi
  exact h

theorem each_reference {name : String} (h : Q (.reference name)) : (Ty.reference name).Each Q := by
  intro inner hi
  cases hi
  exact h

end Ty

/-! ### Properties that drafts give -/

/-- Types have the property when drafts of nodes of a region make them. -/
structure Ty.MadeWith (scope : Scope) (P : Mention → Prop) (R : Node → Prop) (Q : Ty → Prop) :
    Prop where
  scalar : ∀ {scalar format}, Q (.scalar scalar format)
  enumeration : ∀ {values}, Q (.enumeration values)
  literal : ∀ {value}, Q (.literal value)
  array : ∀ {element}, Q (.array element)
  intersection : ∀ {members}, Q (.intersection members)
  union : ∀ {members}, Q (.union members none)
  discriminated : ∀ {nodes d d' members}, discriminatorOf scope nodes d = .ok d' →
    Q (.union members (some d'))
  /-- It is not for the members of a union to decide. -/
  members : ∀ {members more discriminator}, Q (.union members discriminator) →
    Q (.union more discriminator)
  reference : ∀ {m : Mention}, P m → Q (.reference m.name)
  /-- The fields of a schema have the names of its properties. -/
  object : ∀ {s : Schema} {fields additional}, R (.schema s) →
    fields.map FieldOf.wireName = s.parts.properties.map Prod.fst →
    (∀ field ∈ fields, field.name = scope.options.identifier field.wireName) →
      Q (.object (nameFields [] fields) additional)
  /-- Objects are made into one that has some of their fields, each of which may be required. -/
  merged : ∀ {required : List String} {objects}, (∀ o ∈ objects, Q (.object o.1 o.2)) →
    Q (.object (nameFields [] ((mergeObjects objects).1.map fun field =>
      { field with required := field.required || required.contains field.wireName }))
        (mergeObjects objects).2)
  /-- The region reaches into schemas. -/
  part : ∀ {s : Schema} {node : Node}, R (.schema s) → node.PartOf s → R node

section MadeWith

variable {scope : Scope} {P : Mention → Prop} {R : Node → Prop} {Q : Ty → Prop}
  (hQ : Ty.MadeWith scope P R Q) {ty : Ty} {tys : List Ty}
include hQ

theorem each_any : Ty.any.Each Q := Ty.each_scalar hQ.scalar

theorem each_null : Ty.null.Each Q := Ty.each_scalar hQ.scalar

theorem each_unionOf (h : ∀ ty ∈ tys, ty.Each Q) : (Ty.unionOf tys).Each Q :=
  Ty.each_union.mpr ⟨hQ.union, h⟩

/-- Null may be put to a type. -/
theorem Ty.Each.nullable (h : ty.Each Q) : ty.nullable.Each Q := by
  unfold Ty.nullable
  split
  · exact h
  · next members discriminator =>
    obtain ⟨hq, hm⟩ := Ty.each_union.mp h
    refine Ty.each_union.mpr ⟨hQ.members hq, ?_⟩
    split_ifs
    · exact hm
    · intro ty ht
      rcases List.mem_append.mp ht with ht | ht
      · exact hm ty ht
      · rw [List.mem_singleton.mp ht]
        exact each_null hQ
  · refine each_unionOf hQ (List.forall_mem_cons.mpr ⟨h, fun ty ht => ?_⟩)
    rw [List.mem_singleton.mp ht]
    exact each_null hQ

theorem each_literalOrAny : ∀ value : Option Literal, (literalOrAny value).Each Q
  | some _ => Ty.each_literal hQ.literal
  | none => each_any hQ

theorem each_enumType (f : Facets) (values : List Json) : (enumType f values).Each Q := by
  unfold enumType
  dsimp only
  split
  · exact Ty.each_enumeration hQ.enumeration
  · split
    · exact each_null hQ
    · exact each_literalOrAny hQ _
    · refine each_unionOf hQ fun ty ht => ?_
      obtain ⟨value, -, rfl⟩ := List.mem_map.mp ht
      exact each_literalOrAny hQ value

end MadeWith

/-! ### Objects made into one -/

section Merging

variable {field : FieldOf Ty} {fields more : List (FieldOf Ty)}

theorem forall_mem_nameFields {T : Ty → Prop} : ∀ (taken : List String) {fields : List (FieldOf Ty)},
    (∀ field ∈ fields, T field.ty) → ∀ field ∈ nameFields taken fields, T field.ty
  | taken, first :: rest, h, field, hm => by
    rw [List.forall_mem_cons] at h
    rcases List.mem_cons.mp hm with rfl | hm
    · exact h.1
    · exact forall_mem_nameFields _ h.2 field hm

/-- The field is one of the list, whether required or not. -/
def FieldOf.IsOf (field : FieldOf Ty) (fields : List (FieldOf Ty)) : Prop :=
  ∃ own ∈ fields, field = { own with required := field.required }

theorem FieldOf.isOf_of_mem (h : field ∈ fields) : field.IsOf fields := ⟨field, h, rfl⟩

theorem isOf_of_mem_mergeField {other : FieldOf Ty} : ∀ {fields : List (FieldOf Ty)},
    other ∈ mergeField field fields → other.IsOf [field] ∨ other ∈ fields
  | [], h => Or.inl (FieldOf.isOf_of_mem h)
  | first :: rest, h => by
    unfold mergeField at h
    split_ifs at h
    · rcases List.mem_cons.mp h with rfl | h
      · exact Or.inl ⟨field, List.mem_singleton.mpr rfl, rfl⟩
      · exact Or.inr (List.mem_cons_of_mem _ h)
    · rcases List.mem_cons.mp h with rfl | h
      · exact Or.inr List.mem_cons_self
      · exact (isOf_of_mem_mergeField h).imp_right (List.mem_cons_of_mem _)

theorem isOf_of_mem_mergeFields {other : FieldOf Ty} (h : other ∈ mergeFields fields more) :
    other.IsOf more ∨ other ∈ fields := by
  refine List.foldlRecOn more (fun fields field => mergeField field fields) Or.inr
    (motive := fun merged : List (FieldOf Ty) =>
      other ∈ merged → other.IsOf more ∨ other ∈ fields) ?_ h
  intro merged ih own hown h
  rcases isOf_of_mem_mergeField h with ⟨_, hsingle, he⟩ | h
  · rw [List.mem_singleton.mp hsingle] at he
    exact Or.inl ⟨own, hown, he⟩
  · exact ih h

/-- The fields of the one object that objects make are fields of these, and its further members have
the type that one of these gives. -/
theorem isOf_mergeObjects (objects : List (List (FieldOf Ty) × Option Ty)) :
    (∀ field ∈ (mergeObjects objects).1, ∃ o ∈ objects, field.IsOf o.1) ∧
      ∀ ty, (mergeObjects objects).2 = some ty → ∃ o ∈ objects, o.2 = some ty := by
  have hnone : (∀ field ∈ ([] : List (FieldOf Ty)), ∃ o ∈ objects, field.IsOf o.1) ∧
      ∀ ty, (none : Option Ty) = some ty → ∃ o ∈ objects, o.2 = some ty :=
    ⟨fun _ hm => absurd hm List.not_mem_nil, fun _ ht => by cases ht⟩
  refine List.foldlRecOn objects _ hnone (motive := fun merged : List (FieldOf Ty) × Option Ty =>
    (∀ field ∈ merged.1, ∃ o ∈ objects, field.IsOf o.1) ∧
      ∀ ty, merged.2 = some ty → ∃ o ∈ objects, o.2 = some ty) ?_
  rintro ⟨fields, additional⟩ ⟨hfields, hadditional⟩ ⟨more, other⟩ hm
  refine ⟨fun field hf => ?_, fun ty ht => ?_⟩
  · rcases isOf_of_mem_mergeFields hf with hown | hf
    · exact ⟨_, hm, hown⟩
    · exact hfields field hf
  · cases other with
    | some own => exact ⟨_, hm, ht⟩
    | none => exact hadditional ty ht

/-- **Members that hold together** make a type with the properties of the members. -/
theorem each_allOfType {scope : Scope} {P : Mention → Prop} {R : Node → Prop} {Q : Ty → Prop}
    (hQ : Ty.MadeWith scope P R Q) (required : List String) {tys : List Ty}
    (h : ∀ ty ∈ tys, ty.Each Q) : (allOfType required tys).Each Q := by
  unfold allOfType
  split
  · exact each_any hQ
  · split
    · next objects ho =>
      have hobjects : ∀ o ∈ objects, (Ty.object o.1 o.2).Each Q := by
        intro o hm
        obtain ⟨ty, ht, he⟩ := exists_of_forall₂_right (forall₂_of_mapM_eq_some ho) hm
        exact Ty.eq_object_of_asObject? he ▸ h ty ht
      obtain ⟨hfields, hadditional⟩ := isOf_mergeObjects objects
      refine Ty.each_object.mpr ⟨hQ.merged fun o hm => hobjects o hm _ .self,
        forall_mem_nameFields [] fun field hm => ?_, fun ty ht => ?_⟩
      · obtain ⟨other, hother, rfl⟩ := List.mem_map.mp hm
        obtain ⟨o, ho, own, hown, he⟩ := hfields other hother
        rw [show other.ty = own.ty by rw [he]]
        exact (Ty.each_object.mp (hobjects o ho)).2.1 own hown
      · obtain ⟨o, ho, he⟩ := hadditional ty ht
        exact (Ty.each_object.mp (hobjects o ho)).2.2 ty he
    · split
      · exact h _ List.mem_cons_self
      · exact Ty.each_intersection.mpr ⟨hQ.intersection, h⟩

end Merging

/-! ### Drafts -/

section Drafts

variable {scope : Scope} {P : Mention → Prop} {R : Node → Prop} {Q : Ty → Prop} {s : Schema}
  {ty : Ty} {pointer : String}

/-- Fields are named by the options. -/
theorem name_of_mem_draftFields {required : List String} {base : String} :
    ∀ {properties : List (String × Node)} {fields : List (FieldOf Ty)},
      (draftFields scope required properties (draftNamed scope base properties)).Yields P fields →
        ∀ field ∈ fields, field.name = scope.options.identifier field.wireName
  | [], fields, h, field, hm => by
    rw [draftNamed, draftFields, Draft.yields_pure] at h
    · rw [← h] at hm
      cases hm
    · simp
  | (name, node) :: rest, fields, h, field, hm => by
    simp only [draftNamed, draftFields, Draft.yields_bind, Draft.yields_pure] at h
    obtain ⟨ty, -, more, hmore, rfl⟩ := h
    rcases List.mem_cons.mp hm with rfl | hm
    · rfl
    · exact name_of_mem_draftFields hmore field hm

/-- What is no schema stands for any value, or for an error. -/
theorem eq_any_of_draftNode_other : ∀ {value : Json},
    (draftNode scope pointer (.other value)).Yields P ty → ty = .any
  | .bool true, h => (Draft.yields_pure.mp (show (pure Ty.any : Draft Ty).Yields P ty from h)).symm
  | .bool false, h | .null, h | .number _, h | .string _, h | .array _, h | .object _, h =>
    absurd h Draft.not_yields_fail

/-- The types made of the parts of the schema have the property. -/
def PartsMade (scope : Scope) (P : Mention → Prop) (Q : Ty → Prop) (s : Schema) : Prop :=
  ∀ part : Node, part.PartOf s → ∀ ty, Drafted scope P part ty → ty.Each Q

variable (hQ : Ty.MadeWith scope P R Q) (hR : R (.schema s)) (hs : PartsMade scope P Q s)
include hQ hR hs

theorem each_draftObject
    (h : (draftObject scope s (draftParts scope pointer s.parts)).Yields P ty) :
    ty.Each Q := by
  simp only [draftObject, Draft.yields_bind, Draft.yields_pure] at h
  obtain ⟨fields, hf, additional, ha, rfl⟩ := h
  have hnames := map_wireName_of_draftedFrom (draftFields_yields hf)
  refine Ty.each_object.mpr ⟨hQ.object hR hnames (name_of_mem_draftFields hf),
    forall_mem_nameFields [] fun field hm => ?_, fun ty ht => ?_⟩
  · obtain ⟨entry, he, -, -, hd⟩ := exists_of_forall₂_right (draftFields_yields hf) hm
    exact hs entry.2 (.property he) field.ty hd
  · obtain ⟨node, hn, hd⟩ := draftAdditional_yields ha ht
    exact hs node (.additional hn) ty hd

omit hR in
theorem each_draftArray (h : (draftArray (draftParts scope pointer s.parts)).Yields P ty) :
    ty.Each Q := by
  unfold draftArray at h
  split at h
  · next draft hd =>
    obtain ⟨node, hn, rfl⟩ := Option.map_eq_some_iff.mp hd
    obtain ⟨element, he, rfl⟩ := Draft.yields_map.mp h
    exact Ty.each_array.mpr ⟨hQ.array, hs node (.items hn) element ⟨_, he⟩⟩
  · obtain rfl := Draft.yields_pure.mp h
    exact Ty.each_array.mpr ⟨hQ.array, each_any hQ⟩

theorem each_draftTyped {name : String}
    (h : (draftTyped scope pointer s (draftParts scope pointer s.parts) name).Yields P ty) :
    ty.Each Q := by
  unfold draftTyped at h
  split_ifs at h
  · exact each_draftObject hQ hR hs h
  · exact each_draftArray hQ hs h
  · split at h
    · obtain rfl := Draft.yields_pure.mp h
      exact Ty.each_scalar hQ.scalar
    · exact absurd h Draft.not_yields_fail

theorem each_draftTypes
    (h : (draftTypes scope pointer s (draftParts scope pointer s.parts)).Yields P ty) :
    ty.Each Q := by
  unfold draftTypes at h
  split at h
  · exact each_draftTyped hQ hR hs h
  · split_ifs at h
    · exact absurd h Draft.not_yields_fail
    · split at h
      · obtain rfl := Draft.yields_pure.mp h
        exact each_null hQ
      · exact each_draftTyped hQ hR hs h
      · obtain ⟨tys, htys, rfl⟩ := Draft.yields_map.mp h
        refine each_unionOf hQ fun ty ht => ?_
        obtain ⟨draft, hd, hy⟩ := exists_of_forall₂_right (Draft.yields_all.mp htys) ht
        obtain ⟨name, -, rfl⟩ := List.mem_map.mp hd
        exact each_draftTyped hQ hR hs hy
  · split_ifs at h
    · exact each_draftObject hQ hR hs h
    · exact each_draftArray hQ hs h
    · obtain rfl := Draft.yields_pure.mp h
      exact each_any hQ

theorem each_draftAllOf {nodes : List Node} {base : String} (hn : s.parts.allOf = some nodes)
    (h : (draftAllOf scope pointer s nodes (draftParts scope pointer s.parts)
      (draftMembers scope base 0 nodes)).Yields P ty) : ty.Each Q := by
  have hall (tys own : List Ty)
      (htys : List.Forall₂ (Drafted scope P) (nodes.filter Node.isSubstantial) tys)
      (hown : ∀ ty ∈ own, ty.Each Q) :
      (allOfType (requiredNames nodes ++ s.facets.required) (tys ++ own)).Each Q := by
    refine each_allOfType hQ _ fun ty ht => ?_
    rcases List.mem_append.mp ht with ht | ht
    · obtain ⟨node, hnode, hd⟩ := exists_of_forall₂_right htys ht
      exact hs node (.allOf hn (List.mem_filter.mp hnode).1) ty hd
    · exact hown ty ht
  unfold draftAllOf at h
  split_ifs at h
  · exact absurd h Draft.not_yields_fail
  · simp only [Draft.yields_bind, Draft.yields_pure] at h
    obtain ⟨tys, htys, own, rfl, rfl⟩ := h
    exact hall tys [] (substantial_yields htys) fun _ hm => absurd hm List.not_mem_nil
  · simp only [Draft.yields_bind, Draft.yields_pure] at h
    obtain ⟨tys, htys, object, ho, own, rfl, rfl⟩ := h
    refine hall tys [object] (substantial_yields htys) fun ty hm => ?_
    rw [List.mem_singleton.mp hm]
    exact each_draftObject hQ hR hs ho

omit hR hs in
theorem each_draftUnion {nodes : List Node} {base keyword : String}
    (hm : ∀ node ∈ nodes, ∀ ty, Drafted scope P node ty → ty.Each Q)
    (h : (draftUnion scope pointer keyword s nodes (draftMembers scope base 0 nodes)).Yields P ty) :
    ty.Each Q := by
  unfold draftUnion at h
  split_ifs at h
  · exact absurd h Draft.not_yields_fail
  · obtain ⟨tys, htys, h⟩ := Draft.yields_bind.mp h
    have heach : ∀ ty ∈ tys, ty.Each Q := by
      intro ty ht
      obtain ⟨node, hn, hd⟩ := exists_of_forall₂_right (draftMembers_yields htys) ht
      exact hm node hn ty hd
    split at h
    · obtain ⟨discriminator, hd, h⟩ := Draft.yields_bind.mp h
      obtain rfl := Draft.yields_pure.mp h
      exact Ty.each_union.mpr ⟨hQ.discriminated (Draft.yields_ofExcept.mp hd), heach⟩
    · split at h
      · obtain rfl := Draft.yields_pure.mp h
        exact heach _ List.mem_cons_self
      · obtain rfl := Draft.yields_pure.mp h
        exact each_unionOf hQ heach

/-- The keyword that decides the shape makes a type with the properties of the parts. -/
theorem each_draftShape
    (h : (draftShape scope pointer s (draftParts scope pointer s.parts)).Yields P ty) :
    ty.Each Q := by
  unfold draftShape at h
  split at h
  · simp only [draftReference, Draft.yields_bind, Draft.yields_pure, Draft.yields_mention] at h
    obtain ⟨m, -, -, hP, rfl⟩ := h
    exact Ty.each_reference (hQ.reference hP)
  · obtain rfl := Draft.yields_pure.mp h
    exact each_literalOrAny hQ _
  · split at h
    · next members drafts hn hd =>
      obtain rfl : draftMembers scope (Pointer.child pointer "allOf") 0 members = drafts := by
        rw [draftParts, hn] at hd
        exact Option.some.inj hd
      exact each_draftAllOf hQ hR hs hn h
    · split at h
      · next members drafts hn hd =>
        obtain rfl : draftMembers scope (Pointer.child pointer "oneOf") 0 members = drafts := by
          rw [draftParts, hn] at hd
          exact Option.some.inj hd
        exact each_draftUnion hQ (fun node hm => hs node (.oneOf hn hm)) h
      · split at h
        · next members drafts hn hd =>
          obtain rfl : draftMembers scope (Pointer.child pointer "anyOf") 0 members = drafts := by
            rw [draftParts, hn] at hd
            exact Option.some.inj hd
          exact each_draftUnion hQ (fun node hm => hs node (.anyOf hn hm)) h
        · split at h
          · split_ifs at h
            · exact absurd h Draft.not_yields_fail
            · obtain rfl := Draft.yields_pure.mp h
              exact each_enumType hQ _ _
          · exact each_draftTypes hQ hR hs h

omit hR hs in
/-- **A type made of a schema** has the property wherever it is made of parts. -/
theorem Drafted.each (node : Node) (hR : R node) :
    ∀ {ty}, Drafted scope P node ty → ty.Each Q := by
  induction node using Node.induct with
  | other value =>
    rintro ty ⟨pointer, h⟩
    obtain rfl := eq_any_of_draftNode_other h
    exact each_any hQ
  | schema s ih =>
    rintro ty ⟨pointer, h⟩
    rw [draftNode_schema, Draft.yields_map] at h
    obtain ⟨inner, hi, rfl⟩ := h
    have heach := each_draftShape hQ hR (fun part hp ty hd => ih part hp (hQ.part hR hp) hd) hi
    split_ifs
    · exact heach.nullable hQ
    · exact heach

end Drafts

/-! ### Links -/

/-- A name that the type itself gives is known: a reference is the name of something mentioned, and
a value of a discriminator the name of a type that a pointer leads to. -/
def Ty.LinkedBy (scope : Scope) (P : Mention → Prop) : Ty → Prop
  | .reference name => ∃ m, P m ∧ m.name = name
  | .union _ (some discriminator) => ∀ entry ∈ discriminator.mapping,
    ∃ pointer m, scope.resolve pointer = .ok m ∧ m.name = entry.2
  | _ => True

section Links

variable {scope : Scope} {P : Mention → Prop} {pointer : String}

/-- Every value is the name of a type that some pointer leads to. -/
def Scope.Targets (scope : Scope) (mapping : List (String × String)) : Prop :=
  ∀ entry ∈ mapping, ∃ pointer m, scope.resolve pointer = .ok m ∧ m.name = entry.2

theorem Scope.Targets.put {mapping : List (String × String)} (h : scope.Targets mapping)
    {m : Mention} (hm : scope.resolve pointer = .ok m) (value : String) :
    scope.Targets (Member.put value m.name mapping) := by
  intro entry he
  rcases Member.entry_of_mem_put he with he | he
  · exact ⟨pointer, m, hm, he.symm⟩
  · exact h entry he

theorem targets_explicitMapping : ∀ {entries mapping mapping' : List (String × String)},
    scope.Targets mapping → explicitMapping scope mapping entries = .ok mapping' →
      scope.Targets mapping'
  | [], mapping, mapping', h, he => by
    obtain rfl := Except.ok.inj he
    exact h
  | (value, target) :: rest, mapping, mapping', h, he => by
    simp only [explicitMapping, bind_eq_ok] at he
    obtain ⟨m, hm, he⟩ := he
    exact targets_explicitMapping (h.put hm value) he

theorem targets_impliedMapping : ∀ {nodes : List Node} {mapping mapping' : List (String × String)},
    scope.Targets mapping → impliedMapping scope mapping nodes = .ok mapping' →
      scope.Targets mapping'
  | [], mapping, mapping', h, he => by
    obtain rfl := Except.ok.inj he
    exact h
  | .other _ :: rest, mapping, mapping', h, he => by
    rw [impliedMapping] at he
    exact targets_impliedMapping h he
  | .schema s :: rest, mapping, mapping', h, he => by
    rw [impliedMapping] at he
    split at he
    · exact targets_impliedMapping h he
    · obtain ⟨m, hm, he⟩ := bind_eq_ok.mp he
      split_ifs at he
      · exact targets_impliedMapping h he
      · exact targets_impliedMapping (h.put hm m.component) he

theorem targets_discriminatorOf {nodes : List Node} {d d' : Discriminator}
    (h : discriminatorOf scope nodes d = .ok d') : scope.Targets d'.mapping := by
  simp only [discriminatorOf, bind_eq_ok] at h
  obtain ⟨entries, he, mapping, hm, h⟩ := h
  obtain rfl := Except.ok.inj h
  have hnone : scope.Targets [] := fun _ hm => absurd hm List.not_mem_nil
  exact targets_impliedMapping (targets_explicitMapping hnone he) hm

/-- Drafts link the types that they make. -/
theorem madeWith_linkedBy (scope : Scope) (P : Mention → Prop) :
    Ty.MadeWith scope P (fun _ => True) (Ty.LinkedBy scope P) where
  scalar := trivial
  enumeration := trivial
  literal := trivial
  array := trivial
  intersection := trivial
  union := trivial
  discriminated h := targets_discriminatorOf h
  members := by
    rintro members more (_ | discriminator) h
    · trivial
    · exact h
  reference hm := ⟨_, hm, rfl⟩
  object _ _ _ := trivial
  merged _ := trivial
  part _ _ := trivial

/-- **A type made of a schema** is linked by what the draft mentions. -/
theorem Drafted.linked (node : Node) {ty : Ty} (h : Drafted scope P node ty) :
    ty.Each (Ty.LinkedBy scope P) :=
  h.each (madeWith_linkedBy scope P) node trivial

end Links

end ApiDecl
