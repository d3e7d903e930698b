import ApiDecl.Proofs.Types.Requirements

/-!
# Own members beside a composition

A schema may have properties and a schema for further members beside `allOf`, `oneOf` or `anyOf`.
Under `allOf` its properties make an object of their own, which stands last among the members: so it
gives the one object its fields and its further members, or is a member of the intersection
(`hasField_allOfType`, `hasAdditional_allOfType`).

Only properties lead to that object.  Under `allOf` without properties, and under `oneOf` and `anyOf`,
the type is the one that the schema has without own members (`draftNode_eq_withoutOwn`).
-/

namespace ApiDecl

/-! ### Objects that a type asks for -/

/-- A type asks for itself, and an intersection for each member; null may be allowed besides. -/
inductive Ty.Imposes : Ty → Ty → Prop
  | self {ty : Ty} : Imposes ty ty
  | intersection {members : List Ty} {member inner : Ty} :
      member ∈ members → Imposes member inner → Imposes (.intersection members) inner
  | orNull {ty inner : Ty} : Imposes ty inner → Imposes (.unionOf [ty, .null]) inner

/-- The type asks for a field with the wire name and the type. -/
def Ty.HasField (ty : Ty) (name : String) (inner : Ty) : Prop :=
  ∃ fields additional, ty.Imposes (.object fields additional) ∧
    ∃ field ∈ fields, field.wireName = name ∧ field.ty = inner

/-- The type asks for further members of the type. -/
def Ty.HasAdditional (ty inner : Ty) : Prop :=
  ∃ fields, ty.Imposes (.object fields (some inner))

section Imposes

variable {ty inner : Ty} {name : String} {types : String → Option Ty} {kind : Kind}
  {members : List (String × Payload)} {child : Payload} {route : Route}

theorem Ty.Imposes.holds (h : ty.Imposes inner) : ty.Holds inner := by
  induction h with
  | self => exact .self
  | intersection hm _ ih => exact .intersection hm ih
  | orNull _ ih => exact .union List.mem_cons_self ih

/-- Null besides does not matter to an object or to an intersection. -/
theorem Ty.Imposes.withNull {nullable : Bool} (h : ty.Imposes inner)
    (hn : ty.nullable = .unionOf [ty, .null]) :
    ((if nullable then Ty.nullable else id) ty).Imposes inner := by
  split_ifs
  · rw [hn]
    exact .orNull h
  · exact h

/-- **What is reached in a field** is reached at the member of its wire name. -/
theorem Ty.HasField.reaches (h : ty.HasField name inner)
    (hat : members[Member.position name members]? = some (name, child))
    (hr : Reaches types kind inner child route) :
    Reaches types kind ty (.object members) (Member.position name members :: route) := by
  obtain ⟨fields, additional, himposes, field, hm, rfl, rfl⟩ := h
  exact himposes.holds.reaches (.field hm hat hr)

/-- What is reached in further members is reached at any member. -/
theorem Ty.HasAdditional.reaches {i : Nat} (h : ty.HasAdditional inner)
    (hat : members[i]? = some (name, child)) (hr : Reaches types kind inner child route) :
    Reaches types kind ty (.object members) (i :: route) := by
  obtain ⟨fields, himposes⟩ := h
  exact himposes.holds.reaches (.additional hat hr)

end Imposes

/-! ### An object that stands last -/

section Last

variable {required : List String} {tys : List Ty} {fields : List (FieldOf Ty)}
  {additional : Option Ty} {nullable : Bool}

/-- An object that stands last makes an object with objects before it, and an intersection else. -/
theorem allOfType_concat_object (required : List String) (tys : List Ty)
    (fields : List (FieldOf Ty)) (additional : Option Ty) :
    (∃ objects, allOfType required (tys ++ [.object fields additional]) =
        .object (mergedFields required (objects ++ [(fields, additional)]))
          (mergeObjects (objects ++ [(fields, additional)])).2) ∨
      allOfType required (tys ++ [.object fields additional]) =
        .intersection (tys ++ [.object fields additional]) := by
  by_cases ho : ∀ ty ∈ tys, ty.asObject?.isSome = true
  · obtain ⟨objects, rfl⟩ := exists_objects_of_isSome ho
    refine Or.inl ⟨objects, ?_⟩
    rw [← allOfType_objects (List.append_ne_nil_of_right_ne_nil _ (List.cons_ne_nil _ _)),
      List.map_append, List.map_singleton]
  · refine Or.inr ?_
    have hnone : (tys ++ [Ty.object fields additional]).mapM Ty.asObject? = none :=
      mapM_asObject?_eq_none fun h => ho fun ty ht => h ty (List.mem_append_left _ ht)
    obtain ⟨first, rest, rfl⟩ := List.exists_cons_of_ne_nil
      (fun hnil => ho (hnil ▸ fun _ hm => absurd hm List.not_mem_nil) : tys ≠ [])
    rw [List.cons_append] at hnone ⊢
    unfold allOfType
    simp only [hnone]
    cases rest <;> rfl

/-- A field of the last object is that of the one object, up to its name and whether it is required. -/
theorem exists_of_mem_last {objects : List (List (FieldOf Ty) × Option Ty)} {field : FieldOf Ty}
    (hm : field ∈ fields) : ∃ own ∈ fields, own.wireName = field.wireName ∧
      ∃ merged ∈ mergedFields required (objects ++ [(fields, additional)]),
        merged.wireName = field.wireName ∧ merged.ty = own.ty := by
  have hmerges : Merges (objects ++ [(fields, additional)]) (· ∈ required) _ _ := merges_mergedFields
  have hname : field.wireName ∈ fields.map FieldOf.wireName := List.mem_map_of_mem hm
  have hmerged : field.wireName ∈ (mergedFields required (objects ++ [(fields, additional)])).map
      FieldOf.wireName := by
    rw [hmerges.wireNames, List.mem_eraseDups, List.mem_flatMap]
    exact ⟨(fields, additional), by simp, hname⟩
  obtain ⟨merged, hin, hw⟩ := List.mem_map.mp hmerged
  obtain ⟨o, ho, own, hown, he⟩ := hmerges.last merged hin
  rw [hw] at ho
  rcases isLast_concat.mp ho with ⟨-, rfl⟩ | ⟨hnot, -⟩
  · have hwire : merged.wireName = own.wireName := by rw [he]
    exact ⟨own, hown, hwire.symm.trans hw, merged, hin, hw, by rw [he]⟩
  · exact absurd hname hnot

/-- **The last object gives its fields** to what it is put together with. -/
theorem hasField_allOfType {name : String} (hn : name ∈ fields.map FieldOf.wireName) :
    ∃ own ∈ fields, own.wireName = name ∧ ((if nullable then Ty.nullable else id)
      (allOfType required (tys ++ [.object fields additional]))).HasField name own.ty := by
  obtain ⟨field, hm, rfl⟩ := List.mem_map.mp hn
  rcases allOfType_concat_object required tys fields additional with ⟨objects, he⟩ | he
  · obtain ⟨own, hown, hw, merged, hmerged, hname, hty⟩ := exists_of_mem_last hm
    refine ⟨own, hown, hw, ?_⟩
    rw [he]
    exact ⟨_, _, Ty.Imposes.self.withNull rfl, merged, hmerged, hname, hty⟩
  · refine ⟨field, hm, rfl, ?_⟩
    rw [he]
    have hlast : Ty.object fields additional ∈ tys ++ [.object fields additional] := by simp
    exact ⟨_, _, (Ty.Imposes.intersection hlast .self).withNull rfl, field, hm, rfl, rfl⟩

/-- **The last object gives its further members.** -/
theorem hasAdditional_allOfType {inner : Ty} : ((if nullable then Ty.nullable else id)
    (allOfType required (tys ++ [.object fields (some inner)]))).HasAdditional inner := by
  rcases allOfType_concat_object required tys fields (some inner) with ⟨objects, he⟩ | he
  · have hsnd : (mergeObjects (objects ++ [(fields, some inner)])).2 = some inner := by
      rw [mergeObjects_append]
      rfl
    rw [he, hsnd]
    exact ⟨_, Ty.Imposes.self.withNull rfl⟩
  · rw [he]
    have hlast : Ty.object fields (some inner) ∈ tys ++ [.object fields (some inner)] := by simp
    exact ⟨_, (Ty.Imposes.intersection hlast .self).withNull rfl⟩

end Last

/-! ### Own members of a schema -/

/-- Every own property is a field of the type, and the schema for further members is the type of
these; `false` stands for none. -/
structure Schema.ShowsOwn (scope : Scope) (P : Mention → Prop) (s : Schema) (ty : Ty) : Prop where
  property : ∀ name ∈ s.parts.properties.map Prod.fst, ∃ node inner,
    (name, node) ∈ s.parts.properties ∧ Drafted scope P node inner ∧ ty.HasField name inner
  additional : ∀ node, s.parts.additional = some node → node ≠ .other (.bool false) →
    ∃ inner, Drafted scope P node inner ∧ ty.HasAdditional inner

/-- A walk of the type goes on in the own members of the schema, for each kind of conversion. -/
structure Schema.WalksOwn (scope : Scope) (P : Mention → Prop) (s : Schema) (ty : Ty) : Prop where
  property : ∀ name ∈ s.parts.properties.map Prod.fst, ∃ node inner,
    (name, node) ∈ s.parts.properties ∧ Drafted scope P node inner ∧
      ∀ types kind members child route,
        members[Member.position name members]? = some (name, child) →
          Reaches types kind inner child route →
            Reaches types kind ty (.object members) (Member.position name members :: route)
  additional : ∀ node, s.parts.additional = some node → node ≠ .other (.bool false) →
    ∃ inner, Drafted scope P node inner ∧ ∀ types kind members i name child route,
      members[i]? = some (name, child) → Reaches types kind inner child route →
        Reaches types kind ty (.object members) (i :: route)

/-- The schema without its properties and its schema for further members. -/
def Schema.withoutOwn (s : Schema) : Schema :=
  ⟨s.facets, { s.parts with properties := [], additional := none }⟩

section Schemas

variable {scope : Scope} {P : Mention → Prop} {s : Schema} {members : List Node} {place : String}
  {ty : Ty}

theorem Schema.ShowsOwn.walksOwn (h : s.ShowsOwn scope P ty) : s.WalksOwn scope P ty where
  property name hn := by
    obtain ⟨node, inner, hm, hd, hfield⟩ := h.property name hn
    exact ⟨node, inner, hm, hd, fun _ _ _ _ _ hat hr => hfield.reaches hat hr⟩
  additional node hn hne := by
    obtain ⟨inner, hd, hadditional⟩ := h.additional node hn hne
    exact ⟨inner, hd, fun _ _ _ _ _ _ _ hat hr => hadditional.reaches hat hr⟩

/-- A schema for further members other than `false` gives their type. -/
theorem exists_of_draftAdditional {node : Node} {base : String} {additional : Option Ty}
    (hne : node ≠ .other (.bool false))
    (h : (draftAdditional (some node) (some (draftNode scope base node))).Yields P additional) :
    ∃ inner, additional = some inner ∧ Drafted scope P node inner := by
  simp only [draftAdditional, Draft.yields_map] at h
  obtain ⟨inner, hi, rfl⟩ := h
  exact ⟨inner, rfl, base, hi⟩

/-- **The object of the own members** stands last under `allOf`, so they show. -/
theorem showsOwn_of_object {required : List String} {tys : List Ty} {object : Ty} {nullable : Bool}
    (h : (draftObject scope s (draftParts scope place s.parts)).Yields P object) :
    s.ShowsOwn scope P ((if nullable then Ty.nullable else id)
      (allOfType required (tys ++ [object]))) := by
  simp only [draftObject, Draft.yields_bind, Draft.yields_pure] at h
  obtain ⟨fields, hf, additional, ha, rfl⟩ := h
  have hfields := draftFields_yields hf
  constructor
  · intro name hn
    have hname : name ∈ (nameFields [] fields).map FieldOf.wireName := by
      rw [map_wireName_nameFields, map_wireName_of_draftedFrom hfields]
      exact hn
    obtain ⟨named, hnamed, rfl, hfield⟩ := hasField_allOfType hname
    obtain ⟨own, hown, he⟩ := exists_of_mem_nameFields hnamed
    obtain ⟨entry, hm, hw, -, hd⟩ := exists_of_forall₂_right hfields hown
    have hwire : named.wireName = entry.1 := by rw [← hw, he]
    have hty : named.ty = own.ty := by rw [he]
    exact ⟨entry.2, named.ty, hwire ▸ hm, hty ▸ hd, hfield⟩
  · intro node hn hne
    rw [draftParts, hn] at ha
    obtain ⟨inner, rfl, hd⟩ := exists_of_draftAdditional hne ha
    exact ⟨inner, hd, hasAdditional_allOfType⟩

/-- Own members that no object is made of have no effect. -/
theorem draftNode_eq_withoutOwn
    (hcomp : s.parts.allOf.isSome = true ∨ s.parts.oneOf.isSome = true ∨ s.parts.anyOf.isSome = true)
    (hno : s.parts.allOf.isSome = true → s.parts.properties = []) (place : String) :
    draftNode scope place (.schema s) = draftNode scope place (.schema s.withoutOwn) := by
  obtain ⟨facets, ⟨properties, items, additional, oneOf, anyOf, allOf⟩⟩ := s
  rw [draftNode_schema, draftNode_schema]
  refine congrArg (_ <$> ·) ?_
  simp only [draftShape, Schema.withoutOwn, draftParts]
  cases allOf with
  | some members =>
    obtain rfl := hno rfl
    rfl
  | none =>
    cases oneOf with
    | some members => rfl
    | none =>
      cases anyOf with
      | some members => rfl
      | none => simp at hcomp

/-- **Own members beside a composition** show in the type, and their values are converted, if they
include properties and the composition is `allOf`.  Otherwise they have no effect on the type. -/
theorem composed_shows_own (hr : s.facets.reference = none) (hc : s.facets.constant = none)
    (hcomp : s.parts.allOf.isSome = true ∨ s.parts.oneOf.isSome = true ∨ s.parts.anyOf.isSome = true)
    (hy : (draftNode scope place (.schema s)).Yields P ty) :
    (s.parts.allOf.isSome = true ∧ s.parts.properties ≠ [] →
        s.ShowsOwn scope P ty ∧ s.WalksOwn scope P ty) ∧
      (¬ (s.parts.allOf.isSome = true ∧ s.parts.properties ≠ []) → ∀ place,
        draftNode scope place (.schema s) = draftNode scope place (.schema s.withoutOwn)) := by
  refine ⟨fun ⟨hall, hproperties⟩ => ?_, fun hno => ?_⟩
  · obtain ⟨members, ha⟩ := Option.isSome_iff_exists.mp hall
    obtain ⟨-, tys, hcomposed, rfl⟩ := (draftNode_allOf_yields hr hc ha).mp hy
    cases hcomposed with
    | members hnone => exact absurd (List.isEmpty_iff.mp hnone) hproperties
    | own _ _ hobject =>
      exact ⟨showsOwn_of_object hobject, (showsOwn_of_object hobject).walksOwn⟩
  · refine draftNode_eq_withoutOwn hcomp fun hall => ?_
    by_contra hproperties
    exact hno ⟨hall, hproperties⟩

end Schemas

/-! ### Times beside a composition -/

/-- A schema of times. -/
def timeNode : Node :=
  .schema ⟨{ Facets.empty with types := some (.one "string"), format := some "date-time" },
    ⟨[], none, none, none, none, none⟩⟩

/-- A reference to the component of the document. -/
def numberedNode : Node := .schema ⟨{ Facets.empty with reference := some "#/components/schemas/A" },
  ⟨[], none, none, none, none, none⟩⟩

/-- The component with own properties, and times as further members. -/
def datedSchema (properties : List (String × Node)) : Schema :=
  ⟨{ Facets.empty with nullable := some true },
    ⟨properties, none, some timeNode, none, none, some [numberedNode]⟩⟩

/-- An object with a time, and with times as further members. -/
def datedType : Ty :=
  .object [⟨"at", "at", .scalar .string (some "date-time"), false, none, false⟩]
    (some (.scalar .string (some "date-time")))

theorem yields_datedSchema :
    (draftNode numberedScope "" (.schema (datedSchema [("at", timeNode)]))).Yields (fun _ => True)
      (.unionOf [.intersection [.reference "A", datedType], .null]) :=
  ⟨by rfl, fun _ _ => trivial⟩

/-- A property leads to an object, in which the further members show as well. -/
theorem composed_shows_own_dated :
    (datedSchema [("at", timeNode)]).facets.reference = none ∧
      (datedSchema [("at", timeNode)]).facets.constant = none ∧
      ((datedSchema [("at", timeNode)]).parts.allOf.isSome = true ∨
        (datedSchema [("at", timeNode)]).parts.oneOf.isSome = true ∨
        (datedSchema [("at", timeNode)]).parts.anyOf.isSome = true) ∧
      (draftNode numberedScope "" (.schema (datedSchema [("at", timeNode)]))).Yields (fun _ => True)
        (.unionOf [.intersection [.reference "A", datedType], .null]) ∧
      ((datedSchema [("at", timeNode)]).ShowsOwn numberedScope (fun _ => True)
          (.unionOf [.intersection [.reference "A", datedType], .null]) ∧
        (datedSchema [("at", timeNode)]).WalksOwn numberedScope (fun _ => True)
          (.unionOf [.intersection [.reference "A", datedType], .null])) ∧
      ∀ place, draftNode numberedScope place (.schema (datedSchema [])) =
        draftNode numberedScope place (.schema (datedSchema []).withoutOwn) := by
  have hyields : (draftNode numberedScope "" (.schema (datedSchema []))).Yields (fun _ => True)
      (.unionOf [.reference "A", .null]) := ⟨by rfl, fun _ _ => trivial⟩
  exact ⟨rfl, rfl, Or.inl rfl, yields_datedSchema,
    (composed_shows_own rfl rfl (Or.inl rfl) yields_datedSchema).1 ⟨rfl, List.cons_ne_nil _ _⟩,
    (composed_shows_own rfl rfl (Or.inl rfl) hyields).2 fun h => h.2 rfl⟩

/-- Further members are lost beside `allOf` without properties, and properties beside `oneOf`. -/
theorem not_showsOwn_dated :
    ((draftNode numberedScope "#" (.schema (datedSchema []))).result =
        .ok (.unionOf [.reference "A", .null]) ∧
      ¬ (datedSchema []).ShowsOwn numberedScope (fun _ => True)
        (.unionOf [.reference "A", .null])) ∧
    (draftNode numberedScope "#" (.schema ⟨.empty,
        ⟨[("at", timeNode)], none, none, some [numberedNode], none, none⟩⟩)).result =
          .ok (.reference "A") ∧
      ¬ Schema.ShowsOwn numberedScope (fun _ => True) ⟨.empty,
        ⟨[("at", timeNode)], none, none, some [numberedNode], none, none⟩⟩ (.reference "A") := by
  refine ⟨⟨by rfl, fun h => ?_⟩, by rfl, fun h => ?_⟩
  · obtain ⟨inner, -, fields, himposes⟩ := h.additional timeNode rfl Node.noConfusion
    cases himposes with
    | orNull himposes => cases himposes
  · obtain ⟨node, inner, -, -, fields, additional, himposes, -⟩ := h.property "at" List.mem_cons_self
    cases himposes

end ApiDecl
