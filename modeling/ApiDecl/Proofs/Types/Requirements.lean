import ApiDecl.Proofs.Types.Merging
import ApiDecl.Proofs.Types.Walk

/-!
# Requirements under `allOf`

Names are required of the fields under `allOf` by the members, lists of required names among them,
and by the schema itself.  A type `Keeps` them if every object in it, a member of a union or of an
intersection included, has each field of a listed name required.

Objects made into one keep all that is listed.  Any other type holds the objects of the members as
they are, so what is listed outside of an object is lost on it: requirements are kept just if all
members are objects, or each of them keeps the requirements by itself (`allOf_keeps_iff`).
-/

namespace ApiDecl

/-- Every object that the type holds requires its fields of the listed names. -/
def Ty.Keeps (listed : String → Prop) (ty : Ty) : Prop :=
  ∀ fields additional, ty.Holds (.object fields additional) →
    ∀ field ∈ fields, listed field.wireName → field.required = true

section Keeping

variable {listed : String → Prop} {ty : Ty} {tys : List Ty} {fields : List (FieldOf Ty)}
  {additional : Option Ty} {discriminator : Option Discriminator}

theorem keeps_object : (Ty.object fields additional).Keeps listed ↔
    ∀ field ∈ fields, listed field.wireName → field.required = true := by
  refine ⟨fun h => h fields additional .self, fun h more other hm => ?_⟩
  cases hm
  exact h

theorem keeps_union :
    (Ty.union tys discriminator).Keeps listed ↔ ∀ ty ∈ tys, ty.Keeps listed := by
  refine ⟨fun h ty ht fields additional hm => h fields additional (.union ht hm), ?_⟩
  intro h fields additional hm
  cases hm with
  | union ht hm => exact h _ ht fields additional hm

theorem keeps_intersection :
    (Ty.intersection tys).Keeps listed ↔ ∀ ty ∈ tys, ty.Keeps listed := by
  refine ⟨fun h ty ht fields additional hm => h fields additional (.intersection ht hm), ?_⟩
  intro h fields additional hm
  cases hm with
  | intersection ht hm => exact h _ ht fields additional hm

theorem keeps_scalar (scalar : Scalar) (format : Option String) :
    (Ty.scalar scalar format).Keeps listed := by
  intro fields additional hm
  cases hm

theorem keeps_reference (name : String) : (Ty.reference name).Keeps listed := by
  intro fields additional hm
  cases hm

theorem keeps_literalOrAny : ∀ value : Option Literal, (literalOrAny value).Keeps listed
  | none => keeps_scalar _ _
  | some _ => by
    intro fields additional hm
    cases hm

/-- Null does not matter. -/
theorem keeps_nullable : ty.nullable.Keeps listed ↔ ty.Keeps listed := by
  unfold Ty.nullable
  split
  · exact Iff.rfl
  · rw [keeps_union, keeps_union]
    split_ifs
    · exact Iff.rfl
    · rw [List.forall_mem_append, List.forall_mem_singleton]
      exact and_iff_left (keeps_scalar _ _)
  · rw [Ty.unionOf, keeps_union, List.forall_mem_cons, List.forall_mem_singleton]
    exact and_iff_left (keeps_scalar _ _)

end Keeping

/-! ### Members that hold together -/

section Members

variable {required : List String} {ty : Ty} {tys : List Ty}

theorem exists_objects_of_isSome : ∀ {tys : List Ty}, (∀ ty ∈ tys, ty.asObject?.isSome = true) →
    ∃ objects : List (List (FieldOf Ty) × Option Ty), tys = objects.map fun o => .object o.1 o.2
  | [], _ => ⟨[], rfl⟩
  | ty :: rest, h => by
    rw [List.forall_mem_cons] at h
    obtain ⟨o, ho⟩ := Option.isSome_iff_exists.mp h.1
    obtain ⟨objects, rfl⟩ := exists_objects_of_isSome h.2
    exact ⟨o :: objects, by rw [List.map_cons, Ty.eq_object_of_asObject? ho]⟩

/-- The one object that objects make keeps what is required. -/
theorem keeps_allOfType_objects (h : ∀ ty ∈ tys, ty.asObject?.isSome = true) :
    (allOfType required tys).Keeps (· ∈ required) := by
  obtain ⟨objects, rfl⟩ := exists_objects_of_isSome h
  by_cases ho : objects = []
  · rw [ho]
    exact keeps_scalar _ _
  · rw [allOfType_objects ho, keeps_object]
    exact fun field hm hl => (merges_mergedFields.required field hm).mpr (Or.inr hl)

theorem mapM_asObject?_eq_none (h : ¬ ∀ ty ∈ tys, ty.asObject?.isSome = true) :
    tys.mapM Ty.asObject? = none := by
  cases ho : tys.mapM Ty.asObject? with
  | none => rfl
  | some objects =>
    refine absurd (fun ty ht => ?_) h
    obtain ⟨o, -, he⟩ := exists_of_forall₂_left (forall₂_of_mapM_eq_some ho) ht
    rw [he]
    rfl

/-- Where some member is no object, the members stand as they are. -/
theorem keeps_allOfType_iff {listed : String → Prop}
    (h : ¬ ∀ ty ∈ tys, ty.asObject?.isSome = true) :
    (allOfType required tys).Keeps listed ↔ ∀ ty ∈ tys, ty.Keeps listed := by
  unfold allOfType
  split
  · exact absurd (fun ty ht => absurd ht List.not_mem_nil) h
  · rw [mapM_asObject?_eq_none h]
    dsimp only
    split
    · exact List.forall_mem_singleton.symm
    · exact keeps_intersection

end Members

section Schemas

variable {scope : Scope} {P : Mention → Prop} {s : Schema} {members : List Node} {place : String}
  {ty : Ty} {listed : String → Prop}

theorem keeps_withNull {nullable : Bool} :
    ((if nullable then Ty.nullable else id) ty).Keeps listed ↔ ty.Keeps listed := by
  split_ifs
  · exact keeps_nullable
  · exact Iff.rfl

/-- What is decided before `allOf` is no object. -/
theorem keeps_of_decided (hd : s.facets.reference.isSome = true ∨ s.facets.constant.isSome = true)
    (hy : (draftNode scope place (.schema s)).Yields P ty) : ty.Keeps listed := by
  rw [draftNode_schema, Draft.yields_map] at hy
  obtain ⟨inner, hi, rfl⟩ := hy
  rw [keeps_withNull]
  unfold draftShape at hi
  split at hi
  · simp only [draftReference, Draft.yields_bind, Draft.yields_pure] at hi
    obtain ⟨m, -, -, -, rfl⟩ := hi
    exact keeps_reference m.name
  · obtain rfl := Draft.yields_pure.mp hi
    exact keeps_literalOrAny _
  · next hr hc =>
    rw [hr, hc] at hd
    rcases hd with hd | hd <;> cases hd

/-- The types of the members decide whether the requirements are kept. -/
theorem keeps_iff_of_composed {tys : List Ty} (hr : s.facets.reference = none)
    (hc : s.facets.constant = none) (ha : s.parts.allOf = some members)
    (hy : (draftNode scope place (.schema s)).Yields P ty) (ht : s.Composed scope P members tys) :
    ty.Keeps (s.Lists members) ↔ (∀ member ∈ tys, member.asObject?.isSome = true) ∨
      ∀ member ∈ tys, member.Keeps (s.Lists members) := by
  have hm := ((draftNode_allOf_yields hr hc ha).mp hy).1
  have hmade : (draftNode scope place (.schema s)).Yields P _ :=
    (draftNode_allOf_yields hr hc ha).mpr ⟨hm, tys, ht, rfl⟩
  obtain rfl := Except.ok.inj (hy.1.symm.trans hmade.1)
  rw [keeps_withNull]
  by_cases ho : ∀ member ∈ tys, member.asObject?.isSome = true
  · refine iff_of_true ?_ (Or.inl ho)
    rw [← Schema.lists_eq]
    exact keeps_allOfType_objects ho
  · rw [keeps_allOfType_iff ho]
    exact (or_iff_right ho).symm

/-- **Requirements under `allOf` are kept** on every object of the type just if all members are
objects, or each member keeps them by itself, unless another keyword decides the type. -/
theorem allOf_keeps_iff (ha : s.parts.allOf = some members)
    (hy : (draftNode scope place (.schema s)).Yields P ty) : ty.Keeps (s.Lists members) ↔
      s.facets.reference.isSome = true ∨ s.facets.constant.isSome = true ∨
        ∃ tys, s.Composed scope P members tys ∧
          ((∀ member ∈ tys, member.asObject?.isSome = true) ∨
            ∀ member ∈ tys, member.Keeps (s.Lists members)) := by
  rw [← or_assoc]
  by_cases hd : s.facets.reference.isSome = true ∨ s.facets.constant.isSome = true
  · exact iff_of_true (keeps_of_decided hd hy) (Or.inl hd)
  rw [or_iff_right hd]
  obtain ⟨hr, hc⟩ := not_or.mp hd
  rw [Option.not_isSome_iff_eq_none] at hr hc
  constructor
  · obtain ⟨-, tys, ht, -⟩ := (draftNode_allOf_yields hr hc ha).mp hy
    exact fun h => ⟨tys, ht, (keeps_iff_of_composed hr hc ha hy ht).mp h⟩
  · rintro ⟨tys, ht, h⟩
    exact (keeps_iff_of_composed hr hc ha hy ht).mpr h

end Schemas

/-! ### A requirement beside a reference -/

/-- A document with one component, an object with a number. -/
def numberedScope : Scope :=
  ⟨[("A", .schema ⟨{ Facets.empty with types := some (.one "object") },
    ⟨[("id", scalarNode "integer")], none, none, none, none, none⟩⟩)], [("A", "A")], .default⟩

/-- The component, an object with a time, and a list that requires the time. -/
def timedMembers : List Node :=
  [.schema ⟨{ Facets.empty with reference := some "#/components/schemas/A" },
      ⟨[], none, none, none, none, none⟩⟩,
    .schema ⟨{ Facets.empty with types := some (.one "object") },
      ⟨[("at", scalarNode "string")], none, none, none, none, none⟩⟩,
    requiredNode ["at"]]

/-- A schema with members only. -/
def timedSchema (members : List Node) : Schema :=
  ⟨.empty, ⟨[], none, none, none, none, some members⟩⟩

/-- An object with a time that need not be given. -/
def timedType : Ty := .object [⟨"at", "at", .scalar .string none, false, none, false⟩] none

theorem yields_timedSchema : (draftNode numberedScope "" (.schema (timedSchema timedMembers))).Yields
    (fun _ => True) (.intersection [.reference "A", timedType]) :=
  ⟨by rfl, fun _ _ => trivial⟩

/-- Neither are all members objects, nor does each keep the requirement. -/
theorem allOf_keeps_iff_timed :
    (draftNode numberedScope "" (.schema (timedSchema timedMembers))).Yields (fun _ => True)
        (.intersection [.reference "A", timedType]) ∧
      ((Ty.intersection [.reference "A", timedType]).Keeps
          ((timedSchema timedMembers).Lists timedMembers) ↔
        (timedSchema timedMembers).facets.reference.isSome = true ∨
          (timedSchema timedMembers).facets.constant.isSome = true ∨
          ∃ tys, (timedSchema timedMembers).Composed numberedScope (fun _ => True) timedMembers tys ∧
            ((∀ member ∈ tys, member.asObject?.isSome = true) ∨
              ∀ member ∈ tys, member.Keeps ((timedSchema timedMembers).Lists timedMembers))) :=
  ⟨yields_timedSchema, allOf_keeps_iff rfl yields_timedSchema⟩

theorem lists_timedSchema : (timedSchema timedMembers).Lists timedMembers "at" :=
  Or.inl ⟨_, List.mem_cons_of_mem _ (List.mem_cons_of_mem _ List.mem_cons_self),
    List.mem_singleton.mpr rfl⟩

/-- The time is listed as required, and is not required of the object that stands beside a
reference. -/
theorem not_keeps_timed :
    (timedSchema timedMembers).parts.allOf = some timedMembers ∧
      (timedSchema timedMembers).Lists timedMembers "at" ∧
      (draftNode numberedScope "" (.schema (timedSchema timedMembers))).result =
        .ok (.intersection [.reference "A", timedType]) ∧
      ¬ (Ty.intersection [.reference "A", timedType]).Keeps
        ((timedSchema timedMembers).Lists timedMembers) := by
  refine ⟨rfl, lists_timedSchema, yields_timedSchema.1, fun h => ?_⟩
  have htimed := keeps_intersection.mp h timedType (by simp)
  exact Bool.false_ne_true
    (keeps_object.mp htimed _ List.mem_cons_self lists_timedSchema)

end ApiDecl
