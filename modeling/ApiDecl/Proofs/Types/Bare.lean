import ApiDecl.Proofs.Types.Walk
import ApiDecl.Types.OfSchema
import Mathlib.Tactic.SplitIfs

/-!
# Types without labels

Fields have a name, a description and a deprecation, which no payload tells of.  `Ty.bare` leaves a
type without these labels.

* `Ty.programs_bare`: the programs of a type do not depend on labels;
* `map_bare_nameFields`: claiming names for fields gives labels and nothing else;
* `Ty.bare_nullable`, `bare_allOfType`: types made of types are the same up to labels if their parts are.
-/

namespace ApiDecl

mutual

/-- The type without the labels of fields. -/
def Ty.bare : Ty → Ty
  | .scalar sort format => .scalar sort format
  | .array element => .array element.bare
  | .object fields additional =>
    .object (Ty.bareFields fields)
      (match additional with
        | none => none
        | some ty => some ty.bare)
  | .union members discriminator => .union (Ty.bareAll members) discriminator
  | .enumeration values => .enumeration values
  | .literal value => .literal value
  | .intersection members => .intersection (Ty.bareAll members)
  | .reference name => .reference name

/-- Fields without labels. -/
def Ty.bareFields : List (FieldOf Ty) → List (FieldOf Ty)
  | [] => []
  | ⟨_, wireName, ty, required, _, _⟩ :: rest =>
    ⟨"", wireName, ty.bare, required, none, false⟩ :: Ty.bareFields rest

/-- Types without the labels of fields. -/
def Ty.bareAll : List Ty → List Ty
  | [] => []
  | ty :: rest => ty.bare :: Ty.bareAll rest

end

/-- The field without its label and those inside. -/
def FieldOf.bare (field : FieldOf Ty) : FieldOf Ty :=
  ⟨"", field.wireName, field.ty.bare, field.required, none, false⟩

theorem Ty.bareFields_eq_map (fields : List (FieldOf Ty)) :
    Ty.bareFields fields = fields.map FieldOf.bare := by
  induction fields with
  | nil => rfl
  | cons field fields ih => rw [Ty.bareFields, ih]; rfl

theorem Ty.bareAll_eq_map (tys : List Ty) : Ty.bareAll tys = tys.map Ty.bare := by
  induction tys with
  | nil => rfl
  | cons ty tys ih => rw [Ty.bareAll, ih]; rfl

@[simp] theorem Ty.bare_object (fields : List (FieldOf Ty)) (additional : Option Ty) :
    (Ty.object fields additional).bare =
      .object (fields.map FieldOf.bare) (additional.map Ty.bare) := by
  cases additional <;> rw [Ty.bare, Ty.bareFields_eq_map] <;> rfl

@[simp] theorem Ty.bare_union (members : List Ty) (discriminator : Option Discriminator) :
    (Ty.union members discriminator).bare = .union (members.map Ty.bare) discriminator := by
  rw [Ty.bare, Ty.bareAll_eq_map]

@[simp] theorem Ty.bare_intersection (members : List Ty) :
    (Ty.intersection members).bare = .intersection (members.map Ty.bare) := by
  rw [Ty.bare, Ty.bareAll_eq_map]

mutual

theorem Ty.bare_bare : ∀ ty : Ty, ty.bare.bare = ty.bare
  | .scalar _ _ | .enumeration _ | .literal _ | .reference _ => rfl
  | .array element => by rw [Ty.bare, Ty.bare, Ty.bare_bare element]
  | .object fields none => by rw [Ty.bare, Ty.bare, Ty.bareFields_bareFields fields]
  | .object fields (some ty) => by
    rw [Ty.bare, Ty.bare, Ty.bareFields_bareFields fields, Ty.bare_bare ty]
  | .union members _ => by rw [Ty.bare, Ty.bare, Ty.bareAll_bareAll members]
  | .intersection members => by rw [Ty.bare, Ty.bare, Ty.bareAll_bareAll members]

theorem Ty.bareFields_bareFields : ∀ fields : List (FieldOf Ty),
    Ty.bareFields (Ty.bareFields fields) = Ty.bareFields fields
  | [] => rfl
  | ⟨_, _, ty, _, _, _⟩ :: fields => by
    rw [Ty.bareFields, Ty.bareFields, Ty.bare_bare ty, Ty.bareFields_bareFields fields]

theorem Ty.bareAll_bareAll : ∀ tys : List Ty, Ty.bareAll (Ty.bareAll tys) = Ty.bareAll tys
  | [] => rfl
  | ty :: tys => by rw [Ty.bareAll, Ty.bareAll, Ty.bare_bare ty, Ty.bareAll_bareAll tys]

end

@[simp] theorem FieldOf.bare_bare (field : FieldOf Ty) : field.bare.bare = field.bare := by
  rw [FieldOf.bare, FieldOf.bare, Ty.bare_bare]

/-! ### Programs -/

mutual

/-- **The programs of a type** do not depend on labels. -/
theorem Ty.programs_bare (kind : Kind) : ∀ ty : Ty, ty.bare.programs kind = ty.programs kind
  | .scalar _ _ | .enumeration _ | .literal _ | .reference _ => by rw [Ty.bare]
  | .array element => by rw [Ty.bare, Ty.programs, Ty.programs, Ty.programs_bare kind element]
  | .object fields none => by
    rw [Ty.bare, Ty.programs, Ty.programs, Ty.fieldPrograms_bareFields kind fields]
  | .object fields (some ty) => by
    rw [Ty.bare, Ty.programs, Ty.programs, Ty.fieldPrograms_bareFields kind fields,
      Ty.programs_bare kind ty]
  | .union members _ => by
    rw [Ty.bare, Ty.programs, Ty.programs, Ty.memberPrograms_bareAll kind members]
  | .intersection members => by
    rw [Ty.bare, Ty.programs, Ty.programs, Ty.memberPrograms_bareAll kind members]

theorem Ty.fieldPrograms_bareFields (kind : Kind) : ∀ fields : List (FieldOf Ty),
    Ty.fieldPrograms kind (Ty.bareFields fields) = Ty.fieldPrograms kind fields
  | [] => rfl
  | ⟨_, _, ty, _, _, _⟩ :: fields => by
    rw [Ty.bareFields, Ty.fieldPrograms, Ty.fieldPrograms, Ty.programs_bare kind ty,
      Ty.fieldPrograms_bareFields kind fields]

theorem Ty.memberPrograms_bareAll (kind : Kind) : ∀ tys : List Ty,
    Ty.memberPrograms kind (Ty.bareAll tys) = Ty.memberPrograms kind tys
  | [] => rfl
  | ty :: tys => by
    rw [Ty.bareAll, Ty.memberPrograms, Ty.memberPrograms, Ty.programs_bare kind ty,
      Ty.memberPrograms_bareAll kind tys]

end

theorem Ty.programs_eq_of_bare {ty ty' : Ty} (h : ty.bare = ty'.bare) (kind : Kind) :
    ty.programs kind = ty'.programs kind := by
  rw [← Ty.programs_bare kind ty, h, Ty.programs_bare]

theorem Ty.links_eq_of_bare {ty ty' : Ty} (h : ty.bare = ty'.bare) : ty.links = ty'.links := by
  rw [Ty.links, Ty.programs_eq_of_bare h, Ty.programs_eq_of_bare h, Ty.links]

/-! ### Ways of making types -/

/-- Claiming names gives labels. -/
theorem map_bare_nameFields : ∀ (fields : List (FieldOf Ty)) (taken : List String),
    (nameFields taken fields).map FieldOf.bare = fields.map FieldOf.bare
  | [], _ => rfl
  | field :: fields, taken => by
    rw [nameFields, List.map_cons, List.map_cons, map_bare_nameFields fields]
    rfl

theorem Ty.isNull_bare (ty : Ty) : ty.bare.isNull = ty.isNull := by
  cases ty with
  | object fields additional => rw [Ty.bare_object]; rfl
  | _ => rfl

theorem Ty.bare_nullable (ty : Ty) : ty.nullable.bare = ty.bare.nullable := by
  cases ty with
  | scalar sort format => cases sort <;> rfl
  | union members discriminator =>
    have hany : (members.map Ty.bare).any Ty.isNull = members.any Ty.isNull := by
      rw [List.any_map]
      exact congrArg members.any (funext Ty.isNull_bare)
    rw [Ty.bare_union, Ty.nullable, Ty.nullable, hany, Ty.bare_union]
    split_ifs <;> simp [Ty.null, Ty.bare]
  | object fields additional => simp [Ty.nullable, Ty.unionOf, Ty.null, Ty.bare]
  | array _ | enumeration _ | literal _ | intersection _ | reference _ =>
    simp [Ty.nullable, Ty.unionOf, Ty.null, Ty.bare]

theorem map_bare_mergeField (field : FieldOf Ty) : ∀ fields : List (FieldOf Ty),
    (mergeField field fields).map FieldOf.bare = mergeField field.bare (fields.map FieldOf.bare)
  | [] => rfl
  | other :: fields => by
    rw [List.map_cons, mergeField, mergeField]
    by_cases h : other.wireName = field.wireName
    · have hbare : other.bare.wireName = field.bare.wireName := h
      rw [if_pos h, if_pos hbare]
      rfl
    · have hbare : ¬ other.bare.wireName = field.bare.wireName := h
      rw [if_neg h, if_neg hbare, List.map_cons, map_bare_mergeField field fields]

/-- The fields and the type of further members without labels. -/
def bareObject (object : List (FieldOf Ty) × Option Ty) : List (FieldOf Ty) × Option Ty :=
  (object.1.map FieldOf.bare, object.2.map Ty.bare)

theorem Ty.asObject?_bare (ty : Ty) : ty.bare.asObject? = ty.asObject?.map bareObject := by
  cases ty <;> simp [Ty.asObject?, bareObject, Ty.bare]

theorem map_bare_mergeFields (fields more : List (FieldOf Ty)) :
    (mergeFields fields more).map FieldOf.bare =
      mergeFields (fields.map FieldOf.bare) (more.map FieldOf.bare) := by
  unfold mergeFields
  rw [List.foldl_map]
  exact (List.foldl_hom (List.map FieldOf.bare)
    fun fields field => (map_bare_mergeField field fields).symm).symm

theorem bareObject_mergeObjects (objects : List (List (FieldOf Ty) × Option Ty)) :
    bareObject (mergeObjects objects) = mergeObjects (objects.map bareObject) := by
  unfold mergeObjects
  rw [List.foldl_map]
  refine (List.foldl_hom bareObject fun merged object => ?_).symm
  refine Prod.ext (map_bare_mergeFields merged.1 object.1).symm ?_
  change (object.2.map Ty.bare <|> merged.2.map Ty.bare) = (object.2 <|> merged.2).map Ty.bare
  cases object.2 <;> rfl

theorem mapM_asObject?_bare : ∀ tys : List Ty,
    (tys.map Ty.bare).mapM Ty.asObject? = (tys.mapM Ty.asObject?).map (List.map bareObject)
  | [] => rfl
  | ty :: tys => by
    rw [List.map_cons, List.mapM_cons, List.mapM_cons, Ty.asObject?_bare, mapM_asObject?_bare tys]
    cases ty.asObject? with
    | none => rfl
    | some object => cases tys.mapM Ty.asObject? <;> rfl

/-- Fields required by name, up to labels. -/
theorem map_bare_require (required : List String) (fields : List (FieldOf Ty)) :
    (fields.map fun field =>
      { field with required := field.required || required.contains field.wireName }).map
        FieldOf.bare =
    (fields.map FieldOf.bare).map fun field =>
      { field with required := field.required || required.contains field.wireName } := by
  rw [List.map_map, List.map_map]
  rfl

@[simp] theorem map_bare_map_bare (fields : List (FieldOf Ty)) :
    (fields.map FieldOf.bare).map FieldOf.bare = fields.map FieldOf.bare := by
  rw [List.map_map]
  exact List.map_congr_left fun field _ => field.bare_bare

@[simp] theorem Ty.map_bare_map_bare (tys : List Ty) :
    (tys.map Ty.bare).map Ty.bare = tys.map Ty.bare := by
  rw [List.map_map]
  exact List.map_congr_left fun ty _ => ty.bare_bare

/-- Members that hold together make one type up to labels. -/
theorem bare_allOfType (required : List String) (tys : List Ty) :
    (allOfType required tys).bare = (allOfType required (tys.map Ty.bare)).bare := by
  cases tys with
  | nil => rfl
  | cons ty tys =>
    have hmap := mapM_asObject?_bare (ty :: tys)
    rw [List.map_cons] at hmap ⊢
    unfold allOfType
    dsimp only
    rw [hmap]
    cases (ty :: tys).mapM Ty.asObject? with
    | none =>
      cases tys with
      | nil => exact ty.bare_bare.symm
      | cons other tys =>
        simp only [Option.map_none, List.map_cons, Ty.bare_intersection, Ty.bare_bare,
          Ty.map_bare_map_bare]
    | some objects =>
      have hmerge := bareObject_mergeObjects objects
      simp only [Option.map_some, ← hmerge, bareObject, Ty.bare_object, map_bare_nameFields,
        map_bare_require, map_bare_map_bare, Option.map_map]
      exact congrArg (fun f => Ty.object _ (Option.map f _)) (funext fun ty => ty.bare_bare.symm)

theorem bare_allOfType_congr {required : List String} {tys tys' : List Ty}
    (h : tys.map Ty.bare = tys'.map Ty.bare) :
    (allOfType required tys).bare = (allOfType required tys').bare := by
  rw [bare_allOfType, h, ← bare_allOfType]

end ApiDecl
