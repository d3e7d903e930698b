import ApiDecl.Operation.OfDocument
import ApiDecl.Proofs.Text.Identifier
import ApiDecl.Proofs.Types.Contents

/-!
# Names of fields

Fields, and parameters in the same way, claim their names one after the other: each gets a name that
is still free, and an identifier if it wanted one (`nodup_claimFields`,
`isIdentifier_of_mem_claimFields`).  Wire names are left alone.  Merged fields have distinct wire
names, since a field is put in place of the one that has its wire name.

So every object that drafts make is `WellNamed`, if the properties of the schemas have distinct
names (`madeWith_wellNamed`).
-/

namespace ApiDecl

/-! ### Claiming names -/

theorem claimField_snd (taken : List String) (wanted wireName : String) :
    (claimField taken wanted wireName).2 = (claimField taken wanted wireName).1 :: taken := by
  unfold claimField
  split_ifs <;> rfl

theorem claimField_not_mem (taken : List String) (wanted wireName : String) :
    (claimField taken wanted wireName).1 ∉ taken := by
  unfold claimField
  split_ifs with h
  · exact freeName_not_mem taken _
  · exact h

theorem isIdentifier_claimField {wanted : String} (h : isIdentifier wanted = true)
    (taken : List String) (wireName : String) :
    isIdentifier (claimField taken wanted wireName).1 = true := by
  unfold claimField
  split_ifs
  · exact isIdentifier_freeName (isIdentifier_sanitize wireName)
  · exact h

/-- The names that fields take in turn, each given by the name it wants and its wire name. -/
def claimFields (taken : List String) : List (String × String) → List String
  | [] => []
  | (wanted, wireName) :: rest =>
    (claimField taken wanted wireName).1 :: claimFields (claimField taken wanted wireName).2 rest

theorem not_mem_claimFields : ∀ {wants : List (String × String)} {taken : List String}
    {name : String}, name ∈ claimFields taken wants → name ∉ taken
  | (wanted, wireName) :: rest, taken, name, h => by
    rcases List.mem_cons.mp h with rfl | h
    · exact claimField_not_mem taken wanted wireName
    · have hrest := not_mem_claimFields h
      rw [claimField_snd, List.mem_cons, not_or] at hrest
      exact hrest.2

/-- **Names claimed in turn** are distinct. -/
theorem nodup_claimFields : ∀ (wants : List (String × String)) (taken : List String),
    (claimFields taken wants).Nodup
  | [], _ => List.nodup_nil
  | (wanted, wireName) :: rest, taken => by
    refine List.nodup_cons.mpr ⟨fun h => ?_, nodup_claimFields rest _⟩
    refine not_mem_claimFields h ?_
    rw [claimField_snd]
    exact List.mem_cons_self

theorem isIdentifier_of_mem_claimFields : ∀ {wants : List (String × String)} {taken : List String},
    (∀ want ∈ wants, isIdentifier want.1 = true) →
      ∀ name ∈ claimFields taken wants, isIdentifier name = true
  | (wanted, wireName) :: rest, taken, h, name, hm => by
    rw [List.forall_mem_cons] at h
    rcases List.mem_cons.mp hm with rfl | hm
    · exact isIdentifier_claimField h.1 taken wireName
    · exact isIdentifier_of_mem_claimFields h.2 name hm

theorem map_name_nameFields : ∀ (taken : List String) (fields : List (FieldOf Ty)),
    (nameFields taken fields).map FieldOf.name =
      claimFields taken (fields.map fun field => (field.name, field.wireName))
  | _, [] => rfl
  | _, _ :: rest => congrArg _ (map_name_nameFields _ rest)

theorem map_name_nameBindings : ∀ (taken : List String) (bs : List Binding),
    (nameBindings taken bs).map Binding.name =
      claimFields taken (bs.map fun b => (b.name, b.wireName))
  | _, [] => rfl
  | _, _ :: rest => congrArg _ (map_name_nameBindings _ rest)

/-! ### Merged fields -/

section Merging

variable {field : FieldOf Ty}

theorem mem_wireName_mergeField {wireName : String} : ∀ {fields : List (FieldOf Ty)},
    wireName ∈ (mergeField field fields).map FieldOf.wireName →
      wireName = field.wireName ∨ wireName ∈ fields.map FieldOf.wireName
  | [], h => Or.inl (List.mem_singleton.mp h)
  | first :: rest, h => by
    unfold mergeField at h
    split_ifs at h
    · rcases List.mem_cons.mp h with rfl | h
      · exact Or.inl rfl
      · exact Or.inr (List.mem_cons_of_mem _ h)
    · rcases List.mem_cons.mp h with rfl | h
      · exact Or.inr List.mem_cons_self
      · exact (mem_wireName_mergeField h).imp_right (List.mem_cons_of_mem _)

theorem nodup_mergeField : ∀ {fields : List (FieldOf Ty)}, (fields.map FieldOf.wireName).Nodup →
    ((mergeField field fields).map FieldOf.wireName).Nodup
  | [], _ => List.nodup_singleton _
  | first :: rest, h => by
    obtain ⟨hfirst, hrest⟩ := List.nodup_cons.mp h
    unfold mergeField
    split_ifs with he
    · exact List.nodup_cons.mpr ⟨he ▸ hfirst, hrest⟩
    · refine List.nodup_cons.mpr ⟨fun hm => ?_, nodup_mergeField hrest⟩
      rcases mem_wireName_mergeField hm with hm | hm
      · exact he hm
      · exact hfirst hm

/-- No two fields of the one object that objects make have one wire name. -/
theorem nodup_mergeObjects (objects : List (List (FieldOf Ty) × Option Ty)) :
    ((mergeObjects objects).1.map FieldOf.wireName).Nodup := by
  refine List.foldlRecOn objects _ List.nodup_nil (motive := fun o : List (FieldOf Ty) × Option Ty =>
    (o.1.map FieldOf.wireName).Nodup) ?_
  rintro ⟨fields, additional⟩ h ⟨more, other⟩ -
  exact List.foldlRecOn more _ h (motive := fun fields : List (FieldOf Ty) =>
    (fields.map FieldOf.wireName).Nodup) fun _ h _ _ => nodup_mergeField h

end Merging

/-! ### Objects -/

/-- No two fields of an object have one name or one wire name, and the names are identifiers. -/
def Ty.WellNamed : Ty → Prop
  | .object fields _ => (fields.map FieldOf.name).Nodup ∧ (fields.map FieldOf.wireName).Nodup ∧
    ∀ field ∈ fields, isIdentifier field.name = true
  | _ => True

/-- An object is well named once its fields have taken their names. -/
theorem wellNamed_nameFields {fields : List (FieldOf Ty)} {additional : Option Ty}
    (hw : (fields.map FieldOf.wireName).Nodup)
    (hi : ∀ field ∈ fields, isIdentifier field.name = true) :
    (Ty.object (nameFields [] fields) additional).WellNamed := by
  refine ⟨?_, ?_, fun field hm => ?_⟩
  · rw [map_name_nameFields]
    exact nodup_claimFields _ _
  · rw [map_wireName_nameFields]
    exact hw
  · have hname : field.name ∈ (nameFields [] fields).map FieldOf.name := List.mem_map_of_mem hm
    rw [map_name_nameFields] at hname
    refine isIdentifier_of_mem_claimFields (fun want hw => ?_) field.name hname
    obtain ⟨own, hown, rfl⟩ := List.mem_map.mp hw
    exact hi own hown

theorem CasedOptions.isIdentifier_identifier (o : CasedOptions) (wireName : String) :
    isIdentifier (o.identifier wireName) = true := by
  unfold identifier
  cases o.casing with
  | camel => exact isIdentifier_camelIdentifier o.camelCase wireName
  | preserve => exact isIdentifier_sanitize wireName

/-- **Drafts make objects with good names** of schemas whose properties have distinct names. -/
theorem madeWith_wellNamed (scope : Scope) (P : Mention → Prop) {R : Node → Prop}
    (hpart : ∀ {s : Schema} {node : Node}, R (.schema s) → node.PartOf s → R node)
    (hnames : ∀ {s : Schema}, R (.schema s) → (s.parts.properties.map Prod.fst).Nodup) :
    Ty.MadeWith scope P R Ty.WellNamed where
  scalar := trivial
  enumeration := trivial
  literal := trivial
  array := trivial
  intersection := trivial
  union := trivial
  discriminated _ := trivial
  members _ := trivial
  reference _ := trivial
  part := hpart
  object := by
    intro s fields additional hR hw hn
    refine wellNamed_nameFields (hw ▸ hnames hR) fun field hf => ?_
    rw [hn field hf]
    exact scope.options.isIdentifier_identifier _
  merged := by
    intro required objects h
    refine wellNamed_nameFields ?_ fun field hf => ?_
    · rw [List.map_map]
      exact nodup_mergeObjects objects
    · obtain ⟨other, hother, rfl⟩ := List.mem_map.mp hf
      obtain ⟨o, ho, own, hown, he⟩ := (isOf_mergeObjects objects).1 other hother
      rw [show other.name = own.name by rw [he]]
      exact (h o ho).2.2 own hown

end ApiDecl
