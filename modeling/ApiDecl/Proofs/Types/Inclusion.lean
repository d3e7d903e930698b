import ApiDecl.Proofs.Description.Validity
import ApiDecl.Proofs.Types.Admission

/-!
# Valid values are values of the type

A type made of a schema admits every value that is valid for the schema (`admits_of_valid`).  The
proof goes by induction on the validity of the value, so schemas may be cyclic: at a reference the
type of its target is read from the declarations, and the value is valid for the target by a smaller
derivation.

Each way of drafting is taken by itself: `Drafted` says that a type has been made of what stands at
some place, and `admits_draftObject`, `admits_draftTyped`, `admits_draftAllOf`, `admits_draftUnion`
and so on say that a value that meets the keywords is admitted if the values inside it are.
-/

namespace ApiDecl

variable {scope : Scope} {P : Mention → Prop} {types : String → Option Ty} {s : Schema} {v : Json}
  {ty : Ty} {pointer : String} {R : Node → Json → Prop}

/-- The type is made of what stands at some place. -/
def Drafted (scope : Scope) (P : Mention → Prop) (node : Node) (ty : Ty) : Prop :=
  ∃ pointer, (draftNode scope pointer node).Yields P ty

/-- The drafts of the parts of a schema. -/
def draftParts (scope : Scope) (pointer : String) (parts : Parts Node) : Parts (Draft Ty) where
  properties := draftNamed scope (Pointer.child pointer "properties") parts.properties
  items := parts.items.map (draftNode scope (Pointer.child pointer "items"))
  additional :=
    parts.additional.map (draftNode scope (Pointer.child pointer "additionalProperties"))
  oneOf := parts.oneOf.map (draftMembers scope (Pointer.child pointer "oneOf") 0)
  anyOf := parts.anyOf.map (draftMembers scope (Pointer.child pointer "anyOf") 0)
  allOf := parts.allOf.map (draftMembers scope (Pointer.child pointer "allOf") 0)

/-- The type of a schema is that of its shape, with null where the schema allows it. -/
theorem draftNode_schema (scope : Scope) (pointer : String) (s : Schema) :
    draftNode scope pointer (.schema s) = (if s.facets.isNullable then Ty.nullable else id) <$>
      draftShape scope pointer s (draftParts scope pointer s.parts) := by
  obtain ⟨facets, ⟨properties, items, additional, oneOf, anyOf, allOf⟩⟩ := s
  cases items <;> cases additional <;> cases oneOf <;> cases anyOf <;> cases allOf <;> rfl

/-- What a relation allows for the parts of a schema is admitted by the types made of them. -/
def PartsAdmitted (scope : Scope) (P : Mention → Prop) (types : String → Option Ty)
    (R : Node → Json → Prop) : Prop :=
  ∀ node w ty, R node w → Drafted scope P node ty → Admits types ty w

/-! ### Objects and arrays -/

/-- A field comes from a property. -/
def FieldOf.DraftedFrom (scope : Scope) (P : Mention → Prop) (required : List String)
    (entry : String × Node) (field : FieldOf Ty) : Prop :=
  field.wireName = entry.1 ∧ field.required = required.contains entry.1 ∧
    Drafted scope P entry.2 field.ty

theorem draftFields_yields {required : List String} {base : String} :
    ∀ {properties : List (String × Node)} {fields : List (FieldOf Ty)},
      (draftFields scope required properties (draftNamed scope base properties)).Yields P fields →
        List.Forall₂ (FieldOf.DraftedFrom scope P required) properties fields
  | [], fields, h => by
    rw [draftNamed, draftFields] at h
    · exact Draft.yields_pure.mp h ▸ .nil
    · simp
  | (name, node) :: rest, fields, h => by
    simp only [draftNamed, draftFields, Draft.yields_bind, Draft.yields_pure] at h
    obtain ⟨ty, ht, more, hm, rfl⟩ := h
    exact .cons ⟨rfl, rfl, _, ht⟩ (draftFields_yields hm)

theorem map_wireName_of_draftedFrom {required : List String} {properties : List (String × Node)}
    {fields : List (FieldOf Ty)}
    (h : List.Forall₂ (FieldOf.DraftedFrom scope P required) properties fields) :
    fields.map FieldOf.wireName = properties.map Prod.fst :=
  map_eq_map_of_forall₂ (fun _ _ hf => hf.1) h

theorem draftAdditional_yields {node : Option Node} {base : String} {additional : Option Ty}
    (h : (draftAdditional node (node.map (draftNode scope base))).Yields P additional)
    (ht : additional = some ty) :
    ∃ schema, node = some schema ∧ Drafted scope P schema ty := by
  subst ht
  cases node with
  | none => simp [draftAdditional] at h
  | some schema =>
    by_cases hfalse : schema = .other (.bool false)
    · simp [draftAdditional, hfalse] at h
    · simp only [draftAdditional, Option.map_some, Draft.yields_map] at h
      obtain ⟨inner, hi, he⟩ := h
      obtain rfl := Option.some.inj he
      exact ⟨schema, rfl, _, hi⟩

/-- An object that meets the keywords of a schema is admitted by its object type. -/
theorem admits_draftObject (hm : Meets R s v) (hR : PartsAdmitted scope P types R)
    {members : List (String × Json)} (hv : v = .object members)
    (h : (draftObject scope s (draftParts scope pointer s.parts)).Yields P ty) :
    Admits types ty v := by
  simp only [draftObject, Draft.yields_bind, Draft.yields_pure] at h
  obtain ⟨fields, hf, additional, ha, rfl⟩ := h
  have hfields := draftFields_yields hf
  rw [hv]
  refine admits_object_iff.mpr (ObjectFits.nameFields (o := (fields, additional)) ⟨?_, ?_⟩ [])
  · intro field hfield
    obtain ⟨entry, he, hname, hreq, hd⟩ := exists_of_forall₂_right hfields hfield
    refine ⟨fun w hw => hR _ w _ (hm.properties members hv entry he w (hname ▸ hw)) hd,
      fun hr => ?_⟩
    rw [hreq] at hr
    rw [hname]
    exact hm.required members hv entry.1 (List.contains_iff_mem.mp hr)
  · intro ty ht name w hw hn
    obtain ⟨schema, hs, hd⟩ := draftAdditional_yields ha ht
    rw [map_wireName_of_draftedFrom hfields] at hn
    exact hR _ w _ (hm.additional members hv schema hs name w hw hn) hd

/-- An array that meets the keywords of a schema is admitted by its array type. -/
theorem admits_draftArray (hm : Meets R s v) (hR : PartsAdmitted scope P types R)
    {items : List Json} (hv : v = .array items)
    (h : (draftArray (draftParts scope pointer s.parts)).Yields P ty) : Admits types ty v := by
  unfold draftArray at h
  rw [hv]
  split at h
  · next draft hd =>
    obtain ⟨node, hn, rfl⟩ := Option.map_eq_some_iff.mp hd
    obtain ⟨element, he, rfl⟩ := Draft.yields_map.mp h
    exact .array fun item hi => hR _ item _ (hm.items items hv node hn item hi) ⟨_, he⟩
  · obtain rfl := Draft.yields_pure.mp h
    exact .array fun item _ => admits_any types item

/-! ### Types by their names -/

theorem Scalar.covers_of_isOf {scalar : Scalar} {name : String}
    (h : Scalar.ofTypeName? name = some scalar) (hv : v.IsOf name) : scalar.Covers v := by
  have hn : scalar.name = name := by simpa using List.find?_some h
  subst hn
  cases scalar with
  | any => trivial
  | _ => exact hv

theorem admits_draftTyped (hm : Meets R s v) (hR : PartsAdmitted scope P types R) {name : String}
    (hv : v.IsOf name)
    (h : (draftTyped scope pointer s (draftParts scope pointer s.parts) name).Yields P ty) :
    Admits types ty v := by
  unfold draftTyped at h
  split_ifs at h with ho ha
  · subst ho
    obtain ⟨members, hobject⟩ := Json.exists_object_of_isOf hv
    exact admits_draftObject hm hR hobject h
  · subst ha
    obtain ⟨items, harray⟩ := Json.exists_array_of_isOf hv
    exact admits_draftArray hm hR harray h
  · split at h
    · next scalar hs =>
      obtain rfl := Draft.yields_pure.mp h
      exact .scalar (Scalar.covers_of_isOf hs hv)
    · exact absurd h Draft.not_yields_fail

/-- Null apart, a value of one of several types is of one other than null. -/
theorem Facets.exists_declared {f : Facets} {names : List String}
    (hf : f.types = some (.list names)) (h : f.Types v) (hn : ¬ (f.isNullable = true ∧ v = .null)) :
    ∃ name ∈ f.declaredTypes, v.IsOf name := by
  unfold Facets.Types at h
  rw [hf] at h
  obtain ⟨name, hm, hv⟩ := h
  have hne : name ≠ "null" := by
    rintro rfl
    refine hn ⟨?_, Json.eq_null_of_isOf hv⟩
    unfold isNullable
    rw [hf]
    exact Bool.or_eq_true_iff.mpr (Or.inr (List.contains_iff_mem.mpr hm))
  refine ⟨name, ?_, hv⟩
  unfold declaredTypes
  rw [hf]
  exact List.mem_filter.mpr ⟨hm, by simpa using hne⟩

theorem admits_draftTypes (hm : Meets R s v) (hR : PartsAdmitted scope P types R)
    (hn : ¬ (s.facets.isNullable = true ∧ v = .null))
    (h : (draftTypes scope pointer s (draftParts scope pointer s.parts)).Yields P ty) :
    Admits types ty v := by
  unfold draftTypes at h
  split at h
  · next name ht =>
    have hv := hm.types
    rw [Facets.Types, ht] at hv
    exact admits_draftTyped hm hR hv h
  · next names ht =>
    obtain ⟨name, hd, hv⟩ := Facets.exists_declared ht hm.types hn
    split_ifs at h
    · exact absurd h Draft.not_yields_fail
    · split at h
      · next hnil => rw [hnil] at hd; cases hd
      · next only hone =>
        rw [hone, List.mem_singleton] at hd
        exact admits_draftTyped hm hR (hd ▸ hv) h
      · obtain ⟨tys, htys, rfl⟩ := Draft.yields_map.mp h
        obtain ⟨member, hmem, hy⟩ := exists_of_forall₂_left (Draft.yields_all.mp htys)
          (List.mem_map_of_mem hd)
        exact .union hmem (admits_draftTyped hm hR hv hy)
  · next ht =>
    split_ifs at h with ho hi
    · have hdescribes : s.describesMembers := by
        rcases Bool.or_eq_true_iff.mp ho with ho | ho
        · exact Or.inl (by simpa using ho)
        · exact Or.inr (Or.inr ho)
      obtain ⟨members, hv⟩ := hm.object hdescribes
      exact admits_draftObject hm hR hv h
    · obtain ⟨items, hv⟩ := hm.array hi ht
      exact admits_draftArray hm hR hv h
    · obtain rfl := Draft.yields_pure.mp h
      exact admits_any types v

/-! ### Compositions -/

theorem draftMembers_yields : ∀ {nodes : List Node} {base : String} {index : Nat} {tys : List Ty},
    (Draft.all (draftMembers scope base index nodes)).Yields P tys →
      List.Forall₂ (Drafted scope P) nodes tys
  | [], _, _, tys, h => Draft.yields_pure.mp h ▸ .nil
  | node :: rest, base, index, tys, h => by
    rw [draftMembers, Draft.yields_all] at h
    cases h with
    | cons hy hrest => exact .cons ⟨_, hy⟩ (draftMembers_yields (Draft.yields_all.mpr hrest))

/-- A value that one member allows is admitted by the union. -/
theorem admits_draftUnion {nodes : List Node} {base keyword : String}
    (hv : ∃ node ∈ nodes, R node v) (hR : PartsAdmitted scope P types R)
    (h : (draftUnion scope pointer keyword s nodes (draftMembers scope base 0 nodes)).Yields P ty) :
    Admits types ty v := by
  obtain ⟨node, hm, hv⟩ := hv
  unfold draftUnion at h
  split_ifs at h
  · exact absurd h Draft.not_yields_fail
  · obtain ⟨tys, htys, h⟩ := Draft.yields_bind.mp h
    obtain ⟨member, hmem, hd⟩ := exists_of_forall₂_left (draftMembers_yields htys) hm
    have hadmits := hR node v member hv hd
    split at h
    · obtain ⟨discriminator, -, h⟩ := Draft.yields_bind.mp h
      obtain rfl := Draft.yields_pure.mp h
      exact .union hmem hadmits
    · split at h
      · obtain rfl := Draft.yields_pure.mp h
        rwa [← List.mem_singleton.mp hmem]
      · obtain rfl := Draft.yields_pure.mp h
        exact .union hmem hadmits

/-- The member is more than a list of required names. -/
def Node.isSubstantial : Node → Bool
  | .schema s => !s.isRequiredOnly
  | .other _ => true

theorem substantial_yields : ∀ {nodes : List Node} {base : String} {index : Nat} {tys : List Ty},
    (Draft.all (substantial nodes (draftMembers scope base index nodes))).Yields P tys →
      List.Forall₂ (Drafted scope P) (nodes.filter Node.isSubstantial) tys
  | [], _, _, tys, h => Draft.yields_pure.mp h ▸ .nil
  | .other value :: rest, base, index, tys, h => by
    rw [draftMembers, substantial, Draft.yields_all] at h
    cases h with
    | cons hy hrest => exact .cons ⟨_, hy⟩ (substantial_yields (Draft.yields_all.mpr hrest))
  | .schema s :: rest, base, index, tys, h => by
    rw [draftMembers, substantial] at h
    rw [List.filter_cons, Node.isSubstantial]
    cases hs : s.isRequiredOnly with
    | true =>
      rw [hs, if_pos rfl] at h
      exact substantial_yields h
    | false =>
      rw [hs, if_neg Bool.false_ne_true, Draft.yields_all] at h
      cases h with
      | cons hy hrest => exact .cons ⟨_, hy⟩ (substantial_yields (Draft.yields_all.mpr hrest))

theorem reference_eq_none_of_isRequiredOnly (h : s.isRequiredOnly = true) :
    s.facets.reference = none := by
  simp only [SchemaOf.isRequiredOnly, Bool.and_eq_true, Option.isNone_iff_eq_none] at h
  tauto

/-- What is made into an object is no reference. -/
theorem reference_eq_none_of_drafted (h : Drafted scope P (.schema s) ty)
    (ho : ty.asObject?.isSome) : s.facets.reference = none := by
  obtain ⟨place, h⟩ := h
  cases hr : s.facets.reference with
  | none => rfl
  | some target =>
    rw [draftNode_schema, Draft.yields_map] at h
    obtain ⟨inner, hi, rfl⟩ := h
    simp only [draftShape, hr, draftReference, Draft.yields_bind, Draft.yields_pure] at hi
    obtain ⟨m, -, -, -, rfl⟩ := hi
    split_ifs at ho <;> cases ho

/-- The names that schemas of a composition require are members of an object that is valid for all
of them, if what the schemas are made into are objects. -/
theorem has_of_mem_requiredNames {schemas : List (String × Node)} {nodes : List Node}
    {tys : List Ty} (hvalid : ∀ node ∈ nodes, Valid schemas node v)
    (htys : List.Forall₂ (Drafted scope P) (nodes.filter Node.isSubstantial) tys)
    (ho : ∀ ty ∈ tys, ty.asObject?.isSome) {members : List (String × Json)}
    (hv : v = .object members) {name : String} (hn : name ∈ requiredNames nodes) :
    Member.has name members = true := by
  obtain ⟨node, hm, hn⟩ := List.mem_flatMap.mp hn
  cases node with
  | other value => cases hn
  | schema s =>
    have hs : s.facets.reference = none := by
      cases hr : s.isRequiredOnly with
      | true => exact reference_eq_none_of_isRequiredOnly hr
      | false =>
        have hsub : Node.schema s ∈ nodes.filter Node.isSubstantial :=
          List.mem_filter.mpr ⟨hm, by simp [Node.isSubstantial, hr]⟩
        obtain ⟨ty, ht, hd⟩ := exists_of_forall₂_left htys hsub
        exact reference_eq_none_of_drafted hd (ho ty ht)
    have hmeets := (valid_iff_meets hs (by rw [hv]; exact Json.noConfusion)).mp (hvalid _ hm)
    exact hmeets.required members hv name hn

theorem admits_draftAllOf {schemas : List (String × Node)} (hm : Meets R s v)
    (hR : PartsAdmitted scope P types R) (hvalid : ∀ node w, R node w → Valid schemas node w)
    {nodes : List Node} {base : String} (hn : s.parts.allOf = some nodes)
    (h : (draftAllOf scope pointer s nodes (draftParts scope pointer s.parts)
      (draftMembers scope base 0 nodes)).Yields P ty) : Admits types ty v := by
  have hall (tys own : List Ty)
      (htys : List.Forall₂ (Drafted scope P) (nodes.filter Node.isSubstantial) tys)
      (hown : ∀ ty ∈ own, Admits types ty v) :
      Admits types (allOfType (requiredNames nodes ++ s.facets.required) (tys ++ own)) v := by
    refine admits_allOfType (fun ty ht => ?_) (fun ho members hv name hname => ?_)
    · rcases List.mem_append.mp ht with ht | ht
      · obtain ⟨node, hnode, hd⟩ := exists_of_forall₂_right htys ht
        exact hR node v ty (hm.allOf nodes hn node (List.mem_filter.mp hnode).1) hd
      · exact hown ty ht
    · rcases List.mem_append.mp hname with hname | hname
      · exact has_of_mem_requiredNames (fun node h => hvalid node v (hm.allOf nodes hn node h)) htys
          (fun ty ht => ho ty (List.mem_append_left _ ht)) hv hname
      · exact hm.required members hv name hname
  unfold draftAllOf at h
  split_ifs at h with he hp
  · exact absurd h Draft.not_yields_fail
  · simp only [Draft.yields_bind, Draft.yields_pure] at h
    obtain ⟨tys, htys, own, rfl, rfl⟩ := h
    exact hall tys [] (substantial_yields htys) fun _ hmem => absurd hmem List.not_mem_nil
  · simp only [Draft.yields_bind, Draft.yields_pure] at h
    obtain ⟨tys, htys, object, ho, own, rfl, rfl⟩ := h
    -- properties of its own ask for an object
    obtain ⟨members, hv⟩ := hm.object (Or.inl (by simpa using hp))
    refine hall tys [object] (substantial_yields htys) fun ty hmem => ?_
    rw [List.mem_singleton.mp hmem]
    exact admits_draftObject hm hR hv ho

/-! ### Schemas -/

/-- A value that meets the keywords of a schema is admitted by the type of its shape. -/
theorem admits_draftShape {schemas : List (String × Node)} (hm : Meets R s v)
    (hR : PartsAdmitted scope P types R) (hvalid : ∀ node w, R node w → Valid schemas node w)
    (hs : s.facets.reference = none) (hn : ¬ (s.facets.isNullable = true ∧ v = .null))
    (h : (draftShape scope pointer s (draftParts scope pointer s.parts)).Yields P ty) :
    Admits types ty v := by
  unfold draftShape at h
  rw [hs] at h
  cases hc : s.facets.constant with
  | some c =>
    rw [hc] at h
    obtain rfl := Draft.yields_pure.mp h
    exact admits_literalOrAny (hm.constant c hc)
  | none =>
    rw [hc] at h
    dsimp only at h
    cases hall : s.parts.allOf with
    | some nodes =>
      have hd : (draftParts scope pointer s.parts).allOf =
            some (draftMembers scope (Pointer.child pointer "allOf") 0 nodes) := by
        rw [draftParts, hall]; rfl
      rw [hall, hd] at h
      exact admits_draftAllOf hm hR hvalid hall h
    | none =>
      rw [hall] at h
      dsimp only at h
      cases hone : s.parts.oneOf with
      | some nodes =>
        have hd : (draftParts scope pointer s.parts).oneOf =
            some (draftMembers scope (Pointer.child pointer "oneOf") 0 nodes) := by
          rw [draftParts, hone]; rfl
        rw [hone, hd] at h
        exact admits_draftUnion (hm.oneOf nodes hone) hR h
      | none =>
        rw [hone] at h
        dsimp only at h
        cases hany : s.parts.anyOf with
        | some nodes =>
          have hd : (draftParts scope pointer s.parts).anyOf =
            some (draftMembers scope (Pointer.child pointer "anyOf") 0 nodes) := by
            rw [draftParts, hany]; rfl
          rw [hany, hd] at h
          exact admits_draftUnion (hm.anyOf nodes hany) hR h
        | none =>
          rw [hany] at h
          dsimp only at h
          split at h
          · next cs hcs =>
            split_ifs at h
            · exact absurd h Draft.not_yields_fail
            · obtain rfl := Draft.yields_pure.mp h
              obtain ⟨c, hmem, hsame⟩ := hm.values cs hcs
              exact admits_enumType hmem hsame hn
          · exact admits_draftTypes hm hR hn h

theorem admits_withNull (nullable : Bool) (h : Admits types ty v) :
    Admits types ((if nullable then Ty.nullable else id) ty) v := by
  cases nullable with
  | true => exact h.nullable
  | false => exact h

/-- The types declared are those made of the components that references lead to. -/
def Scope.Declares (scope : Scope) (P : Mention → Prop) (types : String → Option Ty) : Prop :=
  ∀ pointer m, scope.resolve pointer = .ok m → P m → ∃ node ty,
    Pool.schema.find scope.schemas pointer = .ok (m.component, node) ∧ types m.name = some ty ∧
      Drafted scope P node ty

/-- **Valid values are admitted** by the type made of a schema, if named types are those of the
schemas that references lead to. -/
theorem admits_of_valid (hd : scope.Declares P types) {node : Node}
    (hv : Valid scope.schemas node v) :
    ∀ {ty}, Drafted scope P node ty → Admits types ty v := by
  induction hv with
  | @any v =>
    rintro ty ⟨place, h⟩
    obtain rfl := Draft.yields_pure.mp (show (pure Ty.any : Draft Ty).Yields P ty from h)
    exact admits_any types v
  | null hs =>
    rintro ty ⟨place, h⟩
    rw [draftNode_schema, Draft.yields_map, if_pos hs] at h
    obtain ⟨inner, -, rfl⟩ := h
    exact admits_nullable_null types inner
  | reference hr hf _ ih =>
    rintro ty ⟨place, h⟩
    rw [draftNode_schema, Draft.yields_map] at h
    obtain ⟨inner, hi, rfl⟩ := h
    simp only [draftShape, hr, draftReference, Draft.yields_bind, Draft.yields_pure,
      Draft.yields_ofExcept, Draft.yields_mention] at hi
    obtain ⟨m, hm, _, hP, rfl⟩ := hi
    obtain ⟨node, declared, hfind, ht, hmade⟩ := hd _ m hm hP
    rw [hf] at hfind
    cases hfind
    exact admits_withNull _ (.reference ht (ih hmade))
  | @keywords s v R hs hm hR ih =>
    rintro ty ⟨place, h⟩
    rw [draftNode_schema, Draft.yields_map] at h
    obtain ⟨inner, hi, rfl⟩ := h
    by_cases hn : s.facets.isNullable = true ∧ v = .null
    · rw [if_pos hn.1, hn.2]
      exact admits_nullable_null types inner
    · exact admits_withNull _ (admits_draftShape hm (fun node w ty hw hmade => ih node w hw hmade)
      hR hs hn hi)

end ApiDecl
