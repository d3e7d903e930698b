import ApiDecl.Proofs.Draft
import ApiDecl.Proofs.Json.Same
import ApiDecl.Types.OfSchema

/-!
# Values of a type

`Admits` says which JSON values a type admits, named types being read through their declarations.
Of an object only the members that are declared, or that have the type of further members, are
looked at.

The ways in which types are made of other types are taken one by one: null added
(`Admits.nullable`), literals without those that are the same (`admits_enumType`), and objects made
into one (`admits_allOfType`), for which `FieldOf.Fits` says what one field asks of the members of
an object.
-/

namespace ApiDecl

/-- The value is a value of the scalar type. -/
def Scalar.Covers : Scalar → Json → Prop
  | .any, _ => True
  | scalar, v => v.IsOf scalar.name

/-- The type admits the value. -/
inductive Admits (types : String → Option Ty) : Ty → Json → Prop
  | scalar {scalar : Scalar} {format : Option String} {v : Json} :
      scalar.Covers v → Admits types (.scalar scalar format) v
  | array {element : Ty} {items : List Json} :
      (∀ item ∈ items, Admits types element item) → Admits types (.array element) (.array items)
  | object {fields : List (FieldOf Ty)} {additional : Option Ty} {members : List (String × Json)} :
      (∀ field ∈ fields, ∀ w, Member.lookup field.wireName members = some w →
        Admits types field.ty w) →
      (∀ field ∈ fields, field.required = true → Member.has field.wireName members = true) →
      (∀ ty, additional = some ty → ∀ name w, Member.lookup name members = some w →
        name ∉ fields.map FieldOf.wireName → Admits types ty w) →
        Admits types (.object fields additional) (.object members)
  | union {members : List Ty} {discriminator : Option Discriminator} {member : Ty} {v : Json} :
      member ∈ members → Admits types member v → Admits types (.union members discriminator) v
  | enumeration {values : List Literal} {value : Literal} {v : Json} :
      value ∈ values → v.Same value.toJson → Admits types (.enumeration values) v
  | literal {value : Literal} {v : Json} : v.Same value.toJson → Admits types (.literal value) v
  | intersection {members : List Ty} {v : Json} :
      (∀ member ∈ members, Admits types member v) → Admits types (.intersection members) v
  | reference {name : String} {ty : Ty} {v : Json} :
      types name = some ty → Admits types ty v → Admits types (.reference name) v

variable {types : String → Option Ty} {v : Json} {ty : Ty}

theorem admits_any (types : String → Option Ty) (v : Json) : Admits types .any v := .scalar trivial

theorem admits_null (types : String → Option Ty) : Admits types .null .null :=
  .scalar (Or.inl rfl)

/-! ### Null added -/

theorem Ty.eq_null_of_isNull (h : ty.isNull = true) : ∃ format, ty = .scalar .null format := by
  unfold Ty.isNull at h
  split at h
  · exact ⟨_, rfl⟩
  · cases h

theorem Admits.nullable (h : Admits types ty v) : Admits types ty.nullable v := by
  unfold Ty.nullable
  split
  · exact h
  · cases h with
    | union hm h =>
      split_ifs
      · exact .union hm h
      · exact .union (List.mem_append_left _ hm) h
  · exact .union List.mem_cons_self h

theorem admits_nullable_null (types : String → Option Ty) (ty : Ty) :
    Admits types ty.nullable .null := by
  unfold Ty.nullable
  split
  · exact .scalar (Or.inl rfl)
  · split_ifs with hn
    · obtain ⟨member, hm, hnull⟩ := List.any_eq_true.mp hn
      obtain ⟨format, rfl⟩ := Ty.eq_null_of_isNull hnull
      exact .union hm (.scalar (Or.inl rfl))
    · exact .union (List.mem_append_right _ List.mem_cons_self) (admits_null types)
  · exact .union (List.mem_cons_of_mem _ List.mem_cons_self) (admits_null types)

/-! ### Literals -/

theorem admits_literalOrAny {c : Json} (h : v.Same c) :
    Admits types (literalOrAny (Literal.ofJson? c)) v := by
  cases hl : Literal.ofJson? c with
  | none => exact admits_any types v
  | some literal =>
    rw [← Literal.toJson_of_ofJson? hl] at h
    exact .literal h

/-- Each element is kept, or one is kept that it is the same as. -/
theorem exists_mem_distinctBy {α : Type} {same : α → α → Bool} {x : α} {l : List α} (hx : x ∈ l) :
    ∃ y ∈ distinctBy same l, y = x ∨ same y x = true := by
  have fold (l kept : List α) (h : (∃ y ∈ kept, y = x ∨ same y x = true) ∨ x ∈ l) :
      ∃ y ∈ l.foldl (fun kept x => if kept.any (same · x) then kept else kept ++ [x]) kept,
        y = x ∨ same y x = true := by
    induction l generalizing kept with
    | nil => exact h.resolve_right List.not_mem_nil
    | cons a l ih =>
      refine ih _ ?_
      rcases h with ⟨y, hy, he⟩ | h
      · left
        dsimp only
        split_ifs
        · exact ⟨y, hy, he⟩
        · exact ⟨y, List.mem_append_left _ hy, he⟩
      · rcases List.mem_cons.mp h with rfl | h
        · left
          dsimp only
          split_ifs with hk
          · obtain ⟨y, hy, hs⟩ := List.any_eq_true.mp hk
            exact ⟨y, hy, Or.inr hs⟩
          · exact ⟨x, List.mem_append_right _ List.mem_cons_self, Or.inl rfl⟩
        · exact Or.inr h
  exact fold l [] (Or.inr hx)

theorem admits_of_sameMember {c : Json} {kept : Option Literal} (h : v.Same c)
    (hk : kept = Literal.ofJson? c ∨ sameMember kept (Literal.ofJson? c) = true) :
    Admits types (literalOrAny kept) v := by
  rcases hk with rfl | hk
  · exact admits_literalOrAny h
  · cases kept with
    | none => exact admits_any types v
    | some a =>
      cases hl : Literal.ofJson? c with
      | none => rw [hl] at hk; cases hk
      | some b =>
        rw [hl] at hk
        rw [← Literal.toJson_of_ofJson? hl] at h
        exact .literal (h.of_same hk)

theorem mem_of_enumeration? {f : Facets} {values : List (Option Literal)} {literals : List Literal}
    {value : Option Literal} (h : enumeration? f values = some literals) (hm : value ∈ values) :
    ∃ literal ∈ literals, value = some literal := by
  unfold enumeration? at h
  split at h
  · next first rest _ hv =>
    split_ifs at h
    obtain rfl := Option.some.inj h
    obtain ⟨literal, hl, he⟩ := exists_of_forall₂_left (forall₂_of_mapM_eq_some hv) hm
    exact ⟨literal, hl, he⟩
  · cases h

/-- **Listed values** are admitted by their type, unless null is left to the nullability of the
schema. -/
theorem admits_enumType {f : Facets} {cs : List Json} {c : Json} (hc : c ∈ cs) (h : v.Same c)
    (hn : ¬ (f.isNullable = true ∧ v = .null)) : Admits types (enumType f cs) v := by
  have hm : Literal.ofJson? c ∈
      (cs.filter fun value => !(f.isNullable && value.isNull)).map Literal.ofJson? := by
    refine List.mem_map_of_mem (List.mem_filter.mpr ⟨hc, ?_⟩)
    by_contra hkeep
    simp only [Bool.not_eq_true, Bool.not_eq_false', Bool.and_eq_true] at hkeep
    obtain ⟨hnull, hcn⟩ := hkeep
    obtain rfl : c = .null := by cases c <;> first | rfl | cases hcn
    exact hn ⟨hnull, h.eq_null⟩
  unfold enumType
  dsimp only
  split
  · next literals he =>
    obtain ⟨literal, hl, ho⟩ := mem_of_enumeration? he hm
    rw [← Literal.toJson_of_ofJson? ho] at h
    exact .enumeration hl h
  · have hkept : ∃ y ∈ distinctBy sameMember _, y = _ ∨ sameMember y _ = true :=
      exists_mem_distinctBy hm
    obtain ⟨kept, hk, he⟩ := hkept
    have hadmits : Admits types (literalOrAny kept) v := admits_of_sameMember h he
    split
    · next hd => rw [hd] at hk; cases hk
    · next hd =>
      rw [hd, List.mem_singleton] at hk
      rwa [← hk]
    · exact .union (List.mem_map_of_mem hk) hadmits

/-! ### Objects made into one -/

variable {members : List (String × Json)} {field : FieldOf Ty} {fields more : List (FieldOf Ty)}
  {additional : Option Ty} {o : List (FieldOf Ty) × Option Ty}

/-- What a field asks of the members of an object. -/
structure FieldOf.Fits (types : String → Option Ty) (members : List (String × Json))
    (field : FieldOf Ty) : Prop where
  value : ∀ w, Member.lookup field.wireName members = some w → Admits types field.ty w
  present : field.required = true → Member.has field.wireName members = true

/-- What fields and the type of further members ask of the members of an object. -/
structure ObjectFits (types : String → Option Ty) (members : List (String × Json))
    (o : List (FieldOf Ty) × Option Ty) : Prop where
  fields : ∀ field ∈ o.1, field.Fits types members
  further : ∀ ty, o.2 = some ty → ∀ name w, Member.lookup name members = some w →
    name ∉ o.1.map FieldOf.wireName → Admits types ty w

theorem admits_object_iff :
    Admits types (.object fields additional) (.object members) ↔
      ObjectFits types members (fields, additional) := by
  constructor
  · intro h
    cases h with
    | object hv hp hf => exact ⟨fun field hm => ⟨hv field hm, hp field hm⟩, hf⟩
  · exact fun h => .object (fun field hm => (h.fields field hm).value)
      (fun field hm => (h.fields field hm).present) h.further

theorem map_wireName_nameFields : ∀ (taken : List String) (fields : List (FieldOf Ty)),
    (nameFields taken fields).map FieldOf.wireName = fields.map FieldOf.wireName
  | _, [] => rfl
  | _, first :: rest => congrArg (first.wireName :: ·) (map_wireName_nameFields _ rest)

theorem fits_nameFields : ∀ (taken : List String) {fields : List (FieldOf Ty)},
    (∀ field ∈ fields, field.Fits types members) →
      ∀ field ∈ nameFields taken fields, field.Fits types members
  | taken, first :: rest, h, field, hm => by
    rw [List.forall_mem_cons] at h
    rcases List.mem_cons.mp hm with rfl | hm
    · exact ⟨h.1.value, h.1.present⟩
    · exact fits_nameFields _ h.2 field hm

/-- New names leave what fields ask of members. -/
theorem ObjectFits.nameFields (h : ObjectFits types members o) (taken : List String) :
    ObjectFits types members (nameFields taken o.1, o.2) := by
  refine ⟨fits_nameFields taken h.fields, fun ty ht name w hw hn => h.further ty ht name w hw ?_⟩
  rwa [map_wireName_nameFields] at hn

/-- A field that takes the place of another is required if either was. -/
theorem fits_mergeField (hf : field.Fits types members) : ∀ {fields : List (FieldOf Ty)},
    (∀ other ∈ fields, other.Fits types members) →
      ∀ other ∈ mergeField field fields, other.Fits types members
  | [], _, other, hm => by
    obtain rfl := List.mem_singleton.mp hm
    exact hf
  | first :: rest, h, other, hm => by
    rw [List.forall_mem_cons] at h
    unfold mergeField at hm
    split_ifs at hm with he
    · rcases List.mem_cons.mp hm with rfl | hm
      · refine ⟨hf.value, fun hr => ?_⟩
        rcases Bool.or_eq_true_iff.mp hr with hr | hr
        · rw [← he]
          exact h.1.present hr
        · exact hf.present hr
      · exact h.2 other hm
    · rcases List.mem_cons.mp hm with rfl | hm
      · exact h.1
      · exact fits_mergeField hf h.2 other hm

theorem wireNames_subset_mergeField (field : FieldOf Ty) : ∀ fields : List (FieldOf Ty),
    field.wireName :: fields.map FieldOf.wireName ⊆ (mergeField field fields).map FieldOf.wireName
  | [] => fun _ h => h
  | first :: rest => by
    unfold mergeField
    intro name hm
    have ih := wireNames_subset_mergeField field rest
    split_ifs with he
    · rcases List.mem_cons.mp hm with rfl | hm
      · exact List.mem_cons_self
      · rwa [List.map_cons, he] at hm
    · rcases List.mem_cons.mp hm with rfl | hm
      · exact List.mem_cons_of_mem _ (ih List.mem_cons_self)
      · rcases List.mem_cons.mp hm with rfl | hm
        · exact List.mem_cons_self
        · exact List.mem_cons_of_mem _ (ih (List.mem_cons_of_mem _ hm))

theorem fits_mergeFields (hf : ∀ field ∈ fields, field.Fits types members)
    (hm : ∀ field ∈ more, field.Fits types members) :
    ∀ field ∈ mergeFields fields more, field.Fits types members := by
  unfold mergeFields
  induction more generalizing fields with
  | nil => exact hf
  | cons first rest ih =>
    rw [List.forall_mem_cons] at hm
    exact ih (fits_mergeField hm.1 hf) hm.2

theorem wireNames_subset_mergeFields (fields more : List (FieldOf Ty)) :
    fields.map FieldOf.wireName ++ more.map FieldOf.wireName ⊆
      (mergeFields fields more).map FieldOf.wireName := by
  unfold mergeFields
  induction more generalizing fields with
  | nil => simp
  | cons first rest ih =>
    intro name hm
    refine ih (mergeField first fields) ?_
    have hsub := wireNames_subset_mergeField first fields
    rcases List.mem_append.mp hm with hm | hm
    · exact List.mem_append_left _ (hsub (List.mem_cons_of_mem _ hm))
    · rcases List.mem_cons.mp hm with rfl | hm
      · exact List.mem_append_left _ (hsub List.mem_cons_self)
      · exact List.mem_append_right _ hm

/-- Members that fit two objects fit the one made of both: they fit the fields of either, and what
is undeclared in the one was undeclared in both. -/
theorem ObjectFits.merge {o' : List (FieldOf Ty) × Option Ty} (h : ObjectFits types members o)
    (h' : ObjectFits types members o') :
    ObjectFits types members (mergeFields o.1 o'.1, o'.2 <|> o.2) := by
  have hsub := wireNames_subset_mergeFields o.1 o'.1
  refine ⟨fits_mergeFields h.fields h'.fields, fun ty ht name w hw hn => ?_⟩
  cases ho : o'.2 with
  | some other =>
    rw [ho] at ht
    exact h'.further ty (ho.trans ht) name w hw fun hm => hn (hsub (List.mem_append_right _ hm))
  | none =>
    rw [ho] at ht
    exact h.further ty ht name w hw fun hm => hn (hsub (List.mem_append_left _ hm))

theorem objectFits_mergeObjects {objects : List (List (FieldOf Ty) × Option Ty)}
    (h : ∀ o ∈ objects, ObjectFits types members o) :
    ObjectFits types members (mergeObjects objects) := by
  have hnone : ObjectFits types members ([], none) :=
    ⟨fun _ hm => absurd hm List.not_mem_nil, fun _ ht => absurd ht (Option.some_ne_none _).symm⟩
  exact List.foldlRecOn objects _ hnone fun o ho first hm => ho.merge (h first hm)

/-- Fields become required where their names are. -/
theorem ObjectFits.require {required : List String} (h : ObjectFits types members o)
    (hr : ∀ name ∈ required, Member.has name members = true) :
    ObjectFits types members (o.1.map fun field =>
      { field with required := field.required || required.contains field.wireName }, o.2) := by
  refine ⟨fun field hm => ?_, fun ty ht name w hw hn => h.further ty ht name w hw ?_⟩
  · obtain ⟨other, ho, rfl⟩ := List.mem_map.mp hm
    have hfits := h.fields other ho
    refine ⟨hfits.value, fun hreq => ?_⟩
    rcases Bool.or_eq_true_iff.mp hreq with hreq | hreq
    · exact hfits.present hreq
    · exact hr _ (List.contains_iff_mem.mp hreq)
  · rw [List.map_map] at hn
    exact hn

theorem Ty.eq_object_of_asObject? (h : ty.asObject? = some o) : ty = .object o.1 o.2 := by
  unfold Ty.asObject? at h
  split at h
  · obtain rfl := Option.some.inj h
    rfl
  · cases h

/-- **A value that members of `allOf` admit** is admitted by their type, provided that an object has
the required members when all of them are objects. -/
theorem admits_allOfType {required : List String} {tys : List Ty}
    (h : ∀ ty ∈ tys, Admits types ty v)
    (hr : (∀ ty ∈ tys, ty.asObject?.isSome) → ∀ members, v = .object members →
      ∀ name ∈ required, Member.has name members = true) :
    Admits types (allOfType required tys) v := by
  unfold allOfType
  split
  · exact admits_any types v
  · next hne =>
    obtain ⟨first, hfirst⟩ := List.exists_mem_of_ne_nil tys hne
    split
    · next objects ho =>
      have hpairs := forall₂_of_mapM_eq_some ho
      have hobject (ty : Ty) (ht : ty ∈ tys) : ∃ o ∈ objects, ty.asObject? = some o :=
        exists_of_forall₂_left hpairs ht
      obtain ⟨members, rfl⟩ : ∃ members, v = .object members := by
        obtain ⟨o, -, he⟩ := hobject first hfirst
        have hv := h first hfirst
        rw [Ty.eq_object_of_asObject? he] at hv
        cases hv
        exact ⟨_, rfl⟩
      have hfits : ∀ o ∈ objects, ObjectFits types members o := by
        intro o hm
        obtain ⟨ty, ht, he⟩ := exists_of_forall₂_right hpairs hm
        have hv := h ty ht
        rw [Ty.eq_object_of_asObject? he] at hv
        exact admits_object_iff.mp hv
      have hsome (ty : Ty) (ht : ty ∈ tys) : ty.asObject?.isSome := by
        obtain ⟨o, -, he⟩ := hobject ty ht
        rw [he]; rfl
      exact admits_object_iff.mpr
        (((objectFits_mergeObjects hfits).require (hr hsome members rfl)).nameFields [])
    · split
      · exact h _ List.mem_cons_self
      · exact .intersection h

end ApiDecl
