import ApiDecl.Proofs.Json.Same
import ApiDecl.Proofs.Types.Merging
import Mathlib.Data.Set.List

/-!
# Types of listed values

Listed values make an enumeration if all are literals of the only declared type, and else a union of
literals.  The union has each literal where it first occurs, and any value for arrays and objects
(`degraded_distinctBy`).  Null is left out of the values where the schema allows it, and is then
added to the type, whichever it is (`nullable_choice`).

* `FirstOccurrences`: what `distinctBy` keeps of a list, by induction from the end of the list, where
  elements are added;
* `Facets.Enumerable`: the values are literals of the only declared type;
* `enum_compiles`: the type of listed values, with null.
-/

namespace ApiDecl

/-! ### First occurrences -/

/-- The second list holds of the first one element of each kind, where it first occurs. -/
structure FirstOccurrences {α : Type} (same : α → α → Bool) (l kept : List α) : Prop where
  covers : ∀ x ∈ l, ∃ y ∈ kept, same y x = true
  once : kept.Pairwise fun x y => same x y = false
  first : ∀ y ∈ kept, l.find? (same y) = some y
  ordered : kept.Pairwise fun x y => l.findIdx (same x) < l.findIdx (same y)

section FirstOccurrences

variable {α : Type} {same : α → α → Bool} {l kept : List α} {x y : α}

theorem FirstOccurrences.find?_concat (h : FirstOccurrences same l kept) (hy : y ∈ kept) :
    (l ++ [x]).find? (same y) = some y := by
  rw [List.find?_append, h.first y hy]
  rfl

theorem FirstOccurrences.findIdx_lt (h : FirstOccurrences same l kept) (hy : y ∈ kept) :
    l.findIdx (same y) < l.length :=
  List.findIdx_lt_length.mpr
    ⟨y, List.mem_of_find?_eq_some (h.first y hy), List.find?_some (h.first y hy)⟩

/-- What is kept is found where it was found before. -/
theorem FirstOccurrences.findIdx_concat (h : FirstOccurrences same l kept) (hy : y ∈ kept) :
    (l ++ [x]).findIdx (same y) = l.findIdx (same y) := by
  rw [List.findIdx_append, if_pos (h.findIdx_lt hy)]

theorem FirstOccurrences.ordered_concat (h : FirstOccurrences same l kept) :
    kept.Pairwise fun y z => (l ++ [x]).findIdx (same y) < (l ++ [x]).findIdx (same z) := by
  refine h.ordered.imp_of_mem fun hy hz hlt => ?_
  rw [h.findIdx_concat hy, h.findIdx_concat hz]
  exact hlt

/-- An element that one kept is the same as changes nothing. -/
theorem FirstOccurrences.skip (h : FirstOccurrences same l kept) (hx : ∃ y ∈ kept, same y x = true) :
    FirstOccurrences same (l ++ [x]) kept where
  covers := List.forall_mem_append.mpr ⟨h.covers, List.forall_mem_singleton.mpr hx⟩
  once := h.once
  first _ hy := h.find?_concat hy
  ordered := h.ordered_concat

/-- Any other element is kept at the end. -/
theorem FirstOccurrences.keep (hs : Equivalence fun x y => same x y = true)
    (h : FirstOccurrences same l kept) (hx : ∀ y ∈ kept, same y x = false) :
    FirstOccurrences same (l ++ [x]) (kept ++ [x]) := by
  have hnew : ∀ z ∈ l, ¬ same x z = true := by
    intro z hz hxz
    obtain ⟨y, hy, hyz⟩ := h.covers z hz
    exact Bool.false_ne_true ((hx y hy).symm.trans (hs.trans hyz (hs.symm hxz)))
  constructor
  · refine List.forall_mem_append.mpr ⟨fun z hz => ?_, List.forall_mem_singleton.mpr ?_⟩
    · obtain ⟨y, hy, hyz⟩ := h.covers z hz
      exact ⟨y, List.mem_append_left _ hy, hyz⟩
    · exact ⟨x, List.mem_append_right _ List.mem_cons_self, hs.refl x⟩
  · refine List.pairwise_append.mpr ⟨h.once, List.pairwise_singleton _ _, fun y hy z hz => ?_⟩
    rw [List.mem_singleton.mp hz]
    exact hx y hy
  · refine List.forall_mem_append.mpr ⟨fun y hy => h.find?_concat hy,
      List.forall_mem_singleton.mpr ?_⟩
    rw [List.find?_append, List.find?_eq_none.mpr hnew, Option.none_or, List.find?_singleton,
      if_pos (hs.refl x)]
  · refine List.pairwise_append.mpr ⟨h.ordered_concat, List.pairwise_singleton _ _,
      fun y hy z hz => ?_⟩
    rw [List.mem_singleton.mp hz, h.findIdx_concat hy]
    have hlt := h.findIdx_lt hy
    have hend : l.findIdx (same x) = l.length :=
      List.findIdx_eq_length.mpr fun z hz => Bool.eq_false_iff.mpr (hnew z hz)
    rw [List.findIdx_append, hend, if_neg (Nat.lt_irrefl _)]
    omega

theorem distinctBy_concat (same : α → α → Bool) (l : List α) (x : α) : distinctBy same (l ++ [x]) =
    if (distinctBy same l).any (same · x) then distinctBy same l else distinctBy same l ++ [x] :=
  List.foldl_append

/-- **The distinct elements of a list** are the first of each kind. -/
theorem firstOccurrences_distinctBy (hs : Equivalence fun x y => same x y = true) (l : List α) :
    FirstOccurrences same l (distinctBy same l) := by
  induction l using List.reverseRecOn with
  | nil => exact ⟨fun _ hx => absurd hx List.not_mem_nil, .nil,
      fun _ hy => absurd hy List.not_mem_nil, .nil⟩
  | append_singleton l x ih =>
    rw [distinctBy_concat]
    split_ifs with h
    · exact ih.skip (List.any_eq_true.mp h)
    · exact ih.keep hs fun y hy => Bool.eq_false_iff.mpr fun hyx =>
        h (List.any_eq_true.mpr ⟨y, hy, hyx⟩)

end FirstOccurrences

/-! ### Literals -/

theorem Binary64.sameNumber_equivalence : Equivalence fun x y => Binary64.sameNumber x y = true where
  refl x := by simp [Binary64.sameNumber]
  symm {x y} h := by
    simp only [Binary64.sameNumber, Bool.and_eq_true, Bool.or_eq_true, beq_iff_eq] at h ⊢
    obtain ⟨hr, hn | hz⟩ := h
    · exact ⟨hr.symm, Or.inl hn.symm⟩
    · exact ⟨hr.symm, Or.inr (hr ▸ hz)⟩
  trans {x y z} h h' := by
    simp only [Binary64.sameNumber, Bool.and_eq_true, Bool.or_eq_true, beq_iff_eq] at h h' ⊢
    obtain ⟨hr, hn⟩ := h
    obtain ⟨hr', hn'⟩ := h'
    refine ⟨hr.trans hr', ?_⟩
    rcases hn with hn | hz
    · rcases hn' with hn' | hz
      · exact Or.inl (hn.trans hn')
      · exact Or.inr (hr.trans hz)
    · exact Or.inr hz

theorem Number.sameNumber_equivalence : Equivalence fun m n => Number.sameNumber m n = true where
  refl
    | .int a => beq_self_eq_true a
    | .real x => Binary64.sameNumber_equivalence.refl x
  symm {m n} h := by
    cases m with
    | int a =>
      cases n with
      | int b => exact beq_iff_eq.mpr (eq_of_beq h).symm
      | real y => cases h
    | real x =>
      cases n with
      | int b => cases h
      | real y => exact Binary64.sameNumber_equivalence.symm h
  trans {m n k} h h' := by
    cases n with
    | int b =>
      cases m with
      | int a => exact eq_of_beq h ▸ h'
      | real x => cases h
    | real y =>
      cases m with
      | int a => cases h
      | real x =>
        cases k with
        | int c => cases h'
        | real z => exact Binary64.sameNumber_equivalence.trans h h'

/-- Being the same literal is being equal, but for the two zeros among numbers. -/
theorem Literal.same_iff {a b : Literal} : a.same b = true ↔
    a = b ∨ ∃ m n, a = .number m ∧ b = .number n ∧ m.sameNumber n = true := by
  cases a with
  | number m =>
    cases b with
    | number n =>
      have hrefl : m = n → m.sameNumber n = true := fun h => h ▸ Number.sameNumber_equivalence.refl m
      simpa [Literal.same] using hrefl
    | _ => simp [Literal.same]
  | _ => simp [Literal.same]

theorem Literal.same_equivalence : Equivalence fun a b => Literal.same a b = true where
  refl a := Literal.same_iff.mpr (Or.inl rfl)
  symm {a b} h := by
    rcases Literal.same_iff.mp h with rfl | ⟨m, n, rfl, rfl, hmn⟩
    · exact h
    · exact Number.sameNumber_equivalence.symm hmn
  trans {a b c} h h' := by
    rcases Literal.same_iff.mp h with rfl | ⟨m, n, rfl, rfl, hmn⟩
    · exact h'
    · rcases Literal.same_iff.mp h' with rfl | ⟨n', k, he, rfl, hnk⟩
      · exact h
      · obtain rfl := Literal.number.inj he
        exact Number.sameNumber_equivalence.trans hmn hnk

theorem Literal.ofJson?_toJson : ∀ literal : Literal, Literal.ofJson? literal.toJson = some literal
  | .string _ | .number _ | .bool _ | .null => rfl

theorem Literal.toJson_injective : Function.Injective Literal.toJson := by
  intro a b h
  have hb := Literal.ofJson?_toJson b
  rw [← h, Literal.ofJson?_toJson] at hb
  exact Option.some.inj hb

/-- The value is a literal of the scalar type of a name, one of those that enumerations are of; an
integer is also a number. -/
def Json.LiteralOf (name : String) : Json → Prop
  | .string _ => name = "string"
  | .number (.int _) => name = "integer" ∨ name = "number"
  | .number (.real _) => name = "number"
  | _ => False

theorem Literal.isOf_iff {literal : Literal} {scalar : Scalar}
    (h : scalar = .string ∨ scalar = .integer ∨ scalar = .number) :
    literal.isOf scalar = true ↔ literal.toJson.LiteralOf scalar.name := by
  have hname : (scalar.name = "string" ↔ scalar = .string) ∧
      (scalar.name = "integer" ↔ scalar = .integer) ∧
      (scalar.name = "number" ↔ scalar = .number) := by
    rcases h with rfl | rfl | rfl <;> decide
  cases literal with
  | string text =>
    rw [toJson, Json.LiteralOf, hname.1]
    rcases h with rfl | rfl | rfl <;> simp [isOf]
  | number n =>
    cases n with
    | int value =>
      rw [toJson, Json.LiteralOf, hname.2.1, hname.2.2]
      rcases h with rfl | rfl | rfl <;> simp [isOf]
    | real value =>
      rw [toJson, Json.LiteralOf, hname.2.2]
      rcases h with rfl | rfl | rfl <;> simp [isOf]
  | bool value => rcases h with rfl | rfl | rfl <;> simp [isOf, toJson, Json.LiteralOf]
  | null => rcases h with rfl | rfl | rfl <;> simp [isOf, toJson, Json.LiteralOf]

theorem Scalar.name_of_ofTypeName? {scalar : Scalar} {name : String}
    (h : Scalar.ofTypeName? name = some scalar) : scalar.name = name := by
  simpa using List.find?_some h

/-- An enumeration is of the only declared type, if that is one of three. -/
theorem enumScalar?_eq_some_iff {f : Facets} {scalar : Scalar} : enumScalar? f = some scalar ↔
    (scalar = .string ∨ scalar = .integer ∨ scalar = .number) ∧ f.declaredTypes = [scalar.name] := by
  unfold enumScalar?
  split
  · next name hd =>
    rw [hd, List.singleton_inj]
    constructor
    · intro h
      split at h
      · next hs => exact Option.some.inj h ▸ ⟨Or.inl rfl, (Scalar.name_of_ofTypeName? hs).symm⟩
      · next hs => exact Option.some.inj h ▸ ⟨Or.inr (Or.inl rfl), (Scalar.name_of_ofTypeName? hs).symm⟩
      · next hs => exact Option.some.inj h ▸ ⟨Or.inr (Or.inr rfl), (Scalar.name_of_ofTypeName? hs).symm⟩
      · cases h
    · rintro ⟨rfl | rfl | rfl, rfl⟩ <;> decide
  · next hd =>
    refine iff_of_false (by simp) ?_
    rintro ⟨-, h⟩
    exact hd _ h

/-- **All values are literals** just if they are the values of literals. -/
theorem mapM_ofJson?_eq_some_iff : ∀ {values : List Json} {literals : List Literal},
    (values.map Literal.ofJson?).mapM id = some literals ↔ literals.map Literal.toJson = values
  | [], literals => by simp [eq_comm]
  | v :: rest, literals => by
    rw [List.map_cons, List.mapM_cons]
    constructor
    · intro h
      obtain ⟨first, hv, h⟩ := Option.bind_eq_some_iff.mp h
      obtain ⟨more, hrest, h⟩ := Option.bind_eq_some_iff.mp h
      obtain rfl := Option.some.inj h
      rw [List.map_cons, Literal.toJson_of_ofJson? hv, mapM_ofJson?_eq_some_iff.mp hrest]
    · intro h
      obtain ⟨first, more, rfl, rfl, hmore⟩ := List.map_eq_cons_iff.mp h
      rw [mapM_ofJson?_eq_some_iff.mpr hmore]
      simp [Literal.ofJson?_toJson]

theorem Json.exists_scalar_of_literalOf {name : String} {v : Json} (h : v.LiteralOf name) :
    ∃ scalar : Scalar, (scalar = .string ∨ scalar = .integer ∨ scalar = .number) ∧
      name = scalar.name := by
  cases v with
  | string text => exact ⟨.string, Or.inl rfl, h⟩
  | number n =>
    cases n with
    | int value =>
      rcases h with h | h
      · exact ⟨.integer, Or.inr (Or.inl rfl), h⟩
      · exact ⟨.number, Or.inr (Or.inr rfl), h⟩
    | real value => exact ⟨.number, Or.inr (Or.inr rfl), h⟩
  | null | bool _ | array _ | object _ => cases h

theorem Json.exists_literal_of_literalOf {name : String} {v : Json} (h : v.LiteralOf name) :
    ∃ literal : Literal, literal.toJson = v := by
  cases v with
  | string text => exact ⟨.string text, rfl⟩
  | number n => exact ⟨.number n, rfl⟩
  | null | bool _ | array _ | object _ => cases h

/-! ### Enumerations -/

section Enumerations

variable {f : Facets} {values : List Json} {literals : List Literal}

/-- The listed values, without null where the schema allows it. -/
def Facets.listed (f : Facets) (values : List Json) : List Json :=
  if f.isNullable then values.filter fun v => !v.isNull else values

/-- The values, of which there are some, are literals of the only declared type other than null. -/
def Facets.Enumerable (f : Facets) (values : List Json) : Prop :=
  values ≠ [] ∧ ∃ name, f.declaredTypes = [name] ∧ ∀ v ∈ values, v.LiteralOf name

theorem enumerable_of_enumeration?
    (h : enumeration? f (values.map Literal.ofJson?) = some literals) :
    f.Enumerable values ∧ literals.map Literal.toJson = values := by
  unfold enumeration? at h
  split at h
  · next scalar first rest hs hv =>
    split_ifs at h with hall
    obtain rfl := Option.some.inj h
    obtain ⟨hkind, hd⟩ := enumScalar?_eq_some_iff.mp hs
    obtain rfl := mapM_ofJson?_eq_some_iff.mp hv
    refine ⟨⟨List.cons_ne_nil _ _, scalar.name, hd, fun v hm => ?_⟩, rfl⟩
    obtain ⟨literal, hl, rfl⟩ := List.mem_map.mp hm
    exact (Literal.isOf_iff hkind).mp (List.all_eq_true.mp hall literal hl)
  · cases h

theorem enumeration?_of_enumerable (h : f.Enumerable (literals.map Literal.toJson)) :
    enumeration? f ((literals.map Literal.toJson).map Literal.ofJson?) = some literals := by
  obtain ⟨hne, name, hd, hall⟩ := h
  cases literals with
  | nil => exact absurd rfl hne
  | cons first rest =>
    obtain ⟨scalar, hkind, rfl⟩ := Json.exists_scalar_of_literalOf (hall _ List.mem_cons_self)
    have hs : enumScalar? f = some scalar := enumScalar?_eq_some_iff.mpr ⟨hkind, hd⟩
    have hv : (((first :: rest).map Literal.toJson).map Literal.ofJson?).mapM id =
        some (first :: rest) := mapM_ofJson?_eq_some_iff.mpr rfl
    have hliterals : ((first :: rest).all fun literal => literal.isOf scalar) = true :=
      List.all_eq_true.mpr fun literal hl =>
        (Literal.isOf_iff hkind).mpr (hall _ (List.mem_map_of_mem hl))
    simp only [enumeration?, hs, hv, hliterals, if_true]

/-- **Values make an enumeration** just if they are literals of the only declared type. -/
theorem enumeration?_eq_some_iff : enumeration? f (values.map Literal.ofJson?) = some literals ↔
    f.Enumerable values ∧ literals.map Literal.toJson = values := by
  refine ⟨enumerable_of_enumeration?, ?_⟩
  rintro ⟨h, rfl⟩
  exact enumeration?_of_enumerable h

/-- Values that are literals of one type are the values of literals. -/
theorem Facets.Enumerable.exists_literals (h : f.Enumerable values) :
    ∃ literals : List Literal, literals.map Literal.toJson = values := by
  obtain ⟨-, name, -, hall⟩ := h
  have hrange : values ∈ Set.range (List.map Literal.toJson) := by
    rw [Set.range_list_map]
    exact fun v hm => Json.exists_literal_of_literalOf (hall v hm)
  exact hrange

end Enumerations

/-! ### Unions of literals -/

/-- The value is an array or an object. -/
def Json.Structured : Json → Prop
  | .array _ | .object _ => True
  | _ => False

/-- The members that are kept of a union are each literal once, where it first occurs, and one for
all arrays and objects together. -/
structure Degraded (values : List Json) (kept : List (Option Literal)) : Prop where
  literals : FirstOccurrences Literal.same (values.filterMap Literal.ofJson?) (kept.filterMap id)
  structured : (∃ v ∈ values, v.Structured) → kept.count none = 1
  scalars : (∀ v ∈ values, ¬ v.Structured) → none ∉ kept

section Unions

theorem any_sameMember_some (a : Literal) : ∀ kept : List (Option Literal),
    kept.any (sameMember · (some a)) = (kept.filterMap id).any (Literal.same · a)
  | [] => rfl
  | none :: rest => any_sameMember_some a rest
  | some b :: rest => congrArg (b.same a || ·) (any_sameMember_some a rest)

theorem any_sameMember_none {kept : List (Option Literal)} :
    kept.any (sameMember · none) = true ↔ none ∈ kept := by
  rw [List.any_eq_true]
  constructor
  · rintro ⟨x, hx, hsame⟩
    cases x with
    | none => exact hx
    | some b => cases hsame
  · exact fun h => ⟨none, h, rfl⟩

/-- The literals that are kept are the distinct literals. -/
theorem filterMap_distinctBy (l : List (Option Literal)) :
    (distinctBy sameMember l).filterMap id = distinctBy Literal.same (l.filterMap id) := by
  induction l using List.reverseRecOn with
  | nil => rfl
  | append_singleton l x ih =>
    rw [distinctBy_concat, List.filterMap_append]
    cases x with
    | none =>
      have hlast : [(none : Option Literal)].filterMap id = [] := rfl
      rw [hlast, List.append_nil, ← ih]
      split_ifs
      · rfl
      · rw [List.filterMap_append, hlast, List.append_nil]
    | some a =>
      have hlast : [some a].filterMap id = [a] := rfl
      rw [hlast, distinctBy_concat, ← ih, any_sameMember_some]
      split_ifs
      · rfl
      · rw [List.filterMap_append, hlast]

theorem count_none_distinctBy (l : List (Option Literal)) :
    (distinctBy sameMember l).count none = if none ∈ l then 1 else 0 := by
  induction l using List.reverseRecOn with
  | nil => rfl
  | append_singleton l x ih =>
    have hmem : none ∈ distinctBy sameMember l ↔ none ∈ l := by
      rw [← List.count_pos_iff, ih]
      split_ifs with h <;> simp [h]
    rw [distinctBy_concat]
    cases x with
    | none =>
      rw [if_pos (List.mem_append_right l List.mem_cons_self)]
      split_ifs with h
      · rw [ih, if_pos (hmem.mp (any_sameMember_none.mp h))]
      · rw [List.count_append, ih, if_neg (mt hmem.mpr (mt any_sameMember_none.mpr h))]
        rfl
    | some a =>
      have hsame : none ∈ l ++ [some a] ↔ none ∈ l := by simp
      simp only [hsame]
      split_ifs <;> simp [*]

theorem Literal.ofJson?_eq_none_iff {v : Json} : Literal.ofJson? v = none ↔ v.Structured := by
  cases v <;> simp [Literal.ofJson?, Json.Structured]

/-- **The members of a union of listed values.** -/
theorem degraded_distinctBy (values : List Json) :
    Degraded values (distinctBy sameMember (values.map Literal.ofJson?)) := by
  have hnone : none ∈ values.map Literal.ofJson? ↔ ∃ v ∈ values, v.Structured := by
    rw [List.mem_map]
    exact exists_congr fun v => and_congr_right fun _ => Literal.ofJson?_eq_none_iff
  constructor
  · rw [filterMap_distinctBy, List.filterMap_map]
    exact firstOccurrences_distinctBy Literal.same_equivalence _
  · intro h
    rw [count_none_distinctBy, if_pos (hnone.mpr h)]
  · intro h
    rw [← List.count_eq_zero, count_none_distinctBy, if_neg (mt hnone.mp (by simpa using h))]

end Unions

/-! ### The type -/

/-- One type for several: null for none, one for itself, and a union for more. -/
def Ty.choice : List Ty → Ty
  | [] => .null
  | [ty] => ty
  | tys => .unionOf tys

section Choices

variable {tys : List Ty} {ty : Ty} {literals : List Literal}

theorem isNull_eq_false_of_nullable (h : ty.nullable = .unionOf [ty, .null]) : ty.isNull = false := by
  unfold Ty.isNull
  split
  · cases h
  · rfl

/-- **Null is added once**, and not to null. -/
theorem nullable_choice (h : ∀ ty ∈ tys, ty.nullable = .unionOf [ty, .null]) :
    (Ty.choice tys).nullable = Ty.choice (tys ++ [.null]) := by
  match tys with
  | [] => rfl
  | [ty] => exact h ty List.mem_cons_self
  | first :: second :: rest =>
    have hnone : (first :: second :: rest).any Ty.isNull = false :=
      List.any_eq_false.mpr fun ty hm => by simp [isNull_eq_false_of_nullable (h ty hm)]
    have hunion : (Ty.unionOf (first :: second :: rest)).nullable =
        .unionOf (first :: second :: rest ++ [.null]) := by
      rw [Ty.unionOf, Ty.nullable, hnone]
      rfl
    exact hunion

theorem not_contains_literalOrAny (value : Option Literal) :
    ¬ (literalOrAny value).Contains (.enumeration literals) := by
  intro h
  cases value with
  | none => cases h
  | some _ => cases h

theorem not_contains_null : ¬ Ty.null.Contains (.enumeration literals) := by
  intro h
  cases h

theorem contains_choice : (Ty.choice tys).Contains (.enumeration literals) ↔
    ∃ ty ∈ tys, ty.Contains (.enumeration literals) := by
  match tys with
  | [] => exact iff_of_false not_contains_null (by simp)
  | [ty] => simp [Ty.choice]
  | first :: second :: rest =>
    constructor
    · intro h
      cases h with
      | union hm h => exact ⟨_, hm, h⟩
    · rintro ⟨ty, hm, h⟩
      exact .union hm h

end Choices

section Schemas

variable {scope : Scope} {P : Mention → Prop} {s : Schema} {values : List Json}

theorem choice_literals : ∀ kept : List (Option Literal),
    (match kept with
      | [] => Ty.null
      | [value] => literalOrAny value
      | members => .unionOf (members.map literalOrAny)) = .choice (kept.map literalOrAny)
  | [] => rfl
  | [_] => rfl
  | _ :: _ :: _ => rfl

/-- The types that listed values make: an enumeration of all, or one for each value kept. -/
inductive Facets.Makes (f : Facets) (values : List Json) : List Ty → Prop
  | enumeration {literals : List Literal} : f.Enumerable values →
      literals.map Literal.toJson = values → Makes f values [.enumeration literals]
  | literals {kept : List (Option Literal)} : ¬ f.Enumerable values → Degraded values kept →
      Makes f values (kept.map literalOrAny)

/-- The type of listed values, without null. -/
theorem exists_makes_enumType (f : Facets) (values : List Json) :
    ∃ tys, f.Makes (f.listed values) tys ∧ enumType f values = .choice tys := by
  have hlisted : (values.filter fun value => !(f.isNullable && value.isNull)) = f.listed values := by
    unfold Facets.listed
    cases f.isNullable <;> simp
  unfold enumType
  rw [hlisted]
  dsimp only
  cases he : enumeration? f ((f.listed values).map Literal.ofJson?) with
  | some literals =>
    obtain ⟨hyes, hmap⟩ := enumeration?_eq_some_iff.mp he
    exact ⟨_, .enumeration hyes hmap, rfl⟩
  | none =>
    have hno : ¬ f.Enumerable (f.listed values) := by
      intro hyes
      obtain ⟨literals, hmap⟩ := hyes.exists_literals
      rw [enumeration?_eq_some_iff.mpr ⟨hyes, hmap⟩] at he
      cases he
    exact ⟨_, .literals hno (degraded_distinctBy _), choice_literals _⟩

theorem Facets.Makes.nullable {f : Facets} {tys : List Ty} (h : f.Makes values tys) :
    ∀ ty ∈ tys, ty.nullable = .unionOf [ty, .null] := by
  intro ty hm
  cases h with
  | enumeration => rw [List.mem_singleton.mp hm]; rfl
  | literals =>
    obtain ⟨value, -, rfl⟩ := List.mem_map.mp hm
    cases value <;> rfl

/-- An enumeration among the types is that of all values. -/
theorem Facets.Makes.contains_iff {f : Facets} {tys : List Ty} {literals : List Literal}
    (h : f.Makes values tys) : (∃ ty ∈ tys, ty.Contains (.enumeration literals)) ↔
      f.Enumerable values ∧ literals.map Literal.toJson = values := by
  cases h with
  | @enumeration own hyes hmap =>
    simp only [List.mem_singleton, exists_eq_left]
    constructor
    · intro hi
      cases hi
      exact ⟨hyes, hmap⟩
    · rintro ⟨-, he⟩
      obtain rfl := List.map_injective_iff.mpr Literal.toJson_injective (hmap.trans he.symm)
      exact .self
  | literals hno =>
    refine iff_of_false ?_ fun h => hno h.1
    rintro ⟨ty, hm, hi⟩
    obtain ⟨value, -, rfl⟩ := List.mem_map.mp hm
    exact not_contains_literalOrAny value hi

theorem Facets.Makes.eq_nil {f : Facets} {tys : List Ty} (h : f.Makes [] tys) : tys = [] := by
  cases h with
  | enumeration hyes => exact absurd rfl hyes.1
  | @literals kept _ hkept =>
    refine List.map_eq_nil_iff.mpr (List.eq_nil_iff_forall_not_mem.mpr fun value hm => ?_)
    cases value with
    | none => exact hkept.scalars (fun _ hv => absurd hv List.not_mem_nil) hm
    | some literal =>
      have hfirst := hkept.literals.first literal (List.mem_filterMap.mpr ⟨some literal, hm, rfl⟩)
      cases hfirst

/-- **The type of listed values**: an enumeration of all if they are literals of the only declared
type, and else each literal once, in the order of first occurrence, and one type for all arrays and
objects; with null once where the schema allows it. -/
theorem enum_compiles (hr : s.facets.reference = none) (hc : s.facets.constant = none)
    (ha : s.parts.allOf = none) (ho : s.parts.oneOf = none) (hn : s.parts.anyOf = none)
    (hv : s.facets.values = some values) (hne : values ≠ []) :
    ∃ ty tys, (∀ place, (draftNode scope place (.schema s)).Yields P ty) ∧
      ty = .choice (tys ++ if s.facets.isNullable then [.null] else []) ∧
      s.facets.Makes (s.facets.listed values) tys ∧
      (∀ literals, ty.Contains (.enumeration literals) ↔
        s.facets.Enumerable (s.facets.listed values) ∧
          literals.map Literal.toJson = s.facets.listed values) ∧
      (s.facets.listed values = [] → ty = .null) := by
  obtain ⟨tys, hmakes, htype⟩ := exists_makes_enumType s.facets values
  refine ⟨_, tys, fun place => ?_, rfl, hmakes, fun literals => ?_, fun hnil => ?_⟩
  · have hshape : draftShape scope place s (draftParts scope place s.parts) =
        pure (enumType s.facets values) := by
      simp only [draftShape, hr, hc, ha, ho, hn, hv, List.isEmpty_eq_false_iff.mpr hne,
        Bool.false_eq_true, if_false]
    rw [draftNode_schema, hshape, htype, Draft.yields_map]
    refine ⟨_, Draft.yields_pure.mpr rfl, ?_⟩
    cases s.facets.isNullable with
    | true => exact nullable_choice hmakes.nullable
    | false => exact congrArg Ty.choice (List.append_nil tys).symm
  · rw [contains_choice, ← hmakes.contains_iff]
    cases s.facets.isNullable <;> simp [or_and_right, exists_or, not_contains_null]
  · rw [hnil] at hmakes
    rw [hmakes.eq_nil]
    cases s.facets.isNullable <;> rfl

end Schemas

/-! ### Values of several sorts -/

/-- Texts, numbers with both zeros, an array and an object; and null. -/
def variedValues : List Json :=
  [.string "a", .number (.int 1), .object [], .array [], .string "a", .null,
    .number (.real (Binary64.zero false)), .number (.real (Binary64.zero true))]

/-- A schema of the values that allows null. -/
def variedSchema : Schema :=
  ⟨{ Facets.empty with
      types := some (.list ["string", "null"])
      values := some variedValues }, ⟨[], none, none, none, none, none⟩⟩

/-- Not all values are texts, so each is kept once, and null is added. -/
theorem enum_compiles_varied :
    variedSchema.facets.reference = none ∧ variedSchema.facets.constant = none ∧
      variedSchema.parts.allOf = none ∧ variedSchema.parts.oneOf = none ∧
      variedSchema.parts.anyOf = none ∧ variedSchema.facets.values = some variedValues ∧
      variedValues ≠ [] ∧
      (∃ ty tys, (∀ place, (draftNode bareScope place (.schema variedSchema)).Yields
          (fun _ => True) ty) ∧
        ty = .choice (tys ++ if variedSchema.facets.isNullable then [.null] else []) ∧
        variedSchema.facets.Makes (variedSchema.facets.listed variedValues) tys ∧
        (∀ literals, ty.Contains (.enumeration literals) ↔
          variedSchema.facets.Enumerable (variedSchema.facets.listed variedValues) ∧
            literals.map Literal.toJson = variedSchema.facets.listed variedValues) ∧
        (variedSchema.facets.listed variedValues = [] → ty = .null)) ∧
      (draftNode bareScope "" (.schema variedSchema)).result = .ok (.unionOf
        [.literal (.string "a"), .literal (.number (.int 1)), .any,
          .literal (.number (.real (Binary64.zero false))), .null]) :=
  ⟨rfl, rfl, rfl, rfl, rfl, rfl, List.cons_ne_nil _ _,
    enum_compiles rfl rfl rfl rfl rfl rfl (List.cons_ne_nil _ _), by rfl⟩

end ApiDecl
