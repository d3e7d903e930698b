import ApiDecl.Proofs.Json.Member
import ApiDecl.Types.Basic

/-!
# One value in several forms

`Json.Same` says that two JSON values are the same value: numbers count by what they are and not by
their form, and the members of objects in any order.  `Json.IsOf` says that a value is of a type by
the name of the type; every integral number is an integer.  A literal that the declarations take for
the same as another is the same value (`Json.Same.of_same`).
-/

namespace ApiDecl

/-- The value of a number, in units of `2⁻¹⁰⁷⁴`. -/
def Number.units : Number → Int
  | .int value => value * unitsPerOne
  | .real value => if value.negative then -unitsOfRank value.rank else unitsOfRank value.rank

namespace Json

/-- Two values are the same, whatever the form of numbers and the order of members. -/
inductive Same : Json → Json → Prop
  | null : Same .null .null
  | bool {value : Bool} : Same (.bool value) (.bool value)
  | number {m n : Number} : m.units = n.units → Same (.number m) (.number n)
  | string {text : String} : Same (.string text) (.string text)
  | array {items items' : List Json} : items.length = items'.length →
      (∀ (i : Nat) x y, items[i]? = some x → items'[i]? = some y → Same x y) →
        Same (.array items) (.array items')
  | object {members members' : List (String × Json)} :
      (∀ name, Member.has name members = Member.has name members') →
      (∀ name x y, Member.lookup name members = some x →
        Member.lookup name members' = some y → Same x y) →
        Same (.object members) (.object members')

/-- The value is of the type of a name; an integral number is an integer, too. -/
def IsOf (name : String) (v : Json) : Prop :=
  v.typeName = name ∨ name = "integer" ∧ ∃ n : Number, v = .number n ∧ (unitsPerOne : Int) ∣ n.units

theorem typeName_of_isOf {name : String} {v : Json} (h : v.IsOf name) (hn : name ≠ "integer") :
    v.typeName = name :=
  h.resolve_right fun hi => hn hi.1

theorem eq_null_of_isOf {v : Json} (h : v.IsOf "null") : v = .null := by
  have ht := typeName_of_isOf h (by decide)
  cases v <;> first | rfl | simp [typeName] at ht

theorem exists_array_of_isOf {v : Json} (h : v.IsOf "array") : ∃ items, v = .array items := by
  have ht := typeName_of_isOf h (by decide)
  cases v <;> first | exact ⟨_, rfl⟩ | simp [typeName] at ht

theorem exists_object_of_isOf {v : Json} (h : v.IsOf "object") :
    ∃ members, v = .object members := by
  have ht := typeName_of_isOf h (by decide)
  cases v <;> first | exact ⟨_, rfl⟩ | simp [typeName] at ht

theorem Same.eq_null {v : Json} (h : v.Same .null) : v = .null := by
  cases h; rfl

end Json

/-! ### Literals -/

theorem Number.units_eq_of_sameNumber {m n : Number} (h : m.sameNumber n = true) :
    m.units = n.units := by
  cases m with
  | int a =>
    cases n with
    | int b => rw [eq_of_beq h]
    | real y => cases h
  | real x =>
    cases n with
    | int b => cases h
    | real y =>
      simp only [sameNumber, Binary64.sameNumber, Bool.and_eq_true, Bool.or_eq_true,
        beq_iff_eq] at h
      obtain ⟨hr, hn | hz⟩ := h
      · rw [units, units, hr, hn]
      · have h0 : unitsOfRank 0 = 0 := by simp [unitsOfRank]
        rw [units, units, ← hr, hz, h0]
        simp

theorem Literal.toJson_of_ofJson? {v : Json} {literal : Literal}
    (h : Literal.ofJson? v = some literal) : literal.toJson = v := by
  cases v <;> cases h <;> rfl

/-- What is the same value as one of two like literals is the same value as the other. -/
theorem Json.Same.of_same {v : Json} {a b : Literal} (h : v.Same b.toJson) (hab : a.same b = true) :
    v.Same a.toJson := by
  cases a with
  | number m =>
    cases b with
    | number n =>
      cases h with
      | number hu => exact .number (hu.trans (Number.units_eq_of_sameNumber hab).symm)
    | _ => exact absurd hab (by simp [Literal.same])
  | _ =>
    simp only [Literal.same, decide_eq_true_eq] at hab
    rwa [hab]

end ApiDecl
