import ApiDecl.Text.Identifier
import Mathlib.Data.List.Nodup

/-!
# Identifiers

Names made of texts are identifiers, whatever the texts (`isIdentifier_sanitize`) and whatever camel
case is (`isIdentifier_camelIdentifier`).

The number that `freeSuffix` finds makes a name that is not taken: the names that it passes over
have smaller numbers, and names of one base differ if their numbers do (`suffixed_injective`).  So
names claimed one after the other are distinct (`nodup_claimAll`), and they are identifiers if what
they are made of is one (`isIdentifier_of_mem_claimAll`).
-/

namespace ApiDecl

/-! ### Free names -/

theorem toString_injective : Function.Injective (toString : Nat → String) := fun a b h => by
  have hd : Nat.toDigits 10 a = Nat.toDigits 10 b := String.ofList_inj.mp h
  rw [← @Nat.ofDigitChars_ten_toDigits a, hd, Nat.ofDigitChars_ten_toDigits]

theorem suffixed_injective (base : String) : Function.Injective (suffixed base) := fun a b h => by
  unfold suffixed at h
  have ht : (base ++ "_" ++ toString a).toList = (base ++ "_" ++ toString b).toList := by rw [h]
  simp only [String.toList_append] at ht
  exact toString_injective (String.toList_inj.mp (List.append_cancel_left ht))

theorem le_freeSuffix (base : String) (taken : List String) (k : Nat) :
    k ≤ freeSuffix base taken k := by
  fun_induction freeSuffix base taken k with
  | case1 taken k _ ih => omega
  | case2 taken k _ => exact Nat.le_refl k

theorem suffixed_freeSuffix_not_mem (base : String) (taken : List String) (k : Nat) :
    suffixed base (freeSuffix base taken k) ∉ taken := by
  fun_induction freeSuffix base taken k with
  | case1 taken k _ ih =>
    intro hm
    have hlt := le_freeSuffix base (taken.erase (suffixed base k)) (k + 1)
    refine ih ((List.mem_erase_of_ne fun he => ?_).mpr hm)
    have := suffixed_injective base he
    omega
  | case2 taken k h => exact h

theorem freeName_not_mem (taken : List String) (base : String) : freeName taken base ∉ taken := by
  unfold freeName
  split_ifs with h
  · exact suffixed_freeSuffix_not_mem base taken 2
  · exact h

theorem claimAll_not_mem : ∀ (bases : List String) {taken : List String} {name : String},
    name ∈ claimAll taken bases → name ∉ taken
  | base :: rest, taken, name, h => by
    rcases List.mem_cons.mp h with rfl | h
    · exact freeName_not_mem taken base
    · exact fun ht => claimAll_not_mem rest h (List.mem_cons_of_mem _ ht)

/-- **Names claimed** one after the other are distinct. -/
theorem nodup_claimAll : ∀ (bases taken : List String), (claimAll taken bases).Nodup
  | [], _ => List.nodup_nil
  | base :: rest, taken => by
    refine List.nodup_cons.mpr ⟨fun h => ?_, nodup_claimAll rest _⟩
    exact claimAll_not_mem rest h List.mem_cons_self

/-- Distinct names that are not taken are claimed as they are. -/
theorem claimAll_eq_self : ∀ {bases taken : List String}, bases.Nodup →
    (∀ base ∈ bases, base ∉ taken) → claimAll taken bases = bases
  | [], _, _, _ => rfl
  | base :: rest, taken, hd, h => by
    rw [List.forall_mem_cons] at h
    obtain ⟨hfresh, hd⟩ := List.nodup_cons.mp hd
    have hname : freeName taken base = base := if_neg h.1
    have hrest : ∀ other ∈ rest, other ∉ base :: taken := fun other ho hin => by
      rcases List.mem_cons.mp hin with rfl | hin
      · exact hfresh ho
      · exact h.2 other ho hin
    rw [claimAll, claim, hname]
    exact congrArg (base :: ·) (claimAll_eq_self hd hrest)

theorem length_claimAll : ∀ (bases taken : List String),
    (claimAll taken bases).length = bases.length
  | [], _ => rfl
  | _ :: rest, _ => congrArg (· + 1) (length_claimAll rest _)

/-! ### Names are identifiers -/

theorem isIdentifier_iff {text : String} : isIdentifier text = true ↔
    ∃ c rest, text.toList = c :: rest ∧ c.isDigit = false ∧
      ∀ d ∈ c :: rest, isIdentifierChar d = true := by
  unfold isIdentifier
  cases text.toList with
  | nil => simp
  | cons c rest => simp [List.all_eq_true]

theorem isIdentifierChar_identifierChar (c : Char) : isIdentifierChar (identifierChar c) = true := by
  unfold identifierChar
  split_ifs with h
  · exact h
  · rfl

/-- Characters of identifiers make one, once their start is guarded. -/
theorem isIdentifier_guardStart {chars : List Char} (h : ∀ c ∈ chars, isIdentifierChar c = true) :
    isIdentifier (String.ofList (guardStart chars)) = true := by
  rw [isIdentifier_iff, String.toList_ofList]
  cases chars with
  | nil => exact ⟨'_', [], rfl, rfl, by simp [isIdentifierChar]⟩
  | cons c rest =>
    rw [guardStart]
    split_ifs with hd
    · exact ⟨'_', c :: rest, rfl, rfl, List.forall_mem_cons.mpr ⟨rfl, h⟩⟩
    · exact ⟨c, rest, rfl, by simpa using hd, h⟩

theorem isIdentifier_sanitize (text : String) : isIdentifier (sanitize text) = true := by
  refine isIdentifier_guardStart fun c hc => ?_
  obtain ⟨c, -, rfl⟩ := List.mem_map.mp hc
  exact isIdentifierChar_identifierChar c

theorem isIdentifier_camelIdentifier (camelCase : String → String) (text : String) :
    isIdentifier (camelIdentifier camelCase text) = true := by
  unfold camelIdentifier
  split
  all_goals exact isIdentifier_sanitize _

/-- A number behind an identifier leaves it one. -/
theorem isIdentifier_suffixed {base : String} (h : isIdentifier base = true) (k : Nat) :
    isIdentifier (suffixed base k) = true := by
  have hk : ∀ d ∈ (toString k).toList, isIdentifierChar d = true := by
    intro d hd
    have hdigits : (toString k).toList = Nat.toDigits 10 k := String.toList_ofList
    rw [hdigits] at hd
    have hdigit : d.isDigit = true := Nat.isDigit_of_mem_toDigits (by decide) (by decide) hd
    simp [isIdentifierChar, Char.isAlphanum, hdigit]
  obtain ⟨c, rest, hbase, hc, hall⟩ := isIdentifier_iff.mp h
  refine isIdentifier_iff.mpr ⟨c, rest ++ '_' :: (toString k).toList, ?_, hc, ?_⟩
  · simp [suffixed, hbase]
  · rw [← List.cons_append]
    exact List.forall_mem_append.mpr ⟨hall, List.forall_mem_cons.mpr ⟨rfl, hk⟩⟩

theorem isIdentifier_freeName {taken : List String} {base : String}
    (h : isIdentifier base = true) : isIdentifier (freeName taken base) = true := by
  unfold freeName
  split_ifs
  · exact isIdentifier_suffixed h _
  · exact h

/-- **Names claimed** for identifiers are identifiers. -/
theorem isIdentifier_of_mem_claimAll : ∀ {bases taken : List String},
    (∀ base ∈ bases, isIdentifier base = true) →
      ∀ name ∈ claimAll taken bases, isIdentifier name = true
  | [], _, _, _, hm => absurd hm List.not_mem_nil
  | base :: rest, taken, h, name, hm => by
    rw [List.forall_mem_cons] at h
    rcases List.mem_cons.mp hm with rfl | hm
    · exact isIdentifier_freeName h.1
    · exact isIdentifier_of_mem_claimAll h.2 name hm

end ApiDecl
