import ApiDecl.Proofs.Text.Identifier
import Mathlib.Data.List.Perm.Subperm
import Mathlib.Order.Bounds.Defs

/-!
# Free names

The name claimed for a base is found by a search: the base is tried, then the base with each number
from two on, until a candidate can be registered.  `Searches` describes the search as it goes, with the
names taken as the last attempt has left them; it ends for all names taken, and ends with what `claim`
gives (`searches_claim`).

The numbers passed over make distinct names, all of them taken, so there are no more of them than names
taken (`freeSuffix_le`), and the number found is the least that makes a free name
(`isLeast_freeSuffix`).
-/

namespace ApiDecl

/-! ### The search -/

/-- Puts a name among those taken; tells if it was free. -/
def register (taken : List String) (name : String) : Bool × List String :=
  if name ∈ taken then (false, taken) else (true, name :: taken)

/-- The search for a free name: a candidate is registered if it is free, and else the next number
makes the next one.  A derivation is a search that ends, with the name and the names then taken. -/
inductive Searches (base : String) :
    List String → (candidate : String) → (number : Nat) → String × List String → Prop
  | free {taken after : List String} {candidate : String} {k : Nat} :
      register taken candidate = (true, after) →
      Searches base taken candidate k (candidate, after)
  | taken {taken after : List String} {candidate : String} {k : Nat} {r : String × List String} :
      register taken candidate = (false, after) →
      Searches base after (suffixed base k) (k + 1) r →
      Searches base taken candidate k r

variable {base candidate : String} {taken : List String} {k m : Nat} {r r' : String × List String}

theorem Searches.deterministic (hs : Searches base taken candidate k r)
    (hs' : Searches base taken candidate k r') : r = r' := by
  induction hs with
  | free h =>
    cases hs' with
    | free h' =>
      obtain ⟨-, rfl⟩ := Prod.mk.inj (h.symm.trans h')
      rfl
    | taken h' _ => cases h.symm.trans h'
  | taken h _ ih =>
    cases hs' with
    | free h' => cases h.symm.trans h'
    | taken h' hs' =>
      obtain ⟨-, rfl⟩ := Prod.mk.inj (h.symm.trans h')
      exact ih hs'

/-- A search ends with the first number whose name is free. -/
theorem searches_of_least (hm : suffixed base m ∉ taken) (hle : k ≤ m)
    (hlt : ∀ j, k ≤ j → j < m → suffixed base j ∈ taken) :
    Searches base taken (suffixed base k) (k + 1) (suffixed base m, suffixed base m :: taken) := by
  obtain ⟨n, rfl⟩ := Nat.exists_eq_add_of_le hle
  induction n generalizing k with
  | zero => exact .free (if_neg hm)
  | succ n ih =>
    have hk : suffixed base k ∈ taken := hlt k (Nat.le_refl k) (by omega)
    have hnext : k + (n + 1) = k + 1 + n := by omega
    refine .taken (if_pos hk) ?_
    rw [hnext] at hm hlt ⊢
    exact ih hm (Nat.le_add_right _ _) fun j hj => hlt j (Nat.le_of_succ_le hj)

/-! ### The least free number -/

/-- The numbers that make free names of a base, from two on. -/
def freeNumbers (taken : List String) (base : String) : Set Nat :=
  {k | 2 ≤ k ∧ suffixed base k ∉ taken}

theorem suffixed_mem_of_lt_freeSuffix {j : Nat} (hk : k ≤ j) (hj : j < freeSuffix base taken k) :
    suffixed base j ∈ taken := by
  fun_induction freeSuffix base taken k with
  | case1 taken k h ih =>
    rcases Nat.eq_or_lt_of_le hk with rfl | hlt
    · exact h
    · exact List.mem_of_mem_erase (ih hlt hj)
  | case2 taken k h => omega

theorem isLeast_freeSuffix (taken : List String) (base : String) :
    IsLeast (freeNumbers taken base) (freeSuffix base taken 2) := by
  refine ⟨⟨le_freeSuffix base taken 2, suffixed_freeSuffix_not_mem base taken 2⟩, ?_⟩
  intro j hj
  by_contra hlt
  exact hj.2 (suffixed_mem_of_lt_freeSuffix hj.1 (Nat.lt_of_not_le hlt))

theorem suffixed_ne (base : String) (k : Nat) : suffixed base k ≠ base := by
  intro h
  have hlength := congrArg String.length h
  have hunderscore : "_".length = 1 := rfl
  rw [suffixed, String.length_append, String.length_append] at hlength
  omega

/-- The names up to a least free number are all taken, and distinct. -/
theorem freeSuffix_le (hb : base ∈ taken) : freeSuffix base taken 2 ≤ taken.length + 1 := by
  let passed := (List.range' 2 (freeSuffix base taken 2 - 2)).map (suffixed base)
  have hnodup : (base :: passed).Nodup := by
    refine List.nodup_cons.mpr ⟨fun h => ?_, List.Nodup.map (suffixed_injective base) List.nodup_range'⟩
    obtain ⟨j, -, hj⟩ := List.mem_map.mp h
    exact suffixed_ne base j hj
  have hsubset : base :: passed ⊆ taken := by
    intro name hn
    rcases List.mem_cons.mp hn with rfl | hn
    · exact hb
    · obtain ⟨j, hj, rfl⟩ := List.mem_map.mp hn
      rw [List.mem_range'_1] at hj
      exact suffixed_mem_of_lt_freeSuffix hj.1 (by omega)
  have hlength := (hnodup.subperm hsubset).length_le
  simp [passed] at hlength
  omega

/-- The search ends with the name that is claimed. -/
theorem searches_claim (taken : List String) (base : String) :
    Searches base taken base 2 (claim taken base) := by
  unfold claim freeName
  by_cases hb : base ∈ taken
  · rw [if_pos hb]
    exact .taken (if_pos hb) (searches_of_least (suffixed_freeSuffix_not_mem base taken 2)
      (le_freeSuffix base taken 2) fun j hk hj => suffixed_mem_of_lt_freeSuffix hk hj)
  · rw [if_neg hb]
    exact .free (if_neg hb)

/-- **A name is claimed** in finitely many attempts: the base if it is free, and else the base with the
least number from two on that makes a free name, which is at most one more than there are names taken.
Just the name claimed is then taken besides.  So names claimed in a row are distinct, whatever their
bases look like, and none was taken before. -/
theorem claim_takes_least (taken : List String) (base : String) :
    (∀ r, Searches base taken base 2 r ↔ r = claim taken base) ∧
    (base ∉ taken → (claim taken base).1 = base) ∧
    (base ∈ taken → ∃ k, IsLeast (freeNumbers taken base) k ∧ k ≤ taken.length + 1 ∧
      (claim taken base).1 = suffixed base k) ∧
    (claim taken base).1 ∉ taken ∧
    (∀ name, name ∈ (claim taken base).2 ↔ name = (claim taken base).1 ∨ name ∈ taken) ∧
    ∀ bases, (claimAll taken bases).Nodup ∧ ∀ name ∈ claimAll taken bases, name ∉ taken := by
  refine ⟨fun r => ⟨fun hs => hs.deterministic (searches_claim taken base), ?_⟩, fun hb => if_neg hb,
    fun hb => ?_, freeName_not_mem taken base, fun name => List.mem_cons,
    fun bases => ⟨nodup_claimAll bases taken, fun name => claimAll_not_mem bases⟩⟩
  · rintro rfl
    exact searches_claim taken base
  · exact ⟨_, isLeast_freeSuffix taken base, freeSuffix_le hb, if_pos hb⟩

/-- Names that leave out a number. -/
def gappedNames : List String := ["a", "a_2", "a_4"]

/-- The number left out is found; a base that ends in a number gets one of its own. -/
theorem claim_takes_least_gapped :
    "b" ∉ gappedNames ∧ (claim gappedNames "b").1 = "b" ∧ "a" ∈ gappedNames ∧
      (∃ k, IsLeast (freeNumbers gappedNames "a") k ∧ k ≤ gappedNames.length + 1 ∧
        (claim gappedNames "a").1 = suffixed "a" k) ∧
      claim gappedNames "a" = ("a_3", "a_3" :: gappedNames) ∧
      Searches "a" gappedNames "a" 2 ("a_3", "a_3" :: gappedNames) ∧
      claimAll gappedNames ["a", "a_3", "a", "a_2"] = ["a_3", "a_3_2", "a_5", "a_2_2"] ∧
      (claimAll gappedNames ["a", "a_3", "a", "a_2"]).Nodup := by
  have hb : "b" ∉ gappedNames := by decide
  have ha : "a" ∈ gappedNames := by decide
  have hclaim : claim gappedNames "a" = ("a_3", "a_3" :: gappedNames) := by cbv
  obtain ⟨hsearch, -, htaken, -, -, hall⟩ := claim_takes_least gappedNames "a"
  exact ⟨hb, (claim_takes_least gappedNames "b").2.1 hb, ha, htaken ha, hclaim,
    (hsearch _).mpr hclaim.symm, by cbv, (hall _).1⟩

end ApiDecl
