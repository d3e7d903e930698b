import ApiDecl.Proofs.Json.Member
import ApiDecl.Transform.Liveness
import Mathlib.Tactic.SplitIfs

/-!
# The live names are closed

The search for live names ends because a round that finds none is the last one, and it has a round
for every entry of the section: `newlyLive_liveNames` says that nothing is left to be found.  So a
name that is not live has no program that ends live, and pruning leaves none of its programs
(`prunedAll_of_not_live`).

What pruning leaves is what ends live: `pruned_eq_none_iff`, `prunedAll_eq_nil_iff`.
-/

namespace ApiDecl

variable {live : List String} {s : Section}

/-! ### Rounds -/

/-- The entries whose names are not live yet. -/
def dormant (s : Section) (live : List String) : Section :=
  s.filter fun entry => !live.contains entry.1

theorem newlyLive_eq_nil_iff : newlyLive s live = [] ↔
    ∀ entry ∈ s, entry.1 ∉ live → someEndsLive live entry.2 = false := by
  simp only [newlyLive, List.map_eq_nil_iff, List.filter_eq_nil_iff, Bool.and_eq_true,
    Bool.not_eq_eq_eq_not, Bool.not_true, List.contains_eq_mem, decide_eq_false_iff_not, not_and,
    Bool.not_eq_true]

/-- A round that finds a name leaves fewer entries to look at. -/
theorem length_dormant_lt (h : newlyLive s live ≠ []) :
    (dormant s (live ++ newlyLive s live)).length < (dormant s live).length := by
  obtain ⟨name, hn⟩ := List.exists_mem_of_ne_nil _ h
  simp only [newlyLive, List.mem_map, List.mem_filter, Bool.and_eq_true] at hn
  obtain ⟨entry, ⟨hs, hl, he⟩, rfl⟩ := hn
  have hsub : dormant s (live ++ newlyLive s live) =
      (dormant s live).filter fun e => !(newlyLive s live).contains e.1 := by
    simp only [dormant, List.filter_filter]
    congr 1
    funext e
    simp [Bool.and_comm]
  rw [hsub, List.length_filter_lt_length_iff_exists]
  refine ⟨entry, List.mem_filter.mpr ⟨hs, hl⟩, ?_⟩
  have hmem : entry.1 ∈ newlyLive s live := by
    simp only [newlyLive, List.mem_map, List.mem_filter, Bool.and_eq_true]
    exact ⟨entry, ⟨hs, hl, he⟩, rfl⟩
  simp [hmem]

/-- With a round for every entry that may turn out live, no round is missing. -/
theorem newlyLive_liveFrom (s : Section) : ∀ (rounds : Nat) (live : List String),
    (dormant s live).length ≤ rounds → newlyLive s (liveFrom s live rounds) = []
  | 0, live, hd => by
    have hnil : dormant s live = [] := List.eq_nil_of_length_eq_zero (by omega)
    rw [liveFrom, newlyLive_eq_nil_iff]
    intro entry hs hl
    have : entry ∈ dormant s live := List.mem_filter.mpr ⟨hs, by simpa using hl⟩
    rw [hnil] at this
    cases this
  | rounds + 1, live, hd => by
    rw [liveFrom]
    split
    · next h => exact h
    · next h =>
      have := length_dormant_lt h
      exact newlyLive_liveFrom s rounds _ (by omega)

/-- **Nothing is left to be found** when the search ends. -/
theorem newlyLive_liveNames (s : Section) : newlyLive s (liveNames s) = [] :=
  newlyLive_liveFrom s s.length [] (List.length_filter_le ..)

/-! ### What is left -/

mutual

theorem prunedStep_eq_none_iff :
    ∀ step : Step, prunedStep live step = none ↔ stepEndsLive live step = false
  | .this => by simp [prunedStep, stepEndsLive]
  | .ref name => by simp [prunedStep, stepEndsLive]
  | .select arms => by
    rw [prunedStep, stepEndsLive, ← prunedAll_eq_nil_iff arms]
    split
    · next h => simp [h]
    · next h => simp [h]
  | .access _ | .loop | .entries => by simp [prunedStep, stepEndsLive]

theorem pruned_eq_none_iff :
    ∀ program : Program, pruned live program = none ↔ endsLive live program = false
  | [] => by simp [pruned, endsLive]
  | [step] => by rw [pruned, endsLive, Option.map_eq_none_iff, prunedStep_eq_none_iff step]
  | _ :: next :: rest => by
    rw [pruned, endsLive, Option.map_eq_none_iff, pruned_eq_none_iff (next :: rest)]

theorem prunedAll_eq_nil_iff : ∀ programs : List Program,
    prunedAll live programs = [] ↔ someEndsLive live programs = false
  | [] => by simp [prunedAll, someEndsLive]
  | program :: rest => by
    rw [prunedAll, someEndsLive, Bool.or_eq_false_iff, ← pruned_eq_none_iff program,
      ← prunedAll_eq_nil_iff rest]
    split
    · next h => simp [h]
    · next h => simp [h]

end

/-- Pruning leaves no program of a name that is not live. -/
theorem prunedAll_of_not_live {name : String} {programs : List Program}
    (hs : (name, programs) ∈ s) (hl : name ∉ liveNames s) : prunedAll (liveNames s) programs = [] :=
  (prunedAll_eq_nil_iff programs).mpr
    (newlyLive_eq_nil_iff.mp (newlyLive_liveNames s) (name, programs) hs hl)

theorem prunedAll_cons (program : Program) (rest : List Program) :
    prunedAll live (program :: rest) = (pruned live program).toList ++ prunedAll live rest := by
  rw [prunedAll]
  cases pruned live program <;> rfl

/-- Among distinct names, a name keeps the programs that are left, if any are. -/
theorem lookup_prune {name : String} (hd : (s.map Prod.fst).Nodup) (live : List String) :
    Member.lookup name (s.prune live) =
      (Member.lookup name s).bind fun programs =>
        if prunedAll live programs = [] then none else some (prunedAll live programs) := by
  induction s with
  | nil => rfl
  | cons entry rest ih =>
    obtain ⟨key, programs⟩ := entry
    rw [List.map_cons, List.nodup_cons] at hd
    have ih := ih hd.2
    unfold Section.prune at ih ⊢
    rw [List.map_cons]
    by_cases hk : key = name
    · subst hk
      by_cases hp : prunedAll live programs = []
      · have hr : Member.lookup key rest = none := Member.lookup_eq_none_iff.mpr hd.1
        rw [List.filter_cons_of_neg (by simp [hp]), ih, hr]
        simp [Member.lookup, hp]
      · rw [List.filter_cons_of_pos (by simpa using hp)]
        simp [Member.lookup, hp]
    · by_cases hp : prunedAll live programs = []
      · rw [List.filter_cons_of_neg (by simp [hp]), ih]
        simp [Member.lookup, hk]
      · rw [List.filter_cons_of_pos (by simpa using hp)]
        simp [Member.lookup, hk, ih]

end ApiDecl
