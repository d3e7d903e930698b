import ApiDecl.Proofs.Transform.Reordering
import Mathlib.Order.Bounds.Basic

/-!
# Pruned tables

A program ends in names if its last step leads to a conversion or to a `ref` to one of the names
(`EndsIn`).  The live names of a section are the least names among which is every name with a
program that ends in them (`Section.isLeast_liveNames`).  So they do not depend on the order of
names, programs and arms (`Section.RearrangesIn.mem_liveNames_iff`).  They are no others in what
pruning leaves (`Section.mem_liveNames_prune_iff`): a program that ends in some of the live names is
left, and ends in these still (`EndsIn.exists_pruned`), so no live name loses its support.

What is left of a program is left as it is when it is pruned once more (`pruned_of_pruned`), and so
are the arms at its end, which therefore end in live names as well (`endsIn_of_isEnd`).  The arms of
a `select` with steps behind it are not looked at, and need not end so (`not_endsIn_strayTable`).
-/

namespace ApiDecl

variable {live : List String} {s s' : Section} {P Q : Set String} {name : String}
  {program left : Program}

/-! ### Ends of programs -/

/-- The last step of the program is a conversion, a `ref` to one of the names, or a `select` with an
arm that ends so. -/
inductive EndsIn (P : Set String) : Program → Prop
  | this : EndsIn P [.this]
  | ref {name : String} : name ∈ P → EndsIn P [.ref name]
  | select {arms : List Program} {arm : Program} :
      arm ∈ arms → EndsIn P arm → EndsIn P [.select arms]
  | behind (first : Step) {rest : Program} : EndsIn P rest → EndsIn P (first :: rest)

theorem EndsIn.mono (hPQ : P ⊆ Q) (h : EndsIn P program) : EndsIn Q program := by
  induction h with
  | this => exact .this
  | ref hn => exact .ref (hPQ hn)
  | select hm _ ih => exact .select hm ih
  | behind first _ ih => exact .behind first ih

theorem not_endsIn_nil : ¬ EndsIn P [] := fun h => by cases h

theorem endsIn_cons_cons {first next : Step} {rest : Program} :
    EndsIn P (first :: next :: rest) ↔ EndsIn P (next :: rest) := by
  refine ⟨fun h => ?_, .behind first⟩
  cases h with
  | behind _ h => exact h

/-- What stands in front does not change the end. -/
theorem endsIn_append_cons (front : Program) {step : Step} {rest : Program} :
    EndsIn P (front ++ step :: rest) ↔ EndsIn P (step :: rest) := by
  induction front with
  | nil => rfl
  | cons first front ih =>
    obtain ⟨next, more, he⟩ := List.exists_cons_of_ne_nil (l := front ++ step :: rest) (by simp)
    rw [← ih, List.cons_append, he, endsIn_cons_cons]

theorem endsIn_select_iff {arms : List Program} :
    EndsIn P [.select arms] ↔ ∃ arm ∈ arms, EndsIn P arm := by
  refine ⟨fun h => ?_, fun ⟨_, hm, ha⟩ => .select hm ha⟩
  cases h with
  | select hm ha => exact ⟨_, hm, ha⟩
  | behind _ h => exact absurd h not_endsIn_nil

theorem someEndsLive_iff {programs : List Program} :
    someEndsLive live programs = true ↔ ∃ program ∈ programs, endsLive live program = true := by
  induction programs with
  | nil => simp [someEndsLive]
  | cons program rest ih => rw [someEndsLive, Bool.or_eq_true, ih]; simp

mutual

theorem endsIn_of_stepEndsLive : ∀ {step : Step}, stepEndsLive live step = true →
    EndsIn {name | name ∈ live} [step]
  | .this, _ => .this
  | .ref _, h => .ref (List.contains_iff_mem.mp h)
  | .select _, h => endsIn_select_iff.mpr (exists_endsIn_of_someEndsLive h)
  | .access _, h | .loop, h | .entries, h => by cases h

theorem endsIn_of_endsLive : ∀ {program : Program}, endsLive live program = true →
    EndsIn {name | name ∈ live} program
  | [], h => by cases h
  | [_], h => endsIn_of_stepEndsLive h
  | first :: next :: rest, h => by
    rw [endsLive] at h
    exact .behind first (endsIn_of_endsLive h)

theorem exists_endsIn_of_someEndsLive : ∀ {programs : List Program},
    someEndsLive live programs = true → ∃ program ∈ programs, EndsIn {name | name ∈ live} program
  | [], h => by cases h
  | program :: rest, h => by
    rw [someEndsLive, Bool.or_eq_true] at h
    rcases h with h | h
    · exact ⟨program, List.mem_cons_self, endsIn_of_endsLive h⟩
    · obtain ⟨other, hm, ho⟩ := exists_endsIn_of_someEndsLive h
      exact ⟨other, List.mem_cons_of_mem _ hm, ho⟩

end

/-- **A program ends live** just if it ends in the live names. -/
theorem endsLive_iff : endsLive live program = true ↔ EndsIn {name | name ∈ live} program := by
  refine ⟨endsIn_of_endsLive, fun h => ?_⟩
  induction h with
  | this => rfl
  | ref hn => exact List.contains_iff_mem.mpr hn
  | select hm _ ih => exact someEndsLive_iff.mpr ⟨_, hm, ih⟩
  | @behind first rest h ih =>
    cases rest with
    | nil => exact absurd h not_endsIn_nil
    | cons next rest => rwa [endsLive]

/-- The programs are the same but for the order of the arms of each `select`, at any depth. -/
inductive Rearranges : Program → Program → Prop
  | refl (program : Program) : Rearranges program program
  | trans {program middle program' : Program} : Rearranges program middle →
      Rearranges middle program' → Rearranges program program'
  | arms (front rest : Program) {arms arms' : List Program} : arms.Perm arms' →
      Rearranges (front ++ .select arms :: rest) (front ++ .select arms' :: rest)
  | arm (front rest : Program) (before behind : List Program) {arm arm' : Program} :
      Rearranges arm arm' →
      Rearranges (front ++ .select (before ++ arm :: behind) :: rest)
        (front ++ .select (before ++ arm' :: behind) :: rest)

/-- The order of arms has no part in where a program ends. -/
theorem Rearranges.endsIn_iff {program' : Program} (h : Rearranges program program') :
    EndsIn P program ↔ EndsIn P program' := by
  -- only the arms of the last step count
  have hlast {arms arms' : List Program} (front rest : Program)
      (ha : (∃ arm ∈ arms, EndsIn P arm) ↔ ∃ arm ∈ arms', EndsIn P arm) :
      EndsIn P (front ++ .select arms :: rest) ↔ EndsIn P (front ++ .select arms' :: rest) := by
    rw [endsIn_append_cons, endsIn_append_cons]
    cases rest with
    | nil => rw [endsIn_select_iff, endsIn_select_iff, ha]
    | cons next rest => rw [endsIn_cons_cons, endsIn_cons_cons]
  induction h with
  | refl => rfl
  | trans _ _ ih ih' => exact ih.trans ih'
  | arms front rest hp => exact hlast front rest (by simp only [hp.mem_iff])
  | arm front rest before behind _ ih =>
    refine hlast front rest ?_
    simp only [List.mem_append, List.mem_cons, or_and_right, exists_or, exists_eq_left, ih]

/-! ### The least closed names -/

/-- The program is one of those of the name. -/
def Section.Registers (s : Section) (name : String) (program : Program) : Prop :=
  ∃ programs, (name, programs) ∈ s ∧ program ∈ programs

/-- Every name with a program that ends in the names is one of them. -/
def Section.EndClosed (s : Section) (P : Set String) : Prop :=
  ∀ name program, s.Registers name program → EndsIn P program → name ∈ P

/-- A round finds nothing beyond names that are closed, and beyond no others. -/
theorem newlyLive_eq_nil_iff_endClosed :
    newlyLive s live = [] ↔ s.EndClosed {name | name ∈ live} := by
  rw [newlyLive_eq_nil_iff]
  constructor
  · rintro h name program ⟨programs, hm, hp⟩ he
    by_contra hn
    have hdead := h _ hm hn
    rw [someEndsLive_iff.mpr ⟨program, hp, endsLive_iff.mpr he⟩] at hdead
    cases hdead
  · rintro h ⟨name, programs⟩ hm hn
    rw [← Bool.not_eq_true, someEndsLive_iff]
    rintro ⟨program, hp, he⟩
    exact hn (h name program ⟨programs, hm, hp⟩ (endsLive_iff.mp he))

open Classical in
/-- **The live names** are the least closed names. -/
theorem Section.isLeast_liveNames (s : Section) :
    IsLeast {P : Set String | s.EndClosed P} {name | name ∈ liveNames s} := by
  refine ⟨newlyLive_eq_nil_iff_endClosed.mp (newlyLive_liveNames s), fun P hP => ?_⟩
  -- of closed names, those that the section registers are enough
  have hclosed : s.EndClosed {name | name ∈ (s.map Prod.fst).filter (· ∈ P)} := by
    intro name program hr he
    have hname : name ∈ P := by
      refine hP name program hr (he.mono fun other ho => ?_)
      simpa using (List.mem_filter.mp ho).2
    obtain ⟨programs, hm, -⟩ := hr
    exact List.mem_filter.mpr ⟨List.mem_map_of_mem hm, by simpa using hname⟩
  intro name hn
  have hmem := liveNames_subset (newlyLive_eq_nil_iff_endClosed.mpr hclosed) hn
  simpa using (List.mem_filter.mp hmem).2

/-- What the section registers, the other does too, but for the order of arms. -/
def Section.RearrangesIn (s s' : Section) : Prop :=
  ∀ name program, s.Registers name program →
    ∃ program', Rearranges program program' ∧ s'.Registers name program'

theorem Section.RearrangesIn.endClosed (h : s.RearrangesIn s') (hP : s'.EndClosed P) :
    s.EndClosed P := by
  intro name program hr he
  obtain ⟨program', hp, hr'⟩ := h name program hr
  exact hP name program' hr' (hp.endsIn_iff.mp he)

/-- **What is live** does not depend on the order of names, programs and arms. -/
theorem Section.RearrangesIn.mem_liveNames_iff (h : s.RearrangesIn s') (h' : s'.RearrangesIn s)
    (name : String) : name ∈ liveNames s ↔ name ∈ liveNames s' :=
  ⟨fun hn => s.isLeast_liveNames.2 (h.endClosed s'.isLeast_liveNames.1) hn,
    fun hn => s'.isLeast_liveNames.2 (h'.endClosed s.isLeast_liveNames.1) hn⟩

/-! ### What is left -/

theorem prunedAll_eq_filterMap (live : List String) (programs : List Program) :
    prunedAll live programs = programs.filterMap (pruned live) := by
  induction programs with
  | nil => rw [prunedAll, List.filterMap_nil]
  | cons program rest ih =>
    rw [prunedAll_cons, List.filterMap_cons, ih]
    cases pruned live program <;> rfl

theorem pruned_append (front : Program) (step : Step) :
    pruned live (front ++ [step]) = (prunedStep live step).map fun left => front ++ [left] := by
  induction front with
  | nil => rfl
  | cons first front ih =>
    obtain ⟨next, rest, he⟩ := List.exists_cons_of_ne_nil (l := front ++ [step]) (by simp)
    rw [List.cons_append, he, pruned, ← he, ih, Option.map_map]
    rfl

mutual

theorem prunedStep_of_prunedStep : ∀ {step left : Step}, prunedStep live step = some left →
    prunedStep live left = some left
  | .this, _, h => by
    obtain rfl := Option.some.inj h
    rfl
  | .ref name, _, h => by
    have hleft := h
    rw [prunedStep] at hleft
    split_ifs at hleft
    obtain rfl := Option.some.inj hleft
    exact h
  | .select arms, _, h => by
    rw [prunedStep] at h
    split at h
    · cases h
    · next arm rest he =>
      obtain rfl := Option.some.inj h
      rw [prunedStep, ← he, prunedAll_prunedAll arms, he]
  | .access _, _, h | .loop, _, h | .entries, _, h => by cases h

/-- **What is left of a program** is left as it is. -/
theorem pruned_of_pruned : ∀ {program left : Program}, pruned live program = some left →
    pruned live left = some left
  | [], _, h => by cases h
  | [step], _, h => by
    rw [pruned] at h
    obtain ⟨last, hl, rfl⟩ := Option.map_eq_some_iff.mp h
    rw [pruned, prunedStep_of_prunedStep hl]
    rfl
  | first :: next :: rest, _, h => by
    rw [pruned] at h
    obtain ⟨left, hl, rfl⟩ := Option.map_eq_some_iff.mp h
    have hleft := pruned_of_pruned hl
    cases left with
    | nil => cases hleft
    | cons step behind => rw [pruned, hleft]; rfl

theorem prunedAll_prunedAll : ∀ programs : List Program,
    prunedAll live (prunedAll live programs) = prunedAll live programs
  | [] => by simp only [prunedAll]
  | program :: rest => by
    rw [prunedAll_cons]
    cases h : pruned live program with
    | none => exact prunedAll_prunedAll rest
    | some left =>
      rw [Option.toList_some, List.singleton_append, prunedAll_cons, pruned_of_pruned h,
        prunedAll_prunedAll rest]
      rfl

end

/-- The part is the program, or an arm of the `select` that ends the program, at any depth. -/
inductive IsEnd (part : Program) : Program → Prop
  | self : IsEnd part part
  | arm (front : Program) {arms : List Program} {arm : Program} :
      arm ∈ arms → IsEnd part arm → IsEnd part (front ++ [.select arms])

/-- **What is left of a program** ends in the live names, and so does every arm at its end. -/
theorem endsIn_of_isEnd {part : Program} (h : IsEnd part left) (hl : pruned live left = some left) :
    EndsIn {name | name ∈ live} part := by
  induction h with
  | self =>
    rw [← endsLive_iff, ← Bool.not_eq_false, ← pruned_eq_none_iff, hl]
    exact Option.some_ne_none _
  | @arm front arms arm hm _ ih =>
    -- the arms of the last step are what is left of them
    rw [pruned_append] at hl
    obtain ⟨step, hstep, he⟩ := Option.map_eq_some_iff.mp hl
    obtain rfl : step = .select arms := by simpa using he
    have harms : prunedAll live arms = arms := by
      rw [prunedStep] at hstep
      split at hstep
      · cases hstep
      · next h => rw [h, Step.select.inj (Option.some.inj hstep)]
    rw [← harms, prunedAll_eq_filterMap] at hm
    obtain ⟨old, -, ho⟩ := List.mem_filterMap.mp hm
    exact ih (pruned_of_pruned ho)

/-- A program that ends in some of the live names is left, and ends in them still. -/
theorem EndsIn.exists_pruned (h : EndsIn P program) (hP : ∀ name ∈ P, name ∈ live) :
    ∃ left, pruned live program = some left ∧ EndsIn P left := by
  induction h with
  | this => exact ⟨[.this], rfl, .this⟩
  | @ref name hn =>
    refine ⟨[.ref name], ?_, .ref hn⟩
    rw [pruned, prunedStep, if_pos (List.contains_iff_mem.mpr (hP name hn))]
    rfl
  | @select arms arm hm _ ih =>
    obtain ⟨left, hl, he⟩ := ih
    have hleft : left ∈ prunedAll live arms := by
      rw [prunedAll_eq_filterMap]
      exact List.mem_filterMap.mpr ⟨arm, hm, hl⟩
    refine ⟨[.select (prunedAll live arms)], ?_, .select hleft he⟩
    rw [pruned, prunedStep]
    split
    · next hnil => rw [hnil] at hleft; cases hleft
    · next hcons => rw [hcons]; rfl
  | @behind first rest h ih =>
    obtain ⟨left, hl, he⟩ := ih
    refine ⟨first :: left, ?_, .behind first he⟩
    cases rest with
    | nil => exact absurd h not_endsIn_nil
    | cons next rest => rw [pruned, hl]; rfl

/-! ### What is left of a section -/

namespace Section

theorem registers_prune_iff : (s.prune live).Registers name left ↔
    ∃ program, s.Registers name program ∧ pruned live program = some left := by
  unfold Registers prune
  simp only [List.mem_filter, List.mem_map, Prod.mk.injEq, prunedAll_eq_filterMap]
  constructor
  · rintro ⟨_, ⟨⟨⟨_, programs⟩, hm, rfl, rfl⟩, -⟩, hl⟩
    obtain ⟨program, hp, hl⟩ := List.mem_filterMap.mp hl
    exact ⟨program, ⟨programs, hm, hp⟩, hl⟩
  · rintro ⟨program, ⟨programs, hm, hp⟩, hl⟩
    have hleft := List.mem_filterMap.mpr ⟨program, hp, hl⟩
    refine ⟨_, ⟨⟨(name, programs), hm, rfl, rfl⟩, ?_⟩, hleft⟩
    simpa using List.ne_nil_of_mem hleft

/-- A name that is left keeps a program. -/
theorem mem_names_prune_iff :
    name ∈ (s.prune live).map Prod.fst ↔ ∃ left, (s.prune live).Registers name left := by
  constructor
  · intro h
    obtain ⟨⟨_, programs⟩, hm, rfl⟩ := List.mem_map.mp h
    have hne : programs ≠ [] := by simpa using (List.mem_filter.mp hm).2
    obtain ⟨left, hl⟩ := List.exists_mem_of_ne_nil _ hne
    exact ⟨left, programs, hm, hl⟩
  · rintro ⟨left, programs, hm, -⟩
    exact List.mem_map_of_mem hm

/-- **The names left** are the live names. -/
theorem mem_names_prune_liveNames (s : Section) (name : String) :
    name ∈ (s.prune (liveNames s)).map Prod.fst ↔ name ∈ liveNames s := by
  rw [mem_names_prune_iff]
  constructor
  · rintro ⟨left, hr⟩
    obtain ⟨program, hr, hl⟩ := registers_prune_iff.mp hr
    refine s.isLeast_liveNames.1 name program hr (endsLive_iff.mp ?_)
    rw [← Bool.not_eq_false, ← pruned_eq_none_iff, hl]
    exact Option.some_ne_none _
  · intro hn
    obtain ⟨programs, hm, hs⟩ := exists_of_mem_liveNames hn
    obtain ⟨program, hp, he⟩ := someEndsLive_iff.mp hs
    obtain ⟨left, hl, -⟩ := (endsLive_iff.mp he).exists_pruned fun _ h => h
    exact ⟨left, registers_prune_iff.mpr ⟨program, ⟨programs, hm, hp⟩, hl⟩⟩

/-- **The live names stay live** in what is left, and there are no others. -/
theorem mem_liveNames_prune_iff (s : Section) (name : String) :
    name ∈ liveNames (s.prune (liveNames s)) ↔ name ∈ liveNames s := by
  have hsub : {name | name ∈ liveNames (s.prune (liveNames s))} ⊆ {name | name ∈ liveNames s} :=
    (s.prune (liveNames s)).isLeast_liveNames.2 fun name left hr _ =>
      (s.mem_names_prune_liveNames name).mp (mem_names_prune_iff.mpr ⟨left, hr⟩)
  -- the names that stay live are closed in the section before it was pruned
  have hclosed : s.EndClosed {name | name ∈ liveNames (s.prune (liveNames s))} := by
    intro name program hr he
    obtain ⟨left, hl, he⟩ := he.exists_pruned fun _ h => hsub h
    exact (s.prune (liveNames s)).isLeast_liveNames.1 name left
      (registers_prune_iff.mpr ⟨program, hr, hl⟩) he
  exact ⟨fun hn => hsub hn, fun hn => s.isLeast_liveNames.2 hclosed hn⟩

/-- Pruning by the same names once more leaves what is there. -/
theorem prune_prune (s : Section) (live : List String) :
    (s.prune live).prune live = s.prune live := by
  have hsame : ∀ entry ∈ s.prune live, (entry.1, prunedAll live entry.2) = entry := by
    intro entry hm
    obtain ⟨old, -, rfl⟩ := List.mem_map.mp (List.mem_filter.mp hm).1
    rw [prunedAll_prunedAll]
  rw [prune, List.map_congr_left hsame, List.map_id'']
  · exact List.filter_eq_self.mpr fun entry hm => (List.mem_filter.mp hm).2
  · exact fun _ => rfl

theorem prune_congr {live' : List String} (h : ∀ name, name ∈ live ↔ name ∈ live') (s : Section) :
    s.prune live = s.prune live' := by
  unfold prune
  simp only [prunedAll_congr h]

/-- **A section that has been pruned** has nothing left to be pruned. -/
theorem prune_liveNames_prune (s : Section) :
    (s.prune (liveNames s)).prune (liveNames (s.prune (liveNames s))) = s.prune (liveNames s) := by
  rw [prune_congr s.mem_liveNames_prune_iff, prune_prune]

end Section

/-! ### Tables -/

namespace Table

theorem prune_prune (t : Table) : t.prune.1.prune.1 = t.prune.1 := by
  let keep (o : Option Section) : Option Section :=
    o.bind fun s => nonempty? (s.prune (ApiDecl.liveNames s))
  have hkeep (o : Option Section) : keep (keep o) = keep o := by
    cases o with
    | none => rfl
    | some s =>
      change keep (nonempty? _) = nonempty? _
      unfold nonempty?
      split_ifs with h
      · rfl
      · change nonempty? _ = _
        rw [Section.prune_liveNames_prune, nonempty?, if_neg h]
  exact Table.mk.injEq .. |>.mpr ⟨hkeep t.date, hkeep t.binary⟩

/-- **Pruning reaches a closed normal form.**  For each kind the names left are the live names.
These are the least names among which is every name with a program that ends in them, so they do not
depend on the order of names, programs and arms.  Every program left ends in them, and so does every
arm of a `select` at the end of one.  Pruning once more changes neither the table nor the live
names. -/
theorem prune_normalForm (t : Table) (kind : Kind) :
    let live : Set String := {name | name ∈ t.prune.2.names kind}
    (∀ name, name ∈ t.prune.1.names kind ↔ name ∈ live) ∧
    IsLeast {P : Set String | (t.entries kind).EndClosed P} live ∧
    (∀ name left, (t.prune.1.entries kind).Registers name left →
      ∀ part, IsEnd part left → EndsIn live part) ∧
    (∀ t' : Table, (t.entries kind).RearrangesIn (t'.entries kind) →
      (t'.entries kind).RearrangesIn (t.entries kind) →
        ∀ name, name ∈ live ↔ name ∈ t'.prune.2.names kind) ∧
    t.prune.1.prune.1 = t.prune.1 ∧
    ∀ name, name ∈ t.prune.1.prune.2.names kind ↔ name ∈ live := by
  simp only [names, names_prune, entries_prune, Set.mem_ofPred_eq]
  refine ⟨Section.mem_names_prune_liveNames _, Section.isLeast_liveNames _,
    fun name left hr part hpart => ?_, fun t' h h' => h.mem_liveNames_iff h', t.prune_prune,
    Section.mem_liveNames_prune_iff _⟩
  obtain ⟨program, -, hl⟩ := Section.registers_prune_iff.mp hr
  exact endsIn_of_isEnd hpart (pruned_of_pruned hl)

end Table

/-- The names, programs and arms of `mixedTable` in another order. -/
def mixedTableBack : Table :=
  ⟨some [("D", [[.loop, .ref "D"]]), ("B", [[.select [[.this], [.ref "A"]]]]),
    ("A", [[.access "next", .ref "B"], [.ref "D"]])], none⟩

/-- The order does not show in what is live. -/
theorem Table.prune_normalForm_mixedTable :
    (mixedTable.entries .date).RearrangesIn (mixedTableBack.entries .date) ∧
      (mixedTableBack.entries .date).RearrangesIn (mixedTable.entries .date) ∧
      ∀ name, name ∈ mixedTable.prune.2.names .date ↔
        name ∈ mixedTableBack.prune.2.names .date := by
  have hswap : List.Perm [[Step.ref "A"], [.this]] [[.this], [.ref "A"]] := .swap ..
  have h : (mixedTable.entries .date).RearrangesIn (mixedTableBack.entries .date) := by
    rintro name program ⟨programs, hm, hp⟩
    simp only [mixedTable, Table.entries, Table.section?, Option.getD_some, List.mem_cons,
      Prod.mk.injEq, List.not_mem_nil, or_false] at hm
    rcases hm with ⟨rfl, rfl⟩ | ⟨rfl, rfl⟩ | ⟨rfl, rfl⟩
    · exact ⟨program, .refl _, _, by decide, (List.Perm.swap ..).mem_iff.mp hp⟩
    · rw [List.mem_singleton.mp hp]
      exact ⟨_, .arms [] [] hswap, [[.select [[.this], [.ref "A"]]]], by decide, List.mem_cons_self⟩
    · exact ⟨program, .refl _, _, by decide, hp⟩
  have h' : (mixedTableBack.entries .date).RearrangesIn (mixedTable.entries .date) := by
    rintro name program ⟨programs, hm, hp⟩
    simp only [mixedTableBack, Table.entries, Table.section?, Option.getD_some, List.mem_cons,
      Prod.mk.injEq, List.not_mem_nil, or_false] at hm
    rcases hm with ⟨rfl, rfl⟩ | ⟨rfl, rfl⟩ | ⟨rfl, rfl⟩
    · exact ⟨program, .refl _, _, by decide, hp⟩
    · rw [List.mem_singleton.mp hp]
      exact ⟨_, .arms [] [] hswap.symm, [[.select [[.ref "A"], [.this]]]], by decide,
        List.mem_cons_self⟩
    · exact ⟨program, .refl _, _, by decide, (List.Perm.swap ..).mem_iff.mp hp⟩
  exact ⟨h, h', (Table.prune_normalForm mixedTable .date).2.2.2.1 mixedTableBack h h'⟩

/-! ### Arms that are not looked at -/

/-- The part is the program, or an arm of a `select` anywhere in the program, at any depth. -/
inductive IsWithin (part : Program) : Program → Prop
  | self : IsWithin part part
  | arm (front rest : Program) {arms : List Program} {arm : Program} :
      arm ∈ arms → IsWithin part arm → IsWithin part (front ++ .select arms :: rest)

/-- A `select` with an arm that leads nowhere, and a conversion behind it. -/
def strayTable : Table := ⟨some [("A", [[.select [[.this], [.ref "B"]], .this]])], none⟩

/-- An arm is left that ends in no live name, since its `select` does not stand last. -/
theorem not_endsIn_strayTable :
    ∃ left part, (strayTable.prune.1.entries .date).Registers "A" left ∧ IsWithin part left ∧
      ¬ EndsIn {name | name ∈ strayTable.prune.2.names .date} part := by
  refine ⟨[.select [[.this], [.ref "B"]], .this], [.ref "B"], ?_, ?_, ?_⟩
  · exact ⟨[[.select [[.this], [.ref "B"]], .this]], by decide, List.mem_cons_self⟩
  · exact .arm [] [.this] (List.mem_cons_of_mem _ List.mem_cons_self) .self
  · rw [← endsLive_iff]
    decide

end ApiDecl
