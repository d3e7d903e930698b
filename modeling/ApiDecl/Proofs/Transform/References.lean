import ApiDecl.Proofs.Transform.Pruning

/-!
# References in pruned programs

A live name is supported: some program registered for it ends live by the live names found
(`exists_of_mem_liveNames`, by induction on the rounds).  So it keeps a program when the table is
pruned (`Table.exists_of_mem_names_prune`).  What pruning leaves of programs refers to live names
only (`mem_of_refersTo_prunedAll`), wherever in the arms of a `select` the reference stands.
-/

namespace ApiDecl

/-- A step of the program is a `ref` to the name, or one in an arm of a `select` at any depth. -/
inductive RefersTo (name : String) : Program → Prop
  | here {rest : Program} : RefersTo name (.ref name :: rest)
  | arm {arms : List Program} {program rest : Program} : program ∈ arms → RefersTo name program →
      RefersTo name (.select arms :: rest)
  | behind {step : Step} {rest : Program} : RefersTo name rest → RefersTo name (step :: rest)

variable {live live' : List String} {s : Section} {name : String}

/-! ### Support of live names -/

mutual

theorem stepEndsLive_mono (hl : live ⊆ live') :
    ∀ step : Step, stepEndsLive live step = true → stepEndsLive live' step = true
  | .this, _ => rfl
  | .ref name, h => by
    rw [stepEndsLive, List.contains_iff_mem] at h ⊢
    exact hl h
  | .select arms, h => someEndsLive_mono hl arms h
  | .access _, h | .loop, h | .entries, h => by cases h

theorem endsLive_mono (hl : live ⊆ live') :
    ∀ program : Program, endsLive live program = true → endsLive live' program = true
  | [], h => by cases h
  | [step], h => stepEndsLive_mono hl step h
  | _ :: next :: rest, h => endsLive_mono hl (next :: rest) h

/-- Programs that end live still do when more names are live. -/
theorem someEndsLive_mono (hl : live ⊆ live') : ∀ programs : List Program,
    someEndsLive live programs = true → someEndsLive live' programs = true
  | [], h => by cases h
  | program :: rest, h => by
    rw [someEndsLive, Bool.or_eq_true] at h ⊢
    exact h.imp (endsLive_mono hl program) (someEndsLive_mono hl rest)

end

/-- Each of the names is registered with a program that ends live by them. -/
def Section.Supports (s : Section) (live : List String) : Prop :=
  ∀ name ∈ live, ∃ programs, (name, programs) ∈ s ∧ someEndsLive live programs = true

/-- What a round finds is supported by what was found before. -/
theorem Section.Supports.append_newlyLive (h : s.Supports live) :
    s.Supports (live ++ newlyLive s live) := by
  have hold : live ⊆ live ++ newlyLive s live := List.subset_append_left _ _
  intro name hn
  rcases List.mem_append.mp hn with hn | hn
  · obtain ⟨programs, hm, he⟩ := h name hn
    exact ⟨programs, hm, someEndsLive_mono hold programs he⟩
  · simp only [newlyLive, List.mem_map, List.mem_filter, Bool.and_eq_true] at hn
    obtain ⟨entry, ⟨hm, -, he⟩, rfl⟩ := hn
    exact ⟨entry.2, hm, someEndsLive_mono hold entry.2 he⟩

theorem supports_liveFrom : ∀ (rounds : Nat) {live : List String},
    s.Supports live → s.Supports (liveFrom s live rounds)
  | 0, _, h => h
  | rounds + 1, live, h => by
    rw [liveFrom]
    split
    · exact h
    · exact supports_liveFrom rounds h.append_newlyLive

/-- **A live name is supported** by a program of its own. -/
theorem exists_of_mem_liveNames (h : name ∈ liveNames s) :
    ∃ programs, (name, programs) ∈ s ∧ someEndsLive (liveNames s) programs = true :=
  supports_liveFrom s.length (fun _ hn => absurd hn List.not_mem_nil) name h

/-- A live name keeps a program in the pruned table. -/
theorem Table.exists_of_mem_names_prune {t : Table} {kind : Kind} (hd : (t.names kind).Nodup)
    (h : name ∈ t.prune.2.names kind) :
    ∃ programs, Member.lookup name (t.prune.1.entries kind) = some programs ∧ programs ≠ [] := by
  rw [names_prune] at h
  obtain ⟨programs, hm, he⟩ := exists_of_mem_liveNames h
  have hleft : prunedAll (ApiDecl.liveNames (t.entries kind)) programs ≠ [] := by
    simp [prunedAll_eq_nil_iff, he]
  rw [entries_prune, lookup_prune hd, Member.lookup_of_mem hd hm, Option.bind_some, if_neg hleft]
  exact ⟨_, rfl, hleft⟩

/-! ### References that are left -/

mutual

theorem mem_of_refersTo_prunedStep : ∀ {step step' : Step}, stepStopsLast step = true →
    prunedStep live step = some step' → RefersTo name [step'] → name ∈ live
  | .this, _, _, hp, hr => by
    obtain rfl := Option.some.inj hp
    cases hr with
    | behind hr => cases hr
  | .ref target, _, _, hp, hr => by
    rw [prunedStep] at hp
    split_ifs at hp with hl
    obtain rfl := Option.some.inj hp
    cases hr with
    | here => exact List.contains_iff_mem.mp hl
    | behind hr => cases hr
  | .select arms, _, hs, hp, hr => by
    rw [prunedStep] at hp
    split at hp
    · cases hp
    · next arm rest he =>
      obtain rfl := Option.some.inj hp
      cases hr with
      | arm hm hr =>
        rw [← he] at hm
        exact mem_of_refersTo_prunedAll hs hm hr
      | behind hr => cases hr
  | .access _, _, _, hp, _ | .loop, _, _, hp, _ | .entries, _, _, hp, _ => by cases hp

theorem mem_of_refersTo_pruned : ∀ {program program' : Program}, stopsLast program = true →
    pruned live program = some program' → RefersTo name program' → name ∈ live
  | [], _, _, hp, _ => by cases hp
  | [step], _, hs, hp, hr => by
    rw [pruned] at hp
    obtain ⟨step', hstep, rfl⟩ := Option.map_eq_some_iff.mp hp
    exact mem_of_refersTo_prunedStep hs hstep hr
  | step :: next :: rest, _, hs, hp, hr => by
    rw [stopsLast, Bool.and_eq_true] at hs
    rw [pruned] at hp
    obtain ⟨rest', hrest, rfl⟩ := Option.map_eq_some_iff.mp hp
    cases hr with
    | here | arm _ _ => exact absurd hs.1 (by simp [Step.descends])
    | behind hr => exact mem_of_refersTo_pruned hs.2 hrest hr

/-- **What is left of programs** refers to live names only. -/
theorem mem_of_refersTo_prunedAll : ∀ {programs : List Program} {program : Program},
    allStopLast programs = true → program ∈ prunedAll live programs → RefersTo name program →
      name ∈ live
  | [], _, _, hm, _ => by cases hm
  | first :: rest, program, hs, hm, hr => by
    rw [allStopLast, Bool.and_eq_true] at hs
    rw [prunedAll_cons, List.mem_append, Option.mem_toList] at hm
    rcases hm with hm | hm
    · exact mem_of_refersTo_pruned hs.1 hm hr
    · exact mem_of_refersTo_prunedAll hs.2 hm hr

end

end ApiDecl
