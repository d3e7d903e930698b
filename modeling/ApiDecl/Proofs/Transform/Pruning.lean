import ApiDecl.Proofs.Transform.Liveness
import ApiDecl.Proofs.Transform.Visits

/-!
# Pruned programs do the same

In programs whose `this`, `select` and `ref` stand last (`stopsLast`), what pruning drops makes no
conversion.  The visits of a pruned program over the pruned section are those of the program without
the visits that lead to no conversion, with the rest pruned in each (`visitsOfAll_pruned`).  A visit
that is left out changes nothing and tells the handler nothing but mismatches (`DescendsAlike`), so
a run with a handler that does not mind them comes to the same end (`runProgram_pruned`).

* `Handler.recording`: a conversion with the list of the values that it has been called on;
* `runPrograms_prune`: the pruned programs over the pruned table give the same payload after the
  same calls.
-/

namespace ApiDecl

/-! ### Where conversions and references stand -/

/-- The step descends to other slots. -/
def Step.descends : Step → Bool
  | .access _ | .loop | .entries => true
  | .this | .select _ | .ref _ => false

mutual

/-- In the arms of the step, `this`, `select` and `ref` stand last. -/
def stepStopsLast : Step → Bool
  | .select arms => allStopLast arms
  | .this | .access _ | .loop | .entries | .ref _ => true

/-- In the program and the arms of its steps, `this`, `select` and `ref` stand last. -/
def stopsLast : List Step → Bool
  | [] => true
  | [step] => stepStopsLast step
  | step :: next :: rest => step.descends && stopsLast (next :: rest)

/-- So in all programs of a list. -/
def allStopLast : List (List Step) → Bool
  | [] => true
  | program :: rest => stopsLast program && allStopLast rest

end

theorem allStopLast_iff {programs : List Program} :
    allStopLast programs = true ↔ ∀ program ∈ programs, stopsLast program = true := by
  induction programs with
  | nil => simp [allStopLast]
  | cons program rest ih =>
    rw [allStopLast, Bool.and_eq_true, ih]
    simp

/-- The programs of all names are such. -/
def Section.StopsLast (s : Section) : Prop :=
  ∀ name programs, Member.lookup name s = some programs → allStopLast programs = true

theorem stopsLast_tail {step : Step} {rest : Program} (h : stopsLast (step :: rest) = true) :
    stopsLast rest = true := by
  cases rest with
  | nil => rfl
  | cons next rest =>
    rw [stopsLast, Bool.and_eq_true] at h
    exact h.2

/-- A step that does not descend is followed by none. -/
theorem eq_nil_of_stopsLast {step : Step} {rest : Program} (h : stopsLast (step :: rest) = true)
    (hs : step.descends = false) : rest = [] := by
  cases rest with
  | nil => rfl
  | cons next rest =>
    rw [stopsLast, hs] at h
    cases h

/-! ### Visits -/

/-- What is left of a visit. -/
def prunedVisit (live : List String) : Visit → Option Visit
  | .convert => some .convert
  | .field name rest => (pruned live rest).map (.field name)
  | .items rest => (pruned live rest).map .items
  | .members rest => (pruned live rest).map .members

/-- The program that a visit descends with. -/
def Visit.rest : Visit → Program
  | .convert => []
  | .field _ rest | .items rest | .members rest => rest

variable {live : List String} {s t t' : Section}

/-- Pruning a section by names that are not live leaves nothing. -/
def Section.ClosedUnder (t : Section) (live : List String) : Prop :=
  ∀ name programs, Member.lookup name t = some programs → name ∉ live → prunedAll live programs = []

/-- A section that registers what is left of another. -/
def Section.PrunedOf (t' : Section) (live : List String) (t : Section) : Prop :=
  ∀ name, Member.lookup name t' = (Member.lookup name t).bind fun programs =>
    if prunedAll live programs = [] then none else some (prunedAll live programs)

namespace Section

theorem StopsLast.without (h : t.StopsLast) (name : String) : (t.without name).StopsLast :=
  fun other programs ho => h other programs (within_without t.within_refl name _ _ ho)

theorem ClosedUnder.without (h : t.ClosedUnder live) (name : String) :
    (t.without name).ClosedUnder live :=
  fun other programs ho => h other programs (within_without t.within_refl name _ _ ho)

theorem PrunedOf.without (h : t'.PrunedOf live t) (name : String) :
    (t'.without name).PrunedOf live (t.without name) := by
  intro other
  by_cases ho : other = name
  · subst ho; rw [lookup_without_self, lookup_without_self]; rfl
  · rw [lookup_without_of_ne ho, lookup_without_of_ne ho, h other]

theorem prunedOf_prune (hd : (s.map Prod.fst).Nodup) (live : List String) :
    (s.prune live).PrunedOf live s :=
  fun _ => lookup_prune hd live

theorem closedUnder_liveNames (s : Section) : s.ClosedUnder (liveNames s) :=
  fun _ _ h hl => prunedAll_of_not_live (Member.mem_of_lookup h) hl

end Section

theorem visitsOfAll_append (s : Section) : ∀ programs more : List Program,
    visitsOfAll s (programs ++ more) = visitsOfAll s programs ++ visitsOfAll s more
  | [], more => by simp [visitsOfAll]
  | program :: rest, more => by
    rw [List.cons_append, visitsOfAll, visitsOfAll, visitsOfAll_append s rest more,
      List.append_assoc]

theorem visitsOfAll_singleton (s : Section) (program : Program) :
    visitsOfAll s [program] = visitsOf s program := by
  simp [visitsOfAll]

/-- Of a program that begins with a descent, what is left goes on below. -/
theorem pruned_cons_of_descends {step : Step} {rest : Program} (hs : step.descends = true) :
    pruned live (step :: rest) = (pruned live rest).map (step :: ·) := by
  cases rest with
  | nil => cases step <;> first | rfl | cases hs
  | cons next rest => rfl

mutual

/-- **The visits of a pruned program** are what is left of its visits. -/
theorem visitsOfAll_pruned {t t' : Section} (hp : t'.PrunedOf live t) (hc : t.ClosedUnder live)
    (hs : t.StopsLast) : ∀ program : Program, stopsLast program = true →
      visitsOfAll t' (pruned live program).toList =
        (visitsOf t program).filterMap (prunedVisit live)
  | [], _ => by simp [pruned, visitsOf, visitsOfAll]
  | .this :: rest, h => by
    obtain rfl := eq_nil_of_stopsLast h rfl
    simp [pruned, prunedStep, visitsOf, visitsOfAll, prunedVisit]
  | .access name :: rest, h => by
    rw [pruned_cons_of_descends rfl]
    cases hr : pruned live rest <;> simp [visitsOf, visitsOfAll, prunedVisit, hr]
  | .loop :: rest, h => by
    rw [pruned_cons_of_descends rfl]
    cases hr : pruned live rest <;> simp [visitsOf, visitsOfAll, prunedVisit, hr]
  | .entries :: rest, h => by
    rw [pruned_cons_of_descends rfl]
    cases hr : pruned live rest <;> simp [visitsOf, visitsOfAll, prunedVisit, hr]
  | .select arms :: rest, h => by
    obtain rfl := eq_nil_of_stopsLast h rfl
    rw [visitsOf, ← visitsOfAll_prunedAll hp hc hs arms h, pruned, prunedStep]
    split
    · next he => simp [he, visitsOfAll]
    · next he => simp [he, visitsOfAll, visitsOf]
  | .ref name :: rest, h => by
    obtain rfl := eq_nil_of_stopsLast h rfl
    rw [visitsOf]
    split
    · next programs hl =>
      have ih := visitsOfAll_prunedAll (hp.without name) (hc.without name) (hs.without name)
        programs (hs name programs hl)
      rw [← ih, pruned, prunedStep]
      by_cases hn : name ∈ live
      · rw [if_pos (by simpa using hn), Option.map_some, Option.toList_some, visitsOfAll_singleton,
          visitsOf]
        have hl' := hp name
        rw [hl, Option.bind_some] at hl'
        split
        · next programs' he =>
          rw [hl'] at he
          split_ifs at he with hz
          rw [Option.some.inj he]
        · next he =>
          rw [hl'] at he
          split_ifs at he with hz
          rw [hz, visitsOfAll]
      · rw [if_neg (by simpa using hn), hc name programs hl hn]
        simp [visitsOfAll]
    · next hl =>
      rw [pruned, prunedStep]
      split
      · have hl' := hp name
        rw [hl] at hl'
        rw [Option.map_some, Option.toList_some, visitsOfAll_singleton, visitsOf]
        split
        · next he => rw [hl'] at he; cases he
        · rfl
      · simp [visitsOfAll]
termination_by program => (t.length, sizeOf program)
decreasing_by
  · apply Prod.Lex.right; simp +arith
  · exact Prod.Lex.left _ _ (Section.length_without_lt (by assumption))

theorem visitsOfAll_prunedAll {t t' : Section} (hp : t'.PrunedOf live t) (hc : t.ClosedUnder live)
    (hs : t.StopsLast) : ∀ programs : List Program, allStopLast programs = true →
      visitsOfAll t' (prunedAll live programs) =
        (visitsOfAll t programs).filterMap (prunedVisit live)
  | [], _ => by simp [prunedAll, visitsOfAll]
  | program :: rest, h => by
    rw [allStopLast, Bool.and_eq_true] at h
    rw [prunedAll_cons, visitsOfAll_append, visitsOfAll, List.filterMap_append,
      visitsOfAll_pruned hp hc hs program h.1, visitsOfAll_prunedAll hp hc hs rest h.2]
termination_by programs => (t.length, sizeOf programs)
decreasing_by
  all_goals apply Prod.Lex.right; simp +arith

end

/-- The programs that visits descend with stop last, too. -/
theorem stopsLast_rest {visit : Visit} {program : Program} (hs : s.StopsLast)
    (h : stopsLast program = true) (hv : visit ∈ visitsOf s program) :
    stopsLast visit.rest = true := by
  obtain ⟨n, hn⟩ := mem_visitsOf_iff.mp hv
  clear hv
  induction hn with
  | this => rfl
  | access => exact stopsLast_tail h
  | loop => exact stopsLast_tail h
  | entries => exact stopsLast_tail h
  | select harm _ ih =>
    obtain rfl := eq_nil_of_stopsLast h rfl
    exact ih (allStopLast_iff.mp h _ harm)
  | @ref _ name _ _ _ hq _ ih =>
    cases hl : Member.lookup name s with
    | none => rw [Section.programs_of_lookup_none hl] at hq; cases hq
    | some programs =>
      rw [Section.programs_of_lookup hl] at hq
      exact ih (allStopLast_iff.mp (hs name programs hl) _ hq)

/-! ### Runs -/

section Run

variable {σ : Type} {h : Handler σ} {descend descend' : Descent σ} {path : List Key}

/-- A handler does not mind mismatches. -/
def Handler.Silent (h : Handler σ) : Prop :=
  ∀ state path step found, h.mismatch state path step found = state

/-- One descent does with what is left of a program as another does with the program: where nothing
is left, the program does nothing. -/
def DescendsAlike (live : List String) (descend descend' : Descent σ) : Prop :=
  ∀ path program slot r, stopsLast program = true → descend path program slot = some r →
    (pruned live program).elim (some slot) (descend' path · slot) = some r

theorem Handler.Silent.report (hh : h.Silent) (state : σ) (path : List Key) (step : String)
    (v : Payload) : h.report state path step v = state := by
  unfold Handler.report
  split_ifs
  · rfl
  · exact hh ..

theorem descendItems_of_imp {run : Nat → σ × Payload → Option (σ × Payload)}
    (run' : Nat → σ × Payload → Option (σ × Payload))
    (hrun : ∀ {i slot r}, run i slot = some r → run' i slot = some r) :
    ∀ {items : List Payload} {i : Nat} {state : σ} {r : σ × List Payload},
      descendItems run i state items = some r → descendItems run' i state items = some r
  | [], _, _, _, hr => hr
  | item :: rest, i, state, r, hr => by
    simp only [descendItems, Option.bind_eq_some_iff, Option.map_eq_some_iff] at hr ⊢
    obtain ⟨q, hq, x, hx, he⟩ := hr
    exact ⟨q, hrun hq, x, descendItems_of_imp run' hrun hx, he⟩

theorem descendMembers_of_imp {run : String → σ × Payload → Option (σ × Payload)}
    (run' : String → σ × Payload → Option (σ × Payload))
    (hrun : ∀ {name slot r}, run name slot = some r → run' name slot = some r) :
    ∀ {members : List (String × Payload)} {state : σ} {r : σ × List (String × Payload)},
      descendMembers run state members = some r → descendMembers run' state members = some r
  | [], _, _, hr => hr
  | (name, value) :: rest, state, r, hr => by
    simp only [descendMembers, Option.bind_eq_some_iff, Option.map_eq_some_iff] at hr ⊢
    obtain ⟨q, hq, x, hx, he⟩ := hr
    exact ⟨q, hrun hq, x, descendMembers_of_imp run' hrun hx, he⟩

theorem descendItems_some : ∀ (items : List Payload) (i : Nat) (state : σ),
    descendItems (fun _ slot => some slot) i state items = some (state, items)
  | [], _, _ => rfl
  | item :: rest, i, state => by simp [descendItems, descendItems_some rest]

theorem descendMembers_some : ∀ (members : List (String × Payload)) (state : σ),
    descendMembers (fun _ slot => some slot) state members = some (state, members)
  | [], _ => rfl
  | (_, value) :: rest, state => by simp [descendMembers, descendMembers_some rest]

/-- **What is left of a visit** does the same. -/
theorem makeVisit_pruned (hh : h.Silent) (hd : DescendsAlike live descend descend') {visit : Visit}
    (hs : stopsLast visit.rest = true) {slot r : σ × Payload}
    (hr : makeVisit h descend path slot visit = some r) :
    (prunedVisit live visit).elim (some slot) (makeVisit h descend' path slot) = some r := by
  obtain ⟨state, v⟩ := slot
  cases visit with
  | convert => exact hr
  | field name rest =>
    rw [prunedVisit]
    rw [Visit.rest] at hs
    cases v with
    | object members =>
      simp only [makeVisit] at hr
      cases hl : Member.lookup name members with
      | none =>
        rw [hl] at hr
        cases pruned live rest with
        | none => exact hr
        | some q => simpa [makeVisit, hl] using hr
      | some child =>
        rw [hl] at hr
        obtain ⟨⟨state', child'⟩, hc, he⟩ := Option.map_eq_some_iff.mp hr
        have hdc := hd _ _ _ _ hs hc
        cases hq : pruned live rest with
        | none =>
          rw [hq] at hdc
          cases hdc
          rw [← he, Member.put_of_lookup hl]
          rfl
        | some q =>
          rw [hq] at hdc
          simp only [Option.map_some, Option.elim_some] at hdc ⊢
          simp [makeVisit, hl, hdc, ← he]
    | _ => cases pruned live rest <;> simpa [makeVisit, hh.report] using hr
  | items rest =>
    rw [prunedVisit]
    rw [Visit.rest] at hs
    cases v with
    | array items =>
      simp only [makeVisit, Option.map_eq_some_iff] at hr
      obtain ⟨⟨state', items'⟩, hi, rfl⟩ := hr
      cases hq : pruned live rest with
      | none =>
        have hi' := descendItems_of_imp (fun _ slot => some slot)
          (fun hrun => by simpa [hq] using hd _ _ _ _ hs hrun) hi
        rw [descendItems_some] at hi'
        cases hi'; rfl
      | some q =>
        have hi' := descendItems_of_imp (fun i => descend' (.index i :: path) q)
          (fun hrun => by simpa [hq] using hd _ _ _ _ hs hrun) hi
        simp [makeVisit, hi']
    | _ => cases pruned live rest <;> simpa [makeVisit, hh.report] using hr
  | members rest =>
    rw [prunedVisit]
    rw [Visit.rest] at hs
    cases v with
    | object members =>
      simp only [makeVisit, Option.map_eq_some_iff] at hr
      obtain ⟨⟨state', members'⟩, hi, rfl⟩ := hr
      cases hq : pruned live rest with
      | none =>
        have hi' := descendMembers_of_imp (fun _ slot => some slot)
          (fun hrun => by simpa [hq] using hd _ _ _ _ hs hrun) hi
        rw [descendMembers_some] at hi'
        cases hi'; rfl
      | some q =>
        have hi' := descendMembers_of_imp (fun name => descend' (.name name :: path) q)
          (fun hrun => by simpa [hq] using hd _ _ _ _ hs hrun) hi
        simp [makeVisit, hi']
    | _ => cases pruned live rest <;> simpa [makeVisit, hh.report] using hr

/-- What is left of visits in a row does the same. -/
theorem makeVisits_pruned (hh : h.Silent) (hd : DescendsAlike live descend descend') :
    ∀ {visits : List Visit} {slot r : σ × Payload},
      (∀ visit ∈ visits, stopsLast visit.rest = true) →
      makeVisits h descend path visits slot = some r →
        makeVisits h descend' path (visits.filterMap (prunedVisit live)) slot = some r
  | [], _, _, _, hr => hr
  | visit :: rest, slot, r, hs, hr => by
    obtain ⟨middle, hm, hr⟩ := Option.bind_eq_some_iff.mp hr
    have hv := makeVisit_pruned hh hd (hs visit (by simp)) hm
    have ih := makeVisits_pruned hh hd (fun other ho => hs other (by simp [ho])) hr
    rw [List.filterMap_cons]
    cases hp : prunedVisit live visit with
    | none =>
      rw [hp] at hv
      cases hv; exact ih
    | some visit' =>
      rw [hp] at hv
      simp only [Option.elim_some] at hv
      rw [makeVisits, hv]
      exact ih

variable {s' : Section}

/-- The visits of what is left of a program do the same as its visits. -/
theorem makeVisits_visitsOf_pruned (hp : s'.PrunedOf live s) (hc : s.ClosedUnder live)
    (hs : s.StopsLast) (hh : h.Silent) (hd : DescendsAlike live descend descend')
    {program : Program} (hprogram : stopsLast program = true) {slot r : σ × Payload}
    (hr : makeVisits h descend path (visitsOf s program) slot = some r) :
    (pruned live program).elim (some slot)
      (fun q => makeVisits h descend' path (visitsOf s' q) slot) = some r := by
  have hv := makeVisits_pruned hh hd (fun visit hm => stopsLast_rest hs hprogram hm) hr
  rw [← visitsOfAll_pruned hp hc hs program hprogram] at hv
  cases hq : pruned live program with
  | none => simpa [hq, visitsOfAll, makeVisits] using hv
  | some q => simpa [hq, visitsOfAll_singleton] using hv

/-- **A pruned program** over a pruned section does as the program over the section. -/
theorem runProgram_pruned (hp : s'.PrunedOf live s) (hc : s.ClosedUnder live) (hs : s.StopsLast)
    (hh : h.Silent) : ∀ descents,
      DescendsAlike live (runProgram s h descents) (runProgram s' h descents) := by
  intro descents
  induction descents with
  | zero =>
    intro path program slot r hprogram hr
    have hd : DescendsAlike live (fun _ _ _ => none : Descent σ) (fun _ _ _ => none) :=
      fun _ _ _ _ _ h => by simp at h
    exact makeVisits_visitsOf_pruned hp hc hs hh hd hprogram hr
  | succ descents ih =>
    intro path program slot r hprogram hr
    exact makeVisits_visitsOf_pruned hp hc hs hh ih hprogram hr

/-- Pruned programs in a row do as the programs. -/
theorem runPrograms_pruned (hp : s'.PrunedOf live s) (hc : s.ClosedUnder live) (hs : s.StopsLast)
    (hh : h.Silent) {descents : Nat} : ∀ {programs : List Program} {slot r : σ × Payload},
      allStopLast programs = true → runPrograms s h descents programs slot = some r →
        runPrograms s' h descents (prunedAll live programs) slot = some r
  | [], _, _, _, hr => hr
  | program :: rest, slot, r, hprograms, hr => by
    rw [allStopLast, Bool.and_eq_true] at hprograms
    obtain ⟨middle, hm, hr⟩ := Option.bind_eq_some_iff.mp hr
    have h1 := runProgram_pruned hp hc hs hh descents _ _ _ _ hprograms.1 hm
    have ih := runPrograms_pruned hp hc hs hh hprograms.2 hr
    rw [prunedAll]
    cases hq : pruned live program with
    | none =>
      rw [hq] at h1
      cases h1; exact ih
    | some q =>
      rw [hq] at h1
      simp only [Option.elim_some] at h1
      rw [runPrograms, h1]
      exact ih

end Run

/-! ### Tables -/

theorem Table.entries_prune (t : Table) (kind : Kind) :
    t.prune.1.entries kind = (t.entries kind).prune (ApiDecl.liveNames (t.entries kind)) := by
  have keep (o : Option Section) :
      (o.bind fun s => nonempty? (s.prune (ApiDecl.liveNames s))).getD [] =
        (o.getD []).prune (ApiDecl.liveNames (o.getD [])) := by
    cases o with
    | none => rfl
    | some s =>
      simp only [Option.bind_some, Option.getD_some, nonempty?]
      split_ifs with he
      · exact (List.isEmpty_iff.mp he).symm
      · rfl
  cases kind <;> exact keep _

theorem Table.names_prune (t : Table) (kind : Kind) :
    t.prune.2.names kind = ApiDecl.liveNames (t.entries kind) := by
  have names (o : Option Section) :
      (o.map ApiDecl.liveNames).getD [] = ApiDecl.liveNames (o.getD []) := by
    cases o <;> rfl
  cases kind <;> exact names _

/-- A conversion with a state of its own, and the values that it has been called on so far. -/
def Handler.recording {σ : Type} (convert : σ → Payload → σ × Payload) :
    Handler (σ × List Payload) :=
  ⟨fun (state, calls) v =>
      let (state, w) := convert state v
      ((state, calls ++ [v]), w),
    fun state _ _ _ => state⟩

theorem Section.stopsLast_of_forall (h : ∀ entry ∈ s, allStopLast entry.2 = true) : s.StopsLast :=
  fun _ _ hl => h _ (Member.mem_of_lookup hl)

/-- **Pruning preserves behaviour**: where programs over a table, which lists a name once, come to
an end, what is left of them over what is left of the table comes to the same end, with the same
payload and after the same calls. -/
theorem runPrograms_prune {σ : Type} (t : Table) (kind : Kind) (hd : (t.names kind).Nodup)
    (ht : ∀ entry ∈ t.entries kind, allStopLast entry.2 = true) {programs : List Program}
    (hp : allStopLast programs = true) (convert : σ → Payload → σ × Payload) {descents : Nat}
    {slot r : (σ × List Payload) × Payload}
    (hr : runPrograms (t.entries kind) (.recording convert) descents programs slot = some r) :
    runPrograms (t.prune.1.entries kind) (.recording convert) descents
      (prunedAll (t.prune.2.names kind) programs) slot = some r := by
  rw [Table.entries_prune, Table.names_prune]
  exact runPrograms_pruned (Section.prunedOf_prune hd _) (Section.closedUnder_liveNames _)
    (Section.stopsLast_of_forall ht) (fun _ _ _ _ => rfl) hp hr

/-- Two names that lead to each other, one to a conversion and the other to a name without any. -/
def mixedTable : Table :=
  ⟨some [("A", [[.ref "D"], [.access "next", .ref "B"]]), ("B", [[.select [[.ref "A"], [.this]]]]),
    ("D", [[.loop, .ref "D"]])], none⟩

theorem runPrograms_prune_mixedTable :
    (mixedTable.names .date).Nodup ∧
      (∀ entry ∈ mixedTable.entries .date, allStopLast entry.2 = true) ∧
      allStopLast [[.ref "A"], [.ref "D"]] = true ∧
      runPrograms (mixedTable.entries .date) (.recording fun n v => (n + 1, v)) 1
        [[.ref "A"], [.ref "D"]]
        ((0, []), .object [("next", .null)]) = some ((1, [.null]), .object [("next", .null)]) ∧
      runPrograms (mixedTable.prune.1.entries .date) (.recording fun n v => (n + 1, v)) 1
        (prunedAll (mixedTable.prune.2.names .date) [[.ref "A"], [.ref "D"]])
        ((0, []), .object [("next", .null)]) = some ((1, [.null]), .object [("next", .null)]) :=
  have hd : (mixedTable.names .date).Nodup := by decide
  have ht : ∀ entry ∈ mixedTable.entries .date, allStopLast entry.2 = true := by decide
  have hp : allStopLast [[.ref "A"], [.ref "D"]] = true := by decide
  have hr : runPrograms (mixedTable.entries .date) (.recording fun n v => (n + 1, v)) 1
      [[.ref "A"], [.ref "D"]] ((0, []), .object [("next", .null)]) =
        some ((1, [.null]), .object [("next", .null)]) := by
    simp [runPrograms, runProgram, visitsOf, visitsOfAll, mixedTable, Table.entries, Table.section?,
      makeVisits, makeVisit, Member.lookup, Member.put, Section.without, Handler.recording,
      Handler.report, Payload.isNull]
  ⟨hd, ht, hp, hr, runPrograms_prune mixedTable .date hd ht hp (fun n v => (n + 1, v)) hr⟩

end ApiDecl
