import ApiDecl.Proofs.Transform.Calls
import ApiDecl.Transform.Resumption

/-!
# Positions in a program

A run from a position on goes through a program by the position of its next step; a run of programs goes
through it by what is left.  Both do the same (`runsRest_runFrom`): a position tells what is left, below
every descent, and a program that `select` or `ref` leads to is left as a whole at its first position.  So
a program run from a position on, at one part of a container, is the rest run there
(`runAtFrom_eq_runAt`).
-/

namespace ApiDecl

variable {σ : Type} {s : Section} {h : Handler σ}

section

variable {step : Step} {path : List Key}

/-! ### A step and what is run below it -/

/-- The visit of a step that descends, with the rest of the program. -/
def Step.visit (step : Step) (rest : Program) : Visit :=
  match step with
  | .access name => .field name rest
  | .loop => .items rest
  | .entries => .members rest
  | .this | .select _ | .ref _ => .convert

theorem visitsOf_of_descends (hs : step.descends = true) (rest : Program) :
    visitsOf s (step :: rest) = [step.visit rest] := by
  cases step with
  | access | loop | entries => rw [visitsOf, Step.visit]
  | this | select | ref => cases hs

/-- What a step does at a slot when something is run at each slot below. -/
def Step.runBelow (step : Step) (h : Handler σ)
    (run : List Key → σ × Payload → Option (σ × Payload)) (path : List Key)
    (slot : σ × Payload) : Option (σ × Payload) :=
  makeVisit h (fun path _ => run path) path slot (step.visit [])

theorem makeVisit_visit (descend : Descent σ) (rest : Program) (slot : σ × Payload) :
    makeVisit h descend path slot (step.visit rest) =
      step.runBelow h (fun path => descend path rest) path slot := by
  cases step <;> rfl

theorem makeVisits_singleton (descend : Descent σ) (visit : Visit) (slot : σ × Payload) :
    makeVisits h descend path [visit] slot = makeVisit h descend path slot visit :=
  Option.bind_fun_some _

end

/-! ### Positions and rests -/

/-- The step of a position is the first of the rest. -/
theorem drop_of_getElem? {α : Type} {l : List α} {index : Nat} {a : α} (h : l[index]? = some a) :
    l.drop index = a :: l.drop (index + 1) := by
  obtain ⟨hlt, rfl⟩ := List.getElem?_eq_some_iff.mp h
  exact List.drop_eq_getElem_cons hlt

/-- What goes on from a position does what goes on with the rest. -/
def Resumption.RunsRest (resume : Resumption σ) (descend : Descent σ) : Prop :=
  ∀ path program index slot, resume path program index slot = descend path (program.drop index) slot

section

variable {resume : Resumption σ} {descend : Descent σ} {path : List Key} {program : Program}
  {index : Nat}

/-- A descent from a position is one with the rest behind it. -/
theorem makeVisit_of_runsRest (hr : resume.RunsRest descend) {step : Step}
    (hs : step.descends = true) (hp : program[index]? = some step) (slot : σ × Payload) :
    makeVisit h (fun path program => resume path program (index + 1)) path slot
        (step.visit program) =
      makeVisits h descend path (visitsOf s (program.drop index)) slot := by
  have hrun : (fun path => resume path program (index + 1)) =
      fun path => descend path (program.drop (index + 1)) :=
    funext fun path => funext fun slot => hr path program (index + 1) slot
  rw [drop_of_getElem? hp, visitsOf_of_descends hs, makeVisits_singleton, makeVisit_visit,
    makeVisit_visit, hrun]

mutual

/-- **A step is taken** as the rest of its program is run. -/
theorem takeStep_eq (hr : resume.RunsRest descend) (s : Section) (path : List Key)
    (program : Program) (index : Nat) (slot : σ × Payload) :
    takeStep h resume s path program index slot =
      makeVisits h descend path (visitsOf s (program.drop index)) slot := by
  rw [takeStep]
  cases hp : program[index]? with
  | none =>
    have hdrop : program.drop index = [] := List.drop_eq_nil_of_le (List.getElem?_eq_none_iff.mp hp)
    rw [hdrop, visitsOf]
    rfl
  | some step =>
    cases step with
    | this =>
      rw [drop_of_getElem? hp, visitsOf]
      rfl
    | access name => exact makeVisit_of_runsRest hr rfl hp slot
    | loop => exact makeVisit_of_runsRest hr rfl hp slot
    | entries => exact makeVisit_of_runsRest hr rfl hp slot
    | select arms =>
      rw [drop_of_getElem? hp, visitsOf]
      exact takeFirstSteps_eq hr s path arms slot
    | ref name =>
      have hvisits : visitsOf s (.ref name :: program.drop (index + 1)) =
          visitsOfAll (s.without name) (s.programs name) :=
        visitsOf_ref_less _ List.not_mem_nil
      rw [drop_of_getElem? hp, hvisits]
      dsimp only
      split
      · next programs hl =>
        rw [Section.programs_of_lookup hl]
        exact takeFirstSteps_eq hr (s.without name) path programs slot
      · next hl =>
        rw [Section.programs_of_lookup_none hl, visitsOfAll]
        rfl
termination_by (s.length, sizeOf program)
decreasing_by
  · have := List.sizeOf_lt_of_mem (List.mem_of_getElem? hp)
    rw [Step.select.sizeOf_spec] at this
    exact Prod.Lex.right _ (by omega)
  · exact Prod.Lex.left _ _ (Section.length_without_lt (by assumption))

theorem takeFirstSteps_eq (hr : resume.RunsRest descend) (s : Section) (path : List Key) :
    ∀ (programs : List Program) (slot : σ × Payload),
      takeFirstSteps h resume s path programs slot =
        makeVisits h descend path (visitsOfAll s programs) slot
  | [], slot => by
    rw [takeFirstSteps, visitsOfAll]
    rfl
  | program :: rest, slot => by
    rw [takeFirstSteps, visitsOfAll, makeVisits_append, takeStep_eq hr s path program 0,
      List.drop_zero]
    exact congrArg _ (funext (takeFirstSteps_eq hr s path rest))
termination_by programs => (s.length, sizeOf programs)
decreasing_by
  all_goals apply Prod.Lex.right; simp +arith

end

/-- **A run from a position on** is a run of the rest of the program. -/
theorem runsRest_runFrom (s : Section) (h : Handler σ) (descents : Nat) :
    Resumption.RunsRest (runFrom s h descents) (runProgram s h descents) := by
  intro path program index slot
  induction descents generalizing path program index slot with
  | zero =>
    have hnone : Resumption.RunsRest (fun _ _ _ (_ : σ × Payload) => none) (fun _ _ _ => none) :=
      fun _ _ _ _ => rfl
    exact takeStep_eq hnone s path program index slot
  | succ descents ih => exact takeStep_eq ih s path program index slot

end

theorem runAtFrom_eq_runAt (descents : Nat) (key : Key) (program : Program) (index : Nat)
    (slot : σ × Payload) :
    runAtFrom s h descents key program index slot =
      runAt s h descents key (program.drop index) slot := by
  rw [runAt_eq, runAtFrom]
  cases slot.2.part? key with
  | none => rfl
  | some child =>
    exact congrArg (Option.map _) (runsRest_runFrom s h descents [key] program index (slot.1, child))

end ApiDecl
