import ApiDecl.Proofs.Transform.Strict
import ApiDecl.Types.Programs

/-!
# Programs grouped behind a step

Programs behind one step are run below it one after the other, at each slot in turn; without the
grouping, each of them goes through all the slots before the next one begins.  The payload is the
same in the end (`Interpreter.run_behind`), since what happens at one slot depends on nothing but
the value there: a step with something to run below it (`Step.runBelow`) turns doing nothing into
doing nothing (`Step.runBelow_some`) and one thing after another into one step after another
(`Step.runBelow_bind`).

The conversion may be any function of values.  It may change its own results, and turn a value into
a container or a container into something else; the programs then may not come to an end, and they
do so within the same limits in either way.
-/

namespace ApiDecl

variable {σ : Type} {s : Section} {h : Handler σ} {f : Payload → Payload} {step : Step}
  {path : List Key}

/-! ### Below a step, one thing after another -/

/-- Without a state, going through the items twice is going through them once and running both at
each. -/
theorem descendItems_bind (run run' : Nat → Unit × Payload → Option (Unit × Payload))
    (items : List Payload) (index : Nat) :
    ((descendItems run index () items).bind fun slot => descendItems run' index slot.1 slot.2) =
      descendItems (fun index slot => (run index slot).bind (run' index)) index () items := by
  induction items generalizing index with
  | nil => rfl
  | cons item rest ih =>
    simp only [descendItems]
    cases run index ((), item) with
    | none => rfl
    | some first =>
      simp only [Option.bind_some, ← ih (index + 1)]
      -- the rest is gone through for the first time before the item is run for the second time
      cases hrest : descendItems run (index + 1) () rest with
      | none => cases run' index first <;> rfl
      | some more => cases hfirst : run' index first <;> simp [descendItems, hfirst]

theorem descendMembers_bind (run run' : String → Unit × Payload → Option (Unit × Payload))
    (members : List (String × Payload)) :
    ((descendMembers run () members).bind fun slot => descendMembers run' slot.1 slot.2) =
      descendMembers (fun name slot => (run name slot).bind (run' name)) () members := by
  induction members with
  | nil => rfl
  | cons member rest ih =>
    obtain ⟨name, value⟩ := member
    simp only [descendMembers]
    cases run name ((), value) with
    | none => rfl
    | some first =>
      simp only [Option.bind_some, ← ih]
      cases hrest : descendMembers run () rest with
      | none => cases run' name first <;> rfl
      | some more => cases hfirst : run' name first <;> simp [descendMembers, hfirst]

section Pure

variable {run run' : List Key → Unit × Payload → Option (Unit × Payload)}

/-- Where nothing is done below, a step does nothing. -/
theorem Step.runBelow_some (hs : step.descends = true) (slot : Unit × Payload) :
    step.runBelow (.ofFunction f) (fun _ => some) path slot = some slot := by
  obtain ⟨⟨⟩, v⟩ := slot
  cases step with
  | access name =>
    cases v with
    | object members =>
      cases hl : Member.lookup name members with
      | none => simp [runBelow, visit, makeVisit, hl]
      | some child => simp [runBelow, visit, makeVisit, hl, Member.put_of_lookup hl]
    | _ => rfl
  | loop =>
    cases v with
    | array items => simp [runBelow, visit, makeVisit, descendItems_some]
    | _ => rfl
  | entries =>
    cases v with
    | object members => simp [runBelow, visit, makeVisit, descendMembers_some]
    | _ => rfl
  | this | select | ref => cases hs

/-- **Two runs below a step**, one after the other, are the step with both below it. -/
theorem Step.runBelow_bind (hs : step.descends = true) (slot : Unit × Payload) :
    ((step.runBelow (.ofFunction f) run path slot).bind fun slot =>
        step.runBelow (.ofFunction f) run' path slot) =
      step.runBelow (.ofFunction f) (fun path slot => (run path slot).bind (run' path)) path
        slot := by
  obtain ⟨⟨⟩, v⟩ := slot
  cases step with
  | access name =>
    cases v with
    | object members =>
      cases hl : Member.lookup name members with
      | none => simp [runBelow, visit, makeVisit, hl]
      | some child =>
        cases hrun : run (.name name :: path) ((), child) <;>
          simp [runBelow, visit, makeVisit, hl, hrun, Member.lookup_put_self, Member.put_put]
    | _ => rfl
  | loop =>
    cases v with
    | array items =>
      simp only [runBelow, visit, makeVisit]
      rw [← descendItems_bind]
      cases descendItems (fun index => run (.index index :: path)) 0 () items <;> rfl
    | _ => rfl
  | entries =>
    cases v with
    | object members =>
      simp only [runBelow, visit, makeVisit]
      rw [← descendMembers_bind]
      cases descendMembers (fun name => run (.name name :: path)) () members <;> rfl
    | _ => rfl
  | this | select | ref => cases hs

end Pure

/-! ### Programs one after the other -/

/-- Runs programs one after the other at a slot. -/
def Descent.inOrder (descend : Descent σ) (path : List Key) :
    List Program → σ × Payload → Option (σ × Payload)
  | [], slot => some slot
  | program :: rest, slot => (descend path program slot).bind (descend.inOrder path rest)

/-- Steps with a program each are the step with all the programs below it. -/
theorem makeVisits_map_visit (hs : step.descends = true) (descend : Descent Unit) :
    ∀ (programs : List Program) (slot : Unit × Payload),
      makeVisits (.ofFunction f) descend path (programs.map step.visit) slot =
        step.runBelow (.ofFunction f) (fun path => descend.inOrder path programs) path slot
  | [], slot => (Step.runBelow_some hs slot).symm
  | program :: rest, slot => by
    rw [List.map_cons, makeVisits, makeVisit_visit,
      funext (makeVisits_map_visit hs descend rest)]
    exact Step.runBelow_bind hs slot

/-- How a run with a limit descends. -/
def descentWithin (s : Section) (h : Handler σ) : (descents : Nat) → Descent σ
  | 0 => fun _ _ _ => none
  | descents + 1 => runProgram s h descents

theorem runProgram_eq (descents : Nat) (path : List Key) (program : Program) (slot : σ × Payload) :
    runProgram s h descents path program slot =
      makeVisits h (descentWithin s h descents) path (visitsOf s program) slot := by
  cases descents <;> rfl

theorem makeVisits_visitsOfAll (descents : Nat) (programs : List Program) (slot : σ × Payload) :
    makeVisits h (descentWithin s h descents) path (visitsOfAll s programs) slot =
      (runProgram s h descents).inOrder path programs slot := by
  induction programs generalizing slot with
  | nil => rw [visitsOfAll]; rfl
  | cons program rest ih =>
    rw [visitsOfAll, makeVisits_append, Descent.inOrder, runProgram_eq]
    exact congrArg _ (funext ih)

/-- A choice among programs below a step runs them in order. -/
theorem descentWithin_select (descents : Nat) {programs : List Program} (hne : programs ≠ []) :
    descentWithin s h descents path [.select programs] =
      (descentWithin s h descents).inOrder path programs := by
  funext slot
  cases descents with
  | zero =>
    obtain ⟨program, rest, rfl⟩ := List.exists_cons_of_ne_nil hne
    rfl
  | succ descents =>
    rw [descentWithin, runProgram_eq, visitsOf, makeVisits_visitsOfAll]

/-- Programs that begin with one step make its visit once for each of them. -/
theorem runPrograms_map_cons (hs : step.descends = true) (descents : Nat)
    (programs : List Program) (slot : σ × Payload) :
    runPrograms s h descents (programs.map (step :: ·)) slot =
      makeVisits h (descentWithin s h descents) [] (programs.map step.visit) slot := by
  induction programs generalizing slot with
  | nil => rfl
  | cons program rest ih =>
    rw [List.map_cons, runPrograms, runProgram_eq, visitsOf_of_descends hs, funext ih, List.map_cons]
    exact (makeVisits_append [step.visit program] (rest.map step.visit) slot).symm

/-- **Programs behind a step** do the same as each of them behind the step by itself. -/
theorem runPrograms_behind (hs : step.descends = true) (descents : Nat) (programs : List Program)
    (slot : Unit × Payload) :
    runPrograms s (.ofFunction f) descents (behind step programs) slot =
      runPrograms s (.ofFunction f) descents (programs.map (step :: ·)) slot := by
  match programs with
  | [] => rfl
  | [_] => rfl
  | first :: second :: rest =>
    have hselect (path : List Key) :
        descentWithin s (.ofFunction f) descents path [.select (first :: second :: rest)] =
          (descentWithin s (.ofFunction f) descents).inOrder path (first :: second :: rest) :=
      descentWithin_select descents (List.cons_ne_nil _ _)
    calc runPrograms s (.ofFunction f) descents
          [step :: [.select (first :: second :: rest)]] slot
        = makeVisits (.ofFunction f) (descentWithin s (.ofFunction f) descents) []
            [step.visit [.select (first :: second :: rest)]] slot :=
          runPrograms_map_cons hs descents [[.select (first :: second :: rest)]] slot
      _ = step.runBelow (.ofFunction f) (fun path =>
            descentWithin s (.ofFunction f) descents path [.select (first :: second :: rest)])
              [] slot := by rw [makeVisits_singleton, makeVisit_visit]
      _ = step.runBelow (.ofFunction f) (fun path =>
            (descentWithin s (.ofFunction f) descents).inOrder path (first :: second :: rest))
              [] slot := by rw [funext hselect]
      _ = runPrograms s (.ofFunction f) descents ((first :: second :: rest).map (step :: ·))
            slot := by
          rw [runPrograms_map_cons hs, makeVisits_map_visit hs]

/-- **Grouping is sound**: in either mode, within any limit on descents, programs grouped behind a
step that descends leave the payload that each of them leaves behind the step by itself, one after
the other, whatever function converts the values. -/
theorem Interpreter.run_behind (t : Table) (i : Interpreter) (f : Payload → Payload)
    (hs : step.descends = true) (programs : List Program) (descents : Nat) (v : Payload) :
    (i.runPrograms t (.ofFunction f) descents (behind step programs) ((), v)).map Prod.snd =
      (i.runPrograms t (.ofFunction f) descents (programs.map (step :: ·)) ((), v)).map
        Prod.snd := by
  have hleft (programs : List Program) :
      (i.runPrograms t (.ofFunction f) descents programs ((), v)).map Prod.snd =
        ApiDecl.runPrograms (t.entries i.kind) (.ofFunction f) descents programs ((), v) := by
    let job : Job := ⟨.whole programs, v, descents⟩
    exact (work_map_snd : (i.work t (.ofFunction f) () job).map Prod.snd = _)
  rw [hleft, hleft]
  exact runPrograms_behind hs descents programs ((), v)

/-- A value, in a list with null. -/
def withNull (v : Payload) : Payload := .array [v, .null]

/-- A name with a conversion and a reference to itself. -/
def nodeTable : Table := ⟨some [("Node", [[.this], [.access "x", .ref "Node"]])], none⟩

/-- Each program meets what the programs before it have made of an item. -/
theorem Interpreter.run_behind_loop :
    Step.loop.descends = true ∧
      ((Interpreter.new .date true).runPrograms nodeTable (.ofFunction withNull) 3
          (behind .loop [[.this], [.loop, .this], [.ref "Node"]]) ((), .array [.string "a"])).map
            Prod.snd =
        ((Interpreter.new .date true).runPrograms nodeTable (.ofFunction withNull) 3
          ([[.this], [.loop, .this], [.ref "Node"]].map (.loop :: ·))
          ((), .array [.string "a"])).map Prod.snd ∧
      ((Interpreter.new .date true).runPrograms nodeTable (.ofFunction withNull) 3
          (behind .loop [[.this], [.loop, .this], [.ref "Node"]]) ((), .array [.string "a"])).map
            Prod.snd =
        some ((), .array [withNull (.array [withNull (.string "a"), withNull .null])]) :=
  ⟨rfl, run_behind _ _ withNull rfl _ 3 _, by cbv⟩

end ApiDecl
