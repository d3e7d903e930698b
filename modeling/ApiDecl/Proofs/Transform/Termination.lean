import ApiDecl.Proofs.Transform.Denotation
import ApiDecl.Proofs.Transform.Execution
import ApiDecl.Proofs.Transform.Position

/-!
# Every run comes to an end

Programs may refer to each other in circles and may be nonsense, and conversions replace values that
later programs run on.  All the same each run of an interpreter is finite and has one result, in either
mode, as long as no conversion nests its result deeper than its argument.

* `ExecutesAt`: what running a program at one part of a container does, without a limit on descents;
* `Interpreter.Observes`: what an interpreter runs, with the mismatches that it keeps;
* `Interpreter.terminates`: such a run exists, is the only one, and is what the interpreter computes
  within the depth of the payload.
-/

namespace ApiDecl

section

variable {σ : Type}

/-- A program is run at one part of a container, if there is such a part. -/
inductive ExecutesAt (s : Section) (h : Handler σ) :
    Key → Program → σ × Payload → List (List Place) → σ × Payload → Prop
  | member {name : String} {program : Program} {members : List (String × Payload)} {child : Payload}
      {state : σ} {trace : List (List Place)} {r : σ × Payload} :
      Member.lookup name members = some child →
      Executes s h [.name name] (.program [] program) (state, child) trace r →
      ExecutesAt s h (.name name) program (state, .object members)
        (trace.map (.member (Member.position name members) name :: ·))
        (r.1, .object (Member.put name r.2 members))
  | item {index : Nat} {program : Program} {items : List Payload} {child : Payload} {state : σ}
      {trace : List (List Place)} {r : σ × Payload} :
      items[index]? = some child →
      Executes s h [.index index] (.program [] program) (state, child) trace r →
      ExecutesAt s h (.index index) program (state, .array items) (trace.map (.item index :: ·))
        (r.1, .array (items.set index r.2))
  | noMember {name : String} {program : Program} {slot : σ × Payload} :
      (∀ members, slot.2 = .object members → Member.lookup name members = none) →
      ExecutesAt s h (.name name) program slot [] slot
  | noItem {index : Nat} {program : Program} {slot : σ × Payload} :
      (∀ items, slot.2 = .array items → items[index]? = none) →
      ExecutesAt s h (.index index) program slot [] slot

variable {s : Section} {h : Handler σ}

theorem ExecutesAt.deterministic {key : Key} {program : Program} {slot r r' : σ × Payload}
    {trace trace' : List (List Place)} (hx : ExecutesAt s h key program slot trace r)
    (hx' : ExecutesAt s h key program slot trace' r') : trace = trace' ∧ r = r' := by
  cases hx with
  | member hl hx =>
    cases hx' with
    | member hl' hx' =>
      obtain rfl := Option.some.inj (hl.symm.trans hl')
      obtain ⟨rfl, rfl⟩ := hx.deterministic hx'
      exact ⟨rfl, rfl⟩
    | noMember hn =>
      rw [hn _ rfl] at hl
      cases hl
  | item hi hx =>
    cases hx' with
    | item hi' hx' =>
      obtain rfl := Option.some.inj (hi.symm.trans hi')
      obtain ⟨rfl, rfl⟩ := hx.deterministic hx'
      exact ⟨rfl, rfl⟩
    | noItem hn =>
      rw [hn _ rfl] at hi
      cases hi
  | noMember hn =>
    cases hx' with
    | member hl _ =>
      rw [hn _ rfl] at hl
      cases hl
    | noMember _ => exact ⟨rfl, rfl⟩
  | noItem hn =>
    cases hx' with
    | item hi _ =>
      rw [hn _ rfl] at hi
      cases hi
    | noItem _ => exact ⟨rfl, rfl⟩

theorem exists_executesAt_of_runAt {descents : Nat} {key : Key} {program : Program}
    {slot r : σ × Payload} (hr : runAt s h descents key program slot = some r) :
    ∃ trace, ExecutesAt s h key program slot trace r := by
  obtain ⟨state, v⟩ := slot
  rw [runAt_eq] at hr
  cases hp : v.part? key with
  | none =>
    rw [hp] at hr
    obtain rfl := Option.some.inj hr
    cases key with
    | name name => exact ⟨[], .noMember fun _ he => by cases he; exact hp⟩
    | index index => exact ⟨[], .noItem fun _ he => by cases he; exact hp⟩
  | some child =>
    rw [hp] at hr
    obtain ⟨_, hc, rfl⟩ := Option.map_eq_some_iff.mp hr
    obtain ⟨trace, hx⟩ := exists_executes_of_runProgram descents hc
    cases key with
    | name name =>
      cases v with
      | object members => exact ⟨_, .member hp hx⟩
      | _ => cases hp
    | index index =>
      cases v with
      | array items => exact ⟨_, .item hp hx⟩
      | _ => cases hp

namespace Interpreter

/-- An interpreter makes a run, which it watches for mismatches in strict mode only. -/
def Observes (i : Interpreter) (h : Handler σ)
    (runs : {τ : Type} → Handler τ → τ × Payload → List (List Place) → τ × Payload → Prop)
    (slot : σ × Payload) (trace : List (List Place)) (r : Interpreter × σ × Payload) : Prop :=
  if i.strict then
    ∃ mismatches, runs h.strict ((slot.1, i.mismatches), slot.2) trace
      ((r.2.1, mismatches), r.2.2) ∧ r.1 = { i with mismatches }
  else runs h slot trace r.2 ∧ r.1 = i

variable {i : Interpreter} {slot : σ × Payload}
  {run : {τ : Type} → Handler τ → τ × Payload → Option (τ × Payload)}
  {runs : {τ : Type} → Handler τ → τ × Payload → List (List Place) → τ × Payload → Prop}

/-- If what is computed with a handler is a run, and the only one, then so it is with an interpreter. -/
theorem observes_iff_of_observe
    (hsome : ∀ {τ : Type} {h : Handler τ} (state : τ), h.Level →
      ∃ trace r, run h (state, slot.2) = some r ∧ runs h (state, slot.2) trace r)
    (hdet : ∀ {τ : Type} {h : Handler τ} {slot r r' : τ × Payload} {trace trace' : List (List Place)},
      runs h slot trace r → runs h slot trace' r' → trace = trace' ∧ r = r')
    (level : h.Level) :
    ∃ trace r, i.observe h run slot = some r ∧
      ∀ trace' r', i.Observes h runs slot trace' r' ↔ trace' = trace ∧ r' = r := by
  unfold observe Observes
  by_cases hs : i.strict = true
  · obtain ⟨trace, ⟨⟨state, mismatches⟩, v⟩, hr, hx⟩ :=
      hsome (slot.1, i.mismatches) (Handler.level_strict level)
    refine ⟨trace, ({ i with mismatches }, state, v), ?_, fun trace' r' => ?_⟩
    · rw [if_pos hs]
      exact congrArg _ hr
    · rw [if_pos hs]
      constructor
      · rintro ⟨mismatches', hx', hi⟩
        obtain ⟨rfl, he⟩ := hdet hx' hx
        obtain ⟨hstate, rfl⟩ := Prod.mk.inj (Prod.mk.inj he).1
        exact ⟨rfl, Prod.ext hi (Prod.ext hstate (Prod.mk.inj he).2)⟩
      · rintro ⟨rfl, rfl⟩
        exact ⟨mismatches, hx, rfl⟩
  · obtain ⟨trace, r, hr, hx⟩ := hsome slot.1 level
    refine ⟨trace, (i, r), ?_, fun trace' r' => ?_⟩
    · rw [if_neg hs]
      exact congrArg _ hr
    · rw [if_neg hs]
      constructor
      · rintro ⟨hx', hi⟩
        obtain ⟨rfl, he⟩ := hdet hx' hx
        exact ⟨rfl, Prod.ext hi he⟩
      · rintro ⟨rfl, rfl⟩
        exact ⟨hx, rfl⟩

/-- **Every run comes to an end.**  Whatever the table and the programs, and in either mode, running
programs at a payload and running a program at a part of it, from any step on, are finite and have one
result, the one that is computed within the depth of the payload. -/
theorem terminates (t : Table) (i : Interpreter) {h : Handler σ} (level : h.Level)
    (slot : σ × Payload) :
    (∀ programs : List Program, ∃ trace r, i.runPrograms t h slot.2.depth programs slot = some r ∧
      ∀ trace' r', i.Observes h
        (fun h => Executes (t.entries i.kind) h [] (.programs [] programs)) slot trace' r' ↔
          trace' = trace ∧ r' = r) ∧
    ∀ (key : Key) (program : Program) (index : Nat), ∃ trace r,
      i.runAt t h slot.2.depth key program index slot = some r ∧
      ∀ trace' r', i.Observes h
        (fun h => ExecutesAt (t.entries i.kind) h key (program.drop index)) slot trace' r' ↔
          trace' = trace ∧ r' = r := by
  constructor
  · intro programs
    refine observes_iff_of_observe (fun {_ h} state level => ?_) Executes.deterministic level
    obtain ⟨r, hr⟩ := Option.isSome_iff_exists.mp
      (runPrograms_isSome (t.entries i.kind) level programs (state, slot.2))
    obtain ⟨trace, hx⟩ := exists_executes_of_runPrograms hr
    exact ⟨trace, r, hr, hx⟩
  · intro key program index
    refine observes_iff_of_observe (fun {_ h} state level => ?_) ExecutesAt.deterministic level
    obtain ⟨r, hr⟩ := Option.isSome_iff_exists.mp
      (runAt_isSome (t.entries i.kind) level key (program.drop index) state slot.2)
    obtain ⟨trace, hx⟩ := exists_executesAt_of_runAt hr
    exact ⟨trace, r, (runAtFrom_eq_runAt _ key program index _).trans hr, hx⟩

end Interpreter

end

/-- Two names that enter each other, with programs that go on behind a `ref` and behind a conversion. -/
def circularTable : Table :=
  ⟨some [("Left", [[.ref "Right", .loop], [.this, .ref "Left"], [.access "next", .ref "Right"]]),
    ("Right", [[.ref "Left"], [.loop, .this], []])], none⟩

/-- Running both names in circles at a day and below. -/
theorem Interpreter.terminates_circularTable :
    (Handler.ofFunction Payload.parseDate).Level ∧
      ∃ trace r, (Interpreter.new .date true).runPrograms circularTable
          (.ofFunction Payload.parseDate)
          (Payload.object [("next", .string "2020-01-02")]).depth [[.ref "Left"], [.ref "Right"]]
          ((), .object [("next", .string "2020-01-02")]) = some r ∧
        ∀ trace' r', (Interpreter.new .date true).Observes (.ofFunction Payload.parseDate)
          (fun h => Executes (circularTable.entries .date) h []
            (.programs [] [[.ref "Left"], [.ref "Right"]]))
          ((), .object [("next", .string "2020-01-02")]) trace' r' ↔ trace' = trace ∧ r' = r :=
  have level : (Handler.ofFunction Payload.parseDate).Level := Payload.leafwise_parseDate.level
  ⟨level, (Interpreter.terminates circularTable (.new .date true) level
    ((), .object [("next", .string "2020-01-02")])).1 [[.ref "Left"], [.ref "Right"]]⟩

end ApiDecl
