import ApiDecl.Transform.Resumption

/-!
# Interpreters

An interpreter runs programs of one kind, again and again, and in strict mode remembers the values that
visits could not descend into, in the order of the visits.

* `Interpreter.runPrograms`, `Interpreter.runAt`: the runs of `ApiDecl.runPrograms` and `runAtFrom`,
  with the mismatches kept;
* `Interpreter.description`: its settings in one line.
-/

namespace ApiDecl

/-- A kind of conversion, a mode, and the mismatches met so far. -/
structure Interpreter where
  kind : Kind
  /-- Mismatches are kept. -/
  strict : Bool
  mismatches : List Mismatch

namespace Interpreter

variable {σ : Type}

/-- An interpreter that has met nothing yet. -/
def new (kind : Kind) (strict : Bool) : Interpreter := ⟨kind, strict, []⟩

/-- The settings of an interpreter. -/
def description (i : Interpreter) : String :=
  let kind :=
    match i.kind with
    | .date => "Date"
    | .binary => "Binary"
  "Interpreter \x7b kind: " ++ kind ++ ", strict: " ++ (if i.strict then "true" else "false") ++ " \x7d"

/-- Runs something with a handler that keeps mismatches in strict mode and drops them otherwise. -/
def observe (i : Interpreter) (h : Handler σ)
    (run : {τ : Type} → Handler τ → τ × Payload → Option (τ × Payload)) (slot : σ × Payload) :
    Option (Interpreter × σ × Payload) :=
  if i.strict then
    (run h.strict ((slot.1, i.mismatches), slot.2)).map fun ((state, mismatches), value) =>
      ({ i with mismatches }, state, value)
  else (run h slot).map (i, ·)

/-- Runs programs at a whole payload. -/
def runPrograms (i : Interpreter) (t : Table) (h : Handler σ) (descents : Nat)
    (programs : List Program) (slot : σ × Payload) : Option (Interpreter × σ × Payload) :=
  i.observe h (fun h => ApiDecl.runPrograms (t.entries i.kind) h descents programs) slot

/-- Runs a program from a position on at one part of a payload. -/
def runAt (i : Interpreter) (t : Table) (h : Handler σ) (descents : Nat) (key : Key)
    (program : Program) (index : Nat) (slot : σ × Payload) : Option (Interpreter × σ × Payload) :=
  i.observe h (fun h => runAtFrom (t.entries i.kind) h descents key program index) slot

end Interpreter

end ApiDecl
