import ApiDecl.Json.Basic

/-!
# Transform programs

A program says where, inside a payload, a conversion applies.  It is a list of steps that descend from
a slot to the slots below it; `this`, `select` and `ref` end it, and what stands behind them is never
run.  A `ref` names other programs instead of holding them, so that cyclic types have finite programs.

* `Kind`, `Step`, `Program`: conversions, steps and programs;
* `Program.toJson`, `Program.ofJson?`: programs as JSON.  A step is an object with a tag `op` and an
  argument `arg`, or the pair of both.
-/

namespace ApiDecl

/-- The conversion that programs are made for. -/
inductive Kind where
  /-- Moments and days. -/
  | date
  /-- Base64 data. -/
  | binary
  deriving DecidableEq

namespace Kind

/-- Every kind, in the order of conversion. -/
def all : List Kind := [.date, .binary]

/-- The name of a kind. -/
def name : Kind → String
  | .date => "date"
  | .binary => "binary"

/-- The kind of a name. -/
def ofName? (text : String) : Option Kind :=
  if text = "date" then some .date else if text = "binary" then some .binary else none

/-- The kind of conversion that a string format needs. -/
def ofFormat? (format : String) : Option Kind :=
  if format = "date-time" ∨ format = "date" then some .date
  else if format = "byte" ∨ format = "binary" then some .binary
  else none

end Kind

/-- One step of a program. -/
inductive Step where
  /-- Convert the value of the slot. -/
  | this
  /-- Descend into the member of a name. -/
  | access (name : String)
  /-- Descend into every item of an array. -/
  | loop
  /-- Descend into every member of an object. -/
  | entries
  /-- Run several programs at the slot. -/
  | select (arms : List (List Step))
  /-- Run the programs of a name at the slot. -/
  | ref (name : String)

/-- A list of steps. -/
abbrev Program := List Step

namespace Step

/-- The tag of a step. -/
def name : Step → String
  | .this => "this"
  | .access _ => "access"
  | .loop => "loop"
  | .entries => "entries"
  | .select _ => "select"
  | .ref _ => "ref"

mutual

/-- Steps are compared in full. -/
def decEq : (a b : Step) → Decidable (a = b)
  | .this, .this | .loop, .loop | .entries, .entries => isTrue rfl
  | .access a, .access b | .ref a, .ref b =>
    if h : a = b then isTrue (by rw [h]) else isFalse (by simpa using h)
  | .select a, .select b =>
    match decEqPrograms a b with
    | isTrue h => isTrue (by rw [h])
    | isFalse h => isFalse (by simpa using h)
  | .this, .access _ | .this, .loop | .this, .entries | .this, .select _ | .this, .ref _
  | .access _, .this | .access _, .loop | .access _, .entries | .access _, .select _
  | .access _, .ref _ | .loop, .this | .loop, .access _ | .loop, .entries | .loop, .select _
  | .loop, .ref _ | .entries, .this | .entries, .access _ | .entries, .loop | .entries, .select _
  | .entries, .ref _ | .select _, .this | .select _, .access _ | .select _, .loop
  | .select _, .entries | .select _, .ref _ | .ref _, .this | .ref _, .access _ | .ref _, .loop
  | .ref _, .entries | .ref _, .select _ => isFalse (by simp)

/-- Programs are compared step by step. -/
def decEqProgram : (a b : Program) → Decidable (a = b)
  | [], [] => isTrue rfl
  | [], _ :: _ | _ :: _, [] => isFalse (by simp)
  | a :: as, b :: bs =>
    match decEq a b, decEqProgram as bs with
    | isTrue h, isTrue hs => isTrue (by rw [h, hs])
    | isFalse h, _ => isFalse (by simp [h])
    | _, isFalse hs => isFalse (by simp [hs])

/-- Lists of programs are compared program by program. -/
def decEqPrograms : (a b : List Program) → Decidable (a = b)
  | [], [] => isTrue rfl
  | [], _ :: _ | _ :: _, [] => isFalse (by simp)
  | a :: as, b :: bs =>
    match decEqProgram a b, decEqPrograms as bs with
    | isTrue h, isTrue hs => isTrue (by rw [h, hs])
    | isFalse h, _ => isFalse (by simp [h])
    | _, isFalse hs => isFalse (by simp [hs])

end

instance : DecidableEq Step := decEq

end Step

/-! ### Programs as JSON -/

namespace Program

mutual

/-- A step as JSON. -/
def stepToJson : Step → Json
  | .this => .object [("op", .string "this")]
  | .access name => .object [("op", .string "access"), ("arg", .string name)]
  | .loop => .object [("op", .string "loop")]
  | .entries => .object [("op", .string "entries")]
  | .select arms => .object [("op", .string "select"), ("arg", .array (listToItems arms))]
  | .ref name => .object [("op", .string "ref"), ("arg", .string name)]

/-- The steps of a program, as JSON items. -/
def toItems : Program → List Json
  | [] => []
  | step :: rest => stepToJson step :: toItems rest

/-- Programs as JSON items. -/
def listToItems : List Program → List Json
  | [] => []
  | program :: rest => .array (toItems program) :: listToItems rest

end

/-- A program as JSON. -/
def toJson (program : Program) : Json := .array (toItems program)

/-- Several programs as JSON. -/
def listToJson (programs : List Program) : Json := .array (listToItems programs)

/-- The tags in their order, by which a step may also be counted. -/
inductive Tag where
  | this
  | access
  | loop
  | entries
  | select
  | ref

/-- The tag of a name. -/
def Tag.ofName? (text : String) : Option Tag :=
  if text = "this" then some .this
  else if text = "access" then some .access
  else if text = "loop" then some .loop
  else if text = "entries" then some .entries
  else if text = "select" then some .select
  else if text = "ref" then some .ref
  else none

/-- The tag that a JSON value denotes: a name, or within an argument that stands before its tag also
the tag's number. -/
def Tag.ofJson? (counted : Bool) : Json → Option Tag
  | .string text => ofName? text
  | .number (.int n) =>
    if counted && 0 ≤ n then [.this, .access, .loop, .entries, .select, .ref][n.toNat]? else none
  | _ => none

/-- A member of one name stands before any of another. -/
def precedes (first second : String) : List (String × Json) → Bool
  | [] => false
  | (name, _) :: rest =>
    if name = first then true else if name = second then false else precedes first second rest

/-- A step without an argument, or with `null` for one. -/
def plain (step : Step) : Option Json → Option Step
  | none | some .null => some step
  | _ => none

/-- A step with a name for its argument. -/
def named (step : String → Step) : Option Json → Option Step
  | some (.string name) => some (step name)
  | _ => none

mutual

/-- Reads a step. -/
def stepOfJson? (counted : Bool) : Json → Option Step
  | .object members =>
    match (Member.lookup "op" members).bind (Tag.ofJson? counted) with
    | some .select =>
      (armsOfMembers? (counted || precedes "arg" "op" members) members).map .select
    | some .this => plain .this (Member.lookup "arg" members)
    | some .loop => plain .loop (Member.lookup "arg" members)
    | some .entries => plain .entries (Member.lookup "arg" members)
    | some .access => named .access (Member.lookup "arg" members)
    | some .ref => named .ref (Member.lookup "arg" members)
    | none => none
  | .array [tag, argument] =>
    match Tag.ofJson? counted tag with
    | some .select => (listOfJson? counted argument).map .select
    | some .this => plain .this (some argument)
    | some .loop => plain .loop (some argument)
    | some .entries => plain .entries (some argument)
    | some .access => named .access (some argument)
    | some .ref => named .ref (some argument)
    | none => none
  | _ => none

/-- Reads the programs of the member `arg`. -/
def armsOfMembers? (counted : Bool) : List (String × Json) → Option (List Program)
  | [] => none
  | (name, value) :: rest =>
    if name = "arg" then listOfJson? counted value else armsOfMembers? counted rest

/-- Reads steps. -/
def ofItems? (counted : Bool) : List Json → Option Program
  | [] => some []
  | item :: rest =>
    match stepOfJson? counted item, ofItems? counted rest with
    | some step, some steps => some (step :: steps)
    | _, _ => none

/-- Reads programs. -/
def listOfItems? (counted : Bool) : List Json → Option (List Program)
  | [] => some []
  | .array items :: rest =>
    match ofItems? counted items, listOfItems? counted rest with
    | some program, some programs => some (program :: programs)
    | _, _ => none
  | _ => none

/-- Reads an array of programs. -/
def listOfJson? (counted : Bool) : Json → Option (List Program)
  | .array items => listOfItems? counted items
  | _ => none

end

/-- Reads a program. -/
def ofJson? : Json → Option Program
  | .array items => ofItems? false items
  | _ => none

end Program

end ApiDecl
