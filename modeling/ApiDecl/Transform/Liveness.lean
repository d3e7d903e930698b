import ApiDecl.Transform.Table

/-!
# Live names

A name is live when some program of it ends in a conversion, possibly through the programs of other
names: its last step is `this`, a `ref` to a live name, or a `select` with an arm that ends so.  Pruning
drops every program and arm that does not end so, and then the names that are left without programs.

* `stepEndsLive`, `endsLive`: a step and a program end so, given the live names;
* `liveNames`: the live names of a section, found in rounds of which there are no more than names;
* `prunedStep`, `pruned`, `prunedAll`: what is left of a last step, a program and a list of programs;
* `Table.prune`: the table that is left, with the live names of each kind that it had.
-/

namespace ApiDecl

mutual

/-- As the last step of a program, the step is a conversion or leads to one. -/
def stepEndsLive (live : List String) : Step → Bool
  | .this => true
  | .ref name => live.contains name
  | .select arms => someEndsLive live arms
  | .access _ | .loop | .entries => false

/-- The program ends in a conversion or in a step that leads to one. -/
def endsLive (live : List String) : List Step → Bool
  | [] => false
  | [step] => stepEndsLive live step
  | _ :: next :: rest => endsLive live (next :: rest)

/-- Some program ends so. -/
def someEndsLive (live : List String) : List (List Step) → Bool
  | [] => false
  | program :: rest => endsLive live program || someEndsLive live rest

end

/-- The names that turn out to be live, given live names, in the order of the section. -/
def newlyLive (s : Section) (live : List String) : List String :=
  (s.filter fun entry => !live.contains entry.1 && someEndsLive live entry.2).map Prod.fst

/-- Live names with those that at most some rounds find, each round going by the names found before it. -/
def liveFrom (s : Section) (live : List String) : (rounds : Nat) → List String
  | 0 => live
  | rounds + 1 =>
    match newlyLive s live with
    | [] => live
    | found => liveFrom s (live ++ found) rounds

/-- The live names; every round but the last finds one at least. -/
def liveNames (s : Section) : List String := liveFrom s [] s.length

mutual

/-- What is left of the last step of a program. -/
def prunedStep (live : List String) : Step → Option Step
  | .this => some .this
  | .ref name => if live.contains name then some (.ref name) else none
  | .select arms =>
    match prunedAll live arms with
    | [] => none
    | arm :: rest => some (.select (arm :: rest))
  | .access _ | .loop | .entries => none

/-- What is left of a program. -/
def pruned (live : List String) : List Step → Option (List Step)
  | [] => none
  | [step] => (prunedStep live step).map ([·])
  | step :: next :: rest => (pruned live (next :: rest)).map (step :: ·)

/-- What is left of a list of programs. -/
def prunedAll (live : List String) : List (List Step) → List (List Step)
  | [] => []
  | program :: rest =>
    match pruned live program with
    | some program => program :: prunedAll live rest
    | none => prunedAll live rest

end

/-- The names that keep programs, with those programs. -/
def Section.prune (s : Section) (live : List String) : Section :=
  (s.map fun entry => (entry.1, prunedAll live entry.2)).filter fun entry => !entry.2.isEmpty

/-- The live names of each kind; a kind without a section has none to give. -/
structure LiveNames where
  date : Option (List String)
  binary : Option (List String)
  deriving DecidableEq

/-- The live names of a kind. -/
def LiveNames.names (live : LiveNames) (kind : Kind) : List String :=
  (match kind with
    | .date => live.date
    | .binary => live.binary).getD []

namespace Table

/-- The live names of a table. -/
def liveNames (t : Table) : LiveNames :=
  ⟨t.date.map ApiDecl.liveNames, t.binary.map ApiDecl.liveNames⟩

/-- A section with at least one name. -/
def nonempty? (s : Section) : Option Section := if s.isEmpty then none else some s

/-- The pruned table and the live names; sections that become empty are dropped. -/
def prune (t : Table) : Table × LiveNames :=
  let keep (s : Option Section) : Option Section :=
    s.bind fun s => nonempty? (s.prune (ApiDecl.liveNames s))
  (⟨keep t.date, keep t.binary⟩, t.liveNames)

end Table

/-! ### Links -/

/-- The programs that start at one payload position, for each kind. -/
structure Links where
  date : List Program
  binary : List Program
  deriving DecidableEq

namespace Links

/-- Links without programs. -/
def empty : Links := ⟨[], []⟩

/-- The programs of a kind. -/
def programs (l : Links) : Kind → List Program
  | .date => l.date
  | .binary => l.binary

/-- Replaces the programs of a kind. -/
def insert (l : Links) (kind : Kind) (programs : List Program) : Links :=
  match kind with
  | .date => { l with date := programs }
  | .binary => { l with binary := programs }

/-- No kind has programs. -/
def isEmpty (l : Links) : Bool := l.date.isEmpty && l.binary.isEmpty

/-- What is left of links, given the live names. -/
def prune (l : Links) (live : LiveNames) : Links :=
  ⟨prunedAll (live.names .date) l.date, prunedAll (live.names .binary) l.binary⟩

/-- Links as JSON: the kinds that have programs, dates first. -/
def toJson (l : Links) : Json :=
  .object (Kind.all.filterMap fun kind =>
    if (l.programs kind).isEmpty then none
    else some (kind.name, Program.listToJson (l.programs kind)))

/-- Reads links: programs by kind, empty lists included. -/
def ofMembers? (l : Links) : List (String × Json) → Option Links
  | [] => some l
  | (name, value) :: rest =>
    match Kind.ofName? name, Program.listOfJson? false value with
    | some kind, some programs => ofMembers? (l.insert kind programs) rest
    | _, _ => none

end Links

end ApiDecl
