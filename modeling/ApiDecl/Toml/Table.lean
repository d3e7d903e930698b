import ApiDecl.Json.Basic

/-!
# TOML tables

A table is filled by its own lines and by the headers and dotted keys that lead through it, and each way of
naming a table excludes others later: a table has at most one header, dotted keys reach only tables that
dotted keys have made, and a key that has a value is no table.

* `Item`: a value, a table with the way in which it was named, or tables under one header;
* `insertDotted`: a value under a dotted key;
* `under`: a change of the table that a path of headers leads to;
* `openTable`, `openElement`: what a header does;
* `Item.toJson`: what has come out.
-/

namespace ApiDecl.Toml

/-- How a table has been named. -/
inductive Naming where
  /-- By a header of its own, or by brackets. -/
  | header
  /-- By a header of a table within it. -/
  | passage
  /-- By dotted keys. -/
  | dotted
  deriving DecidableEq

/-- What a key stands for. -/
inductive Item where
  | value (value : Json)
  | table (naming : Naming) (members : List (String × Item))
  /-- Tables under one header, the last one apart. -/
  | tables (done : List (List (String × Item))) (last : List (String × Item))

/-- The members of a table. -/
abbrev Members := List (String × Item)

/-- A key that is not there yet. -/
def insertNew (key : String) (item : Item) (members : Members) : Option Members :=
  if Member.has key members then none else some (members ++ [(key, item)])

/-- Inserts an item under the rest of a dotted key, in a table that has been named so.  Only a table that
dotted keys have made takes items at the end of one. -/
def insertBehind (naming : Naming) : (path : List String) → String → Item → Members → Option Members
  | [], key, item, members => if naming = .dotted then insertNew key item members else none
  | first :: path, key, item, members =>
    match Member.lookup first members with
    | none => do
      let inner ← insertBehind .dotted path key item []
      some (members ++ [(first, .table .dotted inner)])
    | some (.table .header _) => none
    | some (.table naming inner) => do
      let inner ← insertBehind naming path key item inner
      some (Member.put first (.table naming inner) members)
    | some (.tables done last) => do
      let last ← insertBehind .header path key item last
      some (Member.put first (.tables done last) members)
    | some (.value _) => none

/-- Inserts an item under a key of one or more parts. -/
def insertDotted (keys : List String) (item : Item) (members : Members) : Option Members :=
  match keys.reverse with
  | [] => none
  | [key] => insertNew key item members
  | key :: path => insertBehind .header path.reverse key item members

/-- Changes the table that a path of headers leads to; of several tables under one header the last. -/
def under : (path : List String) → (Members → Option Members) → Members → Option Members
  | [], change, members => change members
  | first :: path, change, members =>
    match Member.lookup first members with
    | none => do
      let inner ← under path change []
      some (members ++ [(first, .table .passage inner)])
    | some (.table naming inner) => do
      let inner ← under path change inner
      some (Member.put first (.table naming inner) members)
    | some (.tables done last) => do
      let last ← under path change last
      some (Member.put first (.tables done last) members)
    | some (.value _) => none

/-- Opens a table by its header, which must not have one yet. -/
def openTable (key : String) (members : Members) : Option Members :=
  match Member.lookup key members with
  | none => some (members ++ [(key, .table .header [])])
  | some (.table .passage inner) => some (Member.put key (.table .header inner) members)
  | some _ => none

/-- Opens one more table under a header. -/
def openElement (key : String) (members : Members) : Option Members :=
  match Member.lookup key members with
  | none => some (members ++ [(key, .tables [] [])])
  | some (.tables done last) => some (Member.put key (.tables (done ++ [last]) []) members)
  | some _ => none

mutual

/-- An item as JSON. -/
def Item.toJson : Item → Json
  | .value value => value
  | .table _ members => .object (membersToJson members)
  | .tables done last => .array (tablesToJson done ++ [.object (membersToJson last)])

/-- Members as JSON. -/
def membersToJson : List (String × Item) → List (String × Json)
  | [] => []
  | (key, item) :: rest => (key, item.toJson) :: membersToJson rest

/-- Tables as JSON. -/
def tablesToJson : List (List (String × Item)) → List Json
  | [] => []
  | members :: rest => .object (membersToJson members) :: tablesToJson rest

end

end ApiDecl.Toml
