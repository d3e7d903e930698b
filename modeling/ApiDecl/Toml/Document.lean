import ApiDecl.Toml.Number
import ApiDecl.Toml.Table
import ApiDecl.Toml.Text

/-!
# TOML documents

A document is read line by line.  A line is empty, a header, or a key with its value.

* `readValue`: a value, with a limit on its depth;
* `Document.line?`: one line;
* `Json.ofToml?`: the object that a text denotes.
-/

namespace ApiDecl.Toml

/-! ### Values -/

/-- Reads the items of an array, at most so many, to its end. -/
def readItems (read : List Char → Option (Json × List Char)) : (limit : Nat) → List Char →
    Option (List Json × List Char)
  | 0, _ => none
  | limit + 1, text => do
    match ← skipFiller false text with
    | ']' :: rest => some ([], rest)
    | text => do
      let (value, rest) ← read text
      match ← skipFiller false rest with
      | ',' :: rest => do
        let (values, rest) ← readItems read limit rest
        some (value :: values, rest)
      | ']' :: rest => some ([value], rest)
      | _ => none

/-- Reads a key and its value. -/
def readEntry (read : List Char → Option (Json × List Char)) (text : List Char) :
    Option (List String × Json × List Char) := do
  let (keys, rest) ← readKeys text
  match rest with
  | '=' :: rest => do
    let (value, rest) ← read (skipSpaces rest)
    some (keys, value, rest)
  | _ => none

/-- Reads the entries of a table in brackets, at most so many, to its end. -/
def readEntries (read : List Char → Option (Json × List Char)) : (limit : Nat) → Members → List Char →
    Option (Members × List Char)
  | 0, _, _ => none
  | limit + 1, members, text => do
    let (keys, value, rest) ← readEntry read text
    let members ← insertDotted keys (.value value) members
    match skipSpaces rest with
    | ',' :: rest => readEntries read limit members rest
    | '\x7d' :: rest => some (members, rest)
    | _ => none

/-- Reads a value at most so many brackets deep. -/
def readValue : (depth : Nat) → List Char → Option (Json × List Char)
  | _, '"' :: rest => (readString '"' rest).map fun (text, rest) => (.string text, rest)
  | _, '\'' :: rest => (readString '\'' rest).map fun (text, rest) => (.string text, rest)
  | 0, text => readWord text
  | depth + 1, '[' :: rest =>
    (readItems (readValue depth) (rest.length + 1) rest).map fun (values, rest) => (.array values, rest)
  | depth + 1, '\x7b' :: rest =>
    match skipSpaces rest with
    | '\x7d' :: rest => some (.object [], rest)
    | rest =>
      (readEntries (readValue depth) (rest.length + 1) [] rest).map fun (members, rest) =>
        (.object (membersToJson members), rest)
  | _, text => readWord text

/-! ### Lines -/

/-- A document on its way: its root, and the path of the header whose table takes the next lines. -/
structure Document where
  root : Members
  path : List String

namespace Document

/-- An empty document. -/
def empty : Document := ⟨[], []⟩

/-- Opens the table of a header. -/
def header (d : Document) (opens : String → Members → Option Members) (keys : List String) :
    Option Document :=
  match keys.reverse with
  | [] => none
  | key :: path => do
    let root ← under path.reverse (opens key) d.root
    some ⟨root, keys⟩

/-- Reads a line that is not empty. -/
def line? (d : Document) (text : List Char) : Option (Document × List Char) := do
  match text with
  | '[' :: '[' :: rest =>
    match ← readKeys rest with
    | (keys, ']' :: ']' :: rest) => some (← d.header openElement keys, ← lineEnd? rest)
    | _ => none
  | '[' :: rest =>
    match ← readKeys rest with
    | (keys, ']' :: rest) => some (← d.header openTable keys, ← lineEnd? rest)
    | _ => none
  | text => do
    let (keys, value, rest) ← readEntry (readValue depthLimit) text
    let root ← under d.path (insertDotted keys (.value value)) d.root
    some ({ d with root }, ← lineEnd? rest)

/-- Reads lines, at most so many. -/
def read : (limit : Nat) → Document → List Char → Option Document
  | 0, _, _ => none
  | limit + 1, d, text =>
    match skipFiller false text with
    | none => none
    | some [] => some d
    | some text => do
      let (d, rest) ← d.line? text
      read limit d rest

end Document

end ApiDecl.Toml

namespace ApiDecl

/-- The object that a TOML text denotes, if it is well formed.  A mark of byte order in front does not
count. -/
def Json.ofToml? (text : String) : Option Json := do
  let characters ← Toml.lineFeeds? text.toList
  let characters :=
    match characters with
    | '\uFEFF' :: rest => rest
    | characters => characters
  let d ← Toml.Document.empty.read (characters.length + 1) characters
  some (.object (Toml.membersToJson d.root))

end ApiDecl
