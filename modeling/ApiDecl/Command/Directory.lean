import ApiDecl.Command.Files
import ApiDecl.Json.Basic

/-!
# Files in memory

A working directory that is held in memory, for calls of the command that leave no trace.  What lies
outside of it is unknown and counts as empty.

* `FilePlace`: where a path leads to;
* `Directory.locate`: the location of a path, all directories on the way being there;
* `Directory.access`: access to the files of a directory.
-/

namespace ApiDecl

/-- Where a path leads to: names from an origin, innermost first.  The origin lies some directories above
the working directory, or is the root. -/
structure FilePlace where
  levels : Option Nat
  names : List String
  deriving DecidableEq

/-- The working directory. -/
def FilePlace.here : FilePlace := ⟨some 0, []⟩

/-- The directory that a location lies in. -/
def FilePlace.parent : FilePlace → FilePlace
  | ⟨levels, _ :: names⟩ => ⟨levels, names⟩
  | ⟨some levels, []⟩ => ⟨some (levels + 1), []⟩
  | ⟨none, []⟩ => ⟨none, []⟩

/-- Something of a name in a directory. -/
def FilePlace.child (l : FilePlace) (name : String) : FilePlace := ⟨l.levels, name :: l.names⟩

/-- The path of a location below the working directory. -/
def FilePlace.path? : FilePlace → Option String
  | ⟨some 0, names⟩ => some (String.intercalate "/" names.reverse)
  | _ => none

/-- Files and directories. -/
structure Directory where
  files : List (FilePlace × String)
  directories : List FilePlace

/-- What is at a location. -/
inductive FileEntry where
  | file (text : String)
  | directory
  | nothing

/-- What a path leads to, and how it is written. -/
structure FileTarget where
  location : FilePlace
  entry : FileEntry
  /-- Only slashes follow the last name. -/
  slashed : Bool

namespace Directory

/-- The text of a file. -/
def text? (d : Directory) (l : FilePlace) : Option String := (d.files.find? fun f => f.1 = l).map Prod.snd

/-- What is at a location. -/
def entry (d : Directory) (l : FilePlace) : FileEntry :=
  match d.text? l with
  | some text => .file text
  | none => if l.names.isEmpty || d.directories.contains l then .directory else .nothing

/-- The greatest length of a name. -/
def nameLimit : Nat := 255

/-- A name stands for the directory itself. -/
def isIdle (name : String) : Bool := name.isEmpty || name = "."

/-- Follows names from a directory. -/
def follow (d : Directory) (l : FilePlace) : List String → Except FileError FileTarget
  | [] => .ok ⟨l, .directory, false⟩
  | name :: rest =>
    if isIdle name then follow d l rest
    else if name = ".." then follow d l.parent rest
    else if nameLimit < name.utf8ByteSize then .error .longName
    else
      match d.entry (l.child name) with
      | .directory => follow d (l.child name) rest
      | .file text =>
        if rest.isEmpty then .ok ⟨l.child name, .file text, false⟩ else .error .notDirectory
      | .nothing =>
        if rest.all String.isEmpty then .ok ⟨l.child name, .nothing, !rest.isEmpty⟩
        else .error .notFound

/-- What a path leads to. -/
def locate (d : Directory) (path : String) : Except FileError FileTarget :=
  match Path.names path with
  | "" :: rest => d.follow ⟨none, []⟩ rest
  | names => d.follow .here names

/-- Puts a text at a location. -/
def put (d : Directory) (l : FilePlace) (text : String) : Directory :=
  { d with files := d.files.filter (fun f => f.1 ≠ l) ++ [(l, text)] }

/-- Reads the file of a path. -/
def read (d : Directory) (path : String) : Except FileError String := do
  match (← d.locate path).entry with
  | .file text => .ok text
  | .directory => .error .isDirectory
  | .nothing => .error .notFound

/-- Writes the file of a path. -/
def write (d : Directory) (path text : String) : Except FileError Directory := do
  let target ← d.locate path
  match target.entry with
  | .directory => .error .isDirectory
  | .file _ => .ok (d.put target.location text)
  | .nothing => if target.slashed then .error .isDirectory else .ok (d.put target.location text)

/-- Makes the directory of a path. -/
def makeDirectory (d : Directory) (path : String) : Except FileError Directory := do
  let target ← d.locate path
  match target.entry with
  | .nothing => .ok { d with directories := target.location :: d.directories }
  | _ => .error .alreadyThere

/-- A path leads to a directory. -/
def isDirectory (d : Directory) (path : String) : Bool :=
  match d.locate path with
  | .ok ⟨_, .directory, _⟩ => true
  | _ => false

/-- Changes the directory unless that fails. -/
def change (step : Directory → Except FileError Directory) : StateM Directory (Except FileError Unit) :=
  fun d =>
    match step d with
    | .ok d => (.ok (), d)
    | .error error => (.error error, d)

/-- Access to the files of a directory. -/
def access : FileAccess (StateM Directory) where
  read path := fun d => (d.read path, d)
  write path text := change fun d => d.write path text
  makeDirectory path := change fun d => d.makeDirectory path
  isDirectory path := fun d => (d.isDirectory path, d)

/-- The directory of a file's text at a path, with the directories on the way. -/
def insert (d : Directory) (path text : String) : Directory :=
  let names := (Path.names path).filter fun name => !isIdle name
  let location : FilePlace := ⟨some 0, names.reverse⟩
  let around := (List.range names.length).map fun count => (⟨some 0, (names.take count).reverse⟩ : FilePlace)
  { d.put location text with directories := around ++ d.directories }

/-- The directory of files by their paths. -/
def ofFiles (files : List (String × String)) : Directory :=
  files.foldl (fun d (path, text) => d.insert path text) ⟨[], []⟩

/-- The files that are new in a directory or have another text. -/
def changes (before after : Directory) : List (String × String) :=
  after.files.filterMap fun (location, text) =>
    if before.text? location = some text then none else location.path?.map (·, text)

end Directory

end ApiDecl
