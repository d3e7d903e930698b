import ApiDecl.Command.Arguments
import ApiDecl.Command.Files
import ApiDecl.Declarations
import ApiDecl.Source
import ApiDecl.Text.Runs

/-!
# Generating declarations

`generate` reads a description from a file, compiles it and writes the declarations to another file.  The
first failure ends it, and only a success writes anything.

* `compileText`: the text of the declarations of a description's text;
* `generate`: one run over some access to files;
* `Outcome`: how the command ends.
-/

namespace ApiDecl

/-- How the command is called. -/
def usage : String :=
  "Usage: generate --input <FILE> --output <FILE> [--only-types] [--generate-enums] [--docs]\n"
    ++ "                [--casing <camel|preserve>] [--config <FILE>]"

/-- How the command ends. -/
structure Outcome where
  /-- Zero for success. -/
  code : Nat
  /-- What there is to say: for success what was asked for, else what went wrong. -/
  message : Option String

namespace Outcome

/-- Everything went well. -/
def success : Outcome := ⟨0, none⟩

/-- Help was asked for. -/
def shown : Outcome := ⟨0, some usage⟩

/-- The run failed. -/
def failure (message : String) : Outcome := ⟨1, some message⟩

/-- The command was called in a wrong way. -/
def misuse : Outcome := ⟨2, some usage⟩

end Outcome

/-- A path whose extension is that of YAML leads to YAML, and any other to JSON. -/
def SourceLanguage.ofPath (path : String) : SourceLanguage :=
  match Path.extension? path with
  | none => .json
  | some extension =>
    if sameIgnoringCase extension "yaml" || sameIgnoringCase extension "yml" then .yaml else .json

/-- The text of the declarations of a description's text. -/
def compileText (language : SourceLanguage) (text : String) (options : Options) :
    Except Error String := do
  let document ← Document.ofText language text
  let declarations ← document.compile options.cased
  return declarations.text

section Access

variable {m : Type → Type} [Monad m]

/-- A failed access in words. -/
def FileError.about (error : FileError) (verb path : String) : String :=
  "Failed to " ++ verb ++ " " ++ path ++ ": " ++ error.message

/-- The options in a file. -/
def readOptions (files : FileAccess m) : Option String → m (Except String Options)
  | none => return .ok .default
  | some path => do
    match ← files.read path with
    | .error error => return .error (Error.options.message ++ ": " ++ path ++ ": " ++ error.message)
    | .ok text => return (Options.ofText text).mapError Error.message

/-- Makes the directory that a path lies in. -/
def makeParent (files : FileAccess m) (path : String) : m (Except String Unit) :=
  match Path.parent? path with
  | none => return .ok ()
  | some parent => do
    return (← files.makeDirectories parent).mapError fun error => error.about "create" parent

/-- Writes a text to a file in a directory that is made if need be. -/
def writeInto (files : FileAccess m) (path text : String) : m (Except String Unit) := do
  match ← makeParent files path with
  | .error message => return .error message
  | .ok () => return (← files.write path text).mapError fun error => error.about "write" path

/-- One run of `generate`, up to its first failure. -/
def generate (files : FileAccess m) (input output : String) (settings : Settings) :
    m (Except String Unit) := do
  match ← readOptions files settings.config with
  | .error message => return .error message
  | .ok options =>
    match ← files.read input with
    | .error error => return .error (error.about "read" input)
    | .ok text =>
      match compileText (.ofPath input) text (settings.apply options) with
      | .error error => return .error error.message
      | .ok declarations => writeInto files output declarations

/-- One call of the command. -/
def runCommand (files : FileAccess m) (arguments : List String) : m Outcome :=
  match Invocation.ofArguments arguments with
  | .shown => return .shown
  | .misused => return .misuse
  | .generate input output settings => do
    match ← generate files input output settings with
    | .ok () => return .success
    | .error message => return .failure message

end Access

end ApiDecl
