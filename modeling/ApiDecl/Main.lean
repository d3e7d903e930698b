import ApiDecl.Command.Generate

/-!
# The command

Runs the command on the files of the system.
-/

namespace ApiDecl

/-- The reason of a failed access. -/
def FileError.ofSystem (error : IO.Error) : FileError :=
  match error with
  | .noFileOrDirectory .. => .notFound
  | .noSuchThing .. => .notFound
  | .alreadyExists .. => .alreadyThere
  | .inappropriateType .. => .notDirectory
  | error => .other (toString error)

/-- The result of an access, or the reason why it failed. -/
def attempt {α : Type} (action : IO α) : IO (Except FileError α) := do
  match ← action.toBaseIO with
  | .ok value => return .ok value
  | .error error => return .error (.ofSystem error)

/-- A path leads to a directory. -/
def leadsToDirectory (path : String) : IO Bool := do
  match ← (IO.FS.realPath path).toBaseIO with
  | .ok found => found.isDir
  | .error _ => return false

/-- Access to the files of the system. -/
def systemFiles : FileAccess IO where
  read path := do
    if ← leadsToDirectory path then return .error .isDirectory
    attempt (IO.FS.readFile path)
  write path text := do
    if ← leadsToDirectory path then return .error .isDirectory
    attempt (IO.FS.writeFile path text)
  makeDirectory path := attempt (IO.FS.createDir path)
  isDirectory := leadsToDirectory

end ApiDecl

/-- Runs the command.  What went wrong goes to the error output. -/
def main (arguments : List String) : IO UInt32 := do
  let outcome ← ApiDecl.runCommand ApiDecl.systemFiles arguments
  match outcome.message with
  | some message => if outcome.code = 0 then IO.println message else IO.eprintln message
  | none => pure ()
  return outcome.code.toUInt32
