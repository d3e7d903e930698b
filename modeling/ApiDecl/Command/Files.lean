import ApiDecl.Command.Path

/-!
# Access to files

What the command asks of the files around it, whatever holds them.

* `FileError`: why access fails; `FileError.message` words it;
* `FileAccess`: reading, writing and making directories;
* `FileAccess.makeDirectories`: a directory with those that it lies in.
-/

namespace ApiDecl

/-- Why access to a file fails. -/
inductive FileError where
  | notFound
  | alreadyThere
  | notDirectory
  | isDirectory
  | longName
  /-- Another reason, in words. -/
  | other (text : String)

namespace FileError

/-- A sentence with the number that systems give to the reason. -/
def numbered (text : String) (code : Nat) : String := text ++ " (os error " ++ toString code ++ ")"

/-- The sentence for a reason. -/
def message : FileError → String
  | .notFound => numbered "No such file or directory" 2
  | .alreadyThere => numbered "File exists" 17
  | .notDirectory => numbered "Not a directory" 20
  | .isDirectory => numbered "Is a directory" 21
  | .longName => numbered "File name too long" 36
  | .other text => text

end FileError

/-- Access to files by their paths. -/
structure FileAccess (m : Type → Type) where
  read : String → m (Except FileError String)
  /-- Writes a file, in place of one that is there. -/
  write : String → String → m (Except FileError Unit)
  /-- Makes a directory in one that is there. -/
  makeDirectory : String → m (Except FileError Unit)
  isDirectory : String → m Bool

namespace FileAccess

variable {m : Type → Type} [Monad m]

/-- Makes the first directory of a chain, after those that it lies in where they are missing. -/
def makeChain (files : FileAccess m) : List String → m (Except FileError Unit)
  | [] => return .ok ()
  | path :: around => do
    if path.isEmpty then return .ok ()
    match ← files.makeDirectory path with
    | .ok () => return .ok ()
    | .error .notFound =>
      match ← makeChain files around with
      | .error error => return .error error
      | .ok () =>
        match ← files.makeDirectory path with
        | .ok () => return .ok ()
        | .error error => return if ← files.isDirectory path then .ok () else .error error
    | .error error => return if ← files.isDirectory path then .ok () else .error error

/-- Makes a directory with those that it lies in; it may be there already. -/
def makeDirectories (files : FileAccess m) (path : String) : m (Except FileError Unit) :=
  files.makeChain (Path.chain path)

end FileAccess

end ApiDecl
