/-!
# Paths of files

A path names a file or a directory by names between slashes.  Doubled slashes, slashes at the end and dots
that stand for the directory itself do not count, but for a dot in front.

* `parent?`: the path of the directory that a path lies in;
* `extension?`: what follows the last dot of a file's name.
-/

namespace ApiDecl.Path

/-- A path, last character first, without what does not count at its end. -/
def trimEnd : List Char → List Char
  | [] => []
  | '/' :: rest => if rest.isEmpty then ['/'] else trimEnd rest
  | '.' :: rest =>
    if rest = ['/'] then rest else if rest.head? = some '/' then trimEnd rest else '.' :: rest
  | path => path

/-- The path of the directory that a path lies in.  The root and the empty path lie in none. -/
def parent? (path : String) : Option String :=
  match trimEnd path.toList.reverse with
  | [] | ['/'] => none
  | path => some (String.ofList (trimEnd (path.dropWhile (· ≠ '/'))).reverse)

/-- The paths of a path itself and of the directories around it, at most so many. -/
def selfAndParents : (limit : Nat) → String → List String
  | 0, _ => []
  | limit + 1, path =>
    path ::
      match parent? path with
      | some parent => selfAndParents limit parent
      | none => []

/-- The paths of a path itself and of the directories around it, innermost first. -/
def chain (path : String) : List String := selfAndParents (path.length + 1) path

/-- The name of the file that a path leads to. -/
def fileName? (path : String) : Option (List Char) :=
  match ((trimEnd path.toList.reverse).takeWhile (· ≠ '/')).reverse with
  | [] | ['.'] | ['.', '.'] => none
  | name => some name

/-- What follows the last dot of a file's name; a dot in front does not count. -/
def extension? (path : String) : Option String := do
  let name := (← fileName? path).reverse
  let back := name.takeWhile (· ≠ '.')
  match name.dropWhile (· ≠ '.') with
  | [] | ['.'] => none
  | _ => some (String.ofList back.reverse)

/-- The names that a path consists of. -/
def names (path : String) : List String := path.splitOn "/"

end ApiDecl.Path
