/-!
# Path templates

A path with parameters in braces is cut into static parts and parameters.  A brace that opens counts when
one that closes comes later; the text between them is the name of a parameter, whatever it is.

* `pathParts`: the parts of a path;
* `PathPart.text`: a part as the path has it.
-/

namespace ApiDecl

/-- A part of a path. -/
inductive PathPart where
  /-- Text that stands for itself; never empty. -/
  | static (text : String)
  /-- A parameter of this name. -/
  | param (name : String)
  deriving DecidableEq

/-- A part as the path has it. -/
def PathPart.text : PathPart → String
  | .static value => value
  | .param name => "\x7b" ++ name ++ "\x7d"

/-- Static text in front of more parts, unless it is empty; it is given last character first. -/
def staticPart (text : List Char) (parts : List PathPart) : List PathPart :=
  if text.isEmpty then parts else .static (String.ofList text.reverse) :: parts

/-- Cuts a path, given the static text under way and, behind an open brace, the name under way, both last
character first.  If the brace is never closed, it belongs to the static text. -/
def cutPath (fixed : List Char) (name : Option (List Char)) : List Char → List PathPart
  | [] =>
    match name with
    | none => staticPart fixed []
    | some name => staticPart (name ++ '\x7b' :: fixed) []
  | c :: rest =>
    match name with
    | none => if c = '\x7b' then cutPath fixed (some []) rest else cutPath (c :: fixed) none rest
    | some name =>
      if c = '\x7d' then
        staticPart fixed (.param (String.ofList name.reverse) :: cutPath [] none rest)
      else cutPath fixed (some (c :: name)) rest

/-- The parts of a path. -/
def pathParts (path : String) : List PathPart := cutPath [] none path.toList

end ApiDecl
