/-!
# Cutting text

* `runs`: the pieces of a text between the characters that do not belong;
* `lowerAscii`, `sameIgnoringCase`: letters of ASCII without regard to case.
-/

namespace ApiDecl

/-- The pieces of a text between the characters that do not belong, empty pieces too; the piece under way
is kept last character first. -/
def runs (belongs : Char → Bool) (run : List Char) : List Char → List (List Char)
  | [] => [run.reverse]
  | c :: rest => if belongs c then runs belongs (c :: run) rest else run.reverse :: runs belongs [] rest

/-- A text with its ASCII letters in lower case. -/
def lowerAscii (text : List Char) : List Char := text.map Char.toLower

/-- Two texts differ at most in the case of ASCII letters. -/
def sameIgnoringCase (a b : String) : Bool := lowerAscii a.toList == lowerAscii b.toList

/-- A text starts with another. -/
def startsWith (front text : List Char) : Bool := front.isPrefixOf text

/-- A text ends with another. -/
def endsWith (back text : List Char) : Bool := back.isSuffixOf text

end ApiDecl
