/-!
# Places in a text

In YAML it counts where a character stands.  `Place.ofText?` gives the characters of a text with their lines
and columns, after all ways to end a line have been made one; a text with a control character has none.
A mark of byte order in front does not count.
-/

namespace ApiDecl.Yaml

/-- A character of a text and where it stands. -/
structure Place where
  char : Char
  line : Nat
  column : Nat

/-- The mark of byte order. -/
def byteOrderMark : Char := '\uFEFF'

/-- The character ends a line. -/
def isBreak (c : Char) : Bool := c = '\n' || c = '\u2028' || c = '\u2029'

/-- The character is a space or a tab. -/
def isSpace (c : Char) : Bool := c = ' ' || c = '\t'

/-- The character stands between words or lines. -/
def isGap (c : Char) : Bool := isSpace c || isBreak c

/-- The character may stand in a text. -/
def isAllowed (c : Char) : Bool :=
  c = '\t' || c = '\n' || c = '\r' || c = '\u0085' ||
    (' ' ≤ c && c ≤ '~') || ('\u00A0' ≤ c && c ≠ '\uFFFE' && c ≠ '\uFFFF')

/-- Every way to end a line made a line feed, but for the two separators of Unicode. -/
def unifyBreaks : List Char → List Char
  | [] => []
  | '\r' :: '\n' :: rest => '\n' :: unifyBreaks rest
  | '\r' :: rest => '\n' :: unifyBreaks rest
  | '\u0085' :: rest => '\n' :: unifyBreaks rest
  | c :: rest => c :: unifyBreaks rest

namespace Place

/-- Characters from a line and column on. -/
def number (line column : Nat) : List Char → List Place
  | [] => []
  | c :: rest =>
    ⟨c, line, column⟩ :: if isBreak c then number (line + 1) 0 rest else number line (column + 1) rest

/-- The characters of a text. -/
def ofText? (text : String) : Option (List Place) :=
  let characters :=
    match text.toList with
    | [] => []
    | c :: rest => if c = byteOrderMark then rest else c :: rest
  if characters.all isAllowed then some (number 0 0 (unifyBreaks characters)) else none

/-- A gap follows, or the end of the text. -/
def atGap : List Place → Bool
  | [] => true
  | p :: _ => isGap p.char

/-- This character follows. -/
def isNext (c : Char) : List Place → Bool
  | [] => false
  | p :: _ => p.char = c

/-- Three times this character at the start of a line, and a gap. -/
def isMarker (c : Char) : List Place → Bool
  | p :: q :: r :: rest => p.column = 0 && p.char = c && q.char = c && r.char = c && atGap rest
  | _ => false

/-- A line that starts or ends a document follows. -/
def atMarker (places : List Place) : Bool := isMarker '-' places || isMarker '.' places

/-- What follows spaces and tabs. -/
def afterSpaces (places : List Place) : List Place := places.dropWhile fun p => isSpace p.char

/-- What follows a run of characters, and the run. -/
def run (belongs : Char → Bool) (places : List Place) : List Char × List Place :=
  let (taken, rest) := places.span fun p => belongs p.char
  (taken.map Place.char, rest)

/-- What follows the rest of a line that may hold nothing but spaces and a comment. -/
def afterLine? (places : List Place) : Option (List Place) :=
  let rest := afterSpaces places
  let rest := if isNext '#' rest then rest.dropWhile (fun p => !isBreak p.char) else rest
  match rest with
  | [] => some []
  | p :: rest => if isBreak p.char then some rest else none

end Place

end ApiDecl.Yaml
