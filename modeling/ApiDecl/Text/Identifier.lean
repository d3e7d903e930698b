/-!
# Identifiers

The names that declarations may carry: letters, digits, `_` and `$` of ASCII, with no digit in front.

* `isIdentifier`: the rule;
* `sanitize`: any text made an identifier, a `_` for every character that does not fit;
* `camelIdentifier`: an identifier made of a text in camel case, whatever casing that is;
* `claim`: the free name nearest to a base among names already taken.
-/

namespace ApiDecl

/-- A character of an identifier. -/
def isIdentifierChar (c : Char) : Bool := c.isAlphanum || c = '_' || c = '$'

/-- A text is an identifier. -/
def isIdentifier (text : String) : Bool :=
  match text.toList with
  | [] => false
  | c :: rest => !c.isDigit && (c :: rest).all isIdentifierChar

/-- Keeps a character of an identifier and replaces any other by `_`. -/
def identifierChar (c : Char) : Char := if isIdentifierChar c then c else '_'

/-- A `_` put in front of nothing or of a digit. -/
def guardStart : List Char → List Char
  | [] => ['_']
  | c :: rest => if c.isDigit then '_' :: c :: rest else c :: rest

/-- An identifier made of the characters of a text. -/
def sanitize (text : String) : String :=
  String.ofList (guardStart (text.toList.map identifierChar))

/-! ### Camel case -/

/-- The identifier of a text's camel case, or of the text itself where the casing leaves nothing. -/
def camelIdentifier (camelCase : String → String) (text : String) : String :=
  match (camelCase text).toList with
  | [] => sanitize text
  | _ :: _ => sanitize (camelCase text)

/-! ### Free names -/

/-- A base with a number behind it. -/
def suffixed (base : String) (k : Nat) : String := base ++ "_" ++ toString k

/-- The least number from `k` on that makes a free name of the base.  It has no upper bound here; a counter
of 32 bits comes to the same number, which is at most one more than the names taken. -/
def freeSuffix (base : String) (taken : List String) (k : Nat) : Nat :=
  if h : suffixed base k ∈ taken then freeSuffix base (taken.erase (suffixed base k)) (k + 1) else k
termination_by taken.length
decreasing_by
  have := List.length_pos_of_mem h
  rw [List.length_erase_of_mem h]
  omega

/-- The base itself if it is free, else the base with the least free number from two on. -/
def freeName (taken : List String) (base : String) : String :=
  if base ∈ taken then suffixed base (freeSuffix base taken 2) else base

/-- Takes the free name of a base. -/
def claim (taken : List String) (base : String) : String × List String :=
  let name := freeName taken base
  (name, name :: taken)

/-- Takes the free name of each base in turn. -/
def claimAll (taken : List String) : List String → List String
  | [] => []
  | base :: rest =>
    let (name, taken) := claim taken base
    name :: claimAll taken rest

/-! ### Quoting in signatures -/

/-- A text with its backslashes and quotation marks escaped. -/
def escapeQuotes (text : String) : String :=
  String.ofList (text.toList.flatMap fun c => if c = '\\' || c = '"' then ['\\', c] else [c])

/-- A text between quotation marks. -/
def quoted (text : String) : String := "\"" ++ escapeQuotes text ++ "\""

/-- An identifier as it is, any other text quoted. -/
def quotedUnlessIdentifier (text : String) : String :=
  if isIdentifier text then text else quoted text

end ApiDecl
