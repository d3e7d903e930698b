import ApiDecl.Json.Basic
import ApiDecl.Number.Shortest

/-!
# JSON text

Two layouts of a value: `Json.compact` has no blanks, `Json.pretty` puts every item and member on its
own line, two columns deeper than its container, with `[]` and `{}` for empty ones.

Strings are written by `quoteJson`: a quotation mark, a backslash and the control characters are
escaped, every other character stands for itself.
-/

namespace ApiDecl

/-- The lower-case hexadecimal digit of a number below sixteen. -/
def hexDigit (n : Nat) : Char := Nat.digitChar (n % 16)

/-- A character inside a JSON string. -/
def escapeJsonChar (c : Char) : List Char :=
  if c = '"' then ['\\', '"']
  else if c = '\\' then ['\\', '\\']
  else if c = '\n' then ['\\', 'n']
  else if c = '\r' then ['\\', 'r']
  else if c = '\t' then ['\\', 't']
  else if c = '\x08' then ['\\', 'b']
  else if c = '\x0c' then ['\\', 'f']
  else if c.toNat < 32 then ['\\', 'u', '0', '0', hexDigit (c.toNat / 16), hexDigit c.toNat]
  else [c]

/-- A JSON string. -/
def quoteJson (text : String) : String :=
  String.ofList ('"' :: text.toList.flatMap escapeJsonChar ++ ['"'])

/-- The text of a number. -/
def Number.text : Number → String
  | .int value => toString value
  | .real value => value.text

namespace Json

mutual

/-- A value without blanks. -/
def compact : Json → String
  | .null => "null"
  | .bool value => if value then "true" else "false"
  | .number value => value.text
  | .string value => quoteJson value
  | .array items => "[" ++ String.intercalate "," (compactItems items) ++ "]"
  | .object members => "\x7b" ++ String.intercalate "," (compactMembers members) ++ "\x7d"

/-- The items of an array without blanks. -/
def compactItems : List Json → List String
  | [] => []
  | item :: rest => compact item :: compactItems rest

/-- The members of an object without blanks. -/
def compactMembers : List (String × Json) → List String
  | [] => []
  | (name, value) :: rest => (quoteJson name ++ ":" ++ compact value) :: compactMembers rest

end

/-- Lines in brackets, each after a line break and an indentation. -/
def bracketed (opening closing : String) (depth : Nat) : List String → String
  | [] => opening ++ closing
  | lines =>
    let margin (columns : Nat) := "\n" ++ String.ofList (List.replicate columns ' ')
    opening ++ String.intercalate "," (lines.map (margin (2 * (depth + 1)) ++ ·))
      ++ margin (2 * depth) ++ closing

mutual

/-- A value on lines of its own, inside `depth` containers. -/
def prettyAt (depth : Nat) : Json → String
  | .array items => bracketed "[" "]" depth (prettyItems (depth + 1) items)
  | .object members => bracketed "\x7b" "\x7d" depth (prettyMembers (depth + 1) members)
  | .null => "null"
  | .bool value => if value then "true" else "false"
  | .number value => value.text
  | .string value => quoteJson value

/-- The items of an array, one text each. -/
def prettyItems (depth : Nat) : List Json → List String
  | [] => []
  | item :: rest => prettyAt depth item :: prettyItems depth rest

/-- The members of an object, one text each. -/
def prettyMembers (depth : Nat) : List (String × Json) → List String
  | [] => []
  | (name, value) :: rest =>
    (quoteJson name ++ ": " ++ prettyAt depth value) :: prettyMembers depth rest

end

/-- A value in the indented layout. -/
def pretty (value : Json) : String := prettyAt 0 value

end Json

end ApiDecl
