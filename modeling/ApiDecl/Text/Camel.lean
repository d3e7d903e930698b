import ApiDecl.Text.Case
import ApiDecl.Text.Runs

/-!
# Camel case

The words of a text joined, the first in small letters and each other one with a capital in front.

Of a character outside ASCII an identifier shows a `_`.  So a letter outside ASCII is cased only where its
other case has letters of ASCII; elsewhere it stays as it is, once for each character of its other case.

* `words`: the words of a text;
* `lowerCamel`: the words joined.
-/

namespace ApiDecl

/-! ### Words -/

/-- The kind of the last cased letter of the word under way. -/
inductive Letters where
  | none
  | small
  | capital
  deriving DecidableEq

/-- Cuts a run of letters and numerals into words: after a small letter that a capital follows, and
before the last of several capitals that a small letter follows.  The word under way is kept last
character first. -/
def cutWords (last : Letters) (word : List Char) : List Char → List (List Char)
  | [] => []
  | [c] => [(c :: word).reverse]
  | c :: next :: rest =>
    let now := if isSmall c then .small else if isCapital c then .capital else last
    if now = .small && isCapital next then
      (c :: word).reverse :: cutWords .none [] (next :: rest)
    else if last = .capital && isCapital c && isSmall next then
      word.reverse :: cutWords .none [c] (next :: rest)
    else cutWords now (c :: word) (next :: rest)

/-- The words of a text. -/
def words (text : String) : List (List Char) :=
  (runs isWordChar [] text.toList).flatMap (cutWords .none [])

/-! ### Joining words -/

/-- A character of a word in lower case. -/
def lowerForm (c : Char) : List Char :=
  if c.toNat < 128 then [c.toLower]
  else if c = '\u0130' then ['i', '\u0307']
  else if c = '\u212a' then ['k']
  else [c]

/-- Letters whose capital form has ASCII letters, with this form. -/
def capitalForms : List (Nat × String) := [
  (0xDF, "SS"), (0x131, "I"), (0x149, "\u02bcN"), (0x17F, "S"), (0x1F0, "J\u030c"),
  (0x1E96, "H\u0331"), (0x1E97, "T\u0308"), (0x1E98, "W\u030a"), (0x1E99, "Y\u030a"),
  (0x1E9A, "A\u02be"), (0xFB00, "FF"), (0xFB01, "FI"), (0xFB02, "FL"), (0xFB03, "FFI"),
  (0xFB04, "FFL"), (0xFB05, "ST"), (0xFB06, "ST")]

/-- Letters whose capital form has two characters, none of ASCII. -/
def twofoldCapitals : List (Nat × Nat) := [
  (0x587, 0x587), (0x1F50, 0x1F50), (0x1F80, 0x1FAF), (0x1FB2, 0x1FB4), (0x1FB6, 0x1FB6),
  (0x1FBC, 0x1FBC), (0x1FC2, 0x1FC4), (0x1FC6, 0x1FC6), (0x1FCC, 0x1FCC), (0x1FD6, 0x1FD6),
  (0x1FE4, 0x1FE4), (0x1FE6, 0x1FE6), (0x1FF2, 0x1FF4), (0x1FF6, 0x1FF6), (0x1FFC, 0x1FFC),
  (0xFB13, 0xFB17)]

/-- Letters whose capital form has three characters, none of ASCII. -/
def threefoldCapitals : List (Nat × Nat) := [
  (0x390, 0x390), (0x3B0, 0x3B0), (0x1F52, 0x1F52), (0x1F54, 0x1F54), (0x1F56, 0x1F56),
  (0x1FB7, 0x1FB7), (0x1FC7, 0x1FC7), (0x1FD2, 0x1FD3), (0x1FD7, 0x1FD7), (0x1FE2, 0x1FE3),
  (0x1FE7, 0x1FE7), (0x1FF7, 0x1FF7)]

/-- A character in upper case. -/
def upperForm (c : Char) : List Char :=
  if c.toNat < 128 then [c.toUpper]
  else
    match capitalForms.lookup c.toNat with
    | some form => form.toList
    | none =>
      if inRanges twofoldCapitals c.toNat then [c, c]
      else if inRanges threefoldCapitals c.toNat then [c, c, c]
      else [c]

/-- A word that starts with a capital. -/
def capitalize : List Char → List Char
  | [] => []
  | c :: rest => upperForm c ++ rest.flatMap lowerForm

/-- Words joined: the first in lower case, the others with a capital. -/
def joinCamel : List (List Char) → List Char
  | [] => []
  | first :: rest => first.flatMap lowerForm ++ rest.flatMap capitalize

/-- A text in camel case, with a small letter in front. -/
def lowerCamel (text : String) : String := String.ofList (joinCamel (words text))

end ApiDecl
