import ApiDecl.Calendar.DateTime
import ApiDecl.Json.Token
import ApiDecl.Text.Runs

/-!
# TOML numbers, dates and truth values

A value without quotes or brackets is a word: a truth value, a whole number, a number with a fraction or an
exponent, or a date, a time or both.  JSON has no dates, so they are strings of their own text, and null
stands for a number that is not finite.

* `wordValue?`: the value of a word;
* `readWord`: a word with its value; a date may go on with a time behind a space.
-/

namespace ApiDecl.Toml

/-- Digits without the underscores between them. -/
def joinDigits? (isDigit : Char → Bool) (text : List Char) : Option (List Char) :=
  let groups := runs (· ≠ '_') [] text
  if groups.all fun group => !group.isEmpty && group.all isDigit then some groups.flatten else none

/-- The text behind a sign, and whether the sign is a minus. -/
def splitSign : List Char → Bool × List Char
  | '-' :: rest => (true, rest)
  | '+' :: rest => (false, rest)
  | text => (false, text)

/-! ### Numbers -/

/-- Digits without a needless zero in front. -/
def wholeDigits? (text : List Char) : Option (List Char) := do
  match ← joinDigits? Char.isDigit text with
  | '0' :: _ :: _ => none
  | digits => some digits

/-- The number that digits of a base denote. -/
def natOfBase? (base : Nat) (text : List Char) : Option Nat := do
  let isDigit (c : Char) : Bool := ((hexValue? c).getD base) < base
  let digits ← joinDigits? isDigit text
  some (digits.foldl (fun value c => base * value + (hexValue? c).getD 0) 0)

/-- A whole number, which fits into 64 bits with its sign. -/
def intOf? (text : List Char) : Option Int := do
  let value : Int ←
    match text with
    | '0' :: 'x' :: digits => (natOfBase? 16 digits).map Int.ofNat
    | '0' :: 'o' :: digits => (natOfBase? 8 digits).map Int.ofNat
    | '0' :: 'b' :: digits => (natOfBase? 2 digits).map Int.ofNat
    | text =>
      let (negative, magnitude) := splitSign text
      (wholeDigits? magnitude).map fun digits =>
        let size : Int := digitsValue digits
        if negative then -size else size
  if -(twoTo 63 : Nat) ≤ value ∧ value < (twoTo 63 : Nat) then some value else none

/-- The exponent behind its mark. -/
def exponentOf? (text : List Char) : Option Int := do
  let (negative, magnitude) := splitSign text
  let size : Int := digitsValue (← joinDigits? Char.isDigit magnitude)
  some (if negative then -size else size)

/-- The character may stand among the digits of a number. -/
def isNumeral (c : Char) : Bool := c.isDigit || c = '_'

/-- The digits behind a point, which may be left out with it, and what follows them. -/
def readFraction (text : List Char) : Option (List Char × List Char) :=
  match text with
  | '.' :: rest => do
    let digits ← joinDigits? Char.isDigit (rest.takeWhile isNumeral)
    some (digits, rest.dropWhile isNumeral)
  | text => some ([], text)

/-- The value of a number with a fraction or an exponent.  It may be too small to be finite, but not too
great. -/
def realOf? (text : List Char) : Option Json := do
  let (negative, magnitude) := splitSign text
  let whole ← wholeDigits? (magnitude.takeWhile isNumeral)
  let (fraction, rest) ← readFraction (magnitude.dropWhile isNumeral)
  let exponent ←
    match rest with
    | [] => if fraction.isEmpty then none else some 0
    | c :: rest => if c = 'e' || c = 'E' then exponentOf? rest else none
  match Binary64.ofDecimal negative (digitsValue (whole ++ fraction)) (exponent - fraction.length) with
  | some value => some (.number (.real value))
  | none => if negative then some .null else none

/-! ### Dates and times -/

/-- The text behind a date. -/
def afterDate? (text : List Char) : Option (List Char) := do
  let (year, rest) ← takeDigits 4 text
  let (month, rest) ← takeDigits 2 (← takeChar '-' rest)
  let (day, rest) ← takeDigits 2 (← takeChar '-' rest)
  if 1 ≤ month && month ≤ 12 && 1 ≤ day && day ≤ daysInMonth year month then some rest else none

/-- The text behind a time. -/
def afterTime? (text : List Char) : Option (List Char) := do
  let (hour, rest) ← takeDigits 2 text
  let (minute, rest) ← takeDigits 2 (← takeChar ':' rest)
  let (second, rest) ← takeDigits 2 (← takeChar ':' rest)
  if 24 ≤ hour || 60 ≤ minute || 61 ≤ second then none
  else
    match rest with
    | '.' :: rest =>
      if (rest.takeWhile Char.isDigit).isEmpty then none else some (rest.dropWhile Char.isDigit)
    | rest => some rest

/-- The text is an offset, or nothing. -/
def isOffset (text : List Char) : Bool :=
  match text with
  | [] | ['Z'] | ['z'] => true
  | sign :: rest =>
    (sign = '+' || sign = '-') &&
      match takeDigits 2 rest with
      | some (hour, ':' :: rest) =>
        match takeDigits 2 rest with
        | some (minute, []) => hour < 24 && minute < 60
        | _ => false
      | _ => false

/-- The text is a time with an offset or without one. -/
def isTime (text : List Char) : Bool :=
  match afterTime? text with
  | some rest => isOffset rest
  | none => false

/-- The text is a date, a date with a time, or a time. -/
def isDate (text : List Char) : Bool :=
  match afterDate? text with
  | some [] => true
  | some (mark :: rest) => (mark = 'T' || mark = 't') && isTime rest
  | none => afterTime? text == some []

/-! ### Words -/

/-- The value of a word. -/
def wordValue? (word : List Char) : Option Json :=
  if word = "true".toList then some (.bool true)
  else if word = "false".toList then some (.bool false)
  else if ["inf".toList, "nan".toList].contains (splitSign word).2 then some .null
  else if isDate word then some (.string (String.ofList word))
  else
    match intOf? word with
    | some value => some (.number (.int value))
    | none => realOf? word

/-- The character may stand in a word. -/
def isWordChar (c : Char) : Bool := c.isAlphanum || ['_', '+', '-', '.', ':'].contains c

/-- Reads a word and its value. -/
def readWord (text : List Char) : Option (Json × List Char) :=
  let word := text.takeWhile isWordChar
  let rest := text.dropWhile isWordChar
  let behind := rest.drop 1
  let time := behind.takeWhile isWordChar
  if afterDate? word == some [] && rest.head? == some ' ' && isTime time then
    some (.string (String.ofList (word ++ ' ' :: time)), behind.dropWhile isWordChar)
  else (wordValue? word).map (·, rest)

end ApiDecl.Toml
