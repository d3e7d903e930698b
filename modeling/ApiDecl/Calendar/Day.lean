import ApiDecl.Json.Token
import ApiDecl.Text.Blank

/-!
# Calendar days

A day of the Gregorian calendar, extended to all years from `-262143` to `262142`.

* `Day.parse`: year, month and day between hyphens, each after optional blanks; a year without a sign
  has at most four digits;
* `Day.text`, `Day.shown`: the same with a year of at least four digits, signed outside `0` to `9999`, as a
  pattern writes it and as a day shows itself;
* `Day.number`: the count of days since the first of January 1970.
-/

namespace ApiDecl

/-- A year with a twenty-ninth of February. -/
def isLeapYear (year : Int) : Bool := year % 4 == 0 && (year % 100 != 0 || year % 400 == 0)

/-- The length of a month. -/
def daysInMonth (year : Int) (month : Nat) : Nat :=
  match month with
  | 2 => if isLeapYear year then 29 else 28
  | 4 | 6 | 9 | 11 => 30
  | _ => 31

/-- A day of the calendar. -/
structure Day where
  /-- The year, negative before the year zero. -/
  year : Int
  /-- The month, counted from one. -/
  month : Nat
  /-- The day of the month, counted from one. -/
  day : Nat
  /-- The year is in range. -/
  year_mem : -262143 ≤ year ∧ year ≤ 262142
  /-- There is such a month. -/
  month_mem : 1 ≤ month ∧ month ≤ 12
  /-- The month has such a day. -/
  day_mem : 1 ≤ day ∧ day ≤ daysInMonth year month
  deriving DecidableEq

namespace Day

/-- The day with these numbers, if there is one. -/
def of? (year : Int) (month day : Nat) : Option Day :=
  if hy : -262143 ≤ year ∧ year ≤ 262142 then
    if hm : 1 ≤ month ∧ month ≤ 12 then
      if hd : 1 ≤ day ∧ day ≤ daysInMonth year month then some ⟨year, month, day, hy, hm, hd⟩
      else none
    else none
  else none

/-- The days of the year before a month. -/
def daysBeforeMonth (year : Int) (month : Nat) : Nat :=
  (List.range (month - 1)).foldl (fun days m => days + daysInMonth year (m + 1)) 0

/-- The days from the first of January 1970. -/
def number (d : Day) : Int :=
  let before := d.year - 1
  365 * before + before / 4 - before / 100 + before / 400
    + daysBeforeMonth d.year d.month + (d.day - 1 : Nat) - 719162

end Day

/-! ### Text -/

/-- A number in at least `width` digits. -/
def paddedDigits (width n : Nat) : List Char :=
  let digits := Nat.toDigits 10 n
  List.replicate (width - digits.length) '0' ++ digits

/-- Exactly `count` digits at the front, and the rest. -/
def takeDigits (count : Nat) (text : List Char) : Option (Nat × List Char) :=
  let front := text.take count
  if front.length = count ∧ front.all Char.isDigit then some (digitsValue front, text.drop count)
  else none

/-- From one to `most` digits at the front, and the rest. -/
def takeDigitsUpTo (most : Nat) (text : List Char) : Option (Nat × List Char) :=
  let front := (text.take most).takeWhile Char.isDigit
  if front.isEmpty then none else some (digitsValue front, text.drop front.length)

/-- One certain character at the front, and the rest. -/
def takeChar (c : Char) : List Char → Option (List Char)
  | [] => none
  | d :: rest => if d = c then some rest else none

namespace Day

/-- A year: a sign with any number of digits, or up to four digits. -/
def takeYear (text : List Char) : Option (Int × List Char) :=
  match text with
  | '-' :: rest => (takeDigitsUpTo rest.length rest).map fun (n, rest) => (-(n : Int), rest)
  | '+' :: rest => (takeDigitsUpTo rest.length rest).map fun (n, rest) => ((n : Int), rest)
  | text => (takeDigitsUpTo 4 text).map fun (n, rest) => ((n : Int), rest)

/-- Reads a day. -/
def parse (text : List Char) : Option Day := do
  let (year, text) ← takeYear (trimFront text)
  let text ← takeChar '-' text
  let (month, text) ← takeDigitsUpTo 2 (trimFront text)
  let text ← takeChar '-' text
  let (day, text) ← takeDigitsUpTo 2 (trimFront text)
  if text.isEmpty then of? year month day else none

/-- A year, signed when it has not four digits. -/
def yearText (year : Int) : List Char :=
  if year < 0 then '-' :: paddedDigits 4 year.natAbs
  else if 9999 < year then '+' :: paddedDigits 4 year.natAbs
  else paddedDigits 4 year.natAbs

/-- The text of a day by the pattern of year, month and day. -/
def text (d : Day) : List Char :=
  yearText d.year ++ '-' :: paddedDigits 2 d.month ++ '-' :: paddedDigits 2 d.day

/-- The two digits of a number below a hundred. -/
def twoDigits (n : Nat) : List Char := [Nat.digitChar (n / 10), Nat.digitChar (n % 10)]

/-- A year of four digits by its century and the rest, any other signed. -/
def shownYear (year : Int) : List Char :=
  if 0 ≤ year ∧ year ≤ 9999 then
    twoDigits (year.natAbs / 100) ++ twoDigits (year.natAbs % 100)
  else (if year < 0 then '-' else '+') :: paddedDigits 4 year.natAbs

/-- The text that a day shows itself in. -/
def shown (d : Day) : List Char :=
  shownYear d.year ++ '-' :: twoDigits d.month ++ '-' :: twoDigits d.day

end Day

end ApiDecl
