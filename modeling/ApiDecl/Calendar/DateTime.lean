import ApiDecl.Calendar.Day

/-!
# Date-times

A day with a time of day and the distance of the local clock from universal time.  Behind any second
there may be a leap second.

* `DateTime.parse`: the form of RFC 3339, with `T`, `t` or a space before the time; it has leap seconds
  behind the last second of any minute;
* `DateTime.text`: the same form with as many decimals as needed, of none, three, six and nine, and
  `Z` for universal time; the year is signed when it has not four digits, and an offset is rounded to
  minutes;
* `DateTime.unixSeconds`: the seconds since the first of January 1970, a leap second counting with
  the second before it.
-/

namespace ApiDecl

/-- A moment as a clock at some offset shows it. -/
structure DateTime where
  /-- The local day. -/
  day : Day
  hour : Nat
  minute : Nat
  second : Nat
  /-- Billionths of a second since the second has begun, the leap second behind it included. -/
  nano : Nat
  /-- Seconds that the local clock is ahead of universal time. -/
  offset : Int
  hour_lt : hour < 24
  minute_lt : minute < 60
  second_lt : second < 60
  nano_lt : nano < 2000000000
  offset_lt : -86400 < offset ∧ offset < 86400
  deriving DecidableEq

namespace DateTime

/-- The moment with these numbers, if there is one. -/
def of? (day : Day) (hour minute second nano : Nat) (offset : Int) : Option DateTime :=
  if h : hour < 24 ∧ minute < 60 ∧ second < 60 ∧ nano < 2000000000 ∧ -86400 < offset
      ∧ offset < 86400 then
    some ⟨day, hour, minute, second, nano, offset, h.1, h.2.1, h.2.2.1, h.2.2.2.1, h.2.2.2.2⟩
  else none

/-- The moment that a clock shows with these numbers, the sixtieth second being the leap second behind
the one before it. -/
def ofClock? (day : Day) (hour minute second nano : Nat) (offset : Int) : Option DateTime :=
  if second = 60 then of? day hour minute 59 (nano + 1000000000) offset
  else of? day hour minute second nano offset

/-- The seconds since the first of January 1970. -/
def unixSeconds (t : DateTime) : Int :=
  t.day.number * 86400 + t.hour * 3600 + t.minute * 60 + t.second - t.offset

/-- A fraction of a second: at least one digit after the point, of which nine count. -/
def takeFraction : List Char → Option (Nat × List Char)
  | '.' :: text =>
    let (digits, rest) := spanDigits text
    if digits.isEmpty then none
    else some (digitsValue ((digits ++ List.replicate 9 '0').take 9), rest)
  | text => some (0, text)

/-- The minutes of an offset: two digits for hours and two for minutes below sixty, with a given sign. -/
def takeClock (sign : Int) (text : List Char) : Option (Int × List Char) := do
  let (hours, text) ← takeDigits 2 text
  let text ← takeChar ':' text
  let (minutes, text) ← takeDigits 2 text
  if minutes < 60 then some (sign * (hours * 60 + minutes : Nat), text) else none

/-- The minutes of an offset: `Z`, or a sign with hours and minutes; a minus sign counts as a hyphen. -/
def takeOffset : List Char → Option (Int × List Char)
  | [] => none
  | c :: text =>
    if c = 'Z' ∨ c = 'z' then some (0, text)
    else if c = '+' then takeClock 1 text
    else if c = '-' ∨ c = '\u2212' then takeClock (-1) text
    else none

/-- The mark between day and time. -/
def takeMark : List Char → Option (List Char)
  | [] => none
  | c :: text => if c = 'T' ∨ c = 't' ∨ c = ' ' then some text else none

/-- Reads a date-time. -/
def parse (text : List Char) : Option DateTime := do
  let (year, text) ← takeDigits 4 text
  let text ← takeChar '-' text
  let (month, text) ← takeDigits 2 text
  let text ← takeChar '-' text
  let (day, text) ← takeDigits 2 text
  let text ← takeMark text
  let (hour, text) ← takeDigits 2 text
  let text ← takeChar ':' text
  let (minute, text) ← takeDigits 2 text
  let text ← takeChar ':' text
  let (second, text) ← takeDigits 2 text
  let (nano, text) ← takeFraction text
  let (minutes, text) ← takeOffset text
  if text.isEmpty then
    let day ← Day.of? year month day
    ofClock? day hour minute second nano (minutes * 60)
  else none

/-- The decimals of a second. -/
def fractionText (nano : Nat) : List Char :=
  if nano = 0 then []
  else if nano % 1000000 = 0 then '.' :: paddedDigits 3 (nano / 1000000)
  else if nano % 1000 = 0 then '.' :: paddedDigits 6 (nano / 1000)
  else '.' :: paddedDigits 9 nano

/-- The text of an offset in seconds, rounded to minutes. -/
def offsetText (offset : Int) : List Char :=
  if offset = 0 then ['Z']
  else
    let size := (offset.natAbs + 30) / 60
    (if offset < 0 then '-' else '+') :: paddedDigits 2 (size / 60) ++ ':' :: paddedDigits 2 (size % 60)

/-- The text of a date-time; a leap second has the number behind that of its second. -/
def text (t : DateTime) : List Char :=
  t.day.shown ++ 'T' :: paddedDigits 2 t.hour ++ ':' :: paddedDigits 2 t.minute
    ++ ':' :: paddedDigits 2 (t.second + t.nano / 1000000000) ++ fractionText (t.nano % 1000000000)
    ++ offsetText t.offset

end DateTime

end ApiDecl
