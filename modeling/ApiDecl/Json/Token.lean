import ApiDecl.Json.Basic

/-!
# JSON tokens

`Token.scan` cuts JSON text into tokens, one character at a time.  The scanner's position inside a
token is a `Scan`; a character either continues the token or ends it and starts the next.

A string token has its escapes resolved: a surrogate escape counts only as the first half of a pair
followed at once by its second half.  A number is read by `readNumber`, whose integers stay exact from
`-2 ^ 63` to `2 ^ 64 - 1`.
-/

namespace ApiDecl

/-- A token of JSON text. -/
inductive Token where
  | openArray
  | closeArray
  | openObject
  | closeObject
  | colon
  | comma
  /-- `null`, a truth value, a number or a string. -/
  | scalar (value : Json)

/-! ### Numbers -/

/-- The value of a decimal digit. -/
def digitValue (c : Char) : Nat := c.toNat - '0'.toNat

/-- The number that digits denote. -/
def digitsValue (digits : List Char) : Nat :=
  digits.foldl (fun value c => 10 * value + digitValue c) 0

/-- A significand of 64 bits under construction. -/
structure Significand where
  /-- The digits kept so far. -/
  digits : Nat
  /-- The power of ten of the last digit kept. -/
  exponent : Int
  /-- A digit has been left out. -/
  full : Bool

namespace Significand

/-- A digit fits if the significand stays below `2 ^ 64`. -/
def fits (s : Significand) (c : Char) : Bool := 10 * s.digits + digitValue c < twoTo 64

/-- Takes a digit before the point; once one is left out, all are. -/
def whole (s : Significand) (c : Char) : Significand :=
  if !s.full && s.fits c then ⟨10 * s.digits + digitValue c, s.exponent, false⟩
  else ⟨s.digits, s.exponent + 1, true⟩

/-- Takes a digit after the point; once one is left out, all are. -/
def fraction (s : Significand) (c : Char) : Significand :=
  if !s.full && s.fits c then ⟨10 * s.digits + digitValue c, s.exponent - 1, false⟩
  else ⟨s.digits, s.exponent, true⟩

/-- The significand of the digits before and after a point. -/
def ofDigits (before after : List Char) : Significand :=
  let s := before.foldl whole ⟨0, 0, false⟩
  after.foldl fraction ⟨s.digits, s.exponent, false⟩

end Significand

/-- The digits at the front, and the rest. -/
def spanDigits (text : List Char) : List Char × List Char :=
  (text.takeWhile Char.isDigit, text.dropWhile Char.isDigit)

/-- An exponent part: a mark, an optional sign and digits to the end. -/
def readExponent : List Char → Option Int
  | 'e' :: text | 'E' :: text =>
    let (negative, digits) : Bool × List Char :=
      match text with
      | '+' :: digits => (false, digits)
      | '-' :: digits => (true, digits)
      | digits => (false, digits)
    if digits.isEmpty || !digits.all Char.isDigit then none
    else
      let size : Int := digitsValue digits
      some (if negative then -size else size)
  | _ => none

/-- A number with its sign taken off: digits without a needless zero in front, then optionally a point
with digits, then optionally an exponent. -/
def readMagnitude (negative : Bool) (text : List Char) : Option Number :=
  let (whole, rest) := spanDigits text
  if whole.isEmpty || (whole.length > 1 && whole.head? == some '0') then none
  else
    let real (s : Significand) (exponent : Int) : Option Number :=
      (Binary64.ofLeadingDigits negative s.digits (s.exponent + exponent)).map .real
    match rest with
    | [] =>
      let size := digitsValue whole
      if negative then
        if size = 0 ∨ twoTo 63 < size then real (.ofDigits whole []) 0
        else some (.int (-size))
      else if size < twoTo 64 then some (.int size)
      else real (.ofDigits whole []) 0
    | '.' :: more =>
      let (fraction, rest) := spanDigits more
      if fraction.isEmpty then none
      else
        match rest with
        | [] => real (.ofDigits whole fraction) 0
        | rest => (readExponent rest).bind (real (.ofDigits whole fraction))
    | rest => (readExponent rest).bind (real (.ofDigits whole []))

/-- Reads a JSON number. -/
def readNumber : List Char → Option Number
  | '-' :: text => readMagnitude true text
  | text => readMagnitude false text

/-! ### The scanner -/

/-- Where the scanner stands; texts under construction are kept last character first. -/
inductive Scan where
  /-- Between tokens. -/
  | between
  /-- Inside a string. -/
  | text (done : List Char)
  /-- After a backslash in a string. -/
  | escape (done : List Char)
  /-- Inside a `\u` escape with the digits read so far, after a first surrogate if there was one. -/
  | unit (done : List Char) (first : Option Nat) (count value : Nat)
  /-- After a first surrogate: a backslash must come. -/
  | pairBackslash (done : List Char) (first : Nat)
  /-- After a first surrogate and a backslash: a `u` must come. -/
  | pairMark (done : List Char) (first : Nat)
  /-- Inside a number. -/
  | numeral (done : List Char)
  /-- Inside a word. -/
  | word (done : List Char)

/-- JSON blanks. -/
def isJsonBlank (c : Char) : Bool := c = ' ' || c = '\n' || c = '\t' || c = '\r'

/-- Characters that numbers are made of. -/
def isNumeral (c : Char) : Bool := c.isDigit || c = '-' || c = '+' || c = '.' || c = 'e' || c = 'E'

/-- The value of a hexadecimal digit. -/
def hexValue? (c : Char) : Option Nat :=
  if '0' ≤ c ∧ c ≤ '9' then some (c.toNat - '0'.toNat)
  else if 'a' ≤ c ∧ c ≤ 'f' then some (c.toNat - 'a'.toNat + 10)
  else if 'A' ≤ c ∧ c ≤ 'F' then some (c.toNat - 'A'.toNat + 10)
  else none

/-- The token of a complete word. -/
def wordToken (done : List Char) : Option Token :=
  if done = ['l', 'l', 'u', 'n'] then some (.scalar .null)
  else if done = ['e', 'u', 'r', 't'] then some (.scalar (.bool true))
  else if done = ['e', 's', 'l', 'a', 'f'] then some (.scalar (.bool false))
  else none

namespace Scan

/-- A character between tokens. -/
def start (tokens : List Token) (c : Char) : Option (Scan × List Token) :=
  if isJsonBlank c then some (between, tokens)
  else if c = '[' then some (between, .openArray :: tokens)
  else if c = ']' then some (between, .closeArray :: tokens)
  else if c = '\x7b' then some (between, .openObject :: tokens)
  else if c = '\x7d' then some (between, .closeObject :: tokens)
  else if c = ':' then some (between, .colon :: tokens)
  else if c = ',' then some (between, .comma :: tokens)
  else if c = '"' then some (text [], tokens)
  else if c.isDigit || c = '-' then some (numeral [c], tokens)
  else if c.isLower then some (word [c], tokens)
  else none

/-- Ends a number or a word. -/
def close (tokens : List Token) : Scan → Option (List Token)
  | between => some tokens
  | numeral done => (readNumber done.reverse).map fun value => .scalar (.number value) :: tokens
  | word done => (wordToken done).map (· :: tokens)
  | _ => none

/-- The character that a one-letter escape stands for. -/
def escaped? (c : Char) : Option Char :=
  match c with
  | '"' => some '"'
  | '\\' => some '\\'
  | '/' => some '/'
  | 'b' => some '\x08'
  | 'f' => some '\x0c'
  | 'n' => some '\n'
  | 'r' => some '\r'
  | 't' => some '\t'
  | _ => none

/-- A complete `\u` escape. -/
def unitDone (done : List Char) : Option Nat → Nat → Option Scan
  | none, value =>
    if 0xD800 ≤ value ∧ value < 0xDC00 then some (pairBackslash done value)
    else if 0xDC00 ≤ value ∧ value < 0xE000 then none
    else some (text (Char.ofNat value :: done))
  | some first, value =>
    if 0xDC00 ≤ value ∧ value < 0xE000 then
      some (text (Char.ofNat (0x10000 + (first - 0xD800) * 0x400 + (value - 0xDC00)) :: done))
    else none

/-- One character further; the tokens found so far are kept last one first. -/
def step : Scan × List Token → Char → Option (Scan × List Token)
  | (between, tokens), c => start tokens c
  | (text done, tokens), c =>
    if c = '"' then some (between, .scalar (.string (String.ofList done.reverse)) :: tokens)
    else if c = '\\' then some (escape done, tokens)
    else if c.toNat < 32 then none
    else some (text (c :: done), tokens)
  | (escape done, tokens), c =>
    if c = 'u' then some (unit done none 0 0, tokens)
    else (escaped? c).map fun value => (text (value :: done), tokens)
  | (unit done first count value, tokens), c =>
    (hexValue? c).bind fun digit =>
      let value := 16 * value + digit
      if count = 3 then (unitDone done first value).map (·, tokens)
      else some (unit done first (count + 1) value, tokens)
  | (pairBackslash done first, tokens), c =>
    if c = '\\' then some (pairMark done first, tokens) else none
  | (pairMark done first, tokens), c =>
    if c = 'u' then some (unit done (some first) 0 0, tokens) else none
  | (numeral done, tokens), c =>
    if isNumeral c then some (numeral (c :: done), tokens)
    else (close tokens (numeral done)).bind (start · c)
  | (word done, tokens), c =>
    if c.isLower then some (word (c :: done), tokens)
    else (close tokens (word done)).bind (start · c)

end Scan

/-- The tokens of JSON text. -/
def Token.scan (text : String) : Option (List Token) := do
  let (last, tokens) ← text.toList.foldlM Scan.step (.between, [])
  return (← last.close tokens).reverse

end ApiDecl
