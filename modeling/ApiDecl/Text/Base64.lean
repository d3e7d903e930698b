/-!
# Base64

Octets in groups of three as four characters of an alphabet, the last group filled up with `=`.

* `Base64.encode`: the text of octets in the standard alphabet;
* `Base64.decode`: the octets of a text in a given alphabet, read strictly: the text is made of whole
  groups, only the last one is filled up, and bits that belong to no octet are zero.
-/

namespace ApiDecl

namespace Base64

/-- The two characters of an alphabet after the letters and digits. -/
structure Alphabet where
  /-- The character for sixty-two. -/
  sixtyTwo : Char
  /-- The character for sixty-three. -/
  sixtyThree : Char

/-- The alphabet with `+` and `/`. -/
def standard : Alphabet := ⟨'+', '/'⟩

/-- The alphabet with `-` and `_`. -/
def urlSafe : Alphabet := ⟨'-', '_'⟩

/-- The character for six bits. -/
def digit (a : Alphabet) (n : Nat) : Char :=
  if n < 26 then Char.ofNat ('A'.toNat + n)
  else if n < 52 then Char.ofNat ('a'.toNat + (n - 26))
  else if n < 62 then Char.ofNat ('0'.toNat + (n - 52))
  else if n = 62 then a.sixtyTwo
  else a.sixtyThree

/-- The six bits of a character. -/
def digitValue? (a : Alphabet) (c : Char) : Option Nat :=
  if c.isUpper then some (c.toNat - 'A'.toNat)
  else if c.isLower then some (c.toNat - 'a'.toNat + 26)
  else if c.isDigit then some (c.toNat - '0'.toNat + 52)
  else if c = a.sixtyTwo then some 62
  else if c = a.sixtyThree then some 63
  else none

/-- The text of octets, as characters. -/
def encodeChars : List UInt8 → List Char
  | [] => []
  | [x] =>
    let n := x.toNat * 16
    [digit standard (n / 64), digit standard (n % 64), '=', '=']
  | [x, y] =>
    let n := (x.toNat * 256 + y.toNat) * 4
    [digit standard (n / 4096), digit standard (n / 64 % 64), digit standard (n % 64), '=']
  | x :: y :: z :: rest =>
    let n := (x.toNat * 256 + y.toNat) * 256 + z.toNat
    digit standard (n / 262144) :: digit standard (n / 4096 % 64) :: digit standard (n / 64 % 64)
      :: digit standard (n % 64) :: encodeChars rest

/-- The octets of a last group that is filled up. -/
def decodeLast (a : Alphabet) (p q r : Char) : Option (List UInt8) := do
  let x ← digitValue? a p
  let y ← digitValue? a q
  if r = '=' then
    if y % 16 = 0 then some [UInt8.ofNat (x * 4 + y / 16)] else none
  else
    let z ← digitValue? a r
    if z % 4 = 0 then some [UInt8.ofNat (x * 4 + y / 16), UInt8.ofNat (y % 16 * 16 + z / 4)] else none

/-- The octets of a text, given as characters. -/
def decodeChars (a : Alphabet) : List Char → Option (List UInt8)
  | [] => some []
  | p :: q :: r :: s :: rest =>
    if s = '=' then
      if rest.isEmpty then decodeLast a p q r else none
    else do
      let x ← digitValue? a p
      let y ← digitValue? a q
      let z ← digitValue? a r
      let w ← digitValue? a s
      let octets ← decodeChars a rest
      some (UInt8.ofNat (x * 4 + y / 16) :: UInt8.ofNat (y % 16 * 16 + z / 4)
        :: UInt8.ofNat (z % 4 * 64 + w) :: octets)
  | _ => none

/-- The text of octets. -/
def encode (octets : List UInt8) : String := String.ofList (encodeChars octets)

/-- The octets of a text in an alphabet. -/
def decode (a : Alphabet) (text : String) : Option (List UInt8) := decodeChars a text.toList

end Base64

end ApiDecl
