/-!
# UTF-8

`Utf8.decode` reads octets as characters and refuses what is not UTF-8: a stray or missing
continuation, a longer form than needed, a surrogate, a number beyond the last character.
-/

namespace ApiDecl

namespace Utf8

/-- A character whose first octet has been read. -/
structure Partial where
  /-- How many octets are still to come. -/
  missing : Nat
  /-- The bits read so far. -/
  value : Nat
  /-- The least number that needs this many octets. -/
  least : Nat

/-- The reader's position: a character under way, and the characters read, last one first. -/
abbrev State := Option Partial × List Char

/-- The character under way after a first octet. -/
def first (octet : Nat) : Option Partial :=
  if 0xC0 ≤ octet ∧ octet < 0xE0 then some ⟨1, octet - 0xC0, 0x80⟩
  else if 0xE0 ≤ octet ∧ octet < 0xF0 then some ⟨2, octet - 0xE0, 0x800⟩
  else if 0xF0 ≤ octet ∧ octet < 0xF8 then some ⟨3, octet - 0xF0, 0x10000⟩
  else none

/-- One octet further. -/
def step : State → UInt8 → Option State
  | (none, done), octet =>
    let n := octet.toNat
    if n < 0x80 then some (none, Char.ofNat n :: done)
    else (first n).map fun under => (some under, done)
  | (some under, done), octet =>
    let n := octet.toNat
    if n < 0x80 ∨ 0xC0 ≤ n then none
    else
      let value := 64 * under.value + (n - 0x80)
      if under.missing = 1 then
        if under.least ≤ value ∧ value.isValidChar then some (none, Char.ofNat value :: done)
        else none
      else some (some ⟨under.missing - 1, value, under.least⟩, done)

/-- The characters that octets encode. -/
def decode (octets : List UInt8) : Option (List Char) :=
  match octets.foldlM step (none, []) with
  | some (none, done) => some done.reverse
  | _ => none

end Utf8

end ApiDecl
