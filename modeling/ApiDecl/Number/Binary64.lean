/-!
# Finite doubles

A finite floating-point number of 64 bits, kept as its sign and its *rank*: the place of its
magnitude in the increasing list of the finite magnitudes.  All arithmetic is exact and on `Nat`.

* `unitsOfRank`: the magnitude of a rank, counted in units of `2⁻¹⁰⁷⁴`, the least positive one;
* `nearestRank`: the rank nearest to a quotient of two natural numbers, a tie going to the even rank;
* `Binary64.ofRatio`: the double nearest to a signed quotient, if it is finite;
* `Binary64.ofDecimal`: the double nearest to `digits · 10 ^ exponent`;
* `Binary64.ofLeadingDigits`: the same by one rounded product or quotient of doubles, which is how
  JSON text is read.
-/

namespace ApiDecl

/-- A power of two. -/
abbrev twoTo (exponent : Nat) : Nat := Nat.pow 2 exponent

/-- A power of ten. -/
abbrev tenTo (exponent : Nat) : Nat := Nat.pow 10 exponent

/-- The ranks of finite magnitudes stop before the one that would be infinite. -/
abbrev rankLimit : Nat := 2047 * twoTo 52

/-- A finite double. -/
structure Binary64 where
  /-- The sign, which zero has too. -/
  negative : Bool
  /-- The place of the magnitude among the finite magnitudes; zero has rank zero. -/
  rank : Nat
  /-- The magnitude is finite. -/
  rank_lt : rank < rankLimit
  deriving DecidableEq

/-- The magnitude of a rank in units of `2⁻¹⁰⁷⁴`. -/
def unitsOfRank (rank : Nat) : Nat :=
  let scale := rank / twoTo 52 - 1
  (rank - scale * twoTo 52) * twoTo scale

/-- The number of units in one. -/
abbrev unitsPerOne : Nat := twoTo 1074

/-- The natural number nearest to a quotient; a tie goes to the even one. -/
def roundHalfEven (num den : Nat) : Nat :=
  let whole := num / den
  let twice := 2 * (num % den)
  if twice < den then whole
  else if den < twice then whole + 1
  else if whole % 2 = 0 then whole
  else whole + 1

/-- The rank nearest to `num / den`; a tie goes to the even rank. -/
def nearestRank (num den : Nat) : Nat :=
  let units := num * unitsPerOne
  let scale := Nat.log2 (units / den) - 52
  scale * twoTo 52 + roundHalfEven units (den * twoTo scale)

namespace Binary64

/-- The double of a sign and a rank, if it is finite. -/
def ofRank? (negative : Bool) (rank : Nat) : Option Binary64 :=
  if h : rank < rankLimit then some ⟨negative, rank, h⟩ else none

/-- Zero with a sign. -/
def zero (negative : Bool) : Binary64 := ⟨negative, 0, by decide⟩

/-- The double nearest to a signed quotient, if it is finite. -/
def ofRatio (negative : Bool) (num den : Nat) : Option Binary64 :=
  ofRank? negative (nearestRank num den)

/-- Two doubles are the same number; the sign of zero does not count. -/
def sameNumber (a b : Binary64) : Bool :=
  a.rank == b.rank && (a.negative == b.negative || a.rank == 0)

/-- The double nearest to `digits · 10 ^ exponent`, if it is finite.  Exponents that leave no
doubt are settled before the power is formed. -/
def ofDecimal (negative : Bool) (digits : Nat) (exponent : Int) : Option Binary64 :=
  if digits = 0 then some (zero negative)
  else if 400 < exponent then none
  else if exponent + (Nat.log2 digits + 1 : Nat) < -400 then some (zero negative)
  else match exponent with
    | .ofNat e => ofRatio negative (digits * tenTo e) 1
    | .negSucc e => ofRatio negative digits (tenTo (e + 1))

/-- The rank of the product of two magnitudes. -/
def productRank (a b : Nat) : Nat :=
  nearestRank (unitsOfRank a * unitsOfRank b) (unitsPerOne * unitsPerOne)

/-- The rank of the quotient of two magnitudes. -/
def quotientRank (a b : Nat) : Nat :=
  nearestRank (unitsOfRank a) (unitsOfRank b)

/-- The rank of the double nearest to a power of ten. -/
def powerRank (exponent : Nat) : Nat := nearestRank (tenTo exponent) 1

/-- Reads `digits · 10 ^ exponent` by rounding the digits, then the power, then their product or
quotient; below `10 ^ -308` the division is done in two steps. -/
def ofLeadingDigits (negative : Bool) (digits : Nat) (exponent : Int) : Option Binary64 :=
  let leading := nearestRank digits 1
  if digits = 0 then some (zero negative)
  else match exponent with
    | .ofNat e =>
      if e ≤ 308 then ofRank? negative (productRank leading (powerRank e)) else none
    | .negSucc e =>
      if e + 1 ≤ 308 then ofRank? negative (quotientRank leading (powerRank (e + 1)))
      else
        let once := quotientRank leading (powerRank 308)
        if e + 1 ≤ 616 then ofRank? negative (quotientRank once (powerRank (e + 1 - 308)))
        else some (zero negative)

end Binary64

end ApiDecl
