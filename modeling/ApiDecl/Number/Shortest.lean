import ApiDecl.Number.Binary64

/-!
# The shortest decimal of a double

Among the decimals that read back as a given magnitude, `shortestDecimal` takes one with the fewest
digits, and of those the nearest.  A decimal reads back when it lies between the midpoints to the two
neighbouring magnitudes; the midpoints themselves count exactly when the rank is even.

On each grid of decimals only the two neighbours of the magnitude need a test: if any point of the
grid reads back, one of these does.

`Binary64.text` writes the digits: positional notation while the exponent of the leading digit is from
`-5` to `15`, with `.0` after a whole number, and otherwise a mantissa with a signed exponent.
-/

namespace ApiDecl

/-- A decimal `digits · 10 ^ exponent`. -/
structure Decimal where
  /-- The digits as one number. -/
  digits : Nat
  /-- The power of ten of the last digit. -/
  exponent : Int
  deriving DecidableEq

/-- The quantity `digits · 10 ^ exponent` as a quotient. -/
def Decimal.ratio (d : Decimal) : Nat × Nat :=
  match d.exponent with
  | .ofNat e => (d.digits * tenTo e, 1)
  | .negSucc e => (d.digits, tenTo (e + 1))

/-- The decimal lies in the interval of the quantities that round to the rank. -/
def Decimal.readsBackAs (d : Decimal) (rank : Nat) : Bool :=
  let (num, den) := d.ratio
  let point := num * (2 * unitsPerOne)
  let low := (unitsOfRank (rank - 1) + unitsOfRank rank) * den
  let high := (unitsOfRank rank + unitsOfRank (rank + 1)) * den
  if rank % 2 = 0 then low ≤ point && point ≤ high else low < point && point < high

/-- The largest `e` with `10 ^ e ≤ num / den`, searched from an estimate upwards. -/
def leadingExponent (num den : Nat) : Int :=
  let estimate : Int := ((Nat.log2 num : Int) - Nat.log2 den - 1) * 30103 / 100000 - 1
  let reaches (e : Int) : Bool :=
    match e with
    | .ofNat e => den * tenTo e ≤ num
    | .negSucc e => den ≤ num * tenTo (e + 1)
  (List.range 4).foldl (fun best (k : Nat) => if reaches (estimate + k) then estimate + k else best)
    estimate

/-- The two points of the grid `10 ^ exponent` around `num / den`, the nearer one first; of two
equally near ones the even one comes first. -/
def gridNeighbours (num den : Nat) (exponent : Int) : Decimal × Decimal :=
  let (n, d) : Nat × Nat :=
    match exponent with
    | .ofNat e => (num, den * tenTo e)
    | .negSucc e => (num * tenTo (e + 1), den)
  let below := n / d
  if roundHalfEven n d = below then (⟨below, exponent⟩, ⟨below + 1, exponent⟩)
  else (⟨below + 1, exponent⟩, ⟨below, exponent⟩)

/-- The first decimal that reads back on the grids with `count` digits and more, of `fuel` grids. -/
def shortestFrom (rank : Nat) (leading : Int) : (fuel count : Nat) → Decimal
  | 0, _ => ⟨unitsOfRank rank, 0⟩
  | fuel + 1, count =>
    let (near, far) := gridNeighbours (unitsOfRank rank) unitsPerOne (leading - count + 1)
    if near.readsBackAs rank then near
    else if far.readsBackAs rank then far
    else shortestFrom rank leading fuel (count + 1)

/-- The shortest decimal of a magnitude; seventeen digits always read back. -/
def shortestDecimal (rank : Nat) : Decimal :=
  shortestFrom rank (leadingExponent (unitsOfRank rank) unitsPerOne) 17 1

/-- Digits without the zeros at their end. -/
def significantDigits (digits : Nat) : List Char :=
  ((Nat.toDigits 10 digits).reverse.dropWhile (· = '0')).reverse

namespace Binary64

/-- Writes digits whose first one stands at the power `leading` of ten. -/
def layout (digits : List Char) (leading : Int) : List Char :=
  if leading < -5 ∨ 15 < leading then
    let mantissa :=
      match digits with
      | first :: second :: rest => first :: '.' :: second :: rest
      | short => short
    let sign := if leading < 0 then '-' else '+'
    mantissa ++ 'e' :: sign :: Nat.toDigits 10 leading.natAbs
  else match leading with
    | .ofNat e =>
      let whole := (digits ++ List.replicate (e + 1 - digits.length) '0').take (e + 1)
      let fraction := digits.drop (e + 1)
      whole ++ '.' :: (if fraction.isEmpty then ['0'] else fraction)
    | .negSucc e => '0' :: '.' :: (List.replicate e '0' ++ digits)

/-- The text of a double: the fewest digits that read back, always with a point or an exponent. -/
def text (x : Binary64) : String :=
  let sign := if x.negative then ['-'] else []
  if x.rank = 0 then String.ofList (sign ++ ['0', '.', '0'])
  else
    let d := shortestDecimal x.rank
    let all := Nat.toDigits 10 d.digits
    String.ofList (sign ++ layout (significantDigits d.digits) (d.exponent + all.length - 1))

end Binary64

end ApiDecl
