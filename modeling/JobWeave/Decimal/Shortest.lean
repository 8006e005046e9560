/-!
# Shortest decimals

A binary floating-point number stands for every real that rounds to it.  Of the
decimals in that interval the shortest is the one with the fewest digits, and of
several with that many digits the one nearest to the number.

* `Binary` is a finite magnitude `mantissa * 2 ^ exponent` with the interval's
  lower gap;
* `Binary.shortest` gives the digits and the power of ten.
-/

namespace JobWeave.Decimal

/-- A positive binary number and how far its neighbour below is. -/
structure Binary where
  /-- the integer significand -/
  mantissa : Nat
  /-- the power of two it is multiplied by -/
  exponent : Int
  /-- the neighbour below is only half as far as the one above -/
  tightBelow : Bool
  deriving Repr

/-- A decimal `digits * 10 ^ exponent`. -/
structure Digits where
  /-- the digits, read as an integer -/
  digits : Nat
  /-- the power of ten of the last digit -/
  exponent : Int
  deriving DecidableEq, Repr

/-- A power of `base` as a fraction. -/
def powFraction (base : Nat) (e : Int) : Nat × Nat :=
  if 0 ≤ e then (Nat.pow base e.toNat, 1) else (1, Nat.pow base (-e).toNat)

namespace Binary

/-- Four times the number, the ends of its interval, and their common
denominator, all in units of `10 ^ p`. -/
def scaled (b : Binary) (p : Int) : Nat × Nat × Nat × Nat :=
  let (two, twoDen) := powFraction 2 b.exponent
  let (ten, tenDen) := powFraction 10 p
  let unit := two * tenDen
  let low := 4 * b.mantissa - (if b.tightBelow then 1 else 2)
  (low * unit, 4 * b.mantissa * unit, (4 * b.mantissa + 2) * unit,
    4 * twoDen * ten)

/-- The grid point `d` lies in the interval; its ends belong to it when the
significand is even. -/
def holds (b : Binary) (low high den d : Nat) : Bool :=
  if b.mantissa % 2 = 0 then low ≤ d * den && d * den ≤ high
  else low < d * den && d * den < high

/-- The grid point of `10 ^ p` that stands for the number, if one does: the
nearer of its two neighbours on the grid, an exact tie going to the even one. -/
def onGrid? (b : Binary) (p : Int) : Option Nat :=
  let (low, value, high, den) := b.scaled p
  let below := value / den
  let okBelow := 0 < below && b.holds low high den below
  let okAbove := b.holds low high den (below + 1)
  let down := value - below * den
  let up := (below + 1) * den - value
  match okBelow, okAbove with
  | true, false => some below
  | false, true => some (below + 1)
  | false, false => none
  | true, true =>
    if down < up then some below
    else if up < down then some (below + 1)
    else if below % 2 = 0 then some below else some (below + 1)

/-- The power of ten of the number's first digit, by a bounded search up from
an estimate that is not too large. -/
def leading (b : Binary) : Nat → Int → Int
  | 0, e => e
  | fuel + 1, e =>
    let (_, value, _, den) := b.scaled (e + 1)
    if den ≤ value then leading b fuel (e + 1) else e

/-- The first grid, from coarse to fine, with a point for the number. -/
def firstGrid (b : Binary) : Nat → Int → Digits
  | 0, p => ⟨(b.onGrid? p).getD 0, p⟩
  | fuel + 1, p =>
    match b.onGrid? p with
    | some d => ⟨d, p⟩
    | none => firstGrid b fuel (p - 1)

end Binary

/-- Drops trailing zeros; the fuel bounds their number. -/
def Digits.trim : Nat → Digits → Digits
  | 0, d => d
  | fuel + 1, d =>
    if d.digits ≠ 0 ∧ d.digits % 10 = 0 then
      Digits.trim fuel ⟨d.digits / 10, d.exponent + 1⟩
    else d

/-- The power of ten of the first digit. -/
def Binary.firstPower (b : Binary) : Int :=
  let bits : Int := Nat.log2 b.mantissa
  b.leading 6 (Int.fdiv ((bits + b.exponent) * 30102) 100000 - 2)

/-- The shortest decimal that stands for a positive binary number. -/
def Binary.shortest (b : Binary) : Digits :=
  Digits.trim 20 (b.firstGrid 18 (b.firstPower + 1))

end JobWeave.Decimal
