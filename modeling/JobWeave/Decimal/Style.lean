import JobWeave.Decimal.Float

/-!
# Styles of floating-point text

Besides the shortest text a number can be written in a chosen style: with an
exponent, positionally, in whichever of the two is shorter, as an integer times
a power of two, or in hexadecimal.  A style may ask for a number of places;
digits that do not fit are rounded to nearest, an exact half going to the even
digit.

* `Binary.inUnits` rounds to a multiple of a power of ten;
* `Format.written` is the text of a bit pattern in a style.
-/

namespace JobWeave.Decimal

/-! ## Rounding -/

/-- The quotient to the nearest integer, an exact half going to the even one. -/
def roundDiv (value den : Nat) : Nat :=
  let below := value / den
  let twice := 2 * (value % den)
  if twice < den then below
  else if den < twice then below + 1
  else below + below % 2

/-- The number in units of `10 ^ p`, rounded. -/
def Binary.inUnits (b : Binary) (p : Int) : Nat :=
  let (_, value, _, den) := b.scaled p
  roundDiv value den

/-- Significant digits without zeros at the end, and how many of them stand
before the point.  Zero has no digits. -/
structure Spread where
  /-- the digits -/
  digits : List Char := []
  /-- the position of the point -/
  point : Int := 0
  deriving Repr

/-- The digits of a decimal. -/
def Spread.ofDigits (d : Digits) : Spread :=
  if d.digits = 0 then {}
  else
    let all := Nat.toDigits 10 d.digits
    { digits := (all.reverse.dropWhile (· == '0')).reverse,
      point := d.exponent + all.length }

/-- The number rounded to `n` significant digits. -/
def Binary.significant (b : Binary) (n : Nat) : Spread :=
  let p := b.firstPower - n + 1
  .ofDigits ⟨b.inUnits p, p⟩

/-- The number rounded to `n` digits after the point. -/
def Binary.fixed (b : Binary) (n : Nat) : Spread :=
  .ofDigits ⟨b.inUnits (-n), -n⟩

/-! ## Decimal styles -/

/-- A sign and at least two digits. -/
def signedPower (e : Int) : List Char :=
  let digits := Nat.toDigits 10 e.natAbs
  (if e < 0 then '-' else '+') ::
    (if digits.length < 2 then '0' :: digits else digits)

namespace Spread

/-- The digit at a place, zero outside the digits. -/
def digitAt (s : Spread) (n : Int) : Char :=
  if n < 0 then '0' else (s.digits[n.toNat]?).getD '0'

/-- One digit, `places` digits after the point, and the exponent. -/
def exponential (s : Spread) (places : Nat) (mark : Char) : List Char :=
  let tail := (List.range places).map fun (n : Nat) => s.digitAt (n + 1)
  let power := if s.digits.isEmpty then 0 else s.point - 1
  s.digitAt 0 :: (if places = 0 then [] else '.' :: tail) ++
    mark :: signedPower power

/-- All digits before the point and `places` after it. -/
def positional (s : Spread) (places : Nat) : List Char :=
  let whole :=
    if s.point ≤ 0 then ['0']
    else (List.range s.point.toNat).map fun (n : Nat) => s.digitAt n
  let tail := (List.range places).map fun (n : Nat) => s.digitAt (s.point + n)
  whole ++ (if places = 0 then [] else '.' :: tail)

/-- The shorter of the two: with an exponent when the first digit's power of ten
is below -4 or reaches the number of digits asked for.  The shortest decimal
turns to an exponent at the sixth power. -/
def general (s : Spread) (places : Option Nat) (mark : Char) : List Char :=
  let count : Int := s.digits.length
  let asked : Int := (places.map fun n => (max n 1 : Int)).getD count
  let limit : Int :=
    match places with
    | none => 6
    | some _ => if count < asked && s.point ≤ count then count else asked
  let power := s.point - 1
  if power < -4 || limit ≤ power then
    s.exponential (min asked count - 1).toNat mark
  else s.positional (count - s.point).toNat

end Spread

/-! ## Binary styles -/

/-- The magnitude as an integer and a power of two; zero has the least power. -/
def Format.asBinary (f : Format) (bits : Nat) : Nat × Int :=
  match f.magnitude bits with
  | .finite b => (b.mantissa, b.exponent)
  | _ => (0, 2 - (Nat.pow 2 (f.exponent - 1) : Nat) - f.fraction)

/-- An integer, the letter `p` and the power of two. -/
def scaledText (mantissa : Nat) (exponent : Int) : List Char :=
  Nat.toDigits 10 mantissa ++ 'p' :: (if exponent < 0 then '-' else '+') ::
    Nat.toDigits 10 exponent.natAbs

/-- A significand with its leading bit at `2 ^ 60`, rounded to `places`
hexadecimal digits below it, and the power of two of that bit. -/
def hexRounded (mantissa : Nat) (exponent : Int) (places : Option Nat) :
    Nat × Int :=
  if mantissa = 0 then (0, 0)
  else
    let top := Nat.log2 mantissa
    let m := mantissa * Nat.pow 2 (60 - top)
    let e := exponent + top
    match places with
    | none => (m, e)
    | some n =>
      if 15 ≤ n then (m, e)
      else
        let unit := Nat.pow 2 (60 - 4 * n)
        let m := roundDiv m unit * unit
        if Nat.pow 2 61 ≤ m then (m / 2, e + 1) else (m, e)

/-- A hexadecimal significand between one and two, and the power of two. -/
def hexText (upper : Bool) (mantissa : Nat) (exponent : Int)
    (places : Option Nat) : List Char :=
  let (m, e) := hexRounded mantissa exponent places
  let one := Nat.pow 2 60
  let all := (List.range 15).map fun n =>
    Nat.digitChar (m % one / Nat.pow 2 (56 - 4 * n) % 16)
  let tail :=
    match places with
    | none => (all.reverse.dropWhile (· == '0')).reverse
    | some n => all.take n ++ List.replicate (n - 15) '0'
  let text := '0' :: 'x' :: Nat.digitChar (m / one % 2) ::
    (if tail.isEmpty then [] else '.' :: tail) ++ 'p' :: signedPower e
  if upper then text.map Char.toUpper else text

/-! ## Styles by letter -/

/-- The magnitude of a bit pattern in the style of a letter: `e` with an
exponent, `f` positional, `g` the shorter of both, `b` as an integer times a
power of two, `x` in hexadecimal; capitals are written for capital letters. -/
def Format.magnitudeText (f : Format) (letter : Char) (places : Option Nat)
    (bits : Nat) : List Char :=
  let (mantissa, exponent) := f.asBinary bits
  let spread := fun (at_ : Binary → Spread) =>
    match f.magnitude bits with
    | .finite b => at_ b
    | _ => {}
  let shortest := spread fun b => .ofDigits b.shortest
  let exponential := fun mark =>
    match places with
    | none => shortest.exponential (shortest.digits.length - 1) mark
    | some n => (spread (·.significant (n + 1))).exponential n mark
  let general := fun mark =>
    match places with
    | none => shortest.general none mark
    | some n => (spread (·.significant (max n 1))).general (some n) mark
  match letter with
  | 'e' => exponential 'e'
  | 'E' => exponential 'E'
  | 'f' =>
    match places with
    | none =>
      shortest.positional (shortest.digits.length - shortest.point).toNat
    | some n => (spread (·.fixed n)).positional n
  | 'G' => general 'E'
  | 'b' => scaledText mantissa exponent
  | 'x' => hexText false mantissa exponent places
  | 'X' => hexText true mantissa exponent places
  | _ => general 'e'

/-- The text of a bit pattern in the style of a letter, with its sign; an
infinite number always shows it. -/
def Format.written (f : Format) (letter : Char) (places : Option Nat)
    (bits : Nat) : List Char :=
  let sign := if f.negative bits then ['-'] else []
  match f.magnitude bits with
  | .undefined => ['N', 'a', 'N']
  | .infinite => (if f.negative bits then '-' else '+') :: ['I', 'n', 'f']
  | _ => sign ++ f.magnitudeText letter places bits

end JobWeave.Decimal
