import JobWeave.Decimal.Shortest

/-!
# Text of floating-point numbers

Floating-point constants are kept as their bits.  Their text is the shortest
decimal that reads back, written positionally while the power of ten of the
first digit lies between -4 and 5 and with an exponent of at least two digits
otherwise.
-/

namespace JobWeave.Decimal

/-- The shape of a binary interchange format. -/
structure Format where
  /-- bits of the fraction -/
  fraction : Nat
  /-- bits of the exponent -/
  exponent : Nat
  deriving Repr

/-- Numbers of 32 bits. -/
def single : Format := ⟨23, 8⟩

/-- Numbers of 64 bits. -/
def double : Format := ⟨52, 11⟩

/-- What a bit pattern stands for, its sign apart. -/
inductive Magnitude where
  | zero
  | finite (b : Binary)
  | infinite
  | undefined
  deriving Repr

namespace Format

/-- The sign bit. -/
def negative (f : Format) (bits : Nat) : Bool :=
  bits / Nat.pow 2 (f.fraction + f.exponent) % 2 = 1

/-- The magnitude of a bit pattern. -/
def magnitude (f : Format) (bits : Nat) : Magnitude :=
  let unit := Nat.pow 2 f.fraction
  let frac := bits % unit
  let exp := bits / unit % Nat.pow 2 f.exponent
  let bias : Int := (Nat.pow 2 (f.exponent - 1) : Nat) - 1
  let top := Nat.pow 2 f.exponent - 1
  if exp = top then if frac = 0 then .infinite else .undefined
  else if exp = 0 then
    if frac = 0 then .zero
    else .finite ⟨frac, 1 - bias - f.fraction, false⟩
  else
    .finite ⟨unit + frac, (exp : Int) - bias - f.fraction,
      frac = 0 && 1 < exp⟩

end Format

/-- The digits of `d` and the power of ten of its first digit. -/
def Digits.spread (d : Digits) : List Char × Int :=
  let cs := Nat.toDigits 10 d.digits
  (cs, d.exponent + cs.length - 1)

/-- An exponent with its sign and at least two digits. -/
def exponentText (e : Int) : List Char :=
  let digits := Nat.toDigits 10 e.natAbs
  'e' :: (if e < 0 then '-' else '+') ::
    (if digits.length < 2 then '0' :: digits else digits)

/-- One digit, the rest after a point, and the exponent. -/
def scientific (cs : List Char) (e : Int) : List Char :=
  match cs with
  | [] => []
  | [c] => c :: exponentText e
  | c :: rest => c :: '.' :: rest ++ exponentText e

/-- The number without an exponent. -/
def positional (cs : List Char) (e : Int) : List Char :=
  if e < 0 then
    '0' :: '.' :: List.replicate (-e - 1).toNat '0' ++ cs
  else
    let whole := e.toNat + 1
    if cs.length ≤ whole then cs ++ List.replicate (whole - cs.length) '0'
    else cs.take whole ++ '.' :: cs.drop whole

/-- The text of a positive decimal. -/
def Digits.text (d : Digits) : List Char :=
  let (cs, e) := d.spread
  if e < -4 || 6 ≤ e then scientific cs e else positional cs e

/-- The text of a bit pattern of the given format. -/
def Format.text (f : Format) (bits : Nat) : String :=
  let sign := f.negative bits
  match f.magnitude bits with
  | .undefined => "NaN"
  | .infinite => if sign then "-Inf" else "+Inf"
  | .zero => if sign then "-0" else "0"
  | .finite b =>
    (if sign then "-" else "") ++ String.ofList b.shortest.text

end JobWeave.Decimal
