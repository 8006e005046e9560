import JobWeave.Decimal.Shortest

/-!
# Reading decimals

A decimal is written as digits, of which a point may stand among them, and may
be followed by an exponent.  `Digits.read?` gives its value exactly, and
`Digits.isHuge` tells whether the nearest number of 64 bits is infinite.
-/

namespace JobWeave.Decimal

/-- A text without its sign. -/
def unsigned : List Char → List Char
  | '+' :: cs | '-' :: cs => cs
  | cs => cs

/-- Only digits, and at least one. -/
def isDigits (cs : List Char) : Bool :=
  !cs.isEmpty && cs.all Char.isDigit

/-- The number that digits stand for. -/
def number (cs : List Char) : Nat :=
  cs.foldl (fun n c => 10 * n + (c.toNat - 48)) 0

namespace Digits

/-- The exponent behind its letter. -/
def readExponent? : List Char → Option Int
  | [] => some 0
  | _ :: '-' :: ds => if isDigits ds then some (-(number ds : Int)) else none
  | _ :: '+' :: ds => if isDigits ds then some (number ds : Int) else none
  | _ :: ds => if isDigits ds then some (number ds : Int) else none

/-- A decimal without regard to its sign.  Digits may be missing on one side of
the point. -/
def read? (cs : List Char) : Option Digits :=
  let cs := unsigned cs
  let mantissa := cs.takeWhile fun c => c != 'e' && c != 'E'
  let whole := mantissa.takeWhile (· != '.')
  let part := mantissa.drop (whole.length + 1)
  if isDigits (whole ++ part) then
    (readExponent? (cs.drop mantissa.length)).map fun e =>
      ⟨number (whole ++ part), e - part.length⟩
  else none

/-- Half a step above the greatest finite number of 64 bits. -/
def bound : Nat :=
  Nat.pow 2 1024 - Nat.pow 2 970

/-- No finite number of 64 bits is nearest.  The number of digits decides unless
it is near that of the bound. -/
def isHuge (d : Digits) : Bool :=
  let places : Int := (Nat.toDigits 10 d.digits).length + d.exponent
  if d.digits = 0 || places < 300 then false
  else if 320 < places then true
  else
    let (up, down) := powFraction 10 d.exponent
    bound * down ≤ d.digits * up

end Digits

end JobWeave.Decimal
