/-!
# Integers in several bases

A numeral may name its base, as `0x`, `0o`, `0b` or a zero in front, and may
have underscores between its digits.

* `Numeral.isSpaced` tells whether underscores stand where they may;
* `Numeral.natural` and `Numeral.integer` read a numeral of 64 bits, or tell
  what is wrong with it (`Numeral.Fault`).
-/

namespace JobWeave.Numeral

/-- What is wrong with a numeral. -/
inductive Fault where
  | malformed
  | outOfRange
  deriving DecidableEq, Repr, Inhabited

/-- The wording of a fault. -/
def Fault.text : Fault → String
  | malformed => "invalid syntax"
  | outOfRange => "value out of range"

/-- The value of a digit; letters go on where digits end. -/
def digit? (c : Char) : Option Nat :=
  if c.isDigit then some (c.toNat - 48)
  else if c.isAlpha then some (c.toLower.toNat - 87)
  else none

/-- The character is a digit of a base. -/
def isDigitOf (base : Nat) (c : Char) : Bool :=
  (digit? c).any (· < base)

/-- Every underscore stands between digits; `behind` tells whether a digit comes
before the text. -/
def isSpaced (base : Nat) (behind : Bool) : List Char → Bool
  | [] => true
  | c :: cs =>
    if c == '_' then behind && cs.head?.any (isDigitOf base) &&
      isSpaced base false cs
    else isSpaced base (isDigitOf base c) cs

/-- The value of digits in front of which others stood for `n`.  Underscores are
passed over.  The first character that is wrong decides. -/
def scan (base : Nat) : List Char → Nat → Except Fault Nat
  | [], n => .ok n
  | c :: cs, n =>
    if c == '_' then scan base cs n
    else if !isDigitOf base c then .error .malformed
    else
      let n := base * n + (digit? c).getD 0
      if n < 0x10000000000000000 then scan base cs n else .error .outOfRange

/-- The base of a numeral, its digits, and whether a letter named the base. -/
def split : List Char → Nat × List Char × Bool
  | '0' :: c :: d :: cs =>
    match c.toLower with
    | 'x' => (16, d :: cs, true)
    | 'o' => (8, d :: cs, true)
    | 'b' => (2, d :: cs, true)
    | _ => (8, '0' :: c :: d :: cs, false)
  | '0' :: cs => (8, '0' :: cs, false)
  | cs => (10, cs, false)

/-- A numeral without a sign. -/
def natural (cs : List Char) : Except Fault Nat := do
  if cs.isEmpty then .error .malformed
  let (base, digits, named) := split cs
  let n ← scan base digits 0
  if isSpaced 16 named digits then .ok n else .error .malformed

/-- An integer of 64 bits from its size and sign. -/
def signed (isNegative : Bool) (n : Nat) : Except Fault Int :=
  if isNegative then
    if n ≤ 0x8000000000000000 then .ok (-n) else .error .outOfRange
  else if n < 0x8000000000000000 then .ok n else .error .outOfRange

/-- A numeral with or without a sign. -/
def integer : List Char → Except Fault Int
  | '+' :: cs => do signed false (← natural cs)
  | '-' :: cs => do signed true (← natural cs)
  | cs => do signed false (← natural cs)

end JobWeave.Numeral
