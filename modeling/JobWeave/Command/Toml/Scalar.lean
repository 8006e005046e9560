import JobWeave.Command.Toml.Text
import JobWeave.Decimal.Read
import JobWeave.Text.Moment
import JobWeave.Text.Numeral

/-!
# Numbers, moments and words of TOML

* `integer?` reads integers of 64 bits, decimal with a sign or in another base
  without one;
* `isFraction` recognises numbers with a point or an exponent, which must lie in
  the range of 64 bits;
* `isMoment` recognises dates, times and both together;
* `scalar` tells them apart.

Underscores may stand between digits, and a decimal begins with a zero only if
that is its whole part.
-/

namespace JobWeave.Toml

open Decimal

/-- A value that holds no other one. -/
inductive Scalar where
  | text (s : String)
  | int (n : Int)
  | flag (b : Bool)
  /-- a fraction, a date or a time -/
  | other
  deriving DecidableEq, Repr, Inhabited

/-! ## Numbers -/

/-- A zero in front of other digits. -/
def isPadded : List Char → Bool
  | '0' :: _ :: _ => true
  | _ => false

/-- An integer of 64 bits from its sign and the digits of its size. -/
def integerOf? (base : Nat) (isNegative : Bool) (digits : List Char) :
    Option Int :=
  if digits.isEmpty || !Numeral.isSpaced 16 false digits then none
  else do
    let n ← (Numeral.scan base digits 0).toOption
    (Numeral.signed isNegative n).toOption

/-- A decimal integer. -/
def integer? (cs : List Char) : Option Int :=
  if isPadded (unsigned cs) then none
  else integerOf? 10 (cs.head? == some '-') (unsigned cs)

/-- Every point stands in front of a digit. -/
def hasGoodPoints : List Char → Bool
  | [] => true
  | c :: cs => (c != '.' || cs.head?.any Char.isDigit) && hasGoodPoints cs

/-- The character ends the whole part of a number. -/
def endsWhole (c : Char) : Bool :=
  c == '.' || c == 'e' || c == 'E'

/-- A number with a point or an exponent. -/
def isFraction (cs : List Char) : Bool :=
  Numeral.isSpaced 10 false cs &&
    !isPadded ((unsigned cs).takeWhile (!endsWhole ·)) &&
    hasGoodPoints cs && (Digits.read? (cs.filter (· != '_'))).any (!·.isHuge)

/-- A decimal number, with or without a sign. -/
def decimal (cs : List Char) : Option (Scalar × List Char) :=
  let sign := cs.take (cs.length - (unsigned cs).length)
  let whole := sign ++ (unsigned cs).takeWhile fun c => c.isDigit || c == '_'
  let rest := cs.drop whole.length
  if rest.head?.any endsWhole then
    let run := cs.takeWhile fun c => c.isDigit || "_.+-eE".toList.contains c
    if isFraction run then some (.other, cs.drop run.length) else none
  else (integer? whole).map fun n => (.int n, rest)

/-- An integer of another base, behind the letter of the base. -/
def based (base : Nat) (cs : List Char) : Option (Scalar × List Char) :=
  let run := cs.takeWhile fun c => c == '_' || Numeral.isDigitOf base c
  (integerOf? base false run).map fun n => (.int n, cs.drop run.length)

/-! ## Moments -/

/-- A date, and the rest. -/
def date? : List Char → Option (List Char)
  | a :: b :: c :: d :: '-' :: cs => do
    let century ← Moment.pair? a b
    let year ← Moment.pair? c d
    let (month, cs) ← Moment.two? cs
    match cs with
    | '-' :: cs =>
      let (day, cs) ← Moment.two? cs
      if Moment.isDay (100 * century + year) month day then some cs else none
    | _ => none
  | _ => none

/-- A number of two digits below a bound, and the rest. -/
def below? (bound : Nat) (cs : List Char) : Option (List Char) := do
  let (n, cs) ← Moment.two? cs
  if n < bound then some cs else none

/-- A time of day with or without seconds, and the rest. -/
def time? (cs : List Char) : Option (List Char) := do
  match ← below? 24 cs with
  | ':' :: cs =>
    match ← below? 60 cs with
    | ':' :: cs => (below? 60 cs).map Moment.skipFraction
    | cs => some cs
  | _ => none

/-- A date, a time or both; the difference of the clock may follow both.  A
space divides them as well as a letter does, and letters may be small. -/
def isMoment (cs : List Char) : Bool :=
  let cs := cs.map fun c =>
    if c == 't' || c == ' ' then 'T' else if c == 'z' then 'Z' else c
  match date? cs with
  | some [] => true
  | some ('T' :: time) => (time? time).any fun r => r.isEmpty || Moment.isZone r
  | some _ => false
  | none => time? cs == some []

/-- A moment, with the spaces behind it. -/
def moment (cs : List Char) : Option (Scalar × List Char) :=
  let run := cs.takeWhile fun c => c.isDigit || "-:Tt .Zz+".toList.contains c
  let body := (run.reverse.dropWhile (· == ' ')).reverse
  if isMoment body then some (.other, cs.drop run.length) else none

/-! ## All of them -/

/-- A word in front of the rest. -/
def word? (w : String) (cs : List Char) : Option (List Char) :=
  if w.toList.isPrefixOf cs then some (cs.drop w.length) else none

/-- What is no number: infinity or no number at all. -/
def special (cs : List Char) : Option (Scalar × List Char) :=
  ((word? "inf" cs).or (word? "nan" cs)).map fun rest => (.other, rest)

/-- A truth value. -/
def flag (cs : List Char) : Option (Scalar × List Char) :=
  ((word? "true" cs).map fun rest => (.flag true, rest)).or
    ((word? "false" cs).map fun rest => (.flag false, rest))

/-- A number, a moment or a word. -/
def scalar (cs : List Char) : Option (Scalar × List Char) :=
  match cs with
  | '0' :: 'x' :: cs => based 16 cs
  | '0' :: 'o' :: cs => based 8 cs
  | '0' :: 'b' :: cs => based 2 cs
  | c :: rest =>
    if c == '+' || c == '-' then
      (special rest).or (if rest.head?.any Char.isDigit then decimal cs
        else none)
    else if c.isDigit then
      match (cs.dropWhile Char.isDigit).head? with
      | some '-' | some ':' => moment cs
      | _ => decimal cs
    else (special cs).or (flag cs)
  | [] => none

end JobWeave.Toml
