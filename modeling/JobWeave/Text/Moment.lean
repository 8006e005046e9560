/-!
# Dates and times

The parts that written dates and times are made of: numbers of two digits, days
of a month, fractions of a second and differences between clocks.
-/

namespace JobWeave.Moment

/-- The number that two digits stand for. -/
def pair? (a b : Char) : Option Nat :=
  if a.isDigit && b.isDigit then some (10 * (a.toNat - 48) + (b.toNat - 48))
    else none

/-- A number of two digits, and the rest. -/
def two? : List Char → Option (Nat × List Char)
  | a :: b :: rest => (pair? a b).map fun n => (n, rest)
  | _ => none

/-- A number of one or two digits, and the rest. -/
def oneOrTwo? : List Char → Option (Nat × List Char)
  | [a] => if a.isDigit then some (a.toNat - 48, []) else none
  | a :: b :: rest =>
    match pair? a b with
    | some n => some (n, rest)
    | none => if a.isDigit then some (a.toNat - 48, b :: rest) else none
  | [] => none

/-- The days of a month. -/
def daysIn (year month : Nat) : Nat :=
  if month = 2 then
    if year % 4 = 0 && (year % 100 != 0 || year % 400 = 0) then 29 else 28
  else if [4, 6, 9, 11].contains month then 30 else 31

/-- A date of the calendar. -/
def isDay (year month day : Nat) : Bool :=
  1 ≤ month && month ≤ 12 && 1 ≤ day && day ≤ daysIn year month

/-- Skips a fraction of a second. -/
def skipFraction (cs : List Char) : List Char :=
  match cs with
  | '.' :: d :: rest | ',' :: d :: rest =>
    if d.isDigit then rest.dropWhile Char.isDigit else cs
  | _ => cs

/-- The difference of a clock from that of the prime meridian. -/
def isZone : List Char → Bool
  | ['Z'] => true
  | [s, a, b, ':', c, d] =>
    (s == '+' || s == '-') && (pair? a b).any (· ≤ 24) &&
      (pair? c d).any (· ≤ 60)
  | _ => false

end JobWeave.Moment
