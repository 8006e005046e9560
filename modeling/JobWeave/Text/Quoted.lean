import JobWeave.Text.Category

/-!
# Quoted text

Text between quotes, on one line: the quote and the backslash are escaped, seven
control characters have a letter of their own, and any other character that
shows nothing is written by its code.  As a rule texts stand between double
quotes and single characters between single ones.
-/

namespace JobWeave.Text

/-- The lower-case digit of a value below sixteen. -/
def hexDigit (n : Nat) : Char :=
  if n < 10 then Char.ofNat (48 + n) else Char.ofNat (87 + n)

/-- The last `width` hexadecimal digits of `n`. -/
def hexDigits : Nat → Nat → List Char
  | 0, _ => []
  | width + 1, n => hexDigits width (n / 16) ++ [hexDigit (n % 16)]

/-- A number in hexadecimal, without leading zeros. -/
def hexNat (n : Nat) : String :=
  String.ofList (Nat.toDigits 16 n)

namespace Quoted

/-- A character written by its code. -/
def escapeCode (n : Nat) : List Char :=
  if n < 128 then '\\' :: 'x' :: hexDigits 2 n
  else if n < 0x10000 then '\\' :: 'u' :: hexDigits 4 n
  else '\\' :: 'U' :: hexDigits 8 n

/-- How a character is written between quotes `mark`.  With `ascii` set every
character above 127 is written by its code. -/
def escapeIn (mark : Char) (ascii : Bool) (c : Char) : List Char :=
  if c = mark || c = '\\' then ['\\', c]
  else if isPrintable c && !(ascii && 128 ≤ c.toNat) then [c]
  else
    match c.toNat with
    | 7 => ['\\', 'a']
    | 8 => ['\\', 'b']
    | 9 => ['\\', 't']
    | 10 => ['\\', 'n']
    | 11 => ['\\', 'v']
    | 12 => ['\\', 'f']
    | 13 => ['\\', 'r']
    | n => escapeCode n

/-- How one character is written between double quotes. -/
def escape (c : Char) : List Char :=
  escapeIn '"' false c

/-- The characters of a text, escaped one by one. -/
def encode (s : List Char) : List Char :=
  s.flatMap escape

/-- A text between backquotes can hold neither them nor controls other than the
tab, nor the byte order mark. -/
def fitsBackquotes (s : List Char) : Bool :=
  s.all fun c =>
    let n := c.toNat
    !((n < 32 && n != 9) || n == 96 || n == 127 || n == 0xfeff)

end Quoted

/-- A text in double quotes. -/
def quote (s : String) : String :=
  String.ofList ('"' :: Quoted.encode s.toList ++ ['"'])

end JobWeave.Text
