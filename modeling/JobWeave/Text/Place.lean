import JobWeave.Decimal.Style
import JobWeave.Text.Quoted

/-!
# Places of a template

A place of a message template says how its argument is laid out: flags, a least
width and a precision.  This module writes the four plain kinds of values in a
place, each by the letter of the place: texts, integers, floating-point numbers
and truth values.  A letter that does not go with a kind has no text.
-/

namespace JobWeave.Text

/-- How a place lays out its argument. -/
structure Place where
  /-- the flag `#`: mark the base, quote with backquotes, keep the point -/
  alternate : Bool := false
  /-- the flag `0`: fill with zeros -/
  zeros : Bool := false
  /-- the flag `+`: always show a sign, or quote in ASCII -/
  signed : Bool := false
  /-- the flag `-`: fill on the right -/
  left : Bool := false
  /-- the flag `space`: leave room for a sign, or part the bytes -/
  spaced : Bool := false
  /-- values are shown as expressions -/
  literal : Bool := false
  /-- fields of records are shown with their names -/
  labelled : Bool := false
  /-- the least number of characters -/
  width : Nat := 0
  /-- the precision, if one is asked for -/
  precision : Option Nat := none
  deriving Repr, Inhabited

namespace Place

/-! ## Filling up -/

/-- What fills `n` missing characters; zeros go to the left only. -/
def fill (p : Place) (n : Nat) : List Char :=
  List.replicate n (if p.zeros && !p.left then '0' else ' ')

/-- A text filled up to the width. -/
def pad (p : Place) (s : List Char) : List Char :=
  let missing := p.fill (p.width - s.length)
  if p.left then s ++ missing else missing ++ s

/-- A text filled up with blanks whatever the flags say. -/
def padBlank (p : Place) (s : List Char) : List Char :=
  { p with zeros := false }.pad s

/-! ## Texts -/

/-- The characters that the precision admits. -/
def cut (p : Place) (s : List Char) : List Char :=
  (p.precision.map s.take).getD s

/-- A text as it is. -/
def plain (p : Place) (s : List Char) : List Char :=
  p.pad (p.cut s)

/-- A quoted text. -/
def quoted (p : Place) (s : List Char) : List Char :=
  let s := p.cut s
  if p.alternate && Quoted.fitsBackquotes s then
    p.pad ('\x60' :: s ++ ['\x60'])
  else p.pad ('"' :: s.flatMap (Quoted.escapeIn '"' p.signed) ++ ['"'])

/-- The bytes of a text in hexadecimal; here the precision counts bytes. -/
def bytes (p : Place) (upper : Bool) (s : List Char) : List Char :=
  let bs := (String.ofList s).toUTF8.toList
  let bs := (p.precision.map bs.take).getD bs
  let mark := if p.alternate then ['0', 'x'] else []
  let digits := bs.map fun b => hexDigits 2 b.toNat
  let text :=
    if p.spaced then List.intercalate [' '] (digits.map (mark ++ ·))
    else mark ++ digits.flatten
  let text := if bs.isEmpty then [] else text
  p.pad (if upper then text.map Char.toUpper else text)

/-- A text in a place of the given letter. -/
def text? (p : Place) (letter : Char) (s : List Char) : Option (List Char) :=
  match letter with
  | 'v' => some (if p.literal then p.quoted s else p.plain s)
  | 's' => some (p.plain s)
  | 'x' => some (p.bytes false s)
  | 'X' => some (p.bytes true s)
  | 'q' => some (p.quoted s)
  | _ => none

/-- A truth value in a place of the given letter. -/
def flag? (p : Place) (letter : Char) (b : Bool) : Option (List Char) :=
  if letter = 't' || letter = 'v' then
    some (p.pad (if b then "true" else "false").toList)
  else none

/-! ## Integers -/

/-- What marks the base of digits: an octal number is marked by a leading zero
and only if it has none. -/
def baseMark (p : Place) (base : Nat) (digits : List Char) : List Char :=
  if !p.alternate then []
  else
    match base with
    | 2 => ['0', 'b']
    | 8 => if digits.head? == some '0' then [] else ['0']
    | 16 => ['0', 'x']
    | _ => []

/-- An integer in a base.  The precision is the least number of digits; zero
digits asked for of the number zero leave nothing but blanks. -/
def inBase (p : Place) (base : Nat) (letter : Char) (n : Int) : List Char :=
  if p.precision == some 0 && n == 0 then p.padBlank []
  else
    let sign :=
      if n < 0 then ['-'] else if p.signed then ['+']
      else if p.spaced then [' '] else []
    let least :=
      match p.precision with
      | some k => k
      | none => if p.zeros && !p.left then p.width - sign.length else 0
    let digits := Nat.toDigits base n.natAbs
    let digits := List.replicate (least - digits.length) '0' ++ digits
    let mark := p.baseMark base digits
    let mark := if letter = 'O' then '0' :: 'o' :: mark else mark
    p.padBlank (sign ++ mark ++ digits)

/-- The code point of an integer of 64 bits. -/
def codeOf (n : Int) : Nat :=
  (n % 0x10000000000000000).toNat

/-- The character of an integer, or the replacement character if there is
none. -/
def charOf (n : Int) : Char :=
  let code := codeOf n
  if code.isValidChar then Char.ofNat code else Char.ofNat 0xfffd

/-- A code point by its number, followed by the character itself if asked for
and if it shows. -/
def codePoint (p : Place) (n : Int) : List Char :=
  let code := codeOf n
  let digits := (Nat.toDigits 16 code).map Char.toUpper
  let least := max 4 (p.precision.getD 4)
  let c := charOf n
  let shown :=
    if p.alternate && c.toNat = code && isPrintable c then [' ', '\x27',
      c, '\x27']
    else []
  p.padBlank ('U' :: '+' ::
    List.replicate (least - digits.length) '0' ++ digits ++ shown)

/-- An integer in a place of the given letter. -/
def integer? (p : Place) (letter : Char) (n : Int) : Option (List Char) :=
  match letter with
  | 'v' | 'd' => some (p.inBase 10 letter n)
  | 'b' => some (p.inBase 2 letter n)
  | 'o' | 'O' => some (p.inBase 8 letter n)
  | 'x' => some (p.inBase 16 letter n)
  | 'X' => some ((p.inBase 16 letter n).map Char.toUpper)
  | 'c' => some (p.pad [charOf n])
  | 'q' =>
    some (p.pad ('\x27' :: Quoted.escapeIn '\x27' p.signed (charOf n) ++
      ['\x27']))
  | 'U' => some (p.codePoint n)
  | _ => none

/-- A number in hexadecimal with its base marked. -/
def marked (p : Place) (n : Nat) : List Char :=
  { p with alternate := true }.inBase 16 'v' n

/-- An integer that is never negative, in a place of the given letter; as an
expression it is hexadecimal. -/
def word? (p : Place) (letter : Char) (n : Nat) : Option (List Char) :=
  if letter = 'v' && p.literal then some (p.marked n) else p.integer? letter n

/-! ## Floating-point numbers -/

/-- Digits and a tail as the scan for significant digits leaves them. -/
structure Significant where
  /-- what stands before the exponent -/
  front : List Char := []
  /-- the exponent -/
  tail : List Char := []
  /-- the digits that are still missing -/
  missing : Int
  /-- there is a point -/
  pointed : Bool := false
  /-- a digit other than zero was seen -/
  started : Bool := false

/-- Counts the characters from the first that is not a zero up to the
exponent. -/
def Significant.scan (hexadecimal : Bool) : List Char → Significant →
    Significant
  | [], s => { s with front := s.front.reverse }
  | c :: rest, s =>
    if c = '.' then
      scan hexadecimal rest { s with front := c :: s.front, pointed := true }
    else if c = 'p' || c = 'P' || (!hexadecimal && (c = 'e' || c = 'E')) then
      { s with front := s.front.reverse, tail := c :: rest }
    else
      let started := s.started || c != '0'
      scan hexadecimal rest
        { s with
          front := c :: s.front, started,
          missing := if started then s.missing - 1 else s.missing }

/-- A number without its sign that keeps its point, and in the styles that drop
zeros at the end also those. -/
def withPoint (p : Place) (letter : Char) (digits : List Char) : List Char :=
  let asked : Int :=
    if letter ∈ ['g', 'G', 'x'] then (p.precision.map Int.ofNat).getD 6 else 0
  let s := Significant.scan (letter = 'x' || letter = 'X') digits
    { missing := asked }
  let missing := if !s.pointed && s.front == ['0'] then s.missing - 1
    else s.missing
  s.front ++ (if s.pointed then [] else ['.']) ++
    List.replicate missing.toNat '0' ++ s.tail

/-- A floating-point number in the style of a letter.  Infinite and undefined
numbers are never filled with zeros. -/
def real (p : Place) (f : Decimal.Format) (letter : Char) (places : Option Nat)
    (bits : Nat) : List Char :=
  let places := if p.precision.isSome then p.precision else places
  let text := f.written letter places bits
  let (sign, digits) :=
    match text with
    | '-' :: rest => ('-', rest)
    | '+' :: rest => ('+', rest)
    | _ => ('+', text)
  let sign := if p.spaced && sign = '+' && !p.signed then ' ' else sign
  match f.magnitude bits with
  | .undefined =>
    p.padBlank (if p.spaced || p.signed then sign :: digits else digits)
  | m =>
    let infinite := match m with | .infinite => true | _ => false
    if infinite then p.padBlank (sign :: digits)
    else
      let digits :=
        if p.alternate && letter != 'b' then p.withPoint letter digits
          else digits
      if p.signed || sign != '+' then
        if p.zeros && !p.left then sign :: { p with width := p.width - 1 }.pad
          digits
        else p.pad (sign :: digits)
      else p.pad digits

/-- A floating-point number in a place of the given letter. -/
def real? (p : Place) (f : Decimal.Format) (letter : Char) (bits : Nat) :
    Option (List Char) :=
  match letter with
  | 'v' => some (p.real f 'g' none bits)
  | 'b' | 'g' | 'G' | 'x' | 'X' => some (p.real f letter none bits)
  | 'e' | 'E' | 'f' => some (p.real f letter (some 6) bits)
  | 'F' => some (p.real f 'f' (some 6) bits)
  | _ => none

end Place

end JobWeave.Text
