import JobWeave.Decimal.Read
import JobWeave.Document.Json
import JobWeave.Text.Moment
import JobWeave.Text.Numeral
import JobWeave.Text.Quoted

/-!
# YAML text

Block style with two spaces a level.  A text is written plain unless a reader
would take it for something else:

* a text that reads as null, a truth value, a number or a date is put in double
  quotes (`Yaml.isAmbiguous`);
* one that holds an indicator where it counts is put in single quotes;
* one with line breaks becomes a literal block;
* one with characters that do not print is put in double quotes with escapes.
-/

namespace JobWeave

namespace Yaml

open Decimal

/-! ## Texts that read as something else -/

/-- Digits of a base of at most 64 bits, with or without a sign. -/
def isBased (base : Nat) (cs : List Char) : Bool :=
  let digits := unsigned cs
  let value : Except Numeral.Fault Int := do
    let n ← Numeral.scan base digits 0
    if digits.length = cs.length then return n
    Numeral.signed (cs.head? == some '-') n
  !digits.isEmpty && value.toOption.isSome

/-- The text is an integer of 64 bits.  Behind the letter of a base, a sign may
stand instead of one in front. -/
def isInteger (cs : List Char) : Bool :=
  (Numeral.natural cs).toOption.isSome ||
    (Numeral.integer cs).toOption.isSome || match cs with
    | '0' :: 'b' :: ds => isBased 2 ds
    | '0' :: 'o' :: ds => isBased 8 ds
    | _ => false

/-- The text is a decimal that some number is nearest to. -/
def isFraction (cs : List Char) : Bool :=
  (Digits.read? cs).any (!·.isHuge)

/-- The text is a sum of sixtieths, as clocks write it. -/
def isSexagesimal (cs : List Char) : Bool :=
  let whole := (unsigned cs).takeWhile (· != '.')
  match (String.ofList whole).splitOn ":" with
  | first :: rest@(_ :: _) =>
    (first.toList.head?.map Char.isDigit).getD false &&
      first.toList.all (fun c => c.isDigit || c == '_') &&
      rest.all (fun p => match p.toList with
        | [c] => c.isDigit
        | [d, c] => '0' ≤ d && d ≤ '5' && c.isDigit
        | _ => false) &&
      ((unsigned cs).drop (whole.length + 1)).all
        (fun c => c.isDigit || c == '_')
  | _ => false

/-- A short number below a bound, and what stands behind the character after
it. -/
def field (bound : Nat) (mark : Char) (cs : List Char) :
    Option (Nat × List Char) := do
  let (n, rest) ← Moment.oneOrTwo? cs
  match rest with
  | c :: rest => if c == mark && n < bound then some (n, rest) else none
  | [] => none

/-- A time of day with or without a fraction of a second, and the rest. -/
def clock (cs : List Char) : Option (List Char) := do
  let (_, cs) ← field 24 ':' cs
  let (_, cs) ← field 60 ':' cs
  let (second, cs) ← Moment.oneOrTwo? cs
  if 60 ≤ second then none else some (Moment.skipFraction cs)

/-- The text is a calendar date, with or without a time of day. -/
def isDate (cs : List Char) : Bool :=
  let year := cs.takeWhile Char.isDigit
  let date : Option (Nat × Nat × List Char) := do
    match cs.drop year.length with
    | '-' :: rest =>
      let (month, rest) ← field 13 '-' rest
      let (day, rest) ← Moment.oneOrTwo? rest
      return (month, day, rest)
    | _ => none
  match date with
  | none => false
  | some (month, day, rest) =>
    year.length = 4 && Moment.isDay (number year) month day &&
      match rest with
      | [] => true
      | 'T' :: time | 't' :: time => (clock time).any Moment.isZone
      | ' ' :: time => clock (time.dropWhile (· == ' ')) == some []
      | _ => false

/-- Words that stand for null, a truth value or a special number. -/
def words : List String :=
  ["", "~", "null", "Null", "NULL", "true", "True", "TRUE", "false", "False",
   "FALSE", "y", "Y", "yes", "Yes", "YES", "on", "On", "ON", "n", "N",
   "no", "No", "NO", "off", "Off", "OFF", ".nan", ".NaN", ".NAN", ".inf",
   ".Inf", ".INF", "+.inf", "+.Inf", "+.INF", "-.inf", "-.Inf", "-.INF"]

/-- A reader would take the plain text for something else than a text. -/
def isAmbiguous (s : String) : Bool :=
  let cs := s.toList
  let bare := cs.filter (· != '_')
  words.contains s || isSexagesimal cs ||
    match cs with
    | '.' :: _ => Numeral.isSpaced 10 false cs && isFraction bare
    | c :: _ =>
      (c.isDigit || c == '+' || c == '-') &&
        (isInteger bare || isFraction bare || isDate cs)
    | [] => false

/-! ## What a text allows -/

/-- The character ends a line. -/
def isBreak (c : Char) : Bool :=
  c == '\n' || c == '\r' || [0x85, 0x2028, 0x2029].contains c.toNat

/-- The character can be written as it is. -/
def isPlainPrintable (c : Char) : Bool :=
  let n := c.toNat
  n = 10 || (0x20 ≤ n && n ≤ 0x7e) || (0xa0 ≤ n && n < 0x10000 &&
    n != 0xfeff && n != 0xfffe && n != 0xffff)

/-- The character is blank or the text ends there. -/
def isBlankOrEnd : Option Char → Bool
  | some c => c == ' ' || c == '\t' || isBreak c
  | none => true

/-- The first character starts something else than a plain text. -/
def startsIndicator : List Char → Bool
  | '-' :: '-' :: '-' :: _ | '.' :: '.' :: '.' :: _ => true
  | c :: cs =>
    if c == '?' || c == ':' || c == '-' then isBlankOrEnd cs.head?
    else "#,[]\x7b\x7d&*!|>'\"%@`".toList.contains c
  | [] => false

/-- Some later character ends a plain text. -/
def holdsIndicator : List Char → Bool
  | c :: d :: cs =>
    (d == ':' && isBlankOrEnd cs.head?) ||
      (d == '#' && isBlankOrEnd (some c)) || holdsIndicator (d :: cs)
  | _ => false

/-- Two neighbours satisfy the tests. -/
def hasPair (p q : Char → Bool) : List Char → Bool
  | c :: d :: cs => (p c && q d) || hasPair p q (d :: cs)
  | _ => false

/-- The text begins or ends with a character. -/
def hasEdge (p : Char → Bool) (cs : List Char) : Bool :=
  (cs.head?.map p).getD false || (cs.getLast?.map p).getD false

/-- A space. -/
def isSpace (c : Char) : Bool :=
  c == ' '

/-- The text holds a character that must be escaped. -/
def isSpecial (cs : List Char) : Bool :=
  cs.any fun c => c != '\t' && !isPlainPrintable c

/-- The text may be written plain. -/
def allowsPlain (cs : List Char) : Bool :=
  !(hasEdge (fun c => isSpace c || isBreak c) cs || cs.any isBreak ||
    cs.contains '\t' || isSpecial cs || startsIndicator cs || holdsIndicator cs)

/-- The text may stand in single quotes. -/
def allowsSingle (cs : List Char) : Bool :=
  !(hasPair isBreak isSpace cs || hasPair isSpace isBreak cs ||
    cs.contains '\t' || isSpecial cs)

/-- The text may be a literal block. -/
def allowsBlock (cs : List Char) : Bool :=
  !((cs.getLast?.map isSpace).getD false || hasPair isSpace isBreak cs ||
    isSpecial cs)

/-! ## Writing -/

/-- How one character is written between double quotes. -/
def escape (c : Char) : List Char :=
  let hex := fun (width : Nat) =>
    (Text.hexDigits width c.toNat).map Char.toUpper
  let letter : Option Char :=
    ([(0, '0'), (7, 'a'), (8, 'b'), (9, 't'), (10, 'n'), (11, 'v'), (12, 'f'),
      (13, 'r'), (0x1b, 'e'), (0x22, '"'), (0x5c, '\\'), (0x85, 'N'),
      (0xa0, '_'), (0x2028, 'L'), (0x2029, 'P')].find? (·.1 == c.toNat)).map
        (·.2)
  if isPlainPrintable c && !isBreak c && c != '"' && c != '\\' then [c]
  else
    match letter with
    | some l => ['\\', l]
    | none =>
      if c.toNat < 0x100 then '\\' :: 'x' :: hex 2
      else if c.toNat < 0x10000 then '\\' :: 'u' :: hex 4
      else '\\' :: 'U' :: hex 8

/-- Spaces. -/
def spaces (n : Nat) : String :=
  String.ofList (List.replicate n ' ')

/-- Where the next character of a block stands. -/
inductive Column where
  /-- behind the mark of the block -/
  | mark
  /-- at the start of a line -/
  | start
  /-- behind other characters of its line -/
  | inside
  deriving DecidableEq, Repr, Inhabited

/-- The characters of a block, each line of which is indented. -/
def blockText (indent : Nat) : Column → List Char → List Char
  | _, [] => []
  | column, c :: cs =>
    if isBreak c then c :: blockText indent .start cs
    else
      let gap := List.replicate indent ' '
      (match column with
        | .mark => '\n' :: gap
        | .start => gap
        | .inside => []) ++ c :: blockText indent .inside cs

/-- How a block ends: without a break, with one, or with more. -/
def chomping (cs : List Char) : String :=
  match cs.reverse with
  | [] => "-"
  | c :: before =>
    if !isBreak c then "-" else if before.head?.all isBreak then "+" else ""

/-- A literal block at an indentation.  Its mark tells whether it begins with a
blank, and how it ends. -/
def literal (indent : Nat) (cs : List Char) : String :=
  let hint := if cs.head?.any fun c => isSpace c || isBreak c then "2" else ""
  "|" ++ hint ++ chomping cs ++ String.ofList (blockText indent .mark cs)

/-- The characters of a text in single quotes: quotes are doubled, and what
follows a break is indented. -/
def singleText (indent : Nat) : Bool → List Char → List Char
  | _, [] => []
  | broken, c :: cs =>
    if isBreak c then c :: singleText indent true cs
    else
      (if broken then List.replicate indent ' ' else []) ++
        (if c == '\'' then ['\'', '\''] else [c]) ++ singleText indent false cs

/-- A text at an indentation. -/
def scalar (indent : Nat) (s : String) : String :=
  let cs := s.toList
  let double := String.ofList ('"' :: cs.flatMap escape ++ ['"'])
  if s.contains '\n' then
    if allowsBlock cs then literal indent cs else double
  else if isAmbiguous s then double
  else if allowsPlain cs then s
  else if allowsSingle cs then "'" ++ String.ofList
    (singleText indent false cs) ++ "'"
  else double

/-- The value takes lines of its own. -/
def isBlock : Json → Bool
  | .arr xs => !xs.isEmpty
  | .obj fs => !fs.isEmpty
  | _ => false

/-- A text that ends with a break. -/
def ended (s : String) : String :=
  if s.toList.getLast?.any isBreak then s else s ++ "\n"

/-- Parts one below the other. -/
def stacked (indent : Nat) (empty : String) : List String → String
  | [] => empty
  | [part] => part
  | part :: parts => ended part ++ spaces indent ++ stacked indent empty parts

mutual

/-- A value that starts at an indentation. -/
def valueAt (indent : Nat) : Json → String
  | .null => "null"
  | .bool b => if b then "true" else "false"
  | .int n => toString n
  | .str s => scalar indent s
  | .arr xs => stacked indent "[]" (items indent xs)
  | .obj fs => stacked indent "\x7b\x7d" (entries indent fs)

/-- The elements of a list, each behind its mark. -/
def items (indent : Nat) : List Json → List String
  | [] => []
  | x :: xs => ("- " ++ valueAt (indent + 2) x) :: items indent xs

/-- The fields of an object, each behind its name. -/
def entries (indent : Nat) : List (String × Json) → List String
  | [] => []
  | (k, v) :: fs =>
    let text := valueAt (indent + 2) v
    let gap := if isBlock v then "\n" ++ spaces (indent + 2) else " "
    (k ++ ":" ++ gap ++ text) :: entries indent fs

end

end Yaml

/-- A document as YAML text. -/
def Json.yaml (j : Json) : String :=
  Yaml.ended (Yaml.valueAt 0 j)

end JobWeave
