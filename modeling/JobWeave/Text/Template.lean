import JobWeave.Text.Place

/-!
# Message templates

A template is a text with places for arguments.  A place is a percent sign,
flags, a width, a precision and a letter: `v` shows any argument, `d` an
integer, `s` a text, `q` a quoted text, `t` a flag, `x` hexadecimal digits, `T`
the kind of the argument, and so on.  Width and precision may be arguments
themselves, written as a star, and each of the three may be preceded by the
position of its argument in brackets.  Two percent signs stand for one.

Filling never fails: a place that cannot be filled, and an argument that no
place takes, leave a mark in the text.

* `Arg` is a value that a place can show;
* `Template.fill` fills the places.
-/

namespace JobWeave.Text

/-- What a value says of itself. -/
inductive Speech where
  /-- it has no text of its own -/
  | silent
  /-- it has a text -/
  | tells (s : String)
  /-- it ought to have a text, and finding it goes wrong -/
  | fails
  deriving Repr, Inhabited

/-- What a value says that tells its name. -/
def Speech.ofName (name? : Option String) : Speech :=
  name?.elim .fails .tells

/-- An argument of a template. -/
inductive Arg where
  /-- no value -/
  | nothing
  /-- a text -/
  | text (s : String)
  /-- an integer and the name of its kind -/
  | number (kind : String) (n : Int)
  /-- an integer that is never negative -/
  | word (kind : String) (n : Nat)
  /-- a truth value -/
  | flag (b : Bool)
  /-- a floating-point number, as its bits -/
  | real (kind : String) (format : Decimal.Format) (bits : Nat)
  /-- a list of values; one that was never made is empty too -/
  | sequence (kind : String) (made : Bool) (items : List Arg)
  /-- a record with named fields -/
  | record (kind : String) (speech : Speech) (fields : List (String × Arg))
  /-- a place for a record that holds none -/
  | vacant (kind : String) (speech : Speech)
  deriving Repr, Inhabited

namespace Arg

/-- The name of the argument's kind. -/
def kind : Arg → String
  | nothing => "<nil>"
  | text _ => "string"
  | flag _ => "bool"
  | number k _ | word k _ | real k _ _ => k
  | sequence k _ _ | record k _ _ | vacant k _ => k

/-! ## Parts of the text -/

/-- The text of no value. -/
def nothingText : String := "<nil>"

/-- Where a record lies is not known, so every record is shown at one place. -/
def address : Nat := 0xc000000000

/-- The argument as one of the four plain kinds. -/
def plain? (p : Place) (letter : Char) : Arg → Option (List Char)
  | text s => p.text? letter s.toList
  | number _ n => p.integer? letter n
  | word _ n => p.word? letter n
  | flag b => p.flag? letter b
  | real _ f bits => p.real? f letter bits
  | _ => none

/-- Where a record lies, in a place of the given letter. -/
def whereabouts? (p : Place) (kind : String) (letter : Char) (at_ : Nat) :
    Option (List Char) :=
  match letter with
  | 'v' =>
    if p.literal then
      let inner := if at_ = 0 then "nil".toList else p.marked at_
      some (("(" ++ kind ++ ")(").toList ++ inner ++ [')'])
    else if at_ = 0 then some (p.pad nothingText.toList)
    else some ({ p with alternate := !p.alternate }.inBase 16 'v' at_)
  | 'p' => some ({ p with alternate := !p.alternate }.inBase 16 'v' at_)
  | 'b' | 'o' | 'd' | 'x' | 'X' => p.integer? letter at_
  | _ => none

/-- The parts of a list between brackets, or of an expression between braces. -/
def enclosed (p : Place) (kind : String) (made : Bool) (parts : List String) :
    String :=
  if !p.literal then "[" ++ " ".intercalate parts ++ "]"
  else if !made then kind ++ "(nil)"
  else kind ++ "\x7b" ++ ", ".intercalate parts ++ "\x7d"

/-- The fields of a record between braces. -/
def gathered (p : Place) (kind : String) (parts : List (String × String)) :
    String :=
  let shown := parts.map fun (n, s) =>
    if p.labelled || p.literal then n ++ ":" ++ s else s
  "&" ++ (if p.literal then (kind.drop 1).toString else "") ++ "\x7b" ++
    (if p.literal then ", " else " ").intercalate shown ++ "\x7d"

/-- A field that holds no value. -/
def emptyField (p : Place) : String :=
  if p.literal then "interface \x7b\x7d(nil)" else nothingText

/-! ## Marks -/

mutual

/-- The argument inside a mark: records show their fields and not what they say
of themselves.  A record inside another one only shows where it lies. -/
def bare (p : Place) (inside : Bool) : Arg → String
  | nothing => emptyField p
  | sequence k made items => enclosed p k made (bareAll p items)
  | record k _ fields =>
    if inside then String.ofList ((whereabouts? p k 'v' address).getD [])
    else gathered p k (bareFields p fields)
  | vacant k _ => String.ofList ((whereabouts? p k 'v' 0).getD [])
  | a => String.ofList ((plain? p 'v' a).getD [])

/-- The items of a list inside a mark. -/
def bareAll (p : Place) : List Arg → List String
  | [] => []
  | a :: rest => bare p true a :: bareAll p rest

/-- The fields of a record inside a mark. -/
def bareFields (p : Place) : List (String × Arg) → List (String × String)
  | [] => []
  | (n, a) :: rest => (n, bare p true a) :: bareFields p rest

end

/-- Kind and value, as the marks show them. -/
def described (p : Place) (a : Arg) : String :=
  match a with
  | nothing => nothingText
  | a => a.kind ++ "=" ++ bare p false a

/-- The mark of an argument that does not fit its place. -/
def misfit (p : Place) (letter : Char) (a : Arg) : String :=
  "%!" ++ letter.toString ++ "(" ++ a.described p ++ ")"

/-- The mark of a record that cannot tell its text. -/
def broken (letter : Char) : String :=
  "%!" ++ letter.toString ++ "(PANIC=String method: runtime error: " ++
    "invalid memory address or nil pointer dereference)"

/-! ## Places -/

/-- The letters at which a record speaks for itself. -/
def speaksAt (p : Place) (letter : Char) : Bool :=
  letter ∈ ['v', 's', 'x', 'X', 'q'] && !p.literal

/-- What a record says in a place of the given letter, if it speaks there. -/
def spoken? (p : Place) (letter : Char) (isVacant : Bool) (s : Speech) :
    Option String :=
  if !speaksAt p letter then none
  else
    match s with
    | .silent => none
    | .tells t => (p.text? letter t.toList).map String.ofList
    | .fails => some (if isVacant then nothingText else broken letter)

mutual

/-- The argument in a place of the given letter, on its own or inside
another. -/
def shown (p : Place) (letter : Char) (inside : Bool) (a : Arg) : String :=
  match a with
  | nothing => emptyField p
  | sequence k made items =>
    if letter = 'w' then a.misfit p letter
    else enclosed p k made (shownAll p letter items)
  | record k speech fields =>
    if letter = 'w' then a.misfit p letter
    else
      match spoken? p letter false speech with
      | some s => s
      | none =>
        if inside then
          (whereabouts? p k letter address).elim (a.misfit p letter)
            String.ofList
        else gathered p k (shownFields p letter fields)
  | vacant k speech =>
    if letter = 'w' then a.misfit p letter
    else
      match spoken? p letter true speech with
      | some s => s
      | none =>
        (whereabouts? p k letter 0).elim (a.misfit p letter) String.ofList
  | a => (plain? p letter a).elim (a.misfit p letter) String.ofList

/-- The items of a list in a place of the given letter. -/
def shownAll (p : Place) (letter : Char) : List Arg → List String
  | [] => []
  | a :: rest => shown p letter true a :: shownAll p letter rest

/-- The fields of a record in a place of the given letter. -/
def shownFields (p : Place) (letter : Char) :
    List (String × Arg) → List (String × String)
  | [] => []
  | (n, a) :: rest => (n, shown p letter true a) :: shownFields p letter rest

end

/-- The argument in a place of the given letter. -/
def inPlace (p : Place) (letter : Char) (a : Arg) : String :=
  let lies := fun n =>
    (whereabouts? p a.kind 'p' n).elim (a.misfit p letter) String.ofList
  match letter, a with
  | 'T', nothing | 'v', nothing => String.ofList (p.pad nothingText.toList)
  | letter, nothing => nothing.misfit p letter
  | 'T', a => String.ofList (p.plain a.kind.toList)
  | 'p', sequence .. | 'p', record .. => lies address
  | 'p', vacant .. => lies 0
  | letter, a => a.shown p letter false

/-- The argument as a message shows it where nothing else is asked for. -/
def display (a : Arg) : String :=
  a.inPlace {} 'v'

/-- The argument as an integer that can be a width or a precision. -/
def measure? : Arg → Option Int
  | number _ n => if n.natAbs ≤ 1000000 then some n else none
  | word _ n => if n ≤ 1000000 then some n else none
  | _ => none

end Arg

namespace Template

/-- Where a template's next place takes its argument from. -/
structure Cursor where
  /-- what is left of the template -/
  rest : List Char
  /-- the number of the next argument -/
  next : Nat := 0
  /-- a place has named its argument by position -/
  reordered : Bool := false
  /-- the positions named by the present place all exist -/
  good : Bool := true
  /-- the last thing read was a position -/
  positioned : Bool := false
  deriving Repr

/-- Reads decimal digits.  A number beyond a million that still goes on is none,
and takes the rest of the text with it. -/
def number (cs : List Char) : Option Nat × List Char :=
  go none cs
where
  /-- Reads on behind the digits read so far. -/
  go (seen : Option Nat) : List Char → Option Nat × List Char
    | [] => (seen, [])
    | c :: rest =>
      if !c.isDigit then (seen, c :: rest)
      else if 1000000 < seen.getD 0 then (none, [])
      else go (some (seen.getD 0 * 10 + (c.toNat - 48))) rest

/-- Reads the position of an argument in brackets, if one is next.  A bracket
that is not closed is dropped. -/
def Cursor.position (c : Cursor) (count : Nat) : Cursor :=
  match c.rest with
  | '[' :: inner =>
    let c := { c with reordered := true, positioned := false }
    let digits := inner.takeWhile (· != ']')
    if inner == [']'] || digits.length = inner.length then
      { c with rest := inner, good := false }
    else
      let c := { c with rest := inner.drop (digits.length + 1) }
      match number digits with
      | (some n, []) =>
        if 0 < n && n ≤ count then { c with next := n - 1, positioned := true }
        else { c with good := false, positioned := true }
      | _ => { c with good := false }
  | _ => { c with positioned := false }

/-- Takes the next argument as a width or a precision. -/
def Cursor.measure (c : Cursor) (args : List Arg) : Option Int × Cursor :=
  let c := { c with positioned := false }
  match args[c.next]? with
  | some a => (a.measure?, { c with next := c.next + 1 })
  | none => (none, c)

/-- The flags in front of a place. -/
def flags : List Char → Place → Place × List Char
  | '#' :: rest, p => flags rest { p with alternate := true }
  | '0' :: rest, p => flags rest { p with zeros := true }
  | '+' :: rest, p => flags rest { p with signed := true }
  | '-' :: rest, p => flags rest { p with left := true }
  | ' ' :: rest, p => flags rest { p with spaced := true }
  | rest, p => (p, rest)

/-- Reads the width, and what a missing one leaves in the text. -/
def Cursor.width (c : Cursor) (args : List Arg) (p : Place) :
    String × Place × Cursor :=
  match c.rest with
  | '*' :: rest =>
    match { c with rest }.measure args with
    | (none, c) => ("%!(BADWIDTH)", p, c)
    | (some n, c) =>
      if n < 0 then
        ("", { p with width := n.natAbs, left := true, zeros := false }, c)
      else ("", { p with width := n.toNat }, c)
  | cs =>
    let (n, rest) := number cs
    ("", { p with width := n.getD 0 },
      { c with rest, good := c.good && !(c.positioned && n.isSome) })

/-- Reads the precision, and what a missing one leaves in the text. -/
def Cursor.precision (c : Cursor) (args : List Arg) (p : Place) :
    String × Place × Cursor :=
  match c.rest with
  | '.' :: rest =>
    let c := { c with rest, good := c.good && !c.positioned }
    let c := c.position args.length
    match c.rest with
    | '*' :: rest =>
      match { c with rest }.measure args with
      | (some n, c) =>
        if n < 0 then ("%!(BADPREC)", p, c)
        else ("", { p with precision := some n.toNat }, c)
      | (none, c) => ("%!(BADPREC)", p, c)
    | cs =>
      let (n, rest) := number cs
      ("", { p with precision := some (n.getD 0) }, { c with rest })
  | _ => ("", p, c)

/-- At the letters for any value, two flags ask for names and expressions
instead of signs and marks. -/
def forLetter (letter : Char) (p : Place) : Place :=
  if letter = 'v' || letter = 'w' then
    { p with
      literal := p.alternate, alternate := false,
      labelled := p.signed, signed := false }
  else p

/-- One place: the text that fills it, and the cursor after it. -/
def place (args : List Arg) (c : Cursor) : String × Cursor :=
  let (p, rest) := flags c.rest {}
  let c := { c with rest, good := true, positioned := false }.position
    args.length
  let (front, p, c) := c.width args p
  let (middle, p, c) := c.precision args p
  let c := if c.positioned then c else c.position args.length
  let before := front ++ middle
  match c.rest with
  | [] => (before ++ "%!(NOVERB)", c)
  | '%' :: rest => (before ++ "%", { c with rest })
  | letter :: rest =>
    let c := { c with rest }
    if !c.good then (before ++ "%!" ++ letter.toString ++ "(BADINDEX)", c)
    else
      match args[c.next]? with
      | none => (before ++ "%!" ++ letter.toString ++ "(MISSING)", c)
      | some a =>
        (before ++ a.inPlace (forLetter letter p) letter,
          { c with next := c.next + 1 })

/-- Fills the places from left to right; the fuel is the template's length,
which every place shortens. -/
def fillFrom (args : List Arg) : Nat → Cursor → String
  | 0, _ => ""
  | fuel + 1, c =>
    let plain := String.ofList (c.rest.takeWhile (· != '%'))
    match c.rest.dropWhile (· != '%') with
    | [] =>
      let extra := args.drop c.next
      if c.reordered || extra.isEmpty then plain
      else plain ++ "%!(EXTRA " ++
        ", ".intercalate (extra.map fun a =>
          match a with
          | .nothing => Arg.nothingText
          | a => a.kind ++ "=" ++ a.display) ++ ")"
    | _ :: rest =>
      let (filled, c) := place args { c with rest }
      plain ++ filled ++ fillFrom args fuel c

/-- The template with its places filled by the arguments in order. -/
def fill (template : String) (args : List Arg) : String :=
  fillFrom args (template.length + 1) { rest := template.toList }

end Template

end JobWeave.Text
