import JobWeave.Text.Cluster

/-!
# Width on a screen

The number of cells that a line fills on a terminal.  Control characters and
escape sequences fill none; a character of ASCII fills one; other characters
form clusters (`Cluster`), the first of which is never of ASCII.

* `Sequence` is how far an escape sequence has been read;
* `Screen.width` is the width of a line.
-/

namespace JobWeave.Text

/-- The escape sequence that the next byte belongs to. -/
inductive Sequence where
  /-- none -/
  | ground
  /-- begun by the escape character -/
  | escape
  /-- begun by it, with characters in between -/
  | between
  /-- a control sequence -/
  | control
  /-- a control sequence with parameters -/
  | controlParameters
  /-- a control sequence with characters in between -/
  | controlBetween
  /-- a device control -/
  | device
  /-- a device control with parameters -/
  | deviceParameters
  /-- a device control with characters in between -/
  | deviceBetween
  /-- the text of a device control -/
  | deviceText
  /-- a command to the system -/
  | command
  /-- another text -/
  | otherText
  deriving DecidableEq, Repr, Inhabited

namespace Sequence

/-- What bytes do wherever they stand, unless a text takes them. -/
def anywhere (b : Nat) : Sequence :=
  if b = 0x1b then escape
  else if b = 0x98 || b = 0x9e || b = 0x9f then otherText
  else if b = 0x9b then control
  else if b = 0x90 then device
  else if b = 0x9d then command
  else ground

/-- One more byte inside a sequence that is no text: `mid` takes the characters
in between, `param` the parameters, and `last` what ends the sequence. -/
def step (here mid param last : Sequence) (b : Nat) : Sequence :=
  if b = 0x18 || b = 0x1a || b = 0x1b || 0x80 ≤ b then anywhere b
  else if b < 0x20 || b = 0x7f then here
  else if b < 0x30 then mid
  else if b < 0x40 then param
  else last

/-- One more byte of a text, which the escape character and a terminator end. -/
def textStep (here : Sequence) (b : Nat) : Sequence :=
  if b = 0x1b then escape else if b = 0x18 || b = 0x1a || b = 0x9c then ground
    else here

/-- The sequence behind one more byte. -/
def next (s : Sequence) (b : Nat) : Sequence :=
  match s with
  | ground => anywhere b
  | escape =>
    if b = 0x50 then device
    else if b = 0x58 || b = 0x5e || b = 0x5f then otherText
    else if b = 0x5b then control
    else if b = 0x5d then command
    else step escape between ground ground b
  | between => step between between ground ground b
  | control => step control controlBetween controlParameters ground b
  | controlParameters =>
    step controlParameters controlBetween controlParameters ground b
  | controlBetween => step controlBetween controlBetween ground ground b
  | device =>
    if (8 ≤ b && b ≤ 13) || b = 0x1b then deviceText
    else step device deviceBetween deviceParameters deviceText b
  | deviceParameters =>
    step deviceParameters deviceBetween deviceParameters deviceText b
  | deviceBetween => step deviceBetween deviceBetween deviceText deviceText b
  | deviceText => textStep deviceText b
  | command => if b = 7 then ground else textStep command b
  | otherText => if 0x80 ≤ b then anywhere b else textStep otherText b

/-- The sequence is a text that takes characters beyond ASCII. -/
def takesAll (s : Sequence) : Bool :=
  s == deviceText || s == command

end Sequence

namespace Screen

/-- How far a line has been read. -/
structure Reading where
  /-- the cells that are filled for good -/
  cells : Nat := 0
  /-- the escape sequence -/
  pending : Sequence := .ground
  /-- the cluster that may still grow -/
  cluster : Option Cluster := none

namespace Reading

/-- One more character that belongs to no cluster before it. -/
def add (r : Reading) (c : Char) : Reading :=
  if c.toNat < 0x80 then
    let shown := r.pending == .ground && 0x20 ≤ c.toNat && c.toNat < 0x7f
    { cells := if shown then r.cells + 1 else r.cells,
      pending := r.pending.next c.toNat }
  else if r.pending.takesAll then
    let bytes := c.toString.toUTF8.toList.map (·.toNat)
    { r with pending := bytes.foldl Sequence.next r.pending }
  else { cells := r.cells, cluster := some (Cluster.start c) }

/-- The cells of all that has been read. -/
def total (r : Reading) : Nat :=
  r.cells + (r.cluster.map (·.cells)).getD 0

/-- One more character. -/
def step (r : Reading) (c : Char) : Reading :=
  match r.cluster with
  | none => r.add c
  | some k =>
    match k.grow? c with
    | some k => { r with cluster := some k }
    | none => ({ cells := r.total } : Reading).add c

end Reading

/-- The cells that a line fills. -/
def width (line : String) : Nat :=
  (line.toList.foldl Reading.step {}).total

end Screen

end JobWeave.Text
