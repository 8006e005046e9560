import JobWeave.Instr
import JobWeave.Failure
import JobWeave.Decimal.Float
import JobWeave.Text.Quoted

/-!
# Method bodies

A body is a list of labelled instructions with local variables and sequence
points.  Besides the instructions in the list it knows those that were taken out
of it or never put in, so that a branch to one of them can still be shown.

* Queries: `indexOf?`, `next?`, `prev?`, `localOf?`, `branchTargets`,
  `pointAt?`, `visiblePoint?`.
* Edits keep labels: `setAt` changes an instruction in place, `insertAt?`,
  `insertAfter`, `insertBefore` and `replace` put new ones around it.
* Texts: `operandText?` and `instrText?`.
-/

namespace JobWeave

/-- A local variable slot. -/
structure Local where
  /-- the type of the variable -/
  type : TypeRef
  /-- its name, which may be empty -/
  name : String
  deriving Repr, Inhabited, BEq

/-- The source position of an instruction. -/
structure SequencePoint where
  /-- the instruction -/
  label : Label
  /-- the source document -/
  document : String
  /-- the line -/
  line : Int
  /-- the column -/
  column : Int
  deriving Repr, Inhabited, BEq

/-- The line number of points that have no source position. -/
def SequencePoint.hiddenLine : Int := 0xfeefee

/-- The point shows a source position. -/
def SequencePoint.isVisible (p : SequencePoint) : Bool :=
  p.line != hiddenLine

/-- The code of a method. -/
structure Body where
  /-- the instructions in order -/
  code : List Instr := []
  /-- the local variables by slot -/
  locals : List Local := []
  /-- the source positions -/
  points : List SequencePoint := []
  /-- local variables start with a default value -/
  initLocals : Bool := false
  /-- a label that no instruction has yet, nor any after it -/
  fresh : Label := 0
  /-- instructions that are known and not in the code -/
  detached : List Instr := []
  deriving Repr, Inhabited, BEq

/-- An operation and its operand, before a body gives it a label. -/
abbrev Step := Opcode × Operand

namespace Body

/-! ## Queries -/

/-- The number of instructions. -/
def size (b : Body) : Nat :=
  b.code.length

/-- The instruction with a label, in the code or outside it. -/
def find? (b : Body) (l : Label) : Option Instr :=
  match b.code.find? (·.label == l) with
  | some i => some i
  | none => b.detached.find? (·.label == l)

/-- The instruction with a label; one that is not known does nothing. -/
def get (b : Body) (l : Label) : Instr :=
  (b.find? l).getD { label := l, op := .nop }

/-- The first position of an instruction. -/
def indexOf? (b : Body) (l : Label) : Option Nat :=
  b.code.findIdx? (·.label == l)

/-- The last position of an instruction. -/
def lastIndexOf? (b : Body) (l : Label) : Option Nat :=
  ((b.code.map (·.label)).reverse.findIdx? (· == l)).map fun n =>
    b.code.length - 1 - n

/-- The instruction is in the code. -/
def contains (b : Body) (l : Label) : Bool :=
  b.code.any (·.label == l)

/-- The instruction after a given one. -/
def next? (b : Body) (l : Label) : Option Instr := do
  b.code[(← b.indexOf? l) + 1]?

/-- The instruction before a given one. -/
def prev? (b : Body) (l : Label) : Option Instr := do
  let n ← b.indexOf? l
  if n = 0 then none else b.code[n - 1]?

/-- The slot as a reference, if the body has it. -/
def slot? (b : Body) (n : Nat) : Option LocalRef :=
  if n < b.locals.length then some (.slot n) else none

/-- The local variable that is read, written or addressed. -/
def localOf? (b : Body) (i : Instr) : Option LocalRef :=
  match i.op with
  | .ldloc0 | .stloc0 => b.slot? 0
  | .ldloc1 | .stloc1 => b.slot? 1
  | .ldloc2 | .stloc2 => b.slot? 2
  | .ldloc3 | .stloc3 => b.slot? 3
  | .ldlocS | .ldloc | .ldlocaS | .ldloca | .stlocS | .stloc =>
    match i.operand with
    | .slot l => some l
    | _ => none
  | _ => none

/-- The local variable whose value is pushed. -/
def loadedLocal? (b : Body) (i : Instr) : Option LocalRef :=
  match i.op with
  | .ldloc0 | .ldloc1 | .ldloc2 | .ldloc3 | .ldlocS | .ldloc => b.localOf? i
  | _ => none

/-- The local variable that is stored into. -/
def storedLocal? (b : Body) (i : Instr) : Option LocalRef :=
  match i.op with
  | .stloc0 | .stloc1 | .stloc2 | .stloc3 | .stlocS | .stloc => b.localOf? i
  | _ => none

/-- The type of a local variable. -/
def localType (b : Body) : LocalRef → TypeRef
  | .slot n => ((b.locals[n]?).map (·.type)).getD .absent
  | .foreign _ _ t _ => t

/-- The labels of all branch and switch targets. -/
def branchTargets (b : Body) : List Label :=
  (b.code.flatMap fun i =>
    match i.operand with
    | .target l => if i.op.isBranch then [l] else []
    | .targets ls => ls
    | _ => []).eraseDups

/-- The sequence point of exactly this instruction. -/
def pointAt? (b : Body) (l : Label) : Option SequencePoint :=
  b.points.find? (·.label == l)

/-- The first point that shows a source position. -/
def firstPoint? (b : Body) : Option SequencePoint :=
  b.points.find? (·.isVisible)

/-- The nearest point at or before an instruction that shows a source position,
or else the first one of the body. -/
def visiblePoint? (b : Body) (l : Option Label) : Option SequencePoint :=
  let upTo :=
    match l.bind b.indexOf? with
    | some n => b.code.take (n + 1)
    | none => []
  let near := upTo.reverse.findSome? fun i =>
    match b.pointAt? i.label with
    | some p => if p.isVisible then some p else none
    | none => none
  match near with
  | some p => some p
  | none => b.firstPoint?

/-! ## Texts -/

/-- The name of a local variable, or its position if it has none. -/
def localText (b : Body) : LocalRef → String
  | .slot n =>
    match b.locals[n]? with
    | some l => if l.name = "" then "V_" ++ toString n else l.name
    | none => "V_" ++ toString n
  | .foreign _ s _ n => if s = "" then "V_" ++ toString n else s

/-- A constant as listings show it; other operands have no such text. -/
def constantText : Operand → String
  | .none => "<nil>"
  | .int32 v => toString v.toInt
  | .int64 v => toString v.toInt
  | .float32 x => Decimal.single.text x.toNat
  | .float64 x => Decimal.double.text x.toNat
  | .flag v => if v then "true" else "false"
  | _ => ""

/-- An operand as listings show it. -/
def operandText? (b : Body) : Operand → Option String
  | .text s => some (Text.quote s)
  | .arg n => some ("arg" ++ toString n)
  | .slot l => some (b.localText l)
  | .target l => some ("-> " ++ (b.get l).op.name)
  | .targets ls => some ("(" ++ toString ls.length ++ " targets)")
  | .type t => t.fullName?
  | .field f => f.bind (·.fullName?)
  | .method m => m.bind (·.fullName?)
  | o => some (constantText o)

/-- An instruction on its own. -/
def instrText? (b : Body) (i : Instr) : Option String :=
  match i.operand with
  | .none => some i.op.name
  | o => (b.operandText? o).map fun s => i.op.name ++ " " ++ s

/-! ## Edits -/

/-- Changes every occurrence of an instruction. -/
def update (b : Body) (l : Label) (f : Instr → Instr) : Body :=
  let change := fun i => if i.label == l then f i else i
  { b with code := b.code.map change, detached := b.detached.map change }

/-- Gives an instruction another operation in place. -/
def setAt (b : Body) (l : Label) (op : Opcode) (operand : Operand) : Body :=
  b.update l (·.become op operand)

/-- Makes an instruction do nothing; it stays a branch target. -/
def idleAt (b : Body) (l : Label) : Body :=
  b.update l Instr.idle

/-- Adds a local variable and gives its slot. -/
def addLocal (b : Body) (type : TypeRef) (name : String) : Body × Nat :=
  ({ b with locals := b.locals ++ [⟨type, name⟩], initLocals := true },
    b.locals.length)

/-- Labels for new instructions. -/
def labelled (b : Body) (steps : List Step) : List Instr :=
  steps.mapIdx fun n s => { label := b.fresh + n, op := s.1, operand := s.2 }

/-- The body with the labels up to a bound in use. -/
def claim (b : Body) (is : List Instr) : Body :=
  { b with fresh := is.foldl (fun n i => max n (i.label + 1)) b.fresh }

/-- An instruction that does nothing and is in no code: the body that knows it,
and its label. -/
def stray (b : Body) : Body × Label :=
  ({ b with
      fresh := b.fresh + 1,
      detached := b.detached ++ [{ label := b.fresh, op := .nop }] },
    b.fresh)

/-- Adds instructions at the end. -/
def append (b : Body) (is : List Instr) : Body :=
  { b.claim is with code := b.code ++ is }

/-- Puts instructions before position `n`, which must not be past the end. -/
def insertAt? (b : Body) (n : Int) (is : List Instr) : Option Body :=
  if is.isEmpty then some b
  else if n < 0 ∨ b.code.length < n then none
  else
    let (front, back) := b.code.splitAt n.toNat
    some { b.claim is with code := front ++ is ++ back }

/-- Puts instructions directly after another one. -/
def insertAfter (b : Body) (l : Label) (is : List Instr) : Outcome Body :=
  match b.indexOf? l with
  | some n => Outcome.need (b.insertAt? (n + 1) is)
  | none => .error (.fault (some "il: InsertAfter target not in body"))

/-- Puts instructions directly before another one; branches to it still reach
it and not the new code. -/
def insertBefore (b : Body) (l : Label) (is : List Instr) : Outcome Body :=
  match b.indexOf? l with
  | some n => Outcome.need (b.insertAt? n is)
  | none => .error (.fault (some "il: InsertBefore target not in body"))

/-- Puts instructions in the place of another one.  The first of them is written
into it, so branches to it reach the new code. -/
def replace (b : Body) (l : Label) (is : List Instr) : Outcome Body :=
  match is with
  | [] => .ok (b.idleAt l)
  | i :: rest => (b.setAt l i.op i.operand).insertAfter l rest

/-- Takes the instruction at a position out of the code. -/
def removeAt (b : Body) (n : Nat) : Body :=
  match b.code[n]? with
  | none => b
  | some i =>
    let code := b.code.eraseIdx n
    if code.any (·.label == i.label) then { b with code }
    else { b with code, detached := b.detached ++ [i] }

/-- Some operand is a field or method reference that is not there. -/
def lacksReference (b : Body) : Bool :=
  b.code.any fun i =>
    match i.operand with
    | .field none | .method none => true
    | _ => false

/-- Code that was recorded earlier, in the place of the code now.  Instructions
that came later stay known. -/
def restored (b saved : Body) : Body :=
  let later := (b.code ++ b.detached).filter fun i =>
    !saved.code.any (·.label == i.label)
  { saved with fresh := max b.fresh saved.fresh, detached := later }

/-- The body with an instruction of its own at every position and without points
outside the code.  Where an instruction occurred more than once, branches and
points reach its last occurrence. -/
def distinct (b : Body) : Body :=
  let points := b.points.filter fun p => b.contains p.label
  let isLast := fun n (i : Instr) => b.lastIndexOf? i.label == some n
  if (b.code.mapIdx isLast).all id then { b with points }
  else
    let code := b.code.mapIdx fun n i =>
      if isLast n i then i else { i with label := b.fresh + n }
    { b with code, points, fresh := b.fresh + b.code.length }

end Body

end JobWeave
