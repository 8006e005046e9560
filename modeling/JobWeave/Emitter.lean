import JobWeave.Body

/-!
# Emitting code

An emitter collects a run of instructions for a body.  Branches inside the run
go to marks: a mark is placed before the next instruction, before or after the
branches to it, and `Emitter.finish` points every branch at its mark.

The emitter takes its labels from a counter that starts at the body's first
unused label, so its instructions can be put into the body as they are.
-/

namespace JobWeave

/-! ## Steps -/

namespace Step

def ldarg (n : Int) : Step := (.ldarg, .arg n)
def ldarga (n : Int) : Step := (.ldarga, .arg n)
def starg (n : Int) : Step := (.starg, .arg n)
def ldloc (l : LocalRef) : Step := (.ldloc, .slot l)
def ldloca (l : LocalRef) : Step := (.ldloca, .slot l)
def stloc (l : LocalRef) : Step := (.stloc, .slot l)
def ldcI4 (v : Int32) : Step := (.ldcI4, .int32 v)
def ldnull : Step := (.ldnull, .none)
def ldstr (s : String) : Step := (.ldstr, .text s)
def ldBool (b : Bool) : Step := ldcI4 (if b then 1 else 0)
def call (m : MethodRef) : Step := (.call, .method (some m))
def callvirt (m : MethodRef) : Step := (.callvirt, .method (some m))
def newobj (m : MethodRef) : Step := (.newobj, .method (some m))
def ldftn (m : MethodRef) : Step := (.ldftn, .method (some m))
def ldfld (f : FieldRef) : Step := (.ldfld, .field (some f))
def ldflda (f : FieldRef) : Step := (.ldflda, .field (some f))
def stfld (f : FieldRef) : Step := (.stfld, .field (some f))
def ldsfld (f : FieldRef) : Step := (.ldsfld, .field (some f))
def stsfld (f : FieldRef) : Step := (.stsfld, .field (some f))
def dup : Step := (.dup, .none)
def pop : Step := (.pop, .none)
def ret : Step := (.ret, .none)
def nop : Step := (.nop, .none)
def initobj (t : TypeRef) : Step := (.initobj, .type t)
def newarr (t : TypeRef) : Step := (.newarr, .type t)
def stelem (t : TypeRef) : Step := (.stelem, .type t)
def stelemRef : Step := (.stelemRef, .none)
def box (t : TypeRef) : Step := (.box, .type t)
def ldobj (t : TypeRef) : Step := (.ldobj, .type t)
def ldtoken (t : TypeRef) : Step := (.ldtoken, .type t)
def castclass (t : TypeRef) : Step := (.castclass, .type t)

/-- Loads through a chain of fields.  Values stored in place on the way are
addressed and not copied.  The walk stops at a field that is missing on the way,
and the flag says whether it reached the end. -/
def ldfldChain : List (Option FieldRef) → List Step × Bool
  | [] => ([], true)
  | [f] => ([(.ldfld, .field f)], true)
  | none :: _ => ([], false)
  | some f :: fs =>
    let (rest, whole) := ldfldChain fs
    ((if f.type.isValueType then ldflda f else ldfld f) :: rest, whole)

end Step

/-- A branch target inside an emitted run. -/
structure EmitMark where
  /-- what tells marks apart -/
  key : Nat
  /-- the number that messages show -/
  number : Nat
  deriving DecidableEq, Repr, Inhabited

/-- A run of instructions under construction. -/
structure Emitter where
  /-- the instructions in order -/
  code : Array Instr := #[]
  /-- the next unused label -/
  fresh : Label := 0
  /-- marks before the next instruction -/
  pending : List EmitMark := []
  /-- marks and the labels they stand at -/
  placed : List (EmitMark × Label) := []
  /-- branches and the marks they go to -/
  branches : Array (Label × EmitMark) := #[]
  /-- marks made since the last restart -/
  marks : Nat := 0
  /-- marks made at all -/
  keys : Nat := 0
  /-- instructions from before the last restart -/
  retired : List Instr := []
  deriving Repr, Inhabited

namespace Emitter

/-- An emitter for a body. -/
def forBody (b : Body) : Emitter :=
  { fresh := b.fresh }

/-- The number of instructions. -/
def size (e : Emitter) : Nat :=
  e.code.size

/-- The emitter without its run. -/
def restart (e : Emitter) : Emitter :=
  { e with
    code := #[], pending := [], branches := #[], marks := 0,
    retired := e.retired ++ e.code.toList }

/-- Adds an instruction; pending marks stand at it. -/
def push (e : Emitter) (i : Instr) : Emitter :=
  { e with
    code := e.code.push i,
    pending := [],
    placed := e.pending.map (·, i.label) ++ e.placed }

/-- Adds an instruction with a new label. -/
def emit (e : Emitter) (s : Step) : Emitter :=
  { e with fresh := e.fresh + 1 }.push
    { label := e.fresh, op := s.1, operand := s.2 }

/-- Adds instructions with new labels. -/
def emitAll (e : Emitter) (ss : List Step) : Emitter :=
  ss.foldl emit e

/-- The last instruction. -/
def last? (e : Emitter) : Option Instr :=
  e.code.back?

/-- A mark that is not placed yet. -/
def newMark (e : Emitter) : Emitter × EmitMark :=
  ({ e with marks := e.marks + 1, keys := e.keys + 1 }, ⟨e.keys, e.marks + 1⟩)

/-- Places a mark before the next instruction. -/
def place (e : Emitter) (m : EmitMark) : Emitter :=
  { e with pending := e.pending ++ [m] }

/-- Adds a branch to a mark. -/
def branch (e : Emitter) (op : Opcode) (m : EmitMark) : Emitter :=
  let e := { e with branches := e.branches.push (e.fresh, m) }
  e.emit (op, .none)

/-- The label a mark stands at. -/
def labelOf? (e : Emitter) (m : EmitMark) : Option Label :=
  (e.placed.find? (·.1 == m)).map (·.2)

/-- An instruction of this run or an earlier one. -/
def find? (e : Emitter) (l : Label) : Option Instr :=
  match e.code.find? (·.label == l) with
  | some i => some i
  | none => e.retired.find? (·.label == l)

/-- Points branches at their marks, up to the first one that cannot be. -/
def pointBranches (e : Emitter) :
    List (Label × EmitMark) → Emitter × Option Failure
  | [] => (e, none)
  | (l, m) :: rest =>
    match e.labelOf? m with
    | none =>
      (e, some (.detailed (.internal .synthesize
        ("branch to unbound label " ++ toString m.number))))
    | some t =>
      let code := e.code.map fun i =>
        if i.label == l then { i with operand := .target t } else i
      pointBranches { e with code } rest

/-- The finished run.  It has no result while a branch goes to a mark that is
not placed, or a mark stands after the last instruction. -/
def finish (e : Emitter) : Emitter × Except Failure (List Instr) :=
  match e.pointBranches e.branches.toList with
  | (e, some f) => (e, .error f)
  | (e, none) =>
    match e.pending with
    | m :: _ =>
      (e, .error (.detailed (.internal .synthesize
        ("label " ++ toString m.number ++
          " marked past the last instruction"))))
    | [] => (e, .ok e.code.toList)

/-- The finished run, and a body that may hold some of its instructions already:
they change with the run. -/
def finishIn (e : Emitter) (b : Body) :
    Emitter × Body × Except Failure (List Instr) :=
  let (e, r) := e.finish
  (e, e.code.foldl (fun b i => b.update i.label fun _ => i) b, r)

/-- Puts the finished run at the end of a body. -/
def appendTo (e : Emitter) (b : Body) : Except Failure Body := do
  return b.append (← e.finish.2)

end Emitter

end JobWeave
