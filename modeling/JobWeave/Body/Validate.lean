import JobWeave.Body.Effect

/-!
# Valid bodies

A body is valid when no instruction occurs twice, every operand has the shape
its opcode demands, branches, local variables and sequence points stay inside
the body, arguments exist, and the stack has one height at every instruction
that can be reached.

* `checkShapes` looks at the instructions one by one;
* `checkStack` walks the reachable code with heights;
* `MethodDef.validate` is both, and `Module.validate` asks it of every body.
-/

namespace JobWeave

/-- What a body check reports: the sort of failure and what is wrong. -/
abbrev Complaint := Kind × String

namespace Body

/-- The instruction after which control goes on, by position: the branch targets
in order and then the next instruction, as far as the flow class has them. -/
def successors (b : Body) (n : Nat) (i : Instr) : List Nat :=
  let targets := i.operand.labels.map fun l => (b.indexOf? l).getD 0
  match i.op.flow with
  | .ret | .throw => []
  | .branch => targets
  | .condBranch => targets ++ [n + 1]
  | _ => [n + 1]

/-- The operand has the shape the opcode demands, or what is wrong with it. -/
def checkOperand (b : Body) (i : Instr) : Except String Unit :=
  let fits (ok : Bool) : Except String Unit :=
    if ok then .ok ()
    else .error ("operand " ++ i.operand.kindName ++ " does not fit")
  match i.op.info.operand, i.operand with
  | .none, o => fits o.isNone
  | .arg, .arg _ | .int32, .int32 _ | .int64, .int64 _
  | .float32, .float32 _ | .float64, .float64 _ | .text, .text _ => fits true
  | .slot, .slot (.slot n) =>
    if n < b.locals.length then .ok ()
    else .error ("local " ++ b.localText (.slot n) ++
      " belongs to another body")
  | .slot, .slot l =>
    .error ("local " ++ b.localText l ++ " belongs to another body")
  | .branch, .target l =>
    if b.contains l then .ok () else .error "branch target outside body"
  | .table, .targets ls =>
    if ls.all b.contains then .ok () else .error "switch target outside body"
  | .type, .type t => fits t.isPresent
  | .field, .field f => fits f.isSome
  | .method, .method m => fits m.isSome
  | .token, .type _ | .token, .field _ | .token, .method _ => fits true
  | _, _ => fits false

/-- The opcode means one of the first four slots. -/
def isSlotMacro : Opcode → Bool
  | .ldloc0 | .ldloc1 | .ldloc2 | .ldloc3
  | .stloc0 | .stloc1 | .stloc2 | .stloc3 => true
  | _ => false

/-- What is wrong with the shape of the instruction at a position of a method
with so many arguments. -/
def checkInstr (b : Body) (argCount : Nat) (n : Nat) (i : Instr) :
    Except Complaint Unit := do
  let at_ := "instruction " ++ toString n
  let named := at_ ++ " (" ++ i.op.name ++ "): "
  if !i.op.isValid then
    throw (.invalidData,
      at_ ++ ": invalid opcode " ++ toString i.op.number.toNat)
  match b.checkOperand i with
  | .error e => throw (.invalidData, named ++ e)
  | .ok () => pure ()
  match i.argIndex? with
  | some a =>
    if (argCount : Int) ≤ a then
      throw (.outOfBounds,
        named ++ "argument " ++ toString a ++ " of " ++ toString argCount)
  | none => pure ()
  if isSlotMacro i.op && (b.localOf? i).isNone then
    throw (.outOfBounds, named ++ "no such local")

/-- The position of the first instruction that occurred before. -/
def firstRepeat? (b : Body) : Option Nat :=
  (b.code.mapIdx fun n i => (n, i)).findSome? fun (n, i) =>
    if (b.code.take n).any (·.label == i.label) then some n else none

/-- The shape checks of a body, in order. -/
def checkShapes (b : Body) (argCount : Nat) : Except Complaint Unit := do
  match b.firstRepeat? with
  | some n =>
    throw (.invalidData, "instruction " ++ toString n ++ " appears twice")
  | none => pure ()
  (b.code.mapIdx fun n i => (n, i)).forM fun (n, i) => b.checkInstr argCount n i
  b.points.forM fun p =>
    if b.contains p.label then .ok ()
    else .error (.invalidData,
      "sequence point " ++ p.document ++ "(" ++ toString p.line ++
        ") refers to a foreign instruction")

/-! ## Stack heights -/

/-- The heights found so far and the positions still to follow. -/
structure Walk where
  /-- the height before each instruction that was reached -/
  heights : Array (Option Int)
  /-- reached positions whose successors were not looked at -/
  work : List Nat
  deriving Repr

/-- Reaches a position with a height. -/
def Walk.reach (w : Walk) (source n : Nat) (h : Int) : Except Complaint Walk :=
  match w.heights[n]? with
  | none =>
    .error (.invalidData,
      "instruction " ++ toString source ++ " falls off the end of the body")
  | some none =>
    .ok { heights := w.heights.setIfInBounds n (some h), work := n :: w.work }
  | some (some h') =>
    if h' = h then .ok w
    else .error (.stackImbalance,
      "instruction " ++ toString n ++ " reached with stack height " ++
        toString h' ++ " and " ++ toString h)

/-- The height after an instruction that is reached with height `h`. -/
def heightAfter (effect : StackEffect) (n : Nat) (i : Instr) (h : Int) :
    Except Complaint Int :=
  if h - effect.pops < 0 then
    .error (.stackImbalance,
      "instruction " ++ toString n ++ " (" ++ i.op.name ++ ") pops " ++
        toString effect.pops ++ " with height " ++ toString h)
  else
    let h := h - effect.pops + effect.pushes
    if i.op == .ret && h != 0 then
      .error (.stackImbalance,
        "ret at " ++ toString n ++ " leaves " ++ toString h ++ " values")
    else .ok (if i.op == .leave || i.op == .leaveS then 0 else h)

/-- Follows the instruction at a position. -/
def follow (b : Body) (returnsVoid : Bool) (w : Walk) (n : Nat) :
    Except Complaint Walk := do
  match b.code[n]? with
  | none => return w
  | some i =>
    let effect := (i.effect? returnsVoid).getD ⟨0, 0⟩
    let height := ((w.heights[n]?).getD none).getD 0
    let after ← heightAfter effect n i height
    (b.successors n i).foldlM (fun w m => w.reach n m after) w

/-- Follows reached positions, the latest first, until none is left.  No
position is reached twice, so the number of instructions bounds the steps. -/
def walk (b : Body) (returnsVoid : Bool) : Nat → Walk → Except Complaint Unit
  | 0, _ => .ok ()
  | fuel + 1, w =>
    match w.work with
    | [] => .ok ()
    | n :: work => do
      let w ← b.follow returnsVoid { w with work } n
      walk b returnsVoid fuel w

/-- The stack has one height at every instruction that can be reached. -/
def checkStack (b : Body) (returnsVoid : Bool) : Except Complaint Unit :=
  if b.code.isEmpty then .ok ()
  else
    let heights := (Array.replicate b.size none).setIfInBounds 0 (some 0)
    b.walk returnsVoid (b.size + 1) { heights, work := [0] }

end Body

/-- Checks the body of a method of the given full name. -/
def MethodDef.validate (m : MethodDef) (fullName : String) (b : Body) :
    Except Failure Unit :=
  let checks := do
    b.checkShapes m.argCount
    b.checkStack m.returnsVoid
  checks.mapError fun (kind, detail) =>
    .detailed { phase := .validate, kind, member := fullName, detail }

/-- Checks the methods of one type that have a body. -/
def TypeDef.validate (fullName : String) (t : TypeDef) : Except Failure Unit :=
  t.methods.forM fun m =>
    match m.body with
    | none => .ok ()
    | some b => m.validate (fullName ++ "::" ++ m.name) b

/-- Checks every body of the module, types in order. -/
def Module.validate (m : Module) : Except Failure Unit :=
  m.allTypes.forM fun (name, t) => t.validate name

end JobWeave
