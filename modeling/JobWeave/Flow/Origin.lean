import JobWeave.Flow.Delegate
import JobWeave.Body.Effect

/-!
# Where values come from and go to

The instruction that pushed an argument is found by walking straight-line code
backwards and counting values; any branch, and any target of a branch, ends the
walk, since the answer would depend on the path taken.  Delegate sequences are
crossed as a unit: the branch of the cached form is its own.

* `MethodDef.pusher` finds the instruction that pushed an argument;
* `MethodDef.spanStart` finds where the computation of a value begins;
* `MethodDef.consumer` finds the instruction that takes a value.
-/

namespace JobWeave

/-- Control may go elsewhere than to the next instruction. -/
def Instr.stopsWalk (i : Instr) : Bool :=
  match i.op.flow with
  | .branch | .condBranch | .ret | .throw => true
  | _ => i.op == .switch

/-- The instruction that takes a value, and which of its arguments it is. -/
structure Consumer where
  /-- the instruction -/
  label : Label
  /-- the argument -/
  arg : Int
  deriving DecidableEq, Repr, Inhabited

namespace MethodDef

/-- The effect of an instruction, which must have one. -/
def effect (m : MethodDef) (i : Instr) : Outcome StackEffect :=
  Outcome.need (m.effect? i)

/-- The instruction at a position only closes a cached delegate sequence: all
branches to it are in that sequence. -/
def closesDelegate (m : MethodDef) (n : Nat) (l : Label) : Outcome Bool :=
  if n = 0 then .ok false
  else do
    match ← m.code.delegateEndingAt m.hasThis (n - 1) with
    | none => return false
    | some d =>
      return d.cached && m.code.code.all fun i =>
        i.operand != .target l || !i.op.isBranch || d.contains i.label

/-- Walks back from position `n` to the instruction that pushed the value that
lies under `depth` others before position `n`. -/
def pusherBelow (m : MethodDef) (targets : List Label) (n : Nat)
    (depth : Int) : Outcome (Option Label) :=
  match n with
  | 0 => .ok none
  | k + 1 => do
    match ← m.code.delegateEndingAt m.hasThis k with
    | some d =>
      if depth == 0 then return some d.first
      let start := (m.code.indexOf? d.first).getD 0
      m.pusherBelow targets (min k start) (depth - 1)
    | none =>
      match m.code.code[k]? with
      | none => return none
      | some i =>
        if i.stopsWalk then return none
        if targets.contains i.label then
          if !(← m.closesDelegate k i.label) then return none
        let e ← m.effect i
        if e.pushes > depth then return some i.label
        m.pusherBelow targets k (depth + e.pops - e.pushes)
termination_by n

/-- The instruction that pushed an argument of another one; the instance of a
call is argument zero. -/
def pusher (m : MethodDef) (arg : Int) (l : Label) : Outcome (Option Label) :=
  match m.code.indexOf? l with
  | none => .ok none
  | some n => do
    let e ← m.effect (m.code.get l)
    if arg < 0 || arg ≥ e.pops then return none
    m.pusherBelow m.code.branchTargets n (e.pops - 1 - arg)

/-- The start of a computation, with a bound on the steps back. -/
def spanStartUpTo (m : MethodDef) : Nat → Label → Outcome (Option Label)
  | 0, _ => .ok none
  | fuel + 1, l => do
    match ← m.delegateFrom l with
    | some d => return some d.first
    | none =>
      let e ← m.effect (m.code.get l)
      if e.pops == 0 then return some l
      match ← m.pusher 0 l with
      | none => return none
      | some deepest => m.spanStartUpTo fuel deepest

/-- The first instruction of the straight-line code that computes what an
instruction pushes. -/
def spanStart (m : MethodDef) (l : Label) : Outcome (Option Label) :=
  m.spanStartUpTo (m.code.size + 1) l

/-- Walks on from position `n` to the instruction that takes the value that lies
under `depth` others, with a bound on the steps. -/
def consumerFrom (m : MethodDef) :
    Nat → Nat → Int → Outcome (Option Consumer)
  | 0, _, _ => .ok none
  | fuel + 1, n, depth => do
    match m.code.code[n]? with
    | none => return none
    | some i =>
      match ← m.code.delegateStartingAt m.hasThis n with
      | some d =>
        let last := (m.code.indexOf? d.last).getD n
        m.consumerFrom fuel (last + 1) (depth + 1)
      | none =>
        let e ← m.effect i
        if e.pops > depth then
          return some { label := i.label, arg := e.pops - 1 - depth }
        if i.stopsWalk then return none
        m.consumerFrom fuel (n + 1) (depth + e.pushes - e.pops)

/-- The instruction that takes the value another one pushed. -/
def consumer (m : MethodDef) (l : Label) : Outcome (Option Consumer) :=
  match m.code.indexOf? l with
  | none => .ok none
  | some n => do
    let start ←
      match ← m.code.delegateStartingAt m.hasThis n with
      | some d => pure ((m.code.indexOf? d.last).getD n)
      | none => pure n
    m.consumerFrom (m.code.size + 1) (start + 1) 0

end MethodDef

end JobWeave
