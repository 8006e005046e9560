import JobWeave.Module

/-!
# Delegate sequences

Code that makes a delegate comes in two forms: a receiver, the address of the
lambda and the delegate's constructor; or, for a lambda that captures nothing,
the same behind a cache that is tested first and filled after.

    ldloc|ldarg|ldnull ; ldftn ; newobj
    ldsfld ; dup ; brtrue L ; pop ; ldsfld ; ldftn ; newobj ; dup ; stsfld ; L:

`Body.delegateEndingAt` and `Body.delegateStartingAt` recognise a sequence by
its last or first position.  `Body.keepReceiver` and `Body.nullDelegate` take
the construction out of the code and leave the receiver or null in its place.
-/

namespace JobWeave

/-- What a delegate is bound to. -/
inductive Receiver where
  /-- nothing -/
  | nothing
  /-- the instance of the enclosing method -/
  | this
  /-- a closure in a local variable, if it is still known which -/
  | closure (slot : Option LocalRef)
  deriving Repr, Inhabited, BEq

/-- Instructions that together make one delegate. -/
structure Delegate where
  /-- the first instruction -/
  first : Label
  /-- the others in order -/
  rest : List Label
  /-- the lambda -/
  method : Option MethodRef
  /-- the delegate's constructor -/
  ctor : MethodRef
  /-- what the delegate is bound to -/
  receiver : Receiver := .nothing
  /-- the delegate is made once and kept -/
  cached : Bool := false
  deriving Repr, Inhabited, BEq

namespace Delegate

/-- All instructions of the sequence. -/
def labels (d : Delegate) : List Label :=
  d.first :: d.rest

/-- The last instruction. -/
def last (d : Delegate) : Label :=
  d.rest.getLastD d.first

/-- The instruction belongs to the sequence. -/
def contains (d : Delegate) (l : Label) : Bool :=
  d.labels.contains l

/-- The variable that holds the closure. -/
def slot? (d : Delegate) : Option LocalRef :=
  match d.receiver with
  | .closure l => l
  | _ => none

/-- The delegate when it is not known any more which variable holds the
closure. -/
def withoutSlot (d : Delegate) : Delegate :=
  if d.slot?.isSome then { d with receiver := .closure none } else d

/-- The delegate is bound to a closure. -/
def capturesLocals (d : Delegate) : Bool :=
  match d.receiver with
  | .closure _ => true
  | _ => false

/-- The delegate is bound to the instance of the enclosing method. -/
def capturesThis (d : Delegate) : Bool :=
  match d.receiver with
  | .this => true
  | _ => false

end Delegate

/-- The delegate constructor that an instruction calls, if it calls one. -/
def Instr.delegateCtor (i : Instr) : Outcome (Option MethodRef) :=
  match i.op, i.operand with
  | .newobj, .method none => Outcome.fault
  | .newobj, .method (some m) =>
    .ok (if m.name == ".ctor" && m.params.length == 2 then some m else none)
  | _, _ => .ok none

/-- The opcode pushes the value of a local variable. -/
def Opcode.loadsLocal : Opcode → Bool
  | .ldloc0 | .ldloc1 | .ldloc2 | .ldloc3 | .ldlocS | .ldloc => true
  | _ => false

/-- The opcode pushes the value of an argument. -/
def Opcode.loadsArg : Opcode → Bool
  | .ldarg0 | .ldarg1 | .ldarg2 | .ldarg3 | .ldargS | .ldarg => true
  | _ => false

namespace Body

/-- The receiver that an instruction pushes for a delegate. -/
def receiver? (b : Body) (hasThis : Bool) (i : Instr) : Option Receiver :=
  if i.op == .ldnull then some .nothing
  else if i.op.loadsLocal then
    (b.localOf? i).map fun l => .closure (some l)
  else if i.op.loadsArg && i.argIndex?.getD 0 == 0 && hasThis then some .this
  else none

/-- The simple sequence of three instructions. -/
def simpleDelegate (b : Body) (hasThis : Bool) (target ftn ctor : Instr) :
    Outcome (Option Delegate) := do
  match ← ctor.delegateCtor with
  | none => return none
  | some c =>
    if ftn.op != .ldftn then return none
    match b.receiver? hasThis target with
    | none => return none
    | some receiver =>
      return some { first := target.label, rest := [ftn.label, ctor.label],
                    method := ftn.method?.join, ctor := c, receiver }

/-- Both accesses name the same field. -/
def sameField : Option FieldRef → Option FieldRef → Outcome Bool
  | some f, some g => Outcome.need (f.same? g)
  | f, g => .ok (f.isNone && g.isNone)

/-- The cached sequence of nine instructions before another one. -/
def cachedDelegate : List Instr → Outcome (Option Delegate)
  | [test, dup, branch, pop, single, ftn, make, keep, store, after] => do
    match test.field? with
    | none => return none
    | some cache =>
      if test.op != .ldsfld || dup.op != .dup ||
          (branch.op != .brtrue && branch.op != .brtrueS) || pop.op != .pop ||
          single.op != .ldsfld || ftn.op != .ldftn || keep.op != .dup ||
          branch.operand != .target after.label then
        return none
      match store.field? with
      | none => return none
      | some stored =>
        if !(← sameField stored cache) then return none
        match ← make.delegateCtor with
        | none => return none
        | some ctor =>
          return some
            { first := test.label,
              rest := [dup, branch, pop, single, ftn, make, keep, store].map
                (·.label),
              method := ftn.method?.join, ctor, cached := true }
  | _ => .ok none

/-- The delegate sequence whose last instruction is at a position. -/
def delegateEndingAt (b : Body) (hasThis : Bool) (n : Nat) :
    Outcome (Option Delegate) :=
  match b.code[n]? with
  | none => .ok none
  | some last =>
    if last.op == .stsfld then
      if n < 8 then .ok none else cachedDelegate ((b.code.drop (n - 8)).take 10)
    else if n < 2 then .ok none
    else
      match (b.code.drop (n - 2)).take 3 with
      | [target, ftn, ctor] => b.simpleDelegate hasThis target ftn ctor
      | _ => .ok none

/-- A sequence that starts with an instruction. -/
def startsWith (d : Option Delegate) (l : Label) : Option Delegate :=
  d.filter (·.first == l)

/-- The delegate sequence whose first instruction is at a position. -/
def delegateStartingAt (b : Body) (hasThis : Bool) (n : Nat) :
    Outcome (Option Delegate) :=
  match b.code[n]? with
  | none => .ok none
  | some i => do
    match startsWith (← b.delegateEndingAt hasThis (n + 2)) i.label with
    | some d => return some d
    | none => return startsWith (← b.delegateEndingAt hasThis (n + 8)) i.label

/-- Leaves only the receiver of a sequence. -/
def keepReceiver (b : Body) (d : Delegate) : Body :=
  d.rest.foldl idleAt b

/-- Leaves only null in the place of a sequence. -/
def nullDelegate (b : Body) (d : Delegate) : Body :=
  (b.setAt d.first .ldnull .none).keepReceiver d

end Body

namespace MethodDef

/-- The code of a method; a method without any has an empty one. -/
def code (m : MethodDef) : Body :=
  m.body.getD {}

/-- The delegate sequence that starts with an instruction. -/
def delegateFrom (m : MethodDef) (l : Label) : Outcome (Option Delegate) :=
  match m.code.indexOf? l with
  | some n => m.code.delegateStartingAt m.hasThis n
  | none => .ok none

/-- The delegate sequence that ends with an instruction. -/
def delegateTo (m : MethodDef) (l : Label) : Outcome (Option Delegate) :=
  match m.code.indexOf? l with
  | some n => m.code.delegateEndingAt m.hasThis n
  | none => .ok none

end MethodDef

end JobWeave
