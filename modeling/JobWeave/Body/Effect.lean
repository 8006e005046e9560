import JobWeave.Module

/-!
# Stack effects

How many values an instruction takes from the stack and how many it puts there.
A call takes its parameters and, except for a constructor call, the instance; it
puts one value unless the method has no result.  A return takes one value iff
the method has a result.
-/

namespace JobWeave

/-- Values taken from and put on the stack. -/
structure StackEffect where
  /-- values taken -/
  pops : Int
  /-- values put -/
  pushes : Int
  deriving DecidableEq, Repr, Inhabited

namespace StackEffect

/-- The change of the stack's height. -/
def net (e : StackEffect) : Int :=
  e.pushes - e.pops

/-- The effect of invoking a method. -/
def ofCall (op : Opcode) (m : MethodRef) : StackEffect :=
  let instance_ : Int := if m.hasThis && op != .newobj then 1 else 0
  let result : Int := if op == .newobj || !m.returnsVoid then 1 else 0
  ⟨m.params.length + instance_, result⟩

end StackEffect

/-- The effect of an instruction in a method that has a result or has none; a
call without its method has no effect to speak of. -/
def Instr.effect? (returnsVoid : Bool) (i : Instr) : Option StackEffect :=
  match i.op with
  | .call | .callvirt | .newobj =>
    match i.operand with
    | .method (some m) => some (.ofCall i.op m)
    | .method none => none
    | _ => some ⟨0, 0⟩
  | .ret => some ⟨if returnsVoid then 0 else 1, 0⟩
  | op => some ⟨op.info.pop, op.info.push⟩

/-- The effect of an instruction in a method. -/
def MethodDef.effect? (m : MethodDef) (i : Instr) : Option StackEffect :=
  i.effect? m.returnsVoid

/-- The change of the stack's height over a run of instructions. -/
def MethodDef.netEffect? (m : MethodDef) (is : List Instr) : Option Int := do
  let es ← is.mapM m.effect?
  some (es.foldl (fun n e => n + e.net) 0)

end JobWeave
