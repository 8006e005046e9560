import JobWeave.Body

/-!
# Long and short spellings

Compilers write common operations in short and macro forms: `ldarg.0` for
argument zero, `br.s` for a near branch.  `Body.simplify` spells every
instruction out with an explicit operand; `Body.optimize` folds the spelled-out
forms back into macros.  Branches stay long, since displacements are not known.
-/

namespace JobWeave

/-- The long form of a short opcode; others are their own. -/
def Opcode.long : Opcode → Opcode
  | .brS => .br
  | .brfalseS => .brfalse
  | .brtrueS => .brtrue
  | .beqS => .beq
  | .bgeS => .bge
  | .bgtS => .bgt
  | .bleS => .ble
  | .bltS => .blt
  | .bneUnS => .bneUn
  | .leaveS => .leave
  | .ldargS => .ldarg
  | .ldargaS => .ldarga
  | .stargS => .starg
  | .ldlocS => .ldloc
  | .ldlocaS => .ldloca
  | .stlocS => .stloc
  | .ldcI4S => .ldcI4
  | op => op

namespace Body

/-- One instruction spelled out. -/
def simplifyInstr (b : Body) (i : Instr) : Instr :=
  match i.op with
  | .ldarg0 | .ldarg1 | .ldarg2 | .ldarg3 =>
    i.become .ldarg (.arg (i.argIndex?.getD 0))
  | .ldloc0 | .ldloc1 | .ldloc2 | .ldloc3 =>
    match b.localOf? i with
    | some l => i.become .ldloc (.slot l)
    | none => i
  | .stloc0 | .stloc1 | .stloc2 | .stloc3 =>
    match b.localOf? i with
    | some l => i.become .stloc (.slot l)
    | none => i
  | .ldcI4M1 | .ldcI40 | .ldcI41 | .ldcI42 | .ldcI43 | .ldcI44 | .ldcI45
  | .ldcI46 | .ldcI47 | .ldcI48 =>
    i.become .ldcI4 (.int32 (i.int32?.getD 0))
  | op => { i with op := op.long }

/-- Every instruction spelled out. -/
def simplify (b : Body) : Body :=
  { b with code := b.code.map b.simplifyInstr }

/-- The macro form of an access to one of the first four slots.  A foreign
variable below zero has no place to look at. -/
def foldSlot? (b : Body) (i : Instr) (first : Opcode) (l : LocalRef) :
    Option Instr :=
  match l with
  | .slot n =>
    if n ≤ 3 ∧ n < b.locals.length then some (i.become (first.after n) .none)
    else some i
  | .foreign _ _ _ n => if n < 0 then none else some i

/-- One instruction folded into its macro form, if it has one. -/
def optimizeInstr? (b : Body) (i : Instr) : Option Instr :=
  match i.op, i.operand with
  | .ldarg, .arg n | .ldargS, .arg n =>
    if n ≤ 3 then some (i.become (Opcode.ldarg0.after n) .none) else some i
  | .ldloc, .slot l | .ldlocS, .slot l => b.foldSlot? i .ldloc0 l
  | .stloc, .slot l | .stlocS, .slot l => b.foldSlot? i .stloc0 l
  | .ldcI4, .int32 v | .ldcI4S, .int32 v =>
    if v = -1 then some (i.become .ldcI4M1 .none)
    else if 0 ≤ v ∧ v ≤ 8 then
      some (i.become (Opcode.ldcI40.after v.toInt) .none)
    else some i
  | _, _ => some i

/-- Every instruction folded into its macro form, if it has one, up to the first
that mentions a variable below zero; and whether there is none of those. -/
def optimize (b : Body) : Body × Bool :=
  let reached := b.code.takeWhile fun i => (b.optimizeInstr? i).isSome
  let fold := fun (i : Instr) =>
    if reached.any (·.label == i.label) then (b.optimizeInstr? i).getD i else i
  ({ b with code := b.code.map fold }, reached.length == b.code.length)

end Body

end JobWeave
