import JobWeave.Opcode
import JobWeave.Member

/-!
# Instructions

An instruction is an opcode and an operand under a label.  Labels tell the
instructions of one body apart and are what branches point at, so an instruction
keeps its label when it moves or changes.  Local variables are named by their
slot; a body may also mention a local of another body, which it does not own and
knows by an id.
-/

namespace JobWeave

/-- The name of an instruction inside its body. -/
abbrev Label := Nat

/-- A local variable as an operand names it. -/
inductive LocalRef where
  /-- a slot of the body itself -/
  | slot (index : Nat)
  /-- a variable of some other body; the id tells it from the other ones -/
  | foreign (id : Nat) (name : String) (type : TypeRef) (index : Int)
  deriving Repr, Inhabited, BEq, ReflBEq, LawfulBEq

namespace LocalRef

/-- Both name the same variable. -/
def same : LocalRef → LocalRef → Bool
  | slot i, slot j => i == j
  | foreign i .., foreign j .. => i == j
  | _, _ => false

/-- The type of a variable of another body. -/
def foreignType? : LocalRef → Option TypeRef
  | slot _ => none
  | foreign _ _ t _ => some t

/-- The position the variable has in its own body. -/
def index : LocalRef → Int
  | slot i => i
  | foreign _ _ _ i => i

end LocalRef

/-- What an instruction carries besides its opcode.  Attribute arguments are
operands too. -/
inductive Operand where
  | none
  /-- the number of an argument -/
  | arg (n : Int)
  | int32 (v : Int32)
  | int64 (v : Int64)
  /-- a number of 32 bits, as its bits -/
  | float32 (bits : UInt32)
  /-- a number of 64 bits, as its bits -/
  | float64 (bits : UInt64)
  | text (s : String)
  | flag (b : Bool)
  | slot (l : LocalRef)
  /-- an instruction -/
  | target (l : Label)
  /-- several instructions -/
  | targets (ls : List Label)
  | type (t : TypeRef)
  | field (f : Option FieldRef)
  | method (m : Option MethodRef)
  deriving Repr, Inhabited, BEq, ReflBEq, LawfulBEq

namespace Operand

/-- The name of an operand's kind in messages. -/
def kindName : Operand → String
  | none => "<nil>"
  | arg _ => "int"
  | int32 _ => "int32"
  | int64 _ => "int64"
  | float32 _ => "float32"
  | float64 _ => "float64"
  | text _ => "string"
  | flag _ => "bool"
  | slot _ => "*il.Local"
  | target _ => "*il.Instruction"
  | targets _ => "[]*il.Instruction"
  | type _ => "*il.TypeRef"
  | field _ => "*il.FieldRef"
  | method _ => "*il.MethodRef"

/-- There is no operand. -/
def isNone : Operand → Bool
  | none => true
  | _ => false

/-- The labels an operand points at. -/
def labels : Operand → List Label
  | target l => [l]
  | targets ls => ls
  | _ => []

end Operand

/-- One operation of a body. -/
structure Instr where
  /-- the name of the instruction in its body -/
  label : Label
  /-- the operation -/
  op : Opcode
  /-- what it works on -/
  operand : Operand := .none
  deriving Repr, Inhabited, BEq

namespace Instr

/-- A method operand, which may be missing. -/
def method? (i : Instr) : Option (Option MethodRef) :=
  match i.operand with
  | .method m => some m
  | _ => none

/-- A field operand, which may be missing. -/
def field? (i : Instr) : Option (Option FieldRef) :=
  match i.operand with
  | .field f => some f
  | _ => none

/-- The method a call or virtual call invokes. -/
def invokes? (i : Instr) : Option (Option MethodRef) :=
  if i.op == .call || i.op == .callvirt then i.method? else none

/-- The number of the argument that is read, written or addressed. -/
def argIndex? (i : Instr) : Option Int :=
  match i.op with
  | .ldarg0 => some 0
  | .ldarg1 => some 1
  | .ldarg2 => some 2
  | .ldarg3 => some 3
  | .ldargS | .ldarg | .ldargaS | .ldarga | .stargS | .starg =>
    match i.operand with
    | .arg n => some n
    | _ => none
  | _ => none

/-- The number of the argument whose value is pushed. -/
def loadArg? (i : Instr) : Option Int :=
  match i.op with
  | .ldarg0 | .ldarg1 | .ldarg2 | .ldarg3 | .ldargS | .ldarg => i.argIndex?
  | _ => none

/-- The instruction pushes argument zero. -/
def loadsThis (i : Instr) : Bool :=
  i.loadArg? == some 0

/-- The 32-bit constant that is pushed. -/
def int32? (i : Instr) : Option Int32 :=
  match i.op with
  | .ldcI4M1 => some (-1)
  | .ldcI40 => some 0
  | .ldcI41 => some 1
  | .ldcI42 => some 2
  | .ldcI43 => some 3
  | .ldcI44 => some 4
  | .ldcI45 => some 5
  | .ldcI46 => some 6
  | .ldcI47 => some 7
  | .ldcI48 => some 8
  | .ldcI4S | .ldcI4 =>
    match i.operand with
    | .int32 v => some v
    | _ => none
  | _ => none

/-- The same instruction with another operation. -/
def become (i : Instr) (op : Opcode) (operand : Operand) : Instr :=
  { i with op, operand }

/-- The same instruction, doing nothing. -/
def idle (i : Instr) : Instr :=
  i.become .nop .none

end Instr

end JobWeave
