import JobWeave.Body
import JobWeave.Text.Template

/-!
# Operands in messages

Operands, and the references and instructions they hold, as arguments of message
templates.  References and instructions tell their own text; where a place asks
for something else they show their fields.
-/

namespace JobWeave

open Text (Arg Speech)

namespace TypeRef

/-- The number of a reference's shape. -/
def shapeNumber : TypeRef → Nat
  | wrapped .byRef _ _ => 1
  | wrapped .pointer _ _ => 2
  | wrapped .array _ _ => 3
  | param .type _ _ => 4
  | param .method _ _ => 5
  | _ => 0

mutual

/-- A type reference as an argument. -/
def asArg (t : TypeRef) : Arg :=
  let speech := Speech.ofName t.fullName?
  let made := fun (elem outer : Arg) (ns name : String) (as : List Arg)
      (position : Int) =>
    Arg.record "*il.TypeRef" speech [("Elem", elem), ("DeclaringType", outer),
      ("Namespace", .text ns), ("Name", .text name),
      ("Args", .sequence "[]*il.TypeRef" (!as.isEmpty) as),
      ("Position", .number "int" position),
      ("Kind", .word "il.TypeKind" t.shapeNumber),
      ("ValueType", .flag t.isValueType)]
  let vacant := Arg.vacant "*il.TypeRef" (.tells absentText)
  match t with
  | absent => vacant
  | named ns n _ o as => made vacant o.asArg ns n (asArgs as) 0
  | wrapped _ e as => made e.asArg vacant "" "" (asArgs as) 0
  | param _ p as => made vacant vacant "" "" (asArgs as) p

/-- Type references as arguments. -/
def asArgs : List TypeRef → List Arg
  | [] => []
  | t :: ts => t.asArg :: asArgs ts

end

/-- Several type references as one argument. -/
def listAsArg (ts : List TypeRef) : Arg :=
  .sequence "[]*il.TypeRef" (!ts.isEmpty) (asArgs ts)

end TypeRef

/-- A field reference as an argument. -/
def FieldRef.asArg : Option FieldRef → Arg
  | none => .vacant "*il.FieldRef" .fails
  | some f =>
    .record "*il.FieldRef" (Speech.ofName f.fullName?)
      [("DeclaringType", f.owner.asArg), ("Type", f.type.asArg),
        ("Name", .text f.name)]

/-- A method reference as an argument. -/
def MethodRef.asArg : Option MethodRef → Arg
  | none => .vacant "*il.MethodRef" .fails
  | some m =>
    .record "*il.MethodRef" (Speech.ofName m.fullName?)
      [("DeclaringType", m.owner.asArg), ("ReturnType", m.ret.asArg),
        ("Name", .text m.name), ("Params", TypeRef.listAsArg m.params),
        ("GenericArgs", TypeRef.listAsArg m.typeArgs),
        ("GenericArity", .number "int" m.arity), ("HasThis", .flag m.hasThis)]

namespace Body

/-- A local variable as an argument. -/
def localArg (b : Body) (l : LocalRef) : Arg :=
  let name :=
    match l with
    | .slot n => ((b.locals[n]?).map (·.name)).getD ""
    | .foreign _ s _ _ => s
  .record "*il.Local" .silent [("Type", (b.localType l).asArg),
    ("Name", .text name), ("Index", .number "int" l.index)]

/-- An instruction as an argument; `operand` is how its operand is shown. -/
def instrArg (b : Body) (operand : Operand → Arg) (l : Label) : Arg :=
  let i := b.get l
  .record "*il.Instruction" (Speech.ofName (b.instrText? i))
    [("Operand", operand i.operand),
      ("Op", .word "il.Opcode" i.op.number.toNat)]

/-- An operand as an argument, where `instr` shows the instructions it holds. -/
def operandArg (b : Body) (instr : Label → Arg) : Operand → Arg
  | .none => .nothing
  | .text s => .text s
  | .flag v => .flag v
  | .arg n => .number "int" n
  | .int32 v => .number "int32" v.toInt
  | .int64 v => .number "int64" v.toInt
  | .float32 x => .real "float32" Decimal.single x.toNat
  | .float64 x => .real "float64" Decimal.double x.toNat
  | .slot l => b.localArg l
  | .target l => instr l
  | .targets ls => .sequence "[]*il.Instruction" true (ls.map instr)
  | .type t => t.asArg
  | .field f => FieldRef.asArg f
  | .method m => MethodRef.asArg m

end Body

/-- An operand as an argument of a message.  Instructions show their operands,
and of the instructions those point at only the text. -/
def Operand.asArg (b : Body) (o : Operand) : Arg :=
  let inner := b.operandArg (b.instrArg fun _ => .nothing)
  b.operandArg (b.instrArg inner) o

/-- A value as messages show it. -/
def Body.display (b : Body) (o : Operand) : String :=
  (o.asArg b).display

end JobWeave
