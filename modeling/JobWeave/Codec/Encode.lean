import JobWeave.Module
import JobWeave.Body.Argument
import JobWeave.Bytes.Writer

/-!
# Writing modules

The binary form of a module: a magic number, a format version, and the
definitions in order.  Lists are written behind their length, references behind
a tag.  Instructions and local variables are written by position, so a body that
mentions one of another body has no binary form.
-/

namespace JobWeave.Codec

open JobWeave.Bytes

/-- The four bytes every module starts with, as a number. -/
def magic : Nat := 0x4c494a4c

/-- The version of the format. -/
def version : Nat := 1

/-- A list behind its length. -/
def counted (parts : List (List UInt8)) : List UInt8 :=
  u32 parts.length ++ parts.flatten

/-! ## References -/

mutual

/-- A type reference. -/
def typeRef : TypeRef → List UInt8
  | .absent => [0]
  | .wrapped .byRef e _ => 2 :: typeRef e
  | .wrapped .pointer e _ => 3 :: typeRef e
  | .wrapped .array e _ => 4 :: typeRef e
  | .param .type p _ => 5 :: u32 p
  | .param .method p _ => 6 :: u32 p
  | .named ns n v o as =>
    1 :: name ns ++ name n ++ bool v ++ typeRef o ++ u32 as.length ++
      typeRefParts as

/-- Type references one after another. -/
def typeRefParts : List TypeRef → List UInt8
  | [] => []
  | t :: ts => typeRef t ++ typeRefParts ts

end

/-- A list of type references. -/
def typeRefs (ts : List TypeRef) : List UInt8 :=
  u32 ts.length ++ typeRefParts ts

/-- A field reference. -/
def fieldRef (f : FieldRef) : List UInt8 :=
  typeRef f.owner ++ typeRef f.type ++ name f.name

/-- A method reference. -/
def methodRef (m : MethodRef) : List UInt8 :=
  typeRef m.owner ++ typeRef m.ret ++ name m.name ++ bool m.hasThis ++
    typeRefs m.params ++ u32 m.arity ++ typeRefs m.typeArgs

/-- An attribute argument or a token behind the tag of its kind.  Values of
other kinds have no such form. -/
def value? : Operand → Outcome (Option (List UInt8))
  | .text s => .ok (some (0 :: name s))
  | .int32 v => .ok (some (1 :: s32 v.toInt))
  | .flag b => .ok (some (2 :: bool b))
  | .type t => .ok (some (3 :: typeRef t))
  | .field (some f) => .ok (some (4 :: fieldRef f))
  | .method (some m) => .ok (some (5 :: methodRef m))
  | .field none | .method none => Outcome.fault
  | _ => .ok none

/-- An attribute argument; a value that has no form of its own is written as the
text that messages show. -/
def argument (v : Operand) : Outcome (List UInt8) := do
  match ← value? v with
  | some bs => return bs
  | none => return 0 :: name (({} : Body).display v)

/-- A list of attributes. -/
def attributes (as : List Attribute) : Outcome (List UInt8) := do
  let parts ← as.mapM fun a => do
    let args ← a.args.mapM argument
    let named ← a.named.mapM fun (n, v) => do return name n ++ (← argument v)
    return typeRef a.type ++ counted args ++ counted named
  return counted parts

/-! ## Bodies -/

/-- The text of an instruction inside a message. -/
def shownInstr (b : Body) (l : Label) : String :=
  (b.instrText? (b.get l)).getD (TypeRef.nameless "v")

/-- The position of a branch target. -/
def target (b : Body) (l : Label) : Except String (List UInt8) :=
  match b.lastIndexOf? l with
  | some n => .ok (u32 n)
  | none => .error ("branch target " ++ shownInstr b l ++ " not in body")

/-- The operand of an instruction.  A missing constant is written as zero or the
empty text. -/
def operand (b : Body) (i : Instr) : Outcome (Except String (List UInt8)) :=
  let op := i.op.name
  match i.op.info.operand, i.operand with
  | .none, _ => .ok (.ok [])
  | .arg, .arg n => .ok (.ok (u32 n))
  | .arg, .none => .ok (.ok (u32 0))
  | .arg, _ => .ok (.error (op ++ " wants an argument index"))
  | .slot, .slot (.slot n) =>
    if n < b.locals.length then .ok (.ok (u32 n))
    else .ok (.error (op ++ " refers to a foreign local"))
  | .slot, _ => .ok (.error (op ++ " refers to a foreign local"))
  | .int32, .int32 v => .ok (.ok (s32 v.toInt))
  | .int32, _ => .ok (.ok (s32 0))
  | .int64, .int64 v => .ok (.ok (s64 v.toInt))
  | .int64, _ => .ok (.ok (s64 0))
  | .float32, .float32 x => .ok (.ok (word32 x.toNat))
  | .float32, _ => .ok (.ok (word32 0))
  | .float64, .float64 x => .ok (.ok (word64 x.toNat))
  | .float64, _ => .ok (.ok (word64 0))
  | .text, .text s => .ok (.ok (name s))
  | .text, _ => .ok (.ok (name ""))
  | .branch, .target l => .ok (target b l)
  | .branch, _ => .ok (.error "branch target <nil> not in body")
  | .table, .targets ls =>
    .ok (do return counted (← ls.mapM (target b)))
  | .table, _ => .ok (.ok (u32 0))
  | .type, .type t => .ok (.ok (typeRef t))
  | .type, _ => .ok (.ok (typeRef .absent))
  | .field, .field (some f) => .ok (.ok (fieldRef f))
  | .field, .field none => Outcome.fault
  | .field, _ => .ok (.error (op ++ " wants a field"))
  | .method, .method (some m) => .ok (.ok (methodRef m))
  | .method, .method none => Outcome.fault
  | .method, _ => .ok (.error (op ++ " wants a method"))
  | .token, o => do
    match ← value? o with
    | some bs => return .ok bs
    | none => return .error ("unsupported value " ++ o.kindName)

/-- A body has no binary form. -/
def unwritable {α : Type} (why : String) : Outcome α :=
  Outcome.fail (.plain why)

/-- The instruction at a position. -/
def instr (b : Body) (n : Nat) (i : Instr) : Outcome (List UInt8) := do
  let at_ := "instruction " ++ toString n ++ ": "
  if !i.op.isValid then
    unwritable (at_ ++ "invalid opcode " ++ toString i.op.number.toNat)
  else
    match ← operand b i with
    | .ok bs => return u32 i.op.number.toNat ++ bs
    | .error why => unwritable (at_ ++ why)

/-- A sequence point. -/
def point (b : Body) (p : SequencePoint) : Outcome (List UInt8) :=
  match target b p.label with
  | .ok bs => .ok (bs ++ name p.document ++ u32 p.line ++ u32 p.column)
  | .error why => unwritable ("sequence point: " ++ why)

/-- A body. -/
def body (b : Body) : Outcome (List UInt8) := do
  let locals := b.locals.map fun l => typeRef l.type ++ name l.name
  let code ← (b.code.mapIdx fun n i => (n, i)).mapM fun (n, i) => instr b n i
  let points ← b.points.mapM (point b)
  return bool b.initLocals ++ counted locals ++ counted code ++ counted points

/-! ## Definitions -/

/-- Failures of a body name the method. -/
def inMethod {α : Type} (fullName : String) : Outcome α → Outcome α
  | .error (.failed f) =>
    Outcome.fail (.caused
      { phase := .encode, kind := .invalidData, member := fullName } f)
  | r => r

/-- A parameter. -/
def param (p : ParamDef) : Outcome (List UInt8) := do
  return name p.name ++ typeRef p.type ++ [p.flags] ++
    (← attributes p.attributes)

/-- A method of the given full name. -/
def method (fullName : String) (m : MethodDef) : Outcome (List UInt8) := do
  let params ← m.params.mapM param
  let attrs ← attributes m.attributes
  let front := name m.name ++ u32 m.flags.toNat ++ [m.implFlags] ++
    typeRef m.ret ++ counted params ++ counted (m.genericParams.map name) ++
      attrs
  match m.body with
  | none => return front ++ bool false
  | some b => return front ++ bool true ++ (← inMethod fullName (body b))

/-- A field. -/
def field (f : FieldDef) : Outcome (List UInt8) := do
  return name f.name ++ typeRef f.type ++ u32 f.flags.toNat ++
    (← attributes f.attributes)

/-- A type's own part, before its methods. -/
def typeHead (h : TypeHead) : Outcome (List UInt8) := do
  let attrs ← attributes h.attributes
  let fields ← h.fields.mapM field
  return name h.ns ++ name h.name ++ u32 h.flags.toNat ++ typeRef h.base ++
    typeRefs h.interfaces ++ counted (h.genericParams.map name) ++ attrs ++
    counted fields

mutual

/-- A type of the given outer type. -/
def typeDef (outer : Option String) : TypeDef → Outcome (List UInt8)
  | .mk h ms nested => do
    let fullName := TypeDef.qualifiedName outer h
    let front ← typeHead h
    let methods ← ms.mapM fun m => method (fullName ++ "::" ++ m.name) m
    let inner ← typeDefParts (some fullName) nested
    return front ++ counted methods ++ u32 nested.length ++ inner

/-- Types one after another. -/
def typeDefParts (outer : Option String) : List TypeDef → Outcome (List UInt8)
  | [] => return []
  | t :: ts => do
    let first ← typeDef outer t
    let rest ← typeDefParts outer ts
    return first ++ rest

end

/-- The binary form of a module. -/
def encode (m : Module) : Outcome (List UInt8) := do
  let types ← typeDefParts none m.types
  return word32 magic ++ word32 version ++ name m.name ++
    u32 m.types.length ++ types

end JobWeave.Codec
