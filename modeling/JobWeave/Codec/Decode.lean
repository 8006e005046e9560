import JobWeave.Module
import JobWeave.Body.Validate
import JobWeave.Bytes.Reader
import JobWeave.Codec.Encode

/-!
# Reading modules

The reader of the binary form.  A failure tells the part of the module and the
byte position it was found at.  The instructions of a body get their positions
as labels.

Nested structures recurse on fuel: every level of a type reference or a type
definition takes a byte of its own, so the number of unread bytes is enough.
-/

namespace JobWeave.Codec

open JobWeave.Bytes

/-- Lists in the binary form have at most this many entries, 2^24. -/
def maxCount : Nat := 0x1000000

/-- Failures inside `act` belong to a part of the module. -/
def within {α : Type} (part : String) (act : Read α) : Read α := fun r =>
  match act r with
  | .error f r => .error (.parsing part r.position f) r
  | .ok a r => .ok a r

/-- Malformed content. -/
def malformed {α : Type} (path : List String) (detail : String) : Read α :=
  throw (.detailed (.invalidData .decode path detail))

/-- The length of a list. -/
def readCount : Read Nat := do
  let n ← Reader.u32
  if maxCount < n then
    throw (.detailed (.overflow .decode [] (toString n) "count"))
  else return n

/-- The results of `n` readings in order. -/
def times {α : Type} (act : Nat → Read α) : Nat → Nat → Read (List α)
  | 0, _ => return []
  | n + 1, i => do
    let a ← act i
    let as ← times act n (i + 1)
    return a :: as

/-- A list behind its length. -/
def listOf {α : Type} (act : Read α) : Read (List α) := do
  times (fun _ => act) (← readCount) 0

/-! ## References -/

/-- A type reference of bounded depth. -/
def typeRefUpTo : Nat → Read TypeRef
  | 0 => throw .truncated
  | fuel + 1 => do
    let tag ← Reader.byte
    match tag.toNat with
    | 0 => return .absent
    | 1 =>
      let ns ← Reader.name
      let n ← Reader.name
      let v ← Reader.bool
      let outer ← typeRefUpTo fuel
      let args ← listOf (typeRefUpTo fuel)
      return .named ns n v outer args
    | 2 => wrapper .byRef (← typeRefUpTo fuel)
    | 3 => wrapper .pointer (← typeRefUpTo fuel)
    | 4 => wrapper .array (← typeRefUpTo fuel)
    | 5 => return .typeParam (← Reader.u32)
    | 6 => return .methodParam (← Reader.u32)
    | n => malformed ["type"] ("unknown type tag " ++ toString n)
where
  /-- A wrapper needs an element. -/
  wrapper (k : Wrapper) (e : TypeRef) : Read TypeRef :=
    if e.isAbsent then malformed ["type"] "wrapper without element type"
    else return .wrapped k e []

/-- A type reference. -/
def readTypeRef : Read TypeRef := do
  typeRefUpTo ((← get).remaining + 1)

/-- A field reference. -/
def readFieldRef : Read FieldRef := do
  let owner ← readTypeRef
  let type ← readTypeRef
  let name ← Reader.name
  if owner.isAbsent then malformed ["field", name] "missing declaring type"
  else return { owner, type, name }

/-- A method reference. -/
def readMethodRef : Read MethodRef := do
  let owner ← readTypeRef
  let ret ← readTypeRef
  let name ← Reader.name
  let hasThis ← Reader.bool
  let params ← listOf readTypeRef
  let arity ← Reader.u32
  let typeArgs ← listOf readTypeRef
  if owner.isAbsent then malformed ["method", name] "missing declaring type"
  else return { owner, ret, name, params, typeArgs, arity, hasThis }

/-- A value behind the tag of its kind. -/
def readValue : Read Operand := do
  let tag ← Reader.byte
  match tag.toNat with
  | 0 => return .text (← Reader.name)
  | 1 => return .int32 (Int32.ofInt (← Reader.s32))
  | 2 => return .flag (← Reader.bool)
  | 3 => return .type (← readTypeRef)
  | 4 => return .field (some (← readFieldRef))
  | 5 => return .method (some (← readMethodRef))
  | n => malformed ["value"] ("unknown value tag " ++ toString n)

/-- An attribute. -/
def readAttribute : Read Attribute := do
  let type ← readTypeRef
  let args ← listOf readValue
  let named ← listOf do
    let n ← Reader.name
    return (n, ← readValue)
  return { type, args, named }

/-! ## Bodies -/

/-- The operand of an instruction; targets are kept as the positions read. -/
def readOperand (localCount : Nat) (kind : OperandKind) : Read Operand := do
  match kind with
  | .none => return .none
  | .arg => return .arg (← Reader.u32)
  | .slot =>
    let n ← Reader.u32
    if n < localCount then return .slot (.slot n)
    else throw (.detailed (.outOfBounds .decode ["local"] n localCount))
  | .int32 => return .int32 (Int32.ofInt (← Reader.s32))
  | .int64 => return .int64 (Int64.ofInt (← Reader.s64))
  | .float32 => return .float32 (UInt32.ofNat (← Reader.word32))
  | .float64 => return .float64 (UInt64.ofNat (← Reader.word64))
  | .text => return .text (← Reader.name)
  | .branch => return .target (← Reader.u32)
  | .table => return .targets (← listOf Reader.u32)
  | .type => return .type (← readTypeRef)
  | .field => return .field (some (← readFieldRef))
  | .method => return .method (some (← readMethodRef))
  | .token => readValue

/-- The instruction at a position. -/
def readInstr (localCount n : Nat) : Read Instr := do
  let raw ← Reader.u32
  let op := Opcode.ofNumber (UInt16.ofNat raw)
  if !op.isValid then
    malformed [] ("invalid opcode " ++ toString raw ++ " at instruction " ++
      toString n)
  else
    let operand ← readOperand localCount op.info.operand
    return { label := n, op, operand }

/-- A position inside a body of `size` instructions. -/
def inside (size n : Nat) : Read Unit :=
  if n < size then return ()
  else throw (.detailed (.outOfBounds .decode ["branch"] n size))

/-- A sequence point of a body of `size` instructions. -/
def readPoint (size : Nat) : Read SequencePoint := do
  let label ← Reader.u32
  inside size label
  let document ← Reader.name
  let line ← Reader.u32
  let column ← Reader.u32
  return { label, document, line, column }

/-- A body. -/
def readBody : Read Body := do
  let initLocals ← Reader.bool
  let locals ← listOf do
    let type ← readTypeRef
    return { type, name := ← Reader.name }
  let size ← readCount
  let code ← times (readInstr locals.length) size 0
  code.forM fun i => i.operand.labels.forM (inside size)
  let points ← listOf (readPoint size)
  return { code, locals, points, initLocals, fresh := size }

/-! ## Definitions -/

/-- A field. -/
def readField (owner : String) : Read FieldDef := do
  let name ← within ("fields of " ++ owner) Reader.name
  within ("field " ++ name) do
    let type ← readTypeRef
    let flags ← Reader.u32
    let attributes ← listOf readAttribute
    return { name, type, flags := UInt16.ofNat flags, attributes }

/-- A parameter. -/
def readParam : Read ParamDef := do
  let name ← Reader.name
  let type ← readTypeRef
  let flags ← Reader.byte
  let attributes ← listOf readAttribute
  return { name, type, flags, attributes }

/-- A method. -/
def readMethod : Read MethodDef := do
  let name ← within "method" Reader.name
  let part := "method " ++ name
  let (m, hasBody) ← within part do
    let flags ← Reader.u32
    let implFlags ← Reader.byte
    let ret ← readTypeRef
    let params ← listOf readParam
    let genericParams ← listOf Reader.name
    let attributes ← listOf readAttribute
    let hasBody ← Reader.bool
    let m : MethodDef :=
      { name, flags := UInt16.ofNat flags, implFlags, ret, params,
        genericParams, attributes }
    return (m, hasBody)
  if hasBody then
    let b ← within (part ++ " body") readBody
    return { m with body := some b }
  else return m

/-- A type without namespace, as types inside others are. -/
def asNested : TypeDef → TypeDef
  | .mk h ms ts => .mk { h with ns := "" } ms ts

/-- A type definition of bounded depth. -/
def typeDefUpTo : Nat → Read TypeDef
  | 0 => throw .truncated
  | fuel + 1 => do
    let ns ← within "type" Reader.name
    let name ← within "type" Reader.name
    let head ← within ("type " ++ name) do
      let flags ← Reader.u32
      let base ← readTypeRef
      let interfaces ← listOf readTypeRef
      let genericParams ← listOf Reader.name
      let attributes ← listOf readAttribute
      let head : TypeHead :=
        { ns, name, flags := UInt32.ofNat flags, base, interfaces,
          genericParams, attributes }
      return head
    let fieldCount ← within ("fields of " ++ name) readCount
    let fields ← times (fun _ => readField name) fieldCount 0
    let methodCount ← within ("methods of " ++ name) readCount
    let methods ← times (fun _ => readMethod) methodCount 0
    let nestedCount ← within ("nested types of " ++ name) readCount
    let nested ← times (fun _ => typeDefUpTo fuel) nestedCount 0
    return .mk { head with fields } methods (nested.map asNested)

/-- A type definition. -/
def readTypeDef : Read TypeDef := do
  typeDefUpTo ((← get).remaining + 1)

/-- A module, up to the end of the bytes. -/
def readModule : Read Module := do
  if (← within "header" Reader.word32) != magic then throw .badMagic
  if (← within "header" Reader.word32) != version then throw .badVersion
  let name ← within "module name" Reader.name
  let count ← within "types" readCount
  let types ← times (fun _ => readTypeDef) count 0
  let left := (← get).remaining
  if left != 0 then
    within "trailer"
      (throw (.plain (toString left ++ " trailing bytes")))
  else return { name, types }

/-- Reads a module. -/
def decode (data : List UInt8) : Except Failure Module :=
  match readModule (Reader.ofBytes data) with
  | .ok m _ => .ok m
  | .error f _ => .error f

/-- Reads a module and checks every body. -/
def decodeValid (data : List UInt8) : Except Failure Module := do
  let m ← decode data
  m.validate
  return m

end JobWeave.Codec
