import Mathlib
import JobWeave.Codec.Decode

/-!
# Modules that have a binary form

What a module has to be like so that it can be written and read back, and what
it means that two modules are the same.

* `Module.Fits` goes through a module: names and lists fit behind their lengths,
  numbers into their places, references are complete, and the code of a body
  points into that body.
* Three things can still go wrong, and `Module.Fits true` rules them out as
  well: an opcode that there is not, a sequence point outside the code, and
  arguments of a reference that is not a named type.
* `Module.Alike` compares modules up to the labels of their instructions, which
  only tell the instructions of one body apart, and `Module.RoundTrips` says
  that a module is written and read back as the same one.
-/

namespace JobWeave

open Codec

namespace Codec

/-- A name fits behind its length. -/
def NameFits (s : String) : Prop :=
  s.utf8ByteSize < 2 ^ 32

/-- A list fits behind its length. -/
def ListFits {α : Type} (xs : List α) : Prop :=
  xs.length ≤ maxCount

/-- A number fits into 32 bits. -/
def NumberFits (n : Int) : Prop :=
  0 ≤ n ∧ n < 2 ^ 32

instance (s : String) : Decidable (NameFits s) :=
  inferInstanceAs (Decidable (_ < _))

instance {α : Type} (xs : List α) : Decidable (ListFits xs) :=
  inferInstanceAs (Decidable (_ ≤ _))

theorem listFits_nil {α : Type} : ListFits ([] : List α) :=
  Nat.zero_le _

instance (n : Int) : Decidable (NumberFits n) :=
  inferInstanceAs (Decidable (_ ∧ _))

end Codec

/-! ## References -/

/-- A type reference with its parts.  Only named types have arguments, if
`strict`. -/
inductive TypeRef.Fits (strict : Bool) : TypeRef → Prop
  | absent : Fits strict .absent
  | named {ns name : String} {valueType : Bool} {outer : TypeRef}
    {args : List TypeRef} :
    NameFits ns → NameFits name → Fits strict outer → ListFits args →
    (∀ a ∈ args, Fits strict a) →
    Fits strict (.named ns name valueType outer args)
  | wrapped {kind : Wrapper} {elem : TypeRef} {args : List TypeRef} :
    elem.isPresent → Fits strict elem → ListFits args →
    (∀ a ∈ args, Fits strict a) → (strict → args = []) →
    Fits strict (.wrapped kind elem args)
  | param {owner : ParamOwner} {position : Int} {args : List TypeRef} :
    NumberFits position → ListFits args → (∀ a ∈ args, Fits strict a) →
    (strict → args = []) → Fits strict (.param owner position args)

/-- A list of type references. -/
structure TypeRef.AllFit (strict : Bool) (ts : List TypeRef) : Prop where
  /-- their number -/
  count : ListFits ts
  /-- each of them -/
  each : ∀ t ∈ ts, t.Fits strict

/-- A field reference. -/
structure FieldRef.Fits (strict : Bool) (f : FieldRef) : Prop where
  /-- the field has an owner -/
  hasOwner : f.owner.isPresent
  /-- the owner -/
  owner : f.owner.Fits strict
  /-- the type -/
  type : f.type.Fits strict
  /-- the name -/
  name : NameFits f.name

/-- A method reference. -/
structure MethodRef.Fits (strict : Bool) (m : MethodRef) : Prop where
  /-- the method has an owner -/
  hasOwner : m.owner.isPresent
  /-- the owner -/
  owner : m.owner.Fits strict
  /-- the type of the result -/
  ret : m.ret.Fits strict
  /-- the name -/
  name : NameFits m.name
  /-- the types of the parameters -/
  params : TypeRef.AllFit strict m.params
  /-- the number of generic parameters -/
  arity : NumberFits m.arity
  /-- the arguments -/
  typeArgs : TypeRef.AllFit strict m.typeArgs

/-- A value of one of the kinds that attribute arguments and tokens have. -/
def Operand.ValueFits (strict : Bool) : Operand → Prop
  | .text s => NameFits s
  | .int32 _ | .flag _ => True
  | .type t => t.Fits strict
  | .field (some f) => f.Fits strict
  | .method (some m) => m.Fits strict
  | _ => False

/-- An attribute. -/
structure Attribute.Fits (strict : Bool) (a : Attribute) : Prop where
  /-- the type -/
  type : a.type.Fits strict
  /-- the number of arguments by position -/
  argCount : ListFits a.args
  /-- the arguments by position -/
  args : ∀ v ∈ a.args, v.ValueFits strict
  /-- the number of arguments by name -/
  namedCount : ListFits a.named
  /-- the arguments by name -/
  named : ∀ v ∈ a.named, NameFits v.1 ∧ v.2.ValueFits strict

/-- A list of attributes. -/
structure Attribute.AllFit (strict : Bool) (as : List Attribute) : Prop where
  /-- their number -/
  count : ListFits as
  /-- each of them -/
  each : ∀ a ∈ as, a.Fits strict

/-- A list of names. -/
structure Codec.NamesFit (names : List String) : Prop where
  /-- their number -/
  count : ListFits names
  /-- each of them -/
  each : ∀ s ∈ names, NameFits s

/-! ## Bodies -/

/-- The labels of the code in order. -/
def Body.labels (b : Body) : List Label :=
  b.code.map (·.label)

/-- An operand of the kind, which points into the body. -/
def Operand.Suits (strict : Bool) (b : Body) : OperandKind → Operand → Prop
  | .none, .none => True
  | .arg, .arg n => NumberFits n
  | .slot, .slot (.slot n) => n < b.locals.length
  | .int32, .int32 _ => True
  | .int64, .int64 _ => True
  | .float32, .float32 _ => True
  | .float64, .float64 _ => True
  | .text, .text s => NameFits s
  | .branch, .target l => l ∈ b.labels
  | .table, .targets ls => ListFits ls ∧ ∀ l ∈ ls, l ∈ b.labels
  | .type, .type t => t.Fits strict
  | .field, .field (some f) => f.Fits strict
  | .method, .method (some m) => m.Fits strict
  | .token, o => o.ValueFits strict
  | _, _ => False

/-- A local variable. -/
structure Local.Fits (strict : Bool) (l : Local) : Prop where
  /-- the type -/
  type : l.type.Fits strict
  /-- the name -/
  name : NameFits l.name

/-- A sequence point, its instruction apart. -/
structure SequencePoint.Fits (p : SequencePoint) : Prop where
  /-- the document -/
  document : NameFits p.document
  /-- the line -/
  line : NumberFits p.line
  /-- the column -/
  column : NumberFits p.column

/-- A body: every instruction is in it once, and what its code points at is in
it. -/
structure Body.Fits (strict : Bool) (b : Body) : Prop where
  /-- the number of local variables -/
  localCount : ListFits b.locals
  /-- the local variables -/
  locals : ∀ l ∈ b.locals, l.Fits strict
  /-- the number of instructions -/
  codeCount : ListFits b.code
  /-- no instruction is there twice -/
  nodup : b.labels.Nodup
  /-- the operands -/
  operands : ∀ i ∈ b.code, i.operand.Suits strict b i.op.info.operand
  /-- the number of sequence points -/
  pointCount : ListFits b.points
  /-- the sequence points -/
  points : ∀ p ∈ b.points, p.Fits
  /-- the opcodes are known, if `strict` -/
  known : strict → ∀ i ∈ b.code, i.op.isValid
  /-- the sequence points are in the code, if `strict` -/
  placed : strict → ∀ p ∈ b.points, p.label ∈ b.labels

/-! ## Definitions -/

/-- A field. -/
structure FieldDef.Fits (strict : Bool) (f : FieldDef) : Prop where
  /-- the name -/
  name : NameFits f.name
  /-- the type -/
  type : f.type.Fits strict
  /-- the attributes -/
  attributes : Attribute.AllFit strict f.attributes

/-- A parameter. -/
structure ParamDef.Fits (strict : Bool) (p : ParamDef) : Prop where
  /-- the name -/
  name : NameFits p.name
  /-- the type -/
  type : p.type.Fits strict
  /-- the attributes -/
  attributes : Attribute.AllFit strict p.attributes

/-- A method. -/
structure MethodDef.Fits (strict : Bool) (m : MethodDef) : Prop where
  /-- the name -/
  name : NameFits m.name
  /-- the type of the result -/
  ret : m.ret.Fits strict
  /-- the number of parameters -/
  paramCount : ListFits m.params
  /-- the parameters -/
  params : ∀ p ∈ m.params, p.Fits strict
  /-- the names of the generic parameters -/
  genericParams : NamesFit m.genericParams
  /-- the attributes -/
  attributes : Attribute.AllFit strict m.attributes
  /-- the code -/
  body : ∀ b, m.body = some b → b.Fits strict

/-- What a type says of itself. -/
structure TypeHead.Fits (strict : Bool) (h : TypeHead) : Prop where
  /-- the namespace -/
  ns : NameFits h.ns
  /-- the name -/
  name : NameFits h.name
  /-- the base type -/
  base : h.base.Fits strict
  /-- the interfaces -/
  interfaces : TypeRef.AllFit strict h.interfaces
  /-- the names of the generic parameters -/
  genericParams : NamesFit h.genericParams
  /-- the attributes -/
  attributes : Attribute.AllFit strict h.attributes
  /-- the number of fields -/
  fieldCount : ListFits h.fields
  /-- the fields -/
  fields : ∀ f ∈ h.fields, f.Fits strict

/-- A type; those inside it have no namespace. -/
inductive TypeDef.Fits (strict : Bool) : TypeDef → Prop
  | mk {head : TypeHead} {methods : List MethodDef} {nested : List TypeDef} :
    head.Fits strict → ListFits methods → (∀ m ∈ methods, m.Fits strict) →
    ListFits nested → (∀ t ∈ nested, Fits strict t) →
    (∀ t ∈ nested, t.head.ns = "") → Fits strict (.mk head methods nested)

/-- A module. -/
structure Module.Fits (strict : Bool) (m : Module) : Prop where
  /-- the name -/
  name : NameFits m.name
  /-- the number of types -/
  count : ListFits m.types
  /-- the types -/
  types : ∀ t ∈ m.types, t.Fits strict

/-! ## The same up to labels -/

/-- The operand with other labels. -/
def Operand.relabel (f : Label → Label) : Operand → Operand
  | .target l => .target (f l)
  | .targets ls => .targets (ls.map f)
  | o => o

/-- The instruction with other labels. -/
def Instr.relabel (f : Label → Label) (i : Instr) : Instr :=
  { label := f i.label, op := i.op, operand := i.operand.relabel f }

/-- The sequence point with another label. -/
def SequencePoint.relabel (f : Label → Label) (p : SequencePoint) :
    SequencePoint :=
  { p with label := f p.label }

/-- The labels that a body mentions. -/
def Body.mentions (b : Body) : List Label :=
  b.labels ++ b.code.flatMap (·.operand.labels) ++ b.points.map (·.label)

/-- The bodies are the same up to labels: one becomes the other when its labels
are changed in a way that keeps different ones apart. -/
structure Body.Alike (b b' : Body) : Prop where
  /-- local variables -/
  locals : b'.locals = b.locals
  /-- whether they are initialised -/
  initLocals : b'.initLocals = b.initLocals
  /-- instructions and sequence points -/
  code : ∃ f : Label → Label, Set.InjOn f {l | l ∈ b.mentions} ∧
    b'.code = b.code.map (·.relabel f) ∧ b'.points = b.points.map (·.relabel f)

/-- The methods are the same up to the labels in their code. -/
structure MethodDef.Alike (m m' : MethodDef) : Prop where
  /-- all but the code -/
  head : { m' with body := none } = { m with body := none }
  /-- the code -/
  body : Option.Rel Body.Alike m.body m'.body

mutual

/-- The types are the same up to labels. -/
def TypeDef.Alike : TypeDef → TypeDef → Prop
  | .mk h ms ts, .mk h' ms' ts' =>
    h' = h ∧ List.Forall₂ MethodDef.Alike ms ms' ∧ TypeDef.AllAlike ts ts'

/-- The types are the same up to labels, one by one. -/
def TypeDef.AllAlike : List TypeDef → List TypeDef → Prop
  | [], [] => True
  | t :: ts, t' :: ts' => t.Alike t' ∧ TypeDef.AllAlike ts ts'
  | _, _ => False

end

/-- The modules are the same up to labels. -/
structure Module.Alike (m m' : Module) : Prop where
  /-- the name -/
  name : m'.name = m.name
  /-- the types -/
  types : TypeDef.AllAlike m.types m'.types

/-- The module is written, and read back as the same module up to labels. -/
def Module.RoundTrips (m : Module) : Prop :=
  ∃ bs m', encode m = .ok bs ∧ decode bs = .ok m' ∧ m.Alike m'

end JobWeave
