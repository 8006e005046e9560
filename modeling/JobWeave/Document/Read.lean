import JobWeave.Document.Json
import JobWeave.Sample.Chain
import JobWeave.Codec.Decode

/-!
# Definitions as documents

Modules can be written by hand as JSON documents.  This module reads the parts:
types, fields, methods, instructions and definitions.

A type is a name in a text (`v:Ns.Outer/Inner` for one stored in place, `c:` for
a class, a word for the common types of `System`, else a variable) or an object
whose field tells its shape.  An instruction is an array of an opcode and an
operand; instructions and local variables are meant by index, and an index that
is out of range means one outside the body.
-/

namespace JobWeave.Document

/-- What a name in a document stands for. -/
inductive Var where
  | type (t : TypeRef)
  | field (f : FieldRef)
  | method (m : MethodRef)
  /-- a type of the sample under construction -/
  | definition (t : TypeId)
  /-- a method of the sample under construction -/
  | code (m : MethodId)
  /-- a local variable of a method -/
  | slot (m : MethodId) (index : Nat)
  /-- a branch target -/
  | mark (l : EmitMark)
  /-- a chain under construction -/
  | chain (c : Sample.Chain)
  deriving Inhabited

/-- The names in scope and the method that is being emitted. -/
structure Scope where
  /-- the names, the latest first -/
  vars : List (String × Var) := []
  /-- the method whose local variables are its own -/
  here : Option MethodId := none
  deriving Inhabited

namespace Scope

/-- A name without the dollar sign that it may be written with. -/
def bare (name : String) : String :=
  if name.startsWith "$" then (name.drop 1).toString else name

/-- What a name stands for. -/
def find? (sc : Scope) (name : String) : Option Var :=
  (sc.vars.find? (·.1 == bare name)).map (·.2)

/-- Lets a name stand for a value. -/
def define (sc : Scope) (name : String) (v : Var) : Scope :=
  { sc with vars := (bare name, v) :: sc.vars }

end Scope

/-- The document cannot be read. -/
def unreadable {α : Type} (what : String) : Weave α :=
  Weave.fail (.plain ("bad input: " ++ what))

/-! ## Types and members -/

/-- A text before and after the last occurrence of a character. -/
def splitLast (c : Char) (s : String) : String × String :=
  let cs := s.toList.reverse
  match cs.dropWhile (· != c) with
  | [] => ("", s)
  | _ :: front =>
    (String.ofList front.reverse, String.ofList (cs.takeWhile (· != c)).reverse)

/-- A type by its path; only the innermost may be stored in place. -/
def typeOfPath (valueType : Bool) (path : String) : TypeRef :=
  match path.splitOn "/" with
  | [] => .absent
  | first :: rest =>
    let (ns, name) := splitLast '.' first
    let outermost := TypeRef.ofName ns name (valueType && rest.isEmpty)
    (rest.zipIdx 1).foldl
      (fun t (part, n) => t.nestedIn part (valueType && n == rest.length))
      outermost

/-- Words for common types. -/
def commonTypes : List (String × TypeRef) :=
  [("void", .void), ("object", .object), ("valuetype", .valueType),
    ("int32", .int32), ("boolean", .boolean), ("single", .single),
    ("string", .string), ("intptr", .intPtr), ("delegate", .delegate)]

/-- A type given by a text.  A word always means one and the same reference,
which variables of other bodies may have for their type; so it comes with their
mark. -/
def typeOfText (sc : Scope) (s : String) : Weave TypeRef := do
  match commonTypes.find? (·.1 == s) with
  | some (_, t) =>
    return if (← get).foreignMarks.contains t then t.asValueType else t
  | none =>
    if s.startsWith "v:" then return typeOfPath true (s.drop 2).toString
    else if s.startsWith "c:" then return typeOfPath false (s.drop 2).toString
    else
      match sc.find? s with
      | some (.type t) => return t
      | some (.definition t) => Weave.typeRef t
      | _ => unreadable ("type " ++ s)

/-- A type given by a document of bounded depth. -/
def typeUpTo (sc : Scope) : Nat → Json → Weave TypeRef
  | 0, _ => return .absent
  | fuel + 1, j => do
    let inner := fun key => typeUpTo sc fuel (j.get key)
    if j.isNull then return .absent
    else if j.isText then typeOfText sc j.text
    else if j.mentions "byref" then return (← inner "byref").byRef
    else if j.mentions "ptr" then return (← inner "ptr").pointer
    else if j.mentions "array" then return (← inner "array").array
    else if j.has "gp" then return .typeParam (j.get "gp").toInt
    else if j.has "mgp" then return .methodParam (j.get "mgp").toInt
    else
      let name := (j.get "name").text
      let valueType := (j.get "vt").toBool
      let t ←
        if j.has "im" then
          match (j.get "im").texts with
          | [ns, name] => Weave.importType ns name
          | [ns, outer, name] => Weave.importNested ns outer name
          | _ => unreadable "im"
        else if j.mentions "gen" then inner "gen"
        else if j.mentions "in" then do
          pure ((← inner "in").nestedIn name valueType)
        else pure (.ofName (j.get "ns").text name valueType)
      if j.has "args" then
        let args ← (j.get "args").toList.mapM (typeUpTo sc fuel)
        if t.isAbsent then Weave.fault else return t.withArgs args
      else return t

/-- A type. -/
def type (sc : Scope) (j : Json) : Weave TypeRef :=
  typeUpTo sc (j.depth + 1) j

/-- A list of types. -/
def types (sc : Scope) (j : Json) : Weave (List TypeRef) :=
  j.toList.mapM (type sc)

/-- A field, or none. -/
def field (sc : Scope) (j : Json) : Weave (Option FieldRef) := do
  if j.isNull then return none
  else if j.isText then
    match sc.find? j.text with
    | some (.field f) => return some f
    | _ => unreadable ("field " ++ j.text)
  else
    let name := (j.get "name").text
    if j.mentions "im" then
      return some (← Weave.importField (← type sc (j.get "im")) name)
    else
      return some
        { name, owner := ← type sc (j.get "on"),
          type := ← type sc (j.get "type") }

/-- A method given by an object. -/
def methodOfObject (sc : Scope) (j : Json) : Weave MethodRef := do
  let name := (j.get "name").text
  if j.has "ctor" then
    match sc.find? (j.get "ctor").text with
    | some (.definition t) => Sample.constructorOf t
    | _ => unreadable "ctor"
  else if j.mentions "im" then
    let owner ← type sc (j.get "im")
    let first ← types sc (j.get "first")
    let arity := if j.has "arity" then (j.get "arity").toInt else -1
    let m ← Weave.importGenericMethod owner name (j.get "n").toInt arity first
    if j.has "gargs" then return m.instantiate (← types sc (j.get "gargs"))
    else return m
  else
    return { name, owner := ← type sc (j.get "on"),
             ret := ← type sc (j.get "ret"),
             params := ← types sc (j.get "params"),
             hasThis := (j.get "this").toBool, arity := (j.get "arity").toInt,
             typeArgs := ← types sc (j.get "gargs") }

/-- A method, or none. -/
def method (sc : Scope) (j : Json) : Weave (Option MethodRef) := do
  if j.isNull then return none
  else if j.isText then
    match sc.find? j.text with
    | some (.method m) => return some m
    | some (.code m) => return some (← Weave.methodRef m)
    | _ => unreadable ("method " ++ j.text)
  else
    let m ← methodOfObject sc j
    if j.mentions "onType" then
      return some (m.onType (← type sc (j.get "onType")))
    else return some m

/-! ## Instructions -/

/-- Reading with a body that indexes reach into. -/
abbrev InBody := StateT Body Weave

/-- An opcode by its mnemonic or its number. -/
def opcode (j : Json) : Opcode :=
  if j.isText then (Opcode.ofName? j.text).getD .nop
  else .ofNumber (UInt16.ofInt j.toInt)

/-- A variable of no body that is known. -/
def foreign (l : Local) (index : Int) : InBody LocalRef :=
  modifyGet fun b =>
    (.foreign b.fresh l.name l.type index, { b with fresh := b.fresh + 1 })

/-- A local variable by its slot or its name. -/
def slot (sc : Scope) (j : Json) : InBody LocalRef := do
  if j.isText then
    match sc.find? j.text with
    | some (.slot m n) =>
      if sc.here == some m then return .slot n
      else foreign (((← Weave.bodyOf m).locals[n]?).getD default) n
    | _ => unreadable ("local " ++ j.text)
  else
    let n := j.toInt
    if 0 ≤ n ∧ n < (← get).locals.length then return .slot n.toNat
    else foreign ⟨.object, "foreign"⟩ n

/-- An instruction by its index. -/
def label (j : Json) : InBody Label := do
  let n := j.toInt
  let b ← get
  match if n < 0 || j.isNull then none else b.code[n.toNat]? with
  | some i => return i.label
  | none => modifyGet fun b => b.stray.swap

/-- The number that hexadecimal digits stand for. -/
def hexNumber (s : String) : Nat :=
  s.foldl
    (fun n c =>
      n * 16 + (if c.isDigit then c.toNat - 48 else (c.toLower.toNat - 87)))
    0

/-- An operand whose kind is a key. -/
def operandOfKey (sc : Scope) (key : String) (v : Json) :
    InBody (Option Operand) := do
  match key with
  | "arg" => return some (.arg v.toInt)
  | "i4" => return some (.int32 (Int32.ofInt v.toInt))
  | "i8" => return some (.int64 (Int64.ofInt v.toInt))
  | "r4" => return some (.float32 (UInt32.ofNat (hexNumber v.text)))
  | "r8" => return some (.float64 (UInt64.ofNat (hexNumber v.text)))
  | "s" => return some (.text v.text)
  | "b" => return some (.flag v.toBool)
  | "loc" => return some (.slot (← slot sc v))
  | "ins" => return some (.target (← label v))
  | "sw" => return some (.targets (← v.toList.mapM label))
  | "t" => return some (.type (← type sc v))
  | "f" => return some (.field (← field sc v))
  | "m" => return some (.method (← method sc v))
  | _ => return none

/-- The key that tells the kind of an operand of an opcode. -/
def keyOf : OperandKind → String
  | .none => ""
  | .arg => "arg"
  | .slot => "loc"
  | .int32 => "i4"
  | .int64 => "i8"
  | .float32 => "r4"
  | .float64 => "r8"
  | .text => "s"
  | .branch => "ins"
  | .table => "sw"
  | .type | .token => "t"
  | .field => "f"
  | .method => "m"

/-- An operand that tells its kind by itself. -/
def taggedOperand (sc : Scope) (j : Json) : InBody (Option Operand) := do
  match j with
  | .obj [(key, v)] => operandOfKey sc key v
  | _ => return none

/-- An operand of an opcode. -/
def operand (sc : Scope) (kind : OperandKind) (j : Json) : InBody Operand := do
  match ← taggedOperand sc j with
  | some o => return o
  | none => return (← operandOfKey sc (keyOf kind) j).getD .none

/-- An instruction. -/
def step (sc : Scope) (j : Json) : InBody Step := do
  let op := opcode (j.at_ 0)
  match j.toList[1]? with
  | none => return (op, .none)
  | some o => return (op, ← operand sc op.info.operand o)

/-- Instructions before their operands are read. -/
def openSteps (j : Json) : List Step :=
  j.toList.map fun i => (opcode (i.at_ 0), .none)

/-- Reads the operands of instructions that are in place. -/
def fillSteps (sc : Scope) (new : List Instr) (j : Json) : InBody Unit :=
  (new.zip j.toList).forM fun (i, spec) => do
    let (op, o) ← step sc spec
    modify fun b => b.setAt i.label op o

/-- An attribute argument or a message argument. -/
def value (sc : Scope) (j : Json) : Weave Operand := do
  match j with
  | .null | .arr _ => return .none
  | .bool b => return .flag b
  | .str s => return .text s
  | .int n => return .int32 (Int32.ofInt n)
  | j => return ((← (taggedOperand sc j).run {}).1).getD .none

/-! ## Definitions -/

/-- A list of attributes. -/
def attributes (sc : Scope) (j : Json) : Weave (List Attribute) :=
  j.toList.mapM fun a => do
    return { type := ← type sc (a.get "type"),
             args := ← (a.get "args").toList.mapM (value sc),
             named := ← (a.get "named").toList.mapM fun p => do
               return ((p.at_ 0).text, ← value sc (p.at_ 1)) }

/-- A sequence point. -/
def point (j : Json) : InBody SequencePoint := do
  return { label := ← label (j.at_ 0), document := (j.at_ 1).text,
           line := (j.at_ 2).toInt, column := (j.at_ 3).toInt }

/-- A body. -/
def body (sc : Scope) (j : Json) : Weave Body := do
  let locals ← (j.get "locals").toList.mapM fun l => do
    return ({ type := ← type sc (l.at_ 0), name := (l.at_ 1).text } : Local)
  let b : Body := { locals, initLocals := (j.get "init").toBool }
  let new := b.labelled (openSteps (j.get "code"))
  let read : InBody Unit := do
    fillSteps sc new (j.get "code")
    (j.get "points").toList.forM fun p => do
      let p ← point p
      modify fun b => { b with points := b.points ++ [p] }
  return (← read.run (b.append new)).2

/-- A method definition. -/
def methodDef (sc : Scope) (j : Json) : Weave MethodDef := do
  let params ← (j.get "params").toList.mapM fun p => do
    return ({ name := (p.get "name").text, type := ← type sc (p.get "type"),
              flags := UInt8.ofInt (p.get "flags").toInt,
              attributes := ← attributes sc (p.get "attrs") } : ParamDef)
  let code ←
    if j.has "body" then some <$> body sc (j.get "body") else pure none
  return { name := (j.get "name").text,
           flags := UInt16.ofInt (j.get "flags").toInt,
           implFlags := UInt8.ofInt (j.get "impl").toInt,
           ret := ← type sc (j.get "ret"), params,
           genericParams := (j.get "gparams").texts,
           attributes := ← attributes sc (j.get "attrs"), body := code }

/-- A type definition of bounded depth; nested types have no namespace. -/
def typeDefUpTo (sc : Scope) : Nat → Bool → Json → Weave TypeDef
  | 0, _, _ => return default
  | fuel + 1, nested, j => do
    let fields ← (j.get "fields").toList.mapM fun f => do
      return ({ name := (f.get "name").text, type := ← type sc (f.get "type"),
                flags := UInt16.ofInt (f.get "flags").toInt,
                attributes := ← attributes sc (f.get "attrs") } : FieldDef)
    let head : TypeHead :=
      { ns := if nested then "" else (j.get "ns").text,
        name := (j.get "name").text,
        flags := UInt32.ofInt (j.get "flags").toInt,
        base := ← type sc (j.get "base"),
        interfaces := ← types sc (j.get "ifaces"),
        genericParams := (j.get "gparams").texts,
        attributes := ← attributes sc (j.get "attrs"), fields }
    let methods ← (j.get "methods").toList.mapM (methodDef sc)
    let inner ← (j.get "nested").toList.mapM (typeDefUpTo sc fuel true)
    return .mk head methods inner

/-- A type definition. -/
def typeDef (sc : Scope) (nested : Bool) (j : Json) : Weave TypeDef :=
  typeDefUpTo sc (j.depth + 1) nested j

/-- A module. -/
def module (j : Json) : Weave Module := do
  return { name := (j.get "name").text,
           types := ← (j.get "types").toList.mapM (typeDef {} false) }

/-- What is read against the framework alone, with the marks that the types of
variables of other bodies have by then. -/
def reading {α : Type} (act : Weave α) (marks : List TypeRef := []) :
    Outcome α :=
  match act { World.framework with foreignMarks := marks } with
  | .ok a _ => .ok a
  | .error s _ => .error s

end JobWeave.Document
