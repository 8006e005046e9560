import JobWeave.Document.Json
import JobWeave.Workspace.Weave
import JobWeave.Listing

/-!
# Results as documents

What the library computes, written as JSON values: failures and diagnostics,
types and methods by name, instructions by position.
-/

namespace JobWeave.Show

/-- Bytes as pairs of hexadecimal digits. -/
def hex (bs : List UInt8) : Json :=
  .str (String.ofList (bs.flatMap fun b => Text.hexDigits 2 b.toNat))

/-- A word of some width in hexadecimal digits. -/
def hexWord (width n : Nat) : Json :=
  .str (String.ofList (Text.hexDigits width n))

/-- A field that is left out when it has no value. -/
def optional (name : String) : Option Json → List (String × Json)
  | some v => [(name, v)]
  | none => []

/-! ## Failures -/

/-- The fields of a diagnostic. -/
def diagnosticFields (d : Diagnostic) : List (String × Json) :=
  let l := d.location
  [("code", .str d.code.text), ("message", .str d.message),
    ("method", .str d.method), ("severity", .str d.severity.text),
    ("location", .arr [.str l.file, .int l.line, .int l.column])]

/-- A diagnostic. -/
def diagnostic (d : Diagnostic) : Json :=
  .obj (diagnosticFields d)

/-- A failure: its sort, its text and what else that sort has. -/
def failure (f : Failure) : Json :=
  let described := fun (kind : String) (more : List (String × Json)) =>
    Json.obj ([("error", .str kind), ("message", .str f.message)] ++ more)
  match f.note?, f.parse?, f.details? with
  | some d, _, _ => .obj (("error", .str "diag") :: diagnosticFields d)
  | none, some (part, position), d =>
    described "parse"
      ([("section", .str part), ("position", .ofNat position)] ++
        optional "kind" (d.map fun d => .str d.kind.name))
  | none, none, some d =>
    described d.kind.name
      (("phase", .str d.phase.name) ::
        if d.member = "" then [] else [("member", .str d.member)])
  | none, none, none =>
    if f.any (· == .badMagic) then described "magic" []
    else if f.any (· == .badVersion) then described "version" []
    else described "error" []

/-- Why there is no result. -/
def stop : Stop → Json
  | .failed f => failure f
  | .fault s =>
    .obj (("error", .str "panic") :: optional "message" (s.map Json.str))

/-- A result, or the failure in its place. -/
def except {α : Type} (f : α → Json) : Except Failure α → Json
  | .ok a => f a
  | .error e => failure e

/-- The failure of a check, if it fails. -/
def check : Except Failure Unit → Json :=
  except fun _ => .null

/-! ## Names -/

/-- A type by its full name, which it must have. -/
def type (t : TypeRef) : Weave Json := do
  return .str (← Weave.need t.fullName?)

/-- A list of types. -/
def types (ts : List TypeRef) : Weave Json := do
  return .arr (← ts.mapM type)

/-- A field that must be there, by its full name. -/
def field (f : Option FieldRef) : Weave Json := do
  return .str (← Weave.need (f.bind (·.fullName?)))

/-- A method that must be there, by its full name. -/
def method (m : Option MethodRef) : Weave Json := do
  return .str (← Weave.need (m.bind (·.fullName?)))

/-- A field or null. -/
def field? : Option FieldRef → Weave Json
  | none => return .null
  | f => field f

/-- A method or null. -/
def method? : Option MethodRef → Weave Json
  | none => return .null
  | m => method m

/-- A type definition by its full name, or null. -/
def definition? : Option TypeId → Weave Json
  | none => return .null
  | some t => return .str (← Weave.typeName t)

/-! ## Listings -/

/-- The listing of a method. -/
def methodListing (m : MethodId) : Weave Json := do
  return .str (← Weave.need (Listing.method? "" (← Weave.methodDef m)))

/-- The listing of a type. -/
def typeListing (t : TypeId) : Weave Json := do
  let w ← Weave.workspace
  let outer := (w.type t).outer.map w.typeName
  return .str (← Weave.need (Listing.type? outer "" (w.typeDef t)))

/-! ## Code -/

/-- The position of an instruction, or -1 outside the code. -/
def position (b : Body) (l : Label) : Json :=
  .int (((b.indexOf? l).map Int.ofNat).getD (-1))

/-- The position of an instruction, or null for none. -/
def position? (b : Body) : Option Label → Json :=
  Json.ofOption (position b)

/-- A sequence point, or null. -/
def point? (b : Body) : Option SequencePoint → Json :=
  Json.ofOption fun p =>
    .arr [position b p.label, .str p.document, .int p.line, .int p.column]

/-- The slot of a local variable, or -1 for one of another body. -/
def slot : LocalRef → Json
  | .slot n => .ofNat n
  | .foreign .. => .int (-1)

/-- What an instruction is about. -/
def instr (b : Body) (i : Instr) : Weave Json := do
  let text ← Weave.need (b.instrText? i)
  let invokes ←
    match i.invokes? with
    | some m => some <$> method m
    | none => pure none
  let field ←
    match i.field? with
    | some (some f) => some <$> field (some f)
    | _ => pure none
  return .obj
    ([("text", .str text), ("valid", .bool i.op.isValid),
      ("branch", .bool i.op.isBranch), ("call", .bool i.op.isCall),
      ("this", .bool i.loadsThis)] ++
    optional "arg" (i.argIndex?.map Json.int) ++
    optional "loadArg" (i.loadArg?.map Json.int) ++
    optional "int32" (i.int32?.map fun v => .int v.toInt) ++
    optional "invokes" invokes ++ optional "field" field ++
    optional "local" ((b.localOf? i).map slot) ++
    optional "loadLocal" ((b.loadedLocal? i).map slot) ++
    optional "storeLocal" ((b.storedLocal? i).map slot))

/-! ## Definitions -/

/-- What a method is about. -/
def methodInfo (m : MethodId) : Weave Json := do
  let w ← Weave.workspace
  let d := w.method m
  let args ← (List.range (d.argCount + 1)).mapM fun (n : Nat) => do
    let t ← Weave.need (w.argType? m n)
    let param := Json.ofOption (fun (p : ParamDef) => .str p.name) (d.param? n)
    return .arr [← type t, param]
  return .obj [("name", .str (w.methodName m)),
    ("ref", ← method (w.methodRef? m)), ("args", .arr args),
    ("ctor", .bool d.isConstructor), ("void", .bool d.returnsVoid),
    ("static", .bool d.isStatic)]

/-- What a type is about. -/
def typeInfo (t : TypeId) : Weave Json := do
  let w ← Weave.workspace
  let h := (w.type t).head
  return .obj [("name", .str (w.typeName t)), ("ref", ← type (w.typeRef t)),
    ("self", ← type (w.selfRef t)),
    ("refValueType", .bool (w.typeRef t).isValueType),
    ("valueType", .bool h.isValueType), ("interface", .bool h.isInterface),
    ("class", .bool h.isClass), ("generated", .bool h.isCompilerGenerated),
    ("display", .bool (isClosureName h.name)),
    ("methods", .arr (← (w.type t).methods.mapM methodInfo))]

/-- The flags and attributes in a type definition. -/
def flags (t : TypeDef) : Json :=
  let marks := fun (as : List Attribute) =>
    Json.ofTexts (as.map fun a => a.type.shown "v")
  let param := fun (p : ParamDef) =>
    Json.arr [.str p.name, .ofNat p.flags.toNat, marks p.attributes]
  .arr ([.ofNat t.head.flags.toNat] ++
    t.head.fields.map (fun f => .arr [.str f.name, .ofNat f.flags.toNat]) ++
    t.methods.map fun m => .arr [.str m.name, .ofNat m.flags.toNat,
      .arr (m.params.map param), marks m.attributes])

end JobWeave.Show
