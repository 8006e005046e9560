import JobWeave.Document.Show
import JobWeave.Pass.Run

/-!
# Chains, plans and reports as documents
-/

namespace JobWeave.Show

/-- A delegate sequence of a method. -/
def delegate (b : Body) (d : Delegate) : Weave Json := do
  return .obj [("first", position b d.first), ("last", position b d.last),
    ("len", .ofNat d.labels.length), ("method", ← method? d.method),
    ("ctor", ← method (some d.ctor)), ("local", Json.ofOption slot d.slot?),
    ("capturesLocals", .bool d.capturesLocals),
    ("capturesThis", .bool d.capturesThis), ("cached", .bool d.cached)]

/-- A delegate sequence, or null. -/
def delegate? (b : Body) : Option Delegate → Weave Json
  | some d => delegate b d
  | none => return .null

/-- An argument of a modifier. -/
def literal : Option Literal → Weave Json
  | none => return .null
  | some (.int32 v) => return .int v.toInt
  | some (.text s) => return .obj [("s", .str s)]
  | some (.field f) => return .obj [("f", ← field? f)]

/-- A modifier of a chain. -/
def modifier (b : Body) (m : Modifier) : Weave Json := do
  return .obj [("name", .str m.name), ("method", ← method (some m.method)),
    ("typeArgs", ← types m.typeArgs), ("args", .arr (← m.args.mapM literal)),
    ("at", position b m.label)]

/-- Options for the native compiler. -/
def burstOptions (o : BurstOptions) : Json :=
  .arr [.int o.floatMode.toInt, .int o.floatPrecision.toInt,
    .bool o.compileSynchronously]

/-- A chain. -/
def chain (c : Chain) : Weave Json := do
  let b ← Weave.bodyOf c.method
  return .obj [("name", .str c.name), ("number", .int c.number),
    ("kind", .str c.kind.name), ("mode", .str c.mode.name),
    ("source", position b c.source), ("terminal", position b c.terminal),
    ("body", position b c.body),
    ("modifiers", .arr (← c.modifiers.mapM (modifier b))),
    ("lambda", .str (← Weave.methodName c.lambda)),
    ("delegate", ← delegate b c.delegate), ("structural", .bool c.structural),
    ("systemBase", .bool c.inSystemBase), ("noAlias", .bool c.noAlias),
    ("storeQuery", ← field? c.storeQuery), ("burst", .bool c.usesBurst),
    ("burstOptions", Json.ofOption burstOptions c.burstOptions?),
    ("implicit", .bool (c.usesDependency b)),
    ("allowRefs", .bool c.allowsReferences), ("class", .str c.className),
    ("capturesLocals", .bool c.capturesLocals),
    ("displayClass", ← definition? c.closure?),
    ("onSystem", .bool c.lambdaOnSystem),
    ("containing", ← definition? (some c.system))]

/-- A captured variable. -/
def captured (v : CapturedVariable) : Weave Json := do
  return .obj [("name", .str v.leaf.name),
    ("path", .arr (← v.path.mapM fun f => field (some f))),
    ("field", .str v.field.name), ("written", .bool v.written)]

/-- A component look-up. -/
def access (a : ComponentAccess) : Weave Json := do
  return .obj [("type", ← type a.type), ("field", .str a.field.name),
    ("readOnly", .bool a.readOnly)]

/-- The flags of a job's fields and methods. -/
def memberFlags (t : TypeDef) : Json :=
  .arr (t.head.fields.map (fun f => .arr [.str f.name, .ofNat f.flags.toNat]) ++
    t.methods.map fun m => .arr [.str m.name, .ofNat m.flags.toNat,
      .ofNat m.implFlags.toNat])

/-- A plan. -/
def plan (u : Plan) : Weave Json := do
  let w ← Weave.workspace
  let t := w.typeDef u.type
  let valid ← (w.type u.type).methods.mapM fun m => do
    let d := w.method m
    return check (d.validate (w.methodName m) (← Weave.bodyOf m))
  let init ← u.init.mapM fun s => do
    let i : Instr := { label := 0, op := s.1, operand := s.2 }
    return Json.str (← Weave.need (({} : Body).instrText? i))
  return .obj [("type", ← typeListing u.type),
    ("typeFlags", .ofNat t.head.flags.toNat), ("flags", memberFlags t),
    ("captured", .arr (← u.captured.mapM captured)),
    ("access", .arr (← u.access.mapM access)),
    ("cloned", Json.ofTexts (u.cloned.map fun m => (w.method m).name)),
    ("query", ← field? (u.query.map (w.fieldRef u.chain.system))),
    ("init", .arr init), ("valid", .arr valid),
    ("initRef", ← method (u.prepare.bind w.methodRef?)),
    ("self", ← type (w.typeRef u.type)), ("asStruct", .bool u.closureAsStruct),
    ("allowedThis", .bool u.servesSystem)]

/-- A job in a report. -/
def job (j : JobEntry) : Json :=
  .obj [("system", .str j.system), ("method", .str j.method),
    ("struct", .str j.struct), ("kind", .str j.kind), ("mode", .str j.mode),
    ("burst", .bool j.burst), ("closureAsStruct", .bool j.closureAsStruct)]

/-- A report and the failure of the pass as a whole. -/
def report (r : Report) (result : Except Failure Unit) : Json :=
  .obj ([("err", check result), ("module", .str r.module),
    ("systems", .int r.systems), ("jobs", .arr (r.jobs.map job)),
    ("diagnostics", .arr (r.diagnostics.map diagnostic)),
    ("hasErrors", .bool r.hasErrors), ("errors", .ofNat r.errors.length)] ++
    optional "first" (r.firstError?.map fun d => .str d.text))

end JobWeave.Show
