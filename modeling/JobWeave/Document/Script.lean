import JobWeave.Document.Read
import JobWeave.Sample.Scenario

/-!
# Samples as documents

A script is a document with a list of steps, each an array of a word and its
arguments; most steps name what they make.  `module` reads a module in any of
its forms: as definitions, as bytes, as a scenario or as a script.
-/

namespace JobWeave.Document

/-- Running of a script. -/
abbrev Script := StateT Scope Sample.Build

namespace Script

/-- Work on the world. -/
def lift {α : Type} (act : Weave α) : Script α :=
  (act : Sample.Build α)

/-- Names a value. -/
def define (name : String) (v : Var) : Script Unit :=
  modify (·.define name v)

/-- A type. -/
def type (j : Json) : Script TypeRef := do
  lift (Document.type (← get) j)

/-- A list of types. -/
def types (j : Json) : Script (List TypeRef) := do
  lift (Document.types (← get) j)

/-- A field, which must be there. -/
def field (j : Json) : Script FieldRef := do
  let sc ← get
  lift (do Weave.need (← Document.field sc j))

/-- What a name stands for, if it is of the kind that is asked for. -/
def named {α : Type} (what : String) (pick : Var → Option α) (j : Json) :
    Script α := do
  match ((← get).find? j.text).bind pick with
  | some a => return a
  | none => lift (unreadable (what ++ " " ++ j.text))

/-- A type of the sample. -/
def definition : Json → Script TypeId :=
  named "definition" fun | .definition t => some t | _ => none

/-- A method of the sample. -/
def code : Json → Script MethodId :=
  named "method" fun | .code m => some m | _ => none

/-- A branch target. -/
def mark : Json → Script EmitMark :=
  named "label" fun | .mark l => some l | _ => none

/-- A chain. -/
def chain : Json → Script Sample.Chain :=
  named "chain" fun | .chain c => some c | _ => none

/-- A body that no index reaches into, with labels that no sample uses. -/
def nowhere : Body := { fresh := 1000000000 }

/-- A local variable, seen from a method. -/
def slot (here : MethodId) (j : Json) : Script LocalRef := do
  let sc := { ← get with here := some here }
  lift (do return (← (Document.slot sc j).run nowhere).1)

/-- Parameters. -/
def params (j : Json) : Script (List Sample.Param) :=
  j.toList.mapM fun p => do
    let passing : Sample.Passing :=
      match (p.at_ 0).text with
      | "R" => .byRef
      | "I" => .readOnlyRef
      | _ => .byValue
    return ⟨passing, (p.at_ 1).text, ← type (p.at_ 2)⟩

/-- Fields of a new type. -/
def fields (j : Json) : Script (List Sample.Field) :=
  j.toList.mapM fun f => do return ((f.at_ 0).text, ← type (f.at_ 1))

/-- Emits one instruction, source line, mark or branch into a method. -/
def emitOne (m : MethodId) (j : Json) : Script Unit := do
  let word := (j.at_ 0).text
  let operand := j.at_ 1
  if word == "line" then Sample.line m
  else if word == "mark" then
    let l ← mark operand
    Sample.modifyCode m (·.place l)
  else if ["br", "brfalse", "brtrue"].contains word && operand.isText then
    let l ← mark operand
    Sample.modifyCode m (·.branch (opcode (j.at_ 0)) l)
  else
    let sc := { ← get with here := some m }
    let s ← lift (do return (← (Document.step sc j).run nowhere).1)
    Sample.emit m [s]

/-- Emits into a method. -/
def emit (m : MethodId) (js : List Json) : Script Unit :=
  js.forM (emitOne m)

/-- Emission into a method, for a builder to run. -/
def loading (m : MethodId) (j : Json) : Script (Sample.Build Unit) := do
  let sc ← get
  return do
    let _ ← (emit m j.toList).run sc

/-- How a delegate reaches its lambda, seen from a method. -/
def target (here : MethodId) (j : Json) : Script Sample.Target := do
  match (j.at_ 0).text with
  | "closure" => return .closure (← slot here (j.at_ 1))
  | "this" => return .this
  | "cached" => return .cached (← definition (j.at_ 1))
  | _ => return .null

/-- A call of a chain. -/
def chainCall (c : Sample.Chain) (j : Json) : Script Unit := do
  let arg := fun n => j.at_ n
  let int32 := fun n => Int32.ofInt (j.at_ n).toInt
  let name := (arg 0).text
  match name with
  | "WithName" => c.withName (arg 1).text
  | "WithoutBurst" => c.withoutBurst
  | "WithBurst" => c.withBurst (arg 1).toBool
  | "WithBurstOptions" => c.withBurstOptions (int32 1) (int32 2) (arg 3).toBool
  | "WithStructuralChanges" => c.withStructuralChanges
  | "Modify" =>
    c.modifyVariable (arg 1).text (← slot c.method (arg 2)) (← field (arg 3))
  | "ModifyValue" =>
    c.modifyValue (arg 1).text (← type (arg 2)) (← loading c.method (arg 3))
  | "WithAll" | "WithAny" | "WithNone" | "WithChangeFilter" =>
    c.query name (← types (arg 1))
  | "WithEntityQueryOptions" => c.withEntityQueryOptions (int32 1)
  | "WithSharedComponentFilter" =>
    c.withSharedComponentFilter (← type (arg 1)) (← loading c.method (arg 2))
  | "WithStoreEntityQueryInField" =>
    c.withStoreEntityQueryInField (← field (arg 1))
  | "ForEach" => c.forEach (← code (arg 1)) (← target c.method (arg 2))
  | "WithCode" => c.withCode (← code (arg 1)) (← target c.method (arg 2))
  | "Run" | "Schedule" | "ScheduleParallel" => c.finish name 1
  | "ScheduleWith" =>
    emit c.method (arg 1).toList
    c.finish Framework.Member.schedule 2
  | "ScheduleParallelWith" =>
    emit c.method (arg 1).toList
    c.finish Framework.Member.scheduleParallel 2
  | "Invoke" =>
    c.invoke (arg 1).text (arg 2).text (arg 3).toInt (← types (arg 4))
  | "Terminal" => c.invoke (arg 1).text (arg 2).text (arg 3).toInt []
  | "emit" => emit c.method (j.toList.drop 1)
  | other => lift (unreadable other)

/-- The value that a definition step makes. -/
def letValue (what : String) (x : Json) : Script Var := do
  match what with
  | "nativearray" => return .type (← Sample.nativeArray (← type x))
  | "dynamicbuffer" => return .type (← Sample.dynamicBuffer (← type x))
  | "jobhandle" => return .type (← Sample.jobHandle)
  | "entity" => return .type (← Sample.entity)
  | "type" => return .type (← type x)
  | "field" => return .field (← field x)
  | "method" =>
    let sc ← get
    return .method (← lift (do Weave.need (← Document.method sc x)))
  | "universal" =>
    let m ← code x
    return .type (← Sample.universalDelegate (← lift (Weave.methodDef m)))
  | other => lift (unreadable other)

/-- The value that a step makes, for steps that name one. -/
def made (j : Json) : Script (Option Var) := do
  let arg := fun n => j.at_ n
  let declared := fun
      (declare : String → String → List Sample.Field →
        Sample.Build TypeRef) => do
    return some
      (Var.type (← declare (arg 2).text (arg 3).text (← fields (arg 4))))
  match (arg 0).text with
  | "component" => declared Sample.component
  | "managed" => declared Sample.managedComponent
  | "shared" => declared Sample.sharedComponent
  | "buffer" => declared Sample.bufferElement
  | "struct" => declared Sample.struct
  | "class" => declared Sample.class_
  | "tag" =>
    return some (.type (← Sample.component (arg 2).text (arg 3).text []))
  | "let" => some <$> letValue (arg 2).text (arg 3)
  | "system" =>
    return some (.definition (← Sample.system (arg 2).text (arg 3).text false))
  | "jcs" =>
    return some (.definition (← Sample.system (arg 2).text (arg 3).text true))
  | "sysfield" =>
    return some (.field (← Sample.systemField (← definition (arg 2))
      (arg 3).text (← type (arg 4))))
  | "onupdate" => return some (.code (← Sample.onUpdate (← definition (arg 2))))
  | "method" =>
    return some (.code (← Sample.method (← definition (arg 2)) (arg 3).text
      (← type (arg 4)) (← params (arg 5))))
  | "static" =>
    return some (.code (← Sample.staticMethod (← definition (arg 2))
      (arg 3).text (← type (arg 4)) (← params (arg 5))))
  | "helper" =>
    return some (.code (← Sample.helper (← definition (arg 2)) (arg 3).text
      (← type (arg 4)) (← params (arg 5))))
  | "lambda" =>
    let t ← definition (arg 2)
    let ps ← params (arg 3)
    let s ← getThe Sample.BuildState
    if s.systems.any (·.type == t) then
      return some (.code (← Sample.systemLambda t ps))
    else return some (.code (← Sample.closureLambda t ps))
  | "closure" =>
    return some (.definition (← Sample.closure (← definition (arg 2))))
  | "statics" =>
    return some (.definition (← Sample.statics (← definition (arg 2))))
  | "field" =>
    return some (.field (← Sample.captured (← definition (arg 2)) (arg 3).text
      (← type (arg 4))))
  | "this" =>
    return some (.field (← Sample.capturedThis (← definition (arg 2))))
  | "parent" =>
    return some (.field (← Sample.capturedParent (← definition (arg 2))
      (← definition (arg 3))))
  | "local" =>
    let m ← code (arg 2)
    return some (.slot m (← Sample.addLocal m (← type (arg 3)) (arg 4).text))
  | "newclosure" =>
    let m ← code (arg 2)
    return some (.slot m (← Sample.newClosure m (← definition (arg 3))))
  | "label" => return some (.mark (← Sample.newMark (← code (arg 2))))
  | "chain" =>
    let source : Sample.Source :=
      match (arg 3).text with
      | "job" => .job
      | "chunks" => .chunks
      | _ => .entities
    return some (.chain (← Sample.chain (← code (arg 2)) source))
  | _ => return none

/-- Changes what a type says of itself. -/
def modifyHead (t : TypeId) (f : TypeHead → TypeHead) : Script Unit :=
  lift (Weave.modifyWorkspace (·.updateHead t f))

/-- A step that names nothing. -/
def change (j : Json) : Script Unit := do
  let arg := fun n => j.at_ n
  match (arg 0).text with
  | "capture" =>
    let m ← code (arg 1)
    Sample.capture m (← slot m (arg 2)) (← field (arg 3))
      (← loading m (arg 4))
  | "capturethis" =>
    let m ← code (arg 1)
    Sample.captureThis m (← slot m (arg 2)) (← definition (arg 3))
  | "emit" => emit (← code (arg 1)) (j.toList.drop 2)
  | "on" =>
    let c ← chain (arg 1)
    (j.toList.drop 2).forM (chainCall c)
  | "generics" =>
    modifyHead (← definition (arg 1)) fun h =>
      { h with genericParams := (arg 2).texts }
  | "attrs" =>
    let t ← definition (arg 1)
    let as ← lift (attributes (← get) (arg 2))
    modifyHead t fun h => { h with attributes := h.attributes ++ as }
  | "methodattrs" =>
    let m ← code (arg 1)
    let as ← lift (attributes (← get) (arg 2))
    lift (Weave.modifyWorkspace (·.updateMethod m fun d =>
      { d with attributes := d.attributes ++ as }))
  | "base" =>
    let t ← definition (arg 1)
    let base ← type (arg 2)
    modifyHead t fun h => { h with base }
  | "rename" =>
    modifyHead (← definition (arg 1)) fun h => { h with name := (arg 2).text }
  | "renamemethod" =>
    let m ← code (arg 1)
    lift (Weave.modifyWorkspace (·.updateMethod m fun d =>
      { d with name := (arg 2).text }))
  | "rawtype" =>
    let t ← lift (typeDef (← get) false (arg 1))
    let home := (← getThe Sample.BuildState).home
    lift (Weave.modifyWorkspace fun w => (w.addType home t).1)
  | "rawnested" =>
    let outer ← definition (arg 1)
    let t ← lift (typeDef (← get) true (arg 2))
    lift (Weave.modifyWorkspace fun w => (w.addNested outer t).1)
  | "rawmethod" =>
    let owner ← definition (arg 1)
    let m ← lift (methodDef (← get) (arg 2))
    lift (Weave.modifyWorkspace fun w => (w.addMethod owner m).1)
  | other => lift (unreadable other)

/-- A step. -/
def step (j : Json) : Script Unit := do
  match ← made j with
  | some v => define (j.at_ 1).text v
  | none => change j

/-- A whole script. -/
def run (j : Json) : Sample.Build Unit := do
  let vars : List (String × Var) ←
    if (j.get "game").toBool then do
      let g ← Sample.game
      pure [("Translation", .type g.position), ("Velocity", .type g.velocity),
        ("Frozen", .type g.frozen)]
    else pure []
  if j.has "document" then
    modify fun s => { s with document := (j.get "document").text }
  let _ ← StateT.run ((j.get "steps").toList.forM step) { vars }

end Script

/-- A module that went through its binary form. -/
def throughBytes (m : Module) : Outcome Module := do
  match Codec.decode (← Codec.encode m) with
  | .ok m => return m
  | .error f => Outcome.fail f

/-- The bytes that pairs of hexadecimal digits stand for. -/
def bytesOfHex (s : String) : List UInt8 :=
  go s.toList
where
  /-- The bytes of the digits that are left. -/
  go : List Char → List UInt8
    | a :: b :: rest =>
      UInt8.ofNat (hexNumber (String.ofList [a, b])) :: go rest
    | _ => []

/-- A module in any of its forms. -/
def moduleSource (j : Json) : Outcome Module := do
  if j.has "module" then reading (module (j.get "module"))
  else if j.has "hex" then
    match Codec.decode (bytesOfHex (j.get "hex").text) with
    | .ok m => return m
    | .error f => Outcome.fail f
  else if j.has "scenario" then
    let name := (j.get "scenario").text
    let named := ("runmove", Sample.runMove) :: Sample.scenarios
    match named.find? (·.1 == name) with
    | some (_, title, act) => throughBytes (← Sample.build title act)
    | none => Outcome.fail (.plain "bad input: scenario")
  else
    let b := j.get "build"
    throughBytes (← Sample.build (b.get "name").text (Script.run b))

end JobWeave.Document
