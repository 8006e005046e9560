import JobWeave.Workspace.World
import JobWeave.Workspace.Import
import JobWeave.Emitter

/-!
# Sample modules

Builders for modules laid out the way a compiler does it: component systems
whose update methods contain job chains, closures that hold captured variables,
and lambdas compiled to methods.  A sample is built step by step; `finish`
assembles the code of its methods.
-/

namespace JobWeave.Sample

open Framework

/-- A method whose code is being emitted. -/
structure Draft where
  /-- the method -/
  method : MethodId
  /-- its code so far -/
  emitter : Emitter := {}
  /-- source lines and the numbers of the instructions that start them -/
  lines : List (Nat × Nat) := []
  deriving Inhabited

/-- What is counted per component system. -/
structure SystemInfo where
  /-- the system -/
  type : TypeId
  /-- it derives from the older of the two base classes -/
  jcs : Bool
  /-- closures declared so far -/
  closures : Nat := 0
  /-- lambdas declared so far -/
  lambdas : Nat := 0
  /-- the class of lambdas that capture nothing -/
  statics : Option TypeId := none
  deriving Inhabited

/-- What is counted per closure. -/
structure ClosureInfo where
  /-- the closure -/
  type : TypeId
  /-- the system it belongs to -/
  system : TypeId
  /-- the field with the only instance of a class of lambdas that capture
  nothing -/
  single : Option FieldRef := none
  /-- lambdas declared so far -/
  lambdas : Nat := 0
  /-- cached delegates so far -/
  caches : Nat := 0
  deriving Inhabited

/-- A module under construction. -/
structure BuildState where
  /-- the module -/
  home : ModuleId
  /-- the source document of the sequence points -/
  document : String
  /-- the last source line -/
  line : Nat := 10
  /-- methods in the order of their declaration -/
  drafts : List Draft := []
  /-- the systems -/
  systems : List SystemInfo := []
  /-- the closures -/
  closures : List ClosureInfo := []
  deriving Inhabited

/-- Building of a sample. -/
abbrev Build := StateT BuildState Weave

/-- An empty sample and the world it is built in. -/
def start (name : String) : World × BuildState :=
  let (w, home) := World.withFramework { name } []
  (w, { home := home.getD ⟨0⟩, document := name ++ ".cs" })

/-! ## Types -/

/-- A field of a new type. -/
abbrev Field := String × TypeRef

/-- A constructor that only calls the constructor of the base type. -/
def addConstructor (t : TypeId) : Build MethodId := do
  let base := (← Weave.typeHead t).base
  let base := if base.isAbsent then TypeRef.object else base
  let ctor ← Weave.importMethod base ".ctor" 0
  let b : Body := {}
  let body := b.append
    (b.labelled [Step.ldarg 0, Step.call ctor, Step.ret])
  let m : MethodDef :=
    { name := ".ctor", ret := .void, body := some body,
      flags := MethodFlag.pub ||| MethodFlag.hideBySig |||
        MethodFlag.specialName ||| MethodFlag.rtSpecialName }
  Weave.addToWorkspace (·.addMethod t m)

/-- Declares a type that may implement a framework interface. -/
def userType (ns name : String) (isClass : Bool) (interface : Option String)
    (fields : List Field) : Build TypeRef := do
  let interfaces ←
    match interface with
    | some i => do pure [← Weave.importEntities i]
    | none => pure []
  let flags :=
    if isClass then TypeFlag.pub ||| TypeFlag.beforeFieldInit
    else TypeFlag.pub ||| TypeFlag.sequentialLayout ||| TypeFlag.sealed
  let head : TypeHead :=
    { ns, name, flags, interfaces,
      base := if isClass then .object else .valueType,
      fields := fields.map fun (name, type) =>
        { name, type, flags := FieldFlag.pub } }
  let t ← Weave.addToWorkspace (·.newType head)
  if isClass then
    let _ ← addConstructor t
  let home := (← get).home
  Weave.modifyWorkspace (·.attachType home t)
  Weave.typeRef t

/-- A component stored in place. -/
def component (ns name : String) (fields : List Field) : Build TypeRef :=
  userType ns name false (some TypeName.componentData) fields

/-- A component that is a class. -/
def managedComponent (ns name : String) (fields : List Field) : Build TypeRef :=
  userType ns name true (some TypeName.componentData) fields

/-- A component shared between entities. -/
def sharedComponent (ns name : String) (fields : List Field) : Build TypeRef :=
  userType ns name false (some TypeName.sharedComponentData) fields

/-- An element of a buffer. -/
def bufferElement (ns name : String) (fields : List Field) : Build TypeRef :=
  userType ns name false (some TypeName.bufferElementData) fields

/-- A type stored in place. -/
def struct (ns name : String) (fields : List Field) : Build TypeRef :=
  userType ns name false none fields

/-- A class. -/
def class_ (ns name : String) (fields : List Field) : Build TypeRef :=
  userType ns name true none fields

/-- An array container of a type. -/
def nativeArray (t : TypeRef) : Build TypeRef := do
  return (← Weave.importType Ns.collections TypeName.nativeArray).withArgs [t]

/-- A buffer container of a type. -/
def dynamicBuffer (t : TypeRef) : Build TypeRef := do
  return (← Weave.importEntities TypeName.dynamicBuffer).withArgs [t]

/-- The type of job handles. -/
def jobHandle : Build TypeRef :=
  Weave.importType Ns.jobs TypeName.jobHandle

/-- The type of entities. -/
def entity : Build TypeRef :=
  Weave.importEntities TypeName.entity

/-! ## Methods -/

/-- How a parameter is passed. -/
inductive Passing where
  | byValue
  | byRef
  | readOnlyRef
  deriving DecidableEq, Repr, Inhabited

/-- A parameter of a lambda or method. -/
structure Param where
  /-- how it is passed -/
  passing : Passing
  /-- its name -/
  name : String
  /-- the type of its value -/
  type : TypeRef
  deriving Inhabited

/-- The definition of a parameter. -/
def Param.define (p : Param) : Build ParamDef := do
  match p.passing with
  | .byValue => return { name := p.name, type := p.type }
  | .byRef => return { name := p.name, type := p.type.byRef }
  | .readOnlyRef =>
    let a ← Weave.importAttribute Ns.compilerServices
      AttributeName.isReadOnly []
    return { name := p.name, type := p.type.byRef, flags := ParamFlag.readOnly,
             attributes := [a] }

/-- Adds a method whose code is to be emitted. -/
def addDraft (owner : TypeId) (m : MethodDef) : Build MethodId := do
  let id ← Weave.addToWorkspace (·.addMethod owner { m with body := some {} })
  modify fun s => { s with drafts := s.drafts ++ [{ method := id }] }
  return id

/-- Adds a method with the given flags; a missing result type is none. -/
def declare (owner : TypeId) (name : String) (flags : UInt16) (ret : TypeRef)
    (params : List Param) : Build MethodId := do
  let params ← params.mapM Param.define
  addDraft owner
    { name, flags := flags ||| MethodFlag.hideBySig, params,
      ret := if ret.isAbsent then .void else ret }

/-- The draft of a method. -/
def draft (m : MethodId) : Build Draft := do
  Weave.need ((← get).drafts.find? (·.method == m))

/-- Changes the draft of a method. -/
def modifyDraft (m : MethodId) (f : Draft → Draft) : Build Unit :=
  modify fun s =>
    { s with drafts := s.drafts.map fun d => if d.method == m then f d else d }

/-- Changes the code of a method. -/
def modifyCode (m : MethodId) (f : Emitter → Emitter) : Build Unit :=
  modifyDraft m fun d => { d with emitter := f d.emitter }

/-- Emits instructions into a method. -/
def emit (m : MethodId) (steps : List Step) : Build Unit :=
  modifyCode m (·.emitAll steps)

/-- The next instruction of a method starts a new source line. -/
def line (m : MethodId) : Build Unit := do
  let n := (← get).line + 1
  modify fun s => { s with line := n }
  modifyDraft m fun d => { d with lines := d.lines ++ [(d.emitter.size, n)] }

/-- A branch target in a method. -/
def newMark (m : MethodId) : Build EmitMark := do
  let (e, mark) := (← draft m).emitter.newMark
  modifyCode m fun _ => e
  return mark

/-- A new local variable of a method. -/
def addLocal (m : MethodId) (type : TypeRef) (name : String) : Build Nat := do
  let (b, n) := (← Weave.bodyOf m).addLocal type name
  Weave.setBody m b
  return n

/-- Puts the emitted code of a method in place. -/
def assemble (document : String) (d : Draft) : Build Unit := do
  match d.emitter.finish.2 with
  | .error f =>
    throw (.fault (some
      ("fixture: " ++ (← Weave.methodName d.method) ++ ": " ++ f.message)))
  | .ok code =>
    let points := d.lines.filterMap fun (n, line) =>
      (code[n]?).map fun i =>
        { label := i.label, document, line, column := 9 : SequencePoint }
    Weave.modifyBody d.method fun b =>
      { b.append code with points := b.points ++ points }

/-- The finished module. -/
def finish : Build Module := do
  let s ← get
  s.drafts.forM (assemble s.document)
  return (← Weave.workspace).module s.home

/-! ## Systems -/

/-- What is counted for a system. -/
def systemInfo (t : TypeId) : Build SystemInfo := do
  Weave.need ((← get).systems.find? (·.type == t))

/-- Changes what is counted for a system. -/
def modifySystem (t : TypeId) (f : SystemInfo → SystemInfo) : Build Unit :=
  modify fun s =>
    { s with systems := s.systems.map fun i => if i.type == t then f i else i }

/-- Declares a system on one of the two base classes. -/
def system (ns name : String) (jcs : Bool) : Build TypeId := do
  let base ← Weave.importEntities
    (if jcs then TypeName.jobComponentSystem else TypeName.systemBase)
  let home := (← get).home
  let head : TypeHead :=
    { ns, name, base, flags := TypeFlag.pub ||| TypeFlag.beforeFieldInit }
  let t ← Weave.addToWorkspace (·.addType home (.mk head [] []))
  let _ ← addConstructor t
  modify fun s => { s with systems := s.systems ++ [{ type := t, jcs }] }
  return t

/-- Declares a field of a type and gives a reference to it. -/
def addField (t : TypeId) (f : FieldDef) : Build FieldRef := do
  Weave.modifyWorkspace (·.addField t f)
  return (← Weave.workspace).fieldRef t f

/-- A private field of a system. -/
def systemField (t : TypeId) (name : String) (type : TypeRef) :
    Build FieldRef :=
  addField t { name, type, flags := FieldFlag.priv }

/-- The update method of a system. -/
def onUpdate (t : TypeId) : Build MethodId := do
  let flags := MethodFlag.family ||| MethodFlag.virtual ||| MethodFlag.hideBySig
  if (← systemInfo t).jcs then
    let handle ← jobHandle
    addDraft t
      { name := "OnUpdate", ret := handle, flags,
        params := [{ name := "inputDeps", type := handle }] }
  else addDraft t { name := "OnUpdate", ret := .void, flags }

/-- A private method of a system. -/
def method (t : TypeId) (name : String) (ret : TypeRef) (params : List Param) :
    Build MethodId :=
  declare t name MethodFlag.priv ret params

/-- A private method of a system without an instance. -/
def staticMethod (t : TypeId) (name : String) (ret : TypeRef)
    (params : List Param) : Build MethodId :=
  declare t name (MethodFlag.priv ||| MethodFlag.static) ret params

/-- A lambda that captures only the instance, as a method of the system. -/
def systemLambda (t : TypeId) (params : List Param) : Build MethodId := do
  let n := (← systemInfo t).lambdas
  modifySystem t fun i => { i with lambdas := n + 1 }
  declare t ("<OnUpdate>b__" ++ toString n ++ "_0") MethodFlag.priv .void params

/-! ## Closures -/

/-- What is counted for a closure. -/
def closureInfo (t : TypeId) : Build ClosureInfo := do
  Weave.need ((← get).closures.find? (·.type == t))

/-- Changes what is counted for a closure. -/
def modifyClosure (t : TypeId) (f : ClosureInfo → ClosureInfo) : Build Unit :=
  modify fun s =>
    { s with closures := s.closures.map fun i => if i.type == t then f i
               else i }

/-- A class that a compiler makes inside a system. -/
def generatedClass (system : TypeId) (name : String) : Build TypeId := do
  let a ← Weave.importAttribute Ns.compilerServices
    AttributeName.compilerGenerated []
  let head : TypeHead :=
    { name, base := .object, attributes := [a],
      flags := TypeFlag.nestedPrivate ||| TypeFlag.sealed |||
        TypeFlag.beforeFieldInit }
  Weave.addToWorkspace (·.addNested system (.mk head [] []))

/-- Declares a closure of a system. -/
def closure (system : TypeId) : Build TypeId := do
  let n := (← systemInfo system).closures
  modifySystem system fun i => { i with closures := n + 1 }
  let t ← generatedClass system ("<>c__DisplayClass" ++ toString n ++ "_0")
  let _ ← addConstructor t
  modify fun s => { s with closures := s.closures ++ [{ type := t, system }] }
  return t

/-- The class of a system's lambdas that capture nothing. -/
def statics (system : TypeId) : Build TypeId := do
  match (← systemInfo system).statics with
  | some t => return t
  | none =>
    let t ← generatedClass system "<>c"
    let ctor ← addConstructor t
    let single ← addField t
      { name := "<>9", type := ← Weave.typeRef t,
        flags := FieldFlag.pub ||| FieldFlag.static ||| FieldFlag.initOnly }
    let ctorRef ← Weave.methodRef ctor
    let b : Body := {}
    let body := b.append
      (b.labelled [Step.newobj ctorRef, Step.stsfld single, Step.ret])
    let m : MethodDef :=
      { name := ".cctor", ret := .void, body := some body,
        flags := MethodFlag.priv ||| MethodFlag.static |||
          MethodFlag.hideBySig ||| MethodFlag.specialName |||
          MethodFlag.rtSpecialName }
    let _ ← Weave.addToWorkspace (·.addMethod t m)
    modify fun s =>
      { s with closures := s.closures ++ [{ type := t, system, single }] }
    modifySystem system fun i => { i with statics := some t }
    return t

/-- The first constructor of a type. -/
def constructorOf (t : TypeId) : Weave MethodRef := do
  let w ← Weave.workspace
  let m ← Weave.need ((w.type t).methods.find? fun m => (w.method m).name ==
    ".ctor")
  Weave.methodRef m

/-- A captured variable of a closure, declared once. -/
def captured (t : TypeId) (name : String) (type : TypeRef) :
    Build FieldRef := do
  match (← Weave.typeHead t).field? name with
  | some f => return (← Weave.workspace).fieldRef t f
  | none => addField t { name, type, flags := FieldFlag.pub }

/-- The captured instance of the system. -/
def capturedThis (t : TypeId) : Build FieldRef := do
  captured t "<>4__this" (← Weave.typeRef (← closureInfo t).system)

/-- The link to the closure of the enclosing scope. -/
def capturedParent (t outer : TypeId) : Build FieldRef := do
  captured t "CS$<>8__locals1" (← Weave.typeRef outer)

/-- A lambda on a closure. -/
def closureLambda (t : TypeId) (params : List Param) : Build MethodId := do
  let info ← closureInfo t
  let n := info.lambdas
  modifyClosure t fun i => { i with lambdas := n + 1 }
  let name ←
    if info.single.isSome then do
      let k := (← systemInfo info.system).closures
      pure ("<OnUpdate>b__" ++ toString k ++ "_" ++ toString n)
    else pure ("<OnUpdate>b__" ++ toString n)
  declare t name MethodFlag.assembly .void params

/-- Another method on a closure. -/
def helper (t : TypeId) (name : String) (ret : TypeRef) (params : List Param) :
    Build MethodId :=
  declare t name MethodFlag.assembly ret params

/-- A field that caches a delegate. -/
def addCache (t : TypeId) (delegate : TypeRef) : Build FieldRef := do
  let info ← closureInfo t
  let n := info.caches
  let k := (← systemInfo info.system).closures
  modifyClosure t fun i => { i with caches := n + 1 }
  addField t
    { name := "<>9__" ++ toString k ++ "_" ++ toString n, type := delegate,
      flags := FieldFlag.pub ||| FieldFlag.static }

/-- Allocates a closure into a new local variable. -/
def newClosure (m : MethodId) (t : TypeId) : Build Nat := do
  let l ← addLocal m (← Weave.typeRef t) ""
  emit m [Step.newobj (← constructorOf t), Step.stloc (.slot l)]
  return l

/-- Stores what `load` pushes into a captured variable. -/
def capture (m : MethodId) (l : LocalRef) (f : FieldRef) (load : Build Unit) :
    Build Unit := do
  emit m [Step.ldloc l]
  load
  emit m [Step.stfld f]

/-- Stores the instance of the system into a closure. -/
def captureThis (m : MethodId) (l : LocalRef) (t : TypeId) : Build Unit := do
  let f ← capturedThis t
  capture m l f (emit m [Step.ldarg 0])

end JobWeave.Sample
