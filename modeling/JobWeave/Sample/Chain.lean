import JobWeave.Sample.Basic

/-!
# Chains in samples

Each function emits what a compiler emits for one call of a job chain.
-/

namespace JobWeave.Sample

open Framework

/-- Where a chain comes from. -/
inductive Source where
  | entities
  | job
  | chunks
  deriving DecidableEq, Repr, Inhabited

/-- A chain that is being emitted. -/
structure Chain where
  /-- the method it is emitted into -/
  method : MethodId
  /-- the type of its description -/
  description : TypeRef
  /-- where it comes from -/
  source : Source
  /-- it belongs to the older of the two kinds of systems -/
  jcs : Bool
  deriving Inhabited

/-- How the delegate of a chain reaches its lambda. -/
inductive Target where
  /-- on the closure in a local variable -/
  | closure (l : LocalRef)
  /-- on the system -/
  | this
  /-- on the class of lambdas that capture nothing, with a cache -/
  | cached (t : TypeId)
  /-- on nothing -/
  | null
  deriving Inhabited

/-- Starts a chain. -/
def chain (m : MethodId) (source : Source) : Build Chain := do
  let jcs ← Weave.inheritsFrom (some (← Weave.ownerOf m)) Ns.entities
    TypeName.jobComponentSystem
  let getter :=
    match source with
    | .entities => Member.getEntities
    | .job => Member.getJob
    | .chunks => Member.getChunks
  let description :=
    match source, jcs with
    | .entities, false => TypeName.forEachDescription
    | .entities, true => TypeName.forEachDescriptionJcs
    | .job, false => TypeName.singleJobDescription
    | .job, true => TypeName.singleJobDescriptionJcs
    | .chunks, _ => TypeName.chunkDescription
  line m
  let owner ← Weave.importEntities
    (if jcs then TypeName.jobComponentSystem else TypeName.systemBase)
  emit m [Step.ldarg 0, Step.call (← Weave.importMethod owner getter 0)]
  return { method := m, description := ← Weave.importEntities description,
           source, jcs }

namespace Chain

/-- Emits into the chain's method. -/
def emit (c : Chain) (steps : List Step) : Build Unit :=
  Sample.emit c.method steps

/-- Calls a chain method on the description and further type arguments. -/
def invoke (c : Chain) (owner name : String) (params : Int)
    (typeArgs : List TypeRef) : Build Unit := do
  let t ← Weave.importEntities owner
  let m ← Weave.importGenericMethod t name params (-1) []
  c.emit [Step.call (m.instantiate (c.description :: typeArgs))]

/-- Calls a method of every chain. -/
def modify (c : Chain) (name : String) (params : Int)
    (typeArgs : List TypeRef) : Build Unit :=
  c.invoke TypeName.constructionMethods name params typeArgs

/-- Gives the job a name. -/
def withName (c : Chain) (name : String) : Build Unit := do
  c.emit [Step.ldstr name]
  c.modify Member.withName 2 []

/-- Turns compilation off. -/
def withoutBurst (c : Chain) : Build Unit :=
  c.modify Member.withoutBurst 1 []

/-- Turns compilation on or off. -/
def withBurst (c : Chain) (enabled : Bool) : Build Unit := do
  c.emit [Step.ldBool enabled]
  c.modify Member.withBurst 2 []

/-- Turns compilation on with options. -/
def withBurstOptions (c : Chain) (mode precision : Int32)
    (synchronous : Bool) : Build Unit := do
  c.emit [Step.ldcI4 mode, Step.ldcI4 precision, Step.ldBool synchronous]
  c.modify Member.withBurst 4 []

/-- Allows structural changes. -/
def withStructuralChanges (c : Chain) : Build Unit :=
  c.modify Member.withStructuralChanges 1 []

/-- Marks a captured variable of a closure in a local variable. -/
def modifyVariable (c : Chain) (name : String) (l : LocalRef) (f : FieldRef) :
    Build Unit := do
  c.emit [Step.ldloc l, Step.ldfld f]
  c.modify name 2 [f.type]

/-- Marks whatever `load` pushes. -/
def modifyValue (c : Chain) (name : String) (t : TypeRef) (load : Build Unit) :
    Build Unit := do
  load
  c.modify name 2 [t]

/-- Shapes the query by component types. -/
def query (c : Chain) (name : String) (types : List TypeRef) : Build Unit := do
  let t ← Weave.importEntities TypeName.queryConstructionMethods
  let m ← Weave.importGenericMethod t name 1 types.length [c.description]
  c.emit [Step.call (m.instantiate types)]

/-- A method of query chains by name. -/
def queryMethod (c : Chain) (name : String) : Build MethodRef := do
  let t ← Weave.importEntities TypeName.queryConstructionMethods
  Weave.importGenericMethod t name 2 (-1) [c.description]

/-- Sets the options of the query. -/
def withEntityQueryOptions (c : Chain) (options : Int32) : Build Unit := do
  c.emit [Step.ldcI4 options]
  c.emit [Step.call (← c.queryMethod Member.withEntityQueryOptions)]

/-- Filters by the shared component that `load` pushes. -/
def withSharedComponentFilter (c : Chain) (t : TypeRef) (load : Build Unit) :
    Build Unit := do
  load
  let m ← c.queryMethod Member.withSharedComponentFilter
  c.emit [Step.call (m.instantiate [t])]

/-- Stores the query in a field of the system. -/
def withStoreEntityQueryInField (c : Chain) (f : FieldRef) : Build Unit := do
  c.emit [Step.ldarg 0, Step.ldflda f]
  c.emit [Step.call (← c.queryMethod Member.withStoreEntityQueryInField)]

end Chain

/-- The delegate type for the parameters of a lambda. -/
def universalDelegate (m : MethodDef) : Build TypeRef := do
  let letters ← m.params.mapM fun p => do
    if p.type.isByRef then
      if p.flags &&& ParamFlag.readOnly != 0 then pure 'I'
      else if ← Weave.need
          (Attribute.hasName? p.attributes AttributeName.isReadOnly)
          then pure 'I'
      else pure 'R'
    else pure 'V'
  let name := universalDelegateName (String.ofList letters)
  return (TypeRef.ofName Ns.universal name false).withArgs
    (m.params.map (·.type.element))

/-- Emits the construction of a delegate. -/
def delegate (m : MethodId) (type : TypeRef) (lambda : MethodId)
    (target : Target) : Build Unit := do
  let ctor := (← Weave.importMethod type.opened ".ctor" 2).onType type
  match target with
  | .cached t =>
    let cache ← addCache t type
    let done ← newMark m
    emit m [Step.ldsfld cache, Step.dup]
    modifyCode m (·.branch .brtrue done)
    emit m [Step.pop]
    emit m [(.ldsfld, .field (← closureInfo t).single)]
    emit m [Step.ldftn (← Weave.methodRef lambda), Step.newobj ctor, Step.dup,
      Step.stsfld cache]
    modifyCode m (·.place done)
  | .this =>
    emit m [Step.ldarg 0, Step.ldftn (← Weave.methodRef lambda),
      Step.newobj ctor]
  | .closure l =>
    emit m [Step.ldloc l, Step.ldftn (← Weave.methodRef lambda),
      Step.newobj ctor]
  | .null =>
    emit m [Step.ldnull, Step.ldftn (← Weave.methodRef lambda),
      Step.newobj ctor]

namespace Chain

/-- The lambda of a chain over entities or chunks. -/
def forEach (c : Chain) (lambda : MethodId) (target : Target) : Build Unit := do
  if c.source == .chunks then
    let d ← Weave.importNested Ns.entities TypeName.chunkConstructionMethods
      "JobChunkDelegate"
    delegate c.method d lambda target
    let t ← Weave.importEntities TypeName.chunkConstructionMethods
    c.emit [Step.call (← Weave.importMethod t Member.forEach 2)]
  else
    let d ← universalDelegate (← Weave.methodDef lambda)
    delegate c.method d lambda target
    let t ← Weave.importEntities TypeName.forEachConstructionMethods
    let m ← Weave.importMethod t Member.forEach 2
    c.emit [Step.call (m.instantiate [c.description, d])]

/-- The lambda of a single job. -/
def withCode (c : Chain) (lambda : MethodId) (target : Target) :
    Build Unit := do
  let d ← Weave.importNested Ns.entities TypeName.singleJobConstructionMethods
    "WithCodeAction"
  delegate c.method d lambda target
  c.invoke TypeName.singleJobConstructionMethods Member.withCode 2 []

/-- The class with the methods that end this chain. -/
def execution (c : Chain) : String :=
  match c.source, c.jcs with
  | .job, true => TypeName.singleJobExecutionMethodsJcs
  | .job, false => TypeName.singleJobExecutionMethods
  | _, true => TypeName.executionMethodsJcs
  | _, false => TypeName.executionMethods

/-- Ends the chain, with a dependency pushed before or with none. -/
def finish (c : Chain) (name : String) (params : Int) : Build Unit :=
  c.invoke c.execution name params []

end Chain

end JobWeave.Sample
