import JobWeave.Plan.Closure
import JobWeave.Plan.Parameters

/-!
# Entry points of a job

The job system calls a job's entry point, which runs the lambda once, once per
chunk, or in a loop over the entities of a chunk.  With structural changes the
framework walks the entities itself and calls the lambda through a callback.  A
job that runs on the calling thread has a static entry point besides.
-/

namespace JobWeave.Planning

open Framework

/-- The flags of an entry point that an interface declares. -/
def instanceEntry : UInt16 :=
  MethodFlag.pub ||| MethodFlag.virtual ||| MethodFlag.newSlot

/-- The flags of a static entry point. -/
def staticEntry : UInt16 :=
  MethodFlag.pub ||| MethodFlag.static

/-- The parameters of an entry point that gets a chunk. -/
def chunkParams : Planning (List ParamDef) := do
  return [param "chunk" (← Weave.importEntities TypeName.archetypeChunk),
    param "chunkIndex" .int32, param "firstEntityIndex" .int32]

/-- Declares the job's entry point. -/
def declareExecute (flags : UInt16) (params : List ParamDef) :
    Planning MethodId := do
  let m ← declare "Execute" flags .void params
  modify fun u => { u with execute := some m }
  return m

/-! ## The loop over entities -/

/-- The local variable for a parameter that is passed by reference and whose
provider gives values. -/
def loopTemp (m : MethodId) (e : Element) :
    Planning (Element × Option LocalRef) := do
  if e.byRef && e.provider != .component then
    return (e, some (← addLocal m e.valueType ""))
  else return (e, none)

/-- Pushes the value of a parameter for the entity at an index. -/
def loopArgument (i : LocalRef) (e : Element) (temp : Option LocalRef) :
    Planning (List Step) := do
  let value ← runtimeMethod e "For" 1
  let load := [Step.ldarg 2, Step.ldflda e.runtimeField, Step.ldloc i,
    Step.call value]
  match temp with
  | some t => return load ++ [Step.stloc t, Step.ldloca t]
  | none =>
    return if e.provider == .component && !e.byRef then
      load ++ [Step.ldobj e.valueType]
    else load

/-- Code of a loop that counts `i` from zero while it is less than the count and
runs the body each time. -/
def countingLoop (e : Emitter) (start body step test : List Step) : Emitter :=
  let (e, top) := e.newMark
  let (e, check) := e.newMark
  let e := (e.emitAll start).branch .br check
  let e := (e.place top).emitAll (body ++ step)
  ((e.place check).emitAll test).branch .brtrue top

/-- Declares the loop over the entities of a chunk. -/
def iterateEntities : Planning MethodId := do
  let c ← chain
  let chunk ← Weave.importEntities TypeName.archetypeChunk
  let m ← declare "IterateEntities" MethodFlag.pub .void
    [param "chunk" chunk.byRef, param "runtimes" (← get).runtimes.byRef]
  if c.usesBurst && c.noAlias then
    let noAlias ← Weave.importAttribute Ns.burst AttributeName.noAlias []
    Weave.modifyWorkspace (·.updateMethod m fun d =>
      { d with
        implFlags := d.implFlags ||| ImplFlag.noInlining,
        params := d.params.map fun p =>
          if p.name == "runtimes" then { p with attributes := [noAlias] }
          else p })
  let count ← addLocal m .int32 "count"
  let i ← addLocal m .int32 "i"
  let temps ← (← get).elements.mapM (loopTemp m)
  let getCount ← Weave.importMethod
    (← Weave.importEntities TypeName.archetypeChunk) "get_Count" 0
  let args ← temps.flatMapM fun (e, t) => loopArgument i e t
  let b ← Weave.bodyOf m
  let e := countingLoop (.forBody b)
    [Step.ldarg 1, Step.call getCount, Step.stloc count, Step.ldcI4 0,
      Step.stloc i]
    ([Step.ldarg 0] ++ args ++ [Step.call (← lambdaRef)])
    [Step.ldloc i, Step.ldcI4 1, (.add, .none), Step.stloc i]
    [Step.ldloc i, Step.ldloc count, (.clt, .none)]
  match (e.emit Step.ret).appendTo b with
  | .ok b => Weave.setBody m b
  | .error f => Weave.fail f
  return m

/-- Fetches the state of a parameter's provider for a chunk. -/
def prepareRuntime (runtimes : LocalRef) (e : Element) :
    Planning (List Step) := do
  let providers := (← get).providers
  let name := "PrepareToExecuteOnEntitiesIn"
  let call ←
    if e.provider == .entityInQueryIndex then do
      pure [Step.ldarg 2, Step.ldarg 3, Step.call (← providerMethod e name 3)]
    else do pure [Step.call (← providerMethod e name 1)]
  return [Step.ldloca runtimes, Step.ldarg 0, Step.ldflda providers,
    Step.ldflda e.providerField, Step.ldarga 1] ++ call ++
    [Step.stfld e.runtimeField]

/-- Declares the entry point that the job system calls. -/
def entryPoint : Planning Unit := do
  let c ← chain
  match c.kind with
  | .job =>
    let lambda ← lambdaRef
    let m ← declareExecute instanceEntry []
    emit m [Step.ldarg 0, Step.call lambda, Step.ret]
  | .chunk =>
    let lambda ← lambdaRef
    let m ← declareExecute instanceEntry (← chunkParams)
    emit m [Step.ldarg 0, Step.ldarg 1, Step.ldarg 2, Step.ldarg 3,
      Step.call lambda, Step.ret]
  | .entities =>
    let loop ← iterateEntities
    let m ← declareExecute instanceEntry (← chunkParams)
    let runtimes ← addLocal m (← get).runtimes "runtimes"
    let prepare ← (← get).elements.flatMapM (prepareRuntime runtimes)
    emit m (prepare ++ [Step.ldarg 0, Step.ldarga 1, Step.ldloca runtimes,
      Step.call (← Weave.methodRef loop), Step.ret])

/-! ## Structural changes -/

/-- The framework method that turns a pointer into a reference. -/
def asRef (t : TypeRef) : Planning MethodRef := do
  let owner ← Weave.importType Ns.collectionsLowLevel TypeName.unsafeUtility
  return (← Weave.importMethod owner "AsRef" 1).instantiate [t]

/-- The local variables for the value of a parameter and, for a component, for
the value before the call. -/
structure Copies where
  /-- the parameter -/
  element : Element
  /-- the value -/
  value : LocalRef
  /-- the value before the call -/
  before : Option LocalRef

/-- Declares the local variables for a parameter. -/
def declareCopies (m : MethodId) (e : Element) : Planning Copies := do
  let value ← addLocal m e.valueType ""
  let before ←
    if e.provider == .component then some <$> addLocal m e.valueType ""
    else pure none
  return { element := e, value, before }

/-- Copies the value of a parameter out. -/
def copyOut (runtimes : LocalRef) (c : Copies) : Planning (List Step) := do
  let e := c.element
  let load := [Step.ldloc runtimes, Step.ldflda e.runtimeField, Step.ldarg 2]
  match c.before with
  | some before =>
    return load ++ [Step.ldloca before, Step.call (← runtimeMethod e "For" 2),
      Step.stloc c.value]
  | none =>
    return load ++ [Step.call (← runtimeMethod e "For" 1), Step.stloc c.value]

/-- Writes a component back that the lambda may have changed. -/
def writeBack (runtimes : LocalRef) (c : Copies) : Planning (List Step) := do
  let e := c.element
  match c.before, e.isReadOnly with
  | some before, false =>
    return [Step.ldloc runtimes, Step.ldflda e.runtimeField, Step.ldarg 2,
      Step.ldloca c.value, Step.ldloca before,
      Step.call (← runtimeMethod e "WriteBack" 3)]
  | _, _ => return []

/-- Declares the callback that runs the lambda for one entity, and the static
field with a delegate to it. -/
def callback : Planning FieldRef := do
  let ptr := TypeRef.void.pointer
  let entity ← Weave.importEntities TypeName.entity
  let m ← declare "PerformLambda" staticEntry .void
    [param "jobStruct" ptr, param "runtimesPtr" ptr, param "entity" entity]
  let runtimesType := (← get).runtimes
  let runtimes ← addLocal m runtimesType.byRef "runtimes"
  let copies ← (← get).elements.mapM (declareCopies m)
  let toRuntimes ← asRef runtimesType
  let out ← copies.flatMapM (copyOut runtimes)
  let toJob ← asRef (← self)
  let args := copies.map fun c =>
    if c.element.byRef then Step.ldloca c.value else Step.ldloc c.value
  let lambda ← lambdaRef
  let back ← copies.flatMapM (writeBack runtimes)
  emit m ([Step.ldarg 1, Step.call toRuntimes, Step.stloc runtimes] ++ out ++
    [Step.ldarg 0, Step.call toJob] ++ args ++ [Step.call lambda] ++ back ++
    [Step.ret])
  let delegate ← Weave.importNested Ns.codeGenerated
    TypeName.structuralChangeProvider "PerformLambdaDelegate"
  let field ← addField "_performLambdaDelegate" delegate
    (FieldFlag.pub ||| FieldFlag.static) []
  let cctor ← declare ".cctor"
    (MethodFlag.priv ||| MethodFlag.static ||| MethodFlag.specialName |||
      MethodFlag.rtSpecialName) .void []
  let ctor ← Weave.importMethod delegate ".ctor" 2
  emit cctor [Step.ldnull, Step.ldftn (← Weave.methodRef m), Step.newobj ctor,
    Step.stsfld field, Step.ret]
  return field

/-- Fetches the state of a parameter's provider for all entities. -/
def prepareStructural (runtimes : LocalRef) (e : Element) :
    Planning (List Step) := do
  let call ← providerMethod e "PrepareToExecuteWithStructuralChanges" 2
  return [Step.ldloca runtimes, Step.ldarg 0, Step.ldflda (← get).providers,
    Step.ldflda e.providerField, Step.ldarg 1, Step.ldarg 2, Step.call call,
    Step.stfld e.runtimeField]

/-- Calls the method that disposes containers, if there is one. -/
def disposing (load : List Step) : Planning (List Step) := do
  match (← get).deallocate with
  | some m => return load ++ [Step.call (← Weave.methodRef m)]
  | none => return []

/-- Declares the entry point of a job that makes structural changes. -/
def structuralEntryPoint : Planning Unit := do
  let delegate ← callback
  let walker ← Weave.importType Ns.codeGenerated
    TypeName.structuralChangeProvider
  let m ← declareExecute MethodFlag.pub
    [param "system" (← Weave.importEntities TypeName.componentSystemBase),
      param "query" (← Weave.importEntities TypeName.entityQuery)]
  let runtimes ← addLocal m (← get).runtimes "runtimes"
  let provider ← addLocal m walker "provider"
  let start ← Weave.importMethod walker
    "PrepareToExecuteWithStructuralChanges" 2
  let prepare ← (← get).elements.flatMapM (prepareStructural runtimes)
  let iterate ← Weave.importMethod walker "IterateEntities" 3
  let finish ← Weave.importMethod walker
    "FinishExecuteWithStructuralChanges" 0
  let dispose ← disposing [Step.ldarg 0]
  emit m ([Step.ldloca provider, Step.ldarg 1, Step.ldarg 2, Step.call start] ++
    prepare ++
    [Step.ldloca provider, Step.ldarg 0, (.convU, .none), Step.ldloca runtimes,
      (.convU, .none), Step.ldsfld delegate, Step.call iterate,
      Step.ldloca provider, Step.call finish] ++ dispose ++ [Step.ret])

/-! ## Preparation and direct runs -/

/-- Declares the method that the call site uses to prepare the job: it starts
the providers, copies the captured variables and fetches the component
look-ups. -/
def preparation : Planning Unit := do
  let u ← get
  let system := param "componentSystem" (← Weave.selfRef u.chain.system)
  let params ←
    if u.readClosure.isSome then do
      pure [system, param "displayClass" (← closureParam)]
    else pure [system]
  let m ← declare "ScheduleTimeInitialize" MethodFlag.pub .void params
  modify fun u => { u with prepare := some m }
  let base ← Weave.importEntities TypeName.componentSystemBase
  let providers ← u.elements.flatMapM fun e => do
    let start ← providerMethod e "ScheduleTimeInitialize" 2
    return [Step.ldarg 0, Step.ldflda u.providers, Step.ldflda e.providerField,
      Step.ldarg 1, Step.ldBool e.isReadOnly, Step.call start]
  let read ←
    match u.readClosure with
    | some r => do
      pure [Step.ldarg 0, Step.ldarg 2, Step.call (← Weave.methodRef r)]
    | none => pure []
  let host :=
    match u.host with
    | some f => [Step.ldarg 0, Step.ldarg 1, Step.stfld f]
    | none => []
  let lookups ← u.access.flatMapM fun a => do
    let fetch ← Weave.importMethod base "GetComponentDataFromEntity" 1
    return [Step.ldarg 0, Step.ldarg 1, Step.ldBool a.readOnly,
      Step.call (fetch.instantiate [a.type]), Step.stfld a.field]
  emit m (providers ++ read ++ host ++ lookups ++ [Step.ret])

/-- What the static entry point of a job runs. -/
inductive DirectEntry where
  /-- the job itself -/
  | job
  /-- the job's struct on chunks, through a method of the framework -/
  | chunks (self : TypeRef) (run : MethodRef)

/-- Declares the static entry point of a job without entities, and gives its
delegate type with it. -/
def directJob : Planning (TypeRef × MethodId × DirectEntry) := do
  let delegate ← Weave.importNested Ns.entities
    TypeName.internalCompilerInterface "JobRunWithoutJobSystemDelegate"
  let m ← declare "RunWithoutJobSystem" staticEntry .void
    [param "jobData" TypeRef.void.pointer]
  return (delegate, m, .job)

/-- Declares the static entry point of a job over chunks, and gives its delegate
type with it. -/
def directChunks : Planning (TypeRef × MethodId × DirectEntry) := do
  let self ← self
  let delegate ← Weave.importNested Ns.entities
    TypeName.internalCompilerInterface "JobChunkRunWithoutJobSystemDelegate"
  let iterator ← Weave.importEntities TypeName.chunkIterator
  let m ← declare "RunWithoutJobSystem" staticEntry .void
    [param "archetypeChunkIterator" iterator.pointer,
      param "jobData" TypeRef.void.pointer]
  let run ← Weave.importMethod
    (← Weave.importEntities TypeName.jobChunkExtensions) "RunWithoutJobs" 2
  return (delegate, m, .chunks self run)

/-- Disposes containers of the job that an argument points to. -/
def directDispose (arg : Int) (self : TypeRef) : Planning (List Step) := do
  if (← get).deallocate.isSome then
    disposing [Step.ldarg arg, Step.call (← asRef self)]
  else return []

/-- The code of a static entry point. -/
def directSteps : DirectEntry → Planning (List Step)
  | .job => do
    let self ← self
    let toJob ← asRef self
    let execute ← Weave.methodRef (← Weave.need (← get).execute)
    let dispose ← directDispose 0 self
    return [Step.ldarg 0, Step.call toJob, Step.call execute] ++ dispose ++
      [Step.ret]
  | .chunks self run => do
    let toJob ← asRef self
    let dispose ← directDispose 1 self
    return [Step.ldarg 1, Step.call toJob, Step.ldarg 0,
      Step.call (run.instantiate [self])] ++ dispose ++ [Step.ret]

/-- Declares the fields with delegates to the static entry point, and plans the
code that fills them. -/
def directDelegates (delegate : TypeRef) (m : MethodId) : Planning Unit := do
  let flags := FieldFlag.pub ||| FieldFlag.static
  let plain ← addField "s_RunWithoutJobSystemDelegateFieldNoBurst" delegate
    flags []
  let native ←
    if (← chain).usesBurst then
      some <$> addField "s_RunWithoutJobSystemDelegateFieldBurst" delegate
        flags []
    else pure none
  let ctor ← Weave.importMethod delegate ".ctor" 2
  let compile ←
    match native with
    | some f => do
      let owner ← Weave.importEntities TypeName.internalCompilerInterface
      let compile ← Weave.importGenericMethod owner "BurstCompile" 1 (-1)
        [delegate]
      pure [Step.ldsfld plain, Step.call compile, Step.stsfld f]
    | none => pure []
  let start := [Step.ldnull, Step.ldftn (← Weave.methodRef m),
    Step.newobj ctor, Step.stsfld plain]
  modify fun u => { u with
    runDirectly := some m, runDelegate := some plain, burstDelegate := native,
    init := u.init ++ start ++ compile }

/-- Declares the static entry point for running on the calling thread, and what
calls it. -/
def directEntryPoint : Planning Unit := do
  let (delegate, m, entry) ←
    if (← chain).kind == .job then directJob else directChunks
  let callable ← Weave.importAttribute Ns.aot
    AttributeName.monoPInvokeCallback [.type delegate]
  Weave.modifyWorkspace (·.updateMethod m fun d =>
    { d with attributes := [callable] })
  emit m (← directSteps entry)
  directDelegates delegate m

end JobWeave.Planning
