import JobWeave.Framework.Draft

/-!
# The framework's modules

Two modules that every pass resolves against: a core library and the surface of
the entity framework, that is component systems, the vocabulary of job chains,
job interfaces, value providers and the attributes that the pass reads or emits.
-/

namespace JobWeave.Framework

open Draft

/-! ## References -/

namespace Ref

def allowDynamic : TypeRef :=
  .ofName Ns.entities AttributeName.allowDynamicValue false
def structural : TypeRef :=
  .ofName Ns.entities AttributeName.structuralChangeMethod false
def nativeContainer : TypeRef :=
  .ofName Ns.collectionsLowLevel AttributeName.nativeContainer false
def supportsDeallocate : TypeRef :=
  .ofName Ns.collectionsLowLevel AttributeName.supportsDeallocate false
def floatMode : TypeRef := .ofName Ns.burst TypeName.floatMode true
def floatPrecision : TypeRef := .ofName Ns.burst TypeName.floatPrecision true
def entity : TypeRef := .ofName Ns.entities TypeName.entity true
def queryOptions : TypeRef :=
  .ofName Ns.entities TypeName.entityQueryOptions true
def componentType : TypeRef := .ofName Ns.entities TypeName.componentType true
def entityQueryDesc : TypeRef :=
  .ofName Ns.entities TypeName.entityQueryDesc false
def entityQuery : TypeRef := .ofName Ns.entities TypeName.entityQuery false
def chunk : TypeRef := .ofName Ns.entities TypeName.archetypeChunk true
def chunkIterator : TypeRef := .ofName Ns.entities TypeName.chunkIterator true
def dynamicBuffer : TypeRef := .ofName Ns.entities TypeName.dynamicBuffer true
def entityManager : TypeRef := .ofName Ns.entities TypeName.entityManager true
def componentDataFromEntity : TypeRef :=
  .ofName Ns.entities TypeName.componentDataFromEntity true
def jobHandle : TypeRef := .ofName Ns.jobs TypeName.jobHandle true
def componentSystemBase : TypeRef :=
  .ofName Ns.entities TypeName.componentSystemBase false

/-- A description type of chains. -/
def description (name : String) : TypeRef := .ofName Ns.entities name true

/-- An unmanaged pointer to anything. -/
def anyPointer : TypeRef := TypeRef.void.pointer

end Ref

/-! ## The core library -/

/-- The core library. -/
def systemModule : Module :=
  let plain := fun name => class_ Ns.system name .object []
  { name := "System.Runtime",
    types :=
      [class_ Ns.system "Object" .absent [constructor []],
        plain "ValueType",
        class_ Ns.system "Enum" .valueType [],
        plain "String", plain "Type", plain "Delegate",
        class_ Ns.system "MulticastDelegate"
          (.ofName Ns.system "Delegate" false) [],
        plain "Attribute"] ++
      ["Void", "Boolean", "Char", "Byte", "Int16", "Int32", "Int64", "UInt32",
        "UInt64", "Single", "Double", "IntPtr", "UIntPtr"].map
          (struct Ns.system · []) ++
      [attributeType Ns.compilerServices AttributeName.isReadOnly,
        attributeType Ns.compilerServices AttributeName.compilerGenerated] }

/-! ## The entity framework -/

/-- Attributes that the pass reads or emits. -/
def attributeTypes : List TypeDef :=
  [attributeType Ns.entities AttributeName.allowDynamicValue,
    attributeType Ns.entities AttributeName.structuralChangeMethod,
    attributeType Ns.entities AttributeName.dotsCompilerGenerated,
    attributeType Ns.collectionsLowLevel AttributeName.nativeContainer,
    attributeType Ns.collectionsLowLevel AttributeName.supportsDeallocate,
    attributeType Ns.collectionsLowLevel AttributeName.disableContainerSafety,
    attributeType Ns.collectionsLowLevel AttributeName.disableUnsafePtr,
    attributeType Ns.collections AttributeName.readOnly,
    attributeType Ns.collections AttributeName.deallocateOnJobCompletion,
    attributeType Ns.collections AttributeName.disableParallelFor,
    enum Ns.burst TypeName.floatMode,
    enum Ns.burst TypeName.floatPrecision,
    withFields
      [field "FloatMode" Ref.floatMode,
        field "FloatPrecision" Ref.floatPrecision,
        field "CompileSynchronously" .boolean]
      (attributeType Ns.burst AttributeName.burstCompile),
    attributeType Ns.burst AttributeName.noAlias,
    attributeType Ns.unityEngine AttributeName.executeAlways,
    class_ Ns.aot AttributeName.monoPInvokeCallback attributeBase
      [constructor [param "type" (.ofName "System" "Type" false)]]]

/-- Entities, components, queries and containers. -/
def dataTypes : List TypeDef :=
  let entity := param "entity" Ref.entity
  let structural := fun m => marked m [Ref.structural]
  let componentTypes := Ref.componentType.array
  [struct Ns.entities TypeName.entity [],
    interface Ns.entities TypeName.componentData [],
    interface Ns.entities TypeName.sharedComponentData [],
    interface Ns.entities TypeName.bufferElementData [],
    enum Ns.entities TypeName.entityQueryOptions,
    struct Ns.entities TypeName.componentType
      [generic (static "ReadOnly" Ref.componentType []) ["T"],
        generic (static "ReadWrite" Ref.componentType []) ["T"]],
    withFields
      [field "All" componentTypes, field "Any" componentTypes,
        field "None" componentTypes, field "Options" Ref.queryOptions]
      (class_ Ns.entities TypeName.entityQueryDesc .object [constructor []]),
    class_ Ns.entities TypeName.entityQuery .object
      [onInstance "SetChangedVersionFilter" .void
          [param "componentType" componentTypes],
        generic
          (onInstance "SetSharedComponentFilter" .void
            [param "sharedComponent" mt0]) ["T"],
        onInstance "ResetFilter" .void []],
    struct Ns.entities TypeName.archetypeChunk
      [onInstance "get_Count" .int32 []],
    struct Ns.entities TypeName.chunkIterator [],
    structOf Ns.entities TypeName.dynamicBuffer ["T"] [Ref.nativeContainer]
      [onInstance "get_Length" .int32 []] [],
    struct Ns.entities TypeName.entityManager
      [structural (onInstance "CreateEntity" Ref.entity []),
        structural (onInstance "DestroyEntity" .void [entity]),
        structural
          (generic (onInstance "AddComponent" .boolean [entity]) ["T"]),
        structural
          (generic (onInstance "RemoveComponent" .boolean [entity]) ["T"]),
        structural
          (generic
            (onInstance "AddComponentData" .boolean
              [entity, param "componentData" mt0]) ["T"]),
        generic (onInstance "GetComponentData" mt0 [entity]) ["T"],
        generic
          (onInstance "SetComponentData" .void
            [entity, param "componentData" mt0]) ["T"],
        generic (onInstance "HasComponent" .boolean [entity]) ["T"]],
    structOf Ns.entities TypeName.componentDataFromEntity ["T"]
      [Ref.nativeContainer]
      [onInstance "get_Item" t0 [entity],
        onInstance "set_Item" .void [entity, param "value" t0],
        onInstance "HasComponent" .boolean [entity]] [],
    structOf Ns.collections TypeName.nativeArray ["T"]
      [Ref.nativeContainer, Ref.supportsDeallocate]
      [onInstance "Dispose" .void [],
        onInstance "get_Length" .int32 [],
        onInstance "get_Item" t0 [param "index" .int32],
        onInstance "set_Item" .void
          [param "index" .int32, param "value" t0]] []]

/-- Jobs, how they are scheduled, and how they run without the job system. -/
def jobTypes : List TypeDef :=
  let contract := MethodFlag.pub ||| MethodFlag.virtual ||| MethodFlag.abstract
  let jobData := param "jobData" mt0
  let dependsOn := param "dependsOn" Ref.jobHandle
  let query := param "query" Ref.entityQuery
  let compiler :=
    TypeRef.ofName Ns.entities TypeName.internalCompilerInterface false
  let runJob := compiler.nestedIn "JobRunWithoutJobSystemDelegate" false
  let runChunk := compiler.nestedIn "JobChunkRunWithoutJobSystemDelegate" false
  [struct Ns.jobs TypeName.jobHandle
      [onInstance "Complete" .void [],
        static "CombineDependencies" Ref.jobHandle
          [param "job0" Ref.jobHandle, param "job1" Ref.jobHandle]],
    interface Ns.jobs TypeName.job [method "Execute" contract .void []],
    staticClass Ns.jobs TypeName.jobExtensions
      [generic (static "Schedule" Ref.jobHandle [jobData, dependsOn]) ["T"],
        generic (static "Run" .void [jobData]) ["T"]] [],
    staticClass Ns.jobsLowLevel TypeName.jobsUtility
      [static "get_JobCompilerEnabled" .boolean []] [],
    staticClass Ns.collectionsLowLevel TypeName.unsafeUtility
      [generic (static "AsRef" mt0.byRef [param "ptr" Ref.anyPointer])
        ["T"]] [],
    interface Ns.entities TypeName.jobChunk
      [method "Execute" contract .void
        [param "chunk" Ref.chunk, param "chunkIndex" .int32,
          param "firstEntityIndex" .int32]],
    staticClass Ns.entities TypeName.jobChunkExtensions
      (["Schedule", "ScheduleSingle", "ScheduleParallel"].map (fun name =>
        generic (static name Ref.jobHandle [jobData, query, dependsOn])
          ["T"]) ++
      [generic (static "Run" .void [jobData, query]) ["T"],
        generic
          (static "RunWithoutJobs" .void
            [param "jobData" mt0.byRef,
              param "chunkIterator" Ref.chunkIterator.pointer]) ["T"]]) [],
    staticClass Ns.entities TypeName.internalCompilerInterface
      [static "BurstCompile" runJob [param "d" runJob],
        static "BurstCompile" runChunk [param "d" runChunk],
        generic
          (static "RunIJob" .void
            [param "jobData" mt0.byRef, param "functionPointer" runJob])
          ["T"],
        generic
          (static "RunJobChunk" .void
            [param "jobData" mt0.byRef, query,
              param "functionPointer" runChunk]) ["T"]]
      [nestedDelegate "JobRunWithoutJobSystemDelegate" .void
          [param "jobData" Ref.anyPointer],
        nestedDelegate "JobChunkRunWithoutJobSystemDelegate" .void
          [param "iterator" Ref.chunkIterator.pointer,
            param "jobData" Ref.anyPointer]]]

/-- Component systems. -/
def systemTypes : List TypeDef :=
  let family := MethodFlag.family
  let virtual := family ||| MethodFlag.virtual
  let entity := param "entity" Ref.entity
  [abstract (class_ Ns.entities TypeName.componentSystemBase .object
      [constructor [],
        method Member.onCreateForCompiler
          (family ||| MethodFlag.assembly ||| MethodFlag.virtual) .void [],
        method "OnCreate" virtual .void [],
        onInstance "get_EntityManager" Ref.entityManager [],
        method "GetEntityQuery" family Ref.entityQuery
          [param "queryDesc" Ref.entityQueryDesc.array],
        generic
          (onInstance "GetComponentDataFromEntity"
            (Ref.componentDataFromEntity.withArgs [mt0])
            [param "isReadOnly" .boolean]) ["T"]]),
    abstract (class_ Ns.entities TypeName.systemBase Ref.componentSystemBase
      [constructor [],
        method Member.getEntities family
          (Ref.description TypeName.forEachDescription) [],
        method Member.getJob family
          (Ref.description TypeName.singleJobDescription) [],
        onInstance "get_Dependency" Ref.jobHandle [],
        onInstance "set_Dependency" .void [param "value" Ref.jobHandle],
        method "CompleteDependency" family .void [],
        generic (method "GetComponent" family mt0 [entity]) ["T"],
        generic
          (method "SetComponent" family .void
            [entity, param "component" mt0]) ["T"],
        generic (method "HasComponent" family .boolean [entity]) ["T"],
        method "OnUpdate" (virtual ||| MethodFlag.abstract) .void []]),
    abstract (class_ Ns.entities TypeName.jobComponentSystem
      Ref.componentSystemBase
      [constructor [],
        method Member.getEntities family
          (Ref.description TypeName.forEachDescriptionJcs) [],
        method Member.getJob family
          (Ref.description TypeName.singleJobDescriptionJcs) [],
        method Member.getChunks family
          (Ref.description TypeName.chunkDescription) [],
        method "OnUpdate" (virtual ||| MethodFlag.abstract) Ref.jobHandle
          [param "inputDeps" Ref.jobHandle]])]

/-- The names of `n` type parameters. -/
def typeParamNames (n : Nat) : List String :=
  if n = 1 then ["T"]
  else (List.range n).map fun i => "T" ++ toString (i + 1)

/-- A parameter that may be computed at run time. -/
def dynamicParam (name : String) (type : TypeRef) : ParamDef :=
  markedParam name type Ref.allowDynamic

/-- Methods of every chain. -/
def commonChainMethods : TypeDef :=
  let self := param "description" mt0
  let chain := fun name params =>
    generic (static name mt0 (self :: params)) ["TDescription"]
  let outer := TypeRef.ofName Ns.entities TypeName.constructionMethods false
  let multiple :=
    outer.nestedIn AttributeName.allowMultipleInvocations false
  let onVariable := fun (fm : FieldModifier) =>
    let arg :=
      if fm.method = Member.withNativeDisableUnsafePtr then mt1.pointer
      else mt1
    marked
      (generic
        (static fm.method mt0 [self, dynamicParam "capturedVariable" arg])
        ["TDescription", "TCapturedVariableType"])
      [multiple]
  staticClass Ns.entities TypeName.constructionMethods
    ([chain Member.withoutBurst [],
        chain Member.withBurst [param "enabled" .boolean],
        chain Member.withBurst
          [param "floatMode" Ref.floatMode,
            param "floatPrecision" Ref.floatPrecision,
            param "synchronousCompilation" .boolean],
        chain Member.withName [param "name" .string],
        chain Member.withStructuralChanges []] ++
      fieldModifiers.map onVariable)
    [nestedAttribute AttributeName.allowMultipleInvocations]

/-- Methods of chains over entities and chunks that shape their query. -/
def queryChainMethods : TypeDef :=
  let methodsOn := fun (d : TypeRef) =>
    let self := param "description" d
    ([Member.withNone, Member.withAny, Member.withAll].flatMap fun name =>
      [1, 2, 3].map fun n =>
        generic (static name d [self]) (typeParamNames n)) ++
    ([1, 2].map fun n =>
      generic (static Member.withChangeFilter d [self]) (typeParamNames n)) ++
    [static Member.withEntityQueryOptions d
        [self, param "options" Ref.queryOptions],
      generic
        (static Member.withSharedComponentFilter d
          [self, dynamicParam "sharedComponent" mt0]) ["T"],
      static Member.withStoreEntityQueryInField d
        [self, dynamicParam "query" Ref.entityQuery.byRef]]
  staticClass Ns.entities TypeName.queryConstructionMethods
    ([TypeName.forEachDescription, TypeName.forEachDescriptionJcs,
      TypeName.chunkDescription].flatMap fun n => methodsOn (Ref.description n))
    []

/-- Methods that end a chain.  Systems with an implicit dependency have forms
without a handle, and some can be scheduled in parallel. -/
def executionType (name : String) (implicit parallel : Bool) : TypeDef :=
  let self := param "description" mt0
  let chain := fun name ret params =>
    generic (static name ret (self :: params)) ["TDescription"]
  let handle := dynamicParam "dependency" Ref.jobHandle
  staticClass Ns.entities name
    ([chain Member.schedule Ref.jobHandle [handle]] ++
      (if implicit then [chain Member.schedule .void []] else []) ++
      (if parallel then
        [chain Member.scheduleParallel Ref.jobHandle [handle],
          chain Member.scheduleParallel .void []]
      else []) ++
      [chain Member.run .void []])
    []

/-- The vocabulary of chains. -/
def chainTypes : List TypeDef :=
  let iface := fun name => TypeRef.ofName Ns.entities name false
  let desc := iface "ILambdaJobDescription"
  let exec := iface "ILambdaJobExecutionDescription"
  let execJcs := iface "ILambdaJobExecutionDescriptionJCS"
  let single := iface "ILambdaSingleJobExecutionDescription"
  let singleJcs := iface "ILambdaSingleJobExecutionDescriptionJCS"
  let chunkDesc := Ref.description TypeName.chunkDescription
  let self := param "description" mt0
  let chunkSelf := param "description" chunkDesc
  let withCode :=
    (iface TypeName.singleJobConstructionMethods).nestedIn "WithCodeAction"
      false
  let chunkDelegate :=
    (iface TypeName.chunkConstructionMethods).nestedIn "JobChunkDelegate" false
  [interface Ns.entities "ILambdaJobDescription" [],
    interface Ns.entities "ILambdaJobExecutionDescription" [],
    interface Ns.entities "ILambdaJobExecutionDescriptionJCS" [],
    interface Ns.entities "ILambdaSingleJobExecutionDescription" [],
    interface Ns.entities "ILambdaSingleJobExecutionDescriptionJCS" [],
    structImplementing Ns.entities TypeName.forEachDescription [desc, exec],
    structImplementing Ns.entities TypeName.forEachDescriptionJcs
      [desc, execJcs],
    structImplementing Ns.entities TypeName.singleJobDescription
      [desc, single],
    structImplementing Ns.entities TypeName.singleJobDescriptionJcs
      [desc, singleJcs],
    structImplementing Ns.entities TypeName.chunkDescription [desc, execJcs],
    commonChainMethods,
    queryChainMethods,
    staticClass Ns.entities TypeName.forEachConstructionMethods
      [generic (static Member.forEach mt0 [self, dynamicParam "code" mt1])
        ["TDescription", "TDelegate"]] [],
    staticClass Ns.entities TypeName.singleJobConstructionMethods
      [generic
        (static Member.withCode mt0 [self, dynamicParam "code" withCode])
        ["TDescription"]]
      [nestedDelegate "WithCodeAction" .void []],
    staticClass Ns.entities TypeName.chunkConstructionMethods
      [static Member.forEach chunkDesc
        [chunkSelf, dynamicParam "code" chunkDelegate]]
      [nestedDelegate "JobChunkDelegate" .void
        [param "chunk" Ref.chunk, param "chunkIndex" .int32,
          param "queryIndexOfFirstEntityInChunk" .int32]],
    executionType TypeName.executionMethods true true,
    executionType TypeName.executionMethodsJcs false false,
    executionType TypeName.singleJobExecutionMethods true false,
    executionType TypeName.singleJobExecutionMethodsJcs false false,
    staticClass Ns.entities TypeName.forEachSetShared
      [generic
        (static "SetSharedComponentFilterOnQuery" mt0
          [self, param "sharedComponent" mt1, param "query" Ref.entityQuery])
        ["TDescription", "T"]] [],
    staticClass Ns.entities TypeName.chunkSetShared
      [generic
        (static "SetSharedComponentFilterOnQuery" chunkDesc
          [chunkSelf, param "sharedComponent" mt0,
            param "query" Ref.entityQuery])
        ["T"]] []]

/-- A value provider of lambda parameters. -/
structure ProviderShape where
  /-- the provider's name -/
  name : String
  /-- it is generic in the type of the values -/
  generic : Bool
  /-- what its runtime hands out per entity -/
  result : TypeRef
  /-- preparing it needs the chunk's and the entity's index -/
  indexed : Bool
  /-- it copies the value out and back around a structural change -/
  writeBack : Bool

/-- The value providers. -/
def providerShapes : List ProviderShape := [
  ⟨Provider.entity, false, Ref.entity, false, false⟩,
  ⟨Provider.component, true, t0.byRef, false, true⟩,
  ⟨Provider.tag, true, t0, false, false⟩,
  ⟨Provider.managed, true, t0, false, false⟩,
  ⟨Provider.shared, true, t0, false, false⟩,
  ⟨Provider.buffer, true, Ref.dynamicBuffer.withArgs [t0], false, false⟩,
  ⟨Provider.entityInQueryIndex, false, .int32, true, false⟩,
  ⟨Provider.nativeThreadIndex, false, .int32, false, false⟩]

/-- A value provider with its two runtimes. -/
def ProviderShape.type (s : ProviderShape) : TypeDef :=
  let entity := param "entity" Ref.entity
  let generics := if s.generic then ["T"] else []
  let outer := TypeRef.ofName Ns.codeGenerated s.name true
  let runtimeRef := fun name =>
    (outer.nestedIn name true).withArgs (if s.generic then [t0] else [])
  let value := if s.result.isByRef then s.result.wrappedType else s.result
  let afterChange :=
    if s.writeBack then
      [onInstance "For" t0 [entity, outParam "originalComponent" t0],
        onInstance "WriteBack" .void
          [entity, param "lambdaComponent" t0.byRef,
            param "originalComponent" t0.byRef]]
    else [onInstance "For" value [entity]]
  structOf Ns.codeGenerated s.name generics []
    [onInstance "ScheduleTimeInitialize" .void
        [param "system" Ref.componentSystemBase, param "isReadOnly" .boolean],
      onInstance "PrepareToExecuteOnEntitiesIn" (runtimeRef "Runtime")
        (param "chunk" Ref.chunk.byRef ::
          (if s.indexed then
            [param "chunkIndex" .int32, param "firstEntityIndex" .int32]
          else [])),
      onInstance "PrepareToExecuteWithStructuralChanges"
        (runtimeRef "StructuralChangeRuntime")
        [param "system" Ref.componentSystemBase,
          param "query" Ref.entityQuery]]
    [nestedStruct "Runtime" generics
        [onInstance "For" s.result [param "i" .int32]],
      nestedStruct "StructuralChangeRuntime" generics afterChange]

/-- The provider that walks entities while the lambda changes them. -/
def structuralChangeType : TypeDef :=
  let outer :=
    TypeRef.ofName Ns.codeGenerated TypeName.structuralChangeProvider true
  let perform := outer.nestedIn "PerformLambdaDelegate" false
  structOf Ns.codeGenerated TypeName.structuralChangeProvider [] []
    [onInstance "PrepareToExecuteWithStructuralChanges" .void
        [param "system" Ref.componentSystemBase,
          param "query" Ref.entityQuery],
      onInstance "IterateEntities" .void
        [param "jobStruct" Ref.anyPointer, param "runtimes" Ref.anyPointer,
          param "callback" perform],
      onInstance "FinishExecuteWithStructuralChanges" .void []]
    [nestedDelegate "PerformLambdaDelegate" .void
      [param "jobStruct" Ref.anyPointer, param "runtimes" Ref.anyPointer,
        param "entity" Ref.entity]]

/-- Parameter patterns of one up to `n` more letters after `front`, shorter
before longer: by value, by reference, by reference to read. -/
def patternsFrom : Nat → List Char → List (List Char)
  | 0, _ => []
  | n + 1, front =>
    ['V', 'R', 'I'].flatMap fun c =>
      (front ++ [c]) :: patternsFrom n (front ++ [c])

/-- The delegate type of a parameter pattern. -/
def universalDelegate (pattern : List Char) : TypeDef :=
  let params := pattern.mapIdx fun i c =>
    let name := "t" ++ toString i
    let arg := TypeRef.typeParam i
    match c with
    | 'R' => param name arg.byRef
    | 'I' => inParam name arg
    | _ => param name arg
  delegate Ns.universal (universalDelegateName (String.ofList pattern))
    (pattern.mapIdx fun i _ => "T" ++ toString i) .void params

/-- The entity framework. -/
def entitiesModule : Module :=
  { name := "Unity.Entities",
    types :=
      attributeTypes ++ dataTypes ++ jobTypes ++ systemTypes ++ chainTypes ++
        providerShapes.map ProviderShape.type ++ [structuralChangeType] ++
        (patternsFrom 3 []).map universalDelegate }

/-- The modules that every pass resolves against. -/
def modules : List Module :=
  [systemModule, entitiesModule]

end JobWeave.Framework
