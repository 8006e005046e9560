import JobWeave.Diagnostic.Catalog

/-!
# Framework names

The namespaces, types and members of the entity framework that the pass reads or
emits, and the questions about names that need no definitions.
-/

namespace JobWeave.Framework

/-! ## Namespaces -/

namespace Ns

def system : String := "System"
def compilerServices : String := "System.Runtime.CompilerServices"
def entities : String := "Unity.Entities"
def codeGenerated : String := "Unity.Entities.CodeGeneratedJobForEach"
def universal : String := "Unity.Entities.UniversalDelegates"
def jobs : String := "Unity.Jobs"
def jobsLowLevel : String := "Unity.Jobs.LowLevel.Unsafe"
def collections : String := "Unity.Collections"
def collectionsLowLevel : String := "Unity.Collections.LowLevel.Unsafe"
def burst : String := "Unity.Burst"
def unityEngine : String := "UnityEngine"
def aot : String := "AOT"

end Ns

/-! ## Types -/

namespace TypeName

def componentSystemBase : String := "ComponentSystemBase"
def systemBase : String := "SystemBase"
def jobComponentSystem : String := "JobComponentSystem"

def forEachDescription : String := "ForEachLambdaJobDescription"
def forEachDescriptionJcs : String := "ForEachLambdaJobDescriptionJCS"
def singleJobDescription : String := "LambdaSingleJobDescription"
def singleJobDescriptionJcs : String := "LambdaSingleJobDescriptionJCS"
def chunkDescription : String := "LambdaJobChunkDescription"
def forEachSetShared : String :=
  "ForEachLambdaJobDescription_SetSharedComponent"
def chunkSetShared : String := "LambdaJobChunkDescription_SetSharedComponent"
def internalCompilerInterface : String := "InternalCompilerInterface"
def jobChunkExtensions : String := "JobChunkExtensions"
def structuralChangeProvider : String := "StructuralChangeEntityProvider"

def constructionMethods : String := "LambdaJobDescriptionConstructionMethods"
def queryConstructionMethods : String := "LambdaJobQueryConstructionMethods"
def forEachConstructionMethods : String :=
  "LambdaForEachDescriptionConstructionMethods"
def singleJobConstructionMethods : String :=
  "LambdaSingleJobDescriptionConstructionMethods"
def chunkConstructionMethods : String :=
  "LambdaJobChunkDescriptionConstructionMethods"
def executionMethods : String := "LambdaJobDescriptionExecutionMethods"
def executionMethodsJcs : String := "LambdaJobDescriptionExecutionMethodsJCS"
def singleJobExecutionMethods : String :=
  "LambdaSingleJobDescriptionExecutionMethods"
def singleJobExecutionMethodsJcs : String :=
  "LambdaSingleJobDescriptionExecutionMethodsJCS"

def componentData : String := "IComponentData"
def sharedComponentData : String := "ISharedComponentData"
def bufferElementData : String := "IBufferElementData"
def dynamicBuffer : String := "DynamicBuffer"
def entity : String := "Entity"
def entityManager : String := "EntityManager"
def entityQuery : String := "EntityQuery"
def entityQueryDesc : String := "EntityQueryDesc"
def entityQueryOptions : String := "EntityQueryOptions"
def componentType : String := "ComponentType"
def archetypeChunk : String := "ArchetypeChunk"
def chunkIterator : String := "ArchetypeChunkIterator"
def componentDataFromEntity : String := "ComponentDataFromEntity"
def job : String := "IJob"
def jobChunk : String := "IJobChunk"
def jobExtensions : String := "IJobExtensions"
def jobHandle : String := "JobHandle"
def jobsUtility : String := "JobsUtility"
def unsafeUtility : String := "UnsafeUtilityEx"
def nativeArray : String := "NativeArray"
def floatMode : String := "FloatMode"
def floatPrecision : String := "FloatPrecision"

end TypeName

/-! ## Value providers of lambda parameters -/

namespace Provider

def entity : String := "LambdaParameterValueProvider_Entity"
def component : String := "LambdaParameterValueProvider_IComponentData"
def tag : String := "LambdaParameterValueProvider_IComponentData_Tag"
def managed : String := "LambdaParameterValueProvider_ManagedComponentData"
def shared : String := "LambdaParameterValueProvider_ISharedComponentData"
def buffer : String := "LambdaParameterValueProvider_DynamicBuffer"
def entityInQueryIndex : String :=
  "LambdaParameterValueProvider_EntityInQueryIndex"
def nativeThreadIndex : String :=
  "LambdaParameterValueProvider_NativeThreadIndex"

end Provider

/-! ## Attributes -/

namespace AttributeName

def allowDynamicValue : String := "AllowDynamicValueAttribute"
def allowMultipleInvocations : String := "AllowMultipleInvocationsAttribute"
def dotsCompilerGenerated : String := "DOTSCompilerGeneratedAttribute"
def structuralChangeMethod : String := "StructuralChangeMethodAttribute"
def executeAlways : String := "ExecuteAlways"
def burstCompile : String := "BurstCompileAttribute"
def noAlias : String := "NoAliasAttribute"
def monoPInvokeCallback : String := "MonoPInvokeCallbackAttribute"
def readOnly : String := "ReadOnlyAttribute"
def deallocateOnJobCompletion : String := "DeallocateOnJobCompletionAttribute"
def nativeContainer : String := "NativeContainerAttribute"
def supportsDeallocate : String :=
  "NativeContainerSupportsDeallocateOnJobCompletionAttribute"
def disableContainerSafety : String :=
  "NativeDisableContainerSafetyRestrictionAttribute"
def disableUnsafePtr : String := "NativeDisableUnsafePtrRestrictionAttribute"
def disableParallelFor : String :=
  "NativeDisableParallelForRestrictionAttribute"
def isReadOnly : String := "IsReadOnlyAttribute"
def compilerGenerated : String := "CompilerGeneratedAttribute"

end AttributeName

/-! ## Members -/

namespace Member

def getEntities : String := "get_Entities"
def getJob : String := "get_Job"
def getChunks : String := "get_Chunks"
def forEach : String := "ForEach"
def withCode : String := "WithCode"
def withName : String := "WithName"
def withBurst : String := "WithBurst"
def withoutBurst : String := "WithoutBurst"
def withStructuralChanges : String := "WithStructuralChanges"
def withReadOnly : String := "WithReadOnly"
def withDeallocateOnJobCompletion : String := "WithDeallocateOnJobCompletion"
def withNativeDisableContainerSafety : String :=
  "WithNativeDisableContainerSafetyRestriction"
def withNativeDisableUnsafePtr : String :=
  "WithNativeDisableUnsafePtrRestriction"
def withNativeDisableParallelFor : String :=
  "WithNativeDisableParallelForRestriction"
def withAll : String := "WithAll"
def withAny : String := "WithAny"
def withNone : String := "WithNone"
def withChangeFilter : String := "WithChangeFilter"
def withEntityQueryOptions : String := "WithEntityQueryOptions"
def withSharedComponentFilter : String := "WithSharedComponentFilter"
def withStoreEntityQueryInField : String := "WithStoreEntityQueryInField"
def run : String := "Run"
def schedule : String := "Schedule"
def scheduleParallel : String := "ScheduleParallel"

/-- The hook that every component system gets. -/
def onCreateForCompiler : String := "OnCreateForCompiler"

/-- Lambda parameters of this name get the entity's index in its query. -/
def entityInQueryIndex : String := "entityInQueryIndex"

/-- Lambda parameters of this name get the worker thread's index. -/
def nativeThreadIndex : String := "nativeThreadIndex"

end Member

/-- A chain method that marks a captured variable with an attribute for the job
system. -/
structure FieldModifier where
  /-- the chain method -/
  method : String
  /-- the attribute it puts on the field -/
  mark : String
  /-- the attribute's namespace -/
  ns : String
  /-- the attribute that the field's type or one of its fields must carry, if
  any -/
  marker : Option String
  /-- the diagnostic for a field without the marker -/
  code : Code

/-- The chain methods that mark captured variables. -/
def fieldModifiers : List FieldModifier := [
  ⟨Member.withReadOnly, AttributeName.readOnly, Ns.collections,
    some AttributeName.nativeContainer, .dc0034⟩,
  ⟨Member.withDeallocateOnJobCompletion,
    AttributeName.deallocateOnJobCompletion, Ns.collections,
    some AttributeName.supportsDeallocate, .dc0035⟩,
  ⟨Member.withNativeDisableContainerSafety,
    AttributeName.disableContainerSafety, Ns.collectionsLowLevel,
    some AttributeName.nativeContainer, .dc0036⟩,
  ⟨Member.withNativeDisableUnsafePtr, AttributeName.disableUnsafePtr,
    Ns.collectionsLowLevel, none, ⟨""⟩⟩,
  ⟨Member.withNativeDisableParallelFor, AttributeName.disableParallelFor,
    Ns.collections, some AttributeName.nativeContainer, .dc0037⟩]

/-- The method ends a chain. -/
def isTerminal (name : String) : Bool :=
  name == Member.run || name == Member.schedule ||
    name == Member.scheduleParallel

/-- The type holds chain methods. -/
def isConstructionType (ns name : String) : Bool :=
  (ns == Ns.entities || ns == "") &&
    [TypeName.constructionMethods, TypeName.queryConstructionMethods,
      TypeName.forEachConstructionMethods,
      TypeName.singleJobConstructionMethods,
      TypeName.chunkConstructionMethods, TypeName.executionMethods,
      TypeName.executionMethodsJcs, TypeName.singleJobExecutionMethods,
      TypeName.singleJobExecutionMethodsJcs].contains name

/-- The name of the delegate type for a parameter pattern: its letters and how
many there are. -/
def universalDelegateName (pattern : String) : String :=
  pattern ++ "`" ++ (Char.ofNat (48 + pattern.utf8ByteSize)).toString

end JobWeave.Framework
