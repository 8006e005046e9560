import JobWeave.Sample.Tick

/-!
# Written-out modules with queries

Modules whose system makes a job over entities or over chunks, and the part of
the framework that these need.
-/

namespace JobWeave.Sample

open Framework

/-- The first component of the modules here. -/
def place : TypeRef := .ofName "Game" "Place" true

/-- The second component. -/
def speed : TypeRef := .ofName "Game" "Speed" true

/-- How a system makes a job. -/
structure JobShape where
  /-- the class of systems -/
  base : String
  /-- starts a chain -/
  source : MethodRef
  /-- the constructor of the delegate with the lambda -/
  delegate : MethodRef
  /-- gives the lambda to a description -/
  forEach : MethodRef
  /-- ends a chain -/
  finish : MethodRef
  /-- the update method -/
  update : MethodDef
  /-- the end of its code -/
  last : List Step

/-- The constructor of a delegate. -/
def delegateCtor (t : TypeRef) : MethodRef :=
  { owner := t, name := ".ctor", ret := .void, params := [.object, .intPtr],
    hasThis := true }

/-- A job over entities that is scheduled; the lambda has parameters by
reference. -/
def entityJob (params : List TypeRef) : JobShape :=
  let d := Ref.description TypeName.forEachDescription
  let letters := String.ofList (params.map fun _ => 'R')
  let delegate :=
    (TypeRef.ofName Ns.universal (universalDelegateName letters) false).withArgs
      params
  { base := TypeName.systemBase
    source :=
      { owner := .ofName Ns.entities TypeName.systemBase false
        name := Member.getEntities, ret := d, hasThis := true }
    delegate := delegateCtor delegate
    forEach :=
      { owner := .ofName Ns.entities TypeName.forEachConstructionMethods false
        name := Member.forEach, ret := .methodParam 0
        params := [.methodParam 0, .methodParam 1], typeArgs := [d, delegate],
        arity := 2 }
    finish :=
      { owner := .ofName Ns.entities TypeName.executionMethods false,
        name := Member.schedule
        ret := .void, params := [.methodParam 0], typeArgs := [d], arity := 1 }
    update := { name := "OnUpdate", ret := .void }
    last := [Step.ret] }

/-- A job over chunks that is run at once. -/
def chunkJob : JobShape :=
  let d := Ref.description TypeName.chunkDescription
  let construction : TypeRef :=
    .ofName Ns.entities TypeName.chunkConstructionMethods false
  let delegate := construction.nestedIn "JobChunkDelegate" false
  { base := TypeName.jobComponentSystem
    source :=
      { owner := .ofName Ns.entities TypeName.jobComponentSystem false,
        name := Member.getChunks
        ret := d, hasThis := true }
    delegate := delegateCtor delegate
    forEach := { owner := construction, name := Member.forEach, ret := d,
                 params := [d, delegate] }
    finish :=
      { owner := .ofName Ns.entities TypeName.executionMethodsJcs false,
        name := Member.run
        ret := .void, params := [.methodParam 0], typeArgs := [d], arity := 1 }
    update :=
      { name := "OnUpdate", ret := Ref.jobHandle
        params := [{ name := "inputDeps", type := Ref.jobHandle }] }
    last := [Step.ldarg 1, Step.ret] }

/-- A call that names components for the query of a description. -/
def namesComponents (d : TypeRef) (name : String) (ts : List TypeRef) : Step :=
  Step.call
    { owner := .ofName Ns.entities TypeName.queryConstructionMethods false,
      name, ret := d
      params := [d], typeArgs := ts, arity := ts.length }

/-- A module with components and a system that makes a job, whose lambda has
some code; some calls shape its query. -/
def queryModule (shape : JobShape) (params : List ParamDef)
    (lambda query : List Step) : Module :=
  let target : MethodRef := { tickLambda with params := params.map (·.type) }
  let steps : List Step :=
    [Step.newobj
        { owner := tickClosure, name := ".ctor", ret := .void,
          hasThis := true },
      Step.stloc (.slot 0), Step.ldarg 0, Step.call shape.source] ++ query ++
    [Step.ldloc (.slot 0), Step.ldftn target, Step.newobj shape.delegate,
      Step.call shape.forEach, Step.call shape.finish] ++ shape.last
  let update : MethodDef :=
    { shape.update with body := some (codeOf steps [⟨tickClosure, ""⟩]) }
  let lambda : MethodDef :=
    { name := target.name, ret := .void, params,
      body := some (codeOf lambda []) }
  let component (t : TypeRef) : TypeDef :=
    .mk { ns := "Game", name := t.simpleName, base := .valueType
          interfaces := [.ofName Ns.entities TypeName.componentData false]
          fields := [{ name := "value", type := .int32 }] } [] []
  let system : TypeHead :=
    { ns := "Game", name := "Ticker",
      base := .ofName Ns.entities shape.base false }
  let closure : TypeHead :=
    { ns := "", name := tickClosure.simpleName, base := .object }
  { name := "Queries"
    types :=
      [component place, component speed,
        .mk system [update] [.mk closure [lambda] []]] }

/-- The part of the framework that these modules need. -/
def queryFramework : Module :=
  let needed := [AttributeName.dotsCompilerGenerated,
    AttributeName.burstCompile, AttributeName.noAlias,
    AttributeName.monoPInvokeCallback, AttributeName.readOnly,
    TypeName.jobHandle, TypeName.jobChunk, TypeName.jobChunkExtensions,
    TypeName.internalCompilerInterface, TypeName.unsafeUtility,
    TypeName.componentSystemBase, TypeName.systemBase,
    TypeName.jobComponentSystem, TypeName.forEachConstructionMethods,
    TypeName.chunkConstructionMethods, TypeName.queryConstructionMethods,
    TypeName.entityQueryDesc, TypeName.entityQuery, TypeName.componentType,
    TypeName.archetypeChunk, TypeName.chunkIterator, TypeName.componentData,
    TypeName.componentDataFromEntity, Provider.component]
  { name := "Framework"
    types := (Framework.modules.flatMap (·.types)).filter
      fun t => needed.contains t.head.name }

theorem queryFramework_eq : queryFramework =
    { name := "Framework",
      types := frameworkTypes [25, 30, 35, 36, 38, 40, 44, 45, 46, 47, 48, 51,
        53, 57, 58, 59, 60, 61, 62, 63, 75, 76, 78, 86] } :=
  congrArg (Module.mk "Framework") (filter_eq_of_places (by decide +kernel))

end JobWeave.Sample
