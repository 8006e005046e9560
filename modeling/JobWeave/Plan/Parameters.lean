import JobWeave.Plan.Basic

/-!
# Providers of lambda parameters

Each parameter of a lambda over entities gets its values from a provider of the
framework, chosen by its type.  The job holds the providers in one nested struct
and their state while they run in another.
-/

namespace JobWeave

open Framework

/-- The parameter is a read-only reference. -/
def ParamDef.isIn (p : ParamDef) : Outcome Bool :=
  if !p.type.isByRef then .ok false
  else if p.flags &&& ParamFlag.readOnly != 0 then .ok true
  else Outcome.need (Attribute.hasName? p.attributes AttributeName.isReadOnly)

/-- The type has fields that belong to its instances. -/
def TypeHead.hasInstanceFields (t : TypeHead) : Bool :=
  t.fields.any (!·.isStatic)

namespace Planning

/-- Stops with a diagnostic at the call that supplies the lambda. -/
def refuseLambda {α : Type} (c : Code) (args : List String) : Planning α := do
  let chain ← chain
  Weave.refuse c chain.method chain.body (args.map .text)

/-- The provider of a parameter of a type that the framework knows by one of its
interfaces. -/
def providerOfType (p : ParamDef) (byRef isIn : Bool) (t : TypeRef)
    (id : TypeId) : Planning ValueProvider := do
  let managedAllowed := (← chain).allowsReferences
  let head ← Weave.typeHead id
  let is := fun name => Weave.implements id Ns.entities name
  if ← is TypeName.componentData then
    if head.isValueType then
      return if head.hasInstanceFields then .component else .tag
    if !managedAllowed then refuseLambda .dc0023 [t.simpleName]
    if byRef then refuseLambda .dc0024 [t.simpleName]
    return .managed
  else if ← is TypeName.sharedComponentData then
    if !managedAllowed then refuseLambda .dc0019 [t.simpleName]
    if byRef && !isIn then refuseLambda .dc0020 [t.simpleName]
    return .shared
  else if ← is TypeName.bufferElementData then
    refuseLambda .dc0033 [p.name, t.simpleName]
  else refuseLambda .dc0021 [p.name, t.simpleName]

/-- What supplies the values of a parameter. -/
def classify (p : ParamDef) : Planning Element := do
  let byRef := p.type.isByRef
  let isIn ← Weave.ofOutcome p.isIn
  let element := fun provider typeArg =>
    ({ param := p, byRef, isIn, provider, typeArg } : Element)
  let t := p.type.element
  if t.isType Ns.entities TypeName.entity then return element .entity .absent
  else if t.isType Ns.system "Int32" then
    if p.name == Member.entityInQueryIndex then
      return element .entityInQueryIndex .absent
    else if p.name == Member.nativeThreadIndex then
      return element .nativeThreadIndex .absent
    else
      refuseLambda .dc0014 [p.name,
        Member.entityInQueryIndex ++ ", " ++ Member.nativeThreadIndex]
  else
    match t.isType Ns.entities TypeName.dynamicBuffer, t.args with
    | true, [arg] => return element .buffer arg
    | _, _ =>
      match ← Weave.resolveType t with
      | none =>
        refuseLambda .dc0005 [p.name, ← Weave.need t.fullName?]
      | some id => return element (← providerOfType p byRef isIn t id) t

/-- Finds what supplies every parameter of the lambda. -/
def classifyParams : Planning Unit := do
  let lambda ← Weave.methodDef (← chain).lambda
  let elements ← lambda.params.mapM classify
  modify fun u => { u with elements }

/-- A type applied to the argument of a generic provider. -/
def instantiated (t : TypeRef) (e : Element) : TypeRef :=
  if e.typeArg.isAbsent then t else t.withArgs [e.typeArg]

/-- The provider's type for a parameter. -/
def providerType (e : Element) : Planning TypeRef := do
  return instantiated
    (← Weave.importType Ns.codeGenerated e.provider.typeName) e

/-- The type of the provider's state while it runs. -/
def runtimeType (e : Element) : Planning TypeRef := do
  let name :=
    if (← chain).structural then "StructuralChangeRuntime" else "Runtime"
  return instantiated
    (← Weave.importNested Ns.codeGenerated e.provider.typeName name) e

/-- A method of the provider of a parameter. -/
def providerMethod (e : Element) (name : String) (params : Nat) :
    Planning MethodRef := do
  let opened ← Weave.importType Ns.codeGenerated e.provider.typeName
  let m ← Weave.importMethod opened name params
  return m.onType (← providerType e)

/-- A method of the provider's state. -/
def runtimeMethod (e : Element) (name : String) (params : Nat) :
    Planning MethodRef := do
  let t ← runtimeType e
  return (← Weave.importMethod t.opened name params).onType t

/-- Declares a struct nested in the job. -/
def nestedStruct (name : String) : Planning TypeId := do
  let job := (← get).type
  let head : TypeHead :=
    { name, base := .valueType,
      flags := TypeFlag.nestedPublic ||| TypeFlag.sequentialLayout }
  Weave.addToWorkspace (·.addNested job (.mk head [] []))

/-- Declares a field of a nested struct. -/
def nestedField (t : TypeId) (name : String) (type : TypeRef) :
    Planning FieldRef := do
  let f : FieldDef := { name, type, flags := FieldFlag.pub }
  Weave.modifyWorkspace (·.addField t f)
  return (← Weave.workspace).fieldRef t f

/-- Declares the structs with the providers and with their state, one field per
parameter. -/
def declareProviders : Planning Unit := do
  let providers ← nestedStruct "LambdaParameterValueProviders"
  let runtimes ← nestedStruct "Runtimes"
  let elements ← (← get).elements.mapM fun e => do
    let providerField ← nestedField providers ("forParameter_" ++ e.param.name)
      (← providerType e)
    let runtimeField ← nestedField runtimes ("runtime_" ++ e.param.name)
      (← runtimeType e)
    return { e with providerField, runtimeField }
  let field ← addField "_lambdaParameterValueProviders"
    (← Weave.typeRef providers) FieldFlag.priv []
  let runtimes ← Weave.typeRef runtimes
  modify fun u => { u with elements, runtimes, providers := field }

end Planning

end JobWeave
