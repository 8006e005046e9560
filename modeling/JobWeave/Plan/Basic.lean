import JobWeave.Chain.Analysis
import JobWeave.Emitter
import JobWeave.Workspace.Import

/-!
# Job plans

A plan is the job made for one chain: a struct nested in the system, with the
captured variables as fields and the lambda as a method, and the code that the
system runs when it is created.  Planning leaves the system alone; the struct is
attached to it when the plan is committed.

`Planning` is work on a plan.  The helpers here declare fields and methods of
the struct, add code to a method, and report problems found in generated code.
-/

namespace JobWeave

open Framework

/-- What supplies the values of a lambda parameter. -/
inductive ValueProvider where
  | entity
  | entityInQueryIndex
  | nativeThreadIndex
  | component
  /-- a component without fields -/
  | tag
  /-- a component that is a class -/
  | managed
  | shared
  | buffer
  deriving DecidableEq, Repr, Inhabited

/-- The framework type of a provider. -/
def ValueProvider.typeName : ValueProvider → String
  | entity => Provider.entity
  | entityInQueryIndex => Provider.entityInQueryIndex
  | nativeThreadIndex => Provider.nativeThreadIndex
  | component => Provider.component
  | tag => Provider.tag
  | managed => Provider.managed
  | shared => Provider.shared
  | buffer => Provider.buffer

/-- A lambda parameter and what supplies its values. -/
structure Element where
  /-- the parameter -/
  param : ParamDef
  /-- what supplies its values -/
  provider : ValueProvider
  /-- the argument of a generic provider, or absent -/
  typeArg : TypeRef := .absent
  /-- the parameter is passed by reference -/
  byRef : Bool
  /-- the reference is read only -/
  isIn : Bool
  /-- the field with the provider -/
  providerField : FieldRef := default
  /-- the field with the provider's state while it runs -/
  runtimeField : FieldRef := default
  deriving Repr, Inhabited

/-- The lambda cannot write the parameter back. -/
def Element.isReadOnly (e : Element) : Bool :=
  !e.byRef || e.isIn

/-- The type of the parameter without the reference. -/
def Element.valueType (e : Element) : TypeRef :=
  e.param.type.element

/-- A variable that the lambda reads from its closure. -/
structure CapturedVariable where
  /-- the fields that lead from the lambda's closure through enclosing ones -/
  hops : List FieldRef
  /-- the variable's field in its closure -/
  leaf : FieldRef
  /-- the field of the job that holds it -/
  field : FieldRef
  /-- the lambda stores into the variable or takes its address -/
  written : Bool := false
  deriving Repr, Inhabited

/-- The fields from the lambda's closure to the variable. -/
def CapturedVariable.path (v : CapturedVariable) : List FieldRef :=
  v.hops ++ [v.leaf]

/-- A component look-up that the job does in place of the system. -/
structure ComponentAccess where
  /-- the component -/
  type : TypeRef
  /-- the field of the job with the look-up -/
  field : FieldRef
  /-- the job only reads through it -/
  readOnly : Bool := true
  deriving Repr, Inhabited

/-- The job made for a chain. -/
structure Plan where
  /-- the chain -/
  chain : Chain
  /-- the job's struct -/
  type : TypeId
  /-- closures become value types, so generated code reaches them by
  reference -/
  closureAsStruct : Bool
  /-- the lambda calls methods of the system that the job can serve itself -/
  servesSystem : Bool := false
  /-- the lambda's parameters -/
  elements : List Element := []
  /-- the lambda as a method of the job -/
  lambda : Option MethodId := none
  /-- the methods copied from the lambda's type -/
  cloned : List MethodId := []
  /-- the captured variables -/
  captured : List CapturedVariable := []
  /-- the component look-ups -/
  access : List ComponentAccess := []
  /-- the field with the system when the lambda stays there -/
  host : Option FieldRef := none
  /-- the struct with the state of the providers while they run -/
  runtimes : TypeRef := .absent
  /-- the field with the providers -/
  providers : FieldRef := default
  /-- prepares the job before it is run or scheduled -/
  prepare : Option MethodId := none
  /-- copies the captured variables from the closure -/
  readClosure : Option MethodId := none
  /-- copies the captured variables back -/
  writeClosure : Option MethodId := none
  /-- disposes containers after the job ran -/
  deallocate : Option MethodId := none
  /-- the job's entry point -/
  execute : Option MethodId := none
  /-- the entry point for running on the calling thread -/
  runDirectly : Option MethodId := none
  /-- the field with a delegate to that entry point -/
  runDelegate : Option FieldRef := none
  /-- the field with the natively compiled delegate -/
  burstDelegate : Option FieldRef := none
  /-- the query field for the system -/
  query : Option FieldDef := none
  /-- what the system runs when it is created -/
  init : List Step := []
  /-- the labels of that code once it has a place -/
  initLabels : Option (List Label) := none
  deriving Inhabited

/-- Work on a plan. -/
abbrev Planning := StateT Plan Weave

namespace Planning

/-- The chain. -/
def chain : Planning Chain := do
  return (← get).chain

/-- A parameter without flags. -/
def param (name : String) (type : TypeRef) : ParamDef :=
  { name, type }

/-- Declares a method of the job; a missing result type is none. -/
def declare (name : String) (flags : UInt16) (ret : TypeRef)
    (params : List ParamDef) : Planning MethodId := do
  let m : MethodDef :=
    { name, params, flags := flags ||| MethodFlag.hideBySig,
      ret := if ret.isAbsent then .void else ret, body := some {} }
  let job := (← get).type
  Weave.addToWorkspace (·.addMethod job m)

/-- The first of `name`, `name_1`, `name_2`, … that is not taken; among more
names than are taken there is one. -/
def freeName (taken : List String) (name : String) : String :=
  let names := name :: (List.range taken.length).map fun n =>
    name ++ "_" ++ toString (n + 1)
  (names.find? fun s => !taken.contains s).getD name

/-- Declares a field of the job under a free name. -/
def addField (name : String) (type : TypeRef) (flags : UInt16)
    (attributes : List Attribute) : Planning FieldRef := do
  let job := (← get).type
  let taken := (← Weave.typeHead job).fields.map (·.name)
  let f : FieldDef := { name := freeName taken name, type, flags, attributes }
  Weave.modifyWorkspace (·.addField job f)
  return (← Weave.workspace).fieldRef job f

/-- Changes the attributes of a field of the job. -/
def modifyAttributes (field : String)
    (f : List Attribute → List Attribute) : Planning Unit := do
  let job := (← get).type
  Weave.modifyWorkspace (·.updateHead job fun h =>
    { h with fields := h.fields.map fun x =>
        if x.name == field then { x with attributes := f x.attributes }
          else x })

/-- Adds code at the end of a method. -/
def emit (m : MethodId) (steps : List Step) : Planning Unit :=
  Weave.modifyBody m fun b => b.append (b.labelled steps)

/-- Adds a local variable to a method. -/
def addLocal (m : MethodId) (type : TypeRef) (name : String) :
    Planning LocalRef := do
  let (b, n) := (← Weave.bodyOf m).addLocal type name
  Weave.setBody m b
  return .slot n

/-- A reference to the lambda as a method of the job. -/
def lambdaRef : Planning MethodRef := do
  Weave.methodRef (← Weave.need (← get).lambda)

/-- A reference to the job's struct. -/
def self : Planning TypeRef := do
  Weave.typeRef (← get).type

/-- Stops with a diagnostic at an instruction of a generated method.  It is put
down to the method that contains the chain. -/
def refuseAt {α : Type} (c : Code) (m : MethodId) (l : Label)
    (args : List Text.Arg) : Planning α := do
  let chain ← chain
  let d ← Weave.diagnostic c m l args
  let location ←
    if d.location.isKnown then pure d.location
    else Weave.locationOf chain.method chain.source
  Weave.fail
    (.note { d with method := ← Weave.methodName chain.method, location })

end Planning

end JobWeave
