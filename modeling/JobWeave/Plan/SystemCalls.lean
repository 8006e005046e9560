import JobWeave.Plan.Basic

/-!
# Lambdas on the system

A lambda that uses only the system's instance is a method of the system.  A job
that is compiled natively or scheduled cannot touch the system, so such a lambda
is refused, with one exception: calls of the component accessors, which a job
can serve from look-ups of its own.
-/

namespace JobWeave

open Framework

/-- The accessor that reads a component. -/
def getComponentName : String := "GetComponent"

/-- The accessor that writes a component. -/
def setComponentName : String := "SetComponent"

/-- The accessor that asks for a component. -/
def hasComponentName : String := "HasComponent"

/-- The method is a component accessor of systems. -/
def MethodRef.isComponentAccessor (m : MethodRef) : Bool :=
  m.owner.isType Ns.entities TypeName.systemBase && m.typeArgs.length == 1 &&
    [getComponentName, setComponentName, hasComponentName].contains m.name

namespace Weave

/-- The type is what a reference names or derives from it. -/
def isOrDerives (t : TypeId) (r : TypeRef) : Weave Bool := do
  if r.element.isAbsent then fault
  let u ← resolver
  let w ← workspace
  return (u.lineage w t).any fun d => w.typeName d == r.element.openName

/-- The method works on the system's instance or takes the system as an
argument. -/
def touchesSystem (system : TypeId) (m : MethodRef) : Weave Bool := do
  let onSystem ←
    match ← resolveMethod m with
    | some id =>
      if (← methodDef id).isStatic then pure false
      else isOrDerives system m.owner
    | none => pure false
  if onSystem then return true
  m.params.anyM fun p => do
    if p.element.isType Ns.system "Object" then return false
    isOrDerives system p

/-- A method that a compiler put on the system and that has code. -/
def localFunction? (system : TypeId) (m : MethodRef) :
    Weave (Option MethodId) := do
  match ← resolveMethod m with
  | none => return none
  | some id =>
    let d ← methodDef id
    let owner ← ownerOf id
    return if owner == system && d.body.isSome && d.name.startsWith "<" then
      some id
    else none

/-- The method may be called on the system from a job: it is a component
accessor, or a local function that makes only such calls.  `seen` lists the
local functions that were looked at; the fuel bounds their number. -/
def isPermitted (system : TypeId) :
    Nat → MethodRef → List MethodId → Weave (Bool × List MethodId)
  | 0, _, seen => return (false, seen)
  | fuel + 1, m, seen => do
    if m.isComponentAccessor then return (true, seen)
    match ← localFunction? system m with
    | none => return (false, seen)
    | some id =>
      if seen.contains id then return (true, seen)
      (← bodyOf id).code.foldlM
        (fun (ok, seen) i => do
          match i.invokes?, ok with
          | some inner, true =>
            let inner ← need inner
            if ← touchesSystem system inner then
              isPermitted system fuel inner seen
            else return (true, seen)
          | _, _ => return (ok, seen))
        (true, id :: seen)

/-- Refuses a lambda on the system that a job cannot run.  The result says
whether the lambda makes calls that the job serves itself. -/
def checkLambdaOnSystem (c : Chain) : Weave Bool := do
  if !c.lambdaOnSystem || c.allowsReferences then return false
  let code := (← bodyOf c.lambda).code
  for (before, i) in code.zip (code.drop 1) do
    if (i.op == .ldfld || i.op == .ldflda) && before.loadsThis then
      let f ← need i.field?.join
      refuse .dc0001 c.method c.source [.text f.name]
  let fuel := (← workspace).methods.size + 1
  let (serves, _) ← code.foldlM
    (fun (serves, seen) i => do
      match i.invokes? with
      | none => return (serves, seen)
      | some m =>
        let m ← need m
        if !(← touchesSystem c.system m) then return (serves, seen)
        let (ok, seen) ← isPermitted c.system fuel m seen
        if !ok then
          refuse .dc0002 c.method c.source
            [.text m.name, .text (← typeHead c.system).name]
        return (true, seen))
    (false, [])
  if !serves then refuse .dcice001 c.method c.source []
  return true

end Weave

end JobWeave
