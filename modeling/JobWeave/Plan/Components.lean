import JobWeave.Plan.Captures
import JobWeave.Plan.Parameters
import JobWeave.Plan.SystemCalls

/-!
# Component look-ups

The component accessors of a system become look-ups of the job: one field per
component, fetched before the job runs.  A component that the lambda also
receives as a parameter cannot be looked up where the two could disagree.
-/

namespace JobWeave.Planning

open Framework

/-- Refuses a look-up of a component that the lambda receives as a parameter:
writes always, reads when the parameter can be written. -/
def checkAliasing (m : MethodId) (call : Label) (r : MethodRef) (t : TypeRef)
    (write : Bool) : Planning Unit := do
  let c ← chain
  if c.kind != .entities then return
  for p in (← Weave.methodDef c.lambda).params do
    if ← Weave.need (p.type.element.same? t) then
      let args := do return [Text.Arg.text r.name,
        .text (← Weave.need t.fullName?)]
      if write then refuseAt .dc0046 m call (← args)
      if p.type.isByRef then
        if !(← Weave.ofOutcome p.isIn) then refuseAt .dc0047 m call (← args)

/-- A load through a field of a closure. -/
def loadsFromClosure (i : Instr) : Planning Bool := do
  if i.op != .ldfld then return false
  isClosureField (← Weave.need i.field?.join)

/-- The load of the instance that an accessor is called on, and the loads
through closures after it. -/
def systemInstance (m : MethodId) (call : Label) (r : MethodRef) :
    Planning (Label × List Label) := do
  let d ← Weave.methodDef m
  let start ← Weave.ofOutcome (d.pusher 0 call)
  let (hops, last) ← walkBack d loadsFromClosure (d.code.size + 1) start
  match endsAtThis d last with
  | some this => return (this, hops)
  | none => refuseAt .dc0045 m call [.text r.name]

/-- The look-up of a component, declared read only at its first use. -/
def componentAccess (t : TypeRef) : Planning ComponentAccess := do
  let known := (← get).access
  match ← known.findM? fun a => Weave.need (a.type.same? t) with
  | some a => return a
  | none =>
    let lookup ← Weave.importEntities TypeName.componentDataFromEntity
    if t.isAbsent then Weave.fault
    let name := "_ComponentDataFromEntity_" ++ t.simpleName ++ "_" ++
      toString known.length
    let readOnly ←
      Weave.importAttribute Ns.collections AttributeName.readOnly []
    let noAlias ← Weave.importAttribute Ns.burst AttributeName.noAlias []
    let field ← addField name (lookup.withArgs [t]) FieldFlag.priv
      [readOnly, noAlias]
    let a : ComponentAccess := { type := t, field }
    modify fun u => { u with access := u.access ++ [a] }
    return a

/-- Lets the job write through a look-up. -/
def allowWrites (a : ComponentAccess) : Planning Unit := do
  modify fun u => { u with
    access := u.access.map fun x =>
      if x.field.name == a.field.name then { x with readOnly := false } else x }
  modifyAttributes a.field.name fun as =>
    Attribute.without as Ns.collections AttributeName.readOnly

/-- The method of a look-up that an accessor becomes. -/
def lookupMethod (accessor : String) (t : TypeRef) : Planning MethodRef := do
  let opened ← Weave.importEntities TypeName.componentDataFromEntity
  let m ←
    if accessor == setComponentName then
      Weave.importMethod opened "set_Item" 2
    else if accessor == hasComponentName then
      Weave.importMethod opened hasComponentName 1
    else Weave.importMethod opened "get_Item" 1
  return m.onType (opened.withArgs [t])

/-- Replaces one call of an accessor. -/
def patchCall (m : MethodId) (call : Label) (r : MethodRef) :
    Planning Unit := do
  let t := r.typeArgs.headD .absent
  let write := r.name == setComponentName
  checkAliasing m call r t write
  let (this, hops) ← systemInstance m call r
  let a ← componentAccess t
  if write && a.readOnly then allowWrites a
  Weave.modifyBody m fun b => hops.foldl Body.idleAt b
  let b ← Weave.bodyOf m
  Weave.setBody m
    (← Weave.ofOutcome (b.insertAfter this (b.labelled [Step.ldflda a.field])))
  let target ← lookupMethod r.name t
  Weave.modifyBody m (·.setAt call .call (.method (some target)))

/-- Replaces the accessor calls of a copied method. -/
def patchComponentAccess (m : MethodId) : Planning Unit := do
  let calls ← (← Weave.bodyOf m).code.filterM fun i => do
    match i.invokes? with
    | some r => return (← Weave.need r).isComponentAccessor
    | none => return false
  for call in calls do
    -- an earlier replacement may have changed the call
    let r ← Weave.need ((← Weave.bodyOf m).get call.label).method?.join
    patchCall m call.label r

end JobWeave.Planning
