import JobWeave.Plan.Basic

/-!
# Closures and containers

Before a job runs it copies the captured variables out of the closure, and a job
that ran on the calling thread copies those it wrote back.  Such a job also
disposes the containers it was told to; the job system does so for others.
-/

namespace JobWeave.Planning

open Framework

/-- The type that the closure is passed as. -/
def closureParam : Planning TypeRef := do
  let u ← get
  let t ← Weave.typeRef (← Weave.need u.chain.closure?)
  match t with
  | .named ns n v o as =>
    return if v || u.closureAsStruct then (TypeRef.named ns n true o as).byRef
      else t
  | t => return t

/-- Loads through enclosing closures, by address when they are value types. -/
def walkClosures (hops : List FieldRef) : Planning (List Step) := do
  let asStruct := (← get).closureAsStruct
  hops.mapM fun f => do
    return if asStruct || (← Weave.isValueType f.type) then Step.ldflda f
      else Step.ldfld f

/-- Declares the methods that copy captured variables in and back. -/
def closureCopies : Planning Unit := do
  let type ← closureParam
  let params := [param "displayClass" type]
  let read ← declare "ReadFromDisplayClass" MethodFlag.pub .void params
  modify fun u => { u with readClosure := some read }
  let captured := (← get).captured
  let loads ← captured.mapM fun v => do
    return [Step.ldarg 0, Step.ldarg 1] ++ (← walkClosures v.hops) ++
      [Step.ldfld v.leaf, Step.stfld v.field]
  emit read (loads.flatten ++ [Step.ret])
  if (← chain).mode != .run then return
  let written := captured.filter (·.written)
  if written.isEmpty then return
  let write ← declare "WriteToDisplayClass" MethodFlag.pub .void params
  modify fun u => { u with writeClosure := some write }
  let stores ← written.mapM fun v => do
    return [Step.ldarg 1] ++ (← walkClosures v.hops) ++
      [Step.ldarg 0, Step.ldfld v.field, Step.stfld v.leaf]
  emit write (stores.flatten ++ [Step.ret])

/-- Both references name the same field; a missing one is no field. -/
def sameAs (f : FieldRef) : Option FieldRef → Weave Bool
  | some g => do Weave.need (f.same? g)
  | none => return false

/-- The captured variables that are to be disposed, once per request. -/
def toDispose : Planning (List CapturedVariable) := do
  let u ← get
  let requests := u.chain.named Member.withDeallocateOnJobCompletion
  requests.flatMapM fun m => do
    let _ ← Weave.need m.args[0]?
    u.captured.filterM fun v => sameAs v.leaf (m.fieldArg? 0)

/-- Declares the method that disposes containers after the job ran. -/
def deallocation : Planning Unit := do
  let dispose ← toDispose
  if dispose.isEmpty then return
  let m ← declare "DeallocateOnCompletion" MethodFlag.pub .void []
  modify fun u => { u with deallocate := some m }
  let calls ← dispose.mapM fun v => do
    let t := v.field.type
    let disposable ←
      match ← Weave.resolveType t with
      | none => pure false
      | some id =>
        let w ← Weave.workspace
        pure ((w.type id).methods.any fun m => (w.method m).name == "Dispose")
    if !disposable then return []
    let method ← Weave.importMethod t.opened "Dispose" 0
    return [Step.ldarg 0, Step.ldflda v.field, Step.call (method.onType t)]
  emit m (calls.flatten ++ [Step.ret])

end JobWeave.Planning
