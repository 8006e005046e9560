import JobWeave.Plan.Synthesis

/-!
# Call sites

A planned job takes the place of its chain: the lambda's delegate is not made
any more, each modifier only drops its arguments, and the terminal becomes code
that prepares the job and runs or schedules it.  Every replacement changes the
height of the stack as the call it replaces did; `spanEffect` is what is
compared.

`Weave.splice` does this to the method of a plan, or leaves the method as it
was.
-/

namespace JobWeave

open Framework

/-- The code that runs after an instruction: the rest, or the part of it that
the instruction jumps to. -/
def Instr.continueIn (i : Instr) (rest : List Instr) : List Instr :=
  match i.op, i.operand with
  | .br, .target l =>
    if rest.any (·.label == l) then rest.dropWhile (·.label != l) else rest
  | _, _ => rest

theorem Instr.length_continueIn_le (i : Instr) (rest : List Instr) :
    (i.continueIn rest).length ≤ rest.length := by
  unfold Instr.continueIn
  split
  · split
    · exact (List.dropWhile_sublist _).length_le
    · exact Nat.le_refl _
  · exact Nat.le_refl _

/-- The change of the stack's height over code that is entered at its start;
jumps forward inside the code are taken. -/
def MethodDef.spanEffect (m : MethodDef) : List Instr → Outcome Int
  | [] => .ok 0
  | i :: rest => do
    let e ← m.effect i
    return e.net + (← m.spanEffect (i.continueIn rest))
termination_by is => is.length
decreasing_by
  have := i.length_continueIn_le rest
  simp only [List.length_cons]
  omega

namespace Weave

/-- Stops unless a replacement changes the stack's height as the call did. -/
def requireEffect (m : MethodId) (call : Label) (name : String)
    (want got : Int) : Weave Unit := do
  if got != want then
    refuse .dcice008 m call
      [.text name, .number "int" want, .number "int" got]

/-- The framework method that filters a query by a shared component. -/
def sharedFilter (c : Chain) (mod : Modifier) : Weave MethodRef := do
  let name := "SetSharedComponentFilterOnQuery"
  if c.kind == .chunk then
    let owner ← importEntities TypeName.chunkSetShared
    return (← importMethod owner name 3).instantiate mod.typeArgs
  else
    let description ← importEntities
      (if c.inSystemBase then TypeName.forEachDescription
        else TypeName.forEachDescriptionJcs)
    let owner ← importEntities TypeName.forEachSetShared
    return (← importMethod owner name 3).instantiate
      (description :: mod.typeArgs)

/-- What a modifier becomes: pops of its arguments, or the call that filters the
query. -/
def modifierSteps (u : Plan) (mod : Modifier) (want : Int) :
    Weave (List Step) := do
  if mod.name == Member.withSharedComponentFilter then
    match u.query with
    | none =>
      fail (.detailed (.internal .splice
        (mod.name ++ " on a chain without a query")))
    | some q =>
      let query := (← workspace).fieldRef u.chain.system q
      return [Step.ldarg 0, Step.ldfld query,
        Step.call (← sharedFilter u.chain mod)]
  else return List.replicate (-want).toNat Step.pop

/-- Replaces a modifier call. -/
def eraseModifier (u : Plan) (mod : Modifier) : Weave Unit := do
  let m := u.chain.method
  let d ← methodDef m
  let want := (← ofOutcome (d.effect (d.code.get mod.label))).net
  let steps ← modifierSteps u mod want
  let code := d.code.labelled steps
  requireEffect m mod.label mod.name want (← ofOutcome (d.spanEffect code))
  setBody m (← ofOutcome (d.code.replace mod.label code))

/-- The method that a job is handed to.  Systems of the older base class always
scheduled in parallel. -/
def executionMethod (u : Plan) : Weave MethodRef := do
  let c := u.chain
  if c.runsStructural then methodRef (← need u.execute)
  else
    let runner ← importEntities TypeName.internalCompilerInterface
    let chunks ← importEntities TypeName.jobChunkExtensions
    let (owner, name, params) ←
      match c.kind, c.mode with
      | .job, .run => pure (runner, "RunIJob", 2)
      | .job, .schedule => do
        pure (← importType Ns.jobs TypeName.jobExtensions, "Schedule", 2)
      | .job, .scheduleParallel =>
        fail (.detailed (.internal .splice
          ("no execution method for " ++ c.kind.name ++ " " ++ c.mode.name)))
      | _, .run => pure (runner, "RunJobChunk", 3)
      | _, .scheduleParallel => pure (chunks, "ScheduleParallel", 3)
      | _, .schedule =>
        pure (chunks,
          if c.inSystemBase then "ScheduleSingle" else "ScheduleParallel", 3)
    return (← importMethod owner name params).instantiate [← typeRef u.type]

/-- Loads the delegate to the static entry point, the natively compiled one when
the compiler is enabled. -/
def loadRunDelegate (u : Plan) (e : Emitter) : Weave Emitter := do
  let plain ← need u.runDelegate
  match u.burstDelegate with
  | none => return e.emit (Step.ldsfld plain)
  | some native =>
    let (e, burst) := e.newMark
    let (e, done) := e.newMark
    let owner ← importType Ns.jobsLowLevel TypeName.jobsUtility
    let enabled ← importMethod owner "get_JobCompilerEnabled" 0
    let e := (e.emit (Step.call enabled)).branch .brtrue burst
    let e := (e.emit (Step.ldsfld plain)).branch .br done
    let e := (e.place burst).emit (Step.ldsfld native)
    return (e.place done).emit Step.nop

/-- Loads the closure, by address if it is a value type. -/
def loadClosure (u : Plan) (closure : Option LocalRef) : Weave Step := do
  let l ← need closure
  let isValue := u.closureAsStruct ||
    (← typeHead (← need u.chain.closure?)).isValueType
  return if isValue then Step.ldloca l else Step.ldloc l

/-- Adds a local variable to a method. -/
def addLocal (m : MethodId) (type : TypeRef) : Weave LocalRef := do
  let (b, n) := (← bodyOf m).addLocal type ""
  setBody m b
  return .slot n

/-- Code that keeps the handle a scheduled job waits for in a variable: the one
on the stack, or the system's own if it is implicit. -/
def takeHandle (u : Plan) (system : TypeRef) (implicit : Bool) (e : Emitter) :
    Weave (Emitter × LocalRef) := do
  if u.chain.mode == .run then return (e, default)
  let handle ← addLocal u.chain.method (← importType Ns.jobs TypeName.jobHandle)
  let e ←
    if implicit then do
      let get_ ← importMethod system "get_Dependency" 0
      pure (e.emitAll [Step.ldarg 0, Step.call get_])
    else pure e
  return (e.emit (Step.stloc handle), handle)

/-- Code that drops the chain and prepares a job in a variable. -/
def prepareJob (u : Plan) (system : TypeRef) (e : Emitter) :
    Weave (Emitter × LocalRef) := do
  let c := u.chain
  let e := e.emit Step.pop
  let self ← typeRef u.type
  let job ← addLocal c.method self
  let e := e.emitAll [Step.ldloca job, Step.initobj self, Step.ldloca job,
    Step.ldarg 0]
  let e ←
    if u.readClosure.isSome then do
      pure (e.emit (← loadClosure u c.delegate.slot?))
    else pure e
  let e := e.emit (Step.call (← methodRef (← need u.prepare)))
  if c.inSystemBase && c.mode == .run then
    let complete ← importMethod system "CompleteDependency" 0
    return (e.emitAll [Step.ldarg 0, Step.call complete], job)
  return (e, job)

/-- Code that pushes the query of a job over entities or chunks. -/
def loadQuery (u : Plan) (e : Emitter) : Weave Emitter := do
  let c := u.chain
  if c.kind == .job then return e
  let e := if c.runsStructural then e.emit (Step.ldarg 0) else e
  let query := (← workspace).fieldRef c.system (← need u.query)
  return e.emitAll [Step.ldarg 0, Step.ldfld query]

/-- Code that hands a prepared job to the method that runs or schedules it. -/
def handOver (u : Plan) (target : MethodRef) (job handle : LocalRef)
    (e : Emitter) : Weave Emitter := do
  let c := u.chain
  let byAddress ←
    if c.runsStructural then pure true
    else do pure (← need target.params.head?).isByRef
  let e := e.emit (if byAddress then Step.ldloca job else Step.ldloc job)
  let e ← loadQuery u e
  let e ←
    if c.mode != .run then pure (e.emit (Step.ldloc handle))
    else if c.runsStructural then pure e
    else loadRunDelegate u e
  return e.emit (Step.call target)

/-- Code that makes the handle of a scheduled job the system's own. -/
def keepHandle (system : TypeRef) (handle : LocalRef) (e : Emitter) :
    Weave Emitter := do
  let e := e.emitAll [Step.stloc handle, Step.ldarg 0, Step.ldloc handle]
  return e.emit (Step.call (← importMethod system "set_Dependency" 1))

/-- Code that copies captured variables back from a job that ran. -/
def copyBack (u : Plan) (job : LocalRef) (e : Emitter) : Weave Emitter := do
  if u.chain.mode != .run then return e
  match u.writeClosure with
  | some write =>
    let closure ← loadClosure u u.chain.delegate.slot?
    return e.emitAll [Step.ldloca job, closure, Step.call (← methodRef write)]
  | none => return e

/-- The code that prepares a job and runs or schedules it. -/
def executionCode (u : Plan) : Weave (List Instr) := do
  let target ← executionMethod u
  let b ← bodyOf u.chain.method
  let implicit := u.chain.usesDependency b
  let system ← importEntities TypeName.systemBase
  let (e, handle) ← takeHandle u system implicit (.forBody b)
  let (e, job) ← prepareJob u system e
  let e ← handOver u target job handle e
  let e ← if implicit then keepHandle system handle e else pure e
  let e ← copyBack u job e
  match e.finish.2 with
  | .ok code => return code
  | .error f => fail f

/-- Puts the job's execution after the terminal call, which then does
nothing. -/
def spliceTerminal (u : Plan) : Weave Unit := do
  let c := u.chain
  if u.readClosure.isSome && c.delegate.slot?.isNone then
    fail (.detailed (.internal .splice
      ("chain " ++ c.name ++ " reads a closure that is not held in a local")))
  let code ← executionCode u
  let d ← methodDef c.method
  let terminal := d.code.get c.terminal
  let want := (← ofOutcome (d.effect terminal)).net
  let got ← ofOutcome (d.spanEffect code)
  if got != want then
    let r ← need terminal.method?.join
    requireEffect c.method c.terminal r.name want got
  let b ← ofOutcome (d.code.insertAfter c.terminal code)
  setBody c.method (b.idleAt c.terminal)

/-- Replaces a chain by its job; a failure leaves the method half done. -/
def replaceChain (u : Plan) : Weave Unit := do
  let c := u.chain
  let start ← mark
  modifyBody c.method fun b =>
    let b := b.simplify
    if c.capturesLocals then b.keepReceiver c.delegate
    else b.nullDelegate c.delegate
  c.modifiers.forM (eraseModifier u)
  spliceTerminal u
  requireSince start c

/-- Does some work on a method, and puts its code back if the work stops. -/
def restoringBody {α : Type} (m : MethodId) (act : Weave α) : Weave α := do
  let saved ← saveBody m
  match ← attempt act with
  | .ok a => return a
  | .error s =>
    restoreBody m saved
    throw s

/-- The warnings about a chain, whether or not it can be replaced. -/
def chainWarnings (c : Chain) : Weave (List Diagnostic) := do
  let head ← typeHead c.system
  if Attribute.has head.attributes Ns.unityEngine
      AttributeName.executeAlways then
    return [← diagnostic .dc0032 c.method c.source [.text head.name]]
  else return []

/-- Replaces the chain of a plan by its job.  If that fails the method is left
as it was; the warnings come either way. -/
def splice (u : Plan) :
    Weave (List Diagnostic × Except Failure Unit) := do
  let m := u.chain.method
  if (← methodDef m).body.isNone then
    return ([], .error (.detailed
      { phase := .splice, kind := .invalidInput, member := ← methodName m,
        detail := "method has no body" }))
  let warnings ← chainWarnings u.chain
  return (warnings, ← tryFailure (restoringBody m (replaceChain u)))

end Weave

end JobWeave
