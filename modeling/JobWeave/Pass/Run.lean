import JobWeave.Body.Validate
import JobWeave.Pass.Report
import JobWeave.Splice.Closure
import JobWeave.Splice.Hook
import JobWeave.Workspace.World

/-!
# The pass

Every component system of a module gets its creation hook, and every method of
it with chains is processed: the chains are analysed, planned and replaced,
closures become value types where they can, and the jobs are committed.

* A method is processed whole or not at all: an attempt that fails leaves its
  code as it was, and a fault restores the system too and becomes a diagnostic.
* `Weave.process` runs the pass on a module of the current world, and
  `Weave.processWith` on a module with the modules it refers to and the
  framework.
-/

namespace JobWeave

open Framework

/-- Settings of the pass. -/
structure Settings where
  /-- the most chains in one method; zero or less means the default -/
  maxChains : Int := 0
  /-- code is validated before it is committed, and the module at the end -/
  verify : Bool := false
  /-- a copy of every changed method is kept -/
  keepUnprocessed : Bool := false
  /-- closures stay classes -/
  noStructs : Bool := false
  deriving DecidableEq, Repr, Inhabited

/-- The most chains in one method unless the settings say otherwise. -/
def Settings.defaultMaxChains : Int := 256

/-- The most chains in one method. -/
def Settings.chainLimit (s : Settings) : Int :=
  if s.maxChains ≤ 0 then defaultMaxChains else s.maxChains

/-- What follows the name of a method in the name of its kept copy. -/
def unprocessedSuffix : String := "$Unprocessed"

/-- A world and the report on it. -/
structure PassState where
  /-- the world -/
  world : World
  /-- the report so far -/
  report : Report
  deriving Inhabited

/-- The pass at work.  What was reported before it stopped stays reported. -/
abbrev Pass := EStateM Stop PassState

/-- Work on the world is work of the pass. -/
instance : MonadLift Weave Pass where
  monadLift act := fun s =>
    match act s.world with
    | .ok a w => .ok a { s with world := w }
    | .error e w => .error e { s with world := w }

namespace Pass

/-- Changes the report. -/
def modifyReport (f : Report → Report) : Pass Unit :=
  modify fun s => { s with report := f s.report }

/-- Reports diagnostics. -/
def note (ds : List Diagnostic) : Pass Unit :=
  modifyReport fun r => { r with diagnostics := r.diagnostics ++ ds }

/-- Reports a failure in a method. -/
def reportFailure (m : MethodId) (f : Failure) : Pass Unit := do
  match f.note? with
  | some d => note [d]
  | none => note [← Weave.unexpected m f.message]

end Pass

/-! ## One attempt at a method -/

/-- What an attempt at a method gave. -/
inductive Attempt where
  /-- the replaced chains, with the warnings and the failures of the others -/
  | done (plans : List Plan) (warnings : List Diagnostic)
      (failures : List Failure)
  /-- closures must stay classes; these failures will not come again -/
  | retry (failures : List Failure)
  deriving Inhabited

/-- The attempt with failures that came before it. -/
def Attempt.carrying (before : List Failure) : Attempt → Attempt
  | .done plans warnings failures => .done plans warnings (before ++ failures)
  | .retry failures => .retry failures

namespace Weave

/-- Plans the chains of a method, each for itself; no two jobs may have one
name. -/
def planAll (chains : List Chain) (asStruct : Bool) :
    Weave (List Plan × List Failure) :=
  chains.foldlM
    (fun (plans, failures) c => do
      let planned ← tryFailure do
        let u ← synthesize c asStruct
        if plans.any fun p => p.chain.className == c.className then
          refuse .dc0003 c.method c.source [.text c.name]
        return u
      match planned with
      | .ok u => return (plans ++ [u], failures)
      | .error f => return (plans, failures ++ [f]))
    ([], [])

/-- Replaces the chains of plans, each for itself. -/
def spliceAll (plans : List Plan) :
    Weave (List Plan × List Diagnostic × List Failure) :=
  plans.foldlM
    (fun (done, warnings, failures) u => do
      let (ws, result) ← splice u
      match result with
      | .ok _ => return (done ++ [u], warnings ++ ws, failures)
      | .error f => return (done, warnings ++ ws, failures ++ [f]))
    ([], [], [])

/-- Replaces the chains of plans in a method; the failures are those of the
chains without a plan.  With closures as value types any failure undoes all of
it, since a chain that stays still makes its delegate from the closure. -/
def replacePlans (s : Settings) (m : MethodId) (plans : List Plan)
    (planFailures : List Failure) (asStruct : Bool) : Weave Attempt := do
  let saved ← saveBody m
  let undo := restoreBody m saved
  let (done, warnings, failures) ← spliceAll plans
  let failures := planFailures ++ failures
  if asStruct && !failures.isEmpty then
    undo
    return .retry []
  if done.isEmpty then return .done [] warnings failures
  if s.verify then
    let d ← methodDef m
    if let .error f := d.validate (← methodName m) (← bodyOf m) then
      undo
      return .done [] warnings (failures ++ [f])
  if asStruct then
    if let .error f := ← tryFailure (convertClosures m) then
      undo
      return .retry [f]
  return .done done warnings failures

/-- Plans and replaces the chains of a method. -/
def attemptMethod (s : Settings) (m : MethodId) (chains : List Chain)
    (asStruct : Bool) : Weave Attempt := do
  let (plans, planFailures) ← planAll chains asStruct
  if asStruct && !planFailures.isEmpty then return .retry []
  replacePlans s m plans planFailures asStruct

/-- Attempts a method with its closures as value types where they may be.  If
that fails they stay classes, and there is another attempt; the first part of
the result says which way it went. -/
def attemptChains (s : Settings) (m : MethodId) (chains : List Chain) :
    Weave (Bool × Attempt) := do
  let asStruct ←
    if s.noStructs || s.keepUnprocessed then pure false
    else canConvertClosures m chains
  match ← attemptMethod s m chains asStruct with
  | .done plans warnings failures =>
    return (asStruct, .done plans warnings failures)
  | .retry carried =>
    return (false, (← attemptMethod s m chains false).carrying carried)

end Weave

/-! ## Methods and systems -/

namespace Pass

/-- Commits a plan and reports its job. -/
def commitPlan (m : MethodId) (asStruct : Bool) (u : Plan) : Pass Unit := do
  match ← Weave.tryFailure (Weave.commit u) with
  | .error f => reportFailure m f
  | .ok u =>
    let c := u.chain
    let entry : JobEntry :=
      { system := ← Weave.typeName c.system,
        method := (← Weave.methodDef m).name,
        struct := (← Weave.typeHead u.type).name,
        kind := c.kind.name, mode := c.mode.name, burst := c.usesBurst,
        closureAsStruct := asStruct && c.capturesLocals }
    modifyReport fun r => { r with jobs := r.jobs ++ [entry] }

/-- The copy of a method that is kept. -/
def unprocessed (d : MethodDef) : MethodDef :=
  let exposed := MethodFlag.virtual ||| MethodFlag.pub ||| MethodFlag.family |||
    MethodFlag.assembly
  let copy := d.copyAs (d.name ++ unprocessedSuffix)
  { copy with flags := (copy.flags &&& ~~~exposed) ||| MethodFlag.priv }

/-- Reports what an attempt at a method gave and commits its plans.  The copy is
the one to keep of the method. -/
def finishMethod (s : Settings) (m : MethodId) (copy : MethodDef)
    (asStruct : Bool) (plans : List Plan) (warnings : List Diagnostic)
    (failures : List Failure) : Pass Unit := do
  note warnings
  failures.forM (reportFailure m)
  if plans.isEmpty then return
  plans.forM (commitPlan m asStruct)
  Weave.optimizeBody m
  if s.keepUnprocessed then
    let owner ← Weave.ownerOf m
    Weave.modifyWorkspace fun w => (w.addCopy owner m copy).1

/-- Replaces chains of a method that were analysed. -/
def replaceChains (s : Settings) (m : MethodId) (chains : List Chain) :
    Pass Unit := do
  let copy := unprocessed (← Weave.methodDef m)
  match ← Weave.attemptChains s m chains with
  | (_, .retry _) => return
  | (asStruct, .done plans warnings failures) =>
    finishMethod s m copy asStruct plans warnings failures

/-- The failures among the results of an analysis. -/
def failuresOf (results : List (Except Failure Chain)) : List Failure :=
  results.filterMap fun
    | .error f => some f
    | .ok _ => none

/-- Processes every chain of a method. -/
def processMethod (s : Settings) (m : MethodId) : Pass Unit := do
  let results ← Weave.chainsIn m
  if s.chainLimit < results.length then
    reportFailure m (.detailed
      { phase := .analyze, kind := .outOfBounds, member := ← Weave.methodName m,
        detail := toString results.length ++ " chains exceed the limit of " ++
          toString s.chainLimit })
    return
  (failuresOf results).forM (reportFailure m)
  let chains := results.filterMap Except.toOption
  if !chains.isEmpty then replaceChains s m chains

/-- The parts of a system that processing one of its methods can change. -/
structure SystemState where
  /-- the system -/
  type : TypeId
  /-- its entry -/
  entry : TypeEntry
  /-- the entries of its nested types -/
  nested : List (TypeId × TypeEntry)
  /-- its hook and the hook's code -/
  hook : Option (MethodId × Body)

/-- Records the state of a system. -/
def saveSystem (t : TypeId) : Weave SystemState := do
  let w ← Weave.workspace
  let hook ←
    match ← Weave.methodNamed? t Member.onCreateForCompiler with
    | none => pure none
    | some m =>
      if (w.method m).body.isNone then pure none
      else do pure (some (m, ← Weave.saveBody m))
  return { type := t, entry := w.type t, hook,
           nested := (w.type t).nested.map fun n => (n, w.type n) }

/-- What is put back of the system itself. -/
def SystemState.restoreType (s : SystemState) (e : TypeEntry) : TypeEntry :=
  { e with
    head := { e.head with fields := s.entry.head.fields },
    methods := s.entry.methods, nested := s.entry.nested }

/-- What is put back of a nested type. -/
def restoreNested (saved e : TypeEntry) : TypeEntry :=
  { e with
    head := { e.head with base := saved.head.base, flags := saved.head.flags },
    methods := saved.methods }

/-- The definitions with the types of a system put back. -/
def SystemState.restoreTypes (s : SystemState) (w : Workspace) : Workspace :=
  let w := w.updateType s.type s.restoreType
  let w := s.nested.foldl
    (fun w (n, saved) => w.updateType n (restoreNested saved)) w
  match s.entry.home with
  | some m => w.touch m
  | none => w

/-- Puts a system back into a recorded state. -/
def restoreSystem (s : SystemState) : Weave Unit := do
  Weave.modifyWorkspace s.restoreTypes
  if let some (m, b) := s.hook then Weave.restoreBody m b

/-- What a fault without a text is reported as. -/
def faultText : String := "runtime error"

/-- What a stop in the middle of a method is reported as. -/
def causeOf : Stop → String
  | .fault text => text.getD faultText
  | .failed f => f.message

/-- Runs some work; its stop is handed on, and the state stays as it left it. -/
def orElse (act : Pass Unit) (handle : Stop → Pass Unit) : Pass Unit := fun s =>
  match act s with
  | .ok a s => .ok a s
  | .error e s => handle e s

/-- Processes a method; a fault puts the method and its system back, takes back
the jobs reported for it, and becomes a diagnostic. -/
def guardMethod (s : Settings) (m : MethodId) : Pass Unit := do
  let saved ← Weave.saveBody m
  let system ← saveSystem (← Weave.ownerOf m)
  let jobs := (← get).report.jobs
  orElse (processMethod s m) fun stop => do
    Weave.restoreBody m saved
    restoreSystem system
    modifyReport fun r => { r with jobs }
    note [← Weave.unexpected m (causeOf stop)]

/-- Processes a method of a system that has chains. -/
def visitMethod (s : Settings) (m : MethodId) : Pass Unit := do
  let d ← Weave.methodDef m
  if d.body.isSome then
    if !(← Weave.ofOutcome d.sources).isEmpty then guardMethod s m

/-- Processes a system. -/
def processSystem (s : Settings) (t : TypeId) : Pass Unit := do
  match ← Weave.tryFailure (Weave.hookOf t) with
  | .error f => note f.note?.toList
  | .ok _ => (← Weave.typeEntry t).methods.forM (visitMethod s)

/-- What the pass reports on a world. -/
def reporting (act : Pass Unit) (start : Report) : Weave Report := fun w =>
  match act ⟨w, start⟩ with
  | .ok _ p => .ok p.report p.world
  | .error e p => .error e p.world

end Pass

namespace Weave

/-- The component systems of a module, outer types first. -/
def systemsOf (home : ModuleId) : Weave (List TypeId) := do
  ((← workspace).typesOf home).filterM isComponentSystem

/-- Processes the systems of a module. -/
def processSystems (s : Settings) (home : ModuleId) : Weave Report := do
  let systems ← systemsOf home
  let name := ((← workspace).moduleEntry home).name
  Pass.reporting (systems.forM (Pass.processSystem s))
    { module := name, systems := systems.length }

/-- Runs the pass on a module of the world, with an import table of its own. -/
def process (s : Settings) (home : ModuleId) :
    Weave (Report × Except Failure Unit) := do
  let before ← get
  set before.afresh
  let result ← attempt (processSystems s home)
  modify fun w => { w with imports := before.imports, hooks := before.hooks }
  let report ← ofOutcome result
  if s.verify then
    if let .error f := ((← workspace).module home).validate then
      return (report, .error (.caused
        { phase := .validate, kind := .internal,
          detail := "rewritten module is invalid" } f))
  return (report, .ok ())

/-- Does some work with a universe of the given modules in place of the current
one. -/
def resolvingIn {α : Type} (modules : List ModuleId) (act : Weave α) :
    Weave α := do
  let before := (← get).resolver
  modify fun w => { w with resolver := .ofModules w.workspace modules }
  let result ← attempt act
  modify fun w => { w with resolver := before }
  ofOutcome result

/-- Runs the pass on a module of the world with the modules it refers to and the
framework. -/
def processWith (s : Settings) (home : ModuleId) (references : List ModuleId) :
    Weave (Report × Except Failure Unit) := do
  let framework ← addToWorkspace (·.loadAll Framework.modules)
  resolvingIn (home :: references ++ framework) (process s home)

end Weave

end JobWeave
