import JobWeave.Sample.Chain

/-!
# Scenarios

Small complete modules: a scheduled lambda over entities, one that runs at once
on the system, one with a branch inside its chain, one on the older kind of
system, and a single job.
-/

namespace JobWeave.Sample

open Framework

/-- The components that scenarios share. -/
structure Game where
  /-- a position -/
  position : TypeRef
  /-- a speed -/
  velocity : TypeRef
  /-- a tag -/
  frozen : TypeRef
  deriving Inhabited

/-- Declares the shared components. -/
def game : Build Game := do
  let position ← component "Game" "Translation" [("Value", .single)]
  let velocity ← component "Game" "Velocity" [("Value", .single)]
  let frozen ← component "Game" "Frozen" []
  return { position, velocity, frozen }

/-- The body of a lambda that moves a position by its speed. -/
def emitMove (g : Game) (lambda : MethodId) (dt : FieldRef) : Build Unit := do
  let value ← Weave.importField g.position "Value"
  let speed ← Weave.importField g.velocity "Value"
  line lambda
  emit lambda [Step.ldarg 1, Step.ldarg 1, Step.ldfld value, Step.ldarg 2,
    Step.ldfld speed, Step.ldarg 0, Step.ldfld dt, (.mul, .none), (.add, .none),
    Step.stfld value]
  line lambda
  emit lambda [Step.ret]

/-- A system that moves entities, ended by the given method. -/
def moveScenario (terminal : String) : Build Unit := do
  let g ← game
  let sys ← system "Game" "MoveSystem" false
  let dc ← closure sys
  let dt ← captured dc "dt" .single
  let lambda ← closureLambda dc
    [⟨.byRef, "t", g.position⟩, ⟨.readOnlyRef, "v", g.velocity⟩]
  emitMove g lambda dt
  let up ← onUpdate sys
  line up
  let l ← newClosure up dc
  capture up (.slot l) dt (emit up [(.ldcR4, .float32 0x3c83126f)])
  let c ← chain up .entities
  c.withName "Move"
  c.forEach lambda (.closure (.slot l))
  c.finish terminal 1
  line up
  emit up [Step.ret]

/-- A lambda on the system that calls one of its methods, run at once. -/
def spawnScenario : Build Unit := do
  let g ← game
  let sys ← system "Game" "SpawnSystem" false
  let factor ← systemField sys "factor" .single
  let scale ← method sys "Scale" .single [⟨.byValue, "x", .single⟩]
  line scale
  emit scale [Step.ldarg 1, Step.ldarg 0, Step.ldfld factor, (.mul, .none),
    Step.ret]
  let value ← Weave.importField g.position "Value"
  let lambda ← systemLambda sys [⟨.byRef, "t", g.position⟩]
  line lambda
  emit lambda [Step.ldarg 1, Step.ldarg 0, Step.ldarg 1, Step.ldfld value,
    Step.call (← Weave.methodRef scale), Step.stfld value, Step.ret]
  let up ← onUpdate sys
  let c ← chain up .entities
  c.withoutBurst
  c.forEach lambda .this
  c.finish Member.run 1
  line up
  emit up [Step.ret]

/-- A branch between two calls of a chain. -/
def branchScenario : Build Unit := do
  let g ← game
  let sys ← system "Game" "BranchSystem" false
  let flag ← systemField sys "flag" .boolean
  let cls ← statics sys
  let lambda ← closureLambda cls [⟨.byRef, "t", g.position⟩]
  line lambda
  emit lambda [Step.ret]
  let up ← onUpdate sys
  let c ← chain up .entities
  c.withName "Branchy"
  let skip ← newMark up
  emit up [Step.ldarg 0, Step.ldfld flag]
  modifyCode up (·.branch .brfalse skip)
  modifyCode up (·.place skip)
  c.withoutBurst
  c.forEach lambda (.cached cls)
  c.finish Member.run 1
  line up
  emit up [Step.ret]

/-- The older kind of system, reading a captured container. -/
def lookupScenario : Build Unit := do
  let g ← game
  let sys ← system "Game" "LookupSystem" true
  let array ← nativeArray .single
  let source ← systemField sys "lookup" array
  let dc ← closure sys
  let lookup ← captured dc "lookup" array
  let arrays ← Weave.importType Ns.collections TypeName.nativeArray
  let get := (← Weave.importMethod arrays "get_Item" 1).onType array
  let value ← Weave.importField g.position "Value"
  let lambda ← closureLambda dc [⟨.byRef, "t", g.position⟩]
  line lambda
  emit lambda [Step.ldarg 1, Step.ldarg 0, Step.ldflda lookup, Step.ldcI4 0,
    Step.call get, Step.stfld value, Step.ret]
  let up ← onUpdate sys
  line up
  let l ← newClosure up dc
  capture up (.slot l) lookup (emit up [Step.ldarg 0, Step.ldfld source])
  let c ← chain up .entities
  c.modifyVariable Member.withReadOnly (.slot l) lookup
  c.forEach lambda (.closure (.slot l))
  emit up [Step.ldarg 1]
  c.finish Member.schedule 2
  emit up [Step.ret]

/-- A single job that counts, run at once. -/
def countScenario : Build Unit := do
  let _ ← game
  let sys ← system "Game" "CountSystem" false
  let dc ← closure sys
  let count ← captured dc "count" .int32
  let lambda ← closureLambda dc []
  line lambda
  emit lambda [Step.ldarg 0, Step.ldarg 0, Step.ldfld count, Step.ldcI4 1,
    (.add, .none), Step.stfld count, Step.ret]
  let up ← onUpdate sys
  line up
  let l ← newClosure up dc
  capture up (.slot l) count (emit up [Step.ldcI4 0])
  let c ← chain up .job
  c.withCode lambda (.closure (.slot l))
  c.finish Member.run 1
  line up
  emit up [Step.ret]

/-- The scenarios by name: the name of their module and how they are built. -/
def scenarios : List (String × String × Build Unit) := [
  ("a", "ScenarioA", moveScenario Member.scheduleParallel),
  ("b", "ScenarioB", spawnScenario),
  ("c", "ScenarioC", branchScenario),
  ("jcs", "ScenarioJCS", lookupScenario),
  ("job", "ScenarioJob", countScenario)]

/-- The first scenario, run at once. -/
def runMove : String × Build Unit :=
  ("RunMove", moveScenario Member.run)

/-- Builds a module of the given name. -/
def build (name : String) (act : Build Unit) : Outcome Module :=
  let (w, s) := start name
  match ((do act; finish : Build Module).run s) w with
  | .ok (m, _) _ => .ok m
  | .error stop _ => .error stop

end JobWeave.Sample
