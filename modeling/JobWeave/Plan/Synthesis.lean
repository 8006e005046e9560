import JobWeave.Plan.Entry
import JobWeave.Plan.Lambda
import JobWeave.Plan.Markers
import JobWeave.Plan.Query

/-!
# Synthesis

`Weave.synthesize` makes the plan for a chain, from the query to the entry
points.  A framework member that is missing on the way is reported at the end,
once for the whole plan.
-/

namespace JobWeave

open Framework

namespace Weave

/-- Starts a plan with an empty struct for the job. -/
def startPlan (c : Chain) (closureAsStruct servesSystem : Bool) :
    Weave Plan := do
  let generated ←
    importAttribute Ns.entities AttributeName.dotsCompilerGenerated []
  let interfaces ←
    if c.kind == .job then do pure [← importType Ns.jobs TypeName.job]
    else if c.runsStructural then pure []
    else do pure [← importEntities TypeName.jobChunk]
  let head : TypeHead :=
    { name := c.className, base := .valueType, interfaces,
      attributes := [generated],
      flags := TypeFlag.nestedPrivate ||| TypeFlag.sealed |||
        TypeFlag.sequentialLayout ||| TypeFlag.beforeFieldInit }
  let type ← addToWorkspace (·.newType head)
  modifyWorkspace fun w => w.updateType type fun e =>
    { e with outer := some c.system, home := (w.type c.system).home }
  return { chain := c, type, closureAsStruct, servesSystem }

/-- The system has a nested type of this name. -/
def hasNested (t : TypeId) (name : String) : Weave Bool := do
  let w ← workspace
  return (w.type t).nested.any fun n => (w.type n).head.name == name

end Weave

namespace Planning

/-- A part of a plan that only some chains need. -/
def part (needed : Bool) (act : Planning Unit) : Planning Unit := do
  if needed then act

/-- The parts of a plan in order. -/
def build : Planning Unit := do
  let u ← get
  let c := u.chain
  part (c.kind == .entities) classifyParams
  part (c.kind != .job) buildQuery
  if c.lambdaOnSystem && !u.servesSystem then relay else clone
  markVariables
  part c.capturesLocals closureCopies
  part (c.kind == .entities) declareProviders
  part (c.mode == .run) deallocation
  if c.runsStructural then structuralEntryPoint else entryPoint
  preparation
  part (c.mode == .run && !c.runsStructural) directEntryPoint
  markNative

end Planning

namespace Weave

/-- Stops if a framework member was missed after a mark. -/
def requireSince (mark : Nat) (c : Chain) : Weave Unit := do
  let miss ← missingSince mark
  if miss != "" then refuse .dcice005 c.method c.source [.text miss]

/-- Makes the plan for a chain. -/
def synthesize (c : Chain) (closureAsStruct : Bool) : Weave Plan := do
  let start ← mark
  if ← hasNested c.system c.className then
    refuse .dc0003 c.method c.source [.text c.name]
  let serves ← checkLambdaOnSystem c
  let plan ← startPlan c closureAsStruct serves
  let (_, plan) ← Planning.build.run plan
  requireSince start c
  return plan

end Weave

end JobWeave
