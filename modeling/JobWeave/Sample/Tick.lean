import JobWeave.Emitter
import JobWeave.Framework.Library

/-!
# Written-out modules

Modules that are given as they are, without a builder: a system that schedules a
single job, variants of it that misuse their descriptions, and the part of the
framework that it needs.
-/

namespace JobWeave.Sample

open Framework

/-- The system of the modules here. -/
def tickSystem : TypeRef := .ofName "Game" "Ticker" false

/-- Its closure. -/
def tickClosure : TypeRef := tickSystem.nestedIn "<>c__DisplayClass0_0" false

/-- The lambda in the closure. -/
def tickLambda : MethodRef :=
  { owner := tickClosure, name := "<OnUpdate>b__0", ret := .void,
    hasThis := true }

/-- The description of a single job. -/
def tickDescription : TypeRef :=
  .ofName Ns.entities TypeName.singleJobDescription true

/-- The methods that take a description further. -/
def tickConstruction : TypeRef :=
  .ofName Ns.entities TypeName.singleJobConstructionMethods false

/-- Starts a chain. -/
def tickSource : MethodRef :=
  { owner := .ofName Ns.entities TypeName.systemBase false,
    name := Member.getJob,
    ret := tickDescription, hasThis := true }

/-- The delegate that a chain takes. -/
def tickDelegate : MethodRef :=
  { owner := tickConstruction.nestedIn "WithCodeAction" false, name := ".ctor",
    ret := .void,
    params := [.object, .intPtr], hasThis := true }

/-- Gives the lambda to a description. -/
def tickWithCode : MethodRef :=
  { owner := tickConstruction, name := Member.withCode, ret := .methodParam 0,
    params := [.methodParam 0, tickDelegate.owner],
    typeArgs := [tickDescription],
    arity := 1 }

/-- Ends a chain. -/
def tickSchedule : MethodRef :=
  { owner := .ofName Ns.entities TypeName.singleJobExecutionMethods false,
    name := Member.schedule, ret := .void, params := [.methodParam 0],
    typeArgs := [tickDescription], arity := 1 }

/-- Code made of some steps. -/
def codeOf (steps : List Step) (locals : List Local) : Body :=
  let b : Body := { locals, initLocals := true }
  b.append (b.labelled steps)

/-- A module with the system alone, which has a base class and updates as
given. -/
def tickModule (base : String) (steps : List Step) : Module :=
  let update : MethodDef :=
    { name := "OnUpdate", ret := .void,
      body := some (codeOf steps [⟨tickClosure, ""⟩]) }
  let lambda : MethodDef :=
    { name := tickLambda.name, ret := .void,
      body := some (codeOf [Step.ret] []) }
  let system : TypeHead :=
    { ns := "Game", name := "Ticker",
      base := .ofName Ns.entities base false }
  let closure : TypeHead :=
    { ns := "", name := "<>c__DisplayClass0_0", base := .object }
  { name := "Ticks",
    types := [.mk system [update] [.mk closure [lambda] []]] }

/-- A type that is stored in place. -/
def tickPoint : TypeRef := .ofName "Game" "Point" true

/-- Its field. -/
def tickX : FieldRef := { owner := tickPoint, type := .int32, name := "x" }

/-- A variable in the closure. -/
def tickAcc : FieldRef :=
  { owner := tickClosure, type := tickPoint, name := "acc" }

/-- A module whose system updates as given; its closure holds a variable, and
the lambda has some code. -/
def captureModule (steps lambda : List Step) : Module :=
  let update : MethodDef :=
    { name := "OnUpdate", ret := .void,
      body := some (codeOf steps [⟨tickClosure, ""⟩]) }
  let lambda : MethodDef :=
    { name := tickLambda.name, ret := .void, body := some (codeOf lambda []) }
  let point : TypeHead :=
    { ns := "Game", name := "Point", base := .valueType,
      fields := [{ name := "x", type := .int32 }] }
  let system : TypeHead :=
    { ns := "Game", name := "Ticker",
      base := .ofName Ns.entities TypeName.systemBase false }
  let closure : TypeHead :=
    { ns := "", name := "<>c__DisplayClass0_0", base := .object,
      fields := [{ name := "acc", type := tickPoint }] }
  { name := "Ticks",
    types := [.mk point [] [], .mk system [update] [.mk closure [lambda] []]] }

/-- A closure is made, and its lambda is scheduled. -/
def scheduleSteps : List Step :=
  [Step.newobj { owner := tickClosure, name := ".ctor", ret := .void,
                 hasThis := true },
    Step.stloc (.slot 0), Step.ldarg 0, Step.call tickSource,
    Step.ldloc (.slot 0), Step.ldftn tickLambda, Step.newobj tickDelegate,
    Step.call tickWithCode, Step.call tickSchedule, Step.ret]

/-- A description gets its lambda, and then another description is scheduled. -/
def crossedSteps : List Step :=
  scheduleSteps.take 8 ++ [Step.ldarg 0, Step.call tickSource,
    Step.call tickSchedule, Step.pop, Step.ret]

/-- A description is made and dropped. -/
def straySteps : List Step :=
  [Step.ldarg 0, Step.call tickSource, Step.pop, Step.ret]

/-- The captured variable is read. -/
def readSteps : List Step :=
  [Step.ldarg 0, Step.ldfld tickAcc, Step.pop, Step.ret]

/-- A field of the captured variable is written through its address. -/
def partSteps : List Step :=
  [Step.ldarg 0, Step.ldflda tickAcc, Step.ldcI4 1, Step.stfld tickX, Step.ret]

/-- The part of the framework that a scheduled single job needs. -/
def tickFramework : Module :=
  let needed := ["DOTSCompilerGeneratedAttribute", "BurstCompileAttribute",
    "NoAliasAttribute", "JobHandle", "IJob", "IJobExtensions",
    "JobChunkExtensions", "InternalCompilerInterface", "ComponentSystemBase",
    "SystemBase", "LambdaSingleJobDescriptionConstructionMethods"]
  { name := "Framework",
    types := (Framework.modules.flatMap (·.types)).filter fun t =>
      needed.contains t.head.name }

/-- A part of a list is what stands at certain places. -/
theorem filter_eq_of_places {α : Type} {l : List α} {p : α → Bool}
    {places : List Nat} (h : (l.zipIdx.filter fun x => p x.1).map (·.2) =
      places) :
    l.filter p = places.filterMap (l[·]?) := by
  have hat : ∀ xs : List (α × Nat), (∀ x ∈ xs, l[x.2]? = some x.1) →
      (xs.map (·.2)).filterMap (l[·]?) = xs.map (·.1) := by
    intro xs hxs
    induction xs with
    | nil => rfl
    | cons x xs ih =>
      obtain ⟨hx, hxs⟩ := List.forall_mem_cons.1 hxs
      rw [List.map_cons, List.map_cons, List.filterMap_cons_some hx, ih hxs]
  rw [← h, hat _ fun x hx => List.mem_zipIdx_iff_getElem?.1
    (List.mem_filter.1 hx).1, ← Function.comp_def p Prod.fst, ← List.filter_map,
    List.zipIdx_map_fst]

/-- Types of the framework by their places in it. -/
def frameworkTypes (places : List Nat) : List TypeDef :=
  places.filterMap ((Framework.modules.flatMap (·.types))[·]?)

/-- With the places told, the names are not compared again when a run of the
sample is evaluated. -/
theorem tickFramework_eq : tickFramework =
    { name := "Framework",
      types := frameworkTypes [25, 35, 36, 53, 54, 55, 59, 60, 61, 62, 77] } :=
  congrArg (Module.mk "Framework") (filter_eq_of_places (by decide +kernel))

/-- Runs a chain at once. -/
def tickRun : MethodRef := { tickSchedule with name := Member.run }

/-- A closure is made, and its lambda is run at once. -/
def runSteps : List Step :=
  scheduleSteps.take 8 ++ [Step.call tickRun, Step.ret]

/-- The rest of the framework that a single job needs that is run at once. -/
def directFramework : Module :=
  let needed := [TypeName.entityQueryDesc, TypeName.entityQuery,
    TypeName.componentType, AttributeName.monoPInvokeCallback,
    TypeName.unsafeUtility, TypeName.jobsUtility]
  { name := "Direct",
    types := (Framework.modules.flatMap (·.types)).filter fun t =>
      needed.contains t.head.name }

theorem directFramework_eq : directFramework =
    { name := "Direct", types := frameworkTypes [38, 44, 45, 46, 56, 57] } :=
  congrArg (Module.mk "Direct") (filter_eq_of_places (by decide +kernel))

end JobWeave.Sample
