import Mathlib
import JobWeave.Plan.Synthesis
import JobWeave.Proofs.Plan.Query

/-!
# Synthesis leaves the old definitions alone

Each part of a plan keeps the invariant of planning, and so does the whole.
`Weave.synthesize_gives` is the result: a plan for the chain, whose struct is a
new type, made while every old definition stayed as it was.
-/

namespace JobWeave

open Framework Std.Do

set_option mvcgen.warning false

variable {I : Workspace → Prop} {B : Ground}
variable {H : List (TypeId × MethodId)} {c : Chain}

namespace Planning

/-! ## Closures and containers -/

@[spec]
theorem closureParam_drafts : Drafts B H c closureParam := by
  mvcgen [closureParam]
  all_goals grind

@[spec]
theorem walkClosures_drafts {hops : List FieldRef} :
    Drafts B H c (walkClosures hops) := by
  mvcgen [walkClosures]
  all_goals grind

@[spec]
theorem closureCopies_drafts : Drafts B H c closureCopies := by
  mvcgen [closureCopies]
  all_goals grind -ring -linarith [Fresh]

@[spec]
theorem sameAs_keeps {f : FieldRef} {g : Option FieldRef} :
    Weave.Keeps I H (sameAs f g) := by
  mvcgen [sameAs]
  all_goals grind

@[spec]
theorem toDispose_drafts : Drafts B H c toDispose := by
  mvcgen [toDispose]
  all_goals grind

@[spec]
theorem deallocation_drafts : Drafts B H c deallocation := by
  mvcgen [deallocation]
  all_goals grind -ring -linarith [Fresh, mem_sourceNames]

/-! ## Entry points -/

attribute [spec] chunkParams

@[spec]
theorem declareExecute_drafts {flags : UInt16} {params : List ParamDef} :
    DraftsGiving B H c (IsNew B) (declareExecute flags params) := by
  mvcgen [declareExecute]
  all_goals grind [Fresh]

@[spec]
theorem loopTemp_drafts {m : MethodId} {e : Element} (hm : IsNew B m) :
    Drafts B H c (loopTemp m e) := by
  mvcgen [loopTemp]

@[spec]
theorem loopArgument_drafts {i : LocalRef} {e : Element}
    {temp : Option LocalRef} :
    Drafts B H c (loopArgument i e temp) := by
  mvcgen [loopArgument]

/-- Attributes on parameters leave their types alone. -/
theorem decorates_params {name : String} {flags : UInt8}
    {attributes : List Attribute} :
    MethodDef.Decorates fun d =>
      { d with
        implFlags := d.implFlags ||| flags,
        params := d.params.map fun p =>
          if p.name == name then { p with attributes } else p } := by
  intro d
  refine ⟨rfl, rfl, rfl, ?_, rfl, rfl⟩
  rw [List.map_map]
  refine List.map_congr_left fun p _ => ?_
  simp only [Function.comp_apply]
  split <;> rfl

@[spec]
theorem iterateEntities_drafts :
    DraftsGiving B H c (IsNew B) iterateEntities := by
  mvcgen [iterateEntities]
  all_goals first | exact decorates_params | grind [Fresh, mem_sourceNames]

@[spec]
theorem prepareRuntime_drafts {runtimes : LocalRef} {e : Element} :
    Drafts B H c (prepareRuntime runtimes e) := by
  mvcgen [prepareRuntime]

@[spec]
theorem entryPoint_drafts : Drafts B H c entryPoint := by
  mvcgen [entryPoint]
  all_goals grind

/-- The entry point that calls a loop over entities. -/
def enterLoop (loop : MethodId) : Planning Unit := do
  let m ← declareExecute instanceEntry (← chunkParams)
  let runtimes ← addLocal m (← get).runtimes "runtimes"
  let prepare ← (← get).elements.flatMapM (prepareRuntime runtimes)
  emit m (prepare ++ [Step.ldarg 0, Step.ldarga 1, Step.ldloca runtimes,
    Step.call (← Weave.methodRef loop), Step.ret])

/-- A chain over entities gets its loop first and then the entry point that
calls it. -/
theorem entryPoint_entities {u : Plan} (h : u.chain.kind = .entities) :
    entryPoint u = (iterateEntities >>= enterLoop) u := by
  obtain ⟨⟨⟩, _⟩ := u
  cases h
  rfl

theorem enterLoop_drafts {loop : MethodId} : Drafts B H c (enterLoop loop) := by
  mvcgen [enterLoop]
  all_goals grind

@[spec]
theorem asRef_keeps {t : TypeRef} : Drafts B H c (asRef t) := by
  mvcgen [asRef]
  all_goals grind [mem_sourceNames]

@[spec]
theorem declareCopies_drafts {m : MethodId} {e : Element} (hm : IsNew B m) :
    Drafts B H c (declareCopies m e) := by
  mvcgen [declareCopies]

@[spec]
theorem copyOut_drafts {runtimes : LocalRef} {x : Copies} :
    Drafts B H c (copyOut runtimes x) := by
  mvcgen [copyOut]

@[spec]
theorem writeBack_drafts {runtimes : LocalRef} {x : Copies} :
    Drafts B H c (writeBack runtimes x) := by
  mvcgen [writeBack]

@[spec]
theorem callback_drafts : Drafts B H c callback := by
  mvcgen [callback]
  all_goals grind [mem_sourceNames]

@[spec]
theorem prepareStructural_drafts {runtimes : LocalRef} {e : Element} :
    Drafts B H c (prepareStructural runtimes e) := by
  mvcgen [prepareStructural]

@[spec]
theorem disposing_drafts {load : List Step} :
    Drafts B H c (disposing load) := by
  mvcgen [disposing]
  all_goals grind

@[spec]
theorem structuralEntryPoint_drafts : Drafts B H c structuralEntryPoint := by
  mvcgen [structuralEntryPoint]
  all_goals grind [mem_sourceNames]

/-! ## Preparation and direct runs -/

@[spec]
theorem preparation_drafts : Drafts B H c preparation := by
  mvcgen [preparation]
  all_goals grind [Fresh, mem_sourceNames]

@[spec]
theorem directJob_drafts :
    DraftsGiving B H c (fun r => IsNew B r.2.1) directJob := by
  mvcgen [directJob]
  all_goals grind

@[spec]
theorem directChunks_drafts :
    DraftsGiving B H c (fun r => IsNew B r.2.1) directChunks := by
  mvcgen [directChunks]
  all_goals grind [mem_sourceNames]

@[spec]
theorem directDispose_drafts {arg : Int} {t : TypeRef} :
    Drafts B H c (directDispose arg t) := by
  mvcgen [directDispose]

@[spec]
theorem directSteps_drafts {entry : DirectEntry} :
    Drafts B H c (directSteps entry) := by
  cases entry
  all_goals
    mvcgen [directSteps]
    all_goals grind

@[spec]
theorem directDelegates_drafts {delegate : TypeRef} {m : MethodId}
    (hB : B.direct) (hm : IsNew B m) :
    Drafts B H c (directDelegates delegate m) := by
  have hstart : ∀ (plain : FieldRef) (entry ctor : MethodRef), Step.AllOrdinary
      [Step.ldnull, Step.ldftn entry, Step.newobj ctor, Step.stsfld plain] := by
    intro plain entry ctor
    grind -ring -linarith
  mvcgen [directDelegates]
  all_goals try grind -ring -linarith [mem_sourceNames]
  all_goals
    refine drafting_iff.2 ⟨by grind -ring -linarith,
      Fresh.setDirect (by grind -ring -linarith) hB hm (hstart _ _ _) ?_⟩
    grind -ring -linarith [mem_sourceNames]

@[spec]
theorem directEntryPoint_drafts (hB : B.direct) :
    Drafts B H c directEntryPoint := by
  mvcgen [directEntryPoint]
  all_goals grind [MethodDef.Decorates]

/-! ## Attributes -/

@[spec]
theorem searchStep_keeps {marker : String} {s : MarkerSearch} :
    Weave.Keeps I H (searchStep marker s) := by
  mvcgen [searchStep]
  all_goals grind

@[spec]
theorem searchUpTo_keeps {marker : String} {n : Nat} {s : MarkerSearch} :
    Weave.Keeps I H (searchUpTo marker n s) := by
  induction n generalizing s with
  | zero => mvcgen [searchUpTo]
  | succ n ih => mvcgen [searchUpTo, ih]

attribute [spec] carriesMarker

@[spec]
theorem markedVariable_drafts {fm : FieldModifier} {m : Modifier}
    (hfm : Catalog.severity fm.code = .error) :
    Drafts B H c (markedVariable fm m) := by
  mvcgen [markedVariable]
  all_goals grind

/-- The modifiers that mark variables are refused with errors. -/
theorem severity_fieldModifiers {fm : FieldModifier} (h : fm ∈ fieldModifiers) :
    Catalog.severity fm.code = .error := by
  revert fm
  decide

@[spec]
theorem markVariables_drafts : Drafts B H c markVariables := by
  mvcgen [markVariables]
  all_goals grind [severity_fieldModifiers]

@[spec]
theorem markNative_drafts : Drafts B H c markNative := by
  mvcgen [markNative]
  all_goals grind [Fresh, IsNew, MethodDef.Decorates, TypeHead.Fills,
    TypeHead.Distinguishes, TypeHead.fieldNames]

@[spec]
theorem part_keeps {needed : Bool} {act : Planning Unit}
    (h : Keeps I B H c act) : Keeps I B H c (part needed act) := by
  mvcgen [part, h]

/-- What is made of a plan once it has the lambda. -/
def complete (c : Chain) : Planning Unit := do
  markVariables
  part c.capturesLocals closureCopies
  part (c.kind == .entities) declareProviders
  part (c.mode == .run) deallocation
  if c.runsStructural then structuralEntryPoint else entryPoint
  preparation
  part (c.mode == .run && !c.runsStructural) directEntryPoint
  markNative

/-- A plan gets its parameters and its query, then the lambda, then the rest. -/
theorem build_eq : build = (do
    let u ← get
    part (u.chain.kind == .entities) classifyParams
    part (u.chain.kind != .job) buildQuery
    if u.chain.lambdaOnSystem && !u.servesSystem then relay else clone
    complete u.chain) :=
  rfl

@[spec]
theorem complete_drafts (hB : B.direct) : Drafts B H c (complete c) := by
  mvcgen [complete]
  all_goals grind

@[spec]
theorem build_drafts (hB : B.copies = none) (hd : B.direct) :
    Drafts B H c build := by
  rw [build_eq]
  mvcgen
  all_goals grind [Fresh]

end Planning

/-! ## Whole plans -/

/-- The type is the struct of a chain's job. -/
structure Workspace.Hosts (w : Workspace) (c : Chain) (t : TypeId) : Prop where
  /-- the struct is there -/
  lt : t.index < w.types.size
  /-- it has the chain's name -/
  name : (w.type t).head.name = c.className
  /-- it has no namespace -/
  ns : (w.type t).head.ns = ""
  /-- it is stored in place -/
  isValueType : (w.type t).head.isValueType
  /-- the system is to declare it -/
  outer : (w.type t).outer = some c.system

/-- A struct stays the struct of its job. -/
theorem Workspace.Hosts.grow {w w' : Workspace} {t : TypeId} (h : w.Hosts c t)
    (hlt : t.index < w'.types.size) (hg : (w.type t).Grows (w'.type t)) :
    w'.Hosts c t where
  lt := hlt
  name := hg.name.trans h.name
  ns := hg.ns.trans h.ns
  isValueType := hg.isValueType h.isValueType
  outer := hg.outer.trans h.outer

variable {V : Workspace}

/-- The old definitions are as they were in `V`, and the plan is for the chain:
its struct is not in `V`, and its code for the creation hook starts no chain. -/
structure Plan.IsFor (V : Workspace) (c : Chain) (u : Plan) (w : Workspace) :
    Prop where
  /-- the old definitions -/
  extend : V.Extends w
  /-- the chain -/
  chain : u.chain = c
  /-- the struct is new -/
  types_le : V.types.size ≤ u.type.index
  /-- the struct is the job's -/
  hosts : w.Hosts c u.type
  /-- the code for the hook -/
  init : Step.AllOrdinary u.init
  /-- that code has no place yet -/
  initLabels : u.initLabels = none

@[grind →]
theorem Plan.IsFor.holding {u : Plan} {w : World}
    (h : Holding (u.IsFor V c) H w) : Holding V.Extends H w :=
  h.imp Plan.IsFor.extend

/-- An added struct without a place is put where a job's struct belongs. -/
theorem Workspace.hosts_newType {w : Workspace} {h : TypeHead}
    {home : Option ModuleId} (hn : h.name = c.className) (hns : h.ns = "")
    (hv : h.isValueType) :
    ((w.newType h).1.updateType (w.newType h).2 fun e =>
      { e with outer := some c.system, home }).Hosts c (w.newType h).2 := by
  have hlt : (w.newType h).2.index < (w.newType h).1.types.size := by
    simp [newType]
  have hread : (w.newType h).1.type (w.newType h).2 = { head := h } := by
    simp [newType, Workspace.type]
  constructor
  · simpa using hlt
  all_goals
    rw [type_updateType_self _ hlt, hread]
    try assumption

/-- A plan with an added struct is for its chain. -/
theorem Plan.isFor_start {w : World} {h : TypeHead} {home : Option ModuleId}
    {asStruct serves : Bool} (hw : Holding V.Extends H w)
    (hn : h.name = c.className) (hns : h.ns = "") (hv : h.isValueType) :
    Holding
      (Plan.IsFor V c
        { chain := c, type := (w.workspace.newType h).2,
          closureAsStruct := asStruct, servesSystem := serves }) H
      { w with
        workspace := (w.workspace.newType h).1.updateType
          (w.workspace.newType h).2 fun e =>
            { e with outer := some c.system, home } } := by
  refine ⟨⟨?_, rfl, hw.workspace.types_le, ?_, by simp, rfl⟩, hw.hooks,
    hw.ordinary⟩
  · exact (hw.workspace.newType _).updateType_new _ hw.workspace.types_le
  · exact Workspace.hosts_newType hn hns hv

/-- A plan starts with an empty struct. -/
@[spec]
theorem Weave.startPlan_spec {asStruct serves : Bool} :
    ⦃fun w => ⌜Holding V.Extends H w⌝⦄ startPlan c asStruct serves
      ⦃post⟨fun u w => ⌜Holding (u.IsFor V c) H w ∧ u.runDirectly = none⌝,
        fun e w => ⌜Holding V.Extends H w ∧ e.IsSerious⌝⟩⦄ := by
  mvcgen [startPlan, addToWorkspace, modifyWorkspace]
  all_goals exact Plan.isFor_start (by assumption) rfl rfl rfl

/-- The ground that a plan is built on: what was there in `V` is older. -/
def Plan.IsFor.ground {u : Plan} {w : Workspace} (h : u.IsFor V c w) :
    Ground where
  base := w
  types := V.types.size
  methods := V.methods.size
  types_le := h.extend.types_le
  methods_le := h.extend.methods_le
  job := u.type
  types_le_job := h.types_le
  job_lt := h.hosts.lt

/-- Building a plan takes steps of planning on its ground. -/
theorem Planning.build_reaches {u₀ : Plan} {W : Workspace}
    (hu₀ : u₀.IsFor V c W) (hrun : u₀.runDirectly = none) :
    ⦃fun w => ⌜Holding (· = W) H w⌝⦄ (build u₀ : Weave (Unit × Plan))
      ⦃post⟨fun r w => ⌜Drafting hu₀.ground.Reaches hu₀.ground H c r.2 w⌝,
        fun e w => ⌜Holding hu₀.ground.Reaches H w ∧ e.IsSerious⌝⟩⦄ := by
  have hbuild : Drafts hu₀.ground H c build := build_drafts rfl rfl
  intro w₀ ⟨hw₀, hhooks, hordinary⟩
  subst hw₀
  refine hbuild u₀ w₀ ⟨⟨.refl, hhooks, hordinary⟩, ?_⟩
  exact ⟨hu₀.chain, rfl,
    by simp [hrun], hu₀.init, hu₀.initLabels, by simp [Plan.IsFor.ground]⟩

/-- A plan that was built on its ground is still for its chain. -/
theorem Plan.IsFor.of_drafting {u₀ u : Plan} {W : Workspace} {w : World}
    (hu₀ : u₀.IsFor V c W)
    (h : Drafting hu₀.ground.Reaches hu₀.ground H c u w) :
    u.IsFor V c w.workspace := by
  have htype : u.type = u₀.type := h.fresh.type
  have hreaches := h.holding.workspace
  obtain ⟨hlt, hgrows⟩ := hreaches.grows hu₀.hosts.lt
  refine ⟨hreaches.frame (Nat.le_refl _) (Nat.le_refl _) hu₀.extend,
    h.fresh.chain, ?_, ?_, h.fresh.init, h.fresh.initLabels⟩
  · exact htype ▸ hu₀.types_le
  · exact htype ▸ hu₀.hosts.grow hlt hgrows

/-- Building a plan leaves every old definition as it was, and the plan's struct
the struct of its job. -/
@[spec]
theorem Planning.build_spec {u₀ : Plan} :
    ⦃fun w => ⌜Holding (u₀.IsFor V c) H w ∧ u₀.runDirectly = none⌝⦄
      (build u₀ : Weave (Unit × Plan))
      ⦃post⟨fun r w => ⌜Holding (r.2.IsFor V c) H w⌝,
        fun e w => ⌜Holding V.Extends H w ∧ e.IsSerious⌝⟩⦄ := by
  refine Ends.triple fun w₀ hw₀ => ?_
  obtain ⟨hw₀, hrun⟩ := hw₀
  have hu₀ := hw₀.workspace
  refine (Ends.of_triple (build_reaches hu₀ hrun) (hw₀.imp fun _ => rfl)).imp
    (fun r w h => h.holding.imp fun _ => hu₀.of_drafting h) fun e w h => ?_
  obtain ⟨h, he⟩ := h
  exact ⟨h.imp fun hr => hr.frame (Nat.le_refl _) (Nat.le_refl _) hu₀.extend,
    he⟩

namespace Weave

attribute [spec] hasNested

@[spec]
theorem requireSince_keeps {start : Nat} :
    Keeps I H (requireSince start c) := by
  mvcgen [requireSince]
  all_goals grind

/-- Synthesis gives a plan for the chain and leaves every old definition as it
was. -/
@[spec]
theorem synthesize_spec {asStruct : Bool} :
    ⦃fun w => ⌜Holding V.Extends H w⌝⦄ synthesize c asStruct
      ⦃post⟨fun u w => ⌜Holding (u.IsFor V c) H w⌝,
        fun e w => ⌜Holding V.Extends H w ∧ e.IsSerious⌝⟩⦄ := by
  have hrequire : ∀ (u : Plan) (start : Nat),
      ⦃fun w => ⌜Holding (u.IsFor V c) H w⌝⦄ requireSince start c
        ⦃post⟨fun _ w => ⌜Holding (u.IsFor V c) H w⌝,
          fun e w => ⌜Holding V.Extends H w ∧ e.IsSerious⌝⟩⦄ := by
    intro u start
    have hkeeps : Keeps (u.IsFor V c) H (requireSince start c) :=
      requireSince_keeps
    mvcgen [hkeeps, -requireSince_keeps]
    all_goals grind
  mvcgen [synthesize, hrequire, -requireSince_keeps]

end Weave

end JobWeave
