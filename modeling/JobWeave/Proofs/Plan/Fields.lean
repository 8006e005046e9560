import Mathlib
import JobWeave.Proofs.Plan.Synthesis
import JobWeave.Proofs.Workspace.Loading
import JobWeave.Sample.Tick
import JobWeave.Workspace.World

/-!
# The fields of a job

What the code of a job refers to is told apart by name: no type nested in the
system has the name of the job's struct, and no two fields of the struct have
one name, whatever captured variables, parameters and fixed parts they are for.

* `Ground.Reaches.nodup_fieldNames`: every step of planning keeps the names of
  the job's fields apart, so every run of steps does.
* `Weave.synthesize_distinguishes`: so does the whole synthesis.
-/

namespace JobWeave

open Framework Std.Do

set_option mvcgen.warning false

variable {V w w' : Workspace} {H : List (TypeId × MethodId)} {c : Chain}

/-! ## Steps -/

/-- A step of planning keeps the names of the job's fields apart. -/
theorem Workspace.DraftStep.nodup_fieldNames {job : TypeId} {nt nm : Nat}
    (h : DraftStep job nt nm w w') (hlt : job.index < w.types.size)
    (hw : (w.type job).head.fieldNames.Nodup) :
    (w'.type job).head.fieldNames.Nodup := by
  have hsame : Frame (fun e e' : TypeEntry => e'.head = e.head) Set.univ w w :=
    .refl (by simp) _ _
  cases h with
  | setBody m b hn => exact hw
  | decorate m f hn hf => exact hw
  | addMethod t d hn =>
    rwa [(hsame.addMethod t d fun _ _ he => he).type job hlt]
  | addCopy t m d hn =>
    rwa [(hsame.addCopy t m d fun _ _ he => he).type job hlt]
  | updateHead t f hn hf hnames =>
    rw [Workspace.updateHead, type_updateType]
    split
    · rename_i he
      rw [he.1] at hw ⊢
      exact hnames he.1.symm hw
    · exact hw
  | addNested t h hn ht hb =>
    rwa [(hsame.addNested_leaf t h fun _ _ _ he => he).type job hlt]

/-- Planning keeps the names of the job's fields apart. -/
theorem Ground.Reaches.nodup_fieldNames {B : Ground} (h : B.Reaches w)
    (hB : (B.base.type B.job).head.fieldNames.Nodup) :
    (w.type B.job).head.fieldNames.Nodup := by
  induction h with
  | refl => exact hB
  | tail hw hs ih => exact hs.nodup_fieldNames (Ground.Reaches.job_lt hw) ih

/-! ## Plans -/

/-- The plan is for the chain, no type nested in the system has the name of its
struct, and no two fields of the struct have one name. -/
structure Plan.Distinguishes (V : Workspace) (c : Chain) (u : Plan)
    (w : Workspace) : Prop where
  /-- the plan is for the chain -/
  isFor : u.IsFor V c w
  /-- the types that are nested in the system -/
  name : ∀ n ∈ (V.type c.system).nested, (V.type n).head.name ≠ c.className
  /-- the fields -/
  fields : (w.type u.type).head.fieldNames.Nodup

namespace Weave

/-- A plan starts with a struct without fields. -/
theorem startPlan_noFields (asStruct serves : Bool) :
    ⦃fun w => ⌜Holding V.Extends H w⌝⦄ startPlan c asStruct serves
      ⦃post⟨fun u w => ⌜(w.workspace.type u.type).head.fields = []⌝,
        fun _ _ => ⌜True⌝⟩⦄ := by
  have hread : ∀ (w : Workspace) (h : TypeHead) (home : Option ModuleId),
    h.fields = [] →
      (((w.newType h).1.updateType (w.newType h).2 fun e =>
        { e with outer := some c.system, home }).type
            (w.newType h).2).head.fields = [] := by
    intro w h home hfields
    rw [Workspace.type_updateType_self _ (by simp [Workspace.newType])]
    simpa [Workspace.newType, Workspace.type] using hfields
  mvcgen [startPlan, addToWorkspace, modifyWorkspace, -startPlan_spec]
  all_goals exact hread _ _ _ rfl

/-- Building a plan keeps the names of the struct's fields apart. -/
theorem build_distinguishes {u : Plan}
    (hname : ∀ n ∈ (V.type c.system).nested, (V.type n).head.name ≠
      c.className) :
    ⦃fun w => ⌜(Holding (u.IsFor V c) H w ∧ u.runDirectly = none) ∧
        (w.workspace.type u.type).head.fields = []⌝⦄
      (Planning.build u : Weave (Unit × Plan))
      ⦃post⟨fun r w => ⌜Holding (r.2.Distinguishes V c) H w⌝,
        fun _ _ => ⌜True⌝⟩⦄ := by
  refine Ends.triple fun w₀ ⟨⟨hw₀, hrun⟩, hfields⟩ => ?_
  have hu := hw₀.workspace
  have hstart : (w₀.workspace.type u.type).head.fieldNames.Nodup := by
    rw [TypeHead.fieldNames, hfields]
    exact List.nodup_nil
  refine (Ends.of_triple (Planning.build_reaches hu hrun)
    (hw₀.imp fun _ => rfl)).imp (fun r w h => ?_) fun _ _ _ => trivial
  refine h.holding.imp fun hreaches => ⟨hu.of_drafting h, hname, ?_⟩
  rw [h.fresh.type]
  exact hreaches.nodup_fieldNames hstart

/-- A plan that synthesis gives has a struct that is told apart. -/
theorem synthesize_fields (c : Chain) (asStruct : Bool) :
    ⦃fun w => ⌜Holding (· = V) H w⌝⦄ synthesize c asStruct
      ⦃post⟨fun u w => ⌜Holding (u.Distinguishes V c) H w⌝,
        fun _ _ => ⌜True⌝⟩⦄ := by
  have hcheck : Keeps (· = V) H (checkLambdaOnSystem c) :=
    checkLambdaOnSystem_keeps
  have hstart := fun serves : Bool => triple_and
    (startPlan_spec (V := V) (H := H) (c := c))
    (startPlan_noFields (V := V) (H := H) (c := c) asStruct serves)
  have hrefl : ∀ {w : World}, Holding (· = V) H w → Holding V.Extends H w :=
    fun hw => hw.imp fun he => he ▸ .refl (fun _ => rfl) _ _
  have hbuild := fun u : Plan => build_distinguishes (V := V) (H := H) (c := c)
    (u := u)
  have hrequire : ∀ (u : Plan) (start : Nat),
      ⦃fun w => ⌜Holding (u.Distinguishes V c) H w⌝⦄ requireSince start c
        ⦃post⟨fun _ w => ⌜Holding (u.Distinguishes V c) H w⌝,
          fun _ _ => ⌜True⌝⟩⦄ := by
    intro u start
    have hkeeps : Keeps (u.Distinguishes V c) H (requireSince start c) :=
      requireSince_keeps
    mvcgen [hkeeps, -requireSince_keeps]
    exact id
  mvcgen [synthesize, hcheck, hstart, hbuild, hrequire, -synthesize_spec,
    -startPlan_spec, -Planning.build_spec, -checkLambdaOnSystem_keeps,
    -requireSince_keeps]
  case vc12.hname hw _ hname _ _ _ _ _ _ =>
    rw [hw.workspace] at hname
    simpa using hname
  all_goals grind

/-- What is made for a job can be told apart by name: no type that is nested in
the system has the name of the job's struct, and no two fields of the struct
have one name. -/
theorem synthesize_distinguishes {w w' : World} {asStruct : Bool} {u : Plan}
    (hw : ∀ p ∈ w.imports.methods, p.2.name ∉ sourceNames)
    (hrun : synthesize c asStruct w = .ok u w') :
    (∀ n ∈ (w.workspace.type c.system).nested,
      (w.workspace.type n).head.name ≠ (w'.workspace.type u.type).head.name) ∧
    (w'.workspace.type u.type).head.fieldNames.Nodup := by
  have hends := triple_iff.1 (synthesize_fields c asStruct) w ⟨rfl, rfl, hw⟩
  rw [hrun] at hends
  have hu := hends.workspace
  rw [hu.isFor.hosts.name]
  exact ⟨hu.name, hu.fields⟩

/-- The job of a module with one chain, whose lambda reads a captured
variable. -/
theorem tick_distinguishes :
    let w := (World.ofModules [Sample.captureModule Sample.scheduleSteps
      Sample.readSteps, Sample.tickFramework]).1
    (∀ p ∈ w.imports.methods, p.2.name ∉ sourceNames) ∧
    ∃ c u w', synthesize c false w = .ok u w' ∧
      (w'.workspace.type u.type).head.fieldNames = ["acc"] ∧
      (∀ n ∈ (w.workspace.type c.system).nested,
        (w.workspace.type n).head.name ≠ (w'.workspace.type u.type).head.name) ∧
      (w'.workspace.type u.type).head.fieldNames.Nodup := by
  rw [Sample.tickFramework_eq]
  intro w
  have hrun : delivers (chainsIn ⟨0⟩) w (fun found _ =>
      (found.filterMap Except.toOption).any
        fun c => delivers (synthesize c false) w fun u w' =>
          (w'.workspace.type u.type).head.fieldNames == ["acc"]) = true := by
    decide +kernel
  have hw : ∀ p ∈ w.imports.methods, p.2.name ∉ sourceNames := by decide +kernel
  obtain ⟨found, -, -, hrun⟩ := exists_of_delivers hrun
  obtain ⟨c, -, hrun⟩ := List.any_eq_true.1 hrun
  obtain ⟨u, w', hsynthesize, hfields⟩ := exists_of_delivers hrun
  exact ⟨hw, c, u, w', hsynthesize, beq_iff_eq.1 hfields,
    synthesize_distinguishes hw hsynthesize⟩

end Weave

end JobWeave
