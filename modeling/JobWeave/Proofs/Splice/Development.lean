import Mathlib
import JobWeave.Proofs.Splice.Editing
import JobWeave.Proofs.Splice.Hook
import JobWeave.Proofs.Weave.Runs
import JobWeave.Proofs.Workspace.Development

/-!
# Plans, closures and commits among the definitions

Each step of the pass makes of the definitions only what `Workspace.Develops`
allows.

* Planning adds structs to its job: `Workspace.DraftStep.develops`, and from it
  the whole synthesis (`Weave.synthesize_develops`).
* Converting closures changes the bases of closures
  (`Weave.convertClosures_carries`).
* Committing a plan puts an added struct into a system (`Weave.commit_carries`).
-/

namespace JobWeave

open Framework Std.Do

set_option mvcgen.warning false

variable {U V W w : Workspace} {H : List (TypeId × MethodId)} {m : MethodId}
  {t : TypeId}
variable {b : Body} {c : Chain} {u : Plan} {us vs : List Plan} {α : Type}

/-! ## Plans -/

/-- The plan's struct was added, and its name is that of a job. -/
structure Plan.IsAdded (u : Plan) (V w : Workspace) : Prop where
  /-- it is new -/
  le : V.types.size ≤ u.type.index
  /-- it is there -/
  lt : u.type.index < w.types.size
  /-- its name -/
  name : hasJobPrefix (w.type u.type).head.name

/-- A plan for a chain has a struct with the chain's name. -/
theorem Plan.IsFor.isAdded (h : u.IsFor V c w) : u.IsAdded V w := by
  refine ⟨h.types_le, h.hosts.lt, ?_⟩
  rw [h.hosts.name]
  exact hasJobPrefix_append_left _ (by decide)

theorem Plan.IsAdded.develop {w' : Workspace} (h : u.IsAdded V w)
    (hw : w.Develops w') :
    u.IsAdded V w' :=
  ⟨h.le, h.lt.trans_le hw.types_le, (hw.old _ h.lt).name ▸ h.name⟩

theorem Plan.IsAdded.of_develops (h : u.IsAdded V w) (hV : U.Develops V) :
    u.IsAdded U w :=
  ⟨hV.types_le.trans h.le, h.lt, h.name⟩

namespace Workspace

/-- The definitions have developed, and the plans' structs were added. -/
def Carries (V : Workspace) (us : List Plan) (w : Workspace) : Prop :=
  V.Develops w ∧ ∀ u ∈ us, u.IsAdded V w

@[grind →]
theorem Carries.holding {w : World} (h : Holding (V.Carries us) H w) :
    Holding V.Develops H w :=
  h.imp And.left

theorem Carries.refl (V : Workspace) : V.Carries [] V :=
  ⟨.refl V, by simp⟩

theorem Carries.of_subset (h : V.Carries us w) (hvs : vs ⊆ us) :
    V.Carries vs w :=
  ⟨h.1, fun u hu => h.2 u (hvs hu)⟩

/-- The plans' structs stay. -/
theorem Carries.develop (h : V.Carries us W) (hw : W.Develops w) :
    V.Carries us w :=
  ⟨h.1.trans hw, fun u hu => (h.2 u hu).develop hw⟩

/-- The structs of more plans. -/
theorem Carries.append (h : V.Carries us W) (hw : W.Carries vs w) :
    V.Carries (us ++ vs) w := by
  refine ⟨h.1.trans hw.1, fun u hu => ?_⟩
  rcases List.mem_append.1 hu with hu | hu
  · exact (h.2 u hu).develop hw.1
  · exact (hw.2 u hu).of_develops h.1

theorem Carries.of_alike {w' : Workspace} (h : V.Carries us w)
    (ha : w.Alike w') :
    V.Carries us w' := by
  refine ⟨h.1.of_alike ha, fun u hu => ⟨(h.2 u hu).le, ?_, ?_⟩⟩
  · exact ha.types_eq ▸ (h.2 u hu).lt
  · exact (ha.type u.type).name ▸ (h.2 u hu).name

theorem ignoresCode_carries (V : Workspace) (us : List Plan) :
    IgnoresCode (V.Carries us) :=
  fun w m _ h => h.of_alike (alike_updateMethod w m fun _ => rfl)

theorem Carries.attachNested (h : V.Carries us w) (outer : TypeId)
    (hu : u ∈ us) :
    V.Carries us (w.attachNested outer u.type) := by
  have hadded := h.2 u hu
  refine ⟨h.1.attachNested hadded.le hadded.lt hadded.name,
    fun v hv => ⟨(h.2 v hv).le, ?_, ?_⟩⟩
  · exact (size_types_attachNested w outer u.type).symm ▸ (h.2 v hv).lt
  · exact (name_attachNested w outer u.type v.type).symm ▸ (h.2 v hv).name

theorem ignoresCode_develops (V : Workspace) : IgnoresCode V.Develops :=
  fun w m _ h => h.of_alike (alike_updateMethod w m fun _ => rfl)

end Workspace

namespace Weave

/-- Work that develops whatever it starts from goes on with a development, and
the structs of plans stay. -/
theorem keeps_carries {act : Weave α}
    (h : ∀ W, ⦃fun w => ⌜Holding (· = W) H w⌝⦄ act
      ⦃post⟨fun _ w => ⌜Holding W.Develops H w⌝,
        fun e w => ⌜Holding W.Develops H w ∧ e.IsSerious⌝⟩⦄) :
    Keeps (V.Carries us) H act := by
  refine triple_iff.2 fun w hw => ?_
  have hrun := triple_iff.1 (h w.workspace) w (hw.imp fun _ => rfl)
  cases hact : act w with
  | ok a w' =>
    rw [hact] at hrun
    exact hrun.imp hw.workspace.develop
  | error e w' =>
    rw [hact] at hrun
    exact ⟨hrun.1.imp hw.workspace.develop, hrun.2⟩

end Weave

/-! ## Planning -/

/-- Planning adds structs to its job. -/
theorem Workspace.DraftStep.develops {job : TypeId} {nt nm : Nat}
    {w' : Workspace} (h : DraftStep job nt nm w w') (ht : V.types.size ≤ nt)
    (hw : V.Develops w) :
    V.Develops w' := by
  cases h with
  | setBody m b hn => exact V.ignoresCode_develops w m b hw
  | decorate m f hn hf =>
    exact hw.of_alike (alike_updateMethod w m fun d => (hf d).1)
  | addMethod t d hn => exact hw.of_alike (alike_addMethod w t d)
  | addCopy t m d hn => exact hw.of_alike (alike_addCopy w t m d)
  | updateHead t f hn hf =>
    refine hw.of_alike (alike_updateType w t fun e => ?_)
    rw [hf]
    exact ⟨rfl, rfl, rfl, rfl, rfl, rfl, List.Subset.refl _⟩
  | addNested t d hn hlt hb => exact hw.addNested_leaf (ht.trans hn) hlt hb

theorem Ground.Reaches.develops {B : Ground} (h : B.Reaches w)
    (ht : V.types.size ≤ B.types) (hV : V.Develops B.base) : V.Develops w := by
  induction h with
  | refl => exact hV
  | tail _ hs ih => exact hs.develops ht ih

namespace Weave

/-- A plan starts with an added struct. -/
theorem startPlan_develops (asStruct serves : Bool) :
    ⦃fun w => ⌜Holding V.Develops H w⌝⦄ startPlan c asStruct serves
      ⦃post⟨fun _ w => ⌜Holding V.Develops H w⌝,
        fun e w => ⌜Holding V.Develops H w ∧ e.IsSerious⌝⟩⦄ := by
  have hadd : ∀ {w : World} {h : TypeHead} {home : Option ModuleId},
      Holding V.Develops H w → h.base = .valueType → h.ns = "" →
      h.name = c.className → Holding V.Develops H { w with
        workspace := (w.workspace.newType h).1.updateType
            (w.workspace.newType h).2 fun e =>
          { e with outer := some c.system, home } } := by
    intro w h home hw hb hns hn
    refine ⟨?_, hw.hooks, hw.ordinary⟩
    rw [Workspace.updateType_newType]
    refine hw.workspace.push ⟨hb, hns, .inl ?_, by simp⟩ rfl
    simp only [hn]
    exact hasJobPrefix_append_left _ (by decide)
  mvcgen [startPlan, addToWorkspace, modifyWorkspace, -startPlan_spec]
  all_goals exact hadd (by assumption) rfl rfl rfl

/-- Building a plan adds to its struct. -/
theorem build_develops (u₀ : Plan) :
    ⦃fun w => ⌜Holding (fun w => u₀.IsFor V c w ∧ V.Develops w) H w ∧
        u₀.runDirectly = none⌝⦄ (Planning.build u₀ : Weave (Unit × Plan))
      ⦃post⟨fun _ w => ⌜Holding V.Develops H w⌝,
        fun e w => ⌜Holding V.Develops H w ∧ e.IsSerious⌝⟩⦄ := by
  refine Ends.triple fun w₀ ⟨hw₀, hrun⟩ => ?_
  obtain ⟨hu₀, hV⟩ := hw₀.workspace
  have hdevelops : ∀ {w : World}, Holding hu₀.ground.Reaches H w →
      Holding V.Develops H w :=
    fun hw => hw.imp fun hr => hr.develops (Nat.le_refl _) hV
  exact (Ends.of_triple (Planning.build_reaches hu₀ hrun)
    (hw₀.imp fun _ => rfl)).imp (fun _ _ h => hdevelops h.holding)
      fun _ _ h => ⟨hdevelops h.1, h.2⟩

/-- Synthesis adds a struct for the plan. -/
theorem synthesize_develops (asStruct : Bool) (W : Workspace) :
    ⦃fun w => ⌜Holding (· = W) H w⌝⦄ synthesize c asStruct
      ⦃post⟨fun u w => ⌜Holding (W.Carries [u]) H w⌝,
        fun e w => ⌜Holding W.Develops H w ∧ e.IsSerious⌝⟩⦄ := by
  have hstart := fun serves : Bool => triple_and
    (startPlan_spec (V := W) (H := H) (c := c))
    (startPlan_develops (V := W) (H := H) (c := c) asStruct serves)
  have hbuild := fun u₀ : Plan => build_develops (V := W) (H := H) (c := c) u₀
  have hdevelops : ⦃fun w => ⌜Holding (· = W) H w⌝⦄ synthesize c asStruct
      ⦃post⟨fun _ w => ⌜Holding W.Develops H w⌝,
        fun e w => ⌜Holding W.Develops H w ∧ e.IsSerious⌝⟩⦄ := by
    have hrefl : ∀ {w : World}, Holding (· = W) H w →
        Holding W.Extends H w ∧ Holding W.Develops H w := fun hw =>
      ⟨hw.imp fun he => he ▸ .refl (fun _ => rfl) _ _, hw.imp fun he => he ▸
        .refl W⟩
    have hboth : ∀ {u : Plan} {w : World}, Holding (u.IsFor W c) H w →
      Holding W.Develops H w →
        Holding (fun w => u.IsFor W c w ∧ W.Develops w) H w := fun h h' =>
      h.imp fun hu => ⟨hu, h'.workspace⟩
    have hcheck : Keeps (· = W) H (checkLambdaOnSystem c) :=
      checkLambdaOnSystem_keeps
    mvcgen [synthesize, hcheck, hstart, hbuild, -synthesize_spec,
      -checkLambdaOnSystem_keeps, -startPlan_spec, -Planning.build_spec]
    all_goals grind
  have hand := triple_and (synthesize_spec (V := W) (H := H) (c := c)) hdevelops
  refine triple_iff.2 fun w hw => ?_
  have hrun := triple_iff.1 hand w ⟨hw.imp fun he => he ▸ .refl
    (fun _ => rfl) _ _, hw⟩
  cases hact : synthesize c asStruct w with
  | ok u w' =>
    rw [hact] at hrun
    exact hrun.2.imp fun hdev => ⟨hdev, by simpa using hrun.1.workspace.isAdded⟩
  | error e w' =>
    rw [hact] at hrun
    exact hrun.2

end Weave

/-! ## Closures -/

/-- The definitions with a closure made a value type. -/
def Workspace.toValueType (w : Workspace) (t : TypeId) : Workspace :=
  let w := w.updateHead t fun h =>
    { h with base := .valueType,
             flags := h.flags ||| TypeFlag.sequentialLayout }
  w.updateType t fun e =>
    { e with methods := e.methods.filter fun id =>
        let d := w.method id
        !(d.isConstructor && !d.isStatic && d.params.isEmpty) }

/-- A closure, or a struct that was added, becomes a value type. -/
theorem Workspace.Develops.toValueType (hw : V.Develops w)
    (ht : t.index < V.types.size → (V.type t).head.isClosure) :
    V.Develops (w.toValueType t) := by
  have hhead : V.Develops (w.updateHead t fun h =>
      { h with base := .valueType,
               flags := h.flags ||| TypeFlag.sequentialLayout }) := by
    refine hw.updateType t _ (fun hlt => ?_) (fun hle hlt => ?_) (hw.inner t)
      (hw.hooked t)
    · have hages := hw.old t hlt
      exact ⟨hages.name, hages.ns, hages.outer, .inr ⟨ht hlt, rfl⟩,
        hages.nested⟩
    · have hmade := hw.made t hle hlt
      exact ⟨rfl, hmade.ns, hmade.named, hmade.nested⟩
  refine hhead.updateType t _ (fun hlt => ?_) (fun hle hlt => ?_)
    (hhead.inner t) fun hhook => ?_
  · have hages := hhead.old t hlt
    exact ⟨hages.name, hages.ns, hages.outer, hages.base, hages.nested⟩
  · have hmade := hhead.made t hle hlt
    exact ⟨hmade.base, hmade.ns, hmade.named, hmade.nested⟩
  · -- a constructor is no creation hook
    obtain ⟨m, hm, hname⟩ := hhead.hooked t hhook
    refine ⟨m, List.mem_filter.2 ⟨hm, ?_⟩, hname⟩
    have hctor : ((w.updateHead t fun h => { h with
        base := .valueType, flags :=
          h.flags ||| TypeFlag.sequentialLayout }).method
          m).isConstructor = false := by
      rw [MethodDef.isConstructor, hname]
      decide
    simp [hctor]

namespace Weave

/-- What is found is a closure by its name. -/
theorem closureClass?_gives {r : TypeRef} :
    Gives (· = V) H (fun o => ∀ t, o = some t → (V.type t).head.isClosure)
      (closureClass? r) := by
  mvcgen [closureClass?, -closureClass?_keeps]
  all_goals grind [TypeHead.isClosure, Holding]

/-- What is allocated is a closure. -/
theorem allocationAt_gives {i : Instr} :
    Gives (· = V) H (fun o => ∀ s, o = some s →
      (V.type s.closure).head.isClosure) (allocationAt m b i) := by
  have hclosure := fun r => closureClass?_gives (V := V) (H := H) (r := r)
  mvcgen [allocationAt, hclosure, -allocationAt_keeps, -closureClass?_keeps]
  all_goals grind

theorem allocationSites_gives :
    Gives (· = V) H (fun ss => ∀ s ∈ ss, (V.type s.closure).head.isClosure)
      (allocationSites m b) := by
  have hsites : Gives (· = V) H
      (List.Forall₂ (fun _ o => ∀ s, o = some s →
        (V.type s.closure).head.isClosure) b.code)
      (b.code.mapM (allocationAt m b)) :=
    mapM_gives fun _ _ => allocationAt_gives
  mvcgen [allocationSites, hsites, -allocationSites_keeps, -allocationAt_keeps,
    -mapM_keeps]
  rename_i r w hr
  refine ⟨hr.1, fun s hs => ?_⟩
  obtain ⟨o, ho, rfl⟩ := List.mem_filterMap.1 hs
  obtain ⟨k, hk, hsite⟩ := List.mem_iff_getElem.1 ho
  exact hr.2.get (hr.2.length_eq ▸ hk) hk s hsite

/-- A closure becomes a value type. -/
theorem makeValueType_develops (ht : (V.type t).head.isClosure) :
    Keeps V.Develops H (makeValueType t) :=
  Planning.modifyWorkspace_inv fun _ hw => hw.toValueType fun _ => ht

theorem convertSites_develops {sites : List AllocationSite}
    (hs : ∀ s ∈ sites, (V.type s.closure).head.isClosure) :
    Keeps V.Develops H (convertSites m b sites) := by
  have hcode := V.ignoresCode_develops
  have hset := fun b => setBody_ignored (H := H) (m := m) (b := b) hcode
  have hmark := fun b names =>
    markReferences_ignored (H := H) (m := m) (b := b) names hcode
  have hmake : Keeps V.Develops H ((sites.map (·.closure)).eraseDups.forM
      makeValueType) := by
    refine forM_inv fun t ht => makeValueType_develops ?_
    rw [List.mem_eraseDups] at ht
    obtain ⟨s, hmem, rfl⟩ := List.mem_map.1 ht
    exact hs s hmem
  mvcgen [convertSites, hset, hmark, hmake, -convertSites_frame, -setBody_frame,
    -Planning.setBody_keeps, -markReferences_frame, -makeValueType_frame,
    -forM_keeps]
  all_goals grind

/-- Converting the closures of a method. -/
theorem convertClosures_carries :
    Keeps (V.Carries us) H (convertClosures m) := by
  refine keeps_carries fun W => ?_
  have hsites := fun b => allocationSites_gives (V := W) (H := H) (m := m)
    (b := b)
  have hconvert : ∀ b (sites : List AllocationSite),
      (∀ s ∈ sites, (W.type s.closure).head.isClosure) →
      ⦃fun w => ⌜Holding (· = W) H w⌝⦄ convertSites m b sites
        ⦃post⟨fun _ w => ⌜Holding W.Develops H w⌝,
          fun e w => ⌜Holding W.Develops H w ∧ e.IsSerious⌝⟩⦄ := by
    intro b sites hs
    have hkeeps := convertSites_develops (V := W) (H := H) (m := m) (b := b) hs
    exact triple_iff.2 fun w hw => triple_iff.1 hkeeps w (hw.imp fun he => he ▸
      .refl W)
  have hrefl : ∀ {w : World}, Holding (· = W) H w → Holding W.Develops H w :=
    fun hw => hw.imp fun he => he ▸ .refl W
  mvcgen [convertClosures, hsites, hconvert, -allocationSites_keeps,
    -convertSites_frame, -convertClosures_spec]
  all_goals grind

end Weave

/-! ## Commits -/

namespace Weave

/-- The system gets a hook if it has none. -/
theorem hookOf_carries {w : World} (h : Holding (V.Carries us) w.hooks w) :
    Ends (hookOf t) w (fun _ w' => Holding (V.Carries us) w'.hooks w')
      fun _ w' => Holding (V.Carries us) w'.hooks w' := by
  unfold hookOf
  refine Ends.bind (Ends.of_run rfl ?_)
  split
  · exact Ends.of_run rfl h
  · refine Ends.bind (Ends.of_run rfl ?_)
    cases hfind : (w.workspace.type t).methods.find? (fun n =>
        (w.workspace.method n).name == Member.onCreateForCompiler) with
    | some n => exact h
    | none =>
      refine Ends.bind (Ends.of_run rfl (Ends.bind (Ends.of_run rfl (Ends.bind
        (Ends.of_run rfl (Ends.of_run rfl ⟨?_, rfl, h.ordinary⟩))))))
      exact h.workspace.of_alike (Workspace.alike_addMethod _ t _)

/-- The plan's struct is put into its system. -/
theorem attachJob_carries (hu : u ∈ us) :
    Keeps (V.Carries us) H (attachJob u) := by
  refine Planning.modifyWorkspace_inv fun w h => ?_
  have hattached := h.attachNested u.chain.system hu
  split
  · exact hattached.of_alike (Workspace.alike_addField _ _ _)
  · exact hattached

/-- The hook gets other code. -/
theorem fillHook_carries {hook : MethodId} :
    Keeps (V.Carries us) H (fillHook hook u) := by
  have hset := fun b =>
    setBody_ignored (H := H) (m := hook) (b := b) (V.ignoresCode_carries us)
  have hinsert : ∀ b code,
      Keeps (V.Carries us) H (insertBeforeReturn b code) := by
    intro b code
    mvcgen [insertBeforeReturn, -insertBeforeReturn_gives]
    all_goals grind -ring -linarith
  mvcgen [fillHook, hset, hinsert, -setBody_frame, -Planning.setBody_keeps,
    -insertBeforeReturn_gives]
  all_goals grind -ring -linarith

/-- Committing a plan puts its struct into its system and changes the code of
the hook. -/
theorem commit_carries {w : World} (hu : u ∈ us)
    (h : Holding (V.Carries us) w.hooks w) :
    Ends (commit u) w (fun _ w' => Holding (V.Carries us) w'.hooks w')
      fun _ w' => Holding (V.Carries us) w'.hooks w' := by
  have hown : ∀ {H : List (TypeId × MethodId)} {w : World},
    Holding (V.Carries us) H w →
      Holding (V.Carries us) w.hooks w :=
    fun h => ⟨h.workspace, rfl, h.ordinary⟩
  unfold commit
  refine Ends.bind ((hookOf_carries h).imp (fun hook w₁ h₁ => ?_) fun _ _ => id)
  have hattach := Ends.of_triple (attachJob_carries (H := w₁.hooks) hu) h₁
  refine Ends.bind (hattach.imp (fun _ w₂ h₂ => ?_) fun _ _ h₂ => hown h₂.1)
  exact (Ends.of_triple (fillHook_carries (u := u)) h₂).imp (fun _ _ => hown)
    fun _ _ h₃ => hown h₃.1

end Weave

end JobWeave
