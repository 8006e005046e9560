import Mathlib
import JobWeave.Proofs.Pass.Systems
import JobWeave.Proofs.Splice.Development

/-!
# The definitions over a whole pass

The pass adds its structs and nothing else to the types, and it turns closures
into value types and nothing else.  This is kept by every step, also by one that
is undone, so the pass over a module keeps it (`Pass.processSystems_develops`).
Afterwards every system has its creation hook.

* `Weave.attemptChains_carries` is about one attempt at a method.
* `Pass.guardMethod_develops` is about a method with what is put back after a
  fault.
-/

namespace JobWeave

open Framework Std.Do

set_option mvcgen.warning false

variable {U V W w : Workspace} {H : List (TypeId × MethodId)} {m : MethodId}
  {t : TypeId}
variable {b : Body} {c : Chain} {u : Plan} {us vs : List Plan} {α : Type}

/-! ## An attempt -/

/-- The plans of an attempt that are to be committed. -/
def Attempt.plans : Attempt → List Plan
  | .done us _ _ => us
  | .retry _ => []

@[simp]
theorem Attempt.plans_carrying (fs : List Failure) (r : Attempt) :
    (r.carrying fs).plans = r.plans := by
  cases r <;> rfl

namespace Weave

/-- A chain gets a plan with an added struct, or a failure in its place. -/
theorem planOne_carries (asStruct taken : Bool) (W : Workspace) :
    ⦃fun w => ⌜Holding (· = W) H w⌝⦄
      tryFailure (do
        let u ← synthesize c asStruct
        if taken then refuse .dc0003 c.method c.source [.text c.name]
        return u)
      ⦃post⟨fun r w => ⌜match r with
          | .ok u => Holding (W.Carries [u]) H w
          | .error _ => Holding W.Develops H w⌝,
        fun e w => ⌜Holding W.Develops H w ∧ e.IsSerious⌝⟩⦄ := by
  have hact : ⦃fun w => ⌜Holding (· = W) H w⌝⦄ (do
      let u ← synthesize c asStruct
      if taken then refuse .dc0003 c.method c.source [.text c.name]
      return u : Weave Plan)
      ⦃post⟨fun u w => ⌜Holding (W.Carries [u]) H w⌝,
        fun e w => ⌜Holding W.Develops H w ∧ e.IsSerious⌝⟩⦄ := by
    have hsynthesize := synthesize_develops (H := H) (c := c) asStruct W
    mvcgen [hsynthesize, -synthesize_spec]
    all_goals grind
  have htry := tryFailure_spec hact
  mvcgen [htry]
  all_goals grind

/-- Planning the chains of a method adds a struct for each plan. -/
theorem planAll_carries (cs : List Chain) (asStruct : Bool) :
    ⦃fun w => ⌜Holding (V.Carries []) H w⌝⦄ planAll cs asStruct
      ⦃post⟨fun r w => ⌜Holding (V.Carries r.1) H w⌝,
        fun _ w => ⌜Holding V.Develops H w⌝⟩⦄ := by
  refine foldlM_run (P := fun _ (r : List Plan × List Failure) w =>
    Holding (V.Carries r.1) H w) ?_
  rintro before c after - ⟨us, fs⟩
  refine triple_iff.2 fun w hw => ?_
  have hone := planOne_carries (H := H) (c := c) asStruct
    (us.any fun p => p.chain.className == c.className) w.workspace
  refine (triple_iff (P := Holding (· = w.workspace) H)).1 ?_ w
    (hw.imp fun _ => rfl)
  mvcgen [hone]
  · rename_i hu
    exact hu.imp hw.workspace.append
  · rename_i hw'
    exact hw'.imp hw.workspace.develop
  · intro hw' _
    exact hw'.imp fun h => (hw.workspace.develop h).1

/-- Replacing chains changes code alone. -/
theorem spliceAll_ignored {I : Workspace → Prop} (us : List Plan)
    (hI : Workspace.IgnoresCode I) :
    Gives I H (fun r => r.1 ⊆ us) (spliceAll us) := by
  have hfold : ⦃fun w => ⌜Holding I H w ∧ ([] : List Plan) ⊆ []⌝⦄ spliceAll us
      ⦃post⟨fun r w => ⌜Holding I H w ∧ r.1 ⊆ us⌝,
        fun e w => ⌜Holding I H w ∧ e.IsSerious⌝⟩⦄ := by
    refine foldlM_run
        (P := fun before (r : List Plan × List Diagnostic × List Failure) w =>
      Holding I H w ∧ r.1 ⊆ before) ?_
    rintro before u after - ⟨done, warnings, fs⟩
    have hone := splice_ignored (H := H) (u := u) hI
    have hsub : done ⊆ before → done ++ [u] ⊆ before ++ [u] :=
      fun h => List.append_subset.2 ⟨List.subset_append_of_subset_left _ h,
        List.subset_append_right _ _⟩
    mvcgen [hone, -splice_spec]
    all_goals grind
  exact triple_iff.2 fun w hw => triple_iff.1 hfold w ⟨hw, by simp⟩

/-- Carrying plans out adds nothing; the plans that are left are some of
them. -/
theorem replacePlans_carries (s : Settings) (us : List Plan) (fs : List Failure)
    (asStruct : Bool) :
    ⦃fun w => ⌜Holding (V.Carries us) H w⌝⦄ replacePlans s m us fs asStruct
      ⦃post⟨fun r w => ⌜Holding (V.Carries r.plans) H w⌝,
        fun _ w => ⌜Holding V.Develops H w⌝⟩⦄ := by
  have hcode := V.ignoresCode_carries us
  have hsplice := spliceAll_ignored (H := H) us hcode
  have hundo := fun b => restoreBody_ignored (H := H) (m := m) (b := b) hcode
  have hconverts : Keeps (V.Carries us) H (convertClosures m) :=
    convertClosures_carries
  have hconvert := tryFailure_spec hconverts
  have hsubset : ∀ {vs : List Plan} {w : World}, Holding (V.Carries us) H w →
    vs ⊆ us →
      Holding (V.Carries vs) H w :=
    fun h hvs => h.imp fun hc => hc.of_subset hvs
  have hnone : ∀ {w : World}, Holding (V.Carries us) H w →
      Holding (V.Carries []) H w :=
    fun h => hsubset h (List.nil_subset us)
  mvcgen [replacePlans, hsplice, hundo, hconvert, -restoreBody_spec,
    -convertClosures_spec]
  all_goals clear hsplice hundo hconvert
  all_goals grind -ring -linarith [Attempt.plans]

/-- An attempt adds a struct for each plan that it gives. -/
theorem attemptMethod_carries (s : Settings) (cs : List Chain)
    (asStruct : Bool) :
    ⦃fun w => ⌜Holding (V.Carries []) H w⌝⦄ attemptMethod s m cs asStruct
      ⦃post⟨fun r w => ⌜Holding (V.Carries r.plans) H w⌝,
        fun _ w => ⌜Holding V.Develops H w⌝⟩⦄ := by
  have hplan := planAll_carries (V := V) (H := H) cs asStruct
  have hreplace := fun us fs =>
    replacePlans_carries (V := V) (H := H) (m := m) s us fs asStruct
  have hnone : ∀ {us : List Plan} {w : World}, Holding (V.Carries us) H w →
      Holding (V.Carries []) H w :=
    fun h => h.imp fun hc => hc.of_subset (List.nil_subset _)
  mvcgen [attemptMethod, hplan, hreplace, -planAll_spec]
  all_goals clear hplan hreplace
  all_goals grind -ring -linarith [Attempt.plans]

/-- A method is attempted until its closures are settled. -/
theorem attemptChains_carries (s : Settings) (cs : List Chain) :
    ⦃fun w => ⌜Holding (V.Carries []) H w⌝⦄ attemptChains s m cs
      ⦃post⟨fun r w => ⌜Holding (V.Carries r.2.plans) H w⌝,
        fun _ w => ⌜Holding V.Develops H w⌝⟩⦄ := by
  have hattempt := fun asStruct =>
    attemptMethod_carries (V := V) (H := H) (m := m) s cs asStruct
  mvcgen [attemptChains, hattempt]
  all_goals clear hattempt
  all_goals grind [Attempt.plans, Attempt.plans_carrying]

end Weave

/-! ## Methods -/

/-- The hook that is added is there. -/
theorem Workspace.hasHook_addHook (W : Workspace)
    (ht : t.index < W.types.size) :
    (W.addHook t).HasHook t := by
  refine ⟨⟨W.methods.size⟩, ?_, ?_⟩
  · have htype := type_addMethod W t t (Weave.newHook (W.type t).head.base)
    rw [if_pos ⟨rfl, ht⟩] at htype
    rw [Workspace.addHook, htype]
    simp
  · have hentry := methodEntry_addMethod W t
      (Weave.newHook (W.type t).head.base) ⟨W.methods.size⟩
    rw [if_pos rfl] at hentry
    exact congrArg (fun e => e.method.name) hentry

namespace Pass

variable {p : PassState} {s : Settings}

/-- The definitions of the pass have developed, and the plans' structs were
added. -/
def Carrying (V : Workspace) (us : List Plan) (p : PassState) : Prop :=
  Holding (V.Carries us) p.world.hooks p.world

theorem Carrying.of_subset (h : Carrying V us p) (hvs : vs ⊆ us) :
    Carrying V vs p :=
  Holding.imp h fun hc => hc.of_subset hvs

theorem carrying_of_holding {w : World} (h : Holding (V.Carries us) H w) :
    Holding (V.Carries us) w.hooks w :=
  ⟨h.workspace, rfl, h.ordinary⟩

theorem carrying_of_develops {w : World} (h : Holding V.Develops H w) :
    Holding (V.Carries []) w.hooks w :=
  ⟨⟨h.workspace, by simp⟩, rfl, h.ordinary⟩

/-- The type that declares a method is found, or there is a fault; nothing
changes. -/
theorem ownerOf_ends (m : MethodId) (w : World) :
    Ends (Weave.ownerOf m) w (fun _ w' => w' = w) fun _ w' => w' = w := by
  unfold Weave.ownerOf
  refine Ends.bind (Ends.of_run rfl ?_)
  cases (w.workspace.methodEntry m).owner <;> exact rfl

/-- A plan is committed. -/
theorem commitPlan_carries {asStruct : Bool} (hu : u ∈ us)
    (hp : Carrying V us p) :
    Ends (commitPlan m asStruct u) p (fun _ => Carrying V us)
      fun _ => Carrying V us := by
  have hcommit := ends_tryFailure (Q := fun _ w => Holding (V.Carries us)
    w.hooks w) (E := fun _ w => Holding (V.Carries us) w.hooks w)
    ((Weave.commit_carries hu hp).imp (fun _ _ h => h)
      fun e _ h => by cases e <;> exact h)
  unfold commitPlan
  refine Ends.bind (ends_lift (hcommit.imp ?_ fun _ _ => id))
  rintro (f | v) w hw
  · obtain ⟨d, -, hrun⟩ := reportFailure_run m f { p with world := w }
    exact Ends.of_run hrun hw
  · exact Ends.bind (ends_lift (Ends.of_run rfl (Ends.bind (ends_lift
      (Ends.of_run rfl (Ends.bind
        (ends_lift (Ends.of_run rfl (Ends.of_run rfl hw)))))))))

/-- The plans of an attempt are committed. -/
theorem finishMethod_carries {d : MethodDef} {asStruct : Bool}
    {ds : List Diagnostic} {fs : List Failure} (hp : Carrying V us p) :
    Ends (finishMethod s m d asStruct us ds fs) p (fun _ => Carrying V [])
      fun _ => Carrying V [] := by
  obtain ⟨ds', -, hnotes⟩ :=
    reportFailures_run m fs { p with report := p.report.extend ds [] }
  have hnone : ∀ {q}, Carrying V us q → Carrying V [] q := fun h =>
    h.of_subset (List.nil_subset us)
  unfold finishMethod
  refine Ends.bind (Ends.of_run (note_run ds p)
    (Ends.bind (Ends.of_run hnotes ?_)))
  split
  · exact Ends.of_run rfl (hnone hp)
  have hcommit : Ends (us.forM (commitPlan m asStruct))
      { p with report := (p.report.extend ds []).extend ds' [] }
      (fun _ => Carrying V us) fun _ => Carrying V us :=
    Ends.forM hp fun u hu q hq => commitPlan_carries hu hq
  refine Ends.bind (hcommit.imp ?_ fun _ _ => hnone)
  rintro - q hq
  have hoptimize := Weave.optimizeBody_ignored (H := q.world.hooks) (m := m)
    (V.ignoresCode_carries us)
  refine Ends.bind (ends_lift ((Ends.of_triple hoptimize hq).imp ?_ fun _ _ h =>
    hnone (carrying_of_holding h.1)))
  rintro - w hw
  have hw : Carrying V us { q with world := w } := carrying_of_holding hw
  split
  · refine Ends.bind (ends_lift ((ownerOf_ends m w).imp ?_ ?_))
    · rintro t _ rfl
      exact ends_lift (Ends.of_run rfl
        (hnone ⟨hw.workspace.of_alike (Workspace.alike_addCopy _ t m d), rfl,
          hw.ordinary⟩))
    · rintro - _ rfl
      exact hnone hw
  · exact Ends.of_run rfl (hnone hw)

/-- Chains that were analysed are replaced. -/
theorem replaceChains_carries {cs : List Chain} (hp : Carrying V [] p) :
    Ends (replaceChains s m cs) p (fun _ => Carrying V []) fun _ => Carrying V
      [] := by
  have hattempt := Ends.of_triple (Weave.attemptChains_carries (m := m) s cs) hp
  unfold replaceChains
  refine Ends.bind
    (ends_lift (Ends.of_run rfl (Ends.bind (ends_lift (hattempt.imp ?_ ?_)))))
  · rintro ⟨asStruct, ⟨us, ds, fs⟩ | fs⟩ w hw
    · exact finishMethod_carries (p := { p with world := w })
        (carrying_of_holding hw)
    · exact Ends.of_run rfl (carrying_of_holding hw)
  · exact fun _ w hw => carrying_of_develops hw

/-- A method is processed. -/
theorem processMethod_carries {ls : List Label}
    (hls : (p.world.workspace.method m).sources = .ok ls)
    (hp : Carrying V [] p) :
    Ends (processMethod s m) p (fun _ => Carrying V []) fun _ => Carrying V
      [] := by
  have hread := Ends.of_triple
    (Weave.chainsIn_gives (I := (· = p.world.workspace))
    (H := p.world.hooks) (m := m) (o := (p.world.workspace.methodEntry m).owner)
    (fun w hw => by rw [hw]) (fun w hw => by rw [hw]) hls) (Holding.imp hp
      fun _ => rfl)
  have hkeep : ∀ {w : World}, Holding (· = p.world.workspace) p.world.hooks w →
      Carrying V [] { p with world := w } := fun hw =>
    carrying_of_holding (hw.imp fun he => he ▸ hp.workspace)
  unfold processMethod
  refine Ends.bind (ends_lift (hread.imp ?_ fun _ _ hw => hkeep hw.1))
  rintro results w ⟨hw, -⟩
  have hw : Carrying V [] { p with world := w } := hkeep hw
  split
  · obtain ⟨d, -, hrun⟩ := reportFailure_run m (.detailed
      { phase := .analyze, kind := .outOfBounds,
        member := w.workspace.methodName m,
        detail := toString results.length ++ " chains exceed the limit of " ++
          toString s.chainLimit }) { p with world := w }
    exact Ends.bind (ends_lift (Ends.of_run rfl (Ends.bind (Ends.of_run hrun
      (Ends.of_run rfl hw)))))
  obtain ⟨ds, -, hnotes⟩ :=
    reportFailures_run m (failuresOf results) { p with world := w }
  refine Ends.bind (Ends.of_run hnotes ?_)
  simp only
  split
  · exact replaceChains_carries hw
  · exact Ends.of_run rfl hw

/-! ## Undoing a method -/

/-- What was recorded is put back, and only what was added in between is
lost. -/
theorem SystemState.Records.develops {r : SystemState} (hr : r.Records W t)
    (hinner : ∀ n ∈ (W.type t).nested, n.index < W.types.size)
    (hw : W.Develops w) :
    W.Develops (r.restoreTypes w) := by
  have hhook : ∀ {w : Workspace} {x : TypeId}, W.Develops w → W.HasHook x →
      ∃ m ∈ (W.type x).methods,
      (w.method m).name = Member.onCreateForCompiler := by
    rintro w x hw ⟨m, hm, hname⟩
    have hlt := Workspace.lt_of_name hname (by decide)
    exact ⟨m, hm, (hw.name_eq m hlt).trans hname⟩
  have hsystem : W.Develops (w.updateType t r.restoreType) := by
    refine hw.updateType t _ (fun hlt => ?_) (fun hle hlt => ?_)
      (fun n hn => .inl ?_) fun h => ?_
    · have hages := hw.old t hlt
      refine ⟨hages.name, hages.ns, hages.outer, hages.base, [], ?_, by simp⟩
      rw [restoreType, hr.entry, List.append_nil]
    · have hmade := hw.made t hle hlt
      refine ⟨hmade.base, hmade.ns, hmade.named, fun x hx => ?_⟩
      rw [restoreType, hr.entry, Workspace.type_of_le hle] at hx
      cases hx
    · rwa [restoreType, hr.entry] at hn
    · rw [restoreType, hr.entry]
      exact hhook hw h
  have hnested : ∀ (ns : List TypeId) (w : Workspace),
    (∀ n ∈ ns, n.index < W.types.size) →
      W.Develops w → W.Develops (ns.foldl (fun w n =>
        w.updateType n (restoreNested (W.type n))) w) := by
    intro ns w hns hw
    refine List.foldlRecOn ns _ hw fun w hw n hn => ?_
    have hlt := hns n hn
    refine hw.updateType n _ (fun _ => ?_)
      (fun hle _ => absurd hlt (Nat.not_lt.2 hle)) (hw.inner n) (hhook hw)
    have hages := hw.old n hlt
    exact ⟨hages.name, hages.ns, hages.outer, .inl rfl, hages.nested⟩
  have hall := hnested (W.type t).nested _ hinner hsystem
  rw [SystemState.restoreTypes, hr.type, hr.nested, List.foldl_map]
  split
  · exact hall.of_alike (Workspace.alike_touch _ _)
  · exact hall

/-- The types of a system are recorded. -/
theorem saveSystem_gives :
    Weave.Gives (· = W) H (fun r => r.Records W t) (saveSystem t) := by
  mvcgen [saveSystem, Weave.methodNamed?]
  all_goals grind [SystemState.Records, Holding]

/-- What was recorded is put back, with the code of the hook. -/
theorem restoreSystem_develops {r : SystemState} (hr : r.Records W t)
    (hinner : ∀ n ∈ (W.type t).nested, n.index < W.types.size) :
    Weave.Keeps W.Develops H (restoreSystem r) := by
  have hrestore := fun m b => Weave.restoreBody_ignored (H := H) (m := m)
    (b := b) W.ignoresCode_develops
  have hput : ∀ {w : World}, Holding W.Develops H w →
      Holding W.Develops H { w with workspace := r.restoreTypes w.workspace } :=
    fun h => ⟨hr.develops hinner h.workspace, h.hooks, h.ordinary⟩
  mvcgen [restoreSystem, Weave.modifyWorkspace, hrestore,
    -Weave.restoreBody_spec]
  all_goals grind

/-- A method is processed; a fault is undone. -/
theorem guardMethod_develops {ls : List Label} (hW : W.InnerPresent)
    (hls : (W.method m).sources = .ok ls) (hp : Holding (· = W) H p.world) :
    Ends (guardMethod s m) p (fun _ => Carrying W []) fun _ => Carrying W
      [] := by
  have hrefl : ∀ {w : World}, Holding (· = W) H w →
      Holding (W.Carries []) w.hooks w :=
    fun h => ⟨h.workspace ▸ .refl W, rfl, h.ordinary⟩
  have hsave : Weave.Keeps (· = W) H (Weave.saveBody m) := by
    mvcgen
    all_goals grind
  unfold guardMethod
  refine Ends.bind (ends_lift ((Ends.of_triple hsave hp).imp ?_
    fun _ _ h => hrefl h.1))
  intro saved w₁ h₁
  refine Ends.bind (ends_lift ((ownerOf_ends m w₁).imp ?_ ?_))
  swap
  · rintro - _ rfl
    exact hrefl h₁
  rintro t _ rfl
  refine Ends.bind (ends_lift ((Ends.of_triple (saveSystem_gives (t := t))
    h₁).imp ?_ fun _ _ h => hrefl h.1))
  rintro r w₂ ⟨h₂, hr⟩
  refine Ends.bind (Ends.of_run rfl (ends_orElse ?_))
  have hls₂ : (w₂.workspace.method m).sources = .ok ls := by
    rw [h₂.workspace]
    exact hls
  have hrun : Ends (processMethod s m) { p with world := w₂ }
      (fun _ => Carrying W []) fun _ => Carrying W [] :=
    processMethod_carries hls₂ (hrefl h₂)
  refine hrun.imp (fun _ _ => id) fun e q hq => ?_
  -- the fault is undone and becomes a diagnostic
  have hbody := Weave.restoreBody_ignored (H := q.world.hooks) (m := m)
    (b := saved) W.ignoresCode_develops
  have hsystem := restoreSystem_develops (H := q.world.hooks) hr (hW t)
  have hq : Holding W.Develops q.world.hooks q.world :=
    Workspace.Carries.holding hq
  refine Ends.bind (ends_lift ((Ends.of_triple hbody hq).imp ?_ fun _ _ h =>
    carrying_of_develops h.1))
  intro _ w₃ h₃
  refine Ends.bind (ends_lift ((Ends.of_triple hsystem h₃).imp ?_ fun _ _ h =>
    carrying_of_develops h.1))
  intro _ w₄ h₄
  obtain ⟨d, -, hrun⟩ := unexpected_run m (causeOf e) w₄
  refine Ends.bind (Ends.of_run rfl (Ends.bind (ends_lift (Ends.of_run hrun
    (Ends.of_run (note_run [d] _) ?_)))))
  exact carrying_of_develops h₄

/-! ## Systems -/

/-- The pass goes on with the definitions that it has. -/
def Ongoing (V : Workspace) (p : PassState) : Prop :=
  Holding (fun w => V.Develops w ∧ w.InnerPresent) p.world.hooks p.world

/-- A method is visited. -/
theorem visitMethod_develops (hp : Ongoing V p) :
    Ends (visitMethod s m) p (fun _ => Ongoing V) fun _ => Ongoing V := by
  have hdone : ∀ {q}, Carrying p.world.workspace [] q → Ongoing V q := fun hq =>
    Holding.imp hq fun h => ⟨hp.workspace.1.trans h.1,
      h.1.innerPresent hp.workspace.2⟩
  unfold visitMethod
  refine Ends.bind (ends_lift (Ends.of_run rfl ?_))
  split
  · cases hls : (p.world.workspace.method m).sources with
    | error e => exact Ends.bind (ends_lift hp)
    | ok ls =>
      refine Ends.bind (ends_lift (Ends.of_run rfl ?_))
      split
      · exact (guardMethod_develops hp.workspace.2 hls (Holding.imp hp
          fun _ => rfl)).imp (fun _ _ => hdone) fun _ _ => hdone
      · exact Ends.of_run rfl hp
  · exact Ends.of_run rfl hp

/-- A system that is not known to have a hook has one in the end. -/
theorem hookOf_hooks {w : World} (hnone : w.hooks.lookup t = none)
    (ht : t.index < w.workspace.types.size)
    (hw : Holding V.Develops w.hooks w) :
    Ends (Weave.tryFailure (Weave.hookOf t)) w
      (fun _ w' => Holding (fun w => V.Develops w ∧ w.HasHook t) w'.hooks w')
      fun _ _ => False := by
  refine ends_tryFailure ?_
  unfold Weave.hookOf
  refine Ends.bind (Ends.of_run rfl ?_)
  simp only [hnone]
  refine Ends.bind (Ends.of_run rfl ?_)
  cases hfind : (w.workspace.type t).methods.find?
      (fun n => (w.workspace.method n).name == Member.onCreateForCompiler) with
  | some n =>
    have hname := List.find?_some hfind
    exact hw.imp fun h => ⟨h, n, List.mem_of_find?_eq_some hfind,
      by simpa using hname⟩
  | none =>
    refine Ends.bind (Ends.of_run rfl (Ends.bind (Ends.of_run rfl (Ends.bind
      (Ends.of_run rfl (Ends.of_run rfl ⟨⟨?_, w.workspace.hasHook_addHook ht⟩,
        rfl, hw.ordinary⟩))))))
    exact hw.workspace.of_alike (Workspace.alike_addMethod _ t _)

/-- A system is processed and has its hook. -/
theorem processSystem_develops (hnone : p.world.hooks.lookup t = none)
    (ht : t.index < p.world.workspace.types.size) (hp : Ongoing V p) :
    Ends (processSystem s t) p
      (fun _ q => Ongoing V q ∧ q.world.workspace.HasHook t)
        fun _ => Ongoing V := by
  have hrefl : Holding p.world.workspace.Develops p.world.hooks p.world :=
    Holding.imp hp fun _ => .refl _
  unfold processSystem
  refine Ends.bind (ends_lift ((hookOf_hooks hnone ht hrefl).imp ?_
    fun _ _ => False.elim))
  intro result w hw
  obtain ⟨hdevelops, hhook⟩ := hw.workspace
  have hV := hp.workspace.1.trans hdevelops
  have hinner := hdevelops.innerPresent hp.workspace.2
  -- what follows develops the definitions that the system has its hook in
  have hdone : ∀ {q}, Ongoing w.workspace q → Ongoing V q ∧
      q.world.workspace.HasHook t :=
    fun hq => ⟨Holding.imp hq fun h => ⟨hV.trans h.1, h.2⟩,
      hq.workspace.1.hooked t hhook⟩
  have hstart : Ongoing w.workspace { p with world := w } :=
    hw.imp fun _ => ⟨.refl _, hinner⟩
  cases result with
  | error f => exact Ends.of_run (note_run _ _) (hdone hstart)
  | ok hook =>
    refine Ends.bind (ends_lift (Ends.of_run rfl ?_))
    exact (Ends.forM hstart fun m _ q hq => visitMethod_develops hq).imp
      (fun _ _ => hdone) fun _ _ h => (hdone h).1

/-- The systems of a module are processed, and each has its hook. -/
theorem processSystems_develops (s : Settings) (ts rest : List TypeId)
    (hV : V.Pending H (ts ++ rest)) (hinner : V.InnerPresent)
    (hp : Holding (· = V) H p.world) :
    Ends (ts.forM (processSystem s)) p
      (fun _ q => V.Develops q.world.workspace ∧ ∀ t ∈ ts,
        q.world.workspace.HasHook t)
      fun _ _ => True := by
  induction ts generalizing V H p with
  | nil =>
    refine Ends.of_run rfl ⟨?_, by simp⟩
    rw [hp.workspace]
    exact .refl V
  | cons t ts ih =>
    have hnone : p.world.hooks.lookup t = none := by
      rw [hp.hooks]
      exact hV.unhooked t (by simp)
    have ht : t.index < p.world.workspace.types.size := by
      rw [hp.workspace]
      exact hV.lt t (by simp)
    have hstart : Ongoing V p :=
      ⟨by rw [hp.workspace]; exact ⟨.refl V, hinner⟩, rfl, hp.ordinary⟩
    unfold List.forM
    refine Ends.bind (((processSystem_ends (s := s) hV hp).and
      (processSystem_develops (s := s) hnone ht hstart)).imp ?_
        fun _ _ _ => trivial)
    rintro - q ⟨⟨⟨H', hq⟩, -⟩, hgoing, hhook⟩
    refine (ih hq.workspace.2 hgoing.workspace.2 (hq.imp fun _ => rfl)).imp ?_
      fun _ _ => id
    rintro - q' ⟨hdevelops, hhooks⟩
    exact ⟨hgoing.workspace.1.trans hdevelops,
      List.forall_mem_cons.2 ⟨hdevelops.hooked t hhook, hhooks⟩⟩

end Pass

end JobWeave
