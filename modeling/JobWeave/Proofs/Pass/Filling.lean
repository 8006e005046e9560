import Mathlib
import JobWeave.Proofs.Pass.Trust

/-!
# The code of creation hooks over a whole pass

A commit appends the code of one plan to the hook of its system; a roll-back
takes the hook back to what it was.  `Pass.Filled` says which plans a hook
holds, and each level of the pass keeps it:

* `Pass.Batch` names the plans that an attempt at one method gave, with their
  jobs.
* `Pass.processSystems_fills` says what the hooks hold after some systems: the
  plans of the batches whose jobs were reported, in the order of the report.
-/

namespace JobWeave

open Framework Std.Do

set_option mvcgen.warning false

/-- The entry of a plan's job. -/
def Plan.entry (u : Plan) (w : Workspace) (asStruct : Bool) : JobEntry :=
  { system := w.typeName u.chain.system,
    method := (w.method u.chain.method).name,
    struct := u.chain.className, kind := u.chain.kind.name,
    mode := u.chain.mode.name,
    burst := u.chain.usesBurst, closureAsStruct := asStruct &&
      u.chain.capturesLocals }

/-- The entry stays the same while types grow. -/
theorem Plan.entry_eq {u : Plan} {V w : Workspace} {S : Set MethodId}
    {asStruct : Bool} (hf : V.Frame TypeEntry.Grows S w)
    (hn : V.Named u.chain.system) (hm : u.chain.method.index < V.methods.size) :
    u.entry w asStruct = u.entry V asStruct := by
  rw [entry, entry, hn _ _ hf, hf.name_eq hm]

/-- The plans that an attempt at a method gives, and whether closures are value
types then. -/
def Weave.PlansOf (s : Settings) (m : MethodId) (w : World) (asStruct : Bool)
    (us : List Plan) : Prop :=
  ∃ results w₁ ds fs w₂, chainsIn m w = .ok results w₁ ∧
    attemptChains s m (results.filterMap Except.toOption) w₁ = .ok (asStruct,
      .done us ds fs) w₂

namespace Pass

/-- The plans that were committed for a method, and the jobs that were reported
for it. -/
structure Batch where
  /-- the system -/
  system : TypeId
  /-- the method -/
  method : MethodId
  /-- the plans -/
  plans : List Plan
  /-- the jobs -/
  jobs : List JobEntry

/-- The plans are those of an attempt at the method, and each has its job. -/
structure Batch.Of (b : Batch) (s : Settings) (w : World) : Prop where
  /-- the plans are for chains of the method -/
  chains : ∀ u ∈ b.plans, u.chain.method = b.method ∧ u.chain.system = b.system
  /-- one attempt gave them -/
  made : ∃ asStruct, Weave.PlansOf s b.method w asStruct b.plans ∧
    b.jobs = b.plans.map fun u => u.entry w.workspace asStruct

variable {V : Workspace} {mods : List ModuleId} {H : List (TypeId × MethodId)}
variable {t : TypeId} {m hook : MethodId} {base : TypeRef} {u : Plan}
  {us vs ws : List Plan}
variable {p : PassState} {s : Settings} {asStruct : Bool}

/-- The world can be trusted, and the hook has the code of some plans. -/
structure Filled (V : Workspace) (mods : List ModuleId) (hook : MethodId)
    (base : TypeRef) (us : List Plan) (w : World) : Prop where
  /-- the world -/
  trusts : w.Trusts V mods
  /-- the hook -/
  builds : w.workspace.Builds hook base us

/-- A plan is committed to the hook, and its job is reported. -/
theorem commitPlan_fills (asStruct : Bool) (hl : H.lookup t = some hook)
    (hu : u.IsReady p.world.workspace) (hc : u.chain.system = t)
    (hm : u.chain.method = m) (hlt : m.index < p.world.workspace.methods.size)
    (hV : p.world.workspace.Hooked t hook)
    (hp : Holding (· = p.world.workspace) H p.world)
    (hfilled : Filled V mods hook base vs p.world)
    (hcarries : V.Carries us p.world.workspace) (hmem : u ∈ us)
    (hstraight : u.IsStraight) :
    Ends (commitPlan m asStruct u) p
      (fun _ q => (Filled V mods hook base (vs ++ [u]) q.world ∧
          V.Carries us q.world.workspace ∧
          q.report = p.report.extend [] [u.entry p.world.workspace asStruct]) ∧
        Holding (fun w => p.world.workspace.Frame
          (TypeEntry.Stays {u.type} {hook}) {hook} w ∧
          w.QuietAt hook) H q.world)
      fun _ _ => False := by
  subst hc hm
  have hspec := Ends.of_triple (commitPlan_spec (r := p.report)
    (m := u.chain.method) asStruct hl hu rfl hlt hV) ⟨hp, rfl⟩
  have hcommit := Weave.commit_ends (hp.hooks ▸ hl) hfilled.builds hu.initLabels
    hstraight
  have hrun : Ends (commitPlan u.chain.method asStruct u) p
      (fun _ q => Filled V mods hook base (vs ++ [u]) q.world ∧
        V.Carries us q.world.workspace ∧
        q.report = p.report.extend [] [{ u.entry q.world.workspace asStruct with
          struct := (q.world.workspace.type u.type).head.name }])
              fun _ _ => False := by
    unfold commitPlan
    refine Ends.bind
      (ends_lift (ends_tryFailure (hcommit.imp ?_ fun _ _ => False.elim)))
    rintro u' _ ⟨hchain, htype, W, rfl, ha, hbuilds⟩
    obtain ⟨htrusts, hcarries'⟩ := hfilled.trusts.commit hcarries hmem ha
    refine Ends.bind (ends_lift (Ends.of_run rfl (Ends.bind (ends_lift
      (Ends.of_run rfl (Ends.bind (ends_lift (Ends.of_run rfl (Ends.of_run
        rfl ⟨⟨htrusts, hbuilds⟩, hcarries', ?_⟩)))))))))
    simp [Report.extend, Plan.entry, hchain, htype]
  refine (hrun.and hspec).imp ?_ fun _ _ => And.left
  rintro - q ⟨⟨hq, hq', hr⟩, hframe, -⟩
  refine ⟨⟨hq, hq', ?_⟩, hframe⟩
  have hgrows := hframe.workspace.1.grows
  have hname := (hgrows.type _ hu.hosts.lt).name.trans hu.hosts.name
  rw [hr, Plan.entry_eq hgrows hV.named hlt, hname]
  rfl

/-- Plans are committed one after another, and their jobs are reported in this
order. -/
theorem commitPlans_fills (asStruct : Bool) (hl : H.lookup t = some hook)
    (hus : ∀ u ∈ us, u.IsReady p.world.workspace)
    (hc : ∀ u ∈ us, u.chain.system = t)
    (hlt : m.index < p.world.workspace.methods.size)
    (hV : p.world.workspace.Hooked t hook) (hm : ∀ u ∈ us, u.chain.method = m)
    (hp : Holding (· = p.world.workspace) H p.world)
    (hfilled : Filled V mods hook base vs p.world) (hsub : us ⊆ ws)
    (hcarries : V.Carries ws p.world.workspace)
    (hstraight : ∀ u ∈ us, u.IsStraight) :
    Ends (us.forM (commitPlan m asStruct)) p
      (fun _ q => Filled V mods hook base (vs ++ us) q.world ∧
        q.report = p.report.extend []
          (us.map fun u => u.entry p.world.workspace asStruct))
      fun _ _ => False := by
  induction us generalizing vs p with
  | nil => exact Ends.of_run rfl (by simpa using hfilled)
  | cons u us ih =>
    obtain ⟨hu, hus⟩ := List.forall_mem_cons.1 hus
    obtain ⟨hcu, hc⟩ := List.forall_mem_cons.1 hc
    obtain ⟨hmu, hm⟩ := List.forall_mem_cons.1 hm
    obtain ⟨hsu, hstraight⟩ := List.forall_mem_cons.1 hstraight
    obtain ⟨hmem, hsub⟩ := List.cons_subset.1 hsub
    unfold List.forM
    refine Ends.bind ((commitPlan_fills asStruct hl hu hcu hmu hlt hV hp hfilled
      hcarries hmem hsu).imp ?_ fun _ _ => id)
    rintro - q ⟨⟨hfilled', hcarries', hr⟩, hq⟩
    obtain ⟨hframe, hquiet⟩ := hq.workspace
    have hstruct : ∀ n ∈ ({u.type} : Set TypeId),
        n.index < q.world.workspace.types.size := by
      rintro n rfl
      exact hu.hosts.lt.trans_le hframe.types_le
    refine (ih (fun v hv => (hus v hv).grow hframe fun _ _ hs => hs.toGrows) hc
      (hlt.trans_le hframe.methods_le) (hV.of_frame hframe hstruct hquiet) hm
      (hq.imp fun _ => rfl) hfilled' hsub hcarries' hstraight).imp ?_
        fun _ _ => id
    rintro - q' ⟨hfilled'', hr'⟩
    refine ⟨by simpa using hfilled'', ?_⟩
    -- later entries are the same as if they had been read before
    have hentries : (us.map fun v => v.entry q.world.workspace asStruct) =
        us.map fun v => v.entry p.world.workspace asStruct :=
      List.map_congr_left fun v hv => Plan.entry_eq hframe.grows
        (by rw [hc v hv]; exact hV.named) (by rw [hm v hv]; exact hlt)
    rw [hr', hr, hentries]
    simp

/-- The plans of an attempt are committed. -/
theorem finishMethod_fills {W : Workspace} {cs : List Chain}
    {ds : List Diagnostic} {fs : List Failure} {d : MethodDef}
    (hV : W.Awaits t m hook) (hl : H.lookup t = some hook)
    (hcs : ∀ c ∈ cs, c.method = m ∧ c.system = t)
    (hp : Holding ((Attempt.done us ds fs).Leaves W {hook} m cs) H p.world)
    (hfilled : Filled V mods hook base vs p.world)
    (hcarries : V.Carries us p.world.workspace)
    (hstraight : ∀ u ∈ us, u.IsStraight) :
    Ends (finishMethod s m d asStruct us ds fs) p
      (fun _ q => Filled V mods hook base (vs ++ us) q.world ∧
        ∃ ds', q.report =
          p.report.extend ds' (us.map fun u => u.entry p.world.workspace
            asStruct))
      fun _ q => q.world.Trusts V mods := by
  obtain ⟨-, hframe, hready, haccount⟩ := hp.workspace
  obtain ⟨ds', -, hnotes⟩ :=
    reportFailures_run m fs { p with report := p.report.extend ds [] }
  unfold finishMethod
  refine Ends.bind (Ends.of_run (note_run ds p)
    (Ends.bind (Ends.of_run hnotes ?_)))
  simp only [Report.extend_extend, List.append_nil]
  by_cases hus : us = []
  · subst hus
    exact Ends.of_run rfl ⟨by simpa using hfilled, ds ++ ds', by simp⟩
  have hne : us.isEmpty = false := by simpa using hus
  simp only [hne, Bool.false_eq_true, if_false]
  have hlt := hV.edits.lt.trans_le hframe.methods_le
  have hhook := (hV.lt hook hV.mem).trans_le hframe.methods_le
  have hhooked := hV.toHooked.of_frame hframe
    (fun _ hn => absurd hn (Set.notMem_empty _)) (hV.quietAt hframe)
  have hsystem : ∀ u ∈ us, u.chain.system = t :=
    fun u hu => (hcs _ (haccount.mem u hu)).2
  have hmethod : ∀ u ∈ us, u.chain.method = m :=
    fun u hu => (hcs _ (haccount.mem u hu)).1
  have hstart : Holding (· = p.world.workspace) H p.world := hp.imp fun _ => rfl
  have hcommit := (commitPlans_fills
      (p := { p with report := p.report.extend (ds ++ ds') [] })
      asStruct hl hready hsystem hlt hhooked hmethod hstart hfilled
      (List.Subset.refl us) hcarries hstraight).and
    (Ends.of_triple (commitPlans_spec (r := p.report.extend (ds ++ ds') [])
      asStruct hl hready hsystem hlt hhooked) ⟨hstart, rfl⟩)
  refine Ends.bind (hcommit.imp ?_ fun _ _ h => h.1.elim)
  rintro - q ⟨⟨hfilled, hr⟩, hq, -⟩
  have hframe' := hq.workspace.1
  have hmoved : W.Frame TypeEntry.Grows Set.univ q.world.workspace :=
    (hframe.grows.mono (fun _ _ => id) (Set.subset_univ _)).trans
      TypeEntry.Grows.trans hframe'.grows fun _ _ _ => Set.mem_univ _
  -- the hook is not the method, so what follows leaves it as it is
  have hapart : hook ∉ q.world.workspace.kin m := fun hmem =>
    hV.apart (hframe.mem_kin hV.edits.lt (hV.lt hook hV.mem)
      (hframe'.mem_kin hlt hhook hmem))
  have hoptimize := (optimizeBody_ends (V := q.world.workspace)
    (hq.imp fun _ => rfl) (hV.edits.of_frame hmoved)).and
    (Ends.of_triple Weave.optimizeBody_preserves (World.Has.mk hfilled.trusts))
  refine Ends.bind (ends_lift (hoptimize.imp ?_ fun _ _ h => h.2.holds))
  rintro - w ⟨hw, htrusts⟩
  have hfilled : Filled V mods hook base (vs ++ us) w :=
    ⟨htrusts.holds, hfilled.builds.of_frame hw.workspace hapart⟩
  have hreport : q.report = p.report.extend (ds ++ ds')
      (us.map fun u => u.entry p.world.workspace asStruct) := hr.trans (by simp)
  split
  · refine Ends.bind (ends_lift ((ownerOf_ends m w).imp ?_ ?_))
    · rintro o w' rfl
      refine ends_lift (Ends.of_run rfl ⟨⟨?_, ?_⟩, ds ++ ds', hreport⟩)
      · exact hfilled.trusts.amend (Workspace.amends_addCopy _ o m d)
      · have hcopied := (Workspace.Frame.refl (R := fun _ _ => True)
          (fun _ => trivial) ∅ w'.workspace).addCopy o m d fun _ _ _ => trivial
        exact hfilled.builds.of_frame hcopied (Set.notMem_empty _)
    · rintro - _ rfl
      exact hfilled.trusts
  · exact Ends.of_run rfl ⟨hfilled, ds ++ ds', hreport⟩

/-- Chains that were analysed are replaced. -/
theorem replaceChains_fills {cs : List Chain}
    (hV : p.world.workspace.Awaits t m hook) (hl : H.lookup t = some hook)
    (hcs : ∀ c ∈ cs, c.method = m ∧ c.system = t)
    (hp : Holding (· = p.world.workspace) H p.world)
    (hfilled : Filled V mods hook base vs p.world) :
    Ends (replaceChains s m cs) p
      (fun _ q => ∃ asStruct us ds fs w,
        Weave.attemptChains s m cs p.world = .ok (asStruct, .done us ds fs) w ∧
        (∀ u ∈ us, u.chain.method = m ∧ u.chain.system = t) ∧
        Filled V mods hook base (vs ++ us) q.world ∧
        ∃ ds', q.report =
          p.report.extend ds' (us.map fun u => u.entry p.world.workspace
            asStruct))
      fun _ q => q.world.Trusts V mods := by
  have hundone : Holding (p.world.workspace.Undone m) H p.world :=
    hp.imp fun he => he ▸ .refl m _
  have hdevelops : Holding (V.Carries []) H p.world :=
    hp.imp fun he => he ▸ ⟨hfilled.trusts.develops, by simp⟩
  have hattempt := ((Ends.of_triple (Weave.attemptChains_spec (s := s)
    (K := {hook}) (H := H) hV.edits hV.toHooked.lasting
      fun c hc => (hcs c hc).1) hundone).and
    ((Ends.of_triple (Weave.attemptChains_carries (m := m) s cs) hdevelops).and
    (Ends.of_triple (Weave.attemptChains_straight V mods s m cs)
      (World.Has.mk hfilled.trusts)))).and_run
  unfold replaceChains
  refine Ends.bind (ends_lift (Ends.of_run rfl (Ends.bind (ends_lift
    (hattempt.imp ?_ fun _ _ h => h.2.2.holds)))))
  rintro ⟨asStruct, r⟩ w ⟨hrun, ⟨hw, us, ds, fs, rfl⟩, hcarries, htrusts,
    hstraight⟩
  obtain ⟨-, hframe, -, haccount⟩ := hw.workspace
  have hsystem : ∀ u ∈ us, u.chain.system = t :=
    fun u hu => (hcs _ (haccount.mem u hu)).2
  have hmethod : ∀ u ∈ us, u.chain.method = m :=
    fun u hu => (hcs _ (haccount.mem u hu)).1
  have hfilled' : Filled V mods hook base vs w :=
    ⟨htrusts.holds, hfilled.builds.of_frame hframe hV.apart⟩
  refine (finishMethod_fills hV hl hcs (p := { p with world := w }) hw hfilled'
    hcarries.workspace hstraight).imp ?_ fun _ _ => id
  rintro - q ⟨hq, ds', hr⟩
  refine ⟨asStruct, us, ds, fs, w, hrun,
    fun u hu => ⟨hmethod u hu, hsystem u hu⟩, hq, ds', ?_⟩
  have hentries : (us.map fun u => u.entry w.workspace asStruct) =
      us.map fun u => u.entry p.world.workspace asStruct :=
    List.map_congr_left fun u hu => Plan.entry_eq hframe.grows
      (by rw [hsystem u hu]; exact hV.named)
        (by rw [hmethod u hu]; exact hV.edits.lt)
  exact hr.trans (congrArg (p.report.extend ds') hentries)

/-- More plans were committed and their jobs reported, in batches of a kind. -/
def Fills (V : Workspace) (mods : List ModuleId) (hook : MethodId)
    (base : TypeRef) (vs : List Plan) (r : Report) (K : Batch → Prop)
    (q : PassState) : Prop :=
  ∃ (bs : List Batch) (ds : List Diagnostic),
    Filled V mods hook base (vs ++ bs.flatMap (·.plans)) q.world ∧
    q.report = r.extend ds (bs.flatMap (·.jobs)) ∧ ∀ b ∈ bs, K b

/-- Every chain of a method is processed. -/
theorem processMethod_fills {ls : List Label}
    (hV : p.world.workspace.Awaits t m hook) (hl : H.lookup t = some hook)
    (hls : (p.world.workspace.method m).sources = .ok ls)
    (hp : Holding (· = p.world.workspace) H p.world)
    (hfilled : Filled V mods hook base vs p.world) :
    Ends (processMethod s m) p
      (fun _ q => Fills V mods hook base vs p.report
        (fun b => b.system = t ∧ b.method = m ∧ b.Of s p.world) q)
      fun _ q => q.world.Trusts V mods := by
  have hread :=
    ((Ends.of_triple (Weave.chainsIn_gives (I := (· = p.world.workspace))
      (H := H)
    (m := m) (o := some t) (fun w hw => hw ▸ hV.owner) (fun w hw => by rw [hw])
      hls) hp).and
    (Ends.of_triple (Weave.chainsIn_preserves (m := m))
      (World.Has.mk hfilled.trusts))).and_run
  have hnone : ∀ {w : World} {ds : List Diagnostic},
    w.workspace = p.world.workspace →
      w.Trusts V mods → Fills V mods hook base vs p.report
        (fun b => b.system = t ∧ b.method = m ∧ b.Of s p.world)
        { world := w, report := p.report.extend ds [] } :=
    fun {w ds} hw htrusts =>
    ⟨[], ds, ⟨htrusts, by simpa [hw] using hfilled.builds⟩, rfl, by simp⟩
  unfold processMethod
  refine Ends.bind (ends_lift (hread.imp ?_ fun _ _ h => h.2.holds))
  rintro results w ⟨hrun, ⟨hw, hresults⟩, htrusts⟩
  split
  · -- too many chains
    obtain ⟨d, -, hreport⟩ := reportFailure_run m (.detailed
      { phase := .analyze, kind := .outOfBounds,
        member := w.workspace.methodName m,
        detail := toString results.length ++ " chains exceed the limit of " ++
          toString s.chainLimit }) { p with world := w }
    exact Ends.bind (ends_lift (Ends.of_run rfl (Ends.bind (Ends.of_run hreport
      (Ends.of_run rfl (hnone hw.workspace htrusts.holds))))))
  obtain ⟨ds, -, hnotes⟩ :=
    reportFailures_run m (failuresOf results) { p with world := w }
  refine Ends.bind (Ends.of_run hnotes ?_)
  simp only
  split
  swap
  · exact Ends.of_run rfl (hnone hw.workspace htrusts.holds)
  obtain ⟨-, hchains, -⟩ := settled_results hresults
  have hcs : ∀ c ∈ results.filterMap Except.toOption, c.method = m ∧
      c.system = t :=
    fun c hc => by
      obtain ⟨x, hx⟩ := hchains c hc
      exact ⟨hx.method, (Option.some.inj hx.system).symm⟩
  have hfilled' : Filled V mods hook base vs w :=
    ⟨htrusts.holds, hw.workspace ▸ hfilled.builds⟩
  refine (replaceChains_fills (s := s)
    (p := { world := w, report := p.report.extend ds [] })
    (hw.workspace ▸ hV) hl hcs (hw.imp fun _ => rfl) hfilled').imp ?_
      fun _ _ => id
  rintro - q ⟨asStruct, us, ds₁, fs, w₁, hattempt, hus, hq, ds₂, hr⟩
  refine ⟨[⟨t, m, us, us.map fun u => u.entry p.world.workspace asStruct⟩],
    ds ++ ds₂, by simpa using hq, ?_, ?_⟩
  · rw [hr, Report.extend_extend, hw.workspace]
    simp
  · rintro b hb
    obtain rfl := List.mem_singleton.1 hb
    exact ⟨rfl, rfl, hus, asStruct, ⟨results, w, ds₁, fs, w₁, hrun, hattempt⟩,
      rfl⟩

/-- A system is put back, and its hook has the code that was recorded. -/
theorem restoreSystem_builds {W : Workspace} {r : SystemState} {b : Body}
    {w : World} (hr : r.Of W t hook b) (hw : w.workspace.IsHook hook base)
    (hb : b.Builds base vs) :
    Ends (restoreSystem r) w (fun _ w' => w'.workspace.Builds hook base vs)
      fun _ _ => False := by
  have hput : (r.restoreTypes w.workspace).IsHook hook base := by
    rw [Workspace.IsHook, Workspace.method, Workspace.methodEntry,
      r.methods_restoreTypes]
    exact hw
  unfold restoreSystem
  refine Ends.bind (Ends.of_run rfl ?_)
  simp only [hr.hook]
  exact Weave.restoreBody_builds
    (w := { w with workspace := r.restoreTypes w.workspace }) hput hb

/-- A method is processed; after a fault the hook is as it was, and no job is
reported. -/
theorem guardMethod_fills {ls : List Label}
    (hV : p.world.workspace.Awaits t m hook) (hl : H.lookup t = some hook)
    (hls : (p.world.workspace.method m).sources = .ok ls)
    (hp : Holding (· = p.world.workspace) H p.world)
    (hfilled : Filled V mods hook base vs p.world) :
    Ends (guardMethod s m) p
      (fun _ q => Fills V mods hook base vs p.report
        (fun b => b.system = t ∧ b.method = m ∧ b.Of s p.world) q)
      fun _ _ => True := by
  obtain ⟨saved, hsaved⟩ := Option.isSome_iff_exists.1 hV.edits.hasBody
  have howner : Weave.ownerOf m p.world = .ok t p.world := by
    rw [show Weave.ownerOf m p.world =
      Weave.need (p.world.workspace.methodEntry m).owner p.world from rfl,
      hV.owner]
    rfl
  have hrefl : Carrying p.world.workspace [] p := ⟨.refl _, rfl, hp.ordinary⟩
  have hprocess := (processMethod_fills (s := s) hV hl hls hp hfilled).and
    ((processMethod_ends (s := s) hV hl hls hp).and
      (processMethod_carries (s := s) hls hrefl))
  unfold guardMethod
  refine Ends.bind (ends_lift ((saveBody_ends hsaved).imp ?_
    fun _ _ _ => trivial))
  rintro saved _ ⟨rfl, rfl⟩
  refine Ends.bind (ends_lift (Ends.of_run howner (Ends.bind (ends_lift
    ((saveSystem_ends hV.toHooked rfl).imp ?_ fun _ _ => False.elim)))))
  rintro r _ ⟨rfl, b, hb, hr⟩
  refine Ends.bind
    (Ends.of_run rfl (ends_orElse (hprocess.imp (fun _ _ => And.left) ?_)))
  rintro e q ⟨htrusts, ⟨hq, ds, js, hreport⟩, hcarries⟩
  -- the fault is undone
  have hsince : World.Has (World.TrustsSince V mods p.world.workspace)
      q.world :=
    ⟨htrusts, hcarries.workspace.1⟩
  have hbody := (restoreBody_ends (b := saved) (hV.edits.of_frame hq.workspace)
    (hq.imp fun _ => rfl)).and
      (Ends.of_triple Weave.restoreBody_preserves hsince)
  refine Ends.bind (ends_lift (hbody.imp ?_ fun _ _ h => h.1.elim))
  rintro - w₁ ⟨hw₁, hsince₁⟩
  have hframe := hq.workspace.trans_touched TypeEntry.Stays.trans
    (hw₁.workspace.frame.mono TypeEntry.Stays.of_eq subset_rfl) hV.edits.lt
  have hsystem := (restoreSystem_builds hr
    (hfilled.builds.isHook_of_frame hframe) (hfilled.builds.of_body hb)).and
      (Ends.of_triple (restoreSystem_trusts hr.toRecords hV.inner
      hfilled.trusts.develops hfilled.trusts.retains) hsince₁)
  refine Ends.bind (ends_lift (hsystem.imp ?_ fun _ _ h => h.1.elim))
  rintro - w₂ ⟨hbuilds, htrusts₂⟩
  obtain ⟨d, -, hrun⟩ := unexpected_run m (causeOf e) w₂
  refine Ends.bind (Ends.of_run rfl (Ends.bind (ends_lift (Ends.of_run hrun
    (Ends.of_run (note_run [d] _) ⟨[], ds ++ [d], ⟨htrusts₂.holds.1, ?_⟩, ?_,
      by simp⟩)))))
  · simpa using hbuilds
  · simp [hreport, Report.extend]

/-! ## Systems -/

variable {K K' : Batch → Prop} {r : Report} {q q' : PassState}
  {ms : List MethodId}

theorem Fills.imp (h : Fills V mods hook base vs r K q) (hK : ∀ b, K b → K' b) :
    Fills V mods hook base vs r K' q := by
  obtain ⟨bs, ds, hq, hr, hbs⟩ := h
  exact ⟨bs, ds, hq, hr, fun b hb => hK b (hbs b hb)⟩

/-- More batches after some. -/
theorem Fills.append {bs : List Batch} {ds : List Diagnostic}
    (h : Fills V mods hook base (vs ++ bs.flatMap (·.plans)) q.report K q')
    (hr : q.report = r.extend ds (bs.flatMap (·.jobs))) (hbs : ∀ b ∈ bs, K b) :
    Fills V mods hook base vs r K q' := by
  obtain ⟨cs, ds', hq', hr', hcs⟩ := h
  refine ⟨bs ++ cs, ds ++ ds',
    by simpa using hq', by simp [hr', hr], fun b hb => ?_⟩
  exact (List.mem_append.1 hb).elim (hbs b) (hcs b)

/-- The pass comes to a method with source calls: it has visited the methods
before it. -/
structure Visits (s : Settings) (ms : List MethodId) (p : PassState)
    (m : MethodId) (q : PassState) : Prop where
  /-- the way to the method -/
  path : ∃ before after, ms = before ++ m :: after ∧
    before.forM (visitMethod s) p = .ok () q
  /-- the method has code -/
  hasBody : (q.world.workspace.method m).body.isSome
  /-- it has source calls -/
  sources : (q.world.workspace.method m).sourceLabels ≠ []

theorem Visits.cons {n : MethodId} (h : Visits s ms q n q')
    (hm : visitMethod s m p = .ok () q) :
    Visits s (m :: ms) p n q' := by
  obtain ⟨⟨before, after, rfl, hrun⟩, hbody, hsources⟩ := h
  refine ⟨⟨m :: before, after, rfl, ?_⟩, hbody, hsources⟩
  unfold List.forM
  simp only [bind, EStateM.bind, hm]
  exact hrun

/-- A batch of a system, for one of the methods. -/
def Batch.Within (b : Batch) (s : Settings) (t : TypeId) (ms : List MethodId)
    (p : PassState) : Prop :=
  b.system = t ∧ ∃ q, Visits s ms p b.method q ∧ b.Of s q.world

/-- A method is visited. -/
theorem visitMethod_fills (s : Settings) (ms : List MethodId)
    (hV : p.world.workspace.Hooked t hook) (hl : H.lookup t = some hook)
    (hm : p.world.workspace.Declared t m)
    (hp : Holding (· = p.world.workspace) H p.world)
    (hfilled : Filled V mods hook base vs p.world) :
    Ends (visitMethod s m) p
      (fun _ q => Fills V mods hook base vs p.report
        (fun b => b.Within s t (m :: ms) p) q)
      fun _ _ => True := by
  have hnone : Fills V mods hook base vs p.report
      (fun b => b.Within s t (m :: ms) p) p :=
    ⟨[], [], by simpa using hfilled, by simp, by simp⟩
  unfold visitMethod
  refine Ends.bind (ends_lift (Ends.of_run rfl ?_))
  cases hb : (p.world.workspace.method m).body with
  | none => exact Ends.of_run rfl hnone
  | some b =>
    simp only [Option.isSome_some, if_true]
    cases hls : (p.world.workspace.method m).sources with
    | error e => exact Ends.bind (ends_lift trivial)
    | ok ls =>
      refine Ends.bind (ends_lift (Ends.of_run rfl ?_))
      cases ls with
      | nil => exact Ends.of_run rfl hnone
      | cons l ls =>
        have hlabels : (p.world.workspace.method m).sourceLabels ≠ [] := by
          simp [MethodDef.sourceLabels, hb, hls]
        have hne : m ≠ hook := by
          rintro rfl
          exact hlabels (sourceLabels_of_quiet hV.quiet)
        have hvisits : Visits s (m :: ms) p m p :=
          ⟨⟨[], ms, rfl, rfl⟩, by simp [hb], hlabels⟩
        refine (guardMethod_fills (hV.awaits hm (by simp [hb]) hne) hl hls hp
          hfilled).imp ?_ fun _ _ => id
        rintro - q hq
        refine hq.imp fun c hc => ?_
        obtain ⟨hsystem, hmethod, hc⟩ := hc
        exact ⟨hsystem, p, hmethod ▸ hvisits, hc⟩

/-- The methods of a system are visited one after another. -/
theorem visitMethods_fills (hV : p.world.workspace.Hooked t hook)
    (hl : H.lookup t = some hook)
    (hms : ∀ m ∈ ms, p.world.workspace.Declared t m)
    (hp : Holding (· = p.world.workspace) H p.world)
    (hfilled : Filled V mods hook base vs p.world) :
    Ends (ms.forM (visitMethod s)) p
      (fun _ q => q.world.workspace.Hooked t hook ∧
        Fills V mods hook base vs p.report (fun b => b.Within s t ms p) q)
      fun _ _ => True := by
  induction ms generalizing vs p with
  | nil =>
    exact Ends.of_run rfl ⟨hV, [], [], by simpa using hfilled, by simp, by simp⟩
  | cons m ms ih =>
    obtain ⟨hm, hms⟩ := List.forall_mem_cons.1 hms
    have hfirst := ((visitMethod_ends (s := s) hV hl hm hp).and
      (visitMethod_fills s ms hV hl hm hp hfilled)).and_run
    unfold List.forM
    refine Ends.bind (hfirst.imp ?_ fun _ _ _ => trivial)
    rintro ⟨⟩ q ⟨hrun, hq, bs, ds, hfilled', hr, hbs⟩
    have hrest := ih hq.world.workspace.hooked
      (fun n hn => (hms n hn).of_frame hq.world.workspace.frame)
        (hq.world.imp fun _ => rfl)
      hfilled'
    refine hrest.imp (fun _ q' hq' => ⟨hq'.1, ?_⟩) fun _ _ => id
    refine (hq'.2.imp fun b hb => ?_).append hr hbs
    exact ⟨hb.1, hb.2.imp fun _ hv => ⟨hv.1.cons hrun, hv.2⟩⟩

/-- Work with its failures as results has the results of the work. -/
theorem tryFailure_runs {α : Type} (act : Weave α) (w : World) :
    Ends (Weave.tryFailure act) w (fun r w' => match r with
        | .ok a => act w = .ok a w'
        | .error f => act w = .error (.failed f) w') fun _ _ => True := by
  have hact : Ends act w (fun a w' => act w = .ok a w') fun e w' => act w =
      .error e w' := by
    unfold Ends
    cases act w <;> rfl
  refine ends_tryFailure (hact.imp (fun _ _ h => h) ?_)
  rintro (f | text) w' h
  · exact h
  · trivial

/-- A system gets its hook. -/
theorem hookOf_trusts :
    Weave.Preserves (World.Trusts V mods) (Weave.hookOf t) := by
  refine Ends.triple fun w hw => ?_
  unfold Weave.hookOf
  refine Ends.bind (Ends.of_run rfl ?_)
  split
  · exact Ends.of_run rfl hw
  · refine Ends.bind (Ends.of_run rfl ?_)
    split
    · exact hw
    · refine Ends.bind (Ends.of_run rfl (Ends.bind (Ends.of_run rfl (Ends.bind
        (Ends.of_run rfl (Ends.of_run rfl ⟨?_⟩))))))
      have hadded := hw.holds.amend (Workspace.amends_addMethod w.workspace t
        (Weave.newHook (w.workspace.type t).head.base))
      exact { hadded with }

/-- A new hook has the code of no plan. -/
theorem builds_addHook (W : Workspace) (t : TypeId) :
    (W.addHook t).Builds ⟨W.methods.size⟩ (W.type t).head.base [] := by
  obtain ⟨b, hb, hbuilds⟩ := Body.Builds.newHook (W.type t).head.base
  refine ⟨b, ?_, hbuilds⟩
  have hentry := Workspace.methodEntry_addMethod W t
    (Weave.newHook (W.type t).head.base) ⟨W.methods.size⟩
  rw [if_pos rfl] at hentry
  rw [← hb]
  exact congrArg (·.method) hentry

/-- A system is processed: its hook has the code of the plans whose jobs are
reported. -/
theorem processSystem_fills {ts : List TypeId}
    (hV : p.world.workspace.Pending H (t :: ts))
    (hp : Holding (· = p.world.workspace) H p.world)
    (htrusts : p.world.Trusts V mods) :
    Ends (processSystem s t) p
      (fun _ q => q.world.Trusts V mods ∧
        ∃ (bs : List Batch) (ds : List Diagnostic),
        q.report = p.report.extend ds (bs.flatMap (·.jobs)) ∧
        (∀ b ∈ bs, ∃ hook w, Weave.hookOf t p.world = .ok hook w ∧
          b.Within s t (w.workspace.type t).methods { p with world := w }) ∧
        ∀ hook w, Weave.hookOf t p.world = .ok hook w →
          q.world.workspace.Declared t hook ∧
          q.world.workspace.Builds hook (p.world.workspace.type t).head.base
            (bs.flatMap (·.plans)))
      fun _ _ => True := by
  have hstart := (hookOf_ends hV hp).and ((Ends.of_triple
    (Weave.tryFailure_preserves (hookOf_trusts (t := t)))
      (World.Has.mk htrusts)).and
    (tryFailure_runs (Weave.hookOf t) p.world))
  unfold processSystem
  refine Ends.bind (ends_lift (hstart.imp ?_ fun _ _ _ => trivial))
  rintro (f | hook) w ⟨hw, htrusts, hrun⟩
  · -- the system declares the hook itself
    refine Ends.of_run (note_run _ _) ⟨htrusts.holds, [], f.note?.toList,
      by simp, by simp, ?_⟩
    intro hook w' hrun'
    rw [hrun] at hrun'
    cases hrun'
  obtain ⟨rfl, hw, hnone⟩ := hw
  obtain ⟨hhooked, hmoves, -, hmethods, hdeclared⟩ := hV.addHook hnone
  refine Ends.bind (ends_lift (Ends.of_run rfl ?_))
  have hall : ∀ n ∈ (w.workspace.type t).methods, w.workspace.Declared t n := by
    rw [hw.workspace, hmethods]
    intro n hn
    rcases List.mem_append.1 hn with hn | hn
    · exact (hV.declared t (by simp) n hn).of_frame hmoves.frame
    · exact List.mem_singleton.1 hn ▸ hdeclared
  have hfilled : Filled V mods ⟨p.world.workspace.methods.size⟩
      (p.world.workspace.type t).head.base [] w :=
    ⟨htrusts.holds, hw.workspace ▸ builds_addHook _ t⟩
  refine (visitMethods_fills (s := s) (p := { p with world := w })
    (hw.workspace ▸ hhooked) (List.lookup_cons_self ..) hall
      (hw.imp fun _ => rfl) hfilled).imp ?_ fun _ _ => id
  rintro - q ⟨hhooked', bs, ds, hq, hr, hbs⟩
  refine ⟨hq.trusts, bs, ds, hr, fun b hb => ⟨_, w, hrun, hbs b hb⟩,
    fun hook w' hrun' => ?_⟩
  rw [hrun] at hrun'
  cases hrun'
  exact ⟨hhooked'.declared, hq.builds⟩

/-- The batch is for a method that the pass hands over. -/
def Batch.From (b : Batch) (s : Settings) (ts : List TypeId)
    (p : PassState) : Prop :=
  ∃ q hook w, Reaches s ts p b.system q ∧ Weave.hookOf b.system q.world =
    .ok hook w ∧ b.Within s b.system (w.workspace.type b.system).methods
      { q with world := w }

/-- The plans in the batches of a system. -/
def plansFor (bs : List Batch) (t : TypeId) : List Plan :=
  (bs.filter (·.system = t)).flatMap (·.plans)

theorem plansFor_append (bs cs : List Batch) (t : TypeId) :
    plansFor (bs ++ cs) t = plansFor bs t ++ plansFor cs t := by
  simp [plansFor]

theorem plansFor_of_eq {bs : List Batch} (h : ∀ b ∈ bs, b.system = t) :
    plansFor bs t = bs.flatMap (·.plans) := by
  rw [plansFor, List.filter_eq_self.2 fun b hb => decide_eq_true (h b hb)]

theorem plansFor_of_ne {bs : List Batch} (h : ∀ b ∈ bs, b.system ≠ t) :
    plansFor bs t = [] := by
  rw [plansFor, List.filter_eq_nil_iff.2 fun b hb => by simpa using h b hb]
  rfl

/-- The systems of a module are processed: their hooks have the code of the
plans whose jobs are reported, in the same order. -/
theorem processSystems_fills (s : Settings) (ts rest : List TypeId)
    (hV : p.world.workspace.Pending H (ts ++ rest))
    (hp : Holding (· = p.world.workspace) H p.world)
    (htrusts : p.world.Trusts V mods) :
    Ends (ts.forM (processSystem s)) p
      (fun _ q => (∀ n m, n ∉ ts → p.world.workspace.Declared n m →
          q.world.workspace.method m = p.world.workspace.method m) ∧
        ∃ (bs : List Batch) (ds : List Diagnostic),
        q.report = p.report.extend ds (bs.flatMap (·.jobs)) ∧
        (∀ b ∈ bs, b.system ∈ ts ∧ b.From s ts p) ∧
        ∀ t q₁ hook w, Reaches s ts p t q₁ →
          Weave.hookOf t q₁.world = .ok hook w →
          q.world.workspace.Builds hook (q₁.world.workspace.type t).head.base
            (plansFor bs t))
      fun _ _ => True := by
  induction ts generalizing H p with
  | nil =>
    refine Ends.of_run rfl ⟨fun _ _ _ _ => rfl, [], [], by simp, by simp, ?_⟩
    rintro t q₁ hook w ⟨before, after, he, -⟩
    simp at he
  | cons t ts ih =>
    have hnot : t ∉ ts := fun h => (List.nodup_cons.1 hV.nodup).1
      (List.mem_append_left rest h)
    have hfirst := ((processSystem_ends (s := s) hV hp).and
      (processSystem_fills (s := s) hV hp htrusts)).and_run
    unfold List.forM
    refine Ends.bind (hfirst.imp ?_ fun _ _ _ => trivial)
    rintro ⟨⟩ q ⟨hrun, ⟨⟨H', hq⟩, -⟩, htrusts', bs, ds, hr, hbs, hhook⟩
    obtain ⟨hmoves, hpending⟩ := hq.workspace
    have hsystem : ∀ b ∈ bs, b.system = t := fun b hb => by
      obtain ⟨_, _, -, hwithin⟩ := hbs b hb
      exact hwithin.1
    refine (ih hpending (hq.imp fun _ => rfl) htrusts').imp ?_ fun _ _ => id
    rintro - q' ⟨hsame, cs, ds', hr', hcs, hhooks⟩
    have hothers : ∀ c ∈ cs, c.system ≠ t :=
      fun c hc he => hnot (he ▸ (hcs c hc).1)
    refine ⟨fun n m hn hm => ?_, bs ++ cs, ds ++ ds',
      by simp [hr, hr'], fun b hb => ?_, fun x q₁ hook w hreach hx => ?_⟩
    · obtain ⟨hne, hn⟩ := List.ne_and_not_mem_of_not_mem_cons hn
      exact (hsame n m hn (hm.of_frame hmoves.frame)).trans
        (hmoves.methods n m hne hm)
    · rcases List.mem_append.1 hb with hb | hb
      · obtain rfl := hsystem b hb
        obtain ⟨hook, w, hhook, hwithin⟩ := hbs b hb
        exact ⟨by simp, p, hook, w, ⟨[], ts, rfl, rfl⟩, hhook, hwithin⟩
      · obtain ⟨hmem, q₁, hook, w, hreach, hfrom⟩ := hcs b hb
        exact ⟨List.mem_cons_of_mem t hmem, q₁, hook, w,
          hreach.cons hrun, hfrom⟩
    · obtain ⟨before, after, hts, hbefore⟩ := hreach
      rw [plansFor_append]
      cases before with
      | nil =>
        -- the hook of the first system stays as it is
        obtain ⟨rfl, -⟩ := List.cons.inj hts
        cases hbefore
        obtain ⟨hdeclared, hbuilds⟩ := hhook hook w hx
        rw [plansFor_of_eq hsystem, plansFor_of_ne hothers, List.append_nil]
        exact hbuilds.of_method_eq (hsame t hook hnot hdeclared)
      | cons y before =>
        obtain ⟨rfl, rfl⟩ := List.cons.inj hts
        have hne : ∀ b ∈ bs, b.system ≠ x :=
          fun b hb he => hnot (by simp [← he, hsystem b hb])
        rw [plansFor_of_ne hne, List.nil_append]
        unfold List.forM at hbefore
        simp only [bind, EStateM.bind, hrun] at hbefore
        exact hhooks x q₁ hook w ⟨before, after, rfl, hbefore⟩ hx

end Pass

end JobWeave
