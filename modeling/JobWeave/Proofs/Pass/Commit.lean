import Mathlib
import JobWeave.Proofs.Chain.Analysis
import JobWeave.Proofs.Pass.Attempt
import JobWeave.Proofs.Weave.Runs

/-!
# Committing the plans of a method

The plans that an attempt leaves are committed one after another, and each
commit reports a job.  The pass works on a world and a report; work on the world
alone leaves the report as it is (`Pass.lift_spec`).

* `Report.extend` adds diagnostics and jobs to a report.
* `Workspace.Hooked` is a system with its creation hook.
* `JobEntry.Describes` relates an entry of the report to the struct it is about.
* `Pass.commitPlans_spec`: every plan gets its entry.
-/

namespace JobWeave

open Framework Std.Do

set_option mvcgen.warning false

/-! ## Reports -/

/-- The report with more diagnostics and jobs. -/
def Report.extend (r : Report) (ds : List Diagnostic) (js : List JobEntry) :
    Report :=
  { r with diagnostics := r.diagnostics ++ ds, jobs := r.jobs ++ js }

@[simp]
theorem Report.extend_nil (r : Report) : r.extend [] [] = r := by
  simp [extend]

@[simp]
theorem Report.extend_extend (r : Report) (ds ds' : List Diagnostic)
    (js js' : List JobEntry) :
    (r.extend ds js).extend ds' js' = r.extend (ds ++ ds') (js ++ js') := by
  simp [extend]

namespace Pass

variable {α : Type}

/-- Work on the world alone. -/
theorem ends_lift {act : Weave α} {p : PassState} {Q : α → PassState → Prop}
    {E : Stop → PassState → Prop}
    (h : Ends act p.world (fun a w => Q a { p with world := w })
      (fun e w => E e { p with world := w })) : Ends (liftM act : Pass α) p
        Q E := by
  unfold Ends at h ⊢
  simp only [liftM, monadLift, MonadLift.monadLift]
  cases hrun : act p.world <;> rw [hrun] at h <;> exact h

/-- Work on the world alone. -/
@[spec]
theorem lift_spec (act : Weave α)
    (Q : PostCond α (.except Stop (.arg PassState .pure))) :
    ⦃fun p => wp⟦act⟧ (fun a w => Q.1 a { p with world := w },
        fun e w => Q.2.1 e { p with world := w }, ()) p.world⦄
      (MonadLift.monadLift act : Pass α) ⦃Q⦄ := by
  intro p hp
  simp only [wp, EStateM.run, PredTrans.apply] at hp ⊢
  simp only [MonadLift.monadLift]
  cases hact : act p.world <;> rw [hact] at hp <;> exact hp

/-- Noting diagnostics changes the report alone. -/
theorem note_run (ds : List Diagnostic) (p : PassState) :
    note ds p = .ok () { p with report := p.report.extend ds [] } := by
  simp [note, modifyReport, modify, modifyGet, MonadStateOf.modifyGet,
    EStateM.modifyGet, Report.extend]

/-- Work on the world that gives a result and changes nothing. -/
theorem lift_bind_run {β : Type} {act : Weave α} {a : α} {p : PassState}
    (f : α → Pass β) (h : act p.world = .ok a p.world) :
    (liftM act >>= f) p = f a p := by
  simp [bind, EStateM.bind, liftM, monadLift, MonadLift.monadLift, h]

/-- An unexpected failure is an error. -/
theorem unexpected_run (m : MethodId) (cause : String) (w : World) :
    ∃ d, d.severity = .error ∧ Weave.unexpected m cause w = .ok d w :=
  ⟨_, rfl, rfl⟩

/-- A failure is reported by one diagnostic, which is an error if the failure is
serious. -/
theorem reportFailure_run (m : MethodId) (f : Failure) (p : PassState) :
    ∃ d, (f.IsSerious → d.severity = .error) ∧
      reportFailure m f p =
        .ok () { p with report := p.report.extend [d] [] } := by
  unfold reportFailure
  cases hf : f.note? with
  | some d => exact ⟨d, fun hs => hs d hf, note_run [d] p⟩
  | none =>
    obtain ⟨d, hd, hrun⟩ := unexpected_run m f.message p.world
    exact ⟨d, fun _ => hd, (lift_bind_run _ hrun).trans (note_run [d] p)⟩

end Pass

/-! ## Systems and their jobs -/

namespace Workspace

variable {V w : Workspace} {N : Set TypeId} {S K : Set MethodId} {t : TypeId}
variable {m hook : MethodId}

theorem Frame.grows (h : V.Frame (TypeEntry.Stays N K) S w) :
    V.Frame TypeEntry.Grows S w :=
  h.mono (fun _ _ hs => hs.toGrows) subset_rfl

/-- The full name of the type stays the same while types grow. -/
def Named (V : Workspace) (t : TypeId) : Prop :=
  ∀ S w, V.Frame TypeEntry.Grows S w → w.typeName t = V.typeName t

theorem Named.of_frame (h : V.Named t) (hf : V.Frame TypeEntry.Grows S w) :
    w.Named t := by
  intro S' w' hf'
  have hboth : V.Frame TypeEntry.Grows (S ∪ S') w' :=
    (hf.mono (fun _ _ => id) Set.subset_union_left).trans
      TypeEntry.Grows.trans hf' fun _ _ hm => .inr hm
  rw [h _ _ hboth, h _ _ hf]

/-- The system has one creation hook, which starts no chain. -/
structure Hooked (w : Workspace) (t : TypeId) (hook : MethodId) : Prop where
  /-- the system is there -/
  system : t.index < w.types.size
  /-- its nested types are there -/
  inner : ∀ n ∈ (w.type t).nested, n.index < w.types.size
  /-- its methods are there -/
  lt : ∀ n ∈ (w.type t).methods, n.index < w.methods.size
  /-- the hook is one of them -/
  mem : hook ∈ (w.type t).methods
  /-- no other has its name -/
  only : ∀ n ∈ (w.type t).methods,
    (w.method n).name = Member.onCreateForCompiler ↔ n = hook
  /-- it has code -/
  hasBody : (w.method hook).body.isSome
  /-- it belongs to the system -/
  hookOwner : (w.methodEntry hook).owner = some t
  /-- it is no copy -/
  model : (w.methodEntry hook).model = none
  /-- it starts no chain -/
  quiet : w.QuietAt hook
  /-- the system's full name is settled -/
  named : w.Named t

theorem Hooked.name (h : w.Hooked t hook) :
    (w.method hook).name = Member.onCreateForCompiler :=
  (h.only hook h.mem).2 rfl

theorem Hooked.lasting (h : w.Hooked t hook) : w.Lasting {hook} := by
  rintro n rfl
  refine ⟨h.lt n h.mem, ?_⟩
  rw [MethodDef.isConstructor, h.name]
  decide

/-- A system that grows keeps its hook if it gets no other methods. -/
theorem Hooked.of_grows (h : V.Hooked t hook) (hf : V.Frame TypeEntry.Grows S w)
    (hinner : ∀ n ∈ (w.type t).nested, n.index < w.types.size)
    (hsub : (w.type t).methods.Sublist (V.type t).methods)
    (hmem : hook ∈ (w.type t).methods) (hq : w.QuietAt hook) :
    w.Hooked t hook := by
  have hlt := h.lt hook h.mem
  refine ⟨h.system.trans_le hf.types_le, hinner, fun n hn => ?_, hmem,
    fun n hn => ?_, (hf.hasBody hook hlt).trans h.hasBody,
    (hf.owner_eq hlt).trans h.hookOwner, ?_, hq, h.named.of_frame hf⟩
  · exact (h.lt n (hsub.mem hn)).trans_le hf.methods_le
  · rw [hf.name_eq (h.lt n (hsub.mem hn))]
    exact h.only n (hsub.mem hn)
  · rw [hf.entry hook hlt]
    exact h.model

/-- A system keeps its hook while its types stay. -/
theorem Hooked.of_frame (h : V.Hooked t hook)
    (hf : V.Frame (TypeEntry.Stays N {hook}) S w)
    (hN : ∀ n ∈ N, n.index < w.types.size) (hq : w.QuietAt hook) :
    w.Hooked t hook := by
  have hstays := hf.type t h.system
  refine h.of_grows hf.grows (fun n hn => ?_) hstays.methods
    (hstays.kept hook rfl h.mem) hq
  exact (hstays.added n hn).elim
    (fun hold => (h.inner n hold).trans_le hf.types_le) (hN n)

end Workspace

/-- The entry is about a job of the method: the struct that it names is one of
the system. -/
structure JobEntry.Describes (e : JobEntry) (w : Workspace) (t : TypeId)
    (m : MethodId) (k : ChainKind) : Prop where
  /-- the system -/
  system : e.system = w.typeName t
  /-- the method is there -/
  lt : m.index < w.methods.size
  /-- its name -/
  method : e.method = (w.method m).name
  /-- the shape of the job -/
  kind : e.kind = k.name
  /-- the struct -/
  struct : ∃ n ∈ (w.type t).nested, n.index < w.types.size ∧
    (w.type n).head.name = e.struct ∧ (w.type n).head.isValueType

/-- An entry stays right while types grow. -/
theorem JobEntry.Describes.grow {e : JobEntry} {V w : Workspace} {t : TypeId}
    {m : MethodId} {k : ChainKind} {S : Set MethodId} (h : e.Describes V t m k)
    (hf : V.Frame TypeEntry.Grows S w) (ht : t.index < V.types.size)
    (hn : V.Named t) :
    e.Describes w t m k where
  system := h.system.trans (hn _ _ hf).symm
  lt := h.lt.trans_le hf.methods_le
  method := h.method.trans (hf.name_eq h.lt).symm
  kind := h.kind
  struct := by
    obtain ⟨n, hmem, hlt, hname, hvalue⟩ := h.struct
    have hgrow := hf.type n hlt
    exact ⟨n, (hf.type t ht).nested.subset hmem, hlt.trans_le hf.types_le,
      hgrow.name.trans hname, hgrow.isValueType hvalue⟩

namespace Pass

variable {V : Workspace} {H : List (TypeId × MethodId)} {t : TypeId}
variable {m hook : MethodId} {u : Plan} {us : List Plan} {r : Report}

/-- A ready plan is committed and its job reported, or there is a fault. -/
theorem commitPlan_spec (asStruct : Bool) (hl : H.lookup t = some hook)
    (hu : u.IsReady V) (hc : u.chain.system = t) (hm : m.index < V.methods.size)
    (hV : V.Hooked t hook) :
    ⦃fun p => ⌜Holding (· = V) H p.world ∧
    p.report = r⌝⦄ commitPlan m asStruct u
      ⦃post⟨fun _ p => ⌜Holding
        (fun w => V.Frame (TypeEntry.Stays {u.type} {hook}) {hook} w ∧
            w.QuietAt hook) H p.world ∧
            ∃ e : JobEntry, e.Describes p.world.workspace t m u.chain.kind ∧
              p.report = r.extend [] [e]⌝,
        fun _ p => ⌜Holding (V.Frame (TypeEntry.Stays {u.type} {hook}) {hook}) H
          p.world ∧ p.report = r⌝⟩⦄ := by
  subst hc
  have hcommit := Weave.tryFailure_spec (Weave.commit_spec (K := {hook}) hl
    hV.quiet hu.hosts hu.init hu.initLabels)
  mvcgen [commitPlan, modifyReport, hcommit]
  · rename_i hp
    exact hp.1
  · intro _ hfail
    exact absurd rfl (hfail _)
  · rename_i p hp _ w u' _ _ hw entry _
    obtain ⟨hw, hchain, htype⟩ := hw
    have hhost := hu.hosts.grow
      (hu.hosts.lt.trans_le hw.workspace.frame.types_le)
      (hw.workspace.frame.type _ hu.hosts.lt).toGrows
    refine ⟨hw.imp fun hc => ⟨hc.frame, hc.quiet⟩, entry,
      ⟨?_, hm.trans_le hw.workspace.frame.methods_le, rfl, ?_, ?_⟩, ?_⟩
    · exact congrArg (fun c => w.workspace.typeName c.system) hchain
    · exact congrArg (fun c => c.kind.name) hchain
    · refine ⟨u.type, hw.workspace.attached ?_, hhost.lt, ?_, hhost.isValueType⟩
      · exact hV.system.trans_le hw.workspace.frame.types_le
      · exact congrArg (fun t => (w.workspace.type t).head.name) htype.symm
    · rw [← hp.2]
      simp only [Report.extend, List.append_nil]
      rfl
  · rename_i hp _ _
    intro hw _
    exact ⟨hw, hp.2⟩

/-- The structs of some plans. -/
def structsOf (us : List Plan) : Set TypeId :=
  { n | ∃ u ∈ us, u.type = n }

/-- Ready plans are committed one after another. -/
theorem commitPlans_spec (asStruct : Bool) (hl : H.lookup t = some hook)
    (hus : ∀ u ∈ us, u.IsReady V) (hc : ∀ u ∈ us, u.chain.system = t)
    (hm : m.index < V.methods.size) (hV : V.Hooked t hook) :
    ⦃fun p => ⌜Holding (· = V) H p.world ∧
    p.report = r⌝⦄ us.forM (commitPlan m asStruct)
      ⦃post⟨fun _ p => ⌜Holding
        (fun w => V.Frame (TypeEntry.Stays (structsOf us) {hook}) {hook} w ∧
            w.QuietAt hook) H p.world ∧
            ∃ js, List.Forall₂ (fun (u : Plan) (e : JobEntry) =>
                e.Describes p.world.workspace t m u.chain.kind) us js ∧
              p.report = r.extend [] js⌝,
        fun _ p => ⌜Holding (V.Frame (TypeEntry.Stays (structsOf us) {hook})
          {hook}) H p.world ∧ ∃ js, p.report = r.extend [] js⌝⟩⦄ := by
  induction us generalizing V r with
  | nil =>
    unfold List.forM
    mvcgen
    rename_i p hp
    obtain ⟨hw, rfl⟩ := hp
    refine ⟨hw.imp fun he => ?_, [], .nil, by simp⟩
    rw [he]
    exact ⟨.refl (TypeEntry.Stays.refl _ _) _ _, hV.quiet⟩
  | cons u us ih =>
    obtain ⟨hu, hus⟩ := List.forall_mem_cons.1 hus
    obtain ⟨hcu, hc⟩ := List.forall_mem_cons.1 hc
    have hhead : {u.type} ⊆ structsOf (u :: us) := by
      rintro _ rfl
      exact ⟨u, by simp, rfl⟩
    have htail : structsOf us ⊆ structsOf (u :: us) := by
      rintro _ ⟨v, hv, he⟩
      exact ⟨v, List.mem_cons_of_mem _ hv, he⟩
    refine Ends.triple fun p hp => ?_
    unfold List.forM
    refine Ends.bind ((Ends.of_triple (commitPlan_spec asStruct hl hu hcu hm hV)
      hp).imp ?_ ?_)
    · rintro - q ⟨hq, e, he, hr⟩
      obtain ⟨hframe, hquiet⟩ := hq.workspace
      have hstruct : ∀ n ∈ ({u.type} : Set TypeId),
          n.index < q.world.workspace.types.size := by
        rintro n rfl
        exact hu.hosts.lt.trans_le hframe.types_le
      have hrest := Ends.of_triple (ih (V := q.world.workspace) (r := q.report)
        (fun v hv => (hus v hv).grow hframe fun _ _ hs => hs.toGrows) hc
        (hm.trans_le hframe.methods_le) (hV.of_frame hframe hstruct hquiet))
        ⟨hq.imp fun _ => rfl, rfl⟩
      have htrans : ∀ {w}, q.world.workspace.Frame
        (TypeEntry.Stays (structsOf us) {hook}) {hook} w →
          V.Frame (TypeEntry.Stays (structsOf (u :: us)) {hook}) {hook} w :=
        fun hf => (hframe.mono (TypeEntry.Stays.mono hhead) subset_rfl).trans
          TypeEntry.Stays.trans (hf.mono (TypeEntry.Stays.mono htail)
            subset_rfl) fun _ _ => id
      refine hrest.imp ?_ ?_
      · rintro - q' ⟨hq', js, hall, hjs⟩
        refine ⟨hq'.imp fun h => ⟨htrans h.1, h.2⟩, e :: js, .cons ?_ hall,
          by simp [hjs, hr]⟩
        exact he.grow hq'.workspace.1.grows (hV.system.trans_le hframe.types_le)
          (hV.named.of_frame hframe.grows)
      · rintro - q' ⟨hq', js, hjs⟩
        exact ⟨hq'.imp htrans, e :: js, by simp [hjs, hr]⟩
    · rintro - q ⟨hq, hr⟩
      exact ⟨hq.imp fun hf => hf.mono (TypeEntry.Stays.mono hhead) subset_rfl,
        [], by simp [hr]⟩

end Pass

end JobWeave
