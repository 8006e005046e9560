import Mathlib
import JobWeave.Proofs.Pass.Commit
import JobWeave.Proofs.Workspace.Loading

/-!
# Processing a method

A method of a system is processed whole or not at all.

* `Workspace.Awaits` is a method that the pass comes to, and
  `Workspace.Advances` what processing it does to the definitions.
* `Pass.finishMethod_ends`, `Pass.replaceChains_ends` and
  `Pass.processMethod_ends` say how the steps end.  What was reported before a
  fault may be anything, but what changed is framed.
-/

namespace JobWeave

open Framework Std.Do

set_option mvcgen.warning false

namespace Workspace

variable {V w : Workspace} {N : Set TypeId} {S : Set MethodId} {t : TypeId}
variable {m hook : MethodId} {d : MethodDef}

/-- The system gets a copy of a method under a name that is not the hook's. -/
theorem Hooked.addCopy (h : w.Hooked t hook)
    (hd : d.name ≠ Member.onCreateForCompiler) :
    (w.addCopy t m d).1.Hooked t hook := by
  have hgrows : w.Frame TypeEntry.Grows ∅ (w.addCopy t m d).1 :=
    (Frame.refl TypeEntry.Grows.refl ∅ w).addCopy t m d fun _ _ hr =>
      ⟨hr.name, hr.ns, hr.outer, hr.isValueType, hr.nested⟩
  have hold : ∀ n ∈ (w.type t).methods, (w.addCopy t m d).1.methodEntry n =
      w.methodEntry n :=
    fun n hn => hgrows.methodEntry_eq (h.lt n hn) (Set.notMem_empty n)
  have hnew : ((w.addCopy t m d).1.method ⟨w.methods.size⟩).name = d.name := by
    simp [Workspace.addCopy, addMethod, newMethod, attachMethod,
      updateType, method, methodEntry, Array.getElem_modify]
  have htype : (w.addCopy t m d).1.type t = { w.type t with
      methods := (w.type t).methods ++ [⟨w.methods.size⟩] } := by
    have := type_addMethod w t t d
    rwa [if_pos ⟨rfl, h.system⟩] at this
  have hhook := hold hook h.mem
  refine ⟨by simpa using h.system, ?_, fun n hn => ?_, ?_, fun n hn => ?_, ?_,
    ?_, ?_, ?_, h.named.of_frame hgrows⟩
  · rw [htype]
    simpa using h.inner
  · rw [htype, List.mem_append, List.mem_singleton] at hn
    rcases hn with hn | rfl
    · exact (h.lt n hn).trans_le hgrows.methods_le
    · simp
  · rw [htype]
    exact List.mem_append_left _ h.mem
  · rw [htype, List.mem_append, List.mem_singleton] at hn
    rcases hn with hn | rfl
    · rw [method, hold n hn]
      exact h.only n hn
    · rw [hnew]
      refine iff_of_false hd fun he => ?_
      have := h.lt hook h.mem
      rw [← he] at this
      exact Nat.lt_irrefl _ this
  · rw [method, hhook]
    exact h.hasBody
  · rw [hhook]
    exact h.hookOwner
  · rw [hhook]
    exact h.model
  · intro b hb
    rw [method, hhook] at hb
    exact h.quiet b hb

/-- The pass comes to a method of a system that has its hook. -/
structure Awaits (V : Workspace) (t : TypeId) (m hook : MethodId) : Prop
    extends V.Hooked t hook where
  /-- the system declares the method -/
  owner : (V.methodEntry m).owner = some t
  /-- the method has code -/
  edits : V.Edits (V.kin m) m
  /-- it is not the hook -/
  apart : hook ∉ V.kin m

/-- The types that are there. -/
def present (w : Workspace) : Set TypeId :=
  { n | n.index < w.types.size }

theorem Frame.present_subset {R : TypeEntry → TypeEntry → Prop}
    (h : V.Frame R S w) :
    V.present ⊆ w.present :=
  fun _ hn => Nat.lt_of_lt_of_le hn h.types_le

/-- The methods whose code processing a method may change. -/
def touched (V : Workspace) (m hook : MethodId) : Set MethodId :=
  V.kin m ∪ V.kin hook

/-- What processing a method of a system does to the definitions: the system may
have got more, and of the other types closures may have become value types. -/
structure Advances (V : Workspace) (t : TypeId) (m hook : MethodId)
    (w : Workspace) : Prop where
  /-- what was there before -/
  frame : V.Frame TypeEntry.Grows (V.touched m hook) w
  /-- the other types -/
  others : ∀ n, n ≠ t → n.index < V.types.size →
    (V.type n).Stays w.present {hook} (w.type n)
  /-- the system still has its hook -/
  hooked : w.Hooked t hook

theorem Advances.of_frame (h : V.Hooked t hook)
    (hf : V.Frame (TypeEntry.Stays N {hook}) (V.touched m hook) w)
    (hN : N ⊆ w.present) (hq : w.QuietAt hook) : V.Advances t m hook w :=
  ⟨hf.grows, fun n _ hn => (hf.type n hn).mono hN, h.of_frame hf hN hq⟩

/-- The hook stays quiet while only the method and its copies change. -/
theorem Awaits.quietAt {R : TypeEntry → TypeEntry → Prop}
    (h : V.Awaits t m hook) (hf : V.Frame R (V.kin m) w) : w.QuietAt hook := by
  intro b hb
  rw [hf.body hook (h.lt hook h.mem) h.apart] at hb
  exact h.quiet b hb

/-- The method is as it was, and so is its system: fields, methods and nested
types, the nested types' bases, flags and methods, and the code of the hook.
Other methods have not changed either, copies of the two apart. -/
structure Kept (V : Workspace) (t : TypeId) (m hook : MethodId)
    (w : Workspace) : Prop where
  /-- the method's code -/
  code : SameCodeAt m V w
  /-- the fields of the system -/
  fields : (w.type t).head.fields = (V.type t).head.fields
  /-- its methods -/
  methods : (w.type t).methods = (V.type t).methods
  /-- its nested types -/
  nested : (w.type t).nested = (V.type t).nested
  /-- the bases of the nested types -/
  bases : ∀ n ∈ (V.type t).nested, (w.type n).head.base = (V.type n).head.base
  /-- their flags -/
  flags : ∀ n ∈ (V.type t).nested, (w.type n).head.flags = (V.type n).head.flags
  /-- their methods -/
  innerMethods : ∀ n ∈ (V.type t).nested,
    (w.type n).methods = (V.type n).methods
  /-- the hook's code -/
  hookCode : SameCodeAt hook V w
  /-- the other methods -/
  others : ∀ n, n.index < V.methods.size → n ∉ V.touched m hook →
    w.method n = V.method n

/-- Where the types and the hook did not change, undoing the work on the method
is enough. -/
theorem Awaits.kept_of_undone (h : V.Awaits t m hook) (hu : V.Undone m w) :
    V.Kept t m hook w := by
  have htype : ∀ n, n.index < V.types.size → w.type n = V.type n := fun n hn =>
    (hu.frame.type n hn).symm
  have hinner : ∀ n ∈ (V.type t).nested, w.type n = V.type n := fun n hn =>
    htype n (h.inner n hn)
  refine ⟨hu.code, ?_, ?_, ?_, fun n hn => ?_, fun n hn => ?_,
    fun n hn => ?_, ?_, ?_⟩
  · rw [htype t h.system]
  · rw [htype t h.system]
  · rw [htype t h.system]
  · rw [hinner n hn]
  · rw [hinner n hn]
  · rw [hinner n hn]
  · intro b hb
    exact ⟨b, by rwa [hu.frame.body hook (h.lt hook h.mem) h.apart], .refl b⟩
  · exact fun n hn hS => hu.frame.method_eq hn fun hk => hS (.inl hk)

theorem Awaits.of_undone (h : V.Awaits t m hook) (hu : V.Undone m w) :
    V.Advances t m hook w :=
  .of_frame h.toHooked (hu.frame.mono TypeEntry.Stays.of_eq
    Set.subset_union_left) (fun _ hn => absurd hn (Set.notMem_empty _))
      (h.quietAt hu.frame)

theorem Advances.addCopy (h : V.Advances t m hook w)
    (hd : d.name ≠ Member.onCreateForCompiler) :
    V.Advances t m hook (w.addCopy t m d).1 where
  frame := h.frame.addCopy t m d fun _ _ hr =>
    ⟨hr.name, hr.ns, hr.outer, hr.isValueType, hr.nested⟩
  others := fun n hne hn => by
    have htype : (w.addCopy t m d).1.type n = w.type n := by
      have := type_addMethod w t n d
      rwa [if_neg fun hc => hne hc.1] at this
    rw [htype]
    exact (h.others n hne hn).mono fun _ hx => Nat.lt_of_lt_of_eq hx
      (types_addCopy w t m d).symm
  hooked := h.hooked.addCopy hd

/-- A change of the method after a change of it and the hook. -/
theorem Frame.trans_touched {R : TypeEntry → TypeEntry → Prop} {w' : Workspace}
    (hR : ∀ a b c, R a b → R b c → R a c) (h : V.Frame R (V.touched m hook) w)
    (h' : w.Frame R (w.kin m) w') (hm : m.index < V.methods.size) :
    V.Frame R (V.touched m hook) w' :=
  h.trans hR h' fun _ hn he => .inl (h.mem_kin hm hn he)

end Workspace

namespace Pass

variable {V : Workspace} {H : List (TypeId × MethodId)} {t : TypeId}
  {m hook : MethodId}
variable {us : List Plan} {ds : List Diagnostic} {fs : List Failure}
  {cs : List Chain}
variable {p : PassState} {r : Report}

/-- How processing a method ends without a fault: each of the `xs`, which are of
the kinds that `K` says, has its job, or an error was reported, and without a
job the method is as it was. -/
structure Settled {α : Type} (V : Workspace) (H : List (TypeId × MethodId))
    (t : TypeId) (m hook : MethodId) (K : α → ChainKind → Prop) (xs : List α)
    (r : Report) (q : PassState) : Prop where
  /-- the definitions -/
  world : Holding (V.Advances t m hook) H q.world
  /-- the report -/
  report : ∃ ds js, q.report = r.extend ds js ∧
    (js = [] → V.Kept t m hook q.world.workspace) ∧
    ((∃ d ∈ ds, d.severity = .error) ∨
      List.Forall₂ (fun x (e : JobEntry) =>
        ∃ k, K x k ∧ e.Describes q.world.workspace t m k) xs js)

/-- How processing a method comes upon a fault. -/
structure Stopped (V : Workspace) (H : List (TypeId × MethodId))
    (m hook : MethodId) (r : Report) (q : PassState) : Prop where
  /-- the definitions -/
  world : Holding
    (fun w => V.Frame (TypeEntry.Stays w.present {hook}) (V.touched m hook) w)
      H q.world
  /-- the report -/
  report : ∃ ds js, q.report = r.extend ds js

/-- Serious failures are reported as errors. -/
theorem reportFailures_run (m : MethodId) (fs : List Failure) (p : PassState) :
    ∃ ds, ((∀ f ∈ fs, f.IsSerious) → fs ≠ [] → ∃ d ∈ ds, d.severity = .error) ∧
      fs.forM (reportFailure m) p =
        .ok () { p with report := p.report.extend ds [] } := by
  induction fs generalizing p with
  | nil => exact ⟨[], by simp, by simp [List.forM, pure, EStateM.pure]⟩
  | cons f fs ih =>
    obtain ⟨d, hd, hrun⟩ := reportFailure_run m f p
    obtain ⟨ds, -, hrest⟩ := ih { p with report := p.report.extend [d] [] }
    refine ⟨d :: ds, fun hs _ => ⟨d, by simp, hd (hs f (by simp))⟩, ?_⟩
    unfold List.forM
    simp only [bind, EStateM.bind, hrun, hrest]
    simp

/-- Folding code into macro forms changes the method alone. -/
theorem optimizeBody_ends {w : World} (hw : Holding (· = V) H w)
    (hm : V.Edits (V.kin m) m) :
    Ends (Weave.optimizeBody m) w
      (fun _ w' => Holding (V.Frame Eq (V.kin m)) H w')
      fun _ w' => Holding (V.Frame Eq (V.kin m)) H w' := by
  have hspec : Weave.Keeps (V.Frame Eq (V.kin m)) H (Weave.optimizeBody m) := by
    mvcgen [Weave.optimizeBody]
    all_goals grind
  have hstart : Holding (V.Frame Eq (V.kin m)) H w :=
    hw.imp fun he => he ▸ .refl (fun _ => rfl) _ _
  exact (Ends.of_triple hspec hstart).imp (fun _ _ h => h) fun _ _ h => h.1

/-- A copy that is kept does not have the hook's name. -/
theorem name_unprocessed_ne (d : MethodDef) :
    (unprocessed d).name ≠ Member.onCreateForCompiler := by
  intro h
  have hlast := congrArg (fun s : String => s.toList.getLast?) h
  simp [unprocessed, MethodDef.copyAs, unprocessedSuffix,
    Member.onCreateForCompiler] at hlast

/-- The plans of an attempt are committed. -/
theorem finishMethod_ends {s : Settings} {d : MethodDef} (asStruct : Bool)
    (hV : V.Awaits t m hook) (hl : H.lookup t = some hook)
    (hcs : ∀ c ∈ cs, c.system = t)
    (hp : Holding ((Attempt.done us ds fs).Leaves V {hook} m cs) H p.world) :
    Ends (finishMethod s m (unprocessed d) asStruct us ds fs) p
      (fun _ q => Settled V H t m hook (fun c k => c.kind = k) cs p.report q)
      fun _ q => Stopped V H m hook p.report q := by
  obtain ⟨hnone, hframe, hready, haccount⟩ := hp.workspace
  obtain ⟨ds', hds', hnotes⟩ :=
    reportFailures_run m fs { p with report := p.report.extend ds [] }
  unfold finishMethod
  refine Ends.bind (Ends.of_run (note_run ds p)
    (Ends.bind (Ends.of_run hnotes ?_)))
  simp only [Report.extend_extend, List.append_nil]
  have herror : fs ≠ [] → ∃ d ∈ ds ++ ds', d.severity = .error := fun hfs => by
    obtain ⟨d, hd, hsev⟩ := hds' haccount.serious hfs
    exact ⟨d, List.mem_append_right _ hd, hsev⟩
  have hkinds : ∀ {js : List JobEntry} {w : Workspace},
    List.Forall₂ (fun (u : Plan)
      (e : JobEntry) => e.Describes w t m u.chain.kind) us js →
      (∃ d ∈ ds ++ ds', d.severity = .error) ∨
        List.Forall₂ (fun (c : Chain) (e : JobEntry) =>
          ∃ k, c.kind = k ∧ e.Describes w t m k) cs js := by
    intro js w hjs
    by_cases hfs : fs = []
    · refine .inr ?_
      rw [← haccount.all hfs, List.forall₂_map_left_iff]
      exact hjs.imp fun u _ he => ⟨u.chain.kind, rfl, he⟩
    · exact .inl (herror hfs)
  by_cases hus : us = []
  · subst hus
    refine Ends.of_run rfl ⟨hp.imp fun _ => hV.of_undone (hnone rfl), ds ++ ds',
      [], rfl, fun _ => hV.kept_of_undone (hnone rfl), hkinds .nil⟩
  have hne : us.isEmpty = false := by simpa using hus
  simp only [hne, Bool.false_eq_true, if_false]
  -- the definitions after the attempt are those the commits start from
  have hhooked := hV.toHooked.of_frame hframe
    (fun _ hn => absurd hn (Set.notMem_empty _)) (hV.quietAt hframe)
  have hstart : Holding (· = p.world.workspace) H p.world := hp.imp fun _ => rfl
  have hcommit := Ends.of_triple (commitPlans_spec (V := p.world.workspace)
    (m := m) (r := p.report.extend (ds ++ ds') []) asStruct hl hready
    (fun u hu => hcs _ (haccount.mem u hu))
      (hV.edits.lt.trans_le hframe.methods_le) hhooked)
    (s := { p with report := p.report.extend (ds ++ ds') [] }) ⟨hstart, rfl⟩
  have htouched : ∀ {w}, p.world.workspace.Frame
    (TypeEntry.Stays (structsOf us) {hook}) {hook} w →
      V.Frame (TypeEntry.Stays (structsOf us) {hook}) (V.touched m hook) w :=
    fun hf => (hframe.mono (TypeEntry.Stays.mono (Set.empty_subset _))
      Set.subset_union_left).trans TypeEntry.Stays.trans hf
        fun n _ hn => .inr (hn ▸ Workspace.mem_kin_self)
  have hstructs : structsOf us ⊆ p.world.workspace.present := by
    rintro n ⟨u, hu, rfl⟩
    exact (hready u hu).hosts.lt
  refine Ends.bind (hcommit.imp ?_ ?_)
  swap
  · rintro - q ⟨hq, js, hr⟩
    exact ⟨hq.imp fun hf => (htouched hf).mono
      (TypeEntry.Stays.mono (hstructs.trans hf.present_subset)) subset_rfl,
      ds ++ ds', js, hr.trans (by simp)⟩
  rintro - q ⟨hq, js, hjs, hr⟩
  obtain ⟨hq₁, hquiet⟩ := hq.workspace
  have hV₁ := htouched hq₁
  have hedits : q.world.workspace.Edits (q.world.workspace.kin m) m :=
    hV.edits.of_frame hV₁
  have hoptimize := optimizeBody_ends (V := q.world.workspace)
    (hq.imp fun _ => rfl) hedits
  have hafter : ∀ {w}, q.world.workspace.Frame Eq (q.world.workspace.kin m) w →
      V.Frame (TypeEntry.Stays (structsOf us) {hook}) (V.touched m hook) w :=
    fun hf => hV₁.trans_touched TypeEntry.Stays.trans
      (hf.mono TypeEntry.Stays.of_eq subset_rfl) hV.edits.lt
  have hpresent : ∀ {w}, q.world.workspace.Frame Eq
    (q.world.workspace.kin m) w →
      structsOf us ⊆ w.present := fun hf =>
    hstructs.trans (hq₁.present_subset.trans hf.present_subset)
  have hreport : q.report = p.report.extend (ds ++ ds') js := hr.trans (by simp)
  refine Ends.bind (ends_lift (hoptimize.imp ?_ ?_))
  swap
  · intro _ w hw
    exact ⟨hw.imp fun hf => (hafter hf).mono
      (TypeEntry.Stays.mono (hpresent hf)) subset_rfl, _, js, hreport⟩
  intro _ w hw
  -- the hook is not the method, so it is still quiet
  have hapart : hook ∉ q.world.workspace.kin m := fun hmem =>
    hV.apart (hV₁.mem_kin hV.edits.lt (hV.lt hook hV.mem) hmem)
  have hquiet₂ : w.workspace.QuietAt hook := fun b hb => hquiet b (by
    rwa [hw.workspace.body hook ((hV.lt hook hV.mem).trans_le hV₁.methods_le)
      hapart] at hb)
  have hadvance : V.Advances t m hook w.workspace :=
    .of_frame hV.toHooked (hafter hw.workspace) (hpresent hw.workspace) hquiet₂
  have hgrows : q.world.workspace.Frame TypeEntry.Grows
      (q.world.workspace.kin m) w.workspace :=
    hw.workspace.mono (fun a _ he => he ▸ .refl a) subset_rfl
  have hjs₂ : List.Forall₂ (fun (u : Plan) (e : JobEntry) =>
      e.Describes w.workspace t m u.chain.kind) us js :=
    hjs.imp fun _ _ he => he.grow hgrows (hV.system.trans_le hV₁.types_le)
      (hV.named.of_frame hV₁.grows)
  have hnonempty : js ≠ [] := by
    rintro rfl
    exact hus (List.forall₂_nil_right_iff.1 hjs)
  cases hkeep : s.keepUnprocessed with
  | false =>
    exact Ends.of_run rfl ⟨hw.imp fun _ => hadvance, ds ++ ds', js, hreport,
      fun hnil => absurd hnil hnonempty, hkinds hjs₂⟩
  | true =>
    have howner : (w.workspace.methodEntry m).owner = some t :=
      ((hafter hw.workspace).owner_eq hV.edits.lt).trans hV.owner
    have hrun : Weave.ownerOf m w = .ok t w := by
      simp [Weave.ownerOf, Weave.workspace, Weave.need, howner, bind,
        EStateM.bind, get, getThe, MonadStateOf.get, EStateM.get, pure,
        EStateM.pure]
    refine Ends.bind
      (ends_lift (Ends.of_run hrun (ends_lift (Ends.of_run rfl ?_))))
    have hcopy := hadvance.addCopy (d := unprocessed d) (name_unprocessed_ne d)
    have hcopied : w.workspace.Frame TypeEntry.Grows ∅
        (w.workspace.addCopy t m (unprocessed d)).1 :=
      (Workspace.Frame.refl TypeEntry.Grows.refl ∅ _).addCopy t m
          _ fun _ _ hr =>
        ⟨hr.name, hr.ns, hr.outer, hr.isValueType, hr.nested⟩
    refine ⟨⟨hcopy, hw.hooks, hw.ordinary⟩, ds ++ ds', js, hreport,
      fun hnil => absurd hnil hnonempty, hkinds (hjs₂.imp fun _ _ he => ?_)⟩
    exact he.grow hcopied hadvance.hooked.system hadvance.hooked.named

/-- Chains that were analysed are replaced. -/
theorem replaceChains_ends {s : Settings} (hV : V.Awaits t m hook)
    (hl : H.lookup t = some hook) (hcs : ∀ c ∈ cs, c.method = m ∧ c.system = t)
    (hp : Holding (· = V) H p.world) :
    Ends (replaceChains s m cs) p
      (fun _ q => Settled V H t m hook (fun c k => c.kind = k) cs p.report q)
      fun _ q => Stopped V H m hook p.report q := by
  have hundone : Holding (V.Undone m) H p.world :=
    hp.imp fun he => he ▸ .refl m V
  have hattempt := Ends.of_triple (Weave.attemptChains_spec (s := s)
    (K := {hook}) (H := H) hV.edits hV.toHooked.lasting
      fun c hc => (hcs c hc).1) hundone
  unfold replaceChains
  refine Ends.bind
    (ends_lift (Ends.of_run rfl (Ends.bind (ends_lift (hattempt.imp ?_ ?_)))))
  · rintro ⟨asStruct, r⟩ w ⟨hw, us, ds, fs, rfl⟩
    exact finishMethod_ends asStruct hV hl (fun c hc => (hcs c hc).2)
      (p := { p with world := w }) hw
  · intro _ w hw
    exact ⟨hw.imp fun hf => hf.mono (TypeEntry.Stays.mono (Set.empty_subset _))
      Set.subset_union_left, [], [], by simp⟩

/-- Lists that are related one by one to a list in the middle. -/
theorem forall₂_comp {α β γ : Type} {R : α → β → Prop} {Q : β → γ → Prop}
    {as : List α} {bs : List β} {cs : List γ} (h : List.Forall₂ R as bs)
    (h' : List.Forall₂ Q bs cs) :
    List.Forall₂ (fun a c => ∃ b, R a b ∧ Q b c) as cs := by
  induction h generalizing cs with
  | nil =>
    cases h'
    exact .nil
  | cons hab _ ih =>
    cases h' with
    | cons hbc hrest => exact .cons ⟨_, hab, hbc⟩ (ih hrest)

/-- Results that are settled one by one split into failures, which are serious,
and chains; without a failure there is a chain for each. -/
theorem settled_results {α : Type} {R : α → Chain → Prop} {xs : List α}
    {rs : List (Except Failure Chain)}
    (h : List.Forall₂ (fun x => Weave.Settles (R x)) xs rs) :
    (∀ f ∈ failuresOf rs, f.IsSerious) ∧
      (∀ c ∈ rs.filterMap Except.toOption, ∃ x, R x c) ∧
      (failuresOf rs = [] → List.Forall₂ R xs
        (rs.filterMap Except.toOption)) := by
  induction h with
  | nil => simp [failuresOf]
  | @cons x r xs rs hx _ ih =>
    cases r with
    | error f =>
      have hfail : failuresOf (.error f :: rs) = f :: failuresOf rs := rfl
      have hchain : (Except.error f :: rs).filterMap Except.toOption =
          rs.filterMap (Except.toOption (ε := Failure)) := rfl
      rw [hfail, hchain]
      exact ⟨List.forall_mem_cons.2 ⟨hx, ih.1⟩, ih.2.1,
        fun hnil => by cases hnil⟩
    | ok c =>
      have hfail : failuresOf (.ok c :: rs) = failuresOf rs := rfl
      have hchain : (Except.ok c :: rs).filterMap Except.toOption =
          c :: rs.filterMap (Except.toOption (ε := Failure)) := rfl
      rw [hfail, hchain]
      exact ⟨ih.1, List.forall_mem_cons.2 ⟨⟨x, hx⟩, ih.2.1⟩,
        fun hnil => .cons hx (ih.2.2 hnil)⟩

/-- The label is that of a source call of a kind. -/
def SourceAt (b : Body) (l : Label) (k : ChainKind) : Prop :=
  (b.get l).sourceKind = .ok (some k)

/-- Every source call of a method gets its job, or an error is reported. -/
theorem processMethod_ends {s : Settings} {ls : List Label}
    (hV : V.Awaits t m hook) (hl : H.lookup t = some hook)
    (hls : (V.method m).sources = .ok ls) (hp : Holding (· = V) H p.world) :
    Ends (processMethod s m) p
      (fun _ q => Settled V H t m hook (SourceAt (V.method m).code) ls
        p.report q)
      fun _ q => Stopped V H m hook p.report q := by
  have hundone : Holding (V.Undone m) H p.world :=
    hp.imp fun he => he ▸ .refl m V
  have hread := Ends.of_triple (Weave.chainsIn_gives (I := (· = V)) (H := H)
    (m := m) (o := some t) (fun w hw => hw ▸ hV.owner)
      (fun w hw => by rw [hw]) hls) hp
  unfold processMethod
  refine Ends.bind (ends_lift (hread.imp ?_ ?_))
  swap
  · rintro e w ⟨hw, -⟩
    exact ⟨hw.imp fun he => he ▸ .refl (TypeEntry.Stays.refl _ _) _ _, [], [],
      by simp⟩
  rintro results w ⟨hw, hresults⟩
  obtain ⟨hserious, hchains, hall⟩ := settled_results hresults
  have hkept : ∀ {ds : List Diagnostic}, (∃ d ∈ ds, d.severity = .error) ∨
    ls = [] →
      Settled V H t m hook (SourceAt (V.method m).code) ls p.report
        { world := w, report := p.report.extend ds [] } := fun {ds} hds => by
    have hundone : Holding (V.Undone m) H w := hw.imp fun he => he ▸ .refl m V
    refine ⟨hundone.imp hV.of_undone, ds, [], rfl,
      fun _ => hV.kept_of_undone hundone.workspace, ?_⟩
    exact hds.imp_right (by rintro rfl; exact .nil)
  split
  · -- too many chains
    obtain ⟨d, hd, hrun⟩ := reportFailure_run m (.detailed
      { phase := .analyze, kind := .outOfBounds,
        member := w.workspace.methodName m,
        detail := toString results.length ++ " chains exceed the limit of " ++
          toString s.chainLimit }) { p with world := w }
    refine Ends.bind
      (ends_lift (Ends.of_run rfl (Ends.bind (Ends.of_run hrun ?_))))
    refine Ends.of_run rfl (hkept (.inl ⟨d, by simp, hd ?_⟩))
    exact Failure.isSerious_of_note?_eq_none rfl
  obtain ⟨ds, hds, hnotes⟩ :=
    reportFailures_run m (failuresOf results) { p with world := w }
  refine Ends.bind (Ends.of_run hnotes ?_)
  have herror : failuresOf results ≠ [] → ∃ d ∈ ds, d.severity = .error :=
    hds hserious
  simp only
  split
  · -- some chain can be replaced
    refine (replaceChains_ends hV hl (fun c hc => ?_)
      (p := { world := w, report := p.report.extend ds [] }) hw).imp ?_ ?_
    · obtain ⟨x, hx⟩ := hchains c hc
      exact ⟨hx.method, (Option.some.inj hx.system).symm⟩
    · rintro - q ⟨hq, ds', js, hr, hnone, hjs⟩
      refine ⟨hq, ds ++ ds', js, hr.trans (by simp), hnone, ?_⟩
      by_cases hfs : failuresOf results = []
      · rcases hjs with ⟨d, hd, hsev⟩ | hjs
        · exact .inl ⟨d, List.mem_append_right _ hd, hsev⟩
        · refine .inr ?_
          rw [← List.zipIdx_map_fst 0 ls, List.forall₂_map_left_iff]
          refine (forall₂_comp (hall hfs) hjs).imp ?_
          rintro x e ⟨c, hc, k, rfl, he⟩
          exact ⟨c.kind, hc.source ▸ hc.kind, he⟩
      · obtain ⟨d, hd, hsev⟩ := herror hfs
        exact .inl ⟨d, List.mem_append_left _ hd, hsev⟩
    · rintro e q ⟨hq, ds', js, hr⟩
      exact ⟨hq, ds ++ ds', js, hr.trans (by simp)⟩
  · -- no chain was read
    refine Ends.of_run rfl (hkept ?_)
    by_cases hfs : failuresOf results = []
    · rename_i hempty
      have hnone := hall hfs
      rw [show results.filterMap Except.toOption = [] by simpa using hempty,
        List.forall₂_nil_right_iff] at hnone
      exact .inr (by simpa using hnone)
    · exact .inl (herror hfs)

end Pass

end JobWeave
