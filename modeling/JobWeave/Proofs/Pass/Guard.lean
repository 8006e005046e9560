import Mathlib
import JobWeave.Proofs.Pass.Method

/-!
# All or nothing

A fault while a method is processed puts the method and its system back.  So a
method for which no job is reported is as it was, whatever happened to it, and
so is its system.

* `Pass.SystemState.Of` is a recorded state, and `Workspace.Kept.of_restored`
  what putting it back achieves.
* `Pass.guardMethod_ends` says how processing a method ends, faults included.
-/

namespace JobWeave

open Framework Std.Do

set_option mvcgen.warning false

namespace Workspace

variable {V w : Workspace} {t : TypeId} {m hook : MethodId}

/-- Types that are changed one after another, each in a way that changes nothing
the second time. -/
theorem type_foldl_updateType {f : TypeId → TypeEntry → TypeEntry}
    (hf : ∀ n e, f n (f n e) = f n e) (ns : List TypeId) (w : Workspace)
    (x : TypeId) :
    (ns.foldl (fun w n => w.updateType n (f n)) w).type x =
      if x ∈ ns ∧ x.index < w.types.size then f x (w.type x) else w.type x := by
  induction ns generalizing w with
  | nil => simp
  | cons n ns ih =>
    rw [List.foldl_cons, ih, type_updateType, size_types_updateType]
    by_cases hx : x = n
    · subst hx
      by_cases hlt : x.index < w.types.size <;> by_cases hmem : x ∈ ns <;>
        simp [hlt, hmem, hf]
    · simp [hx]

end Workspace

namespace Pass

variable {V w : Workspace} {t : TypeId} {m hook : MethodId} {s : SystemState}
  {b : Body}

/-- The types of a system as they were recorded. -/
structure SystemState.Records (s : SystemState) (V : Workspace) (t : TypeId) :
    Prop where
  /-- the system -/
  type : s.type = t
  /-- its entry -/
  entry : s.entry = V.type t
  /-- its nested types -/
  nested : s.nested = (V.type t).nested.map fun n => (n, V.type n)

/-- The state of a system as it was recorded. -/
structure SystemState.Of (s : SystemState) (V : Workspace) (t : TypeId)
    (hook : MethodId) (b : Body) : Prop extends s.Records V t where
  /-- its hook -/
  hook : s.hook = some (hook, b)

/-- A recorded state is put back into an entry that stayed. -/
theorem SystemState.Of.stays_restoreType {N : Set TypeId} {K : Set MethodId}
    {e : TypeEntry} (hs : s.Of V t hook b) (h : (V.type t).Stays N K e) :
    (V.type t).Stays N K (s.restoreType e) where
  name := h.name
  ns := h.ns
  outer := h.outer
  isValueType := h.isValueType
  nested := by rw [restoreType, hs.entry]
  added := fun n hn => .inl (by rwa [restoreType, hs.entry] at hn)
  methods := by rw [restoreType, hs.entry]
  kept := fun n _ hn => by rwa [restoreType, hs.entry]

theorem stays_restoreNested {N : Set TypeId} {K : Set MethodId}
    {a e : TypeEntry} (h : a.Stays N K e) :
    a.Stays N K (restoreNested a e) where
  name := h.name
  ns := h.ns
  outer := h.outer
  isValueType := id
  nested := h.nested
  added := h.added
  methods := .refl _
  kept := fun _ _ hn => hn

/-- The types after they were put back. -/
theorem SystemState.Records.type_restoreTypes (hs : s.Records V t)
    (w : Workspace) (x : TypeId) :
    (s.restoreTypes w).type x =
      let e :=
        if x = t ∧ t.index < w.types.size then s.restoreType (w.type x)
        else w.type x
      if x ∈ (V.type t).nested ∧ x.index < w.types.size then
        restoreNested (V.type x) e
      else e := by
  have hfold := Workspace.type_foldl_updateType
    (f := fun n => restoreNested (V.type n)) (fun _ _ => rfl) (V.type t).nested
      (w.updateType t s.restoreType) x
  rw [Workspace.type_updateType, Workspace.size_types_updateType] at hfold
  rw [SystemState.restoreTypes, hs.type, hs.nested, List.foldl_map]
  split <;> exact hfold

theorem SystemState.methods_restoreTypes (s : SystemState) (w : Workspace) :
    (s.restoreTypes w).methods = w.methods := by
  have hfold := List.foldlRecOn (motive := fun w' => w'.methods = w.methods)
    s.nested (fun w n => w.updateType n.1 (restoreNested n.2))
      (b := w.updateType s.type s.restoreType) rfl
    fun _ hw _ _ => hw
  unfold restoreTypes
  split <;> exact hfold

theorem SystemState.size_types_restoreTypes (s : SystemState) (w : Workspace) :
    (s.restoreTypes w).types.size = w.types.size := by
  have hfold := List.foldlRecOn (motive := fun w' => w'.types.size =
    w.types.size) s.nested (fun w n => w.updateType n.1 (restoreNested n.2))
      (b := w.updateType s.type s.restoreType)
    (Workspace.size_types_updateType ..) fun _ hw _ _ =>
      (Workspace.size_types_updateType ..).trans hw
  unfold restoreTypes
  split <;> exact hfold

/-- What is put back was there before. -/
theorem SystemState.Of.frame_restoreTypes {N : Set TypeId} {K S : Set MethodId}
    (hs : s.Of V t hook b) (h : V.Frame (TypeEntry.Stays N K) S w) :
    V.Frame (TypeEntry.Stays N K) S (s.restoreTypes w) := by
  have hmethod : ∀ n, (s.restoreTypes w).methodEntry n = w.methodEntry n :=
    fun n => by
    rw [Workspace.methodEntry, s.methods_restoreTypes]
    rfl
  refine ⟨by rw [s.size_types_restoreTypes]; exact h.types_le,
    by rw [s.methods_restoreTypes]; exact h.methods_le,
    fun x hx => ?_, fun n hn => ?_, fun n hn => ?_, fun n hn hS => ?_⟩
  · rw [hs.type_restoreTypes]
    have hx₁ := h.type x hx
    have hx₂ : (V.type x).Stays N K
        (if x = t ∧ t.index < w.types.size then s.restoreType (w.type x)
        else w.type x) := by
      split
      · rename_i he
        obtain ⟨rfl, -⟩ := he
        exact hs.stays_restoreType hx₁
      · exact hx₁
    simp only
    split
    · exact stays_restoreNested hx₂
    · exact hx₂
  · rw [Workspace.method, hmethod]
    exact h.entry n hn
  · rw [Workspace.method, hmethod]
    exact h.hasBody n hn
  · rw [Workspace.method, hmethod]
    exact h.body n hn hS

/-- The system after it was put back. -/
theorem SystemState.Of.system_restoreTypes (hs : s.Of V t hook b)
    (ht : t.index < w.types.size) :
    ((s.restoreTypes w).type t).head.fields = (V.type t).head.fields ∧
      ((s.restoreTypes w).type t).methods = (V.type t).methods ∧
      ((s.restoreTypes w).type t).nested = (V.type t).nested := by
  rw [hs.type_restoreTypes]
  simp only [true_and, ht, if_true]
  split <;> simp [restoreNested, restoreType, hs.entry]

/-- A nested type after it was put back. -/
theorem SystemState.Of.nested_restoreTypes {n : TypeId} (hs : s.Of V t hook b)
    (hn : n ∈ (V.type t).nested) (hlt : n.index < w.types.size) :
    ((s.restoreTypes w).type n).head.base = (V.type n).head.base ∧
      ((s.restoreTypes w).type n).head.flags = (V.type n).head.flags ∧
      ((s.restoreTypes w).type n).methods = (V.type n).methods := by
  rw [hs.type_restoreTypes]
  simp [hn, hlt, restoreNested]

/-- Where the types, the method and the hook were put back, all is as it was. -/
theorem SystemState.Of.kept {w' : Workspace} (hs : s.Of V t hook b)
    (hV : V.Awaits t m hook) (hle : V.types.size ≤ w.types.size)
    (htypes : ∀ n, n.index < w.types.size →
      w'.type n = (s.restoreTypes w).type n)
    (hf : V.Frame (TypeEntry.Stays w'.present {hook}) (V.touched m hook) w')
    (hm : V.SameCodeAt m w') (hh : V.SameCodeAt hook w') :
    V.Kept t m hook w' ∧ V.Advances t m hook w' := by
  have ht := hV.system.trans_le hle
  obtain ⟨hfields, hmethods, hnested⟩ := hs.system_restoreTypes ht
  rw [← htypes t ht] at hfields hmethods hnested
  have hinner : ∀ n ∈ (V.type t).nested,
    (w'.type n).head.base = (V.type n).head.base ∧
      (w'.type n).head.flags = (V.type n).head.flags ∧
      (w'.type n).methods = (V.type n).methods := fun n hn => by
    have hlt := (hV.inner n hn).trans_le hle
    rw [htypes n hlt]
    exact hs.nested_restoreTypes hn hlt
  have hquiet : w'.QuietAt hook := fun b' hb' => by
    obtain ⟨c, hc⟩ := Option.isSome_iff_exists.1 hV.hasBody
    obtain ⟨c', hc', hsame⟩ := hh c hc
    rw [hb'] at hc'
    cases hc'
    exact (hV.quiet c hc).of_sameCode hsame
  refine ⟨⟨hm, hfields, hmethods, hnested, fun n hn => (hinner n hn).1,
    fun n hn => (hinner n hn).2.1, fun n hn => (hinner n hn).2.2, hh,
    fun n hn hS => hf.method_eq hn hS⟩, hf.grows, fun n _ hn => hf.type n hn,
    ?_⟩
  refine hV.toHooked.of_grows hf.grows (fun n hn => ?_) ?_ ?_ hquiet
  · rw [hnested] at hn
    exact (hV.inner n hn).trans_le hf.types_le
  · rw [hmethods]
  · rw [hmethods]
    exact hV.mem

variable {H : List (TypeId × MethodId)} {p : PassState}

/-- Code is recorded, or it lacks a reference and there is a fault; nothing
changes. -/
theorem saveBody_ends {w : World} (hb : (w.workspace.method m).body = some b) :
    Ends (Weave.saveBody m) w (fun c w' => c = b ∧ w' = w)
      fun _ w' => w' = w ∧ b.lacksReference = true := by
  have hrun : Weave.bodyOf m w = .ok b w := by
    rw [show Weave.bodyOf m w = Weave.need (w.workspace.method m).body w
      from rfl, hb]
    rfl
  refine Ends.bind (Ends.of_run hrun ?_)
  by_cases hlacks : b.lacksReference <;> simp [hlacks]
  · exact rfl
  · exact ⟨rfl, rfl⟩

/-- The state of a system with its hook is recorded. -/
theorem saveSystem_ends {w : World} (hV : V.Hooked t hook)
    (hw : w.workspace = V) :
    Ends (saveSystem t) w
      (fun s w' => w' = w ∧ ∃ b, (V.method hook).body = some b ∧
        s.Of V t hook b)
      fun _ _ => False := by
  subst hw
  obtain ⟨b, hb⟩ := Option.isSome_iff_exists.1 hV.hasBody
  have hfind : (w.workspace.type t).methods.find?
      (fun n => (w.workspace.method n).name == Member.onCreateForCompiler) =
        some hook := by
    obtain ⟨n, hn⟩ : ∃ n, (w.workspace.type t).methods.find?
        (fun n => (w.workspace.method n).name == Member.onCreateForCompiler) =
          some n := by
      rw [← Option.isSome_iff_exists, List.find?_isSome]
      exact ⟨hook, hV.mem, by simpa using hV.name⟩
    have hname := List.find?_some hn
    rw [(hV.only n (List.mem_of_find?_eq_some hn)).1 (by simpa using hname)]
      at hn
    exact hn
  have hnamed : Weave.methodNamed? t Member.onCreateForCompiler w =
      .ok (some hook) w :=
    congrArg (fun o => EStateM.Result.ok o w) hfind
  unfold saveSystem
  refine Ends.bind (Ends.of_run rfl (Ends.bind (Ends.of_run hnamed ?_)))
  simp only [hb, Option.isNone_some, Bool.false_eq_true, if_false]
  refine Ends.bind ((saveBody_ends hb).imp ?_ ?_)
  · rintro c w' ⟨rfl, rfl⟩
    exact Ends.of_run rfl ⟨rfl, c, rfl, ⟨rfl, rfl, rfl⟩, rfl⟩
  · rintro e w' ⟨-, hlacks⟩
    rw [(hV.quiet b hb).lacksReference_eq] at hlacks
    cases hlacks

/-- Work with a way out of its stops. -/
theorem ends_orElse {act : Pass Unit} {handle : Stop → Pass Unit}
    {Q : Unit → PassState → Prop} {E : Stop → PassState → Prop}
    (h : Ends act p Q fun e q => Ends (handle e) q Q E) :
    Ends (orElse act handle) p Q E := by
  unfold Ends orElse
  cases hact : act p with
  | ok a q =>
    rw [Ends, hact] at h
    exact h
  | error e q =>
    rw [Ends, hact] at h
    exact h

/-- Code of a method that has some is put back. -/
theorem restoreBody_ends {w : World} {W : Workspace} (hm : W.Edits (W.kin m) m)
    (hw : Holding (· = W) H w) :
    Ends (Weave.restoreBody m b) w
      (fun _ w' => Holding (W.Tended Eq (W.kin m) m b True) H w')
        fun _ _ => False :=
  Ends.of_triple (Weave.restoreBody_spec (R := Eq) hm)
    (hw.imp fun he => he ▸ .refl (fun _ => rfl) _ _)

/-- After a fault the method and its system are put back. -/
theorem restore_ends {w : World} {saved : Body} (hV : V.Awaits t m hook)
    (hsaved : (V.method m).body = some saved)
    (hhook : (V.method hook).body = some b) (hs : s.Of V t hook b)
    (hw : Holding (fun x => V.Frame (TypeEntry.Stays x.present {hook})
      (V.touched m hook) x) H w) :
    Ends (Weave.restoreBody m saved) w (fun _ w₁ => Ends (restoreSystem s) w₁
        (fun _ w' => Holding (fun x => V.Kept t m hook x ∧
          V.Advances t m hook x) H w')
        fun _ _ => False)
      fun _ _ => False := by
  have hlt := hV.lt hook hV.mem
  have hedits := hV.edits.of_frame hw.workspace
  refine (restoreBody_ends hedits (hw.imp fun _ => rfl)).imp ?_ fun _ _ => id
  intro _ w₁ hw₁
  have hframe₁ := hw.workspace.trans_touched TypeEntry.Stays.trans
    (hw₁.workspace.frame.mono TypeEntry.Stays.of_eq subset_rfl) hV.edits.lt
  have hframe₂ := hs.frame_restoreTypes hframe₁
  have hw₂ : Holding (· = s.restoreTypes w₁.workspace) H
      { w₁ with workspace := s.restoreTypes w₁.workspace } :=
    ⟨rfl, hw₁.hooks, hw₁.ordinary⟩
  have hhook₂ : V.Edits (V.kin hook) hook := ⟨hlt, hV.hasBody, subset_rfl⟩
  unfold restoreSystem
  refine Ends.bind (Ends.of_run rfl ?_)
  simp only [hs.hook]
  refine (restoreBody_ends (hhook₂.of_frame hframe₂) hw₂).imp ?_ fun _ _ => id
  intro _ w₃ hw₃
  have hpresent : w.workspace.present ⊆ w₃.workspace.present := by
    refine hw₁.workspace.frame.present_subset.trans (fun n hn => ?_)
    exact hw₃.workspace.frame.present_subset (Nat.lt_of_lt_of_eq hn
      (s.size_types_restoreTypes w₁.workspace).symm)
  have hframe₃ : V.Frame (TypeEntry.Stays w₃.workspace.present {hook})
    (V.touched m hook)
      w₃.workspace :=
    (hframe₂.mono (TypeEntry.Stays.mono hpresent) subset_rfl).trans
      TypeEntry.Stays.trans (hw₃.workspace.frame.mono TypeEntry.Stays.of_eq
        subset_rfl)
      fun n hn he => .inr (hframe₂.mem_kin hlt hn he)
  -- the method is no copy of the hook, so it stays as it was put back
  have hcode : V.SameCodeAt m w₃.workspace := by
    intro c hc
    obtain ⟨c', hc', hsame⟩ := hw₁.workspace.code trivial
    have hm₂ : ((s.restoreTypes w₁.workspace).method m).body = some c' := by
      rw [Workspace.method, Workspace.methodEntry, s.methods_restoreTypes]
      exact hc'
    have hapart : m ∉ (s.restoreTypes w₁.workspace).kin hook := fun hmem =>
      hV.apart (hframe₂.mem_kin hlt hV.edits.lt hmem).symm
    rw [hsaved] at hc
    cases hc
    refine ⟨c', ?_, hsame⟩
    rw [hw₃.workspace.frame.body m (hV.edits.lt.trans_le hframe₂.methods_le)
      hapart, hm₂]
  have hhookCode : V.SameCodeAt hook w₃.workspace := fun c hc => by
    rw [hhook] at hc
    cases hc
    exact hw₃.workspace.code trivial
  exact hw₃.imp fun hx => hs.kept hV hframe₁.types_le
    (fun n hn => (hx.frame.type n (by rwa [s.size_types_restoreTypes])).symm)
      hframe₃ hcode
    hhookCode

/-- The way out of a stop: the method and its system are put back, the jobs that
were reported for it are taken back, and the stop is reported as an error. -/
theorem handle_ends {saved : Body} {e : Stop} {q : PassState}
    (jobs : List JobEntry) (hV : V.Awaits t m hook)
    (hsaved : (V.method m).body = some saved)
    (hhook : (V.method hook).body = some b) (hs : s.Of V t hook b)
    (hq : Holding (fun x => V.Frame (TypeEntry.Stays x.present {hook})
      (V.touched m hook) x) H q.world) :
    Ends (show Pass Unit from do
        Weave.restoreBody m saved
        restoreSystem s
        modifyReport fun r => { r with jobs }
        note [← Weave.unexpected m (causeOf e)]) q
      (fun _ q' => Holding (fun x => V.Kept t m hook x ∧ V.Advances t m hook x)
        H q'.world ∧ ∃ d, d.severity = .error ∧
          Weave.unexpected m (causeOf e) q'.world = .ok d q'.world ∧
          q'.report =
            { q.report with
              jobs, diagnostics := q.report.diagnostics ++ [d] })
      fun _ _ => False := by
  refine Ends.bind (ends_lift ((restore_ends hV hsaved hhook hs hq).imp ?_
    fun _ _ => False.elim))
  intro _ w₁ hw₁
  refine Ends.bind (ends_lift (hw₁.imp ?_ fun _ _ => False.elim))
  intro _ w₂ hw₂
  refine Ends.bind (Ends.of_run rfl ?_)
  simp only
  obtain ⟨d, hd, hrun⟩ := unexpected_run m (causeOf e) w₂
  refine Ends.bind
    (ends_lift (Ends.of_run hrun (Ends.of_run (note_run [d] _) ?_)))
  exact ⟨hw₂, d, hd, hrun, by simp [Report.extend]⟩

/-- Every source call of a method gets its job, or an error is reported; a fault
is an error, too, and without a job the method and its system are as they were.
Only code that lacks a reference is not recorded. -/
theorem guardMethod_stops (st : Settings) {ls : List Label}
    (hV : V.Awaits t m hook) (hl : H.lookup t = some hook)
    (hls : (V.method m).sources = .ok ls) (hp : Holding (· = V) H p.world) :
    Ends (guardMethod st m) p
      (fun _ q => Settled V H t m hook (SourceAt (V.method m).code) ls
        p.report q ∧ ∀ e q₁, processMethod st m p = .error e q₁ →
          V.Kept t m hook q.world.workspace ∧ ∃ d, d.severity = .error ∧
            Weave.unexpected m (causeOf e) q.world = .ok d q.world ∧
            q.report = { q₁.report with
              jobs := p.report.jobs, diagnostics :=
                q₁.report.diagnostics ++ [d] })
      fun _ q => q = p ∧ ∃ b, (V.method m).body = some b ∧
          b.lacksReference = true := by
  obtain ⟨saved, hsaved⟩ := Option.isSome_iff_exists.1 hV.edits.hasBody
  have hV' : p.world.workspace = V := hp.workspace
  have howner : Weave.ownerOf m p.world = .ok t p.world := by
    have ho := hV.owner
    rw [← hV'] at ho
    rw [show Weave.ownerOf m p.world =
      Weave.need (p.world.workspace.methodEntry m).owner p.world from rfl, ho]
    rfl
  unfold guardMethod
  refine Ends.bind (ends_lift ((saveBody_ends (by rw [hV']; exact hsaved)).imp
    ?_ ?_))
  swap
  · rintro - _ ⟨rfl, hlacks⟩
    exact ⟨rfl, saved, hsaved, hlacks⟩
  rintro _ _ ⟨rfl, rfl⟩
  refine Ends.bind (ends_lift (Ends.of_run howner (Ends.bind (ends_lift
    ((saveSystem_ends hV.toHooked hV').imp ?_ fun _ _ => False.elim)))))
  rintro s _ ⟨rfl, b, hb, hs⟩
  refine Ends.bind (Ends.of_run rfl ?_)
  refine ends_orElse ?_
  have hends := processMethod_ends (s := st) hV hl hls hp
  unfold Ends at hends ⊢
  cases hrun : processMethod st m p with
  | ok a q =>
    rw [hrun] at hends
    exact ⟨hends, fun e q₁ he => by cases he⟩
  | error e q =>
    rw [hrun] at hends
    obtain ⟨hq, ds, js, hr⟩ := hends
    refine (handle_ends p.report.jobs hV hsaved hb hs hq).imp ?_
      fun _ _ => False.elim
    rintro _ q' ⟨hq', d, hd, hrun', hreport⟩
    refine ⟨⟨hq'.imp And.right, ds ++ [d], [], ?_, fun _ => hq'.workspace.1,
      .inl ⟨d, by simp, hd⟩⟩, ?_⟩
    · simp [hreport, hr, Report.extend]
    · rintro _ _ ⟨⟩
      exact ⟨hq'.workspace.1, d, hd, hrun', hreport⟩

theorem guardMethod_ends {st : Settings} {ls : List Label}
    (hV : V.Awaits t m hook) (hl : H.lookup t = some hook)
    (hls : (V.method m).sources = .ok ls) (hp : Holding (· = V) H p.world) :
    Ends (guardMethod st m) p
      (fun _ q => Settled V H t m hook (SourceAt (V.method m).code) ls
        p.report q)
      fun _ q => q = p :=
  (guardMethod_stops st hV hl hls hp).imp (fun _ _ => And.left)
    fun _ _ => And.left

end Pass

end JobWeave
