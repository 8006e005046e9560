import Mathlib
import JobWeave.Pass.Run
import JobWeave.Proofs.Splice.Hook

/-!
# One attempt at a method

An attempt plans the chains of a method and replaces them.  Whatever fails on
the way, the attempt either leaves the method as it was or gives plans whose
structs are ready to be attached, and every chain without a plan has a failure
that will be reported as an error.

* `Plan.IsReady` is what committing a plan needs.
* `Accounts` relates the chains to the plans and the failures.
* `Attempt.Leaves` says what an attempt leaves behind.
-/

namespace JobWeave

open Framework Std.Do

set_option mvcgen.warning false

variable {V w w₁ w₂ : Workspace} {K : Set MethodId}
  {H : List (TypeId × MethodId)}
variable {m : MethodId} {b : Body} {cs : List Chain} {us : List Plan}
variable {fs : List Failure}

/-- The plan can be committed. -/
structure Plan.IsReady (u : Plan) (w : Workspace) : Prop where
  /-- the struct is the job's -/
  hosts : w.Hosts u.chain u.type
  /-- the code for the hook starts no chain -/
  init : Step.AllOrdinary u.init
  /-- that code has no place yet -/
  initLabels : u.initLabels = none

/-- A plan stays ready while types grow. -/
theorem Plan.IsReady.grow {R : TypeEntry → TypeEntry → Prop} {S : Set MethodId}
    {u : Plan} (h : u.IsReady w) (hf : w.Frame R S w₁)
    (hR : ∀ a b, R a b → a.Grows b) : u.IsReady w₁ where
  hosts := h.hosts.grow (h.hosts.lt.trans_le hf.types_le)
    (hR _ _ (hf.type _ h.hosts.lt))
  init := h.init
  initLabels := h.initLabels

/-- Every element of `xs` has something made `of` it in `ys`, or some failure is
reported as an error. -/
structure Accounts {α β : Type} (of : β → α) (xs : List α) (ys : List β)
    (fs : List Failure) : Prop where
  /-- nothing else was made -/
  mem : ∀ y ∈ ys, of y ∈ xs
  /-- without a failure something was made of each -/
  all : fs = [] → ys.map of = xs
  /-- the failures are errors -/
  serious : ∀ f ∈ fs, f.IsSerious

namespace Accounts

variable {α β γ : Type} {of : β → α} {xs : List α} {ys : List β}

theorem nil : Accounts of [] [] [] :=
  ⟨by simp, fun _ => rfl, by simp⟩

/-- Something was made of one more element. -/
theorem made {y : β} {x : α} (h : Accounts of xs ys fs) (hy : of y = x) :
    Accounts of (xs ++ [x]) (ys ++ [y]) fs where
  mem := by
    intro z hz
    rcases List.mem_append.1 hz with hz | hz
    · exact List.mem_append_left _ (h.mem z hz)
    · rw [List.mem_singleton.1 hz, hy]
      simp
  all := fun hfs => by simp [h.all hfs, hy]
  serious := h.serious

/-- One more element has a failure. -/
theorem failed {f : Failure} {x : α} (h : Accounts of xs ys fs)
    (hf : f.IsSerious) : Accounts of (xs ++ [x]) ys (fs ++ [f]) where
  mem := fun y hy => List.mem_append_left _ (h.mem y hy)
  all := fun hfs => by simp at hfs
  serious := by
    intro g hg
    rcases List.mem_append.1 hg with hg | hg
    · exact h.serious g hg
    · rwa [List.mem_singleton.1 hg]

/-- One account after another. -/
theorem trans {zs : List β} {gs : List Failure} (h : Accounts of xs ys fs)
    (h' : Accounts id ys zs gs) : Accounts of xs zs (fs ++ gs) where
  mem := fun z hz => h.mem z (h'.mem z hz)
  all := fun hfs => by
    obtain ⟨hfs, hgs⟩ := List.append_eq_nil_iff.1 hfs
    have hzs := h'.all hgs
    rw [List.map_id] at hzs
    rw [hzs, h.all hfs]
  serious := by
    intro g hg
    rcases List.mem_append.1 hg with hg | hg
    · exact h.serious g hg
    · exact h'.serious g hg

/-- Nothing was made in the end, and there is a failure. -/
theorem dropped {f : Failure} (h : Accounts of xs ys fs) (hf : f.IsSerious) :
    Accounts of xs [] (fs ++ [f]) where
  mem := by simp
  all := fun hfs => by simp at hfs
  serious := by
    intro g hg
    rcases List.mem_append.1 hg with hg | hg
    · exact h.serious g hg
    · rwa [List.mem_singleton.1 hg]

end Accounts

/-! ## Planning the chains -/

namespace Weave

/-- A chain gets a plan, or a failure in its place. -/
theorem planOne_spec (c : Chain) (asStruct taken : Bool) :
    ⦃fun w => ⌜Holding V.Extends H w⌝⦄
      tryFailure (do
        let u ← synthesize c asStruct
        if taken then refuse .dc0003 c.method c.source [.text c.name]
        return u)
      ⦃post⟨fun r w => ⌜match r with
          | .ok u => Holding (u.IsFor V c) H w
          | .error f => Holding V.Extends H w ∧ f.IsSerious⌝,
        fun e w => ⌜Holding V.Extends H w ∧ e.IsSerious⌝⟩⦄ := by
  have hact : ⦃fun w => ⌜Holding V.Extends H w⌝⦄ (do
      let u ← synthesize c asStruct
      if taken then refuse .dc0003 c.method c.source [.text c.name]
      return u : Weave Plan)
      ⦃post⟨fun u w => ⌜Holding (u.IsFor V c) H w⌝,
        fun e w => ⌜Holding V.Extends H w ∧ e.IsSerious⌝⟩⦄ := by
    mvcgen
    all_goals grind
  have htry := tryFailure_spec hact
  mvcgen [htry]
  all_goals grind [Stop.IsSerious]

/-- The old definitions are as they were, and the plans are ready. -/
def Drafted (V : Workspace) (us : List Plan) (w : Workspace) : Prop :=
  V.Extends w ∧ ∀ u ∈ us, u.IsReady w

theorem Drafted.extend {w w₁ : Workspace} (h : Drafted V us w)
    (hw : w.Extends w₁) : Drafted V us w₁ := by
  refine ⟨h.1.trans (fun _ _ _ => Eq.trans) hw fun _ _ => id, fun u hu => ?_⟩
  exact (h.2 u hu).grow hw fun a b he => he ▸ .refl a

/-- Planning the chains of a method leaves every old definition as it was. -/
theorem planAll_spec {asStruct : Bool} :
    ⦃fun w => ⌜Holding V.Extends H w⌝⦄ planAll cs asStruct
      ⦃post⟨fun r w => ⌜Holding (Drafted V r.1) H w ∧
        Accounts Plan.chain cs r.1 r.2⌝,
        fun _ w => ⌜Holding V.Extends H w⌝⟩⦄ := by
  have hfold : ⦃fun w => ⌜Holding (Drafted V []) H w ∧
    Accounts Plan.chain [] [] []⌝⦄
      planAll cs asStruct
      ⦃post⟨fun r w => ⌜Holding (Drafted V r.1) H w ∧
        Accounts Plan.chain cs r.1 r.2⌝,
        fun _ w => ⌜Holding V.Extends H w⌝⟩⦄ := by
    refine foldlM_run (P := fun before (r : List Plan × List Failure) w =>
      Holding (Drafted V r.1) H w ∧ Accounts Plan.chain before r.1 r.2) ?_
    rintro before c after - ⟨us, fs⟩
    -- what is ready stays so, since planning keeps the world it starts from
    refine triple_iff.2 fun w hw => ?_
    have hstart : Holding w.workspace.Extends H w :=
      hw.1.imp fun _ => .refl (fun _ => rfl) _ _
    have hone := planOne_spec (V := w.workspace) (H := H) c asStruct
    refine (triple_iff (P := Holding w.workspace.Extends H)).1 ?_ w hstart
    mvcgen [hone]
    · rename_i u _ w' hu
      have hready : u.IsReady w'.workspace := by
        refine ⟨?_, hu.workspace.init, hu.workspace.initLabels⟩
        rw [hu.workspace.chain]
        exact hu.workspace.hosts
      refine ⟨hu.imp fun hfor => ?_, hw.2.made hu.workspace.chain⟩
      obtain ⟨hext, hus⟩ := hw.1.workspace.extend hfor.extend
      refine ⟨hext, fun v hv => ?_⟩
      rcases List.mem_append.1 hv with hv | hv
      · exact hus v hv
      · rwa [List.mem_singleton.1 hv]
    · rename_i hf
      exact ⟨hf.1.imp hw.1.workspace.extend, hw.2.failed hf.2⟩
    · intro hv _
      exact hv.imp fun hext => (hw.1.workspace.extend hext).1
  refine triple_iff.2 fun w hw => triple_iff.1 hfold w ⟨?_, .nil⟩
  exact hw.imp fun hv => ⟨hv, by simp⟩

/-! ## Replacing the chains -/

/-- Replacing chains changes the code of their method alone; while none was
replaced, it is as it was. -/
theorem spliceAll_spec {R : TypeEntry → TypeEntry → Prop} {S : Set MethodId}
    (hm : V.Edits S m) (hus : ∀ u ∈ us, u.chain.method = m) :
    ⦃fun w => ⌜Holding (V.Tended R S m b True) H w⌝⦄ spliceAll us
      ⦃post⟨fun r w => ⌜Holding (V.Tended R S m b (r.1 = [])) H w ∧
            Accounts id us r.1 r.2.2⌝,
        fun e w => ⌜Holding (V.Frame R S) H w ∧ e.IsSerious⌝⟩⦄ := by
  have hfold : ⦃fun w => ⌜Holding (V.Tended R S m b
      (([] : List Plan) = [])) H w ∧ Accounts id ([] : List Plan) [] []⌝⦄
      spliceAll us
      ⦃post⟨fun r w => ⌜Holding (V.Tended R S m b (r.1 = [])) H w ∧
            Accounts id us r.1 r.2.2⌝,
        fun e w => ⌜Holding (V.Frame R S) H w ∧ e.IsSerious⌝⟩⦄ := by
    refine foldlM_run (P := fun before
      (r : List Plan × List Diagnostic × List Failure) w =>
      Holding (V.Tended R S m b (r.1 = [])) H w ∧
        Accounts id before r.1 r.2.2) ?_
    rintro before u after hsplit ⟨done, warnings, fs⟩
    obtain rfl := hus u (by simp [hsplit])
    have hone := splice_spec (R := R) (H := H) b (done = []) hm
    mvcgen [hone, -splice_spec]
    · rename_i hw
      exact hw.1
    · rename_i hstart r _ hr w hw
      rw [hr] at hw
      exact ⟨Workspace.Tended.of_frame hw (by simp), hstart.2.made rfl⟩
    · rename_i hstart r _ hr w hw
      rw [hr] at hw
      exact ⟨hw.1, hstart.2.failed hw.2⟩
  refine triple_iff.2 fun w hw => triple_iff.1 hfold w ⟨?_, .nil⟩
  exact hw.imp fun ht => ⟨ht.frame, fun _ => ht.code trivial⟩

/-- Code that was put back undoes the work on the method. -/
theorem undone_of_tended {w : World} (hb : (V.method m).body = some b)
    (h : Holding (V.Tended Eq (V.kin m) m b True) H w) :
    Holding (V.Undone m) H w := by
  refine h.imp fun ht => ⟨ht.frame, fun c hc => ?_⟩
  rw [hb] at hc
  cases hc
  exact ht.code trivial

end Weave

/-- What an attempt at a method leaves behind. -/
def Attempt.Leaves (V : Workspace) (K : Set MethodId) (m : MethodId)
    (cs : List Chain) :
    Attempt → Workspace → Prop
  | .retry fs, w => V.Undone m w ∧ ∀ f ∈ fs, f.IsSerious
  | .done us _ fs, w =>
    (us = [] → V.Undone m w) ∧
      V.Frame (TypeEntry.Stays ∅ K) (V.kin m) w ∧ (∀ u ∈ us, u.IsReady w) ∧
      Accounts Plan.chain cs us fs

theorem Attempt.leaves_retry {w : World} (h : Holding (V.Undone m) H w)
    (hfs : ∀ f ∈ fs, f.IsSerious) :
    Holding ((Attempt.retry fs).Leaves V K m cs) H w :=
  h.imp fun hu => ⟨hu, hfs⟩

theorem Attempt.leaves_nothing {w : World} {ds : List Diagnostic}
    (h : Holding (V.Undone m) H w) (hcs : Accounts Plan.chain cs [] fs) :
    Holding ((Attempt.done [] ds fs).Leaves V K m cs) H w :=
  h.imp fun hu => ⟨fun _ => hu,
    hu.frame.mono TypeEntry.Stays.of_eq subset_rfl, by simp, hcs⟩

theorem Attempt.leaves_done {w : World} {ds : List Diagnostic}
    (h : Holding (V.Frame (TypeEntry.Stays ∅ K) (V.kin m)) H w) (hne : us ≠ [])
    (hready : ∀ u ∈ us, u.IsReady V) (hcs : Accounts Plan.chain cs us fs) :
    Holding ((Attempt.done us ds fs).Leaves V K m cs) H w :=
  h.imp fun hf => ⟨fun hnil => absurd hnil hne, hf,
    fun u hu => (hready u hu).grow hf fun _ _ hs => hs.toGrows, hcs⟩

/-- Failures that came before an attempt are carried with it. -/
theorem Attempt.Leaves.carrying {r : Attempt} {gs : List Failure}
    (h : r.Leaves V K m cs w) (hgs : ∀ f ∈ gs, f.IsSerious) :
    (r.carrying gs).Leaves V K m cs w := by
  cases r with
  | retry fs => exact h
  | done us ds fs =>
    obtain ⟨hnone, hframe, hready, hcs⟩ := h
    refine ⟨hnone, hframe, hready, hcs.mem, fun hnil => ?_, fun f hf => ?_⟩
    · exact hcs.all (List.append_eq_nil_iff.1 hnil).2
    · exact (List.mem_append.1 hf).elim (hgs f) (hcs.serious f)

/-- An attempt that follows an undone one. -/
theorem Attempt.Leaves.after {r : Attempt} (h₁ : V.Undone m w₁)
    (hm : m.index < V.methods.size) (h₂ : r.Leaves w₁ K m cs w₂) :
    r.Leaves V K m cs w₂ := by
  cases r with
  | retry fs => exact ⟨h₁.trans h₂.1 hm, h₂.2⟩
  | done us ds fs =>
    obtain ⟨hnone, hframe, hready, hcs⟩ := h₂
    refine ⟨fun hus => h₁.trans (hnone hus) hm, ?_, hready, hcs⟩
    exact (h₁.frame.mono TypeEntry.Stays.of_eq subset_rfl).trans_kin
      TypeEntry.Stays.trans hframe hm

namespace Weave

/-- A failed validation is reported as an error. -/
theorem isSerious_validate {d : MethodDef} {name : String} {f : Failure}
    (h : d.validate name b = .error f) : f.IsSerious := by
  refine Failure.isSerious_of_note?_eq_none ?_
  simp only [MethodDef.validate, Except.mapError] at h
  split at h
  · cases h
    rfl
  · cases h

/-- Plans are carried out, or the method is left as it was. -/
theorem replacePlans_spec {s : Settings} (asStruct : Bool)
    (hm : V.Edits (V.kin m) m) (hK : V.Lasting K)
    (hus : ∀ u ∈ us, u.chain.method = m) (hready : ∀ u ∈ us, u.IsReady V)
    (hcs : Accounts Plan.chain cs us fs) :
    ⦃fun w => ⌜Holding (· = V) H w⌝⦄ replacePlans s m us fs asStruct
      ⦃post⟨fun r w => ⌜Holding (r.Leaves V K m cs) H w ∧
            (asStruct = false → ∃ us ws fs, r = .done us ws fs)⌝,
        fun _ w => ⌜Holding (V.Frame (TypeEntry.Stays ∅ K) (V.kin m)) H
          w⌝⟩⦄ := by
  have hsave : ⦃fun w => ⌜Holding (· = V) H w⌝⦄ saveBody m
      ⦃post⟨fun b w => ⌜Holding (V.Tended Eq (V.kin m) m b True) H w ∧
            (V.method m).body = some b⌝,
        fun _ w => ⌜Holding (V.Frame Eq (V.kin m)) H w⌝⟩⦄ := by
    have hkeep : ∀ {w : World}, Holding (· = V) H w →
        Holding (V.Frame Eq (V.kin m)) H w := fun hw =>
      hw.imp fun he => he ▸ .refl (fun _ => rfl) _ _
    mvcgen
    · rename_i b w
      intro hw hb
      obtain rfl := hw.workspace
      exact ⟨(hkeep hw).imp fun hf => ⟨hf, fun _ => ⟨b, hb, .refl b⟩⟩, hb⟩
    · exact fun hw _ => hkeep hw
  have hsplice := fun b : Body => spliceAll_spec (R := Eq) (b := b)
    (H := H) hm hus
  have hundo := fun b : Body => restoreBody_spec (R := Eq) (b := b) (H := H) hm
  have hconvert := tryFailure_spec (convertClosures_spec (N := ∅) (K := K)
    (H := H) hm hK (I := V.Frame Eq (V.kin m)) fun _ hw =>
      hw.mono TypeEntry.Stays.of_eq subset_rfl)
  -- the three ways to end with plans, by how many were carried out
  have hstays : ∀ {w : World}, Holding (V.Frame Eq (V.kin m)) H w →
      Holding (V.Frame (TypeEntry.Stays ∅ K) (V.kin m)) H w :=
    fun hw => hw.imp fun hf => hf.mono TypeEntry.Stays.of_eq subset_rfl
  have hnone : ∀ {w : World} {b : Body} {done : List Plan} {gs : List Failure}
      {ds : List Diagnostic},
      Holding (V.Tended Eq (V.kin m) m b (done = [])) H w →
      (V.method m).body = some b → Accounts id us done gs → done = [] →
      Holding ((Attempt.done [] ds (fs ++ gs)).Leaves V K m cs) H w := by
    rintro w b done gs ds hw hb hgs rfl
    refine Attempt.leaves_nothing (undone_of_tended hb ?_) (hcs.trans hgs)
    exact hw.imp fun ht => ⟨ht.frame, fun _ => ht.code rfl⟩
  have hdrop : ∀ {w : World} {b : Body} {done : List Plan} {gs : List Failure}
      {ds : List Diagnostic} {f : Failure},
      Holding (V.Tended Eq (V.kin m) m b True) H w →
      (V.method m).body = some b → Accounts id us done gs → f.IsSerious →
      Holding ((Attempt.done [] ds (fs ++ gs ++ [f])).Leaves V K m cs) H w :=
    fun hw hb hgs hf =>
      Attempt.leaves_nothing (undone_of_tended hb hw)
        ((hcs.trans hgs).dropped hf)
  have hfinish : ∀ {w : World} {done : List Plan} {gs : List Failure}
      {ds : List Diagnostic},
      Holding (V.Frame (TypeEntry.Stays ∅ K) (V.kin m)) H w → done ≠ [] →
      Accounts id us done gs →
      Holding ((Attempt.done done ds (fs ++ gs)).Leaves V K m cs) H w :=
    fun hw hne hgs =>
      Attempt.leaves_done hw hne (fun u hu => hready u (hgs.mem u hu))
        (hcs.trans hgs)
  mvcgen [replacePlans, hsave, hsplice, hundo, hconvert, -saveBody_spec,
    -restoreBody_spec, -convertClosures_spec]
  all_goals clear hsave hsplice hundo hconvert
  all_goals grind -ring -linarith [Attempt.leaves_retry, isSerious_validate,
    undone_of_tended]

/-- An attempt at a method gives ready plans or leaves the method as it was. -/
theorem attemptMethod_spec {s : Settings} (asStruct : Bool)
    (hm : V.Edits (V.kin m) m) (hK : V.Lasting K)
    (hcs : ∀ c ∈ cs, c.method = m) :
    ⦃fun w => ⌜Holding (V.Undone m) H w⌝⦄ attemptMethod s m cs asStruct
      ⦃post⟨fun r w => ⌜Holding (r.Leaves V K m cs) H w ∧
            (asStruct = false → ∃ us ds fs, r = .done us ds fs)⌝,
        fun _ w => ⌜Holding (V.Frame (TypeEntry.Stays ∅ K) (V.kin m)) H
          w⌝⟩⦄ := by
  have hplan : ⦃fun w => ⌜Holding (V.Undone m) H w⌝⦄ planAll cs asStruct
      ⦃post⟨fun r w => ⌜Holding (fun ws => V.Undone m ws ∧
            ∀ u ∈ r.1, u.IsReady ws) H w ∧ Accounts Plan.chain cs r.1 r.2⌝,
        fun _ w => ⌜Holding (V.Frame (TypeEntry.Stays ∅ K) (V.kin m)) H
          w⌝⟩⦄ := by
    refine triple_iff.2 fun w₀ hw₀ => ?_
    have hstart : Holding w₀.workspace.Extends H w₀ :=
      hw₀.imp fun _ => .refl (fun _ => rfl) _ _
    have hundone : ∀ {w}, w₀.workspace.Extends w → V.Undone m w := fun he =>
      hw₀.workspace.trans (.of_extends he
        (hm.lt.trans_le hw₀.workspace.frame.methods_le)) hm.lt
    have hstays : ∀ {w}, V.Undone m w →
        V.Frame (TypeEntry.Stays ∅ K) (V.kin m) w := fun hu =>
      hu.frame.mono TypeEntry.Stays.of_eq subset_rfl
    refine (triple_iff (P := Holding w₀.workspace.Extends H)).1 ?_ w₀ hstart
    mvcgen [planAll_spec]
    · intro hd hcs
      exact ⟨hd.imp (And.imp_left hundone), hcs⟩
    · intro he
      exact he.imp fun he => hstays (hundone he)
  have hreplace : ∀ us fs, Accounts Plan.chain cs us fs →
      ⦃fun w => ⌜Holding (fun ws => V.Undone m ws ∧
        ∀ u ∈ us, u.IsReady ws) H w⌝⦄ replacePlans s m us fs asStruct
      ⦃post⟨fun r w => ⌜Holding (r.Leaves V K m cs) H w ∧
            (asStruct = false → ∃ us ds fs, r = .done us ds fs)⌝,
        fun _ w => ⌜Holding (V.Frame (TypeEntry.Stays ∅ K) (V.kin m)) H
          w⌝⟩⦄ := by
    intro us fs hus
    refine triple_iff.2 fun w₁ hw₁ => ?_
    obtain ⟨hundone, hready⟩ := hw₁.workspace
    have hstart : Holding (· = w₁.workspace) H w₁ := hw₁.imp fun _ => rfl
    have hm₁ : w₁.workspace.Edits (w₁.workspace.kin m) m :=
      hm.of_frame hundone.frame
    have hmethod : ∀ u ∈ us, u.chain.method = m := fun u hu =>
      hcs _ (hus.mem u hu)
    have hrun := replacePlans_spec (s := s) (H := H) asStruct hm₁
      (hK.of_frame hundone.frame) hmethod hready hus
    refine (triple_iff (P := Holding (· = w₁.workspace) H)).1 ?_ w₁ hstart
    mvcgen [hrun]
    · intro hr hdone
      exact ⟨hr.imp (Attempt.Leaves.after hundone hm.lt), hdone⟩
    · intro hf
      refine hf.imp fun hf => ?_
      exact (hundone.frame.mono TypeEntry.Stays.of_eq subset_rfl).trans_kin
        TypeEntry.Stays.trans hf hm.lt
  mvcgen [attemptMethod, hplan, hreplace]
  all_goals clear hplan hreplace
  · rename_i hretry w hw
    refine ⟨Attempt.leaves_retry (hw.1.imp And.left) (by simp),
      fun hfalse => ?_⟩
    simp [hfalse] at hretry
  · rename_i hw
    exact hw.1
  · exact fun _ _ hcs => hcs

/-- A method is attempted until its closures are settled: there are ready plans,
or the method is left as it was. -/
theorem attemptChains_spec {s : Settings} (hm : V.Edits (V.kin m) m)
    (hK : V.Lasting K) (hcs : ∀ c ∈ cs, c.method = m) :
    ⦃fun w => ⌜Holding (V.Undone m) H w⌝⦄ attemptChains s m cs
      ⦃post⟨fun r w => ⌜Holding (r.2.Leaves V K m cs) H w ∧
            ∃ us ds fs, r.2 = .done us ds fs⌝,
        fun _ w => ⌜Holding (V.Frame (TypeEntry.Stays ∅ K) (V.kin m)) H
          w⌝⟩⦄ := by
  have hattempt := fun asStruct : Bool =>
    attemptMethod_spec (s := s) (H := H) asStruct hm hK hcs
  have hcan : Keeps (V.Undone m) H (canConvertClosures m cs) :=
    canConvertClosures_keeps
  have hundone : ∀ {fs : List Failure} {w : World},
      Holding ((Attempt.retry fs).Leaves V K m cs) H w →
      Holding (V.Undone m) H w :=
    fun hw => hw.imp And.left
  have hstays : ∀ {w : World}, Holding (V.Undone m) H w →
      Holding (V.Frame (TypeEntry.Stays ∅ K) (V.kin m)) H w :=
    fun hw => hw.imp fun hu => hu.frame.mono TypeEntry.Stays.of_eq subset_rfl
  have hsecond : ∀ {fs : List Failure} {r : Attempt} {w₁ w₂ : World},
      Holding ((Attempt.retry fs).Leaves V K m cs) H w₁ →
      Holding (r.Leaves V K m cs) H w₂ → (∃ us ds gs, r = .done us ds gs) →
      Holding ((r.carrying fs).Leaves V K m cs) H w₂ ∧
        ∃ us ds gs, r.carrying fs = .done us ds gs := by
    rintro fs r w₁ w₂ h₁ h₂ ⟨us, ds, gs, rfl⟩
    exact ⟨h₂.imp fun hl => hl.carrying h₁.workspace.2, us, ds, fs ++ gs, rfl⟩
  mvcgen [attemptChains, hattempt, hcan, -canConvertClosures_keeps]
  all_goals clear hattempt hcan
  all_goals grind -ring -linarith

end Weave

end JobWeave
