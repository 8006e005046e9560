import Mathlib
import JobWeave.Proofs.Plan.Edits
import JobWeave.Proofs.Workspace.Walks
import JobWeave.Sample.Tick

/-!
# The methods that are copied into a job

* `Planning.copyAll_copies`: each method that the lambda reaches is copied once.
* `Planning.adaptCopies_clones`: then the method operands of the copies are
  adapted.
* `Planning.clone_closes` puts this together.
-/

namespace JobWeave

open Framework Std.Do

set_option mvcgen.warning false

/-! ## Copying -/

/-- The definition of a copy. -/
def MethodDef.copied (d : MethodDef) (name : String) : MethodDef :=
  let hidden := MethodFlag.priv ||| MethodFlag.assembly ||| MethodFlag.family
  { d with
    name
    flags := (d.flags &&& ~~~hidden) ||| MethodFlag.pub
    body := d.body.map Body.copied }

/-- The copy of a method that a lambda reaches has the name of the method, that
of the lambda a fixed one. -/
def Workspace.copyOf (V : Workspace) (lambda m : MethodId) : MethodDef :=
  (V.method m).copied (if m == lambda then Planning.lambdaName
    else (V.method m).name)

/-- The struct has got copies of some methods. -/
structure Workspace.HasCopies (V : Workspace) (job : TypeId) (lambda : MethodId)
    (order cloned : List MethodId) (w : Workspace) : Prop where
  /-- they are different -/
  nodup : cloned.Nodup
  /-- they were added -/
  isNew : ∀ k ∈ cloned, V.methods.size ≤ k.index ∧ k.index < w.methods.size
  /-- the struct has them -/
  owner : ∀ k ∈ cloned, (w.methodEntry k).owner = some job
  /-- each is the copy of one method -/
  copied : cloned.map w.method = order.map (V.copyOf lambda)

namespace Workspace.HasCopies

variable {V w : Workspace} {job : TypeId} {lambda m n : MethodId}
  {order cloned : List MethodId}

theorem nil (V : Workspace) (job : TypeId) (lambda : MethodId) (w : Workspace) :
    V.HasCopies job lambda [] [] w :=
  ⟨by simp, by simp, by simp, rfl⟩

theorem addCopy (h : V.HasCopies job lambda order cloned w)
    (hsize : V.methods.size ≤ w.methods.size) (m n : MethodId) :
    V.HasCopies job lambda (order ++ [m])
      (cloned ++ [(w.addCopy job n (V.copyOf lambda m)).2])
      (w.addCopy job n (V.copyOf lambda m)).1 := by
  have hid : (w.addCopy job n (V.copyOf lambda m)).2 = ⟨w.methods.size⟩ := rfl
  have hentry := methodEntry_addCopy w job n (V.copyOf lambda m)
  have hold : ∀ k ∈ cloned,
      (w.addCopy job n (V.copyOf lambda m)).1.methodEntry k = w.methodEntry k :=
    fun k hk => by
    rw [hentry, if_neg (h.isNew k hk).2.ne]
  have hnew : (w.addCopy job n (V.copyOf lambda m)).1.methodEntry
      ⟨w.methods.size⟩ = _ :=
    (hentry _).trans (if_pos rfl)
  rw [hid]
  refine ⟨?_, ?_, ?_, ?_⟩
  · refine List.nodup_append.2 ⟨h.nodup, by simp, fun k hk k' hk' hc => ?_⟩
    rw [List.mem_singleton.1 hk'] at hc
    exact absurd (h.isNew k hk).2 (by simp [hc])
  · intro k hk
    rw [methods_addCopy]
    rcases List.mem_append.1 hk with hk | hk
    · have := h.isNew k hk
      omega
    · rw [List.mem_singleton.1 hk]
      exact ⟨hsize, Nat.lt_succ_self _⟩
  · intro k hk
    rcases List.mem_append.1 hk with hk | hk
    · rw [hold k hk, h.owner k hk]
    · rw [List.mem_singleton.1 hk, hnew]
  · rw [List.map_append, List.map_append, ← h.copied]
    refine congrArg₂ _ (List.map_congr_left fun k hk => ?_) ?_
    · rw [method, method, hold k hk]
    · rw [List.map_singleton, List.map_singleton, method, hnew]

/-- The methods and their copies one by one. -/
theorem forall₂ (h : V.HasCopies job lambda order cloned w) :
    List.Forall₂ (fun m k => m ∈ order ∧ k ∈ cloned ∧
      w.method k = V.copyOf lambda m) order cloned := by
  have hlength : order.length = cloned.length := by
    simpa using (congrArg List.length h.copied).symm
  refine List.forall₂_iff_get.2 ⟨hlength, fun n hn hn' =>
    ⟨List.get_mem _ _, List.get_mem _ _, ?_⟩⟩
  have hget := congrArg (·[n]?) h.copied
  simpa [hn, hn'] using hget

end Workspace.HasCopies

variable {V : Workspace} {u : Universe} {O : Outline} {lambda : MethodId}
variable {order cloned : List MethodId}

namespace Planning

/-- A loop whose invariant speaks of what was done so far and of the results. -/
theorem mapM_run {α β : Type} {xs : List α} {f : α → Planning β}
    {I : List α → List β → Plan → World → Prop}
    (h : ∀ before x after rs, xs = before ++ x :: after →
      ⦃fun v w => ⌜I before rs v w⌝⦄ f x
        ⦃post⟨fun r v w => ⌜I (before ++ [x]) (rs ++ [r]) v w⌝,
          fun _ _ => ⌜True⌝⟩⦄) :
    ⦃fun v w => ⌜I [] [] v w⌝⦄ xs.mapM f
      ⦃post⟨fun rs v w => ⌜I xs rs v w⌝, fun _ _ => ⌜True⌝⟩⦄ := by
  have hrest : ∀ before rest rs, xs = before ++ rest →
      ⦃fun v w => ⌜I before rs v w⌝⦄ rest.mapM f
        ⦃post⟨fun rs' v w => ⌜I xs (rs ++ rs') v w⌝, fun _ _ => ⌜True⌝⟩⦄ := by
    intro before rest rs hxs
    induction rest generalizing before rs with
    | nil =>
      rw [List.append_nil] at hxs
      subst hxs
      rw [List.mapM_nil]
      mvcgen
      simpa
    | cons x rest ih =>
      have hstep := h before x rest rs hxs
      have hrest := fun r => ih (before ++ [x]) (rs ++ [r]) (by simp [hxs])
      rw [List.mapM_cons]
      mvcgen [hstep, hrest, -mapM_preserves, -mapM_keeps]
      rename_i h
      simpa using h
  simpa using hrest [] xs [] rfl

/-- A method is copied. -/
theorem copyMethod_copies {m : MethodId} {name : String}
    (hm : m.index < V.methods.size)
    (hname : name = if m == lambda then lambdaName else (V.method m).name) :
    ⦃fun v w => ⌜Sketch (World.Filling V u O.job
      (V.HasCopies O.job lambda order cloned)) O v w⌝⦄
      copyMethod m name
      ⦃post⟨fun k v w => ⌜Sketch (World.Filling V u O.job
          (V.HasCopies O.job lambda (order ++ [m]) (cloned ++ [k]))) O v w⌝,
        fun _ _ => ⌜True⌝⟩⦄ := by
  unfold copyMethod
  mvcgen [Weave.addToWorkspace, -copyMethod_drafts]
  rename_i v w h d hidden copy added
  have hfills := h.world.holds.fills
  have hcopy : copy = V.copyOf lambda m := by
    simp only [copy, d, MethodDef.copyAs, hfills.method_eq hm, hname,
      Option.map_map, Workspace.copyOf]
    rfl
  simp only [added, hcopy, h.plan.type]
  exact ⟨⟨h.world.holds.fill (hfills.addCopy m _)
    (h.world.holds.holds.addCopy hfills.methods_le m m)⟩, h.plan⟩

/-- Copies methods under the names that they have, the lambda under its own. -/
def copyAll (lambda : MethodId) (order : List MethodId) :
    Planning (List MethodId) :=
  order.mapM fun m => do
    if m == lambda then copyMethod m lambdaName
    else copyMethod m (← Weave.methodDef m).name

theorem copyAll_copies (horder : ∀ m ∈ order, m.index < V.methods.size) :
    ⦃fun v w => ⌜Sketch (World.Filling V u O.job (· = V)) O v w⌝⦄ copyAll
      lambda order
      ⦃post⟨fun cloned v w => ⌜Sketch (World.Filling V u O.job
          (V.HasCopies O.job lambda order cloned)) O v w⌝,
          fun _ _ => ⌜True⌝⟩⦄ := by
  have hrun := @mapM_run _ _ order (fun m => do
      if m == lambda then copyMethod m lambdaName
      else copyMethod m (← Weave.methodDef m).name)
    (fun before cloned => Sketch
      (World.Filling V u O.job (V.HasCopies O.job lambda before cloned)) O)
    fun before m after cloned hsplit => by
      have hm : m.index < V.methods.size := horder m (by simp [hsplit])
      have hcopy := fun name hname =>
        @copyMethod_copies V u O lambda before cloned m name hm hname
      mvcgen [hcopy, -copyMethod_preserves, -copyMethod_drafts]
      · rename_i hlambda
        exact fun _ _ _ => (if_pos hlambda).symm
      · rename_i hlambda v w h
        rw [h.world.holds.fills.method_eq hm, if_neg hlambda]
  intro v w h
  exact hrun v w ⟨⟨h.world.holds.imp fun hV => hV ▸ .nil _ _ _ _⟩, h.plan⟩

/-! ## Editing the copies -/

variable {D : MethodId → MethodDef} {ks : List MethodId}
  {copies : List (MethodId × MethodId)}

/-- Every copy is edited once, when the edit of one does what those before it
ask for. -/
theorem forM_copies_run {A B : MethodId → Body → Prop}
    {f : MethodId → Planning PUnit} {K : List MethodId → Plan → World → Prop}
    (hks : ks.Nodup) (h : ∀ before, ∀ k ∈ ks, ∀ P b, B k b →
      ⦃fun v w => ⌜Sketch (World.Cloning V u O.job D ks
        (Function.update P k (· = b))) O v w ∧
          K before v w⌝⦄ f k
        ⦃post⟨fun _ v w => ⌜Sketch (World.Cloning V u O.job D ks
          (Function.update P k (A k))) O v w ∧ K (before ++ [k]) v w⌝,
          fun _ _ => ⌜True⌝⟩⦄) :
    ⦃fun v w => ⌜Sketch (World.Cloning V u O.job D ks B) O v w ∧
    K [] v w⌝⦄ ks.forM f
      ⦃post⟨fun _ v w => ⌜Sketch (World.Cloning V u O.job D ks A) O v w ∧
        K ks v w⌝, fun _ _ => ⌜True⌝⟩⦄ := by
  -- the copies before the next one are edited, the others are not
  let P : List MethodId → MethodId → Body → Prop :=
    fun before n => if n ∈ before then A n else B n
  have hrun := @forM_run _ ks f
    (fun before v w => Sketch (World.Cloning V u O.job D ks (P before)) O v w ∧
      K before v w)
    fun before k after hsplit => by
      have hk : k ∈ ks := by simp [hsplit]
      have hnew : k ∉ before := fun hc => by
        rw [hsplit, List.nodup_append] at hks
        exact hks.2.2 k hc k (by simp) rfl
      have hself : P before = Function.update (P before) k (B k) := by
        rw [eq_comm, Function.update_eq_self_iff]
        exact (if_neg hnew).symm
      rw [hself]
      refine fix_copy_and hk fun b hb => ?_
      have hstep := h before k hk (P before) b hb
      mvcgen [hstep]
      refine fun hw hK => ⟨⟨hw.world.of_copies fun n _ b' hb' => ?_, hw.plan⟩,
        hK⟩
      by_cases hn : n = k
      · subst hn
        rw [Function.update_self] at hb'
        simpa [P] using hb'
      · rw [Function.update_of_ne hn] at hb'
        simpa [P, hn] using hb'
  mvcgen [hrun, -forM_preserves, -forM_keeps]
  exact fun hw hK =>
    ⟨⟨hw.world.of_copies fun n hn b hb => by simpa [P, hn] using hb, hw.plan⟩,
      hK⟩

/-- Every copy is edited once. -/
theorem forM_copies {A B : MethodId → Body → Prop}
    {f : MethodId → Planning PUnit} (hks : ks.Nodup)
    (h : ∀ k ∈ ks, ∀ P b, B k b →
      ⦃fun v w => ⌜Sketch (World.Cloning V u O.job D ks
        (Function.update P k (· = b))) O v w⌝⦄ f k
        ⦃post⟨fun _ v w => ⌜Sketch (World.Cloning V u O.job D ks
          (Function.update P k (A k))) O v w⌝, fun _ _ => ⌜True⌝⟩⦄) :
    ⦃fun v w => ⌜Sketch (World.Cloning V u O.job D ks B) O v w⌝⦄ ks.forM f
      ⦃post⟨fun _ v w => ⌜Sketch (World.Cloning V u O.job D ks A) O v w⌝,
        fun _ _ => ⌜True⌝⟩⦄ := by
  have hrun := forM_copies_run (V := V) (u := u) (O := O) (D := D) (A := A)
    (B := B) (K := fun _ _ _ => True) hks fun _ k hk P b hb => by
      simpa only [and_true] using h k hk P b hb
  simpa only [and_true] using hrun

/-- What is done to the copies. -/
def adaptCopies (copies : List (MethodId × MethodId)) (cloned : List MethodId) :
    Planning Unit := do
  cloned.forM fun m => relinkBody copies m
  cloned.forM patchComponentAccess
  cloned.forM remapCaptures

theorem lookupMethod_looksUp : LooksUp V u O D ks MethodRef.LooksUp := by
  intro P r
  unfold lookupMethod
  mvcgen
  all_goals first
    | infer_instance
    | (rename_i h; exact h.world)
    | exact ⟨⟨by assumption, (‹Sketch _ O _ _›).plan⟩, _, rfl⟩

/-- The copies are edited. -/
theorem adaptCopies_cloning [O.OpenCaptured] [O.OpenAccess]
    (hd : V.Detaches u O.job) (hks : ks.Nodup)
    (hcopies : ∀ n k, copies.lookup n = some k → k ∈ ks) {C : MethodId → Body}
    (hC : ∀ k ∈ ks, (C k).IsTidy) :
    ⦃fun v w => ⌜Sketch (World.Cloning V u O.job D ks fun k => (· = C k)) O
      v w⌝⦄
      adaptCopies copies ks
      ⦃post⟨fun _ v w => ⌜Sketch (World.Cloning V u O.job D ks fun k b =>
          List.Forall₂ (V.Adapts u copies fun k => (D k).refOn
            (V.selfRef O.job)) (C k).references b.references) O v w⌝,
            fun _ _ => ⌜True⌝⟩⦄ := by
  let R : MethodId → MethodRef := fun k => (D k).refOn (V.selfRef O.job)
  let linked : MethodId → Body := fun k => V.relinkedBody u copies R (C k)
  let accessors : MethodId → List Reference := fun k =>
    (linked k).references.filter Reference.isAccessor
  have hrelink := forM_copies (V := V) (O := O) (u := u) (D := D)
    (B := fun k => (· = C k)) (A := fun k => (· = linked k))
      (f := fun m => relinkBody copies m) hks fun k hk P b hb => by
      subst hb
      have hstep := relinkBody_cloning (D := D) (P := P) (b := C k) hd
        hcopies hk
      mvcgen [hstep, -relinkBody_preserves, -relinkBody_keeps]
      · rename_i h
        exact h.world
      · rename_i h _ _
        exact fun hw => ⟨hw, h.plan⟩
  have hpatch := forM_copies (V := V) (O := O) (u := u) (D := D)
    (B := fun k => (· = linked k)) (A := fun k => (linked k).ServesAll
      MethodRef.LooksUp (accessors k))
    (f := patchComponentAccess) hks fun k hk P b hb => by
      subst hb
      exact patchComponentAccess_cloning lookupMethod_looksUp hk
        (Workspace.isTidy_relinkedBody (hC k hk))
  have hremap := forM_copies (V := V) (O := O) (u := u) (D := D)
    (B := fun k => (linked k).ServesAll MethodRef.LooksUp (accessors k))
    (A := fun k b' => ∃ b, (linked k).ServesAll MethodRef.LooksUp (accessors k)
      b ∧ b.Remaps b')
    (f := remapCaptures) hks fun k hk P b hb => by
      have htidy := hb.spares.isTidy (Workspace.isTidy_relinkedBody (hC k hk))
      have hstep := remapCaptures_cloning (V := V) (u := u) (O := O) (D := D)
        (P := P) hk htidy.ownLabels
      mvcgen [hstep, -remapCaptures_preserves, -remapCaptures_drafts]
      exact fun h => ⟨h.world.of_copies fun n _ => Function.update_imp
          fun b' hb' =>
        ⟨b, hb, hb'⟩, h.plan⟩
  unfold adaptCopies
  mvcgen [hrelink, hpatch, hremap, -forM_preserves, -forM_keeps]
  refine fun h => ⟨h.world.of_copies fun k hk b hb => ?_, h.plan⟩
  obtain ⟨b₁, hserves, hremaps⟩ := hb
  exact Workspace.adapts_references (hC k hk) (fun _ => rfl) hserves hremaps

theorem clone_eq : clone = (do
    let c ← chain
    let order ← reachable c.lambdaOwner ((← Weave.workspace).methods.size + 1)
      [] [c.lambda]
    let cloned ← copyAll c.lambda order
    modify fun u => { u with cloned, lambda := cloned.head? }
    adaptCopies (order.zip cloned) cloned) :=
  rfl

end Planning

/-- The struct has copies of some methods, and these refer to each other. -/
structure Workspace.Clones (V : Workspace) (u : Universe) (job : TypeId)
    (lambda : MethodId) (order : List MethodId) (R : MethodId → MethodRef)
    (cloned : List MethodId) (w : Workspace) : Prop where
  /-- they are different methods -/
  nodup : cloned.Nodup
  /-- they were added -/
  isNew : ∀ k ∈ cloned, V.methods.size ≤ k.index
  /-- the struct has them -/
  owner : ∀ k ∈ cloned, (w.methodEntry k).owner = some job
  /-- the references to them -/
  ref : ∀ k ∈ cloned, w.methodRef? k = some (R k)
  /-- each is the copy of one method, with adapted method operands -/
  adapts : List.Forall₂ (fun m k => ∃ b,
    w.method k = { V.copyOf lambda m with body := some b } ∧
    List.Forall₂ (V.Adapts u (order.zip cloned) R)
      (V.method m).code.copied.references b.references) order cloned

namespace Planning

theorem adaptCopies_clones [O.OpenCaptured] [O.OpenAccess]
    (hd : V.Detaches u O.job) (hcode : ∀ m, (V.method m).code.Labelled)
    (horder : ∀ m ∈ order, (V.method m).body.isSome) :
    ⦃fun v w => ⌜Sketch (World.Filling V u O.job
      (V.HasCopies O.job lambda order cloned)) O v w⌝⦄
      adaptCopies (order.zip cloned) cloned
      ⦃post⟨fun _ v w => ⌜v.Follows O ∧
          ∃ R, V.Clones u O.job lambda order R cloned w.workspace⌝,
          fun _ _ => ⌜True⌝⟩⦄ := by
  intro v₁ w₁ h₁
  have hhas := h₁.world.holds.holds
  obtain ⟨D, hD⟩ : ∃ D, D = w₁.workspace.method := ⟨_, rfl⟩
  have hmem : ∀ n k, (order.zip cloned).lookup n = some k → k ∈ cloned :=
    fun n k hk => by
    obtain ⟨before, after, hzip, -⟩ := List.lookup_eq_some_iff.1 hk
    exact (List.of_mem_zip (hzip ▸ by simp : (n, k) ∈ order.zip cloned)).2
  -- what a copy starts with
  have hcopy : ∀ m ∈ order, (V.copyOf lambda m).code =
    (V.method m).code.copied ∧
      (V.copyOf lambda m).body = some (V.copyOf lambda m).code := by
    intro m hm
    obtain ⟨b, hb⟩ := Option.isSome_iff_exists.1 (horder m hm)
    rw [MethodDef.code, MethodDef.code, Workspace.copyOf, MethodDef.copied, hb]
    exact ⟨rfl, rfl⟩
  have hstart : ∀ k ∈ cloned, ∃ m ∈ order, D k = V.copyOf lambda m := by
    intro k hk
    have hDk : D k ∈ order.map (V.copyOf lambda) :=
      hhas.copied ▸ hD ▸ List.mem_map_of_mem hk
    obtain ⟨m, hm, hmk⟩ := List.mem_map.1 hDk
    exact ⟨m, hm, hmk.symm⟩
  have hrun := adaptCopies_cloning (D := D) (C := fun k => (D k).code) hd
    hhas.nodup hmem fun k hk => by
      obtain ⟨m, hm, hk⟩ := hstart k hk
      rw [hk, (hcopy m hm).1]
      exact Body.isTidy_copied (hcode m)
  have hcopied : V.Copied O.job D cloned (fun k => (· = (D k).code))
      w₁.workspace := by
    refine ⟨fun k hk => (hhas.isNew k hk).1, hhas.owner,
      fun k hk => ⟨_, rfl, ?_⟩⟩
    obtain ⟨m, hm, hmk⟩ := hstart k hk
    rw [← hD, hmk, ← (hcopy m hm).2]
  have hfrom : ⦃fun v w => ⌜v = v₁ ∧
    w = w₁⌝⦄ adaptCopies (order.zip cloned) cloned
      ⦃post⟨fun _ v w => ⌜v.Follows O ∧
        ∃ R, V.Clones u O.job lambda order R cloned w.workspace⌝,
        fun _ _ => ⌜True⌝⟩⦄ := by
    mvcgen [hrun]
    · rename_i h
      obtain ⟨rfl, rfl⟩ := h
      exact ⟨⟨h₁.world.holds.imp fun _ => hcopied⟩, h₁.plan⟩
    · intro h
      have hcopies := h.world.holds.holds
      refine ⟨h.plan, _, hhas.nodup, hcopies.isNew, hcopies.owner,
        fun k hk => hcopies.methodRef?_eq h.world.holds.fills hk, ?_⟩
      refine hhas.forall₂.imp fun m k h => ?_
      obtain ⟨hm, hk, hmk⟩ := h
      obtain ⟨b, hb, hbk⟩ := hcopies.code k hk
      rw [hD, hmk] at hbk
      rw [hD, hmk, (hcopy m hm).1, ← hD] at hb
      exact ⟨b, hbk, hb⟩
  exact hfrom v₁ w₁ ⟨rfl, rfl⟩

theorem clone_clones {v₀ : Plan} (hd : V.Detaches u v₀.type)
    (hcode : ∀ m, (V.method m).code.Labelled) :
    ⦃fun v w => ⌜v = v₀ ∧ w.Has (World.Filling V u v₀.type (· = V))⌝⦄ clone
      ⦃post⟨fun _ v w => ⌜∃ order R,
          Explored (V.Calls u v₀.chain.lambdaOwner) v₀.chain.lambda order [] ∧
            V.Clones u v₀.type v₀.chain.lambda order R v.cloned w.workspace⌝,
        fun _ _ => ⌜True⌝⟩⦄ := by
  let O : Outline := { job := v₀.type, code := fun _ => True }
  have hreach : ∀ owner root fuel,
    V.methods.size < fuel + ([] : List MethodId).length →
      Yields (World.Filling V u v₀.type (· = V)) O (fun order =>
        Explored (V.Calls u owner) root order [] ∧ ∀ m ∈ order,
          (V.method m).body.isSome)
        (reachable owner fuel [] [root]) :=
    fun owner root _ => reachable_explores hd (.start (V.Calls u owner) root)
      (by simp)
  have hcopy := fun lambda order => @copyAll_copies V u O lambda order
  have hadapt := fun order cloned => @adaptCopies_clones V u
    { job := v₀.type, code := fun _ => True, copies := (· = cloned) }
      v₀.chain.lambda order cloned
    inferInstance inferInstance hd hcode
  rw [clone_eq]
  mvcgen [hreach, hcopy, hadapt, -reachable_preserves, -reachable_keeps]
  · rename_i h
    rw [h.2.holds.holds, List.length_nil]
    omega
  · rename_i h
    exact ⟨h.2, congrArg Plan.type h.1, trivial, trivial, trivial, trivial,
      trivial, trivial⟩
  · rename_i h
    exact fun m hm => Workspace.lt_of_isSome (h.2.2 m hm)
  · rename_i h
    exact h.1
  · rename_i h _ _ _ _ _
    exact h.2.2
  · rename_i hv _ _ _ _ _ _ _ h _
    obtain ⟨rfl, -⟩ := hv
    exact ⟨h.world, h.plan.type, trivial, rfl, trivial, trivial, trivial,
      trivial⟩
  · rename_i hv _ _ _ hreach _ _ _ _ _ _ _ _
    obtain ⟨rfl, -⟩ := hv
    rintro hplan ⟨R, hclones⟩
    rw [show _ = _ from hplan.cloned]
    exact ⟨_, R, hreach.2.1, hclones⟩

/-- A clone has copied exactly the methods that the lambda reaches, each once.
As long as no type comes back to itself over bases, the search for what a
reference names comes to its end. -/
theorem clone_closes {v v' : Plan} {w w' : World}
    (hrooted : w.resolver.Rooted w.workspace)
    (hd : w.workspace.Detaches (w.resolver.refresh w.workspace) v.type)
    (hcode : ∀ m, (w.workspace.method m).code.Labelled)
    (h : clone v w = .ok ((), v') w') :
    (∀ x, (w.resolver.refresh w.workspace).MethodSearchEnds w.workspace x) ∧
    ∃ order R, order.Nodup ∧ order.head? = some v.chain.lambda ∧
      (∀ m, m ∈ order ↔ Relation.ReflTransGen
        (w.workspace.Calls (w.resolver.refresh w.workspace) v.chain.lambdaOwner)
        v.chain.lambda m) ∧
      w.workspace.Clones (w.resolver.refresh w.workspace) v.type v.chain.lambda
        order R v'.cloned w'.workspace := by
  refine ⟨hrooted.bases.methodSearchEnds hrooted.index, ?_⟩
  have hrun : ⦃fun w₀ => ⌜w₀ = w⌝⦄ (clone v : Weave (Unit × Plan))
      ⦃post⟨fun r w' => ⌜∃ order R,
          Explored (w.workspace.Calls (w.resolver.refresh w.workspace)
            v.chain.lambdaOwner) v.chain.lambda order [] ∧
          w.workspace.Clones (w.resolver.refresh w.workspace) v.type
            v.chain.lambda order R r.2.cloned w'.workspace⌝,
            fun _ _ => ⌜True⌝⟩⦄ := by
    rintro _ rfl
    exact clone_clones hd hcode v _ ⟨rfl, ⟨World.filling_refl _ v.type rfl⟩⟩
  have hend := triple_iff.1 hrun w rfl
  rw [h] at hend
  obtain ⟨order, R, hexplored, hclones⟩ := hend
  exact ⟨order, R, by simpa using hexplored.nodup,
    by simpa using hexplored.first, hexplored.mem_iff, hclones⟩

end Planning

/-- It is enough that the code of the methods that are there has labels in
use. -/
theorem Workspace.labelled_of_methods {V : Workspace}
    (h : ∀ e ∈ V.methods.toList, e.method.code.Labelled) (m : MethodId) :
    (V.method m).code.Labelled := by
  rw [method, methodEntry]
  by_cases hm : m.index < V.methods.size
  · simpa [hm] using h _ (Array.getElem_mem_toList hm)
  · simp only [Array.getElem?_eq_none, Option.getD_none, not_lt.1 hm]
    exact fun i hi => absurd hi List.not_mem_nil

namespace Planning

/-- A method of the closure that calls others there. -/
def callingMethod (name : String) (calls : List Step) : MethodDef :=
  { name, ret := .void
    body := some (Sample.codeOf
      (calls.flatMap (fun call => [Step.ldarg 0, call]) ++ [Step.ret]) []) }

/-- A method of the closure. -/
def closureMethod (name : String) : MethodRef :=
  { Sample.tickLambda with name }

/-- A module whose lambda calls a method that calls another one, which calls
both of them. -/
def mutualModule : Module :=
  let update : MethodDef :=
    { name := "OnUpdate", ret := .void
      body := some (Sample.codeOf Sample.scheduleSteps
        [⟨Sample.tickClosure, ""⟩]) }
  let system : TypeHead :=
    { ns := "Game", name := "Ticker",
      base := .ofName Ns.entities TypeName.systemBase false }
  let closure : TypeHead :=
    { ns := "", name := "<>c__DisplayClass0_0", base := .object }
  { name := "Mutual"
    types := [.mk system [update] [.mk closure
        [callingMethod Sample.tickLambda.name
          [Step.callvirt (closureMethod "Even")],
          callingMethod "Even" [Step.call (closureMethod "Odd")],
          callingMethod "Odd" [Step.call (closureMethod "Even"),
            Step.callvirt (closureMethod "Odd")],
            callingMethod "Idle" []] []]] }

/-- The world of a module with what a single job needs. -/
def jobWorld (m : Module) : World :=
  (World.ofModules [m, Sample.tickFramework]).1

/-- Starts the plan of the chain of the first method that starts at some
instruction. -/
def startAt (source : Label) : Weave Plan := do
  Weave.startPlan (← Weave.analyze ⟨0⟩ source 0) false false

/-- Three methods of the closure call each other, and each is copied once. -/
theorem clone_closes_mutual :
    ∃ v w v' w', w.resolver.Rooted w.workspace ∧
      w.workspace.Detaches (w.resolver.refresh w.workspace) v.type ∧
      (∀ m, (w.workspace.method m).code.Labelled) ∧
      clone v w = .ok ((), v') w' ∧ v'.cloned.length = 3 ∧
      (∀ x, (w.resolver.refresh w.workspace).MethodSearchEnds w.workspace x) ∧
      ∃ order R, order.Nodup ∧ order.head? = some v.chain.lambda ∧
        (∀ m, m ∈ order ↔ Relation.ReflTransGen
          (w.workspace.Calls (w.resolver.refresh w.workspace)
            v.chain.lambdaOwner)
          v.chain.lambda m) ∧
        w.workspace.Clones (w.resolver.refresh w.workspace) v.type
          v.chain.lambda order R v'.cloned w'.workspace := by
  have hstart : delivers (startAt 3) (jobWorld mutualModule) (fun v w =>
      ((w.resolver.grounds w.workspace &&
          decide (w.workspace.Detaches (w.resolver.refresh w.workspace)
            v.type)) &&
        w.workspace.methods.toList.all
          fun e => decide e.method.code.Labelled) &&
      delivers (clone v) w fun r _ => r.2.cloned.length == 3) = true := by
    rw [jobWorld, Sample.tickFramework_eq]
    decide +kernel
  obtain ⟨v, w, -, htest⟩ := exists_of_delivers hstart
  simp only [Bool.and_eq_true, decide_eq_true_eq, List.all_eq_true] at htest
  obtain ⟨⟨⟨hgrounds, hd⟩, hlabelled⟩, hclone⟩ := htest
  have hrooted := (Universe.Grounded.of_grounds hgrounds).toRooted
  have hcode := Workspace.labelled_of_methods hlabelled
  obtain ⟨⟨⟨⟩, v'⟩, w', hrun, hcount⟩ := exists_of_delivers hclone
  exact ⟨v, w, v', w', hrooted, hd, hcode, hrun, beq_iff_eq.1 hcount,
    clone_closes hrooted hd hcode hrun⟩

/-- A system that has the name of the look-up.  Its lambda has the name of a
member of the look-up, and it calls a component accessor. -/
def lookupSystem : Module :=
  let system : TypeRef :=
    .ofName Ns.entities TypeName.componentDataFromEntity false
  let entity : TypeRef := .ofName Ns.entities TypeName.entity true
  let lambda : MethodRef :=
    { owner := system, name := "get_Item", ret := .void, params := [entity],
      hasThis := true }
  let accessor : MethodRef :=
    { owner := .ofName Ns.entities TypeName.systemBase false,
      name := getComponentName,
      ret := .methodParam 0, params := [entity], hasThis := true, arity := 1,
      typeArgs := [.int32] }
  let update : List Step :=
    [Step.ldarg 0, Step.call Sample.tickSource, Step.ldarg 0, Step.ldftn lambda,
      Step.newobj Sample.tickDelegate, Step.call Sample.tickWithCode,
      Step.call Sample.tickSchedule, Step.ret]
  let reads : List Step :=
    [Step.ldarg 0, Step.ldarg 1, Step.call accessor, Step.pop, Step.ret]
  let head : TypeHead :=
    { ns := Ns.entities, name := TypeName.componentDataFromEntity
      base := .ofName Ns.entities TypeName.systemBase false }
  { name := "Lookup"
    types := [.mk head
      [{ name := "OnUpdate", ret := .void,
         body := some (Sample.codeOf update []) },
        { name := lambda.name, ret := .void,
          params := [{ name := "e", type := entity }]
          body := some (Sample.codeOf reads []) }] []] }

/-- The copy of the lambda of that system calls the lambda: it is the member
that the accessor becomes.  And where types come back to themselves over bases,
the search for a method that a reference names has no end. -/
theorem not_clone_forgets :
    (¬ ∀ (v v' : Plan) (w w' : World),
      w.workspace.Detaches (w.resolver.refresh w.workspace) v.type →
      (∀ m, (w.workspace.method m).code.Labelled) →
      clone v w = .ok ((), v') w' → ∀ k ∈ v'.cloned,
      ∀ x ∈ (w'.workspace.method k).code.references, ∀ n,
        (w.resolver.refresh w.workspace).resolveMethod? w.workspace x.target =
            some (some n) →
          ¬ Relation.ReflTransGen
            (w.workspace.Calls (w.resolver.refresh w.workspace)
              v.chain.lambdaOwner)
            v.chain.lambda n) ∧
    ∃ m : MethodRef, ∀ n,
      Sample.circularUniverse.follow Sample.circularWorkspace
        (Universe.hasMethod Sample.circularWorkspace fun id =>
          Universe.matches? m (Sample.circularWorkspace.method id)) n
        (Sample.circularUniverse.resolve? m.owner) = none := by
  refine ⟨fun hforgets => ?_,
    { owner := .ofName "N" "A" false, name := "F", ret := .void },
    fun n => Universe.follow_eq_none (s := [⟨0⟩, ⟨1⟩]) (by decide +kernel) n ⟨0⟩
      (by decide)⟩
  have hstart : delivers (startAt 1) (jobWorld lookupSystem) (fun v w =>
      (decide (w.workspace.Detaches (w.resolver.refresh w.workspace) v.type) &&
        w.workspace.methods.toList.all
          fun e => decide e.method.code.Labelled) &&
      delivers (clone v) w fun r w' => r.2.cloned.any fun k =>
        (w'.workspace.method k).code.references.any fun x =>
          decide ((w.resolver.refresh w.workspace).resolveMethod? w.workspace
            x.target = some (some v.chain.lambda))) = true := by
    rw [jobWorld, Sample.tickFramework_eq]
    decide +kernel
  obtain ⟨v, w, -, htest⟩ := exists_of_delivers hstart
  simp only [Bool.and_eq_true, decide_eq_true_eq, List.all_eq_true] at htest
  obtain ⟨⟨hd, hlabelled⟩, hclone⟩ := htest
  have hcode := Workspace.labelled_of_methods hlabelled
  obtain ⟨⟨⟨⟩, v'⟩, w', hrun, hrefers⟩ := exists_of_delivers hclone
  simp only [List.any_eq_true, decide_eq_true_eq] at hrefers
  obtain ⟨k, hk, x, hx, hresolve⟩ := hrefers
  exact hforgets v v' w w' hd hcode hrun k hk x hx _ hresolve .refl

end Planning

end JobWeave
