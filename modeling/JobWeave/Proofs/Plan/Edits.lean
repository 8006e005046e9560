import Mathlib
import JobWeave.Proofs.Plan.Copies

/-!
# The edits of a copy

Component accessors are served one after another, and captured variables are
redirected one after another.  Each step is found in the code that the steps
before it left.

* `Planning.forIn_run` and `Planning.forM_run` are loops whose invariant speaks
  of what was done so far.
* `Planning.patchComponentAccess_cloning`: the accessors of a copy are served.
* `Planning.remapCaptures_cloning`: the captured variables of a copy become
  fields of the struct.
-/

namespace JobWeave

open Framework Std.Do

set_option mvcgen.warning false

namespace Planning

/-! ## Loops -/

/-- A loop whose invariant speaks of what was done so far. -/
theorem forIn_run {α : Type} {xs : List α}
    {f : α → PUnit → Planning (ForInStep PUnit)}
    {I : List α → Plan → World → Prop} (h : ∀ before x after,
      xs = before ++ x :: after →
      ⦃fun v w => ⌜I before v w⌝⦄ f x ⟨⟩
        ⦃post⟨fun r v w => ⌜r = .yield ⟨⟩ ∧ I (before ++ [x]) v w⌝,
          fun _ _ => ⌜True⌝⟩⦄) :
    ⦃fun v w => ⌜I [] v w⌝⦄ forIn xs PUnit.unit f
      ⦃post⟨fun _ v w => ⌜I xs v w⌝, fun _ _ => ⌜True⌝⟩⦄ := by
  have hrest : ∀ before rest, xs = before ++ rest →
      ⦃fun v w => ⌜I before v w⌝⦄ forIn rest PUnit.unit f
        ⦃post⟨fun _ v w => ⌜I xs v w⌝, fun _ _ => ⌜True⌝⟩⦄ := by
    intro before rest hxs
    induction rest generalizing before with
    | nil =>
      rw [List.append_nil] at hxs
      subst hxs
      rw [List.forIn_nil]
      mvcgen
    | cons x rest ih =>
      have hstep := h before x rest hxs
      have hrest := ih (before ++ [x]) (by simp [hxs])
      rw [List.forIn_cons]
      refine Triple.bind _ _ hstep fun r => ?_
      cases r with
      | done => exact fun _ _ hr => nomatch hr.1
      | yield => exact fun v w hr => hrest v w hr.2
  exact hrest [] xs rfl

/-- A loop whose invariant speaks of what was done so far. -/
theorem forM_run {α : Type} {xs : List α} {f : α → Planning PUnit}
    {I : List α → Plan → World → Prop}
    (h : ∀ before x after, xs = before ++ x :: after →
      ⦃fun v w => ⌜I before v w⌝⦄ f x
        ⦃post⟨fun _ v w => ⌜I (before ++ [x]) v w⌝, fun _ _ => ⌜True⌝⟩⦄) :
    ⦃fun v w => ⌜I [] v w⌝⦄ xs.forM f
      ⦃post⟨fun _ v w => ⌜I xs v w⌝, fun _ _ => ⌜True⌝⟩⦄ := by
  have hrest : ∀ before rest, xs = before ++ rest →
      ⦃fun v w => ⌜I before v w⌝⦄ rest.forM f
        ⦃post⟨fun _ v w => ⌜I xs v w⌝, fun _ _ => ⌜True⌝⟩⦄ := by
    intro before rest hxs
    induction rest generalizing before with
    | nil =>
      rw [List.append_nil] at hxs
      subst hxs
      unfold List.forM
      mvcgen
    | cons x rest ih =>
      have hstep := h before x rest hxs
      have hrest := ih (before ++ [x]) (by simp [hxs])
      unfold List.forM
      exact Triple.bind _ _ hstep fun _ => hrest
  exact hrest [] xs rfl

/-- A filter by a test that gives what a function gives. -/
theorem filterM_eq {α : Type} {m : Type → Type} {ps : PostShape} [Monad m]
    [WPMonad m ps] {Q : Assertion ps} {E : ExceptConds ps} {xs : List α}
    {f : α → m Bool} {g : α → Bool}
    (h : ∀ x ∈ xs, ⦃Q⦄ f x ⦃(fun r => spred(Q ∧ ⌜r = g x⌝), E)⦄) :
    ⦃Q⦄ xs.filterM f ⦃(fun rs => spred(Q ∧ ⌜rs = xs.filter g⌝), E)⦄ := by
  have haux : ∀ acc, ⦃Q⦄ xs.filterAuxM f acc
      ⦃(fun rs => spred(Q ∧ ⌜rs = (xs.filter g).reverse ++ acc⌝), E)⦄ := by
    induction xs with
    | nil =>
      intro acc
      simp only [List.filterAuxM]
      mvcgen
      exact SPred.and_intro .rfl (SPred.pure_intro (by simp))
    | cons x xs ih =>
      intro acc
      have hx := h x (by simp)
      have hxs := ih fun y hy => h y (by simp [hy])
      simp only [List.filterAuxM]
      mvcgen [hx, hxs]
      rename_i hr rs
      refine SPred.and_mono_r (SPred.pure_mono ?_)
      rintro rfl
      rw [hr]
      cases hg : g x <;> simp [hg]
  unfold List.filterM
  mvcgen [haux]
  rename_i hrs
  exact SPred.and_intro .rfl (SPred.pure_intro (by simp [hrs]))

/-- The first that passes a test that gives what a function gives. -/
theorem findM?_eq {α : Type} {m : Type → Type} {ps : PostShape} [Monad m]
    [WPMonad m ps] {Q : Assertion ps} {E : ExceptConds ps} {xs : List α}
    {f : α → m Bool} {g : α → Bool}
    (h : ∀ x ∈ xs, ⦃Q⦄ f x ⦃(fun r => spred(Q ∧ ⌜r = g x⌝), E)⦄) :
    ⦃Q⦄ xs.findM? f ⦃(fun r => spred(Q ∧ ⌜r = xs.find? g⌝), E)⦄ := by
  induction xs with
  | nil =>
    unfold List.findM?
    mvcgen
    exact SPred.and_intro .rfl (SPred.pure_intro rfl)
  | cons x xs ih =>
    have hx := h x (by simp)
    have hxs := ih fun y hy => h y (by simp [hy])
    unfold List.findM?
    mvcgen [hx, hxs]
    · rename_i hg
      exact SPred.and_intro .rfl (SPred.pure_intro (by simp [← hg]))
    · rename_i hg rs
      refine SPred.and_mono_r (SPred.pure_mono ?_)
      rintro rfl
      simp [← hg]

variable {V : Workspace} {u : Universe} {O : Outline} {D : MethodId → MethodDef}
variable {ks : List MethodId} {P : MethodId → Body → Prop} {k : MethodId}
  {b : Body}
variable {J : World → Prop} {T : MethodRef → MethodRef → Prop}

/-- The state of a copy has some code; what else is known may go with it. -/
theorem fix_copy_and {α : Type} {act : Planning α} {Q : Body → Prop}
    {K : Plan → World → Prop} {E : α → Plan → World → Prop} (hk : k ∈ ks)
    (h : ∀ b, Q b → ⦃fun v w => ⌜Sketch (World.Cloning V u O.job D ks
        (Function.update P k (· = b))) O v w ∧ K v w⌝⦄ act
      ⦃post⟨fun r v w => ⌜E r v w⌝, fun _ _ => ⌜True⌝⟩⦄) :
    ⦃fun v w => ⌜Sketch (World.Cloning V u O.job D ks (Function.update P k Q)) O
      v w ∧ K v w⌝⦄ act
      ⦃post⟨fun r v w => ⌜E r v w⌝, fun _ _ => ⌜True⌝⟩⦄ := by
  intro v w hw
  obtain ⟨b, hb, hcopied⟩ := hw.1.world.holds.holds.exists_code hk
  exact h b hb v w ⟨⟨⟨hw.1.world.holds.imp fun _ => hcopied⟩, hw.1.plan⟩, hw.2⟩

/-- The state of a copy has some code. -/
theorem fix_copy {α : Type} {act : Planning α} {Q : Body → Prop}
    {E : α → Plan → World → Prop} (hk : k ∈ ks)
    (h : ∀ b, Q b → ⦃fun v w => ⌜Sketch (World.Cloning V u O.job D ks
        (Function.update P k (· = b))) O v w⌝⦄ act
      ⦃post⟨fun r v w => ⌜E r v w⌝, fun _ _ => ⌜True⌝⟩⦄) :
    ⦃fun v w => ⌜Sketch (World.Cloning V u O.job D ks (Function.update P k Q)) O
      v w⌝⦄ act
      ⦃post⟨fun r v w => ⌜E r v w⌝, fun _ _ => ⌜True⌝⟩⦄ := by
  intro v w hw
  obtain ⟨b, hb, hcopied⟩ := hw.world.holds.holds.exists_code hk
  exact h b hb v w ⟨⟨hw.world.holds.imp fun _ => hcopied⟩, hw.plan⟩

/-! ## Component accessors -/

/-- The loads that are walked back over are such that the test accepts. -/
theorem walkBack_yields {d : MethodDef} {accepts : Instr → Planning Bool}
    {A : Instr → Prop}
    (h : ∀ i, Yields J O (fun a => a = true → A i) (accepts i))
    {fuel : Nat} {l : Option Label} :
    Yields J O (fun r => ∀ l ∈ r.1, A (d.code.get l))
      (walkBack d accepts fuel l) := by
  induction fuel generalizing l with
  | zero =>
    mvcgen [walkBack, -walkBack_preserves, -walkBack_keeps]
    grind -ring -linarith
  | succ fuel ih =>
    cases l with
    | none =>
      mvcgen [walkBack, -walkBack_preserves, -walkBack_keeps]
      grind -ring -linarith
    | some l =>
      mvcgen [walkBack, h, ih, -walkBack_preserves, -walkBack_keeps]
      all_goals grind -ring -linarith [Plan.Follows]

/-- A refusal gives no result. -/
theorem refuseAt_stops {α : Type} {code : Code} {m : MethodId} {l : Label}
    {args : List Text.Arg} :
    ⦃fun v w => ⌜Sketch J O v w⌝⦄ (refuseAt code m l args : Planning α)
      ⦃post⟨fun _ _ _ => ⌜False⌝, fun _ w => ⌜w.Has J⌝⟩⦄ := by
  unfold refuseAt
  mvcgen
  all_goals grind

theorem loadsFromClosure_yields [World.Resolving J] {i : Instr} :
    Yields J O (fun a => a = true → i.op = .ldfld ∧ ∃ f, i.operand = .field f)
      (loadsFromClosure i) := by
  unfold loadsFromClosure
  mvcgen
  · grind
  · rename_i hop _ _ _ f hf _ _ _
    exact fun h => ⟨h, fun _ =>
      ⟨by simpa using hop, _, Instr.operand_of_field? hf⟩⟩
  · grind

/-- The instance of an accessor is a load of argument zero, and the loads after
it are loads of fields. -/
theorem systemInstance_yields [World.Resolving J]
    (hb : ∀ w : World, w.Has J → (w.workspace.method k).code = b) (call : Label)
    (r : MethodRef) :
    Yields J O (fun p => (b.get p.1).loadsThis ∧
      ∀ l ∈ p.2, (b.get l).op = .ldfld ∧ ∃ f, (b.get l).operand = .field f)
      (systemInstance k call r) := by
  have hwalk : ∀ d fuel l, Yields J O
      (fun r => ∀ l ∈ r.1, (d.code.get l).op = .ldfld ∧ ∃ f,
        (d.code.get l).operand = .field f)
      (walkBack d loadsFromClosure fuel l) :=
    fun _ _ _ => walkBack_yields fun _ => loadsFromClosure_yields
  have hrefuse : ∀ l args, ⦃fun v w => ⌜Sketch J O v w⌝⦄
      (refuseAt .dc0045 k l args : Planning (Label × List Label))
      ⦃post⟨fun _ _ _ => ⌜False⌝, fun _ w => ⌜w.Has J⌝⟩⦄ :=
    fun _ _ => refuseAt_stops
  unfold systemInstance
  mvcgen [hwalk, hrefuse, -walkBack_preserves, -walkBack_keeps,
    -refuseAt_preserves, -refuseAt_keeps]
  · grind
  · grind [Plan.Follows]
  · rename_i v w hw _ _ _ _ this hthis _ _ hloads
    have hcode := hb w hw.world
    rw [hcode] at hloads
    rw [MethodDef.code] at hcode
    refine ⟨hloads.1, ?_, hloads.2⟩
    rw [← hcode]
    exact (Option.filter_eq_some_iff.1 hthis).2
  · grind
  · exact False.elim

/-- Looking the member of a look-up up gives what `T` accepts for the
accessor. -/
def LooksUp (V : Workspace) (u : Universe) (O : Outline)
    (D : MethodId → MethodDef) (ks : List MethodId)
    (T : MethodRef → MethodRef → Prop) : Prop :=
  ∀ P r, Yields (World.Cloning V u O.job D ks P) O (T r)
    (lookupMethod r.name (r.typeArgs.headD .absent))

/-- What is done to a call once its instance and the look-up are known. -/
def serveCall (m : MethodId) (call : Label) (r : MethodRef) (this : Label)
    (hops : List Label) (field : FieldRef) : Planning Unit := do
  Weave.modifyBody m fun b => hops.foldl Body.idleAt b
  let b ← Weave.bodyOf m
  Weave.setBody m
    (← Weave.ofOutcome (b.insertAfter this (b.labelled [Step.ldflda field])))
  let target ← lookupMethod r.name (r.typeArgs.headD .absent)
  Weave.modifyBody m (·.setAt call .call (.method (some target)))

theorem patchCall_eq (m : MethodId) (call : Label) (r : MethodRef) :
    patchCall m call r = (do
      let t := r.typeArgs.headD .absent
      let write := r.name == setComponentName
      checkAliasing m call r t write
      let (this, hops) ← systemInstance m call r
      let a ← componentAccess t
      if write && a.readOnly then allowWrites a
      serveCall m call r this hops a.field) :=
  rfl

theorem serveCall_cloning (hT : LooksUp V u O D ks T) (hk : k ∈ ks)
    (x : Reference) {this : Label} {hops : List Label} {field : FieldRef}
    (hthis : (b.get this).loadsThis) (hhops : ∀ l ∈ hops,
      (b.get l).op = .ldfld ∧ ∃ f, (b.get l).operand = .field f) :
    ⦃fun v w => ⌜Sketch (World.Cloning V u O.job D ks
      (Function.update P k (· = b))) O v w⌝⦄
      serveCall k x.label x.target this hops field
      ⦃post⟨fun _ v w =>
        ⌜Sketch (World.Cloning V u O.job D ks
          (Function.update P k (b.Serves T x))) O v w⌝,
        fun _ _ => ⌜True⌝⟩⦄ := by
  have hset := fun b' =>
    @Weave.setBody_cloning V u D ks (Function.update P k fun _ => True) k b'
      O.job hk
  simp only [Function.update_idem] at hset
  have hmodify := fun b f => @Weave.modifyBody_cloning V u D ks P k b O.job f hk
  have hlookup := fun b => hT (Function.update P k (· = b)) x.target
  have hinsert := fun o : Outcome Body => Weave.ofOutcome_yields (o := o)
    (J := World.Cloning V u O.job D ks (Function.update P k fun _ => True))
  unfold serveCall
  mvcgen [hset, hmodify, hlookup, hinsert, -Weave.ofOutcome_preserves,
    -Weave.ofOutcome_gives, -Weave.setBody_preserves, -Weave.setBody_frame,
    -setBody_keeps, -Weave.modifyBody_preserves, -Weave.modifyBody_frame,
    -modifyBody_keeps, -lookupMethod_preserves, -lookupMethod_keeps]
  · rename_i h
    exact h.world
  · rename_i hw _ _
    exact hw.of_copies fun n _ => Function.update_imp fun _ _ => trivial
  · rename_i hw
    exact hw.1
  · rename_i h _ _ _ _ _ _ _ _ _ _ hw
    exact ⟨hw, h.plan⟩
  · rename_i h
    exact h.1.world
  · rename_i hw b' hb' b₁ _ hinsert _ _ _ target _ _ htarget _ _
    cases (hw.holds.holds.code_eq hk).symm.trans hb'
    refine fun hw => ⟨hw.of_copies fun n _ => Function.update_imp ?_,
      htarget.1.plan⟩
    rintro _ rfl
    exact .intro this hops field target b₁ hthis hhops hinsert.2 htarget.2

theorem patchCall_cloning [O.OpenAccess] (hT : LooksUp V u O D ks T)
    (hk : k ∈ ks) (x : Reference) :
    ⦃fun v w => ⌜Sketch (World.Cloning V u O.job D ks
      (Function.update P k (· = b))) O v w⌝⦄
      patchCall k x.label x.target
      ⦃post⟨fun _ v w =>
        ⌜Sketch (World.Cloning V u O.job D ks
          (Function.update P k (b.Serves T x))) O v w⌝,
        fun _ _ => ⌜True⌝⟩⦄ := by
  have hinstance := systemInstance_yields (O := O)
    fun (w : World) (hw : w.Has (World.Cloning V u O.job D ks
        (Function.update P k (· = b)))) =>
      Workspace.code_eq (hw.holds.holds.code_eq hk)
  have haccess : ∀ t, Preserves
    (World.Cloning V u O.job D ks (Function.update P k (· = b))) O
      (componentAccess t) := fun _ => componentAccess_preserves
  have hallow : ∀ a, Preserves
    (World.Cloning V u O.job D ks (Function.update P k (· = b))) O
      (allowWrites a) := fun _ => allowWrites_preserves
  have hserve := fun this hops field => @serveCall_cloning V u O D ks P k b T hT
    hk x this hops field
  rw [patchCall_eq]
  mvcgen [hinstance, haccess, hallow, hserve, -systemInstance_preserves,
    -systemInstance_keeps, -componentAccess_preserves, -componentAccess_drafts,
    -allowWrites_preserves, -allowWrites_drafts]
  · infer_instance
  · rename_i h
    exact h.1
  · rename_i h _ _ _ _ _ _ _
    exact fun _ _ _ => h.2.1
  · rename_i h _ _ _ _ _ _ _
    exact fun _ _ _ => h.2.2
  · rename_i h _ _ _
    exact fun _ _ _ => h.2.1
  · rename_i h _ _ _
    exact fun _ _ _ => h.2.2

/-- The calls of accessors in the code of a method. -/
def accessorCalls (m : MethodId) : Planning (List Instr) := do
  (← Weave.bodyOf m).code.filterM fun i => do
    match i.invokes? with
    | some r => return (← Weave.need r).isComponentAccessor
    | none => return false

/-- Replaces some calls of accessors. -/
def patchCalls (m : MethodId) (calls : List Instr) : Planning Unit := do
  for call in calls do
    let r ← Weave.need ((← Weave.bodyOf m).get call.label).method?.join
    patchCall m call.label r

theorem patchComponentAccess_eq (m : MethodId) :
    patchComponentAccess m = (do patchCalls m (← accessorCalls m)) := by
  unfold accessorCalls
  exact (bind_assoc _ _ _).symm

/-- Finding the calls of accessors changes nothing. -/
theorem accessorCalls_yields {v₀ : Plan} {w₀ : World}
    (hb : (w₀.workspace.method k).body = some b) :
    ⦃fun v w => ⌜v = v₀ ∧ w = w₀⌝⦄ accessorCalls k
      ⦃post⟨fun r v w => ⌜(v = v₀ ∧ w = w₀) ∧
        r = b.code.filter Instr.callsAccessor⌝, fun _ _ => ⌜True⌝⟩⦄ := by
  have haccessor : ∀ i ∈ b.code, ⦃fun v w => ⌜v = v₀ ∧ w = w₀⌝⦄ (do
      match i.invokes? with
      | some r => return (← Weave.need r).isComponentAccessor
      | none => return false : Planning Bool)
      ⦃post⟨fun r v w => ⌜(v = v₀ ∧ w = w₀) ∧ r = i.callsAccessor⌝,
          fun _ _ => ⌜True⌝⟩⦄ := by
    intro i _
    mvcgen
    · rename_i hi _ _ h _ hr
      exact ⟨h, (Instr.callsAccessor_of_invokes (hr ▸ hi)).symm⟩
    · rename_i hi _ _ h
      exact ⟨h, (Instr.callsAccessor_of_not_invokes hi).symm⟩
  have hfilter : ∀ code, code = b.code → _ :=
    fun code hcode => hcode ▸ filterM_eq haccessor
  unfold accessorCalls
  mvcgen [hfilter, -filterM_preserves, -filterM_keeps]
  · rename_i h b' hb'
    cases hb.symm.trans (h.2 ▸ hb')
    rfl
  · rename_i h b' hb' _ _ _
    cases hb.symm.trans (h.2 ▸ hb')
    exact id

/-- Serving the accessors of a copy one by one, when serving one of them does
what the accessors before it ask for. -/
theorem patchCalls_run {K : List Reference → Plan → World → Prop} (hk : k ∈ ks)
    (hb : b.IsTidy) (hpatch : ∀ before b₁, ∀ x ∈ b.references,
      ⦃fun v w => ⌜Sketch (World.Cloning V u O.job D ks
        (Function.update P k (· = b₁))) O v w ∧ K before v w⌝⦄
      patchCall k x.label x.target
      ⦃post⟨fun _ v w => ⌜Sketch (World.Cloning V u O.job D ks
        (Function.update P k (b₁.Serves T x))) O v w ∧ K (before ++ [x]) v w⌝,
        fun _ _ => ⌜True⌝⟩⦄) :
    ⦃fun v w => ⌜Sketch (World.Cloning V u O.job D ks
        (Function.update P k (b.ServesAll T []))) O v w ∧ K [] v w⌝⦄
      patchCalls k (b.code.filter Instr.callsAccessor)
      ⦃post⟨fun _ v w => ⌜Sketch (World.Cloning V u O.job D ks
        (Function.update P k
          (b.ServesAll T (b.references.filter Reference.isAccessor)))) O v w ∧
          K (b.references.filter Reference.isAccessor) v w⌝,
          fun _ _ => ⌜True⌝⟩⦄ := by
  have hlist := b.filterMap_callsAccessor
  have hnodup := hb.nodup_references.filter Reference.isAccessor
  generalize hcalls : b.code.filter Instr.callsAccessor = calls at hlist
  rw [← hlist] at hnodup ⊢
  unfold patchCalls
  refine Triple.bind _ _ (forIn_run (I := fun before v w => Sketch
    (World.Cloning V u O.job D ks
      (Function.update P k (b.ServesAll T (before.filterMap Instr.reference?))))
        O v w ∧
      K (before.filterMap Instr.reference?) v w)
    fun before call after hsplit => ?_) fun _ => ?_
  · have hmem : ∀ i ∈ calls, i ∈ b.code ∧ i.callsAccessor := fun i hi =>
      List.mem_filter.1 (hcalls ▸ hi)
    obtain ⟨x, hx⟩ := Instr.exists_of_callsAccessor
      (hmem call (by simp [hsplit])).2
    have hxb : x ∈ b.references :=
      Body.mem_references.2 ⟨call, (hmem call (by simp [hsplit])).1, hx⟩
    have hbefore : ∀ y ∈ before.filterMap Instr.reference?,
        y ∈ b.references := by
      intro y hy
      obtain ⟨i, hi, hiy⟩ := List.mem_filterMap.1 hy
      exact Body.mem_references.2 ⟨i, (hmem i (by simp [hsplit, hi])).1, hiy⟩
    rw [hsplit, List.filterMap_append, List.filterMap_cons_some hx,
      List.nodup_append] at hnodup
    have hnew : x ∉ before.filterMap Instr.reference? := fun hc =>
      hnodup.2.2 x hc x (by simp) rfl
    refine fix_copy_and hk fun b₁ hb₁ => ?_
    have hx₁ : x ∈ b₁.references :=
      Reference.Served.mem (hb₁.references hb hnodup.1 hbefore) hxb hnew
    have hget := Instr.reference?_eq_some.1
      ((hb₁.spares.isTidy hb).get_reference hx₁)
    have hpatch : ∀ l r, l = x.label → r = x.target → ⦃fun v w => ⌜Sketch
          (World.Cloning V u O.job D ks (Function.update P k (· = b₁))) O v w ∧
            K (before.filterMap Instr.reference?) v w⌝⦄
        patchCall k l r
        ⦃post⟨fun _ v w => ⌜Sketch (World.Cloning V u O.job D ks
          (Function.update P k (b₁.Serves T x))) O v w ∧
            K (before.filterMap Instr.reference? ++ [x]) v w⌝,
            fun _ _ => ⌜True⌝⟩⦄ := by
      rintro _ _ rfl rfl
      exact hpatch _ b₁ x hxb
    mvcgen [hpatch, -patchCall_preserves, -patchCall_drafts]
    · exact (Instr.reference?_eq_some.1 hx).1
    · rename_i h b' hb' r hr
      cases (h.1.world.holds.holds.code_eq hk).symm.trans hb'
      rw [(Instr.reference?_eq_some.1 hx).1] at hr
      simpa [Instr.method?, hget.2.2] using hr.symm
    · rename_i h
      rw [List.filterMap_append, List.filterMap_cons_some hx]
      refine ⟨trivial, ⟨h.1.world.of_copies fun n _ => Function.update_imp
        fun b' hb' => ?_, h.1.plan⟩, h.2⟩
      exact hb₁.snoc hb'
  · mvcgen

theorem patchComponentAccess_run {K : List Reference → Plan → World → Prop}
    (hk : k ∈ ks) (hb : b.IsTidy)
    (hpatch : ∀ before b₁, ∀ x ∈ b.references,
      ⦃fun v w => ⌜Sketch (World.Cloning V u O.job D ks
        (Function.update P k (· = b₁))) O v w ∧ K before v w⌝⦄
      patchCall k x.label x.target
      ⦃post⟨fun _ v w => ⌜Sketch (World.Cloning V u O.job D ks
        (Function.update P k (b₁.Serves T x))) O v w ∧ K (before ++ [x]) v w⌝,
        fun _ _ => ⌜True⌝⟩⦄) :
    ⦃fun v w => ⌜Sketch (World.Cloning V u O.job D ks
      (Function.update P k (· = b))) O v w ∧
        K [] v w⌝⦄
      patchComponentAccess k
      ⦃post⟨fun _ v w => ⌜Sketch (World.Cloning V u O.job D ks
        (Function.update P k
          (b.ServesAll T (b.references.filter Reference.isAccessor)))) O v w ∧
          K (b.references.filter Reference.isAccessor) v w⌝,
          fun _ _ => ⌜True⌝⟩⦄ := by
  intro v₀ w₀ h₀
  have haccessors := @accessorCalls_yields k b v₀ w₀
    (h₀.1.world.holds.holds.code_eq hk)
  have hcalls : ∀ calls, calls = b.code.filter Instr.callsAccessor → _ :=
    fun calls hcalls => hcalls ▸ patchCalls_run hk hb hpatch
  have hrun : ⦃fun v w => ⌜v = v₀ ∧ w = w₀⌝⦄ patchComponentAccess k
      ⦃post⟨fun _ v w => ⌜Sketch (World.Cloning V u O.job D ks
        (Function.update P k
          (b.ServesAll T (b.references.filter Reference.isAccessor)))) O v w ∧
          K (b.references.filter Reference.isAccessor) v w⌝,
          fun _ _ => ⌜True⌝⟩⦄ := by
    rw [patchComponentAccess_eq]
    mvcgen [haccessors, hcalls]
    · rename_i h
      rw [h.1.1, h.1.2]
      refine ⟨⟨h₀.1.world.of_copies fun n _ => Function.update_imp ?_,
        h₀.1.plan⟩, h₀.2⟩
      rintro _ rfl
      exact .nil
    · exact fun _ _ _ _ h => h
  exact hrun v₀ w₀ ⟨rfl, rfl⟩

/-- The accessors of a copy are served one by one. -/
theorem patchComponentAccess_cloning [O.OpenAccess] (hT : LooksUp V u O D ks T)
    (hk : k ∈ ks) (hb : b.IsTidy) :
    ⦃fun v w => ⌜Sketch (World.Cloning V u O.job D ks
      (Function.update P k (· = b))) O v w⌝⦄
      patchComponentAccess k
      ⦃post⟨fun _ v w => ⌜Sketch (World.Cloning V u O.job D ks
        (Function.update P k
          (b.ServesAll T (b.references.filter Reference.isAccessor)))) O v w⌝,
        fun _ _ => ⌜True⌝⟩⦄ := by
  have hrun := patchComponentAccess_run (V := V) (u := u) (O := O) (D := D)
    (P := P) (T := T) (K := fun _ _ _ => True) hk hb fun _ _ x _ => by
      simpa only [and_true] using patchCall_cloning hT hk x
  simpa only [and_true] using hrun

/-! ## Captured variables -/

theorem loadsEnclosing_yields [World.Resolving J] {i : Instr} :
    Yields J O (fun a => a = true → i.LoadsField) (loadsEnclosing i) := by
  have hloads : ∀ {f : FieldRef}, ¬(i.op != .ldfld && i.op != .ldflda) = true →
      i.field?.join = some f → i.LoadsField := by
    intro f hop hf
    refine ⟨?_, _, Instr.operand_of_field? hf⟩
    by_contra hc
    exact hop (by simpa using hc)
  unfold loadsEnclosing
  mvcgen
  all_goals first | exact fun _ _ _ => inferInstance | grind -ring -linarith

theorem captureAt_yields [World.Resolving J] {m : MethodId} {d : MethodDef}
    {i : Instr} (hd : d.code.HasOwnLabels) (hi : i ∈ d.code.code) :
    Yields J O (fun o => ∀ c ∈ o, d.code.Reaches c) (captureAt m d i) := by
  have hwalk : ∀ fuel l, Yields J O (fun r => ∀ l ∈ r.1,
    (d.code.get l).LoadsField)
      (walkBack d loadsEnclosing fuel l) :=
    fun _ _ => walkBack_yields fun _ => loadsEnclosing_yields
  have hreach : ∀ {f : FieldRef} {hops : List FieldRef} {ls : List Label},
      ¬(!i.op.accessesField) = true → i.field?.join = some f →
        (∀ l ∈ ls, (d.code.get l).LoadsField) →
          d.code.Reaches
            { label := i.label, hops, hopLabels := ls, leaf := f } := by
    intro f hops ls hop hf hls
    have hget : d.code.get i.label = i := hd.get_eq hi
    exact ⟨by simpa [hget] using hop,
      ⟨f, by rw [hget, Instr.operand_of_field? hf]⟩, hls⟩
  unfold captureAt
  mvcgen [hwalk, -walkBack_preserves, -walkBack_keeps]
  all_goals grind -ring -linarith [Plan.Follows]

theorem captures_yields [World.Resolving J] (hb : b.HasOwnLabels)
    (hcode : ∀ w : World, w.Has J → (w.workspace.method k).code = b) :
    Yields J O (fun found => ∀ c ∈ found, b.Reaches c) (captures k) := by
  have hall : ∀ d : MethodDef, d.code = b →
      Yields J O (List.Forall₂ (fun _ o => ∀ c ∈ o, b.Reaches c) d.code.code)
        (d.code.code.mapM (captureAt k d)) := by
    rintro d rfl
    exact mapM_inv fun i hi => captureAt_yields hb hi
  unfold captures
  mvcgen [hall, -mapM_preserves, -mapM_keeps]
  · rename_i w h
    exact hcode w h.world
  · rename_i found _ _ h
    refine ⟨h.1, fun c hc => ?_⟩
    obtain ⟨o, ho, rfl⟩ := List.mem_filterMap.1 hc
    obtain ⟨n, hn, hget⟩ := List.mem_iff_getElem.1 ho
    exact h.2.get (h.2.length_eq ▸ hn) hn c hget

theorem redirect_cloning [O.OpenCaptured] (hk : k ∈ ks) {c : Capture}
    {written : Bool} :
    ⦃fun v w => ⌜Sketch (World.Cloning V u O.job D ks
      (Function.update P k (· = b))) O v w⌝⦄
      redirect k c written
      ⦃post⟨fun _ v w => ⌜Sketch (World.Cloning V u O.job D ks
          (Function.update P k fun b' => ∃ f, b' = b.redirect c f)) O v w⌝,
        fun _ _ => ⌜True⌝⟩⦄ := by
  have hfield : Preserves (World.Cloning V u O.job D ks
    (Function.update P k (· = b))) O
      (capturedField c written) := capturedField_preserves
  have hmodify := fun f => @Weave.modifyBody_cloning V u D ks P k b O.job f hk
  unfold redirect
  mvcgen [hfield, hmodify, -capturedField_preserves, -capturedField_drafts,
    -Weave.modifyBody_preserves, -Weave.modifyBody_frame, -modifyBody_keeps]
  · rename_i h
    exact h.world
  · rename_i field _ _ h _ _
    refine fun hw => ⟨hw.of_copies fun n _ => Function.update_imp ?_, h.plan⟩
    rintro _ rfl
    exact ⟨field, rfl⟩

theorem redirectAll_cloning [O.OpenCaptured] (hk : k ∈ ks)
    {found : List Capture} {written : Capture → Bool}
    (hfound : ∀ c ∈ found, b.Reaches c) :
    ⦃fun v w => ⌜Sketch (World.Cloning V u O.job D ks
      (Function.update P k (· = b))) O v w⌝⦄
      found.forM fun c => redirect k c (written c)
      ⦃post⟨fun _ v w => ⌜Sketch (World.Cloning V u O.job D ks
          (Function.update P k b.Remaps)) O v w⌝, fun _ _ => ⌜True⌝⟩⦄ := by
  have hrun := @forM_run _ found (fun c => redirect k c (written c))
    (fun before => Sketch (World.Cloning V u O.job D ks
      (Function.update P k (b.RedirectsAll before))) O)
        fun before c after _ => by
    refine fix_copy hk fun b₁ hb₁ => ?_
    have hredirect := @redirect_cloning V u O D ks P k b₁ _ hk c (written c)
    mvcgen [hredirect, -redirect_preserves, -redirect_drafts]
    refine fun h => ⟨h.world.of_copies fun n _ => Function.update_imp ?_,
      h.plan⟩
    rintro _ ⟨f, rfl⟩
    exact hb₁.snoc c f
  mvcgen [hrun, -forM_preserves, -forM_keeps]
  · rename_i h
    refine ⟨h.world.of_copies fun n _ => Function.update_imp ?_, h.plan⟩
    rintro _ rfl
    exact .nil
  · exact fun h => ⟨h.world.of_copies fun n _ => Function.update_imp
        fun b' hb' =>
      ⟨found, hfound, hb'⟩, h.plan⟩

/-- The accesses of a copy to captured variables are pointed at fields of the
struct. -/
theorem remapCaptures_cloning [O.OpenCaptured] (hk : k ∈ ks)
    (hb : b.HasOwnLabels) :
    ⦃fun v w => ⌜Sketch (World.Cloning V u O.job D ks
      (Function.update P k (· = b))) O v w⌝⦄
      remapCaptures k
      ⦃post⟨fun _ v w => ⌜Sketch (World.Cloning V u O.job D ks
          (Function.update P k b.Remaps)) O v w⌝, fun _ _ => ⌜True⌝⟩⦄ := by
  have hcaptures := captures_yields (O := O) (k := k) hb
    fun (w : World) (hw : w.Has (World.Cloning V u O.job D ks
        (Function.update P k (· = b)))) =>
      Workspace.code_eq (hw.holds.holds.code_eq hk)
  have hrefuse : ∀ (found : List Capture) (stores : Capture → Bool),
      Preserves (World.Cloning V u O.job D ks (Function.update P k (· = b))) O
        (found.forM fun c => do
          if stores c then refuseAt .dc0013 k c.label [.text c.leaf.name]) :=
    fun _ _ => forM_preserves fun _ _ => by mvcgen
  have hredirect := fun found written =>
    @redirectAll_cloning V u O D ks P k b _ hk found written
  have hcheck : ∀ found : List Capture, Preserves (World.Cloning V u O.job D ks
      (Function.update P k b.Remaps)) O (found.forM (checkReference k)) :=
    fun _ => forM_preserves fun _ _ => checkReference_preserves
  unfold remapCaptures
  mvcgen [hcaptures, hrefuse, hredirect, hcheck, -captures_preserves,
    -captures_keeps, -forM_preserves, -forM_keeps]
  all_goals grind

end Planning

end JobWeave
