import Mathlib
import JobWeave.Proofs.Plan.Operands
import JobWeave.Proofs.Plan.Reachable

/-!
# The copies of a lambda and of the methods that it reaches

While the copies are edited, nothing is known of them but what their code is.
The signatures stay, so references to them do.

* `World.Cloning V u job D ks P`: the struct `job` has the methods `ks`,
  declared as `D` says, and the code of each `k` has the property `P k`.
* `Weave.setBody_cloning` and `Weave.modifyBody_cloning` change that property
  for one copy.
* `Planning.relinkBody_cloning`: calls of copied methods are pointed at the
  copies.
-/

namespace JobWeave

open Framework Std.Do

set_option mvcgen.warning false

namespace Workspace

variable {V w w' : Workspace} {job : TypeId} {D : MethodId → MethodDef}
  {ks : List MethodId}
variable {P P' : MethodId → Body → Prop} {k : MethodId}

theorem methodEntry_addCopy (w : Workspace) (t : TypeId) (n : MethodId)
    (d : MethodDef) (m : MethodId) :
    (w.addCopy t n d).1.methodEntry m =
      if m.index = w.methods.size
      then { method := d, owner := some t, model := some (w.modelOf n) }
      else w.methodEntry m := by
  have hadd := methodEntry_addMethod w t d m
  by_cases hm : m.index = w.methods.size
  · rw [if_pos hm] at hadd ⊢
    simp [addCopy, addMethod, newMethod, attachMethod, updateType,
      methodEntry, hm, Array.getElem_modify]
  · rw [if_neg hm] at hadd ⊢
    rw [← hadd]
    simp [addCopy, addMethod, newMethod, methodEntry, Array.getElem?_modify,
      Ne.symm hm]

theorem Fills.selfRef_eq (h : V.Fills job w) (t : TypeId) :
    w.selfRef t = V.selfRef t := by
  have hupTo : ∀ fuel t, w.typeRefUpTo fuel t = V.typeRefUpTo fuel t := by
    intro fuel
    induction fuel with
    | zero => exact fun _ => rfl
    | succ fuel ih =>
      intro t
      rw [typeRefUpTo, typeRefUpTo, h.outer_eq, h.head_eq]
      simp only [ih]
      rfl
  rw [selfRef, selfRef, typeRef, typeRef, hupTo, h.types, h.head_eq]
  rfl

/-- The copies are methods of the struct, declared as `D` says, and the code of
each has its property. -/
structure Copied (V : Workspace) (job : TypeId) (D : MethodId → MethodDef)
    (ks : List MethodId) (P : MethodId → Body → Prop) (w : Workspace) :
    Prop where
  /-- they were added -/
  isNew : ∀ k ∈ ks, V.methods.size ≤ k.index
  /-- the struct has them -/
  owner : ∀ k ∈ ks, (w.methodEntry k).owner = some job
  /-- their code -/
  code : ∀ k ∈ ks, ∃ b, P k b ∧ w.method k = { D k with body := some b }

namespace Copied

theorem imp (h : V.Copied job D ks P w) (hP : ∀ k ∈ ks, ∀ b, P k b → P' k b) :
    V.Copied job D ks P' w :=
  ⟨h.isNew, h.owner, fun k hk => (h.code k hk).imp
    fun b hb => ⟨hP k hk b hb.1, hb.2⟩⟩

theorem of_methods_eq (h : V.Copied job D ks P w)
    (hm : w'.methods = w.methods) :
    V.Copied job D ks P w' := by
  have hentry : ∀ k, w'.methodEntry k = w.methodEntry k := fun k => by
    rw [methodEntry, methodEntry, hm]
  refine ⟨h.isNew, fun k hk => hentry k ▸ h.owner k hk, fun k hk => ?_⟩
  rw [method, hentry]
  exact h.code k hk

theorem setBody (h : V.Copied job D ks P w) (hk : k ∈ ks) (b : Body) :
    V.Copied job D ks (Function.update P k (· = b))
      (w.updateMethod k fun d => { d with body := some b }) := by
  obtain ⟨b₀, -, hb₀⟩ := h.code k hk
  have hself := methodEntry_updateMethod_self
    (fun d => { d with body := some b })
      (lt_of_body (congrArg MethodDef.body hb₀))
  refine ⟨h.isNew, fun n hn => ?_, fun n hn => ?_⟩ <;> by_cases hnk : n = k
  · rw [hnk, hself]
    exact h.owner k hk
  · rw [methodEntry_updateMethod_of_ne _ hnk]
    exact h.owner n hn
  · subst hnk
    refine ⟨b, by simp, ?_⟩
    rw [method, hself, hb₀]
  · rw [Function.update_of_ne hnk, method, methodEntry_updateMethod_of_ne _ hnk]
    exact h.code n hn

/-- The code of a copy with a property. -/
theorem exists_code {Q : Body → Prop}
    (h : V.Copied job D ks (Function.update P k Q) w)
    (hk : k ∈ ks) :
    ∃ b, Q b ∧ V.Copied job D ks (Function.update P k (· = b)) w := by
  obtain ⟨b, hb, hcode⟩ := h.code k hk
  rw [Function.update_self] at hb
  refine ⟨b, hb, h.isNew, h.owner, fun n hn => ?_⟩
  by_cases hnk : n = k
  · subst hnk
    exact ⟨b, by simp, hcode⟩
  · obtain ⟨b', hb', hcode'⟩ := h.code n hn
    rw [Function.update_of_ne hnk] at hb'
    exact ⟨b', by rwa [Function.update_of_ne hnk], hcode'⟩

/-- The code of a copy is known. -/
theorem code_eq {b : Body}
    (h : V.Copied job D ks (Function.update P k (· = b)) w)
    (hk : k ∈ ks) : (w.method k).body = some b := by
  obtain ⟨b', hb', hcode⟩ := h.code k hk
  rw [Function.update_self] at hb'
  rw [hcode, hb']

/-- A reference to a copy. -/
theorem methodRef?_eq (h : V.Copied job D ks P w) (hfills : V.Fills job w)
    (hk : k ∈ ks) :
    w.methodRef? k = some ((D k).refOn (V.selfRef job)) := by
  obtain ⟨b, -, hb⟩ := h.code k hk
  have hb : (w.methodEntry k).method = _ := hb
  simp only [methodRef?, h.owner k hk, Option.bind_eq_bind, Option.bind_some,
    hfills.selfRef_eq, hb]
  rfl

end Copied

end Workspace

/-- The struct is filled, and it has the copies. -/
abbrev World.Cloning (V : Workspace) (u : Universe) (job : TypeId)
    (D : MethodId → MethodDef) (ks : List MethodId)
    (P : MethodId → Body → Prop) : World → Prop :=
  World.Filling V u job (Workspace.Copied V job D ks P)

variable {V : Workspace} {u : Universe} {O : Outline} {D : MethodId → MethodDef}
variable {ks : List MethodId} {P : MethodId → Body → Prop} {k : MethodId}
  {b : Body}

instance : World.Fillable (World.Cloning V u O.job D ks P) O.job where
  fill _ hf := triple_iff.2 fun _ hw =>
    ⟨hw.holds.fill (hw.holds.fills.updateHead hf)
      (hw.holds.holds.of_methods_eq rfl)⟩

/-- The property of one of the copies is weakened. -/
theorem Function.update_imp {P : MethodId → Body → Prop} {k n : MethodId}
    {Q Q' : Body → Prop} (hQ : ∀ b, Q b → Q' b) (b : Body)
    (h : Function.update P k Q n b) :
    Function.update P k Q' n b := by
  by_cases hn : n = k
  · subst hn
    rw [Function.update_self] at h ⊢
    exact hQ b h
  · rwa [Function.update_of_ne hn] at h ⊢

theorem World.Has.of_copies {P P' : MethodId → Body → Prop} {job : TypeId}
    {w : World} (h : w.Has (World.Cloning V u job D ks P))
    (hP : ∀ k ∈ ks, ∀ b, P k b → P' k b) :
    w.Has (World.Cloning V u job D ks P') :=
  ⟨h.holds.imp fun hw => hw.imp hP⟩

namespace Weave

variable {job : TypeId}

theorem setBody_cloning (hk : k ∈ ks) :
    ⦃fun w => ⌜w.Has (World.Cloning V u job D ks P)⌝⦄ setBody k b
      ⦃post⟨fun _ w => ⌜w.Has (World.Cloning V u job D ks
        (Function.update P k (· = b)))⌝, fun _ _ => ⌜True⌝⟩⦄ :=
  triple_iff.2 fun _ hw => ⟨hw.holds.fill
    (hw.holds.fills.updateMethod (hw.holds.holds.isNew k hk) _)
      (hw.holds.holds.setBody hk b)⟩

theorem modifyBody_cloning {f : Body → Body} (hk : k ∈ ks) :
    ⦃fun w => ⌜w.Has (World.Cloning V u job D ks
      (Function.update P k (· = b)))⌝⦄ modifyBody k f
      ⦃post⟨fun _ w => ⌜w.Has (World.Cloning V u job D ks
        (Function.update P k (· = f b)))⌝, fun _ _ => ⌜True⌝⟩⦄ := by
  have hset := fun b' => @setBody_cloning V u D ks (Function.update P k (· = b))
    k b' job hk
  simp only [Function.update_idem] at hset
  unfold modifyBody
  mvcgen [hset, -setBody_preserves, -setBody_frame,
    -Planning.setBody_keeps]
  rename_i w hw b' hb' _ _
  have hbody : b = b' := Option.some.inj
    ((hw.holds.holds.code_eq hk).symm.trans hb')
  rw [hbody]
  exact id

end Weave

/-! ## Calls of copied methods -/

namespace Planning

variable {job : TypeId} {copies : List (MethodId × MethodId)}

theorem relink_finds (hd : V.Detaches u job)
    (hcopies : ∀ n k, copies.lookup n = some k → k ∈ ks)
    {i : Instr} :
    Weave.Yields (World.Cloning V u job D ks P)
      (· = V.relinked u copies (fun k => (D k).refOn (V.selfRef job)) i)
        (relink copies i) := by
  have hresolve := fun r =>
    resolve?_finds (I := Workspace.Copied V job D ks P) hd (r := r)
  unfold relink
  mvcgen [hresolve, -resolve?_preserves, -resolve?_keeps]
  · rename_i hw
    exact ⟨hw.1, by rw [Workspace.relinked_eq hw.2]; rfl⟩
  · rename_i hlookup _ hw
    exact ⟨hw.1, by rw [Workspace.relinked_eq hw.2, Option.bind_some, hlookup]⟩
  · rename_i hlookup _ hw r hr
    have href := hw.1.holds.holds.methodRef?_eq hw.1.holds.fills
      (hcopies _ _ hlookup)
    refine ⟨hw.1, ?_⟩
    rw [Workspace.relinked_eq hw.2, Option.bind_some, hlookup,
      Option.some.inj (hr.symm.trans href)]
    rfl
  · rename_i hw _
    exact hw.1

/-- The calls of copied methods in the code of a copy are pointed at the
copies. -/
theorem relinkBody_cloning (hd : V.Detaches u job)
    (hcopies : ∀ n k, copies.lookup n = some k → k ∈ ks) (hk : k ∈ ks) :
    ⦃fun w => ⌜w.Has (World.Cloning V u job D ks
      (Function.update P k (· = b)))⌝⦄
      relinkBody copies k
      ⦃post⟨fun _ w => ⌜w.Has (World.Cloning V u job D ks
        (Function.update P k (· = V.relinkedBody u copies
          (fun k => (D k).refOn (V.selfRef job)) b)))⌝,
        fun _ _ => ⌜True⌝⟩⦄ := by
  have hall : ∀ code : List Instr, Weave.Yields (World.Cloning V u job D ks
      (Function.update P k (· = b))) _ (code.mapM (relink copies)) :=
    fun code => Weave.mapM_yields fun i _ => relink_finds hd hcopies
  have hset := fun b' => @Weave.setBody_cloning V u D ks
    (Function.update P k (· = b)) k b' job hk
  simp only [Function.update_idem] at hset
  unfold relinkBody
  mvcgen [hall, hset, -Weave.mapM_preserves, -Weave.mapM_keeps,
    -Weave.setBody_preserves, -Weave.setBody_frame, -setBody_keeps]
  · rename_i hw
    exact hw.1
  · rename_i w hw b' hb' code _ hcode _ _
    have hbody : b = b' := Option.some.inj
      ((hw.holds.holds.code_eq hk).symm.trans hb')
    have hmap : code = b'.code.map
        (V.relinked u copies fun k => (D k).refOn (V.selfRef job)) := by
      rw [← List.forall₂_eq_eq_eq, List.forall₂_map_right_iff]
      exact hcode.2.flip
    rw [hbody, hmap]
    exact id

end Planning

end JobWeave
