import Mathlib
import JobWeave.Proofs.Pass.Development
import JobWeave.Proofs.Splice.Filling

/-!
# Attempts in a world that can be trusted

An attempt at a method leaves a world that can be trusted, and the code that its
plans have for the creation hook is straight.  Putting a system back after a
fault leaves such a world, too.

* `Weave.attemptChains_straight` is about one attempt at a method.
* `Pass.restoreSystem_trusts` is about a system that is put back.
-/

namespace JobWeave

open Framework Std.Do

set_option mvcgen.warning false

variable {U V W w : Workspace} {mods : List ModuleId} {m : MethodId}
  {t : TypeId}
variable {cs : List Chain} {us : List Plan} {fs : List Failure}

namespace Weave

/-! ## Attempts -/

/-- A chain gets a plan with straight code, or a failure in its place. -/
theorem planOne_straight (V : Workspace) (mods : List ModuleId) (c : Chain)
    (asStruct taken : Bool) :
    Yields (World.Trusts V mods) (fun r => ∀ u, r = .ok u → u.IsStraight)
      (tryFailure (do
        let u ← synthesize c asStruct
        if taken then refuse .dc0003 c.method c.source [.text c.name]
        return u)) := by
  have hsynthesize : Yields (World.Trusts V mods) Plan.IsStraight
      (synthesize c asStruct) :=
    synthesize_straight
  have hact : Yields (World.Trusts V mods) Plan.IsStraight (do
      let u ← synthesize c asStruct
      if taken then refuse .dc0003 c.method c.source [.text c.name]
      return u) := by
    mvcgen [hsynthesize, -synthesize_spec]
    all_goals grind
  have htry := tryFailure_spec hact
  mvcgen [htry, -tryFailure_preserves]
  all_goals grind

/-- The code of the plans is straight. -/
theorem planAll_straight (V : Workspace) (mods : List ModuleId)
    (cs : List Chain) (asStruct : Bool) :
    Yields (World.Trusts V mods) (fun r => ∀ u ∈ r.1, u.IsStraight)
      (planAll cs asStruct) := by
  have hfold : ⦃fun w => ⌜w.Has (World.Trusts V mods) ∧ ∀ u ∈ ([] : List Plan),
    u.IsStraight⌝⦄
      planAll cs asStruct
      ⦃post⟨fun r w => ⌜w.Has (World.Trusts V mods) ∧ ∀ u ∈ r.1, u.IsStraight⌝,
        fun _ w => ⌜w.Has (World.Trusts V mods)⌝⟩⦄ := by
    refine foldlM_run (P := fun _ (r : List Plan × List Failure) (w : World) =>
      w.Has (World.Trusts V mods) ∧ ∀ u ∈ r.1, u.IsStraight) ?_
    rintro before c after - ⟨us, fs⟩
    have hone := planOne_straight V mods c asStruct
    mvcgen [hone, -tryFailure_preserves]
    all_goals grind
  exact triple_iff.2 fun w hw => triple_iff.1 hfold w ⟨hw, by simp⟩

/-- The plans that are left are some of those that were to be carried out. -/
theorem spliceAll_subset (V : Workspace) (mods : List ModuleId)
    (us : List Plan) :
    Yields (World.Trusts V mods) (fun r => r.1 ⊆ us) (spliceAll us) := by
  have hfold : ⦃fun w => ⌜w.Has (World.Trusts V mods) ∧ ([] : List Plan) ⊆
    []⌝⦄ spliceAll us
      ⦃post⟨fun r w => ⌜w.Has (World.Trusts V mods) ∧ r.1 ⊆ us⌝,
        fun _ w => ⌜w.Has (World.Trusts V mods)⌝⟩⦄ := by
    refine foldlM_run
      (P := fun before (r : List Plan × List Diagnostic × List Failure)
      (w : World) => w.Has (World.Trusts V mods) ∧ r.1 ⊆ before) ?_
    rintro before u after - ⟨done, warnings, fs⟩
    have hsub : done ⊆ before → done ++ [u] ⊆ before ++ [u] :=
      fun h => List.append_subset.2 ⟨List.subset_append_of_subset_left _ h,
        List.subset_append_right _ _⟩
    mvcgen
    all_goals first
      | infer_instance
      | exact fun _ _ => inferInstance
      | grind
  exact triple_iff.2 fun w hw => triple_iff.1 hfold w ⟨hw, by simp⟩

theorem replacePlans_subset (V : Workspace) (mods : List ModuleId)
    (s : Settings) (m : MethodId) (us : List Plan) (fs : List Failure)
    (asStruct : Bool) :
    Yields (World.Trusts V mods) (fun r => r.plans ⊆ us)
      (replacePlans s m us fs asStruct) := by
  have hsplice := spliceAll_subset V mods us
  have hconvert : Preserves (World.Trusts V mods) (convertClosures m) :=
    convertClosures_trusts
  mvcgen [replacePlans, hsplice, hconvert, -convertClosures_spec]
  all_goals first
    | infer_instance
    | grind -ring -linarith [Attempt.plans, Attempt.plans_carrying]

theorem attemptMethod_straight (V : Workspace) (mods : List ModuleId)
    (s : Settings) (m : MethodId) (cs : List Chain) (asStruct : Bool) :
    Yields (World.Trusts V mods) (fun r => ∀ u ∈ r.plans, u.IsStraight)
      (attemptMethod s m cs asStruct) := by
  have hplan := planAll_straight V mods cs asStruct
  have hreplace := fun us fs => replacePlans_subset V mods s m us fs asStruct
  mvcgen [attemptMethod, hplan, hreplace, -planAll_spec]
  all_goals first
    | infer_instance
    | grind -ring -linarith [Attempt.plans, Attempt.plans_carrying]

/-- The code of the plans that an attempt gives is straight. -/
theorem attemptChains_straight (V : Workspace) (mods : List ModuleId)
    (s : Settings) (m : MethodId) (cs : List Chain) :
    Yields (World.Trusts V mods) (fun r => ∀ u ∈ r.2.plans, u.IsStraight)
      (attemptChains s m cs) := by
  have hattempt := attemptMethod_straight V mods s m cs
  mvcgen [attemptChains, hattempt]
  all_goals first
    | infer_instance
    | grind [Attempt.plans, Attempt.plans_carrying]

end Weave

/-! ## Commits -/

/-- A commit changes the code of the hook, but before that the types alone. -/
theorem Plan.amends_attachTo (u : Plan) (w : Workspace) :
    (w.attachNested u.chain.system u.type).Amends (u.attachTo w) := by
  unfold attachTo
  split
  · exact Workspace.amends_addField _ _ _
  · exact .refl _

/-- Committing a plan whose struct was added. -/
theorem World.Trusts.commit {w : World} {u : Plan} (h : w.Trusts V mods)
    (hc : V.Carries us w.workspace) (hu : u ∈ us)
    (ha : (u.attachTo w.workspace).Amends W) :
    World.Trusts V mods { w with workspace := W } ∧ V.Carries us W := by
  have hattached := hc.attachNested u.chain.system hu
  have hamends := (u.amends_attachTo w.workspace).trans ha
  refine ⟨h.sustain ?_ ?_, hattached.of_alike hamends.toAlike⟩
  · exact hattached.1.of_alike hamends.toAlike
  · exact (h.retains.attachNested _ _).amend hattached.1 hamends

/-! ## Undoing -/

/-- The world can be trusted, and it goes on from `W`. -/
def World.TrustsSince (V : Workspace) (mods : List ModuleId) (W : Workspace)
    (w : World) : Prop :=
  w.Trusts V mods ∧ W.Develops w.workspace

instance : World.Editable (World.TrustsSince V mods W) where
  amend _ _ h ha := ⟨h.holds.1.amend ha, h.holds.2.of_alike ha.toAlike⟩
  markForeign _ _ h := ⟨h.holds.1.markForeign _, h.holds.2⟩

namespace Pass

variable {s : SystemState}

/-- The types that are put back have the methods that they had. -/
theorem SystemState.Records.retains (hs : s.Records W t) (hW : V.Retains W)
    (hw : V.Retains w) :
    V.Retains (s.restoreTypes w) := by
  have hmethod : ∀ m, (s.restoreTypes w).method m = w.method m := fun m => by
    rw [Workspace.method, Workspace.methodEntry, s.methods_restoreTypes]
    rfl
  refine ⟨fun m hm => hmethod m ▸ hw.signature m hm, fun x hx hc => ?_⟩
  have hold := hW.declared x hx hc
  have hnow := hw.declared x hx hc
  rw [hs.type_restoreTypes]
  dsimp only
  split_ifs <;> simp_all [restoreNested, restoreType, hs.entry]

/-- Putting a system back leaves a world that can be trusted. -/
theorem restoreSystem_trusts (hs : s.Records W t)
    (hinner : ∀ n ∈ (W.type t).nested, n.index < W.types.size)
    (hVW : V.Develops W) (hW : V.Retains W) :
    Weave.Preserves (World.TrustsSince V mods W) (restoreSystem s) := by
  have hput : ∀ {w : World}, w.Has (World.TrustsSince V mods W) →
      World.Has (World.TrustsSince V mods W)
        { w with workspace := s.restoreTypes w.workspace } :=
    fun {w} hw => by
      have hdevelops := hs.develops hinner hw.holds.2
      exact ⟨hw.holds.1.sustain (hVW.trans hdevelops)
        (hs.retains hW hw.holds.1.retains), hdevelops⟩
  unfold restoreSystem Weave.modifyWorkspace
  mvcgen
  all_goals first
    | infer_instance
    | exact hput ‹_›

end Pass

end JobWeave
