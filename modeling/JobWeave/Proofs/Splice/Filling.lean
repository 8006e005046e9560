import Mathlib
import JobWeave.Proofs.Plan.Creation
import JobWeave.Proofs.Splice.Hook
import JobWeave.Proofs.World.Restoring
import JobWeave.Proofs.Body.Stores

/-!
# What a creation hook does

A new hook calls the hook of the base class and returns.  Each plan that is
committed puts its code before the return, and code that is put back after a
fault is code that the hook once had.

* `Body.Builds` says that the code of a hook is the call, the code of some plans
  in order and one return, and `Workspace.Builds` that a method is the hook with
  such code.
* `Weave.commit_run` is what committing a plan does where the hook is known.
* `Workspace.Builds.validate`: the checks pass on the hook.
-/

namespace JobWeave

open Framework Std.Do

set_option mvcgen.warning false

/-! ## Labels -/

namespace Body

variable {b b' : Body} {is : List Instr} {ss : List Step}

/-- Every instruction has a label of its own, and later ones get others. -/
structure Numbered (b : Body) : Prop where
  /-- no label occurs twice -/
  nodup : (b.code.map (·.label)).Nodup
  /-- the labels are in use -/
  lt : ∀ i ∈ b.code, i.label < b.fresh

/-- New instructions among the old ones. -/
theorem Numbered.insert {front back : List Instr} (h : b.Numbered)
    (hb : b.code = front ++ back) (ss : List Step)
    (hcode : b'.code = front ++ b.labelled ss ++ back)
    (hfresh : b'.fresh = (b.claim (b.labelled ss)).fresh) : b'.Numbered := by
  obtain ⟨hle, hlt⟩ := fresh_claim b (b.labelled ss)
  have hperm : b'.code.Perm (b.code ++ b.labelled ss) := by
    rw [hcode, hb, List.append_assoc, List.append_assoc]
    exact List.perm_append_comm.append_left _
  refine ⟨(hperm.map _).nodup_iff.2 ?_, fun i hi => ?_⟩
  · rw [List.map_append, labels_labelled]
    refine List.nodup_append.2 ⟨h.nodup, List.nodup_range', ?_⟩
    rintro l hl _ hl' rfl
    obtain ⟨i, hi, rfl⟩ := List.mem_map.1 hl
    exact absurd (h.lt i hi) (Nat.not_lt.2 (List.mem_range'_1.1 hl').1)
  · rw [hfresh]
    rcases List.mem_append.1 (hperm.subset hi) with hi | hi
    · exact (h.lt i hi).trans_le hle
    · exact hlt i hi

end Body

/-! ## The code of a hook -/

namespace Weave

/-- The hook of the base class. -/
def inheritedHook (base : TypeRef) : MethodRef :=
  { owner := base, name := Member.onCreateForCompiler, ret := .void,
    hasThis := true }

/-- A hook has no argument but the system. -/
theorem argCount_newHook (base : TypeRef) : (newHook base).argCount = 1 := by
  have hthis : (newHook base).hasThis = true := by
    dsimp only [newHook, MethodDef.hasThis, MethodDef.isStatic]
    decide
  rw [MethodDef.argCount, hthis]
  rfl

end Weave

/-- What a hook does before the code of plans. -/
def Step.inherited (base : TypeRef) : List Step :=
  [ldarg 0, call (Weave.inheritedHook base)]

/-- The code of plans in order. -/
def Plan.initAll (us : List Plan) : List Step :=
  us.flatMap (·.init)

/-- The code of a hook calls the hook of the base class, builds what some plans
need, and returns. -/
structure Body.Builds (b : Body) (base : TypeRef) (us : List Plan) : Prop
    extends b.Numbered where
  /-- the code -/
  steps : b.steps = Step.inherited base ++ Plan.initAll us ++ [Step.ret]
  /-- it has no source positions -/
  points : b.points = []
  /-- the code of the plans is straight -/
  straight : ∀ u ∈ us, u.IsStraight

namespace Body.Builds

variable {b c : Body} {base : TypeRef} {us : List Plan} {u : Plan}

theorem height_inherited :
    Step.heightAfter? 1 0 (Step.inherited base) = some 0 := by
  have hcall : Step.after? 1 1 (Step.call (Weave.inheritedHook base)) =
      some 0 :=
    Step.after?_eq (e := ⟨1, 0⟩) rfl rfl
  simp [Step.inherited, Step.heightAfter?_cons, hcall]

/-- The whole code up to the return is straight. -/
theorem height (h : b.Builds base us) :
    Step.heightAfter? 1 0 (Step.inherited base ++ Plan.initAll us) =
      some 0 := by
  rw [Step.heightAfter?_append, height_inherited, Option.bind_some,
    Plan.initAll, List.flatMap]
  refine Step.heightAfter?_flatten fun ss hss => ?_
  obtain ⟨u, hu, rfl⟩ := List.mem_map.1 hss
  exact h.straight u hu

/-- The code of a new hook. -/
theorem newHook (base : TypeRef) :
    ∃ b, (Weave.newHook base).body = some b ∧ b.Builds base [] := by
  refine ⟨_, rfl, ⟨?_, ?_⟩, rfl, rfl, by simp⟩
  · change ([0, 1, 2] : List Label).Nodup
    decide
  · simp [Body.append, Body.labelled, Body.claim]

/-- Code that is put back keeps the labels that came later in use. -/
theorem restored (h : b.Builds base us) (c : Body) :
    (c.restored b).Builds base us :=
  ⟨⟨h.nodup, fun i hi => (h.lt i hi).trans_le (le_max_right ..)⟩, h.steps,
    h.points, h.straight⟩

/-- The return comes last. -/
theorem code_eq (h : b.Builds base us) :
    ∃ front r, b.code = front ++ [r] ∧ r.op = .ret ∧
      front.map (fun i => (i.op, i.operand)) = Step.inherited base ++
      Plan.initAll us := by
  have hsteps := h.steps
  rw [Body.steps, List.map_eq_append_iff] at hsteps
  obtain ⟨front, back, hcode, hfront, hback⟩ := hsteps
  obtain ⟨r, rest, rfl, hr, hrest⟩ := List.map_eq_cons_iff.1 hback
  obtain rfl := List.map_eq_nil_iff.1 hrest
  exact ⟨front, r, hcode, congrArg Prod.fst hr, hfront⟩

theorem append (h : b.Builds base us) (hu : u.IsStraight)
    (hnum : c.Numbered) (hpoints : c.points = b.points)
    (hsteps : c.steps = Step.inherited base ++ Plan.initAll (us ++ [u]) ++
      [Step.ret]) :
    c.Builds base (us ++ [u]) :=
  ⟨hnum, hsteps, hpoints.trans h.points,
    by simpa [or_imp, forall_and] using ⟨h.straight, hu⟩⟩

/-- The code of one more plan goes before the return. -/
theorem insertBeforeReturn (h : b.Builds base us) (hu : u.IsStraight)
    (hne : u.init ≠ []) (w : World) :
    ∃ b', Weave.insertBeforeReturn b (b.labelled u.init) w = .ok b' w ∧
      b'.Builds base (us ++ [u]) := by
  obtain ⟨front, r, hcode, hr, hfront⟩ := h.code_eq
  let b' : Body :=
    { b.claim (b.labelled u.init) with
      code := front ++ b.labelled u.init ++ [r] }
  have hlast : (b.code.map (·.op)).reverse.idxOf? .ret = some 0 := by
    simp [hcode, hr, List.idxOf?_cons]
  have hinsert : b.insertAt? (b.code.length - 1 - 0 : Nat) (b.labelled u.init) =
      some b' := by
    have hlabelled : (b.labelled u.init).isEmpty = false := by
      rw [List.isEmpty_eq_false_iff]
      simpa [Body.labelled] using hne
    simp [Body.insertAt?, hlabelled, hcode, b']
  have hrun : Weave.insertBeforeReturn b (b.labelled u.init) w = .ok b' w := by
    rw [Weave.insertBeforeReturn, hlast]
    simp only [hinsert]
    rfl
  have hnum : b'.Numbered := h.toNumbered.insert hcode u.init rfl rfl
  refine ⟨b', hrun, h.append hu hnum rfl ?_⟩
  have hret : (r.op, r.operand) = Step.ret := by
    have hsteps := h.steps
    rw [Body.steps, hcode, List.map_append, hfront] at hsteps
    simpa using hsteps
  simp [Body.steps, b', hfront, Body.steps_labelled, Plan.initAll, hret]

end Body.Builds

/-- The method is the hook for a base class with some code. -/
def Workspace.IsHook (w : Workspace) (hook : MethodId)
    (base : TypeRef) : Prop :=
  ∃ b : Body, w.method hook = { Weave.newHook base with body := some b }

/-- The method is the hook for a base class with the code of some plans. -/
def Workspace.Builds (w : Workspace) (hook : MethodId) (base : TypeRef)
    (us : List Plan) : Prop :=
  ∃ b : Body, w.method hook = { Weave.newHook base with body := some b } ∧
    b.Builds base us

namespace Workspace.Builds

variable {w w' : Workspace} {hook : MethodId} {base : TypeRef} {us : List Plan}
  {u : Plan}
variable {b : Body}

theorem of_method_eq (h : w.Builds hook base us)
    (hw : w'.method hook = w.method hook) :
    w'.Builds hook base us := by
  rwa [Builds, hw]

theorem lt (h : w.Builds hook base us) : hook.index < w.methods.size := by
  obtain ⟨b, hb, -⟩ := h
  exact lt_of_body (b := b) (by rw [hb])

/-- The code that the hook has. -/
theorem of_body (h : w.Builds hook base us)
    (hb : (w.method hook).body = some b) :
    b.Builds base us := by
  obtain ⟨c, hc, hbuilds⟩ := h
  rw [hc] at hb
  cases hb
  exact hbuilds

/-- A hook that does not change. -/
theorem of_frame {R : TypeEntry → TypeEntry → Prop} {S : Set MethodId}
    (h : w.Builds hook base us) (hf : w.Frame R S w') (hS : hook ∉ S) :
    w'.Builds hook base us :=
  h.of_method_eq (hf.method_eq h.lt hS)

/-- A hook stays a hook. -/
theorem isHook_of_frame {R : TypeEntry → TypeEntry → Prop} {S : Set MethodId}
    (h : w.Builds hook base us) (hf : w.Frame R S w') :
    w'.IsHook hook base := by
  obtain ⟨b, hb, -⟩ := id h
  have hbody : (w'.method hook).body.isSome := by
    rw [hf.hasBody hook h.lt, hb]
    rfl
  obtain ⟨c, hc⟩ := Option.isSome_iff_exists.1 hbody
  refine ⟨c, ?_⟩
  rw [Workspace.method, hf.entry hook h.lt, hc, MethodEntry.withBody]
  exact congrArg (fun d : MethodDef => { d with body := some c }) hb

/-- The hook gets other code. -/
theorem setBody {vs : List Plan} (h : w.Builds hook base us)
    (hb : b.Builds base vs) :
    (w.updateMethod hook fun d => { d with body := some b }).Builds hook base
      vs := by
  obtain ⟨c, hc, -⟩ := id h
  refine ⟨b, ?_, hb⟩
  rw [method, methodEntry_updateMethod_self _ h.lt]
  simp only [hc]

/-- The checks pass on the hook. -/
theorem validate (h : w.Builds hook base us) (name : String) :
    ∃ b, (w.method hook).body = some b ∧
      b.steps = Step.inherited base ++ Plan.initAll us ++ [Step.ret] ∧
      (w.method hook).validate name b = .ok () := by
  obtain ⟨b, hb, hbuilds⟩ := h
  have hvoid : (w.method hook).returnsVoid = true := hb ▸ rfl
  have hcount : (w.method hook).argCount = 1 := by
    rw [hb]
    exact Weave.argCount_newHook base
  refine ⟨b, by rw [hb], hbuilds.steps, ?_⟩
  exact MethodDef.validate_of_straight name hbuilds.steps hbuilds.nodup
    hbuilds.points hvoid (hcount ▸ hbuilds.height)

end Workspace.Builds

/-! ## Commits -/

/-- The definitions with the struct and the query of a plan in its system. -/
def Plan.attachTo (u : Plan) (w : Workspace) : Workspace :=
  let w := w.attachNested u.chain.system u.type
  match u.query with
  | some f => w.addField u.chain.system f
  | none => w

@[simp]
theorem Plan.method_attachTo (u : Plan) (w : Workspace) (m : MethodId) :
    (u.attachTo w).method m = w.method m := by
  unfold attachTo
  split <;> simp [Workspace.method, Workspace.methodEntry, Workspace.addField,
    Workspace.updateHead, Workspace.updateType]

namespace Weave

variable {w : World} {hook : MethodId} {base : TypeRef} {us : List Plan}
  {u : Plan}

/-- A plan's code is put into the hook. -/
theorem fillHook_ends (hw : w.workspace.Builds hook base us)
    (hlabels : u.initLabels = none) (hu : u.IsStraight) :
    Ends (fillHook hook u) w
      (fun u' w' => u'.chain = u.chain ∧ u'.type = u.type ∧ ∃ W,
        w' = { w with workspace := W } ∧ w.workspace.Amends W ∧
        W.Builds hook base (us ++ [u]))
      fun _ _ => False := by
  obtain ⟨b, hb, hbuilds⟩ := id hw
  unfold fillHook
  by_cases hne : u.init = []
  · simp only [hne, List.isEmpty_nil, if_true]
    refine Ends.of_run rfl ⟨rfl, rfl, w.workspace, rfl, .refl _, b, hb, ?_⟩
    exact hbuilds.append hu hbuilds.toNumbered
      rfl (by simp [hbuilds.steps, Plan.initAll, hne])
  · obtain ⟨b', hinsert, hbuilds'⟩ := hbuilds.insertBeforeReturn hu hne w
    have hbody : bodyOf hook w = .ok b w := by
      rw [show bodyOf hook w = need (w.workspace.method hook).body w
        from rfl, hb]
      rfl
    have hempty : u.init.isEmpty = false := by simpa using hne
    simp only [hempty, Bool.false_eq_true, if_false, hlabels]
    refine Ends.bind (Ends.of_run hbody (Ends.bind (Ends.of_run hinsert
      (Ends.bind (Ends.of_run rfl (Ends.of_run rfl ⟨rfl, rfl, _, rfl, ?_,
        hw.setBody hbuilds'⟩))))))
    exact Workspace.amends_setBody _ hook b'

/-- The hook gets code back that it had. -/
theorem restoreBody_builds {b : Body} (hw : w.workspace.IsHook hook base)
    (hb : b.Builds base us) :
    Ends (restoreBody hook b) w (fun _ w' => w'.workspace.Builds hook base us)
      fun _ _ => False := by
  obtain ⟨c, hc⟩ := hw
  have hcode : w.workspace.HasCode hook := by
    rw [Workspace.HasCode, hc, Option.isSome_some]
  obtain ⟨w', c', hrun, hmethod, -⟩ := restoreBody_restored b hcode
  refine Ends.of_run hrun ⟨c'.restored b, ?_, hb.restored c'⟩
  rw [hmethod, hc]

/-- Committing a plan attaches its struct and puts its code into the hook. -/
theorem commit_ends (hl : w.hooks.lookup u.chain.system = some hook)
    (hw : w.workspace.Builds hook base us) (hlabels : u.initLabels = none)
    (hu : u.IsStraight) :
    Ends (commit u) w
      (fun u' w' => u'.chain = u.chain ∧ u'.type = u.type ∧ ∃ W,
        w' = { w with workspace := W } ∧ (u.attachTo w.workspace).Amends W ∧
        W.Builds hook base (us ++ [u]))
      fun _ _ => False := by
  have hhook : hookOf u.chain.system w = .ok hook w := by
    simp only [hookOf, bind, EStateM.bind, get, getThe, MonadStateOf.get,
      EStateM.get, hl]
    rfl
  have hattached : (u.attachTo w.workspace).Builds hook base us :=
    hw.of_method_eq (u.method_attachTo w.workspace hook)
  unfold commit
  exact Ends.bind (Ends.of_run hhook (Ends.bind (Ends.of_run rfl
    (fillHook_ends (w := { w with workspace := u.attachTo w.workspace })
      hattached hlabels hu))))

end Weave

end JobWeave
