import Mathlib
import JobWeave.Splice.Hook
import JobWeave.Proofs.Splice.Closure

/-!
# Committing a plan

A system whose creation hook is known has its plans committed without a failure.
A commit gives the system the job's struct and the query, and the hook the
plan's code; nothing else that was there before changes.  The hook itself never
starts a chain.
-/

namespace JobWeave

open Framework Std.Do

set_option mvcgen.warning false

/-! ## Quiet code -/

/-- The instruction starts no chain and names what is there. -/
structure Instr.IsQuiet (i : Instr) : Prop where
  /-- it is no source call -/
  kind : i.sourceKind = .ok none
  /-- what it names -/
  complete : i.operand.isComplete

/-- The code starts no chain and names what is there. -/
def Body.IsQuiet (b : Body) : Prop :=
  ∀ i ∈ b.code, i.IsQuiet

/-- The same code is as quiet. -/
theorem Body.IsQuiet.of_sameCode {b b' : Body} (h : b.IsQuiet)
    (hs : b.SameCode b') : b'.IsQuiet := by
  intro i hi
  rw [hs.code] at hi
  exact h i hi

theorem Body.lacksReference_eq_false {b : Body} :
    b.lacksReference = false ↔ ∀ i ∈ b.code, i.operand.isComplete := by
  unfold lacksReference
  rw [List.any_eq_false]
  refine forall₂_congr fun i _ => ?_
  rcases i with ⟨l, op, o⟩
  cases o with
  | field f => cases f <;> simp
  | method m => cases m <;> simp
  | _ => simp

theorem Body.IsQuiet.lacksReference_eq {b : Body} (h : b.IsQuiet) :
    b.lacksReference = false :=
  lacksReference_eq_false.2 fun i hi => (h i hi).complete

theorem Body.IsQuiet.append {b : Body} {code : List Instr} (h : b.IsQuiet)
    (hc : ∀ i ∈ code, i.IsQuiet) : (b.append code).IsQuiet := by
  intro i hi
  rcases List.mem_append.1 hi with hi | hi
  · exact h i hi
  · exact hc i hi

theorem Body.IsQuiet.insertAt? {b b' : Body} {n : Int} {code : List Instr}
    (h : b.IsQuiet) (hc : ∀ i ∈ code, i.IsQuiet)
    (hb : b.insertAt? n code = some b') : b'.IsQuiet := by
  unfold Body.insertAt? at hb
  split at hb
  · cases hb
    exact h
  · split at hb
    · cases hb
    · simp only [List.splitAt_eq] at hb
      cases hb
      intro i hi
      simp only [List.append_assoc, List.mem_append] at hi
      rcases hi with hi | hi | hi
      · exact h i (List.mem_of_mem_take hi)
      · exact hc i hi
      · exact h i (List.mem_of_mem_drop hi)

/-- Ordinary code that gets labels is quiet. -/
theorem Body.isQuiet_labelled {b : Body} {steps : List Step}
    (h : Step.AllOrdinary steps) : ∀ i ∈ b.labelled steps, i.IsQuiet := by
  intro i hi
  obtain ⟨n, hn, rfl⟩ := List.mem_mapIdx.1 hi
  have hstep := h _ (List.getElem_mem hn)
  exact ⟨hstep.sourceKind _, hstep.complete⟩

namespace Workspace

variable {V w w' : Workspace} {K : Set MethodId} {h : MethodId} {u : Plan}
  {c : Chain}

/-- The method starts no chain. -/
def QuietAt (w : Workspace) (h : MethodId) : Prop :=
  ∀ b, (w.method h).body = some b → b.IsQuiet

/-- The job's struct is attached to its system. -/
def Attached (w : Workspace) (u : Plan) : Prop :=
  u.chain.system.index < w.types.size →
    u.type ∈ (w.type u.chain.system).nested

/-- A plan was committed: of what was there before, its system has the job's
struct and the hook other code. -/
structure Commits (V : Workspace) (K : Set MethodId) (hook : MethodId)
    (u : Plan) (w : Workspace) : Prop where
  /-- what was there before -/
  frame : V.Frame (TypeEntry.Stays {u.type} K) {hook} w
  /-- the hook -/
  quiet : w.QuietAt hook
  /-- the struct -/
  attached : w.Attached u

end Workspace

/-! ## Specifications -/

variable {V : Workspace} {K : Set MethodId} {t : TypeId} {hook : MethodId}
  {b : Body}
variable {I : Workspace → Prop} {H : List (TypeId × MethodId)} {u : Plan}

@[grind →]
theorem Workspace.Commits.holding {w : World}
    (h : Holding (V.Commits K hook u) H w) :
    Holding (V.Frame (TypeEntry.Stays {u.type} K) {hook}) H w :=
  h.imp Workspace.Commits.frame

/-- The hook gets other quiet code. -/
theorem Workspace.Commits.setBody {w : World} {b' : Body}
    (h : Holding (V.Commits K hook u) H w) (hb : b.IsQuiet)
    (hb' : (w.workspace.method hook).body = some b') :
    Holding (V.Commits K hook u) H
      { w with
        workspace := w.workspace.updateMethod hook fun d =>
          { d with body := some b } } := by
  refine ((Commits.holding h).setBody (fun _ => rfl) hb').imp fun hf =>
    ⟨hf, ?_, h.workspace.attached⟩
  intro c hc
  rw [method, methodEntry_updateMethod_self _ (lt_of_body hb')] at hc
  cases hc
  exact hb

namespace Weave

/-- A hook that is known is found. -/
@[spec]
theorem hookOf_found (h : H.lookup t = some hook) :
    ⦃fun w => ⌜Holding I H w⌝⦄ hookOf t
      ⦃post⟨fun r w => ⌜Holding I H w ∧ r = hook⌝, fun _ _ => ⌜False⌝⟩⦄ := by
  refine triple_iff.2 fun w hw => ?_
  have hrun : hookOf t w = .ok hook w := by
    simp only [hookOf, bind, EStateM.bind, get, getThe, MonadStateOf.get,
      EStateM.get, hw.hooks, h]
    rfl
  rw [hrun]
  exact ⟨hw, rfl⟩

/-- The struct is attached to the system, which keeps what it had. -/
theorem attachJob_spec (hquiet : V.QuietAt hook)
    (hhost : V.Hosts u.chain u.type) :
    ⦃fun w => ⌜Holding (· = V) H w⌝⦄ attachJob u
      ⦃post⟨fun _ w => ⌜Holding (V.Commits K hook u) H w⌝,
        fun _ _ => ⌜False⌝⟩⦄ := by
  mvcgen [attachJob, modifyWorkspace]
  rename_i w hw t
  refine ⟨?_, hw.hooks, hw.ordinary⟩
  obtain rfl := hw.workspace
  let w₁ := w.workspace.attachNested u.chain.system u.type
  have hattach : w.workspace.Frame (TypeEntry.Stays {u.type} K) {hook} w₁ :=
    (Workspace.Frame.refl (TypeEntry.Stays.refl _ _) _ _).attachNested hhost.ns
      hhost.outer rfl
  have hmethod : w₁.method hook = w.workspace.method hook := by
    simp [w₁, Workspace.method, Workspace.methodEntry]
  have hmem : w₁.Attached u := fun hlt =>
    Workspace.mem_nested_attachNested (by simpa [w₁] using hlt)
  simp only [t]
  split
  · refine ⟨hattach.updateType _ _ fun _ hr => ?_, ?_, ?_⟩
    · exact ⟨⟨hr.name, hr.ns, hr.outer, hr.isValueType, hr.nested⟩, hr.added,
        hr.methods, hr.kept⟩
    · exact fun b hb => hquiet b (hmethod ▸ hb)
    · intro hlt
      have hlt' : u.chain.system.index < w₁.types.size := by
        simpa [w₁, Workspace.addField, Workspace.updateHead] using hlt
      rw [Workspace.addField, Workspace.updateHead,
        Workspace.type_updateType_self _ hlt']
      exact hmem hlt'
  · exact ⟨hattach, fun b hb => hquiet b (hmethod ▸ hb), hmem⟩

@[spec]
theorem insertBeforeReturn_gives {code : List Instr} (hb : b.IsQuiet)
    (hc : ∀ i ∈ code, i.IsQuiet) :
    Gives I H Body.IsQuiet (insertBeforeReturn b code) := by
  mvcgen [insertBeforeReturn]
  · exact ⟨by assumption, hb.insertAt? hc (by assumption)⟩
  · grind
  · refine ⟨by assumption, (hb.append hc).append (Body.isQuiet_labelled ?_)⟩
    exact Step.allOrdinary_cons.2
      ⟨Step.isOrdinary_of_ne (by decide) (by decide) rfl, Step.allOrdinary_nil⟩

/-- Putting code before the last return comes at worst upon a fault. -/
theorem neverFails_insertBeforeReturn {code : List Instr} :
    NeverFails (insertBeforeReturn b code) := by
  unfold insertBeforeReturn
  split
  · exact .need
  · exact .pure _

/-- The hook gets other code, and the types stay as they are. -/
theorem fillHook_spec (hinit : Step.AllOrdinary u.init)
    (hlabels : u.initLabels = none) :
    ⦃fun w => ⌜Holding (V.Commits K hook u) H w⌝⦄ fillHook hook u
      ⦃post⟨fun u' w => ⌜Holding (V.Commits K hook u) H w ∧
            u'.chain = u.chain ∧ u'.type = u.type⌝,
        fun e w => ⌜Holding (V.Frame (TypeEntry.Stays {u.type} K) {hook}) H w ∧
          ∀ f, e ≠ .failed f⌝⟩⦄ := by
  have hinsert : ∀ (b : Body) (code : List Instr), b.IsQuiet →
      (∀ i ∈ code, i.IsQuiet) →
      ⦃fun w => ⌜Holding (fun ws => V.Commits K hook u ws ∧
          (ws.method hook).body = some b) H w⌝⦄ insertBeforeReturn b code
        ⦃post⟨fun r w => ⌜Holding (fun ws => V.Commits K hook u ws ∧
              (ws.method hook).body = some b) H w ∧ r.IsQuiet⌝,
          fun e w => ⌜Holding (fun ws => V.Commits K hook u ws ∧
              (ws.method hook).body = some b) H w ∧ ∀ f, e ≠ .failed f⌝⟩⦄ :=
    fun b code hb hc => Gives.neverFails (insertBeforeReturn_gives hb hc)
      neverFails_insertBeforeReturn
  have hcommits : ∀ {w : World} {b : Body}, Holding (fun ws =>
      V.Commits K hook u ws ∧ (ws.method hook).body = some b) H w →
      Holding (V.Commits K hook u) H w := fun hw => hw.imp And.left
  mvcgen [fillHook, setBody, modifyWorkspace, hinsert, -setBody_frame,
    -insertBeforeReturn_gives]
  · rename_i hw b hb _
    exact hw.workspace.quiet b hb
  · simp +zetaDelta only [hlabels]
    exact Body.isQuiet_labelled hinit
  · rename_i hw b hb _
    exact hw.imp fun hc => ⟨hc, hb⟩
  · rename_i r w hr t
    exact Workspace.Commits.setBody (hcommits hr.1) hr.2 hr.1.workspace.2
  · intro hw hf
    exact ⟨Workspace.Commits.holding (hcommits hw), hf⟩
  · grind -ring -linarith

/-- A commit attaches the job's struct and does not fail. -/
theorem commit_spec (hl : H.lookup u.chain.system = some hook)
    (hquiet : V.QuietAt hook) (hhost : V.Hosts u.chain u.type)
    (hinit : Step.AllOrdinary u.init) (hlabels : u.initLabels = none) :
    ⦃fun w => ⌜Holding (· = V) H w⌝⦄ commit u
      ⦃post⟨fun u' w => ⌜Holding (V.Commits K hook u) H w ∧
            u'.chain = u.chain ∧ u'.type = u.type⌝,
        fun e w => ⌜Holding (V.Frame (TypeEntry.Stays {u.type} K) {hook}) H w ∧
          ∀ f, e ≠ .failed f⌝⟩⦄ := by
  have hattach := attachJob_spec (K := K) (H := H) hquiet hhost
  have hfill : ∀ h : MethodId,
      ⦃fun w => ⌜Holding (V.Commits K h u) H w⌝⦄ fillHook h u
        ⦃post⟨fun u' w => ⌜Holding (V.Commits K h u) H w ∧
              u'.chain = u.chain ∧ u'.type = u.type⌝,
          fun e w => ⌜Holding (V.Frame (TypeEntry.Stays {u.type} K) {h}) H w ∧
            ∀ f, e ≠ .failed f⌝⟩⦄ := fun h => fillHook_spec hinit hlabels
  mvcgen [commit, hattach, hfill]
  all_goals grind

end Weave

end JobWeave
