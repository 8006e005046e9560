import Mathlib
import JobWeave.Proofs.Body.Stores
import JobWeave.Proofs.Plan.Synthesis
import JobWeave.Proofs.Splice.Code
import JobWeave.Proofs.Weave.Runs
import JobWeave.Sample.Tick
import JobWeave.Workspace.World

/-!
# Deferred jobs store where the lambda stored

A deferred job has its own fields for the variables that it captures, and
nothing copies them back. So the copies of its lambda and of what that calls
must not store to them.  What they do store to some method stored to before, and
none could name a field of a struct that was not there.

* `Workspace.Copying` says this while the copies are made, `Planning.Settled`
  once they are there.
* `Weave.synthesize_stores`: the copies of a whole plan.
-/

namespace JobWeave

open Framework Std.Do

set_option mvcgen.warning false

/-- The fields that some method stores to. -/
def Workspace.storesTo (w : Workspace) : Set FieldRef :=
  {f | ∃ m, f ∈ (w.method m).code.storesTo}

/-- While the lambda is copied, no method stores to other fields than those in
`S`, and the copies `ms` have labels of their own. -/
structure Workspace.Copying (S : Set FieldRef) (B : Ground) (ms : List MethodId)
    (w : Workspace) : Prop where
  /-- the old definitions -/
  reaches : B.Reaches w
  /-- the stores of all methods -/
  stores : ∀ m, (w.method m).code.storesTo ⊆ S
  /-- the labels in use -/
  labelled : ∀ m, (w.method m).code.Labelled
  /-- the copies are not old methods -/
  isNew : ∀ m ∈ ms, Planning.IsNew B m
  /-- the copies are there -/
  lt : ∀ m ∈ ms, m.index < w.methods.size
  /-- the labels of the copies -/
  ownLabels : ∀ m ∈ ms, (w.method m).code.HasOwnLabels

/-- The ground once the copies are made. -/
def Ground.withCopies (B : Ground) (ms : List MethodId) : Ground :=
  { B with copies := some ms }

variable {S : Set FieldRef} {B : Ground} {ms : List MethodId} {m : MethodId}
variable {I : Workspace → Prop} {H : List (TypeId × MethodId)} {c : Chain}

namespace Workspace

variable {w : Workspace} {b b' : Body}

/-- A method that is not there has no code. -/
theorem labelled_of_forall_mem (h : ∀ e ∈ w.methods, e.method.code.Labelled)
    (m : MethodId) :
    (w.method m).code.Labelled := by
  rw [method, methodEntry]
  cases hm : w.methods[m.index]? with
  | none => exact fun i hi => absurd hi List.not_mem_nil
  | some e => exact h e (Array.mem_of_getElem? hm)

/-- A copy gets code that spares its stores. -/
theorem Copying.setBody (h : w.Copying S B ms) (hm : m ∈ ms)
    (hb : (w.method m).body = some b) (hs : b.Spares b') :
    (w.updateMethod m fun d => { d with body := some b' }).Copying S B ms := by
  have hstores := h.stores m
  have hlabelled := h.labelled m
  have hown := h.ownLabels m hm
  rw [code_eq hb] at hstores hlabelled hown
  refine ⟨h.reaches.step (.setBody m b' (h.isNew m hm)), fun n => ?_,
    fun n => ?_, h.isNew, fun n hn => by
    simpa using h.lt n hn, fun n hn => ?_⟩ <;> by_cases hnm : n = m
  · rw [hnm, code_updateMethod_self hb]
    exact hs.storesTo_subset.trans hstores
  · rw [code_updateMethod_of_ne _ hnm]
    exact h.stores n
  · rw [hnm, code_updateMethod_self hb]
    exact hs.labelled hlabelled
  · rw [code_updateMethod_of_ne _ hnm]
    exact h.labelled n
  · rw [hnm, code_updateMethod_self hb]
    exact hs.ownLabels hlabelled hown
  · rw [code_updateMethod_of_ne _ hnm]
    exact h.ownLabels n hn

theorem method_addCopy (t : TypeId) (n : MethodId) (d : MethodDef) :
    (w.addCopy t n d).1.method m = if m.index = w.methods.size then d
    else w.method m := by
  by_cases hm : m.index = w.methods.size
  · simp [addCopy, addMethod, newMethod, attachMethod, updateType, method,
      methodEntry, hm, Array.getElem_modify]
  · simp [addCopy, addMethod, newMethod, attachMethod, updateType, method,
      methodEntry, Array.getElem?_modify, Array.getElem?_push, hm, Ne.symm hm]

/-- A copy is added whose stores are known. -/
theorem Copying.addCopy (h : w.Copying S B ms) {t : TypeId}
    (ht : B.types ≤ t.index) (n : MethodId) {d : MethodDef}
    (hstores : d.code.storesTo ⊆ S) (hlabelled : d.code.Labelled)
    (hown : d.code.HasOwnLabels) :
    (w.addCopy t n d).1.Copying S B ((w.addCopy t n d).2 :: ms) := by
  have hsize : (w.addCopy t n d).2.index = w.methods.size := rfl
  refine ⟨h.reaches.step (.addCopy t n d ht), fun m => ?_, fun m => ?_,
    List.forall_mem_cons.2 ⟨?_, h.isNew⟩,
    List.forall_mem_cons.2 ⟨?_, fun m hm => ?_⟩,
    List.forall_mem_cons.2 ⟨?_, fun m hm => ?_⟩⟩
  · rw [method_addCopy]
    split
    · exact hstores
    · exact h.stores m
  · rw [method_addCopy]
    split
    · exact hlabelled
    · exact h.labelled m
  · exact h.reaches.sizes.2
  · simp [hsize]
  · have hlt := h.lt m hm
    rw [methods_addCopy]
    omega
  · rw [method_addCopy, if_pos hsize]
    exact hown
  · rw [method_addCopy, if_neg (Nat.ne_of_lt (h.lt m hm))]
    exact h.ownLabels m hm

theorem Copying.mono {ms' : List MethodId} (h : w.Copying S B ms)
    (hms : ms' ⊆ ms) :
    w.Copying S B ms' :=
  { h with
    isNew := fun m hm => h.isNew m (hms hm)
    lt := fun m hm => h.lt m (hms hm)
    ownLabels := fun m hm => h.ownLabels m (hms hm) }

theorem stable_copying : B.Stable (Copying S B ms) := fun _ _ hf hn h =>
  ⟨B.stable_reaches _ _ hf hn h.reaches, h.stores, h.labelled, h.isNew, h.lt,
    h.ownLabels⟩

end Workspace

namespace Planning

theorem modifyBody_inv {f : Body → Body}
    (hf : ∀ w b, I w → (w.method m).body = some b →
      I (w.updateMethod m fun d => { d with body := some (f b) })) :
    Weave.Keeps I H (Weave.modifyBody m f) := by
  mvcgen [Weave.modifyBody, Weave.setBody, Weave.modifyWorkspace,
    -Weave.setBody_frame, -Weave.modifyBody_frame, -setBody_keeps,
    -modifyBody_keeps]
  · rename_i w hw b hb _
    exact ⟨hf _ b hw.workspace hb, hw.hooks, hw.ordinary⟩
  · grind

/-! ## Copies -/

/-- The code of a copy is changed in a way that spares its stores. -/
theorem modifyBody_copying {f : Body → Body} (hm : m ∈ ms)
    (hf : ∀ b : Body, b.Spares (f b)) :
    Weave.Keeps (Workspace.Copying S B ms) H (Weave.modifyBody m f) :=
  modifyBody_inv fun _ b h hb => h.setBody hm hb (hf b)

/-- While the lambda is copied, the copy `m` can get the code `b`. -/
def CopyingTo (S : Set FieldRef) (B : Ground) (ms : List MethodId)
    (m : MethodId) (b : Body) (w : Workspace) : Prop :=
  w.Copying S B ms ∧ ∃ b₀, (w.method m).body = some b₀ ∧ b₀.Spares b

theorem CopyingTo.trans {b b' : Body} {w : Workspace}
    (h : CopyingTo S B ms m b w) (hs : b.Spares b') :
    CopyingTo S B ms m b' w := by
  obtain ⟨hw, b₀, hb₀, hb⟩ := h
  exact ⟨hw, b₀, hb₀, hb.trans hs⟩

@[grind →]
theorem holding_copyingTo {b : Body} {w : World}
    (h : Holding (Workspace.Copying S B ms) H w)
    (hb : (w.workspace.method m).body = some b) :
    Holding (CopyingTo S B ms m b) H w :=
  h.imp fun hw => ⟨hw, b, hb, .refl b⟩

@[grind →]
theorem holding_copying {b : Body} {w : World}
    (h : Holding (CopyingTo S B ms m b) H w) :
    Holding (Workspace.Copying S B ms) H w :=
  h.imp And.left

theorem setBody_copying {b : Body} (hm : m ∈ ms) :
    ⦃fun w => ⌜Holding (CopyingTo S B ms m b) H w⌝⦄ Weave.setBody m b
      ⦃post⟨fun _ w => ⌜Holding (Workspace.Copying S B ms) H w⌝,
        fun e w => ⌜Holding (Workspace.Copying S B ms) H w ∧
        e.IsSerious⌝⟩⦄ := by
  mvcgen [Weave.setBody, Weave.modifyWorkspace, -Weave.setBody_frame,
    -setBody_keeps]
  rename_i w hw _
  obtain ⟨hcopying, b₀, hb₀, hs⟩ := hw.workspace
  exact ⟨hcopying.setBody hm hb₀ hs, hw.hooks, hw.ordinary⟩

/-- Relinking a call leaves every store alone. -/
theorem relink_gives {copies : List (MethodId × MethodId)} {i : Instr} :
    Weave.Gives I H (fun j => j.label = i.label ∧ (j.op = .stfld →
      i.op = .stfld ∧ ∀ f, j.operand = .field (some f) →
      i.operand = .field (some f))) (relink copies i) := by
  mvcgen [relink, -relink_keeps]
  all_goals grind [Instr.become]

theorem relinkBody_copying {copies : List (MethodId × MethodId)} (hm : m ∈ ms) :
    Weave.Keeps (Workspace.Copying S B ms) H (relinkBody copies m) := by
  have hmap : ∀ b : Body, ⦃fun w => ⌜Holding (CopyingTo S B ms m b) H w⌝⦄
      b.code.mapM (relink copies)
      ⦃post⟨fun code w => ⌜Holding (CopyingTo S B ms m { b with code }) H w⌝,
        fun e w => ⌜Holding (Workspace.Copying S B ms) H w ∧
        e.IsSerious⌝⟩⦄ := by
    intro b
    have hgives : Weave.Gives (CopyingTo S B ms m b) H
        _ (b.code.mapM (relink copies)) :=
      Weave.mapM_gives fun i _ => relink_gives
    mvcgen [hgives, -Weave.mapM_keeps]
    · intro hw hcode
      exact hw.imp fun hb => hb.trans (Body.spares_of_forall₂ hcode)
    · grind
  mvcgen [relinkBody, hmap, setBody_copying, -Weave.setBody_frame,
    -relinkBody_keeps, -setBody_keeps, -Weave.mapM_keeps]
  all_goals grind

/-- A copy is added to those that were made. -/
def AddsCopy (S : Set FieldRef) (B : Ground) (H : List (TypeId × MethodId))
    (c : Chain) (act : Planning MethodId) : Prop :=
  ∀ ms, ⦃fun u w => ⌜Drafting (Workspace.Copying S B ms) B H c u w⌝⦄ act
    ⦃post⟨fun m u w => ⌜Drafting (Workspace.Copying S B (m :: ms)) B H c u w⌝,
      fun e w => ⌜Holding (Workspace.Copying S B []) H w ∧ e.IsSerious⌝⟩⦄

theorem copyMethod_addsCopy {n : MethodId} {name : String} :
    AddsCopy S B H c (copyMethod n name) := by
  intro ms
  mvcgen [copyMethod, Weave.addToWorkspace, -copyMethod_drafts]
  rename_i u w hw d hidden copy job t
  have hcopying := hw.holding.workspace
  have hcode : copy.code = (w.workspace.method n).code.distinct.simplify := by
    simp only [copy, d, MethodDef.copyAs, MethodDef.code]
    cases (w.workspace.method n).body <;> rfl
  have hlabelled := Body.labelled_distinct (hcopying.labelled n)
  have hspares := Body.spares_simplify (w.workspace.method n).code.distinct
  refine ⟨⟨hcopying.addCopy hw.fresh.types_le n ?_ ?_ ?_, hw.holding.hooks,
    hw.holding.ordinary⟩, hw.fresh⟩ <;> rw [hcode]
  · exact hspares.storesTo_subset.trans
      ((Body.storesTo_distinct _).trans (hcopying.stores n))
  · exact hspares.labelled hlabelled
  · exact hspares.ownLabels hlabelled
      (Body.hasOwnLabels_distinct (hcopying.labelled n))

theorem patchCall_copying {call : Label} {r : MethodRef} (hm : m ∈ ms) :
    Keeps (Workspace.Copying S B ms) B H c (patchCall m call r) := by
  have haccess : ∀ t, Keeps (Workspace.Copying S B ms) B H c
      (componentAccess t) := fun _ =>
    componentAccess_stable Workspace.stable_copying
  have hallow : ∀ a, Keeps (Workspace.Copying S B ms) B H c (allowWrites a) :=
    fun _ => allowWrites_stable Workspace.stable_copying
  have hidle : ∀ ls : List Label, Weave.Keeps (Workspace.Copying S B ms) H
      (Weave.modifyBody m fun b => ls.foldl Body.idleAt b) := fun _ =>
    modifyBody_copying hm fun b => Body.spares_idleAll _
  have hcall : ∀ target, Weave.Keeps (Workspace.Copying S B ms) H
      (Weave.modifyBody m (·.setAt call .call (.method (some target)))) :=
    fun _ => modifyBody_copying hm fun b => Body.spares_setAt (by decide)
  have hinsert : ∀ (b : Body) (this : Label) (field : FieldRef),
      ⦃fun w => ⌜Holding (CopyingTo S B ms m b) H w⌝⦄
        (Weave.ofOutcome (b.insertAfter this (b.labelled [Step.ldflda field])))
      ⦃post⟨fun b' w => ⌜Holding (CopyingTo S B ms m b') H w⌝,
        fun e w => ⌜Holding (Workspace.Copying S B ms) H w ∧
        e.IsSerious⌝⟩⦄ := by
    intro b this field
    have hput : Weave.Gives (CopyingTo S B ms m b) H _
        (Weave.ofOutcome (b.insertAfter this
          (b.labelled [Step.ldflda field]))) :=
      Weave.ofOutcome_gives (Body.neverFails_insertAfter _ _ _)
    mvcgen [hput, -Weave.ofOutcome_gives]
    · intro hw hb
      exact hw.imp fun h => h.trans
        (Body.spares_insertAfter (by simp [Step.ldflda]) hb)
    · grind
  mvcgen [patchCall, haccess, hallow, hidle, hcall, hinsert, setBody_copying,
    -Weave.setBody_frame, -Weave.modifyBody_frame, -Weave.ofOutcome_gives,
    -patchCall_drafts, -componentAccess_drafts, -allowWrites_drafts,
    -modifyBody_keeps, -setBody_keeps]
  all_goals grind

theorem patchComponentAccess_copying (hm : m ∈ ms) :
    Keeps (Workspace.Copying S B ms) B H c (patchComponentAccess m) := by
  have hpatch : ∀ call r, Keeps (Workspace.Copying S B ms) B H c
      (patchCall m call r) :=
    fun _ _ => patchCall_copying hm
  mvcgen [patchComponentAccess, hpatch, -patchComponentAccess_drafts,
    -patchCall_drafts]
  all_goals grind

/-! ## Accesses to captured variables -/

/-- While the lambda is copied, none of some accesses in a copy is a store. -/
def Redirecting (S : Set FieldRef) (B : Ground) (ms : List MethodId)
    (m : MethodId) (found : List Capture) (w : Workspace) : Prop :=
  w.Copying S B ms ∧
    ∀ x ∈ found, ∀ i ∈ (w.method m).code.code, i.label = x.label → i.op ≠ .stfld

variable {found : List Capture}

@[grind →]
theorem holding_of_redirecting {w : World}
    (h : Holding (Redirecting S B ms m found) H w) :
    Holding (Workspace.Copying S B ms) H w :=
  h.imp And.left

theorem redirect_copying {x : Capture} {written : Bool} (hm : m ∈ ms)
    (hx : x ∈ found) :
    Keeps (Redirecting S B ms m found) B H c (redirect m x written) := by
  have hfield : ∀ x written,
      Keeps (Redirecting S B ms m found) B H c (capturedField x written) :=
    fun _ _ => capturedField_stable fun _ _ hf hn h =>
      ⟨Workspace.stable_copying _ _ hf hn h.1, h.2⟩
  have hredirect : ∀ field, Weave.Keeps (Redirecting S B ms m found) H
      (Weave.modifyBody m (·.redirect x field)) := by
    intro field
    refine modifyBody_inv fun w b h hb => ?_
    have hstores := h.2
    rw [Workspace.code_eq hb] at hstores
    have hspares : b.Spares (b.redirect x field) :=
      Body.spares_redirect (hstores x hx)
    refine ⟨h.1.setBody hm hb hspares, fun y hy => ?_⟩
    rw [Workspace.code_updateMethod_self hb]
    exact hspares.not_store (hstores y hy)
  mvcgen [redirect, hfield, hredirect, -Weave.modifyBody_frame,
    -redirect_drafts, -capturedField_drafts, -modifyBody_keeps]
  all_goals grind

section

variable {α : Type} {mm : Type → Type} {ps : PostShape} [Monad mm]
  [WPMonad mm ps]
variable {P : Assertion ps} {E : ExceptConds ps} {xs : List α}

theorem forM_giving {R : α → Prop} {f : α → mm PUnit}
    (h : ∀ x ∈ xs, ⦃P⦄ f x ⦃(fun _ => spred(P ∧ ⌜R x⌝), E)⦄) :
    ⦃P⦄ xs.forM f ⦃(fun _ => spred(P ∧ ⌜∀ x ∈ xs, R x⌝), E)⦄ := by
  induction xs with
  | nil =>
    unfold List.forM
    mvcgen
    exact SPred.and_intro .rfl (SPred.pure_intro (by simp))
  | cons x xs ih =>
    have hx := h x (by simp)
    have hxs := ih fun y hy => h y (by simp [hy])
    unfold List.forM
    mvcgen [hx, hxs]
    rename_i hr _
    exact SPred.and_mono_r (SPred.pure_mono fun hrest => List.forall_mem_cons.2
      ⟨hr, hrest⟩)

end

/-- The workspace while the code of a copy is looked at. -/
def Viewing (S : Set FieldRef) (B : Ground) (ms : List MethodId) (m : MethodId)
    (b : Body) (w : Workspace) : Prop :=
  w.Copying S B ms ∧ (w.method m).body = some b

theorem holding_viewing {b : Body} {w : World}
    (h : Holding (Workspace.Copying S B ms) H w)
    (hb : (w.workspace.method m).body = some b) :
    Holding (Viewing S B ms m b) H w :=
  h.imp fun hw => ⟨hw, hb⟩

/-- No access that passed is a store. -/
theorem refuseStores_copying {b : Body} {mode : ExecutionMode} (hm : m ∈ ms)
    (hmode : mode ≠ .run) :
    ⦃fun u w => ⌜Drafting (Viewing S B ms m b) B H c u w⌝⦄
      (found.forM fun x => do
        if (b.get x.label).op == .stfld && mode != .run then
          refuseAt .dc0013 m x.label [.text x.leaf.name] : Planning Unit)
      ⦃post⟨fun _ u w => ⌜Drafting (Redirecting S B ms m found) B H c u w⌝,
        fun e w => ⌜Holding (Workspace.Copying S B ms) H w ∧
        e.IsSerious⌝⟩⦄ := by
  have hcheck : ∀ x ∈ found, KeepsGiving (Viewing S B ms m b) B H c
      (fun _ => (b.get x.label).op ≠ .stfld) (do
        if (b.get x.label).op == .stfld && mode != .run then
          refuseAt .dc0013 m x.label [.text x.leaf.name]) := by
    intro x _
    mvcgen
    all_goals grind
  have hall := forM_giving hcheck
  mvcgen [hall, -forM_keeps]
  · rintro ⟨hd, hops⟩
    refine ⟨hd.holding.imp fun h => ⟨h.1, fun x hx i hi hl => ?_⟩, hd.fresh⟩
    have hown := h.1.ownLabels m hm
    rw [Workspace.code_eq h.2] at hi hown
    rw [← hown.get_eq hi, hl]
    exact hops x hx
  · exact fun hw he => ⟨hw.imp And.left, he⟩

theorem redirectAll_copying {written : Capture → Bool} (hm : m ∈ ms) :
    ⦃fun u w => ⌜Drafting (Redirecting S B ms m found) B H c u w⌝⦄
      found.forM fun x => redirect m x (written x)
      ⦃post⟨fun _ u w => ⌜Drafting (Workspace.Copying S B ms) B H c u w⌝,
        fun e w => ⌜Holding (Workspace.Copying S B ms) H w ∧
        e.IsSerious⌝⟩⦄ := by
  have hall : Keeps (Redirecting S B ms m found) B H c
      (found.forM fun x => redirect m x (written x)) :=
    forM_keeps fun x hx => redirect_copying hm hx
  mvcgen [hall, -forM_keeps]
  all_goals grind

theorem remapCaptures_copying (hm : m ∈ ms) (hmode : c.mode ≠ .run) :
    Keeps (Workspace.Copying S B ms) B H c (remapCaptures m) := by
  have hrefer : ∀ found : List Capture, Keeps (Workspace.Copying S B ms) B H c
      (found.forM (checkReference m)) :=
    fun _ => forM_keeps fun _ _ => checkReference_keeps
  mvcgen [remapCaptures, refuseStores_copying, redirectAll_copying, hrefer,
    -remapCaptures_drafts, -forM_keeps]
  all_goals
    first
    | exact ⟨holding_viewing (by grind) ‹_›, by grind⟩
    | grind [Fresh]

/-! ## The copies of a lambda -/

theorem mapM_addsCopy {ns : List MethodId} {f : MethodId → Planning MethodId}
    (hf : ∀ n, AddsCopy S B H c (f n)) :
    ⦃fun u w => ⌜Drafting (Workspace.Copying S B []) B H c u w⌝⦄ ns.mapM f
      ⦃post⟨fun rs u w => ⌜Drafting (Workspace.Copying S B rs) B H c u w⌝,
        fun e w => ⌜Holding (Workspace.Copying S B []) H w ∧
        e.IsSerious⌝⟩⦄ := by
  have hall : ∀ ms, ⦃fun u w => ⌜Drafting (Workspace.Copying S B ms) B H c u w⌝⦄
    ns.mapM f
      ⦃post⟨fun rs u w => ⌜Drafting (Workspace.Copying S B (rs ++ ms)) B
        H c u w⌝, fun e w => ⌜Holding (Workspace.Copying S B []) H w ∧
        e.IsSerious⌝⟩⦄ := by
    induction ns with
    | nil =>
      intro ms
      rw [List.mapM_nil]
      mvcgen
    | cons n ns ih =>
      intro ms
      rw [List.mapM_cons]
      refine Triple.bind _ _ (hf n ms) fun m => Triple.bind _ _ (ih (m :: ms))
        fun rs => ?_
      mvcgen
      rename_i h
      exact ⟨h.holding.imp fun hw => hw.mono (by grind), h.fresh⟩
  simpa using hall []

theorem drafting_withCopies {u : Plan} {w : World} {lambda : Option MethodId}
    (h : Drafting (Workspace.Copying S B ms) B H c u w) :
    Drafting (Workspace.Copying S (B.withCopies ms) ms) (B.withCopies ms) H c
      { u with cloned := ms, lambda } w :=
  ⟨h.holding.imp fun hw => ⟨hw.reaches, hw.stores, hw.labelled, hw.isNew, hw.lt,
    hw.ownLabels⟩, ⟨h.fresh.chain, h.fresh.type, h.fresh.runDirectly,
    h.fresh.init, h.fresh.initLabels,
      fun _ => Option.some.inj⟩⟩

theorem drafting_of_withCopies {u : Plan} {w : World} (hB : B.copies = none)
    (h : Drafting (Workspace.Copying S (B.withCopies ms) ms) (B.withCopies ms) H
      c u w) :
    Drafting (Workspace.Copying S B u.cloned) B H c u w := by
  rw [h.fresh.cloned ms rfl]
  refine ⟨h.holding.imp fun hw =>
    ⟨hw.reaches, hw.stores, hw.labelled, hw.isNew, hw.lt, hw.ownLabels⟩, ?_⟩
  exact ⟨h.fresh.chain, h.fresh.type, h.fresh.runDirectly, h.fresh.init,
    h.fresh.initLabels, by simp [hB]⟩

@[grind →]
theorem holding_of_withCopies {w : World}
    (h : Holding (Workspace.Copying S (B.withCopies ms) ms) H w) :
    Holding (Workspace.Copying S B []) H w :=
  h.imp fun hw => ⟨hw.reaches, hw.stores, hw.labelled,
    by simp, by simp, by simp⟩

theorem clone_copying (hB : B.copies = none) (hmode : c.mode ≠ .run) :
    ⦃fun u w => ⌜Drafting (Workspace.Copying S B []) B H c u w⌝⦄ clone
      ⦃post⟨fun _ u w => ⌜Drafting (Workspace.Copying S B u.cloned) B H c u w⌝,
        fun e w => ⌜Holding (Workspace.Copying S B []) H w ∧
        e.IsSerious⌝⟩⦄ := by
  have hcopy : ∀ lambda n : MethodId, AddsCopy S B H c
      (if n == lambda then copyMethod n lambdaName
        else do copyMethod n (← Weave.methodDef n).name) := by
    intro lambda n ms
    have hadds := fun n name => @copyMethod_addsCopy S B H c n name ms
    mvcgen [hadds, -copyMethod_drafts]
  have hadjust : ∀ rs (f : MethodId → Planning PUnit), (∀ m ∈ rs,
      Keeps (Workspace.Copying S (B.withCopies rs) rs) (B.withCopies rs) H c
        (f m)) →
      Keeps (Workspace.Copying S (B.withCopies rs) rs) (B.withCopies rs) H c
        (rs.forM f) :=
    fun _ _ => forM_keeps
  mvcgen [clone, mapM_addsCopy, hadjust, relinkBody_copying,
    patchComponentAccess_copying, remapCaptures_copying, -clone_drafts,
    -mapM_isNew, -mapM_keeps, -forM_keeps, -relinkBody_keeps,
    -patchComponentAccess_drafts, -remapCaptures_drafts]
  all_goals first
    | exact hcopy _
    | exact drafting_withCopies (by assumption)
    | exact drafting_of_withCopies hB
    | grind

/-! ## Whole plans -/

/-- The lambda is copied.  The copies that the plan lists store to fields in `S`
only, and what planning does from here on leaves them alone. -/
def Settled (S : Set FieldRef) (H : List (TypeId × MethodId)) (c : Chain)
    (u : Plan) (w : World) : Prop :=
  ∃ g : Ground, g.direct ∧ g.copies = some u.cloned ∧
    Drafting g.Reaches g H c u w ∧ ∀ m ∈ u.cloned, m.index < g.methods ∧
    (g.base.method m).code.storesTo ⊆ S

/-- The copies store to fields in `S` only. -/
def SettledStores (S : Set FieldRef) (u : Plan) (w : Workspace) : Prop :=
  ∀ m ∈ u.cloned, (w.method m).code.storesTo ⊆ S

theorem Settled.holding {u : Plan} {w : World} (h : Settled S H c u w) :
    Holding (SettledStores S u) H w := by
  obtain ⟨g, -, -, hd, hstores⟩ := h
  refine hd.holding.imp fun hr m hm => ?_
  rw [hr.method_eq (hstores m hm).1]
  exact (hstores m hm).2

/-- From here on planning is on the ground that it has got to. -/
theorem exists_restart {u : Plan} {w : World} (h : Drafting I B H c u w)
    (hd : B.direct = false) (hr : B.Reaches w.workspace) :
    ∃ g : Ground, g.base = w.workspace ∧ g.methods = w.workspace.methods.size ∧
    g.direct ∧
      g.copies = some u.cloned ∧ Drafting g.Reaches g H c u w := by
  let g : Ground :=
    { base := w.workspace, types := B.types,
      methods := w.workspace.methods.size,
      types_le := hr.sizes.1, methods_le := Nat.le_refl _, job := B.job,
      types_le_job := B.types_le_job, job_lt := hr.job_lt,
      copies := some u.cloned }
  have hnone : u.runDirectly = none := by
    by_contra hsome
    obtain ⟨m, hm⟩ := Option.ne_none_iff_exists'.1 hsome
    simpa [hd] using (h.fresh.runDirectly m hm).1
  refine ⟨g, rfl, rfl, rfl, rfl, h.holding.imp fun _ => .refl, ?_⟩
  exact ⟨h.fresh.chain, h.fresh.type,
    by simp [hnone], h.fresh.init, h.fresh.initLabels, fun _ => Option.some.inj⟩

theorem settled_of_drafting {u : Plan} {w : World} (h : Drafting I B H c u w)
    (hd : B.direct = false) (hr : B.Reaches w.workspace)
    (hcopies : ∀ m ∈ u.cloned, m.index < w.workspace.methods.size ∧
      (w.workspace.method m).code.storesTo ⊆ S) : Settled S H c u w := by
  obtain ⟨g, hbase, hsize, hdirect, hcloned, hdrafting⟩ :=
    exists_restart h hd hr
  refine ⟨g, hdirect, hcloned, hdrafting, ?_⟩
  rw [hbase, hsize]
  exact hcopies

theorem complete_settled :
    ⦃fun u w => ⌜Settled S H c u w⌝⦄ complete c
      ⦃post⟨fun _ u w => ⌜Settled S H c u w⌝, fun _ _ => ⌜True⌝⟩⦄ := by
  intro u₀ w₀ ⟨g, hdirect, hcopies, hw₀, hstores⟩
  have hcomplete : ⦃fun u w => ⌜Drafting g.Reaches g H c u w⌝⦄ complete c
      ⦃post⟨fun _ u w => ⌜Settled S H c u w⌝, fun _ _ => ⌜True⌝⟩⦄ := by
    have hdrafts : Drafts g H c (complete c) := complete_drafts hdirect
    mvcgen [hdrafts, -complete_drafts]
    rename_i u w
    intro hw
    have hcloned : u.cloned = u₀.cloned := hw.fresh.cloned _ hcopies
    exact ⟨g, hdirect, hcloned ▸ hcopies, hw, hcloned ▸ hstores⟩
  exact hcomplete u₀ w₀ hw₀

/-- A job that relays to the lambda has no copies. -/
theorem relay_settled (hd : B.direct = false) :
    ⦃fun u w => ⌜Drafting (Workspace.Copying S (B.withCopies []) [])
      (B.withCopies []) H c u w⌝⦄
      relay
      ⦃post⟨fun _ u w => ⌜Settled S H c u w⌝, fun _ _ => ⌜True⌝⟩⦄ := by
  have hrelay : Drafts (B.withCopies []) H c relay := relay_drafts
  mvcgen [hrelay, -relay_drafts]
  · rename_i h
    exact ⟨h.holding.imp (·.reaches), h.fresh⟩
  · intro h
    refine settled_of_drafting h hd h.holding.workspace ?_
    simp [h.fresh.cloned [] rfl]

theorem clone_settled (hB : B.copies = none) (hd : B.direct = false)
    (hmode : c.mode ≠ .run) :
    ⦃fun u w => ⌜Drafting (Workspace.Copying S (B.withCopies []) [])
      (B.withCopies []) H c u w⌝⦄
      clone
      ⦃post⟨fun _ u w => ⌜Settled S H c u w⌝, fun _ _ => ⌜True⌝⟩⦄ := by
  have hclone := @clone_copying S B H c hB hmode
  mvcgen [hclone, -clone_drafts]
  · rename_i h
    simpa [h.fresh.cloned [] rfl] using drafting_of_withCopies hB h
  · intro h
    have hcopying := h.holding.workspace
    exact settled_of_drafting h hd hcopying.reaches fun m hm =>
      ⟨hcopying.lt m hm, hcopying.stores m⟩

theorem build_settled (hB : B.copies = none) (hd : B.direct = false)
    (hmode : c.mode ≠ .run) :
    ⦃fun u w => ⌜Drafting (Workspace.Copying S (B.withCopies []) [])
      (B.withCopies []) H c u w⌝⦄
      build
      ⦃post⟨fun _ u w => ⌜Settled S H c u w⌝, fun _ _ => ⌜True⌝⟩⦄ := by
  have hpart : ∀ needed act, Keeps (Workspace.Copying S (B.withCopies []) [])
    (B.withCopies [])
      H c act → Keeps (Workspace.Copying S (B.withCopies []) [])
        (B.withCopies []) H c (part needed act) := fun _ _ => part_keeps
  have hrelay := @relay_settled S B H c hd
  have hclone := @clone_settled S B H c hB hd hmode
  have hcomplete : ∀ c', c' = c → ⦃fun u w => ⌜Settled S H c u w⌝⦄ complete c'
      ⦃post⟨fun _ u w => ⌜Settled S H c u w⌝, fun _ _ => ⌜True⌝⟩⦄ := by
    rintro _ rfl
    exact complete_settled
  rw [build_eq]
  mvcgen [hpart, hrelay, hclone, hcomplete, -part_keeps, -relay_drafts,
    -clone_drafts, -complete_drafts]
  all_goals grind [Fresh]

end Planning

namespace Weave

variable {V : Workspace} {asStruct serves : Bool}

theorem holding_newType {w : World} {h : TypeHead} {f : TypeEntry → TypeEntry}
    (hw : Holding (fun v => v.methods = V.methods) H w) :
    Holding (fun v => v.methods = V.methods ∧
        (w.workspace.newType h).2.index < v.types.size) H
      { w with
        workspace := (w.workspace.newType h).1.updateType
            (w.workspace.newType h).2 f } :=
  ⟨⟨hw.workspace, by simp [Workspace.newType]⟩, hw.hooks, hw.ordinary⟩

/-- A new plan has nothing but its chain and an empty struct. -/
theorem startPlan_methods :
    ⦃fun w => ⌜Holding (fun v => v.methods = V.methods) H w⌝⦄ startPlan c
      asStruct serves
      ⦃post⟨fun u w => ⌜Holding (fun v => v.methods = V.methods ∧
        u.type.index < v.types.size) H w ∧
        u = { chain := c, type := u.type, closureAsStruct := asStruct,
              servesSystem := serves }⌝, fun _ _ => ⌜True⌝⟩⦄ := by
  mvcgen [startPlan, addToWorkspace, modifyWorkspace, -startPlan_spec]
  all_goals exact holding_newType (by assumption)

theorem build_stores {u₀ : Plan} (hmode : c.mode ≠ .run)
    (hlabelled : ∀ m, (V.method m).code.Labelled)
    (hu₀ : u₀ =
      { chain := c, type := u₀.type, closureAsStruct := asStruct,
        servesSystem := serves }) :
    ⦃fun w => ⌜Holding (fun v => v.methods = V.methods ∧
      u₀.type.index < v.types.size) H w⌝⦄
      (Planning.build u₀ : Weave (Unit × Plan))
      ⦃post⟨fun r w => ⌜Holding (Planning.SettledStores V.storesTo r.2) H w⌝,
        fun _ _ => ⌜True⌝⟩⦄ := by
  intro w₀ hw₀
  obtain ⟨hmethods, hlt⟩ := hw₀.workspace
  let B : Ground :=
    { base := w₀.workspace, types := u₀.type.index,
      methods := w₀.workspace.methods.size,
      types_le := hlt.le, methods_le := Nat.le_refl _, job := u₀.type,
      types_le_job := Nat.le_refl _, job_lt := hlt, direct := false }
  have hmethod : ∀ m, w₀.workspace.method m = V.method m := by
    intro m
    simp only [Workspace.method, Workspace.methodEntry, hmethods]
  have hbuild : ⦃fun u w =>
    ⌜Drafting (Workspace.Copying V.storesTo (B.withCopies []) [])
        (B.withCopies []) H c u w⌝⦄ Planning.build
      ⦃post⟨fun _ u w => ⌜Holding (Planning.SettledStores V.storesTo u) H w⌝,
        fun _ _ => ⌜True⌝⟩⦄ := by
    have hsettled := @Planning.build_settled V.storesTo B H c rfl rfl hmode
    mvcgen [hsettled, -Planning.build_drafts]
    exact Planning.Settled.holding
  refine hbuild u₀ w₀ ⟨⟨⟨.refl, fun m f hf => ⟨m, hmethod m ▸ hf⟩,
    fun m => hmethod m ▸ hlabelled m, by simp, by simp, by simp⟩, hw₀.hooks,
    hw₀.ordinary⟩, ?_⟩
  rw [hu₀]
  exact ⟨rfl, rfl, by simp, by simp, rfl, by simp [Ground.withCopies]⟩

/-- The copies of a deferred job, as planning leaves them. -/
theorem synthesize_settles (hmode : c.mode ≠ .run)
    (hlabelled : ∀ m, (V.method m).code.Labelled) :
    ⦃fun w => ⌜Holding (fun v => v.methods = V.methods) H w⌝⦄ synthesize c
      asStruct
      ⦃post⟨fun u w => ⌜Holding (Planning.SettledStores V.storesTo u) H w⌝,
        fun _ _ => ⌜True⌝⟩⦄ := by
  have hstart := fun serves => @startPlan_methods H c V asStruct serves
  have hbuild := fun serves u₀ => @build_stores H c V asStruct serves u₀ hmode
    hlabelled
  mvcgen [synthesize, hstart, hbuild, -synthesize_spec, -startPlan_spec,
    -Planning.build_spec]
  all_goals grind

/-- The methods that are copied for a deferred job store to no field but those
that some method stored to before, so to none of the fields that the job has for
captured variables. -/
theorem synthesize_stores {w w' : World} {u : Plan} (hmode : c.mode ≠ .run)
    (hordinary : ∀ p ∈ w.imports.methods, p.2.name ∉ sourceNames)
    (hlabelled : ∀ m, (w.workspace.method m).code.Labelled)
    (hrun : synthesize c asStruct w = .ok u w') :
    ∀ m ∈ u.cloned,
      (w'.workspace.method m).code.storesTo ⊆ w.workspace.storesTo := by
  have hsettles := @synthesize_settles w.hooks c w.workspace asStruct hmode
    hlabelled
  have hends := triple_iff.1 hsettles w ⟨rfl, rfl, hordinary⟩
  rw [hrun] at hends
  exact hends.workspace

/-- A scheduled job whose lambda stores to a part of a captured variable. -/
theorem part_stores :
    let w := (World.ofModules [Sample.captureModule Sample.scheduleSteps
      Sample.partSteps, Sample.tickFramework]).1
    (∀ p ∈ w.imports.methods, p.2.name ∉ sourceNames) ∧
    (∀ m, (w.workspace.method m).code.Labelled) ∧
    ∃ c u w', c.mode ≠ .run ∧ synthesize c false w = .ok u w' ∧
    u.cloned.length = 1 ∧
      ∀ m ∈ u.cloned, (w'.workspace.method m).code.storesTo ⊆
      w.workspace.storesTo := by
  rw [Sample.tickFramework_eq]
  intro w
  have hordinary : ∀ p ∈ w.imports.methods, p.2.name ∉ sourceNames := by
    decide +kernel
  have hlabelled : ∀ m, (w.workspace.method m).code.Labelled :=
    Workspace.labelled_of_forall_mem (by decide +kernel)
  have hrun : delivers (chainsIn ⟨0⟩) w (fun found _ =>
      (found.filterMap Except.toOption).any fun c => c.mode != .run &&
        delivers (synthesize c false) w fun u _ => u.cloned.length == 1) =
          true := by
    decide +kernel
  obtain ⟨found, -, -, hrun⟩ := exists_of_delivers hrun
  obtain ⟨c, -, hrun⟩ := List.any_eq_true.1 hrun
  rw [Bool.and_eq_true] at hrun
  obtain ⟨u, w', hsynthesize, hcloned⟩ := exists_of_delivers hrun.2
  have hmode : c.mode ≠ .run := by simpa using hrun.1
  exact ⟨hordinary, hlabelled, c, u, w', hmode, hsynthesize,
    beq_iff_eq.1 hcloned, synthesize_stores hmode hordinary hlabelled
      hsynthesize⟩

end Weave

end JobWeave
