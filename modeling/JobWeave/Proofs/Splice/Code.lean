import Mathlib
import JobWeave.Splice.CallSite
import JobWeave.Proofs.Plan.Drafting

/-!
# Changing code and putting it back

The pass changes the code of the method at hand, and with it the marks of the
references that copies of the method share.  Code that was recorded can be put
back.

* `Workspace.kin` is a method with its copies, and `Workspace.Edits` says that
  the methods whose code may change include them.
* `Body.SameCode` compares code, not what a body knows besides.
* `Workspace.Undone` relates a workspace to one where the code of a method was
  changed and put back.
-/

namespace JobWeave

open Std.Do

set_option mvcgen.warning false

/-! ## The same code -/

/-- Both bodies have the same instructions, variables and source positions. -/
structure Body.SameCode (b b' : Body) : Prop where
  /-- the instructions -/
  code : b'.code = b.code
  /-- the local variables -/
  locals : b'.locals = b.locals
  /-- the source positions -/
  points : b'.points = b.points
  /-- how local variables start -/
  initLocals : b'.initLocals = b.initLocals

namespace Body.SameCode

variable {a b c : Body}

theorem refl (b : Body) : b.SameCode b :=
  ⟨rfl, rfl, rfl, rfl⟩

theorem trans (h₁ : a.SameCode b) (h₂ : b.SameCode c) : a.SameCode c :=
  ⟨h₂.code.trans h₁.code, h₂.locals.trans h₁.locals, h₂.points.trans h₁.points,
    h₂.initLocals.trans h₁.initLocals⟩

/-- Restored code is the code that was saved. -/
theorem restored (b saved : Body) : saved.SameCode (b.restored saved) :=
  ⟨rfl, rfl, rfl, rfl⟩

end Body.SameCode

namespace Workspace

variable {R : TypeEntry → TypeEntry → Prop} {S : Set MethodId}
variable {V w w₁ w₂ : Workspace} {m n : MethodId}

/-- The methods that come from the same one. -/
def kin (V : Workspace) (m : MethodId) : Set MethodId :=
  { n | V.modelOf n = V.modelOf m }

theorem mem_kin_self : m ∈ V.kin m :=
  rfl

/-- The method has code, and its code and that of its copies may change. -/
structure Edits (V : Workspace) (S : Set MethodId) (m : MethodId) : Prop where
  /-- the method is there -/
  lt : m.index < V.methods.size
  /-- it has code -/
  hasBody : (V.method m).body.isSome
  /-- its copies are among the methods that may change -/
  kin : V.kin m ⊆ S

theorem Edits.mem (h : V.Edits S m) : m ∈ S :=
  h.kin mem_kin_self

/-- An old method that comes from the same one as `m` is in its kin. -/
theorem Frame.mem_kin (h : V.Frame R S w) (hm : m.index < V.methods.size)
    (hn : n.index < V.methods.size) (he : w.modelOf n = w.modelOf m) :
    n ∈ V.kin m := by
  rwa [h.modelOf_eq hm, h.modelOf_eq hn] at he

/-- A change of a method and its copies after a change of them. -/
theorem Frame.trans_kin (hR : ∀ a b c, R a b → R b c → R a c)
    (h₁ : V.Frame R (V.kin m) w₁) (h₂ : w₁.Frame R (w₁.kin m) w₂)
    (hm : m.index < V.methods.size) : V.Frame R (V.kin m) w₂ :=
  h₁.trans hR h₂ fun _ hn he => h₁.mem_kin hm hn he

/-- The copies of a method are the others of its kin. -/
theorem mem_copiesOf (h : n ∈ w.copiesOf m) :
    n ≠ m ∧ w.modelOf n = w.modelOf m := by
  simp only [copiesOf, List.mem_filter, Bool.and_eq_true, bne_iff_ne,
    beq_iff_eq] at h
  exact h.2

/-- The method and its copies may still change after a change. -/
theorem Edits.of_frame {S' : Set MethodId} (h : V.Edits S m)
    (hf : V.Frame R S' w) :
    w.Edits (w.kin m) m where
  lt := h.lt.trans_le hf.methods_le
  hasBody := (hf.hasBody m h.lt).trans h.hasBody
  kin := subset_rfl

/-- The code of a method is the same. -/
def SameCodeAt (m : MethodId) (V w : Workspace) : Prop :=
  ∀ b, (V.method m).body = some b →
    ∃ b', (w.method m).body = some b' ∧ b.SameCode b'

theorem SameCodeAt.refl (m : MethodId) (V : Workspace) : V.SameCodeAt m V :=
  fun b hb => ⟨b, hb, .refl b⟩

theorem SameCodeAt.trans (h₁ : SameCodeAt m V w₁) (h₂ : SameCodeAt m w₁ w₂) :
    SameCodeAt m V w₂ := by
  intro b hb
  obtain ⟨b₁, hb₁, hs₁⟩ := h₁ b hb
  obtain ⟨b₂, hb₂, hs₂⟩ := h₂ b₁ hb₁
  exact ⟨b₂, hb₂, hs₁.trans hs₂⟩

/-- Work on a method was undone: at most marks in copies of it are new. -/
structure Undone (m : MethodId) (V w : Workspace) : Prop where
  /-- everything but the code of the method and its copies -/
  frame : V.Frame Eq (V.kin m) w
  /-- the method's code -/
  code : SameCodeAt m V w

theorem Undone.refl (m : MethodId) (V : Workspace) : V.Undone m V :=
  ⟨.refl (fun _ => rfl) _ _, .refl m V⟩

theorem Undone.trans (h₁ : Undone m V w₁) (h₂ : Undone m w₁ w₂)
    (hm : m.index < V.methods.size) : Undone m V w₂ :=
  ⟨h₁.frame.trans_kin (fun _ _ _ => Eq.trans) h₂.frame hm,
    h₁.code.trans h₂.code⟩

/-- Where nothing old changed, the code is the same too. -/
theorem Undone.of_extends (h : V.Extends w) (hm : m.index < V.methods.size) :
    Undone m V w where
  frame := h.mono (fun _ _ => id) (Set.empty_subset _)
  code := fun b hb => ⟨b, by rwa [h.body m hm (Set.notMem_empty m)], .refl b⟩

end Workspace

/-! ## Specifications -/

variable {R : TypeEntry → TypeEntry → Prop} {S : Set MethodId} {V : Workspace}
variable {m n : MethodId} {b : Body}
variable {I : Workspace → Prop} {H : List (TypeId × MethodId)} {α : Type}

/-- A method that may change gets other code. -/
theorem Holding.setBody {w : World} {b' : Body} (h : Holding (V.Frame R S) H w)
    (hn : n.index < V.methods.size → n ∈ S)
    (hb : (w.workspace.method n).body = some b') :
    Holding (V.Frame R S) H
      { w with workspace :=
          w.workspace.updateMethod n fun d => { d with body := some b } } :=
  ⟨h.workspace.setBody b fun hlt => ⟨hn hlt, by simp [hb]⟩, h.hooks, h.ordinary⟩

namespace Weave

@[spec high]
theorem setBody_frame (hm : V.Edits S m) :
    Keeps (V.Frame R S) H (setBody m b) := by
  mvcgen [setBody, modifyWorkspace, -Planning.setBody_keeps]
  rename_i w hw t
  have hbody : (w.workspace.method m).body.isSome :=
    (hw.workspace.hasBody m hm.lt).trans hm.hasBody
  obtain ⟨b', hb'⟩ := Option.isSome_iff_exists.1 hbody
  exact hw.setBody (fun _ => hm.mem) hb'

@[spec high]
theorem modifyBody_frame {f : Body → Body} (hm : V.Edits S m) :
    Keeps (V.Frame R S) H (modifyBody m f) := by
  mvcgen [modifyBody, -Planning.modifyBody_keeps]
  all_goals grind

/-- Recorded code is the code of the method. -/
@[spec]
theorem saveBody_spec :
    ⦃fun w => ⌜Holding I H w⌝⦄ saveBody m
      ⦃post⟨fun b w => ⌜Holding I H w ∧ (w.workspace.method m).body = some b⌝,
        fun e w => ⌜Holding I H w ∧ e.IsSerious⌝⟩⦄ := by
  mvcgen [saveBody]
  all_goals grind

end Weave

/-- Only old methods in `S` have other code, and while the work on the method
`m` is clean it has the code `b`. -/
structure Workspace.Tended (V : Workspace) (R : TypeEntry → TypeEntry → Prop)
    (S : Set MethodId) (m : MethodId) (b : Body) (clean : Prop)
    (w : Workspace) : Prop where
  /-- what was there before -/
  frame : V.Frame R S w
  /-- the code -/
  code : clean → ∃ b', (w.method m).body = some b' ∧ b.SameCode b'

variable {clean : Prop}

@[grind →]
theorem Workspace.Tended.holding {w : World}
    (h : Holding (V.Tended R S m b clean) H w) : Holding (V.Frame R S) H w :=
  h.imp Workspace.Tended.frame

/-- Work that is not clean promises nothing about the code. -/
theorem Workspace.Tended.of_frame {w : World} (h : Holding (V.Frame R S) H w)
    (hc : ¬clean) : Holding (V.Tended R S m b clean) H w :=
  h.imp fun hf => ⟨hf, fun hclean => absurd hclean hc⟩

/-- Putting back the code that was found goes back to what it stood for. -/
theorem Workspace.Tended.back {w₀ w : World} {c : Body}
    (h₀ : Holding (V.Tended R S m b clean) H w₀)
    (hc : (w₀.workspace.method m).body = some c)
    (h : Holding (V.Tended R S m c True) H w) :
    Holding (V.Tended R S m b clean) H w := by
  refine h.imp fun hw => ⟨hw.frame, fun hclean => ?_⟩
  obtain ⟨c', hc', hbc⟩ := h₀.workspace.code hclean
  obtain ⟨c'', hc'', hcc⟩ := hw.code trivial
  rw [hc] at hc'
  cases hc'
  exact ⟨c'', hc'', hbc.trans hcc⟩

namespace Weave

/-- Adopting marks changes the method at hand alone. -/
theorem adoptMarks_spec {b' : Body} (hne : m ≠ n)
    (hn : n.index < V.methods.size → n ∈ S) :
    ⦃fun w => ⌜Holding (V.Tended R S m b clean) H w⌝⦄ adoptMarks b' n
      ⦃post⟨fun _ w => ⌜Holding (V.Tended R S m b clean) H w⌝,
        fun _ _ => ⌜False⌝⟩⦄ := by
  mvcgen [adoptMarks, setBody, modifyWorkspace, -setBody_frame,
    -Planning.setBody_keeps]
  rename_i w hw c hc t
  have hframe : Holding (V.Frame R S) H w := hw.imp Workspace.Tended.frame
  refine ⟨⟨(hframe.setBody hn hc).workspace, ?_⟩, hw.hooks, hw.ordinary⟩
  rw [Workspace.method, Workspace.methodEntry_updateMethod_of_ne _ hne]
  exact hw.workspace.code

/-- Sharing marks changes copies of the method and not the method itself. -/
@[spec]
theorem shareMarks_spec {b' : Body} (hm : V.Edits S m) :
    ⦃fun w => ⌜Holding (V.Tended R S m b clean) H w⌝⦄ shareMarks m b'
      ⦃post⟨fun _ w => ⌜Holding (V.Tended R S m b clean) H w⌝,
        fun _ _ => ⌜False⌝⟩⦄ := by
  have hloop : ∀ ns : List MethodId,
      (∀ n ∈ ns, m ≠ n ∧ (n.index < V.methods.size → n ∈ S)) →
      ⦃fun w => ⌜Holding (V.Tended R S m b clean) H w⌝⦄ ns.forM (adoptMarks b')
        ⦃post⟨fun _ w => ⌜Holding (V.Tended R S m b clean) H w⌝,
          fun _ _ => ⌜False⌝⟩⦄ := by
    intro ns hns
    exact forM_inv fun n hn => adoptMarks_spec (hns n hn).1 (hns n hn).2
  mvcgen [shareMarks, hloop]
  rename_i w hw
  intro n hn
  obtain ⟨hne, hmodel⟩ := Workspace.mem_copiesOf hn
  exact ⟨hne.symm, fun hlt =>
    hm.kin (hw.workspace.frame.mem_kin hm.lt hlt hmodel)⟩

/-- Sharing marks after work that is not clean. -/
@[spec]
theorem shareMarks_frame (hm : V.Edits S m) :
    Keeps (V.Frame R S) H (shareMarks m b) := by
  have hshare : ⦃fun w => ⌜Holding (V.Tended R S m b False) H w⌝⦄ shareMarks m b
      ⦃post⟨fun _ w => ⌜Holding (V.Tended R S m b False) H w⌝,
        fun _ _ => ⌜False⌝⟩⦄ := shareMarks_spec hm
  mvcgen [hshare, -shareMarks_spec]
  all_goals grind [Workspace.Tended.of_frame]

/-- Code that was recorded is put back. -/
@[spec]
theorem restoreBody_spec (hm : V.Edits S m) :
    ⦃fun w => ⌜Holding (V.Frame R S) H w⌝⦄ restoreBody m b
      ⦃post⟨fun _ w => ⌜Holding (V.Tended R S m b True) H w⌝,
        fun _ _ => ⌜False⌝⟩⦄ := by
  have hset : ∀ c : Body,
      ⦃fun w => ⌜Holding (V.Frame R S) H w ∧
          (w.workspace.method m).body = some c⌝⦄ setBody m (c.restored b)
        ⦃post⟨fun _ w => ⌜Holding (V.Tended R S m b True) H w⌝,
          fun _ _ => ⌜False⌝⟩⦄ := by
    intro c
    mvcgen [setBody, modifyWorkspace, -setBody_frame, -Planning.setBody_keeps]
    rename_i w hw t
    have hlt := hm.lt.trans_le hw.1.workspace.methods_le
    refine (hw.1.setBody (fun _ => hm.mem) hw.2).imp fun hframe =>
      ⟨hframe, fun _ => ?_⟩
    refine ⟨c.restored b, ?_, .restored c b⟩
    rw [Workspace.method, Workspace.methodEntry_updateMethod_self _ hlt]
  mvcgen [restoreBody, hset, -setBody_frame, -Planning.setBody_keeps,
    -shareMarks_frame]
  · exact fun _ _ => hm
  · rename_i w hw o ho hbody
    have hsome := (hw.workspace.hasBody m hm.lt).trans hm.hasBody
    rw [hbody] at hsome
    obtain ⟨c, hc⟩ := Option.isSome_iff_exists.1 hsome
    exact (ho c hc).elim

/-- Work that stops leaves the code of the method as it found it. -/
theorem restoringBody_spec {act : Weave α} (b : Body) (clean : Prop)
    (hm : V.Edits S m) (hact : Keeps (V.Frame R S) H act) :
    ⦃fun w => ⌜Holding (V.Tended R S m b clean) H w⌝⦄ restoringBody m act
      ⦃post⟨fun _ w => ⌜Holding (V.Frame R S) H w⌝,
        fun e w => ⌜Holding (V.Tended R S m b clean) H w ∧ e.IsSerious⌝⟩⦄ := by
  have hattempt := attempt_spec hact
  mvcgen [restoringBody, hattempt]
  all_goals grind [Workspace.Tended.back]

end Weave

end JobWeave
