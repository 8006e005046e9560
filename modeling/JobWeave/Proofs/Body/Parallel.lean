import Mathlib
import JobWeave.Proofs.Body.Heights
import JobWeave.Proofs.Body.Legal

/-!
# Code that runs with the same stack

Two bodies are parallel if at every position the one has an instruction that can
stand in for the other's: under the same label, with the same effect on the
stack, and with the same ways on.  What the stack check finds out about one of
them holds for the other, so a rewriting that puts one instruction in the place
of another keeps a body valid as soon as the new operands are in shape.

* `Instr.Parallel` and `Body.Parallel` are the relations; both are symmetric.
* `Body.Parallel.reach_iff`: parallel code is reached with the same heights.
* `MethodDef.validate_of_parallel`: parallel code is accepted if its
  instructions are in shape.
-/

namespace JobWeave

/-- Control can go on to the next instruction. -/
def Opcode.goesOn (op : Opcode) : Bool :=
  op.flow != .ret && op.flow != .throw && op.flow != .branch

/-- Control can go on to the next instruction, and nowhere else. -/
def Opcode.isStraight (op : Opcode) : Bool :=
  op.goesOn && !op.isBranch

/-- The instructions do the same as far as the stack and the flow of control are
concerned. -/
structure Instr.Parallel (returnsVoid : Bool) (i j : Instr) : Prop where
  /-- they have one label -/
  label : j.label = i.label
  /-- they take and leave as much -/
  effect : j.effect? returnsVoid = i.effect? returnsVoid
  /-- both may go on to the next instruction, or neither -/
  goesOn : j.op.goesOn = i.op.goesOn
  /-- both branch, or neither -/
  isBranch : j.op.isBranch = i.op.isBranch
  /-- branches have the same targets -/
  targets : i.op.isBranch → j.operand.labels = i.operand.labels
  /-- both return, or neither -/
  isRet : j.op = .ret ↔ i.op = .ret
  /-- both empty the stack, or neither -/
  isLeave : j.op = .leave ∨ j.op = .leaveS ↔ i.op = .leave ∨ i.op = .leaveS

namespace Instr.Parallel

variable {returnsVoid : Bool} {i j : Instr}

theorem refl (i : Instr) : i.Parallel returnsVoid i :=
  ⟨rfl, rfl, rfl, rfl, fun _ => rfl, Iff.rfl, Iff.rfl⟩

theorem symm (h : i.Parallel returnsVoid j) : j.Parallel returnsVoid i where
  label := h.label.symm
  effect := h.effect.symm
  goesOn := h.goesOn.symm
  isBranch := h.isBranch.symm
  targets := fun hbranch => (h.targets (h.isBranch ▸ hbranch)).symm
  isRet := h.isRet.symm
  isLeave := h.isLeave.symm

/-- Instructions that only go on to the next one are parallel if their effects
are the same. -/
theorem of_straight (hlabel : j.label = i.label)
    (heffect : j.effect? returnsVoid = i.effect? returnsVoid)
    (hi : i.op.isStraight) (hj : j.op.isStraight) :
    i.Parallel returnsVoid j := by
  have hnot : ∀ op : Opcode, op.isStraight → op ≠ .ret ∧
      ¬ (op = .leave ∨ op = .leaveS) := by
    intro op hop
    constructor
    · rintro rfl
      cases hop
    · rintro (rfl | rfl) <;> cases hop
  have hboth := And.intro hi hj
  simp only [Opcode.isStraight, Bool.and_eq_true, Bool.not_eq_true'] at hboth
  obtain ⟨⟨higo, hibranch⟩, hjgo, hjbranch⟩ := hboth
  exact {
    label := hlabel
    effect := heffect
    goesOn := hjgo.trans higo.symm
    isBranch := hjbranch.trans hibranch.symm
    targets := fun h => by simp [hibranch] at h
    isRet := iff_of_false (hnot _ hj).1 (hnot _ hi).1
    isLeave := iff_of_false (hnot _ hj).2 (hnot _ hi).2 }

/-- They leave the same height behind. -/
theorem leaves (h : i.Parallel returnsVoid j) (e : StackEffect) (height : Int) :
    j.leaves e height = i.leaves e height := by
  unfold Instr.leaves
  by_cases hi : i.op = .leave ∨ i.op = .leaveS
  · rw [if_pos hi, if_pos (h.isLeave.2 hi)]
  · rw [if_neg hi, if_neg (mt h.isLeave.1 hi)]

end Instr.Parallel

namespace Body

variable {returnsVoid : Bool} {b b' : Body} {i j : Instr} {k k' n m : Nat}
  {h : Int}

/-- What fits in a body fits in one with as many variables and with the same
labels. -/
theorem Holds.congr (h : b.Holds k i)
    (hlocals : b'.locals.length = b.locals.length)
    (hcontains : ∀ l, b'.contains l = b.contains l) : b'.Holds k i := by
  have hof : b'.localOf? i = b.localOf? i := by
    simp only [localOf?, slot?, hlocals]
  rw [holds_iff] at h ⊢
  simpa only [hof, hlocals, hcontains] using h

/-- The labels of the code say where a label is. -/
theorem indexOf?_congr (hlabels : b'.code.map (·.label) = b.code.map (·.label))
    (l : Label) :
    b'.indexOf? l = b.indexOf? l := by
  have hof : ∀ c : Body, c.indexOf? l = (c.code.map (·.label)).findIdx?
      (· == l) := fun c => by
    rw [List.findIdx?_map]
    rfl
  rw [hof, hof, hlabels]

theorem contains_congr (hlabels : b'.code.map (·.label) = b.code.map (·.label))
    (l : Label) :
    b'.contains l = b.contains l := by
  rw [Bool.eq_iff_iff, ← indexOf?_isSome_iff, ← indexOf?_isSome_iff,
    indexOf?_congr hlabels]

/-- The instructions at every position are parallel. -/
def Parallel (returnsVoid : Bool) (b b' : Body) : Prop :=
  List.Forall₂ (Instr.Parallel returnsVoid) b.code b'.code

namespace Parallel

theorem symm (hb : b.Parallel returnsVoid b') : b'.Parallel returnsVoid b :=
  hb.flip.imp fun _ _ => Instr.Parallel.symm

theorem size (hb : b.Parallel returnsVoid b') : b'.size = b.size :=
  hb.length_eq.symm

theorem labels (hb : b.Parallel returnsVoid b') :
    b'.code.map (·.label) = b.code.map (·.label) := by
  have hflip : List.Forall₂ (fun j i => j.label = i.label) b'.code b.code :=
    hb.flip.imp fun _ _ hij => hij.label
  rwa [← List.forall₂_eq_eq_eq, List.forall₂_map_left_iff,
    List.forall₂_map_right_iff]

/-- An instruction of the other body is in the place of one of this. -/
theorem get (hb : b.Parallel returnsVoid b') (hi : b.code[n]? = some i) :
    ∃ j, b'.code[n]? = some j ∧ i.Parallel returnsVoid j := by
  obtain ⟨hlt, rfl⟩ := List.getElem?_eq_some_iff.1 hi
  have hlt' : n < b'.code.length := hb.length_eq ▸ hlt
  exact ⟨b'.code[n], List.getElem?_eq_getElem hlt',
    List.Forall₂.get hb hlt hlt'⟩

/-- A label is at the same position. -/
theorem indexOf? (hb : b.Parallel returnsVoid b') (l : Label) :
    b'.indexOf? l = b.indexOf? l :=
  indexOf?_congr hb.labels l

theorem contains (hb : b.Parallel returnsVoid b') (l : Label) :
    b'.contains l = b.contains l :=
  contains_congr hb.labels l

/-- Control passes to the same positions. -/
theorem passes (hb : b.Parallel returnsVoid b') (hij : i.Parallel returnsVoid j)
    (hp : b.Passes n i m) : b'.Passes n j m := by
  cases hp with
  | next hret hthrow hbranch =>
    have hgo : j.op.goesOn = true := by
      rw [hij.goesOn]
      simp [Opcode.goesOn, hret, hthrow, hbranch]
    simp only [Opcode.goesOn, Bool.and_eq_true, bne_iff_ne] at hgo
    exact .next hgo.1.1 hgo.1.2 hgo.2
  | jump hbranch hl hm =>
    exact .jump (hij.isBranch ▸ hbranch) (hij.targets hbranch ▸ hl)
      (hb.indexOf? _ ▸ hm)

/-- What is reached in the one is reached in the other. -/
theorem reach (hb : b.Parallel returnsVoid b') (hr : b.Reach returnsVoid n h) :
    b'.Reach returnsVoid n h := by
  induction hr with
  | entry => exact .entry
  | step _ hi he hp ih =>
    obtain ⟨j, hj, hij⟩ := hb.get hi
    rw [← hij.leaves]
    exact .step ih hj (hij.effect.trans he) (hb.passes hij hp)

/-- Every position is reached with the same heights. -/
theorem reach_iff (hb : b.Parallel returnsVoid b') :
    b'.Reach returnsVoid n h ↔ b.Reach returnsVoid n h :=
  ⟨hb.symm.reach, hb.reach⟩

theorem balanced (hb : b.Parallel returnsVoid b')
    (hbal : b.Balanced returnsVoid) :
    b'.Balanced returnsVoid where
  enough hr hj he := by
    obtain ⟨i, hi, hij⟩ := hb.symm.get hj
    exact hbal.enough (hb.symm.reach hr) hi (hij.effect.trans he)
  inside hr hj hp := by
    obtain ⟨i, hi, hij⟩ := hb.symm.get hj
    rw [hb.size]
    exact hbal.inside (hb.symm.reach hr) hi (hb.symm.passes hij hp)
  emptied hr hj he hret := by
    obtain ⟨i, hi, hij⟩ := hb.symm.get hj
    exact hbal.emptied (hb.symm.reach hr) hi (hij.effect.trans he)
      (hij.isRet.2 hret)
  unique hr hr' := hbal.unique (hb.symm.reach hr) (hb.symm.reach hr')

end Parallel

end Body

/-- A method is accepted with other code that has the same labels, if the
instructions are in shape there and the code is balanced as the old code is. -/
theorem MethodDef.validate_of_balanced {m : MethodDef} {name : String}
    {b b' : Body} (hvalid : m.validate name b = .ok ())
    (hlabels : b'.code.map (·.label) = b.code.map (·.label))
    (hpoints : b'.points = b.points)
    (hheld : ∀ j ∈ b'.code, b'.Holds m.argCount j)
    (hbalanced : b.Balanced m.returnsVoid → b'.Balanced m.returnsVoid) :
    m.validate name b' = .ok () := by
  obtain ⟨hshape, hstack⟩ := validate_eq_ok_iff.1 hvalid
  obtain ⟨hown, hheldOld, hpointed⟩ := Body.checkShapes_eq_ok_iff.1 hshape
  have hshape' : b'.checkShapes m.argCount = .ok () := by
    refine Body.checkShapes_eq_ok_iff.2 ⟨hlabels ▸ hown, hheld, fun p hp => ?_⟩
    rw [Body.contains_congr hlabels]
    exact hpointed p (hpoints ▸ hp)
  refine validate_eq_ok_iff.2 ⟨hshape', ?_⟩
  by_cases hnil : b.code = []
  · have hnil' : b'.code = [] := by simpa [hnil] using hlabels
    simp [Body.checkStack, hnil']
  · have hnil' : b'.code ≠ [] := by
      intro hnil'
      exact hnil (by simpa [hnil'] using hlabels.symm)
    obtain ⟨H, hH⟩ := (Body.checkStack_eq_ok_iff_exists_fit hheldOld hnil).1
      hstack
    exact (Body.checkStack_eq_ok_iff_exists_fit hheld hnil').2
      ((hbalanced hH.balanced).exists_fit hnil' hheld)

/-- A method is accepted with parallel code, if the instructions are in shape
there. -/
theorem MethodDef.validate_of_parallel {m : MethodDef} {name : String}
    {b b' : Body} (hvalid : m.validate name b = .ok ())
    (hb : b.Parallel m.returnsVoid b')
    (hheld : ∀ j ∈ b'.code, b'.Holds m.argCount j)
    (hpoints : b'.points = b.points) :
    m.validate name b' = .ok () :=
  validate_of_balanced hvalid hb.labels hpoints hheld hb.balanced

end JobWeave
