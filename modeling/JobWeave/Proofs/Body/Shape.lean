import Mathlib
import JobWeave.Body.Validate

/-!
# What the shape checks say

`checkShapes` succeeds on exactly the bodies in which no label occurs twice,
every instruction is one the body can hold (`Holds`), and every sequence point
belongs to an instruction.  Two things follow for the walk over the stack
heights: every instruction has a stack effect, and the targets of a branch are
in the body.

* `checkShapes_eq_ok_iff`: the checks, read as properties of the code.
* `Holds.effect`, `Holds.target`: what an instruction that fits is good for.
-/

namespace JobWeave

/-- A branching opcode carries a target or a table of targets. -/
theorem Opcode.operand_of_isBranch {op : Opcode} (h : op.isBranch = true) :
    op.info.operand = .branch ∨ op.info.operand = .table := by
  cases op <;> first | exact .inl rfl | exact .inr rfl | cases h

/-! ## Checks in a row -/

section Checks

variable {α β ε : Type}

/-- A check and what comes after it succeed iff both do. -/
theorem bind_eq_ok_iff {x : Except ε α} {f : α → Except ε β} {b : β} :
    (x >>= f) = .ok b ↔ ∃ a, x = .ok a ∧ f a = .ok b := by
  cases x <;> simp [bind, Except.bind]

/-- A check of every element succeeds iff it succeeds for each. -/
theorem forM_eq_ok_iff {f : α → Except ε Unit} {xs : List α} :
    xs.forM f = .ok () ↔ ∀ x ∈ xs, f x = .ok () := by
  induction xs with
  | nil => simp [List.forM, pure, Except.pure]
  | cons x xs ih =>
    rw [List.forM, bind_eq_ok_iff, List.forall_mem_cons, ← ih]
    constructor
    · rintro ⟨⟨⟩, hx, hxs⟩
      exact ⟨hx, hxs⟩
    · rintro ⟨hx, hxs⟩
      exact ⟨⟨⟩, hx, hxs⟩

end Checks

namespace Body

variable {b : Body} {k n : Nat} {i : Instr}

/-! ## Labels -/

/-- No instruction occurs twice iff no label does. -/
theorem firstRepeat?_eq_none_iff :
    b.firstRepeat? = none ↔ (b.code.map (·.label)).Nodup := by
  simp only [firstRepeat?, List.findSome?_eq_none_iff, List.mem_mapIdx]
  rw [List.nodup_iff_pairwise_ne, List.pairwise_iff_getElem]
  constructor
  · intro h m n hm hn hmn heq
    simp only [List.length_map] at hm hn
    have := h (n, b.code[n]) ⟨n, hn, rfl⟩
    simp only [ite_eq_right_iff, reduceCtorEq, imp_false, Bool.not_eq_true,
      List.any_eq_false, beq_iff_eq] at this
    exact this b.code[m] (List.mem_take_iff_getElem.mpr ⟨m, by omega, rfl⟩)
      (by simpa using heq)
  · rintro h _ ⟨n, hn, rfl⟩
    simp only [ite_eq_right_iff, reduceCtorEq, imp_false, Bool.not_eq_true,
      List.any_eq_false, beq_iff_eq]
    intro j hj heq
    obtain ⟨m, hm, rfl⟩ := List.mem_take_iff_getElem.mp hj
    exact h m n (by simp; omega) (by simpa using hn) (by omega)
      (by simpa using heq)

theorem contains_iff {l : Label} :
    b.contains l = true ↔ ∃ i ∈ b.code, i.label = l := by
  simp [contains]

theorem indexOf?_isSome_iff {l : Label} :
    (b.indexOf? l).isSome ↔ b.contains l = true := by
  simp [indexOf?, contains]

/-! ## Instructions -/

/-- The instruction can stand in the body of a method with so many arguments. -/
structure Holds (b : Body) (k : Nat) (i : Instr) : Prop where
  /-- the opcode has a number of its own -/
  valid : i.op.isValid = true
  /-- the operand is what the opcode demands and belongs to the body -/
  operand : b.checkOperand i = .ok ()
  /-- the argument exists -/
  arg : ∀ a, i.argIndex? = some a → a < k
  /-- the slot exists -/
  slot : isSlotMacro i.op = true → (b.localOf? i).isSome

theorem checkInstr_eq_ok_iff : b.checkInstr k n i = .ok () ↔ b.Holds k i := by
  have hiff : b.Holds k i ↔ i.op.isValid = true ∧ b.checkOperand i = .ok () ∧
      (∀ a, i.argIndex? = some a → a < k) ∧
      (isSlotMacro i.op = true → (b.localOf? i).isSome) :=
    ⟨fun h => ⟨h.valid, h.operand, h.arg, h.slot⟩,
      fun ⟨hv, ho, ha, hs⟩ => ⟨hv, ho, ha, hs⟩⟩
  rw [hiff]
  unfold checkInstr
  cases hv : i.op.isValid with
  | false => simp [bind, Except.bind, throw, throwThe, MonadExceptOf.throw]
  | true =>
    cases ho : b.checkOperand i with
    | error e => simp [bind, Except.bind, throw, throwThe, MonadExceptOf.throw]
    | ok u =>
      cases hs : isSlotMacro i.op <;> cases hl : (b.localOf? i) <;>
      cases ha : i.argIndex? <;>
      simp [bind, Except.bind, throw, throwThe, MonadExceptOf.throw, pure,
        Except.pure]
      all_goals grind -ring -linarith

theorem checkShapes_eq_ok_iff :
    b.checkShapes k = .ok () ↔
      (b.code.map (·.label)).Nodup ∧ (∀ i ∈ b.code, b.Holds k i) ∧
        ∀ p ∈ b.points, b.contains p.label = true := by
  have hcode : (∀ x ∈ b.code.mapIdx fun n i => (n, i), b.checkInstr k x.1 x.2 =
    .ok ()) ↔
      ∀ i ∈ b.code, b.Holds k i := by
    simp only [List.mem_mapIdx, checkInstr_eq_ok_iff]
    constructor
    · intro h i hi
      obtain ⟨n, hn, rfl⟩ := List.mem_iff_getElem.mp hi
      exact h _ ⟨n, hn, rfl⟩
    · rintro h _ ⟨n, hn, rfl⟩
      exact h _ (List.getElem_mem hn)
  have hpoints : (∀ p ∈ b.points, (if b.contains p.label then .ok ()
    else .error (.invalidData,
        "sequence point " ++ p.document ++ "(" ++ toString p.line ++
          ") refers to a foreign instruction") : Except Complaint Unit) =
            .ok ()) ↔
      ∀ p ∈ b.points, b.contains p.label = true := by
    refine forall₂_congr fun p _ => ?_
    split <;> simp_all
  unfold checkShapes
  rw [← firstRepeat?_eq_none_iff, ← hcode, ← hpoints]
  cases b.firstRepeat? with
  | some n => simp [bind, Except.bind, throw, throwThe, MonadExceptOf.throw]
  | none =>
    simp only [true_and]
    rw [bind_eq_ok_iff, ← forM_eq_ok_iff, ← forM_eq_ok_iff]
    constructor
    · rintro ⟨⟨⟩, h⟩
      exact h
    · intro h
      exact ⟨(), h⟩

/-- The effect of an instruction that fits is known. -/
theorem Holds.effect (h : b.Holds k i) (returnsVoid : Bool) :
    ∃ e, i.effect? returnsVoid = some e := by
  have hop := h.operand
  unfold checkOperand at hop
  unfold Instr.effect?
  split
  case h_4 => exact ⟨_, rfl⟩
  case h_5 => exact ⟨_, rfl⟩
  -- a call: the check has refused an operand that names no method
  all_goals
    rename_i hcall
    rw [hcall] at hop
    split
    · exact ⟨_, rfl⟩
    · rename_i hnone
      rw [hnone] at hop
      simp [Opcode.info] at hop
    · exact ⟨_, rfl⟩

/-- The targets of a branch that fits are in the body. -/
theorem Holds.target (h : b.Holds k i) (hb : i.op.isBranch = true) {l : Label}
    (hl : l ∈ i.operand.labels) : b.contains l = true := by
  have := h.operand
  unfold checkOperand at this
  rcases Opcode.operand_of_isBranch hb with ho | ho
  all_goals
    rw [ho] at this
    cases hop : i.operand <;> simp_all [Operand.labels]

end Body
end JobWeave
