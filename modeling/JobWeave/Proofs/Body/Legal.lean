import Mathlib
import JobWeave.Proofs.Body.Shape

/-!
# What accepted code consists of

The passes over code look operands up without checking them again.  They rely on
the checks of `MethodDef.validate`, and here it is said what these let through:
`Body.IsLegal` lists the properties of a body one by one, and the shape checks
accept exactly the bodies that have them.

Two things are not checked.  The number of an argument may be below zero, since
it is compared with the number of arguments only, and a token may refer to
nothing, since only the other kinds of references are looked at.

* `OperandKind.Takes` says which operands a kind of opcodes takes.
* `Body.checkShapes_eq_ok_iff_isLegal` and `MethodDef.validate_iff_legal`: what
  is accepted.
* `MethodDef.validate_strays`: an argument below zero and a token that refers to
  nothing.
-/

namespace JobWeave

/-- The operand is one that opcodes of this kind take.  References are there,
tokens apart. -/
def OperandKind.Takes : OperandKind → Operand → Prop
  | .none, .none | .arg, .arg _ | .slot, .slot _ | .int32, .int32 _ | .int64,
    .int64 _
  | .float32, .float32 _ | .float64, .float64 _ | .text, .text _ | .branch,
    .target _
  | .table, .targets _ => True
  | .type, .type t => t.isPresent
  | .field, .field f => f.isSome
  | .method, .method m => m.isSome
  | .token, .type _ | .token, .field _ | .token, .method _ => True
  | _, _ => False

namespace Opcode

variable {op : Opcode}

/-- The opcode reads, writes or addresses an argument. -/
def usesArg (op : Opcode) : Bool :=
  op == .ldarg0 || op == .ldarg1 || op == .ldarg2 || op == .ldarg3 ||
    op.info.operand == .arg

/-- The opcode reads, writes or addresses a local variable. -/
def usesLocal (op : Opcode) : Bool :=
  Body.isSlotMacro op || op.info.operand == .slot

theorem eq_of_operand_arg (h : op.info.operand = .arg) :
    op = .ldargS ∨ op = .ldarg ∨ op = .ldargaS ∨ op = .ldarga ∨ op = .stargS ∨
    op = .starg := by
  cases op <;> first | (simp; done) | cases h

theorem eq_of_operand_slot (h : op.info.operand = .slot) :
    op = .ldlocS ∨ op = .ldloc ∨ op = .ldlocaS ∨ op = .ldloca ∨ op = .stlocS ∨
    op = .stloc := by
  cases op <;> first | (simp; done) | cases h

theorem eq_of_isSlotMacro (h : Body.isSlotMacro op) :
    op = .ldloc0 ∨ op = .ldloc1 ∨ op = .ldloc2 ∨ op = .ldloc3 ∨
      op = .stloc0 ∨ op = .stloc1 ∨ op = .stloc2 ∨ op = .stloc3 := by
  unfold Body.isSlotMacro at h
  split at h <;> simp_all

end Opcode

namespace Body

variable {b : Body} {k : Nat} {i : Instr} {l : LocalRef}

/-- The code of a method with `k` arguments, as every pass may take it to be. -/
structure IsLegal (b : Body) (k : Nat) : Prop where
  /-- no instruction occurs twice -/
  ownLabels : (b.code.map (·.label)).Nodup
  /-- the operations have numbers of their own -/
  valid : ∀ i ∈ b.code, i.op.isValid
  /-- the operands are those that the operations take -/
  operand : ∀ i ∈ b.code, i.op.info.operand.Takes i.operand
  /-- an argument that is used is not past the last one -/
  arg : ∀ i ∈ b.code, i.op.usesArg → ∃ a, i.argIndex? = some a ∧ a < k
  /-- a local variable that is used is one of the body -/
  slot : ∀ i ∈ b.code, i.op.usesLocal → ∃ n < b.locals.length,
    b.localOf? i = some (.slot n)
  /-- control stays inside the body -/
  target : ∀ i ∈ b.code, ∀ l ∈ i.operand.labels, b.contains l
  /-- source positions belong to instructions -/
  point : ∀ p ∈ b.points, b.contains p.label

/-- The operand that a shape check accepts: one of the right kind, inside the
body. -/
theorem checkOperand_eq_ok_iff :
    b.checkOperand i = .ok () ↔
      i.op.info.operand.Takes i.operand ∧
        (∀ l, i.operand = .slot l → ∃ n < b.locals.length, l = .slot n) ∧
        ∀ l ∈ i.operand.labels, b.contains l := by
  unfold checkOperand OperandKind.Takes
  cases i.op.info.operand <;> cases ho : i.operand <;>
    simp only [Operand.isNone, Operand.labels, if_true]
  case slot.slot l => cases l <;> simp
  case field.field f => cases f <;> simp
  case method.method m => cases m <;> simp
  all_goals
    simp only [reduceCtorEq, Bool.false_eq_true, if_false, false_and, true_and,
      and_true, IsEmpty.forall_iff, implies_true, List.not_mem_nil]
  all_goals simp

/-- An operation on an argument that has its operand names one. -/
theorem exists_argIndex (htakes : i.op.info.operand.Takes i.operand)
    (huses : i.op.usesArg) :
    ∃ a, i.argIndex? = some a := by
  simp only [Opcode.usesArg, Bool.or_eq_true, beq_iff_eq, or_assoc] at huses
  rcases huses with hop | hop | hop | hop | hkind
  case inr.inr.inr.inr =>
    have hop := Opcode.eq_of_operand_arg hkind
    rw [hkind] at htakes
    cases ho : i.operand <;> simp only [ho, OperandKind.Takes] at htakes
    rcases hop with hop | hop | hop | hop | hop | hop <;>
      exact ⟨_, by simp [Instr.argIndex?, hop, ho]; rfl⟩
  all_goals exact ⟨_, by simp [Instr.argIndex?, hop]; rfl⟩

/-- Only an operation on an argument names one. -/
theorem usesArg_of_argIndex {a : Int} (h : i.argIndex? = some a) :
    i.op.usesArg := by
  unfold Instr.argIndex? at h
  split at h <;> simp_all [Opcode.usesArg, Opcode.info]

/-- A local variable that is used is one of the body. -/
theorem Holds.exists_localOf (h : b.Holds k i) (huses : i.op.usesLocal) :
    ∃ n < b.locals.length, b.localOf? i = some (.slot n) := by
  obtain ⟨htakes, hslot, -⟩ := checkOperand_eq_ok_iff.1 h.operand
  simp only [Opcode.usesLocal, Bool.or_eq_true, beq_iff_eq] at huses
  rcases huses with himplied | hkind
  · obtain ⟨l, hl⟩ := Option.isSome_iff_exists.1 (h.slot himplied)
    have hof : ∀ n, b.slot? n = some l → ∃ n < b.locals.length,
        l = .slot n := by
      intro n hn
      unfold slot? at hn
      split at hn
      · exact ⟨n, ‹_›, (Option.some.inj hn).symm⟩
      · cases hn
    have hn : ∃ n, b.slot? n = some l := by
      rcases Opcode.eq_of_isSlotMacro himplied
        with hop | hop | hop | hop | hop | hop | hop | hop <;>
        exact ⟨_, by simpa [localOf?, hop] using hl⟩
    obtain ⟨n, hn⟩ := hn
    obtain ⟨n, hlt, rfl⟩ := hof n hn
    exact ⟨n, hlt, hl⟩
  · have hop := Opcode.eq_of_operand_slot hkind
    rw [hkind] at htakes
    cases ho : i.operand <;> simp only [ho, OperandKind.Takes] at htakes
    obtain ⟨n, hlt, rfl⟩ := hslot _ ho
    refine ⟨n, hlt, ?_⟩
    rcases hop with hop | hop | hop | hop | hop | hop <;>
      simp [localOf?, hop, ho]

/-- An instruction stands in a body iff its operand is the one it takes. -/
theorem holds_iff :
    b.Holds k i ↔ i.op.isValid ∧ i.op.info.operand.Takes i.operand ∧
      (i.op.usesArg → ∃ a, i.argIndex? = some a ∧ a < k) ∧
      (i.op.usesLocal → ∃ n < b.locals.length, b.localOf? i = some (.slot n)) ∧
      ∀ l ∈ i.operand.labels, b.contains l := by
  constructor
  · intro h
    obtain ⟨htakes, -, htargets⟩ := checkOperand_eq_ok_iff.1 h.operand
    refine ⟨h.valid, htakes, fun huses => ?_, h.exists_localOf, htargets⟩
    obtain ⟨a, ha⟩ := exists_argIndex htakes huses
    exact ⟨a, ha, h.arg a ha⟩
  · rintro ⟨hvalid, htakes, harg, hslot, htargets⟩
    refine ⟨hvalid, checkOperand_eq_ok_iff.2 ⟨htakes, fun l hl => ?_, htargets⟩,
      ?_, ?_⟩
    · -- only the opcodes that take a local variable as operand have one
      have hkind : i.op.info.operand = .slot := by
        rw [hl] at htakes
        cases hk : i.op.info.operand <;> simp_all [OperandKind.Takes]
      obtain ⟨n, hlt, hn⟩ := hslot (by simp [Opcode.usesLocal, hkind])
      have hof : b.localOf? i = some l := by
        rcases Opcode.eq_of_operand_slot hkind
          with hop | hop | hop | hop | hop | hop <;> simp [localOf?, hop, hl]
      exact ⟨n, hlt, Option.some.inj (hof.symm.trans hn)⟩
    · intro a ha
      obtain ⟨a', ha', hlt⟩ := harg (usesArg_of_argIndex ha)
      exact Option.some.inj (ha'.symm.trans ha) ▸ hlt
    · intro himplied
      obtain ⟨n, -, hn⟩ := hslot (by simp [Opcode.usesLocal, himplied])
      simp [hn]

/-- The shape checks accept the legal bodies and no others. -/
theorem checkShapes_eq_ok_iff_isLegal :
    b.checkShapes k = .ok () ↔ b.IsLegal k := by
  rw [checkShapes_eq_ok_iff]
  constructor
  · rintro ⟨hown, hholds, hpoints⟩
    have hall := fun i hi => holds_iff.1 (hholds i hi)
    exact ⟨hown, fun i hi => (hall i hi).1, fun i hi => (hall i hi).2.1,
      fun i hi => (hall i hi).2.2.1, fun i hi => (hall i hi).2.2.2.1,
      fun i hi => (hall i hi).2.2.2.2, hpoints⟩
  · intro h
    exact ⟨h.ownLabels, fun i hi => holds_iff.2
      ⟨h.valid i hi, h.operand i hi, h.arg i hi, h.slot i hi, h.target i hi⟩,
      h.point⟩

end Body

namespace MethodDef

/-- A method is accepted iff its code passes both checks. -/
theorem validate_eq_ok_iff {m : MethodDef} {name : String} {b : Body} :
    m.validate name b = .ok () ↔
      b.checkShapes m.argCount = .ok () ∧
        b.checkStack m.returnsVoid = .ok () := by
  rw [validate]
  cases b.checkShapes m.argCount <;> cases b.checkStack m.returnsVoid <;>
    simp [bind, Except.bind, Except.mapError]

/-- A method is accepted iff its body is legal and the stack has one height
everywhere. -/
theorem validate_iff_legal (m : MethodDef) (name : String) (b : Body) :
    m.validate name b = .ok () ↔
      b.IsLegal m.argCount ∧ b.checkStack m.returnsVoid = .ok () := by
  rw [validate_eq_ok_iff, Body.checkShapes_eq_ok_iff_isLegal]

/-- A body that loads the argument below the first one and the token of
nothing. -/
def straying : Body where
  code := [⟨0, .ldarg, .arg (-1)⟩, ⟨1, .pop, .none⟩,
    ⟨2, .ldtoken, .type .absent⟩, ⟨3, .pop, .none⟩, ⟨4, .ret, .none⟩]

/-- A body is accepted that has an argument below zero and refers to no type. -/
theorem validate_strays :
    ({ name := "M", ret := .void } : MethodDef).validate "T::M" straying =
        .ok () ∧
      (∃ i ∈ straying.code, ∃ a, i.argIndex? = some a ∧ ¬ 0 ≤ a) ∧
      ∃ i ∈ straying.code, i.operand = .type .absent := by
  refine ⟨rfl, ?_, ?_⟩
  · exact ⟨⟨0, .ldarg, .arg (-1)⟩, by simp [straying], -1, rfl, by decide⟩
  · exact ⟨⟨2, .ldtoken, .type .absent⟩, by simp [straying], rfl⟩

end MethodDef

end JobWeave
