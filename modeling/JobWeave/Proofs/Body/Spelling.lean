import Mathlib
import JobWeave.Body.Spelling
import JobWeave.Proofs.Body.Parallel

/-!
# Spellings

An operation has up to three spellings: a macro with the operand in the opcode,
a short form, and a long form with an operand of its own.  `simplify` and
`optimize` only go from one spelling to another, so whatever reads code through
the queries for its arguments, variables and constants finds the same before and
after, and the stack check does too.

Both are shown to do so through one table.  `Opcode.spelled?` gives the long
form of every macro; `simplify` reads it from left to right and `optimize` from
right to left.

* `Body.Respells`: two instructions are spellings of one operation.
* `Body.simplifyInstr_eq`, `Body.exists_folds`: what happens to one instruction,
  by the table.
* `Body.simplify_optimize`, `Body.simplify_simplify`, `Body.optimize_optimize`:
  the long spelling is one for all spellings, and both forms are kept once they
  are reached.
* `MethodDef.respelling`: an accepted method in its two forms.
-/

namespace JobWeave

/-! ## The table -/

namespace Opcode

/-- The long form of a macro, with the operand that the macro implies. -/
def spelled? : Opcode → Option Step
  | .ldarg0 => some (.ldarg, .arg 0)
  | .ldarg1 => some (.ldarg, .arg 1)
  | .ldarg2 => some (.ldarg, .arg 2)
  | .ldarg3 => some (.ldarg, .arg 3)
  | .ldloc0 => some (.ldloc, .slot (.slot 0))
  | .ldloc1 => some (.ldloc, .slot (.slot 1))
  | .ldloc2 => some (.ldloc, .slot (.slot 2))
  | .ldloc3 => some (.ldloc, .slot (.slot 3))
  | .stloc0 => some (.stloc, .slot (.slot 0))
  | .stloc1 => some (.stloc, .slot (.slot 1))
  | .stloc2 => some (.stloc, .slot (.slot 2))
  | .stloc3 => some (.stloc, .slot (.slot 3))
  | .ldcI4M1 => some (.ldcI4, .int32 (-1))
  | .ldcI40 => some (.ldcI4, .int32 0)
  | .ldcI41 => some (.ldcI4, .int32 1)
  | .ldcI42 => some (.ldcI4, .int32 2)
  | .ldcI43 => some (.ldcI4, .int32 3)
  | .ldcI44 => some (.ldcI4, .int32 4)
  | .ldcI45 => some (.ldcI4, .int32 5)
  | .ldcI46 => some (.ldcI4, .int32 6)
  | .ldcI47 => some (.ldcI4, .int32 7)
  | .ldcI48 => some (.ldcI4, .int32 8)
  | _ => none

/-- The operand is implied by the opcode. -/
def isMacro (op : Opcode) : Bool :=
  op.spelled?.isSome

variable {op : Opcode} {s : Step}

theorem isMacro_eq_false : op.isMacro = false ↔ op.spelled? = none := by
  rw [isMacro, Option.isSome_eq_false_iff, Option.isNone_iff_eq_none]

theorem long_long (op : Opcode) : op.long.long = op.long := by
  cases op <;> rfl

/-- No long form has a short encoding. -/
theorem short_long (op : Opcode) : op.long.info.short = false := by
  cases op <;> rfl

theorem isMacro_long (op : Opcode) : op.long.isMacro = op.isMacro := by
  cases op <;> rfl

theorem isValid_long (op : Opcode) : op.long.isValid = op.isValid := by
  cases op <;> rfl

theorem operand_long (op : Opcode) :
    op.long.info.operand = op.info.operand := by
  cases op <;> rfl

theorem usesLocal_long (op : Opcode) : op.long.usesLocal = op.usesLocal := by
  cases op <;> rfl

/-- What the table says of a macro and of its long form. -/
structure Spells (op : Opcode) (s : Step) : Prop where
  /-- the macro is known -/
  isValid : op.isValid
  /-- it has no operand -/
  operand : op.info.operand = .none
  /-- the other form is long -/
  long : s.1.long = s.1
  /-- it is no macro -/
  isMacro : s.1.isMacro = false
  /-- it is known -/
  longValid : s.1.isValid
  /-- it has the operand that it takes -/
  takes : s.1.info.operand.Takes s.2
  /-- both use a variable, or neither does -/
  usesLocal : s.1.usesLocal = op.usesLocal

theorem spells (h : op.spelled? = some s) : op.Spells s := by
  cases op <;> first | (cases h; done) | (cases h; exact ⟨rfl, rfl, rfl, rfl,
    rfl, trivial, rfl⟩)

/-- The opcode some places on is the one with that number. -/
theorem after_eq (op' : Opcode) {n : Int} (hvalid : op'.isValid)
    (h : op.number + UInt16.ofInt n = op'.number) : op.after n = op' := by
  rw [after, h, ofNumber_number op' hvalid]

theorem after_ldarg0 {n : Int} (h₀ : 0 ≤ n) (h₃ : n ≤ 3) :
    (Opcode.ldarg0.after n).spelled? = some (.ldarg, .arg n) := by
  obtain rfl | rfl | rfl | rfl : n = 0 ∨ n = 1 ∨ n = 2 ∨ n = 3 := by omega
  · rw [after_eq .ldarg0 rfl rfl]; rfl
  · rw [after_eq .ldarg1 rfl rfl]; rfl
  · rw [after_eq .ldarg2 rfl rfl]; rfl
  · rw [after_eq .ldarg3 rfl rfl]; rfl

theorem after_ldloc0 {n : Nat} (h₃ : n ≤ 3) :
    (Opcode.ldloc0.after n).spelled? = some (.ldloc, .slot (.slot n)) := by
  obtain rfl | rfl | rfl | rfl : n = 0 ∨ n = 1 ∨ n = 2 ∨ n = 3 := by omega
  · rw [after_eq .ldloc0 rfl rfl]; rfl
  · rw [after_eq .ldloc1 rfl rfl]; rfl
  · rw [after_eq .ldloc2 rfl rfl]; rfl
  · rw [after_eq .ldloc3 rfl rfl]; rfl

theorem after_stloc0 {n : Nat} (h₃ : n ≤ 3) :
    (Opcode.stloc0.after n).spelled? = some (.stloc, .slot (.slot n)) := by
  obtain rfl | rfl | rfl | rfl : n = 0 ∨ n = 1 ∨ n = 2 ∨ n = 3 := by omega
  · rw [after_eq .stloc0 rfl rfl]; rfl
  · rw [after_eq .stloc1 rfl rfl]; rfl
  · rw [after_eq .stloc2 rfl rfl]; rfl
  · rw [after_eq .stloc3 rfl rfl]; rfl

theorem after_ldcI40 {v : Int32} (h₀ : 0 ≤ v) (h₈ : v ≤ 8) :
    (Opcode.ldcI40.after v.toInt).spelled? = some (.ldcI4, .int32 v) := by
  have hlow : 0 ≤ v.toInt := Int32.le_iff_toInt_le.1 h₀
  have hhigh : v.toInt ≤ 8 := Int32.le_iff_toInt_le.1 h₈
  obtain ⟨n, hn⟩ : ∃ n, v.toInt = n := ⟨_, rfl⟩
  have hv : v = Int32.ofInt n := by rw [← hn, Int32.ofInt_toInt]
  rw [hn] at hlow hhigh
  rw [hv]
  obtain rfl | rfl | rfl | rfl | rfl | rfl | rfl | rfl | rfl :
    n = 0 ∨ n = 1 ∨ n = 2 ∨ n = 3 ∨ n = 4 ∨ n = 5 ∨ n = 6 ∨ n = 7 ∨ n = 8 :=
    by omega
  · rw [after_eq .ldcI40 rfl rfl]; rfl
  · rw [after_eq .ldcI41 rfl rfl]; rfl
  · rw [after_eq .ldcI42 rfl rfl]; rfl
  · rw [after_eq .ldcI43 rfl rfl]; rfl
  · rw [after_eq .ldcI44 rfl rfl]; rfl
  · rw [after_eq .ldcI45 rfl rfl]; rfl
  · rw [after_eq .ldcI46 rfl rfl]; rfl
  · rw [after_eq .ldcI47 rfl rfl]; rfl
  · rw [after_eq .ldcI48 rfl rfl]; rfl

end Opcode

namespace Body

variable {b b' : Body} {i j : Instr} {k : Nat} {s : Step} {op : Opcode}

/-! ## Spellings of one operation -/

/-- Whatever is asked about the second instruction has the answer that the first
one gives. -/
structure Respells (b : Body) (i j : Instr) : Prop where
  /-- it is the same instruction -/
  label : j.label = i.label
  /-- it takes and leaves as many values -/
  effect : ∀ returnsVoid, j.effect? returnsVoid = i.effect? returnsVoid
  /-- it means the same argument -/
  argIndex : j.argIndex? = i.argIndex?
  /-- it means the same variable -/
  localOf : b.localOf? j = b.localOf? i
  /-- it loads the same constant -/
  int32 : j.int32? = i.int32?
  /-- control goes on in the same way -/
  flow : j.op.flow = i.op.flow
  /-- it has the same targets -/
  targets : j.operand.labels = i.operand.labels
  /-- it is a return as well, or neither is -/
  isRet : j.op = .ret ↔ i.op = .ret
  /-- it empties the stack as well, or neither does -/
  isLeave : j.op = .leave ∨ j.op = .leaveS ↔ i.op = .leave ∨ i.op = .leaveS

namespace Respells

theorem refl (b : Body) (i : Instr) : b.Respells i i :=
  ⟨rfl, fun _ => rfl, rfl, rfl, rfl, rfl, rfl, Iff.rfl, Iff.rfl⟩

theorem symm (h : b.Respells i j) : b.Respells j i :=
  ⟨h.label.symm, fun r => (h.effect r).symm, h.argIndex.symm, h.localOf.symm,
    h.int32.symm, h.flow.symm, h.targets.symm, h.isRet.symm, h.isLeave.symm⟩

theorem trans {j' : Instr} (h : b.Respells i j) (h' : b.Respells j j') :
    b.Respells i j' :=
  ⟨h'.label.trans h.label, fun r => (h'.effect r).trans (h.effect r),
    h'.argIndex.trans h.argIndex, h'.localOf.trans h.localOf,
    h'.int32.trans h.int32, h'.flow.trans h.flow, h'.targets.trans h.targets,
    h'.isRet.trans h.isRet, h'.isLeave.trans h.isLeave⟩

/-- Two spellings run with the same stack. -/
theorem parallel (h : b.Respells i j) (returnsVoid : Bool) :
    i.Parallel returnsVoid j where
  label := h.label
  effect := h.effect returnsVoid
  goesOn := by simp only [Opcode.goesOn, h.flow]
  isBranch := by simp only [Opcode.isBranch, h.flow]
  targets _ := h.targets
  isRet := h.isRet
  isLeave := h.isLeave

end Respells

/-- The short and the long form of an opcode are spellings of one. -/
theorem respells_long (b : Body) (i : Instr) :
    b.Respells i { i with op := i.op.long } := by
  obtain ⟨label, op, o⟩ := i
  cases op <;>
    exact ⟨rfl, fun _ => rfl, rfl, rfl, rfl, rfl, rfl,
      by simp [Opcode.long], by simp [Opcode.long]⟩

/-- A macro and its long form are spellings of one operation where the variable
is there. -/
theorem respells_spelled (h : i.op.spelled? = some s) (ho : i.operand = .none)
    (hslot : ∀ n, s.2 = .slot (.slot n) → n < b.locals.length) :
    b.Respells i (i.become s.1 s.2) := by
  obtain ⟨label, op, o⟩ := i
  cases ho
  cases op <;> first
    | (cases h; done)
    | (cases h
       have hlt := hslot _ rfl
       exact ⟨rfl, fun _ => rfl, rfl,
         by simp [Instr.become, localOf?, slot?, hlt], rfl, rfl, rfl,
        by simp [Instr.become], by simp [Instr.become]⟩)
    | (cases h
       exact ⟨rfl, fun _ => rfl, rfl, rfl, rfl, rfl, rfl,
         by simp [Instr.become],
        by simp [Instr.become]⟩)

/-- A spelling of an instruction that is in shape is in shape if its operand
is. -/
theorem Holds.of_respells (h : b.Holds k i) (hij : b.Respells i j)
    (hvalid : j.op.isValid) (htakes : j.op.info.operand.Takes j.operand)
    (hlocal : j.op.usesLocal → i.op.usesLocal) : b.Holds k j := by
  refine holds_iff.2 ⟨hvalid, htakes, fun huses => ?_, fun huses => ?_, ?_⟩
  · obtain ⟨a, ha⟩ := exists_argIndex htakes huses
    exact ⟨a, ha, h.arg a (hij.argIndex.symm.trans ha)⟩
  · rw [hij.localOf]
    exact h.exists_localOf (hlocal huses)
  · rw [hij.targets]
    exact (holds_iff.1 h).2.2.2.2

/-! ## One instruction -/

/-- A macro in a body has no operand, and the variable that it means is
there. -/
theorem Holds.of_spelled (h : b.Holds k i) (hs : i.op.spelled? = some s) :
    i.operand = .none ∧ ∀ n, s.2 = .slot (.slot n) → n < b.locals.length := by
  obtain ⟨label, op, o⟩ := i
  have htakes := (holds_iff.1 h).2.1
  have ho : o = .none := by
    rw [(Opcode.spells hs).operand] at htakes
    cases o <;> first | rfl | cases htakes
  refine ⟨ho, fun n hn => ?_⟩
  have hsome : op.usesLocal → (b.localOf? ⟨label, op, o⟩).isSome :=
    fun huses => by
    obtain ⟨_, -, hl⟩ := h.exists_localOf huses
    simp [hl]
  cases op <;> first
    | (cases hs; done)
    | (cases hs; cases hn; done)
    | (cases hs
       cases hn
       simpa [localOf?, slot?] using hsome rfl)

/-- Spelling out an instruction puts the long form of a macro, or else of a
short form. -/
theorem simplifyInstr_eq (h : b.Holds k i) :
    b.simplifyInstr i = (i.op.spelled?.map fun s => i.become s.1 s.2).getD
      { i with op := i.op.long } := by
  obtain ⟨label, op, o⟩ := i
  cases hs : op.spelled? with
  | none => cases op <;> first | rfl | cases hs
  | some s =>
    obtain ⟨-, hslot⟩ := h.of_spelled hs
    cases op <;> first
      | (cases hs; done)
      | (cases hs
         have hlt := hslot _ rfl
         simp [simplifyInstr, localOf?, slot?, hlt])
      | (cases hs; rfl)

/-- What folding makes of an instruction: itself, or the macro whose long form
it has. -/
inductive Folds (i : Instr) : Instr → Prop where
  /-- there is no macro for it -/
  | same : Folds i i
  /-- there is one -/
  | folded {op : Opcode} (h : op.spelled? = some (i.op.long, i.operand))
    (hlong : i.op.isMacro = false) : Folds i (i.become op .none)

/-- Accesses to the first variables are folded. -/
theorem folds_foldSlot? {first : Opcode} {n : Nat}
    (hlong : i.op.isMacro = false)
    (hfirst : n ≤ 3 → (first.after n).spelled? = some (i.op.long, i.operand)) :
    ∃ j, b.foldSlot? i first (.slot n) = some j ∧ Folds i j := by
  unfold foldSlot?
  dsimp only
  split
  · rename_i hn
    exact ⟨_, rfl, .folded (hfirst hn.1) hlong⟩
  · exact ⟨_, rfl, .same⟩

/-- An instruction that is in shape, of an argument that is not below zero, is
folded or kept. -/
theorem exists_folds (h : b.Holds k i)
    (harg : ∀ n, i.argIndex? = some n → 0 ≤ n) :
    ∃ j, b.optimizeInstr? i = some j ∧ Folds i j := by
  have hslot : ∀ l, i.operand = .slot l → ∃ n, l = .slot n := fun l hl => by
    obtain ⟨n, -, hn⟩ := (checkOperand_eq_ok_iff.1 h.operand).2.1 l hl
    exact ⟨n, hn⟩
  unfold optimizeInstr?
  split
  case h_1 n hop ho | h_2 n hop ho =>
    have hn : 0 ≤ n := harg n (by simp [Instr.argIndex?, hop, ho])
    split
    · refine ⟨_, rfl, .folded ?_ (by rw [hop]; rfl)⟩
      rw [hop, ho]
      exact Opcode.after_ldarg0 hn ‹_›
    · exact ⟨_, rfl, .same⟩
  case h_3 l hop ho | h_4 l hop ho =>
    obtain ⟨n, rfl⟩ := hslot l ho
    refine folds_foldSlot? (by rw [hop]; rfl) fun hn => ?_
    rw [hop, ho]
    exact Opcode.after_ldloc0 hn
  case h_5 l hop ho | h_6 l hop ho =>
    obtain ⟨n, rfl⟩ := hslot l ho
    refine folds_foldSlot? (by rw [hop]; rfl) fun hn => ?_
    rw [hop, ho]
    exact Opcode.after_stloc0 hn
  case h_7 v hop ho | h_8 v hop ho =>
    have hlong : i.op.isMacro = false := by
      rw [hop]
      rfl
    split
    · rename_i hv
      refine ⟨_, rfl, .folded ?_ hlong⟩
      rw [hop, ho, hv]
      rfl
    · split
      · rename_i hv
        refine ⟨_, rfl, .folded ?_ hlong⟩
        rw [hop, ho]
        exact Opcode.after_ldcI40 hv.1 hv.2
      · exact ⟨_, rfl, .same⟩
  case h_9 => exact ⟨_, rfl, .same⟩

/-! ### Spelled out -/

/-- An instruction that is spelled out is a spelling of the one that it was. -/
theorem respells_simplifyInstr (h : b.Holds k i) :
    b.Respells i (b.simplifyInstr i) := by
  rw [simplifyInstr_eq h]
  cases hs : i.op.spelled? with
  | none => exact respells_long b i
  | some s => exact respells_spelled hs (h.of_spelled hs).1 (h.of_spelled hs).2

theorem holds_simplifyInstr (h : b.Holds k i) :
    b.Holds k (b.simplifyInstr i) := by
  have hrespells := respells_simplifyInstr h
  obtain ⟨hvalid, htakes, -⟩ := holds_iff.1 h
  rw [simplifyInstr_eq h] at hrespells ⊢
  cases hs : i.op.spelled? with
  | none =>
    rw [hs] at hrespells
    refine h.of_respells hrespells (i.op.isValid_long ▸ hvalid) ?_
      (i.op.usesLocal_long ▸ id)
    change i.op.long.info.operand.Takes i.operand
    rwa [i.op.operand_long]
  | some s =>
    have hspells := Opcode.spells hs
    rw [hs] at hrespells
    exact h.of_respells hrespells hspells.longValid hspells.takes
      (hspells.usesLocal ▸ id)

/-- An instruction that is spelled out has a long form. -/
theorem isLong_simplifyInstr (h : b.Holds k i) :
    (b.simplifyInstr i).op.long = (b.simplifyInstr i).op ∧
      (b.simplifyInstr i).op.isMacro = false := by
  rw [simplifyInstr_eq h]
  cases hs : i.op.spelled? with
  | none =>
    exact ⟨i.op.long_long, i.op.isMacro_long.trans
      (Opcode.isMacro_eq_false.2 hs)⟩
  | some s => exact ⟨(Opcode.spells hs).long, (Opcode.spells hs).isMacro⟩

/-- What has a long form is spelled out. -/
theorem simplifyInstr_of_isLong (h : b.Holds k i) (hlong : i.op.long = i.op)
    (hspelled : i.op.isMacro = false) : b.simplifyInstr i = i := by
  rw [simplifyInstr_eq h, Opcode.isMacro_eq_false.1 hspelled]
  change { i with op := i.op.long } = i
  rw [hlong]

/-! ### Folded -/

theorem respells_of_folds (h : b.Holds k i) (hfold : Folds i j) :
    b.Respells i j := by
  cases hfold with
  | same =>
    exact .refl b i
  | @folded op hs _ =>
    -- both have the same long form
    refine (respells_long b i).trans (respells_spelled (i := i.become op .none)
      hs rfl ?_).symm
    intro n hn
    obtain ⟨_, hlt, hslot⟩ := (checkOperand_eq_ok_iff.1 h.operand).2.1 _ hn
    cases hslot
    exact hlt

theorem holds_of_folds (h : b.Holds k i) (hfold : Folds i j) : b.Holds k j := by
  have hrespells := respells_of_folds h hfold
  cases hfold with
  | same =>
    exact h
  | @folded op hs _ =>
    have hspells := Opcode.spells hs
    refine h.of_respells hrespells hspells.isValid ?_ fun huses => ?_
    · change op.info.operand.Takes .none
      rw [hspells.operand]
      trivial
    · rw [← i.op.usesLocal_long, hspells.usesLocal]
      exact huses

/-- Folded or not, an instruction is spelled out in the same way. -/
theorem simplifyInstr_of_folds (h : b.Holds k i) (hfold : Folds i j) :
    b.simplifyInstr j = b.simplifyInstr i := by
  have hholds := holds_of_folds h hfold
  cases hfold with
  | same =>
    rfl
  | @folded op hs hlong =>
    rw [simplifyInstr_eq hholds, simplifyInstr_eq h,
      Opcode.isMacro_eq_false.1 hlong]
    change ((op.spelled?.map _).getD _ : Instr) = _
    rw [hs]
    rfl

/-- What is folded once is folded. -/
theorem optimizeInstr?_of_folds (hfold : b.optimizeInstr? i = some j)
    (h : Folds i j) :
    b.optimizeInstr? j = some j := by
  cases h with
  | same =>
    exact hfold
  | @folded op hs _ =>
    unfold optimizeInstr?
    split <;> first | rfl | simp_all [Instr.become]

/-! ## Bodies -/

/-- The instructions are in shape, and the arguments that they mean are not
below zero. -/
structure IsUsable (b : Body) (k : Nat) : Prop where
  /-- the instructions are in shape -/
  holds : ∀ i ∈ b.code, b.Holds k i
  /-- the arguments are not below zero -/
  arg : ∀ i ∈ b.code, ∀ n, i.argIndex? = some n → 0 ≤ n

/-- The second body is the first one with other spellings, all of them in
shape. -/
structure Respelled (b : Body) (k : Nat) (b' : Body) : Prop where
  /-- the variables -/
  locals : b'.locals = b.locals
  /-- the source positions -/
  points : b'.points = b.points
  /-- the instructions -/
  code : List.Forall₂ (fun i j => b.Respells i j ∧ b.Holds k j) b.code b'.code

/-- A body in which every instruction gets another spelling. -/
theorem respelled_map {f : Instr → Instr}
    (h : ∀ i ∈ b.code, b.Respells i (f i) ∧ b.Holds k (f i)) :
    b.Respelled k { b with code := b.code.map f } := by
  refine ⟨rfl, rfl, ?_⟩
  rw [List.forall₂_map_right_iff, List.forall₂_same]
  exact h

namespace Respelled

theorem parallel (h : b.Respelled k b') (returnsVoid : Bool) :
    b.Parallel returnsVoid b' :=
  h.code.imp fun _ _ hij => hij.1.parallel returnsVoid

theorem respells (h : b.Respelled k b') :
    List.Forall₂ b.Respells b.code b'.code :=
  h.code.imp fun _ _ => And.left

/-- Every instruction is a spelling of one of the body. -/
theorem exists_of_mem (h : b.Respelled k b') (hj : j ∈ b'.code) :
    ∃ i ∈ b.code, b.Respells i j ∧ b.Holds k j := by
  obtain ⟨n, hn⟩ := List.mem_iff_getElem?.1 hj
  obtain ⟨i, hi, -⟩ := (h.parallel true).symm.get hn
  obtain ⟨hlt, rfl⟩ := List.getElem?_eq_some_iff.1 hi
  obtain ⟨hlt', rfl⟩ := List.getElem?_eq_some_iff.1 hn
  exact ⟨_, List.getElem_mem hlt, List.Forall₂.get h.code hlt hlt'⟩

theorem isUsable (h : b.Respelled k b') (hb : b.IsUsable k) :
    b'.IsUsable k := by
  constructor
  · intro j hj
    obtain ⟨i, -, -, hholds⟩ := h.exists_of_mem hj
    exact hholds.congr (by rw [h.locals]) (h.parallel true).contains
  · intro j hj n hn
    obtain ⟨i, hi, hij, -⟩ := h.exists_of_mem hj
    exact hb.arg i hi n (hij.argIndex.symm.trans hn)

end Respelled

/-- A body spelled out has the same operations. -/
theorem respelled_simplify (hb : b.IsUsable k) : b.Respelled k b.simplify :=
  respelled_map fun i hi => ⟨respells_simplifyInstr (hb.holds i hi),
    holds_simplifyInstr (hb.holds i hi)⟩

/-- Folding is done at every instruction. -/
theorem optimize_eq (hb : b.IsUsable k) :
    b.optimize =
      ({ b with code := b.code.map fun i => (b.optimizeInstr? i).getD i },
        true) := by
  have hsome : ∀ i ∈ b.code, (b.optimizeInstr? i).isSome = true := by
    intro i hi
    obtain ⟨j, hj, -⟩ := exists_folds (hb.holds i hi) (hb.arg i hi)
    rw [hj]
    rfl
  have hreached : (b.code.takeWhile fun i => (b.optimizeInstr? i).isSome) =
      b.code :=
    List.takeWhile_eq_self_iff.2 hsome
  have hcode : (b.code.map fun i => if b.code.any (·.label == i.label) = true
      then (b.optimizeInstr? i).getD i else i) =
        b.code.map fun i => (b.optimizeInstr? i).getD i := by
    refine List.map_congr_left fun i hi => if_pos ?_
    exact List.any_eq_true.2 ⟨i, hi, beq_self_eq_true _⟩
  simp only [optimize, hreached, hcode, beq_self_eq_true]

/-- A folded body has the same operations. -/
theorem respelled_optimize (hb : b.IsUsable k) :
    b.Respelled k b.optimize.1 := by
  rw [optimize_eq hb]
  refine respelled_map fun i hi => ?_
  obtain ⟨j, hj, hfold⟩ := exists_folds (hb.holds i hi) (hb.arg i hi)
  rw [hj]
  exact ⟨respells_of_folds (hb.holds i hi) hfold,
    holds_of_folds (hb.holds i hi) hfold⟩

/-- A body that is spelled out stays so. -/
theorem simplify_simplify (hb : b.IsUsable k) :
    b.simplify.simplify = b.simplify := by
  have hcode : (b.code.map b.simplifyInstr).map b.simplifyInstr =
      b.code.map b.simplifyInstr := by
    rw [List.map_map]
    refine List.map_congr_left fun i hi => ?_
    have hlong := isLong_simplifyInstr (hb.holds i hi)
    exact simplifyInstr_of_isLong (holds_simplifyInstr (hb.holds i hi))
      hlong.1 hlong.2
  exact congrArg (fun code => { b with code }) hcode

/-- A body is spelled out in one way, folded or not. -/
theorem simplify_optimize (hb : b.IsUsable k) :
    b.optimize.1.simplify = b.simplify := by
  rw [optimize_eq hb]
  have hcode : (b.code.map fun i => (b.optimizeInstr? i).getD i).map
    b.simplifyInstr =
      b.code.map b.simplifyInstr := by
    rw [List.map_map]
    refine List.map_congr_left fun i hi => ?_
    obtain ⟨j, hj, hfold⟩ := exists_folds (hb.holds i hi) (hb.arg i hi)
    rw [Function.comp_apply, hj]
    exact simplifyInstr_of_folds (hb.holds i hi) hfold
  exact congrArg (fun code => { b with code }) hcode

/-- A folded body stays so. -/
theorem optimize_optimize (hb : b.IsUsable k) :
    b.optimize.1.optimize = (b.optimize.1, true) := by
  rw [optimize_eq ((respelled_optimize hb).isUsable hb), optimize_eq hb]
  have hcode : (b.code.map fun i => (b.optimizeInstr? i).getD i).map
      (fun i => (b.optimizeInstr? i).getD i) = b.code.map
        fun i => (b.optimizeInstr? i).getD i := by
    rw [List.map_map]
    refine List.map_congr_left fun i hi => ?_
    obtain ⟨j, hj, hfold⟩ := exists_folds (hb.holds i hi) (hb.arg i hi)
    rw [Function.comp_apply, hj]
    change (b.optimizeInstr? j).getD j = j
    rw [optimizeInstr?_of_folds hj hfold]
    rfl
  exact congrArg (fun code => ({ b with code }, true)) hcode

end Body

namespace MethodDef

variable {m : MethodDef} {name : String} {b : Body}

/-- An accepted method in its two forms.  Both have the same operations in the
same order, and both are accepted.  The long form of either is the long form of
the method, no more is folded or spelled out the second time, and in the long
form no operand is implied and no encoding is short. -/
theorem respelling (hvalid : m.validate name b = .ok ())
    (harg : ∀ i ∈ b.code, ∀ n, i.argIndex? = some n → 0 ≤ n) :
    (List.Forall₂ b.Respells b.code b.simplify.code ∧
      b.simplify.locals = b.locals ∧ m.validate name b.simplify = .ok () ∧
      b.simplify.simplify = b.simplify ∧
      ∀ i ∈ b.simplify.code, i.op.info.short = false ∧ i.op.isMacro = false) ∧
    (b.optimize.2 = true ∧ List.Forall₂ b.Respells b.code b.optimize.1.code ∧
      b.optimize.1.locals = b.locals ∧ m.validate name b.optimize.1 = .ok () ∧
      b.optimize.1.optimize = (b.optimize.1, true)) ∧
    b.simplify.optimize.1.simplify = b.simplify := by
  have hb : b.IsUsable m.argCount :=
    ⟨(Body.checkShapes_eq_ok_iff.1 (validate_eq_ok_iff.1 hvalid).1).2.1, harg⟩
  have hsimplified := Body.respelled_simplify hb
  have hoptimized := Body.respelled_optimize hb
  have hvalidated : ∀ {b' : Body}, b.Respelled m.argCount b' →
      m.validate name b' = .ok () :=
    fun h => validate_of_parallel hvalid (h.parallel _) (h.isUsable hb).holds
      h.points
  refine ⟨⟨hsimplified.respells, rfl, hvalidated hsimplified,
      Body.simplify_simplify hb, ?_⟩,
    ⟨by rw [Body.optimize_eq hb], hoptimized.respells, hoptimized.locals,
      hvalidated hoptimized, Body.optimize_optimize hb⟩, ?_⟩
  · intro j hj
    obtain ⟨i, hi, rfl⟩ := List.mem_map.1 hj
    have hlong := Body.isLong_simplifyInstr (hb.holds i hi)
    exact ⟨hlong.1 ▸ Opcode.short_long _, hlong.2⟩
  · rw [Body.simplify_optimize (hsimplified.isUsable hb),
      Body.simplify_simplify hb]

/-- A method that folds: it has the short and the long forms next to the macros,
with the constants and the arguments on both sides of where the macros end. -/
def spellings : Body where
  code := [⟨0, .ldarg, .arg 3⟩, ⟨1, .pop, .none⟩, ⟨2, .ldargS, .arg 4⟩,
    ⟨3, .brfalseS, .target 6⟩, ⟨4, .ldcI4S, .int32 9⟩,
    ⟨5, .stlocS, .slot (.slot 0)⟩, ⟨6, .ldcI4, .int32 8⟩, ⟨7, .stloc0, .none⟩,
    ⟨8, .ldcI4, .int32 (-1)⟩, ⟨9, .stloc, .slot (.slot 0)⟩, ⟨10, .ret, .none⟩]
  locals := [⟨.int32, ""⟩]

/-- It is accepted, so it is so in both forms. -/
theorem respelling_spellings :
    let m : MethodDef :=
      { name := "M", ret := .void,
        params := List.replicate 4 ⟨"", .int32, 0, []⟩ }
    m.validate "T::M" spellings = .ok () ∧
    m.validate "T::M" spellings.simplify = .ok () ∧
      m.validate "T::M" spellings.optimize.1 = .ok () ∧
      spellings.simplify.optimize.1.simplify = spellings.simplify := by
  intro m
  have hvalid : m.validate "T::M" spellings = .ok () := by
    decide +kernel
  have hforms := respelling hvalid (by decide +kernel)
  exact ⟨hvalid, hforms.1.2.2.1, hforms.2.1.2.2.2.1, hforms.2.2⟩

end MethodDef

end JobWeave
