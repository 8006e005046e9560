import Mathlib
import JobWeave.Emitter
import JobWeave.Proofs.Body.Heights

/-!
# Straight code

Most of the code that the pass makes has no branches.  Whether such code is
valid can be read off from its steps, before they have labels: each must be able
to stand in the method, and a run from an empty stack must leave an empty one.

* `Step.heightAfter?` runs over some steps and gives the height of the stack
  behind them, if each step can stand there and finds its values.
* `MethodDef.validate_of_straight` says that the checks pass on a method whose
  code is such a run and one return.
-/

namespace JobWeave

/-- Some step, whatever label it gets. -/
def Step.instr (s : Step) : Instr :=
  { label := 0, op := s.1, operand := s.2 }

/-- The step can stand in a method with `k` arguments and no local variables,
and control goes on to the step after it. -/
def Step.isPlain (k : Nat) (s : Step) : Bool :=
  s.1.isValid && !Body.isSlotMacro s.1 &&
    (s.1.flow == .next || s.1.flow == .call || s.1.flow == .modifier) &&
    (({} : Body).checkOperand s.instr).isOk &&
      s.instr.argIndex?.all (· < (k : Int))

/-- The height of the stack behind a step, if it can stand there and finds its
values. -/
def Step.after? (k : Nat) (h : Int) (s : Step) : Option Int := do
  let e ← s.instr.effect? true
  if s.isPlain k && e.pops ≤ h then some (h - e.pops + e.pushes) else none

/-- The height of the stack behind some steps. -/
def Step.heightAfter? (k : Nat) (h : Int) (ss : List Step) : Option Int :=
  ss.foldlM (Step.after? k) h

/-- The steps of a body. -/
def Body.steps (b : Body) : List Step :=
  b.code.map fun i => (i.op, i.operand)

theorem Body.steps_labelled (b : Body) (ss : List Step) :
    (b.labelled ss).map (fun i => (i.op, i.operand)) = ss := by
  refine List.ext_getElem (by simp [labelled]) fun n h₁ h₂ => ?_
  simp [labelled]

namespace Step

variable {k : Nat} {h h' n : Int} {s : Step} {ss : List Step} {e : StackEffect}

@[simp]
theorem heightAfter?_nil : heightAfter? k h [] = some h := by
  rw [heightAfter?, List.foldlM_nil]
  rfl

theorem heightAfter?_cons :
    heightAfter? k h (s :: ss) = (after? k h s).bind fun h' => heightAfter? k h'
      ss := by
  rw [heightAfter?, List.foldlM_cons]
  rfl

theorem heightAfter?_append (xs ys : List Step) :
    heightAfter? k h (xs ++ ys) = (heightAfter? k h xs).bind
      fun h' => heightAfter? k h' ys := by
  rw [heightAfter?, List.foldlM_append]
  rfl

theorem after?_eq_some :
    after? k h s = some h' ↔
      ∃ e, s.instr.effect? true = some e ∧ s.isPlain k ∧ e.pops ≤ h ∧
        h' = h - e.pops + e.pushes := by
  rw [after?, Option.bind_eq_bind, Option.bind_eq_some_iff]
  refine exists_congr fun e => and_congr_right fun _ => ?_
  rw [Option.ite_none_right_eq_some, Bool.and_eq_true, decide_eq_true_eq,
    and_assoc, Option.some.injEq, eq_comm (a := h')]

/-- A step whose effect is known. -/
theorem after?_eq (he : s.instr.effect? true = some e) (hs : s.isPlain k) :
    after? k h s = if e.pops ≤ h then some (h + e.net) else none := by
  have hnet : h - e.pops + e.pushes = h + e.net := by
    rw [StackEffect.net]
    omega
  simp [after?, he, hs, hnet]

/-- More values below do not matter. -/
theorem heightAfter?_add (hn : 0 ≤ n) (hss : heightAfter? k h ss = some h') :
    heightAfter? k (h + n) ss = some (h' + n) := by
  induction ss generalizing h with
  | nil => simpa using hss
  | cons s ss ih =>
    rw [heightAfter?_cons, Option.bind_eq_some_iff] at hss ⊢
    obtain ⟨x, hx, hss⟩ := hss
    obtain ⟨e, he, hs, hle, rfl⟩ := after?_eq_some.1 hx
    exact ⟨_, after?_eq_some.2 ⟨e, he, hs, by omega, by omega⟩, ih hss⟩

/-- Parts that leave the height as it was. -/
theorem heightAfter?_flatten {parts : List (List Step)}
    (hparts : ∀ ss ∈ parts, heightAfter? k h ss = some h) :
    heightAfter? k h parts.flatten = some h := by
  induction parts with
  | nil => rfl
  | cons ss parts ih =>
    obtain ⟨hss, hparts⟩ := List.forall_mem_cons.1 hparts
    rw [List.flatten_cons, heightAfter?_append, hss, Option.bind_some,
      ih hparts]

theorem flow_of_isPlain (hs : s.isPlain k) :
    s.1.flow = .next ∨ s.1.flow = .call ∨ s.1.flow = .modifier := by
  simp only [isPlain, Bool.and_eq_true, Bool.or_eq_true, beq_iff_eq, or_assoc]
    at hs
  exact hs.1.1.2

/-- What fits into a body without local variables and instructions fits into
every body. -/
theorem checkOperand_of_empty {b : Body} {i : Instr}
    (hi : ({} : Body).checkOperand i = .ok ()) : b.checkOperand i = .ok () := by
  unfold Body.checkOperand at hi ⊢
  split <;> simp_all [Body.contains]

/-- A plain step can stand in every body. -/
theorem holds_of_isPlain {b : Body} {l : Label} (hs : s.isPlain k) :
    b.Holds k { label := l, op := s.1, operand := s.2 } := by
  simp only [isPlain, Bool.and_eq_true, Bool.not_eq_true'] at hs
  obtain ⟨⟨⟨⟨hvalid, hslot⟩, -⟩, hoperand⟩, harg⟩ := hs
  refine ⟨hvalid, checkOperand_of_empty ?_, fun a ha => ?_, fun hmacro => ?_⟩
  · cases hcheck : ({} : Body).checkOperand s.instr with
    | error e => simp [hcheck, Except.isOk, Except.toBool] at hoperand
    | ok u => exact hcheck
  · rw [show s.instr.argIndex? = some a from ha] at harg
    simpa using harg
  · simp [hslot] at hmacro

end Step

namespace Body

variable {b : Body} {k n m : Nat} {h : Int} {i : Instr} {ss : List Step}

/-- Behind a plain step control is at the next one. -/
theorem Passes.eq_succ (hp : b.Passes n i m)
    (hflow : i.op.flow = .next ∨ i.op.flow = .call ∨ i.op.flow = .modifier) :
    m = n + 1 := by
  cases hp with
  | next _ _ _ => rfl
  | jump hbr _ _ =>
    simp only [Opcode.isBranch, Bool.or_eq_true, beq_iff_eq] at hbr
    rcases hflow with hf | hf | hf <;> simp [hf] at hbr

/-- The height of the stack in straight code, by position. -/
def straightHeight (k : Nat) (ss : List Step) (n : Nat) : Option Int :=
  if n ≤ ss.length then Step.heightAfter? k 0 (ss.take n) else none

/-- In straight code that leaves an empty stack, the heights of its run fit. -/
theorem fit_of_straight (hsteps : b.steps = ss ++ [Step.ret])
    (hrun : Step.heightAfter? k 0 ss = some 0) :
    b.Fit true (straightHeight k ss) := by
  have hcode : ∀ n : Nat, b.code[n]?.map (fun i : Instr => (i.op, i.operand)) =
      (ss ++ [Step.ret])[n]? := by
    intro n
    rw [← hsteps, steps, List.getElem?_map]
  refine ⟨by simp [straightHeight], fun {n h} hn => ?_⟩
  rw [straightHeight] at hn
  split at hn
  case isFalse => cases hn
  rename_i hle
  rcases hle.lt_or_eq with hlt | rfl
  · -- a step before the return: the rest of the run starts with it
    have hstep := hcode n
    rw [List.getElem?_append_left hlt, List.getElem?_eq_getElem hlt,
      Option.map_eq_some_iff] at hstep
    obtain ⟨i, hi, hs⟩ := hstep
    have hrest := hrun
    rw [← List.take_append_drop n ss, Step.heightAfter?_append, hn,
      Option.bind_some, List.drop_eq_getElem_cons hlt, Step.heightAfter?_cons,
      Option.bind_eq_some_iff] at hrest
    obtain ⟨h', hafter, -⟩ := hrest
    obtain ⟨e, he, hplain, hpops, rfl⟩ := Step.after?_eq_some.1 hafter
    have hflow := Step.flow_of_isPlain hplain
    rw [← hs] at he hplain hflow
    have hret : i.op ≠ .ret ∧ i.op ≠ .leave ∧ i.op ≠ .leaveS := by
      refine ⟨?_, ?_, ?_⟩ <;> rintro hop <;>
        simp [hop, Opcode.flow, Opcode.info] at hflow
    refine ⟨i, e, hi, he, hpops, fun hop => absurd hop hret.1, fun m hp => ?_⟩
    rw [hp.eq_succ hflow, straightHeight, if_pos (Nat.succ_le_of_lt hlt),
      List.take_add_one, List.getElem?_eq_getElem hlt, Option.toList_some,
      Step.heightAfter?_append, hn, Option.bind_some,
      Step.heightAfter?_cons, hafter]
    simp [Instr.leaves, hret]
  · -- the return
    rw [List.take_length, hrun] at hn
    obtain rfl := Option.some.inj hn
    have hstep := hcode ss.length
    rw [List.getElem?_concat_length, Option.map_eq_some_iff] at hstep
    obtain ⟨i, hi, hs⟩ := hstep
    obtain ⟨hop, -⟩ := Prod.mk.inj hs
    refine ⟨i, ⟨0, 0⟩, hi,
      by simp [Instr.effect?, hop], le_rfl, fun _ => rfl, fun m hp => ?_⟩
    cases hp with
    | next hret _ _ => exact absurd (by rw [hop]; rfl) hret
    | jump hbr _ _ =>
      simp [hop, Opcode.isBranch, Opcode.flow, Opcode.info] at hbr

/-- The steps of straight code can stand in the body. -/
theorem holds_of_straight (hsteps : b.steps = ss ++ [Step.ret])
    (hrun : Step.heightAfter? k 0 ss = some 0) : ∀ i ∈ b.code, b.Holds k i := by
  intro i hi
  have hmem : (i.op, i.operand) ∈ ss ++ [Step.ret] := by
    rw [← hsteps]
    exact List.mem_map_of_mem hi
  rcases List.mem_append.1 hmem with hmem | hmem
  · obtain ⟨before, after, rfl⟩ := List.append_of_mem hmem
    rw [Step.heightAfter?_append, Option.bind_eq_some_iff] at hrun
    obtain ⟨h, -, hrest⟩ := hrun
    rw [Step.heightAfter?_cons, Option.bind_eq_some_iff] at hrest
    obtain ⟨h', hafter, -⟩ := hrest
    obtain ⟨-, -, hplain, -⟩ := Step.after?_eq_some.1 hafter
    exact Step.holds_of_isPlain hplain
  · obtain ⟨l, op, o⟩ := i
    obtain ⟨rfl, rfl⟩ := Prod.mk.inj (List.mem_singleton.1 hmem)
    exact ⟨rfl, rfl, fun a ha => (by cases ha), fun hmacro => (by cases hmacro)⟩

end Body

/-- The checks pass on a method without result whose code is a straight run that
leaves an empty stack, and one return. -/
theorem MethodDef.validate_of_straight {m : MethodDef} {b : Body}
    {ss : List Step} (name : String) (hsteps : b.steps = ss ++ [Step.ret])
    (hlabels : (b.code.map (·.label)).Nodup) (hpoints : b.points = [])
    (hvoid : m.returnsVoid = true)
    (hrun : Step.heightAfter? m.argCount 0 ss = some 0) :
    m.validate name b = .ok () := by
  have hheld := Body.holds_of_straight hsteps hrun
  have hshapes : b.checkShapes m.argCount = .ok () :=
    Body.checkShapes_eq_ok_iff.2 ⟨hlabels, hheld, by simp [hpoints]⟩
  have hne : b.code ≠ [] := by
    intro hnil
    simp [Body.steps, hnil] at hsteps
  have hstack : b.checkStack m.returnsVoid = .ok () := by
    rw [hvoid]
    exact (Body.checkStack_eq_ok_iff_exists_fit hheld hne).2
      ⟨_, Body.fit_of_straight hsteps hrun⟩
  rw [validate, hshapes, hstack]
  rfl

end JobWeave
