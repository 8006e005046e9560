import Mathlib
import JobWeave.Proofs.Flow.Sequence

/-!
# The walk back against a run forward

Code without choices can be run forward with a stack of labels: every value is
marked with the instruction that pushed it, and a delegate sequence pushes one
value, marked with its first instruction.  The walk back finds the same marks by
counting.

* `MethodDef.Simulates` is the run forward from a position, over what it pushes
  itself.
* `MethodDef.Simulates.endsAt_none` says that the walk back meets the same
  sequences, and `pusherBelow_instr` and `pusherBelow_delegate` are its steps.
* `MethodDef.pusher_simulates`: on straight-line code the walk back gives the
  mark of the simulated stack, unless control ended in between.
* `MethodDef.pusher_consumer`: the walk back undoes the walk forward.
-/

namespace JobWeave

variable {i : Instr} {e : StackEffect} {l : Label} {v : Bool}

/-! ## Effects -/

/-- An instruction takes and gives a number of values. -/
theorem Instr.effect?_nonneg (h : i.effect? v = some e) :
    0 ≤ e.pops ∧ 0 ≤ e.pushes := by
  rcases i with ⟨l, op, o⟩
  cases op <;> simp only [Instr.effect?, Opcode.info] at h <;>
    grind [StackEffect.ofCall]

/-- Apart from calls and returns the opcode says what an instruction takes and
gives. -/
theorem Instr.effect?_eq_info (hc : i.op.isCall = false) (hr : i.op ≠ .ret) :
    i.effect? v = some ⟨i.op.info.pop, i.op.info.push⟩ := by
  unfold Instr.effect?
  split <;> simp_all [Opcode.isCall]

/-- What ends a walk gives no value. -/
theorem Instr.pushes_of_stopsWalk (hs : i.stopsWalk = true)
    (h : i.effect? v = some e) :
    e.pushes = 0 := by
  rcases i with ⟨l, op, o⟩
  cases op <;> simp_all [Instr.effect?, Instr.stopsWalk, Opcode.flow,
    Opcode.info] <;> grind

/-- Control ends at the instruction. -/
def Instr.endsControl (i : Instr) : Bool :=
  i.op.flow == .ret || i.op.flow == .throw

/-- A walk ends at branches and where control ends. -/
theorem Instr.stopsWalk_eq (i : Instr) :
    i.stopsWalk = (i.op.isBranch || i.endsControl) := by
  rcases i with ⟨l, op, o⟩
  cases op <;> rfl

namespace MethodDef

open Body

variable {m : MethodDef} {s n k : Nat} {st : List Label} {d : Delegate}
  {p : Label}

theorem effect_eq_ok (h : m.effect i = .ok e) : m.effect? i = some e := by
  cases he : m.effect? i <;> simp_all [effect, Outcome.need, Outcome.fault]

/-! ## The sequences of a method -/

/-- The delegate sequences of a method, each with the position of its last
instruction. -/
def sequences (m : MethodDef) : List (Nat × Delegate) :=
  (List.range m.code.size).filterMap fun n =>
    (m.code.delegateEndingAt m.hasThis n).toOption.join.map (n, ·)

theorem mem_sequences :
    (n, d) ∈ m.sequences ↔
      m.code.delegateEndingAt m.hasThis n = .ok (some d) := by
  have hlt : m.code.delegateEndingAt m.hasThis n = .ok (some d) →
      n < m.code.size := by
    intro h
    by_contra hle
    have hnone : m.code.code[n]? = none :=
      List.getElem?_eq_none (by simpa [size] using hle)
    simp [delegateEndingAt, hnone] at h
  simp only [sequences, List.mem_filterMap, List.mem_range,
    Option.map_eq_some_iff, Prod.mk.injEq]
  constructor
  · rintro ⟨n, hn, d, hd, rfl, rfl⟩
    cases ho : m.code.delegateEndingAt m.hasThis n with
    | error => simp [ho, Except.toOption] at hd
    | ok o => simpa [ho, Except.toOption] using hd
  · intro h
    exact ⟨n, hlt h, d, by simp [h, Except.toOption], rfl, rfl⟩

theorem exists_sequence_iff {P : Nat → Delegate → Prop} :
    (∃ n d, m.code.delegateEndingAt m.hasThis n = .ok (some d) ∧ P n d) ↔
      ∃ x ∈ m.sequences, P x.1 x.2 := by
  simp only [Prod.exists, mem_sequences]

/-- The instruction belongs to no delegate sequence. -/
def Outside (m : MethodDef) (l : Label) : Prop :=
  ∀ n d, m.code.delegateEndingAt m.hasThis n = .ok (some d) →
    d.contains l = false

instance (l : Label) : Decidable (m.Outside l) :=
  decidable_of_iff (∀ x ∈ m.sequences, x.2.contains l = false) <| by
    simp only [Outside, Prod.forall, mem_sequences]

/-! ## Running forward -/

/-- The stack after an instruction, where each value has the label of what
pushed it. -/
def marked (i : Instr) (e : StackEffect) (st : List Label) : List Label :=
  List.replicate e.pushes.toNat i.label ++ st.drop e.pops.toNat

/-- Running the code in order from position `s` comes to a position with a stack
of marks; only values that were pushed on the way are taken. -/
inductive Simulates (m : MethodDef) (s : Nat) : Nat → List Label → Prop where
  /-- nothing was run yet -/
  | start : Simulates m s s []
  /-- a delegate sequence pushes one value -/
  | delegate {n : Nat} {st : List Label} {d : Delegate} : Simulates m s n st →
      m.code.delegateStartingAt m.hasThis n = .ok (some d) →
      Simulates m s (n + d.labels.length) (d.first :: st)
  /-- another instruction has its effect -/
  | instr {n : Nat} {st : List Label} {i : Instr} {e : StackEffect} : Simulates
    m s n st →
      m.code.delegateStartingAt m.hasThis n = .ok none →
      m.code.code[n]? = some i → m.effect? i = some e → e.pops ≤ st.length →
      Simulates m s (n + 1) (marked i e st)

/-- One step of the run forward, computed. -/
def advance (m : MethodDef) (x : Nat × List Label) :
    Option (Nat × List Label) :=
  match m.code.delegateStartingAt m.hasThis x.1 with
  | .error _ => none
  | .ok (some d) => some (x.1 + d.labels.length, d.first :: x.2)
  | .ok none => do
    let i ← m.code.code[x.1]?
    let e ← m.effect? i
    if e.pops ≤ x.2.length then some (x.1 + 1, marked i e x.2) else none

/-- So many steps of the run forward. -/
def simulate (m : MethodDef) : Nat → Nat × List Label →
    Option (Nat × List Label)
  | 0, x => some x
  | k + 1, x => (m.simulate k x).bind m.advance

theorem advance_instr (hnone : m.code.delegateStartingAt m.hasThis n = .ok none)
    (hi : m.code.code[n]? = some i) (he : m.effect? i = some e)
    (hpops : e.pops ≤ st.length) :
    m.advance (n, st) = some (n + 1, marked i e st) := by
  simp [advance, hnone, hi, he, hpops]

theorem Simulates.advance {x : Nat × List Label} (h : m.Simulates s n st)
    (hx : m.advance (n, st) = some x) : m.Simulates s x.1 x.2 := by
  unfold MethodDef.advance at hx
  split at hx
  · cases hx
  · rename_i d hd
    cases hx
    exact h.delegate hd
  · rename_i hnone
    obtain ⟨i, hi, hx⟩ := Option.bind_eq_some_iff.1 hx
    obtain ⟨e, he, hx⟩ := Option.bind_eq_some_iff.1 hx
    split at hx
    · rename_i hpops
      cases hx
      exact h.instr hnone hi he hpops
    · cases hx

/-- What is computed is what the run comes to. -/
theorem simulates_iff :
    m.Simulates s n st ↔ ∃ k, m.simulate k (s, []) = some (n, st) := by
  constructor
  · intro h
    induction h with
    | start => exact ⟨0, rfl⟩
    | delegate _ hd ih =>
      obtain ⟨k, hk⟩ := ih
      exact ⟨k + 1, by simp [simulate, hk, MethodDef.advance, hd]⟩
    | instr _ hnone hi he hpops ih =>
      obtain ⟨k, hk⟩ := ih
      exact ⟨k + 1, by simp [simulate, hk, advance_instr hnone hi he hpops]⟩
  · rintro ⟨k, hk⟩
    induction k generalizing n st with
    | zero =>
      cases hk
      exact .start
    | succ k ih =>
      obtain ⟨⟨n', st'⟩, hy, hk⟩ := Option.bind_eq_some_iff.1 hk
      exact (ih hy).advance hk

/-- A step of the run forward goes forward. -/
theorem lt_of_advance {x y : Nat × List Label} (h : m.advance x = some y) :
    x.1 < y.1 := by
  unfold advance at h
  split at h
  · cases h
  · cases h
    simp [Delegate.labels]
  · obtain ⟨i, -, h⟩ := Option.bind_eq_some_iff.1 h
    obtain ⟨e, -, h⟩ := Option.bind_eq_some_iff.1 h
    split at h <;> cases h
    simp

theorem add_le_of_simulate {x y : Nat × List Label} {j : Nat}
    (hx : m.simulate k (s, []) = some x)
    (hy : m.simulate (k + j) (s, []) = some y) :
    x.1 + j ≤ y.1 := by
  induction j generalizing y with
  | zero =>
    rw [Nat.add_zero, hx, Option.some.injEq] at hy
    simp [hy]
  | succ j ih =>
    obtain ⟨z, hz, hy⟩ := Option.bind_eq_some_iff.1 hy
    have := ih hz
    have := lt_of_advance hy
    omega

/-- A run forward comes to a position with one stack. -/
theorem Simulates.unique {st' : List Label} (h : m.Simulates s n st)
    (h' : m.Simulates s n st') : st = st' := by
  obtain ⟨k, hk⟩ := simulates_iff.1 h
  obtain ⟨k', hk'⟩ := simulates_iff.1 h'
  obtain rfl : k = k' := by
    rcases Nat.lt_trichotomy k k' with hlt | heq | hlt
    · obtain ⟨j, rfl⟩ := Nat.exists_eq_add_of_lt hlt
      have := add_le_of_simulate hk (Nat.add_assoc k j 1 ▸ hk')
      simp at this
    · exact heq
    · obtain ⟨j, rfl⟩ := Nat.exists_eq_add_of_lt hlt
      have := add_le_of_simulate hk' (Nat.add_assoc k' j 1 ▸ hk)
      simp at this
  rw [hk, Option.some.injEq, Prod.mk.injEq] at hk'
  exact hk'.2

namespace Simulates

theorem le (h : m.Simulates s n st) : s ≤ n := by
  induction h with
  | start => exact le_rfl
  | delegate _ _ ih => omega
  | instr _ _ _ _ _ ih => omega

/-- Nothing is on the stack before the first step. -/
theorem eq_nil (h : m.Simulates s n st) (hn : n ≤ s) : st = [] := by
  cases h with
  | start => rfl
  | delegate h =>
    rename_i d _
    have : 0 < d.labels.length := by simp [Delegate.labels]
    have := h.le
    omega
  | instr h =>
    have := h.le
    omega

/-- A position that was passed was the start of a step or inside a delegate
sequence. -/
theorem passed (h : m.Simulates s n st) (hs : s ≤ k) (hk : k < n) :
    (∃ o, m.code.delegateStartingAt m.hasThis k = .ok o ∧
      ∀ d, o = some d → k + d.labels.length ≤ n) ∨
    ∃ z d, z < k ∧ k < z + d.labels.length ∧ z + d.labels.length ≤ n ∧
      m.code.delegateStartingAt m.hasThis z = .ok (some d) := by
  induction h with
  | start => omega
  | delegate h hd ih =>
    rename_i n st d
    rcases Nat.lt_trichotomy k n with hlt | rfl | hgt
    · rcases ih hlt with ⟨o, ho, hlen⟩ | ⟨z, d', hz, hzk, hlen, hd'⟩
      · exact .inl ⟨o, ho, fun d' hd' => (hlen d' hd').trans
          (Nat.le_add_right _ _)⟩
      · exact .inr ⟨z, d', hz, hzk, hlen.trans (Nat.le_add_right _ _), hd'⟩
    · exact .inl ⟨_, hd, fun d' hd' => by cases hd'; exact le_rfl⟩
    · exact .inr ⟨n, d, hgt, hk, le_rfl, hd⟩
  | instr h hnone hi he hpops ih =>
    rename_i n st i e
    rcases Nat.lt_or_eq_of_le (Nat.lt_succ_iff.1 hk) with hlt | rfl
    · rcases ih hlt with ⟨o, ho, hlen⟩ | ⟨z, d', hz, hzk, hlen, hd'⟩
      · exact .inl ⟨o, ho, fun d' hd' => (hlen d' hd').trans (Nat.le_succ _)⟩
      · exact .inr ⟨z, d', hz, hzk, hlen.trans (Nat.le_succ _), hd'⟩
    · exact .inl ⟨none, hnone, by simp⟩

/-- A sequence that starts where the run has passed was passed whole. -/
theorem passed_whole (hb : m.code.HasOwnLabels) (h : m.Simulates s n st)
    (hs : s ≤ k) (hk : k < n)
    (hd : m.code.delegateEndingAt m.hasThis (k + d.labels.length - 1) =
      .ok (some d))
    (hspan : m.code.Spans k d) : k + d.labels.length ≤ n := by
  rcases h.passed hs hk with ⟨o, ho, hlen⟩ | ⟨z, d', hz, hzk, hlen, hd'⟩
  · rw [(delegateStartingAt_eq_some_iff hb).2 ⟨hd, hspan⟩] at ho
    cases ho
    exact hlen d rfl
  · have hspan' := ((delegateStartingAt_eq_some_iff hb).1 hd').2
    have := hspan'.outline.eq_of_overlap hspan.outline hz.le hzk
    omega

end Simulates

/-- No delegate sequence lies across the position. -/
def Parts (m : MethodDef) (s : Nat) : Prop :=
  ∀ n d, m.code.delegateEndingAt m.hasThis n = .ok (some d) → n < s ∨
    s + d.labels.length ≤ n + 1

theorem parts_zero (m : MethodDef) : m.Parts 0 := by
  intro n d hd
  obtain ⟨s, hs, -⟩ := spans_of_delegateEndingAt hd
  omega

/-- Where the recognition was asked for the first instruction it has an answer
two instructions later. -/
theorem endsAt_of_startsAt {o : Option Delegate} (hi : m.code.code[n]? = some i)
    (h : m.code.delegateStartingAt m.hasThis n = .ok o) :
    ∃ o', m.code.delegateEndingAt m.hasThis (n + 2) = .ok o' := by
  unfold delegateStartingAt at h
  rw [hi] at h
  obtain ⟨o', ho', -⟩ := bind_eq_ok_iff.1 h
  exact ⟨o', ho'⟩

/-- A run does not come to the end of what looks like a cached sequence without
having asked whether it is one. -/
theorem Simulates.not_outline {stop : Stop} (hb : m.code.HasOwnLabels)
    (h : m.Simulates s (k + 8) st) (hi : m.code.code[k + 8]? = some i)
    (he : m.effect? i = some e) (hpops : e.pops ≤ st.length)
    (hend : m.code.delegateEndingAt m.hasThis (k + 8) = .error stop)
    (hout : m.code.Outline k 9) : False := by
  have htakes : ∀ {x st' f j}, m.code.code[x]? = some j → m.effect? j = some f →
      f.pops ≤ (st' : List Label).length → st' = [] →
      ¬(m.code.opAt? x = some .dup ∨ m.code.opAt? x = some .stsfld) := by
    rintro x st' f j hj hf hle rfl hop
    rw [opAt?_eq hj, Option.some.injEq, Option.some.injEq] at hop
    have hinfo := Instr.effect?_eq_info (i := j) (v := m.returnsVoid)
      (by rcases hop with hop | hop <;> simp [hop, Opcode.isCall])
      (by rcases hop with hop | hop <;> simp [hop])
    rw [effect?, hinfo] at hf
    cases hf
    rcases hop with hop | hop <;> simp [hop, Opcode.info] at hle
  have hsle := h.le
  have hlt : k + 8 < m.code.code.length := (List.getElem?_eq_some_iff.1 hi).1
  cases hout with
  | cached h0 h1 h2 hbr h3 h4 h5 h7 h8 =>
    have hout : m.code.Outline k 9 := .cached h0 h1 h2 hbr h3 h4 h5 h7 h8
    by_cases hs : s ≤ k + 6
    · rcases h.passed hs (by omega) with ⟨o, ho, -⟩ | ⟨z, d, hz, hzk, hlen, hd⟩
      · obtain ⟨o', ho'⟩ := endsAt_of_startsAt
          (List.getElem?_eq_getElem (by omega)) ho
        rw [hend] at ho'
        cases ho'
      · have hspan := ((delegateStartingAt_eq_some_iff hb).1 hd).2
        rcases Nat.le_total z k with hle | hle
        · have := hspan.outline.eq_of_overlap hout hle (by omega)
          omega
        · have := hout.eq_of_overlap hspan.outline hle (by omega)
          omega
    · -- the run starts behind the constructor, where the next instruction
      -- takes what is before
      generalize hn : k + 8 = n at h
      cases h with
      | start => exact htakes hi he hpops rfl (.inr h8)
      | delegate h hd =>
        have := ((delegateStartingAt_eq_some_iff hb).1 hd).2.outline.length_eq
        have := h.le
        omega
      | instr h _ hj hf hle =>
        obtain rfl := Nat.succ.inj hn
        exact htakes hj hf hle (h.eq_nil (by omega)) (.inl h7)

/-- The walk back finds no sequence where the run forward found an
instruction. -/
theorem Simulates.endsAt_none (hb : m.code.HasOwnLabels) (hs : m.Parts s)
    (h : m.Simulates s n st)
    (hnone : m.code.delegateStartingAt m.hasThis n = .ok none)
    (hi : m.code.code[n]? = some i) (he : m.effect? i = some e)
    (hpops : e.pops ≤ st.length) :
    m.code.delegateEndingAt m.hasThis n = .ok none := by
  cases hend : m.code.delegateEndingAt m.hasThis n with
  | ok o =>
    cases o with
    | none => rfl
    | some d =>
      -- the sequence would start where the run has passed, or before the run
      obtain ⟨k, hk, hspan⟩ := spans_of_delegateEndingAt hend
      have hlen := hspan.outline.length_eq
      have := h.le
      rcases hs n d hend with hlt | hle
      · omega
      · have hend' : m.code.delegateEndingAt m.hasThis
          (k + d.labels.length - 1) =
            .ok (some d) := by
          rwa [← hk, Nat.add_sub_cancel]
        have := h.passed_whole hb (k := k) (by omega) (by omega) hend' hspan
        omega
  | error stop =>
    exfalso
    rcases outline_of_error hend with ⟨k, rfl, hout⟩ | ⟨j, hj, hnone⟩
    · exact h.not_outline hb hi he hpops hend hout
    · rw [hi] at hj
      cases hj
      rw [effect?, hnone] at he
      cases he

/-! ## Labels that close a sequence -/

/-- The instruction follows the cached delegate sequence that ends at a
position. -/
def Closes (m : MethodDef) (l : Label) (n : Nat) (d : Delegate) : Prop :=
  d.cached = true ∧ (m.code.code[n + 1]?).map (·.label) = some l

/-- Every target of a branch follows a cached delegate sequence. -/
def JoinsClose (m : MethodDef) : Prop :=
  ∀ l ∈ m.code.branchTargets, ∃ n d,
    m.code.delegateEndingAt m.hasThis n = .ok (some d) ∧ m.Closes l n d

/-- Every target of a branch follows a cached delegate sequence, and the
branches to it are in that sequence. -/
def JoinsOwn (m : MethodDef) : Prop :=
  ∀ l ∈ m.code.branchTargets, ∃ n d,
    m.code.delegateEndingAt m.hasThis n = .ok (some d) ∧ m.Closes l n d ∧
      ∀ i ∈ m.code.code, i.operand = .target l → i.op.isBranch = true →
        d.contains i.label = true

instance (l : Label) (n : Nat) (d : Delegate) : Decidable (m.Closes l n d) :=
  inferInstanceAs (Decidable (_ ∧ _))

instance : Decidable m.JoinsClose :=
  decidable_of_iff (∀ l ∈ m.code.branchTargets, ∃ x ∈ m.sequences,
    m.Closes l x.1 x.2) <| forall₂_congr fun l _ =>
      (exists_sequence_iff (P := fun n d => m.Closes l n d)).symm

instance : Decidable m.JoinsOwn :=
  decidable_of_iff (∀ l ∈ m.code.branchTargets, ∃ x ∈ m.sequences,
    m.Closes l x.1 x.2 ∧
      ∀ i ∈ m.code.code, i.operand = .target l → i.op.isBranch = true →
        x.2.contains i.label = true) <|
    forall₂_congr fun l _ => (exists_sequence_iff (P := fun n d =>
      m.Closes l n d ∧ ∀ i ∈ m.code.code, i.operand = .target l →
      i.op.isBranch = true →
        d.contains i.label = true)).symm

/-- The walk back goes on at a label that only closes a sequence. -/
theorem JoinsOwn.closesDelegate (hb : m.code.HasOwnLabels) (hj : m.JoinsOwn)
    (hi : m.code.code[n]? = some i)
    (ht : m.code.branchTargets.contains i.label = true) :
    m.closesDelegate n i.label = .ok true := by
  obtain ⟨k, d, hd, ⟨hcached, hk⟩, hown⟩ := hj _ (List.contains_iff_mem.1 ht)
  obtain ⟨j, hk, hlabel⟩ := Option.map_eq_some_iff.1 hk
  obtain rfl := hb.eq_of_label hi hk hlabel.symm
  simp only [MethodDef.closesDelegate, Nat.add_one_ne_zero, if_false,
    Nat.add_sub_cancel, hd, bind, Except.bind, pure, Except.pure, hcached,
    Bool.true_and, Except.ok.injEq, List.all_eq_true, Bool.or_eq_true,
    Bool.not_eq_true']
  intro x hx
  by_cases ho : x.operand = .target i.label
  · by_cases hbr : x.op.isBranch = true
    · exact .inr (hown x hx ho hbr)
    · exact .inl (.inr (by simpa using hbr))
  · refine .inl (.inl ?_)
    by_contra hne
    exact ho (Operand.bne_target.1 (by simpa using hne))

/-! ## Steps back -/

/-- A delegate sequence is crossed as one value. -/
theorem pusherBelow_delegate (hb : m.code.HasOwnLabels) {targets : List Label}
    {depth : Int} (hd : m.code.delegateEndingAt m.hasThis
      (k + d.labels.length - 1) = .ok (some d))
    (hspan : m.code.Spans k d) :
    m.pusherBelow targets (k + d.labels.length) depth =
      if depth = 0 then .ok (some d.first) else m.pusherBelow targets k
        (depth - 1) := by
  obtain ⟨i, hi, hfirst⟩ := hspan.first_at
  obtain ⟨x, hx⟩ : ∃ x, d.labels.length = x + 1 := ⟨d.rest.length, rfl⟩
  rw [hx] at hd ⊢
  rw [← Nat.add_assoc, Nat.add_sub_cancel] at hd
  rw [← Nat.add_assoc, pusherBelow, hd]
  have hmin : min (k + x) k = k := by omega
  simp only [bind, Except.bind, pure, Except.pure, ← hfirst, hb.indexOf?_eq hi,
    Option.getD_some, hmin, beq_iff_eq]

/-- Another instruction is crossed with its effect, unless it ends the walk. -/
theorem pusherBelow_instr {targets : List Label} {depth : Int}
    (hnone : m.code.delegateEndingAt m.hasThis n = .ok none)
    (hi : m.code.code[n]? = some i) (he : m.effect? i = some e)
    (hjoin : targets.contains i.label = true → m.closesDelegate n i.label =
      .ok true) :
    m.pusherBelow targets (n + 1) depth =
      if i.stopsWalk then .ok none
      else if depth < e.pushes then .ok (some i.label)
      else m.pusherBelow targets n (depth + e.pops - e.pushes) := by
  have heff : m.effect i = .ok e := by rw [effect, he]; rfl
  rw [pusherBelow, hnone]
  simp only [bind, Except.bind, pure, Except.pure, hi, heff]
  split
  · rfl
  · split
    · rw [hjoin (by assumption)]
      simp
    · simp

/-- The walk for an argument starts at the instruction that takes it. -/
theorem pusher_eq (hb : m.code.HasOwnLabels) (hi : m.code.code[n]? = some i)
    (he : m.effect? i = some e) {arg : Int} (h0 : 0 ≤ arg)
    (hlt : arg < e.pops) :
    m.pusher arg i.label = m.pusherBelow m.code.branchTargets n
      (e.pops - 1 - arg) := by
  have heff : m.effect (m.code.get i.label) = .ok e := by
    rw [hb.get_eq (List.mem_of_getElem? hi), effect, he]
    rfl
  have hrange : (arg < 0 || arg ≥ e.pops) = false := by
    simp only [Bool.or_eq_false_iff, decide_eq_false_iff_not]
    omega
  simp [pusher, hb.indexOf?_eq hi, heff, bind, Except.bind, hrange]

/-! ## The walk forward -/

/-- What the walk forward comes to takes the value that the walk started from:
all that was pushed after it is gone. -/
theorem consumerFrom_back (hb : m.code.HasOwnLabels) (hj : m.JoinsOwn)
    (hs : m.Parts s) {fuel : Nat} {c : Consumer} (h : m.Simulates s n st)
    (hback : ∀ j : Int, 0 ≤ j → m.pusherBelow m.code.branchTargets n
      (st.length + j) = m.pusherBelow m.code.branchTargets s j)
    (hc : m.consumerFrom fuel n st.length = .ok (some c)) :
    m.pusher c.arg c.label = m.pusherBelow m.code.branchTargets s 0 := by
  induction fuel generalizing n st with
  | zero => cases hc
  | succ fuel ih =>
    rw [consumerFrom] at hc
    split at hc
    · cases hc
    · rename_i i hi
      obtain ⟨o, ho, hc⟩ := bind_eq_ok_iff.1 hc
      cases o with
      | some d =>
        obtain ⟨hend, hspan⟩ := (delegateStartingAt_eq_some_iff hb).1 ho
        simp only [hspan.after_last hb] at hc
        refine ih (h.delegate ho) (fun j hj => ?_) (by simpa using hc)
        rw [pusherBelow_delegate hb hend hspan, if_neg (by simp; omega),
          ← hback j hj]
        congr 1
        simp
        omega
      | none =>
        obtain ⟨e, he, hc⟩ := bind_eq_ok_iff.1 hc
        replace he := effect_eq_ok he
        have hnonneg := Instr.effect?_nonneg he
        split at hc
        · -- the value is taken here
          cases hc
          dsimp only
          rw [pusher_eq hb hi he (by omega) (by omega), ← hback 0 le_rfl]
          congr 1
          omega
        · rename_i hpops
          split at hc
          · cases hc
          · rename_i hstop
            have hlen : ((marked i e st).length : Int) = st.length + e.pushes -
                e.pops := by
              simp only [marked, List.length_append, List.length_replicate,
                List.length_drop]
              omega
            refine ih (h.instr ho hi he (by omega))
              (fun j hj' => ?_) (by rwa [hlen])
            have hnone := h.endsAt_none hb hs ho hi he (by omega)
            rw [pusherBelow_instr hnone hi he (hj.closesDelegate hb hi),
              if_neg hstop, if_neg (by omega), ← hback j hj']
            congr 1
            omega

/-! ## Sample methods -/

/-- A static method without a result. -/
def ofCode (name : String) (code : List Instr) : MethodDef :=
  { name, flags := MethodFlag.static, ret := .void,
    body := some { code, fresh := code.length } }

/-- The constructor of a delegate type. -/
def actionCtor : MethodRef :=
  { owner := .ofName "System" "Action" false, ret := .void, name := ".ctor",
    params := [.object, .intPtr], hasThis := true }

/-- The lambda of a delegate. -/
def lambdaRef : MethodRef :=
  { owner := .ofName "Game" "S" false, ret := .void, name := "Lambda" }

/-- The field that a delegate is kept in. -/
def cacheField : FieldRef :=
  { owner := .ofName "Game" "S" false, type := .ofName "System" "Action" false,
    name := "cache" }

/-- A cached delegate sequence with labels from `n` on, whose branch leads to
`l`. -/
def cachedCode (n l : Label) : List Instr :=
  [⟨n, .ldsfld, .field (some cacheField)⟩, ⟨n + 1, .dup, .none⟩,
    ⟨n + 2, .brtrue, .target l⟩, ⟨n + 3, .pop, .none⟩,
    ⟨n + 4, .ldsfld, .field (some cacheField)⟩,
    ⟨n + 5, .ldftn, .method (some lambdaRef)⟩,
    ⟨n + 6, .newobj, .method (some actionCtor)⟩, ⟨n + 7, .dup, .none⟩,
    ⟨n + 8, .stsfld, .field (some cacheField)⟩]

/-- A value that waits while a cached delegate is made and dropped. -/
def aroundCache : MethodDef :=
  ofCode "Around" ([⟨0, .ldnull, .none⟩] ++ cachedCode 1 10 ++
    [⟨10, .nop, .none⟩, ⟨11, .pop, .none⟩, ⟨12, .pop, .none⟩,
      ⟨13, .ret, .none⟩])

/-- A branch from elsewhere leads to the end of a cached delegate sequence. -/
def sharedJoin : MethodDef :=
  ofCode "Shared" ([⟨0, .ldnull, .none⟩, ⟨1, .ldnull, .none⟩,
    ⟨2, .ldcI41, .none⟩,
      ⟨3, .brtrue, .target 16⟩, ⟨4, .pop, .none⟩, ⟨5, .pop, .none⟩,
      ⟨6, .ldnull, .none⟩] ++
    cachedCode 7 16 ++
    [⟨16, .nop, .none⟩, ⟨17, .pop, .none⟩, ⟨18, .pop, .none⟩,
      ⟨19, .ret, .none⟩])

/-- The instruction that takes a value occurs twice. -/
def repeatedTaker : MethodDef :=
  ofCode "Repeat" [⟨0, .ldnull, .none⟩, ⟨1, .pop, .none⟩, ⟨2, .ldnull, .none⟩,
    ⟨1, .pop, .none⟩, ⟨3, .ret, .none⟩]

/-- The instruction that a delegate sequence starts with occurs twice. -/
def repeatedHead : MethodDef :=
  ofCode "Repeat" [⟨0, .ldnull, .none⟩, ⟨1, .pop, .none⟩, ⟨2, .ldnull, .none⟩,
    ⟨0, .ldnull, .none⟩, ⟨3, .ldftn, .method (some lambdaRef)⟩,
    ⟨4, .newobj, .method (some actionCtor)⟩, ⟨5, .pop, .none⟩, ⟨6, .pop, .none⟩,
    ⟨7, .ret, .none⟩]

/-- A return stands between a value and the instruction that takes it. -/
def behindReturn : MethodDef :=
  ofCode "Behind" [⟨0, .ldnull, .none⟩, ⟨1, .ret, .none⟩, ⟨2, .pop, .none⟩,
    ⟨3, .ret, .none⟩]

/-! ## Forward and back -/

/-- No sequence lies across the end of one. -/
theorem parts_of_spans (hspan : m.code.Spans n d) :
    m.Parts (n + d.labels.length) := by
  intro k d' hd'
  obtain ⟨x, hx, hspan'⟩ := spans_of_delegateEndingAt hd'
  rcases Nat.le_total n x with hle | hle
  · by_cases hlt : x < n + d.labels.length
    · have := hspan.outline.eq_of_overlap hspan'.outline hle hlt
      omega
    · omega
  · by_cases hlt : n < x + d'.labels.length
    · have := hspan'.outline.eq_of_overlap hspan.outline hle hlt
      omega
    · omega

/-- No sequence lies across an instruction that belongs to none. -/
theorem Outside.lt_or_lt (hi : m.code.code[n]? = some i)
    (ho : m.Outside i.label)
    (hd : m.code.delegateEndingAt m.hasThis k = .ok (some d)) :
    k < n ∨ n + d.labels.length < k + 1 := by
  obtain ⟨x, hx, hspan⟩ := spans_of_delegateEndingAt hd
  by_contra hcon
  have hin : d.contains i.label = true :=
    hspan.contains_iff.2 ⟨n - x,
      by omega, i, by rwa [Nat.add_sub_cancel' (by omega)], rfl⟩
  rw [ho k d hd] at hin
  cases hin

/-- The walk back undoes the walk forward: where the labels are distinct and
only the branches of cached sequences lead anywhere, each behind its own
sequence, the instruction that takes a value is one whose argument was pushed by
the instruction that the walk forward started from. -/
theorem pusher_consumer (hb : m.code.HasOwnLabels) (hj : m.JoinsOwn)
    (hi : m.code.code[n]? = some i) (he : m.effect? i = some e)
    (hpush : 0 < e.pushes)
    (hplace : (∃ d, m.code.delegateStartingAt m.hasThis n = .ok (some d)) ∨
      m.Outside i.label)
    {c : Consumer} (hc : m.consumer i.label = .ok (some c)) :
    m.pusher c.arg c.label = .ok (some i.label) := by
  have hback : ∀ s, ∀ j : Int, 0 ≤ j →
      m.pusherBelow m.code.branchTargets s
        ((([] : List Label).length : Int) + j) = m.pusherBelow
          m.code.branchTargets s j := by
    simp
  unfold consumer at hc
  rw [hb.indexOf?_eq hi] at hc
  obtain ⟨o, ho, hc⟩ := bind_eq_ok_iff.1 hc
  cases o with
  | some d =>
    obtain ⟨hend, hspan⟩ := (delegateStartingAt_eq_some_iff hb).1 ho
    obtain ⟨i', hi', hfirst⟩ := hspan.first_at
    obtain rfl : i = i' := Option.some.inj (hi.symm.trans hi')
    simp only [pure_bind, hspan.after_last hb] at hc
    rw [consumerFrom_back hb hj (parts_of_spans hspan) .start (hback _) hc,
      pusherBelow_delegate hb hend hspan, if_pos rfl, hfirst]
  | none =>
    have hout : m.Outside i.label := hplace.resolve_left (by simp [ho])
    have hparts : m.Parts (n + 1) := fun k d hd => by
      have := hout.lt_or_lt hi hd
      omega
    have hnone : m.code.delegateEndingAt m.hasThis n = .ok none := by
      cases hend : m.code.delegateEndingAt m.hasThis n with
      | ok o =>
        cases o with
        | none => rfl
        | some d =>
          have := hout.lt_or_lt hi hend
          have : 0 < d.labels.length := by simp [Delegate.labels]
          omega
      | error stop =>
        rcases outline_of_error hend with ⟨k, rfl, hk⟩ | ⟨j, hj, hnone⟩
        · -- the store to a cache pushes nothing
          cases hk with
          | cached _ _ _ _ _ _ _ _ hstore =>
            rw [opAt?_eq hi, Option.some.injEq] at hstore
            rw [effect?, Instr.effect?_eq_info (by simp [hstore, Opcode.isCall])
              (by simp [hstore])] at he
            cases he
            simp [hstore, Opcode.info] at hpush
        · rw [hi] at hj
          cases hj
          rw [effect?, hnone] at he
          cases he
    have hgo : i.stopsWalk = false := by
      by_contra hstop
      have := Instr.pushes_of_stopsWalk (by simpa using hstop) he
      omega
    rw [consumerFrom_back hb hj hparts .start (hback _) hc,
      pusherBelow_instr hnone hi he (hj.closesDelegate hb hi), hgo,
      if_neg (by simp), if_pos hpush]

theorem pusher_consumer_around :
    aroundCache.consumer 0 = .ok (some ⟨12, 0⟩) ∧
      aroundCache.pusher 0 12 = .ok (some 0) := by
  have hc : aroundCache.consumer 0 = .ok (some ⟨12, 0⟩) := by decide +kernel
  exact ⟨hc, pusher_consumer (n := 0) (i := ⟨0, .ldnull, .none⟩) (e := ⟨0, 1⟩)
    (by decide +kernel) (by decide +kernel) rfl rfl (by decide)
      (.inr (by decide +kernel)) hc⟩

/-- The walk back gives up where a branch from elsewhere joins, which the walk
forward passes, and it takes an instruction that occurs twice to be where it
occurs first. -/
theorem not_pusher_consumer_shared :
    (sharedJoin.JoinsClose ∧ sharedJoin.Outside 6 ∧
      sharedJoin.consumer 6 = .ok (some ⟨18, 0⟩) ∧
      sharedJoin.pusher 0 18 = .ok none) ∧
    repeatedTaker.JoinsClose ∧ repeatedTaker.Outside 2 ∧
      repeatedTaker.consumer 2 = .ok (some ⟨1, 0⟩) ∧
      repeatedTaker.pusher 0 1 = .ok (some 0) := by
  decide +kernel

/-! ## Straight-line code -/

/-- Code without choices: the only branches are those of cached delegate
sequences, and they only lead to the instruction after such a sequence. -/
structure StraightLine (m : MethodDef) : Prop where
  /-- branches belong to sequences -/
  branch : ∀ i ∈ m.code.code, i.op.isBranch = true → ∃ n d,
    m.code.delegateEndingAt m.hasThis n = .ok (some d) ∧ d.cached = true ∧
      d.labels[2]? = some i.label
  /-- targets follow sequences -/
  target : m.JoinsClose

instance : Decidable m.StraightLine :=
  decidable_of_iff ((∀ i ∈ m.code.code, i.op.isBranch = true →
    ∃ x ∈ m.sequences,
      x.2.cached = true ∧ x.2.labels[2]? = some i.label) ∧ m.JoinsClose)
    ⟨fun h => ⟨fun i hi hbr => exists_sequence_iff.2 (h.1 i hi hbr), h.2⟩,
      fun h => ⟨fun i hi hbr => exists_sequence_iff.1 (h.branch i hi hbr),
        h.target⟩⟩

/-- A branch of straight-line code leads behind its own sequence. -/
theorem StraightLine.joinsOwn (hb : m.code.HasOwnLabels) (hs : m.StraightLine) :
    m.JoinsOwn := by
  intro l hl
  obtain ⟨n, d, hd, hclose⟩ := hs.target l hl
  refine ⟨n, d, hd, hclose, fun i hi ho hbr => ?_⟩
  obtain ⟨j, hj, rfl⟩ := Option.map_eq_some_iff.1 hclose.2
  obtain ⟨n', d', hd', hcached', hlabel⟩ := hs.branch i hi hbr
  obtain ⟨x, hx, hspan⟩ := spans_of_delegateEndingAt hd'
  obtain ⟨b, j', hb2, hj', htarget⟩ := hspan.closing hcached'
  have hlen : d'.labels.length = 9 := hspan.cached.1 hcached'
  obtain ⟨b', hb', hlabel'⟩ := hspan.label_at (j := 2) (by omega)
  obtain rfl : b = b' := Option.some.inj (hb2.symm.trans hb')
  -- the branch of the other sequence is this one, so the sequences end at one
  -- place
  obtain rfl : b = i := List.inj_on_of_nodup_map hb
    (List.mem_of_getElem? hb2) hi (Option.some.inj (hlabel'.symm.trans hlabel))
  rw [ho, Operand.target.injEq] at htarget
  have hend := hb.eq_of_label hj hj' htarget
  obtain rfl : n = n' := by omega
  rw [hd'] at hd
  cases hd
  exact hspan.contains_iff.2 ⟨2, by omega, b, hb2, rfl⟩

/-- No instruction of a sequence is met by the run forward on its own. -/
theorem Simulates.not_contains (hb : m.code.HasOwnLabels) (hs : m.Parts s)
    (h : m.Simulates s n st)
    (hnone : m.code.delegateStartingAt m.hasThis n = .ok none)
    (hi : m.code.code[n]? = some i) : m.Outside i.label := by
  intro k d hd
  obtain ⟨x, hx, hspan⟩ := spans_of_delegateEndingAt hd
  by_contra hcon
  obtain ⟨j, hj, i', hi', hlabel⟩ := hspan.contains_iff.1 (by simpa using hcon)
  obtain rfl := hb.eq_of_label hi hi' hlabel.symm
  have hd' : m.code.delegateEndingAt m.hasThis (x + d.labels.length - 1) =
      .ok (some d) := by
    rwa [← hx, Nat.add_sub_cancel]
  have hle := h.le
  rcases Nat.eq_zero_or_pos j with rfl | hpos
  · rw [Nat.add_zero, (delegateStartingAt_eq_some_iff hb).2 ⟨hd', hspan⟩]
      at hnone
    cases hnone
  · rcases hs k d hd with hlt | hge
    · omega
    · have := h.passed_whole hb (k := x) (by omega) (by omega) hd' hspan
      omega

/-- Control ends at an instruction between two positions. -/
def EndsBetween (m : MethodDef) (k n : Nat) : Prop :=
  ∃ x i, k < x ∧ x < n ∧ m.code.code[x]? = some i ∧ i.endsControl = true

instance : Decidable (m.EndsBetween k n) :=
  decidable_of_iff (∃ x < n, k < x ∧ (m.code.code[x]?).any (·.endsControl) =
      true) <| by
    simp only [EndsBetween, Option.any_eq_true]
    constructor
    · rintro ⟨x, hxn, hkx, i, hi, hends⟩
      exact ⟨x, i, hkx, hxn, hi, hends⟩
    · rintro ⟨x, i, hkx, hxn, hi, hends⟩
      exact ⟨x, hxn, hkx, i, hi, hends⟩

theorem endsBetween_succ (hk : k < n) (hi : m.code.code[n]? = some i) :
    m.EndsBetween k (n + 1) ↔ m.EndsBetween k n ∨ i.endsControl = true := by
  constructor
  · rintro ⟨x, j, hkx, hxn, hj, hend⟩
    rcases Nat.lt_or_eq_of_le (Nat.lt_succ_iff.1 hxn) with hlt | rfl
    · exact .inl ⟨x, j, hkx, hlt, hj, hend⟩
    · rw [hi] at hj
      cases hj
      exact .inr hend
  · rintro (⟨x, j, hkx, hxn, hj, hend⟩ | hend)
    · exact ⟨x, j, hkx, by omega, hj, hend⟩
    · exact ⟨n, i, hk, by omega, hi, hend⟩

theorem endsBetween_span (hspan : m.code.Spans n d) :
    m.EndsBetween k (n + d.labels.length) ↔ m.EndsBetween k n := by
  constructor
  · rintro ⟨x, j, hkx, hxn, hj, hend⟩
    by_cases hlt : x < n
    · exact ⟨x, j, hkx, hlt, hj, hend⟩
    · obtain ⟨hret, hthrow⟩ := hspan.flow_ne (by omega) hxn hj
      simp [Instr.endsControl, hret, hthrow] at hend
  · rintro ⟨x, j, hkx, hxn, hj, hend⟩
    exact ⟨x, j, hkx, by omega, hj, hend⟩

/-- The walk back for a simulated value gives its mark, unless control ends on
the way. -/
theorem Simulates.pusherBelow_eq (hb : m.code.HasOwnLabels) (hs : m.Parts s)
    (hline : m.StraightLine) (h : m.Simulates s n st) {j : Nat}
    (hp : st[j]? = some p) :
    ∃ k, m.code.indexOf? p = some k ∧ k < n ∧
      (¬m.EndsBetween k n → m.pusherBelow m.code.branchTargets n j =
        .ok (some p)) ∧
      (m.EndsBetween k n → m.pusherBelow m.code.branchTargets n j =
        .ok none) := by
  induction h generalizing j with
  | start => cases hp
  | delegate h hd ih =>
    rename_i n st d
    obtain ⟨hend, hspan⟩ := (delegateStartingAt_eq_some_iff hb).1 hd
    rw [pusherBelow_delegate hb hend hspan]
    cases j with
    | zero =>
      -- the value of the sequence itself
      obtain rfl : d.first = p := by simpa using hp
      obtain ⟨i, hi, hfirst⟩ := hspan.first_at
      have hlen : 0 < d.labels.length := by simp [Delegate.labels]
      refine ⟨n, hfirst ▸ hb.indexOf?_eq hi,
        by omega, fun _ => if_pos rfl, fun hends => ?_⟩
      obtain ⟨x, -, hnx, hxn, -⟩ := (endsBetween_span hspan).1 hends
      omega
    | succ j =>
      obtain ⟨k, hk, hkn, hfound, hended⟩ := ih hp
      rw [if_neg (by omega), Nat.cast_succ, add_sub_cancel_right]
      exact ⟨k, hk,
        by
        omega, fun hends => hfound fun h => hends ((endsBetween_span hspan).2
          h), fun hends => hended ((endsBetween_span hspan).1 hends)⟩
  | instr h hnone hi he hpops ih =>
    rename_i n st i e
    have hout := h.not_contains hb hs hnone hi
    have hplain : i.op.isBranch = false := by
      by_contra hbr
      obtain ⟨x, d, hd, -, hlabel⟩ :=
        hline.branch i (List.mem_of_getElem? hi) (by simpa using hbr)
      have := hout x d hd
      rw [Delegate.contains, List.contains_eq_mem, decide_eq_false_iff_not]
        at this
      exact this (List.mem_of_getElem? hlabel)
    have hnonneg := Instr.effect?_nonneg he
    have hback : m.pusherBelow m.code.branchTargets (n + 1) j = _ :=
      pusherBelow_instr (h.endsAt_none hb hs hnone hi he hpops) hi he
        ((hline.joinsOwn hb).closesDelegate hb hi)
    rw [Instr.stopsWalk_eq, hplain, Bool.false_or] at hback
    by_cases hj : j < e.pushes.toNat
    · -- the value is one that the instruction pushed
      rw [marked, List.getElem?_append_left (by simpa using hj),
        List.getElem?_replicate_of_lt hj, Option.some.injEq] at hp
      subst hp
      have hgo : i.endsControl = false := by
        by_contra hends
        have hstop : i.stopsWalk = true := by
          rw [Instr.stopsWalk_eq, hplain, Bool.false_or]
          simpa using hends
        have := Instr.pushes_of_stopsWalk hstop he
        omega
      rw [hgo, if_neg (by simp), if_pos (by omega)] at hback
      refine ⟨n, hb.indexOf?_eq hi, by omega, fun _ => hback, fun hends => ?_⟩
      obtain ⟨x, -, hnx, hxn, -⟩ := hends
      omega
    · -- the value was there before
      rw [marked, List.getElem?_append_right (by simpa using hj),
        List.length_replicate, List.getElem?_drop] at hp
      obtain ⟨k, hk, hkn, hfound, hended⟩ := ih hp
      have hdepth : (j : Int) + e.pops - e.pushes =
          ((e.pops.toNat + (j - e.pushes.toNat) : Nat) : Int) := by omega
      rw [if_neg (show ¬((j : Int) < e.pushes) by omega), hdepth] at hback
      refine ⟨k, hk, by omega, fun hends => ?_, fun hends => ?_⟩
      · rw [endsBetween_succ hkn hi, not_or] at hends
        rw [hback, if_neg hends.2, hfound hends.1]
      · rcases (endsBetween_succ hkn hi).1 hends with hends | hends
        · rw [hback, hended hends, ite_self]
        · rw [hback, if_pos hends]

/-- A run forward comes to every instruction that belongs to no sequence, and
its values are there. -/
theorem Simulates.reaches (hb : m.code.HasOwnLabels) (h : m.Simulates s k st)
    (hs : s ≤ n) (hk : n < k) (hi : m.code.code[n]? = some i)
    (ho : m.Outside i.label) (he : m.effect? i = some e) :
    ∃ st, m.Simulates s n st ∧ e.pops ≤ st.length := by
  induction h with
  | start => omega
  | delegate h hd ih =>
    rename_i x st d
    by_cases hlt : n < x
    · exact ih hlt
    · obtain ⟨hend, hspan⟩ := (delegateStartingAt_eq_some_iff hb).1 hd
      have := ho.lt_or_lt hi hend
      omega
  | instr h hnone hj hf hpops ih =>
    rename_i x st j f
    rcases Nat.lt_or_eq_of_le (Nat.lt_succ_iff.1 hk) with hlt | rfl
    · exact ih hlt
    · rw [hi] at hj
      cases hj
      rw [he] at hf
      cases hf
      exact ⟨st, h, hpops⟩

/-- On straight-line code the walk back agrees with the run forward: where the
labels are distinct and the run comes to the end, it comes to every instruction
outside of sequences, and the walk gives for each argument the mark of the
simulated stack, or nothing if control ends between the two instructions. -/
theorem pusher_simulates (hb : m.code.HasOwnLabels) (hline : m.StraightLine)
    (hrun : ∃ st, m.Simulates 0 m.code.size st) (hi : m.code.code[n]? = some i)
    (ho : m.Outside i.label) (he : m.effect? i = some e) :
    ∃ st, m.Simulates 0 n st ∧ e.pops ≤ st.length ∧
      ∀ arg : Int, 0 ≤ arg → arg < e.pops →
        ∃ p k, st[(e.pops - 1 - arg).toNat]? = some p ∧
        m.code.indexOf? p = some k ∧ k < n ∧
          (¬m.EndsBetween k n → m.pusher arg i.label = .ok (some p)) ∧
          (m.EndsBetween k n → m.pusher arg i.label = .ok none) := by
  obtain ⟨end_, hend⟩ := hrun
  obtain ⟨st, hst, hpops⟩ :=
    hend.reaches hb (Nat.zero_le _) (List.getElem?_eq_some_iff.1 hi).1
    hi ho he
  refine ⟨st, hst, hpops, fun arg h0 hlt => ?_⟩
  have hin : (e.pops - 1 - arg).toNat < st.length := by omega
  obtain ⟨k, hk, hkn, hfound, hended⟩ :=
    hst.pusherBelow_eq hb m.parts_zero hline (List.getElem?_eq_getElem hin)
  rw [Int.toNat_of_nonneg (by omega)] at hfound hended
  rw [pusher_eq hb hi he h0 hlt]
  exact ⟨_, k, List.getElem?_eq_getElem hin, hk, hkn, hfound, hended⟩

theorem pusher_simulates_around :
    aroundCache.StraightLine ∧ aroundCache.Simulates 0 12 [0] ∧
      aroundCache.pusher 0 12 = .ok (some 0) := by
  have hline : aroundCache.StraightLine := by decide +kernel
  have hend : aroundCache.Simulates 0 14 [] :=
    simulates_iff.2 ⟨6, by decide +kernel⟩
  have hrun : aroundCache.Simulates 0 12 [0] :=
    simulates_iff.2 ⟨4, by decide +kernel⟩
  refine ⟨hline, hrun, ?_⟩
  obtain ⟨st, hst, -, harg⟩ :=
    pusher_simulates (n := 12) (i := ⟨12, .pop, .none⟩)
    (e := ⟨1, 0⟩) (by decide +kernel) hline ⟨[], hend⟩
      rfl (by decide +kernel) rfl
  obtain rfl := hst.unique hrun
  obtain ⟨p, k, hp, hk, -, hfound, -⟩ := harg 0 le_rfl (by decide)
  obtain rfl : 0 = p := by simpa using hp
  obtain rfl : 0 = k := Option.some.inj hk
  exact hfound (by decide +kernel)

/-- The walk back takes a sequence to start where its first instruction occurs
first, and it gives up where control ends, which the run forward does not
see. -/
theorem not_pusher_simulates_repeated :
    (repeatedHead.StraightLine ∧ (∃ st, repeatedHead.Simulates 0 9 st) ∧
      repeatedHead.Outside 6 ∧ repeatedHead.Simulates 0 7 [2] ∧
      repeatedHead.pusher 0 6 = .ok none) ∧
    behindReturn.StraightLine ∧ (∃ st, behindReturn.Simulates 0 4 st) ∧
      behindReturn.Outside 2 ∧ behindReturn.Simulates 0 2 [0] ∧
      behindReturn.pusher 0 2 = .ok none := by
  refine ⟨⟨by decide +kernel, ⟨[], simulates_iff.2 ⟨7, by decide +kernel⟩⟩,
    by decide +kernel, simulates_iff.2 ⟨5, by decide +kernel⟩,
    by decide +kernel⟩,
    by
    decide +kernel, ⟨[], simulates_iff.2 ⟨4, by decide +kernel⟩⟩, by
      decide +kernel, simulates_iff.2 ⟨2, by decide +kernel⟩, by decide +kernel⟩

end MethodDef

end JobWeave
