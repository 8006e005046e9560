import Mathlib
import JobWeave.Proofs.Body.Heights
import JobWeave.Proofs.Flow.Origin

/-!
# The walk back against every run

A method with branches has many runs.  In each of them every value on the stack
is marked with the instruction that pushed it.  The walk back looks at the code
in one order only, so what it finds is right for every run as far as control
comes to what it crosses from before.

* `MethodDef.Runs` is the machine with marks, and `MethodDef.SingleEntry` says
  that control comes to a position only from the instruction before it or from
  the delegate sequence before it.
* `MethodDef.Runs.through_span`: a run that leaves a delegate sequence came
  through its head, and the sequence pushed one value.
* `MethodDef.pusher_runs`: where control comes to the taking instruction and to
  delegate sequences in order, the walk back finds what every run finds.  The
  walk itself takes care of the branches to other instructions.
-/

namespace JobWeave

namespace Body

variable {b : Body} {n k : Nat} {i : Instr}

theorem passes_iff :
    b.Passes n i k ↔
    (i.op.flow ≠ .ret ∧ i.op.flow ≠ .throw ∧ i.op.flow ≠ .branch ∧ k = n + 1) ∨
      (i.op.isBranch = true ∧ ∃ l ∈ i.operand.labels,
        b.indexOf? l = some k) := by
  constructor
  · rintro (⟨hret, hthrow, hbranch⟩ | ⟨hbr, hl, hk⟩)
    · exact .inl ⟨hret, hthrow, hbranch, rfl⟩
    · exact .inr ⟨hbr, _, hl, hk⟩
  · rintro (⟨hret, hthrow, hbranch, rfl⟩ | ⟨hbr, l, hl, hk⟩)
    · exact .next hret hthrow hbranch
    · exact .jump hbr hl hk

instance : Decidable (b.Passes n i k) :=
  decidable_of_iff _ passes_iff.symm

/-- A label is first at the position of an instruction that has it, or
before. -/
theorem exists_indexOf?_le (hi : b.code[n]? = some i) :
    ∃ k ≤ n, b.indexOf? i.label = some k := by
  obtain ⟨hlt, rfl⟩ := List.getElem?_eq_some_iff.1 hi
  obtain ⟨k, hk⟩ := Option.isSome_iff_exists.1 <| indexOf?_isSome_iff.2 <|
    List.any_eq_true.2 ⟨b.code[n], List.getElem_mem hlt, beq_self_eq_true _⟩
  refine ⟨k, ?_, hk⟩
  obtain ⟨_, _, hfirst⟩ := List.findIdx?_eq_some_iff_getElem.1 hk
  by_contra hnk
  simpa using hfirst n (by omega)

/-- A jump leads to a branch target. -/
theorem mem_branchTargets {l : Label} (hi : i ∈ b.code)
    (hbr : i.op.isBranch = true) (hl : l ∈ i.operand.labels) :
    l ∈ b.branchTargets := by
  rw [branchTargets, List.mem_eraseDups, List.mem_flatMap]
  refine ⟨i, hi, ?_⟩
  cases ho : i.operand <;> simp_all [Operand.labels]

end Body

namespace MethodDef

open Body

variable {m : MethodDef} {s n k : Nat} {st : List Label} {d : Delegate}
  {p : Label} {i : Instr} {e : StackEffect}

/-! ## The machine with marks -/

/-- The stack of marks that an instruction leaves; leaving a block drops all
values. -/
def marksAfter (i : Instr) (e : StackEffect) (st : List Label) : List Label :=
  if i.op = .leave ∨ i.op = .leaveS then [] else marked i e st

/-- A run from the entry comes to a position with a stack of marks. -/
inductive Runs (m : MethodDef) : Nat → List Label → Prop where
  /-- the stack is empty at the start -/
  | entry : Runs m 0 []
  /-- one instruction further -/
  | step {n k : Nat} {st : List Label} {i : Instr} {e : StackEffect} :
    Runs m n st →
      m.code.code[n]? = some i → m.effect? i = some e → e.pops ≤ st.length →
      m.code.Passes n i k → Runs m k (marksAfter i e st)

/-- Control comes to the position only from the instruction before it, or from
within the delegate sequence that ends before it. -/
def SingleEntry (m : MethodDef) (n : Nat) : Prop :=
  ∀ k i, m.code.code[k]? = some i → m.code.Passes k i n → k + 1 = n ∨
    ∃ d, m.code.delegateEndingAt m.hasThis (n - 1) = .ok (some d) ∧
    d.contains i.label = true

/-- The position belongs to a delegate sequence or is the one behind it. -/
def AtSequence (m : MethodDef) (n : Nat) : Prop :=
  ∃ k d, m.code.delegateEndingAt m.hasThis k = .ok (some d) ∧
    n ≤ k + 1 ∧ k + 1 ≤ n + d.labels.length

/-- Control comes to position `n`, and to the delegate sequences between `k` and
it, in order. -/
def Guarded (m : MethodDef) (k n : Nat) : Prop :=
  ∀ x, k < x → x ≤ n → x = n ∨ m.AtSequence x → m.SingleEntry x

instance : Decidable (m.SingleEntry n) :=
  decidable_of_iff (∀ k < m.code.code.length, ∀ i ∈ m.code.code[k]?,
    m.code.Passes k i n →
      k + 1 = n ∨ ∃ x ∈ m.sequences, x.1 = n - 1 ∧ x.2.contains i.label =
        true) <| by
    simp only [SingleEntry, Prod.exists, mem_sequences]
    constructor
    · intro h k i hi hp
      refine (h k (List.getElem?_eq_some_iff.1 hi).1 i hi hp).imp_right ?_
      rintro ⟨x, d, hd, rfl, hmem⟩
      exact ⟨d, hd, hmem⟩
    · intro h k _ i hi hp
      exact (h k i hi hp).imp_right fun ⟨d, hd, hmem⟩ => ⟨_, d, hd, rfl, hmem⟩

instance : Decidable (m.AtSequence n) :=
  decidable_of_iff (∃ x ∈ m.sequences, n ≤ x.1 + 1 ∧
    x.1 + 1 ≤ n + x.2.labels.length) (exists_sequence_iff (P := fun k d => n ≤
      k + 1 ∧ k + 1 ≤ n + d.labels.length)).symm

instance : Decidable (m.Guarded k n) :=
  decidable_of_iff (∀ x ≤ n, k < x → x = n ∨ m.AtSequence x → m.SingleEntry x)
    ⟨fun h x hk hn => h x hn hk, fun h x hn hk => h x hk hn⟩

/-- One step of the machine to a position, computed. -/
def runTo (m : MethodDef) (x : Nat × List Label) (k : Nat) :
    Option (Nat × List Label) := do
  let i ← m.code.code[x.1]?
  let e ← m.effect? i
  if e.pops ≤ x.2.length ∧ m.code.Passes x.1 i k then some (k,
    marksAfter i e x.2) else none

theorem Runs.runTo {x y : Nat × List Label} (h : m.Runs x.1 x.2)
    (hy : m.runTo x k = some y) :
    m.Runs y.1 y.2 := by
  obtain ⟨i, hi, hy⟩ := Option.bind_eq_some_iff.1 hy
  obtain ⟨e, he, hy⟩ := Option.bind_eq_some_iff.1 hy
  split at hy
  · rename_i hstep
    cases hy
    exact h.step hi he hstep.1 hstep.2
  · cases hy

/-- What is computed along a path is a run. -/
theorem Runs.of_path (path : List Nat) {x y : Nat × List Label}
    (h : m.Runs x.1 x.2) (hy : path.foldlM m.runTo x = some y) :
    m.Runs y.1 y.2 := by
  induction path generalizing x with
  | nil =>
    cases hy
    exact h
  | cons k path ih =>
    obtain ⟨z, hz, hy⟩ := Option.bind_eq_some_iff.1
      (List.foldlM_cons.symm.trans hy)
    exact ih (h.runTo hz) hy

/-- Behind an instruction that ends no sequence a run comes from that
instruction. -/
theorem Runs.of_singleEntry (h : m.Runs (n + 1) st) (hs : m.SingleEntry (n + 1))
    (hnone : ∀ d, m.code.delegateEndingAt m.hasThis n ≠ .ok (some d))
    (hi : m.code.code[n]? = some i) (he : m.effect? i = some e) :
    ∃ st', m.Runs n st' ∧ e.pops ≤ st'.length ∧ st = marksAfter i e st' := by
  generalize hk : n + 1 = k at h
  cases h with
  | entry => omega
  | step h hj hf hpops hp =>
    subst hk
    rcases hs _ _ hj hp with heq | ⟨d, hd, -⟩
    · obtain rfl := Nat.succ.inj heq
      rw [hi] at hj
      cases hj
      rw [he] at hf
      cases hf
      exact ⟨_, h, hpops, rfl⟩
    · exact (hnone d hd).elim

/-! ## Through a sequence -/

/-- No sequence ends inside another one. -/
theorem not_ending_inside {d' : Delegate} (hspan : m.code.Spans s d)
    (hs : s ≤ n) (hn : n + 1 < s + d.labels.length) :
    m.code.delegateEndingAt m.hasThis n ≠ .ok (some d') := by
  intro h
  obtain ⟨x, hx, hspan'⟩ := spans_of_delegateEndingAt h
  rcases Nat.le_total s x with hle | hle
  · have := hspan.outline.eq_of_overlap hspan'.outline hle (by omega)
    omega
  · have := hspan'.outline.eq_of_overlap hspan.outline hle (by omega)
    omega

/-- The only branch of a sequence is that of a cached one. -/
theorem branch_of_span (hspan : m.code.Spans s d) {j : Nat}
    (hj : j < d.labels.length) (hi : m.code.code[s + j]? = some i)
    (hbr : i.op.isBranch = true) :
    d.labels.length = 9 ∧ j = 2 := by
  have hplain : ∀ {op : Opcode}, loadsReceiver op = true →
      op.isBranch = false := by
    intro op h
    cases op <;> first | rfl | cases h
  obtain ⟨x, c, hx, hnew, -, -⟩ := hspan.make
  have hop := opAt?_eq hi
  have hcached := hspan.cached
  have hout := hspan.outline
  generalize d.labels.length = len at hj hcached hout ⊢
  cases hout with
  | simple h0 hload h1 h2 =>
    exfalso
    interval_cases j
    · rw [Nat.add_zero, h0, Option.some.injEq] at hop
      rw [← hop, hplain hload] at hbr
      cases hbr
    · rw [h1, Option.some.injEq] at hop
      rw [← hop] at hbr
      cases hbr
    · rw [h2, Option.some.injEq] at hop
      rw [← hop] at hbr
      cases hbr
  | cached h0 h1 h2 hop2 h3 h4 h5 h7 h8 =>
    refine ⟨rfl, ?_⟩
    rw [if_pos (hcached.2 rfl)] at hx
    have h6 : m.code.opAt? (s + 6) = some .newobj := by rw [opAt?_eq hx, hnew]
    by_contra hne
    have hmem : i.op ∈ [Opcode.ldsfld, .dup, .pop, .ldftn, .newobj,
        .stsfld] := by
      interval_cases j <;> simp_all
    exact absurd hbr <| by
      simpa using (by decide :
        ∀ op ∈ [Opcode.ldsfld, .dup, .pop, .ldftn, .newobj, .stsfld],
          op.isBranch = false) _ hmem

/-- How many values a sequence has on the stack before its instructions and
behind them. -/
def spanHeights (len : Nat) : List Nat :=
  if len = 3 then [0, 1, 2, 1] else [0, 1, 2, 1, 0, 1, 2, 1, 2, 1]

/-- The instructions of a sequence take values of the sequence only. -/
theorem effect_of_span (hspan : m.code.Spans s d) {j : Nat}
    (hj : j < d.labels.length) :
    ∃ i e h h', m.code.code[s + j]? = some i ∧ m.effect? i = some e ∧
      (spanHeights d.labels.length)[j]? = some h ∧
      (spanHeights d.labels.length)[j + 1]? = some h' ∧
      e.pops.toNat ≤ h ∧ h' = e.pushes.toNat + (h - e.pops.toNat) ∧
      i.op ≠ .leave ∧ i.op ≠ .leaveS := by
  have hreceiver : ∀ {op : Opcode}, loadsReceiver op = true →
    op.isCall = false ∧ op ≠ .ret ∧
      op.info.pop = 0 ∧ op.info.push = 1 ∧ op ≠ .leave ∧ op ≠ .leaveS := by
    intro op h
    cases op <;> first | (exact ⟨rfl, by simp, rfl, rfl, by simp, by simp⟩) |
      cases h
  have hplain : ∀ {j : Nat} {op : Opcode}, m.code.opAt? (s + j) = some op →
    op.isCall = false →
      op ≠ .ret → ∃ i, m.code.code[s + j]? = some i ∧ i.op = op ∧
        m.effect? i = some ⟨op.info.pop, op.info.push⟩ := by
    intro j op hop hcall hret
    obtain ⟨i, hi, rfl⟩ := Option.map_eq_some_iff.1 hop
    exact ⟨i, hi, rfl, Instr.effect?_eq_info hcall hret⟩
  obtain ⟨x, c, hx, hnew, hoperand, hparams⟩ := hspan.make
  have hmake : m.effect? x = some ⟨2, 1⟩ := by
    simp [effect?, Instr.effect?, hnew, hoperand, StackEffect.ofCall, hparams]
  have hcached := hspan.cached
  have hout := hspan.outline
  generalize d.labels.length = len at hj hcached hout ⊢
  cases hout with
  | simple h0 hload h1 h2 =>
    rw [if_neg (by simpa using hcached.not.2 (by omega))] at hx
    interval_cases j
    · obtain ⟨hcall, hret, hpop, hpush, hleave, hleaveS⟩ := hreceiver hload
      obtain ⟨i, hi, rfl, he⟩ := hplain (j := 0) h0 hcall hret
      exact ⟨i, _, 0, 1, hi, he, rfl, rfl,
        by simp [hpop], by simp [hpop, hpush], hleave, hleaveS⟩
    · obtain ⟨i, hi, hop, he⟩ := hplain (j := 1) h1 rfl (by simp)
      exact ⟨i, _, 1, 2, hi, he, rfl, rfl,
        by decide, rfl, by simp [hop], by simp [hop]⟩
    · exact ⟨x, _, 2, 1, hx, hmake, rfl, rfl,
        by decide, rfl, by simp [hnew], by simp [hnew]⟩
  | cached h0 h1 h2 hbr h3 h4 h5 h7 h8 =>
    rw [if_pos (hcached.2 rfl)] at hx
    interval_cases j
    · obtain ⟨i, hi, hop, he⟩ := hplain (j := 0) h0 rfl (by simp)
      exact ⟨i, _, 0, 1, hi, he, rfl, rfl,
        by decide, rfl, by simp [hop], by simp [hop]⟩
    · obtain ⟨i, hi, hop, he⟩ := hplain (j := 1) h1 rfl (by simp)
      exact ⟨i, _, 1, 2, hi, he, rfl, rfl,
        by decide, rfl, by simp [hop], by simp [hop]⟩
    · obtain ⟨i, hi, hop, he⟩ :=
        hplain (j := 2) h2 (by rcases hbr with rfl | rfl <;> rfl)
        (by rcases hbr with rfl | rfl <;> simp)
      refine ⟨i, _, 2, 1, hi, he, rfl, rfl, ?_⟩
      rcases hbr with rfl | rfl <;>
        exact ⟨by decide, rfl, by simp [hop], by simp [hop]⟩
    · obtain ⟨i, hi, hop, he⟩ := hplain (j := 3) h3 rfl (by simp)
      exact ⟨i, _, 1, 0, hi, he, rfl, rfl,
        by decide, rfl, by simp [hop], by simp [hop]⟩
    · obtain ⟨i, hi, hop, he⟩ := hplain (j := 4) h4 rfl (by simp)
      exact ⟨i, _, 0, 1, hi, he, rfl, rfl,
        by decide, rfl, by simp [hop], by simp [hop]⟩
    · obtain ⟨i, hi, hop, he⟩ := hplain (j := 5) h5 rfl (by simp)
      exact ⟨i, _, 1, 2, hi, he, rfl, rfl,
        by decide, rfl, by simp [hop], by simp [hop]⟩
    · exact ⟨x, _, 2, 1, hx, hmake, rfl, rfl,
        by decide, rfl, by simp [hnew], by simp [hnew]⟩
    · obtain ⟨i, hi, hop, he⟩ := hplain (j := 7) h7 rfl (by simp)
      exact ⟨i, _, 1, 2, hi, he, rfl, rfl,
        by decide, rfl, by simp [hop], by simp [hop]⟩
    · obtain ⟨i, hi, hop, he⟩ := hplain (j := 8) h8 rfl (by simp)
      exact ⟨i, _, 2, 1, hi, he, rfl, rfl,
        by decide, rfl, by simp [hop], by simp [hop]⟩

/-- The stack before the instruction at place `j` of a sequence: values of the
sequence over those that were there at its head. -/
def AtPlace (m : MethodDef) (s : Nat) (d : Delegate) (j : Nat)
    (st : List Label) : Prop :=
  ∃ own st', m.Runs s st' ∧ st = own ++ st' ∧
    (spanHeights d.labels.length)[j]? = some own.length ∧ ∀ q ∈ own,
    d.contains q = true

/-- An instruction of a sequence keeps the values under the sequence. -/
theorem AtPlace.step (hspan : m.code.Spans s d) {j : Nat}
    (hj : j < d.labels.length) (h : m.AtPlace s d j st)
    (hi : m.code.code[s + j]? = some i) (he : m.effect? i = some e) :
    ∃ own st', m.Runs s st' ∧ marksAfter i e st = own ++ st' ∧
      (spanHeights d.labels.length)[j + 1]? = some own.length ∧
      ∀ q ∈ own, d.contains q = true := by
  obtain ⟨own, st', hst', rfl, hown, hin⟩ := h
  obtain ⟨i', e', h, h', hi', he', hh, hh', hpops, hnext, hleave, hleaveS⟩ :=
    effect_of_span hspan hj
  obtain rfl : i = i' := Option.some.inj (hi.symm.trans hi')
  obtain rfl : e = e' := Option.some.inj (he.symm.trans he')
  obtain rfl : own.length = h := Option.some.inj (hown.symm.trans hh)
  refine ⟨List.replicate e.pushes.toNat i.label ++ own.drop e.pops.toNat, st',
    hst', ?_, ?_, ?_⟩
  · rw [marksAfter, if_neg (by simp [hleave, hleaveS]), marked,
      List.drop_append_of_le_length hpops, List.append_assoc]
  · rw [hh', hnext]
    simp
  · intro q hq
    rcases List.mem_append.1 hq with hq | hq
    · rw [List.eq_of_mem_replicate hq]
      exact hspan.contains_iff.2 ⟨j, hj, i, hi, rfl⟩
    · exact hin q (List.mem_of_mem_drop hq)

/-- Where control comes to the inside of a sequence in order, a run there came
through its head. -/
theorem Runs.atPlace (hspan : m.code.Spans s d) {j : Nat}
    (hj : j < d.labels.length)
    (hin : ∀ x, s < x → x < s + d.labels.length → m.SingleEntry x)
    (h : m.Runs (s + j) st) :
    m.AtPlace s d j st := by
  induction j generalizing st with
  | zero =>
    refine ⟨[], st, h, rfl, ?_, by simp⟩
    rw [spanHeights]
    split <;> rfl
  | succ j ih =>
    obtain ⟨i, e, -, -, hi, he, -⟩ := effect_of_span hspan (j := j) (by omega)
    rw [← Nat.add_assoc] at h
    obtain ⟨st', hst', -, rfl⟩ := h.of_singleEntry (hin _ (by omega) (by omega))
      (fun _ => not_ending_inside hspan (by omega) (by omega)) hi he
    exact (ih (by omega) hst').step hspan (by omega) hi he

/-- Where control comes to a sequence and behind it in order, a run that leaves
the sequence came through its head, and the sequence pushed one value. -/
theorem Runs.through_span (hb : m.code.HasOwnLabels) (hspan : m.code.Spans s d)
    (hd : m.code.delegateEndingAt m.hasThis (s + d.labels.length - 1) =
      .ok (some d))
    (hin : ∀ x, s < x → x ≤ s + d.labels.length → m.SingleEntry x)
    (h : m.Runs (s + d.labels.length) st) :
    ∃ q st', m.Runs s st' ∧ st = q :: st' ∧ d.contains q = true := by
  have hlen := hspan.outline.length_eq
  generalize hn : s + d.labels.length = n at h
  cases h with
  | entry => omega
  | step h hi he hpops hp =>
    rename_i k st i e
    subst hn
    -- the last step was made from an instruction of the sequence
    obtain ⟨j, hj, rfl⟩ : ∃ j < d.labels.length, k = s + j := by
      rcases hin _ (by omega) le_rfl k i hi hp with hk | ⟨d', hd', hmem⟩
      · exact ⟨d.labels.length - 1, by omega, by omega⟩
      · rw [hd] at hd'
        cases hd'
        obtain ⟨j, hj, i', hi', hlabel⟩ := hspan.contains_iff.1 hmem
        exact ⟨j, hj, hb.eq_of_label hi hi' hlabel.symm⟩
    have hplace := h.atPlace hspan hj fun x hsx hx => hin x hsx hx.le
    obtain ⟨own, st', hst', hafter, hown, hmem⟩ := hplace.step hspan hj hi he
    have hone : (spanHeights d.labels.length)[j + 1]? = some 1 := by
      generalize hk : s + d.labels.length = k at hp
      cases hp with
      | next =>
        have hj : j + 1 = d.labels.length := by omega
        rcases hlen with hlen | hlen <;> rw [hj, hlen] <;> rfl
      | jump hbr =>
        obtain ⟨hnine, rfl⟩ := branch_of_span hspan hj hi hbr
        rw [hnine]
        rfl
    obtain ⟨q, rfl⟩ := List.length_eq_one_iff.1
      (Option.some.inj (hown.symm.trans hone))
    exact ⟨q, st', hst',
      by simpa using hafter, hmem q (List.mem_singleton_self q)⟩

/-! ## Steps of the walk back -/

/-- No instruction of an accepted method occurs twice. -/
theorem hasOwnLabels_of_validate {fullName : String}
    (h : m.validate fullName m.code = .ok ()) : m.code.HasOwnLabels := by
  rw [validate] at h
  cases hshape : m.code.checkShapes m.argCount with
  | ok => exact (checkShapes_eq_ok_iff.1 hshape).1
  | error => simp [hshape, bind, Except.bind, Except.mapError] at h

/-- What a step of the walk back that finds something did. -/
theorem pusherBelow_eq_some (hb : m.code.HasOwnLabels) {targets : List Label}
    {depth : Int} (h : m.pusherBelow targets (n + 1) depth = .ok (some p)) :
    (∃ s d, m.code.delegateEndingAt m.hasThis n = .ok (some d) ∧
      n + 1 = s + d.labels.length ∧ m.code.Spans s d ∧ (depth = 0 ∧
        p = d.first ∨ depth ≠ 0 ∧
          m.pusherBelow targets s (depth - 1) = .ok (some p))) ∨
    ∃ i e, m.code.delegateEndingAt m.hasThis n = .ok none ∧
    m.code.code[n]? = some i ∧
      m.effect? i = some e ∧ i.stopsWalk = false ∧
      (targets.contains i.label = true → m.closesDelegate n i.label =
        .ok true) ∧
      (depth < e.pushes ∧ p = i.label ∨
        e.pushes ≤ depth ∧ m.pusherBelow targets n (depth + e.pops - e.pushes) =
          .ok (some p)) := by
  have hwalk := h
  rw [pusherBelow] at h
  obtain ⟨o, ho, h⟩ := bind_eq_ok_iff.1 h
  cases o with
  | some d =>
    left
    obtain ⟨s, hs, hspan⟩ := spans_of_delegateEndingAt ho
    refine ⟨s, d, ho, hs, hspan, ?_⟩
    rw [hs, pusherBelow_delegate hb (by rwa [← hs, Nat.add_sub_cancel]) hspan]
      at hwalk
    split at hwalk
    · rename_i hdepth
      cases hwalk
      exact .inl ⟨hdepth, rfl⟩
    · rename_i hdepth
      exact .inr ⟨hdepth, hwalk⟩
  | none =>
    right
    simp only at h
    split at h
    · cases h
    · rename_i i hi
      split at h
      · cases h
      · rename_i hgo
        have hjoin : targets.contains i.label = true →
            m.closesDelegate n i.label = .ok true := by
          intro ht
          rw [if_pos ht] at h
          obtain ⟨closes, hcloses, h⟩ := bind_eq_ok_iff.1 h
          cases closes with
          | true => exact hcloses
          | false => cases h
        obtain ⟨e, he⟩ : ∃ e, m.effect? i = some e := by
          cases he : m.effect? i with
          | some e => exact ⟨e, rfl⟩
          | none =>
            have heff : m.effect i = Outcome.fault := by rw [effect, he]; rfl
            split at h
            · rename_i ht
              rw [hjoin ht, heff] at h
              cases h
            · rw [heff] at h
              cases h
        rw [pusherBelow_instr ho hi he hjoin, if_neg hgo] at hwalk
        refine ⟨i, e, ho, hi, he, by simpa using hgo, hjoin, ?_⟩
        split at hwalk
        · rename_i hlt
          cases hwalk
          exact .inl ⟨hlt, rfl⟩
        · rename_i hle
          exact .inr ⟨by omega, hwalk⟩

/-- What the walk back finds is in the code before where it starts. -/
theorem exists_of_pusherBelow {targets : List Label} {depth : Int}
    (h : m.pusherBelow targets n depth = .ok (some p)) :
    ∃ k < n, m.code.indexOf? p = some k := by
  induction n using Nat.strong_induction_on generalizing depth with
  | _ n ih =>
    cases n with
    | zero =>
      rw [pusherBelow] at h
      cases h
    | succ n =>
      rw [pusherBelow] at h
      obtain ⟨o, ho, h⟩ := bind_eq_ok_iff.1 h
      cases o with
      | some d =>
        obtain ⟨s, hs, hspan⟩ := spans_of_delegateEndingAt ho
        obtain ⟨i, hi, hfirst⟩ := hspan.first_at
        obtain ⟨k, hks, hk⟩ := exists_indexOf?_le hi
        have hlen := hspan.outline.length_eq
        simp only at h
        split at h
        · cases h
          exact ⟨k, by omega, hfirst ▸ hk⟩
        · obtain ⟨x, hx, hp⟩ := ih _ (by omega) h
          exact ⟨x, by omega, hp⟩
      | none =>
        simp only at h
        split at h
        · cases h
        · rename_i i hi
          split at h
          · cases h
          · obtain ⟨e, h⟩ : ∃ e : StackEffect,
              (if e.pushes > depth then pure (some i.label)
                else m.pusherBelow targets n (depth + e.pops - e.pushes)) =
                  .ok (some p) := by
              split at h
              · obtain ⟨closes, -, h⟩ := bind_eq_ok_iff.1 h
                cases closes with
                | true =>
                  obtain ⟨e, -, h⟩ := bind_eq_ok_iff.1 h
                  exact ⟨e, h⟩
                | false => cases h
              · obtain ⟨e, -, h⟩ := bind_eq_ok_iff.1 h
                exact ⟨e, h⟩
            split at h
            · cases h
              obtain ⟨k, hkn, hk⟩ := exists_indexOf?_le hi
              exact ⟨k, Nat.lt_succ_of_le hkn, hk⟩
            · obtain ⟨k, hkn, hk⟩ := ih n n.lt_succ_self h
              exact ⟨k, hkn.trans n.lt_succ_self, hk⟩

theorem lt_of_pusherBelow {targets : List Label} {depth : Int}
    (h : m.pusherBelow targets n depth = .ok (some p))
    (hk : m.code.indexOf? p = some k) :
    k < n := by
  obtain ⟨k', hlt, hk'⟩ := exists_of_pusherBelow h
  rw [hk, Option.some.injEq] at hk'
  omega

/-- Control comes in order to an instruction that the walk back has crossed. -/
theorem singleEntry_of_crossed (hi : m.code.code[n]? = some i)
    (hjoin : m.code.branchTargets.contains i.label = true →
      m.closesDelegate n i.label = .ok true)
    (hseq : m.AtSequence n → m.SingleEntry n) : m.SingleEntry n := by
  by_cases ht : m.code.branchTargets.contains i.label = true
  · -- the target is behind a cached sequence
    refine hseq ?_
    have hcloses := hjoin ht
    unfold closesDelegate at hcloses
    split at hcloses
    · cases hcloses
    · obtain ⟨o, ho, hcloses⟩ := bind_eq_ok_iff.1 hcloses
      cases o with
      | none => cases hcloses
      | some d => exact ⟨n - 1, d, ho, by omega, by omega⟩
  · intro k j hj hp
    generalize hx : n = x at hp
    cases hp with
    | next => exact .inl rfl
    | jump hbr hl hidx =>
      subst hx
      rename_i l
      refine absurd (List.contains_iff_mem.2 ?_) ht
      have htarget := mem_branchTargets (List.mem_of_getElem? hj) hbr hl
      obtain ⟨hlt, heq, -⟩ := List.findIdx?_eq_some_iff_getElem.1 hidx
      obtain ⟨-, rfl⟩ := List.getElem?_eq_some_iff.1 hi
      rwa [eq_of_beq heq]

/-- The mark was pushed by the instruction, or by the delegate sequence that it
starts. -/
def PushedFrom (m : MethodDef) (p q : Label) : Prop :=
  q = p ∨ ∃ n d, m.code.delegateEndingAt m.hasThis n = .ok (some d) ∧
    d.first = p ∧ d.contains q = true

instance (p q : Label) : Decidable (m.PushedFrom p q) :=
  decidable_of_iff (q = p ∨ ∃ x ∈ m.sequences, x.2.first = p ∧
    x.2.contains q = true) <| or_congr_right
      (exists_sequence_iff (P := fun _ d => d.first = p ∧
        d.contains q = true)).symm

/-- The walk back from a position that control comes to in order finds what
every run there finds at that depth. -/
theorem Runs.pushedFrom (hb : m.code.HasOwnLabels) {depth : Int}
    (h0 : 0 ≤ depth)
    (hwalk : m.pusherBelow m.code.branchTargets n depth = .ok (some p))
    (hk : m.code.indexOf? p = some k) (hguard : m.Guarded k n)
    (h : m.Runs n st) :
    ∃ q, st[depth.toNat]? = some q ∧ m.PushedFrom p q := by
  induction n using Nat.strong_induction_on generalizing depth st with
  | _ n ih =>
    cases n with
    | zero =>
      rw [pusherBelow] at hwalk
      cases hwalk
    | succ n =>
      have hkn := lt_of_pusherBelow hwalk hk
      rcases pusherBelow_eq_some hb hwalk with
        ⟨s, d, hd, hn, hspan, hfound⟩ | ⟨i, e, hnone, hi, he, hgo,
          hjoin, hfound⟩
      · -- a sequence is crossed: it pushed the value on top
        have hlen := hspan.outline.length_eq
        have hks : k ≤ s := by
          rcases hfound with ⟨-, rfl⟩ | ⟨-, hwalk⟩
          · obtain ⟨i, hi, hfirst⟩ := hspan.first_at
            rw [← hfirst, hb.indexOf?_eq hi, Option.some.injEq] at hk
            omega
          · exact (lt_of_pusherBelow hwalk hk).le
        have hin : ∀ x, s < x → x ≤ s + d.labels.length → m.SingleEntry x :=
          fun x hsx hx =>
          hguard x (by omega) (by omega) (.inr ⟨n, d, hd, by omega, by omega⟩)
        rw [hn] at h
        obtain ⟨q, st', hst', rfl, hq⟩ := h.through_span hb hspan
          (by rwa [← hn, Nat.add_sub_cancel]) hin
        rcases hfound with ⟨rfl, rfl⟩ | ⟨hne, hwalk⟩
        · exact ⟨q, rfl, .inr ⟨n, d, hd, rfl, hq⟩⟩
        · have hks := lt_of_pusherBelow hwalk hk
          have hsingle : m.SingleEntry s :=
            hguard s hks (by omega) (.inr ⟨n, d, hd, by omega, by omega⟩)
          obtain ⟨r, hr, hfrom⟩ := ih s (by omega) (by omega) hwalk
              (fun x hkx hx hcase =>
            hcase.elim (fun hxs => hxs ▸ hsingle)
              fun hseq => hguard x hkx (by omega) (.inr hseq)) hst'
          refine ⟨r, ?_, hfrom⟩
          rwa [show depth.toNat = (depth - 1).toNat +
            1 by omega, List.getElem?_cons_succ]
      · -- another instruction is crossed: control comes from it
        obtain ⟨st', hst', hpops, rfl⟩ := h.of_singleEntry
          (hguard _ (by omega) le_rfl (.inl rfl)) (by simp [hnone]) hi he
        have hnonneg := Instr.effect?_nonneg he
        have hmarks : marksAfter i e st' = marked i e st' := by
          refine if_neg ?_
          rintro (hop | hop) <;> simp [Instr.stopsWalk, hop, Opcode.flow,
            Opcode.info] at hgo
        rw [hmarks, marked]
        rcases hfound with ⟨hlt, rfl⟩ | ⟨hle, hwalk⟩
        · refine ⟨i.label, ?_, .inl rfl⟩
          rw [List.getElem?_append_left (by simp; omega),
            List.getElem?_replicate_of_lt (by omega)]
        · have hkn := lt_of_pusherBelow hwalk hk
          have hsingle : m.SingleEntry n := singleEntry_of_crossed hi hjoin
              fun hseq =>
            hguard n hkn (by omega) (.inr hseq)
          obtain ⟨q, hq, hfrom⟩ := ih n (by omega) (by omega) hwalk
              (fun x hkx hx hcase =>
            hcase.elim (fun hxn => hxn ▸ hsingle)
              fun hseq => hguard x hkx (by omega) (.inr hseq)) hst'
          refine ⟨q, ?_, hfrom⟩
          rw [List.getElem?_append_right (by simp; omega),
            List.length_replicate, List.getElem?_drop]
          convert hq using 2
          omega

/-- What the walk back finds is right for every run.  In an accepted method it
is an instruction before the taking one; where control comes to the taking
instruction, and to the delegate sequences in between, in order, every run that
comes to the taking instruction has the value from the instruction found, or
from the delegate sequence that it starts. -/
theorem pusher_runs {fullName : String}
    (hvalid : m.validate fullName m.code = .ok ())
    (hi : m.code.code[n]? = some i) (he : m.effect? i = some e) {arg : Int}
    (hp : m.pusher arg i.label = .ok (some p)) :
    0 ≤ arg ∧ arg < e.pops ∧ ∃ k < n, m.code.indexOf? p = some k ∧
      (m.Guarded k n → ∀ st, m.Runs n st →
        ∃ q, st[(e.pops - 1 - arg).toNat]? = some q ∧ m.PushedFrom p q) := by
  have hb := hasOwnLabels_of_validate hvalid
  obtain ⟨h0, hlt⟩ : 0 ≤ arg ∧ arg < e.pops := by
    by_contra hcon
    have heff : m.effect (m.code.get i.label) = .ok e := by
      rw [hb.get_eq (List.mem_of_getElem? hi), effect, he]
      rfl
    have hrange : (arg < 0 || arg ≥ e.pops) = true := by
      simp only [Bool.or_eq_true, decide_eq_true_eq]
      omega
    unfold pusher at hp
    rw [hb.indexOf?_eq hi] at hp
    simp only [heff, bind, Except.bind, pure, Except.pure, hrange] at hp
    cases hp
  rw [pusher_eq hb hi he h0 hlt] at hp
  obtain ⟨k, hkn, hk⟩ := exists_of_pusherBelow hp
  exact ⟨h0, hlt, k, hkn, hk, fun hguard st hst =>
    hst.pushedFrom hb (by omega) hp hk hguard⟩

/-- A choice before the value, and a delegate before the instruction that takes
it. -/
def afterChoice : MethodDef :=
  ofCode "Choice" [⟨0, .ldcI41, .none⟩, ⟨1, .brtrue, .target 3⟩,
    ⟨2, .nop, .none⟩, ⟨3, .nop, .none⟩, ⟨4, .ldnull, .none⟩,
    ⟨5, .ldnull, .none⟩, ⟨6, .ldftn, .method (some lambdaRef)⟩,
    ⟨7, .newobj, .method (some actionCtor)⟩, ⟨8, .pop, .none⟩, ⟨9, .pop, .none⟩,
    ⟨10, .ret, .none⟩]

theorem pusher_runs_afterChoice :
    afterChoice.validate "S::Choice" afterChoice.code = .ok () ∧
      afterChoice.pusher 0 9 = .ok (some 4) ∧ afterChoice.Runs 9 [4] ∧
      afterChoice.PushedFrom 4 4 := by
  have hvalid : afterChoice.validate "S::Choice" afterChoice.code =
    .ok () := rfl
  have hp : afterChoice.pusher 0 9 = .ok (some 4) := by decide +kernel
  have hrun : afterChoice.Runs 9 [4] :=
    Runs.of_path (x := (0, [])) (y := (9, [4])) [1, 3, 4, 5, 6, 7, 8, 9] .entry
      (by decide +kernel)
  obtain ⟨-, -, k, -, hk, hfound⟩ :=
    pusher_runs (n := 9) (i := ⟨9, .pop, .none⟩) (e := ⟨1, 0⟩)
    hvalid rfl rfl hp
  obtain rfl : 4 = k := Option.some.inj hk
  obtain ⟨q, hq, hfrom⟩ := hfound (by decide +kernel) _ hrun
  obtain rfl : 4 = q := by simpa using hq
  exact ⟨hvalid, hp, hrun, hfrom⟩

/-- Two ways join at the instruction that takes the value. -/
def joinAtTaker : MethodDef :=
  ofCode "Join" [⟨0, .ldcI41, .none⟩, ⟨1, .brtrue, .target 4⟩,
    ⟨2, .ldnull, .none⟩, ⟨3, .br, .target 6⟩, ⟨4, .nop, .none⟩,
    ⟨5, .ldcI40, .none⟩, ⟨6, .pop, .none⟩, ⟨7, .ret, .none⟩]

/-- Two ways join at a delegate sequence. -/
def joinAtHead : MethodDef :=
  ofCode "Head" [⟨0, .ldcI41, .none⟩, ⟨1, .brtrue, .target 4⟩,
    ⟨2, .ldnull, .none⟩, ⟨3, .br, .target 6⟩, ⟨4, .nop, .none⟩,
    ⟨5, .ldcI40, .none⟩, ⟨6, .ldnull, .none⟩,
    ⟨7, .ldftn, .method (some lambdaRef)⟩,
    ⟨8, .newobj, .method (some actionCtor)⟩, ⟨9, .pop, .none⟩,
    ⟨10, .pop, .none⟩, ⟨11, .ret, .none⟩]

/-- A table leads behind a cached delegate sequence. -/
def tableToClosing : MethodDef :=
  ofCode "Table" ([⟨0, .ldnull, .none⟩, ⟨1, .ldnull, .none⟩,
    ⟨2, .ldcI41, .none⟩,
      ⟨3, .switch, .targets [16]⟩, ⟨4, .pop, .none⟩, ⟨5, .pop, .none⟩,
      ⟨6, .ldnull, .none⟩] ++
    cachedCode 7 16 ++
    [⟨16, .nop, .none⟩, ⟨17, .pop, .none⟩, ⟨18, .pop, .none⟩,
      ⟨19, .ret, .none⟩])

/-- The walk back does not see that ways join at the taking instruction, at a
delegate sequence, or, through a table, behind a cached one: each of these
methods is accepted and has a run with another value than the one found. -/
theorem not_pusher_runs_joined :
    (joinAtTaker.validate "S::Join" joinAtTaker.code = .ok () ∧
      joinAtTaker.pusher 0 6 = .ok (some 5) ∧ joinAtTaker.Runs 6 [2] ∧
      ¬joinAtTaker.PushedFrom 5 2) ∧
    (joinAtHead.validate "S::Head" joinAtHead.code = .ok () ∧
      joinAtHead.pusher 0 10 = .ok (some 5) ∧ joinAtHead.Runs 10 [2] ∧
      ¬joinAtHead.PushedFrom 5 2) ∧
    (tableToClosing.validate "S::Table" tableToClosing.code = .ok () ∧
      tableToClosing.pusher 0 18 = .ok (some 6) ∧ tableToClosing.Runs 18 [0] ∧
      ¬tableToClosing.PushedFrom 6 0) := by
  refine ⟨⟨rfl, by decide +kernel, ?_, by decide +kernel⟩,
    ⟨rfl, by decide +kernel, ?_, by decide +kernel⟩,
    ⟨rfl, by decide +kernel, ?_, by decide +kernel⟩⟩
  · exact Runs.of_path (x := (0, [])) (y := (6, [2])) [1, 2, 3, 6] .entry
      (by decide +kernel)
  · exact Runs.of_path (x := (0, [])) (y := (10, [2])) [1, 2, 3, 6, 7, 8, 9, 10]
      .entry (by decide +kernel)
  · exact Runs.of_path (x := (0, [])) (y := (18, [0])) [1, 2, 3, 16, 17, 18]
      .entry (by decide +kernel)

end MethodDef

end JobWeave
