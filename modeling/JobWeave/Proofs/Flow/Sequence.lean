import Mathlib
import JobWeave.Flow.Origin
import JobWeave.Proofs.Body.Shape
import JobWeave.Proofs.Body.Stores

/-!
# Where delegate sequences are

A delegate sequence is recognised by its last instruction, and by its first one
only through its last.  The opcodes alone keep sequences apart: no two of them
overlap, so the code falls into sequences and single instructions, and walks in
both directions meet the same ones.

* `Body.Outline` says that the opcodes from a position on are those of a
  sequence, and `Body.Outline.eq_of_overlap` that outlines do not overlap.
* `Body.Spans` is a sequence with its instructions;
  `Body.spans_of_delegateEndingAt` and `Body.delegateStartingAt_eq_some_iff`
  find it from either end.
* `Body.outline_of_error`: where a sequence cannot be told from other code, the
  code has the outline of a cached one or a call without a method.
-/

namespace JobWeave

variable {α : Type}

/-- The entries of a stretch of a list. -/
theorem getElem?_of_take_drop {l xs : List α} {s n j : Nat}
    (h : (l.drop s).take n = xs) (hj : j < n) : l[s + j]? = xs[j]? := by
  rw [← h, List.getElem?_take_of_lt hj, List.getElem?_drop]

/-- An operand is compared with a target by the label. -/
theorem Operand.bne_target {o : Operand} {l : Label} :
    (o != .target l) = false ↔ o = .target l := by
  rw [bne, Bool.not_eq_false']
  constructor
  · intro h
    cases o <;> first | exact congrArg _ (eq_of_beq h) | cases h
  · rintro rfl
    exact beq_self_eq_true l

instance (o : Operand) (l : Label) : Decidable (o = .target l) :=
  decidable_of_iff _ Operand.bne_target

namespace Body

variable {b : Body} {hasThis : Bool} {s s' k k' n : Nat} {d d' : Delegate}
  {i : Instr}

/-! ## Outlines -/

/-- The opcode at a position. -/
def opAt? (b : Body) (n : Nat) : Option Opcode :=
  (b.code[n]?).map (·.op)

theorem opAt?_eq (h : b.code[n]? = some i) : b.opAt? n = some i.op := by
  simp [opAt?, h]

/-- The opcode can push the receiver of a delegate. -/
def loadsReceiver (op : Opcode) : Bool :=
  op == .ldnull || op.loadsLocal || op.loadsArg

/-- The opcodes from a position on are those of a delegate sequence of so many
instructions. What makes the delegate of a cached sequence is left open. -/
inductive Outline (b : Body) (s : Nat) : Nat → Prop where
  /-- a receiver, the lambda and the constructor -/
  | simple {op : Opcode} : b.opAt? s = some op → loadsReceiver op = true →
      b.opAt? (s + 1) = some .ldftn → b.opAt? (s + 2) = some .newobj →
      Outline b s 3
  /-- the same behind a cache -/
  | cached {op : Opcode} : b.opAt? s = some .ldsfld →
    b.opAt? (s + 1) = some .dup →
      b.opAt? (s + 2) = some op → op = .brtrue ∨ op = .brtrueS →
      b.opAt? (s + 3) = some .pop → b.opAt? (s + 4) = some .ldsfld →
      b.opAt? (s + 5) = some .ldftn → b.opAt? (s + 7) = some .dup →
      b.opAt? (s + 8) = some .stsfld → Outline b s 9

/-- Outlines that overlap are one outline. -/
theorem Outline.eq_of_overlap (h : b.Outline s k) (h' : b.Outline s' k')
    (hle : s ≤ s') (hlt : s' < s + k) : s = s' ∧ k = k' := by
  obtain ⟨j, rfl⟩ := Nat.exists_eq_add_of_le hle
  cases h <;> cases h' <;> have hj : j < 9 := by omega
  all_goals
    interval_cases j <;> simp_all [loadsReceiver, Opcode.loadsLocal,
      Opcode.loadsArg]

/-! ## Sequences -/

/-- The sequence is the code from a position on. -/
structure Spans (b : Body) (s : Nat) (d : Delegate) : Prop where
  /-- the opcodes -/
  outline : b.Outline s d.labels.length
  /-- the instructions -/
  labels : ((b.code.drop s).take d.labels.length).map (·.label) = d.labels
  /-- a sequence is cached if it is the longer one -/
  cached : d.cached = true ↔ d.labels.length = 9
  /-- what makes the delegate -/
  make : ∃ i c, b.code[s + (if d.cached then 6 else 2)]? = some i ∧
    i.op = .newobj ∧ i.operand = .method (some c) ∧ c.params.length = 2
  /-- the branch of a cached sequence leads to the instruction after it -/
  closing : d.cached = true → ∃ i j, b.code[s + 2]? = some i ∧
    b.code[s + 9]? = some j ∧ i.operand = .target j.label

/-- A delegate constructor takes the receiver and the lambda. -/
theorem delegateCtor_eq_some {c : MethodRef}
    (h : i.delegateCtor = .ok (some c)) :
    i.op = .newobj ∧ i.operand = .method (some c) ∧ c.params.length = 2 := by
  unfold Instr.delegateCtor at h
  split at h
  · cases h
  · rename_i m hop hoperand
    simp only [Except.ok.injEq] at h
    split at h
    · rename_i hctor
      cases h
      simp only [Bool.and_eq_true, beq_iff_eq] at hctor
      exact ⟨hop, hoperand, hctor.2⟩
    · cases h
  · cases h

/-- Only a constructor call without its method has no answer. -/
theorem delegateCtor_eq_error {e : Stop} (h : i.delegateCtor = .error e) :
    i.op = .newobj ∧ i.operand = .method none := by
  unfold Instr.delegateCtor at h
  split at h
  · rename_i hop hoperand
    exact ⟨hop, hoperand⟩
  · cases h
  · cases h

/-- What stands for the receiver pushes one. -/
theorem loadsReceiver_of_receiver? {r : Receiver}
    (h : b.receiver? hasThis i = some r) :
    loadsReceiver i.op = true := by
  unfold receiver? at h
  unfold loadsReceiver
  split at h
  · simp_all
  · split at h
    · simp_all
    · split at h <;> simp_all

/-- A simple sequence that is recognised. -/
theorem spans_of_simpleDelegate {target ftn ctor : Instr}
    (hcode : (b.code.drop s).take 3 = [target, ftn, ctor])
    (h : b.simpleDelegate hasThis target ftn ctor = .ok (some d)) :
    b.Spans s d ∧ d.labels.length = 3 := by
  unfold simpleDelegate at h
  rw [bind_eq_ok_iff] at h
  obtain ⟨c, hc, h⟩ := h
  cases c with
  | none => cases h
  | some c =>
    obtain ⟨hop, hoperand, hparams⟩ := delegateCtor_eq_some hc
    simp only at h
    split at h
    · cases h
    · rename_i hftn
      split at h
      · cases h
      · rename_i r hr
        cases h
        have hat : ∀ j < 3, b.code[s + j]? = [target, ftn, ctor][j]? :=
          fun j hj => getElem?_of_take_drop hcode hj
        refine ⟨⟨?_,
          by
          simp [Delegate.labels, hcode], by
            simp [Delegate.labels], ?_, by simp⟩, rfl⟩
        · refine .simple (opAt?_eq (hat 0 (by omega)))
            (loadsReceiver_of_receiver? hr) ?_ ?_
          · rw [opAt?_eq (hat 1 (by omega))]
            simpa using hftn
          · rw [opAt?_eq (hat 2 (by omega)), hop]
        · exact ⟨ctor, c, hat 2 (by omega), hop, hoperand, hparams⟩

/-- The opcodes of a cached sequence, apart from that which makes the
delegate. -/
theorem outline_of_cached
    {test dup branch pop single ftn make keep store after : Instr}
    (hcode : (b.code.drop s).take 10 =
      [test, dup, branch, pop, single, ftn, make, keep, store, after])
    (hstore : store.op = .stsfld)
    (hops : (test.op != .ldsfld || dup.op != .dup ||
      (branch.op != .brtrue && branch.op != .brtrueS) || pop.op != .pop ||
      single.op != .ldsfld || ftn.op != .ldftn || keep.op != .dup ||
      branch.operand != .target after.label) = false) : b.Outline s 9 := by
  have hat : ∀ j < 10, b.code[s + j]? =
      [test, dup, branch, pop, single, ftn, make, keep, store, after][j]? :=
    fun j hj => getElem?_of_take_drop hcode hj
  have hop : ∀ j < 10, b.opAt? (s + j) =
      ([test, dup, branch, pop, single, ftn, make, keep, store, after][j]?).map
        (·.op) :=
    fun j hj => by rw [opAt?, hat j hj]
  simp only [Bool.or_eq_false_iff, bne_eq_false_iff_eq, Bool.and_eq_false_iff]
    at hops
  obtain ⟨⟨⟨⟨⟨⟨⟨h0, h1⟩, h2⟩, h3⟩, h4⟩, h5⟩, h7⟩, -⟩ := hops
  refine .cached ?_ ?_ (show b.opAt? (s + 2) = some branch.op from ?_) ?_ ?_ ?_
    ?_ ?_ ?_
  · simpa [h0] using hop 0 (by omega)
  · simpa [h1] using hop 1 (by omega)
  · simpa using hop 2 (by omega)
  · exact h2
  · simpa [h3] using hop 3 (by omega)
  · simpa [h4] using hop 4 (by omega)
  · simpa [h5] using hop 5 (by omega)
  · simpa [h7] using hop 7 (by omega)
  · simpa [hstore] using hop 8 (by omega)

/-- A cached sequence that is recognised. -/
theorem spans_of_cachedDelegate (hstore : b.opAt? (s + 8) = some .stsfld)
    (h : cachedDelegate ((b.code.drop s).take 10) = .ok (some d)) :
    b.Spans s d ∧ d.labels.length = 9 := by
  generalize hcode : (b.code.drop s).take 10 = is at h
  unfold cachedDelegate at h
  split at h
  · rename_i test dup branch pop single ftn make keep store after
    have hat : ∀ j < 10, b.code[s + j]? =
        [test, dup, branch, pop, single, ftn, make, keep, store, after][j]? :=
      fun j hj => getElem?_of_take_drop hcode hj
    have hnine : (b.code.drop s).take 9 =
        [test, dup, branch, pop, single, ftn, make, keep, store] := by
      simpa [List.take_take] using congrArg (List.take 9) hcode
    have hstsfld : store.op = .stsfld := by
      rw [opAt?_eq (hat 8 (by omega))] at hstore
      exact Option.some.inj hstore
    split at h
    · cases h
    · split at h
      · cases h
      · rename_i hops
        split at h
        · cases h
        · obtain ⟨same, -, h⟩ := bind_eq_ok_iff.1 h
          split at h
          · cases h
          · obtain ⟨c, hc, h⟩ := bind_eq_ok_iff.1 h
            cases c with
            | none => cases h
            | some c =>
              cases h
              obtain ⟨hop, hoperand, hparams⟩ := delegateCtor_eq_some hc
              rw [Bool.not_eq_true] at hops
              have hjump := (Bool.or_eq_false_iff.1 hops).2
              refine ⟨⟨outline_of_cached hcode hstsfld hops, ?_,
                by simp [Delegate.labels], ?_, fun _ => ?_⟩, rfl⟩
              · simp [Delegate.labels, hnine]
              · exact ⟨make, c, hat 6 (by omega), hop, hoperand, hparams⟩
              · exact ⟨branch, after, hat 2 (by omega), hat 9 (by omega),
                  Operand.bne_target.1 hjump⟩
  · cases h

/-- A sequence that is recognised by its last instruction spans the code up to
there. -/
theorem spans_of_delegateEndingAt
    (h : b.delegateEndingAt hasThis n = .ok (some d)) :
    ∃ s, n + 1 = s + d.labels.length ∧ b.Spans s d := by
  unfold delegateEndingAt at h
  split at h
  · cases h
  · rename_i last hlast
    split at h
    · rename_i hop
      split at h
      · cases h
      · obtain ⟨s, rfl⟩ : ∃ s, n = s + 8 := ⟨n - 8, by omega⟩
        rw [Nat.add_sub_cancel] at h
        obtain ⟨hs, hlen⟩ := spans_of_cachedDelegate
          (by rw [opAt?_eq hlast, eq_of_beq hop]) h
        exact ⟨s, by omega, hs⟩
    · split at h
      · cases h
      · obtain ⟨s, rfl⟩ : ∃ s, n = s + 2 := ⟨n - 2, by omega⟩
        rw [Nat.add_sub_cancel] at h
        split at h
        · rename_i hcode
          obtain ⟨hs, hlen⟩ := spans_of_simpleDelegate hcode h
          exact ⟨s, by omega, hs⟩
        · cases h

/-- Where the recognition has no answer the code looks like a cached sequence,
or it calls a constructor that is not there. -/
theorem outline_of_error {e : Stop}
    (h : b.delegateEndingAt hasThis n = .error e) :
    (∃ s, n = s + 8 ∧ b.Outline s 9) ∨
      ∃ i, b.code[n]? = some i ∧ ∀ returnsVoid,
      i.effect? returnsVoid = none := by
  unfold delegateEndingAt at h
  split at h
  · cases h
  · rename_i last hlast
    split at h
    · rename_i hop
      split at h
      · cases h
      · obtain ⟨s, rfl⟩ : ∃ s, n = s + 8 := ⟨n - 8, by omega⟩
        rw [Nat.add_sub_cancel] at h
        refine .inl ⟨s, rfl, ?_⟩
        generalize hcode : (b.code.drop s).take 10 = is at h
        unfold cachedDelegate at h
        split at h
        · rename_i test dup branch pop single ftn make keep store after
          have hstore : b.code[s + 8]? = some store :=
            getElem?_of_take_drop hcode (by omega)
          rw [hlast] at hstore
          cases hstore
          split at h
          · cases h
          · split at h
            · cases h
            · rename_i hops
              exact outline_of_cached hcode (eq_of_beq hop)
                (by simpa using hops)
        · cases h
    · split at h
      · cases h
      · split at h
        · rename_i target ftn ctor hcode
          have hctor : b.code[n - 2 + 2]? = some ctor :=
            getElem?_of_take_drop hcode (by omega)
          rw [Nat.sub_add_cancel (by omega), hlast] at hctor
          cases hctor
          refine .inr ⟨last, hlast, fun v => ?_⟩
          unfold simpleDelegate at h
          cases hc : last.delegateCtor with
          | error e' =>
            obtain ⟨hnew, hnone⟩ := delegateCtor_eq_error hc
            simp [Instr.effect?, hnew, hnone]
          | ok c =>
            rw [hc] at h
            cases c with
            | none => cases h
            | some c =>
              simp only [bind, Except.bind, pure, Except.pure] at h
              split at h
              · cases h
              · split at h <;> cases h
        · cases h

/-! ## Positions -/

/-- Where labels are distinct, the position of an instruction is the one where
it is. -/
theorem HasOwnLabels.indexOf?_eq (hb : b.HasOwnLabels)
    (hi : b.code[n]? = some i) :
    b.indexOf? i.label = some n := by
  obtain ⟨hn, rfl⟩ := List.getElem?_eq_some_iff.1 hi
  rw [indexOf?, List.findIdx?_eq_some_iff_getElem]
  refine ⟨hn, beq_self_eq_true _, fun j hj => ?_⟩
  have hne := List.nodup_iff_getElem?_ne_getElem?.1 hb j n hj
    (by simpa using hn)
  have hj' : j < b.code.length := by omega
  simpa [hj', hn] using hne

/-- Where labels are distinct, a label is at one position. -/
theorem HasOwnLabels.eq_of_label {j : Instr} (hb : b.HasOwnLabels)
    (hi : b.code[n]? = some i) (hj : b.code[k]? = some j)
    (h : i.label = j.label) : n = k := by
  have hn := hb.indexOf?_eq hi
  rw [h, hb.indexOf?_eq hj] at hn
  exact (Option.some.inj hn).symm

theorem Outline.length_eq (h : b.Outline s k) : k = 3 ∨ k = 9 := by
  cases h <;> simp

namespace Spans

/-- The instruction at a place of the sequence. -/
theorem label_at (h : b.Spans s d) {j : Nat} (hj : j < d.labels.length) :
    ∃ i, b.code[s + j]? = some i ∧ d.labels[j]? = some i.label := by
  have hget : (b.code[s + j]?).map (·.label) = d.labels[j]? := by
    rw [← h.labels, List.getElem?_map, List.getElem?_take_of_lt hj,
      List.getElem?_drop]
  rw [List.getElem?_eq_getElem hj] at hget ⊢
  obtain ⟨i, hi, hlabel⟩ := Option.map_eq_some_iff.1 hget
  exact ⟨i, hi, congrArg some hlabel.symm⟩

theorem first_at (h : b.Spans s d) :
    ∃ i, b.code[s]? = some i ∧ i.label = d.first := by
  obtain ⟨i, hi, hlabel⟩ := h.label_at (j := 0) (by simp [Delegate.labels])
  exact ⟨i, hi, by simpa [Delegate.labels] using hlabel.symm⟩

theorem last_at (h : b.Spans s d) :
    ∃ i, b.code[s + d.labels.length - 1]? = some i ∧ i.label = d.last := by
  have hlen : 0 < d.labels.length := by simp [Delegate.labels]
  obtain ⟨i, hi, hlabel⟩ := h.label_at (j := d.labels.length - 1) (by omega)
  refine ⟨i, by rwa [Nat.add_sub_assoc (by omega)], ?_⟩
  rw [← List.getLast?_eq_getElem?] at hlabel
  simpa [Delegate.labels, Delegate.last, List.getLast?_cons] using hlabel.symm

/-- The position after a sequence of distinct instructions. -/
theorem after_last (hb : b.HasOwnLabels) (h : b.Spans s d) :
    (b.indexOf? d.last).getD n + 1 = s + d.labels.length := by
  have hlen : 0 < d.labels.length := by simp [Delegate.labels]
  obtain ⟨i, hi, hlabel⟩ := h.last_at
  rw [← hlabel, hb.indexOf?_eq hi, Option.getD_some]
  omega

/-- The instructions of a sequence are those of its positions. -/
theorem contains_iff (h : b.Spans s d) {l : Label} :
    d.contains l = true ↔ ∃ j < d.labels.length, ∃ i, b.code[s + j]? = some i ∧
    i.label = l := by
  rw [Delegate.contains, List.contains_iff_mem, List.mem_iff_getElem?]
  constructor
  · rintro ⟨j, hj⟩
    obtain ⟨hlt, -⟩ := List.getElem?_eq_some_iff.1 hj
    obtain ⟨i, hi, hlabel⟩ := h.label_at hlt
    exact ⟨j, hlt, i, hi,
      by rw [hj] at hlabel; exact (Option.some.inj hlabel).symm⟩
  · rintro ⟨j, hlt, i, hi, rfl⟩
    obtain ⟨i', hi', hlabel⟩ := h.label_at hlt
    rw [hi] at hi'
    cases hi'
    exact ⟨j, hlabel⟩

/-- A sequence of distinct instructions is where its first one is. -/
theorem eq_of_first (hb : b.HasOwnLabels) (h : b.Spans s d)
    (hi : b.code[n]? = some i) (hfirst : d.first = i.label) : s = n := by
  obtain ⟨j, hj, hlabel⟩ := h.first_at
  exact hb.eq_of_label hj hi (hlabel.trans hfirst)

end Spans

/-- An outline ends with the constructor or with the store to the cache. -/
theorem Outline.last_op (h : b.Outline s k) :
    b.opAt? (s + k - 1) = some .newobj ∨
      b.opAt? (s + k - 1) = some .stsfld := by
  cases h with
  | simple => exact .inl (by assumption)
  | cached => exact .inr (by assumption)

/-- The opcodes of sequences, apart from those that push a receiver. -/
def sequenceOps : List Opcode :=
  [.ldftn, .newobj, .ldsfld, .dup, .brtrue, .brtrueS, .pop, .stsfld]

theorem flow_of_mem {op : Opcode}
    (h : loadsReceiver op = true ∨ op ∈ sequenceOps) :
    op.flow ≠ .ret ∧ op.flow ≠ .throw := by
  rcases h with h | h
  · cases op <;> first | exact ⟨by decide, by decide⟩ | cases h
  · exact (by decide : ∀ op ∈ sequenceOps, op.flow ≠ .ret ∧ op.flow ≠ .throw) op
      h

/-- Control does not end inside a sequence. -/
theorem Spans.flow_ne (h : b.Spans s d) (hs : s ≤ n)
    (hn : n < s + d.labels.length) (hi : b.code[n]? = some i) :
    i.op.flow ≠ .ret ∧ i.op.flow ≠ .throw := by
  obtain ⟨j, rfl⟩ := Nat.exists_eq_add_of_le hs
  obtain ⟨x, c, hx, hnew, -, -⟩ := h.make
  have hop := opAt?_eq hi
  have hcached := h.cached
  generalize hlen : d.labels.length = k at hn hcached
  have hout := h.outline
  rw [hlen] at hout
  cases hout with
  | simple h0 hload h1 h2 =>
    have hj : j < 3 := by omega
    have hmem : loadsReceiver i.op = true ∨ i.op ∈ sequenceOps := by
      interval_cases j <;> simp_all [sequenceOps]
    exact flow_of_mem hmem
  | cached h0 h1 h2 hbr h3 h4 h5 h7 h8 =>
    have hj : j < 9 := by omega
    rw [if_pos (hcached.2 rfl)] at hx
    have h6 : b.opAt? (s + 6) = some .newobj := by rw [opAt?_eq hx, hnew]
    have hmem : loadsReceiver i.op = true ∨ i.op ∈ sequenceOps := by
      rcases hbr with rfl | rfl <;> interval_cases j <;> simp_all [sequenceOps]
    exact flow_of_mem hmem

/-- No sequence ends at the branch of a cached one. -/
theorem delegateEndingAt_branch {op : Opcode} (hop : b.opAt? n = some op)
    (hbr : op = .brtrue ∨ op = .brtrueS) :
    b.delegateEndingAt hasThis n = .ok none := by
  have hlast : ∀ {s k}, b.Outline s k → n + 1 = s + k → False := by
    intro s k h hn
    have := h.last_op
    rw [← hn, Nat.add_sub_cancel, hop] at this
    rcases hbr with rfl | rfl <;> simp at this
  cases h : b.delegateEndingAt hasThis n with
  | error e =>
    rcases outline_of_error h with ⟨s, rfl, hs⟩ | ⟨i, hi, heff⟩
    · exact (hlast hs rfl).elim
    · rw [opAt?_eq hi] at hop
      cases hop
      have := heff true
      rcases hbr with hbr | hbr <;> simp [Instr.effect?, hbr] at this
  | ok o =>
    cases o with
    | none => rfl
    | some d =>
      obtain ⟨s, hs, hd⟩ := spans_of_delegateEndingAt h
      exact (hlast hd.outline hs).elim

/-- A sequence that is recognised by its first instruction spans some of the
code. -/
theorem exists_spans_of_delegateStartingAt
    (h : b.delegateStartingAt hasThis n = .ok (some d)) : ∃ s, b.Spans s d := by
  have hstart : ∀ {o : Option Delegate} {l : Label} {k : Nat},
      b.delegateEndingAt hasThis k = .ok o → startsWith o l = some d → ∃ s,
      b.Spans s d := by
    intro o l k hk ho
    obtain ⟨rfl, -⟩ := Option.filter_eq_some_iff.1 ho
    obtain ⟨s, -, hd⟩ := spans_of_delegateEndingAt hk
    exact ⟨s, hd⟩
  unfold delegateStartingAt at h
  split at h
  · cases h
  · obtain ⟨o, ho, h⟩ := bind_eq_ok_iff.1 h
    split at h
    · rename_i d' hd'
      cases h
      exact hstart ho hd'
    · obtain ⟨o', ho', h⟩ := bind_eq_ok_iff.1 h
      exact hstart ho' (Except.ok.inj h)

/-- A sequence of distinct instructions is recognised by its first one iff it is
by its last. -/
theorem delegateStartingAt_eq_some_iff (hb : b.HasOwnLabels) :
    b.delegateStartingAt hasThis n = .ok (some d) ↔
      b.delegateEndingAt hasThis (n + d.labels.length - 1) = .ok (some d) ∧
      b.Spans n d := by
  unfold delegateStartingAt
  constructor
  · intro h
    split at h
    · cases h
    · rename_i i hi
      have hstart : ∀ {o : Option Delegate} {k : Nat},
        b.delegateEndingAt hasThis k = .ok o →
          startsWith o i.label = some d →
          b.delegateEndingAt hasThis (n + d.labels.length - 1) = .ok (some d) ∧
          b.Spans n d := by
        intro o k hk ho
        obtain ⟨rfl, hfirst⟩ := Option.filter_eq_some_iff.1 ho
        obtain ⟨s, hs, hd⟩ := spans_of_delegateEndingAt hk
        obtain rfl := hd.eq_of_first hb hi (eq_of_beq hfirst)
        exact ⟨by rwa [← hs, Nat.add_sub_cancel], hd⟩
      obtain ⟨o, ho, h⟩ := bind_eq_ok_iff.1 h
      split at h
      · rename_i d' hd'
        cases h
        exact hstart ho hd'
      · obtain ⟨o', ho', h⟩ := bind_eq_ok_iff.1 h
        exact hstart ho' (Except.ok.inj h)
  · rintro ⟨h, hd⟩
    obtain ⟨i, hi, hfirst⟩ := hd.first_at
    have hstart : startsWith (some d) i.label = some d := by
      simp [startsWith, Option.filter, hfirst]
    rw [hi]
    simp only
    rcases hd.outline.length_eq with hlen | hlen
    · rw [hlen] at h
      rw [show n + 3 - 1 = n + 2 by omega] at h
      rw [h]
      simp [bind, Except.bind, pure, Except.pure, hstart]
    · have hbranch : b.delegateEndingAt hasThis (n + 2) = .ok none := by
        have hout := hd.outline
        rw [hlen] at hout
        cases hout with
        | cached _ _ hop hbr => exact delegateEndingAt_branch hop hbr
      rw [hlen] at h
      rw [show n + 9 - 1 = n + 8 by omega] at h
      rw [hbranch, h]
      simp [bind, Except.bind, pure, Except.pure, startsWith, hfirst]

end Body

/-- A sequence that starts with an instruction spans some of the code. -/
theorem MethodDef.exists_spans_of_delegateFrom {m : MethodDef} {l : Label}
    {d : Delegate} (h : m.delegateFrom l = .ok (some d)) :
    ∃ s, m.code.Spans s d := by
  unfold delegateFrom at h
  split at h
  · exact Body.exists_spans_of_delegateStartingAt h
  · cases h

end JobWeave
