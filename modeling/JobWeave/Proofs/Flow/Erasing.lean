import Mathlib
import JobWeave.Proofs.Body.Stretch
import JobWeave.Proofs.Flow.Runs

/-!
# Delegate sequences taken out of the code

A delegate sequence leaves one value behind, however control runs through it.
So the receiver or null can stand in its place, with nothing done after it: the
stack outside the sequence does not change, as long as no branch leads past the
head of the sequence.

* `MethodDef.Finds`: a sequence that is found from one of its ends.
* `MethodDef.Finds.through`: the code runs through a sequence;
  `Body.through_erased` says so of what is left in its place.
* `MethodDef.delegates_neutral`: sequences are found from both ends alike and
  share no instruction, and taking one out keeps the method accepted and the
  stack outside as it was.
-/

namespace JobWeave

open Body

variable {m : MethodDef} {b : Body} {d d' : Delegate} {s n : Nat} {i : Instr}
  {l : Label}

/-! ## What is left in the place of a sequence -/

namespace Body

theorem code_keepReceiver (b : Body) (d : Delegate) :
    (b.keepReceiver d).code = b.code.map fun i => if i.label ∈
    d.rest then i.idle else i := by
  unfold keepReceiver
  induction d.rest generalizing b with
  | nil => simp
  | cons l ls ih =>
    rw [List.foldl_cons, ih]
    show (b.code.map fun i => if i.label == l then i.idle else i).map _ = _
    rw [List.map_map]
    refine List.map_congr_left fun i _ => ?_
    by_cases hl : i.label = l
    · simp [hl, Instr.idle, Instr.become]
    · simp [hl]

theorem locals_keepReceiver (b : Body) (d : Delegate) :
    (b.keepReceiver d).locals = b.locals ∧
      (b.keepReceiver d).points = b.points := by
  unfold keepReceiver
  induction d.rest generalizing b with
  | nil => exact ⟨rfl, rfl⟩
  | cons l ls ih => exact ih (b.idleAt l)

/-- The code with an instruction in the place of the first one of a sequence and
nothing done by the others. -/
structure Erased (b b' : Body) (d : Delegate) (head : Instr → Instr) :
    Prop where
  /-- the instructions -/
  code : b'.code = b.code.map fun i =>
    if i.label ∈ d.rest then i.idle else if i.label = d.first then head i else i
  /-- the new instruction has the label of the old one -/
  label : ∀ i, (head i).label = i.label
  /-- the local variables -/
  locals : b'.locals = b.locals
  /-- the source positions -/
  points : b'.points = b.points

theorem erased_keepReceiver (b : Body) (d : Delegate) :
    b.Erased (b.keepReceiver d) d id where
  code := by simp [code_keepReceiver]
  label _ := rfl
  locals := (locals_keepReceiver b d).1
  points := (locals_keepReceiver b d).2

theorem erased_nullDelegate (b : Body) (d : Delegate) :
    b.Erased (b.nullDelegate d) d (·.become .ldnull .none) where
  code := by
    rw [nullDelegate, code_keepReceiver]
    show (b.code.map fun i => if i.label == d.first then i.become .ldnull .none
      else i).map _ = _
    rw [List.map_map]
    refine List.map_congr_left fun i _ => ?_
    by_cases hfirst : i.label = d.first
    · simp [hfirst, Instr.idle, Instr.become]
    · simp [hfirst]
  label _ := rfl
  locals := (locals_keepReceiver _ d).1
  points := (locals_keepReceiver _ d).2

/-- What is left of a sequence can stand in every body. -/
theorem holds_ldnull {k : Nat} (l : Label) : b.Holds k ⟨l, .ldnull, .none⟩ where
  valid := rfl
  operand := rfl
  arg _ ha := nomatch ha
  slot hs := nomatch hs

theorem holds_nop {k : Nat} (l : Label) : b.Holds k ⟨l, .nop, .none⟩ where
  valid := rfl
  operand := rfl
  arg _ ha := nomatch ha
  slot hs := nomatch hs

namespace Erased

variable {b' : Body} {head : Instr → Instr}

theorem labels (he : b.Erased b' d head) :
    b'.code.map (·.label) = b.code.map (·.label) := by
  rw [he.code, List.map_map]
  refine List.map_congr_left fun i _ => ?_
  simp only [Function.comp_apply]
  split
  · rfl
  · split
    · exact he.label i
    · rfl

theorem getElem? (he : b.Erased b' d head) (hi : b.code[n]? = some i) :
    b'.code[n]? =
      some (if i.label ∈ d.rest then i.idle else if i.label = d.first then head
        i else i) := by
  rw [he.code, List.getElem?_map, hi, Option.map_some]

/-- Instructions of other labels stay. -/
theorem sameAround (he : b.Erased b' d head) (hb : b.HasOwnLabels)
    (hspan : b.Spans s d) :
    b.SameAround b' s d.labels.length where
  code n hn := by
    cases hi : b.code[n]? with
    | none => rw [he.code, List.getElem?_map, hi, Option.map_none]
    | some i =>
      have hout : i.label ∉ d.labels := by
        intro hin
        obtain ⟨j, hj, x, hx, hlabel⟩ :=
          hspan.contains_iff.1 (List.contains_iff_mem.2 hin)
        obtain rfl := hb.eq_of_label hx hi hlabel
        exact hn ⟨by omega, by omega⟩
      rw [Delegate.labels, List.mem_cons, not_or] at hout
      rw [he.getElem? hi, if_neg hout.2, if_neg hout.1]
  indexOf? := indexOf?_congr he.labels
  size := by simp [size, he.code]

end Erased

/-- The first instruction of a sequence is not among the others. -/
theorem Spans.first_notMem (hb : b.HasOwnLabels) (hspan : b.Spans s d) :
    d.first ∉ d.rest := by
  intro hmem
  obtain ⟨j, hj⟩ := List.mem_iff_getElem?.1 hmem
  have hlt : j + 1 < d.labels.length := by
    simpa [Delegate.labels] using (List.getElem?_eq_some_iff.1 hj).1
  obtain ⟨i, hi, hfirst⟩ := hspan.first_at
  obtain ⟨x, hx, hlabel⟩ := hspan.label_at hlt
  rw [Delegate.labels, List.getElem?_cons_succ, hj, Option.some.injEq] at hlabel
  have := hb.eq_of_label hi hx (hfirst.trans hlabel)
  omega

end Body

/-! ## Running through -/

namespace MethodDef

/-- Control in a sequence goes on to the next instruction. -/
theorem goesOn_of_span (hspan : m.code.Spans s d) {j : Nat}
    (hj : j < d.labels.length) (hi : m.code.code[s + j]? = some i) :
    i.op.flow ≠ .branch := by
  intro hflow
  have hbr : i.op.isBranch = true := by simp [Opcode.isBranch, hflow]
  obtain ⟨hnine, rfl⟩ := branch_of_span hspan hj hi hbr
  have hout := hspan.outline
  rw [hnine] at hout
  cases hout with
  | cached _ _ h2 hop =>
    rw [opAt?_eq hi, Option.some.injEq] at h2
    rcases hop with rfl | rfl <;> rw [h2] at hflow <;> cases hflow

/-- The code runs through a sequence. -/
theorem through_span (hb : m.code.HasOwnLabels) (hspan : m.code.Spans s d) :
    m.code.Through m.returnsVoid s d.labels.length fun j =>
      (((spanHeights d.labels.length)[j]?).getD 0 : Nat) where
  pos := by simp [Delegate.labels]
  head := by
    rcases hspan.outline.length_eq with hlen | hlen <;> rw [hlen] <;> rfl
  last := by
    rcases hspan.outline.length_eq with hlen | hlen <;> rw [hlen] <;> rfl
  place j hj := by
    obtain ⟨i, e, h, h', hi, he, hh, hh', hpops, hnext, hleave, hleaveS⟩ :=
      effect_of_span hspan hj
    obtain ⟨hpos, hpos'⟩ := Instr.effect?_nonneg he
    obtain ⟨hret, hthrow⟩ := hspan.flow_ne (Nat.le_add_right s j) (by omega) hi
    have hleaves : ∀ x : Int, i.leaves e (x + h) = x + h' := by
      intro x
      rw [Instr.leaves, if_neg (by simp [hleave, hleaveS])]
      omega
    refine ⟨i, e, hi, he, hpos, ?_, ?_,
      .next hret hthrow (goesOn_of_span hspan hj hi), ?_⟩
    · rw [hh, Option.getD_some]
      omega
    · intro hop
      rw [hop] at hret
      exact hret rfl
    · intro k hp
      rw [hh, Option.getD_some]
      cases hp with
      | next => exact ⟨j + 1, by omega, hj, rfl, by simpa [hh'] using hleaves⟩
      | jump hbr hl hidx =>
        -- the branch of a cached sequence leads behind it
        obtain ⟨hnine, rfl⟩ := branch_of_span hspan hj hi hbr
        obtain ⟨x, y, hx, hy, htarget⟩ := hspan.closing (hspan.cached.2 hnine)
        obtain rfl : i = x := Option.some.inj (hi.symm.trans hx)
        obtain rfl : _ = y.label := by simpa [htarget, Operand.labels] using hl
        rw [hb.indexOf?_eq hy, Option.some.injEq] at hidx
        refine ⟨9, by omega, by omega, hidx.symm, ?_⟩
        rw [hnine] at hh' ⊢
        obtain rfl : 1 = h' := Option.some.inj hh'
        exact hleaves

end MethodDef

namespace Body

variable {b' : Body} {v : Bool} {head : Instr → Instr}

/-- The code runs through what is left in the place of a sequence. -/
theorem Erased.through (he : b.Erased b' d head) (hb : b.HasOwnLabels)
    (hspan : b.Spans s d) (hi : b.code[s]? = some i)
    (hstraight : (head i).op.isStraight = true)
    (heffect : (head i).effect? v = some ⟨0, 1⟩) :
    b'.Through v s d.labels.length fun j => if j = 0 then 0 else 1 where
  pos := by simp [Delegate.labels]
  head := rfl
  last := by simp [Delegate.labels]
  place j hj := by
    -- an instruction that only goes on
    have hplace : ∀ (x : Instr) (e : StackEffect), b'.code[s + j]? = some x →
        x.op.isStraight = true → x.effect? v = some e → e.pops = 0 →
        e.pushes = (if j = 0 then 1 else 0) →
        ∃ i e, b'.ThroughAt v s d.labels.length
          (fun j => if j = 0 then 0 else 1) j i e := by
      intro x e hx hop hex hpops hpushes
      have hnot : x.op ≠ .ret ∧ x.op ≠ .leave ∧ x.op ≠ .leaveS := by
        refine ⟨?_, ?_, ?_⟩ <;> rintro heq <;> rw [heq] at hop <;> cases hop
      simp only [Opcode.isStraight, Opcode.goesOn, Bool.and_eq_true,
        bne_iff_ne, ne_eq, Bool.not_eq_true'] at hop
      obtain ⟨⟨⟨hret, hthrow⟩, hbranch⟩, hno⟩ := hop
      refine ⟨x, e, hx, hex, hpops.ge, ?_, hnot.1, .next hret hthrow hbranch,
        fun hp => ?_⟩
      · rw [hpops]
        split <;> omega
      · cases hp with
        | next =>
          refine ⟨j + 1, by omega, hj, rfl, fun h => ?_⟩
          rw [Instr.leaves, if_neg (by simp [hnot.2.1, hnot.2.2]), hpops,
            hpushes]
          split <;> simp
        | jump hbr => rw [hno] at hbr; cases hbr
    obtain ⟨x, hx, hlabel⟩ := hspan.label_at hj
    have hx' := he.getElem? hx
    cases j with
    | zero =>
      obtain rfl : i = x := Option.some.inj (hi.symm.trans hx)
      have hfirst : i.label = d.first := by
        simpa [Delegate.labels] using hlabel.symm
      rw [if_neg (hfirst ▸ hspan.first_notMem hb), if_pos hfirst] at hx'
      exact hplace _ _ hx' hstraight heffect rfl rfl
    | succ j =>
      have hmem : x.label ∈ d.rest := by
        rw [Delegate.labels, List.getElem?_cons_succ] at hlabel
        exact List.mem_of_getElem? hlabel
      rw [if_pos hmem] at hx'
      exact hplace _ ⟨0, 0⟩ hx' rfl rfl rfl rfl

/-! ## Ways in -/

/-- No branch from outside a sequence leads to an instruction of it but the
first. -/
def EntersAtHead (b : Body) (d : Delegate) : Prop :=
  ∀ i ∈ b.code, i.op.isBranch = true → d.contains i.label = false →
    ∀ l ∈ i.operand.labels, d.contains l = true → l = d.first

instance (b : Body) (d : Delegate) : Decidable (b.EntersAtHead d) :=
  inferInstanceAs (Decidable (∀ i ∈ b.code, i.op.isBranch = true →
    d.contains i.label = false → ∀ l ∈ i.operand.labels, d.contains l = true →
    l = d.first))

/-- The instructions of a sequence are those at its positions. -/
theorem Spans.contains_eq_false_iff (hb : b.HasOwnLabels) (hspan : b.Spans s d)
    (hi : b.code[n]? = some i) :
    d.contains i.label = false ↔ ¬Within s d.labels.length n := by
  rw [← Bool.not_eq_true, not_iff_not, hspan.contains_iff]
  constructor
  · rintro ⟨j, hj, x, hx, hlabel⟩
    obtain rfl := hb.eq_of_label hx hi hlabel
    exact ⟨by omega, by omega⟩
  · rintro ⟨hle, hlt⟩
    obtain ⟨j, rfl⟩ := Nat.exists_eq_add_of_le hle
    exact ⟨j, by omega, i, hi, rfl⟩

theorem EntersAtHead.entersAt (hb : b.HasOwnLabels) (hspan : b.Spans s d)
    (henter : b.EntersAtHead d) : b.EntersAt s d.labels.length := by
  intro n i k hi hn hp hk
  unfold Within at hn hk
  cases hp with
  | next => omega
  | @jump l _ hbr hl hidx =>
    obtain ⟨hlt, heq, -⟩ := List.findIdx?_eq_some_iff_getElem.1 hidx
    have hx : b.code[k]? = some b.code[k] := List.getElem?_eq_getElem hlt
    have hlabel : b.code[k].label = l := eq_of_beq heq
    have hin : d.contains l = true := by
      by_contra hout
      rw [Bool.not_eq_true, ← hlabel, hspan.contains_eq_false_iff hb hx] at hout
      exact hout hk
    have hout : d.contains i.label = false :=
      (hspan.contains_eq_false_iff hb hi).2 hn
    have hfirst := henter i (List.mem_of_getElem? hi) hbr hout l hl hin
    exact (hspan.eq_of_first hb hx (hfirst.symm.trans hlabel.symm)).symm

end Body

namespace MethodDef

/-! ## Sequences from both ends -/

/-- The sequence is found by its first or its last instruction. -/
def Finds (m : MethodDef) (d : Delegate) : Prop :=
  ∃ l, m.delegateFrom l = .ok (some d) ∨ m.delegateTo l = .ok (some d)

/-- A sequence that is found is recognised at its last position. -/
theorem Finds.spans (hb : m.code.HasOwnLabels) (h : m.Finds d) :
    ∃ s, m.code.Spans s d ∧ m.code.delegateEndingAt m.hasThis
      (s + d.labels.length - 1) = .ok (some d) := by
  obtain ⟨l, h | h⟩ := h
  · unfold delegateFrom at h
    split at h
    · rename_i n _
      obtain ⟨hd, hspan⟩ := (delegateStartingAt_eq_some_iff hb).1 h
      exact ⟨n, hspan, hd⟩
    · cases h
  · unfold delegateTo at h
    split at h
    · obtain ⟨s, hs, hspan⟩ := spans_of_delegateEndingAt h
      exact ⟨s, hspan, by rwa [← hs, Nat.add_sub_cancel]⟩
    · cases h

/-- A run of instructions is found by its first one iff it is by its last. -/
theorem delegateFrom_iff_delegateTo (hb : m.code.HasOwnLabels)
    {before run after : List Instr} {first last : Instr}
    (hcode : m.code.code = before ++ run ++ after)
    (hfirst : run.head? = some first) (hlast : run.getLast? = some last)
    (hrun : d.labels = run.map (·.label)) :
    m.delegateFrom first.label = .ok (some d) ↔
      m.delegateTo last.label = .ok (some d) := by
  have hlen : d.labels.length = run.length := by rw [hrun, List.length_map]
  have hpos : 0 < run.length := by
    cases run with
    | nil => cases hfirst
    | cons => simp
  have hat : ∀ j < run.length, m.code.code[before.length + j]? = run[j]? := by
    intro j hj
    rw [hcode, List.append_assoc, List.getElem?_append_right (by omega),
      Nat.add_sub_cancel_left, List.getElem?_append_left hj]
  have hi : m.code.code[before.length]? = some first := by
    rw [← hfirst, List.head?_eq_getElem?]
    exact hat 0 hpos
  have hj : m.code.code[before.length + run.length - 1]? = some last := by
    rw [← hlast, List.getLast?_eq_getElem?, Nat.add_sub_assoc hpos]
    exact hat _ (by omega)
  rw [delegateFrom, delegateTo, hb.indexOf?_eq hi, hb.indexOf?_eq hj]
  simp only
  rw [delegateStartingAt_eq_some_iff hb, hlen]
  refine ⟨And.left, fun h => ⟨h, ?_⟩⟩
  obtain ⟨s, hs, hspan⟩ := spans_of_delegateEndingAt h
  obtain rfl : before.length = s := by omega
  exact hspan

/-- Different sequences have no instruction in common. -/
theorem Finds.disjoint (hb : m.code.HasOwnLabels) (h : m.Finds d)
    (h' : m.Finds d') (hne : d ≠ d') : List.Disjoint d.labels d'.labels := by
  intro l hl hl'
  obtain ⟨s, hspan, hd⟩ := h.spans hb
  obtain ⟨s', hspan', hd'⟩ := h'.spans hb
  obtain ⟨j, hj, i, hi, hlabel⟩ :=
    hspan.contains_iff.1 (List.contains_iff_mem.2 hl)
  obtain ⟨j', hj', i', hi', hlabel'⟩ :=
    hspan'.contains_iff.1 (List.contains_iff_mem.2 hl')
  have heq := hb.eq_of_label hi hi' (hlabel.trans hlabel'.symm)
  have hsame : s = s' ∧ d.labels.length = d'.labels.length := by
    rcases Nat.le_total s s' with hle | hle
    · exact hspan.outline.eq_of_overlap hspan'.outline hle (by omega)
    · have := hspan'.outline.eq_of_overlap hspan.outline hle (by omega)
      omega
  rw [hsame.1, hsame.2, hd'] at hd
  cases hd
  exact hne rfl

/-! ## Taking a sequence out -/

/-- The method is accepted with other code, and the stack before each
instruction outside a sequence is what it was. -/
structure Neutral (m : MethodDef) (name : String) (d : Delegate) (b' : Body) :
    Prop where
  /-- the method is accepted -/
  accepted : m.validate name b' = .ok ()
  /-- the heights outside -/
  reach_iff : ∀ {n i}, m.code.code[n]? = some i → d.contains i.label = false →
    ∀ h, b'.Reach m.returnsVoid n h ↔ m.code.Reach m.returnsVoid n h

theorem neutral_of_erased {name : String} {b' : Body} {head : Instr → Instr}
    (hvalid : m.validate name m.code = .ok ()) (hspan : m.code.Spans s d)
    (henter : m.code.EntersAtHead d) (he : m.code.Erased b' d head)
    (hi : m.code.code[s]? = some i) (hstraight : (head i).op.isStraight = true)
    (heffect : (head i).effect? m.returnsVoid = some ⟨0, 1⟩)
    (hheld : m.code.Holds m.argCount (head i)) : m.Neutral name d b' := by
  have hb := hasOwnLabels_of_validate hvalid
  have hsame := he.sameAround hb hspan
  have hthrough := through_span hb hspan
  have hthrough' := he.through hb hspan hi hstraight heffect
  have hat : m.code.EntersAt s d.labels.length := henter.entersAt hb hspan
  obtain ⟨hshape, -⟩ := validate_eq_ok_iff.1 hvalid
  have hlocals : b'.locals.length = m.code.locals.length := by rw [he.locals]
  have hcontains := contains_congr he.labels
  refine ⟨validate_of_balanced hvalid he.labels he.points (fun j hj => ?_)
    (hsame.balanced hthrough hthrough' hat), fun hx hout h =>
    hsame.reach_iff hthrough hthrough' hat
      ((hspan.contains_eq_false_iff hb hx).1 hout)⟩
  rw [he.code] at hj
  obtain ⟨x, hx, rfl⟩ := List.mem_map.1 hj
  split
  · exact holds_nop x.label
  · split
    · rename_i hfirst
      obtain ⟨n, hn⟩ := List.mem_iff_getElem?.1 hx
      obtain rfl := hspan.eq_of_first hb hn hfirst.symm
      obtain rfl : i = x := Option.some.inj (hi.symm.trans hn)
      exact hheld.congr hlocals hcontains
    · exact ((checkShapes_eq_ok_iff.1 hshape).2.1 x hx).congr hlocals hcontains

/-- The receiver of a simple sequence is pushed by an instruction that only goes
on. -/
theorem receiver_of_span (hspan : m.code.Spans s d)
    (hsimple : d.cached = false) :
    ∃ i, m.code.code[s]? = some i ∧ i.op.isStraight = true ∧
    m.effect? i = some ⟨0, 1⟩ := by
  have hstraight : ∀ op, loadsReceiver op = true → op.isStraight = true ∧
    op.isCall = false ∧
      op ≠ .ret ∧ op.info.pop = 0 ∧ op.info.push = 1 := by
    intro op hop
    cases op <;> first | (exact ⟨rfl, rfl, by simp, rfl, rfl⟩) | cases hop
  have hcached := hspan.cached
  have hout := hspan.outline
  generalize d.labels.length = len at hcached hout
  cases hout with
  | simple h0 hload =>
    obtain ⟨i, hi, rfl⟩ := Option.map_eq_some_iff.1 h0
    obtain ⟨hop, hcall, hret, hpop, hpush⟩ := hstraight _ hload
    refine ⟨i, hi, hop, ?_⟩
    rw [effect?, Instr.effect?_eq_info hcall hret, hpop, hpush]
  | cached =>
    rw [hcached.2 rfl] at hsimple
    cases hsimple

/-- Delegate sequences of an accepted method are well delimited, and taking them
out is neutral. A run of instructions is found by its first one iff it is by its
last; different sequences have no instruction in common; and where no branch
leads past the head of a sequence, the method is accepted with null, or for a
simple one the receiver, in the place of the sequence, and the stack before
every instruction outside is what it was. -/
theorem delegates_neutral {name : String}
    (hvalid : m.validate name m.code = .ok ()) :
    (∀ before run after first last, m.code.code = before ++ run ++ after →
      run.head? = some first → run.getLast? = some last →
      ∀ d, d.labels = run.map (·.label) →
        (m.delegateFrom first.label = .ok (some d) ↔
          m.delegateTo last.label = .ok (some d))) ∧
    (∀ d d', m.Finds d → m.Finds d' → d ≠ d' →
      List.Disjoint d.labels d'.labels) ∧
    ∀ d, m.Finds d → m.code.EntersAtHead d →
      m.Neutral name d (m.code.nullDelegate d) ∧
      (d.cached = false → m.Neutral name d (m.code.keepReceiver d)) := by
  have hb := hasOwnLabels_of_validate hvalid
  obtain ⟨hshape, -⟩ := validate_eq_ok_iff.1 hvalid
  refine ⟨fun _ _ _ _ _ hcode hfirst hlast _ hrun =>
    delegateFrom_iff_delegateTo hb hcode hfirst hlast hrun,
    fun _ _ h h' hne => h.disjoint hb h' hne, fun d h henter => ?_⟩
  obtain ⟨s, hspan, -⟩ := h.spans hb
  obtain ⟨i, hi, -⟩ := hspan.first_at
  refine ⟨neutral_of_erased hvalid hspan henter (erased_nullDelegate _ d)
    hi rfl rfl (holds_ldnull i.label), fun hsimple => ?_⟩
  obtain ⟨x, hx, hstraight, heffect⟩ := receiver_of_span hspan hsimple
  exact neutral_of_erased hvalid hspan henter (erased_keepReceiver _ d) hx
    hstraight heffect ((checkShapes_eq_ok_iff.1 hshape).2.1 x
      (List.mem_of_getElem? hx))

/-- The sequence of `joinAtHead`, which a branch leads to. -/
def headDelegate : Delegate :=
  { first := 6, rest := [7, 8], method := some lambdaRef, ctor := actionCtor }

theorem delegates_neutral_joinAtHead :
    joinAtHead.validate "S::Head" joinAtHead.code = .ok () ∧
    joinAtHead.Finds headDelegate ∧
      joinAtHead.code.EntersAtHead headDelegate ∧
      joinAtHead.Neutral "S::Head" headDelegate
        (joinAtHead.code.nullDelegate headDelegate) ∧
      joinAtHead.Neutral "S::Head" headDelegate
        (joinAtHead.code.keepReceiver headDelegate) := by
  have hvalid : joinAtHead.validate "S::Head" joinAtHead.code = .ok () := rfl
  have hfinds : joinAtHead.Finds headDelegate := ⟨8, .inr rfl⟩
  have henter : joinAtHead.code.EntersAtHead headDelegate := by decide +kernel
  obtain ⟨hnull, hkeep⟩ := (delegates_neutral hvalid).2.2 _ hfinds henter
  exact ⟨hvalid, hfinds, henter, hnull, hkeep rfl⟩

end MethodDef

end JobWeave
