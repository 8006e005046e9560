import Mathlib
import JobWeave.Proofs.Flow.Erasing
import JobWeave.Proofs.Workspace.TypeNames

/-!
# Where the computation of a value starts

The value that an instruction pushes is computed from the values it takes, these
from others, and so on back to an instruction that takes none.  The search for
that instruction goes back over the deepest argument, round after round.  What
it crosses is a stretch of code that falls through and lives on its own values:
the stack never gets lower than it was at the start.

* `MethodDef.SpanSearch` is the search without a bound on the rounds, with the
  instructions it comes to; `MethodDef.exists_spanSearch` says that it ends, and
  with the bounded answer.
* `MethodDef.FallsThrough` is executing the code in its order over a floor of
  the stack.
* `MethodDef.fallsThrough_of_pusherBelow`: what the walk back crosses, executed
  forward.
* `MethodDef.spanStart_contained`: the stretch from the start that is found to
  the instruction it was searched for falls through over the height at the
  start, and leaves there what the instruction pushes.
-/

namespace JobWeave

variable {i : Instr} {e : StackEffect} {v : Bool}

/-! ## Effects -/

/-- Only duplication gives more than one value. -/
theorem Opcode.push_le_one {op : Opcode} (hdup : op ≠ .dup) :
    op.info.push ≤ 1 := by
  cases op <;> first | exact absurd rfl hdup | decide | exact zero_le_one

theorem Instr.pushes_le_one (hdup : i.op ≠ .dup) (h : i.effect? v = some e) :
    e.pushes ≤ 1 := by
  have hinfo := Opcode.push_le_one hdup
  unfold Instr.effect? at h
  grind [StackEffect.ofCall]

/-- Where no walk ends, control can go on to the next instruction. -/
theorem Instr.goesOn_of_not_stopsWalk (h : i.stopsWalk = false) :
    i.op.goesOn = true := by
  rcases i with ⟨l, op, o⟩
  cases op <;> first | rfl | cases h

/-- An instruction that control goes on from changes the height by its
effect. -/
theorem Instr.leaves_of_goesOn (h : i.op.goesOn = true) (x : Int) :
    i.leaves e x = x - e.pops + e.pushes := by
  refine if_neg ?_
  rintro (hop | hop) <;> rw [hop] at h <;> cases h

/-! ## Code without missing references -/

/-- No reference of the instruction is missing that walks over code read. -/
structure Instr.Intact (i : Instr) : Prop where
  /-- a call has its method -/
  method : i.op.isCall = true → i.operand ≠ .method none
  /-- the type of a field has a name -/
  owner : ∀ f, i.operand = .field (some f) → f.owner.fullName?.isSome

namespace Instr.Intact

theorem exists_effect (hi : i.Intact) (v : Bool) :
    ∃ e, i.effect? v = some e := by
  have hmethod := hi.method
  cases he : i.effect? v with
  | some e => exact ⟨e, rfl⟩
  | none =>
    unfold Instr.effect? at he
    grind -ring -linarith [Opcode.isCall]

theorem exists_delegateCtor (hi : i.Intact) : ∃ o, i.delegateCtor = .ok o := by
  cases hc : i.delegateCtor with
  | ok o => exact ⟨o, rfl⟩
  | error =>
    obtain ⟨hop, hoperand⟩ := Body.delegateCtor_eq_error hc
    exact absurd hoperand (hi.method (by simp [hop, Opcode.isCall]))

end Instr.Intact

namespace Body

variable {b : Body} {hasThis : Bool}

theorem exists_sameField {f g : Option FieldRef}
    (hf : ∀ x ∈ f, x.owner.fullName?.isSome)
    (hg : ∀ x ∈ g, x.owner.fullName?.isSome) : ∃ v, sameField f g = .ok v := by
  cases f with
  | none => exact ⟨_, rfl⟩
  | some f =>
    cases g with
    | none => exact ⟨_, rfl⟩
    | some g =>
      obtain ⟨v, hv⟩ := TypeRef.exists_same? (hf f rfl) (hg g rfl)
      by_cases hname : f.name = g.name
      · exact ⟨v, by simp [sameField, FieldRef.same?, hname, hv, Outcome.need]⟩
      · exact ⟨false, by simp [sameField, FieldRef.same?, hname, Outcome.need]⟩

theorem exists_cachedDelegate {is : List Instr} (his : ∀ i ∈ is, i.Intact) :
    ∃ o, cachedDelegate is = .ok o := by
  have hfield : ∀ {i f}, i ∈ is → i.field? = some f → ∀ x ∈ f,
      x.owner.fullName?.isSome := by
    rintro i _ hi hf x rfl
    unfold Instr.field? at hf
    split at hf <;> cases hf
    rename_i hoperand
    exact (his i hi).owner x hoperand
  unfold cachedDelegate
  split
  · rename_i test dup branch pop single ftn make keep store after
    split
    · exact ⟨_, rfl⟩
    · rename_i cache hcache
      split
      · exact ⟨_, rfl⟩
      · split
        · exact ⟨_, rfl⟩
        · rename_i stored hstored
          obtain ⟨same, hsame⟩ := exists_sameField (hfield (by simp) hstored)
            (hfield (by simp) hcache)
          obtain ⟨c, hc⟩ := (his make (by simp)).exists_delegateCtor
          rw [hsame]
          cases same with
          | false => exact ⟨_, rfl⟩
          | true =>
            rw [hc]
            cases c <;> exact ⟨_, rfl⟩
  · exact ⟨_, rfl⟩

theorem exists_delegateEndingAt (hb : ∀ i ∈ b.code, i.Intact) (n : Nat) :
    ∃ o, b.delegateEndingAt hasThis n = .ok o := by
  unfold delegateEndingAt
  split
  · exact ⟨_, rfl⟩
  · split
    · split
      · exact ⟨_, rfl⟩
      · exact exists_cachedDelegate
          fun i hi => hb i (List.mem_of_mem_drop (List.mem_of_mem_take hi))
    · split
      · exact ⟨_, rfl⟩
      · split
        · rename_i target ftn ctor hcode
          have hctor : ctor ∈ (b.code.drop (n - 2)).take 3 := by
            rw [hcode]
            simp
          obtain ⟨c, hc⟩ := (hb ctor (List.mem_of_mem_drop (List.mem_of_mem_take
            hctor))).exists_delegateCtor
          unfold simpleDelegate
          rw [hc]
          cases c with
          | none => exact ⟨_, rfl⟩
          | some c =>
            simp only [bind, Except.bind]
            split
            · exact ⟨_, rfl⟩
            · split <;> exact ⟨_, rfl⟩
        · exact ⟨_, rfl⟩

theorem exists_delegateStartingAt (hb : ∀ i ∈ b.code, i.Intact) (n : Nat) :
    ∃ o, b.delegateStartingAt hasThis n = .ok o := by
  obtain ⟨o, ho⟩ : ∃ o, b.delegateEndingAt hasThis (n + 2) = .ok o :=
    exists_delegateEndingAt hb (n + 2)
  obtain ⟨o', ho'⟩ : ∃ o, b.delegateEndingAt hasThis (n + 8) = .ok o :=
    exists_delegateEndingAt hb (n + 8)
  unfold delegateStartingAt
  split
  · exact ⟨_, rfl⟩
  · rename_i i _
    rw [ho, ho']
    cases hs : startsWith o i.label with
    | some d => exact ⟨some d, by simp only [bind, Except.bind, hs]; rfl⟩
    | none =>
      exact ⟨startsWith o' i.label, by simp only [bind, Except.bind, hs]; rfl⟩

/-- What is at the position of a label is an instruction of the code. -/
theorem get_mem_of_indexOf? {l : Label} {n : Nat} (hl : b.indexOf? l = some n) :
    b.get l ∈ b.code := by
  have hany : (b.code.find? (·.label == l)).isSome := by
    rw [List.find?_isSome]
    obtain ⟨hlt, hlabel, -⟩ := List.findIdx?_eq_some_iff_getElem.1 hl
    exact ⟨b.code[n], List.getElem_mem hlt, hlabel⟩
  obtain ⟨i, hi⟩ := Option.isSome_iff_exists.1 hany
  have hget : b.get l = i := by rw [get, find?, hi, Option.getD_some]
  rw [hget]
  exact List.mem_of_find?_eq_some hi

end Body

namespace MethodDef

open Body

variable {m : MethodDef} {s n k : Nat} {d : Delegate} {p l : Label}
  {low h h' : Int} {trail : List Label} {r : Outcome (Option Label)}

/-! ## Falling through -/

/-- Executing the code in its order from position `k`, where the stack has
height `h`, to another position and height.  On the way the stack is never lower
than `low`. -/
inductive FallsThrough (m : MethodDef) (low : Int) (k : Nat) (h : Int) :
    Nat → Int → Prop where
  /-- nothing was executed yet -/
  | start : low ≤ h → FallsThrough m low k h k h
  /-- one instruction further -/
  | step {n : Nat} {h' : Int} {i : Instr} {e : StackEffect} : FallsThrough m low
    k h n h' →
      m.code.code[n]? = some i → m.effect? i = some e → i.op.goesOn = true →
      low ≤ h' - e.pops → FallsThrough m low k h (n + 1) (i.leaves e h')

namespace FallsThrough

theorem le (hf : m.FallsThrough low k h n h') : k ≤ n := by
  induction hf with
  | start => exact le_rfl
  | step _ _ _ _ _ ih => exact ih.trans (Nat.le_succ _)

/-- A lower floor will do. -/
theorem mono {low' : Int} (hf : m.FallsThrough low k h n h')
    (hle : low' ≤ low) :
    m.FallsThrough low' k h n h' := by
  induction hf with
  | start hlow => exact .start (hle.trans hlow)
  | step _ hi he hgo hlow ih => exact ih.step hi he hgo (hle.trans hlow)

theorem trans {h'' : Int} (hf : m.FallsThrough low k h s h')
    (hf' : m.FallsThrough low s h' n h'') :
    m.FallsThrough low k h n h'' := by
  induction hf' with
  | start => exact hf
  | step _ hi he hgo hlow ih => exact ih.step hi he hgo hlow

/-- The same over more values. -/
theorem shift (hf : m.FallsThrough low k h n h') (c : Int) :
    m.FallsThrough (low + c) k (h + c) n (h' + c) := by
  induction hf with
  | start hlow => exact .start (by omega)
  | @step n h' i e _ hi he hgo hlow ih =>
    have hleaves : i.leaves e h' + c = i.leaves e (h' + c) := by
      rw [Instr.leaves_of_goesOn hgo, Instr.leaves_of_goesOn hgo]
      omega
    rw [hleaves]
    exact ih.step hi he hgo (by omega)

/-- The height changes by the net effect of the code. -/
theorem netEffect?_eq (hf : m.FallsThrough low k h n h') :
    m.netEffect? ((m.code.code.take n).drop k) = some (h' - h) := by
  induction hf with
  | start => simp [netEffect?]
  | @step n h' i e hf hi he hgo _ ih =>
    have hle := hf.le
    obtain ⟨hlt, -⟩ := List.getElem?_eq_some_iff.1 hi
    have hmore : (m.code.code.take (n + 1)).drop k = (m.code.code.take n).drop
        k ++ [i] := by
      rw [List.take_add_one, hi, Option.toList_some,
        List.drop_append_of_le_length]
      rw [List.length_take]
      omega
    obtain ⟨es, hes, hsum⟩ := Option.bind_eq_some_iff.1 ih
    simp only [StackEffect.net, Option.some.injEq] at hsum
    simp only [netEffect?, hmore, List.mapM_append, hes, List.mapM_cons, he,
      List.mapM_nil, Option.bind_eq_bind, Option.bind_some, Option.pure_def,
      List.foldl_append, List.foldl_cons, List.foldl_nil, hsum, StackEffect.net,
      Instr.leaves_of_goesOn hgo, Option.some.injEq]
    omega

end FallsThrough

/-- A delegate sequence falls through and leaves one value. -/
theorem fallsThrough_span (hspan : m.code.Spans s d) (hlow : low ≤ h) :
    m.FallsThrough low s h (s + d.labels.length) (h + 1) := by
  have hplace : ∀ j ≤ d.labels.length, ∃ own,
    (spanHeights d.labels.length)[j]? = some own ∧
      m.FallsThrough low s h (s + j) (h + own) := by
    intro j hj
    induction j with
    | zero =>
      refine ⟨0, ?_, by simpa using FallsThrough.start hlow⟩
      rcases hspan.outline.length_eq with hlen | hlen <;> rw [hlen] <;> rfl
    | succ j ih =>
      obtain ⟨own, hown, hf⟩ := ih (by omega)
      obtain ⟨i, e, x, x', hi, he, hx, hx', hpops, hnext, -⟩ :=
        effect_of_span hspan (j := j) hj
      obtain rfl : own = x := Option.some.inj (hown.symm.trans hx)
      obtain ⟨hpops0, hpushes0⟩ := Instr.effect?_nonneg he
      have hgo : i.op.goesOn = true := by
        obtain ⟨hret, hthrow⟩ :=
          hspan.flow_ne (Nat.le_add_right s j) (by omega) hi
        simp [Opcode.goesOn, hret, hthrow, goesOn_of_span hspan hj hi]
      refine ⟨x', hx', ?_⟩
      have hstep := hf.step hi he hgo (by omega)
      rw [Instr.leaves_of_goesOn hgo] at hstep
      convert hstep using 1 <;> omega
  obtain ⟨own, hown, hf⟩ := hplace _ le_rfl
  obtain rfl : 1 = own := by
    rcases hspan.outline.length_eq with hlen | hlen <;> rw [hlen] at hown <;>
      exact Option.some.inj hown
  exact hf

/-- The first instruction of a sequence takes nothing. -/
theorem pops_first (hspan : m.code.Spans s d) :
    ∃ i e, m.code.code[s]? = some i ∧ i.label = d.first ∧ m.effect? i = some e ∧
    e.pops = 0 := by
  obtain ⟨i, hi, hfirst⟩ := hspan.first_at
  obtain ⟨i', e, x, -, hi', he, hx, -, hpops, -⟩ :=
    effect_of_span hspan (j := 0) (by simp [Delegate.labels])
  obtain rfl : i = i' := Option.some.inj (hi.symm.trans hi')
  obtain rfl : 0 = x := by
    rcases hspan.outline.length_eq with hlen | hlen <;> rw [hlen] at hx <;>
      exact Option.some.inj hx
  have := (Instr.effect?_nonneg he).1
  exact ⟨i, e, hi, hfirst, he, by omega⟩

/-! ## The walk back, executed forward -/

/-- What the walk back for a value crosses falls through, from the instruction
it finds on.  The stack stays over what that instruction leaves of the values
before it, and the value looked for is the lowest one above, unless a
duplication gave it. -/
theorem fallsThrough_of_pusherBelow (hb : m.code.HasOwnLabels)
    {targets : List Label} {depth : Int} (h0 : 0 ≤ depth)
    (hwalk : m.pusherBelow targets n depth = .ok (some p))
    (h : Int) :
    ∃ k i e base, m.code.code[k]? = some i ∧ i.label = p ∧
    m.effect? i = some e ∧
      m.FallsThrough base k (base + e.pops) n h ∧ base ≤ h - 1 - depth ∧
      (i.op ≠ .dup → base = h - 1 - depth) := by
  induction n using Nat.strong_induction_on generalizing depth h with
  | _ n ih =>
    cases n with
    | zero =>
      rw [pusherBelow] at hwalk
      cases hwalk
    | succ n =>
      rcases pusherBelow_eq_some hb hwalk with
        ⟨s, d, -, hn, hspan, hfound⟩ | ⟨i, e, -, hi, he, hstop, -, hfound⟩
      · have hlen := hspan.outline.length_eq
        rw [hn]
        rcases hfound with ⟨rfl, rfl⟩ | ⟨hne, hwalk⟩
        · -- the sequence is what pushed the value
          obtain ⟨i, e, hi, hfirst, he, hpops⟩ := pops_first hspan
          have hf : m.FallsThrough (h - 1) s (h - 1) (s + d.labels.length)
              (h - 1 + 1) :=
            fallsThrough_span hspan le_rfl
          rw [Int.sub_add_cancel] at hf
          exact ⟨s, i, e, h - 1, hi, hfirst, he,
            by rwa [hpops, Int.add_zero], by omega, fun _ => by omega⟩
        · obtain ⟨k, i, e, base, hi, hlabel, he, hf, hle, heq⟩ :=
            ih s (by omega) (by omega) hwalk (h - 1)
          have hf' : m.FallsThrough base s (h - 1) (s + d.labels.length)
              (h - 1 + 1) :=
            fallsThrough_span hspan (by omega)
          rw [Int.sub_add_cancel] at hf'
          exact ⟨k, i, e, base, hi, hlabel, he, hf.trans hf', by omega,
            fun hdup => by have := heq hdup; omega⟩
      · have hgo := Instr.goesOn_of_not_stopsWalk hstop
        obtain ⟨hpops, hpushes⟩ := Instr.effect?_nonneg he
        rcases hfound with ⟨hlt, rfl⟩ | ⟨hle, hwalk⟩
        · -- the instruction is what pushed the value
          have hstart : m.FallsThrough (h - e.pushes) n
            (h - e.pushes + e.pops) n
              (h - e.pushes + e.pops) := .start (by omega)
          have hf := hstart.step hi he hgo (by omega)
          rw [Instr.leaves_of_goesOn hgo] at hf
          refine ⟨n, i, e, h - e.pushes, hi, rfl, he, ?_,
            by omega, fun hdup => ?_⟩
          · convert hf using 1
            omega
          · have := Instr.pushes_le_one hdup he
            omega
        · obtain ⟨k, j, f, base, hj, hlabel, hf, hfall, hbase, heq⟩ :=
            ih n n.lt_succ_self (by omega) hwalk (h - e.pushes + e.pops)
          have hstep := hfall.step hi he hgo (by omega)
          rw [Instr.leaves_of_goesOn hgo] at hstep
          refine ⟨k, j, f, base, hj, hlabel, hf, ?_, by omega, fun hdup => ?_⟩
          · convert hstep using 1
            omega
          · have := heq hdup
            omega

/-! ## The search -/

/-- One round of the search for the start of a computation: the answer, or the
instruction to go on from. -/
def spanStep (m : MethodDef) (l : Label) : Outcome (Option Label ⊕ Label) := do
  match ← m.delegateFrom l with
  | some d => return .inl (some d.first)
  | none =>
    let e ← m.effect (m.code.get l)
    if e.pops == 0 then return .inl (some l)
    match ← m.pusher 0 l with
    | none => return .inl none
    | some p => return .inr p

/-- The search for the start of a computation, round after round, with the
instructions it comes to after the first. -/
inductive SpanSearch (m : MethodDef) : Label → List Label →
    Outcome (Option Label) → Prop where
  /-- a reference is missing -/
  | stops {l : Label} {stop : Stop} : m.spanStep l = .error stop →
    SpanSearch m l [] (.error stop)
  /-- the answer is there -/
  | answers {l : Label} {o : Option Label} : m.spanStep l = .ok (.inl o) →
      SpanSearch m l [] (.ok o)
  /-- the search goes on -/
  | goesOn {l p : Label} {trail : List Label} {r : Outcome (Option Label)} :
      m.spanStep l = .ok (.inr p) → SpanSearch m p trail r →
      SpanSearch m l (p :: trail) r

theorem spanStartUpTo_succ (m : MethodDef) (fuel : Nat) (l : Label) :
    m.spanStartUpTo (fuel + 1) l =
      m.spanStep l >>= Sum.elim (fun o => .ok o) (m.spanStartUpTo fuel) := by
  rw [spanStartUpTo, spanStep]
  cases m.delegateFrom l with
  | error => rfl
  | ok o =>
    cases o with
    | some d => rfl
    | none =>
      cases m.effect (m.code.get l) with
      | error => rfl
      | ok e =>
        by_cases hpops : e.pops = 0
        · simp [bind, Except.bind, pure, Except.pure, hpops]
        · cases m.pusher 0 l with
          | error => simp [bind, Except.bind, hpops]
          | ok o =>
            cases o <;> simp [bind, Except.bind, pure, Except.pure, hpops]

/-- The search goes on from what pushed the deepest argument. -/
theorem spanStep_eq_inr (hstep : m.spanStep l = .ok (.inr p)) :
    ∃ e, m.effect (m.code.get l) = .ok e ∧ e.pops ≠ 0 ∧
    m.pusher 0 l = .ok (some p) := by
  rw [spanStep] at hstep
  obtain ⟨o, -, hstep⟩ := bind_eq_ok_iff.1 hstep
  cases o with
  | some d => cases hstep
  | none =>
    obtain ⟨e, he, hstep⟩ := bind_eq_ok_iff.1 hstep
    split at hstep
    · cases hstep
    · rename_i hpops
      obtain ⟨o, ho, hstep⟩ := bind_eq_ok_iff.1 hstep
      cases o with
      | none => cases hstep
      | some q =>
        cases hstep
        exact ⟨e, he, by simpa using hpops, ho⟩

/-- The search is over at the head of a delegate sequence and at an instruction
that takes nothing. -/
theorem spanStep_eq_inl (hstep : m.spanStep l = .ok (.inl (some p))) :
    (∃ d, m.delegateFrom l = .ok (some d) ∧ d.first = p) ∨
      p = l ∧ ∃ e, m.effect (m.code.get l) = .ok e ∧ e.pops = 0 := by
  rw [spanStep] at hstep
  obtain ⟨o, ho, hstep⟩ := bind_eq_ok_iff.1 hstep
  cases o with
  | some d =>
    cases hstep
    exact .inl ⟨d, ho, rfl⟩
  | none =>
    obtain ⟨e, he, hstep⟩ := bind_eq_ok_iff.1 hstep
    split at hstep
    · rename_i hpops
      cases hstep
      exact .inr ⟨rfl, e, he, by simpa using hpops⟩
    · obtain ⟨o, -, hstep⟩ := bind_eq_ok_iff.1 hstep
      cases o <;> cases hstep

/-- What pushed an argument comes before the instruction that takes it. -/
theorem exists_of_pusher {arg : Int} (hl : m.code.indexOf? l = some n)
    (hp : m.pusher arg l = .ok (some p)) :
    ∃ k < n, m.code.indexOf? p = some k := by
  rw [pusher, hl] at hp
  obtain ⟨e, -, hp⟩ := bind_eq_ok_iff.1 hp
  split at hp
  · cases hp
  · exact exists_of_pusherBelow hp

/-- The search ends, and the bound of the bounded search is never reached. -/
theorem exists_spanSearch (hl : m.code.indexOf? l = some n) :
    ∃ trail r, m.SpanSearch l trail r ∧ ∀ fuel, n < fuel →
    m.spanStartUpTo fuel l = r := by
  induction n using Nat.strong_induction_on generalizing l with
  | _ n ih =>
    have hfuel : ∀ fuel, n < fuel → m.spanStartUpTo fuel l =
        m.spanStep l >>= Sum.elim
          (fun o => .ok o) (m.spanStartUpTo (fuel - 1)) := by
      intro fuel hlt
      rw [← spanStartUpTo_succ, Nat.sub_add_cancel (by omega)]
    cases hstep : m.spanStep l with
    | error stop =>
      exact ⟨[], .error stop, .stops hstep,
        fun fuel hlt => by rw [hfuel fuel hlt, hstep]; rfl⟩
    | ok answer =>
      cases answer with
      | inl o =>
        exact ⟨[], .ok o, .answers hstep,
          fun fuel hlt => by rw [hfuel fuel hlt, hstep]; rfl⟩
      | inr p =>
        obtain ⟨e, -, -, hp⟩ := spanStep_eq_inr hstep
        obtain ⟨k, hkn, hk⟩ := exists_of_pusher hl hp
        obtain ⟨trail, r, hsearch, hr⟩ := ih k hkn hk
        refine ⟨p :: trail, r, .goesOn hstep hsearch, fun fuel hlt => ?_⟩
        rw [hfuel fuel hlt, hstep]
        exact hr (fuel - 1) (by omega)

theorem exists_effect (hm : ∀ i ∈ m.code.code, i.Intact) {i : Instr}
    (hi : i ∈ m.code.code) :
    ∃ e, m.effect i = .ok e := by
  obtain ⟨e, he⟩ := (hm i hi).exists_effect m.returnsVoid
  exact ⟨e, by rw [effect, effect?, he]; rfl⟩

theorem exists_closesDelegate (hm : ∀ i ∈ m.code.code, i.Intact) (n : Nat)
    (l : Label) :
    ∃ v, m.closesDelegate n l = .ok v := by
  unfold closesDelegate
  split
  · exact ⟨_, rfl⟩
  · obtain ⟨d, hd⟩ : ∃ d, m.code.delegateEndingAt m.hasThis (n - 1) = .ok d :=
      exists_delegateEndingAt hm (n - 1)
    rw [hd]
    cases d <;> exact ⟨_, rfl⟩

/-- Where no reference is missing the walk back has an answer. -/
theorem exists_pusherBelow (hm : ∀ i ∈ m.code.code, i.Intact)
    {targets : List Label} {depth : Int} :
    ∃ o, m.pusherBelow targets n depth = .ok o := by
  induction n using Nat.strong_induction_on generalizing depth with
  | _ n ih =>
    cases n with
    | zero => exact ⟨none, by rw [pusherBelow]⟩
    | succ n =>
      obtain ⟨d, hd⟩ : ∃ d, m.code.delegateEndingAt m.hasThis n = .ok d :=
        exists_delegateEndingAt hm n
      rw [pusherBelow, hd]
      cases d with
      | some d =>
        show ∃ o, (if depth == 0 then _ else _) = _
        split
        · exact ⟨_, rfl⟩
        · exact ih _ (by omega)
      | none =>
        simp only [bind, Except.bind]
        split
        · exact ⟨_, rfl⟩
        · rename_i i hi
          obtain ⟨v, hv⟩ := exists_closesDelegate hm n i.label
          obtain ⟨e, he⟩ := exists_effect hm (List.mem_of_getElem? hi)
          have hrest : ∃ o, (if e.pushes > depth then pure (some i.label)
              else m.pusherBelow targets n (depth + e.pops - e.pushes)) =
                .ok o := by
            split
            · exact ⟨_, rfl⟩
            · exact ih n n.lt_succ_self
          rw [hv, he]
          split
          · exact ⟨_, rfl⟩
          · split
            · cases v with
              | true => exact hrest
              | false => exact ⟨_, rfl⟩
            · exact hrest

theorem exists_spanStep (hm : ∀ i ∈ m.code.code, i.Intact)
    (hl : m.code.indexOf? l = some n) :
    ∃ a, m.spanStep l = .ok a := by
  obtain ⟨d, hd⟩ : ∃ d, m.code.delegateStartingAt m.hasThis n = .ok d :=
    exists_delegateStartingAt hm n
  obtain ⟨e, he⟩ := exists_effect hm (get_mem_of_indexOf? hl)
  rw [spanStep, delegateFrom, hl]
  simp only [hd]
  cases d with
  | some d => exact ⟨_, rfl⟩
  | none =>
    rw [he]
    show ∃ a, (if e.pops == 0 then _ else _) = _
    split
    · exact ⟨_, rfl⟩
    · obtain ⟨o, ho⟩ : ∃ o, m.pusher 0 l = .ok o := by
        rw [pusher, hl, he]
        simp only [bind, Except.bind]
        split
        · exact ⟨_, rfl⟩
        · exact exists_pusherBelow hm
      rw [ho]
      cases o <;> exact ⟨_, rfl⟩

/-- Where no reference is missing the search has an answer. -/
theorem SpanSearch.exists_answer (hm : ∀ i ∈ m.code.code, i.Intact)
    (hsearch : m.SpanSearch l trail r) (hl : m.code.indexOf? l = some n) :
    ∃ o, r = .ok o := by
  induction hsearch generalizing n with
  | stops hstep =>
    obtain ⟨a, ha⟩ := exists_spanStep hm hl
    rw [hstep] at ha
    cases ha
  | answers => exact ⟨_, rfl⟩
  | goesOn hstep _ ih =>
    obtain ⟨e, -, -, hp⟩ := spanStep_eq_inr hstep
    obtain ⟨k, -, hk⟩ := exists_of_pusher hl hp
    exact ih hk

/-- A sequence that starts with an instruction has its label first. -/
theorem first_of_delegateFrom (hd : m.delegateFrom l = .ok (some d)) :
    d.first = l := by
  unfold delegateFrom at hd
  split at hd
  · rename_i n hn
    obtain ⟨hlt, hlabel, -⟩ := List.findIdx?_eq_some_iff_getElem.1 hn
    unfold delegateStartingAt at hd
    rw [List.getElem?_eq_getElem hlt] at hd
    have hfirst : ∀ {o : Option Delegate}, startsWith o m.code.code[n].label =
      some d →
        d.first = l := fun ho =>
      (eq_of_beq (Option.filter_eq_some_iff.1 ho).2).trans (eq_of_beq hlabel)
    obtain ⟨o, -, hd⟩ := bind_eq_ok_iff.1 hd
    split at hd
    · rename_i d' hd'
      cases hd
      exact hfirst hd'
    · obtain ⟨o', -, hd⟩ := bind_eq_ok_iff.1 hd
      exact hfirst (Except.ok.inj hd)
  · cases hd

/-- The start of a computation is not behind the instruction it was searched
for. -/
theorem SpanSearch.exists_le (hsearch : m.SpanSearch l trail (.ok (some p)))
    (hl : m.code.indexOf? l = some n) :
    ∃ k ≤ n, m.code.indexOf? p = some k := by
  generalize hr : (Except.ok (some p) : Outcome (Option Label)) = r at hsearch
  induction hsearch generalizing n with
  | stops => cases hr
  | answers hstep =>
    cases hr
    rcases spanStep_eq_inl hstep with ⟨d, hd, rfl⟩ | ⟨rfl, -⟩
    · exact ⟨n, le_rfl, first_of_delegateFrom hd ▸ hl⟩
    · exact ⟨n, le_rfl, hl⟩
  | goesOn hstep _ ih =>
    obtain ⟨e, -, -, hp⟩ := spanStep_eq_inr hstep
    obtain ⟨k, hkn, hk⟩ := exists_of_pusher hl hp
    obtain ⟨x, hxk, hx⟩ := ih hk hr
    exact ⟨x, hxk.trans hkn.le, hx⟩

/-- The code from the start of a computation to the instruction it was searched
for falls through over the height at the start.  The instruction takes no value
from under it, and none is left over if the search came to no duplication. -/
theorem SpanSearch.fallsThrough (hb : m.code.HasOwnLabels)
    (hsearch : m.SpanSearch i.label trail (.ok (some p)))
    (hi : m.code.code[n]? = some i) (h : Int) :
    ∃ k e base, m.code.indexOf? p = some k ∧ m.effect? i = some e ∧
      m.FallsThrough base k base n h ∧ base ≤ h - e.pops ∧
      ((∀ q ∈ trail, (m.code.get q).op ≠ .dup) → base = h - e.pops) := by
  generalize hr : (Except.ok (some p) : Outcome (Option Label)) = r at hsearch
  generalize hl : i.label = l at hsearch
  induction hsearch generalizing i n h with
  | stops => cases hr
  | answers hstep =>
    cases hr
    subst hl
    have hpos : m.code.indexOf? p = some n ∧ ∃ e, m.effect? i = some e ∧
        e.pops = 0 := by
      rcases spanStep_eq_inl hstep with ⟨d, hd, rfl⟩ | ⟨rfl, e, he, hpops⟩
      · rw [delegateFrom, hb.indexOf?_eq hi] at hd
        obtain ⟨j, e, hj, hfirst, he, hpops⟩ :=
          pops_first ((delegateStartingAt_eq_some_iff hb).1 hd).2
        obtain rfl : i = j := Option.some.inj (hi.symm.trans hj)
        exact ⟨hfirst ▸ hb.indexOf?_eq hi, e, he, hpops⟩
      · rw [hb.get_eq (List.mem_of_getElem? hi)] at he
        exact ⟨hb.indexOf?_eq hi, e, effect_eq_ok he, hpops⟩
    obtain ⟨hk, e, he, hpops⟩ := hpos
    exact ⟨n, e, h, hk, he, .start le_rfl, by omega, fun _ => by omega⟩
  | goesOn hstep _ ih =>
    subst hl
    obtain ⟨e, he, hne, hp⟩ := spanStep_eq_inr hstep
    rw [hb.get_eq (List.mem_of_getElem? hi)] at he
    replace he := effect_eq_ok he
    have hpops := (Instr.effect?_nonneg he).1
    rw [pusher_eq hb hi he le_rfl (by omega)] at hp
    obtain ⟨x, j, f, base, hj, hlabel, hf, hfall, hle, heq⟩ :=
      fallsThrough_of_pusherBelow hb (by omega) hp h
    obtain ⟨k, g, floor, hk, hg, hfall', hle', heq'⟩ :=
      ih hj (base + f.pops) hr hlabel
    obtain rfl : g = f := Option.some.inj (hg.symm.trans hf)
    refine ⟨k, e, floor, hk, he, hfall'.trans (hfall.mono (by omega)),
      by omega, fun hdup => ?_⟩
    obtain ⟨hdup, hdups⟩ := List.forall_mem_cons.1 hdup
    rw [← hlabel, hb.get_eq (List.mem_of_getElem? hj)] at hdup
    have := heq hdup
    have := heq' hdups
    omega

/-- No instruction of straight-line code leaves a block. -/
theorem StraightLine.not_leave (hb : m.code.HasOwnLabels)
    (hline : m.StraightLine) (hi : m.code.code[n]? = some i) :
    i.op ≠ .leave ∧ i.op ≠ .leaveS := by
  have hbranch : i.op.isBranch = true → i.op = .brtrue ∨ i.op = .brtrueS := by
    intro hbr
    obtain ⟨x, d, hd, hcached, hlabel⟩ :=
      hline.branch i (List.mem_of_getElem? hi) hbr
    obtain ⟨s, -, hspan⟩ := spans_of_delegateEndingAt hd
    have hlen := hspan.cached.1 hcached
    obtain ⟨j, hj, hlabel'⟩ := hspan.label_at (j := 2) (by omega)
    obtain rfl := hb.eq_of_label hi hj
      (Option.some.inj (hlabel.symm.trans hlabel'))
    have hout := hspan.outline
    rw [hlen] at hout
    cases hout with
    | cached _ _ h2 hop =>
      rw [opAt?_eq hi, Option.some.injEq] at h2
      rwa [h2]
  constructor <;> intro hop <;> rw [hop] at hbranch <;> simpa using hbranch rfl

/-! ## Sample methods -/

/-- A sum with a cached delegate made and dropped before its second argument. -/
def sumAround : MethodDef :=
  ofCode "Sum" ([⟨0, .ldcI41, .none⟩] ++ cachedCode 1 10 ++
    [⟨10, .pop, .none⟩, ⟨11, .ldcI42, .none⟩, ⟨12, .add, .none⟩,
      ⟨13, .neg, .none⟩, ⟨14, .pop, .none⟩, ⟨15, .ret, .none⟩])

/-- The instruction that a delegate sequence starts with occurs before it too,
and values are dropped in between. -/
def repeatedReceiver : MethodDef :=
  ofCode "Repeat" [⟨0, .ldcI41, .none⟩, ⟨1, .ldcI42, .none⟩,
    ⟨2, .ldnull, .none⟩, ⟨3, .pop, .none⟩, ⟨4, .pop, .none⟩,
    ⟨2, .ldnull, .none⟩, ⟨5, .ldftn, .method (some lambdaRef)⟩,
    ⟨6, .newobj, .method (some actionCtor)⟩, ⟨7, .add, .none⟩, ⟨8, .pop, .none⟩,
    ⟨9, .ret, .none⟩]

/-! ## What a computation takes -/

/-- The search for the start of a computation ends, with an answer unless a
reference is missing. The start is at or before the instruction the search was
made for.  In straight-line code with distinct labels the code from the start on
falls through, over the height of the stack there, and the instruction takes no
value from under it; without duplications it leaves its own values over that
height and nothing else. -/
theorem spanStart_contained (hl : m.code.indexOf? l = some n) :
    (∃ trail r, m.SpanSearch l trail r ∧ m.spanStart l = r ∧
      ((∀ i ∈ m.code.code, i.Intact) → ∃ o, r = .ok o)) ∧
    ∀ trail s, m.SpanSearch l trail (.ok (some s)) →
      ∃ k ≤ n, m.code.indexOf? s = some k ∧
        (m.code.HasOwnLabels → m.StraightLine → ∃ i e rise,
          m.code.code[n]? = some i ∧ m.effect? i = some e ∧
          ∀ h, m.FallsThrough h k h n (h + rise) ∧ h ≤ h + rise - e.pops ∧
            ((∀ p ∈ l :: trail, (m.code.get p).op ≠ .dup) →
              i.leaves e (h + rise) = h + e.pushes)) := by
  constructor
  · obtain ⟨trail, r, hsearch, hr⟩ := exists_spanSearch hl
    obtain ⟨hlt, -⟩ := List.findIdx?_eq_some_iff_getElem.1 hl
    exact ⟨trail, r, hsearch, hr _ (hlt.trans (Nat.lt_succ_self _)),
      fun hm => hsearch.exists_answer hm hl⟩
  · intro trail s hsearch
    obtain ⟨k, hkn, hk⟩ := hsearch.exists_le hl
    refine ⟨k, hkn, hk, fun hb hline => ?_⟩
    obtain ⟨hlt, hlabel, -⟩ := List.findIdx?_eq_some_iff_getElem.1 hl
    obtain rfl := eq_of_beq hlabel
    have hi := List.getElem?_eq_getElem hlt
    obtain ⟨k', e, base, hk', he, hf, hle, heq⟩ := hsearch.fallsThrough hb hi 0
    obtain rfl : k' = k := Option.some.inj (hk'.symm.trans hk)
    refine ⟨m.code.code[n], e, -base, hi, he,
      fun h => ⟨?_, by omega, fun hdup => ?_⟩⟩
    · convert hf.shift (h - base) using 1 <;> omega
    · have hleave : m.code.code[n].leaves e (h + -base) = h + -base - e.pops +
          e.pushes := by
        refine if_neg ?_
        have := hline.not_leave hb hi
        tauto
      have := heq (List.forall_mem_cons.1 hdup).2
      omega

theorem spanStart_contained_sum :
    sumAround.StraightLine ∧ sumAround.spanStart 13 = .ok (some 0) ∧
      ∃ rise, sumAround.FallsThrough 0 0 0 13 rise ∧
        Instr.leaves ⟨13, .neg, .none⟩ ⟨1, 1⟩ rise = 1 := by
  have hline : sumAround.StraightLine := by decide +kernel
  have hb : sumAround.code.HasOwnLabels := by decide +kernel
  have hsearch : sumAround.SpanSearch 13 [12, 0] (.ok (some 0)) :=
    .goesOn (by decide +kernel)
      (.goesOn (by decide +kernel) (.answers (by decide +kernel)))
  obtain ⟨-, hspan⟩ := spanStart_contained (m := sumAround) (l := 13) (n := 13)
    (by decide +kernel)
  obtain ⟨k, -, hk, hcontained⟩ := hspan [12, 0] 0 hsearch
  obtain rfl : 0 = k := Option.some.inj hk
  obtain ⟨i, e, rise, hi, he, hheights⟩ := hcontained hb hline
  cases hi
  cases he
  obtain ⟨hf, -, hleaves⟩ := hheights 0
  rw [Int.zero_add] at hf hleaves
  exact ⟨hline, by decide +kernel, rise, hf, hleaves (by decide +kernel)⟩

/-- The walk back goes on before the first occurrence of the instruction.  What
was dropped after it is then missed. -/
theorem not_spanStart_repeated :
    repeatedReceiver.StraightLine ∧
      repeatedReceiver.spanStart 7 = .ok (some 1) ∧
      repeatedReceiver.SpanSearch 7 [1] (.ok (some 1)) ∧
      (∀ p ∈ [7, 1], (repeatedReceiver.code.get p).op ≠ .dup) ∧
      repeatedReceiver.code.code[8]? = some ⟨7, .add, .none⟩ ∧
      repeatedReceiver.effect? ⟨7, .add, .none⟩ = some ⟨2, 1⟩ ∧
      repeatedReceiver.FallsThrough 0 1 0 8 1 ∧
      ∀ low rise, repeatedReceiver.FallsThrough low 1 0 8 rise →
        ¬ 0 ≤ rise - 2 ∧ Instr.leaves ⟨7, .add, .none⟩ ⟨2, 1⟩ rise ≠ 0 + 1 := by
  refine ⟨by decide +kernel, by decide +kernel,
    .goesOn (by decide +kernel) (.answers (by decide +kernel)),
    by decide +kernel, rfl, rfl, ?_, fun low rise hf => ?_⟩
  · have hstart : repeatedReceiver.FallsThrough 0 1 0 1 0 := .start le_rfl
    exact ((((((hstart.step rfl rfl rfl (by decide)).step
      rfl rfl rfl (by decide)).step rfl rfl rfl (by decide)).step
        rfl rfl rfl (by decide)).step rfl rfl rfl (by decide)).step rfl rfl rfl
      (by decide)).step rfl rfl rfl (by decide)
  · have hnet := hf.netEffect?_eq
    have hone : repeatedReceiver.netEffect?
        ((repeatedReceiver.code.code.take 8).drop 1) = some 1 := by
      decide +kernel
    rw [hone, Option.some.injEq] at hnet
    obtain rfl : rise = 1 := by omega
    decide

end MethodDef

end JobWeave
