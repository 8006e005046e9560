import Mathlib
import JobWeave.Proofs.Body.Shape

/-!
# Stack heights

What the heights of the stack can be is a property of the code alone: `Reach` is
the least set of positions and heights that contains the start with an empty
stack and is closed under a step of the machine that only counts.  A body is
`Balanced` when no reached instruction takes more than is there, control stays
inside the body, a return leaves nothing, and no position is reached with two
heights.

`checkStack` follows one path at a time and remembers a single height for each
position.  It succeeds on exactly the balanced bodies (`checkStack_eq_ok_iff`).
Both directions go through `Fit`: a choice of one height for some positions
which every step respects.  The heights the walk ends with are such a choice,
and a walk that is given one never meets a conflict.
-/

namespace JobWeave

/-- The height behind an instruction that is reached with height `h`. -/
def Instr.leaves (i : Instr) (e : StackEffect) (h : Int) : Int :=
  if i.op = .leave ∨ i.op = .leaveS then 0 else h - e.pops + e.pushes

namespace Body

/-- Control can pass from the instruction `i` at position `n` to a position. -/
inductive Passes (b : Body) (n : Nat) (i : Instr) : Nat → Prop where
  /-- on to the next instruction -/
  | next : i.op.flow ≠ .ret → i.op.flow ≠ .throw → i.op.flow ≠ .branch →
      Passes b n i (n + 1)
  /-- to the target of a branch, or to one of a table -/
  | jump {l : Label} {m : Nat} : i.op.isBranch = true → l ∈ i.operand.labels →
      b.indexOf? l = some m → Passes b n i m

/-- The position can be reached with the height. -/
inductive Reach (b : Body) (returnsVoid : Bool) : Nat → Int → Prop where
  /-- the stack is empty at the start -/
  | entry : Reach b returnsVoid 0 0
  /-- one instruction further -/
  | step {n m : Nat} {h : Int} {i : Instr} {e : StackEffect} :
      Reach b returnsVoid n h → b.code[n]? = some i →
      i.effect? returnsVoid = some e → Passes b n i m →
      Reach b returnsVoid m (i.leaves e h)

/-- The stack works out wherever the code can get. -/
structure Balanced (b : Body) (returnsVoid : Bool) : Prop where
  /-- an instruction finds the values it takes -/
  enough : ∀ {n h i e}, b.Reach returnsVoid n h → b.code[n]? = some i →
    i.effect? returnsVoid = some e → e.pops ≤ h
  /-- control stays inside the body -/
  inside : ∀ {n h i m}, b.Reach returnsVoid n h → b.code[n]? = some i →
    b.Passes n i m → m < b.size
  /-- a return leaves nothing -/
  emptied : ∀ {n h i e}, b.Reach returnsVoid n h → b.code[n]? = some i →
    i.effect? returnsVoid = some e → i.op = .ret → h - e.pops + e.pushes = 0
  /-- a position has one height -/
  unique : ∀ {n h h'}, b.Reach returnsVoid n h →
    b.Reach returnsVoid n h' → h = h'

variable {b : Body} {returnsVoid : Bool} {H : Nat → Option Int} {k n m : Nat}
  {h : Int} {i : Instr} {e : StackEffect}

/-! ## One height for each position -/

/-- The instruction at `n` can run with height `h`, and every position it passes
control to has the height that it leaves. -/
def Settled (b : Body) (returnsVoid : Bool) (H : Nat → Option Int) (n : Nat)
    (h : Int) : Prop :=
  ∃ i e, b.code[n]? = some i ∧ i.effect? returnsVoid = some e ∧ e.pops ≤ h ∧
    (i.op = .ret → h - e.pops + e.pushes = 0) ∧
    ∀ m, b.Passes n i m → H m = some (i.leaves e h)

/-- The heights start with the empty stack and every step respects them. -/
structure Fit (b : Body) (returnsVoid : Bool) (H : Nat → Option Int) :
    Prop where
  entry : H 0 = some 0
  settled : ∀ {n h}, H n = some h → b.Settled returnsVoid H n h

/-- What can be reached has the height that fits. -/
theorem Fit.reach (hH : b.Fit returnsVoid H) (hr : b.Reach returnsVoid n h) :
    H n = some h := by
  induction hr with
  | entry => exact hH.entry
  | step _ hi he hp ih =>
    obtain ⟨j, f, hj, hf, -, -, hnext⟩ := hH.settled ih
    obtain rfl : j = _ := Option.some.inj (hj.symm.trans hi)
    obtain rfl : f = _ := Option.some.inj (hf.symm.trans he)
    exact hnext _ hp

theorem Fit.balanced (hH : b.Fit returnsVoid H) : b.Balanced returnsVoid where
  enough hr hi he := by
    obtain ⟨j, f, hj, hf, hpops, -, -⟩ := hH.settled (hH.reach hr)
    grind
  inside {n h i m} hr hi hp := by
    obtain ⟨j, f, hj, hf, -, -, hnext⟩ := hH.settled (hH.reach hr)
    obtain rfl : j = _ := Option.some.inj (hj.symm.trans hi)
    obtain ⟨j', -, hj', -⟩ := hH.settled (hnext m hp)
    exact (List.getElem?_eq_some_iff.mp hj').1
  emptied hr hi he hret := by
    obtain ⟨j, f, hj, hf, -, hzero, -⟩ := hH.settled (hH.reach hr)
    grind
  unique hr hr' := Option.some.inj ((hH.reach hr).symm.trans (hH.reach hr'))

open Classical in
/-- A balanced body has heights that fit: those that can be reached. -/
theorem Balanced.exists_fit (hb : b.Balanced returnsVoid) (hne : b.code ≠ [])
    (hheld : ∀ i ∈ b.code, b.Holds k i) : ∃ H, b.Fit returnsVoid H := by
  let H : Nat → Option Int := fun n =>
    if hn : ∃ h, b.Reach returnsVoid n h then some hn.choose else none
  have hH : ∀ {n h}, b.Reach returnsVoid n h → H n = some h :=
    fun {n h} hr => by
    have hn : ∃ h, b.Reach returnsVoid n h := ⟨h, hr⟩
    simp only [H, dif_pos hn, Option.some.injEq]
    exact hb.unique hn.choose_spec hr
  have hinside : ∀ {n h}, b.Reach returnsVoid n h → n < b.size := fun hr => by
    cases hr with
    | entry => exact List.length_pos_iff.mpr hne
    | step hr hi he hp => exact hb.inside hr hi hp
  refine ⟨H, hH .entry, fun {n h} hn => ?_⟩
  have hr : b.Reach returnsVoid n h := by
    simp only [H] at hn
    split at hn
    · rename_i hex
      obtain rfl := Option.some.inj hn
      exact hex.choose_spec
    · cases hn
  have hlt := hinside hr
  have hi : b.code[n]? = some b.code[n] := List.getElem?_eq_getElem hlt
  obtain ⟨e, he⟩ := (hheld _ (List.getElem_mem hlt)).effect returnsVoid
  exact ⟨_, e, hi, he, hb.enough hr hi he, hb.emptied hr hi he,
    fun m hp => hH (.step hr hi he hp)⟩

/-! ## The walk -/

/-- The positions `successors` lists are those control can pass to. -/
theorem mem_successors (hheld : b.Holds k i) :
    m ∈ b.successors n i ↔ b.Passes n i m := by
  have hjump : i.op.isBranch = true →
      (m ∈ i.operand.labels.map (fun l => (b.indexOf? l).getD 0) ↔
        ∃ l ∈ i.operand.labels, b.indexOf? l = some m) := by
    intro hbr
    rw [List.mem_map]
    refine exists_congr fun l => and_congr_right fun hl => ?_
    have := indexOf?_isSome_iff.mpr (hheld.target hbr hl)
    cases hidx : b.indexOf? l <;> simp_all
  unfold successors
  constructor
  · intro hm
    split at hm
    · cases hm
    · cases hm
    · rename_i hf
      have hbr : i.op.isBranch = true := by simp [Opcode.isBranch, hf]
      obtain ⟨l, hl, hidx⟩ := (hjump hbr).mp hm
      exact .jump hbr hl hidx
    · rename_i hf
      have hbr : i.op.isBranch = true := by simp [Opcode.isBranch, hf]
      rcases List.mem_append.mp hm with hm | hm
      · obtain ⟨l, hl, hidx⟩ := (hjump hbr).mp hm
        exact .jump hbr hl hidx
      · obtain rfl := List.mem_singleton.mp hm
        exact .next (by simp [hf]) (by simp [hf]) (by simp [hf])
    · obtain rfl := List.mem_singleton.mp hm
      exact .next (by assumption) (by assumption) (by assumption)
  · intro hp
    cases hp with
    | next hret hthrow hbranch => split <;> simp_all
    | jump hbr hl hidx =>
      have hm := (hjump hbr).mpr ⟨_, hl, hidx⟩
      simp only [Opcode.isBranch, Bool.or_eq_true, beq_iff_eq] at hbr
      rcases hbr with hf | hf
      · simpa [hf] using hm
      · simpa [hf] using Or.inl (List.mem_map.mp hm)

/-- The height a walk has for a position. -/
def Walk.height (w : Walk) (n : Nat) : Option Int :=
  w.heights[n]?.join

/-- What the walk still has to do: positions without a height and positions
whose successors were not looked at. -/
def Walk.pending (w : Walk) : Nat :=
  w.heights.toList.count none + w.work.length

/-- The walk knows more than before: no height is lost, what has a height now
and had none is still to be followed, and as much is pending as was. -/
structure Walk.Grows (w w' : Walk) : Prop where
  height : ∀ {n h}, w.height n = some h → w'.height n = some h
  found : ∀ {n h}, w'.height n = some h → w.height n = some h ∨ n ∈ w'.work
  work : ∀ {n}, n ∈ w.work → n ∈ w'.work
  known : ∀ {n}, n ∈ w'.work → n ∈ w.work ∨ ∃ h, w'.height n = some h
  size : w'.heights.size = w.heights.size
  pending : w'.pending = w.pending

theorem Walk.Grows.refl (w : Walk) : w.Grows w where
  height h := h
  found h := .inl h
  work h := h
  known h := .inl h
  size := rfl
  pending := rfl

theorem Walk.Grows.trans {w w' w'' : Walk} (h : w.Grows w')
    (h' : w'.Grows w'') :
    w.Grows w'' where
  height hn := h'.height (h.height hn)
  found hn := by
    rcases h'.found hn with hn | hn
    · exact (h.found hn).imp_right h'.work
    · exact .inr hn
  work hn := h'.work (h.work hn)
  known hn := by
    rcases h'.known hn with hn | hn
    · exact (h.known hn).imp_right fun ⟨x, hx⟩ => ⟨x, h'.height hx⟩
    · exact .inr hn
  size := h'.size.trans h.size
  pending := h'.pending.trans h.pending

/-- Reaching a position for the first time. -/
theorem Walk.grows_set {w : Walk} (hm : w.heights[m]? = some none) :
    w.Grows ⟨w.heights.setIfInBounds m (some h), m :: w.work⟩ := by
  obtain ⟨hlt, hnone⟩ := Array.getElem?_eq_some_iff.mp hm
  have hheight : ∀ n, Walk.height ⟨w.heights.setIfInBounds m (some h),
    m :: w.work⟩ n =
      if m = n then some h else w.height n := by
    intro n
    simp only [Walk.height, Array.getElem?_setIfInBounds]
    split <;> simp_all
  have hold : w.height m = none := by simp [Walk.height, hm]
  refine ⟨?_, ?_, ?_, ?_, by simp, ?_⟩
  · grind
  · grind
  · simp +contextual
  · intro n hn
    rcases List.mem_cons.mp hn with rfl | hn
    · exact .inr ⟨h, by simp [hheight]⟩
    · exact .inl hn
  · have hlt' : m < w.heights.toList.length := by simpa using hlt
    have hget : w.heights.toList[m] = none := by
      rw [Array.getElem_toList]
      exact hnone
    have hpos : 0 < w.heights.toList.count none :=
      List.count_pos_iff.mpr (hget ▸ List.getElem_mem _)
    have hcount : (w.heights.toList.set m (some h)).count none =
        w.heights.toList.count none - 1 := by
      rw [List.count_set hlt', hget]
      simp
    simp only [Walk.pending, Array.toList_setIfInBounds,
      List.length_cons, hcount]
    omega

/-- A position that was reached has the height it was reached with. -/
theorem Walk.reach_eq_ok {w w' : Walk} {s : Nat} (hr : w.reach s m h = .ok w') :
    w.Grows w' ∧ w'.height m = some h := by
  unfold reach at hr
  split at hr
  · cases hr
  · rename_i hm
    obtain rfl := Except.ok.inj hr
    obtain ⟨hlt, -⟩ := Array.getElem?_eq_some_iff.mp hm
    exact ⟨grows_set hm, by simp [Walk.height, hlt]⟩
  · rename_i hm
    split at hr
    · obtain rfl := Except.ok.inj hr
      exact ⟨.refl w, by simp [Walk.height, *]⟩
    · cases hr

/-- Where the heights fit, reaching a position with its height succeeds. -/
theorem Walk.exists_reach {w : Walk} {s : Nat}
    (hw : ∀ {n h}, w.height n = some h → H n = some h)
    (hlt : m < w.heights.size) (hm : H m = some h) :
    ∃ w', w.reach s m h = .ok w' ∧ ∀ {n h}, w'.height n = some h →
    H n = some h := by
  unfold reach
  rw [Array.getElem?_eq_getElem hlt]
  cases hcur : w.heights[m] with
  | none =>
    refine ⟨_, rfl, fun {n x} hn => ?_⟩
    simp only [Walk.height, Array.getElem?_setIfInBounds] at hn
    split at hn
    · simp_all
    · exact hw hn
  | some x =>
    have : H m = some x :=
      hw (by simp [Walk.height, Array.getElem?_eq_getElem hlt, hcur])
    obtain rfl : x = h := Option.some.inj (this.symm.trans hm)
    exact ⟨w, by simp, hw⟩

/-- All successors of one instruction. -/
theorem reachAll_eq_ok {s : Nat} {ms : List Nat} {w w' : Walk}
    (hr : ms.foldlM (fun w m => w.reach s m h) w = .ok w') :
    w.Grows w' ∧ ∀ m ∈ ms, w'.height m = some h := by
  induction ms generalizing w with
  | nil =>
    obtain rfl : w = w' := Except.ok.inj hr
    exact ⟨.refl w, by simp⟩
  | cons m ms ih =>
    rw [List.foldlM_cons, bind_eq_ok_iff] at hr
    obtain ⟨v, hv, hr⟩ := hr
    obtain ⟨hgrow, hm⟩ := Walk.reach_eq_ok hv
    obtain ⟨hgrow', hms⟩ := ih hr
    exact ⟨hgrow.trans hgrow', List.forall_mem_cons.mpr ⟨hgrow'.height hm, hms⟩⟩

theorem exists_reachAll {s : Nat} {ms : List Nat} {w : Walk}
    (hw : ∀ {n h}, w.height n = some h → H n = some h)
    (hlt : ∀ m ∈ ms, m < w.heights.size) (hms : ∀ m ∈ ms, H m = some h) :
    ∃ w', ms.foldlM (fun w m => w.reach s m h) w = .ok w' ∧
      ∀ {n h}, w'.height n = some h → H n = some h := by
  induction ms generalizing w with
  | nil => exact ⟨w, rfl, hw⟩
  | cons m ms ih =>
    obtain ⟨hlt₁, hlt⟩ := List.forall_mem_cons.mp hlt
    obtain ⟨hm, hms⟩ := List.forall_mem_cons.mp hms
    obtain ⟨v, hv, hvH⟩ := Walk.exists_reach (s := s) hw hlt₁ hm
    have hsize := (Walk.reach_eq_ok hv).1.size
    obtain ⟨w', hr, hw'⟩ := ih hvH (fun m hm => hsize ▸ hlt m hm) hms
    exact ⟨w', by rw [List.foldlM_cons, hv]; exact hr, hw'⟩

/-- An instruction can run with a height iff it finds its values and, when it is
a return, leaves none. -/
theorem heightAfter_eq_ok_iff {h' : Int} :
    heightAfter e n i h = .ok h' ↔
      e.pops ≤ h ∧ (i.op = .ret → h - e.pops + e.pushes = 0) ∧
      h' = i.leaves e h := by
  unfold heightAfter Instr.leaves
  split
  · simp only [reduceCtorEq, false_iff, not_and]
    omega
  · split <;> simp_all <;> grind

/-- Following a position settles it. -/
theorem follow_eq_ok (hheld : ∀ i ∈ b.code, b.Holds k i) {w w' : Walk}
    (hn : w.height n = some h) (hlt : n < b.size)
    (hf : b.follow returnsVoid w n = .ok w') :
    w.Grows w' ∧ b.Settled returnsVoid w'.height n h := by
  have hi : b.code[n]? = some b.code[n] := List.getElem?_eq_getElem hlt
  have hh := hheld _ (List.getElem_mem hlt)
  obtain ⟨e, he⟩ := hh.effect returnsVoid
  have hcur : ((w.heights[n]?).getD none).getD 0 = h := by
    rw [Walk.height] at hn
    cases hw : w.heights[n]? <;> simp_all
  simp only [follow, hi, he, Option.getD_some, hcur, bind_eq_ok_iff,
    heightAfter_eq_ok_iff] at hf
  obtain ⟨h', ⟨hpops, hret, rfl⟩, hf⟩ := hf
  obtain ⟨hgrow, hsucc⟩ := reachAll_eq_ok hf
  exact ⟨hgrow, _, e, hi, he, hpops, hret,
    fun m hp => hsucc m ((mem_successors hh).mpr hp)⟩

/-- Where the heights fit, following a position with its height succeeds. -/
theorem exists_follow (hheld : ∀ i ∈ b.code, b.Holds k i)
    (hH : b.Fit returnsVoid H) {w : Walk}
    (hw : ∀ {n h}, w.height n = some h → H n = some h)
    (hsize : w.heights.size = b.size) (hn : w.height n = some h) :
    ∃ w', b.follow returnsVoid w n = .ok w' ∧ ∀ {n h}, w'.height n = some h →
    H n = some h := by
  obtain ⟨i, e, hi, he, hpops, hret, hnext⟩ := hH.settled (hw hn)
  have hh := hheld i (List.mem_of_getElem? hi)
  have hcur : ((w.heights[n]?).getD none).getD 0 = h := by
    rw [Walk.height] at hn
    cases hw : w.heights[n]? <;> simp_all
  have hsucc : ∀ m ∈ b.successors n i, H m = some (i.leaves e h) := fun m hm =>
    hnext m ((mem_successors hh).mp hm)
  have hin : ∀ m ∈ b.successors n i, m < w.heights.size := fun m hm => by
    obtain ⟨j, -, hj, -⟩ := hH.settled (hsucc m hm)
    rw [hsize]
    exact (List.getElem?_eq_some_iff.mp hj).1
  obtain ⟨w', hr, hw'⟩ := exists_reachAll (s := n) hw hin hsucc
  refine ⟨w', ?_, hw'⟩
  simp only [follow, hi, he, Option.getD_some, hcur,
    heightAfter_eq_ok_iff.mpr ⟨hpops, hret, rfl⟩]
  exact hr

theorem Settled.mono {H' : Nat → Option Int} (hs : b.Settled returnsVoid H n h)
    (hle : ∀ {n h}, H n = some h → H' n = some h) :
    b.Settled returnsVoid H' n h := by
  obtain ⟨i, e, hi, he, hpops, hret, hnext⟩ := hs
  exact ⟨i, e, hi, he, hpops, hret, fun m hp => hle (hnext m hp)⟩

/-- The state of a walk in which every height is settled or its position is
still to be followed. -/
structure Walk.Sound (w : Walk) (b : Body) (returnsVoid : Bool) : Prop where
  size : w.heights.size = b.size
  known : ∀ {n}, n ∈ w.work → ∃ h, w.height n = some h
  settled : ∀ {n h}, w.height n = some h → n ∈ w.work ∨
    b.Settled returnsVoid w.height n h

theorem Walk.lt_of_height {w : Walk} (hn : w.height n = some h) :
    n < w.heights.size := by
  by_contra hlt
  simp [Walk.height, hlt] at hn

theorem Walk.Sound.follow (hheld : ∀ i ∈ b.code, b.Holds k i) {w w' : Walk}
    {work : List Nat} (hw : w.Sound b returnsVoid) (hwork : w.work = n :: work)
    (hf : b.follow returnsVoid { w with work } n = .ok w') :
    w'.Sound b returnsVoid ∧ w'.pending + 1 = w.pending ∧
      ∀ {n h}, w.height n = some h → w'.height n = some h := by
  obtain ⟨h, hn⟩ := hw.known (n := n) (by simp [hwork])
  have hlt : n < b.size := hw.size ▸ Walk.lt_of_height hn
  obtain ⟨hgrow, hset⟩ := follow_eq_ok hheld (w := { w with work }) hn hlt hf
  refine ⟨⟨hgrow.size.trans hw.size, fun {m} hm => ?_, fun {m x} hm => ?_⟩, ?_,
    hgrow.height⟩
  · rcases hgrow.known hm with hm | hm
    · exact (hw.known (n := m) (by simp_all)).imp fun _ hx => hgrow.height hx
    · exact hm
  · rcases hgrow.found hm with hold | hnew
    · rcases hw.settled hold with hmem | hs
      · rcases List.mem_cons.mp (hwork ▸ hmem) with rfl | hmem
        · obtain rfl : h = x := Option.some.inj (hn.symm.trans hold)
          exact .inr hset
        · exact .inl (hgrow.work hmem)
      · exact .inr (hs.mono hgrow.height)
    · exact .inl hnew
  · rw [hgrow.pending]
    simp [Walk.pending, hwork]
    omega

/-- A walk that ends well has settled everything it knows. -/
theorem walk_sound (hheld : ∀ i ∈ b.code, b.Holds k i) {fuel : Nat} {w : Walk}
    (hw : w.Sound b returnsVoid) (hfuel : w.pending ≤ fuel)
    (hr : b.walk returnsVoid fuel w = .ok ()) :
    ∃ H : Nat → Option Int, (∀ {n h}, w.height n = some h → H n = some h) ∧
      ∀ {n h}, H n = some h → b.Settled returnsVoid H n h := by
  induction fuel generalizing w with
  | zero =>
    have hnil : w.work = [] := by
      rw [Walk.pending] at hfuel
      exact List.eq_nil_of_length_eq_zero (by omega)
    exact ⟨w.height, id, fun hn => (hw.settled hn).resolve_left
      (by simp [hnil])⟩
  | succ fuel ih =>
    cases hwork : w.work with
    | nil =>
      exact ⟨w.height, id, fun hn => (hw.settled hn).resolve_left
        (by simp [hwork])⟩
    | cons n work =>
      simp only [walk, hwork, bind_eq_ok_iff] at hr
      obtain ⟨w', hf, hr⟩ := hr
      obtain ⟨hw', hpend, hle⟩ := hw.follow hheld hwork hf
      obtain ⟨H, hH, hset⟩ := ih hw' (by omega) hr
      exact ⟨H, fun hn => hH (hle hn), hset⟩

/-- Where the heights fit, the walk ends well. -/
theorem walk_complete (hheld : ∀ i ∈ b.code, b.Holds k i)
    (hH : b.Fit returnsVoid H) {fuel : Nat} {w : Walk}
    (hw : w.Sound b returnsVoid)
    (hle : ∀ {n h}, w.height n = some h → H n = some h) :
    b.walk returnsVoid fuel w = .ok () := by
  induction fuel generalizing w with
  | zero => rfl
  | succ fuel ih =>
    cases hwork : w.work with
    | nil => simp [walk, hwork]
    | cons n work =>
      obtain ⟨h, hn⟩ := hw.known (n := n) (by simp [hwork])
      obtain ⟨w', hf, hle'⟩ := exists_follow hheld hH (w := { w with work }) hle
        hw.size hn
      simp only [walk, hwork, hf]
      exact ih (hw.follow hheld hwork hf).1 hle'

/-- The walk at the start: the first instruction, with an empty stack. -/
def Walk.start (b : Body) : Walk :=
  ⟨(Array.replicate b.size none).setIfInBounds 0 (some 0), [0]⟩

theorem Walk.height_start (hne : b.code ≠ []) :
    (Walk.start b).height n = if n = 0 then some 0 else none := by
  have hpos : 0 < b.size := List.length_pos_iff.mpr hne
  simp only [Walk.height, Walk.start, Array.getElem?_setIfInBounds,
    Array.size_replicate, hpos]
  split <;> rename_i hn
  · simp [← hn]
  · rw [if_neg (Ne.symm hn), Array.getElem?_replicate]
    split <;> rfl

theorem Walk.sound_start (hne : b.code ≠ []) :
    (Walk.start b).Sound b returnsVoid where
  size := by simp [Walk.start]
  known {n} hn := by
    obtain rfl : n = 0 := by simpa [Walk.start] using hn
    exact ⟨0, by simp [Walk.height_start hne]⟩
  settled {n h} hn := by
    rw [Walk.height_start hne] at hn
    split at hn
    · exact .inl (by simp [Walk.start, *])
    · cases hn

/-- The check of the stack succeeds iff one height can be chosen for each
position such that every step respects it. -/
theorem checkStack_eq_ok_iff_exists_fit (hheld : ∀ i ∈ b.code, b.Holds k i)
    (hne : b.code ≠ []) :
    b.checkStack returnsVoid = .ok () ↔ ∃ H, b.Fit returnsVoid H := by
  have hcheck : b.checkStack returnsVoid = b.walk returnsVoid (b.size + 1)
      (Walk.start b) := by
    simp [checkStack, Walk.start, hne]
  rw [hcheck]
  constructor
  · intro hr
    have hpend : (Walk.start b).pending ≤ b.size + 1 := by
      have := List.count_le_length (a := none)
        (l := (Walk.start b).heights.toList)
      simp [Walk.pending, Walk.start] at this ⊢
      omega
    obtain ⟨H, hle, hset⟩ := walk_sound hheld (Walk.sound_start hne) hpend hr
    exact ⟨H, hle (by simp [Walk.height_start hne]), hset⟩
  · rintro ⟨H, hH⟩
    refine walk_complete hheld hH (Walk.sound_start hne) fun {n h} hn => ?_
    rw [Walk.height_start hne] at hn
    split at hn
    · rename_i hzero
      rw [hzero, ← hn]
      exact hH.entry
    · cases hn

/-- The stack check is exact: on a body whose instructions have the right shape
it succeeds iff the stack works out wherever the code can get. -/
theorem checkStack_exact (hshape : b.checkShapes k = .ok ())
    (hne : b.code ≠ []) :
    b.checkStack returnsVoid = .ok () ↔ b.Balanced returnsVoid := by
  have hheld := (checkShapes_eq_ok_iff.mp hshape).2.1
  rw [checkStack_eq_ok_iff_exists_fit hheld hne]
  constructor
  · rintro ⟨H, hH⟩
    exact hH.balanced
  · intro hb
    exact hb.exists_fit hne hheld

/-- A loop that counts an argument down is balanced. -/
theorem balanced_countdown :
    Balanced
      { code :=
          [⟨0, .ldarg0, .none⟩, ⟨1, .ldcI41, .none⟩, ⟨2, .sub, .none⟩,
            ⟨3, .starg, .arg 0⟩, ⟨4, .ldarg0, .none⟩, ⟨5, .brtrue, .target 0⟩,
            ⟨6, .ret, .none⟩] } true :=
  (checkStack_exact (k := 1) rfl (by simp)).mp rfl

end Body
end JobWeave
