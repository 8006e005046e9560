import Mathlib
import JobWeave.Proofs.Body.Parallel

/-!
# Code with another stretch in it

Two bodies that differ in one stretch of positions have the same stack outside
of it, if each runs through its own stretch from the head to the end and leaves
one more value behind, and control comes to the stretch only at its head.

* `Body.Through`: the code runs through a stretch, with so many values of its
  own before each instruction of it.
* `Body.EntersAt`: nothing outside the stretch leads past its head.
* `Body.SameAround`: the bodies agree outside of the stretch.
* `Body.SameAround.reach_iff` and `Body.SameAround.balanced`: the heights
  outside are the same, and the one body is balanced if the other is.
-/

namespace JobWeave.Body

variable {b b' : Body} {v : Bool} {s len n k : Nat} {h : Int} {i : Instr}
  {e : StackEffect} {g g' : Nat → Int}

/-- The position is one of the stretch. -/
def Within (s len n : Nat) : Prop :=
  s ≤ n ∧ n < s + len

instance : Decidable (Within s len n) :=
  inferInstanceAs (Decidable (_ ∧ _))

/-- The instruction at place `j` of a stretch: control passes to the next place,
and only to later places that have as many values of the stretch on the
stack. -/
structure ThroughAt (b : Body) (v : Bool) (s len : Nat) (g : Nat → Int)
    (j : Nat) (i : Instr) (e : StackEffect) : Prop where
  /-- the instruction -/
  code : b.code[s + j]? = some i
  /-- its effect -/
  effect : i.effect? v = some e
  /-- it takes a number of values -/
  nonneg : 0 ≤ e.pops
  /-- it takes values of the stretch only -/
  enough : e.pops ≤ g j
  /-- it is no return -/
  stays : i.op ≠ .ret
  /-- it can go on to the next place -/
  next : b.Passes (s + j) i (s + (j + 1))
  /-- where it can go on -/
  passes : ∀ {k}, b.Passes (s + j) i k → ∃ j', j < j' ∧ j' ≤ len ∧ k = s + j' ∧
    ∀ h, i.leaves e (h + g j) = h + g j'

/-- The code runs through a stretch and leaves one value more than was there at
its head.  Before place `j` it has `g j` values on the stack. -/
structure Through (b : Body) (v : Bool) (s len : Nat) (g : Nat → Int) :
    Prop where
  /-- the stretch has instructions -/
  pos : 0 < len
  /-- nothing at the head -/
  head : g 0 = 0
  /-- one value behind the end -/
  last : g len = 1
  /-- the instructions -/
  place : ∀ j < len, ∃ i e, b.ThroughAt v s len g j i e

/-- What is outside the stretch leads to no position of it but the head. -/
def EntersAt (b : Body) (s len : Nat) : Prop :=
  ∀ {n i k}, b.code[n]? = some i → ¬Within s len n → b.Passes n i k →
    Within s len k → k = s

/-- The bodies agree outside the stretch, and labels are at the same
positions. -/
structure SameAround (b b' : Body) (s len : Nat) : Prop where
  /-- the instructions outside -/
  code : ∀ n, ¬Within s len n → b'.code[n]? = b.code[n]?
  /-- the positions of labels -/
  indexOf? : ∀ l, b'.indexOf? l = b.indexOf? l
  /-- the number of instructions -/
  size : b'.size = b.size

theorem Passes.of_indexOf? (hidx : ∀ l, b'.indexOf? l = b.indexOf? l)
    (hp : b.Passes n i k) :
    b'.Passes n i k := by
  cases hp with
  | next hret hthrow hbranch => exact .next hret hthrow hbranch
  | jump hbr hl hk => exact .jump hbr hl ((hidx _).trans hk)

/-- From the head of a stretch every place of it is reached. -/
theorem Through.reach (ht : b.Through v s len g) (hr : b.Reach v s h) {j : Nat}
    (hj : j ≤ len) :
    b.Reach v (s + j) (h + g j) := by
  induction j with
  | zero => simpa [ht.head] using hr
  | succ j ih =>
    obtain ⟨i, e, hat⟩ := ht.place j (by omega)
    obtain ⟨j', -, -, hk, hleaves⟩ := hat.passes hat.next
    obtain rfl : j + 1 = j' := by omega
    rw [← hleaves]
    exact .step (ih (by omega)) hat.code hat.effect hat.next

/-- The stretch of a balanced body is left inside the body. -/
theorem Through.end_lt (ht : b.Through v s len g) (hb : b.Balanced v)
    (hr : b.Reach v s h) :
    s + len < b.size := by
  obtain ⟨i, e, hat⟩ := ht.place (len - 1) (by have := ht.pos; omega)
  have hend := hb.inside (ht.reach hr (by omega)) hat.code hat.next
  have := ht.pos
  omega

/-- A stretch takes no value that was there at its head. -/
theorem Through.nonneg (ht : b.Through v s len g) (hb : b.Balanced v)
    (hr : b.Reach v s h) :
    0 ≤ h := by
  obtain ⟨i, e, hat⟩ := ht.place 0 ht.pos
  exact hat.nonneg.trans (hb.enough hr hat.code hat.effect)

namespace SameAround

theorem symm (hs : b.SameAround b' s len) : b'.SameAround b s len where
  code n hn := (hs.code n hn).symm
  indexOf? l := (hs.indexOf? l).symm
  size := hs.size.symm

theorem entersAt (hs : b.SameAround b' s len) (henter : b.EntersAt s len) :
    b'.EntersAt s len := by
  intro n i k hi hn hp hk
  exact henter ((hs.code n hn).symm.trans hi) hn
    (hp.of_indexOf? hs.symm.indexOf?) hk

/-- What is reached in the one body is reached in the other if it is outside the
stretch; if it is a place of the stretch, the head is reached in the other. -/
theorem reach (hs : b.SameAround b' s len) (ht : b.Through v s len g)
    (ht' : b'.Through v s len g') (henter : b.EntersAt s len)
    (hr : b.Reach v n h) :
    (¬Within s len n → b'.Reach v n h) ∧
      ∀ j < len, n = s + j → ∃ h₀, b'.Reach v s h₀ ∧ h = h₀ + g j := by
  induction hr with
  | entry =>
    refine ⟨fun _ => .entry, fun j _ hj => ⟨0, ?_, ?_⟩⟩
    · obtain ⟨rfl, -⟩ : s = 0 ∧ j = 0 := by omega
      exact .entry
    · obtain rfl : j = 0 := by omega
      simp [ht.head]
  | @step n m h i e hr hi he hp ih =>
    by_cases hn : Within s len n
    · -- the step is made from a place of the stretch
      obtain ⟨j, rfl⟩ := Nat.exists_eq_add_of_le hn.1
      have hj : j < len := by have := hn.2; omega
      obtain ⟨h₀, hr', rfl⟩ := ih.2 j hj rfl
      obtain ⟨i', e', hat⟩ := ht.place j hj
      obtain rfl : i = i' := Option.some.inj (hi.symm.trans hat.code)
      obtain rfl : e = e' := Option.some.inj (he.symm.trans hat.effect)
      obtain ⟨j', -, hle, rfl, hleaves⟩ := hat.passes hp
      rw [hleaves]
      refine ⟨fun hout => ?_, fun x hx hxj => ?_⟩
      · -- the stretch is left: the other body leaves it with the same height
        obtain rfl : j' = len := by
          by_contra hne
          exact hout ⟨by omega, by omega⟩
        rw [ht.last, ← ht'.last]
        exact ht'.reach hr' le_rfl
      · obtain rfl : j' = x := by omega
        exact ⟨h₀, hr', rfl⟩
    · have hr' : b'.Reach v m (i.leaves e h) :=
        .step (ih.1 hn) ((hs.code n hn).trans hi) he
          (hp.of_indexOf? hs.indexOf?)
      refine ⟨fun _ => hr', fun j hj hm => ?_⟩
      obtain rfl : m = s := henter hi hn hp ⟨by omega, by omega⟩
      obtain rfl : j = 0 := by omega
      exact ⟨_, hr', by simp [ht.head]⟩

/-- Outside the stretch the same positions are reached, with the same
heights. -/
theorem reach_iff (hs : b.SameAround b' s len) (ht : b.Through v s len g)
    (ht' : b'.Through v s len g') (henter : b.EntersAt s len)
    (hn : ¬Within s len n) :
    b'.Reach v n h ↔ b.Reach v n h :=
  ⟨fun hr => (hs.symm.reach ht' ht (hs.entersAt henter) hr).1 hn,
    fun hr => (hs.reach ht ht' henter hr).1 hn⟩

/-- A balanced body stays balanced with the other stretch. -/
theorem balanced (hs : b.SameAround b' s len) (ht : b.Through v s len g)
    (ht' : b'.Through v s len g') (henter : b.EntersAt s len)
    (hb : b.Balanced v) :
    b'.Balanced v := by
  have hback : ∀ {n h}, b'.Reach v n h → (¬Within s len n → b.Reach v n h) ∧
      ∀ j < len, n = s + j → ∃ h₀, b.Reach v s h₀ ∧ h = h₀ + g' j := fun hr =>
    hs.symm.reach ht' ht (hs.entersAt henter) hr
  -- the instruction at a place of the stretch, with the height at the head
  have hplace : ∀ {n h i}, b'.Reach v n h → b'.code[n]? = some i →
    Within s len n →
      ∃ j h₀ e, n = s + j ∧ b.Reach v s h₀ ∧ h = h₀ + g' j ∧
      b'.ThroughAt v s len g' j i e := by
    intro n h i hr hi hn
    obtain ⟨j, rfl⟩ := Nat.exists_eq_add_of_le hn.1
    have hj : j < len := by have := hn.2; omega
    obtain ⟨h₀, hr₀, rfl⟩ := (hback hr).2 j hj rfl
    obtain ⟨i', e, hat⟩ := ht'.place j hj
    obtain rfl : i = i' := Option.some.inj (hi.symm.trans hat.code)
    exact ⟨j, h₀, e, rfl, hr₀, rfl, hat⟩
  refine ⟨fun {n h i e} hr hi he => ?_, fun {n h i m} hr hi hp => ?_,
    fun {n h i e} hr hi he hret => ?_, fun {n h h'} hr hr' => ?_⟩
  · by_cases hn : Within s len n
    · obtain ⟨j, h₀, e', rfl, hr₀, rfl, hat⟩ := hplace hr hi hn
      obtain rfl : e = e' := Option.some.inj (he.symm.trans hat.effect)
      have := hat.enough
      have := ht.nonneg hb hr₀
      omega
    · exact hb.enough ((hback hr).1 hn) ((hs.code n hn).symm.trans hi) he
  · rw [hs.size]
    by_cases hn : Within s len n
    · obtain ⟨j, h₀, e', rfl, hr₀, rfl, hat⟩ := hplace hr hi hn
      obtain ⟨j', -, hle, rfl, -⟩ := hat.passes hp
      have := ht.end_lt hb hr₀
      omega
    · exact hb.inside ((hback hr).1 hn) ((hs.code n hn).symm.trans hi)
        (hp.of_indexOf? hs.symm.indexOf?)
  · by_cases hn : Within s len n
    · obtain ⟨j, h₀, e', rfl, hr₀, rfl, hat⟩ := hplace hr hi hn
      exact absurd hret hat.stays
    · exact hb.emptied ((hback hr).1 hn) ((hs.code n hn).symm.trans hi) he hret
  · by_cases hn : Within s len n
    · obtain ⟨j, rfl⟩ := Nat.exists_eq_add_of_le hn.1
      have hj : j < len := by have := hn.2; omega
      obtain ⟨h₀, hr₀, rfl⟩ := (hback hr).2 j hj rfl
      obtain ⟨h₁, hr₁, rfl⟩ := (hback hr').2 j hj rfl
      rw [hb.unique hr₀ hr₁]
    · exact hb.unique ((hback hr).1 hn) ((hback hr').1 hn)

end SameAround

end JobWeave.Body
