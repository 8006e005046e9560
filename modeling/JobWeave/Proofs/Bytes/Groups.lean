import Mathlib
import JobWeave.Proofs.Bytes.Reading

/-!
# Sequences of groups

A LEB128 sequence holds a number in groups of seven bits, the lowest first; the
bytes of all groups but the last carry a mark.  `unsignedValue` and
`signedValue` are the numbers that a sequence stands for, however long it is.

* `groups_cases`: bytes start with a sequence of at most so many groups, or with
  that many marks, or end too early; `reads_groups`, `groups_overlong` and
  `groups_cut` say what reading does.
* `IntegerType.read_exact`: which value each integer reader gives, and when it
  fails.  Of a 64-bit number that ten groups are too wide for only the lowest 64
  bits are kept (`s64_keeps_lowest`).
* `isShortest_unsignedGroups` and `isShortest_signedGroups`: writing gives the
  shortest sequence.
-/

namespace JobWeave.Bytes

/-- The bytes carry the mark of further groups. -/
def AllMarked (bs : List UInt8) : Prop :=
  ∀ b ∈ bs, 128 ≤ b.toNat

/-- Bytes with the mark of further groups, and one without it. -/
inductive IsGroups : List UInt8 → Prop
  | last {b : UInt8} : b.toNat < 128 → IsGroups [b]
  | more {b : UInt8} {bs : List UInt8} : 128 ≤ b.toNat → IsGroups bs →
    IsGroups (b :: bs)

/-- The number that groups stand for. -/
def unsignedValue : List UInt8 → Nat
  | [] => 0
  | b :: bs => b.toNat % 128 + 128 * unsignedValue bs

/-- The number that groups stand for when the top bit of the last one counts
negative. -/
def signedValue : List UInt8 → Int
  | [] => 0
  | [b] => if b.toNat % 128 < 64 then b.toNat % 128 else b.toNat % 128 - 128
  | b :: bs => b.toNat % 128 + 128 * signedValue bs

section Groups

variable {b : UInt8} {bs rest : List UInt8} {fuel shift sum n : Nat}

theorem allMarked_nil : AllMarked [] := by
  simp [AllMarked]

theorem AllMarked.cons (hb : 128 ≤ b.toNat) (h : AllMarked bs) :
    AllMarked (b :: bs) :=
  List.forall_mem_cons.2 ⟨hb, h⟩

theorem IsGroups.ne_nil (h : IsGroups bs) : bs ≠ [] := by
  cases h <;> exact List.cons_ne_nil _ _

theorem IsGroups.signedValue_cons (h : IsGroups bs) (b : UInt8) :
    signedValue (b :: bs) = b.toNat % 128 + 128 * signedValue bs := by
  obtain ⟨c, cs, rfl⟩ := List.exists_cons_of_ne_nil h.ne_nil
  rfl

theorem unsignedValue_lt (bs : List UInt8) :
    unsignedValue bs < 2 ^ (7 * bs.length) := by
  induction bs with
  | nil => decide
  | cons b bs ih =>
    rw [unsignedValue, List.length_cons, Nat.mul_succ, pow_add]
    omega

/-! ## Reading groups -/

/-- Bytes start with a sequence of at most so many groups, or with that many
marks, or end before either. -/
theorem groups_cases (fuel : Nat) (data : List UInt8) :
    (∃ bs rest, data = bs ++ rest ∧ IsGroups bs ∧ bs.length ≤ fuel) ∨
    (∃ bs rest, data = bs ++ rest ∧ AllMarked bs ∧ bs.length = fuel) ∨
    (AllMarked data ∧ data.length < fuel) := by
  induction fuel generalizing data with
  | zero => exact .inr (.inl ⟨[], data, rfl, allMarked_nil, rfl⟩)
  | succ fuel ih =>
    cases data with
    | nil => exact .inr (.inr ⟨allMarked_nil, fuel.succ_pos⟩)
    | cons b data =>
      by_cases hb : b.toNat < 128
      · exact .inl ⟨[b], data, rfl, .last hb, Nat.succ_le_succ fuel.zero_le⟩
      have hb : 128 ≤ b.toNat := Nat.not_lt.1 hb
      obtain ⟨bs, rest, rfl, h, hlen⟩ | ⟨bs, rest, rfl, h, hlen⟩ | ⟨h, hlen⟩ :=
        ih data
      · exact .inl ⟨b :: bs, rest, rfl, .more hb h, Nat.succ_le_succ hlen⟩
      · exact .inr (.inl ⟨b :: bs, rest, rfl, .cons hb h,
          congrArg (· + 1) hlen⟩)
      · exact .inr (.inr ⟨.cons hb h, Nat.succ_lt_succ hlen⟩)

/-- A sequence is summed up, and its last group tells the sign. -/
theorem reads_groups (h : IsGroups bs) (hfuel : bs.length ≤ fuel)
    (shift sum : Nat) :
    ∃ last, SignedSum (signedValue bs) (unsignedValue bs) (7 * bs.length) last ∧
      Reads (Reader.groups fuel shift sum) bs
        (sum + unsignedValue bs * 2 ^ shift, shift + 7 * bs.length, last) := by
  induction h generalizing fuel shift sum with
  | @last b hb =>
    obtain ⟨fuel, rfl⟩ := Nat.exists_eq_add_of_le' hfuel
    have hmod : b.toNat % 128 = b.toNat := Nat.mod_eq_of_lt hb
    have hsum : unsignedValue [b] = b.toNat := hmod
    refine ⟨b.toNat, ?_, hsum ▸ reads_lastGroup fuel shift sum hb⟩
    rw [hsum, signedValue, SignedSum]
    split <;> simp only [List.length_singleton] <;> omega
  | @more b bs hb h ih =>
    obtain ⟨fuel, rfl⟩ := Nat.exists_eq_add_of_le' (Nat.le_of_add_left_le hfuel)
    obtain ⟨last, hsigned, hread⟩ :=
      ih (Nat.le_of_succ_le_succ hfuel) (shift + 7)
      (sum + b.toNat % 128 * 2 ^ shift)
    refine ⟨last, ?_, ?_⟩
    · have hrest : signedValue (b :: bs) / 128 = signedValue bs := by
        rw [h.signedValue_cons]
        omega
      have hlow : (signedValue (b :: bs) % 128).toNat = b.toNat % 128 := by
        rw [h.signedValue_cons]
        omega
      have hcons := SignedSum.cons (hrest ▸ hsigned)
      rw [hlow] at hcons
      rwa [List.length_cons, Nat.mul_succ, Nat.add_comm _ 7]
    · have hsum : sum + b.toNat % 128 * 2 ^ shift + unsignedValue bs *
        2 ^ (shift + 7) =
          sum + unsignedValue (b :: bs) * 2 ^ shift := by
        rw [unsignedValue]
        ring
      have hbits : shift + 7 + 7 * bs.length = shift + 7 *
          (b :: bs).length := by
        rw [List.length_cons]
        omega
      rw [hsum, hbits] at hread
      exact reads_furtherGroups hb hread

/-- The failure of an integer that ends at a position. -/
def tooWideAt (n : Nat) : Failure :=
  .context ("at position " ++ toString n) .tooWide

/-- A byte with the mark is taken before the other groups are read. -/
theorem groups_of_marked (hb : 128 ≤ b.toNat) :
    Reader.groups (fuel + 1) shift sum ⟨n, b :: rest⟩ =
      Reader.groups fuel (shift + 7) (sum + b.toNat % 128 * 2 ^ shift) ⟨n + 1,
        rest⟩ := by
  have hrun := reads_byte b n rest
  rw [List.singleton_append] at hrun
  rw [Reader.groups]
  simp only [bind, EStateM.bind, hrun, if_neg (Nat.not_lt.2 hb)]
  rfl

/-- Nothing but marks is too long. -/
theorem groups_overlong (h : AllMarked bs) (shift sum n : Nat)
    (rest : List UInt8) :
    Reader.groups bs.length shift sum ⟨n, bs ++ rest⟩ =
      .error (tooWideAt (n + bs.length)) ⟨n + bs.length, rest⟩ := by
  induction bs generalizing shift sum n with
  | nil => rfl
  | cons b bs ih =>
    obtain ⟨hb, h⟩ := List.forall_mem_cons.1 h
    rw [List.length_cons, List.cons_append, groups_of_marked hb, ih h,
      Nat.add_right_comm]
    rfl

/-- Bytes that end before the last group. -/
theorem groups_cut (h : AllMarked bs) (hfuel : bs.length < fuel)
    (shift sum n : Nat) :
    Reader.groups fuel shift sum ⟨n, bs⟩ = .error .truncated ⟨n + bs.length,
      []⟩ := by
  induction bs generalizing fuel shift sum n with
  | nil =>
    obtain ⟨fuel, rfl⟩ := Nat.exists_eq_add_of_lt hfuel
    rfl
  | cons b bs ih =>
    obtain ⟨hb, h⟩ := List.forall_mem_cons.1 h
    obtain ⟨fuel, rfl⟩ := Nat.exists_eq_add_of_le' (Nat.one_le_of_lt hfuel)
    rw [groups_of_marked hb, ih h (Nat.lt_of_succ_lt_succ hfuel),
      List.length_cons]
    congr 2
    omega

end Groups

/-! ## Integers -/

/-- The types of the integers that are kept in groups. -/
inductive IntegerType where
  | u32
  | s32
  | s64
  deriving DecidableEq, Repr

namespace IntegerType

/-- The number of bits. -/
def bits : IntegerType → Nat
  | u32 | s32 => 32
  | s64 => 64

/-- As many groups as the bits need. -/
def groups (t : IntegerType) : Nat :=
  (t.bits + 6) / 7

/-- The number that a sequence stands for. -/
def value : IntegerType → List UInt8 → Int
  | u32, bs => unsignedValue bs
  | s32, bs | s64, bs => signedValue bs

/-- The number lies in the range of the type. -/
def Holds : IntegerType → Int → Prop
  | u32, v => 0 ≤ v ∧ v < 2 ^ 32
  | s32, v => -2 ^ 31 ≤ v ∧ v < 2 ^ 31
  | s64, v => -2 ^ 63 ≤ v ∧ v < 2 ^ 63

instance : ∀ (t : IntegerType) (v : Int), Decidable (t.Holds v)
  | u32, _ | s32, _ | s64, _ => inferInstanceAs (Decidable (_ ∧ _))

/-- What becomes of the number of a sequence: types of 32 bits have none that
lies outside their range, and the one of 64 bits keeps the lowest bits of it. -/
def kept (t : IntegerType) (v : Int) : Option Int :=
  match t with
  | s64 => some (Int.bmod v (2 ^ 64))
  | _ => if t.Holds v then some v else none

/-- Reads an integer. -/
def read : IntegerType → Read Int
  | u32 => do return (← Reader.u32 : Nat)
  | s32 => Reader.s32
  | s64 => Reader.s64

/-- The values that the claimed range allows are kept as they are. -/
theorem kept_eq_self_iff {t : IntegerType} {v : Int} :
    t.kept v = some v ↔ t.Holds v := by
  cases t with
  | u32 | s32 =>
    simp only [kept]
    split <;> simp_all
  | s64 =>
    simp only [kept, Option.some.injEq, Holds]
    constructor
    · intro h
      have hlo := @Int.le_bmod v (2 ^ 64) (by decide)
      have hhi := @Int.bmod_lt v (2 ^ 64) (by decide)
      omega
    · rintro ⟨hlo, hhi⟩
      exact Int.bmod_eq_of_le (by omega) (by omega)

/-- Only types of 32 bits refuse a number. -/
theorem kept_eq_none_iff {t : IntegerType} {v : Int} :
    t.kept v = none ↔ t ≠ s64 ∧ ¬ t.Holds v := by
  cases t <;> simp [kept]

variable {bs rest : List UInt8} {n : Nat}

/-- A failure among the groups is one of the integer. -/
theorem read_of_error {t : IntegerType} {r r' : Reader} {f : Failure}
    (h : Reader.groups t.groups 0 0 r = .error f r') :
    t.read r = .error f r' := by
  cases t with
  | u32 | s32 =>
    change Reader.groups 5 0 0 r = _ at h
    simp only [read, Reader.u32, Reader.s32, bind, EStateM.bind, h]
  | s64 =>
    change Reader.groups 10 0 0 r = _ at h
    simp only [read, Reader.s64, bind, EStateM.bind, h]

/-- What is left of a reader after a sequence of groups. -/
def result (t : IntegerType) (v : Int) (r : Reader) :
    EStateM.Result Failure Reader Int :=
  match t.kept v with
  | some v => .ok v r
  | none => .error (tooWideAt r.position) r

theorem result_of_holds {t : IntegerType} {v : Int} (h : t.Holds v)
    (r : Reader) :
    t.result v r = .ok v r := by
  rw [result, kept_eq_self_iff.2 h]

theorem result_of_not_holds {t : IntegerType} {v : Int} (ht : t ≠ s64)
    (h : ¬ t.Holds v) (r : Reader) :
    t.result v r = .error (tooWideAt r.position) r := by
  rw [result, kept_eq_none_iff.2 ⟨ht, h⟩]

theorem result_eq_ok_iff {t : IntegerType} {v w : Int} {r r' : Reader} :
    t.result v r = .ok w r' ↔ t.kept v = some w ∧ r' = r := by
  cases hkept : t.kept v <;> simp [result, hkept, eq_comm]

theorem result_eq_error_iff {t : IntegerType} {v : Int} {f : Failure}
    {r r' : Reader} :
    t.result v r = .error f r' ↔ t.kept v = none ∧ f = tooWideAt r.position ∧
    r' = r := by
  cases hkept : t.kept v <;> simp [result, hkept, eq_comm]

theorem u32_groups {sum shift last : Nat} {r r' : Reader}
    (hrun : Reader.groups 5 0 0 r = .ok (sum, shift, last) r') :
    u32.read r = u32.result sum r' := by
  simp only [read, Reader.u32, bind, EStateM.bind, hrun]
  by_cases hfits : sum < 0x100000000
  · rw [if_neg (Nat.not_le.2 hfits),
      result_of_holds (t := u32) ⟨by omega, by omega⟩]
    rfl
  · have hholds : ¬ u32.Holds sum := fun hv => hfits (by have := hv.2; omega)
    rw [if_pos (Nat.not_lt.1 hfits), result_of_not_holds (by decide) hholds]
    rfl

theorem s32_groups {sum shift last : Nat} {v : Int} {r r' : Reader}
    (hrun : Reader.groups 5 0 0 r = .ok (sum, shift, last) r')
    (hvalue : Reader.signed sum shift last = v) :
    s32.read r = s32.result v r' := by
  simp only [read, Reader.s32, bind, EStateM.bind, hrun, hvalue]
  by_cases hholds : s32.Holds v
  · have hfits : ¬ (v < -0x80000000 ∨ 0x80000000 ≤ v) := by
      have hlo := hholds.1
      have hhi := hholds.2
      omega
    rw [if_neg hfits, result_of_holds hholds]
    rfl
  · have hwide : v < -0x80000000 ∨ 0x80000000 ≤ v := by
      by_contra hfits
      exact hholds ⟨by omega, by omega⟩
    rw [if_pos hwide, result_of_not_holds (by decide) hholds]
    rfl

theorem s64_groups {sum shift last : Nat} {v : Int} {r r' : Reader}
    (hrun : Reader.groups 10 0 0 r = .ok (sum, shift, last) r')
    (hvalue : Reader.signed sum shift last = Int.bmod v (2 ^ 64)) :
    s64.read r = s64.result v r' := by
  simp only [read, Reader.s64, bind, EStateM.bind, hrun, hvalue]
  rfl

/-- A sequence is read as what becomes of its number. -/
theorem read_groups (t : IntegerType) (h : IsGroups bs)
    (hlen : bs.length ≤ t.groups) (n : Nat) (rest : List UInt8) :
    t.read ⟨n, bs ++ rest⟩ = t.result (t.value bs) ⟨n + bs.length, rest⟩ := by
  obtain ⟨last, hsigned, hread⟩ := reads_groups h hlen 0 0
  have hrun := hread n rest
  simp only [Nat.zero_add, pow_zero, Nat.mul_one] at hrun
  cases t with
  | u32 => exact u32_groups hrun
  | s32 =>
    refine s32_groups hrun ?_
    have hlen : bs.length ≤ 5 := hlen
    -- five groups stay inside 64 bits
    have hspan : 2 ^ (7 * bs.length) ≤ 2 ^ 35 :=
      Nat.pow_le_pow_right (by decide) (by omega)
    have hsize := unsignedValue_lt bs
    zify at hspan hsize
    refine signed_of_signedSum hsigned ?_ ?_ <;> rcases hsigned
      with ⟨-, hv⟩ | ⟨-, hv⟩ <;> simp only [value] <;> omega
  | s64 => exact s64_groups hrun (signed_eq_bmod hsigned)

/-- Nothing but marks is too long for an integer. -/
theorem read_overlong (t : IntegerType) (h : AllMarked bs)
    (hlen : bs.length = t.groups) (n : Nat) (rest : List UInt8) :
    t.read ⟨n, bs ++ rest⟩ = .error (tooWideAt (n + bs.length)) ⟨n + bs.length,
      rest⟩ :=
  read_of_error (hlen ▸ groups_overlong h 0 0 n rest)

/-- Bytes that end inside an integer. -/
theorem read_cut (t : IntegerType) (h : AllMarked bs)
    (hlen : bs.length < t.groups) (n : Nat) :
    t.read ⟨n, bs⟩ = .error .truncated ⟨n + bs.length, []⟩ :=
  read_of_error (groups_cut h hlen 0 0 n)

/-- What each reader does, whatever the bytes are: a sequence of as many groups
as the type needs, or fewer, is read as what becomes of its number, and refused
if nothing does; so is a run of marks of that length; and bytes that end before
either are cut off. -/
theorem read_exact (t : IntegerType) (r r' : Reader) :
    (∀ v, t.read r = .ok v r' ↔
      ∃ bs, IsGroups bs ∧ bs.length ≤ t.groups ∧ t.kept (t.value bs) = some v ∧
        r.rest = bs ++ r'.rest ∧ r'.position = r.position + bs.length) ∧
    (t.read r = .error (tooWideAt r'.position) r' ↔
      ∃ bs, (IsGroups bs ∧ bs.length ≤ t.groups ∧ t.kept (t.value bs) = none ∨
          AllMarked bs ∧ bs.length = t.groups) ∧
        r.rest = bs ++ r'.rest ∧ r'.position = r.position + bs.length) ∧
    (t.read r = .error .truncated r' ↔
      AllMarked r.rest ∧ r.remaining < t.groups ∧
        r' = ⟨r.position + r.remaining, []⟩) := by
  obtain ⟨n, data⟩ := r
  obtain ⟨m, left⟩ := r'
  have hcases := groups_cases t.groups data
  refine ⟨fun v => ⟨fun hrun => ?_, ?_⟩, ⟨fun hrun => ?_, ?_⟩,
    ⟨fun hrun => ?_, ?_⟩⟩
  · obtain ⟨bs, rest, rfl, h, hlen⟩ | ⟨bs, rest, rfl, h, hlen⟩ | ⟨h, hlen⟩ :=
      hcases
    · rw [read_groups t h hlen, result_eq_ok_iff] at hrun
      obtain ⟨hkept, hr⟩ := hrun
      cases hr
      exact ⟨bs, h, hlen, hkept, rfl, rfl⟩
    · rw [read_overlong t h hlen] at hrun
      cases hrun
    · rw [read_cut t h hlen] at hrun
      cases hrun
  · rintro ⟨bs, h, hlen, hkept, hrest, hposition⟩
    obtain rfl : data = bs ++ left := hrest
    obtain rfl : m = n + bs.length := hposition
    rw [read_groups t h hlen, result_eq_ok_iff]
    exact ⟨hkept, rfl⟩
  · obtain ⟨bs, rest, rfl, h, hlen⟩ | ⟨bs, rest, rfl, h, hlen⟩ | ⟨h, hlen⟩ :=
      hcases
    · rw [read_groups t h hlen, result_eq_error_iff] at hrun
      obtain ⟨hkept, -, hr⟩ := hrun
      cases hr
      exact ⟨bs, .inl ⟨h, hlen, hkept⟩, rfl, rfl⟩
    · rw [read_overlong t h hlen] at hrun
      obtain ⟨-, hr⟩ := EStateM.Result.error.inj hrun
      cases hr
      exact ⟨bs, .inr ⟨h, hlen⟩, rfl, rfl⟩
    · rw [read_cut t h hlen] at hrun
      cases hrun
  · rintro ⟨bs, hbs, hrest, hposition⟩
    obtain rfl : data = bs ++ left := hrest
    obtain rfl : m = n + bs.length := hposition
    obtain ⟨h, hlen, hkept⟩ | ⟨h, hlen⟩ := hbs
    · rw [read_groups t h hlen, result_eq_error_iff]
      exact ⟨hkept, rfl, rfl⟩
    · rw [read_overlong t h hlen]
  · obtain ⟨bs, rest, rfl, h, hlen⟩ | ⟨bs, rest, rfl, h, hlen⟩ | ⟨h, hlen⟩ :=
      hcases
    · rw [read_groups t h hlen, result_eq_error_iff] at hrun
      obtain ⟨-, hf, -⟩ := hrun
      cases hf
    · rw [read_overlong t h hlen] at hrun
      cases hrun
    · rw [read_cut t h hlen] at hrun
      cases hrun
      exact ⟨h, hlen, rfl⟩
  · rintro ⟨h, hlen, hr⟩
    cases hr
    exact read_cut t h hlen n

/-- The bits that a tenth group has beyond 64 are lost: 2^64 is read as zero. -/
theorem s64_keeps_lowest :
    IsGroups (List.replicate 9 128 ++ [2]) ∧
      (List.replicate 9 (128 : UInt8) ++ [2]).length = s64.groups ∧
      s64.value (List.replicate 9 128 ++ [2]) = 2 ^ 64 ∧
      ¬ s64.Holds (2 ^ 64) ∧
      s64.read (.ofBytes (List.replicate 9 128 ++ [2])) = .ok 0 ⟨10, []⟩ := by
  have hgroups : IsGroups (List.replicate 9 128 ++ [2]) := by
    repeat first
      | exact .last (by decide)
      | refine .more (by decide) ?_
  refine ⟨hgroups, by decide, by decide, by decide, ?_⟩
  exact (read_groups s64 hgroups (by decide) 0 []).trans
    (result_eq_ok_iff.2 ⟨by decide, rfl⟩)

end IntegerType

/-! ## Shortest sequences -/

/-- A sequence stands for a number, and every other one that does is longer. -/
def IsShortest (value : List UInt8 → Int) (v : Int) (bs : List UInt8) : Prop :=
  IsGroups bs ∧ value bs = v ∧ ∀ cs, IsGroups cs → value cs = v → cs = bs ∨
    bs.length < cs.length

/-- A single group is the shortest sequence when no other single one stands for
its number. -/
theorem isShortest_single (value : List UInt8 → Int) {b : UInt8}
    (hb : b.toNat < 128) (h : ∀ c : UInt8, c.toNat < 128 →
      value [c] = value [b] → c.toNat = b.toNat) :
    IsShortest value (value [b]) [b] := by
  refine ⟨.last hb, rfl, fun cs hcs hvalue => ?_⟩
  cases hcs with
  | @last c hc =>
    have heq : c = b := UInt8.toNat_inj.1 (h c hc hvalue)
    exact .inl (heq ▸ rfl)
  | @more c cs hc hcs =>
    have hpos := List.length_pos_of_ne_nil hcs.ne_nil
    exact .inr (by simp only [List.length_cons, List.length_nil]; omega)

/-- A group in front of a shortest sequence, if no single group stands for the
number. -/
theorem IsShortest.cons {value : List UInt8 → Int} {v : Int} {b : UInt8}
    {bs : List UInt8} (h : IsShortest value v bs) (hb : 128 ≤ b.toNat)
    (hcons : ∀ (c : UInt8) (cs : List UInt8), IsGroups cs →
      value (c :: cs) = c.toNat % 128 + 128 * value cs)
    (hsingle : ∀ c : UInt8, c.toNat < 128 → value [c] ≠ b.toNat % 128 +
      128 * v) :
    IsShortest value (b.toNat % 128 + 128 * v) (b :: bs) := by
  obtain ⟨hgroups, rfl, hshortest⟩ := h
  refine ⟨.more hb hgroups, hcons b bs hgroups, fun cs hcs hvalue => ?_⟩
  cases hcs with
  | @last c hc => exact absurd hvalue (hsingle c hc)
  | @more c cs hc hcs =>
    rw [hcons c cs hcs] at hvalue
    have hc256 := c.toNat_lt
    have hb256 := b.toNat_lt
    have heq : c = b := UInt8.toNat_inj.1 (by omega)
    obtain rfl | hlt := hshortest cs hcs (by omega)
    · exact .inl (heq ▸ rfl)
    · exact .inr (Nat.succ_lt_succ hlt)

/-- A natural number is written in as few groups as can be. -/
theorem isShortest_unsignedGroups (n : Nat) :
    IsShortest (fun bs => unsignedValue bs) n (unsignedGroups n) := by
  induction n using unsignedGroups.induct with
  | case1 n hn =>
    have hval : (octet n).toNat = n := toNat_octet (by omega)
    have hsum : ((unsignedValue [octet n] : Nat) : Int) = n := by
      rw [unsignedValue, unsignedValue, hval]
      omega
    rw [unsignedGroups, if_pos hn]
    have hshortest := isShortest_single (fun bs => unsignedValue bs)
      (b := octet n) (by omega) fun c hc hvalue => by
        simp only [unsignedValue] at hvalue
        omega
    rwa [hsum] at hshortest
  | case2 n hn ih =>
    have hval : (octet (n % 128 + 128)).toNat = n % 128 + 128 :=
      toNat_octet (by omega)
    have hsum : ((octet (n % 128 + 128)).toNat : Int) % 128 + 128 *
        ((n / 128 : Nat) : Int) = n := by
      omega
    rw [unsignedGroups, if_neg hn]
    have hshortest := ih.cons (b := octet (n % 128 + 128)) (by omega)
      (fun c cs _ => by
        simp only [unsignedValue]
        push_cast
        rfl)
      fun c hc hvalue => by
        simp only [unsignedValue] at hvalue
        omega
    rwa [hsum] at hshortest

/-- An integer is written in as few groups as can be. -/
theorem isShortest_signedGroups (v : Int) :
    IsShortest signedValue v (signedGroups v) := by
  induction v using signedGroups.induct with
  | case1 v low rest hdone =>
    have hval : (octet low).toNat = low := toNat_octet (by omega)
    have hsum : signedValue [octet low] = v := by
      rw [signedValue, hval]
      split <;> omega
    rw [signedGroups, if_pos hdone]
    have hshortest := isShortest_single signedValue (b := octet low)
      (by omega) fun c hc hvalue => by
        simp only [signedValue] at hvalue
        split at hvalue <;> split at hvalue <;> omega
    rwa [hsum] at hshortest
  | case2 v low rest hdone ih =>
    have hval : (octet (low + 128)).toNat = low + 128 := toNat_octet (by omega)
    have hsum : ((octet (low + 128)).toNat : Int) % 128 + 128 * rest = v := by
      omega
    rw [signedGroups, if_neg hdone]
    have hshortest := ih.cons (b := octet (low + 128)) (by omega)
      (fun c cs hcs => hcs.signedValue_cons c)
      fun c hc hvalue => by
        simp only [signedValue] at hvalue
        split at hvalue <;> omega
    rwa [hsum] at hshortest

end JobWeave.Bytes
