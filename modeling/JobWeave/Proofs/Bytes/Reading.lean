import Mathlib
import JobWeave.Bytes.Reader
import JobWeave.Bytes.Writer

/-!
# Reading what was written

The primitives of the binary form in both directions.

* `Reads` says that a reader takes exactly the given bytes, whatever follows
  them, and gives a value.  Readers compose like the bytes do (`Reads.bind`).
* `Gives` says what every result of a reader is like, whatever the bytes are.
* Each primitive reads back what its writer wrote: `reads_u32`, `reads_s32`,
  `reads_s64`, `reads_word32`, `reads_word64`, `reads_bool` and `reads_name`.
-/

namespace JobWeave.Bytes

variable {α β : Type}

/-! ## Readers and their bytes -/

/-- The reader takes these bytes, whatever follows them, and gives the value. -/
def Reads (act : Read α) (bs : List UInt8) (a : α) : Prop :=
  ∀ n rest, act ⟨n, bs ++ rest⟩ = .ok a ⟨n + bs.length, rest⟩

/-- The reader gives the value if these bytes are all there are. -/
def ReadsAll (act : Read α) (bs : List UInt8) (a : α) : Prop :=
  ∀ n, ∃ r, act ⟨n, bs⟩ = .ok a r

/-- Whatever the reader gives has the property. -/
def Gives (act : Read α) (P : α → Prop) : Prop :=
  ∀ r a r', act r = .ok a r' → P a

namespace Reads

theorem pure (a : α) : Reads (Pure.pure a : Read α) [] a := fun _ _ => rfl

theorem bind {act : Read α} {f : α → Read β} {bs cs : List UInt8}
    {a : α} {b : β} (h : Reads act bs a) (hf : Reads (f a) cs b) :
    Reads (act >>= f) (bs ++ cs) b := by
  intro n rest
  have hact := h n (cs ++ rest)
  have hrun : (act >>= f) ⟨n, bs ++ (cs ++ rest)⟩ =
      f a ⟨n + bs.length, cs ++ rest⟩ := by
    simp only [Bind.bind, EStateM.bind]
    rw [hact]
  rw [List.append_assoc, hrun, hf, List.length_append, Nat.add_assoc]

/-- The last reader of several. -/
theorem bind_last {act : Read α} {f : α → Read β} {bs : List UInt8}
    {a : α} {b : β} (h : Reads act bs a) (hf : Reads (f a) [] b) :
    Reads (act >>= f) bs b := by
  simpa using h.bind hf

/-- A check before the first byte. -/
theorem bind_first {act : Read α} {f : α → Read β} {bs : List UInt8}
    {a : α} {b : β} (h : Reads act [] a) (hf : Reads (f a) bs b) :
    Reads (act >>= f) bs b := by
  simpa using h.bind hf

/-- The bytes up to the end. -/
theorem bind_all {act : Read α} {f : α → Read β} {bs cs : List UInt8}
    {a : α} {b : β} (h : Reads act bs a) (hf : ReadsAll (f a) cs b) :
    ReadsAll (act >>= f) (bs ++ cs) b := by
  intro n
  obtain ⟨r, hr⟩ := hf (n + bs.length)
  refine ⟨r, ?_⟩
  simp only [Bind.bind, EStateM.bind]
  rw [h n cs]
  exact hr

/-- A reader that looks at how many bytes are left. -/
theorem get_bind {f : Reader → Read β} {bs : List UInt8} {b : β}
    (h : ∀ r, bs.length ≤ r.remaining → Reads (f r) bs b) :
    Reads (get >>= f) bs b := by
  intro n rest
  exact h ⟨n, bs ++ rest⟩ (by simp [Reader.remaining]) n rest

end Reads

namespace Gives

variable {P Q : α → Prop}

theorem imp {act : Read α} (h : Gives act P) (hPQ : ∀ a, P a → Q a) :
    Gives act Q :=
  fun r a r' hrun => hPQ a (h r a r' hrun)

theorem pure {a : α} (h : P a) : Gives (Pure.pure a : Read α) P := by
  intro r b r' hrun
  cases hrun
  exact h

theorem bind {act : Read α} {f : α → Read β} {R : β → Prop} (h : Gives act P)
    (hf : ∀ a, P a → Gives (f a) R) : Gives (act >>= f) R := by
  intro r b r' hrun
  simp only [Bind.bind, EStateM.bind] at hrun
  cases hact : act r with
  | error e s =>
    rw [hact] at hrun
    cases hrun
  | ok a s =>
    rw [hact] at hrun
    exact hf a (h r a s hact) s b r' hrun

theorem any {act : Read α} : Gives act fun _ => True := fun _ _ _ _ => trivial

theorem bind_any {act : Read α} {f : α → Read β} {R : β → Prop}
    (hf : ∀ a, Gives (f a) R) : Gives (act >>= f) R :=
  any.bind fun a _ => hf a

theorem throw {f : Failure} : Gives (MonadExcept.throw f : Read α) P := by
  intro r a r' hrun
  cases hrun

theorem failHere {f : Failure} : Gives (Reader.failHere f : Read α) P :=
  bind_any fun _ => throw

end Gives

/-! ## Bytes -/

@[simp]
theorem toNat_octet {n : Nat} (h : n < 256) : (octet n).toNat = n := by
  simpa [octet] using h

theorem reads_byte (b : UInt8) : Reads Reader.byte [b] b := fun _ _ => rfl

theorem reads_bool (b : Bool) : Reads Reader.bool (bool b) b := by
  cases b <;> exact fun _ _ => rfl

theorem reads_bytes {data : List UInt8} {n : Int} (h : n = data.length) :
    Reads (Reader.bytes n) data data := by
  intro k rest
  subst h
  have htake : (data ++ rest).take (data.length : Int).toNat = data := by simp
  have hdrop : (data ++ rest).drop (data.length : Int).toNat = rest := by simp
  unfold Reader.bytes
  simp only [bind, EStateM.bind, get, getThe, MonadStateOf.get, EStateM.get,
    htake, hdrop]
  rw [if_neg (by omega)]
  rfl

theorem gives_bytes (n : Int) :
    Gives (Reader.bytes n) fun data => (data.length : Int) = n := by
  unfold Reader.bytes
  refine Gives.bind_any fun r => ?_
  simp only
  split
  · exact Gives.throw
  · rename_i h
    refine Gives.bind_any fun _ => Gives.pure ?_
    have hle := List.length_take_le n.toNat r.rest
    omega

/-! ## Unsigned integers -/

/-- A byte without the mark of further groups is the last one. -/
theorem reads_lastGroup (fuel shift sum : Nat) {b : UInt8} (h : b.toNat < 128) :
    Reads (Reader.groups (fuel + 1) shift sum) [b]
      (sum + b.toNat * 2 ^ shift, shift + 7, b.toNat) := by
  refine (reads_byte b).bind_last ?_
  simp only [h, if_true, Nat.mod_eq_of_lt h]
  exact Reads.pure _

/-- After a byte with the mark the other groups follow. -/
theorem reads_furtherGroups {fuel shift sum : Nat} {b : UInt8} {bs : List UInt8}
    {v : Nat × Nat × Nat} (h : 128 ≤ b.toNat)
    (hbs : Reads (Reader.groups fuel (shift + 7)
      (sum + b.toNat % 128 * 2 ^ shift)) bs v) :
    Reads (Reader.groups (fuel + 1) shift sum) (b :: bs) v := by
  change Reads _ ([b] ++ bs) v
  refine (reads_byte b).bind ?_
  simp only [Nat.not_lt.2 h, if_false]
  exact hbs

/-- Groups of seven bits are summed up to the number that they were made
from. -/
theorem reads_unsignedGroups (fuel n shift sum : Nat)
    (h : n < 128 ^ (fuel + 1)) :
    ∃ bits last, Reads (Reader.groups (fuel + 1) shift sum) (unsignedGroups n)
      (sum + n * 2 ^ shift, bits, last) := by
  induction fuel generalizing n shift sum with
  | zero =>
    have hn : n < 128 := by simpa using h
    have hval : (octet n).toNat = n := toNat_octet (by omega)
    have hlast := reads_lastGroup 0 shift sum (hval.trans_lt hn)
    rw [unsignedGroups, if_pos hn]
    rw [hval] at hlast
    exact ⟨_, _, hlast⟩
  | succ fuel ih =>
    by_cases hn : n < 128
    · have hval : (octet n).toNat = n := toNat_octet (by omega)
      have hlast := reads_lastGroup (fuel + 1) shift sum (hval.trans_lt hn)
      rw [unsignedGroups, if_pos hn]
      rw [hval] at hlast
      exact ⟨_, _, hlast⟩
    · have hrest : n / 128 < 128 ^ (fuel + 1) := by
        rw [Nat.div_lt_iff_lt_mul (by omega)]
        simpa [pow_succ] using h
      obtain ⟨bits, last, hread⟩ :=
        ih (n / 128) (shift + 7) (sum + n % 128 * 2 ^ shift) hrest
      have hval : (octet (n % 128 + 128)).toNat = n % 128 + 128 :=
        toNat_octet (by omega)
      have hsum : sum + n % 128 * 2 ^ shift + n / 128 * 2 ^ (shift + 7) =
          sum + n * 2 ^ shift := by
        conv_rhs => rw [← Nat.div_add_mod n 128]
        ring
      have hlow : (octet (n % 128 + 128)).toNat % 128 = n % 128 := by omega
      rw [unsignedGroups, if_neg hn]
      refine ⟨bits, last, reads_furtherGroups (by omega) ?_⟩
      rw [hlow, ← hsum]
      exact hread

theorem length_u32_pos (n : Int) : 0 < (u32 n).length := by
  unfold u32
  rw [unsignedGroups]
  split <;> simp

/-- Numbers of 32 bits are read back. -/
theorem reads_u32 {n : Nat} (h : n < 2 ^ 32) : Reads Reader.u32 (u32 n) n := by
  obtain ⟨bits, last, hread⟩ := reads_unsignedGroups 4 n 0 0 (by omega)
  have hmod : ((n : Int) % 0x100000000).toNat = n := by omega
  unfold u32
  rw [hmod]
  refine hread.bind_last ?_
  simp only [Nat.zero_add, pow_zero, Nat.mul_one]
  rw [if_neg (by omega)]
  exact Reads.pure n

theorem gives_u32 : Gives Reader.u32 (· < 2 ^ 32) := by
  refine Gives.bind_any fun v => ?_
  obtain ⟨n, -, -⟩ := v
  simp only
  split
  · exact Gives.failHere
  · exact Gives.pure (by omega)

/-! ## Signed integers -/

/-- The sum of the groups of a signed number: the number itself, or a span of
`bits` bits above it when the last group shows a negative sign. -/
def SignedSum (v : Int) (total bits last : Nat) : Prop :=
  last < 64 ∧ (total : Int) = v ∨ 64 ≤ last ∧ (total : Int) = v + 2 ^ bits

/-- A number that fits into a single group. -/
theorem signedSum_single {v : Int}
    (h : (v / 128 = 0 ∧ (v % 128).toNat < 64) ∨
      (v / 128 = -1 ∧ 64 ≤ (v % 128).toNat)) :
    SignedSum v (v % 128).toNat 7 (v % 128).toNat := by
  rcases h with ⟨hrest, hlow⟩ | ⟨hrest, hlow⟩
  · exact .inl ⟨hlow, by omega⟩
  · exact .inr ⟨hlow, by norm_num; omega⟩

/-- A group in front of the others. -/
theorem SignedSum.cons {v : Int} {total bits last : Nat}
    (h : SignedSum (v / 128) total bits last) :
    SignedSum v ((v % 128).toNat + 128 * total) (7 + bits) last := by
  have hlow : ((v % 128).toNat : Int) = v % 128 :=
    Int.toNat_of_nonneg (by omega)
  have hv := Int.mul_ediv_add_emod v 128
  rcases h with ⟨hlast, htotal⟩ | ⟨hlast, htotal⟩
  · refine .inl ⟨hlast, ?_⟩
    push_cast
    rw [hlow, htotal]
    omega
  · refine .inr ⟨hlast, ?_⟩
    push_cast
    rw [hlow, htotal, pow_add]
    omega

/-- The groups of a signed number are summed up, and the last one tells the
sign. -/
theorem reads_signedGroups (fuel shift sum : Nat) (v : Int)
    (hlo : -(64 * 128 ^ fuel) ≤ v) (hhi : v < 64 * 128 ^ fuel) :
    ∃ total bits last, SignedSum v total bits last ∧
      Reads (Reader.groups (fuel + 1) shift sum) (signedGroups v)
        (sum + total * 2 ^ shift, shift + bits, last) := by
  induction fuel generalizing shift sum v with
  | zero =>
    have hdone : (v / 128 = 0 ∧ (v % 128).toNat < 64) ∨
        (v / 128 = -1 ∧ 64 ≤ (v % 128).toNat) := by omega
    have hval : (octet (v % 128).toNat).toNat = (v % 128).toNat :=
      toNat_octet (by omega)
    have hlast := reads_lastGroup 0 shift sum (b := octet (v % 128).toNat)
      (by omega)
    rw [hval] at hlast
    rw [signedGroups, if_pos hdone]
    exact ⟨_, _, _, signedSum_single hdone, hlast⟩
  | succ fuel ih =>
    by_cases hdone : (v / 128 = 0 ∧ (v % 128).toNat < 64) ∨
        (v / 128 = -1 ∧ 64 ≤ (v % 128).toNat)
    · have hval : (octet (v % 128).toNat).toNat = (v % 128).toNat :=
        toNat_octet (by omega)
      have hlast := reads_lastGroup (fuel + 1) shift sum
        (b := octet (v % 128).toNat) (by omega)
      rw [hval] at hlast
      rw [signedGroups, if_pos hdone]
      exact ⟨_, _, _, signedSum_single hdone, hlast⟩
    · have hlo' : -(64 * 128 ^ fuel) ≤ v / 128 := by
        rw [pow_succ] at hlo
        omega
      have hhi' : v / 128 < 64 * 128 ^ fuel := by
        rw [pow_succ] at hhi
        omega
      obtain ⟨total, bits, last, hsigned, hread⟩ :=
        ih (shift + 7) (sum + (v % 128).toNat * 2 ^ shift) (v / 128) hlo' hhi'
      have hval : (octet ((v % 128).toNat + 128)).toNat =
          (v % 128).toNat + 128 :=
        toNat_octet (by omega)
      have hmod : (octet ((v % 128).toNat + 128)).toNat % 128 =
        (v % 128).toNat := by omega
      have hsum : sum + (v % 128).toNat * 2 ^ shift + total * 2 ^ (shift + 7) =
          sum + ((v % 128).toNat + 128 * total) * 2 ^ shift := by
        ring
      rw [signedGroups, if_neg hdone]
      refine ⟨_, _, _, hsigned.cons, reads_furtherGroups (by omega) ?_⟩
      rw [hmod, ← hsum, ← Nat.add_assoc]
      exact hread

/-- Of what signed groups stand for the lowest 64 bits are kept. -/
theorem signed_eq_bmod {v : Int} {total bits last : Nat}
    (h : SignedSum v total bits last) :
    Reader.signed total bits last = Int.bmod v (2 ^ 64) := by
  have hmod : (0x10000000000000000 : Nat) = 2 ^ 64 := rfl
  unfold Reader.signed
  simp only [Nat.pow_eq, Nat.cast_pow, Nat.cast_ofNat, hmod]
  rcases h with ⟨hlast, htotal⟩ | ⟨hlast, htotal⟩
  · rw [if_neg (by omega), htotal]
  · by_cases hbits : bits < 64
    · rw [if_pos ⟨hbits, hlast⟩, htotal, Int.add_sub_cancel]
    · obtain ⟨k, rfl⟩ := Nat.exists_eq_add_of_le (Nat.not_lt.1 hbits)
      have hspan : v + 2 ^ (64 + k) = v + (2 ^ 64 : Nat) * 2 ^ k := by
        rw [pow_add]
        rfl
      rw [if_neg (by omega), htotal, hspan]
      exact Int.add_mul_bmod_self_left v (2 ^ 64) (2 ^ k)

/-- The value of groups that belong to a number of 64 bits. -/
theorem signed_of_signedSum {v : Int} {total bits last : Nat}
    (h : SignedSum v total bits last) (hlo : -2 ^ 63 ≤ v) (hhi : v < 2 ^ 63) :
    Reader.signed total bits last = v := by
  rw [signed_eq_bmod h]
  exact Int.bmod_eq_of_le (by omega) (by omega)

theorem reads_s32 (v : Int32) : Reads Reader.s32 (s32 v.toInt) v.toInt := by
  have hlo := v.le_toInt
  have hhi := v.toInt_lt
  have hb : Int.bmod v.toInt 0x100000000 = v.toInt :=
    Int.bmod_eq_of_le (by omega) (by omega)
  obtain ⟨total, bits, last, hsigned, hread⟩ :=
    reads_signedGroups 4 0 0 v.toInt (by omega) (by omega)
  unfold s32
  rw [hb]
  refine hread.bind_last ?_
  simp only [Nat.zero_add, pow_zero, Nat.mul_one]
  rw [signed_of_signedSum hsigned (by omega) (by omega), if_neg (by omega)]
  exact Reads.pure _

theorem reads_s64 (v : Int64) : Reads Reader.s64 (s64 v.toInt) v.toInt := by
  have hlo := v.le_toInt
  have hhi := v.toInt_lt
  have hb : Int.bmod v.toInt 0x10000000000000000 = v.toInt :=
    Int.bmod_eq_of_le (by omega) (by omega)
  obtain ⟨total, bits, last, hsigned, hread⟩ :=
    reads_signedGroups 9 0 0 v.toInt (by omega) (by omega)
  unfold s64
  rw [hb]
  refine hread.bind_last ?_
  simp only [Nat.zero_add, pow_zero, Nat.mul_one]
  rw [signed_of_signedSum hsigned (by omega) (by omega)]
  exact Reads.pure _

/-! ## Words -/

theorem length_littleEndianBytes (width n : Nat) :
    (littleEndianBytes width n).length = width := by
  induction width generalizing n with
  | zero => rfl
  | succ width ih => simp [littleEndianBytes, ih]

theorem littleEndian_littleEndianBytes (width n : Nat) :
    Reader.littleEndian (littleEndianBytes width n) = n % 256 ^ width := by
  induction width generalizing n with
  | zero => simp [littleEndianBytes, Reader.littleEndian, Nat.mod_one]
  | succ width ih =>
    have hval : (octet (n % 256)).toNat = n % 256 := toNat_octet (by omega)
    rw [littleEndianBytes, Reader.littleEndian, ih, hval, pow_succ',
      Nat.mod_mul]

theorem reads_word32 {n : Nat} (h : n < 2 ^ 32) :
    Reads Reader.word32 (word32 n) n := by
  refine (reads_bytes (by simp [word32, length_littleEndianBytes])).bind_last ?_
  rw [word32, littleEndian_littleEndianBytes, Nat.mod_eq_of_lt (by omega)]
  exact Reads.pure n

theorem reads_word64 {n : Nat} (h : n < 2 ^ 64) :
    Reads Reader.word64 (word64 n) n := by
  refine (reads_bytes (by simp [word64, length_littleEndianBytes])).bind_last ?_
  rw [word64, littleEndian_littleEndianBytes, Nat.mod_eq_of_lt (by omega)]
  exact Reads.pure n

/-! ## Names -/

/-- The bytes of an array in order. -/
theorem toList_byteArray (bs : ByteArray) : bs.toList = bs.data.toList := by
  have hloop : ∀ n i acc, bs.size - i = n →
      ByteArray.toList.loop bs i acc = acc.reverse ++
        bs.data.toList.drop i := by
    intro n
    induction n with
    | zero =>
      intro i acc hi
      have hdrop : bs.data.toList.drop i = [] := by
        rw [List.drop_eq_nil_iff]
        have : bs.data.toList.length = bs.size := by simp
        omega
      rw [ByteArray.toList.loop, if_neg (by omega), hdrop, List.append_nil]
    | succ n ih =>
      intro i acc hi
      have hlt : i < bs.data.toList.length := by
        have : bs.data.toList.length = bs.size := by simp
        omega
      have hget : bs.get! i = bs.data.toList[i] :=
        getElem!_pos bs.data i (by simpa using hlt)
      rw [ByteArray.toList.loop, if_pos (by omega), ih _ _ (by omega), hget]
      simp [List.drop_eq_getElem_cons hlt]
  rw [ByteArray.toList, hloop bs.size 0 [] rfl]
  rfl

/-- A name is read back if its length fits its place. -/
theorem reads_name {s : String} (h : s.utf8ByteSize < 2 ^ 32) :
    Reads Reader.name (name s) s := by
  have hlen : s.toUTF8.toList.length = s.utf8ByteSize := by
    simp [toList_byteArray]
  have harray : (⟨s.toUTF8.toList.toArray⟩ : ByteArray) = s.toByteArray := by
    simp [toList_byteArray, String.toUTF8]
  have hvalid : String.fromUTF8? s.toByteArray = some s := by
    simp [String.fromUTF8?, s.isValidUTF8, String.fromUTF8]
  refine (reads_u32 (by omega)).bind ((reads_bytes rfl).bind_last ?_)
  simp only [harray, hvalid]
  exact Reads.pure s

theorem gives_name : Gives Reader.name fun s => s.utf8ByteSize < 2 ^ 32 := by
  refine gives_u32.bind fun n hn => (gives_bytes n).bind fun data hdata => ?_
  split
  · rename_i s hs
    refine Gives.pure ?_
    unfold String.fromUTF8? at hs
    split at hs
    · cases hs
      simp [String.utf8ByteSize, String.fromUTF8, ByteArray.size]
      omega
    · cases hs
  · exact Gives.failHere

end JobWeave.Bytes
