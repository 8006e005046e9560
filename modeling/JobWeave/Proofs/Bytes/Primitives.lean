import Mathlib
import JobWeave.Proofs.Bytes.Groups

/-!
# Primitives in a row

The primitives of the binary form are one family: a `Kind` tells which values
there are, which of them its place has room for, how one is written and how it
is read.

* `read_written`: values that were written in a row are read in the same order,
  whatever bytes follow, and the integers among them take as few bytes as can
  be.
* `Kind.read_truncated_iff`: when a read comes to the end of the bytes, and
  where it stands then. Fixed places are taken as a whole or not at all; an
  integer has taken what there was (`Kind.truncated_read_moves`), and a name its
  length.
-/

namespace JobWeave.Bytes

/-- The kinds of values that the binary form is made from. -/
inductive Kind where
  /-- a single byte -/
  | byte
  /-- so many bytes; no bytes are fewer than none -/
  | bytes (n : Int)
  /-- a truth value -/
  | bool
  /-- an integer in groups -/
  | integer (t : IntegerType)
  /-- a fixed word of 32 bits, such as the pattern of a float -/
  | word32
  /-- a fixed word of 64 bits, such as the pattern of a float -/
  | word64
  /-- a text behind its length -/
  | name
  deriving DecidableEq, Repr

/-- Writes an integer. -/
def IntegerType.write : IntegerType → Int → List UInt8
  | u32 => Bytes.u32
  | s32 => Bytes.s32
  | s64 => Bytes.s64

namespace Kind

/-- The values of a kind. -/
def Value : Kind → Type
  | byte => UInt8
  | bytes _ => List UInt8
  | bool => Bool
  | integer _ => Int
  | word32 | word64 => Nat
  | name => String

/-- The place has room for the value. -/
def Fits : (k : Kind) → k.Value → Prop
  | byte, _ | bool, _ => True
  | bytes n, data => (List.length data : Int) = n
  | integer t, v => t.Holds v
  | word32, n => LT.lt (α := Nat) n (2 ^ 32)
  | word64, n => LT.lt (α := Nat) n (2 ^ 64)
  | name, s => String.utf8ByteSize s < 2 ^ 32

/-- Writes a value. -/
def write : (k : Kind) → k.Value → List UInt8
  | byte, b => [b]
  | bytes _, data => data
  | bool, b => Bytes.bool b
  | integer t, v => t.write v
  | word32, n => Bytes.word32 n
  | word64, n => Bytes.word64 n
  | name, s => Bytes.name s

/-- Reads a value. -/
def read : (k : Kind) → Read k.Value
  | byte => Reader.byte
  | bytes n => Reader.bytes n
  | bool => Reader.bool
  | integer t => t.read
  | word32 => Reader.word32
  | word64 => Reader.word64
  | name => Reader.name

end Kind

/-! ## Round trips -/

namespace IntegerType

/-- An integer of its type is read back. -/
theorem reads_write (t : IntegerType) {v : Int} (h : t.Holds v) :
    Reads t.read (t.write v) v := by
  cases t with
  | u32 =>
    obtain ⟨n, rfl⟩ := Int.eq_ofNat_of_zero_le h.1
    exact (reads_u32 (by have := h.2; omega)).bind_last (Reads.pure _)
  | s32 =>
    have hv : (Int32.ofInt v).toInt = v := Int32.toInt_ofInt_of_le h.1 h.2
    have hread := reads_s32 (Int32.ofInt v)
    rwa [hv] at hread
  | s64 =>
    have hv : (Int64.ofInt v).toInt = v := Int64.toInt_ofInt_of_le h.1 h.2
    have hread := reads_s64 (Int64.ofInt v)
    rwa [hv] at hread

/-- An integer of its type takes as few groups as can be. -/
theorem isShortest_write (t : IntegerType) {v : Int} (h : t.Holds v) :
    IsShortest t.value v (t.write v) := by
  cases t with
  | u32 =>
    obtain ⟨n, rfl⟩ := Int.eq_ofNat_of_zero_le h.1
    have hmod : ((n : Int) % 0x100000000).toNat = n := by
      have := h.2
      omega
    rw [write, Bytes.u32, hmod]
    exact isShortest_unsignedGroups n
  | s32 =>
    have hb : Int.bmod v 0x100000000 = v := Int.bmod_eq_of_le h.1 h.2
    rw [write, Bytes.s32, hb]
    exact isShortest_signedGroups v
  | s64 =>
    have hb : Int.bmod v 0x10000000000000000 = v := Int.bmod_eq_of_le h.1 h.2
    rw [write, Bytes.s64, hb]
    exact isShortest_signedGroups v

end IntegerType

/-- A value of any kind is read back if its place has room for it. -/
theorem Kind.reads_write (k : Kind) {v : k.Value} (h : k.Fits v) :
    Reads k.read (k.write v) v := by
  cases k with
  | byte => exact reads_byte v
  | bytes n => exact reads_bytes h.symm
  | bool => exact reads_bool v
  | integer t => exact t.reads_write h
  | word32 => exact reads_word32 h
  | word64 => exact reads_word64 h
  | name => exact reads_name h

/-- A value of some kind. -/
abbrev Datum := (k : Kind) × k.Value

/-- A value that its place has room for. -/
structure Primitive where
  /-- the kind of the value -/
  kind : Kind
  /-- the value itself -/
  value : kind.Value
  /-- the value fits its place -/
  fits : kind.Fits value

namespace Primitive

/-- What reading gives. -/
def datum (p : Primitive) : Datum :=
  ⟨p.kind, p.value⟩

/-- What writing gives. -/
def bytes (p : Primitive) : List UInt8 :=
  p.kind.write p.value

end Primitive

/-- Reads values of the given kinds in order. -/
def readEach : List Kind → Read (List Datum)
  | [] => return []
  | k :: ks => do
    let v ← k.read
    return ⟨k, v⟩ :: (← readEach ks)

/-- Values in a row are read one after the other. -/
theorem reads_each (ps : List Primitive) :
    Reads (readEach (ps.map Primitive.kind)) (ps.flatMap Primitive.bytes)
      (ps.map Primitive.datum) := by
  induction ps with
  | nil => exact Reads.pure _
  | cons p ps ih =>
    exact (p.kind.reads_write p.fits).bind (ih.bind_last (Reads.pure _))

/-- Values that were written in a row, with any bytes after them, are read in
the same order from the start, and the reader is left right behind them; each
integer is written in the shortest sequence that stands for it. -/
theorem read_written (ps : List Primitive) (rest : List UInt8) :
    readEach (ps.map Primitive.kind)
      (.ofBytes (ps.flatMap Primitive.bytes ++ rest)) =
        .ok (ps.map Primitive.datum)
          ⟨(ps.flatMap Primitive.bytes).length, rest⟩ ∧
      ∀ (t : IntegerType) (v : Int) (h : t.Holds v),
        IsShortest t.value v (Primitive.bytes ⟨.integer t, v, h⟩) := by
  refine ⟨?_, fun t v h => t.isShortest_write h⟩
  have hread := reads_each ps 0 rest
  rwa [Nat.zero_add] at hread

/-! ## The end of the bytes -/

section EndOfBytes

variable {α β : Type} {act : Read α} {g : α → Read β} {r r' : Reader}

/-- Readers that go on after another one come to the end of the bytes with it,
or later. -/
theorem bind_truncated_iff :
    (act >>= g) r = .error .truncated r' ↔
      act r = .error .truncated r' ∨ ∃ a s, act r = .ok a s ∧
      g a s = .error .truncated r' := by
  cases h : act r <;> simp [bind, EStateM.bind, h]

/-- A check of what was read takes no bytes. -/
theorem bind_check_truncated_iff (hg : ∀ a s, g a s ≠ .error .truncated r') :
    (act >>= g) r = .error .truncated r' ↔ act r = .error .truncated r' := by
  rw [bind_truncated_iff, or_iff_left]
  rintro ⟨a, s, -, h⟩
  exact hg a s h

namespace Reader

theorem pure_ne_truncated (a : α) (r r' : Reader) :
    (pure a : Read α) r ≠ .error .truncated r' := by
  intro h
  cases h

theorem failHere_ne_truncated (f : Failure) (r r' : Reader) :
    (failHere f : Read α) r ≠ .error .truncated r' := by
  intro h
  cases h

/-- A byte is missing only at the end. -/
theorem byte_truncated_iff :
    byte r = .error .truncated r' ↔ r.remaining < 1 ∧ r' = r := by
  obtain ⟨n, _ | ⟨b, rest⟩⟩ := r
  · exact ⟨fun h => by
      cases h; exact ⟨Nat.one_pos, rfl⟩, fun h => by rw [h.2]; rfl⟩
  · exact ⟨fun h => (by cases h), fun h => absurd h.1 (by simp [remaining])⟩

/-- Bytes are taken as a whole or not at all. -/
theorem bytes_truncated_iff {n : Int} :
    bytes n r = .error .truncated r' ↔ (r.remaining < n ∨ n < 0) ∧ r' = r := by
  have htaken : ((r.rest.take n.toNat).length : Int) < n ∨ n < 0 ↔
      r.remaining < n ∨ n < 0 := by
    rw [List.length_take, remaining]
    omega
  unfold bytes
  simp only [bind, EStateM.bind, get, getThe, MonadStateOf.get, EStateM.get]
  split
  · rename_i h
    exact ⟨fun herr => by
      cases herr; exact ⟨htaken.1 h, rfl⟩, fun herr => by rw [herr.2]; rfl⟩
  · rename_i h
    exact ⟨fun herr => (by cases herr), fun herr => absurd (htaken.2 herr.1) h⟩

/-- A name is missing with its length or, when that was read, with its text. -/
theorem name_truncated_iff :
    name r = .error .truncated r' ↔
      u32 r = .error .truncated r' ∨ ∃ n, u32 r = .ok n r' ∧
      r'.remaining < n := by
  refine bind_truncated_iff.trans (or_congr_right (exists_congr fun n => ?_))
  refine (exists_congr fun s => and_congr_right'
    ((bind_check_truncated_iff fun data s => ?_).trans
      bytes_truncated_iff)).trans ?_
  · cases String.fromUTF8? ⟨data.toArray⟩ with
    | some text => exact pure_ne_truncated text s r'
    | none => exact failHere_ne_truncated _ s r'
  · constructor
    · rintro ⟨s, hlength, hcut, rfl⟩
      exact ⟨hlength, by omega⟩
    · rintro ⟨hlength, hcut⟩
      exact ⟨r', hlength, by omega, rfl⟩

end Reader

namespace Kind

/-- The read comes to the end of the bytes, and where it stands then. -/
def CutAt : Kind → Reader → Reader → Prop
  | byte, r, r' | bool, r, r' => r.remaining < 1 ∧ r' = r
  | bytes n, r, r' => (r.remaining < n ∨ n < 0) ∧ r' = r
  | word32, r, r' => r.remaining < 4 ∧ r' = r
  | word64, r, r' => r.remaining < 8 ∧ r' = r
  | integer t, r, r' =>
    AllMarked r.rest ∧ r.remaining < t.groups ∧
      r' = ⟨r.position + r.remaining, []⟩
  | name, r, r' =>
    (AllMarked r.rest ∧ r.remaining < IntegerType.u32.groups ∧
      r' = ⟨r.position + r.remaining, []⟩) ∨
    ∃ n, Reader.u32 r = .ok n r' ∧ r'.remaining < n

/-- A read comes to the end of the bytes exactly when too few are left for its
kind.  Of a fixed place nothing is taken then; of an integer all there was; and
of a name all of its length, which may have been read already. -/
theorem read_truncated_iff (k : Kind) (r r' : Reader) :
    k.read r = .error .truncated r' ↔ k.CutAt r r' := by
  cases k with
  | byte => exact Reader.byte_truncated_iff
  | bytes n => exact Reader.bytes_truncated_iff
  | bool =>
    refine (bind_check_truncated_iff fun b s => ?_).trans
      Reader.byte_truncated_iff
    dsimp only
    split
    · exact Reader.failHere_ne_truncated _ _ _
    · exact Reader.pure_ne_truncated _ _ _
  | integer t => exact (t.read_exact r r').2.2
  | word32 =>
    refine (bind_check_truncated_iff fun data s => Reader.pure_ne_truncated
      _ _ _).trans (Reader.bytes_truncated_iff.trans (and_congr_left' ?_))
    omega
  | word64 =>
    refine (bind_check_truncated_iff fun data s => Reader.pure_ne_truncated
      _ _ _).trans (Reader.bytes_truncated_iff.trans (and_congr_left' ?_))
    omega
  | name =>
    refine Reader.name_truncated_iff.trans (or_congr_left ?_)
    rw [← (IntegerType.u32.read_exact r r').2.2]
    exact (bind_check_truncated_iff fun n s => Reader.pure_ne_truncated
      _ _ _).symm

/-- An integer and a name that the bytes end inside have moved the reader. -/
theorem truncated_read_moves :
    (integer .u32).read (.ofBytes [0x80]) = .error .truncated ⟨1, []⟩ ∧
      name.read (.ofBytes [0x05, 0x61, 0x62]) =
        .error .truncated ⟨1, [0x61, 0x62]⟩ :=
  ⟨rfl, rfl⟩

end Kind

end EndOfBytes

end JobWeave.Bytes
