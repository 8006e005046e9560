/-!
# Writing primitives

Each function gives the bytes of one value: LEB128 integers in their shortest
form, little-endian words, names behind their length.
-/

namespace JobWeave.Bytes

/-- A byte from a number below 256. -/
def octet (n : Nat) : UInt8 :=
  UInt8.ofNat n

/-- A natural number in groups of seven bits, the lowest first. -/
def unsignedGroups (n : Nat) : List UInt8 :=
  if n < 128 then [octet n]
  else octet (n % 128 + 128) :: unsignedGroups (n / 128)
termination_by n

/-- An integer in groups of seven bits, the lowest first; the last group shows
the sign. -/
def signedGroups (v : Int) : List UInt8 :=
  let low := (v % 128).toNat
  let rest := v / 128
  if (rest = 0 ∧ low < 64) ∨ (rest = -1 ∧ 64 ≤ low) then [octet low]
  else octet (low + 128) :: signedGroups rest
termination_by v.natAbs
decreasing_by omega

/-- An unsigned integer, taken modulo 2^32. -/
def u32 (n : Int) : List UInt8 :=
  unsignedGroups (n % 0x100000000).toNat

/-- A signed integer, taken modulo 2^32. -/
def s32 (v : Int) : List UInt8 :=
  signedGroups (Int.bmod v 0x100000000)

/-- A signed integer, taken modulo 2^64. -/
def s64 (v : Int) : List UInt8 :=
  signedGroups (Int.bmod v 0x10000000000000000)

/-- The lowest `width` bytes of a number, the lowest first. -/
def littleEndianBytes : Nat → Nat → List UInt8
  | 0, _ => []
  | width + 1, n => octet (n % 256) :: littleEndianBytes width (n / 256)

/-- A fixed 32-bit word. -/
def word32 (n : Nat) : List UInt8 :=
  littleEndianBytes 4 n

/-- A fixed 64-bit word. -/
def word64 (n : Nat) : List UInt8 :=
  littleEndianBytes 8 n

/-- A truth value. -/
def bool (b : Bool) : List UInt8 :=
  [if b then 1 else 0]

/-- A name: its length in bytes and its UTF-8 text. -/
def name (s : String) : List UInt8 :=
  let data := s.toUTF8.toList
  u32 data.length ++ data

end JobWeave.Bytes
