import JobWeave.Failure

/-!
# Reading primitives

A reader holds the bytes that are left and how many were taken.  Integers are
LEB128, fixed-width values little-endian, names a length and that many bytes of
UTF-8.  An operation that fails keeps the reader it has reached, because the
position is part of the message.
-/

namespace JobWeave.Bytes

/-- The unread bytes and the number of bytes already read. -/
structure Reader where
  /-- bytes read so far -/
  position : Nat := 0
  /-- bytes still to read -/
  rest : List UInt8
  deriving DecidableEq, Repr, Inhabited

/-- A computation that reads bytes; a failure keeps the reader. -/
abbrev Read := EStateM Failure Reader

namespace Reader

/-- A reader at the start of some bytes. -/
def ofBytes (data : List UInt8) : Reader :=
  { rest := data }

/-- The number of bytes left. -/
def remaining (r : Reader) : Nat :=
  r.rest.length

/-- Fails at the position reached so far. -/
def failHere {α : Type} (f : Failure) : Read α := do
  throw (.context ("at position " ++ toString (← get).position) f)

/-- The next byte. -/
def byte : Read UInt8 := do
  let r ← get
  match r.rest with
  | [] => throw .truncated
  | b :: rest =>
    set { r with position := r.position + 1, rest }
    return b

/-- The next `n` bytes, all of them or none; no bytes are fewer than none. -/
def bytes (n : Int) : Read (List UInt8) := do
  let r ← get
  let taken := r.rest.take n.toNat
  if taken.length < n ∨ n < 0 then throw .truncated
  else
    set { r with
      position := r.position + n.toNat, rest := r.rest.drop n.toNat }
    return taken

/-- A truth value: the byte zero or one. -/
def bool : Read Bool := do
  let b ← byte
  if b > 1 then
    let digits := Nat.toDigits 16 b.toNat
    let digits := if digits.length < 2 then '0' :: digits else digits
    failHere (.plain ("invalid bool byte 0x" ++ String.ofList digits))
  else return b = 1

/-- The bytes of a LEB128 number in groups of seven bits: the sum of the groups,
the number of bits they span and the last group.  At most `groups` bytes belong
to it. -/
def groups : Nat → Nat → Nat → Read (Nat × Nat × Nat)
  | 0, _, _ => failHere .tooWide
  | fuel + 1, shift, sum => do
    let b ← byte
    let low := b.toNat % 128
    let sum := sum + low * Nat.pow 2 shift
    if b.toNat < 128 then return (sum, shift + 7, low)
    else groups fuel (shift + 7) sum

/-- An unsigned 32-bit integer. -/
def u32 : Read Nat := do
  let (v, _, _) ← groups 5 0 0
  if 0x100000000 ≤ v then failHere .tooWide else return v

/-- The value of a signed number from its groups: the top bit of the last group
is the sign wherever it lies inside 64 bits. -/
def signed (sum shift last : Nat) : Int :=
  let v : Int := sum
  let span : Int := Nat.pow 2 shift
  Int.bmod (if shift < 64 ∧ 64 ≤ last then v - span else v) 0x10000000000000000

/-- A signed 32-bit integer. -/
def s32 : Read Int := do
  let (sum, shift, last) ← groups 5 0 0
  let v := signed sum shift last
  if v < -0x80000000 ∨ 0x80000000 ≤ v then failHere .tooWide else return v

/-- A signed 64-bit integer. -/
def s64 : Read Int := do
  let (sum, shift, last) ← groups 10 0 0
  return signed sum shift last

/-- The number that little-endian bytes stand for. -/
def littleEndian : List UInt8 → Nat
  | [] => 0
  | b :: rest => b.toNat + 256 * littleEndian rest

/-- A fixed 32-bit word. -/
def word32 : Read Nat := do
  return littleEndian (← bytes 4)

/-- A fixed 64-bit word. -/
def word64 : Read Nat := do
  return littleEndian (← bytes 8)

/-- A name: its length in bytes and its UTF-8 text. -/
def name : Read String := do
  let n ← u32
  let data ← bytes n
  match String.fromUTF8? ⟨data.toArray⟩ with
  | some s => return s
  | none => failHere (.plain "invalid UTF-8 in name")

end Reader

end JobWeave.Bytes
