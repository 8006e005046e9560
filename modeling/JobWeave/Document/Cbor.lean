import JobWeave.Document.Json

/-!
# CBOR

The canonical binary form of a document: shortest lengths, and the fields of an
object ordered by the length of their names and then by their bytes.
-/

namespace JobWeave.Json

/-- The bytes of a number, the highest first. -/
def bigEndian : Nat → Nat → List UInt8
  | 0, _ => []
  | width + 1, n => bigEndian width (n / 256) ++ [UInt8.ofNat (n % 256)]

/-- The head of an item: its major type and a number in the shortest form. -/
def cborHead (major n : Nat) : List UInt8 :=
  let first := fun (low : Nat) => UInt8.ofNat (major * 32 + low)
  if n < 24 then [first n]
  else if n < 0x100 then first 24 :: bigEndian 1 n
  else if n < 0x10000 then first 25 :: bigEndian 2 n
  else if n < 0x100000000 then first 26 :: bigEndian 4 n
  else first 27 :: bigEndian 8 n

/-- A text. -/
def cborText (s : String) : List UInt8 :=
  cborHead 3 s.utf8ByteSize ++ s.toUTF8.toList

/-- The order of fields: shorter names first, equal lengths by their bytes. -/
def cborBefore (a b : String) : Bool :=
  a.utf8ByteSize < b.utf8ByteSize ||
    (a.utf8ByteSize == b.utf8ByteSize && a ≤ b)

mutual

/-- The bytes of a document. -/
def cbor : Json → List UInt8
  | null => [0xf6]
  | bool b => [if b then 0xf5 else 0xf4]
  | int n => if 0 ≤ n then cborHead 0 n.toNat else cborHead 1 (-1 - n).toNat
  | str s => cborText s
  | arr xs => cborHead 4 xs.length ++ cborElements xs
  | obj fs =>
    cborHead 5 fs.length ++
      ((cborFields fs).mergeSort fun a b => cborBefore a.1 b.1).flatMap
        fun (k, v) => cborText k ++ v

/-- The bytes of elements. -/
def cborElements : List Json → List UInt8
  | [] => []
  | x :: xs => cbor x ++ cborElements xs

/-- The bytes of each field's value. -/
def cborFields : List (String × Json) → List (String × List UInt8)
  | [] => []
  | (k, v) :: fs => (k, cbor v) :: cborFields fs

end

end JobWeave.Json
