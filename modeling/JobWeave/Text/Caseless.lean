/-!
# Letters without regard to case

Names are made of the letters from a to z.  Apart from capital letters, the long
s and the sign for kelvin count as letters of the other case in a comparison
(`Text.fold`), and the sign for kelvin and the capital i with a dot become small
letters of that kind (`Text.lower`).  Other characters stay as they are, since no
name holds them.
-/

namespace JobWeave.Text

/-- The letter that a character is compared as. -/
def fold (c : Char) : Char :=
  if c.toNat = 0x17f then 's' else if c.toNat = 0x212a then 'k' else c.toLower

/-- The small letter of a character. -/
def lower (c : Char) : Char :=
  if c.toNat = 0x130 then 'i' else if c.toNat = 0x212a then 'k' else c.toLower

/-- The texts have the same letters, of whatever case. -/
def isSameName (a b : String) : Bool :=
  a.toList.map fold == b.toList.map fold

/-- A text in small letters. -/
def lowered (s : String) : String :=
  s.map lower

end JobWeave.Text
