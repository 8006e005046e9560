/-!
# Tables of runs

A property of characters is kept as runs of code points that share it, from code
point zero on: the length of each run, followed by a letter for the value.
`Runs.read` makes a table of such a text and `Runs.mark?` finds the letter of a
code point in it.
-/

namespace JobWeave.Text.Runs

/-- The runs with the code point after the last one of each, and the letter. -/
abbrev Table := Array (Nat × Char)

/-- Reads runs, of which `length` is the part of the next length that has been
read, and `start` its first code point. -/
def readFrom : List Char → Nat → Nat → Table → Table
  | [], _, _, out => out
  | c :: rest, length, start, out =>
    if c.isDigit then readFrom rest (length * 10 + (c.toNat - 48)) start out
    else readFrom rest 0 (start + length) (out.push (start + length, c))

/-- Reads a table. -/
def read (s : String) : Table :=
  readFrom s.toList 0 0 #[]

/-- The letter of the first run that ends after `code`, searched between the
positions `lo` and `lo + width`. -/
def search (table : Table) (code : Nat) : Nat → Nat → Nat → Option Char
  | 0, lo, _ => (table[lo]?).map (·.2)
  | fuel + 1, lo, width =>
    if width = 0 then (table[lo]?).map (·.2)
    else
      let half := width / 2
      match table[lo + half]? with
      | none => none
      | some (stop, _) =>
        if code < stop then search table code fuel lo half
        else search table code fuel (lo + half + 1) (width - half - 1)

/-- The letter of a code point.  Each step halves the part of the table that is
searched. -/
def mark? (table : Table) (code : Nat) : Option Char :=
  search table code table.size.log2.succ 0 (table.size - 1)

end JobWeave.Text.Runs
