import JobWeave.Body.Effect

/-!
# Cursors

A position in a list of instructions, from before the first to after the last.
-/

namespace JobWeave

/-- A position in code; -1 is before the first instruction. -/
structure Cursor where
  /-- the position -/
  index : Int := -1
  deriving DecidableEq, Repr, Inhabited

namespace Cursor

/-- The instruction at the cursor. -/
def current? (c : Cursor) (code : List Instr) : Option Instr :=
  if c.index < 0 then none else code[c.index.toNat]?

/-- One position on, as far as there is one. -/
def next (c : Cursor) (code : List Instr) : Cursor :=
  if c.index < code.length then ⟨c.index + 1⟩ else c

/-- One position back, as far as there is one. -/
def prev (c : Cursor) : Cursor :=
  if c.index ≥ 0 then ⟨c.index - 1⟩ else c

/-- The position of an instruction. -/
def seek? (code : List Instr) (l : Label) : Option Cursor :=
  (code.findIdx? (·.label == l)).map fun n => ⟨n⟩

/-- A position, or the nearest one there is. -/
def toIndex (code : List Instr) (n : Int) : Cursor :=
  ⟨max (-1) (min n code.length)⟩

end Cursor

end JobWeave
