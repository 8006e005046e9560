import JobWeave.Body

/-!
# Shared references

A copy of a body has instructions of its own, but the types, fields and methods
that they name are those of the body it was copied from.  So when a reference is
marked as a value type in one of them, it is marked in the other.

`Body.adoptMarks` brings the marks of a body up to those of another one: a
reference is shared where both have it at the same instruction or at the same
local variable.
-/

namespace JobWeave

/-- The reference marked as a value type. -/
def TypeRef.asValueType : TypeRef → TypeRef
  | .named ns n _ o as => .named ns n true o as
  | t => t

/-- The reference without the mark of value types. -/
def TypeRef.unmarked : TypeRef → TypeRef
  | .named ns n _ o as => .named ns n false o as
  | t => t

/-- The operand with its reference, or the owner that its reference names,
without the mark of value types. -/
def Operand.unmarked : Operand → Operand
  | .type t => .type t.unmarked
  | .field (some f) => .field (some { f with owner := f.owner.unmarked })
  | .method (some m) => .method (some { m with owner := m.owner.unmarked })
  | o => o

/-- Both operands are one reference, marked or not. -/
def Operand.isSameReference (o p : Operand) : Bool :=
  match o with
  | .type _ | .field (some _) | .method (some _) => o.unmarked == p.unmarked
  | _ => false

/-- Marking a reference leaves the same reference without its mark. -/
@[simp]
theorem TypeRef.unmarked_asValueType (t : TypeRef) :
    t.asValueType.unmarked = t.unmarked := by
  cases t <;> rfl

namespace Body

/-- The instruction with the marks of the reference that it shares with a
body. -/
def adoptInstr (source : Body) (i : Instr) : Instr :=
  match source.code.find? (·.label == i.label) with
  | some j =>
    if j.operand.isSameReference i.operand then { i with operand := j.operand }
    else i
  | none => i

/-- The local variable with the mark of the type that it shares with a body. -/
def adoptLocal (source : Body) (n : Nat) (l : Local) : Local :=
  match source.locals[n]? with
  | some k =>
    if k.type.unmarked == l.type.unmarked then { l with type := k.type } else l
  | none => l

/-- The body with the marks of the references that it shares with another. -/
def adoptMarks (b source : Body) : Body :=
  { b with
    code := b.code.map (adoptInstr source),
    locals := b.locals.mapIdx (adoptLocal source) }

end Body

end JobWeave
