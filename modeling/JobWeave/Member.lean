import JobWeave.TypeRef

/-!
# Field and method references

A member reference names its declaring type, so its generic parameters can be
instantiated with that type's arguments.  Methods keep their parameters and
result in the open form of the declaration; `MethodRef.paramType?` and
`MethodRef.return?` instantiate them.
-/

namespace JobWeave

/-- A reference to a field of a type. -/
structure FieldRef where
  /-- the type that declares the field -/
  owner : TypeRef
  /-- the open type of the field -/
  type : TypeRef
  /-- the name of the field -/
  name : String
  deriving Repr, Inhabited, BEq, ReflBEq, LawfulBEq

namespace FieldRef

/-- Type, owner and name. -/
def fullName? (f : FieldRef) : Option String := do
  let t ← f.type.fullName?
  let o ← f.owner.fullName?
  some (t ++ " " ++ o ++ "::" ++ f.name)

/-- Both references name the same field. -/
def same? (f g : FieldRef) : Option Bool :=
  if f.name == g.name then f.owner.same? g.owner else some false

/-- The type of the field on its owner. -/
def resolvedType? (f : FieldRef) : Option TypeRef :=
  if f.owner.isAbsent then none else f.type.substitute? f.owner.args []

end FieldRef

/-- A reference to a method of a type. -/
structure MethodRef where
  /-- the type that declares the method -/
  owner : TypeRef
  /-- the open type of the result, absent for none -/
  ret : TypeRef := .absent
  /-- the name of the method -/
  name : String
  /-- the open types of the parameters -/
  params : List TypeRef := []
  /-- the arguments of a generic instance -/
  typeArgs : List TypeRef := []
  /-- the number of generic parameters -/
  arity : Int := 0
  /-- argument zero is the instance -/
  hasThis : Bool := false
  deriving Repr, Inhabited, BEq, ReflBEq, LawfulBEq

namespace MethodRef

/-- The instance of a generic method with the given arguments. -/
def instantiate (m : MethodRef) (as : List TypeRef) : MethodRef :=
  { m with typeArgs := as, arity := max m.arity as.length }

/-- The method declared on another type, as a rule an instance of its owner. -/
def onType (m : MethodRef) (t : TypeRef) : MethodRef :=
  { m with owner := t }

/-- The method has no result. -/
def returnsVoid (m : MethodRef) : Bool :=
  m.ret.isAbsent || m.ret.isVoid

/-- A type of the signature on the method's owner and arguments. -/
def instantiated? (m : MethodRef) (t : TypeRef) : Option TypeRef :=
  if m.owner.isAbsent then none else t.substitute? m.owner.args m.typeArgs

/-- The instantiated type of a parameter. -/
def paramType? (m : MethodRef) (i : Nat) : Option TypeRef := do
  m.instantiated? (← m.params[i]?)

/-- The instantiated type of the result. -/
def return? (m : MethodRef) : Option TypeRef :=
  if m.ret.isAbsent then some .absent else m.instantiated? m.ret

/-- Result, owner, name with arguments or arity, and parameters. -/
def fullName? (m : MethodRef) : Option String := do
  let r ← if m.ret.isAbsent then some "System.Void" else m.ret.name?
  let o ← m.owner.name?
  let g ←
    if !m.typeArgs.isEmpty then do
      let as ← TypeRef.names? m.typeArgs
      some ("<" ++ ",".intercalate as ++ ">")
    else if 0 < m.arity then some ("\x60" ++ toString m.arity)
    else some ""
  let ps ← TypeRef.names? m.params
  some (r ++ " " ++ o ++ "::" ++ m.name ++ g ++ "(" ++ ",".intercalate
    ps ++ ")")

/-- Both references name the same method and instance. -/
def same? (m o : MethodRef) : Option Bool :=
  if m.hasThis == o.hasThis then do
    let x ← m.fullName?
    let y ← o.fullName?
    some (x == y)
  else some false

/-- Parameter lists of one length agree type by type. -/
def sameParams? : List TypeRef → List TypeRef → Option Bool
  | a :: as, b :: bs => do
    if ← a.same? b then sameParams? as bs else some false
  | _, _ => some true

/-- Both references name the same definition, whatever they instantiate. -/
def sameSignature? (m o : MethodRef) : Option Bool :=
  if m.name != o.name || m.params.length != o.params.length ||
      m.hasThis != o.hasThis then some false
  else if m.owner.isAbsent || o.owner.isAbsent then none
  else if m.owner.openName != o.owner.openName then some false
  else sameParams? m.params o.params

end MethodRef

end JobWeave
