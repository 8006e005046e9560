import JobWeave.Body

/-!
# Modules

A module is a list of type definitions; a type definition holds fields, methods
and nested types.  Definitions are trees without references upwards: the full
name of a type or method comes from the path that leads to it.
-/

namespace JobWeave

/-- An attribute on a definition. -/
structure Attribute where
  /-- the attribute's type -/
  type : TypeRef
  /-- the arguments by position -/
  args : List Operand := []
  /-- the arguments by name -/
  named : List (String × Operand) := []
  deriving Repr, Inhabited, BEq

namespace Attribute

/-- Some attribute of the list is of the type `ns.name`. -/
def has (as : List Attribute) (ns name : String) : Bool :=
  as.any (·.type.isType ns name)

/-- Some attribute of the list has a type of this simple name; a missing type
before it has none. -/
def hasName? (as : List Attribute) (name : String) : Option Bool :=
  match as with
  | [] => some false
  | a :: rest =>
    if a.type.isAbsent then none
    else if a.type.simpleName == name then some true
    else hasName? rest name

/-- The list without the attributes of the type `ns.name`. -/
def without (as : List Attribute) (ns name : String) : List Attribute :=
  as.filter fun a => !a.type.isType ns name

end Attribute

/-- A field definition. -/
structure FieldDef where
  /-- the name -/
  name : String
  /-- the type -/
  type : TypeRef
  /-- the flags -/
  flags : UInt16 := 0
  /-- the attributes -/
  attributes : List Attribute := []
  deriving Repr, Inhabited, BEq

/-- A parameter of a method. -/
structure ParamDef where
  /-- the name -/
  name : String
  /-- the type -/
  type : TypeRef
  /-- the flags -/
  flags : UInt8 := 0
  /-- the attributes -/
  attributes : List Attribute := []
  deriving Repr, Inhabited, BEq

/-- A method definition. -/
structure MethodDef where
  /-- the name -/
  name : String
  /-- the flags -/
  flags : UInt16 := 0
  /-- the flags for the machine that runs the method -/
  implFlags : UInt8 := 0
  /-- the type of the result, absent for none -/
  ret : TypeRef := .absent
  /-- the parameters, the instance apart -/
  params : List ParamDef := []
  /-- the names of the generic parameters -/
  genericParams : List String := []
  /-- the attributes -/
  attributes : List Attribute := []
  /-- the code, if the method has any -/
  body : Option Body := none
  deriving Repr, Inhabited, BEq

/-- What a type definition says of the type itself, its methods and nested types
apart. -/
structure TypeHead where
  /-- the namespace, empty for nested types -/
  ns : String := ""
  /-- the name -/
  name : String
  /-- the flags -/
  flags : UInt32 := 0
  /-- the base type -/
  base : TypeRef := .absent
  /-- the interfaces -/
  interfaces : List TypeRef := []
  /-- the names of the generic parameters -/
  genericParams : List String := []
  /-- the attributes -/
  attributes : List Attribute := []
  /-- the fields -/
  fields : List FieldDef := []
  deriving Repr, Inhabited, BEq

/-- A type definition. -/
inductive TypeDef where
  | mk (head : TypeHead) (methods : List MethodDef) (nested : List TypeDef)
  deriving Repr, Inhabited, BEq

/-- A unit of compiled code. -/
structure Module where
  /-- the name -/
  name : String
  /-- the types at the top level -/
  types : List TypeDef := []
  deriving Repr, Inhabited, BEq

/-! ## Flags -/

namespace TypeFlag

def pub : UInt32 := 1
def nestedPublic : UInt32 := 2
def nestedPrivate : UInt32 := 4
def abstract : UInt32 := 8
def sealed : UInt32 := 16
def interface : UInt32 := 32
def sequentialLayout : UInt32 := 64
def beforeFieldInit : UInt32 := 128

end TypeFlag

namespace FieldFlag

def pub : UInt16 := 1
def priv : UInt16 := 2
def static : UInt16 := 4
def initOnly : UInt16 := 8

end FieldFlag

namespace MethodFlag

def pub : UInt16 := 1
def priv : UInt16 := 2
def family : UInt16 := 4
def assembly : UInt16 := 8
def static : UInt16 := 16
def virtual : UInt16 := 32
def abstract : UInt16 := 64
def hideBySig : UInt16 := 128
def specialName : UInt16 := 256
def rtSpecialName : UInt16 := 512
def newSlot : UInt16 := 1024

end MethodFlag

namespace ImplFlag

def noInlining : UInt8 := 1

end ImplFlag

namespace ParamFlag

def readOnly : UInt8 := 1
def out : UInt8 := 2

end ParamFlag

/-! ## Fields and methods -/

/-- The field belongs to the type and not to its instances. -/
def FieldDef.isStatic (f : FieldDef) : Bool :=
  f.flags &&& FieldFlag.static != 0

namespace MethodDef

/-- The method has no instance. -/
def isStatic (m : MethodDef) : Bool :=
  m.flags &&& MethodFlag.static != 0

/-- Argument zero is the instance. -/
def hasThis (m : MethodDef) : Bool :=
  !m.isStatic

/-- A constructor of instances or of the type. -/
def isConstructor (m : MethodDef) : Bool :=
  m.name == ".ctor" || m.name == ".cctor"

/-- The method has no result. -/
def returnsVoid (m : MethodDef) : Bool :=
  m.ret.isAbsent || m.ret.isVoid

/-- The number of arguments, the instance included. -/
def argCount (m : MethodDef) : Nat :=
  if m.hasThis then m.params.length + 1 else m.params.length

/-- The parameter with an argument number; the instance is none. -/
def param? (m : MethodDef) (arg : Int) : Option ParamDef :=
  let n := if m.hasThis then arg - 1 else arg
  if n < 0 then none else m.params[n.toNat]?

/-- The method declared on a type. -/
def refOn (m : MethodDef) (owner : TypeRef) : MethodRef :=
  { owner, name := m.name,
    ret := if m.ret.isAbsent then .void else m.ret,
    params := m.params.map (·.type),
    hasThis := m.hasThis,
    arity := m.genericParams.length }

/-- An independent copy under another name. -/
def copyAs (m : MethodDef) (name : String) : MethodDef :=
  { m with name, body := m.body.map Body.distinct }

end MethodDef

/-! ## Types -/

namespace TypeHead

/-- Values of the type are stored in place. -/
def isValueType (t : TypeHead) : Bool :=
  t.base.isType "System" "ValueType" || t.base.isType "System" "Enum"

/-- The type is an interface. -/
def isInterface (t : TypeHead) : Bool :=
  t.flags &&& TypeFlag.interface != 0

/-- The type is neither stored in place nor an interface. -/
def isClass (t : TypeHead) : Bool :=
  !t.isValueType && !t.isInterface

/-- Compilers start the names they make up with an angle bracket. -/
def isCompilerGenerated (t : TypeHead) : Bool :=
  t.name.startsWith "<"

/-- The first field of a name. -/
def field? (t : TypeHead) (name : String) : Option FieldDef :=
  t.fields.find? (·.name == name)

/-- The type's parameters as arguments of itself. -/
def selfArgs (t : TypeHead) : List TypeRef :=
  (List.range t.genericParams.length).map fun (n : Nat) => .typeParam n

end TypeHead

/-- The text occurs in the name. -/
def occursIn (part name : List Char) : Bool :=
  match name with
  | [] => part.isEmpty
  | _ :: rest => part.isPrefixOf name || occursIn part rest

/-- The name of a class that a compiler makes to hold captured variables. -/
def isClosureName (name : String) : Bool :=
  occursIn "DisplayClass".toList name.toList

namespace TypeDef

/-- What the definition says of the type itself. -/
def head : TypeDef → TypeHead
  | mk h _ _ => h

/-- The methods. -/
def methods : TypeDef → List MethodDef
  | mk _ ms _ => ms

/-- The nested types. -/
def nested : TypeDef → List TypeDef
  | mk _ _ ts => ts

/-- The name of a type: nested types follow their outer type after a slash,
others their namespace after a dot. -/
def qualifiedName (outer : Option String) (h : TypeHead) : String :=
  match outer with
  | some o => o ++ "/" ++ h.name
  | none => if h.ns = "" then h.name else h.ns ++ "." ++ h.name

mutual

/-- The type and everything nested in it with full names, outer types first. -/
def withNames (outer : Option String) : TypeDef → List (String × TypeDef)
  | mk h ms ts =>
    let name := qualifiedName outer h
    (name, mk h ms ts) :: allWithNames (some name) ts

/-- The types of a list and everything nested in them. -/
def allWithNames (outer : Option String) :
    List TypeDef → List (String × TypeDef)
  | [] => []
  | t :: ts => t.withNames outer ++ allWithNames outer ts

end

end TypeDef

/-- Every type of a module with its full name, outer types first. -/
def Module.allTypes (m : Module) : List (String × TypeDef) :=
  TypeDef.allWithNames none m.types

end JobWeave
