import JobWeave.Module

/-!
# Workspaces

The pass looks definitions up by name, follows them to the types that declare
them, and adds new ones.  For that the modules are laid out flat: every type and
method has an id, and entries point at each other by id.

* `Workspace.load` lays a module out, and `Workspace.module` reads it back as a
  tree, so what the pass leaves behind can be listed, checked and written.
* A module counts the edits of its type tree (`ModuleEntry.edits`), so that name
  indexes know when they are out of date.
-/

namespace JobWeave

/-- The id of a type. -/
structure TypeId where
  /-- the position in the workspace -/
  index : Nat
  deriving DecidableEq, Repr, Inhabited, Hashable

/-- The id of a method. -/
structure MethodId where
  /-- the position in the workspace -/
  index : Nat
  deriving DecidableEq, Repr, Inhabited, Hashable

/-- The id of a module. -/
structure ModuleId where
  /-- the position in the workspace -/
  index : Nat
  deriving DecidableEq, Repr, Inhabited, Hashable

/-- A type definition and what it belongs to. -/
structure TypeEntry where
  /-- what the definition says of the type itself -/
  head : TypeHead
  /-- its methods -/
  methods : List MethodId := []
  /-- its nested types -/
  nested : List TypeId := []
  /-- the type that declares it -/
  outer : Option TypeId := none
  /-- the module it belongs to -/
  home : Option ModuleId := none
  deriving Repr, Inhabited

/-- A method definition and the type that declares it. -/
structure MethodEntry where
  /-- the definition -/
  method : MethodDef
  /-- the declaring type -/
  owner : Option TypeId := none
  /-- the method that it was copied from, the first one if that is a copy too -/
  model : Option MethodId := none
  deriving Repr, Inhabited

/-- A module and how often its type tree changed. -/
structure ModuleEntry where
  /-- the module's name -/
  name : String
  /-- the types at the top level -/
  types : List TypeId := []
  /-- the number of changes -/
  edits : Nat := 0
  deriving Repr, Inhabited

/-- Modules laid out flat. -/
structure Workspace where
  /-- the types by id -/
  types : Array TypeEntry := #[]
  /-- the methods by id -/
  methods : Array MethodEntry := #[]
  /-- the modules by id -/
  modules : Array ModuleEntry := #[]
  deriving Repr, Inhabited

namespace Workspace

/-! ## Entries -/

/-- The entry of a type. -/
def type (w : Workspace) (t : TypeId) : TypeEntry :=
  (w.types[t.index]?).getD default

/-- The entry of a method. -/
def methodEntry (w : Workspace) (m : MethodId) : MethodEntry :=
  (w.methods[m.index]?).getD default

/-- The definition of a method. -/
def method (w : Workspace) (m : MethodId) : MethodDef :=
  (w.methodEntry m).method

/-- The entry of a module. -/
def moduleEntry (w : Workspace) (m : ModuleId) : ModuleEntry :=
  (w.modules[m.index]?).getD default

/-- Changes a type. -/
def updateType (w : Workspace) (t : TypeId) (f : TypeEntry → TypeEntry) :
    Workspace :=
  { w with types := w.types.modify t.index f }

/-- Changes what a type says of itself. -/
def updateHead (w : Workspace) (t : TypeId) (f : TypeHead → TypeHead) :
    Workspace :=
  w.updateType t fun e => { e with head := f e.head }

/-- Changes a method. -/
def updateMethod (w : Workspace) (m : MethodId) (f : MethodDef → MethodDef) :
    Workspace :=
  { w with
    methods := w.methods.modify m.index
      fun e => { e with method := f e.method } }

/-- Records a change of a module's type tree. -/
def touch (w : Workspace) (m : ModuleId) : Workspace :=
  { w with
    modules := w.modules.modify m.index
      fun e => { e with edits := e.edits + 1 } }

/-! ## Names and references -/

/-- The full name of a type; the fuel bounds how deep it is nested. -/
def typeNameUpTo (w : Workspace) : Nat → TypeId → String
  | 0, _ => ""
  | fuel + 1, t =>
    let e := w.type t
    TypeDef.qualifiedName (e.outer.map (typeNameUpTo w fuel)) e.head

/-- The full name of a type. -/
def typeName (w : Workspace) (t : TypeId) : String :=
  w.typeNameUpTo (w.types.size + 1) t

/-- An open reference to a type; the fuel bounds how deep it is nested. -/
def typeRefUpTo (w : Workspace) : Nat → TypeId → TypeRef
  | 0, _ => .absent
  | fuel + 1, t =>
    let e := w.type t
    match e.outer with
    | none => .named e.head.ns e.head.name e.head.isValueType .absent []
    | some o =>
      .named "" e.head.name e.head.isValueType (typeRefUpTo w fuel o) []

/-- An open reference to a type. -/
def typeRef (w : Workspace) (t : TypeId) : TypeRef :=
  w.typeRefUpTo (w.types.size + 1) t

/-- A reference to a type applied to its own parameters: the type of the
instance inside it. -/
def selfRef (w : Workspace) (t : TypeId) : TypeRef :=
  (w.typeRef t).withArgs (w.type t).head.selfArgs

/-- The full name of a method. -/
def methodName (w : Workspace) (m : MethodId) : String :=
  let e := w.methodEntry m
  match e.owner with
  | some t => w.typeName t ++ "::" ++ e.method.name
  | none => e.method.name

/-- A reference to a method on its own type, which it must have. -/
def methodRef? (w : Workspace) (m : MethodId) : Option MethodRef := do
  let e := w.methodEntry m
  let owner ← e.owner
  some (e.method.refOn (w.selfRef owner))

/-- A reference to a field of a type on the type itself. -/
def fieldRef (w : Workspace) (t : TypeId) (f : FieldDef) : FieldRef :=
  { owner := w.selfRef t, type := f.type, name := f.name }

/-- The type of an argument of a method: the instance of a type stored in place
is passed by reference. -/
def argType? (w : Workspace) (m : MethodId) (arg : Int) : Option TypeRef :=
  let e := w.methodEntry m
  if e.method.hasThis && arg == 0 then do
    let owner ← e.owner
    let self := w.selfRef owner
    some (if (w.type owner).head.isValueType then self.byRef else self)
  else some (((e.method.param? arg).map (·.type)).getD .absent)

/-! ## Trees -/

/-- The types under a list of types, outer types first; the fuel bounds how deep
they are nested. -/
def underUpTo (w : Workspace) : Nat → List TypeId → List TypeId
  | 0, _ => []
  | fuel + 1, ts =>
    ts.flatMap fun t => t :: underUpTo w fuel (w.type t).nested

/-- Every type of a module, outer types first. -/
def typesOf (w : Workspace) (m : ModuleId) : List TypeId :=
  w.underUpTo (w.types.size + 1) (w.moduleEntry m).types

/-- The types of a module with their full names. -/
def namedTypesOf (w : Workspace) (m : ModuleId) : List (String × TypeId) :=
  (w.typesOf m).map fun t => (w.typeName t, t)

/-- A type as a tree; the fuel bounds how deep it is nested. -/
def typeDefUpTo (w : Workspace) : Nat → TypeId → TypeDef
  | 0, t => .mk (w.type t).head [] []
  | fuel + 1, t =>
    let e := w.type t
    .mk e.head (e.methods.map w.method) (e.nested.map (typeDefUpTo w fuel))

/-- A type as a tree. -/
def typeDef (w : Workspace) (t : TypeId) : TypeDef :=
  w.typeDefUpTo (w.types.size + 1) t

/-- A module as a tree. -/
def module (w : Workspace) (m : ModuleId) : Module :=
  let e := w.moduleEntry m
  { name := e.name, types := e.types.map w.typeDef }

/-! ## Additions -/

/-- Adds a method that no type declares yet. -/
def newMethod (w : Workspace) (m : MethodDef) : Workspace × MethodId :=
  ({ w with methods := w.methods.push { method := m } }, ⟨w.methods.size⟩)

/-- Adds a type that belongs nowhere yet. -/
def newType (w : Workspace) (h : TypeHead) : Workspace × TypeId :=
  ({ w with types := w.types.push { head := h } }, ⟨w.types.size⟩)

/-- Adds a module. -/
def newModule (w : Workspace) (name : String) : Workspace × ModuleId :=
  ({ w with modules := w.modules.push { name } }, ⟨w.modules.size⟩)

/-- Puts a method at the end of a type. -/
def attachMethod (w : Workspace) (t : TypeId) (m : MethodId) : Workspace :=
  let w := { w with
    methods := w.methods.modify m.index fun e => { e with owner := some t } }
  w.updateType t fun e => { e with methods := e.methods ++ [m] }

/-- Adds a method to a type. -/
def addMethod (w : Workspace) (t : TypeId) (m : MethodDef) :
    Workspace × MethodId :=
  let (w, id) := w.newMethod m
  (w.attachMethod t id, id)

/-- The method that a method and its copies come from. -/
def modelOf (w : Workspace) (m : MethodId) : MethodId :=
  (w.methodEntry m).model.getD m

/-- Adds a method to a type that was copied from another method. -/
def addCopy (w : Workspace) (t : TypeId) (source : MethodId) (m : MethodDef) :
    Workspace × MethodId :=
  let model := w.modelOf source
  let (w, id) := w.addMethod t m
  ({ w with
      methods := w.methods.modify id.index fun e =>
        { e with model := some model } },
    id)

/-- The other methods that come from the same one. -/
def copiesOf (w : Workspace) (m : MethodId) : List MethodId :=
  ((List.range w.methods.size).map MethodId.mk).filter fun n =>
    n != m && w.modelOf n == w.modelOf m

/-- Adds a field to a type. -/
def addField (w : Workspace) (t : TypeId) (f : FieldDef) : Workspace :=
  w.updateHead t fun h => { h with fields := h.fields ++ [f] }

/-- A type and everything under it belong to a module, or to none. -/
def setHome (w : Workspace) (t : TypeId) (home : Option ModuleId) : Workspace :=
  (w.underUpTo (w.types.size + 1) [t]).foldl
    (fun w t => w.updateType t fun e => { e with home }) w

/-- Puts a type at the end of another one; nested types have no namespace. -/
def attachNested (w : Workspace) (outer inner : TypeId) : Workspace :=
  let home := (w.type outer).home
  let w := w.updateType inner fun e =>
    { e with outer := some outer, head := { e.head with ns := "" } }
  let w := w.setHome inner home
  let w := w.updateType outer fun e => { e with nested := e.nested ++ [inner] }
  match home with
  | some m => w.touch m
  | none => w

/-- Puts a type at the end of a module. -/
def attachType (w : Workspace) (m : ModuleId) (t : TypeId) : Workspace :=
  let w := w.setHome t (some m)
  let w := { w with
    modules := w.modules.modify m.index
      fun e => { e with types := e.types ++ [t] } }
  w.touch m

mutual

/-- Lays out a type that belongs nowhere yet. -/
def loadType (w : Workspace) : TypeDef → Workspace × TypeId
  | .mk h ms nested =>
    let (w, t) := w.newType h
    let w := ms.foldl (fun w m => (w.addMethod t m).1) w
    (loadNested w t nested, t)

/-- Lays out types inside another one. -/
def loadNested (w : Workspace) (outer : TypeId) : List TypeDef → Workspace
  | [] => w
  | t :: ts =>
    let (w, inner) := loadType w t
    loadNested (w.attachNested outer inner) outer ts

end

/-- Adds a type and everything in it to a module. -/
def addType (w : Workspace) (m : ModuleId) (t : TypeDef) : Workspace × TypeId :=
  let (w, id) := w.loadType t
  (w.attachType m id, id)

/-- Adds a type and everything in it to another type. -/
def addNested (w : Workspace) (outer : TypeId) (t : TypeDef) :
    Workspace × TypeId :=
  let (w, id) := w.loadType t
  (w.attachNested outer id, id)

/-- Lays a module out. -/
def load (w : Workspace) (m : Module) : Workspace × ModuleId :=
  let (w, id) := w.newModule m.name
  (m.types.foldl (fun w t => (w.addType id t).1) w, id)

/-- Lays modules out one after another. -/
def loadAll (w : Workspace) (ms : List Module) : Workspace × List ModuleId :=
  ms.foldl
    (fun (w, ids) m =>
      let (w, id) := w.load m
      (w, ids ++ [id]))
    (w, [])

end Workspace

end JobWeave
