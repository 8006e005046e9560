import JobWeave.Workspace.Basic

/-!
# Universes

A universe resolves references against a list of modules; of two types with one
name the earlier wins.  It keeps an index of names and rebuilds it when a module
has recorded a change since.
-/

namespace JobWeave

/-- Modules to resolve against, with an index of their types by name. -/
structure Universe where
  /-- the modules in order -/
  modules : List ModuleId := []
  /-- the types by name when the index was built; the first of a name counts -/
  index : List (String × TypeId) := []
  /-- the modules' numbers of changes when the index was built -/
  seen : List Nat := []
  deriving Inhabited

namespace Universe

/-- The types of the modules by name, module by module. -/
def buildIndex (w : Workspace) (modules : List ModuleId) :
    List (String × TypeId) :=
  modules.flatMap w.namedTypesOf

/-- The numbers of changes of the modules. -/
def editCounts (w : Workspace) (modules : List ModuleId) : List Nat :=
  modules.map fun m => (w.moduleEntry m).edits

/-- A universe over modules, indexed as they are now. -/
def ofModules (w : Workspace) (modules : List ModuleId) : Universe :=
  { modules, index := buildIndex w modules, seen := editCounts w modules }

/-- No module has recorded a change since the index was built. -/
def isFresh (u : Universe) (w : Workspace) : Bool :=
  editCounts w u.modules == u.seen

/-- The universe with an index that is up to date. -/
def refresh (u : Universe) (w : Workspace) : Universe :=
  if u.isFresh w then u else ofModules w u.modules

/-- The type of a full name in an index that is up to date. -/
def find? (u : Universe) (name : String) : Option TypeId :=
  u.index.lookup name

/-- The named type under any wrappers; generic parameters have none. -/
def named? : TypeRef → Option TypeRef
  | .wrapped _ e _ => named? e
  | t@(.named ..) => some t
  | _ => none

/-- The definition of the named type under any wrappers. -/
def resolve? (u : Universe) (t : TypeRef) : Option TypeId := do
  u.find? (← named? t).openName

/-- The definition of a type's base. -/
def baseOf? (u : Universe) (w : Workspace) (t : TypeId) : Option TypeId :=
  u.resolve? (w.type t).head.base

/-- A type and the types it derives from; the fuel bounds their number. -/
def lineageUpTo (u : Universe) (w : Workspace) : Nat → TypeId → List TypeId
  | 0, t => [t]
  | fuel + 1, t =>
    match u.baseOf? w t with
    | some b => t :: lineageUpTo u w fuel b
    | none => [t]

/-- A type and the types it derives from, as far as they resolve. -/
def lineage (u : Universe) (w : Workspace) (t : Option TypeId) : List TypeId :=
  match t with
  | some t => u.lineageUpTo w w.types.size t
  | none => []

/-- The parameters of a definition are those of a reference. -/
def sameParams? : List ParamDef → List TypeRef → Option Bool
  | p :: ps, t :: ts => do
    if ← p.type.same? t then sameParams? ps ts else some false
  | _, _ => some true

/-- The definition is what a method reference names, the type apart. -/
def matches? (m : MethodRef) (d : MethodDef) : Option Bool :=
  if d.name != m.name || d.params.length != m.params.length ||
      d.hasThis != m.hasThis || (d.genericParams.length : Int) != m.arity then
    some false
  else sameParams? d.params m.params

/-- The first element that passes a test which may have no answer. -/
def firstSome? {α : Type} (test : α → Option Bool) :
    List α → Option (Option α)
  | [] => some none
  | a :: as => do
    if ← test a then some (some a) else firstSome? test as

/-- The definition of a method, on its type or one of that type's bases; there
is no answer if a type on the way has no name. -/
def resolveMethod? (u : Universe) (w : Workspace) (m : MethodRef) :
    Option (Option MethodId) :=
  firstSome? (fun id => matches? m (w.method id))
    ((u.lineage w (u.resolve? m.owner)).flatMap fun t => (w.type t).methods)

/-- A field's definition and the type that declares it, on its type or one of
that type's bases. -/
def resolveField? (u : Universe) (w : Workspace) (owner : TypeRef)
    (name : String) : Option (TypeId × FieldDef) :=
  (u.lineage w (u.resolve? owner)).findSome? fun t =>
    ((w.type t).head.field? name).map fun f => (t, f)

/-- The type is `ns.name` or derives from it. -/
def inheritsFrom (u : Universe) (w : Workspace) (t : Option TypeId)
    (ns name : String) : Bool :=
  (u.lineage w t).any fun t =>
    let e := w.type t
    (e.head.ns == ns && e.head.name == name && e.outer.isNone) ||
      e.head.base.isType ns name

/-- The type or one of its bases lists the interface `ns.name`, or one that
implements it; the fuel bounds the chain of interfaces. -/
def implementsUpTo (u : Universe) (w : Workspace) (ns name : String) :
    Nat → TypeId → Bool
  | 0, _ => false
  | fuel + 1, t =>
    (u.lineage w (some t)).any fun t =>
      (w.type t).head.interfaces.any fun i =>
        i.isType ns name ||
          match u.resolve? i with
          | some d => d != t && implementsUpTo u w ns name fuel d
          | none => false

/-- The type or one of its bases implements the interface `ns.name`. -/
def implements (u : Universe) (w : Workspace) (t : Option TypeId)
    (ns name : String) : Bool :=
  match t with
  | some t => u.implementsUpTo w ns name w.types.size t
  | none => false

/-- Values of the type are stored in place, by its reference or by its
definition. -/
def isValueType (u : Universe) (w : Workspace) (t : TypeRef) : Bool :=
  t.isValueType ||
    (t.isNamed &&
      match u.resolve? t with
      | some d => (w.type d).head.isValueType
      | none => false)

end Universe

end JobWeave
