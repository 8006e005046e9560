import JobWeave.Body.Shared
import JobWeave.Body.Spelling
import JobWeave.Workspace.Universe
import JobWeave.Failure
import JobWeave.Diagnostic.Catalog

/-!
# Work on a world

A world is a workspace with a universe to resolve in and a table of imported
references.  `Weave` is work on a world that may stop; what was done before it
stopped stays done, and whoever wants it undone restores what was there.
-/

namespace JobWeave

/-- References to framework members, each looked up once.  A member that does
not resolve gets a placeholder; the log has a line for every look-up of one. -/
structure Imports where
  /-- types by name -/
  types : List (String × TypeRef) := []
  /-- methods by owner, name and signature -/
  methods : List (String × MethodRef) := []
  /-- fields by owner and name -/
  fields : List (String × FieldRef) := []
  /-- the members that the placeholders stand for -/
  missing : List (String × String) := []
  /-- the failed look-ups in order -/
  misses : Array String := #[]
  deriving Inhabited

/-- What the pass works on. -/
structure World where
  /-- the definitions -/
  workspace : Workspace := {}
  /-- what references resolve against -/
  resolver : Universe := {}
  /-- the imported references -/
  imports : Imports := {}
  /-- the systems that were given a creation hook, and their hooks -/
  hooks : List (TypeId × MethodId) := []
  /-- the types of variables of other bodies that were marked as value types; no
  method owns such a type, so restoring a method does not take the mark back -/
  foreignMarks : List TypeRef := []
  deriving Inhabited

/-- The world with an import table of its own, in which no system has a hook
yet. -/
def World.afresh (w : World) : World :=
  { w with imports := {}, hooks := [] }

/-- Work on a world that may stop. -/
abbrev Weave := EStateM Stop World

namespace Weave

/-- Stops without an answer. -/
def fault {α : Type} : Weave α :=
  throw (.fault none)

/-- Stops with a failure. -/
def fail {α : Type} (f : Failure) : Weave α :=
  throw (.failed f)

/-- A value that has to be there. -/
def need {α : Type} : Option α → Weave α
  | some a => return a
  | none => fault

/-- A computation that needs no world. -/
def ofOutcome {α : Type} : Outcome α → Weave α
  | .ok a => return a
  | .error s => throw s

/-- Runs some work and gives its end as a value; the world stays as it left
it. -/
def attempt {α : Type} (act : Weave α) : Weave (Except Stop α) := fun w =>
  match act w with
  | .ok a w => .ok (.ok a) w
  | .error s w => .ok (.error s) w

/-- The definitions. -/
def workspace : Weave Workspace := do
  return (← get).workspace

/-- Changes the definitions. -/
def modifyWorkspace (f : Workspace → Workspace) : Weave Unit :=
  modify fun w => { w with workspace := f w.workspace }

/-- Marks types that no method owns as value types. -/
def markForeign (ts : List TypeRef) : Weave Unit :=
  modify fun w => { w with foreignMarks := w.foreignMarks ++ ts }

/-- Adds to the definitions. -/
def addToWorkspace {α : Type} (f : Workspace → Workspace × α) : Weave α :=
  modifyGet fun w =>
    let (ws, a) := f w.workspace
    (a, { w with workspace := ws })

/-- The universe, brought up to date. -/
def resolver : Weave Universe :=
  modifyGet fun w =>
    let u := w.resolver.refresh w.workspace
    (u, { w with resolver := u })

/-! ## Definitions -/

/-- The entry of a type. -/
def typeEntry (t : TypeId) : Weave TypeEntry := do
  return (← workspace).type t

/-- What a type says of itself. -/
def typeHead (t : TypeId) : Weave TypeHead := do
  return ((← workspace).type t).head

/-- The full name of a type. -/
def typeName (t : TypeId) : Weave String := do
  return (← workspace).typeName t

/-- An open reference to a type. -/
def typeRef (t : TypeId) : Weave TypeRef := do
  return (← workspace).typeRef t

/-- A reference to a type on its own parameters. -/
def selfRef (t : TypeId) : Weave TypeRef := do
  return (← workspace).selfRef t

/-- The definition of a method. -/
def methodDef (m : MethodId) : Weave MethodDef := do
  return (← workspace).method m

/-- The full name of a method. -/
def methodName (m : MethodId) : Weave String := do
  return (← workspace).methodName m

/-- The type that declares a method. -/
def ownerOf (m : MethodId) : Weave TypeId := do
  need ((← workspace).methodEntry m).owner

/-- A reference to a method on its own type. -/
def methodRef (m : MethodId) : Weave MethodRef := do
  need ((← workspace).methodRef? m)

/-- The code of a method, which must have some. -/
def bodyOf (m : MethodId) : Weave Body := do
  need (← methodDef m).body

/-- Gives a method other code. -/
def setBody (m : MethodId) (b : Body) : Weave Unit :=
  modifyWorkspace (·.updateMethod m fun d => { d with body := some b })

/-- The code of a method as it is now, for `restoreBody`.  Code with a reference
that is not there cannot be recorded. -/
def saveBody (m : MethodId) : Weave Body := do
  let b ← bodyOf m
  if b.lacksReference then fault
  return b

/-- Lets a method adopt the marks of references in some code. -/
def adoptMarks (source : Body) (m : MethodId) : Weave Unit := do
  if let some b := (← methodDef m).body then setBody m (b.adoptMarks source)

/-- Lets the copies of a method adopt the marks of references in some code of
it. -/
def shareMarks (m : MethodId) (source : Body) : Weave Unit := do
  ((← workspace).copiesOf m).forM (adoptMarks source)

/-- Puts code that was recorded back into a method, unless the method has lost
its code since. -/
def restoreBody (m : MethodId) (saved : Body) : Weave Unit := do
  if let some b := (← methodDef m).body then
    setBody m (b.restored saved)
    shareMarks m saved

/-- Adds a copy of a method under another name to the type that declares it. -/
def duplicate (m : MethodId) (name : String) : Weave MethodId := do
  let owner ← ownerOf m
  let d ← methodDef m
  addToWorkspace (·.addCopy owner m (d.copyAs name))

/-- Folds the code of a method into macro forms. -/
def optimizeBody (m : MethodId) : Weave Unit := do
  let (b, whole) := (← bodyOf m).optimize
  setBody m b
  if !whole then fault

/-- Changes the code of a method, which must have some. -/
def modifyBody (m : MethodId) (f : Body → Body) : Weave Unit := do
  setBody m (f (← bodyOf m))

/-! ## Resolution -/

/-- The type of a full name. -/
def findType (name : String) : Weave (Option TypeId) := do
  return (← resolver).find? name

/-- The definition of a type. -/
def resolveType (t : TypeRef) : Weave (Option TypeId) := do
  return (← resolver).resolve? t

/-- The definition of a method. -/
def resolveMethod (m : MethodRef) : Weave (Option MethodId) := do
  let u ← resolver
  need (u.resolveMethod? (← workspace) m)

/-- The definition of a field and the type that declares it. -/
def resolveField (f : FieldRef) : Weave (Option (TypeId × FieldDef)) := do
  let u ← resolver
  return u.resolveField? (← workspace) f.owner f.name

/-- The type is `ns.name` or derives from it. -/
def inheritsFrom (t : Option TypeId) (ns name : String) : Weave Bool := do
  let u ← resolver
  return u.inheritsFrom (← workspace) t ns name

/-- The type implements the interface `ns.name`. -/
def implements (t : Option TypeId) (ns name : String) : Weave Bool := do
  let u ← resolver
  return u.implements (← workspace) t ns name

/-- Values of the type are stored in place. -/
def isValueType (t : TypeRef) : Weave Bool := do
  let u ← resolver
  return u.isValueType (← workspace) t

/-! ## Diagnostics -/

/-- The source position of an instruction of a method. -/
def locationOf (m : MethodId) (l : Option Label) : Weave Location := do
  return .inBody (← methodDef m).body l

/-- The diagnostic of a code at an instruction of a method. -/
def diagnostic (c : Code) (m : MethodId) (l : Option Label)
    (args : List Text.Arg) : Weave Diagnostic := do
  return .ofCode c (← methodName m) (← locationOf m l) args

/-- Stops with a diagnostic. -/
def refuse {α : Type} (c : Code) (m : MethodId) (l : Option Label)
    (args : List Text.Arg) : Weave α := do
  fail (.note (← diagnostic c m l args))

/-- The diagnostic of a failure in a method that no code describes. -/
def unexpected (m : MethodId) (cause : String) : Weave Diagnostic := do
  let w ← workspace
  let e := w.methodEntry m
  let name :=
    match e.owner with
    | some t => (w.type t).head.name ++ ":" ++ e.method.name
    | none => e.method.name
  return .unexpected name (w.methodName m) (← locationOf m none) cause

end Weave

end JobWeave
