import JobWeave.Workspace.Weave
import JobWeave.Framework.Names

/-!
# Imported references

Look-ups of framework members never stop: a member that does not resolve gives a
placeholder and a line in the log of misses.  A run of look-ups is checked once
at its end, by the log since a mark.
-/

namespace JobWeave.Weave

/-- Changes the import table. -/
def modifyImports (f : Imports → Imports) : Weave Unit :=
  modify fun w => { w with imports := f w.imports }

/-- A position in the log of misses. -/
def mark : Weave Nat := do
  return (← get).imports.misses.size

/-- The first member that was missed after a mark, or the empty text. -/
def missingSince (mark : Int) : Weave String := do
  let misses := (← get).imports.misses
  return if mark < 0 then "" else (misses[mark.toNat]?).getD ""

/-- The failure for the first member that was missed after a mark. -/
def missedSince? (mark : Int) : Weave (Option Failure) := do
  let name ← missingSince mark
  return if name = "" then none
    else some (.plain ("framework member " ++ name ++ " not found"))

/-- The number of imported references. -/
def importCount : Weave Nat := do
  let im := (← get).imports
  return im.types.length + im.methods.length + im.fields.length

/-- Logs a miss and remembers what the placeholder of `key` stands for. -/
def logMiss (key name : String) : Weave Unit :=
  modifyImports fun im =>
    { im with
      missing := (key, name) :: im.missing, misses := im.misses.push name }

/-- Logs a repeated miss if `key` has a placeholder. -/
def logRepeat (key : String) : Weave Unit :=
  modifyImports fun im =>
    match im.missing.lookup key with
    | some name => { im with misses := im.misses.push name }
    | none => im

/-- The definition of a framework type. -/
def importedDef (ns name : String) : Weave (Option TypeId) :=
  findType (if ns = "" then name else ns ++ "." ++ name)

/-- A type by its full name, with a placeholder if there is none. -/
def internType (key : String) (placeholder : TypeRef) : Weave TypeRef := do
  match (← get).imports.types.lookup key with
  | some t =>
    logRepeat key
    return t
  | none =>
    let t ←
      match ← findType key with
      | some d => typeRef d
      | none =>
        logMiss key key
        pure placeholder
    modifyImports fun im => { im with types := (key, t) :: im.types }
    return t

/-- An open reference to a framework type. -/
def importType (ns name : String) : Weave TypeRef :=
  internType (ns ++ "." ++ name) (.ofName ns name false)

/-- An open reference to a framework type inside another one. -/
def importNested (ns outer name : String) : Weave TypeRef :=
  internType (ns ++ "." ++ outer ++ "/" ++ name)
    ((TypeRef.ofName ns outer false).nestedIn name false)

/-- A type of the framework's main namespace. -/
def importEntities (name : String) : Weave TypeRef :=
  importType Framework.Ns.entities name

/-- The parameters of a definition start with the given types. -/
def startsWith? : List ParamDef → List TypeRef → Option Bool
  | _, [] => some true
  | [], _ :: _ => some false
  | p :: ps, t :: ts => do
    if ← p.type.same? t then startsWith? ps ts else some false

/-- A method of a type by name, number of parameters, number of generic
parameters unless negative, and the types of its first parameters. -/
def importGenericMethod (owner : TypeRef) (name : String) (params arity : Int)
    (first : List TypeRef) : Weave MethodRef := do
  if owner.isAbsent then fault
  let names ← need (first.mapM (·.fullName?))
  let key := owner.openName ++ "::" ++ name ++ "/" ++ toString params ++ "`" ++
    toString arity ++ String.join (names.map ("," ++ ·))
  match (← get).imports.methods.lookup key with
  | some m =>
    logRepeat key
    return m
  | none =>
    let u ← resolver
    let w ← workspace
    let candidates :=
      (u.lineage w (u.resolve? owner)).flatMap fun t => (w.type t).methods
    let fits := fun id =>
      let d := w.method id
      if d.name == name && (d.params.length : Int) == params &&
          (arity < 0 || (d.genericParams.length : Int) == arity) then
        if d.params.length < first.length then some false
        else startsWith? d.params first
      else some false
    let m ←
      match ← need (Universe.firstSome? fits candidates) with
      | some id => methodRef id
      | none =>
        logMiss key
          (owner.openName ++ "::" ++ name ++ "(" ++ toString params ++ ")")
        if params < 0 then fault
        pure { owner, name, ret := .void,
               params := List.replicate params.toNat .object }
    modifyImports fun im => { im with methods := (key, m) :: im.methods }
    return m

/-- A method of a type by name and number of parameters. -/
def importMethod (owner : TypeRef) (name : String) (params : Nat) :
    Weave MethodRef :=
  importGenericMethod owner name params (-1) []

/-- A field of a type. -/
def importField (owner : TypeRef) (name : String) : Weave FieldRef := do
  if owner.isAbsent then fault
  let key := owner.openName ++ "::" ++ name
  match (← get).imports.fields.lookup key with
  | some f =>
    logRepeat key
    return f
  | none =>
    let f ←
      match ← resolveField { owner, type := .absent, name } with
      | some (t, d) => do pure ((← workspace).fieldRef t d)
      | none =>
        logMiss key key
        pure { owner, name, type := .object }
    modifyImports fun im => { im with fields := (key, f) :: im.fields }
    return f

/-- An attribute of a framework type. -/
def importAttribute (ns name : String) (args : List Operand) :
    Weave Attribute := do
  return { type := ← importType ns name, args }

end JobWeave.Weave
