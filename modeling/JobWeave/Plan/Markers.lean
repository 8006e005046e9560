import JobWeave.Plan.Captures

/-!
# Attributes of a job

Some modifiers of a chain mark a captured variable for the job system.  They
take effect only on types that carry, themselves or in a field, the attribute
that the mark is meant for.  The job itself is marked for the native compiler.
-/

namespace JobWeave.Planning

open Framework

/-- The search for a marker passes through values of the type. -/
def isSearched (t : TypeRef) : Bool :=
  t.isNamed && !t.isPrimitive

/-- A search for a marker: the names of the types it looked at, and what is
left. -/
structure MarkerSearch where
  /-- the names of the types that were looked at -/
  seen : List String := []
  /-- the types that are left, the next one first -/
  left : List TypeRef
  deriving Inhabited

/-- One step of a search: the answer, or what is left of the search.  The types
of the instance fields are looked at before the types that were left, the last
field first. -/
def searchStep (marker : String) (s : MarkerSearch) :
    Weave (Bool ⊕ MarkerSearch) := do
  match s.left with
  | [] => return .inl false
  | t :: rest =>
    if !isSearched t then return .inr { s with left := rest }
    let name ← Weave.need t.fullName?
    if s.seen.contains name then return .inr { s with left := rest }
    let seen := name :: s.seen
    match ← Weave.resolveType t with
    | none => return .inr { seen, left := rest }
    | some id =>
      let h ← Weave.typeHead id
      if ← Weave.need (Attribute.hasName? h.attributes marker) then
        return .inl true
      let inner ← (h.fields.filter fun f => !f.isStatic).mapM fun f =>
        Weave.need (f.type.substitute? t.args [])
      return .inr { seen, left := inner.reverse ++ rest }

/-- The answer of a search, if it comes to one in so many steps. -/
def searchUpTo (marker : String) : Nat → MarkerSearch → Weave (Option Bool)
  | 0, _ => return none
  | n + 1, s => do
    match ← searchStep marker s with
    | .inl found => return some found
    | .inr s => searchUpTo marker n s

/-- How many steps a search may take. -/
def searchLimit : Nat := 1000000

/-- The type carries the attribute or holds a value whose type does. -/
def carriesMarker (t : TypeRef) (marker : String) : Weave Bool := do
  Weave.need (← searchUpTo marker searchLimit { left := [t] })

/-- The captured variable that a modifier marks. -/
def markedVariable (fm : FieldModifier) (m : Modifier) :
    Planning CapturedVariable := do
  let c ← chain
  let refuse := fun {α : Type} (code : Code) (args : List String) =>
    (Weave.refuse code c.method m.label (args.map .text) : Weave α)
  match if m.args.length == 1 then m.fieldArg? 0 else none with
  | none => refuse .dc0012 [fm.method]
  | some f =>
    if !(← isClosureField f) then refuse .dc0038 [fm.method, f.name]
    let t ← Weave.need f.resolvedType?
    if let some marker := fm.marker then
      if !(← carriesMarker t marker) then
        if t.isAbsent then Weave.fault
        refuse fm.code [f.name, t.simpleName]
    match ← (← get).captured.findM? fun v => do
        Weave.need (v.leaf.same? f) with
    | some v => return v
    | none => refuse .dcice007 [fm.method]

/-- Checks the modifiers that mark captured variables, and puts the marks on the
job's fields unless the job runs on the calling thread. -/
def markVariables : Planning Unit := do
  let c ← chain
  for fm in fieldModifiers do
    for m in c.named fm.method do
      let v ← markedVariable fm m
      if c.mode != .run then
        let mark ← Weave.importAttribute fm.ns fm.mark []
        modifyAttributes v.field.name fun as =>
          if Attribute.has as fm.ns fm.mark then as else as ++ [mark]

/-- Marks the job and its static entry point for the native compiler. -/
def markNative : Planning Unit := do
  let u ← get
  let c := u.chain
  if !c.usesBurst then return
  let burst ← Weave.importAttribute Ns.burst AttributeName.burstCompile []
  let burst :=
    match c.burstOptions? with
    | some o =>
      { burst with named :=
          [("FloatMode", .int32 o.floatMode),
            ("FloatPrecision", .int32 o.floatPrecision),
            ("CompileSynchronously", .flag o.compileSynchronously)] }
    | none => burst
  let markJob := fun (a : Attribute) =>
    Weave.modifyWorkspace (·.updateHead u.type fun h =>
      { h with attributes := h.attributes ++ [a] })
  markJob burst
  if let some m := u.runDirectly then
    Weave.modifyWorkspace (·.updateMethod m fun d =>
      { d with attributes := d.attributes ++ [burst] })
  if c.noAlias then
    markJob (← Weave.importAttribute Ns.burst AttributeName.noAlias [])

end JobWeave.Planning
