import JobWeave.Plan.Basic

/-!
# The entity query of a job

A job over entities or chunks runs on what a query of the system finds.  The
query asks for the components that the lambda receives and for those that the
chain's modifiers name; `Planning.buildQuery` plans the field for it and the
code that builds it when the system is created.
-/

namespace JobWeave

open Framework

/-- A component in a query. -/
structure QueryItem where
  /-- the component -/
  type : TypeRef
  /-- it is only read -/
  readOnly : Bool
  deriving Repr, Inhabited

/-- The component that a parameter asks for, and whether it is only read. -/
def Element.item? (e : Element) : Option QueryItem :=
  match e.provider with
  | .entity | .entityInQueryIndex | .nativeThreadIndex => none
  | .buffer => some ⟨e.typeArg, false⟩
  | _ => some ⟨e.typeArg, e.isReadOnly⟩

namespace Planning

/-- The list has a type already. -/
def hasType (ts : List TypeRef) (t : TypeRef) : Weave Bool :=
  ts.anyM fun o => do Weave.need (o.same? t)

/-- Adds a component; one that is there already stays read only if it is only
read here too. -/
def addItem (t : TypeRef) (readOnly : Bool) :
    List QueryItem → Weave (List QueryItem)
  | [] => return [⟨t, readOnly⟩]
  | item :: rest => do
    if ← Weave.need (item.type.same? t) then
      return { item with readOnly := item.readOnly && readOnly } :: rest
    else return item :: (← addItem t readOnly rest)

/-- The types that the modifiers of a name list, each once. -/
def modifierTypes (name : String) : Planning (List TypeRef) := do
  ((← chain).named name).flatMap (·.typeArgs) |>.foldlM
    (fun out t => do
      return if ← hasType out t then out else out ++ [t])
    []

/-- The components that an entity must have. -/
def required : Planning (List QueryItem) := do
  let received := (← get).elements.filterMap Element.item?
  let named ← [Member.withAll, Member.withChangeFilter,
    Member.withSharedComponentFilter].flatMapM modifierTypes
  let items := received ++ named.map fun t => QueryItem.mk t true
  items.foldlM (fun all item => addItem item.type item.readOnly all) []

/-- The names of types in a message. -/
def namesOf (ts : List TypeRef) : Weave String := do
  if ts.any (·.isAbsent) then Weave.fault
  return ", ".intercalate (ts.map (·.simpleName))

/-- Refuses a query that nothing can match. -/
def checkQuery (all : List QueryItem) (anyOf noneOf : List TypeRef) :
    Planning Unit := do
  let c ← chain
  let excluded := fun (ts : List TypeRef) =>
    ts.filterM fun t => hasType noneOf t
  let both ← excluded (all.map (·.type))
  if !both.isEmpty then
    Weave.refuse .dc0015 c.method c.source [.text (← namesOf both)]
  let both ← excluded anyOf
  if !both.isEmpty then
    Weave.refuse .dc0016 c.method c.source [.text (← namesOf both)]
  let shared ← modifierTypes Member.withSharedComponentFilter
  for t in ← modifierTypes Member.withAll do
    if ← hasType shared t then
      Weave.refuse .dc0026 c.method c.source
        [.text ("Entities.ForEach lists " ++ (← namesOf [t]) ++
          " both in WithAll and WithSharedComponentFilter. " ++
          "Remove it from WithAll.")]

/-- Code that makes an array of components. -/
def componentTypes (items : List QueryItem) : Weave (List Step) := do
  let ct ← Weave.importEntities TypeName.componentType
  let entries ← items.zipIdx.mapM fun (item, n) => do
    let m ← Weave.importMethod ct
      (if item.readOnly then "ReadOnly" else "ReadWrite") 0
    return [Step.dup, Step.ldcI4 (Int32.ofNat n),
      Step.call (m.instantiate [item.type]), Step.stelem ct]
  return [Step.ldcI4 (Int32.ofNat items.length), Step.newarr ct] ++
    entries.flatten

/-- Code that fills a part of the query's description that has components. -/
def queryPart (desc : TypeRef) (name : String) (items : List QueryItem) :
    Weave (List Step) := do
  if items.isEmpty then return []
  let types ← componentTypes items
  return [Step.dup] ++ types ++ [Step.stfld (← Weave.importField desc name)]

/-- The options of the query: the last ones that are known. -/
def queryOptions : Planning (Option Int32) := do
  let given ← ((← chain).named Member.withEntityQueryOptions).mapM fun m => do
    match ← Weave.need m.args[0]? with
    | some (.int32 v) => return some v
    | _ => return none
  return (given.filterMap id).getLast?

/-- Plans the system's query for the chain and the code that builds it. -/
def buildQuery : Planning Unit := do
  let c ← chain
  let all ← required
  let anyOf ← modifierTypes Member.withAny
  let noneOf ← modifierTypes Member.withNone
  checkQuery all anyOf noneOf
  let queryType ← Weave.importEntities TypeName.entityQuery
  let field : FieldDef :=
    { name := "_" ++ c.name ++ "_entityQuery", type := queryType,
      flags := FieldFlag.priv }
  let query := (← Weave.workspace).fieldRef c.system field
  let options ← queryOptions
  let readOnly := fun (ts : List TypeRef) =>
    ts.map fun t => ({ type := t, readOnly := true } : QueryItem)
  let changed := readOnly (← modifierTypes Member.withChangeFilter)
  let desc ← Weave.importEntities TypeName.entityQueryDesc
  let base ← Weave.importEntities TypeName.componentSystemBase
  let ctor ← Weave.importMethod desc ".ctor" 0
  let allPart ← queryPart desc "All" all
  let anyPart ← queryPart desc "Any" (readOnly anyOf)
  let nonePart ← queryPart desc "None" (readOnly noneOf)
  let optionsPart ←
    match options with
    | none => pure []
    | some v => do
      pure [Step.dup, Step.ldcI4 v,
        Step.stfld (← Weave.importField desc "Options")]
  let get_ ← Weave.importMethod base "GetEntityQuery" 1
  let filter ←
    if changed.isEmpty then pure []
    else do
      let types ← componentTypes changed
      let set_ ← Weave.importMethod
        (← Weave.importEntities TypeName.entityQuery)
        "SetChangedVersionFilter" 1
      pure ([Step.ldarg 0, Step.ldfld query] ++ types ++ [Step.callvirt set_])
  let store :=
    match c.storeQuery with
    | some f =>
      [Step.ldarg 0, Step.ldarg 0, Step.ldfld query, Step.stfld f]
    | none => []
  let code :=
    [Step.ldarg 0, Step.ldarg 0, Step.ldcI4 1, Step.newarr desc, Step.dup,
      Step.ldcI4 0, Step.newobj ctor] ++
    allPart ++ anyPart ++ nonePart ++ optionsPart ++
    [Step.stelemRef, Step.call get_, Step.stfld query] ++ filter ++ store
  modify fun u => { u with query := some field, init := u.init ++ code }

end Planning

end JobWeave
