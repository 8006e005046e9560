import JobWeave.Plan.Basic

/-!
# Captured variables

A lambda reaches the variables it captures through its closure, and those of
enclosing scopes through the closures that this one points at.  The job holds
each variable in a field of its own, so every access in the copied code is
pointed at that field and the walk through the closures is dropped.
-/

namespace JobWeave

open Framework

/-- An access to a captured variable in copied code. -/
structure Capture where
  /-- the access -/
  label : Label
  /-- the fields that lead through enclosing closures -/
  hops : List FieldRef
  /-- the loads of those fields -/
  hopLabels : List Label
  /-- the variable's field in its closure -/
  leaf : FieldRef
  deriving Repr, Inhabited

/-- The code with an access pointed at a field; the walk to the variable is
dropped. -/
def Body.redirect (b : Body) (c : Capture) (field : FieldRef) : Body :=
  (c.hopLabels.foldl Body.idleAt b).update c.label fun i =>
    { i with operand := .field (some field) }

/-- The access is a load, an address or a store of a field. -/
def Opcode.accessesField : Opcode → Bool
  | .ldfld | .ldflda | .stfld => true
  | _ => false

namespace Planning

/-- The type is a closure, the job itself apart. -/
def isClosure (t : TypeRef) : Planning Bool := do
  if t.isAbsent then return false
  if t.element.isAbsent then Weave.fault
  if t.element.openName == (← Weave.typeName (← get).type) then return false
  match ← Weave.resolveType t with
  | some id => return isClosureName (← Weave.typeHead id).name
  | none => return false

/-- The field is declared by a closure. -/
def isClosureField (f : FieldRef) : Planning Bool :=
  isClosure f.owner

/-- Walks back from an instruction through loads that a test accepts: their
labels, nearest first, and the instruction that the walk ends at.  The fuel
bounds the steps. -/
def walkBack (d : MethodDef) (accepts : Instr → Planning Bool) :
    Nat → Option Label → Planning (List Label × Option Label)
  | 0, l => return ([], l)
  | _ + 1, none => return ([], none)
  | fuel + 1, some l => do
    if ← accepts (d.code.get l) then
      let p ← Weave.ofOutcome (d.pusher 0 l)
      let (rest, last) ← walkBack d accepts fuel p
      return (l :: rest, last)
    else return ([], some l)

/-- The walk ended at a load of the instance. -/
def endsAtThis (d : MethodDef) (l : Option Label) : Option Label :=
  l.filter fun l => (d.code.get l).loadsThis

/-- A load of an enclosing closure from a closure. -/
def loadsEnclosing (i : Instr) : Planning Bool := do
  if i.op != .ldfld && i.op != .ldflda then return false
  let f ← Weave.need i.field?.join
  if ← isClosureField f then isClosure f.type else return false

/-- The access to a captured variable that an instruction is. -/
def captureAt (m : MethodId) (d : MethodDef) (i : Instr) :
    Planning (Option Capture) := do
  if !i.op.accessesField then return none
  let leaf ← Weave.need i.field?.join
  if !(← isClosureField leaf) then return none
  if ← isClosure leaf.type then return none
  let start ← Weave.ofOutcome (d.pusher 0 i.label)
  let (hopLabels, last) ← walkBack d loadsEnclosing (d.code.size + 1) start
  if (endsAtThis d last).isNone then
    refuseAt .dcice004 m i.label [i.operand.asArg d.code]
  let hops := hopLabels.reverse.filterMap fun l => (d.code.get l).field?.join
  return some { label := i.label, hops, hopLabels, leaf }

/-- The accesses of a copied method to captured variables. -/
def captures (m : MethodId) : Planning (List Capture) := do
  let d ← Weave.methodDef m
  return (← d.code.code.mapM (captureAt m d)).filterMap id

/-- What tells captured variables apart. -/
def pathKey (path : List FieldRef) : Weave String := do
  return "/".intercalate (← path.mapM fun f => Weave.need f.fullName?)

/-- The job's field for a captured variable, declared at its first use. -/
def capturedField (c : Capture) (written : Bool) : Planning FieldRef := do
  let key ← pathKey (c.hops ++ [c.leaf])
  let captured := (← get).captured
  match ← captured.findM? fun v => return (← pathKey v.path) == key with
  | some v =>
    if written then
      modify fun u => { u with
        captured := u.captured.map fun x =>
          if x.field.name == v.field.name then { x with written := true }
            else x }
    return v.field
  | none =>
    let type ← Weave.need c.leaf.resolvedType?
    let field ← addField c.leaf.name type FieldFlag.pub []
    modify fun u => { u with
      captured := u.captured ++
        [{ hops := c.hops, leaf := c.leaf, field, written }] }
    return field

/-- Refuses a captured reference by what is done with it. -/
def refuseReference (m : MethodId) (c : Capture) (t : TypeRef) :
    Planning Unit := do
  let d ← Weave.methodDef m
  if (d.code.get c.label).op == .stfld then
    refuseAt .dc0004 m c.label [.text c.leaf.name]
  match ← Weave.ofOutcome (d.consumer c.label) with
  | some ⟨l, 0⟩ =>
    let i := d.code.get l
    match i.op, i.operand with
    | .ldfld, .field (some f) | .ldflda, .field (some f)
    | .stfld, .field (some f) => refuseAt .dc0001 m l [.text f.name]
    | .call, .method (some r) | .callvirt, .method (some r) =>
      if r.hasThis then
        refuseAt .dc0002 m l [.text r.name, .text t.simpleName]
    | _, _ => pure ()
  | _ => pure ()
  refuseAt .dc0004 m c.label [.text c.leaf.name]

/-- Refuses a captured reference in a job that may not touch any.  Delegates
pass: the native compiler refuses them with a better message. -/
def checkReference (m : MethodId) (c : Capture) : Planning Unit := do
  let t ← Weave.need c.leaf.resolvedType?
  if t.isAbsent || (← Weave.isValueType t) || t.isPointer || t.isParam then
    return
  match ← Weave.resolveType t with
  | some id =>
    if ← Weave.inheritsFrom id Ns.system "Delegate" then return
  | none => pure ()
  refuseReference m c t

/-- Points an access at the job's field for the variable. -/
def redirect (m : MethodId) (c : Capture) (written : Bool) : Planning Unit := do
  let field ← capturedField c written
  Weave.modifyBody m (·.redirect c field)

/-- Points the accesses of a copied method at the job's fields. -/
def remapCaptures (m : MethodId) : Planning Unit := do
  let chain ← chain
  let found ← captures m
  let code := (← Weave.bodyOf m)
  let op := fun (c : Capture) => (code.get c.label).op
  found.forM fun c => do
    if op c == .stfld && chain.mode != .run then
      refuseAt .dc0013 m c.label [.text c.leaf.name]
  found.forM fun c => redirect m c (op c == .stfld || op c == .ldflda)
  if chain.allowsReferences then return
  found.forM (checkReference m)

end Planning

end JobWeave
