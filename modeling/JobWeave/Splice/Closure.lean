import JobWeave.Splice.CallSite

/-!
# Closures as value types

Once no delegate is made from a closure any more, the closure can live in its
local variable instead of on the heap: its allocation becomes an initialisation
in place and every load of the variable an address.

    newobj C::.ctor ; stloc l   =>   ldloca l ; initobj C
    ldloc l                     =>   ldloca l

`Weave.canConvertClosures` says when the closures of a method may be converted
once its chains are replaced, and `Weave.convertClosures` converts them.
-/

namespace JobWeave

/-- The operand with references to the named types marked as value types. -/
def Operand.markValueTypes (names : List String) : Operand → Outcome Operand
  | .type t => return .type (← mark t)
  | .field .none | .method .none => Outcome.fault
  | .field (some f) => return .field (some { f with owner := ← mark f.owner })
  | .method (some m) => return .method (some { m with owner := ← mark m.owner })
  | o => .ok o
where
  /-- Marks a reference to one of the types. -/
  mark (t : TypeRef) : Outcome TypeRef :=
    if t.isAbsent then .ok t
    else do
      let name ← Outcome.need t.fullName?
      return if names.contains name then t.asValueType else t

/-- The allocation of a closure and the store of it. -/
structure AllocationSite where
  /-- the allocation -/
  alloc : Label
  /-- the store -/
  store : Label
  /-- the variable -/
  slot : LocalRef
  /-- the closure -/
  closure : TypeId
  deriving Repr, Inhabited

namespace Weave

/-- The closure class that a compiler made, if the type is one. -/
def closureClass? (t : TypeRef) : Weave (Option TypeId) := do
  if !t.isNamed then return none
  match ← resolveType t with
  | none => return none
  | some id =>
    let h ← typeHead id
    return if isClosureName h.name && h.isCompilerGenerated && h.isClass then
      some id
    else none

/-- The instruction allocates the closure. -/
def allocates (i : Instr) (closure : TypeId) : Weave Bool := do
  match i.op, i.operand with
  | .newobj, .method m =>
    let m ← need m
    if !m.params.isEmpty then return false
    return (← need m.owner.fullName?) == (← typeName closure)
  | _, _ => return false

/-- The instruction at a position does not stand in the way of conversion. -/
def permitsConversion (b : Body) (owned : List Label) (n : Nat) (i : Instr) :
    Weave Bool := do
  if i.op == .ldftn || i.op == .ldvirtftn then
    match i.method?.join with
    | none => return true
    | some m =>
      return (← closureClass? m.owner).isNone || owned.contains i.label
  else
    match b.localOf? i with
    | none => return true
    | some l =>
      match ← closureClass? (b.localType l) with
      | none => return true
      | some id =>
        let nested ← (← typeHead id).fields.anyM fun f => do
          return (← closureClass? f.type).isSome
        if nested then return false
        if (b.storedLocal? i).isNone then return true
        match if n = 0 then none else b.code[n - 1]? with
        | none => return false
        | some before => allocates before id

/-- The closures of a method can become value types once its chains are
replaced: no other delegate is bound to one, they do not refer to each other,
and their variables are only loaded, or stored right after the allocation. -/
def canConvertClosures (m : MethodId) (chains : List Chain) : Weave Bool := do
  match (← methodDef m).body with
  | none => return false
  | some b =>
    let owned := chains.flatMap (·.delegate.labels)
    b.code.zipIdx.allM fun (i, n) => permitsConversion b owned n i

/-- The allocation that an instruction is.  It must be followed by a store. -/
def allocationAt (m : MethodId) (b : Body) (i : Instr) :
    Weave (Option AllocationSite) := do
  if i.op != .newobj then return none
  let r ← need i.method?.join
  match ← closureClass? r.owner, r.params with
  | some closure, [] =>
    match b.next? i.label with
    | none => refuse .dcice006 m i.label [.text (← typeHead closure).name]
    | some next =>
      match b.storedLocal? next with
      | none => refuse .dcice006 m i.label [.text (← typeHead closure).name]
      | some slot =>
        return some { alloc := i.label, store := next.label, slot, closure }
  | _, _ => return none

/-- Makes a closure class a value type without a constructor. -/
def makeValueType (t : TypeId) : Weave Unit :=
  modifyWorkspace fun w =>
    let w := w.updateHead t fun h =>
      { h with
        base := .valueType, flags := h.flags ||| TypeFlag.sequentialLayout }
    w.updateType t fun e =>
      { e with methods := e.methods.filter fun id =>
          let d := w.method id
          !(d.isConstructor && !d.isStatic && d.params.isEmpty) }

/-- The code with every allocation done in place and every load of a converted
variable by address. -/
def convertCode (b : Body) (sites : List (AllocationSite × TypeRef)) : Body :=
  let b := sites.foldl
    (fun b (s, t) =>
      (b.setAt s.alloc .ldloca (.slot s.slot)).setAt s.store .initobj (.type t))
    b
  let code := b.code.map fun i =>
    match b.loadedLocal? i with
    | some l =>
      if sites.any fun (s, _) => s.slot.same l then
        i.become .ldloca (.slot l)
      else i
    | none => i
  { b with code }

/-- The allocations of closures in the code of a method. -/
def allocationSites (m : MethodId) (b : Body) :
    Weave (List AllocationSite) := do
  return (← b.code.mapM (allocationAt m b)).filterMap id

/-- Marks the references to value types in the code of a method, up to the first
operand that has none. -/
def markReferences (m : MethodId) (b : Body) (names : List String) :
    Weave Unit := do
  let marked := b.code.map fun i => i.operand.markValueTypes names
  let reached := (marked.takeWhile (·.isOk)).filterMap (·.toOption)
  let code := (b.code.zip reached).map fun (i, operand) => { i with operand }
  let b := { b with code := code ++ b.code.drop reached.length }
  setBody m b
  shareMarks m b
  if reached.length < b.code.length then fault

/-- Turns the closures of allocations into value types held in their
variables. -/
def convertSites (m : MethodId) (b : Body) (sites : List AllocationSite) :
    Weave Unit := do
  let typed ← sites.mapM fun s => do
    return (s, (← typeRef s.closure).asValueType)
  let b := convertCode b typed
  setBody m b
  if sites.any fun s => (b.localType s.slot).isAbsent then fault
  let converted := fun n => sites.any fun s => s.slot.same (.slot n)
  let locals := b.locals.mapIdx fun n l =>
    if converted n then { l with type := l.type.asValueType } else l
  let b := { b with locals }
  setBody m b
  markForeign (sites.filterMap (·.slot.foreignType?))
  let closures := (sites.map (·.closure)).eraseDups
  closures.forM makeValueType
  markReferences m b (← closures.mapM typeName)

/-- Turns the closures that a method allocates into value types held in their
variables. -/
def convertClosures (m : MethodId) : Weave Unit := do
  let b ← bodyOf m
  convertSites m b (← allocationSites m b)

end Weave

end JobWeave
