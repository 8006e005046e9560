import JobWeave.Chain.Basic
import JobWeave.Flow.Origin
import JobWeave.Text.Category
import JobWeave.Workspace.Weave

/-!
# Analysis of chains

From each source call the code is walked forward to the next call of a chain
method; the description stays on the stack in between.  What cannot be known
before the code runs is refused: branches inside a chain, computed arguments,
modifiers repeated where one is allowed.

* `Weave.sources` lists the source calls of a method;
* `Weave.analyze` reads the chain that starts at one of them;
* `Weave.chainsIn` reads every chain of a method, each for itself.
-/

namespace JobWeave

open Framework

/-- The shape of the job whose description a call makes, if it is a source. -/
def Instr.sourceKind (i : Instr) : Outcome (Option ChainKind) :=
  match i.invokes? with
  | none => .ok none
  | some none => Outcome.fault
  | some (some m) =>
    if m.name == Member.getEntities then do
      let ret ← Outcome.need m.return?
      if ret.isAbsent then Outcome.fault
      else if ret.simpleName == TypeName.forEachDescription ||
          ret.simpleName == TypeName.forEachDescriptionJcs then
        return some .entities
      else return none
    else if m.name == Member.getJob then
      if m.owner.isAbsent then Outcome.fault
      else if m.owner.simpleName == TypeName.jobComponentSystem ||
          m.owner.simpleName == TypeName.systemBase then
        .ok (some .job)
      else .ok none
    else if m.name == Member.getChunks then
      if m.owner.isAbsent then Outcome.fault
      else if m.owner.simpleName == TypeName.jobComponentSystem then
        .ok (some .chunk)
      else .ok none
    else .ok none

/-- The source calls of a method in order. -/
def MethodDef.sources (m : MethodDef) : Outcome (List Label) := do
  let is ← m.code.code.filterM fun i => return (← i.sourceKind).isSome
  return is.map (·.label)

/-- The method belongs to a chain: its declaring type holds construction or
execution methods of the framework. -/
def MethodRef.isChainMethod (m : MethodRef) : Outcome Bool :=
  match m.owner with
  | .absent => Outcome.fault
  | .named ns n _ .absent _ =>
    .ok ((n.endsWith "ConstructionMethods" || n.endsWith "ExecutionMethods" ||
      n.endsWith "ExecutionMethodsJCS") && (ns == Ns.entities || ns == ""))
  | _ => .ok false

/-- A name that can be given to a job: letters, digits and underscores, no digit
at the start, no two underscores in a row. -/
def isJobName (name : String) : Bool :=
  match name.toList with
  | [] => false
  | c :: cs =>
    !Text.isDigit c &&
      (c :: cs).all (fun c => c == '_' || Text.isLetter c || Text.isDigit c) &&
      !occursIn ['_', '_'] (c :: cs)

/-- The value that an instruction is known to push. -/
def Instr.literal? (i : Instr) : Option Literal :=
  match i.int32? with
  | some v => some (.int32 v)
  | none =>
    match i.op, i.operand with
    | .ldstr, .text s => some (.text s)
    | .ldstr, _ => some (.text "")
    | .ldfld, o =>
      some (.field (match o with | .field f => f | _ => none))
    | _, _ => none

namespace Weave

/-- The next chain call after position `n`, while the description lies under
`depth - 1` values; the fuel bounds the steps. -/
def nextCall (m : MethodId) (d : MethodDef) (start : Label) :
    Nat → Nat → Int → Weave (Instr × MethodRef)
  | 0, _, _ => fault
  | fuel + 1, n, depth => do
    match d.code.code[n]? with
    | none => refuse .dc0011 m start []
    | some i =>
      match ← ofOutcome (d.delegateFrom i.label) with
      | some g =>
        let last := (d.code.indexOf? g.last).getD n
        nextCall m d start fuel (last + 1) (depth + 1)
      | none =>
        if i.op.isBranch || i.op == .switch then refuse .dc0010 m i.label []
        let found ←
          if i.op == .call then
            match i.operand with
            | .method none => fault
            | .method (some r) => do
              pure (if ← ofOutcome r.isChainMethod then some r else none)
            | _ => pure none
          else pure none
        match found with
        | some r => return (i, r)
        | none =>
          let e ← ofOutcome (d.effect i)
          if depth - e.pops < 1 then refuse .dc0011 m i.label []
          nextCall m d start fuel (n + 1) (depth - e.pops + e.pushes)

/-- The modifier that a call is. -/
def readModifier (d : MethodDef) (i : Instr) (r : MethodRef) :
    Weave Modifier := do
  let typeArgs ←
    match r.typeArgs, r.params with
    | first :: rest, _ :: _ => do
      let p ← need (r.paramType? 0)
      pure (if ← need (p.same? first) then rest else r.typeArgs)
    | _, _ => pure r.typeArgs
  let args ← (List.range (r.params.length - 1)).mapM fun (n : Nat) => do
    let p ← ofOutcome (d.pusher (n + 1) i.label)
    return p.bind fun l => (d.code.get l).literal?
  return { name := r.name, method := r, typeArgs, args, label := i.label }

/-- Checks a modifier after others: its method is known, its arguments are, it
may be repeated if it is, and it works on the description of the call before. -/
def checkModifier (m : MethodId) (d : MethodDef) (before : List Modifier)
    (expected : Label) (mod : Modifier) : Weave Unit := do
  let r := mod.method
  match ← resolveMethod r with
  | none => refuse .dcice005 m mod.label [MethodRef.asArg r]
  | some id =>
    let def_ ← methodDef id
    let dynamic := (mod.args.zip (def_.params.drop 1)).any fun (a, p) =>
      a.isNone &&
        !Attribute.has p.attributes Ns.entities AttributeName.allowDynamicValue
    if dynamic then refuse .dc0008 m mod.label [.text r.name]
    if before.any (·.name == r.name) then
      let repeatable ← need (Attribute.hasName? def_.attributes
        AttributeName.allowMultipleInvocations)
      if !repeatable then refuse .dc0009 m mod.label [.text r.name]
    if (← ofOutcome (d.pusher 0 mod.label)) != some expected then
      refuse .dc0007 m mod.label []

/-- The modifiers from a call on and the terminal after them; the fuel bounds
their number. -/
def readCalls (m : MethodId) (d : MethodDef) :
    Nat → Label → List Modifier → Weave (List Modifier × Instr × MethodRef)
  | 0, _, _ => fault
  | fuel + 1, last, mods => do
    let start := ((d.code.indexOf? last).map (· + 1)).getD 0
    let (i, r) ← nextCall m d last (d.code.size + 1) start 1
    if isTerminal r.name then return (mods, i, r)
    let mod ← readModifier d i r
    checkModifier m d mods last mod
    readCalls m d fuel i.label (mods ++ [mod])

/-- The type is a delegate type for lambdas. -/
def isLambdaDelegate (t : TypeRef) : Weave Bool := do
  if t.isAbsent then return false
  match t.element with
  | .absent => fault
  | .named ns _ _ _ _ => return ns == Ns.universal
  | _ => return false

/-- An instruction pushes a lambda delegate that was made elsewhere. -/
def pushesStored (m : MethodId) (d : MethodDef) (i : Instr) : Weave Bool := do
  match i.loadArg? with
  | some n =>
    isLambdaDelegate (← need ((← workspace).argType? m n))
  | none =>
    match d.code.loadedLocal? i with
    | some l => isLambdaDelegate (d.code.localType l)
    | none =>
      match i.op, i.operand with
      | .ldfld, .field f => isLambdaDelegate (← need f).type
      | .call, .method r | .callvirt, .method r =>
        isLambdaDelegate (← need (← need r).return?)
      | _, _ => return false

/-- The delegate that is passed to a call that supplies a lambda.  The lambda
must be known there, so a delegate made elsewhere is refused. -/
def lambdaOf (m : MethodId) (d : MethodDef) (call : Label) :
    Weave Delegate := do
  let shown := ((d.code.get call).operand).asArg d.code
  match ← ofOutcome (d.pusher 1 call) with
  | none => refuse .dcice002 m call [shown]
  | some p =>
    match ← ofOutcome (d.delegateFrom p) with
    | some g => return g
    | none =>
      if ← pushesStored m d (d.code.get p) then refuse .dc0044 m p []
      refuse .dcice002 m p [shown]

/-- The field of the system whose address a modifier is given. -/
def storedQuery (m : MethodId) (d : MethodDef) (mod : Modifier) :
    Weave FieldRef := do
  match ← ofOutcome (d.pusher 1 mod.label) with
  | none => refuse .dc0031 m mod.label []
  | some p =>
    let i := d.code.get p
    let onThis := ((d.code.prev? p).map Instr.loadsThis).getD false
    match i.op, i.operand, onThis with
    | .ldflda, .field f, true =>
      match ← (f.mapM fun (f : FieldRef) => resolveField f) with
      | some (some (t, def_)) => return (← workspace).fieldRef t def_
      | _ => refuse .dcice005 m p [(Operand.field f).asArg {}]
    | _, _, _ => refuse .dc0031 m mod.label []

/-- The name of a job: the one it is given, or that of its method and its
number. -/
def jobName (m : MethodId) (d : MethodDef) (source : Label) (number : Int)
    (mods : List Modifier) : Weave String := do
  match mods.find? (·.name == Member.withName) with
  | none => return d.name ++ "_LambdaJob" ++ toString number
  | some mod =>
    let given :=
      match ← need mod.args[0]? with
      | some (.text s) => s
      | _ => ""
    if !isJobName given then refuse .dc0043 m source [.text given]
    return given

/-- The mode of a terminal call; systems of the older base class cannot schedule
in parallel. -/
def modeOf? (inSystemBase : Bool) (terminal : String) : Option ExecutionMode :=
  if terminal == Member.run then some .run
  else if terminal == Member.schedule then some .schedule
  else if terminal == Member.scheduleParallel && inSystemBase then
    some .scheduleParallel
  else none

/-- The diagnostic for a chain without a lambda. -/
def missingLambda : ChainKind → Code
  | .entities => .dc0006
  | .job => .dc0017
  | .chunk => .dc0018

/-- The definition of a lambda, if it has code. -/
def knownLambda (r : Option MethodRef) : Weave (Option MethodId) := do
  match r with
  | none => return none
  | some r =>
    match ← resolveMethod r with
    | none => return none
    | some id => return if (← methodDef id).body.isSome then some id else none

/-- Reads the chain that starts at a source call. -/
def analyze (m : MethodId) (source : Label) (number : Int) : Weave Chain := do
  let d ← methodDef m
  match ← ofOutcome (d.code.get source).sourceKind with
  | none => refuse .dc0007 m source []
  | some kind =>
    let (modifiers, last, r) ←
      readCalls m d (2 * d.code.size + 2) source []
    let system ← ownerOf m
    let inSystemBase ← inheritsFrom system Ns.entities TypeName.systemBase
    let name ← jobName m d source number modifiers
    match modeOf? inSystemBase r.name with
    | none => refuse .dc0007 m last.label []
    | some mode =>
      let structural :=
        modifiers.any (·.name == Member.withStructuralChanges)
      if structural && mode != .run then refuse .dc0028 m source []
      let stored ← (modifiers.filter fun x =>
        x.name == Member.withStoreEntityQueryInField).mapM (storedQuery m d)
      match modifiers.find? fun x =>
          x.name == Member.forEach || x.name == Member.withCode with
      | none => refuse (missingLambda kind) m source []
      | some supplier =>
        let head ← typeHead system
        if !head.genericParams.isEmpty then
          refuse .dc0025 m source
            [.text ("Entities.ForEach cannot be used in system " ++ head.name ++
              " as Entities.ForEach in generic system types are not supported.")]
        let delegate ← lambdaOf m d supplier.label
        match ← knownLambda delegate.method with
        | none =>
          refuse .dcice005 m supplier.label [MethodRef.asArg delegate.method]
        | some lambda =>
          return { method := m, system, kind, mode, source,
                   terminal := last.label, modifiers, body := supplier.label,
                   delegate, lambda, lambdaOwner := ← ownerOf lambda, name,
                   number, structural, inSystemBase,
                   storeQuery := stored.getLast? }

/-- Some work whose failure is a value; a fault still stops. -/
def tryFailure {α : Type} (act : Weave α) : Weave (Except Failure α) := do
  match ← attempt act with
  | .ok a => return .ok a
  | .error (.failed f) => return .error f
  | .error s => throw s

/-- Reads every chain of a method; one that fails does not hide the others. -/
def chainsIn (m : MethodId) : Weave (List (Except Failure Chain)) := do
  let sources ← ofOutcome (← methodDef m).sources
  sources.zipIdx.mapM fun (l, n) => tryFailure (analyze m l n)

end Weave

end JobWeave
