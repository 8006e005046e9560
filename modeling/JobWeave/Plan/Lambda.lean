import JobWeave.Body.Spelling
import JobWeave.Plan.Components

/-!
# The lambda as a method of the job

The lambda and the methods of its closure that it reaches are copied into the
job.  A lambda that stays on the system is called there through a field with the
system's instance.
-/

namespace JobWeave.Planning

open Framework

/-- The name of the lambda as a method of the job. -/
def lambdaName : String := "OriginalLambdaBody"

/-- Makes the job call the lambda on the system. -/
def relay : Planning Unit := do
  let c ← chain
  let host ← addField "hostInstance" (← Weave.selfRef c.system) FieldFlag.pub []
  let d ← Weave.methodDef c.lambda
  let m ← declare lambdaName MethodFlag.pub d.ret d.params
  modify fun u => { u with host := some host, lambda := some m }
  let target ← Weave.methodRef c.lambda
  emit m ([Step.ldarg 0, Step.ldfld host] ++
    (List.range d.params.length).map (fun (n : Nat) => Step.ldarg (n + 1)) ++
    [Step.callvirt target, Step.ret])

/-- The definition of a method that may be missing. -/
def resolve? (r : Option MethodRef) : Weave (Option MethodId) := do
  match r with
  | some r => Weave.resolveMethod r
  | none => return none

/-- Refuses a chain inside a lambda, and structural changes where the chain does
not allow them. -/
def checkBody (m : MethodId) : Planning Unit := do
  let d ← Weave.methodDef m
  if let first :: _ := ← Weave.ofOutcome d.sources then
    refuseAt .dc0029 m first []
  if (← chain).structural then return
  for i in d.code.code do
    if let some r := i.invokes? then
      if let some id := ← resolve? r then
        if Attribute.has (← Weave.methodDef id).attributes Ns.entities
            AttributeName.structuralChangeMethod then
          refuseAt .dc0027 m i.label []

/-- The methods of a type that code calls or takes the address of. -/
def calledOn (owner : TypeId) (code : List Instr) : Weave (List MethodId) := do
  let ids ← code.filterMapM fun i => do
    if i.op == .call || i.op == .callvirt || i.op == .ldftn then
      match ← resolve? i.method?.join with
      | some id =>
        let d ← Weave.methodDef id
        let its ← Weave.ownerOf id
        return if its == owner && !d.isStatic && d.body.isSome then some id
          else none
      | none => return none
    else return none
  return ids

/-- The methods of a type that are reached from some of them, in the order in
which they are found; the fuel bounds their number. -/
def reachable (owner : TypeId) :
    Nat → List MethodId → List MethodId → Planning (List MethodId)
  | 0, done, _ => return done
  | _ + 1, done, [] => return done
  | fuel + 1, done, m :: todo => do
    checkBody m
    let found ← calledOn owner (← Weave.bodyOf m).code
    let known := done ++ m :: todo
    let new := (found.filter fun id => !known.contains id).eraseDups
    reachable owner fuel (done ++ [m]) (todo ++ new)

/-- Copies a method into the job. -/
def copyMethod (m : MethodId) (name : String) : Planning MethodId := do
  let d := (← Weave.methodDef m).copyAs name
  let hidden := MethodFlag.priv ||| MethodFlag.assembly ||| MethodFlag.family
  let copy := { d with
    flags := (d.flags &&& ~~~hidden) ||| MethodFlag.pub,
    body := d.body.map Body.simplify }
  let job := (← get).type
  Weave.addToWorkspace (·.addCopy job m copy)

/-- Points calls between copied methods at the copies. -/
def relink (copies : List (MethodId × MethodId)) (i : Instr) : Weave Instr := do
  match ← resolve? i.method?.join with
  | none => return i
  | some id =>
    match copies.lookup id with
    | none => return i
    | some copy =>
      return i.become (if i.op == .callvirt then .call else i.op)
        (.method (some (← Weave.methodRef copy)))

/-- Points the calls in a copied method at the copies. -/
def relinkBody (copies : List (MethodId × MethodId)) (m : MethodId) :
    Weave Unit := do
  let b ← Weave.bodyOf m
  let code ← b.code.mapM (relink copies)
  Weave.setBody m { b with code }

/-- Copies the lambda and the methods it reaches, then points them at the job's
own look-ups and fields. -/
def clone : Planning Unit := do
  let c ← chain
  let fuel := (← Weave.workspace).methods.size + 1
  let order ← reachable c.lambdaOwner fuel [] [c.lambda]
  let cloned ← order.mapM fun m => do
    if m == c.lambda then copyMethod m lambdaName
    else copyMethod m (← Weave.methodDef m).name
  modify fun u => { u with cloned, lambda := cloned.head? }
  cloned.forM fun m => relinkBody (order.zip cloned) m
  cloned.forM patchComponentAccess
  cloned.forM remapCaptures

end JobWeave.Planning
