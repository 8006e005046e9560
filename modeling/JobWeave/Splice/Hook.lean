import JobWeave.Plan.Synthesis

/-!
# The creation hook

Every component system gets a method that the framework calls when the system is
created.  It calls the method of the base class and then builds what the
system's jobs need.  Committing a plan attaches the job to the system and puts
the plan's code into the hook.
-/

namespace JobWeave.Weave

open Framework

/-- The type is a system of the user: it derives from the base class of systems
and is not the framework's own. -/
def isComponentSystem (t : TypeId) : Weave Bool := do
  let e ← typeEntry t
  if e.head.ns == Ns.entities && e.outer.isNone then return false
  inheritsFrom t Ns.entities TypeName.componentSystemBase

/-- The first method of a type with a name. -/
def methodNamed? (t : TypeId) (name : String) : Weave (Option MethodId) := do
  let w ← workspace
  return (w.type t).methods.find? fun m => (w.method m).name == name

/-- The hook of a system as it is added: it calls the one of the base class. -/
def newHook (base : TypeRef) : MethodDef :=
  let inherited : MethodRef :=
    { owner := base, name := Member.onCreateForCompiler, ret := .void,
      hasThis := true }
  let b : Body := { initLocals := true }
  { name := Member.onCreateForCompiler, ret := .void,
    flags := MethodFlag.family ||| MethodFlag.assembly |||
      MethodFlag.virtual ||| MethodFlag.hideBySig,
    body := some (b.append (b.labelled
      [Step.ldarg 0, Step.call inherited, Step.ret])) }

/-- The hook of a system, added if it has none.  A system must not declare it
itself. -/
def hookOf (t : TypeId) : Weave MethodId := do
  match (← get).hooks.lookup t with
  | some m => return m
  | none =>
    if let some existing ← methodNamed? t Member.onCreateForCompiler then
      refuse .dc0026 existing none
        [.text ("It's not allowed to implement " ++
          Member.onCreateForCompiler ++
            " yourself. It is reserved for code generated by the lambda job " ++
          "post-processor.")]
    let hook := newHook (← typeHead t).base
    let m ← addToWorkspace (·.addMethod t hook)
    modify fun w => { w with hooks := (t, m) :: w.hooks }
    return m

/-- Puts instructions before the last return; code without one gets one. -/
def insertBeforeReturn (b : Body) (code : List Instr) : Weave Body := do
  match (b.code.map (·.op)).reverse.idxOf? .ret with
  | some n => need (b.insertAt? (b.code.length - 1 - n : Nat) code)
  | none =>
    let b := b.append code
    return b.append (b.labelled [Step.ret])

/-- Attaches a plan's job and query to its system. -/
def attachJob (u : Plan) : Weave Unit :=
  modifyWorkspace fun w =>
    let w := w.attachNested u.chain.system u.type
    match u.query with
    | some f => w.addField u.chain.system f
    | none => w

/-- Puts a plan's code into the hook.  The plan remembers the instructions, so
that they are the same if it is committed again. -/
def fillHook (hook : MethodId) (u : Plan) : Weave Plan := do
  if u.init.isEmpty then return u
  let b ← bodyOf hook
  let code :=
    match u.initLabels with
    | some ls => ls.map b.get
    | none => b.labelled u.init
  setBody hook (← insertBeforeReturn b code)
  return { u with initLabels := some (code.map (·.label)) }

/-- Attaches a plan's job to its system and puts the plan's code into the
hook. -/
def commit (u : Plan) : Weave Plan := do
  let hook ← hookOf u.chain.system
  attachJob u
  fillHook hook u

end JobWeave.Weave
