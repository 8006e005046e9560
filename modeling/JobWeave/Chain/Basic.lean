import JobWeave.Flow.Delegate
import JobWeave.Framework.Names
import JobWeave.Workspace.Basic

/-!
# Job chains

A chain is a run of calls in a system's method that describes one job: a source
call makes a description, modifiers configure it, one of them supplies the
lambda, and a terminal call runs or schedules the job.
-/

namespace JobWeave

open Framework

/-- The shape of a job. -/
inductive ChainKind where
  /-- the lambda runs once per matching entity -/
  | entities
  /-- the lambda runs once -/
  | job
  /-- the lambda runs once per matching chunk -/
  | chunk
  deriving DecidableEq, Repr, Inhabited

/-- The name of a kind in reports. -/
def ChainKind.name : ChainKind → String
  | entities => "Entities"
  | job => "Job"
  | chunk => "Chunk"

/-- How a job is executed. -/
inductive ExecutionMode where
  | schedule
  | scheduleParallel
  | run
  deriving DecidableEq, Repr, Inhabited

/-- The name of a mode, which is the name of its terminal call. -/
def ExecutionMode.name : ExecutionMode → String
  | schedule => Member.schedule
  | scheduleParallel => Member.scheduleParallel
  | run => Member.run

/-- A value that is known where it is pushed. -/
inductive Literal where
  | int32 (v : Int32)
  | text (s : String)
  /-- the value of a field, if the load names one -/
  | field (f : Option FieldRef)
  deriving Repr, Inhabited, BEq

/-- One modifier call of a chain. -/
structure Modifier where
  /-- the name of the method -/
  name : String
  /-- the method -/
  method : MethodRef
  /-- its type arguments, the type of the description apart -/
  typeArgs : List TypeRef
  /-- its arguments after the description, as far as they are known -/
  args : List (Option Literal)
  /-- the call -/
  label : Label
  deriving Repr, Inhabited

/-- The field that an argument loads. -/
def Modifier.fieldArg? (m : Modifier) (n : Nat) : Option FieldRef :=
  match m.args[n]? with
  | some (some (.field f)) => f
  | _ => none

/-- Options for the native compiler. -/
structure BurstOptions where
  /-- the mode of floating-point arithmetic -/
  floatMode : Int32
  /-- its precision -/
  floatPrecision : Int32
  /-- compilation happens before the first run -/
  compileSynchronously : Bool
  deriving DecidableEq, Repr, Inhabited

/-- An analysed chain. -/
structure Chain where
  /-- the method that contains the chain -/
  method : MethodId
  /-- the system that declares it -/
  system : TypeId
  /-- the shape of the job -/
  kind : ChainKind
  /-- how it is executed -/
  mode : ExecutionMode
  /-- the source call -/
  source : Label
  /-- the terminal call -/
  terminal : Label
  /-- the calls between them in order -/
  modifiers : List Modifier
  /-- the modifier that supplies the lambda -/
  body : Label
  /-- the code that makes the delegate -/
  delegate : Delegate
  /-- the lambda -/
  lambda : MethodId
  /-- the type that declares the lambda -/
  lambdaOwner : TypeId
  /-- the name of the job -/
  name : String
  /-- the number of the chain in its method -/
  number : Int
  /-- the lambda may add and remove entities and components -/
  structural : Bool
  /-- the system derives from the newer of the two base classes -/
  inSystemBase : Bool
  /-- jobs and their parameters do not alias each other -/
  noAlias : Bool := true
  /-- the field of the system that keeps the query -/
  storeQuery : Option FieldRef := none
  deriving Repr, Inhabited

namespace Chain

/-- The modifiers of a name in order. -/
def named (c : Chain) (name : String) : List Modifier :=
  c.modifiers.filter (·.name == name)

/-- The chain has a modifier of this name. -/
def has (c : Chain) (name : String) : Bool :=
  c.modifiers.any (·.name == name)

/-- The integer that an argument is known to be, or zero. -/
def intArg (m : Modifier) (n : Nat) : Int32 :=
  match m.args[n]? with
  | some (some (.int32 v)) => v
  | _ => 0

/-- The job is compiled by the native compiler. -/
def usesBurst (c : Chain) : Bool :=
  if c.has Member.withoutBurst || c.structural then false
  else
    match (c.named Member.withBurst).find? (·.args.length == 1) with
    | some m => intArg m 0 == 1
    | none => true

/-- The options for the native compiler, if they are given. -/
def burstOptions? (c : Chain) : Option BurstOptions :=
  ((c.named Member.withBurst).find? (·.args.length == 3)).map fun m =>
    { floatMode := intArg m 0, floatPrecision := intArg m 1,
      compileSynchronously := intArg m 2 != 0 }

/-- The job may touch reference types: only managed code on the calling thread
does. -/
def allowsReferences (c : Chain) : Bool :=
  c.mode == .run && !c.usesBurst

/-- The terminal reads and writes the system's dependency instead of taking and
giving a handle. -/
def usesDependency (c : Chain) (b : Body) : Bool :=
  c.inSystemBase && c.mode != .run &&
    match (b.get c.terminal).operand with
    | .method (some m) => m.returnsVoid
    | _ => false

/-- The name of the job's struct; debuggers show its fields as variables. -/
def className (c : Chain) : String :=
  "<>c__DisplayClass_" ++ c.name

/-- The lambda is a method of a closure. -/
def capturesLocals (c : Chain) : Bool :=
  c.delegate.capturesLocals

/-- The closure with the captured variables. -/
def closure? (c : Chain) : Option TypeId :=
  if c.capturesLocals then some c.lambdaOwner else none

/-- The lambda is a method of the system itself. -/
def lambdaOnSystem (c : Chain) : Bool :=
  c.lambdaOwner == c.system

/-- The job runs entity by entity on the main thread. -/
def runsStructural (c : Chain) : Bool :=
  c.structural && c.kind == .entities

end Chain

end JobWeave
