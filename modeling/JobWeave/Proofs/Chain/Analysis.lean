import Mathlib
import JobWeave.Chain.Analysis
import JobWeave.Proofs.Flow.Sequence
import JobWeave.Proofs.Weave.Triple

/-!
# Analysis changes nothing

Reading the chains of a method looks definitions up and leaves them alone.  What
it refuses is reported as an error.  A chain that was read is one of the method
that was asked for: it starts at the source call that was given, under the
number that was given, its system is the type that declares the method, and its
delegate stands in the method's code.
-/

namespace JobWeave.Weave

open Framework Std.Do

set_option mvcgen.warning false

variable {I : Workspace → Prop} {H : List (TypeId × MethodId)}

@[spec]
theorem nextCall_keeps {m : MethodId} {d : MethodDef} {start : Label}
    {fuel n : Nat} {depth : Int} :
    Keeps I H (nextCall m d start fuel n depth) := by
  induction fuel generalizing n depth with
  | zero =>
    mvcgen [nextCall]
    grind
  | succ fuel ih =>
    mvcgen [nextCall, ih]
    all_goals grind

@[spec]
theorem readModifier_keeps {d : MethodDef} {i : Instr} {r : MethodRef} :
    Keeps I H (readModifier d i r) := by
  mvcgen [readModifier]
  all_goals grind

@[spec]
theorem checkModifier_keeps {m : MethodId} {d : MethodDef}
    {before : List Modifier} {expected : Label} {mod : Modifier} :
    Keeps I H (checkModifier m d before expected mod) := by
  mvcgen [checkModifier]
  all_goals grind

@[spec]
theorem readCalls_keeps {m : MethodId} {d : MethodDef} {fuel : Nat}
    {last : Label} {mods : List Modifier} :
    Keeps I H (readCalls m d fuel last mods) := by
  induction fuel generalizing last mods with
  | zero =>
    mvcgen [readCalls]
    grind
  | succ fuel ih =>
    mvcgen [readCalls, ih]

@[spec]
theorem isLambdaDelegate_keeps {t : TypeRef} :
    Keeps I H (isLambdaDelegate t) := by
  mvcgen [isLambdaDelegate]
  all_goals grind

@[spec]
theorem pushesStored_keeps {m : MethodId} {d : MethodDef} {i : Instr} :
    Keeps I H (pushesStored m d i) := by
  mvcgen [pushesStored]
  all_goals grind

/-- The delegate that supplies a lambda stands in the code. -/
@[spec]
theorem lambdaOf_gives {m : MethodId} {d : MethodDef} {call : Label} :
    Gives I H (fun g => ∃ s, d.code.Spans s g) (lambdaOf m d call) := by
  mvcgen [lambdaOf]
  all_goals grind [MethodDef.exists_spans_of_delegateFrom]

@[spec]
theorem storedQuery_keeps {m : MethodId} {d : MethodDef} {mod : Modifier} :
    Keeps I H (storedQuery m d mod) := by
  mvcgen [storedQuery]
  all_goals grind

@[spec]
theorem jobName_keeps {m : MethodId} {d : MethodDef} {source : Label}
    {number : Int} {mods : List Modifier} :
    Keeps I H (jobName m d source number mods) := by
  mvcgen [jobName]
  all_goals grind

@[spec]
theorem knownLambda_keeps {r : Option MethodRef} :
    Keeps I H (knownLambda r) := by
  mvcgen [knownLambda]
  all_goals grind

theorem severity_missingLambda (k : ChainKind) :
    Catalog.severity (missingLambda k) = .error := by
  cases k <;> rfl

/-- A chain is read at the place that was asked for. -/
structure ReadAt (m : MethodId) (o : Option TypeId) (b : Body) (source : Label)
    (number : Int) (c : Chain) : Prop where
  /-- the method is the one that was asked for -/
  method : c.method = m
  /-- the system declares the method -/
  system : o = some c.system
  /-- the chain starts at the source call -/
  source : c.source = source
  /-- its kind is that of the source call -/
  kind : (b.get c.source).sourceKind = .ok (some c.kind)
  /-- the chain has its number -/
  number : c.number = number
  /-- the delegate stands in the code -/
  delegate : ∃ s, b.Spans s c.delegate

/-- A chain is read at the place that was asked for. -/
theorem analyze_gives {m : MethodId} {o : Option TypeId} {d : MethodDef}
    {source : Label} {number : Int}
    (ho : ∀ w, I w → (w.methodEntry m).owner = o)
    (hd : ∀ w, I w → w.method m = d) :
    Gives I H (ReadAt m o d.code source number) (analyze m source number) := by
  mvcgen [analyze]
  all_goals grind -ring -linarith [ReadAt, severity_missingLambda, Holding]

/-- The chains of a method are read one by one in the order of their sources. -/
theorem chainsIn_gives {m : MethodId} {o : Option TypeId} {d : MethodDef}
    {ls : List Label} (ho : ∀ w, I w → (w.methodEntry m).owner = o)
    (hd : ∀ w, I w → w.method m = d) (hls : d.sources = .ok ls) :
    Gives I H
      (List.Forall₂ (fun x => Settles (ReadAt m o d.code x.1 x.2)) ls.zipIdx)
      (chainsIn m) := by
  have hloop : ∀ ls : List Label, Gives I H
      (List.Forall₂ (fun x => Settles (ReadAt m o d.code x.1 x.2)) ls.zipIdx)
      (ls.zipIdx.mapM fun x => tryFailure (analyze m x.1 x.2)) :=
    fun _ => mapM_gives fun _ _ => tryFailure_gives (analyze_gives ho hd)
  mvcgen [chainsIn, hloop, -mapM_keeps]
  all_goals grind [Holding]

end JobWeave.Weave
