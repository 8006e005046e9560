import Mathlib
import JobWeave.Proofs.World.Preservation
import JobWeave.Proofs.World.Showing

/-!
# Reading preserves properties of worlds

Chains are analysed, calls on the system are followed and closures are looked
for by looking definitions up, so all this preserves what look-ups preserve.
-/

namespace JobWeave

open Framework Std.Do

set_option mvcgen.warning false

variable {J : World → Prop} {V : Workspace} {u : Universe}

namespace Weave

/-- Bringing the universe up to date does not change what is shown. -/
instance : World.Resolving (World.Shows V u) where
  resolver := triple_iff.2
    fun w hw => ⟨(triple_iff.1 resolver_reads w hw.holds).1⟩

/-! ## Chains -/

@[spec 20000]
theorem nextCall_preserves {m : MethodId} {d : MethodDef} {start : Label}
    {fuel n : Nat} {depth : Int} :
    Preserves J (nextCall m d start fuel n depth) := by
  induction fuel generalizing n depth with
  | zero => mvcgen [nextCall, -nextCall_keeps]
  | succ fuel ih => mvcgen [nextCall, ih, -nextCall_keeps]

@[spec 20000]
theorem readModifier_preserves {d : MethodDef} {i : Instr} {r : MethodRef} :
    Preserves J (readModifier d i r) := by
  unfold readModifier
  mvcgen

@[spec 20000]
theorem checkModifier_preserves [World.Resolving J] {m : MethodId}
    {d : MethodDef} {before : List Modifier} {expected : Label}
    {mod : Modifier} :
    Preserves J (checkModifier m d before expected mod) := by
  unfold checkModifier
  mvcgen

@[spec 20000]
theorem readCalls_preserves [World.Resolving J] {m : MethodId} {d : MethodDef}
    {fuel : Nat} {last : Label} {mods : List Modifier} :
    Preserves J (readCalls m d fuel last mods) := by
  induction fuel generalizing last mods with
  | zero => mvcgen [readCalls, -readCalls_keeps]
  | succ fuel ih => mvcgen [readCalls, ih, -readCalls_keeps]

@[spec 20000]
theorem isLambdaDelegate_preserves {t : TypeRef} :
    Preserves J (isLambdaDelegate t) := by
  unfold isLambdaDelegate
  mvcgen

@[spec 20000]
theorem pushesStored_preserves {m : MethodId} {d : MethodDef} {i : Instr} :
    Preserves J (pushesStored m d i) := by
  unfold pushesStored
  mvcgen

@[spec 20000]
theorem lambdaOf_preserves [World.Resolving J] {m : MethodId} {d : MethodDef}
    {call : Label} :
    Preserves J (lambdaOf m d call) := by
  unfold lambdaOf
  mvcgen

@[spec 20000]
theorem storedQuery_preserves [World.Resolving J] {m : MethodId} {d : MethodDef}
    {mod : Modifier} :
    Preserves J (storedQuery m d mod) := by
  unfold storedQuery
  mvcgen

@[spec 20000]
theorem jobName_preserves {m : MethodId} {d : MethodDef} {source : Label}
    {number : Int} {mods : List Modifier} :
    Preserves J (jobName m d source number mods) := by
  unfold jobName
  mvcgen

@[spec 20000]
theorem knownLambda_preserves [World.Resolving J] {r : Option MethodRef} :
    Preserves J (knownLambda r) := by
  unfold knownLambda
  mvcgen

@[spec 20000]
theorem analyze_preserves [World.Resolving J] {m : MethodId} {source : Label}
    {number : Int} :
    Preserves J (analyze m source number) := by
  unfold analyze
  mvcgen
  all_goals exact fun _ _ => inferInstance

@[spec 20000]
theorem chainsIn_preserves [World.Resolving J] {m : MethodId} :
    Preserves J (chainsIn m) := by
  unfold chainsIn
  mvcgen
  all_goals exact fun _ _ => inferInstance

/-! ## Calls on the system -/

@[spec 20000]
theorem isOrDerives_preserves [World.Resolving J] {t : TypeId} {r : TypeRef} :
    Preserves J (isOrDerives t r) := by
  unfold isOrDerives
  mvcgen

@[spec 20000]
theorem touchesSystem_preserves [World.Resolving J] {system : TypeId}
    {m : MethodRef} :
    Preserves J (touchesSystem system m) := by
  have harg : ∀ p : TypeRef, Preserves J
      (if p.element.isType Ns.system "Object" then pure false
        else isOrDerives system p) := by
    intro p
    mvcgen
    exact fun _ _ => inferInstance
  unfold touchesSystem
  mvcgen
  all_goals exact harg _

@[spec 20000]
theorem localFunction?_preserves [World.Resolving J] {system : TypeId}
    {m : MethodRef} :
    Preserves J (localFunction? system m) := by
  unfold localFunction?
  mvcgen

@[spec 20000]
theorem isPermitted_preserves [World.Resolving J] {system : TypeId} {fuel : Nat}
    {m : MethodRef} {seen : List MethodId} :
    Preserves J (isPermitted system fuel m seen) := by
  induction fuel generalizing m seen with
  | zero => mvcgen [isPermitted, -isPermitted_keeps]
  | succ fuel ih => mvcgen [isPermitted, ih, -isPermitted_keeps]

@[spec 20000]
theorem checkLambdaOnSystem_preserves [World.Resolving J] {c : Chain} :
    Preserves J (checkLambdaOnSystem c) := by
  unfold checkLambdaOnSystem
  mvcgen

/-! ## Closures -/

@[spec 20000]
theorem closureClass?_preserves [World.Resolving J] {t : TypeRef} :
    Preserves J (closureClass? t) := by
  unfold closureClass?
  mvcgen

@[spec 20000]
theorem allocates_preserves {i : Instr} {closure : TypeId} :
    Preserves J (allocates i closure) := by
  unfold allocates
  mvcgen

@[spec 20000]
theorem permitsConversion_preserves [World.Resolving J] {b : Body}
    {owned : List Label} {n : Nat} {i : Instr} :
    Preserves J (permitsConversion b owned n i) := by
  unfold permitsConversion
  mvcgen

@[spec 20000]
theorem canConvertClosures_preserves [World.Resolving J] {m : MethodId}
    {chains : List Chain} :
    Preserves J (canConvertClosures m chains) := by
  unfold canConvertClosures
  mvcgen
  all_goals exact fun _ _ => inferInstance

@[spec 20000]
theorem requireSince_preserves {start : Nat} {c : Chain} :
    Preserves J (requireSince start c) := by
  unfold requireSince
  mvcgen

end Weave

end JobWeave
