import Mathlib
import JobWeave.Splice.CallSite
import JobWeave.Proofs.Plan.Synthesis
import JobWeave.Proofs.Splice.Code

/-!
# A splice changes one method

Replacing a chain by its job changes the code of the chain's method and nothing
else that was there before, and a splice that fails leaves the code of the
method as it was.
-/

namespace JobWeave

open Framework Std.Do

set_option mvcgen.warning false

variable {R : TypeEntry → TypeEntry → Prop} {S : Set MethodId} {V : Workspace}
variable {I : Workspace → Prop} {H : List (TypeId × MethodId)}
variable {m : MethodId} {b : Body} {u : Plan} {clean : Prop}

namespace Weave

/-! ## Modifiers -/

@[spec]
theorem requireEffect_keeps {call : Label} {name : String} {want got : Int} :
    Keeps I H (requireEffect m call name want got) := by
  mvcgen [requireEffect]
  all_goals grind

@[spec]
theorem sharedFilter_keeps {c : Chain} {mod : Modifier} :
    Keeps I H (sharedFilter c mod) := by
  mvcgen [sharedFilter]
  all_goals grind [mem_sourceNames]

@[spec]
theorem modifierSteps_keeps {mod : Modifier} {want : Int} :
    Keeps I H (modifierSteps u mod want) := by
  mvcgen [modifierSteps]
  all_goals grind [Stop.IsSerious, Failure.IsSerious, Failure.note?]

@[spec]
theorem eraseModifier_frame {mod : Modifier} (hm : V.Edits S u.chain.method) :
    Keeps (V.Frame R S) H (eraseModifier u mod) := by
  mvcgen [eraseModifier]
  all_goals grind

/-! ## The terminal -/

@[spec]
theorem executionMethod_keeps : Keeps I H (executionMethod u) := by
  mvcgen [executionMethod]
  all_goals grind [mem_sourceNames, Stop.IsSerious, Failure.IsSerious,
    Failure.note?]

@[spec]
theorem loadRunDelegate_keeps {e : Emitter} :
    Keeps I H (loadRunDelegate u e) := by
  mvcgen [loadRunDelegate]
  all_goals grind [mem_sourceNames]

@[spec]
theorem loadClosure_keeps {closure : Option LocalRef} :
    Keeps I H (loadClosure u closure) := by
  mvcgen [loadClosure]
  all_goals grind

@[spec]
theorem addLocal_frame {type : TypeRef} (hm : V.Edits S m) :
    Keeps (V.Frame R S) H (addLocal m type) := by
  mvcgen [addLocal]
  all_goals grind

@[spec]
theorem takeHandle_frame {system : TypeRef} {implicit : Bool} {e : Emitter}
    (hm : V.Edits S u.chain.method) :
    Keeps (V.Frame R S) H (takeHandle u system implicit e) := by
  mvcgen [takeHandle]
  all_goals grind [mem_sourceNames]

@[spec]
theorem prepareJob_frame {system : TypeRef} {e : Emitter}
    (hm : V.Edits S u.chain.method) :
    Keeps (V.Frame R S) H (prepareJob u system e) := by
  mvcgen [prepareJob]
  all_goals grind [mem_sourceNames]

@[spec]
theorem loadQuery_keeps {e : Emitter} : Keeps I H (loadQuery u e) := by
  mvcgen [loadQuery]
  all_goals grind

@[spec]
theorem handOver_keeps {target : MethodRef} {job handle : LocalRef}
    {e : Emitter} : Keeps I H (handOver u target job handle e) := by
  mvcgen [handOver]
  all_goals grind

@[spec]
theorem keepHandle_keeps {system : TypeRef} {handle : LocalRef} {e : Emitter} :
    Keeps I H (keepHandle system handle e) := by
  mvcgen [keepHandle]
  all_goals grind [mem_sourceNames]

@[spec]
theorem copyBack_keeps {job : LocalRef} {e : Emitter} :
    Keeps I H (copyBack u job e) := by
  mvcgen [copyBack]
  all_goals grind

@[spec]
theorem executionCode_frame (hm : V.Edits S u.chain.method) :
    Keeps (V.Frame R S) H (executionCode u) := by
  mvcgen [executionCode]
  all_goals grind

@[spec]
theorem spliceTerminal_frame (hm : V.Edits S u.chain.method) :
    Keeps (V.Frame R S) H (spliceTerminal u) := by
  mvcgen [spliceTerminal]
  all_goals grind [Stop.IsSerious, Failure.IsSerious, Failure.note?]

/-! ## The whole chain -/

@[spec]
theorem forM_keeps {α : Type} {xs : List α} {f : α → Weave PUnit}
    (h : ∀ x ∈ xs, Keeps I H (f x)) : Keeps I H (xs.forM f) :=
  forM_inv h

@[spec]
theorem replaceChain_frame (hm : V.Edits S u.chain.method) :
    Keeps (V.Frame R S) H (replaceChain u) := by
  mvcgen [replaceChain]
  all_goals grind

attribute [spec] chainWarnings

/-- A splice that fails leaves the code of the method as it was. -/
@[spec]
theorem splice_spec (b : Body) (clean : Prop) (hm : V.Edits S u.chain.method) :
    ⦃fun w => ⌜Holding (V.Tended R S u.chain.method b clean) H w⌝⦄ splice u
      ⦃post⟨fun r w => ⌜match r.2 with
          | .ok _ => Holding (V.Frame R S) H w
          | .error f =>
            Holding (V.Tended R S u.chain.method b clean) H w ∧ f.IsSerious⌝,
        fun e w => ⌜Holding (V.Frame R S) H w ∧ e.IsSerious⌝⟩⦄ := by
  have hreplace : Keeps (V.Frame R S) H (replaceChain u) :=
    replaceChain_frame hm
  have hrestoring := tryFailure_spec (restoringBody_spec b clean hm hreplace)
  mvcgen [splice, hrestoring]
  all_goals grind [Stop.IsSerious, Failure.IsSerious, Failure.note?]

end Weave

end JobWeave
