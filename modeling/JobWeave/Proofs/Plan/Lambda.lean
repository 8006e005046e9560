import Mathlib
import JobWeave.Plan.Lambda
import JobWeave.Proofs.Plan.Drafting

/-!
# The lambda's copies are new

The lambda and the methods it reaches are copied into the job before anything is
pointed at the job's own fields and look-ups, so every change of code is a
change of a copy.  The system, its closures and the lambda itself stay as they
were.
-/

namespace JobWeave

open Framework Std.Do

set_option mvcgen.warning false

variable {I : Workspace → Prop} {B : Ground}
variable {H : List (TypeId × MethodId)} {c : Chain}

/-! ## Calls on the system -/

namespace Weave

@[spec]
theorem isOrDerives_keeps {t : TypeId} {r : TypeRef} :
    Keeps I H (isOrDerives t r) := by
  mvcgen [isOrDerives]
  all_goals grind

@[spec]
theorem touchesSystem_keeps {system : TypeId} {m : MethodRef} :
    Keeps I H (touchesSystem system m) := by
  have harg : ∀ p : TypeRef, Keeps I H
      (if p.element.isType Ns.system "Object" then pure false
        else isOrDerives system p) := by
    intro p
    mvcgen
  mvcgen [touchesSystem]
  all_goals first | exact harg _ | grind

@[spec]
theorem localFunction?_keeps {system : TypeId} {m : MethodRef} :
    Keeps I H (localFunction? system m) := by
  mvcgen [localFunction?]
  all_goals grind

@[spec]
theorem isPermitted_keeps {system : TypeId} {fuel : Nat} {m : MethodRef}
    {seen : List MethodId} : Keeps I H (isPermitted system fuel m seen) := by
  induction fuel generalizing m seen with
  | zero => mvcgen [isPermitted]
  | succ fuel ih =>
    mvcgen [isPermitted, ih]
    all_goals grind

@[spec]
theorem checkLambdaOnSystem_keeps {c : Chain} :
    Keeps I H (checkLambdaOnSystem c) := by
  mvcgen [checkLambdaOnSystem]
  all_goals grind

end Weave

namespace Planning

/-! ## Captured variables -/

@[spec]
theorem isClosure_keeps {t : TypeRef} : Keeps I B H c (isClosure t) := by
  mvcgen [isClosure]
  all_goals grind

attribute [spec] isClosureField

@[spec]
theorem walkBack_keeps {d : MethodDef} {accepts : Instr → Planning Bool}
    {fuel : Nat} {l : Option Label}
    (h : ∀ i, Keeps I B H c (accepts i)) :
    Keeps I B H c (walkBack d accepts fuel l) := by
  induction fuel generalizing l with
  | zero => mvcgen [walkBack]
  | succ fuel ih =>
    cases l with
    | none => mvcgen [walkBack]
    | some l =>
      mvcgen [walkBack, ih, h]
      all_goals grind

@[spec]
theorem loadsEnclosing_keeps {i : Instr} :
    Keeps I B H c (loadsEnclosing i) := by
  mvcgen [loadsEnclosing]
  all_goals grind

@[spec]
theorem captureAt_keeps {m : MethodId} {d : MethodDef} {i : Instr} :
    Keeps I B H c (captureAt m d i) := by
  mvcgen [captureAt]
  all_goals grind

@[spec]
theorem captures_keeps {m : MethodId} : Keeps I B H c (captures m) := by
  mvcgen [captures]

@[spec]
theorem pathKey_keeps {path : List FieldRef} :
    Weave.Keeps I H (pathKey path) := by
  mvcgen [pathKey]
  all_goals grind

theorem capturedField_stable {x : Capture} {written : Bool} (hI : B.Stable I) :
    Keeps I B H c (capturedField x written) := by
  have hadd : ∀ name type flags attributes,
      Keeps I B H c (addField name type flags attributes) :=
    fun _ _ _ _ => addField_stable hI
  mvcgen [capturedField, hadd, -addField_drafts]
  all_goals grind [Fresh]

@[spec]
theorem capturedField_drafts {x : Capture} {written : Bool} :
    Drafts B H c (capturedField x written) :=
  capturedField_stable B.stable_reaches

@[spec]
theorem refuseReference_keeps {m : MethodId} {x : Capture} {t : TypeRef} :
    Keeps I B H c (refuseReference m x t) := by
  mvcgen [refuseReference]
  all_goals grind

@[spec]
theorem checkReference_keeps {m : MethodId} {x : Capture} :
    Keeps I B H c (checkReference m x) := by
  mvcgen [checkReference]
  all_goals grind

@[spec]
theorem redirect_drafts {m : MethodId} {x : Capture} {written : Bool}
    (hm : IsNew B m) :
    Drafts B H c (redirect m x written) := by
  mvcgen [redirect]
  all_goals grind

@[spec]
theorem remapCaptures_drafts {m : MethodId} (hm : IsNew B m) :
    Drafts B H c (remapCaptures m) := by
  mvcgen [remapCaptures]
  all_goals grind

/-! ## Component look-ups -/

@[spec]
theorem checkAliasing_keeps {m : MethodId} {call : Label} {r : MethodRef}
    {t : TypeRef} {write : Bool} :
    Keeps I B H c (checkAliasing m call r t write) := by
  mvcgen [checkAliasing]
  all_goals grind

@[spec]
theorem loadsFromClosure_keeps {i : Instr} :
    Keeps I B H c (loadsFromClosure i) := by
  mvcgen [loadsFromClosure]
  all_goals grind

@[spec]
theorem systemInstance_keeps {m : MethodId} {call : Label} {r : MethodRef} :
    Keeps I B H c (systemInstance m call r) := by
  mvcgen [systemInstance]
  all_goals grind

theorem componentAccess_stable {t : TypeRef} (hI : B.Stable I) :
    Keeps I B H c (componentAccess t) := by
  have hadd : ∀ name type flags attributes,
      Keeps I B H c (addField name type flags attributes) :=
    fun _ _ _ _ => addField_stable hI
  mvcgen [componentAccess, hadd, -addField_drafts]
  all_goals grind [Fresh]

@[spec]
theorem componentAccess_drafts {t : TypeRef} :
    Drafts B H c (componentAccess t) :=
  componentAccess_stable B.stable_reaches

theorem allowWrites_stable {a : ComponentAccess} (hI : B.Stable I) :
    Keeps I B H c (allowWrites a) := by
  have hmodify : ∀ field f, Keeps I B H c (modifyAttributes field f) :=
    fun _ _ => modifyAttributes_stable hI
  mvcgen [allowWrites, hmodify, -modifyAttributes_drafts]
  all_goals grind [Fresh]

@[spec]
theorem allowWrites_drafts {a : ComponentAccess} :
    Drafts B H c (allowWrites a) :=
  allowWrites_stable B.stable_reaches

@[spec]
theorem lookupMethod_keeps {accessor : String} {t : TypeRef} :
    Keeps I B H c (lookupMethod accessor t) := by
  mvcgen [lookupMethod]
  all_goals grind [sourceNames]

@[spec]
theorem patchCall_drafts {m : MethodId} {call : Label} {r : MethodRef}
    (hm : IsNew B m) : Drafts B H c (patchCall m call r) := by
  mvcgen [patchCall]
  all_goals grind

@[spec]
theorem patchComponentAccess_drafts {m : MethodId} (hm : IsNew B m) :
    Drafts B H c (patchComponentAccess m) := by
  mvcgen [patchComponentAccess]
  all_goals grind

/-! ## Copies -/

@[spec]
theorem relay_drafts : Drafts B H c relay := by
  mvcgen [relay]
  all_goals grind [Fresh]

@[spec]
theorem resolve?_keeps {r : Option MethodRef} :
    Weave.Keeps I H (resolve? r) := by
  mvcgen [resolve?]
  all_goals grind

@[spec]
theorem checkBody_keeps {m : MethodId} : Keeps I B H c (checkBody m) := by
  mvcgen [checkBody]
  all_goals grind

@[spec]
theorem calledOn_keeps {owner : TypeId} {code : List Instr} :
    Weave.Keeps I H (calledOn owner code) := by
  mvcgen [calledOn]
  all_goals grind

@[spec]
theorem reachable_keeps {owner : TypeId} {fuel : Nat}
    {done todo : List MethodId} :
    Keeps I B H c (reachable owner fuel done todo) := by
  induction fuel generalizing done todo with
  | zero => mvcgen [reachable]
  | succ fuel ih =>
    cases todo with
    | nil => mvcgen [reachable]
    | cons m todo =>
      mvcgen [reachable, ih]
      all_goals grind

/-- A copy is not an old method. -/
@[spec]
theorem copyMethod_drafts {m : MethodId} {name : String} :
    DraftsGiving B H c (IsNew B) (copyMethod m name) := by
  have hadd : ∀ (job : TypeId) (d : MethodDef), B.types ≤ job.index →
      Weave.Gives B.Reaches H (IsNew B)
        (Weave.addToWorkspace (·.addCopy job m d)) := fun job d hjob =>
    addToWorkspace_gives (fun _ _ => .addCopy job m d hjob)
      fun w hw => hw.sizes.2
  mvcgen [copyMethod, hadd]
  all_goals grind [Fresh]

@[spec]
theorem relink_keeps {copies : List (MethodId × MethodId)} {i : Instr} :
    Weave.Keeps I H (relink copies i) := by
  mvcgen [relink]
  all_goals grind

@[spec]
theorem relinkBody_keeps {copies : List (MethodId × MethodId)} {m : MethodId}
    (hm : IsNew B m) : Weave.Keeps B.Reaches H (relinkBody copies m) := by
  mvcgen [relinkBody]
  all_goals grind

/-- A loop that makes methods makes new ones. -/
@[spec high]
theorem mapM_isNew {α : Type} {xs : List α} {f : α → Planning MethodId}
    (h : ∀ x ∈ xs, DraftsGiving B H c (IsNew B) (f x)) :
    DraftsGiving B H c (fun ms => ∀ m ∈ ms, IsNew B m) (xs.mapM f) := by
  have hall : DraftsGiving B H c (List.Forall₂ (fun _ => IsNew B) xs)
      (xs.mapM f) := mapM_giving h
  mvcgen [hall, -mapM_keeps]
  intro hd hrs
  refine ⟨hd, ?_⟩
  clear h hall
  induction hrs with
  | nil => simp
  | cons hm _ ih => exact List.forall_mem_cons.2 ⟨hm, ih⟩

@[spec]
theorem clone_drafts (hB : B.copies = none) : Drafts B H c clone := by
  have hcopy : ∀ lambda m : MethodId, DraftsGiving B H c (IsNew B)
      (if m == lambda then copyMethod m lambdaName
        else do copyMethod m (← Weave.methodDef m).name) := by
    intro lambda m
    mvcgen
  mvcgen [clone]
  all_goals first | exact hcopy _ _ | grind [Fresh]

end Planning

end JobWeave
