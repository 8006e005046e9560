import Mathlib
import JobWeave.Proofs.Splice.Closure

/-!
# Work on code

Replacing a chain gives methods other code and does nothing else to the
definitions.  So it keeps every property of a workspace that does not look at
code (`Workspace.IgnoresCode`), whatever the method, and whether or not the work
comes to its end.
-/

namespace JobWeave

open Framework Std.Do

set_option mvcgen.warning false

/-- The property does not depend on the code of methods. -/
def Workspace.IgnoresCode (I : Workspace → Prop) : Prop :=
  ∀ w m b, I w → I (w.updateMethod m fun d => { d with body := some b })

variable {I : Workspace → Prop} {H : List (TypeId × MethodId)}
variable {m : MethodId} {b : Body} {u : Plan} {α : Type}

namespace Weave

/-! ## Code and its marks -/

theorem setBody_ignored (hI : Workspace.IgnoresCode I) :
    Keeps I H (setBody m b) :=
  Planning.modifyWorkspace_inv fun w hw => hI w m b hw

theorem modifyBody_ignored {f : Body → Body} (hI : Workspace.IgnoresCode I) :
    Keeps I H (modifyBody m f) := by
  have hset := fun b => setBody_ignored (H := H) (m := m) (b := b) hI
  mvcgen [modifyBody, hset, -modifyBody_frame, -Planning.modifyBody_keeps,
    -setBody_frame, -Planning.setBody_keeps]
  all_goals grind

theorem adoptMarks_ignored (hI : Workspace.IgnoresCode I) :
    Keeps I H (adoptMarks b m) := by
  have hset := fun b => setBody_ignored (H := H) (m := m) (b := b) hI
  mvcgen [adoptMarks, hset, -setBody_frame, -Planning.setBody_keeps]

theorem shareMarks_ignored (hI : Workspace.IgnoresCode I) :
    Keeps I H (shareMarks m b) := by
  have hadopt := fun n => adoptMarks_ignored (H := H) (m := n) (b := b) hI
  mvcgen [shareMarks, hadopt, -shareMarks_spec, -shareMarks_frame]

theorem restoreBody_ignored (hI : Workspace.IgnoresCode I) :
    Keeps I H (restoreBody m b) := by
  have hset := fun b => setBody_ignored (H := H) (m := m) (b := b) hI
  have hshare := shareMarks_ignored (H := H) (m := m) (b := b) hI
  mvcgen [restoreBody, hset, hshare, -restoreBody_spec, -setBody_frame,
    -Planning.setBody_keeps, -shareMarks_spec, -shareMarks_frame]

theorem optimizeBody_ignored (hI : Workspace.IgnoresCode I) :
    Keeps I H (optimizeBody m) := by
  have hset := fun b => setBody_ignored (H := H) (m := m) (b := b) hI
  mvcgen [optimizeBody, hset, -setBody_frame, -Planning.setBody_keeps]
  all_goals grind

theorem restoringBody_ignored {act : Weave α} (hI : Workspace.IgnoresCode I)
    (hact : Keeps I H act) : Keeps I H (restoringBody m act) := by
  have hattempt := attempt_spec hact
  have hrestore := fun b => restoreBody_ignored (H := H) (m := m) (b := b) hI
  mvcgen [restoringBody, hattempt, hrestore, -restoreBody_spec]
  all_goals grind

/-! ## Replacing a chain -/

theorem eraseModifier_ignored (mod : Modifier) (hI : Workspace.IgnoresCode I) :
    Keeps I H (eraseModifier u mod) := by
  have hset := fun m b => setBody_ignored (H := H) (m := m) (b := b) hI
  mvcgen [eraseModifier, hset, -eraseModifier_frame, -setBody_frame,
    -Planning.setBody_keeps]
  all_goals grind

theorem addLocal_ignored (type : TypeRef) (hI : Workspace.IgnoresCode I) :
    Keeps I H (addLocal m type) := by
  have hset := fun b => setBody_ignored (H := H) (m := m) (b := b) hI
  mvcgen [addLocal, hset, -addLocal_frame, -setBody_frame,
    -Planning.setBody_keeps]
  all_goals grind

theorem takeHandle_ignored (system : TypeRef) (implicit : Bool) (e : Emitter)
    (hI : Workspace.IgnoresCode I) :
    Keeps I H (takeHandle u system implicit e) := by
  have hlocal := fun m type => addLocal_ignored (H := H) (m := m) type hI
  mvcgen [takeHandle, hlocal, -takeHandle_frame, -addLocal_frame]
  all_goals grind [mem_sourceNames]

theorem prepareJob_ignored (system : TypeRef) (e : Emitter)
    (hI : Workspace.IgnoresCode I) :
    Keeps I H (prepareJob u system e) := by
  have hlocal := fun m type => addLocal_ignored (H := H) (m := m) type hI
  mvcgen [prepareJob, hlocal, -prepareJob_frame, -addLocal_frame]
  all_goals grind [mem_sourceNames]

theorem executionCode_ignored (hI : Workspace.IgnoresCode I) :
    Keeps I H (executionCode u) := by
  have htake := fun system implicit e =>
    takeHandle_ignored (H := H) (u := u) system implicit e hI
  have hprepare := fun system e =>
    prepareJob_ignored (H := H) (u := u) system e hI
  mvcgen [executionCode, htake, hprepare, -executionCode_frame,
    -takeHandle_frame, -prepareJob_frame]
  all_goals grind

theorem spliceTerminal_ignored (hI : Workspace.IgnoresCode I) :
    Keeps I H (spliceTerminal u) := by
  have hcode := executionCode_ignored (H := H) (u := u) hI
  have hset := fun m b => setBody_ignored (H := H) (m := m) (b := b) hI
  mvcgen [spliceTerminal, hcode, hset, -spliceTerminal_frame,
    -executionCode_frame, -setBody_frame, -Planning.setBody_keeps]
  all_goals grind [Stop.IsSerious, Failure.IsSerious, Failure.note?]

theorem replaceChain_ignored (hI : Workspace.IgnoresCode I) :
    Keeps I H (replaceChain u) := by
  have hmodify := fun m f => modifyBody_ignored (H := H) (m := m) (f := f) hI
  have herase := fun mod => eraseModifier_ignored (H := H) (u := u) mod hI
  have hterminal := spliceTerminal_ignored (H := H) (u := u) hI
  mvcgen [replaceChain, hmodify, herase, hterminal, -replaceChain_frame,
    -modifyBody_frame, -Planning.modifyBody_keeps, -eraseModifier_frame,
    -spliceTerminal_frame]

theorem splice_ignored (hI : Workspace.IgnoresCode I) :
    Keeps I H (splice u) := by
  have hreplace : Keeps I H (restoringBody u.chain.method (replaceChain u)) :=
    restoringBody_ignored hI (replaceChain_ignored hI)
  have htry := tryFailure_gives hreplace.gives
  mvcgen [splice, htry, -splice_spec]
  all_goals grind

/-! ## References -/

theorem markReferences_ignored (names : List String)
    (hI : Workspace.IgnoresCode I) :
    Keeps I H (markReferences m b names) := by
  have hset := fun b => setBody_ignored (H := H) (m := m) (b := b) hI
  have hshare := fun b => shareMarks_ignored (H := H) (m := m) (b := b) hI
  mvcgen [markReferences, hset, hshare, -markReferences_frame, -setBody_frame,
    -Planning.setBody_keeps, -shareMarks_spec, -shareMarks_frame]
  all_goals grind

end Weave

end JobWeave
