import JobWeave.Plan.Parameters
import JobWeave.Splice.CallSite

/-!
# Outcomes that do not fail

The analyses of code need no world.  They may find a reference missing, which is
a fault, but they never stop with a failure: failures are what the pass itself
decides to report.  `Weave.NeverFails` says the same of work on a world.
-/

namespace JobWeave

/-- A computation that stops, if it does, with a fault. -/
def Outcome.NeverFails {α : Type} (o : Outcome α) : Prop :=
  ∀ f, o ≠ .error (.failed f)

namespace Outcome.NeverFails

variable {α β : Type}

@[simp, grind .]
theorem ok (a : α) : NeverFails (.ok a) := by
  intro f h
  cases h

@[simp, grind .]
theorem pure (a : α) : NeverFails (Pure.pure a : Outcome α) :=
  ok a

@[simp, grind .]
theorem fault : NeverFails (Outcome.fault : Outcome α) := by
  intro f h
  cases h

@[simp, grind .]
theorem error_fault (text : Option String) :
    NeverFails (.error (.fault text) : Outcome α) := by
  intro f h
  cases h

@[simp, grind .]
theorem need (o : Option α) : NeverFails (Outcome.need o) := by
  cases o with
  | none => exact fault
  | some a => exact ok a

theorem bind {o : Outcome α} {k : α → Outcome β} (ho : o.NeverFails)
    (hk : ∀ a, (k a).NeverFails) : NeverFails (o >>= k) := by
  cases o with
  | ok a => exact hk a
  | error e =>
    intro f h
    cases h
    exact ho f rfl

theorem filterM {p : α → Outcome Bool} (hp : ∀ a, (p a).NeverFails)
    (as : List α) : NeverFails (as.filterM p) := by
  have haux : ∀ acc, NeverFails (as.filterAuxM p acc) := by
    induction as with
    | nil => exact fun acc => ok acc
    | cons a as ih => exact fun acc => (hp a).bind fun b => ih _
  exact (haux []).bind fun _ => ok _

end Outcome.NeverFails

open Outcome (NeverFails)

/-! ## Sources and chain methods -/

@[simp, grind .]
theorem Instr.neverFails_sourceKind (i : Instr) : i.sourceKind.NeverFails := by
  unfold Instr.sourceKind
  split
  · simp
  · simp
  · split
    · refine (NeverFails.need _).bind fun ret => ?_
      split
      · simp
      · split <;> simp
    · split
      · split
        · simp
        · split <;> simp
      · split
        · split
          · simp
          · split <;> simp
        · simp

@[simp, grind .]
theorem MethodDef.neverFails_sources (m : MethodDef) :
    m.sources.NeverFails := by
  refine (NeverFails.filterM (fun i => ?_) _).bind fun _ => NeverFails.pure _
  exact i.neverFails_sourceKind.bind fun _ => NeverFails.pure _

@[simp, grind .]
theorem MethodRef.neverFails_isChainMethod (m : MethodRef) :
    m.isChainMethod.NeverFails := by
  unfold MethodRef.isChainMethod
  split <;> simp

@[simp, grind .]
theorem ParamDef.neverFails_isIn (p : ParamDef) : p.isIn.NeverFails := by
  unfold ParamDef.isIn
  split
  · simp
  · split <;> simp

/-! ## Delegates -/

@[simp, grind .]
theorem Instr.neverFails_delegateCtor (i : Instr) :
    i.delegateCtor.NeverFails := by
  unfold Instr.delegateCtor
  split <;> simp

namespace Body

theorem neverFails_simpleDelegate (b : Body) (hasThis : Bool)
    (target ftn ctor : Instr) :
    (b.simpleDelegate hasThis target ftn ctor).NeverFails := by
  refine ctor.neverFails_delegateCtor.bind fun c => ?_
  split
  · simp
  · split
    · simp
    · split <;> simp

theorem neverFails_sameField (f g : Option FieldRef) :
    (sameField f g).NeverFails := by
  unfold sameField
  split <;> simp

theorem neverFails_cachedDelegate (is : List Instr) :
    (cachedDelegate is).NeverFails := by
  unfold cachedDelegate
  split
  · split
    · simp
    · split
      · simp
      · split
        · simp
        · refine (neverFails_sameField _ _).bind fun same => ?_
          split
          · simp
          · refine (Instr.neverFails_delegateCtor _).bind fun ctor => ?_
            split <;> simp
  · simp

@[simp, grind .]
theorem neverFails_delegateEndingAt (b : Body) (hasThis : Bool) (n : Nat) :
    (b.delegateEndingAt hasThis n).NeverFails := by
  unfold delegateEndingAt
  split
  · simp
  · split
    · split
      · simp
      · exact neverFails_cachedDelegate _
    · split
      · simp
      · split
        · exact b.neverFails_simpleDelegate _ _ _ _
        · simp

@[simp, grind .]
theorem neverFails_delegateStartingAt (b : Body) (hasThis : Bool) (n : Nat) :
    (b.delegateStartingAt hasThis n).NeverFails := by
  unfold delegateStartingAt
  split
  · simp
  · refine (b.neverFails_delegateEndingAt _ _).bind fun d => ?_
    split
    · simp
    · exact (b.neverFails_delegateEndingAt _ _).bind fun _ => NeverFails.pure _

/-- Putting code somewhere faults where there is no such place. -/
@[simp, grind .]
theorem neverFails_insertAfter (b : Body) (l : Label) (is : List Instr) :
    (b.insertAfter l is).NeverFails := by
  unfold insertAfter
  split <;> simp

@[simp, grind .]
theorem neverFails_replace (b : Body) (l : Label) (is : List Instr) :
    (b.replace l is).NeverFails := by
  unfold replace
  split <;> simp

end Body

namespace MethodDef

@[simp, grind .]
theorem neverFails_delegateFrom (m : MethodDef) (l : Label) :
    (m.delegateFrom l).NeverFails := by
  unfold delegateFrom
  split <;> simp

/-! ## Pushers and consumers -/

@[simp, grind .]
theorem neverFails_effect (m : MethodDef) (i : Instr) :
    (m.effect i).NeverFails := by
  simp [effect]

theorem neverFails_closesDelegate (m : MethodDef) (n : Nat) (l : Label) :
    (m.closesDelegate n l).NeverFails := by
  unfold closesDelegate
  split
  · simp
  · refine (m.code.neverFails_delegateEndingAt _ _).bind fun d => ?_
    split <;> simp

theorem neverFails_pusherBelow (m : MethodDef) (targets : List Label) (n : Nat)
    (depth : Int) : (m.pusherBelow targets n depth).NeverFails := by
  induction n using Nat.strongRecOn generalizing depth with
  | _ n ih =>
    unfold pusherBelow
    split
    · simp
    · rename_i k
      refine (m.code.neverFails_delegateEndingAt _ _).bind fun d => ?_
      split
      · split
        · simp
        · exact ih _ (by omega) _
      · split
        · simp
        · split
          · simp
          · have hrest : ∀ i, NeverFails (do
                let e ← m.effect i
                if e.pushes > depth then return some i.label
                m.pusherBelow targets k (depth + e.pops - e.pushes)) := by
              intro i
              refine (m.neverFails_effect i).bind fun e => ?_
              split
              · simp
              · exact ih k (by omega) _
            split
            · refine (m.neverFails_closesDelegate _ _).bind fun closes => ?_
              split
              · simp
              · exact hrest _
            · exact hrest _

@[simp, grind .]
theorem neverFails_pusher (m : MethodDef) (arg : Int) (l : Label) :
    (m.pusher arg l).NeverFails := by
  unfold pusher
  split
  · simp
  · refine (m.neverFails_effect _).bind fun e => ?_
    split
    · simp
    · exact m.neverFails_pusherBelow _ _ _

theorem neverFails_consumerFrom (m : MethodDef) (fuel n : Nat) (depth : Int) :
    (m.consumerFrom fuel n depth).NeverFails := by
  induction fuel generalizing n depth with
  | zero => simp [consumerFrom]
  | succ fuel ih =>
    unfold consumerFrom
    split
    · simp
    · refine (m.code.neverFails_delegateStartingAt _ _).bind fun d => ?_
      split
      · exact ih _ _
      · refine (m.neverFails_effect _).bind fun e => ?_
        split
        · simp
        · split
          · simp
          · exact ih _ _

@[simp, grind .]
theorem neverFails_consumer (m : MethodDef) (l : Label) :
    (m.consumer l).NeverFails := by
  unfold consumer
  split
  · simp
  · refine (m.code.neverFails_delegateStartingAt _ _).bind fun d => ?_
    split
    · exact m.neverFails_consumerFrom _ _ _
    · exact m.neverFails_consumerFrom _ _ _

@[simp, grind .]
theorem neverFails_spanEffect (m : MethodDef) (is : List Instr) :
    (m.spanEffect is).NeverFails := by
  fun_induction spanEffect m is with
  | case1 => simp
  | case2 i rest ih =>
    exact (m.neverFails_effect i).bind fun e => ih.bind
      fun _ => NeverFails.pure _

end MethodDef

/-! ## Work on a world -/

/-- Work that stops, if it does, with a fault. -/
def Weave.NeverFails {α : Type} (act : Weave α) : Prop :=
  ∀ w f w', act w ≠ .error (.failed f) w'

namespace Weave.NeverFails

variable {α β : Type}

theorem pure (a : α) : NeverFails (Pure.pure a : Weave α) := by
  intro w f w' h
  cases h

theorem fault : NeverFails (Weave.fault : Weave α) := by
  intro w f w' h
  cases h

theorem bind {x : Weave α} {k : α → Weave β} (hx : NeverFails x)
    (hk : ∀ a, NeverFails (k a)) : NeverFails (x >>= k) := by
  intro w f w' h
  simp only [Bind.bind, EStateM.bind] at h
  split at h
  · exact hk _ _ f w' h
  · cases h
    exact hx w f _ ‹_›

theorem workspace : NeverFails Weave.workspace := by
  intro w f w' h
  cases h

theorem markForeign {ts : List TypeRef} :
    NeverFails (Weave.markForeign ts) := by
  intro f w w' h
  cases h

theorem modifyWorkspace {g : Workspace → Workspace} :
    NeverFails (Weave.modifyWorkspace g) := by
  intro w f w' h
  cases h

theorem need {o : Option α} : NeverFails (Weave.need o) := by
  cases o with
  | none => exact fault
  | some a => exact pure a

theorem mapM {xs : List α} {f : α → Weave β} (h : ∀ x, NeverFails (f x)) :
    NeverFails (xs.mapM f) := by
  induction xs with
  | nil => exact pure []
  | cons x xs ih =>
    rw [List.mapM_cons]
    exact (h x).bind fun y => ih.bind fun ys => pure (y :: ys)

theorem forM {xs : List α} {f : α → Weave PUnit} (h : ∀ x, NeverFails (f x)) :
    NeverFails (xs.forM f) := by
  induction xs with
  | nil => exact pure _
  | cons x xs ih => exact (h x).bind fun _ => ih

theorem setBody {m : MethodId} {b : Body} : NeverFails (Weave.setBody m b) :=
  modifyWorkspace

theorem methodDef {m : MethodId} : NeverFails (Weave.methodDef m) :=
  workspace.bind fun _ => pure _

theorem shareMarks {m : MethodId} {b : Body} :
    NeverFails (Weave.shareMarks m b) := by
  refine workspace.bind fun w => forM fun n => methodDef.bind fun d => ?_
  split
  · exact setBody
  · exact pure _

end Weave.NeverFails

end JobWeave
