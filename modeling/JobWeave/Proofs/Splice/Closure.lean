import Mathlib
import JobWeave.Splice.Closure
import JobWeave.Proofs.Splice.CallSite

/-!
# Converting closures

Whether closures can be converted is found out without changing anything.  The
conversion fails only before its first change; after that it can only come upon
a missing reference, which is a fault.  The closures stay the types that they
are, now stored in place.
-/

namespace JobWeave

open Framework Std.Do

set_option mvcgen.warning false

variable {N : Set TypeId} {K S : Set MethodId} {V : Workspace}
variable {I : Workspace → Prop} {H : List (TypeId × MethodId)}
variable {m : MethodId} {b : Body}

namespace Weave

/-! ## Looking for closures -/

@[spec]
theorem closureClass?_keeps {t : TypeRef} : Keeps I H (closureClass? t) := by
  mvcgen [closureClass?]

@[spec]
theorem allocates_keeps {i : Instr} {closure : TypeId} :
    Keeps I H (allocates i closure) := by
  mvcgen [allocates]
  all_goals grind -ring -linarith

@[spec]
theorem permitsConversion_keeps {owned : List Label} {n : Nat} {i : Instr} :
    Keeps I H (permitsConversion b owned n i) := by
  mvcgen [permitsConversion]

@[spec]
theorem canConvertClosures_keeps {chains : List Chain} :
    Keeps I H (canConvertClosures m chains) := by
  mvcgen [canConvertClosures]

@[spec]
theorem allocationAt_keeps {i : Instr} : Keeps I H (allocationAt m b i) := by
  mvcgen [allocationAt]
  all_goals grind

@[spec]
theorem allocationSites_keeps : Keeps I H (allocationSites m b) := by
  mvcgen [allocationSites]

/-! ## The conversion -/

/-- A closure that becomes a value type stays where it is. -/
@[spec]
theorem makeValueType_frame {t : TypeId} (hK : V.Lasting K) :
    Keeps (V.Frame (TypeEntry.Stays N K) S) H (makeValueType t) := by
  mvcgen [makeValueType, modifyWorkspace]
  rename_i w hw t'
  refine ⟨?_, hw.hooks, hw.ordinary⟩
  have hhead := hw.workspace.updateType t
    (fun e => { e with
      head := { e.head with
        base := .valueType,
        flags := e.head.flags ||| TypeFlag.sequentialLayout } }) fun _ hr =>
    ⟨⟨hr.name, hr.ns, hr.outer, fun _ => rfl, hr.nested⟩, hr.added, hr.methods,
      hr.kept⟩
  refine hhead.updateType t _ fun _ hr => ?_
  refine ⟨⟨hr.name, hr.ns, hr.outer, hr.isValueType, hr.nested⟩, hr.added,
    List.filter_sublist.trans hr.methods, fun n hn hmem => ?_⟩
  have hctor := (hK.of_frame hhead n hn).2
  exact List.mem_filter.2 ⟨hr.kept n hn hmem,
    by simp [Workspace.updateHead, hctor]⟩

@[spec]
theorem markForeign_keeps {ts : List TypeRef} : Keeps I H (markForeign ts) :=
  triple_iff.2 fun _ hw => hw.of_eq rfl rfl rfl

@[spec]
theorem markReferences_frame {names : List String} (hm : V.Edits S m) :
    Keeps (V.Frame (TypeEntry.Stays N K) S) H (markReferences m b names) := by
  mvcgen [markReferences, -shareMarks_spec]
  all_goals grind

@[spec]
theorem convertSites_frame {sites : List AllocationSite} (hm : V.Edits S m)
    (hK : V.Lasting K) :
    Keeps (V.Frame (TypeEntry.Stays N K) S) H (convertSites m b sites) := by
  mvcgen [convertSites]
  all_goals grind

theorem neverFails_markReferences {names : List String} :
    NeverFails (markReferences m b names) := by
  refine .bind .setBody fun _ => .bind .shareMarks fun _ => ?_
  split
  · exact .fault
  · exact .pure _

/-- After its first change the conversion does not fail. -/
theorem neverFails_convertSites {sites : List AllocationSite} :
    NeverFails (convertSites m b sites) := by
  have hrest : ∀ (b : Body) (rs : List TypeRef) (ts : List TypeId),
    NeverFails (do
      setBody m b
      markForeign rs
      ts.forM makeValueType
      markReferences m b (← ts.mapM typeName)) := fun b rs ts =>
    .bind .setBody fun _ => .bind .markForeign fun _ =>
      .bind (.forM fun _ => .modifyWorkspace) fun _ =>
        .bind (.mapM fun _ => .bind .workspace fun _ => .pure _) fun _ =>
          neverFails_markReferences
  refine .bind (.mapM fun _ => .bind (.bind .workspace fun _ => .pure _)
      fun _ =>
    .pure _) fun typed => .bind .setBody fun _ => ?_
  dsimp only
  split
  · exact .bind .fault fun _ => hrest _ _ _
  · exact hrest _ _ _

/-- A conversion that fails has changed nothing. -/
@[spec]
theorem convertClosures_spec (hm : V.Edits S m) (hK : V.Lasting K)
    (hI : ∀ w, I w → V.Frame (TypeEntry.Stays N K) S w) :
    ⦃fun w => ⌜Holding I H w⌝⦄ convertClosures m
      ⦃post⟨fun _ w => ⌜Holding (V.Frame (TypeEntry.Stays N K) S) H w⌝,
        fun e w => ⌜Holding (V.Frame (TypeEntry.Stays N K) S) H w ∧
          ∀ f, e = .failed f → Holding I H w ∧ f.IsSerious⌝⟩⦄ := by
  have hframe : ∀ {w : World}, Holding I H w →
      Holding (V.Frame (TypeEntry.Stays N K) S) H w := fun hw => hw.imp (hI _)
  have hsites : ∀ b, Keeps I H (allocationSites m b) :=
    fun _ => allocationSites_keeps
  have hconvert : ∀ b sites, Keeps (V.Frame (TypeEntry.Stays N K) S) H
      (convertSites m b sites) := fun _ _ => convertSites_frame hm hK
  have hconvert := fun b sites =>
    Keeps.neverFails (hconvert b sites) neverFails_convertSites
  mvcgen [convertClosures, hsites, hconvert, -allocationSites_keeps,
    -convertSites_frame]
  all_goals grind [Stop.IsSerious]

end Weave

end JobWeave
