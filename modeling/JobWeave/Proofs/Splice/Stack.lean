import Mathlib
import JobWeave.Proofs.Body.Parallel
import JobWeave.Proofs.Splice.Confinement

/-!
# The stack in converted code

A conversion of closures puts an address where an allocation or a load was, and
an initialisation where a store was.  Each of these takes and leaves what the
old one did, so the code that comes out is parallel to the code that went in,
wherever branches lead to.  With the new operands in shape the method is
accepted as before.

A conversion that stops with a failure does so while it looks for the
allocations, before the first change.

* `Operand.eq_or_of_unmarked`: what marks can change about an operand.
* `Workspace.Rewrites.parallel`, `Workspace.Rewrites.holds`: one instruction of
  the converted code.
* `Weave.convertClosures_neutral`: the whole conversion.
-/

namespace JobWeave

open Framework Std.Do

variable {V : Workspace} {u : Universe} {m : MethodId} {b b' : Body}
  {i j : Instr}

/-! ## Marks -/

/-- Operands that are the same up to marks are the same, or they refer to types,
fields or methods that are the same but for the mark of the type. -/
theorem Operand.eq_or_of_unmarked {o p : Operand}
    (h : o.unmarked = p.unmarked) :
    o = p ∨ (∃ s t, o = .type s ∧ p = .type t ∧ s.unmarked = t.unmarked) ∨
      (∃ f g, o = .field (some f) ∧ p = .field (some g)) ∨
      ∃ q r, o = .method (some q) ∧ p = .method (some r) ∧ q.params = r.params ∧
      q.ret = r.ret ∧
        q.hasThis = r.hasThis := by
  unfold unmarked at h
  split at h <;> split at h <;> grind

/-- A type is there if it is there with another mark. -/
theorem TypeRef.isPresent_of_unmarked {s t : TypeRef}
    (h : s.unmarked = t.unmarked) :
    s.isPresent = t.isPresent := by
  cases s <;> cases t <;> first | rfl | cases h

/-- The instruction with its marks is parallel to the one without. -/
theorem Instr.parallel_of_unmarked {o : Operand} (returnsVoid : Bool)
    (h : o.unmarked = i.operand.unmarked) :
    i.Parallel returnsVoid { i with operand := o } := by
  obtain ⟨label, op, p⟩ := i
  rcases Operand.eq_or_of_unmarked h with rfl | ⟨s, t, rfl, rfl, -⟩ | ⟨f, g,
    rfl, rfl⟩ | ⟨q, r, rfl, rfl, hparams, hret, hthis⟩
  case inl => exact .refl _
  case inr.inr.inr =>
    refine ⟨rfl, ?_, rfl, rfl, fun _ => rfl, Iff.rfl, Iff.rfl⟩
    have hcall : StackEffect.ofCall op q = StackEffect.ofCall op r := by
      unfold StackEffect.ofCall MethodRef.returnsVoid
      rw [hparams, hret, hthis]
    simp only [effect?, hcall]
  all_goals exact ⟨rfl, rfl, rfl, rfl, fun _ => rfl, Iff.rfl, Iff.rfl⟩

/-- The instruction fits with its marks. -/
theorem Body.Holds.of_unmarked {o : Operand} {k : Nat} (h : b.Holds k i)
    (ho : o.unmarked = i.operand.unmarked) :
    b.Holds k { i with operand := o } := by
  obtain ⟨hvalid, htakes, harg, hslot, htargets⟩ := holds_iff.1 h
  obtain ⟨label, op, p⟩ := i
  rcases Operand.eq_or_of_unmarked ho with rfl | ⟨s, t, rfl, rfl, hst⟩ | ⟨f, g,
    rfl, rfl⟩ | ⟨q, r, rfl, rfl, -, -, -⟩
  case inl => exact h
  all_goals
    refine holds_iff.2 ⟨hvalid, ?_, harg, hslot, htargets⟩
    dsimp only at htakes ⊢
    cases hkind : op.info.operand <;> simp only [hkind, OperandKind.Takes]
    at htakes ⊢
  · rwa [TypeRef.isPresent_of_unmarked hst]
  · rfl
  · rfl

/-! ## Other operations -/

namespace Body

/-- A variable that code loads is one that it has. -/
theorem Holds.loadedLocal {k : Nat} {l : LocalRef} (h : b.Holds k i)
    (hl : b.loadedLocal? i = some l) : ∃ n < b.locals.length, l = .slot n := by
  have huses : i.op.usesLocal ∧ b.localOf? i = some l := by
    unfold loadedLocal? at hl
    split at hl <;> simp_all [Opcode.usesLocal, isSlotMacro, Opcode.info]
  obtain ⟨n, hlt, hn⟩ := h.exists_localOf huses.1
  exact ⟨n, hlt, Option.some.inj (huses.2.symm.trans hn)⟩

/-- The address of a variable is in shape where the variable is. -/
theorem holds_ldloca {k n : Nat} (hlt : n < b.locals.length) :
    b.Holds k (i.become .ldloca (.slot (.slot n))) := by
  refine holds_iff.2 ⟨rfl, trivial, fun huses => ?_, fun _ => ⟨n, hlt, rfl⟩,
    fun l hl => ?_⟩
  · cases huses
  · cases hl

/-- An initialisation is in shape if its type is there. -/
theorem holds_initobj {k : Nat} {t : TypeRef} (ht : t.isPresent) :
    b.Holds k (i.become .initobj (.type t)) := by
  refine holds_iff.2 ⟨rfl, ht, fun huses => ?_, fun huses => ?_, fun l hl => ?_⟩
  · cases huses
  · cases huses
  · cases hl

end Body

namespace Workspace

/-- An allocation of a closure pushes one value. -/
theorem effect_of_allocated? {t : TypeId} (returnsVoid : Bool)
    (h : V.allocated? u i = some t) :
    i.effect? returnsVoid = some ⟨0, 1⟩ := by
  have hop := op_of_allocated? h
  unfold allocated? at h
  rw [if_pos hop] at h
  obtain ⟨r, hr, h⟩ := Option.bind_eq_some_iff.1 h
  have hparams : r.params = [] := by
    by_contra hne
    simp [hne] at h
  have ho : i.operand = .method (some r) := by
    unfold Instr.method? at hr
    split at hr <;> simp_all
  simp [Instr.effect?, hop, ho, StackEffect.ofCall, hparams]

/-- The code of a conversion has the same effects on the stack. -/
theorem Rewrites.parallel (returnsVoid : Bool) (h : V.Rewrites u b i j) :
    i.Parallel returnsVoid j := by
  cases h with
  | allocation hsite =>
    refine .of_straight rfl (effect_of_allocated? returnsVoid
      hsite.closure).symm ?_ rfl
    rw [op_of_allocated? hsite.closure]
    rfl
  | store hstore =>
    obtain ⟨k, -, hsite, hnext⟩ := hstore
    obtain ⟨j, hj, -, hslot⟩ := hsite.store
    obtain rfl := Option.some.inj (hnext.symm.trans hj)
    have hstored : i.effect? returnsVoid = some ⟨1, 0⟩ ∧ i.op.isStraight := by
      unfold Body.storedLocal? at hslot
      split at hslot <;>
        first
        | cases hslot
        | (simp only [Instr.effect?, *]; exact ⟨rfl, rfl⟩)
    exact .of_straight rfl hstored.1.symm hstored.2 rfl
  | load hl _ =>
    have hloaded : i.effect? returnsVoid = some ⟨0, 1⟩ ∧ i.op.isStraight := by
      unfold Body.loadedLocal? at hl
      split at hl <;>
        first
        | cases hl
        | (simp only [Instr.effect?, *]; exact ⟨rfl, rfl⟩)
    exact .of_straight rfl hloaded.1.symm hloaded.2 rfl
  | other _ _ _ hunmarked _ =>
    exact Instr.parallel_of_unmarked returnsVoid hunmarked

/-- The instructions of a conversion are in shape. -/
theorem Rewrites.holds {k : Nat} (h : V.Rewrites u b i j)
    (hheld : ∀ i ∈ b.code, b.Holds k i) (hi : i ∈ b.code) : b.Holds k j := by
  cases h with
  | allocation hsite =>
    obtain ⟨j, hnext, -, hslot⟩ := hsite.store
    obtain ⟨n, hn, hlt⟩ := (hheld j (Body.mem_of_next? hnext)).storedLocal hslot
    rw [hn]
    exact Body.holds_ldloca hlt
  | store hstore =>
    refine Body.holds_initobj ?_
    simp only [typeRef, typeRefUpTo]
    split <;> rfl
  | load hl _ =>
    obtain ⟨n, hlt, rfl⟩ := (hheld i hi).loadedLocal hl
    exact Body.holds_ldloca hlt
  | other _ _ _ hunmarked _ => exact (hheld i hi).of_unmarked hunmarked

/-- A confined conversion leaves a method that is accepted as before, with the
same heights. -/
theorem Confines.validate {w : Workspace} {name : String}
    (h : V.Confines u m b b' w)
    (hvalid : (V.method m).validate name b = .ok ()) :
    (w.method m).validate name b' = .ok () ∧ b.Parallel (V.method m).returnsVoid
      b' := by
  have hparallel : b.Parallel (V.method m).returnsVoid b' :=
    h.code.imp fun _ _ hij => hij.parallel _
  have hheld :=
    (Body.checkShapes_eq_ok_iff.1 (MethodDef.validate_eq_ok_iff.1 hvalid).1).2.1
  have hlocals : b'.locals.length = b.locals.length := by
    -- a variable is there iff it is there with its mark
    have hnone : ∀ n : Nat, b'.locals.length ≤ n ↔ b.locals.length ≤ n := by
      intro n
      rw [← List.getElem?_eq_none_iff, ← List.getElem?_eq_none_iff]
      by_cases hn : V.StoredIn u b (.slot n)
      · rw [h.stored n hn, Option.map_eq_none_iff]
      · rw [h.unstored n hn]
    exact Nat.le_antisymm ((hnone _).2 (Nat.le_refl _))
      ((hnone _).1 (Nat.le_refl _))
  have hheld' : ∀ j ∈ b'.code, b'.Holds (V.method m).argCount j := by
    intro j hj
    obtain ⟨n, hn⟩ := List.mem_iff_getElem?.1 hj
    obtain ⟨i, hi, -⟩ := hparallel.symm.get hn
    obtain ⟨hlt, rfl⟩ := List.getElem?_eq_some_iff.1 hi
    obtain ⟨hlt', rfl⟩ := List.getElem?_eq_some_iff.1 hn
    have hholds := (List.Forall₂.get h.code hlt hlt').holds hheld
      (List.getElem_mem hlt)
    exact hholds.congr hlocals hparallel.contains
  have hvalid' := MethodDef.validate_of_parallel hvalid hparallel hheld'
    h.points
  rw [h.method]
  exact ⟨hvalid', hparallel⟩

end Workspace

namespace Weave

variable {w : World}

/-- The conversion of the closures of an accepted method changes nothing if it
fails.  If it succeeds, the method is accepted as before, and every instruction
is reached with the same heights of the stack as the one that was in its
place. -/
theorem convertClosures_neutral {name : String}
    (hb : (w.workspace.method m).body = some b)
    (hvalid : (w.workspace.method m).validate name b = .ok ()) :
    (∀ f w', convertClosures m w = .error (.failed f) w' →
      w'.workspace = w.workspace) ∧
    ∀ w', convertClosures m w = .ok () w' →
      ∃ b', (w'.workspace.method m).body = some b' ∧
        (w'.workspace.method m).validate name b' = .ok () ∧
        b'.code.map (·.label) = b.code.map (·.label) ∧
        ∀ n h, b'.Reach (w'.workspace.method m).returnsVoid n h ↔
          b.Reach (w.workspace.method m).returnsVoid n h := by
  have hends := convertClosures_ends_confined hb
    (MethodDef.validate_eq_ok_iff.1 hvalid).1
  constructor
  · intro f w' hrun
    rw [Ends, hrun] at hends
    exact hends f rfl
  · intro w' hrun
    rw [Ends, hrun] at hends
    obtain ⟨b', hconfines⟩ := hends
    obtain ⟨hvalid', hparallel⟩ := hconfines.validate hvalid
    refine ⟨b', ?_, hvalid', hparallel.labels, fun n h => ?_⟩
    · rw [hconfines.method]
    · rw [hconfines.method]
      exact hparallel.reach_iff

/-- A closure is made, stored and loaded; the heights are the same in place. -/
theorem tick_neutral :
    let w := (World.ofModules
      [Sample.tickModule TypeName.systemBase Sample.scheduleSteps]).1
    let b := Sample.codeOf Sample.scheduleSteps [⟨Sample.tickClosure, ""⟩]
    (w.workspace.method ⟨0⟩).validate "OnUpdate" b = .ok () ∧
      ∃ w' b', convertClosures ⟨0⟩ w = .ok () w' ∧
      (w'.workspace.method ⟨0⟩).body = some b' ∧
        (w'.workspace.method ⟨0⟩).validate "OnUpdate" b' = .ok () ∧
        ∀ n h, b'.Reach (w'.workspace.method ⟨0⟩).returnsVoid n h ↔
          b.Reach (w.workspace.method ⟨0⟩).returnsVoid n h := by
  intro w b
  have hvalid : (w.workspace.method ⟨0⟩).validate "OnUpdate" b = .ok () := by
    decide +kernel
  have hrun : delivers (convertClosures ⟨0⟩) w (fun _ _ => true) = true := by
    decide +kernel
  obtain ⟨_, w', hconvert, -⟩ := exists_of_delivers hrun
  obtain ⟨b', hb', hvalid', -, hreach⟩ :=
    (convertClosures_neutral (m := ⟨0⟩) (b := b) rfl hvalid).2 w' hconvert
  exact ⟨hvalid, w', b', hconvert, hb', hvalid', hreach⟩

end Weave

end JobWeave
