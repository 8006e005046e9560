import Mathlib
import JobWeave.Proofs.Splice.Conversion
import JobWeave.Sample.Tick
import JobWeave.Workspace.World

/-!
# Which conversions succeed

The closures of a method are converted if the method stores each one that it
allocates to a local variable right away.  An allocation that is not stored is
reported as an internal error, and the check before the conversion lets it pass:
the check looks at local variables and at delegates, so an allocation that no
variable gets is none of its business.

* `Workspace.StoresAllocations` says that every allocation is stored.
* `Operand.hasName` says that what an operand refers to can be named.
* `Weave.convertClosures_exact`: in valid code the conversion succeeds just if
  all allocations are stored; otherwise it changes nothing.
* `Weave.canConvertClosures_discarded`: the check passes, and the conversion
  fails.
-/

namespace JobWeave

open Framework Std.Do

set_option mvcgen.warning false

variable {V : Workspace} {u : Universe} {m : MethodId} {b : Body} {i : Instr}
  {w : World}

/-! ## Stored allocations -/

namespace Workspace

/-- If an instruction allocates a closure, the one after it stores to a local
variable. -/
def StoresAllocation (V : Workspace) (u : Universe) (b : Body)
    (i : Instr) : Prop :=
  V.allocated? u i ≠ none → ((b.next? i.label).bind b.storedLocal?).isSome

/-- So it is for every instruction. -/
def StoresAllocations (V : Workspace) (u : Universe) (b : Body) : Prop :=
  ∀ i ∈ b.code, V.StoresAllocation u b i

/-- The allocation and the store are those of an instruction. -/
structure IsSite (V : Workspace) (u : Universe) (b : Body) (i : Instr)
    (s : AllocationSite) : Prop where
  /-- the allocation -/
  alloc : s.alloc = i.label
  /-- the closure -/
  closure : V.allocated? u i = some s.closure
  /-- the store -/
  store : ∃ j, b.next? i.label = some j ∧ j.label = s.store ∧
    b.storedLocal? j = some s.slot

/-- What is found at an instruction: a site, if it allocates a closure. -/
def Finds (V : Workspace) (u : Universe) (b : Body) (i : Instr)
    (o : Option AllocationSite) : Prop :=
  o = none ∧ V.allocated? u i = none ∨ ∃ s, o = some s ∧ V.IsSite u b i s

/-- The sites of the allocations in some code. -/
structure AreSites (V : Workspace) (u : Universe) (b : Body)
    (ss : List AllocationSite) : Prop where
  /-- each belongs to an instruction -/
  sound : ∀ s ∈ ss, ∃ i ∈ b.code, V.IsSite u b i s
  /-- each allocation has one -/
  complete : ∀ i ∈ b.code, V.allocated? u i ≠ none → ∃ s ∈ ss, V.IsSite u b i s

theorem AreSites.of_finds {os : List (Option AllocationSite)}
    (h : List.Forall₂ (V.Finds u b) b.code os) :
    V.AreSites u b (os.filterMap id) := by
  have hmem : ∀ {code : List Instr} {os : List (Option AllocationSite)},
      List.Forall₂ (V.Finds u b) code os →
      (∀ o ∈ os, ∃ i ∈ code, V.Finds u b i o) ∧ ∀ i ∈ code, ∃ o ∈ os,
      V.Finds u b i o := by
    intro code os h
    induction h with
    | nil => simp
    | cons ho _ ih => grind
  constructor
  · intro s hs
    obtain ⟨o, ho, rfl⟩ := List.mem_filterMap.1 hs
    obtain ⟨i, hi, ⟨⟨⟩, -⟩ | ⟨s', ⟨⟩, hsite⟩⟩ := (hmem h).1 _ ho
    exact ⟨i, hi, hsite⟩
  · intro i hi hallocated
    obtain ⟨o, ho, ⟨-, hnone⟩ | ⟨s, rfl, hsite⟩⟩ := (hmem h).2 i hi
    · exact absurd hnone hallocated
    · exact ⟨s, List.mem_filterMap.2 ⟨_, ho, rfl⟩, hsite⟩

/-- Where every allocation has a site, it is stored. -/
theorem AreSites.stores {ss : List AllocationSite} (h : V.AreSites u b ss) :
    V.StoresAllocations u b := by
  intro i hi hallocated
  obtain ⟨s, -, hs⟩ := h.complete i hi hallocated
  obtain ⟨j, hnext, -, hslot⟩ := hs.store
  simp [hnext, hslot]

end Workspace

/-- The diagnostic for an allocation that is not stored. -/
def Stop.IsUnstored (e : Stop) : Prop :=
  ∃ d, e = .failed (.note d) ∧ d.code = .dcice006

/-- The work stops with the diagnostic for an allocation that is not stored. -/
def stopsUnstored {σ α : Type} (act : EStateM Stop σ α) (s : σ) : Bool :=
  match act s with
  | .error (.failed (.note d)) _ => d.code == .dcice006
  | _ => false

theorem exists_of_stopsUnstored {σ α : Type} {act : EStateM Stop σ α} {s : σ}
    (h : stopsUnstored act s = true) :
    ∃ e s', act s = .error e s' ∧ e.IsUnstored := by
  unfold stopsUnstored at h
  split at h
  · exact ⟨_, _, ‹_›, _, rfl, eq_of_beq h⟩
  · cases h

/-- The instruction after another one is in the code. -/
theorem Body.mem_of_next? {l : Label} (h : b.next? l = some i) :
    i ∈ b.code := by
  obtain ⟨n, -, hn⟩ := Option.bind_eq_some_iff.1 h
  exact List.mem_of_getElem? hn

/-- A variable that code stores to is one that it has. -/
theorem Body.Holds.storedLocal {l : LocalRef} {k : Nat} (h : b.Holds k i)
    (hl : b.storedLocal? i = some l) :
    ∃ n, l = .slot n ∧ n < b.locals.length := by
  have hslot : ∀ n, b.slot? n = some l → ∃ n, l = .slot n ∧
      n < b.locals.length := by
    intro n hn
    unfold slot? at hn
    split at hn
    · exact ⟨n, (Option.some.inj hn).symm, ‹_›⟩
    · cases hn
  have hop := h.operand
  unfold storedLocal? at hl
  unfold checkOperand at hop
  split at hl
  case h_5 | h_6 =>
    -- the slot is the operand
    rename_i hi
    simp only [localOf?, hi] at hl
    cases ho : i.operand <;> simp only [ho, reduceCtorEq] at hl
    rename_i r
    cases hl
    simp only [hi, ho, Opcode.info] at hop
    cases l with
    | slot n =>
      refine ⟨n, rfl, ?_⟩
      by_contra hn
      simp [hn] at hop
    | foreign => cases hop
  case h_7 => cases hl
  all_goals
    rename_i hi
    simp only [localOf?, hi] at hl
    exact hslot _ hl

/-- An allocation names a constructor. -/
theorem Body.Holds.method? {k : Nat} (h : b.Holds k i) (hop : i.op = .newobj) :
    i.method?.join.isSome := by
  have hoperand := h.operand
  unfold checkOperand at hoperand
  simp only [hop, Opcode.info] at hoperand
  cases ho : i.operand with
  | method r => cases r <;> simp_all [Instr.method?]
  | _ => simp_all

/-- What an operand refers to has a name. -/
def Operand.hasName : Operand → Bool
  | .type t => t.fullName?.isSome
  | .field f => f.any (·.owner.fullName?.isSome)
  | .method r => r.any (·.owner.fullName?.isSome)
  | _ => true

/-- What has a name can be marked as a value type. -/
theorem Operand.isOk_markValueTypes (names : List String) {o : Operand}
    (h : o.hasName) :
    (o.markValueTypes names).isOk := by
  have hmark : ∀ t : TypeRef, t.fullName?.isSome → ∃ t',
      markValueTypes.mark names t = .ok t' := by
    intro t ht
    obtain ⟨name, hname⟩ := Option.isSome_iff_exists.1 ht
    unfold markValueTypes.mark
    split
    · exact ⟨_, rfl⟩
    · rw [hname]
      exact ⟨_, rfl⟩
  have hbind : ∀ {α : Type} {x : Outcome TypeRef} (f : TypeRef → α),
    (∃ t, x = .ok t) →
      (do return f (← x) : Outcome α).isOk := by
    rintro α _ f ⟨t, rfl⟩
    rfl
  cases o with
  | type t => exact hbind _ (hmark t h)
  | field f =>
    cases f with
    | none => cases h
    | some f => exact hbind _ (hmark f.owner h)
  | method r =>
    cases r with
    | none => cases h
    | some r => exact hbind _ (hmark r.owner h)
  | _ => rfl

/-- Converting the sites leaves the variables and the source positions. -/
theorem Body.foldl_setAt_frame (sites : List (AllocationSite × TypeRef))
    (b : Body) :
    let b' := sites.foldl (fun b x =>
      (b.setAt x.1.alloc .ldloca (.slot x.1.slot)).setAt
      x.1.store .initobj (.type x.2)) b
    b'.locals = b.locals ∧ b'.points = b.points := by
  induction sites generalizing b with
  | nil => exact ⟨rfl, rfl⟩
  | cons s sites ih => exact ih _

/-- A reference to a definition has a name. -/
theorem Workspace.isSome_fullName?_typeRef (w : Workspace) (t : TypeId) :
    (w.typeRef t).asValueType.fullName?.isSome := by
  simp only [typeRef, typeRefUpTo]
  split <;> rfl

namespace Weave

/-! ## Finding the allocations -/

/-- A closure class is looked up without stopping. -/
theorem closureClass?_shows {r : TypeRef} :
    ⦃fun w => ⌜w.Shows V u⌝⦄ closureClass? r
      ⦃⇓ o w => ⌜w.Shows V u ∧ o = V.closure? u r⌝⦄ := by
  have hresolver := resolver_shows (V := V) (u := u)
  mvcgen [closureClass?, resolveType, hresolver, -closureClass?_keeps,
    -resolver_keeps]
  all_goals grind [World.Shows, Workspace.closure?, TypeHead.isClosure]


/-- Refusing stops with the diagnostic, and changes nothing. -/
theorem refuse_unstored {l : Option Label} {a : List Text.Arg} :
    ⦃fun w => ⌜w.Shows V u⌝⦄
      (refuse .dcice006 m l a : Weave (Option AllocationSite))
      ⦃post⟨fun _ _ => ⌜False⌝, fun e w => ⌜w.Shows V u ∧ e.IsUnstored⌝⟩⦄ :=
  triple_iff.2 fun _ hw => ⟨hw, _, rfl, rfl⟩

theorem allocationAt_shows (hi : i.op = .newobj → i.method?.join.isSome) :
    ⦃fun w => ⌜w.Shows V u⌝⦄ allocationAt m b i
      ⦃post⟨fun o w => ⌜w.Shows V u ∧ V.Finds u b i o⌝,
        fun e w => ⌜w.Shows V u ∧ ¬ V.StoresAllocation u b i ∧
        e.IsUnstored⌝⟩⦄ := by
  have hclosure := fun r => closureClass?_shows (V := V) (u := u) (r := r)
  have hrefuse := fun l a => refuse_unstored (V := V) (u := u) (m := m) (l := l)
    (a := a)
  mvcgen [allocationAt, hclosure, hrefuse, -allocationAt_keeps,
    -closureClass?_keeps, -refuse_gives]
  case vc9 =>
    rename_i r hr _ closure hparams _ next hnext slot hslot _ hw
    have hallocated : V.allocated? u i = some closure := by
      simp_all [Workspace.allocated?]
    exact ⟨hw.1, .inr ⟨_, rfl, rfl, hallocated, next, hnext, rfl, hslot⟩⟩
  -- an instruction that makes something else
  case vc10 =>
    rename_i o _ _ _ _ _ _
    cases o <;> grind -ring -linarith [Workspace.Finds, Workspace.allocated?]
  all_goals grind -ring -linarith [Workspace.Finds, Workspace.StoresAllocation,
    Workspace.allocated?]

/-- The allocations in code that has all operands. -/
theorem allocationSites_shows
    (hcode : ∀ i ∈ b.code, i.op = .newobj → i.method?.join.isSome) :
    ⦃fun w => ⌜w.Shows V u⌝⦄ allocationSites m b
      ⦃post⟨fun ss w => ⌜w.Shows V u ∧ V.AreSites u b ss⌝,
        fun e w => ⌜w.Shows V u ∧ ¬ V.StoresAllocations u b ∧
        e.IsUnstored⌝⟩⦄ := by
  have hsites : ⦃fun w => ⌜w.Shows V u⌝⦄ b.code.mapM (allocationAt m b)
      ⦃post⟨fun os w => ⌜w.Shows V u ∧ List.Forall₂ (V.Finds u b) b.code os⌝,
        fun e w => ⌜w.Shows V u ∧ ¬ V.StoresAllocations u b ∧
        e.IsUnstored⌝⟩⦄ := by
    refine mapM_inv fun i hi => Ends.triple fun w hw =>
      (Ends.of_triple (allocationAt_shows (m := m) (hcode i hi)) hw).imp
        (fun _ _ => id) ?_
    rintro e w' ⟨hw', hstores, he⟩
    exact ⟨hw', fun h => hstores (h i hi), he⟩
  mvcgen [allocationSites, hsites, -allocationSites_keeps, -allocationAt_keeps,
    -mapM_keeps]
  rename_i hos
  exact ⟨hos.1, Workspace.AreSites.of_finds hos.2⟩

/-! ## Marking what is named -/

/-- A change of some instructions leaves what is true of all operands. -/
theorem forall_operand_setAt {P : Operand → Prop} {l : Label} {op : Opcode}
    {o : Operand} (hcode : ∀ i ∈ b.code, P i.operand) (ho : P o) :
    ∀ i ∈ (b.setAt l op o).code, P i.operand := by
  intro i hi
  obtain ⟨j, hj, rfl⟩ := List.mem_map.1 hi
  dsimp only
  split
  · exact ho
  · exact hcode j hj

theorem hasName_convertCode {sites : List (AllocationSite × TypeRef)}
    (hcode : ∀ i ∈ b.code, i.operand.hasName)
    (hsites : ∀ s ∈ sites, s.2.fullName?.isSome) :
    ∀ i ∈ (convertCode b sites).code, i.operand.hasName := by
  have hfold : ∀ (sites : List (AllocationSite × TypeRef)) (b : Body),
      (∀ s ∈ sites, s.2.fullName?.isSome) → (∀ i ∈ b.code, i.operand.hasName) →
      ∀ i ∈ (sites.foldl (fun b x =>
        (b.setAt x.1.alloc .ldloca (.slot x.1.slot)).setAt x.1.store
        .initobj (.type x.2)) b).code, i.operand.hasName := by
    intro sites
    induction sites with
    | nil => exact fun b _ hb => hb
    | cons s sites ih =>
      intro b hsites hb
      obtain ⟨hs, hsites⟩ := List.forall_mem_cons.1 hsites
      exact ih _ hsites (forall_operand_setAt (P := fun o => o.hasName)
        (forall_operand_setAt (P := fun o => o.hasName) hb rfl) hs)
  intro i hi
  obtain ⟨j, hj, rfl⟩ := List.mem_map.1 hi
  have hj := hfold sites b hsites hcode j hj
  dsimp only
  split
  · split
    · rfl
    · exact hj
  · exact hj

/-- Converting code leaves its variables and its source positions. -/
theorem convertCode_frame (sites : List (AllocationSite × TypeRef)) (b : Body) :
    (convertCode b sites).locals = b.locals ∧
      (convertCode b sites).points = b.points :=
  Body.foldl_setAt_frame sites b

theorem localType_convertCode (sites : List (AllocationSite × TypeRef))
    (l : LocalRef) :
    (convertCode b sites).localType l = b.localType l := by
  cases l <;> simp only [Body.localType, (convertCode_frame sites b).1]

/-- Every reference is marked, if all can be. -/
theorem length_reached {names : List String} {code : List Instr}
    (hcode : ∀ i ∈ code, i.operand.hasName) :
    (((code.map fun i => i.operand.markValueTypes names).takeWhile
      (·.isOk)).filterMap (·.toOption)).length = code.length := by
  induction code with
  | nil => rfl
  | cons i code ih =>
    obtain ⟨hi, hcode⟩ := List.forall_mem_cons.1 hcode
    have hok := Operand.isOk_markValueTypes names hi
    cases hmark : i.operand.markValueTypes names with
    | error e => simp [hmark, Except.isOk, Except.toBool] at hok
    | ok o =>
      simpa [hmark, Except.isOk, Except.toBool, Except.toOption] using ih hcode

variable {w : World} {d : MethodDef}

/-- References in code where everything has a name are marked without
stopping. -/
theorem markReferences_succeeds {names : List String}
    (hcode : ∀ i ∈ b.code, i.operand.hasName) :
    Ends (markReferences m b names) w (fun _ _ => True) fun _ _ => False := by
  unfold markReferences
  refine Ends.bind (Ends.of_run rfl ?_)
  have hrefl : ∀ V : Workspace, V.Converts [] V :=
    fun _ => Workspace.Converts.refl _
  refine Ends.bind ((shareMarks_ends (hrefl _) rfl).imp ?_ fun _ _ => id)
  rintro - w' -
  rw [if_neg]
  · exact Ends.of_run rfl trivial
  · simp [length_reached hcode]

/-- Allocations that are stored are converted without stopping. -/
theorem convertSites_succeeds {sites : List AllocationSite}
    (hcode : ∀ i ∈ b.code, i.operand.hasName)
    (hsites : ∀ s ∈ sites, (b.localType s.slot).isPresent) :
    Ends (convertSites m b sites) w (fun _ _ => True) fun _ _ => False := by
  have htyped : ∀ s : AllocationSite,
      (do return (s, (← typeRef s.closure).asValueType) : Weave
        (AllocationSite × TypeRef)) w =
          .ok (s, (w.workspace.typeRef s.closure).asValueType) w := fun _ => rfl
  unfold convertSites
  refine Ends.bind (Ends.of_run (mapM_run htyped sites) ?_)
  refine Ends.bind (Ends.of_run rfl ?_)
  dsimp only
  rw [if_neg (by simpa [localType_convertCode, TypeRef.isPresent] using hsites)]
  refine Ends.bind (Ends.of_run rfl ?_)
  refine Ends.bind (Ends.of_run rfl ?_)
  refine Ends.bind ((forM_makeValueType_ends _ (Workspace.Converts.refl _)).imp
    ?_ fun _ _ => id)
  rintro - w₁ -
  have hnames : ∀ t, typeName t w₁ = .ok (w₁.workspace.typeName t) w₁ :=
    fun _ => rfl
  refine Ends.bind (Ends.of_run (mapM_run hnames _) ?_)
  refine markReferences_succeeds (hasName_convertCode hcode ?_)
  intro s hs
  obtain ⟨s, -, rfl⟩ := List.mem_map.1 hs
  exact Workspace.isSome_fullName?_typeRef _ _

/-! ## When the conversion succeeds -/

/-- In code that passes the shape checks, and in which what is referred to has a
name, the closures are converted if every allocation is stored.  Otherwise the
conversion stops with the diagnostic for an allocation that is not stored, and
leaves the definitions as they were. -/
theorem convertClosures_exact {k : Nat}
    (hb : (w.workspace.method m).body = some b)
    (hshape : b.checkShapes k = .ok ())
    (hnames : ∀ i ∈ b.code, i.operand.hasName)
    (htypes : ∀ l ∈ b.locals, l.type.isPresent) :
    (w.workspace.StoresAllocations (w.resolver.refresh w.workspace) b →
      ∃ w', convertClosures m w = .ok () w') ∧
    (¬ w.workspace.StoresAllocations (w.resolver.refresh w.workspace) b →
      ∃ e w', convertClosures m w = .error e w' ∧ e.IsUnstored ∧
        w'.workspace = w.workspace) := by
  have hheld := (Body.checkShapes_eq_ok_iff.1 hshape).2.1
  have hbody : bodyOf m w = .ok b w := by
    change (need (w.workspace.method m).body : Weave Body) w = _
    rw [hb]
    rfl
  have hends : Ends (convertClosures m) w
      (fun _ _ => w.workspace.StoresAllocations
        (w.resolver.refresh w.workspace) b)
      (fun e w' => ¬ w.workspace.StoresAllocations
        (w.resolver.refresh w.workspace) b ∧ e.IsUnstored ∧
        w'.workspace = w.workspace) := by
    unfold convertClosures
    refine Ends.bind (Ends.of_run hbody (Ends.bind ((Ends.of_triple
      (allocationSites_shows fun i hi => (hheld i hi).method?) ⟨rfl, rfl⟩).imp
        ?_ ?_)))
    · rintro sites w₁ ⟨-, hsites⟩
      refine (convertSites_succeeds hnames fun s hs => ?_).imp
        (fun _ _ _ => hsites.stores) fun _ _ => False.elim
      obtain ⟨i, -, hsite⟩ := hsites.sound s hs
      obtain ⟨j, hnext, -, hslot⟩ := hsite.store
      obtain ⟨n, hn, hlt⟩ := (hheld j (Body.mem_of_next? hnext)).storedLocal
        hslot
      rw [hn]
      simpa [Body.localType, hlt] using htypes _ (List.getElem_mem hlt)
    · rintro e w₁ ⟨hw₁, hstores, he⟩
      exact ⟨hstores, he, hw₁.workspace⟩
  unfold Ends at hends
  cases hrun : convertClosures m w with
  | ok a w' =>
    rw [hrun] at hends
    exact ⟨fun _ => ⟨w', rfl⟩, fun h => absurd hends h⟩
  | error e w' =>
    rw [hrun] at hends
    exact ⟨fun h => absurd h hends.1, fun _ => ⟨e, w', rfl, hends.2⟩⟩

/-- A closure is made and stored. -/
theorem convertClosures_stored :
    let w := (World.ofModules
      [Sample.tickModule TypeName.systemBase Sample.scheduleSteps]).1
    let b := Sample.codeOf Sample.scheduleSteps [⟨Sample.tickClosure, ""⟩]
    w.workspace.StoresAllocations (w.resolver.refresh w.workspace) b ∧
      ∃ w', convertClosures ⟨0⟩ w = .ok () w' := by
  intro w b
  have hexact := convertClosures_exact (m := ⟨0⟩) (w := w) (b := b) (k := 1) rfl
    (by decide) (by decide) (by decide)
  have hstores : w.workspace.StoresAllocations (w.resolver.refresh w.workspace)
      b := by
    unfold Workspace.StoresAllocations Workspace.StoresAllocation
    decide +kernel
  exact ⟨hstores, hexact.1 hstores⟩

/-- A closure is made and dropped.  The check sees no variable and no delegate
that stand in the way, and the conversion stops. -/
theorem canConvertClosures_discarded :
    let ctor : MethodRef :=
      { owner := Sample.tickClosure, name := ".ctor", ret := .void,
        hasThis := true }
    let w := (World.ofModules [Sample.tickModule TypeName.systemBase
      [Step.newobj ctor, Step.pop, Step.ret]]).1
    ∃ w₁ w₂ e w', chainsIn ⟨0⟩ w = .ok [] w₁ ∧ canConvertClosures ⟨0⟩ [] w₁ =
      .ok true w₂ ∧ convertClosures ⟨0⟩ w₂ = .error e w' ∧ e.IsUnstored := by
  intro ctor w
  have hrun : delivers (chainsIn ⟨0⟩) w (fun found w₁ => found.isEmpty &&
      delivers (canConvertClosures ⟨0⟩ []) w₁ fun ok w₂ =>
        ok && stopsUnstored (convertClosures ⟨0⟩) w₂) = true := by
    decide +kernel
  obtain ⟨found, w₁, hfound, hrun⟩ := exists_of_delivers hrun
  rw [Bool.and_eq_true, List.isEmpty_iff] at hrun
  obtain ⟨rfl, hrun⟩ := hrun
  obtain ⟨ok, w₂, hcan, hrun⟩ := exists_of_delivers hrun
  rw [Bool.and_eq_true] at hrun
  obtain ⟨rfl, hrun⟩ := hrun
  obtain ⟨e, w', hconvert, he⟩ := exists_of_stopsUnstored hrun
  exact ⟨w₁, w₂, e, w', hfound, hcan, hconvert, he⟩

end Weave

end JobWeave
