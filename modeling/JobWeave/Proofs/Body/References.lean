import Mathlib
import JobWeave.Plan.Components
import JobWeave.Proofs.Body.Stores

/-!
# The methods that code refers to

Copied code is edited three times: calls of copied methods are pointed at the
copies, component accessors become look-ups of the job, and accesses to captured
variables become accesses to its fields.  Here it is proved what each of these
edits makes of the method operands.

* `Body.references` lists the method operands of some code, each with its label
  and operation.
* `Body.Serves` relates code before and after one accessor is served, and
  `Body.ServesAll` after several are; `Body.RedirectsAll` does so for captured
  variables.
* `Body.ServesAll.references` and `Body.RedirectsAll.references` say which
  operands change.
-/

namespace JobWeave

/-- A method operand of some code. -/
structure Reference where
  /-- the instruction -/
  label : Label
  /-- its operation -/
  op : Opcode
  /-- the method -/
  target : MethodRef

/-- The method operand of an instruction. -/
def Instr.reference? (i : Instr) : Option Reference :=
  i.method?.join.map fun r => ⟨i.label, i.op, r⟩

theorem Instr.reference?_eq_some {i : Instr} {x : Reference} :
    i.reference? = some x ↔
      i.label = x.label ∧ i.op = x.op ∧
      i.operand = .method (some x.target) := by
  obtain ⟨l, op, r⟩ := x
  obtain ⟨l', op', o⟩ := i
  unfold reference? method?
  cases o <;> simp [Option.join, and_comm, and_assoc]

/-- An instruction with another kind of operand refers to no method. -/
theorem Instr.reference?_eq_none {i : Instr}
    (h : ∀ r, i.operand ≠ .method (some r)) :
    i.reference? = none := by
  by_contra hc
  obtain ⟨x, hx⟩ := Option.ne_none_iff_exists'.1 hc
  exact h _ (reference?_eq_some.1 hx).2.2

theorem Instr.operand_of_field? {i : Instr} {f : FieldRef}
    (h : i.field?.join = some f) : i.operand = .field (some f) := by
  unfold field? at h
  split at h
  · rename_i g hg
    rw [hg, show g = some f from h]
  · cases h

/-- The instruction loads a field or its address. -/
def Instr.LoadsField (i : Instr) : Prop :=
  (i.op = .ldfld ∨ i.op = .ldflda) ∧ ∃ f, i.operand = .field f

/-- The operand is that of a call of a component accessor. -/
def Reference.isAccessor (x : Reference) : Bool :=
  (x.op == .call || x.op == .callvirt) && x.target.isComponentAccessor

/-- The instruction calls a component accessor. -/
def Instr.callsAccessor (i : Instr) : Bool :=
  i.reference?.any Reference.isAccessor

theorem Instr.exists_of_callsAccessor {i : Instr} (h : i.callsAccessor) :
    ∃ x, i.reference? = some x := by
  unfold callsAccessor at h
  cases hi : i.reference? with
  | none => simp [hi] at h
  | some x => exact ⟨x, rfl⟩

theorem Instr.callsAccessor_of_invokes {i : Instr} {r : MethodRef}
    (h : i.invokes? = some (some r)) :
    i.callsAccessor = r.isComponentAccessor := by
  unfold invokes? at h
  split at h
  · rename_i hop
    simp [callsAccessor, reference?, Reference.isAccessor, h, hop]
  · cases h

theorem Instr.callsAccessor_of_not_invokes {i : Instr} (h : i.invokes? = none) :
    i.callsAccessor = false := by
  unfold invokes? at h
  split at h
  · simp [callsAccessor, reference?, h]
  · rename_i hop
    cases hm : i.method? with
    | none => simp [callsAccessor, reference?, hm]
    | some m =>
      cases m <;> simp_all [callsAccessor, reference?, Reference.isAccessor]

/-- The reference with another method that is called, if it is at the label. -/
def Reference.callAt (l : Label) (r : MethodRef) (x : Reference) : Reference :=
  if x.label = l then { label := l, op := .call, target := r } else x

/-- What becomes of a reference when those in the list are served. -/
inductive Reference.Served (T : MethodRef → MethodRef → Prop)
    (xs : List Reference) (y : Reference) : Reference → Prop
  | kept (h : y ∉ xs) : Served T xs y y
  | served {r : MethodRef} (h : y ∈ xs) (ht : T y.target r) :
    Served T xs y { label := y.label, op := .call, target := r }

theorem Reference.Served.eq_self {T : MethodRef → MethodRef → Prop}
    {xs : List Reference} {y z : Reference} (h : y.Served T xs z)
    (hy : y ∉ xs) : z = y := by
  cases h with
  | kept => rfl
  | served h => exact absurd h hy

/-- A reference that is not served stays. -/
theorem Reference.Served.mem {T : MethodRef → MethodRef → Prop}
    {xs ys zs : List Reference} {y : Reference}
    (h : List.Forall₂ (Reference.Served T xs) ys zs) (hy : y ∈ ys)
    (hnew : y ∉ xs) : y ∈ zs := by
  obtain ⟨n, hn, rfl⟩ := List.getElem_of_mem hy
  exact List.mem_of_getElem ((h.get hn (h.length_eq ▸ hn)).eq_self hnew)

namespace Body

variable {b b' b₁ b₂ : Body} {l : Label} {x y : Reference}

/-- The method operands of the code in order. -/
def references (b : Body) : List Reference :=
  b.code.filterMap Instr.reference?

theorem mem_references :
    x ∈ b.references ↔ ∃ i ∈ b.code, i.reference? = some x :=
  List.mem_filterMap

/-- No instruction at the label refers to a method. -/
def Unreferenced (b : Body) (l : Label) : Prop :=
  ∀ x ∈ b.references, x.label ≠ l

/-- The labels are in use, and every instruction has one of its own. -/
structure IsTidy (b : Body) : Prop where
  /-- the labels are in use -/
  labelled : b.Labelled
  /-- they are distinct -/
  ownLabels : b.HasOwnLabels

theorem Spares.isTidy (h : b.Spares b') (hb : b.IsTidy) : b'.IsTidy :=
  ⟨h.labelled hb.labelled, h.ownLabels hb.labelled hb.ownLabels⟩

/-- The instruction at the label of a reference has it. -/
theorem IsTidy.get_reference (hb : b.IsTidy) (hx : x ∈ b.references) :
    (b.get x.label).reference? = some x := by
  obtain ⟨i, hi, hix⟩ := mem_references.1 hx
  rw [← (Instr.reference?_eq_some.1 hix).1, hb.ownLabels.get_eq hi]
  exact hix

theorem IsTidy.reference_eq (hb : b.IsTidy) (hx : x ∈ b.references)
    (hy : y ∈ b.references) (h : x.label = y.label) : x = y :=
  Option.some.inj ((hb.get_reference hx).symm.trans (h ▸ hb.get_reference hy))

theorem IsTidy.nodup_references (hb : b.IsTidy) : b.references.Nodup := by
  refine List.Nodup.filterMap (fun i j x hi hj => ?_)
    (List.Nodup.of_map _ hb.ownLabels)
  obtain ⟨hl, hop, ho⟩ := Instr.reference?_eq_some.1 hi
  obtain ⟨hl', hop', ho'⟩ := Instr.reference?_eq_some.1 hj
  cases i
  cases j
  simp_all

/-- The calls of accessors are those whose references are. -/
theorem filterMap_callsAccessor (b : Body) :
    (b.code.filter Instr.callsAccessor).filterMap Instr.reference? =
      b.references.filter Reference.isAccessor := by
  rw [references, List.filterMap_filter, List.filter_filterMap]
  refine List.filterMap_congr fun i _ => ?_
  cases hi : i.reference? with
  | none => simp [Instr.callsAccessor, hi]
  | some x => simp [Instr.callsAccessor, hi, Option.filter]

/-- An instruction with another kind of operand is no reference. -/
theorem IsTidy.unreferenced (hb : b.IsTidy)
    (h : ∀ r, (b.get l).operand ≠ .method (some r)) :
    b.Unreferenced l := by
  rintro x hx rfl
  exact h _ (Instr.reference?_eq_some.1 (hb.get_reference hx)).2.2

theorem IsTidy.unreferenced_of_field (hb : b.IsTidy) {f : Option FieldRef}
    (h : (b.get l).operand = .field f) : b.Unreferenced l :=
  hb.unreferenced fun r hr => by simp [h] at hr

/-! ## Edits of one instruction -/

/-- An instruction that refers to no method is changed to another such one. -/
theorem references_update {f : Instr → Instr} (hl : b.Unreferenced l)
    (hf : ∀ i, (f i).reference? = none) :
    (b.update l f).references = b.references := by
  rw [references, update, List.filterMap_map]
  refine List.filterMap_congr fun i hi => ?_
  rw [Function.comp_apply]
  split
  · rename_i hil
    rw [hf, eq_comm]
    by_contra hc
    obtain ⟨x, hx⟩ := Option.ne_none_iff_exists'.1 hc
    exact hl x (mem_references.2 ⟨i, hi, hx⟩)
      ((Instr.reference?_eq_some.1 hx).1.symm.trans (beq_iff_eq.1 hil))
  · rfl

theorem references_idleAll {ls : List Label} (h : ∀ l ∈ ls, b.Unreferenced l) :
    (ls.foldl idleAt b).references = b.references := by
  induction ls generalizing b with
  | nil => rfl
  | cons l ls ih =>
    have hidle : (b.idleAt l).references = b.references :=
      references_update (h l (by simp)) fun i => Instr.reference?_eq_none (by
        simp [Instr.idle, Instr.become])
    rw [List.foldl_cons, ih, hidle]
    intro k hk
    rw [Unreferenced, hidle]
    exact h k (by simp [hk])

theorem references_setAt (hb : b.IsTidy) (hx : x ∈ b.references)
    (r : MethodRef) :
    (b.setAt x.label .call (.method (some r))).references =
      b.references.map (Reference.callAt x.label r) := by
  rw [references, references, setAt, update, List.filterMap_map,
    List.map_filterMap]
  refine List.filterMap_congr fun i hi => ?_
  rw [Function.comp_apply]
  split
  · rename_i hil
    have hget : i.reference? = some x := by
      rw [← hb.ownLabels.get_eq hi, beq_iff_eq.1 hil]
      exact hb.get_reference hx
    rw [hget]
    simp [Instr.reference?, Instr.method?, Instr.become, Reference.callAt,
      beq_iff_eq.1 hil]
  · rename_i hil
    cases hi : i.reference? with
    | none => rfl
    | some y =>
      have hy : y.label ≠ x.label := fun hc =>
        hil (beq_iff_eq.2 ((Instr.reference?_eq_some.1 hi).1.trans hc))
      simp [Reference.callAt, hy]

theorem references_insertAfter {is : List Instr}
    (his : ∀ i ∈ is, i.reference? = none) (h : b.insertAfter l is = .ok b') :
    b'.references = b.references := by
  obtain ⟨front, i, back, hcode, -, rfl⟩ := exists_of_insertAfter h
  have hnone : is.filterMap Instr.reference? = [] :=
    List.filterMap_eq_nil_iff.2 his
  simp [references, hcode, List.filterMap_cons, hnone]

/-! ## Component accessors -/

/-- The code `b'` is the code `b` once one accessor is served.  The loads
between the instance and the call are dropped, the address of the look-up takes
the place of the instance, and the call is one of a method that `T` accepts for
the accessor. -/
inductive Serves (T : MethodRef → MethodRef → Prop) (b : Body) (x : Reference) :
    Body → Prop
  | intro (this : Label) (hops : List Label) (field : FieldRef)
    (target : MethodRef) (b₁ : Body) (loadsThis : (b.get this).loadsThis)
    (loadsFields : ∀ l ∈ hops, (b.get l).op = .ldfld ∧ ∃ f,
      (b.get l).operand = .field f)
    (inserts : (hops.foldl idleAt b).insertAfter this
      ((hops.foldl idleAt b).labelled [Step.ldflda field]) = .ok b₁)
    (accepts : T x.target target) :
    Serves T b x (b₁.setAt x.label .call (.method (some target)))

variable {T : MethodRef → MethodRef → Prop}

theorem Serves.spares (h : b.Serves T x b') : b.Spares b' := by
  obtain ⟨this, hops, field, target, b₁, -, -, hinsert, -⟩ := h
  exact ((spares_idleAll hops).trans (spares_insertAfter (by simp [Step.ldflda])
    hinsert)).trans (spares_setAt (by decide))

/-- Only the reference that is served changes. -/
theorem Serves.references (h : b.Serves T x b') (hb : b.IsTidy)
    (hx : x ∈ b.references) :
    ∃ r, T x.target r ∧ b'.references = b.references.map
      (Reference.callAt x.label r) := by
  obtain ⟨this, hops, field, target, b₁, -, hloads, hinsert, haccepts⟩ := h
  have hidle : (hops.foldl idleAt b).references = b.references :=
    references_idleAll fun l hl => hb.unreferenced_of_field
      (hloads l hl).2.choose_spec
  have hsame : b₁.references = b.references :=
    (references_insertAfter
      (by simp [labelled, Step.ldflda, Instr.reference?, Instr.method?])
      hinsert).trans hidle
  have hspares : b.Spares b₁ :=
    (spares_idleAll hops).trans (spares_insertAfter (by simp [Step.ldflda])
      hinsert)
  refine ⟨target, haccepts, ?_⟩
  rw [references_setAt (hspares.isTidy hb) (hsame ▸ hx), hsame]

/-- The code once several accessors are served one after another. -/
inductive ServesAll (T : MethodRef → MethodRef → Prop) (b : Body) :
    List Reference → Body → Prop
  | nil : ServesAll T b [] b
  | snoc {xs : List Reference} {x : Reference} {b₁ b₂ : Body} : ServesAll T
    b xs b₁ → b₁.Serves T x b₂ → ServesAll T b (xs ++ [x]) b₂

theorem ServesAll.spares {xs : List Reference} (h : b.ServesAll T xs b') :
    b.Spares b' := by
  induction h with
  | nil => exact .refl b
  | snoc _ hx ih => exact ih.trans hx.spares

/-- Different references of the code are served one by one. -/
theorem ServesAll.references {xs : List Reference} (h : b.ServesAll T xs b')
    (hb : b.IsTidy) (hxs : xs.Nodup) (hmem : ∀ x ∈ xs, x ∈ b.references) :
    List.Forall₂ (Reference.Served T xs) b.references b'.references := by
  induction h with
  | nil => exact List.forall₂_same.2 fun x _ => .kept (by simp)
  | @snoc xs x b₁ b₂ hall hx ih =>
    rw [List.nodup_append] at hxs
    have hnew : x ∉ xs := fun hc => hxs.2.2 x hc x (by simp) rfl
    have hrefs := ih hxs.1 fun y hy => hmem y (by simp [hy])
    have hxb : x ∈ b.references := hmem x (by simp)
    have hxb₁ : x ∈ b₁.references := Reference.Served.mem hrefs hxb hnew
    obtain ⟨r, hr, hb₂⟩ := hx.references (hall.spares.isTidy hb) hxb₁
    rw [hb₂, List.forall₂_map_right_iff]
    refine ((List.forall₂_and_left _ _).2 ⟨fun _ => id, hrefs⟩).imp
      fun y z ⟨hy, hyz⟩ => ?_
    by_cases hyx : y = x
    · subst hyx
      rw [hyz.eq_self hnew, Reference.callAt, if_pos rfl]
      exact .served (by simp) hr
    · cases hyz with
      | kept h =>
        rw [Reference.callAt, if_neg fun hl => hyx (hb.reference_eq hy hxb hl)]
        exact .kept (by simp [h, hyx])
      | served h ht =>
        rw [Reference.callAt, if_neg fun hl => hyx (hb.reference_eq hy hxb hl)]
        exact .served (by simp [h]) ht

/-! ## Captured variables -/

/-- The access is one of a field in the code, and fields are loaded on the way
to it. -/
structure Reaches (b : Body) (c : Capture) : Prop where
  /-- the operation -/
  accesses : (b.get c.label).op.accessesField
  /-- the field -/
  field : ∃ f, (b.get c.label).operand = .field f
  /-- the way -/
  loadsFields : ∀ l ∈ c.hopLabels, (b.get l).LoadsField

/-- The code once several accesses are pointed at fields of the job one after
another. -/
inductive RedirectsAll (b : Body) : List Capture → Body → Prop
  | nil : RedirectsAll b [] b
  | snoc {cs : List Capture} {b₁ : Body} (c : Capture) (field : FieldRef) :
    RedirectsAll b cs b₁ → RedirectsAll b (cs ++ [c]) (b₁.redirect c field)

/-- No reference changes with them. -/
theorem RedirectsAll.references {cs : List Capture} (h : b.RedirectsAll cs b')
    (hb : b.IsTidy) (hcs : ∀ c ∈ cs, b.Reaches c) :
    b'.references = b.references := by
  induction h with
  | nil => rfl
  | @snoc cs b₁ c field _ ih =>
    have hrefs := ih fun c hc => hcs c (by simp [hc])
    have hreach : b.Reaches c := hcs c (by simp)
    have hfree : ∀ l f, (b.get l).operand = .field f → b₁.Unreferenced l :=
      fun l f hl => by
      rw [Unreferenced, hrefs]
      exact hb.unreferenced_of_field hl
    have hidle : (c.hopLabels.foldl idleAt b₁).references = b₁.references :=
      references_idleAll fun l hl => hfree l
        _ (hreach.loadsFields l hl).2.choose_spec
    rw [redirect, references_update _ fun _ => rfl, hidle, hrefs]
    rw [Unreferenced, hidle]
    exact hfree _ _ hreach.field.choose_spec

/-- The code once the accesses to captured variables are accesses to fields of
the job. -/
def Remaps (b b' : Body) : Prop :=
  ∃ cs, (∀ c ∈ cs, b.Reaches c) ∧ b.RedirectsAll cs b'

theorem Remaps.references (h : b.Remaps b') (hb : b.IsTidy) :
    b'.references = b.references := by
  obtain ⟨cs, hcs, hall⟩ := h
  exact hall.references hb hcs

end Body

end JobWeave
