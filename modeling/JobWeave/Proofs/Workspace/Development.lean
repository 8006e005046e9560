import Mathlib.Data.List.Infix
import JobWeave.Framework.Names
import JobWeave.Proofs.Workspace.Loading

/-!
# What becomes of definitions

The pass adds structs for its jobs and turns closures into value types, and
apart from that the types of a module stay what they are.

* `TypeEntry.Ages` is what may become of a type that was there, and
  `TypeEntry.IsMade` what is known of one that was added.
* `Workspace.Develops` says both of whole workspaces, and that no type loses its
  creation hook.  It is reflexive and transitive.
* `Workspace.Alike` relates workspaces whose types have the same names, bases
  and places. Most operations lead to such a workspace; each of the others has a
  lemma of its own.
-/

namespace JobWeave

open Framework

/-! ## Names -/

/-- A text occurs in a name if the name has it as a part. -/
theorem occursIn_iff {part name : List Char} :
    occursIn part name = true ↔ part <:+: name := by
  induction name with
  | nil => simp [occursIn]
  | cons c rest ih => simp [occursIn, ih, List.infix_cons_iff]

/-- The class holds captured variables, by its name. -/
def TypeHead.isClosure (h : TypeHead) : Bool :=
  isClosureName h.name && h.isCompilerGenerated

/-- What the names of jobs start with. -/
def jobPrefix : String := "<>c__DisplayClass_"

/-- The start of a job's name occurs in the name. -/
def hasJobPrefix (name : String) : Bool :=
  occursIn jobPrefix.toList name.toList

theorem hasJobPrefix_append_left {a : String} (b : String)
    (h : hasJobPrefix a) :
    hasJobPrefix (a ++ b) := by
  rw [hasJobPrefix, occursIn_iff] at h ⊢
  rw [String.toList_append]
  exact h.trans (List.prefix_append _ _).isInfix

theorem hasJobPrefix_append_right {b : String} (a : String)
    (h : hasJobPrefix b) :
    hasJobPrefix (a ++ b) := by
  rw [hasJobPrefix, occursIn_iff] at h ⊢
  rw [String.toList_append]
  exact h.trans (List.suffix_append _ _).isInfix

/-- The full name of a type has the name of a job in it if its own name has, or
the full name of the type around it. -/
theorem hasJobPrefix_qualifiedName {outer : Option String} {h : TypeHead}
    (hn : hasJobPrefix h.name ∨ ∃ o, outer = some o ∧ hasJobPrefix o) :
    hasJobPrefix (TypeDef.qualifiedName outer h) := by
  rcases hn with hn | ⟨o, rfl, ho⟩
  · cases outer with
    | none =>
      rw [TypeDef.qualifiedName]
      split
      · exact hn
      · exact hasJobPrefix_append_right _ hn
    | some o => exact hasJobPrefix_append_right _ hn
  · exact hasJobPrefix_append_left _ (hasJobPrefix_append_left _ ho)

/-! ## Types -/

/-- What may become of a type.  It gets nested types from the `n`-th on, and a
closure may become a value type. -/
structure TypeEntry.Ages (n : Nat) (e e' : TypeEntry) : Prop where
  /-- the name -/
  name : e'.head.name = e.head.name
  /-- the namespace -/
  ns : e'.head.ns = e.head.ns
  /-- the declaring type -/
  outer : e'.outer = e.outer
  /-- the base -/
  base : e'.head.base = e.head.base ∨ e.head.isClosure ∧
    e'.head.base = .valueType
  /-- the nested types -/
  nested : ∃ added, e'.nested = e.nested ++ added ∧ ∀ x ∈ added, n ≤ x.index

/-- The entry is that of a struct which the pass has added, as the type `t`: it
is a job, or it is in another one.  Types from the `n`-th on are added ones. -/
structure TypeEntry.IsMade (n : Nat) (t : TypeId) (e : TypeEntry) : Prop where
  /-- the base -/
  base : e.head.base = .valueType
  /-- the namespace -/
  ns : e.head.ns = ""
  /-- the name -/
  named : hasJobPrefix e.head.name ∨ ∃ o, e.outer = some o ∧ n ≤ o.index ∧
    o.index < t.index
  /-- the nested types -/
  nested : ∀ x ∈ e.nested, n ≤ x.index

/-- The entries have the same name, base and place, and no method is lost. -/
structure TypeEntry.Alike (e e' : TypeEntry) : Prop where
  /-- the name -/
  name : e'.head.name = e.head.name
  /-- the namespace -/
  ns : e'.head.ns = e.head.ns
  /-- the base -/
  base : e'.head.base = e.head.base
  /-- the generic parameters -/
  genericParams : e'.head.genericParams = e.head.genericParams
  /-- the declaring type -/
  outer : e'.outer = e.outer
  /-- the nested types -/
  nested : e'.nested = e.nested
  /-- the methods -/
  methods : e.methods ⊆ e'.methods

namespace TypeEntry

variable {n n' : Nat} {t : TypeId} {a b c e e' : TypeEntry}

theorem Ages.refl (n : Nat) (e : TypeEntry) : e.Ages n e :=
  ⟨rfl, rfl, rfl, .inl rfl, [], by simp, by simp⟩

/-- Whether a type is a closure is settled by its name. -/
theorem isClosure_eq (h : e'.head.name = e.head.name) :
    e'.head.isClosure = e.head.isClosure := by
  rw [TypeHead.isClosure, TypeHead.isCompilerGenerated, h]
  rfl

theorem Ages.trans (hn : n ≤ n') (h₁ : a.Ages n b) (h₂ : b.Ages n' c) :
    a.Ages n c := by
  obtain ⟨added₁, hb, hadded₁⟩ := h₁.nested
  obtain ⟨added₂, hc, hadded₂⟩ := h₂.nested
  refine ⟨h₂.name.trans h₁.name, h₂.ns.trans h₁.ns, h₂.outer.trans h₁.outer, ?_,
    added₁ ++ added₂, by rw [hc, hb, List.append_assoc], ?_⟩
  · rcases h₂.base with he | ⟨hclosure, he⟩
    · rw [he]
      exact h₁.base
    · exact .inr ⟨isClosure_eq h₁.name ▸ hclosure, he⟩
  · intro x hx
    rcases List.mem_append.1 hx with hx | hx
    · exact hadded₁ x hx
    · exact hn.trans (hadded₂ x hx)

theorem Alike.refl (e : TypeEntry) : e.Alike e :=
  ⟨rfl, rfl, rfl, rfl, rfl, rfl, List.Subset.refl _⟩

theorem Alike.trans (h₁ : a.Alike b) (h₂ : b.Alike c) : a.Alike c :=
  ⟨h₂.name.trans h₁.name, h₂.ns.trans h₁.ns, h₂.base.trans h₁.base,
    h₂.genericParams.trans h₁.genericParams, h₂.outer.trans h₁.outer,
    h₂.nested.trans h₁.nested, List.Subset.trans h₁.methods h₂.methods⟩

theorem Ages.of_alike (h : a.Ages n b) (hb : b.Alike c) : a.Ages n c :=
  ⟨hb.name.trans h.name, hb.ns.trans h.ns, hb.outer.trans h.outer,
    hb.base ▸ h.base, hb.nested ▸ h.nested⟩

theorem IsMade.of_alike (h : a.IsMade n t) (hb : a.Alike b) : b.IsMade n t :=
  ⟨hb.base.trans h.base, hb.ns.trans h.ns,
    by rw [hb.name, hb.outer]; exact h.named, hb.nested ▸ h.nested⟩

/-- An added type stays one. -/
theorem IsMade.age (h : a.IsMade n t) (hn : n ≤ n') (hb : a.Ages n' b) :
    b.IsMade n t := by
  obtain ⟨added, hnested, hadded⟩ := hb.nested
  refine ⟨?_, hb.ns.trans h.ns, by rw [hb.name, hb.outer]; exact h.named, ?_⟩
  · rcases hb.base with he | ⟨-, he⟩
    · exact he.trans h.base
    · exact he
  · intro x hx
    rw [hnested, List.mem_append] at hx
    rcases hx with hx | hx
    · exact h.nested x hx
    · exact hn.trans (hadded x hx)

/-- What was added later was added. -/
theorem IsMade.mono (h : e.IsMade n' t) (hn : n ≤ n') : e.IsMade n t := by
  refine ⟨h.base, h.ns, ?_, fun x hx => hn.trans (h.nested x hx)⟩
  rcases h.named with hname | ⟨o, ho, hle, hlt⟩
  · exact .inl hname
  · exact .inr ⟨o, ho, hn.trans hle, hlt⟩

end TypeEntry

namespace Workspace

variable {U V w w₁ w₂ : Workspace} {t inner outer : TypeId} {m : MethodId}

/-! ## Workspaces -/

/-- The type declares a creation hook. -/
def HasHook (w : Workspace) (t : TypeId) : Prop :=
  ∃ m ∈ (w.type t).methods, (w.method m).name = Member.onCreateForCompiler

/-- A method with a name is there. -/
theorem lt_of_name {name : String} (h : (w.method m).name = name)
    (hn : name ≠ "") :
    m.index < w.methods.size := by
  by_contra hge
  rw [method, methodEntry_of_le (Nat.le_of_not_lt hge)] at h
  exact hn h.symm

/-- What the pass makes of definitions. -/
structure Develops (V w : Workspace) : Prop where
  /-- no type goes away -/
  types_le : V.types.size ≤ w.types.size
  /-- no method goes away -/
  methods_le : V.methods.size ≤ w.methods.size
  /-- the methods keep their names -/
  name_eq : ∀ m, m.index < V.methods.size →
    (w.method m).name = (V.method m).name
  /-- the modules have the same types -/
  roots : ∀ k, (w.moduleEntry k).types = (V.moduleEntry k).types
  /-- the types that were there -/
  old : ∀ t, t.index < V.types.size → (V.type t).Ages V.types.size (w.type t)
  /-- the types that were added -/
  made : ∀ t, V.types.size ≤ t.index → t.index < w.types.size →
    (w.type t).IsMade V.types.size t
  /-- nested types that were added are there -/
  inner : ∀ t, ∀ n ∈ (w.type t).nested, n ∈ (V.type t).nested ∨
    n.index < w.types.size
  /-- no type loses its creation hook -/
  hooked : ∀ t, V.HasHook t → w.HasHook t

theorem Develops.refl (V : Workspace) : V.Develops V where
  types_le := Nat.le_refl _
  methods_le := Nat.le_refl _
  name_eq := fun _ _ => rfl
  roots := fun _ => rfl
  old := fun _ _ => .refl _ _
  made := fun _ hle hlt => absurd hlt (Nat.not_lt.2 hle)
  inner := fun _ _ hn => .inl hn
  hooked := fun _ => id

theorem Develops.trans (h₁ : U.Develops V) (h₂ : V.Develops w) :
    U.Develops w where
  types_le := h₁.types_le.trans h₂.types_le
  methods_le := h₁.methods_le.trans h₂.methods_le
  name_eq := fun m hm =>
    (h₂.name_eq m (hm.trans_le h₁.methods_le)).trans (h₁.name_eq m hm)
  roots := fun k => (h₂.roots k).trans (h₁.roots k)
  old := fun t ht =>
    (h₁.old t ht).trans h₁.types_le (h₂.old t (ht.trans_le h₁.types_le))
  made := fun t hle hlt => by
    by_cases ht : t.index < V.types.size
    · exact (h₁.made t hle ht).age h₁.types_le (h₂.old t ht)
    · exact (h₂.made t (Nat.le_of_not_lt ht) hlt).mono h₁.types_le
  inner := fun t n hn => by
    rcases h₂.inner t n hn with hn | hn
    · exact (h₁.inner t n hn).imp_right fun hlt => hlt.trans_le h₂.types_le
    · exact .inr hn
  hooked := fun t ht => h₂.hooked t (h₁.hooked t ht)

theorem Develops.innerPresent (h : V.Develops w) (hV : V.InnerPresent) :
    w.InnerPresent :=
  fun t n hn => (h.inner t n hn).elim
    (fun hold => (hV t n hold).trans_le h.types_le) id

/-! ## Workspaces with the same types -/

/-- The types have the same names, bases and places, and no method is lost or
renamed. -/
structure Alike (w w' : Workspace) : Prop where
  /-- there are as many types -/
  types_eq : w'.types.size = w.types.size
  /-- no method goes away -/
  methods_le : w.methods.size ≤ w'.methods.size
  /-- the methods keep their names -/
  name_eq : ∀ m, m.index < w.methods.size → (w'.method m).name =
    (w.method m).name
  /-- the modules have the same types -/
  roots : ∀ k, (w'.moduleEntry k).types = (w.moduleEntry k).types
  /-- the types -/
  type : ∀ t, (w.type t).Alike (w'.type t)

theorem Alike.refl (w : Workspace) : w.Alike w :=
  ⟨rfl, Nat.le_refl _, fun _ _ => rfl, fun _ => rfl, fun _ => .refl _⟩

theorem Alike.trans (h₁ : w.Alike w₁) (h₂ : w₁.Alike w₂) : w.Alike w₂ where
  types_eq := h₂.types_eq.trans h₁.types_eq
  methods_le := h₁.methods_le.trans h₂.methods_le
  name_eq := fun m hm =>
    (h₂.name_eq m (hm.trans_le h₁.methods_le)).trans (h₁.name_eq m hm)
  roots := fun k => (h₂.roots k).trans (h₁.roots k)
  type := fun t => (h₁.type t).trans (h₂.type t)

/-- References to types do not change. -/
theorem Alike.typeRefUpTo_eq (h : w.Alike w₁) (n : Nat) (t : TypeId) :
    w₁.typeRefUpTo n t = w.typeRefUpTo n t := by
  induction n generalizing t with
  | zero => rfl
  | succ n ih =>
    have ht := h.type t
    have hvalue : (w₁.type t).head.isValueType =
        (w.type t).head.isValueType := by
      rw [TypeHead.isValueType, TypeHead.isValueType, ht.base]
    simp only [typeRefUpTo, ht.outer, ht.name, ht.ns, hvalue, ih]

theorem Alike.selfRef_eq (h : w.Alike w₁) (t : TypeId) :
    w₁.selfRef t = w.selfRef t := by
  rw [selfRef, selfRef, typeRef, typeRef, h.types_eq, h.typeRefUpTo_eq,
    TypeHead.selfArgs, TypeHead.selfArgs, (h.type t).genericParams]

theorem HasHook.of_alike (h : w.HasHook t) (ha : w.Alike w₁) :
    w₁.HasHook t := by
  obtain ⟨m, hm, hname⟩ := h
  have hlt := lt_of_name hname (by decide)
  exact ⟨m, (ha.type t).methods hm, (ha.name_eq m hlt).trans hname⟩

theorem Develops.of_alike (h : V.Develops w) (ha : w.Alike w₁) :
    V.Develops w₁ where
  types_le := ha.types_eq ▸ h.types_le
  methods_le := h.methods_le.trans ha.methods_le
  name_eq := fun m hm =>
    (ha.name_eq m (hm.trans_le h.methods_le)).trans (h.name_eq m hm)
  roots := fun k => (ha.roots k).trans (h.roots k)
  old := fun t ht => (h.old t ht).of_alike (ha.type t)
  made := fun t hle hlt => (h.made t hle (ha.types_eq ▸ hlt)).of_alike
    (ha.type t)
  inner := fun t n hn => by
    rw [(ha.type t).nested] at hn
    rw [ha.types_eq]
    exact h.inner t n hn
  hooked := fun t ht => (h.hooked t ht).of_alike ha

/-- A change of a method that keeps its name. -/
theorem alike_updateMethod (w : Workspace) (m : MethodId)
    {f : MethodDef → MethodDef} (hf : ∀ d, (f d).name = d.name) :
    w.Alike (w.updateMethod m f) := by
  refine ⟨rfl, by simp, fun m' hm => ?_, fun _ => rfl, fun _ => .refl _⟩
  by_cases he : m' = m
  · subst he
    rw [method, methodEntry_updateMethod_self f hm]
    exact hf _
  · rw [method, methodEntry_updateMethod_of_ne f he]
    rfl

/-- A change of a type that keeps its name, its base and its place. -/
theorem alike_updateType (w : Workspace) (t : TypeId)
    {f : TypeEntry → TypeEntry} (hf : ∀ e : TypeEntry, e.Alike (f e)) :
    w.Alike (w.updateType t f) := by
  refine ⟨by simp, Nat.le_refl _, fun _ _ => rfl, fun _ => rfl, fun t' => ?_⟩
  rw [type_updateType]
  split
  · exact hf _
  · exact .refl _

theorem alike_addMethod (w : Workspace) (t : TypeId) (d : MethodDef) :
    w.Alike (w.addMethod t d).1 := by
  refine ⟨by simp, by simp, fun m hm => ?_, fun _ => rfl, fun t' => ?_⟩
  · rw [method, methodEntry_addMethod, if_neg hm.ne]
    rfl
  · rw [type_addMethod]
    split
    · exact ⟨rfl, rfl, rfl, rfl, rfl, rfl, List.subset_append_left _ _⟩
    · exact .refl _

theorem alike_addCopy (w : Workspace) (t : TypeId) (m : MethodId)
    (d : MethodDef) :
    w.Alike (w.addCopy t m d).1 := by
  refine (alike_addMethod w t d).trans
    ⟨rfl, by simp [addCopy], fun m' _ => ?_, fun _ => rfl, fun _ => .refl _⟩
  -- the model of the new method is no part of its definition
  simp only [addCopy, method, methodEntry, Array.getElem?_modify]
  split
  · cases (w.addMethod t d).1.methods[m'.index]? <;> rfl
  · rfl

theorem alike_touch (w : Workspace) (k : ModuleId) : w.Alike (w.touch k) :=
  ⟨rfl, Nat.le_refl _, fun _ _ => rfl, (sameLinks_touch w k).roots,
    fun _ => .refl _⟩

theorem alike_setHome (w : Workspace) (t : TypeId) (home : Option ModuleId) :
    w.Alike (w.setHome t home) := by
  unfold setHome
  generalize w.underUpTo _ _ = ts
  induction ts generalizing w with
  | nil => exact .refl w
  | cons t ts ih =>
    have hfirst : w.Alike (w.updateType t fun e => { e with home }) :=
      alike_updateType w t fun _ => ⟨rfl, rfl, rfl, rfl, rfl, rfl,
        List.Subset.refl _⟩
    exact hfirst.trans (ih _)

theorem alike_addField (w : Workspace) (t : TypeId) (f : FieldDef) :
    w.Alike (w.addField t f) :=
  alike_updateType w t fun _ => ⟨rfl, rfl, rfl, rfl, rfl, rfl,
    List.Subset.refl _⟩

/-! ## Other changes -/

/-- What holds of the changed entry, and held of all of them, holds of all of
them. -/
theorem forall_type_updateType {P : TypeId → TypeEntry → Prop}
    {f : TypeEntry → TypeEntry}
    (hself : t.index < w.types.size → P t (f (w.type t)))
    (hall : ∀ t', P t' (w.type t')) (t' : TypeId) :
    P t' ((w.updateType t f).type t') := by
  rw [type_updateType]
  split
  · rename_i he
    obtain ⟨rfl, hlt⟩ := he
    exact hself hlt
  · exact hall t'

/-- A change of one type that the pass may make. -/
theorem Develops.updateType (h : V.Develops w) (t : TypeId)
    (f : TypeEntry → TypeEntry) (hold : t.index < V.types.size →
      (V.type t).Ages V.types.size (f (w.type t)))
    (hmade : V.types.size ≤ t.index → t.index < w.types.size →
      (f (w.type t)).IsMade V.types.size t)
    (hinner : ∀ n ∈ (f (w.type t)).nested,
      n ∈ (V.type t).nested ∨ n.index < w.types.size)
    (hhook : V.HasHook t →
      ∃ m ∈ (f (w.type t)).methods,
      (w.method m).name = Member.onCreateForCompiler) :
    V.Develops (w.updateType t f) := by
  constructor
  case types_le => simpa using h.types_le
  case methods_le => exact h.methods_le
  case name_eq => exact h.name_eq
  case roots => exact h.roots
  case old =>
    exact forall_type_updateType (P := fun t e => t.index < V.types.size →
      (V.type t).Ages V.types.size e) (fun _ => hold) h.old
  case made =>
    intro t' hle hlt
    rw [size_types_updateType] at hlt
    exact forall_type_updateType (P := fun t e => V.types.size ≤ t.index →
      t.index < w.types.size → e.IsMade V.types.size t) (fun _ => hmade) h.made
        t' hle hlt
  case inner =>
    rw [size_types_updateType]
    exact forall_type_updateType (P := fun t e => ∀ n ∈ e.nested,
      n ∈ (V.type t).nested ∨ n.index < w.types.size) (fun _ => hinner) h.inner
  case hooked =>
    exact forall_type_updateType (P := fun t e => V.HasHook t → ∃ m ∈ e.methods,
      (w.method m).name = Member.onCreateForCompiler) (fun _ => hhook) h.hooked

theorem type_push (w : Workspace) (e : TypeEntry) (t : TypeId) :
    ({ w with types := w.types.push e } : Workspace).type t =
      if t.index = w.types.size then e else w.type t := by
  simp only [type, Array.getElem?_push]
  split <;> rfl

/-- A struct is added. -/
theorem Develops.push (h : V.Develops w) {e : TypeEntry}
    (he : e.IsMade V.types.size ⟨w.types.size⟩) (hnested : e.nested = []) :
    V.Develops { w with types := w.types.push e } := by
  have hne : ∀ t : TypeId, t.index < V.types.size → t.index ≠ w.types.size := by
    intro t ht
    have := h.types_le
    omega
  constructor
  case types_le => exact h.types_le.trans (by simp)
  case methods_le => exact h.methods_le
  case name_eq => exact h.name_eq
  case roots => exact h.roots
  case old =>
    intro t ht
    rw [type_push, if_neg (hne t ht)]
    exact h.old t ht
  case made =>
    intro t hle hlt
    rw [type_push]
    split
    · rename_i heq
      cases t
      cases heq
      exact he
    · rename_i hne
      refine h.made t hle ?_
      simp only [Array.size_push] at hlt
      omega
  case inner =>
    intro t n hn
    rw [type_push] at hn
    split at hn
    · rw [hnested] at hn
      cases hn
    · exact (h.inner t n hn).imp_right fun hlt => by simp; omega
  case hooked =>
    intro t ht
    obtain ⟨m, hm, hname⟩ := h.hooked t ht
    have hlt := lt_of_mem_methods hm
    refine ⟨m, ?_, hname⟩
    rw [type_push, if_neg hlt.ne]
    exact hm

/-- A type that is added and changed at once. -/
theorem updateType_newType (w : Workspace) (h : TypeHead)
    (f : TypeEntry → TypeEntry) :
    (w.newType h).1.updateType (w.newType h).2 f =
      { w with types := w.types.push (f { head := h }) } := by
  simp only [newType, Workspace.updateType]
  congr 1
  refine Array.ext (by simp) fun i hi hi' => ?_
  simp only [Array.getElem_modify, Array.getElem_push]
  grind

/-- A type gets an added struct at its end. -/
theorem Develops.appendNested (h : V.Develops w) (outer : TypeId)
    (hle : V.types.size ≤ inner.index) (hlt : inner.index < w.types.size) :
    V.Develops (w.updateType outer
      fun e => { e with nested := e.nested ++ [inner] }) := by
  have hadd : ∀ {P : TypeId → Prop} {xs : List TypeId}, (∀ x ∈ xs, P x) →
    P inner →
      ∀ x ∈ xs ++ [inner], P x := by
    intro P xs hxs hinner x hx
    rcases List.mem_append.1 hx with hx | hx
    · exact hxs x hx
    · rwa [List.mem_singleton.1 hx]
  refine h.updateType outer _ (fun ho => ?_) (fun ho hlt' => ?_) ?_
    (h.hooked outer)
  · have hages := h.old outer ho
    obtain ⟨added, hnested, hadded⟩ := hages.nested
    exact ⟨hages.name, hages.ns, hages.outer, hages.base, added ++ [inner],
      by rw [hnested, List.append_assoc], hadd hadded hle⟩
  · have hmade := h.made outer ho hlt'
    exact ⟨hmade.base, hmade.ns, hmade.named, hadd hmade.nested hle⟩
  · exact hadd (h.inner outer) (.inr hlt)

/-- An added struct that knows its place is put at the end of another type. -/
theorem Develops.attach (hlt : inner.index < w.types.size)
    (hle : V.types.size ≤ inner.index)
    (h : V.Develops (w.updateType inner fun e =>
      { e with outer := some outer, head := { e.head with ns := "" } })) :
    V.Develops (w.attachNested outer inner) := by
  have hhome := h.of_alike (alike_setHome _ inner (w.type outer).home)
  have hattached := hhome.appendNested outer hle (by simpa using hlt)
  simp only [attachNested]
  split
  · exact hattached.of_alike (alike_touch _ _)
  · exact hattached

/-- A job is put into its system. -/
theorem Develops.attachNested (h : V.Develops w)
    (hle : V.types.size ≤ inner.index) (hlt : inner.index < w.types.size)
    (hname : hasJobPrefix (w.type inner).head.name) :
    V.Develops (w.attachNested outer inner) := by
  refine .attach hlt hle (h.updateType inner _ (fun hold => ?_) (fun _ _ => ?_)
    (h.inner inner) (h.hooked inner))
  · omega
  · have hmade := h.made inner hle hlt
    exact ⟨hmade.base, rfl, .inl hname, hmade.nested⟩

theorem name_attachNested (w : Workspace) (outer inner t : TypeId) :
    ((w.attachNested outer inner).type t).head.name = (w.type t).head.name := by
  obtain ⟨home, he⟩ := type_attachNested w outer inner t
  rw [he, type_updateType, apply_ite (fun e : TypeEntry => e.head.name),
    ite_self, ((alike_setHome _ inner home).type t).name, type_updateType,
    apply_ite (fun e : TypeEntry => e.head.name), ite_self]

/-- A struct is added to an added one. -/
theorem Develops.addNested_leaf (h : V.Develops w) {d : TypeHead}
    (hle : V.types.size ≤ outer.index) (hlt : outer.index < w.types.size)
    (hb : d.base = .valueType) :
    V.Develops (w.addNested outer (.mk d [] [])).1 := by
  simp only [addNested, loadType, loadNested, List.foldl_nil]
  refine .attach (by simp [newType]) h.types_le ?_
  rw [updateType_newType]
  exact h.push ⟨hb, rfl, .inr ⟨outer, rfl, hle, hlt⟩, by simp⟩ rfl

end Workspace

end JobWeave
