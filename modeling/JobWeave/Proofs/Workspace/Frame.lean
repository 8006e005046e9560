import Mathlib.Data.Set.Basic
import JobWeave.Flow.Delegate
import JobWeave.Workspace.Basic

/-!
# What a change of a workspace keeps

Every step of the pass adds definitions and changes few of those that were there
before.  `Workspace.Frame R S w w'` says what stays between two workspaces: no
type or method goes away, the entries of the old types are related by `R`, and
the old methods keep everything but their code, which only the methods in `S`
may change.

There are three groups.

* Reading an entry back after a change of one entry.
* `Frame` is reflexive and transitive where `R` is, and grows with `R` and `S`.
* Each operation on a workspace keeps a frame.  A change of an entry that is
  younger than the frame's first workspace is free.
-/

namespace JobWeave

/-- The entry with other code. -/
def MethodEntry.withBody (e : MethodEntry) (b : Option Body) : MethodEntry :=
  { e with method := { e.method with body := b } }

/-- What a type keeps while it grows: its name, its place and its nested types,
and that it is stored in place. -/
structure TypeEntry.Grows (e e' : TypeEntry) : Prop where
  /-- the name -/
  name : e'.head.name = e.head.name
  /-- the namespace -/
  ns : e'.head.ns = e.head.ns
  /-- the declaring type -/
  outer : e'.outer = e.outer
  /-- values are stored in place -/
  isValueType : e.head.isValueType → e'.head.isValueType
  /-- the nested types -/
  nested : e.nested <+: e'.nested

theorem TypeEntry.Grows.refl (e : TypeEntry) : e.Grows e :=
  ⟨rfl, rfl, rfl, id, List.prefix_refl _⟩

theorem TypeEntry.Grows.trans (a b c : TypeEntry) (h₁ : a.Grows b)
    (h₂ : b.Grows c) : a.Grows c :=
  ⟨h₂.name.trans h₁.name, h₂.ns.trans h₁.ns, h₂.outer.trans h₁.outer,
    h₂.isValueType ∘ h₁.isValueType, h₁.nested.trans h₂.nested⟩

/-- A type that grows gets of nested types only those in `N`; it gets no methods
and loses none of those in `K`. -/
structure TypeEntry.Stays (N : Set TypeId) (K : Set MethodId)
    (e e' : TypeEntry) : Prop extends e.Grows e' where
  /-- the added types -/
  added : ∀ n ∈ e'.nested, n ∈ e.nested ∨ n ∈ N
  /-- the methods; a closure may lose its constructor -/
  methods : e'.methods.Sublist e.methods
  /-- the methods that are not lost -/
  kept : ∀ m ∈ K, m ∈ e.methods → m ∈ e'.methods

section Stays

variable {N N' : Set TypeId} {K : Set MethodId}

theorem TypeEntry.Stays.refl (N : Set TypeId) (K : Set MethodId)
    (e : TypeEntry) :
    e.Stays N K e :=
  ⟨.refl e, fun _ => .inl, .refl _, fun _ _ => id⟩

theorem TypeEntry.Stays.trans (a b c : TypeEntry) (h₁ : a.Stays N K b)
    (h₂ : b.Stays N K c) : a.Stays N K c where
  toGrows := h₁.toGrows.trans _ _ _ h₂.toGrows
  added := fun n hn => (h₂.added n hn).elim (h₁.added n) .inr
  methods := h₂.methods.trans h₁.methods
  kept := fun m hm hmem => h₂.kept m hm (h₁.kept m hm hmem)

theorem TypeEntry.Stays.of_eq (a b : TypeEntry) (h : a = b) : a.Stays N K b :=
  h ▸ .refl N K a

theorem TypeEntry.Stays.mono (hN : N ⊆ N') (a b : TypeEntry)
    (h : a.Stays N K b) :
    a.Stays N' K b :=
  ⟨h.toGrows, fun n hn => (h.added n hn).imp_right fun hm => hN hm,
    h.methods, h.kept⟩

end Stays

namespace Workspace

/-! ## Reading entries back -/

@[simp]
theorem types_updateMethod (w : Workspace) (m : MethodId)
    (f : MethodDef → MethodDef) : (w.updateMethod m f).types = w.types := by
  rw [updateMethod]

@[simp]
theorem methods_updateType (w : Workspace) (t : TypeId)
    (f : TypeEntry → TypeEntry) : (w.updateType t f).methods = w.methods := by
  rw [updateType]

@[simp]
theorem size_types_updateType (w : Workspace) (t : TypeId)
    (f : TypeEntry → TypeEntry) :
    (w.updateType t f).types.size = w.types.size := by
  simp [updateType]

@[simp]
theorem size_methods_updateMethod (w : Workspace) (m : MethodId)
    (f : MethodDef → MethodDef) :
    (w.updateMethod m f).methods.size = w.methods.size := by
  simp [updateMethod]

@[simp]
theorem types_addMethod (w : Workspace) (t : TypeId) (d : MethodDef) :
    (w.addMethod t d).1.types.size = w.types.size := by
  simp [addMethod, newMethod, attachMethod]

@[simp]
theorem methods_addMethod (w : Workspace) (t : TypeId) (d : MethodDef) :
    (w.addMethod t d).1.methods.size = w.methods.size + 1 := by
  simp [addMethod, newMethod, attachMethod]

@[simp]
theorem types_addCopy (w : Workspace) (t : TypeId) (m : MethodId)
    (d : MethodDef) : (w.addCopy t m d).1.types.size = w.types.size := by
  simp [addCopy]

@[simp]
theorem methods_addCopy (w : Workspace) (t : TypeId) (m : MethodId)
    (d : MethodDef) :
    (w.addCopy t m d).1.methods.size = w.methods.size + 1 := by
  simp [addCopy]

@[simp]
theorem methods_setHome (w : Workspace) (t : TypeId) (home : Option ModuleId) :
    (w.setHome t home).methods = w.methods := by
  unfold setHome
  generalize w.underUpTo _ _ = ts
  induction ts generalizing w with
  | nil => rfl
  | cons t ts ih => exact ih _

@[simp]
theorem size_types_setHome (w : Workspace) (t : TypeId)
    (home : Option ModuleId) :
    (w.setHome t home).types.size = w.types.size := by
  unfold setHome
  generalize w.underUpTo _ _ = ts
  induction ts generalizing w with
  | nil => rfl
  | cons t ts ih => simpa using ih (w.updateType t _)

@[simp]
theorem methods_attachNested (w : Workspace) (outer inner : TypeId) :
    (w.attachNested outer inner).methods = w.methods := by
  simp only [attachNested]
  split <;> simp [touch]

@[simp]
theorem size_types_attachNested (w : Workspace) (outer inner : TypeId) :
    (w.attachNested outer inner).types.size = w.types.size := by
  simp only [attachNested]
  split <;> simp [touch]

/-- A changed type reads back changed. -/
theorem type_updateType_self {w : Workspace} {t : TypeId}
    (f : TypeEntry → TypeEntry) (h : t.index < w.types.size) :
    (w.updateType t f).type t = f (w.type t) := by
  simp [type, updateType, Array.getElem_modify, h]

/-- Another type than the changed one reads back as it was. -/
theorem type_updateType_of_ne {w : Workspace} {t t' : TypeId}
    (f : TypeEntry → TypeEntry) (h : t' ≠ t) :
    (w.updateType t f).type t' = w.type t' := by
  have hne : t.index ≠ t'.index := by
    intro he
    exact h (by cases t; cases t'; simp_all)
  simp [type, updateType, Array.getElem?_modify, hne]

/-- A changed method reads back changed. -/
theorem methodEntry_updateMethod_self {w : Workspace} {m : MethodId}
    (f : MethodDef → MethodDef) (h : m.index < w.methods.size) :
    (w.updateMethod m f).methodEntry m =
      { w.methodEntry m with method := f (w.method m) } := by
  simp [methodEntry, method, updateMethod, Array.getElem_modify, h]

/-- Another method than the changed one reads back as it was. -/
theorem methodEntry_updateMethod_of_ne {w : Workspace} {m m' : MethodId}
    (f : MethodDef → MethodDef) (h : m' ≠ m) :
    (w.updateMethod m f).methodEntry m' = w.methodEntry m' := by
  have hne : m.index ≠ m'.index := by
    intro he
    exact h (by cases m; cases m'; simp_all)
  simp [methodEntry, updateMethod, Array.getElem?_modify, hne]

/-- A method with code is there. -/
theorem lt_of_body {w : Workspace} {m : MethodId} {b : Body}
    (h : (w.method m).body = some b) : m.index < w.methods.size := by
  by_contra hge
  have hnone : w.methods[m.index]? = none := by simpa using hge
  rw [method, methodEntry, hnone] at h
  cases h

/-! ## The code of a method -/

section Code

variable {w : Workspace} {m n : MethodId} {b b' : Body} {i : Instr}

theorem code_eq (hb : (w.method m).body = some b) : (w.method m).code = b := by
  rw [MethodDef.code, hb]
  rfl

theorem code_updateMethod_self (hb : (w.method m).body = some b) :
    ((w.updateMethod m fun d => { d with body := some b' }).method m).code =
      b' := by
  rw [method, methodEntry_updateMethod_self _ (lt_of_body hb)]
  rfl

theorem code_updateMethod_of_ne (f : MethodDef → MethodDef) (h : n ≠ m) :
    ((w.updateMethod m f).method n).code = (w.method n).code := by
  rw [method, methodEntry_updateMethod_of_ne _ h]
  rfl

/-- A method that is given code has no other instructions; one that is not there
has none. -/
theorem mem_of_mem_code_updateMethod
    (hi : i ∈ ((w.updateMethod m fun d => { d with body := some b }).method
      m).code.code) :
    i ∈ b.code := by
  by_cases hm : m.index < w.methods.size
  · rwa [method, methodEntry_updateMethod_self _ hm] at hi
  · have hnone : (w.updateMethod m
      fun d => { d with body := some b }).methods[m.index]? =
        none := by
      simpa [updateMethod] using hm
    rw [method, methodEntry, hnone] at hi
    exact absurd hi List.not_mem_nil

end Code

/-! ## Frames -/

/-- `w'` has every type and method of `w`: the types' entries are related by
`R`, and of the methods only those in `S` have other code. -/
structure Frame (R : TypeEntry → TypeEntry → Prop) (S : Set MethodId)
    (w w' : Workspace) : Prop where
  /-- no type goes away -/
  types_le : w.types.size ≤ w'.types.size
  /-- no method goes away -/
  methods_le : w.methods.size ≤ w'.methods.size
  /-- the types are related -/
  type : ∀ t, t.index < w.types.size → R (w.type t) (w'.type t)
  /-- a method keeps all but its code -/
  entry : ∀ m, m.index < w.methods.size →
    w'.methodEntry m = (w.methodEntry m).withBody (w'.method m).body
  /-- a method neither gains nor loses its code -/
  hasBody : ∀ m, m.index < w.methods.size →
    (w'.method m).body.isSome = (w.method m).body.isSome
  /-- only some methods get other code -/
  body : ∀ m, m.index < w.methods.size → m ∉ S →
    (w'.method m).body = (w.method m).body

/-- `w'` has every definition of `w` as it was. -/
abbrev Extends : Workspace → Workspace → Prop :=
  Frame Eq ∅

namespace Frame

variable {R : TypeEntry → TypeEntry → Prop} {S : Set MethodId}
variable {w w₁ w₂ w' : Workspace}

theorem refl (hR : ∀ e, R e e) (S : Set MethodId) (w : Workspace) :
    Frame R S w w where
  types_le := Nat.le_refl _
  methods_le := Nat.le_refl _
  type := fun _ _ => hR _
  entry := fun _ _ => rfl
  hasBody := fun _ _ => rfl
  body := fun _ _ _ => rfl

/-- One change after another.  The second one may change the code of the methods
that the first one added. -/
theorem trans {S₂ : Set MethodId} (hR : ∀ a b c, R a b → R b c → R a c)
    (h₁ : Frame R S w w₁) (h₂ : Frame R S₂ w₁ w₂)
    (hS : ∀ m, m.index < w.methods.size → m ∈ S₂ → m ∈ S) : Frame R S w w₂ where
  types_le := h₁.types_le.trans h₂.types_le
  methods_le := h₁.methods_le.trans h₂.methods_le
  type := fun t ht =>
    hR _ _ _ (h₁.type t ht) (h₂.type t (by have := h₁.types_le; omega))
  entry := fun m hm => by
    rw [h₂.entry m (by have := h₁.methods_le; omega), h₁.entry m hm]
    rfl
  hasBody := fun m hm => by
    rw [h₂.hasBody m (by have := h₁.methods_le; omega), h₁.hasBody m hm]
  body := fun m hm hm' => by
    have hm₂ : m ∉ S₂ := fun hs => hm' (hS m hm hs)
    rw [h₂.body m (by have := h₁.methods_le; omega) hm₂, h₁.body m hm hm']

theorem mono {R' : TypeEntry → TypeEntry → Prop} {S' : Set MethodId}
    (h : Frame R S w w') (hR : ∀ a b, R a b → R' a b) (hS : S ⊆ S') :
    Frame R' S' w w' where
  types_le := h.types_le
  methods_le := h.methods_le
  type := fun t ht => hR _ _ (h.type t ht)
  entry := h.entry
  hasBody := h.hasBody
  body := fun m hm hm' => h.body m hm fun hs => hm' (hS hs)

/-- A method outside `S` reads back as it was. -/
theorem methodEntry_eq (h : Frame R S w w') {m : MethodId}
    (hm : m.index < w.methods.size) (hS : m ∉ S) :
    w'.methodEntry m = w.methodEntry m := by
  rw [h.entry m hm, h.body m hm hS]
  rfl

/-- A method outside `S` has the definition it had. -/
theorem method_eq (h : Frame R S w w') {m : MethodId}
    (hm : m.index < w.methods.size) (hS : m ∉ S) :
    w'.method m = w.method m := by
  rw [method, h.methodEntry_eq hm hS]
  rfl

/-- A method keeps its declaring type. -/
theorem owner_eq (h : Frame R S w w') {m : MethodId}
    (hm : m.index < w.methods.size) :
    (w'.methodEntry m).owner = (w.methodEntry m).owner := by
  rw [h.entry m hm]
  rfl

/-- A method comes from the same method as before. -/
theorem modelOf_eq (h : Frame R S w w') {m : MethodId}
    (hm : m.index < w.methods.size) : w'.modelOf m = w.modelOf m := by
  rw [modelOf, h.entry m hm]
  rfl

/-- A method keeps its name. -/
theorem name_eq (h : Frame R S w w') {m : MethodId}
    (hm : m.index < w.methods.size) :
    (w'.method m).name = (w.method m).name := by
  rw [method, h.entry m hm]
  rfl

/-- A method stays the constructor that it is or is not. -/
theorem isConstructor_eq (h : Frame R S w w') {m : MethodId}
    (hm : m.index < w.methods.size) :
    (w'.method m).isConstructor = (w.method m).isConstructor := by
  rw [MethodDef.isConstructor, h.name_eq hm]
  rfl

/-! ## Operations keep frames -/

/-- Changing a type in a way that `R` allows. -/
theorem updateType (h : Frame R S w w') (t : TypeId)
    (f : TypeEntry → TypeEntry)
    (hf : t.index < w.types.size →
      R (w.type t) (w'.type t) → R (w.type t) (f (w'.type t))) :
    Frame R S w (w'.updateType t f) where
  types_le := by simpa using h.types_le
  methods_le := h.methods_le
  type := fun t' ht => by
    by_cases he : t' = t
    · subst he
      have hlt : t'.index < w'.types.size := by have := h.types_le; omega
      rw [type_updateType_self f hlt]
      exact hf ht (h.type _ ht)
    · rw [type_updateType_of_ne f he]
      exact h.type _ ht
  entry := h.entry
  hasBody := h.hasBody
  body := h.body

/-- Changing a type that is not an old one. -/
theorem updateType_new (h : Frame R S w w') {t : TypeId}
    (f : TypeEntry → TypeEntry) (ht : w.types.size ≤ t.index) :
    Frame R S w (w'.updateType t f) :=
  h.updateType t f fun hlt => absurd hlt (by omega)

/-- Changing the code of a method in `S` that has some. -/
theorem setBody (h : Frame R S w w') {m : MethodId} (b : Body)
    (hm : m.index < w.methods.size → m ∈ S ∧ (w'.method m).body.isSome) :
    Frame R S w (w'.updateMethod m fun d => { d with body := some b }) where
  types_le := h.types_le
  methods_le := by simpa using h.methods_le
  type := h.type
  entry := fun m' hm' => by
    by_cases he : m' = m
    · subst he
      have hlt : m'.index < w'.methods.size := by have := h.methods_le; omega
      rw [method, methodEntry_updateMethod_self _ hlt, method, h.entry _ hm']
      rfl
    · rw [method, methodEntry_updateMethod_of_ne _ he]
      exact h.entry m' hm'
  hasBody := fun m' hm' => by
    by_cases he : m' = m
    · subst he
      have hlt : m'.index < w'.methods.size := by have := h.methods_le; omega
      rw [method, methodEntry_updateMethod_self _ hlt, ← h.hasBody _ hm']
      simp [(hm hm').2]
    · rw [method, methodEntry_updateMethod_of_ne _ he]
      exact h.hasBody m' hm'
  body := fun m' hm' hS => by
    have he : m' ≠ m := fun he => hS (he ▸ (hm (he ▸ hm')).1)
    rw [method, methodEntry_updateMethod_of_ne _ he]
    exact h.body m' hm' hS

/-- Changing methods that are not old ones. -/
theorem modifyMethods_new (h : Frame R S w w') {n : Nat}
    (f : MethodEntry → MethodEntry) (hn : w.methods.size ≤ n) :
    Frame R S w { w' with methods := w'.methods.modify n f } := by
  have hread : ∀ m : MethodId, m.index < w.methods.size →
      ({ w' with methods := w'.methods.modify n f } : Workspace).methodEntry m =
        w'.methodEntry m := by
    intro m hm
    have hne : n ≠ m.index := by omega
    simp [methodEntry, Array.getElem?_modify, hne]
  exact
    { types_le := h.types_le
      methods_le := by simpa using h.methods_le
      type := h.type
      entry := fun m hm => by rw [method, hread m hm]; exact h.entry m hm
      hasBody := fun m hm => by rw [method, hread m hm]; exact h.hasBody m hm
      body := fun m hm hS => by rw [method, hread m hm]; exact h.body m hm hS }

/-- Changing a method that is not an old one. -/
theorem updateMethod_new (h : Frame R S w w') {m : MethodId}
    (f : MethodDef → MethodDef) (hm : w.methods.size ≤ m.index) :
    Frame R S w (w'.updateMethod m f) :=
  h.modifyMethods_new _ hm

/-- Modules are no part of a frame. -/
theorem setModules (h : Frame R S w w') (ms : Array ModuleEntry) :
    Frame R S w { w' with modules := ms } :=
  ⟨h.types_le, h.methods_le, h.type, h.entry, h.hasBody, h.body⟩

theorem touch (h : Frame R S w w') (m : ModuleId) : Frame R S w (w'.touch m) :=
  h.setModules _

theorem newMethod (h : Frame R S w w') (d : MethodDef) :
    Frame R S w (w'.newMethod d).1 := by
  have hread : ∀ m : MethodId, m.index < w.methods.size →
      (w'.newMethod d).1.methodEntry m = w'.methodEntry m := by
    intro m hm
    have hne : m.index ≠ w'.methods.size := by have := h.methods_le; omega
    simp [Workspace.newMethod, methodEntry, Array.getElem?_push, hne]
  exact
    { types_le := h.types_le
      methods_le := by
        have := h.methods_le
        simp only [Workspace.newMethod, Array.size_push]
        omega
      type := h.type
      entry := fun m hm => by rw [method, hread m hm]; exact h.entry m hm
      hasBody := fun m hm => by rw [method, hread m hm]; exact h.hasBody m hm
      body := fun m hm hS => by rw [method, hread m hm]; exact h.body m hm hS }

theorem newType (h : Frame R S w w') (d : TypeHead) :
    Frame R S w (w'.newType d).1 where
  types_le := by
    have := h.types_le
    simp only [Workspace.newType, Array.size_push]
    omega
  methods_le := h.methods_le
  type := fun t ht => by
    have hne : t.index ≠ w'.types.size := by have := h.types_le; omega
    have hread : (w'.newType d).1.type t = w'.type t := by
      simp [Workspace.newType, Workspace.type, Array.getElem?_push, hne]
    rw [hread]
    exact h.type t ht
  entry := h.entry
  hasBody := h.hasBody
  body := h.body

/-- Adding a method to a type in a way that `R` allows. -/
theorem addMethod (h : Frame R S w w') (t : TypeId) (d : MethodDef)
    (hR : t.index < w.types.size → ∀ ms, R (w.type t) (w'.type t) →
      R (w.type t) { w'.type t with methods := (w'.type t).methods ++ ms }) :
    Frame R S w (w'.addMethod t d).1 := by
  have hnew : Frame R S w (w'.newMethod d).1 := h.newMethod d
  refine Frame.updateType (hnew.modifyMethods_new _ h.methods_le) t _ ?_
  intro ht hr
  exact hR ht _ hr

/-- Adding a method to a type that is not an old one. -/
theorem addMethod_new (h : Frame R S w w') {t : TypeId} (d : MethodDef)
    (ht : w.types.size ≤ t.index) : Frame R S w (w'.addMethod t d).1 :=
  h.addMethod t d fun hlt => absurd hlt (by omega)

/-- Adding a copy to a type in a way that `R` allows. -/
theorem addCopy (h : Frame R S w w') (t : TypeId) (m : MethodId) (d : MethodDef)
    (hR : t.index < w.types.size → ∀ ms, R (w.type t) (w'.type t) →
      R (w.type t) { w'.type t with methods := (w'.type t).methods ++ ms }) :
    Frame R S w (w'.addCopy t m d).1 :=
  (h.addMethod t d hR).modifyMethods_new _ h.methods_le

/-- Adding a copy to a type that is not an old one. -/
theorem addCopy_new (h : Frame R S w w') {t : TypeId} (m : MethodId)
    (d : MethodDef) (ht : w.types.size ≤ t.index) :
    Frame R S w (w'.addCopy t m d).1 :=
  h.addCopy t m d fun hlt => absurd hlt (by omega)

/-- Giving types a home in a way that `R` allows. -/
theorem setHome (h : Frame R S w w') (t : TypeId) (home : Option ModuleId)
    (hR : ∀ a b, R a b → R a { b with home }) :
    Frame R S w (w'.setHome t home) := by
  unfold Workspace.setHome
  generalize w'.underUpTo _ _ = ts
  induction ts generalizing w' with
  | nil => exact h
  | cons t ts ih => exact ih (h.updateType t _ fun _ hr => hR _ _ hr)

/-- Giving a home to types that are not old ones. -/
theorem setHome_new (h : Frame R S w w') {t : TypeId} (home : Option ModuleId)
    (ht : ∀ n ∈ w'.underUpTo (w'.types.size + 1) [t], w.types.size ≤ n.index) :
    Frame R S w (w'.setHome t home) := by
  unfold Workspace.setHome
  generalize w'.underUpTo _ _ = ts at ht
  induction ts generalizing w' with
  | nil => exact h
  | cons n ts ih =>
    refine ih (h.updateType_new _ (ht n (by simp))) fun n hn => ?_
    exact ht n (by simp [hn])

/-- Adding an empty type to a type in a way that `R` allows. -/
theorem addNested_leaf (h : Frame R S w w') (outer : TypeId) (d : TypeHead)
    (hR : outer.index < w.types.size → ∀ e ts, R (w.type outer) e →
      R (w.type outer) { e with nested := e.nested ++ ts }) :
    Frame R S w (w'.addNested outer (.mk d [] [])).1 := by
  have hle := h.types_le
  let inner : TypeId := ⟨w'.types.size⟩
  let f : TypeEntry → TypeEntry := fun e =>
    { e with outer := some outer, head := { e.head with ns := "" } }
  -- the new type has nothing under it
  have hleaf : ∀ fuel, ((w'.newType d).1.updateType inner f).underUpTo
      (fuel + 1) [inner] = [inner] := by
    intro fuel
    have hnested :
        (((w'.newType d).1.updateType inner f).type inner).nested = [] := by
      rw [type_updateType_self f (by simp [Workspace.newType, inner])]
      simp [f, Workspace.newType, Workspace.type, inner]
    cases fuel <;> simp [underUpTo, hnested]
  have hnew : Frame R S w ((w'.newType d).1.updateType inner f) :=
    (h.newType d).updateType_new f hle
  have hhome := hnew.setHome_new ((w'.newType d).1.type outer).home
    (t := inner) (by rw [hleaf]; simpa [inner] using hle)
  have houter := hhome.updateType outer
    (fun e => { e with nested := e.nested ++ [inner] })
      fun ho hr => hR ho _ _ hr
  simp only [Workspace.addNested, loadType, loadNested, List.foldl_nil,
    Workspace.attachNested]
  split
  · exact houter.touch _
  · exact houter

/-- Adding an empty type to a type that is not an old one. -/
theorem addNested_leaf_new (h : Frame R S w w') {outer : TypeId} (d : TypeHead)
    (ho : w.types.size ≤ outer.index) :
    Frame R S w (w'.addNested outer (.mk d [] [])).1 :=
  h.addNested_leaf outer d fun hlt => absurd hlt (by omega)

/-- Attaching a type that already knows where it belongs. -/
theorem attachNested {N : Set TypeId} {K : Set MethodId} {outer inner : TypeId}
    (h : Frame (TypeEntry.Stays N K) S w w')
    (hns : (w'.type inner).head.ns = "")
    (ho : (w'.type inner).outer = some outer) (hN : inner ∈ N) :
    Frame (TypeEntry.Stays N K) S w (w'.attachNested outer inner) := by
  let f : TypeEntry → TypeEntry := fun e =>
    { e with outer := some outer, head := { e.head with ns := "" } }
  have hinner : Frame (TypeEntry.Stays N K) S w (w'.updateType inner f) :=
    h.updateType inner f fun _ hr =>
      ⟨⟨hr.name, hns.symm.trans hr.ns, ho.symm.trans hr.outer, hr.isValueType,
        hr.nested⟩, hr.added, hr.methods, hr.kept⟩
  have hhome := hinner.setHome inner (w'.type outer).home fun _ _ hr =>
    ⟨⟨hr.name, hr.ns, hr.outer, hr.isValueType, hr.nested⟩, hr.added,
      hr.methods, hr.kept⟩
  have houter := hhome.updateType outer
    (fun e => { e with nested := e.nested ++ [inner] }) fun _ hr =>
      ⟨⟨hr.name, hr.ns, hr.outer, hr.isValueType,
        hr.nested.trans (List.prefix_append _ _)⟩, fun n hn => by
        rcases List.mem_append.1 hn with hn | hn
        · exact hr.added n hn
        · exact .inr (by rwa [List.mem_singleton.1 hn]), hr.methods, hr.kept⟩
  simp only [Workspace.attachNested]
  split
  · exact houter.touch _
  · exact houter

end Frame

/-- The methods are there and are no constructors, so no type loses them. -/
def Lasting (w : Workspace) (K : Set MethodId) : Prop :=
  ∀ m ∈ K, m.index < w.methods.size ∧ (w.method m).isConstructor = false

/-- Methods that no type loses stay such. -/
theorem Lasting.of_frame {R : TypeEntry → TypeEntry → Prop}
    {S K : Set MethodId} {w w' : Workspace} (h : w.Lasting K)
    (hf : Frame R S w w') : w'.Lasting K := fun m hm =>
  ⟨(h m hm).1.trans_le hf.methods_le,
    (hf.isConstructor_eq (h m hm).1).trans (h m hm).2⟩

/-- An attached type is among the nested ones. -/
theorem mem_nested_attachNested {w : Workspace} {outer inner : TypeId}
    (h : outer.index < w.types.size) :
    inner ∈ ((w.attachNested outer inner).type outer).nested := by
  simp only [attachNested]
  split
  · simp only [touch, type]
    rw [← type, type_updateType_self _ (by simpa using h)]
    simp
  · rw [type_updateType_self _ (by simpa using h)]
    simp

end Workspace

end JobWeave
