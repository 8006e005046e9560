import Mathlib.Data.List.Nodup
import Mathlib.Logic.Relation
import JobWeave.Proofs.Workspace.Frame

/-!
# Loaded modules are tidy

Laying modules out gives every type and method a place of its own.

* `Workspace.Tidy` says what holds of a workspace that was only loaded: the
  types form a forest, and each method belongs to one type and is no copy.
* Each way to add a definition keeps a workspace tidy, so loading does
  (`Workspace.tidy_loadAll`).
* In a tidy workspace the types of a module are listed once each
  (`Workspace.Tidy.nodup_typesOf`), and the full name of a type depends on the
  types around it alone (`Workspace.Tidy.typeName_eq`).
-/

namespace JobWeave.Workspace

variable {w : Workspace} {t t' n inner outer : TypeId} {m : MethodId}
variable {k : ModuleId}

/-! ## Tidy workspaces -/

/-- Every type has its place in a forest, and every method its type. -/
structure Tidy (w : Workspace) : Prop where
  /-- the methods of a type are there -/
  method_lt : ∀ t, ∀ m ∈ (w.type t).methods, m.index < w.methods.size
  /-- the methods of a type know it -/
  owner : ∀ t, ∀ m ∈ (w.type t).methods, (w.methodEntry m).owner = some t
  /-- no method is a copy -/
  model : ∀ t, ∀ m ∈ (w.type t).methods, (w.methodEntry m).model = none
  /-- a type has each method once -/
  methods_nodup : ∀ t, (w.type t).methods.Nodup
  /-- the types in a type are there -/
  nested_lt : ∀ t, ∀ n ∈ (w.type t).nested, n.index < w.types.size
  /-- the types in a type know it -/
  nested_outer : ∀ t, ∀ n ∈ (w.type t).nested, (w.type n).outer = some t
  /-- a type has each nested type once -/
  nested_nodup : ∀ t, (w.type t).nested.Nodup
  /-- a type comes after the one around it -/
  outer_lt : ∀ t o, (w.type t).outer = some o → o.index < t.index
  /-- the types of a module are there -/
  root_lt : ∀ k, ∀ t ∈ (w.moduleEntry k).types, t.index < w.types.size
  /-- no type is around them -/
  root_outer : ∀ k, ∀ t ∈ (w.moduleEntry k).types, (w.type t).outer = none
  /-- a module has each type once -/
  roots_nodup : ∀ k, (w.moduleEntry k).types.Nodup

theorem type_of_le (h : w.types.size ≤ t.index) : w.type t = default := by
  have hnone : w.types[t.index]? = none := by simpa using h
  rw [type, hnone]
  rfl

theorem methodEntry_of_le (h : w.methods.size ≤ m.index) :
    w.methodEntry m = default := by
  have hnone : w.methods[m.index]? = none := by simpa using h
  rw [methodEntry, hnone]
  rfl

/-- Every nested type is there. -/
def InnerPresent (w : Workspace) : Prop :=
  ∀ t, ∀ n ∈ (w.type t).nested, n.index < w.types.size

theorem Tidy.innerPresent (h : w.Tidy) : w.InnerPresent :=
  h.nested_lt

/-- A type in the module knows no type around it, so it is in no type. -/
theorem Tidy.not_mem_nested (h : w.Tidy) (ht : (w.type t).outer = none) :
    t ∉ (w.type t').nested := by
  intro hn
  rw [h.nested_outer t' t hn] at ht
  cases ht

@[simp]
theorem methods_default : (default : TypeEntry).methods = [] := rfl

@[simp]
theorem nested_default : (default : TypeEntry).nested = [] := rfl

@[simp]
theorem outer_default : (default : TypeEntry).outer = none := rfl

@[simp]
theorem types_default : (default : ModuleEntry).types = [] := rfl

/-- A type about which something is known is there. -/
theorem lt_of_ne_default (h : w.type t ≠ default) :
    t.index < w.types.size := by
  by_contra hge
  exact h (type_of_le (Nat.le_of_not_lt hge))

theorem lt_of_mem_methods (h : m ∈ (w.type t).methods) :
    t.index < w.types.size :=
  lt_of_ne_default fun he => by simp [he] at h

theorem lt_of_nested (h : n ∈ (w.type t).nested) : t.index < w.types.size :=
  lt_of_ne_default fun he => by simp [he] at h

theorem lt_of_outer (h : (w.type t).outer = some n) :
    t.index < w.types.size :=
  lt_of_ne_default fun he => by simp [he] at h

theorem tidy_empty : ({} : Workspace).Tidy := by
  have htype : ∀ t, ({} : Workspace).type t = default := fun t => rfl
  have hmodule : ∀ k, ({} : Workspace).moduleEntry k = default := fun k => rfl
  constructor <;> intros <;> simp_all only [methods_default, nested_default,
    outer_default, types_default, List.not_mem_nil, List.nodup_nil,
    reduceCtorEq]

/-! ## Additions keep a workspace tidy -/

/-- The types have the same methods and places in both workspaces. -/
structure SameLinks (w w' : Workspace) : Prop where
  /-- no type goes away -/
  types_le : w.types.size ≤ w'.types.size
  /-- the methods are the same -/
  entries : w'.methods = w.methods
  /-- the types have the same methods -/
  methods : ∀ t, (w'.type t).methods = (w.type t).methods
  /-- the types have the same nested types -/
  nested : ∀ t, (w'.type t).nested = (w.type t).nested
  /-- the types have the same types around them -/
  outer : ∀ t, (w'.type t).outer = (w.type t).outer
  /-- the modules have the same types -/
  roots : ∀ k, (w'.moduleEntry k).types = (w.moduleEntry k).types

theorem Tidy.of_sameLinks {w' : Workspace} (h : w.Tidy) (hl : w.SameLinks w') :
    w'.Tidy := by
  have hentry : ∀ m, w'.methodEntry m = w.methodEntry m := fun m => by
    simp [methodEntry, hl.entries]
  constructor
  case method_lt =>
    intro t m hm
    rw [hl.methods] at hm
    exact hl.entries ▸ h.method_lt t m hm
  case nested_lt =>
    intro t n hn
    rw [hl.nested] at hn
    exact (h.nested_lt t n hn).trans_le hl.types_le
  case root_lt =>
    intro k t ht
    rw [hl.roots] at ht
    exact (h.root_lt k t ht).trans_le hl.types_le
  all_goals simp only [hl.methods, hl.nested, hl.outer, hl.roots, hentry]
  · exact h.owner
  · exact h.model
  · exact h.methods_nodup
  · exact h.nested_outer
  · exact h.nested_nodup
  · exact h.outer_lt
  · exact h.root_outer
  · exact h.roots_nodup

theorem type_newType (w : Workspace) (h : TypeHead) (t : TypeId) :
    (w.newType h).1.type t =
      if t.index = w.types.size then { head := h } else w.type t := by
  simp only [newType, type, Array.getElem?_push]
  split <;> rfl

/-- A new type has no place yet. -/
theorem sameLinks_newType (w : Workspace) (h : TypeHead) :
    w.SameLinks (w.newType h).1 := by
  refine ⟨by simp [newType], rfl, ?_, ?_, ?_, fun _ => rfl⟩
  all_goals
    intro t
    rw [type_newType]
    split
    · rw [type_of_le (w := w) (by omega)]
      rfl
    · rfl

theorem sameLinks_newModule (w : Workspace) (name : String) :
    w.SameLinks (w.newModule name).1 := by
  refine ⟨Nat.le_refl _, rfl, fun _ => rfl, fun _ => rfl, fun _ => rfl, ?_⟩
  intro k
  simp only [newModule, moduleEntry, Array.getElem?_push]
  split
  · have hnone : w.modules[k.index]? = none := by simp; omega
    rw [hnone]
    rfl
  · rfl

theorem sameLinks_touch (w : Workspace) (k : ModuleId) :
    w.SameLinks (w.touch k) := by
  refine ⟨Nat.le_refl _, rfl, fun _ => rfl, fun _ => rfl, fun _ => rfl, ?_⟩
  intro k'
  simp only [touch, moduleEntry, Array.getElem?_modify]
  split
  · cases w.modules[k'.index]? <;> rfl
  · rfl

theorem SameLinks.refl (w : Workspace) : w.SameLinks w :=
  ⟨Nat.le_refl _, rfl, fun _ => rfl, fun _ => rfl, fun _ => rfl, fun _ => rfl⟩

theorem SameLinks.trans {w₁ w₂ : Workspace} (h₁ : w.SameLinks w₁)
    (h₂ : w₁.SameLinks w₂) : w.SameLinks w₂ :=
  ⟨h₁.types_le.trans h₂.types_le, h₂.entries.trans h₁.entries,
    fun t => (h₂.methods t).trans (h₁.methods t),
    fun t => (h₂.nested t).trans (h₁.nested t),
    fun t => (h₂.outer t).trans (h₁.outer t),
    fun k => (h₂.roots k).trans (h₁.roots k)⟩

/-- Reading a type back after a change of one. -/
theorem type_updateType (w : Workspace) (t t' : TypeId)
    (f : TypeEntry → TypeEntry) :
    (w.updateType t f).type t' =
      if t' = t ∧ t.index < w.types.size then f (w.type t') else w.type t' := by
  split
  · rename_i h
    obtain ⟨rfl, hlt⟩ := h
    exact type_updateType_self f hlt
  · rename_i h
    by_cases he : t' = t
    · have hle : w.types.size ≤ t.index :=
        Nat.le_of_not_lt fun hlt => h ⟨he, hlt⟩
      rw [he, type_of_le (by simpa using hle), type_of_le hle]
    · exact type_updateType_of_ne f he

/-- A home is no place among the types. -/
theorem sameLinks_setHome (w : Workspace) (t : TypeId)
    (home : Option ModuleId) : w.SameLinks (w.setHome t home) := by
  unfold setHome
  generalize w.underUpTo _ _ = ts
  induction ts generalizing w with
  | nil => exact .refl w
  | cons t ts ih =>
    refine SameLinks.trans ?_ (ih (w.updateType t fun e => { e with home }))
    refine ⟨by simp, rfl, ?_, ?_, ?_, fun _ => rfl⟩
    all_goals
      intro t'
      rw [type_updateType]
      split <;> rfl

theorem type_addMethod (w : Workspace) (t t' : TypeId) (d : MethodDef) :
    (w.addMethod t d).1.type t' =
      if t' = t ∧ t.index < w.types.size
      then { w.type t' with
        methods := (w.type t').methods ++ [⟨w.methods.size⟩] }
      else w.type t' :=
  type_updateType _ t t' _

theorem methodEntry_addMethod (w : Workspace) (t : TypeId) (d : MethodDef)
    (m : MethodId) :
    (w.addMethod t d).1.methodEntry m =
      if m.index = w.methods.size then { method := d, owner := some t }
      else w.methodEntry m := by
  by_cases hm : m.index = w.methods.size
  · simp [addMethod, newMethod, attachMethod, updateType, methodEntry, hm,
      Array.getElem_modify]
  · simp [addMethod, newMethod, attachMethod, updateType, methodEntry,
      Array.getElem?_modify, Array.getElem?_push, hm, Ne.symm hm]

/-- Adding a method at the end of a type. -/
theorem Tidy.addMethod (h : w.Tidy) (t : TypeId) (d : MethodDef) :
    (w.addMethod t d).1.Tidy := by
  have hmethods : ∀ t', ∀ m ∈ ((w.addMethod t d).1.type t').methods,
      m ∈ (w.type t').methods ∨ t' = t ∧ m.index = w.methods.size := by
    intro t' m hm
    rw [type_addMethod] at hm
    split at hm
    · rename_i ht
      rcases List.mem_append.1 hm with hm | hm
      · exact .inl hm
      · exact .inr ⟨ht.1, by rw [List.mem_singleton.1 hm]⟩
    · exact .inl hm
  have hentry : ∀ t', ∀ m ∈ (w.type t').methods,
      (w.addMethod t d).1.methodEntry m = w.methodEntry m := by
    intro t' m hm
    rw [methodEntry_addMethod, if_neg (h.method_lt t' m hm).ne]
  have hnested : ∀ t',
      ((w.addMethod t d).1.type t').nested = (w.type t').nested := by
    intro t'
    rw [type_addMethod]
    split <;> rfl
  have houter : ∀ t',
      ((w.addMethod t d).1.type t').outer = (w.type t').outer := by
    intro t'
    rw [type_addMethod]
    split <;> rfl
  constructor
  case method_lt =>
    intro t' m hm
    rw [methods_addMethod]
    rcases hmethods t' m hm with hm | ⟨-, hm⟩
    · exact (h.method_lt t' m hm).trans (Nat.lt_succ_self _)
    · omega
  case owner =>
    intro t' m hm
    rcases hmethods t' m hm with hm | ⟨rfl, hnew⟩
    · rw [hentry t' m hm]
      exact h.owner t' m hm
    · rw [methodEntry_addMethod, if_pos hnew]
  case model =>
    intro t' m hm
    rcases hmethods t' m hm with hm | ⟨rfl, hnew⟩
    · rw [hentry t' m hm]
      exact h.model t' m hm
    · rw [methodEntry_addMethod, if_pos hnew]
  case methods_nodup =>
    intro t'
    rw [type_addMethod]
    split
    · refine List.nodup_append.2 ⟨h.methods_nodup t', by simp, ?_⟩
      rintro m hm _ hnew rfl
      have hlt := h.method_lt t' m hm
      rw [List.mem_singleton.1 hnew] at hlt
      exact Nat.lt_irrefl _ hlt
    · exact h.methods_nodup t'
  case nested_lt =>
    intro t' n hn
    rw [types_addMethod]
    exact h.nested_lt t' n (hnested t' ▸ hn)
  case root_lt =>
    intro k t' ht
    rw [types_addMethod]
    exact h.root_lt k t' ht
  case roots_nodup => exact h.roots_nodup
  all_goals simp only [hnested, houter]
  · exact h.nested_outer
  · exact h.nested_nodup
  · exact h.outer_lt
  · exact h.root_outer

/-! Attaching a type to another one. -/

/-- An attached type is put after its home was set. -/
theorem type_attachNested (w : Workspace) (outer inner t : TypeId) :
    ∃ home, (w.attachNested outer inner).type t =
      (((w.updateType inner fun e =>
        { e with outer := some outer,
                 head := { e.head with ns := "" } }).setHome
          inner home).updateType outer fun e =>
            { e with nested := e.nested ++ [inner] }).type t := by
  refine ⟨(w.type outer).home, ?_⟩
  simp only [attachNested]
  split <;> rfl

theorem methods_type_attachNested (w : Workspace) (outer inner t : TypeId) :
    ((w.attachNested outer inner).type t).methods = (w.type t).methods := by
  obtain ⟨home, he⟩ := type_attachNested w outer inner t
  rw [he, type_updateType, apply_ite TypeEntry.methods, ite_self,
    (sameLinks_setHome _ inner home).methods, type_updateType,
    apply_ite TypeEntry.methods, ite_self]

theorem outer_type_attachNested (w : Workspace) (outer inner t : TypeId) :
    ((w.attachNested outer inner).type t).outer =
      if t = inner ∧ inner.index < w.types.size then some outer
      else (w.type t).outer := by
  obtain ⟨home, he⟩ := type_attachNested w outer inner t
  rw [he, type_updateType, apply_ite TypeEntry.outer, ite_self,
    (sameLinks_setHome _ inner home).outer, type_updateType,
    apply_ite TypeEntry.outer]

theorem nested_type_attachNested (w : Workspace) (outer inner t : TypeId) :
    ((w.attachNested outer inner).type t).nested =
      if t = outer ∧ outer.index < w.types.size
      then (w.type t).nested ++ [inner] else (w.type t).nested := by
  obtain ⟨home, he⟩ := type_attachNested w outer inner t
  rw [he, type_updateType, apply_ite TypeEntry.nested]
  simp only [(sameLinks_setHome _ inner home).nested, type_updateType,
    apply_ite TypeEntry.nested, ite_self, size_types_setHome,
    size_types_updateType]

theorem types_moduleEntry_attachNested (w : Workspace) (outer inner : TypeId)
    (k : ModuleId) :
    ((w.attachNested outer inner).moduleEntry k).types =
      (w.moduleEntry k).types := by
  simp only [attachNested]
  split
  · rw [(sameLinks_touch _ _).roots]
    exact (sameLinks_setHome _ inner _).roots k
  · exact (sameLinks_setHome _ inner _).roots k

/-- Attaching a type that has no place yet to an earlier one. -/
theorem Tidy.attachNested (h : w.Tidy) (ho : outer.index < inner.index)
    (hi : inner.index < w.types.size) (hfree : (w.type inner).outer = none)
    (hroot : ∀ k, inner ∉ (w.moduleEntry k).types) :
    (w.attachNested outer inner).Tidy := by
  have hentry : ∀ m, (w.attachNested outer inner).methodEntry m =
      w.methodEntry m := fun m => by simp [methodEntry]
  have houter := outer_type_attachNested w outer inner
  have hnested : ∀ t, ∀ n ∈ ((w.attachNested outer inner).type t).nested,
      n ∈ (w.type t).nested ∨ t = outer ∧ n = inner := by
    intro t n hn
    rw [nested_type_attachNested] at hn
    split at hn
    · rename_i ht
      rcases List.mem_append.1 hn with hn | hn
      · exact .inl hn
      · exact .inr ⟨ht.1, List.mem_singleton.1 hn⟩
    · exact .inl hn
  constructor
  case nested_lt =>
    intro t n hn
    rw [size_types_attachNested]
    rcases hnested t n hn with hn | ⟨-, rfl⟩
    · exact h.nested_lt t n hn
    · exact hi
  case nested_outer =>
    intro t n hn
    rw [houter]
    rcases hnested t n hn with hn | ⟨rfl, rfl⟩
    · rw [if_neg, h.nested_outer t n hn]
      rintro ⟨rfl, -⟩
      exact h.not_mem_nested hfree (by assumption)
    · rw [if_pos ⟨rfl, hi⟩]
  case nested_nodup =>
    intro t
    rw [nested_type_attachNested]
    split
    · refine List.nodup_append.2 ⟨h.nested_nodup t, by simp, ?_⟩
      rintro n hn _ hnew rfl
      rw [List.mem_singleton.1 hnew] at hn
      exact h.not_mem_nested hfree hn
    · exact h.nested_nodup t
  case outer_lt =>
    intro t o hto
    rw [houter] at hto
    split at hto
    · rename_i ht
      cases hto
      exact ht.1 ▸ ho
    · exact h.outer_lt t o hto
  case root_lt =>
    intro k t ht
    rw [types_moduleEntry_attachNested] at ht
    rw [size_types_attachNested]
    exact h.root_lt k t ht
  case root_outer =>
    intro k t ht
    rw [types_moduleEntry_attachNested] at ht
    rw [houter, if_neg, h.root_outer k t ht]
    rintro ⟨rfl, -⟩
    exact hroot k ht
  all_goals simp only [methods_type_attachNested, hentry, methods_attachNested,
    types_moduleEntry_attachNested]
  · exact h.method_lt
  · exact h.owner
  · exact h.model
  · exact h.methods_nodup
  · exact h.roots_nodup

theorem modules_setHome (w : Workspace) (t : TypeId) (home : Option ModuleId) :
    (w.setHome t home).modules = w.modules := by
  unfold setHome
  generalize w.underUpTo _ _ = ts
  induction ts generalizing w with
  | nil => rfl
  | cons t ts ih => exact ih _

theorem types_moduleEntry_attachType (w : Workspace) (t : TypeId)
    (k k' : ModuleId) :
    ((w.attachType k t).moduleEntry k').types =
      if k' = k ∧ k.index < w.modules.size then (w.moduleEntry k').types ++ [t]
      else (w.moduleEntry k').types := by
  rw [attachType, (sameLinks_touch _ k).roots]
  simp only [moduleEntry, modules_setHome, Array.getElem?_modify]
  by_cases hk : k' = k
  · subst hk
    by_cases hlt : k'.index < w.modules.size
    · simp [hlt]
    · simp [hlt]
  · have hne : k.index ≠ k'.index := by
      intro he
      exact hk (by cases k; cases k'; simp_all)
    simp [hk, hne]

/-- Putting a type that has no place yet into a module. -/
theorem Tidy.attachType (h : w.Tidy) (hlt : t.index < w.types.size)
    (hfree : (w.type t).outer = none)
    (hroot : ∀ k, t ∉ (w.moduleEntry k).types) : (w.attachType k t).Tidy := by
  -- a new home changes no links, so only the module's list is new
  have hhome := sameLinks_setHome w t (some k)
  have htype : ∀ t', (w.attachType k t).type t' =
      (w.setHome t (some k)).type t' := fun _ => rfl
  have hentry : ∀ m, (w.attachType k t).methodEntry m = w.methodEntry m :=
    fun m => congrArg (fun ms => (ms[m.index]?).getD default) hhome.entries
  have hsize : (w.attachType k t).types.size = w.types.size :=
    size_types_setHome w t (some k)
  have hroots : ∀ k', ∀ t' ∈ ((w.attachType k t).moduleEntry k').types,
      t' ∈ (w.moduleEntry k').types ∨ t' = t := by
    intro k' t' ht'
    rw [types_moduleEntry_attachType] at ht'
    split at ht'
    · simpa using ht'
    · exact .inl ht'
  constructor
  case method_lt =>
    intro t' m hm
    rw [htype, hhome.methods] at hm
    exact (congrArg Array.size hhome.entries) ▸ h.method_lt t' m hm
  case root_lt =>
    intro k' t' ht'
    rw [hsize]
    rcases hroots k' t' ht' with ht' | rfl
    · exact h.root_lt k' t' ht'
    · exact hlt
  case root_outer =>
    intro k' t' ht'
    rw [htype, hhome.outer]
    rcases hroots k' t' ht' with ht' | rfl
    · exact h.root_outer k' t' ht'
    · exact hfree
  case roots_nodup =>
    intro k'
    rw [types_moduleEntry_attachType]
    split
    · refine List.nodup_append.2 ⟨h.roots_nodup k', by simp, ?_⟩
      rintro t' ht' _ hnew rfl
      rw [List.mem_singleton.1 hnew] at ht'
      exact hroot k' ht'
    · exact h.roots_nodup k'
  all_goals simp only [htype, hentry, hsize, hhome.methods, hhome.nested,
    hhome.outer]
  · exact h.owner
  · exact h.model
  · exact h.methods_nodup
  · exact h.nested_lt
  · exact h.nested_outer
  · exact h.nested_nodup
  · exact h.outer_lt

/-! ## Loading -/

/-- Definitions were added that belong to no module yet. -/
structure Loads (w w' : Workspace) : Prop where
  /-- the workspace is tidy -/
  tidy : w'.Tidy
  /-- no type goes away -/
  types_le : w.types.size ≤ w'.types.size
  /-- the old types are where they were -/
  outer : ∀ t, t.index < w.types.size → (w'.type t).outer = (w.type t).outer
  /-- the modules have the same types -/
  roots : ∀ k, (w'.moduleEntry k).types = (w.moduleEntry k).types

theorem Loads.trans {w₁ w₂ : Workspace} (h₁ : w.Loads w₁) (h₂ : w₁.Loads w₂) :
    w.Loads w₂ where
  tidy := h₂.tidy
  types_le := h₁.types_le.trans h₂.types_le
  outer := fun t ht =>
    (h₂.outer t (ht.trans_le h₁.types_le)).trans (h₁.outer t ht)
  roots := fun k => (h₂.roots k).trans (h₁.roots k)

theorem Loads.addMethods (ms : List MethodDef) (h : w.Tidy) :
    w.Loads (ms.foldl (fun w m => (w.addMethod t m).1) w) := by
  induction ms generalizing w with
  | nil => exact ⟨h, Nat.le_refl _, fun _ _ => rfl, fun _ => rfl⟩
  | cons d ms ih =>
    refine Loads.trans ⟨h.addMethod t d, by simp, fun t' _ => ?_, fun _ => rfl⟩
      (ih (h.addMethod t d))
    rw [type_addMethod, apply_ite TypeEntry.outer, ite_self]

/-- A definition was added as the first new type, and has no place yet. -/
structure LoadsNew (w : Workspace) (d : TypeDef) : Prop where
  /-- it was added with its methods and the types inside it -/
  loads : w.Loads (w.loadType d).1
  /-- it is the first new type -/
  id : (w.loadType d).2 = ⟨w.types.size⟩
  /-- it is there -/
  lt : w.types.size < (w.loadType d).1.types.size
  /-- it is in no type -/
  outer : ((w.loadType d).1.type ⟨w.types.size⟩).outer = none

/-- Loading types into another one. -/
theorem loads_loadNested {ds : List TypeDef}
    (hds : ∀ d ∈ ds, ∀ w : Workspace, w.Tidy → w.LoadsNew d) {outer : TypeId}
    (h : w.Tidy) (ho : outer.index < w.types.size) :
    w.Loads (w.loadNested outer ds) := by
  induction ds generalizing w with
  | nil => exact ⟨h, Nat.le_refl _, fun _ _ => rfl, fun _ => rfl⟩
  | cons d ds ih =>
    obtain ⟨hload, hid, hlt, hfree⟩ := hds d (by simp) w h
    have hroot : ∀ k, ⟨w.types.size⟩ ∉
        ((w.loadType d).1.moduleEntry k).types := by
      intro k hk
      rw [hload.roots] at hk
      exact Nat.lt_irrefl _ (h.root_lt k _ hk)
    have hattach : w.Loads ((w.loadType d).1.attachNested outer
        ⟨w.types.size⟩) := by
      refine ⟨hload.tidy.attachNested ho hlt hfree hroot, ?_, ?_, ?_⟩
      · rw [size_types_attachNested]
        exact hload.types_le
      · intro t ht
        rw [outer_type_attachNested, if_neg, hload.outer t ht]
        rintro ⟨rfl, -⟩
        exact Nat.lt_irrefl _ ht
      · intro k
        rw [types_moduleEntry_attachNested, hload.roots]
    rw [loadNested]
    simp only [hid]
    exact hattach.trans (ih (fun d' hd' => hds d' (by simp [hd'])) hattach.tidy
      (ho.trans_le hattach.types_le))

/-- A loaded type is the first new one and has no place yet. -/
theorem loads_loadType : ∀ (d : TypeDef) (w : Workspace), w.Tidy → w.LoadsNew d
  | .mk d ms nested, w, h => by
    have hnew : w.Loads (w.newType d).1 :=
      have hl := sameLinks_newType w d
      ⟨h.of_sameLinks hl, hl.types_le, fun t _ => hl.outer t, hl.roots⟩
    have hms := Loads.addMethods (t := ⟨w.types.size⟩) ms hnew.tidy
    have hlt : w.types.size < (w.newType d).1.types.size := by simp [newType]
    have hnested := loads_loadNested
      (fun d' (_ : d' ∈ nested) => loads_loadType d') hms.tidy
      (hlt.trans_le hms.types_le)
    refine ⟨(hnew.trans hms).trans hnested, rfl,
      (hlt.trans_le hms.types_le).trans_le hnested.types_le, ?_⟩
    refine (hnested.outer ⟨w.types.size⟩ (hlt.trans_le hms.types_le)).trans ?_
    rw [hms.outer ⟨w.types.size⟩ hlt, type_newType, if_pos rfl]

theorem Tidy.addType (h : w.Tidy) (k : ModuleId) (d : TypeDef) :
    (w.addType k d).1.Tidy := by
  obtain ⟨hload, hid, hlt, hfree⟩ := loads_loadType d w h
  rw [Workspace.addType]
  simp only [hid]
  refine hload.tidy.attachType hlt hfree fun k' hk => ?_
  rw [hload.roots] at hk
  exact Nat.lt_irrefl _ (h.root_lt k' _ hk)

theorem Tidy.load (h : w.Tidy) (m : Module) : (w.load m).1.Tidy := by
  have hadd : ∀ (ds : List TypeDef) (k : ModuleId) (w : Workspace), w.Tidy →
      (ds.foldl (fun w d => (w.addType k d).1) w).Tidy := by
    intro ds k
    induction ds with
    | nil => exact fun _ hw => hw
    | cons d ds ih => exact fun w hw => ih _ (hw.addType k d)
  exact hadd m.types _ _ (h.of_sameLinks (sameLinks_newModule w m.name))

theorem Tidy.loadAll (h : w.Tidy) (ms : List Module) : (w.loadAll ms).1.Tidy :=
  List.foldlRecOn (motive := fun r : Workspace × List ModuleId => r.1.Tidy)
    ms _ h fun _ hr m _ => hr.load m

/-- Modules that were only loaded are tidy. -/
theorem tidy_loadAll (ms : List Module) :
    (({} : Workspace).loadAll ms).1.Tidy :=
  tidy_empty.loadAll ms

/-! ## The forest of types -/

/-- The second type is around the first one, or they are the same. -/
def Within (w : Workspace) : TypeId → TypeId → Prop :=
  Relation.ReflTransGen fun t o => (w.type t).outer = some o

theorem Tidy.index_le (h : w.Tidy) (ht : w.Within t t') :
    t'.index ≤ t.index := by
  induction ht with
  | refl => exact Nat.le_refl _
  | tail _ hs ih => exact (h.outer_lt _ _ hs).le.trans ih

/-- What is listed under some types is within one of them. -/
theorem Tidy.within_of_mem_under (h : w.Tidy) {fuel : Nat} {ts : List TypeId}
    (ht : t ∈ w.underUpTo fuel ts) : ∃ r ∈ ts, w.Within t r := by
  induction fuel generalizing ts with
  | zero => cases ht
  | succ fuel ih =>
    simp only [underUpTo, List.mem_flatMap, List.mem_cons] at ht
    obtain ⟨r, hr, rfl | ht⟩ := ht
    · exact ⟨t, hr, .refl⟩
    · obtain ⟨n, hn, hw⟩ := ih ht
      exact ⟨r, hr, hw.tail (h.nested_outer r n hn)⟩

/-- Types side by side have nothing in common. -/
theorem Tidy.eq_of_within (h : w.Tidy) {r r' : TypeId} (hr : w.Within t r)
    (hr' : w.Within t r') (ho : (w.type r).outer = (w.type r').outer) :
    r = r' := by
  have hside : ∀ {r r' : TypeId}, (w.type r).outer = (w.type r').outer →
      w.Within r r' → r = r' := by
    intro r r' ho hw
    rcases hw.cases_head with he | ⟨o, hro, hw⟩
    · exact he
    · have hle := h.index_le hw
      have hlt := h.outer_lt r' o (ho ▸ hro)
      omega
  have hunique : Relator.RightUnique fun t o => (w.type t).outer = some o :=
    fun _ _ _ ha hb => Option.some.inj (ha.symm.trans hb)
  rcases hr.total_of_right_unique hunique hr' with hw | hw
  · exact hside ho hw
  · exact (hside ho.symm hw).symm

/-- What is under types side by side is listed once. -/
theorem Tidy.nodup_underUpTo (h : w.Tidy) {fuel : Nat} {ts : List TypeId}
    {o : Option TypeId} (hts : ts.Nodup) (ho : ∀ t ∈ ts, (w.type t).outer = o) :
    (w.underUpTo fuel ts).Nodup := by
  induction fuel generalizing ts o with
  | zero => exact List.nodup_nil
  | succ fuel ih =>
    have hunder : ∀ t, (w.underUpTo fuel (w.type t).nested).Nodup := fun t =>
      ih (h.nested_nodup t) (h.nested_outer t)
    rw [underUpTo, List.nodup_flatMap]
    constructor
    · intro t _
      refine List.nodup_cons.2 ⟨fun ht => ?_, hunder t⟩
      obtain ⟨n, hn, hw⟩ := h.within_of_mem_under ht
      have hle := h.index_le hw
      have hlt := h.outer_lt n t (h.nested_outer t n hn)
      omega
    · have hin : ∀ t x, x ∈ t :: w.underUpTo fuel (w.type t).nested →
          w.Within x t := by
        intro t x hx
        have hx' : x ∈ w.underUpTo (fuel + 1) [t] := by
          simpa [underUpTo] using hx
        obtain ⟨r, hr, hw⟩ := h.within_of_mem_under hx'
        exact List.mem_singleton.1 hr ▸ hw
      refine hts.imp_of_mem fun {t t'} ht ht' hne x hx hx' => ?_
      exact hne (h.eq_of_within (hin t x hx) (hin t' x hx')
        ((ho t ht).trans (ho t' ht').symm))

/-- The types of a module are listed once each. -/
theorem Tidy.nodup_typesOf (h : w.Tidy) (k : ModuleId) : (w.typesOf k).Nodup :=
  h.nodup_underUpTo (h.roots_nodup k) (h.root_outer k)

/-- The types under types that are there are there. -/
theorem InnerPresent.lt_of_mem_underUpTo (h : w.InnerPresent) {fuel : Nat}
    {ts : List TypeId} (hts : ∀ t ∈ ts, t.index < w.types.size)
    (ht : t ∈ w.underUpTo fuel ts) :
    t.index < w.types.size := by
  induction fuel generalizing ts with
  | zero => cases ht
  | succ fuel ih =>
    simp only [underUpTo, List.mem_flatMap, List.mem_cons] at ht
    obtain ⟨r, hr, rfl | ht⟩ := ht
    · exact hts t hr
    · exact ih (h r) ht

/-- The types of a module are there. -/
theorem Tidy.lt_of_mem_typesOf (h : w.Tidy) (ht : t ∈ w.typesOf k) :
    t.index < w.types.size :=
  h.innerPresent.lt_of_mem_underUpTo (h.root_lt k) ht

/-- The full name of a type is settled by names, namespaces and places. -/
theorem Tidy.typeName_congr {w' : Workspace} (h : w.Tidy)
    (hle : w.types.size ≤ w'.types.size) (hsame : ∀ t, t.index < w.types.size →
      (w'.type t).head.name = (w.type t).head.name ∧
      (w'.type t).head.ns = (w.type t).head.ns ∧
      (w'.type t).outer = (w.type t).outer)
    (ht : t.index < w.types.size) : w'.typeName t = w.typeName t := by
  have hname : ∀ (i fuel fuel' : Nat) (t : TypeId), t.index = i → i < fuel →
      i < fuel' → t.index < w.types.size →
      w'.typeNameUpTo fuel t = w.typeNameUpTo fuel' t := by
    intro i
    induction i using Nat.strong_induction_on with
    | _ i ih =>
      intro fuel fuel' t hi hfuel hfuel' hlt
      obtain ⟨fuel, rfl⟩ := Nat.exists_eq_succ_of_ne_zero (by omega : fuel ≠ 0)
      obtain ⟨fuel', rfl⟩ := Nat.exists_eq_succ_of_ne_zero
        (by omega : fuel' ≠ 0)
      obtain ⟨hn, hns, houter⟩ := hsame t hlt
      simp only [typeNameUpTo, houter]
      cases ho : (w.type t).outer with
      | none => simp [TypeDef.qualifiedName, hn, hns]
      | some o =>
        have hlt' := h.outer_lt t o ho
        have heq := ih o.index (by omega) fuel fuel' o rfl (by omega) (by omega)
          (by omega)
        simp [TypeDef.qualifiedName, hn, heq]
  exact hname t.index _ _ t rfl (by omega) (by omega) ht

/-- The full name of a type stays the same while types grow. -/
theorem Tidy.typeName_eq {S : Set MethodId} {w' : Workspace} (h : w.Tidy)
    (hf : w.Frame TypeEntry.Grows S w') (ht : t.index < w.types.size) :
    w'.typeName t = w.typeName t :=
  h.typeName_congr hf.types_le (fun t hlt =>
    ⟨(hf.type t hlt).name, (hf.type t hlt).ns, (hf.type t hlt).outer⟩) ht

end JobWeave.Workspace
