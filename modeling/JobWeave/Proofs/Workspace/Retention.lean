import JobWeave.Proofs.Plan.Drafting
import JobWeave.Proofs.Workspace.Development

/-!
# What stays of declarations

The pass gives methods other code and adds methods to types; what a type
declares can still be called as before.

* `MethodDef.Resembles` says that a method has the signature of another one.
* `Workspace.Retains` says that no method changes its signature and that no type
  but a closure loses a method.
* `Workspace.Amends` is a change that also leaves names, bases and places
  alone.  Nearly all that the pass does is a run of such changes.
-/

namespace JobWeave

open Framework

/-- The methods have the same name and signature. -/
structure MethodDef.Resembles (d d' : MethodDef) : Prop where
  /-- the name -/
  name : d'.name = d.name
  /-- the flags -/
  flags : d'.flags = d.flags
  /-- the result -/
  ret : d'.ret = d.ret
  /-- the types of the parameters -/
  params : d'.params.map (·.type) = d.params.map (·.type)
  /-- the generic parameters -/
  genericParams : d'.genericParams = d.genericParams

namespace MethodDef.Resembles

variable {a b c d d' : MethodDef}

theorem refl (d : MethodDef) : d.Resembles d :=
  ⟨rfl, rfl, rfl, rfl, rfl⟩

theorem trans (h₁ : a.Resembles b) (h₂ : b.Resembles c) : a.Resembles c :=
  ⟨h₂.name.trans h₁.name, h₂.flags.trans h₁.flags, h₂.ret.trans h₁.ret,
    h₂.params.trans h₁.params, h₂.genericParams.trans h₁.genericParams⟩

theorem hasThis_eq (h : d.Resembles d') : d'.hasThis = d.hasThis := by
  rw [MethodDef.hasThis, MethodDef.hasThis, MethodDef.isStatic,
    MethodDef.isStatic, h.flags]

theorem refOn_eq (h : d.Resembles d') (owner : TypeRef) :
    d'.refOn owner = d.refOn owner := by
  simp only [refOn, h.name, h.ret, h.params, h.hasThis_eq, h.genericParams]

theorem length_params (h : d.Resembles d') :
    d'.params.length = d.params.length := by
  simpa using congrArg List.length h.params

end MethodDef.Resembles

theorem MethodDef.Decorates.resembles {f : MethodDef → MethodDef}
    (h : MethodDef.Decorates f) (d : MethodDef) : d.Resembles (f d) :=
  ⟨(h d).1, (h d).2.1, (h d).2.2.1, (h d).2.2.2.1, (h d).2.2.2.2.1⟩

namespace Workspace

variable {U V w w₁ w₂ : Workspace} {t : TypeId} {m : MethodId}

/-- Methods keep their signatures, and types their methods; a closure may lose
some. -/
structure Retains (V w : Workspace) : Prop where
  /-- the signatures -/
  signature : ∀ m, m.index < V.methods.size →
    (V.method m).Resembles (w.method m)
  /-- the methods of types -/
  declared : ∀ t, t.index < V.types.size → (V.type t).head.isClosure = false →
    (V.type t).methods <+: (w.type t).methods

theorem Retains.refl (V : Workspace) : V.Retains V :=
  ⟨fun _ _ => .refl _, fun _ _ _ => List.prefix_refl _⟩

/-- A change that leaves the names, bases and places of types alone, the
signatures of methods and their owners, and the methods that types have. -/
structure Amends (w w' : Workspace) : Prop extends w.Alike w' where
  /-- the signatures -/
  signature : ∀ m, m.index < w.methods.size →
    (w.method m).Resembles (w'.method m)
  /-- the owners -/
  owner : ∀ m, m.index < w.methods.size → (w'.methodEntry m).owner =
    (w.methodEntry m).owner
  /-- the methods of types -/
  declared : ∀ t, (w.type t).methods <+: (w'.type t).methods

theorem Amends.refl (w : Workspace) : w.Amends w :=
  ⟨.refl w, fun _ _ => .refl _, fun _ _ => rfl, fun _ => List.prefix_refl _⟩

theorem Amends.trans (h₁ : w.Amends w₁) (h₂ : w₁.Amends w₂) : w.Amends w₂ :=
  ⟨h₁.toAlike.trans h₂.toAlike,
    fun m hm => (h₁.signature m hm).trans
      (h₂.signature m (hm.trans_le h₁.methods_le)),
    fun m hm => (h₂.owner m (hm.trans_le h₁.methods_le)).trans (h₁.owner m hm),
    fun t => (h₁.declared t).trans (h₂.declared t)⟩

/-- References to methods do not change. -/
theorem Amends.methodRef?_eq (h : w.Amends w₁) (hm : m.index < w.methods.size) :
    w₁.methodRef? m = w.methodRef? m := by
  have hmethod := (h.signature m hm).refOn_eq
  simp only [method] at hmethod
  simp only [methodRef?, h.owner m hm, hmethod, h.toAlike.selfRef_eq]

theorem Retains.amend (h : V.Retains w) (hd : V.Develops w) (ha : w.Amends w₁) :
    V.Retains w₁ :=
  ⟨fun m hm => (h.signature m hm).trans
    (ha.signature m (hm.trans_le hd.methods_le)),
    fun t ht hc => (h.declared t ht hc).trans (ha.declared t)⟩

/-- A change of a method that keeps its signature. -/
theorem amends_updateMethod (w : Workspace) (m : MethodId)
    {f : MethodDef → MethodDef} (hf : ∀ d : MethodDef, d.Resembles (f d)) :
    w.Amends (w.updateMethod m f) := by
  refine ⟨alike_updateMethod w m fun d => (hf d).name, fun n hn => ?_,
    fun n hn => ?_, fun _ => List.prefix_refl _⟩
  · rw [method, method]
    by_cases he : n = m
    · subst he
      rw [methodEntry_updateMethod_self f hn]
      exact hf _
    · rw [methodEntry_updateMethod_of_ne f he]
      exact .refl _
  · by_cases he : n = m
    · subst he
      rw [methodEntry_updateMethod_self f hn]
    · rw [methodEntry_updateMethod_of_ne f he]

theorem amends_setBody (w : Workspace) (m : MethodId) (b : Body) :
    w.Amends (w.updateMethod m fun d => { d with body := some b }) :=
  amends_updateMethod w m fun _ => ⟨rfl, rfl, rfl, rfl, rfl⟩

/-- A change of a type that keeps its name, its base, its place and its
methods. -/
theorem amends_updateType (w : Workspace) (t : TypeId)
    {f : TypeEntry → TypeEntry} (hf : ∀ e : TypeEntry, e.Alike (f e))
    (hm : ∀ e : TypeEntry, e.methods <+: (f e).methods) :
    w.Amends (w.updateType t f) := by
  refine ⟨alike_updateType w t hf, fun _ _ => .refl _, fun _ _ => rfl,
    fun t' => ?_⟩
  rw [type_updateType]
  split
  · exact hm _
  · exact List.prefix_refl _

/-- A type gets fields or attributes. -/
theorem amends_updateHead (w : Workspace) (t : TypeId) {f : TypeHead → TypeHead}
    (hf : TypeHead.Fills f) : w.Amends (w.updateHead t f) := by
  refine amends_updateType w t (fun e => ?_) fun _ => List.prefix_refl _
  rw [hf]
  exact ⟨rfl, rfl, rfl, rfl, rfl, rfl, List.Subset.refl _⟩

theorem amends_addField (w : Workspace) (t : TypeId) (f : FieldDef) :
    w.Amends (w.addField t f) :=
  amends_updateHead w t fun _ => rfl

theorem amends_addMethod (w : Workspace) (t : TypeId) (d : MethodDef) :
    w.Amends (w.addMethod t d).1 := by
  refine ⟨alike_addMethod w t d, fun m hm => ?_, fun m hm => ?_, fun t' => ?_⟩
  · rw [method, method, methodEntry_addMethod, if_neg hm.ne]
    exact .refl _
  · rw [methodEntry_addMethod, if_neg hm.ne]
  · rw [type_addMethod]
    split
    · exact List.prefix_append _ _
    · exact List.prefix_refl _

theorem amends_addCopy (w : Workspace) (t : TypeId) (m : MethodId)
    (d : MethodDef) :
    w.Amends (w.addCopy t m d).1 := by
  have hframe : w.Frame (fun _ _ => True) ∅ (w.addCopy t m d).1 :=
    (Frame.refl (fun _ => trivial) ∅ w).addCopy t m d fun _ _ _ => trivial
  refine ⟨alike_addCopy w t m d, fun n hn => ?_, fun n hn => ?_,
    (amends_addMethod w t d).declared⟩
  · rw [hframe.method_eq hn (Set.notMem_empty n)]
    exact .refl _
  · rw [← (amends_addMethod w t d).owner n hn]
    simp only [addCopy, methodEntry, Array.getElem?_modify]
    split
    · cases (w.addMethod t d).1.methods[n.index]? <;> rfl
    · rfl

/-! ## Changes of types -/

/-- A change of types that leaves methods alone and takes none from a type. -/
theorem Retains.of_types (h : V.Retains w) (hmethods : w₁.methods = w.methods)
    (htypes : ∀ t, t.index < V.types.size → (V.type t).head.isClosure = false →
      (w.type t).methods <+: (w₁.type t).methods) : V.Retains w₁ := by
  have hmethod : ∀ m, w₁.method m = w.method m := fun m => by
    rw [method, methodEntry, hmethods]
    rfl
  exact ⟨fun m hm => hmethod m ▸ h.signature m hm,
    fun t ht hc => (h.declared t ht hc).trans (htypes t ht hc)⟩

/-- A type is added. -/
theorem Retains.push (h : V.Retains w) (hd : V.Develops w) (e : TypeEntry) :
    V.Retains { w with types := w.types.push e } :=
  h.of_types rfl fun t ht _ => by
    rw [type_push, if_neg (ht.trans_le hd.types_le).ne]

/-- A type is put into another one. -/
theorem Retains.attachNested (h : V.Retains w) (outer inner : TypeId) :
    V.Retains (w.attachNested outer inner) :=
  h.of_types (methods_attachNested ..) fun t _ _ => by
    rw [methods_type_attachNested]

/-- A type without members is added to another one. -/
theorem Retains.addNested_leaf (h : V.Retains w) (hd : V.Develops w)
    (outer : TypeId) (d : TypeHead) :
    V.Retains (w.addNested outer (.mk d [] [])).1 := by
  simp only [addNested, loadType, loadNested, List.foldl_nil]
  exact (h.push hd _).attachNested _ _

/-- A closure may lose methods. -/
theorem Retains.updateClosure (h : V.Retains w) {f : TypeEntry → TypeEntry}
    (ht : t.index < V.types.size → (V.type t).head.isClosure) :
    V.Retains (w.updateType t f) := by
  refine h.of_types rfl fun t' ht' hc => ?_
  rw [type_updateType, if_neg]
  rintro ⟨rfl, -⟩
  rw [ht ht'] at hc
  cases hc

end Workspace

end JobWeave
