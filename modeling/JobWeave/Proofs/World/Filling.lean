import Mathlib
import JobWeave.Proofs.Workspace.BuiltIn
import JobWeave.Proofs.World.Planning

/-!
# Filling the struct of a job

Before its plan is committed the struct of a job is nowhere in the modules.  It
gets fields and methods, and the methods get code; what references resolve to
does not change by that.

* `Workspace.Fills` relates the definitions at some time to those while the
  struct is filled.
* `World.Detaches` says that no reference resolves to the struct.
* `World.Filling` says that the struct is filled since some time, and that the
  universe that look-ups use is the one of that time.
* `Weave.resolveMethod_finds`: a method reference resolves as it did then.
-/

namespace JobWeave

open Framework Std.Do

set_option mvcgen.warning false

namespace Workspace

variable {V w w' : Workspace} {job : TypeId}

/-- Only the struct has got members, and only methods that were added have got
code. -/
structure Fills (V : Workspace) (job : TypeId) (w : Workspace) : Prop where
  /-- the modules -/
  modules : w.modules = V.modules
  /-- the number of types -/
  types : w.types.size = V.types.size
  /-- the other types -/
  type_eq : ∀ t, t ≠ job → w.type t = V.type t
  /-- the struct, its members apart -/
  job_eq : w.type job = { V.type job with
    methods := (w.type job).methods
    head := { (V.type job).head with
      fields := (w.type job).head.fields, attributes :=
        (w.type job).head.attributes } }
  /-- no method went away -/
  methods_le : V.methods.size ≤ w.methods.size
  /-- the methods that were there -/
  old : ∀ m, m.index < V.methods.size → w.methodEntry m = V.methodEntry m

namespace Fills

theorem refl (w : Workspace) (job : TypeId) : w.Fills job w :=
  ⟨rfl, rfl, fun _ _ => rfl, rfl, Nat.le_refl _, fun _ _ => rfl⟩

/-- What a type says of itself stays, its members apart. -/
theorem head_eq (h : V.Fills job w) (t : TypeId) :
    (w.type t).head = { (V.type t).head with
      fields := (w.type t).head.fields, attributes :=
        (w.type t).head.attributes } := by
  by_cases ht : t = job
  · subst ht
    exact congrArg TypeEntry.head h.job_eq
  · rw [h.type_eq t ht]

theorem outer_eq (h : V.Fills job w) (t : TypeId) :
    (w.type t).outer = (V.type t).outer := by
  by_cases ht : t = job
  · subst ht
    rw [h.job_eq]
  · rw [h.type_eq t ht]

theorem nested_eq (h : V.Fills job w) (t : TypeId) :
    (w.type t).nested = (V.type t).nested := by
  by_cases ht : t = job
  · subst ht
    rw [h.job_eq]
  · rw [h.type_eq t ht]

theorem method_eq (h : V.Fills job w) {m : MethodId}
    (hm : m.index < V.methods.size) :
    w.method m = V.method m :=
  congrArg MethodEntry.method (h.old m hm)

/-! ### Names and look-ups -/

theorem typeName_eq (h : V.Fills job w) (t : TypeId) :
    w.typeName t = V.typeName t := by
  have hupTo : ∀ fuel t, w.typeNameUpTo fuel t = V.typeNameUpTo fuel t := by
    intro fuel
    induction fuel with
    | zero => exact fun _ => rfl
    | succ fuel ih =>
      intro t
      rw [typeNameUpTo, typeNameUpTo, h.outer_eq, h.head_eq, funext ih]
      rfl
  rw [typeName, typeName, h.types, hupTo]

theorem typesOf_eq (h : V.Fills job w) (k : ModuleId) :
    w.typesOf k = V.typesOf k := by
  have hupTo : ∀ fuel ts, w.underUpTo fuel ts = V.underUpTo fuel ts := by
    intro fuel
    induction fuel with
    | zero => exact fun _ => rfl
    | succ fuel ih =>
      intro ts
      simp only [underUpTo, h.nested_eq, ih]
  rw [typesOf, typesOf, h.types, hupTo, moduleEntry, moduleEntry, h.modules]

/-- The universe is brought up to date with the same result. -/
theorem refresh_eq (h : V.Fills job w) (u : Universe) :
    u.refresh w = u.refresh V := by
  have hindex : ∀ mods, Universe.buildIndex w mods = Universe.buildIndex V
      mods := fun mods => by
    refine List.flatMap_congr fun k _ => ?_
    rw [namedTypesOf, namedTypesOf, h.typesOf_eq]
    exact List.map_congr_left fun t _ => by rw [h.typeName_eq]
  have hcounts : ∀ mods, Universe.editCounts w mods = Universe.editCounts V
      mods := fun mods =>
    List.map_congr_left fun k _ => by rw [moduleEntry, moduleEntry, h.modules]
  rw [Universe.refresh, Universe.refresh, Universe.isFresh, Universe.isFresh,
    Universe.ofModules, Universe.ofModules, hcounts, hindex]

theorem lineage_eq (h : V.Fills job w) (u : Universe) (o : Option TypeId) :
    u.lineage w o = u.lineage V o := by
  have hupTo : ∀ fuel t, u.lineageUpTo w fuel t = u.lineageUpTo V fuel t := by
    intro fuel
    induction fuel with
    | zero => exact fun _ => rfl
    | succ fuel ih =>
      intro t
      rw [Universe.lineageUpTo, Universe.lineageUpTo, Universe.baseOf?,
        Universe.baseOf?, h.head_eq]
      simp only [ih]
  cases o with
  | none => rfl
  | some t => rw [Universe.lineage, Universe.lineage, h.types, hupTo]

/-! ### Steps -/

theorem updateHead (h : V.Fills job w) {f : TypeHead → TypeHead}
    (hf : TypeHead.Fills f) :
    V.Fills job (w.updateHead job f) where
  modules := h.modules
  types := by rw [Workspace.updateHead, size_types_updateType, h.types]
  type_eq t ht := by
    rw [Workspace.updateHead, type_updateType, if_neg fun hc => ht hc.1,
      h.type_eq t ht]
  job_eq := by
    rw [Workspace.updateHead, type_updateType]
    split
    · conv_lhs => rw [hf]
      rw [h.job_eq]
    · exact h.job_eq
  methods_le := h.methods_le
  old := h.old

theorem updateMethod (h : V.Fills job w) {m : MethodId}
    (hm : V.methods.size ≤ m.index) (f : MethodDef → MethodDef) :
    V.Fills job (w.updateMethod m f) where
  modules := h.modules
  types := h.types
  type_eq := h.type_eq
  job_eq := h.job_eq
  methods_le := by simpa using h.methods_le
  old n hn := by
    rw [methodEntry_updateMethod_of_ne _ (by rintro rfl; omega), h.old n hn]

theorem addCopy (h : V.Fills job w) (m : MethodId) (d : MethodDef) :
    V.Fills job (w.addCopy job m d).1 where
  modules := h.modules
  types := by rw [types_addCopy, h.types]
  type_eq t ht := by
    have hadd := type_addMethod w job t d
    rw [if_neg fun hc => ht hc.1] at hadd
    exact hadd.trans (h.type_eq t ht)
  job_eq := by
    have hadd : (w.addCopy job m d).1.type job = _ := type_addMethod w job job d
    rw [hadd]
    split
    · rw [h.job_eq]
    · exact h.job_eq
  methods_le := by
    have hle := h.methods_le
    rw [methods_addCopy]
    omega
  old n hn := by
    have hne : n.index ≠ w.methods.size := (hn.trans_le h.methods_le).ne
    have hadd : (w.addCopy job m d).1.methodEntry n =
        (w.addMethod job d).1.methodEntry n := by
      simp [Workspace.addCopy, methodEntry, addMethod, newMethod,
        Array.getElem?_modify, hne.symm]
    rw [hadd, methodEntry_addMethod, if_neg hne, h.old n hn]

end Fills

/-! ## What references resolve to -/

/-- No reference resolves to the struct, and the methods of types are there. -/
structure Detaches (V : Workspace) (u : Universe) (job : TypeId) : Prop where
  /-- the struct has no name -/
  unnamed : ∀ p ∈ u.index, p.2 ≠ job
  /-- the methods -/
  method_lt : ∀ t, ∀ m ∈ (V.type t).methods, m.index < V.methods.size

variable {u : Universe}

instance (V : Workspace) (u : Universe) (job : TypeId) :
    Decidable (V.Detaches u job) :=
  decidable_of_iff ((∀ p ∈ u.index, p.2 ≠ job) ∧
      ∀ e ∈ V.types.toList, ∀ m ∈ e.methods, m.index < V.methods.size) <| by
    refine ⟨fun ⟨hindex, htypes⟩ => ⟨hindex, fun t m hm => ?_⟩,
      fun ⟨hindex, hlt⟩ => ⟨hindex, fun e he m hm => ?_⟩⟩
    · by_cases ht : t.index < V.types.size
      · have htype : V.type t = V.types[t.index] := by simp [type, ht]
        exact htypes _ (Array.getElem_mem_toList ht) m (htype ▸ hm)
      · simp [type, ht] at hm
    · obtain ⟨n, hn, rfl⟩ := List.getElem_of_mem he
      rw [Array.length_toList] at hn
      exact hlt ⟨n⟩ m (by simpa [type, hn] using hm)

theorem Detaches.ne_of_resolve (h : V.Detaches u job) {r : TypeRef} {t : TypeId}
    (ht : u.resolve? r = some t) : t ≠ job := by
  rw [Universe.resolve?, Option.bind_eq_bind, Option.bind_eq_some_iff] at ht
  obtain ⟨n, -, hfind⟩ := ht
  exact h.unnamed _ (Universe.mem_of_lookup hfind)

theorem Detaches.ne_of_mem_lineage (h : V.Detaches u job) {r : TypeRef}
    {t : TypeId} (ht : t ∈ u.lineage V (u.resolve? r)) : t ≠ job := by
  have hupTo : ∀ fuel t, t ≠ job → ∀ s ∈ u.lineageUpTo V fuel t, s ≠ job := by
    intro fuel
    induction fuel with
    | zero => simp [Universe.lineageUpTo]
    | succ fuel ih =>
      intro t ht s hs
      rw [Universe.lineageUpTo] at hs
      split at hs
      · rename_i b hb
        rcases List.mem_cons.1 hs with rfl | hs
        · exact ht
        · exact ih b (h.ne_of_resolve hb) s hs
      · rw [List.mem_singleton.1 hs]
        exact ht
  cases hres : u.resolve? r with
  | none => simp [hres, Universe.lineage] at ht
  | some b =>
    rw [hres, Universe.lineage] at ht
    exact hupTo _ b (h.ne_of_resolve hres) t ht

/-- A method reference resolves to what it resolved to before. -/
theorem Fills.resolveMethod?_eq (h : V.Fills job w) (hd : V.Detaches u job)
    (r : MethodRef) :
    u.resolveMethod? w r = u.resolveMethod? V r := by
  have htypes : ∀ t ∈ u.lineage V (u.resolve? r.owner), w.type t = V.type t :=
    fun t ht => h.type_eq t (hd.ne_of_mem_lineage ht)
  rw [Universe.resolveMethod?, Universe.resolveMethod?, h.lineage_eq,
    List.flatMap_congr fun t ht => congrArg TypeEntry.methods (htypes t ht)]
  refine Universe.firstSome?_congr fun m hm => ?_
  obtain ⟨t, -, hm⟩ := List.mem_flatMap.1 hm
  rw [h.method_eq (hd.method_lt t m hm)]

end Workspace

/-! ## Worlds -/

/-- The struct is filled since some time, the universe is that of then, and the
definitions have a property. -/
structure World.Filling (V : Workspace) (u : Universe) (job : TypeId)
    (I : Workspace → Prop) (w : World) : Prop where
  /-- the definitions -/
  fills : V.Fills job w.workspace
  /-- the universe -/
  resolver : w.resolver.refresh w.workspace = u
  /-- the property -/
  holds : I w.workspace

variable {V : Workspace} {u : Universe} {job : TypeId} {I I' : Workspace → Prop}

/-- At the start nothing is filled in. -/
theorem World.filling_refl (w : World) (job : TypeId) (h : I w.workspace) :
    w.Filling w.workspace (w.resolver.refresh w.workspace) job I :=
  ⟨.refl _ _, rfl, h⟩

/-- A change that fills the struct leaves the universe alone. -/
theorem World.Filling.fill {w : World} {W : Workspace} (h : w.Filling V u job I)
    (hW : V.Fills job W) (hI : I' W) :
    World.Filling V u job I' { w with workspace := W } :=
  ⟨hW, by rw [hW.refresh_eq, ← h.fills.refresh_eq, h.resolver], hI⟩

theorem World.Filling.imp {w : World} (h : w.Filling V u job I)
    (hI : I w.workspace → I' w.workspace) : w.Filling V u job I' :=
  ⟨h.fills, h.resolver, hI h.holds⟩

namespace Weave

theorem resolver_filling :
    Yields (World.Filling V u job I) (· = u) resolver := by
  refine triple_iff.2 fun w hw => ?_
  obtain ⟨hfills, hres, hI⟩ := hw.holds
  exact ⟨⟨hfills, by rw [Universe.refresh_refresh, hres], hI⟩, hres⟩

theorem resolver_fills : Preserves (World.Filling V u job I) resolver :=
  resolver_filling.preserves

theorem modifyImports_fills {f : Imports → Imports} :
    Preserves (World.Filling V u job I) (modifyImports f) :=
  triple_iff.2 fun _ hw => ⟨⟨hw.holds.fills, hw.holds.resolver, hw.holds.holds⟩⟩

/-- Looking things up goes on with the same universe. -/
instance : World.Importing (World.Filling V u job I) :=
  have hmethod : ∀ owner name params arity first,
    Preserves (World.Filling V u job I)
      (importGenericMethod owner name params arity first) := by
    intro owner name params arity first
    unfold importGenericMethod logRepeat logMiss
    mvcgen [resolver_fills, modifyImports_fills, -resolver_keeps,
      -modifyImports_keeps, -resolver_preserves]
  { resolver := resolver_fills
    internType := fun key placeholder => by
      unfold internType logRepeat logMiss
      mvcgen [resolver_fills, modifyImports_fills, -resolver_keeps,
        -modifyImports_keeps, -resolver_preserves]
    importField := fun owner name _ => by
      unfold importField logRepeat logMiss
      mvcgen [resolver_fills, modifyImports_fills, -resolver_keeps,
        -modifyImports_keeps, -resolver_preserves]
    importMethod := fun _ _ _ _ => hmethod _ _ _ _ _
    importGenericMethod := hmethod }

/-- A method reference resolves as it did before the struct was filled. -/
theorem resolveMethod_finds (hd : V.Detaches u job) {r : MethodRef} :
    Yields (World.Filling V u job I) (fun o => u.resolveMethod? V r = some o)
      (resolveMethod r) := by
  unfold resolveMethod
  mvcgen [resolver_filling, -resolver_preserves, -resolver_keeps]
  · rename_i w hw n hn
    obtain ⟨hw, rfl⟩ := hw
    exact ⟨hw, (hw.holds.fills.resolveMethod?_eq hd r).symm.trans hn⟩
  · rename_i hw _
    exact hw.1

end Weave

end JobWeave
