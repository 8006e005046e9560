import Mathlib
import JobWeave.Proofs.Splice.Development
import JobWeave.Proofs.World.Planning
import JobWeave.Proofs.World.Splicing
import JobWeave.Proofs.Workspace.BuiltIn

/-!
# Worlds whose creation code can be trusted

While the pass runs, types and methods are added and references are imported.
All the time the names that the creation code uses resolve to the framework's
own types, and what the import table remembers of them has the signature that
the creation code counts on.

* `World.Trusts V mods` is this property; `V` is the workspace at the start.
* It is preserved by looking things up (`World.Searchable`), by changes that
  leave declarations alone (`World.Editable`), and where types are added or
  closures converted.
* `Weave.importEntities_names` and `Weave.importGenericMethod_fits` say what
  look-ups give.
-/

namespace JobWeave

open Framework Std.Do

set_option mvcgen.warning false

/-- The names that the creation code uses resolve to the framework's own types,
and the import table agrees with them. -/
structure World.Trusts (V : Workspace) (mods : List ModuleId) (w : World) :
    Prop where
  /-- the names resolve to the framework's own types at the start -/
  grounds : V.Grounds mods
  /-- what became of the definitions -/
  develops : V.Develops w.workspace
  /-- what stayed of the declarations -/
  retains : V.Retains w.workspace
  /-- the modules -/
  modules : w.resolver.modules = mods
  /-- what the index has -/
  found : ∀ name ∈ creationTypes,
    w.resolver.index.lookup name = (Universe.buildIndex V mods).lookup name
  /-- the types in the import table -/
  types : ∀ name ∈ creationTypes, ∀ r, w.imports.types.lookup name = some r →
    r.Names name
  /-- the methods in the import table -/
  methods : ∀ c ∈ libraryCalls, ∀ m, w.imports.methods.lookup c.key = some m →
    c.Fits m

/-- No job has the name of a type that the creation code uses. -/
theorem Framework.hasJobPrefix_eq_false {name : String}
    (h : name ∈ creationTypes) :
    hasJobPrefix name = false := by
  rw [creationTypes, List.mem_eraseDups, List.mem_map] at h
  obtain ⟨c, hc, rfl⟩ := h
  have hclear := LibraryCall.isClear_of_mem c hc
  simp only [LibraryCall.isClear, Bool.and_eq_true] at hclear
  simpa using hclear.2

namespace World.Trusts

variable {V W : Workspace} {mods : List ModuleId} {w : World}

/-- A change of the definitions. -/
theorem sustain (h : w.Trusts V mods) (hd : V.Develops W) (hr : V.Retains W) :
    World.Trusts V mods { w with workspace := W } :=
  { h with develops := hd, retains := hr }

/-- A change of the definitions that leaves declarations as they are. -/
theorem amend (h : w.Trusts V mods) (ha : w.workspace.Amends W) :
    World.Trusts V mods { w with workspace := W } :=
  h.sustain (h.develops.of_alike ha.toAlike) (h.retains.amend h.develops ha)

/-- Bringing the universe up to date. -/
theorem refresh (h : w.Trusts V mods) :
    World.Trusts V mods
      { w with resolver := w.resolver.refresh w.workspace } := by
  cases hfresh : w.resolver.isFresh w.workspace with
  | true =>
    rw [Universe.refresh, hfresh, if_pos rfl]
    exact h
  | false =>
    rw [Universe.refresh, hfresh, if_neg Bool.false_ne_true, h.modules]
    exact { h with
      modules := rfl
      found := fun name hname => Universe.lookup_buildIndex h.develops
        h.grounds.tidy (hasJobPrefix_eq_false hname) }

/-- The marks of types that no method owns do not matter. -/
theorem markForeign (h : w.Trusts V mods) (ts : List TypeRef) :
    World.Trusts V mods { w with foreignMarks := w.foreignMarks ++ ts } :=
  { h with }

/-- The log and the table of fields do not matter. -/
theorem of_imports {im : Imports} (h : w.Trusts V mods)
    (htypes : im.types = w.imports.types)
    (hmethods : im.methods = w.imports.methods) :
    World.Trusts V mods { w with imports := im } :=
  { h with
    types := fun name hname r hr => h.types name hname r (htypes ▸ hr)
    methods := fun c hc m hm => h.methods c hc m (hmethods ▸ hm) }

/-- Remembering a type. -/
theorem addType (h : w.Trusts V mods) {key : String} {r : TypeRef}
    (hr : key ∈ creationTypes → r.Names key) :
    World.Trusts V mods
      { w with
        imports := { w.imports with
          types := (key, r) :: w.imports.types } } := by
  refine { h with types := fun name hname r' hr' => ?_ }
  rw [List.lookup_cons] at hr'
  by_cases he : name = key
  · subst he
    simp only [beq_self_eq_true, Option.some.injEq] at hr'
    exact hr' ▸ hr hname
  · simp only [beq_eq_false_iff_ne.mpr he] at hr'
    exact h.types name hname r' hr'

/-- Remembering a method. -/
theorem addMethod (h : w.Trusts V mods) {key : String} {m : MethodRef}
    (hm : ∀ c ∈ libraryCalls, key = c.key → c.Fits m) :
    World.Trusts V mods
      { w with
        imports := { w.imports with
          methods := (key, m) :: w.imports.methods } } := by
  refine { h with methods := fun c hc m' hm' => ?_ }
  rw [List.lookup_cons] at hm'
  by_cases he : c.key = key
  · simp only [he, beq_self_eq_true, Option.some.injEq] at hm'
    exact hm' ▸ hm c hc he.symm
  · simp only [beq_eq_false_iff_ne.mpr he] at hm'
    exact h.methods c hc m' hm'

/-- The type that a name of the creation code resolves to has this name. -/
theorem names_typeRef (h : w.Trusts V mods) {name : String} {t : TypeId}
    (hname : name ∈ creationTypes)
    (ht : w.resolver.index.lookup name = some t) :
    (w.workspace.typeRef t).Names name := by
  obtain ⟨t', hlookup, hlt, htype⟩ := h.grounds.find hname
  rw [h.found name hname, hlookup] at ht
  cases ht
  exact htype ▸ h.develops.names_typeRef h.grounds.tidy hlt

end World.Trusts

/-! ## Keys -/

namespace LibraryCall

variable {c : LibraryCall}

/-- The key tells the parts of the look-up. -/
theorem eq_of_key (hc : c ∈ libraryCalls) {owner name : String}
    {params arity : Int} {names : List String}
    (h : methodKey owner name params arity names = c.key) :
    owner = c.type ∧ name = c.name ∧ params = c.params ∧ arity = -1 ∧
      names = c.first.toList := by
  have hclear := isClear_of_mem c hc
  simp only [isClear, Bool.and_eq_true, List.all_eq_true, bne_iff_ne] at hclear
  obtain ⟨⟨⟨⟨htype, hname⟩, hfirst⟩, -⟩, -⟩ := hclear
  refine methodKey_inj (fun x hx => htype x hx) hname (fun s hs x hx => ?_) h
  exact (hfirst s (Option.mem_toList.mpr hs)).2 x hx

/-- The owner of the look-up is a type by name. -/
theorem isNamed_of_openName (hc : c ∈ libraryCalls) {owner : TypeRef}
    (h : owner.openName = c.type) : owner.isNamed = true := by
  have hclear := isClear_of_mem c hc
  simp only [isClear, Bool.and_eq_true, bne_iff_ne] at hclear
  exact TypeRef.isNamed_of_openName (h ▸ hclear.1.2)

/-- A look-up with the names of the call finds what the call does. -/
theorem fits?_eq (hc : c ∈ libraryCalls) {first : List TypeRef}
    (h : first.mapM (·.fullName?) = some c.first.toList) (d : MethodDef) :
    fits? c.name c.params (-1) first d = fits? c.name c.params (-1)
      c.firstRefs d := by
  have hclear := isClear_of_mem c hc
  simp only [isClear, Bool.and_eq_true, List.all_eq_true, bne_iff_ne] at hclear
  obtain ⟨⟨⟨-, hfirst⟩, -⟩, -⟩ := hclear
  rw [firstRefs]
  cases hname : c.first with
  | none =>
    rw [hname] at h
    cases first with
    | nil => rfl
    | cons t ts => simp [List.mapM_cons, Option.bind_eq_some_iff] at h
  | some name =>
    rw [hname] at h hfirst
    rcases first with _ | ⟨t, _ | ⟨t', ts⟩⟩
    case nil => simp at h
    case cons.cons => simp [List.mapM_cons, Option.bind_eq_some_iff] at h
    have hfull : t.fullName? = some name := by
      simpa [Option.bind_eq_some_iff] using h
    have hne : name ≠ TypeRef.absentText := (hfirst name (by simp)).1
    have ht : t.name? = some name := by cases t <;> simp_all [TypeRef.fullName?]
    have hopen : (TypeRef.ofName "" name false).name? = some name := by
      simp [TypeRef.ofName, TypeRef.name?, TypeRef.openName]
    exact fits?_first (by simp [hopen]) (by simp [ht, hopen])

end LibraryCall

theorem Universe.lineage_some (u : Universe) (w : Workspace) (t : TypeId) :
    ∃ rest, u.lineage w (some t) = t :: rest := by
  rw [Universe.lineage]
  cases w.types.size with
  | zero => exact ⟨[], rfl⟩
  | succ n =>
    rw [Universe.lineageUpTo]
    cases u.baseOf? w t with
    | none => exact ⟨[], rfl⟩
    | some b => exact ⟨_, rfl⟩

/-- A look-up under the key of a call finds a method of the expected
signature. -/
theorem World.Trusts.search {V : Workspace} {mods : List ModuleId} {w : World}
    {u : Universe} {c : LibraryCall} {owner : TypeRef} {name : String}
    {params arity : Int} {first : List TypeRef} {names : List String}
    (h : w.Trusts V mods) (hu : ∀ name ∈ creationTypes,
      u.index.lookup name = (Universe.buildIndex V mods).lookup name)
    (hc : c ∈ libraryCalls) (hnames : first.mapM (·.fullName?) = some names)
    (hkey : methodKey owner.openName name params arity names = c.key) :
    ∃ id, Universe.firstSome?
        (fun id => fits? name params arity first (w.workspace.method id))
        ((u.lineage w.workspace (u.resolve? owner)).flatMap
          fun t => (w.workspace.type t).methods) = some (some id) ∧
      ∀ m, w.workspace.methodRef? id = some m → c.Fits m := by
  obtain ⟨howner, rfl, rfl, rfl, rfl⟩ := LibraryCall.eq_of_key hc hkey
  obtain ⟨t, -, hlookup, -⟩ := h.grounds.finds h.retains hc []
  have hresolve : u.resolve? owner = some t := by
    rw [Universe.resolve?,
      Universe.named?_of_isNamed (LibraryCall.isNamed_of_openName hc howner)]
    simp only [bind, Option.bind, Universe.find?, howner]
    exact (hu _ (Workspace.mem_creationTypes hc)).trans hlookup
  obtain ⟨rest, hrest⟩ := u.lineage_some w.workspace t
  obtain ⟨t', id, hlookup', hfirst, hfits⟩ := h.grounds.finds h.retains hc
    (rest.flatMap fun t => (w.workspace.type t).methods)
  obtain rfl := Option.some.inj (hlookup.symm.trans hlookup')
  refine ⟨id, ?_, hfits⟩
  rw [hresolve, hrest, List.flatMap_cons, ← hfirst]
  exact Universe.firstSome?_congr fun x _ => LibraryCall.fits?_eq hc hnames _

/-! ## Looking things up -/

namespace Weave

variable {V : Workspace} {mods : List ModuleId} {α : Type}

@[spec 20000]
theorem logRepeat_trusts {key : String} :
    Preserves (World.Trusts V mods) (logRepeat key) := by
  unfold logRepeat modifyImports
  mvcgen
  rename_i w h _
  refine ⟨h.holds.of_imports ?_ ?_⟩ <;>
    cases w.imports.missing.lookup key <;> rfl

@[spec 20000]
theorem logMiss_trusts {key name : String} :
    Preserves (World.Trusts V mods) (logMiss key name) := by
  unfold logMiss modifyImports
  mvcgen
  rename_i h _
  exact ⟨h.holds.of_imports rfl rfl⟩

@[spec 30000]
theorem resolver_trusts :
    Yields (World.Trusts V mods) (fun u => ∀ name ∈ creationTypes,
      u.index.lookup name = (Universe.buildIndex V mods).lookup name)
        resolver := by
  unfold resolver
  mvcgen
  rename_i h _
  exact ⟨⟨h.holds.refresh⟩, h.holds.refresh.found⟩

/-- A type that the creation code uses is found. -/
@[spec 30000]
theorem findType_trusts {key : String} :
    ⦃fun w => ⌜w.Has (World.Trusts V mods)⌝⦄ findType key
      ⦃post⟨fun r w => ⌜w.Has (World.Trusts V mods) ∧ (key ∈ creationTypes →
          ∃ t, r = some t ∧ (w.workspace.typeRef t).Names key)⌝,
        fun _ w => ⌜w.Has (World.Trusts V mods)⌝⟩⦄ := by
  unfold findType resolver
  mvcgen
  rename_i h _
  have hw := h.holds.refresh
  refine ⟨⟨hw⟩, fun hkey => ?_⟩
  obtain ⟨t, hlookup, -, -⟩ := hw.grounds.find hkey
  have ht := (hw.found key hkey).trans hlookup
  exact ⟨t, ht, hw.names_typeRef hkey ht⟩

/-- Importing a type that the creation code uses gives a reference to it. -/
theorem internType_trusts {key : String} {placeholder : TypeRef} :
    Yields (World.Trusts V mods) (fun r => key ∈ creationTypes → r.Names key)
      (internType key placeholder) := by
  unfold internType typeRef modifyImports
  mvcgen
  · rename_i h r hr _ _ h'
    exact ⟨h', fun hkey => h.holds.types key hkey r hr⟩
  · rename_i t _ w h _
    have hnames : key ∈ creationTypes → (w.workspace.typeRef t).Names key :=
      fun hkey => by
      obtain ⟨t', ht, hnames⟩ := h.2 hkey
      exact Option.some.inj ht ▸ hnames
    exact ⟨⟨h.1.holds.addType hnames⟩, hnames⟩
  · rename_i h
    exact h.1
  · rename_i h _ _ h' _
    have hnever : key ∉ creationTypes := fun hkey => by
      obtain ⟨t, ht, -⟩ := h.2 hkey
      cases ht
    exact ⟨⟨h'.holds.addType fun hkey => absurd hkey hnever⟩,
      fun hkey => absurd hkey hnever⟩

theorem importField_trusts {owner : TypeRef} {name : String} :
    Preserves (World.Trusts V mods) (importField owner name) := by
  unfold importField resolveField modifyImports
  mvcgen
  · rename_i h _ _ _ _ _
    exact ⟨h.1.holds.of_imports rfl rfl⟩
  · rename_i h _ _
    exact h.1
  · rename_i h _
    exact ⟨h.holds.of_imports rfl rfl⟩

/-- Importing a method that the creation code calls gives a method of the
expected signature. -/
theorem importGenericMethod_trusts {owner : TypeRef} {name : String}
    {params arity : Int} {first : List TypeRef} :
    Yields (World.Trusts V mods)
      (fun m => ∀ c ∈ libraryCalls, ∀ names, first.mapM (·.fullName?) =
        some names → methodKey owner.openName name params arity names = c.key →
        c.Fits m)
      (importGenericMethod owner name params arity first) := by
  unfold importGenericMethod modifyImports methodRef
  mvcgen
  · rename_i h _ hnames _ _ hm _ _ hw
    refine ⟨hw, fun c hc names hnames' hkey => ?_⟩
    obtain rfl := Option.some.inj (hnames.symm.trans hnames')
    exact h.holds.methods c hc _ (hkey ▸ hm)
  · rename_i names hnames _ _ u w hw o hsearch _ id ho m hm _
    have hfits : ∀ c ∈ libraryCalls, ∀ names, first.mapM (·.fullName?) =
      some names →
        methodKey owner.openName name params arity names = c.key →
        c.Fits m := by
      intro c hc names hnames hkey
      obtain ⟨id', hid, hfits⟩ := hw.1.holds.search hw.2 hc hnames hkey
      cases hid.symm.trans (hsearch.trans (congrArg some ho))
      exact hfits _ hm
    exact ⟨⟨hw.1.holds.addMethod fun c hc hkey => hfits c hc _ hnames hkey⟩,
      hfits⟩
  · rename_i hw _ _ _ _ _ _
    exact hw.1
  · rename_i hw _ _ _ _
    exact hw.1
  · rename_i names hnames _ _ u w hw o hsearch _ ho _ _ _ w' hw' _
    -- a method that the creation code calls is found
    have hnever : ∀ c ∈ libraryCalls, ∀ names, first.mapM (·.fullName?) =
      some names →
        methodKey owner.openName name params arity names ≠ c.key := by
      intro c hc names hnames hkey
      obtain ⟨id, hid, -⟩ := hw.1.holds.search hw.2 hc hnames hkey
      cases hid.symm.trans (hsearch.trans (congrArg some ho))
    exact ⟨⟨hw'.holds.addMethod fun c hc hkey => absurd hkey
      (hnever c hc _ hnames)⟩, fun c hc names hnames hkey => absurd hkey
        (hnever c hc _ hnames)⟩
  · rename_i hw _
    exact hw.1

/-! ## Changes -/

instance : World.Importing (World.Trusts V mods) where
  resolver := resolver_trusts.preserves
  internType _ _ := internType_trusts.preserves
  importField _ _ _ := importField_trusts
  importMethod _ _ _ _ := importGenericMethod_trusts.preserves
  importGenericMethod _ _ _ _ _ := importGenericMethod_trusts.preserves

instance : World.Editable (World.Trusts V mods) where
  amend _ _ h ha := ⟨h.holds.amend ha⟩
  markForeign _ _ h := ⟨h.holds.markForeign _⟩

/-- A closure becomes a value type. -/
theorem makeValueType_trusts {t : TypeId}
    (ht : t.index < V.types.size → (V.type t).head.isClosure) :
    Preserves (World.Trusts V mods) (makeValueType t) :=
  triple_iff.2 fun _ hw => ⟨hw.holds.sustain (hw.holds.develops.toValueType ht)
    ((hw.holds.retains.updateClosure ht).updateClosure ht)⟩

/-- Converting the closures of a method. -/
theorem convertClosures_trusts {m : MethodId} :
    Preserves (World.Trusts V mods) (convertClosures m) :=
  convertClosures_preserves fun _ t hw ht => makeValueType_trusts fun hlt =>
    (TypeEntry.isClosure_eq (hw.holds.develops.old t hlt).name).symm.trans ht

end Weave

/-! ## Worlds with a struct for a job -/

/-- The struct was added since `V`, and it is there. -/
def Workspace.Adds (V : Workspace) (job : TypeId) (w : Workspace) : Prop :=
  V.types.size ≤ job.index ∧ job.index < w.types.size

/-- The world can be trusted, and the struct of a job was added to it. -/
def World.TrustsWith (V : Workspace) (mods : List ModuleId) (job : TypeId)
    (w : World) : Prop :=
  w.Trusts V mods ∧ V.Adds job w.workspace

namespace Weave

variable {J K : World → Prop} {R : α → Prop} {act : Weave α} {job : TypeId}

theorem Preserves.and (h : Preserves J act) (h' : Preserves K act) :
    Preserves (fun w => J w ∧ K w) act := by
  refine triple_iff.2 fun w hw => ?_
  have hrun := triple_iff.1 h w ⟨hw.holds.1⟩
  have hrun' := triple_iff.1 h' w ⟨hw.holds.2⟩
  cases hact : act w <;> rw [hact] at hrun hrun' <;>
    exact ⟨hrun.holds, hrun'.holds⟩

theorem Yields.imp {R' : α → Prop} (h : Yields J R act) (hR : ∀ a, R a → R' a) :
    Yields J R' act := by
  mvcgen [h]
  exact fun hw ha => ⟨hw, hR _ ha⟩

theorem Yields.and (h : Yields J R act) (h' : Preserves K act) :
    Yields (fun w => J w ∧ K w) R act := by
  refine triple_iff.2 fun w hw => ?_
  have hrun := triple_iff.1 h w ⟨hw.holds.1⟩
  have hrun' := triple_iff.1 h' w ⟨hw.holds.2⟩
  cases hact : act w <;> rw [hact] at hrun hrun'
  · exact ⟨⟨hrun.1.holds, hrun'.holds⟩, hrun.2⟩
  · exact ⟨hrun.holds, hrun'.holds⟩

instance : World.Importing (World.TrustsWith V mods job) where
  resolver := .and resolver_preserves (K := fun w => V.Adds job w.workspace)
    resolver_preserves
  internType _ _ := .and internType_preserves
    (K := fun w => V.Adds job w.workspace) internType_preserves
  importField _ _ hname := .and (importField_preserves hname)
    (K := fun w => V.Adds job w.workspace) (importField_preserves hname)
  importMethod _ _ _ hname := .and (importMethod_preserves hname)
    (K := fun w => V.Adds job w.workspace) (importMethod_preserves hname)
  importGenericMethod _ _ _ _ _ := .and importGenericMethod_preserves
    (K := fun w => V.Adds job w.workspace) importGenericMethod_preserves

instance : World.Editable (World.TrustsWith V mods job) where
  amend _ _ h ha :=
    ⟨h.holds.1.amend ha, h.holds.2.1, h.holds.2.2.trans_eq ha.types_eq.symm⟩
  markForeign _ _ h := ⟨h.holds.1.markForeign _, h.holds.2⟩

instance : World.Nests (World.TrustsWith V mods job) job where
  nest h hb := triple_iff.2 fun w hw => by
    obtain ⟨htrust, hle, hlt⟩ := hw.holds
    have hframe := (Workspace.Frame.refl (R := fun _ _ => True)
      (fun _ => trivial) ∅ w.workspace).addNested_leaf job h
        fun _ _ _ _ => trivial
    exact ⟨htrust.sustain (htrust.develops.addNested_leaf hle hlt hb)
      (htrust.retains.addNested_leaf htrust.develops job h), hle,
      hlt.trans_le hframe.types_le⟩

/-- Importing a type that the creation code uses gives a reference to it. -/
@[spec 40000]
theorem internType_names {key : String} {placeholder : TypeRef} :
    Yields (World.TrustsWith V mods job)
      (fun r => key ∈ creationTypes → r.Names key)
      (internType key placeholder) :=
  internType_trusts.and (K := fun w => V.Adds job w.workspace)
    internType_preserves

/-- Importing a method that the creation code calls gives a method of the
expected signature. -/
theorem importGenericMethod_fits {owner : TypeRef} {name : String}
    {params arity : Int} {first : List TypeRef} :
    Yields (World.TrustsWith V mods job)
      (fun m => ∀ c ∈ libraryCalls, ∀ names, first.mapM (·.fullName?) =
        some names → methodKey owner.openName name params arity names = c.key →
        c.Fits m)
      (importGenericMethod owner name params arity first) :=
  importGenericMethod_trusts.and (K := fun w => V.Adds job w.workspace)
    importGenericMethod_preserves

end Weave

end JobWeave
