import Mathlib
import JobWeave.Workspace.World
import JobWeave.Proofs.Workspace.Lineage
import JobWeave.Proofs.Weave.Runs

/-!
# Look-ups see every edit

A universe keeps the index of names that it built last, and builds it again when
one of its modules has recorded a change since.  That is enough as long as an
edit which changes the names of a module is recorded by that module.

* `Workspace.Edit` lists the edits: a type is created, drafted while it has no
  place, put at the end of a module or of another type, and lists of types are
  replaced by hand.
* `Workspace.Keeps` is what a universe can rely on: as long as the numbers of
  changes of its modules are the same, so are their types and the names of
  these.  Every edit keeps it (`Workspace.Edit.keeps`).
* `Weave.findType_coherent`: after any edits and look-ups a look-up answers with
  the first type of the name in a scan of the modules in order.
* `Weave.findType_stale`: edits that no module of the universe records, and what
  a look-up answers after them.
-/

namespace JobWeave

namespace Workspace

variable {w w' w₁ w₂ : Workspace} {k j : ModuleId} {t s inner outer : TypeId}
variable {ms : List ModuleId}

/-! ## The bound on the depth -/

/-- Different types that are there, each above the next ones and above `t`. -/
structure Above (R : TypeId → TypeId → Prop) (size : Nat) (path : List TypeId)
    (t : TypeId) : Prop where
  /-- they are different -/
  nodup : path.Nodup
  /-- they are there -/
  lt : ∀ p ∈ path, p.index < size
  /-- they are above `t` -/
  above : ∀ p ∈ path, Relation.TransGen R p t

theorem Above.length_le {R : TypeId → TypeId → Prop} {size : Nat}
    {path : List TypeId} (h : Above R size path t) : path.length ≤ size := by
  have hinj : Function.Injective TypeId.index := fun a b hab => by
    cases a
    cases b
    simp_all
  have hsub : (path.map TypeId.index).toFinset ⊆ Finset.range size := by
    intro n hn
    obtain ⟨p, hp, rfl⟩ := List.mem_map.1 (List.mem_toFinset.1 hn)
    exact Finset.mem_range.2 (h.lt p hp)
  have hcard := Finset.card_le_card hsub
  rwa [List.toFinset_card_of_nodup (h.nodup.map hinj), List.length_map,
    Finset.card_range] at hcard

/-- One step further down. -/
theorem Above.cons {R : TypeId → TypeId → Prop} {size : Nat}
    {path : List TypeId} (h : Above R size path t)
    (hR : ∀ t, ¬ Relation.TransGen R t t) (ht : t.index < size)
    (hs : R t s) : Above R size (t :: path) s where
  nodup := List.nodup_cons.2 ⟨fun hmem => hR t (h.above t hmem), h.nodup⟩
  lt := List.forall_mem_cons.2 ⟨ht, h.lt⟩
  above := List.forall_mem_cons.2 ⟨.single hs,
    fun p hp => (h.above p hp).tail hs⟩

/-- The second type is listed in the first one. -/
def Lists (w : Workspace) (t n : TypeId) : Prop :=
  n ∈ (w.type t).nested

/-- The second type is the one around the first one. -/
def InsideOf (w : Workspace) (t o : TypeId) : Prop :=
  (w.type t).outer = some o

/-- No type contains itself. -/
structure IsProper (w : Workspace) : Prop where
  /-- no type is listed under itself -/
  lists : ∀ t, ¬ Relation.TransGen w.Lists t t
  /-- no type is around itself -/
  inside : ∀ t, ¬ Relation.TransGen w.InsideOf t t

/-- As deep as there are types is deep enough to see all of them. -/
theorem IsProper.underUpTo_succ (h : w.IsProper) {fuel : Nat}
    {path ts : List TypeId}
    (hpath : ∀ t ∈ ts, Above w.Lists w.types.size path t)
    (hfuel : w.types.size < path.length + fuel) :
    w.underUpTo (fuel + 1) ts = w.underUpTo fuel ts := by
  induction fuel generalizing path ts with
  | zero =>
    cases ts with
    | nil => rfl
    | cons t ts =>
      have hle := (hpath t (by simp)).length_le
      omega
  | succ fuel ih =>
    rw [underUpTo, underUpTo]
    refine List.flatMap_congr fun t ht => congrArg (t :: ·) ?_
    have hnested : ∀ s ∈ (w.type t).nested,
        Above w.Lists w.types.size (t :: path) s :=
      fun s hs => (hpath t ht).cons h.lists (lt_of_nested hs) hs
    exact ih hnested (by simp; omega)

theorem IsProper.typeNameUpTo_succ (h : w.IsProper) {fuel : Nat}
    {path : List TypeId} (hpath : Above w.InsideOf w.types.size path t)
    (hfuel : w.types.size < path.length + fuel) :
    w.typeNameUpTo (fuel + 1) t = w.typeNameUpTo fuel t := by
  induction fuel generalizing path t with
  | zero =>
    have hle := hpath.length_le
    omega
  | succ fuel ih =>
    rw [typeNameUpTo, typeNameUpTo]
    cases ho : (w.type t).outer with
    | none => rfl
    | some o =>
      have hsame := ih (hpath.cons h.inside (lt_of_outer ho) ho)
        (by simp; omega)
      simp only [Option.map_some, hsame]

theorem above_nil {R : TypeId → TypeId → Prop} {size : Nat} :
    Above R size [] t :=
  ⟨List.nodup_nil, by simp, by simp⟩

/-! ## What the names of a module depend on -/

/-- A full name in the module depends on the type: it is in the module's tree,
or around such a type. -/
def Supports (w : Workspace) (t : TypeId) (k : ModuleId) : Prop :=
  ∃ s ∈ w.typesOf k, w.Within s t

theorem supports_of_mem (h : t ∈ w.typesOf k) : w.Supports t k :=
  ⟨t, h, .refl⟩

theorem underUpTo_congr {fuel : Nat} {ts : List TypeId}
    (h : ∀ t ∈ w.underUpTo fuel ts, (w'.type t).nested = (w.type t).nested) :
    w'.underUpTo fuel ts = w.underUpTo fuel ts := by
  induction fuel generalizing ts with
  | zero => rfl
  | succ fuel ih =>
    simp only [underUpTo, List.mem_flatMap, List.mem_cons] at h ⊢
    refine List.flatMap_congr fun t ht => congrArg (t :: ·) ?_
    rw [h t ⟨t, ht, .inl rfl⟩]
    exact ih fun s hs => h s ⟨t, ht, .inr hs⟩

theorem typeNameUpTo_congr {fuel : Nat}
    (h : ∀ s, w.Within t s → (w'.type s).outer = (w.type s).outer ∧
      (w'.type s).head = (w.type s).head) :
    w'.typeNameUpTo fuel t = w.typeNameUpTo fuel t := by
  induction fuel generalizing t with
  | zero => rfl
  | succ fuel ih =>
    obtain ⟨houter, hhead⟩ := h t .refl
    simp only [typeNameUpTo, houter, hhead]
    cases ho : (w.type t).outer with
    | none => rfl
    | some o => simp only [Option.map_some, ih fun s hs => h s (.head ho hs)]

/-- The types of a module have the same names if the module lists the same types
and nothing has changed about what its names depend on. -/
theorem namedTypesOf_congr (hsize : w'.types.size = w.types.size)
    (hroots : (w'.moduleEntry k).types = (w.moduleEntry k).types)
    (hnested : ∀ t ∈ w.typesOf k, (w'.type t).nested = (w.type t).nested)
    (hname : ∀ t, w.Supports t k → (w'.type t).outer = (w.type t).outer ∧
      (w'.type t).head = (w.type t).head) :
    w'.namedTypesOf k = w.namedTypesOf k := by
  have htypes : w'.typesOf k = w.typesOf k := by
    rw [typesOf, hsize, hroots]
    exact underUpTo_congr hnested
  rw [namedTypesOf, namedTypesOf, htypes]
  refine List.map_congr_left fun t ht => ?_
  rw [typeName, typeName, hsize,
    typeNameUpTo_congr fun s hs => hname s ⟨t, ht, hs⟩]

/-! ## Edits -/

/-- The list of a module's types, replaced by hand. -/
def setTypes (w : Workspace) (k : ModuleId) (ts : List TypeId) : Workspace :=
  { w with modules := w.modules.modify k.index fun e => { e with types := ts } }

/-- The list of a type's nested types, replaced by hand. -/
def setNested (w : Workspace) (t : TypeId) (ts : List TypeId) : Workspace :=
  w.updateType t fun e => { e with nested := ts }

/-- A change that a module records is recorded by a module of the universe. -/
def RecordedBy (w : Workspace) (ms : List ModuleId) (k : ModuleId) : Prop :=
  k ∈ ms ∧ k.index < w.modules.size

/-- An edit of the types, `ms` being the modules of a universe.  An edit that
concerns the tree of one of them is recorded by one of them. -/
inductive Edit (ms : List ModuleId) (w : Workspace) : Workspace → Prop
  /-- a type is created, under an id that nothing has used before -/
  | create (h : TypeHead) : w.IsProper →
    (∀ k ∈ ms, ¬ w.Supports ⟨w.types.size⟩ k) → Edit ms w (w.newType h).1
  /-- a type is changed in any way before it has a place -/
  | draft (t : TypeId) (f : TypeEntry → TypeEntry) :
    (∀ k ∈ ms, ¬ w.Supports t k) → Edit ms w (w.updateType t f)
  /-- a type is put at the end of a module -/
  | attachType (k : ModuleId) (t : TypeId) : Edit ms w (w.attachType k t)
  /-- a type is put at the end of another one: this one is at home in a module
  of the universe, or it is in no tree of them, and no name in these depends on
  the inner type -/
  | attachNested (outer inner : TypeId) :
    ((∃ k, (w.type outer).home = some k ∧ w.RecordedBy ms k) ∨
      ∀ k ∈ ms, outer ∉ w.typesOf k ∧ ¬ w.Supports inner k) →
    Edit ms w (w.attachNested outer inner)
  /-- the types of a module are replaced by hand, and the module records it -/
  | setTypes (k : ModuleId) (ts : List TypeId) :
    Edit ms w ((w.setTypes k ts).touch k)
  /-- the types in a type are replaced by hand, and a module records it: one of
  the universe, unless the type is in no tree of them -/
  | setNested (k : ModuleId) (t : TypeId) (ts : List TypeId) :
    (w.RecordedBy ms k ∨ ∀ j ∈ ms, t ∉ w.typesOf j) →
    Edit ms w ((w.setNested t ts).touch k)

/-- If no module of the universe has recorded a change, they have the same types
under the same names. -/
structure Keeps (ms : List ModuleId) (w w' : Workspace) : Prop where
  /-- changes are never taken back -/
  edits_le : ∀ k ∈ ms, (w.moduleEntry k).edits ≤ (w'.moduleEntry k).edits
  /-- the types and their names -/
  names : (∀ k ∈ ms, (w'.moduleEntry k).edits = (w.moduleEntry k).edits) →
    ∀ k ∈ ms, w'.namedTypesOf k = w.namedTypesOf k

theorem Keeps.refl (ms : List ModuleId) (w : Workspace) : Keeps ms w w :=
  ⟨fun _ _ => Nat.le_refl _, fun _ _ _ => rfl⟩

theorem Keeps.trans (h₁ : Keeps ms w w₁) (h₂ : Keeps ms w₁ w₂) :
    Keeps ms w w₂ where
  edits_le k hk := (h₁.edits_le k hk).trans (h₂.edits_le k hk)
  names := by
    intro hsame k hk
    -- the number in between lies between two equal ones
    have hbetween : ∀ k ∈ ms,
        (w₂.moduleEntry k).edits = (w₁.moduleEntry k).edits ∧
        (w₁.moduleEntry k).edits = (w.moduleEntry k).edits := fun k hk => by
      have hle₁ := h₁.edits_le k hk
      have hle₂ := h₂.edits_le k hk
      have heq := hsame k hk
      omega
    rw [h₂.names (fun k hk => (hbetween k hk).1) k hk,
      h₁.names (fun k hk => (hbetween k hk).2) k hk]

/-- Reading a module back after a change of one. -/
theorem moduleEntry_modify (w : Workspace) (k j : ModuleId)
    (f : ModuleEntry → ModuleEntry) :
    ({ w with modules := w.modules.modify k.index f } : Workspace).moduleEntry
      j = if j = k ∧ k.index < w.modules.size then f (w.moduleEntry j)
        else w.moduleEntry j := by
  simp only [moduleEntry, Array.getElem?_modify]
  by_cases hk : k.index = j.index
  · have hkj : j = k := by
      cases j
      cases k
      simp_all
    subst hkj
    by_cases hlt : j.index < w.modules.size
    · simp [hlt]
    · simp [hlt]
  · have hkj : j ≠ k := fun h => hk (h ▸ rfl)
    simp [hk, hkj]

theorem edits_touch (w : Workspace) (k j : ModuleId) :
    ((w.touch k).moduleEntry j).edits =
      (w.moduleEntry j).edits + if j = k ∧ k.index < w.modules.size then 1
      else 0 := by
  rw [touch, moduleEntry_modify]
  split <;> rfl

/-- A change that a module records may be any change if the module is in the
universe. -/
theorem keeps_touch (hsize : w₁.modules.size = w.modules.size)
    (hedits : ∀ j ∈ ms, (w₁.moduleEntry j).edits = (w.moduleEntry j).edits)
    (hnames : ¬ w.RecordedBy ms k → ∀ j ∈ ms,
      w₁.namedTypesOf j = w.namedTypesOf j) :
    Keeps ms w (w₁.touch k) where
  edits_le j hj := by
    rw [edits_touch, hedits j hj]
    exact Nat.le_add_right _ _
  names := by
    intro hsame j hj
    have hother : ¬ w.RecordedBy ms k := by
      rintro ⟨hk, hlt⟩
      have hcount := hsame k hk
      rw [edits_touch, hedits k hk, hsize, if_pos ⟨rfl, hlt⟩] at hcount
      omega
    have hlinks := sameLinks_touch w₁ k
    rw [← hnames hother j hj]
    exact namedTypesOf_congr rfl (hlinks.roots j) (fun t _ => rfl)
      fun t _ => ⟨rfl, rfl⟩

/-- The types of a module do not show where types are at home. -/
theorem head_setHome (w : Workspace) (t s : TypeId) (home : Option ModuleId) :
    ((w.setHome t home).type s).head = (w.type s).head := by
  unfold setHome
  generalize w.underUpTo _ _ = ts
  induction ts generalizing w with
  | nil => rfl
  | cons t ts ih =>
    rw [List.foldl_cons, ih, type_updateType]
    split <;> rfl

theorem head_type_attachNested (outer : TypeId) (h : t ≠ inner) :
    ((w.attachNested outer inner).type t).head = (w.type t).head := by
  obtain ⟨home, he⟩ := type_attachNested w outer inner t
  rw [he, type_updateType, apply_ite TypeEntry.head, ite_self, head_setHome,
    type_updateType, if_neg fun hi => h hi.1]

theorem keeps_create (h : TypeHead) (hproper : w.IsProper)
    (hfree : ∀ k ∈ ms, ¬ w.Supports ⟨w.types.size⟩ k) :
    Keeps ms w (w.newType h).1 where
  edits_le _ _ := Nat.le_refl _
  names := by
    intro _ k hk
    have hlinks := sameLinks_newType w h
    have hsize : (w.newType h).1.types.size = w.types.size + 1 := by
      simp [newType]
    have htypes : (w.newType h).1.typesOf k = w.typesOf k := by
      rw [typesOf, hsize, hlinks.roots, underUpTo_congr
        fun t _ => hlinks.nested t]
      exact hproper.underUpTo_succ (fun _ _ => above_nil) (by simp)
    rw [namedTypesOf, namedTypesOf, htypes]
    refine List.map_congr_left fun t ht => ?_
    rw [typeName, typeName, hsize, typeNameUpTo_congr
      fun s hs => ⟨hlinks.outer s, ?_⟩, hproper.typeNameUpTo_succ above_nil
        (by simp)]
    have hs' : s.index ≠ w.types.size := by
      intro hindex
      refine hfree k hk ⟨t, ht, ?_⟩
      rwa [← hindex]
    rw [type_newType, if_neg hs']

theorem keeps_draft (f : TypeEntry → TypeEntry)
    (hfree : ∀ k ∈ ms, ¬ w.Supports t k) :
    Keeps ms w (w.updateType t f) where
  edits_le _ _ := Nat.le_refl _
  names := by
    intro _ k hk
    have hsame : ∀ s, w.Supports s k → (w.updateType t f).type s =
        w.type s := by
      intro s hs
      rw [type_updateType, if_neg]
      rintro ⟨rfl, -⟩
      exact hfree k hk hs
    refine namedTypesOf_congr (by simp) rfl (fun s hs => ?_) fun s hs => ?_
    · rw [hsame s (supports_of_mem hs)]
    · rw [hsame s hs]
      exact ⟨rfl, rfl⟩

/-- The list of a module's types is changed, and the module records it. -/
theorem keeps_types (f : List TypeId → List TypeId)
    (hsize : w₁.types.size = w.types.size) (hmodules : w₁.modules = w.modules)
    (hlinks : w.SameLinks w₁) (hhead : ∀ s, (w₁.type s).head = (w.type s).head)
    (ms : List ModuleId) (k : ModuleId) :
    Keeps ms w (touch { w₁ with
      modules := w₁.modules.modify k.index fun e =>
        { e with types := f e.types } } k) := by
  have hentry : ∀ j, w₁.moduleEntry j = w.moduleEntry j := fun j => by
    rw [moduleEntry, moduleEntry, hmodules]
  refine keeps_touch (by simp [hmodules]) (fun j _ => ?_) fun hother j hj => ?_
  · rw [moduleEntry_modify, apply_ite ModuleEntry.edits, ite_self, hentry]
  · refine namedTypesOf_congr hsize ?_ (fun t _ => hlinks.nested t) fun t _ =>
      ⟨hlinks.outer t, hhead t⟩
    rw [moduleEntry_modify, if_neg, hentry]
    rintro ⟨rfl, hlt⟩
    rw [hmodules] at hlt
    exact hother ⟨hj, hlt⟩

theorem keeps_attachType (ms : List ModuleId) (w : Workspace) (k : ModuleId)
    (t : TypeId) :
    Keeps ms w (w.attachType k t) :=
  keeps_types (· ++ [t]) (size_types_setHome w t (some k))
    (modules_setHome w t (some k)) (sameLinks_setHome w t (some k))
      (fun s => head_setHome w t s (some k)) ms k

theorem keeps_setTypes (ms : List ModuleId) (w : Workspace) (k : ModuleId)
    (ts : List TypeId) : Keeps ms w ((w.setTypes k ts).touch k) :=
  keeps_types (fun _ => ts) rfl rfl (.refl w) (fun _ => rfl) ms k

theorem keeps_setNested {ts : List TypeId}
    (h : w.RecordedBy ms k ∨ ∀ j ∈ ms, t ∉ w.typesOf j) :
    Keeps ms w ((w.setNested t ts).touch k) := by
  refine keeps_touch rfl (fun _ _ => rfl) fun hother j hj => ?_
  have hnot := h.resolve_left hother j hj
  refine namedTypesOf_congr (size_types_updateType w t _) rfl (fun s hs => ?_)
    fun s _ => ?_
  · rw [setNested, type_updateType, if_neg]
    rintro ⟨rfl, -⟩
    exact hnot hs
  · rw [setNested, type_updateType]
    split <;> exact ⟨rfl, rfl⟩

/-- The module at which the outer type is at home records that a type was put
into it. -/
theorem edits_attachNested (w : Workspace) (outer inner : TypeId)
    (k : ModuleId) :
    ((w.attachNested outer inner).moduleEntry k).edits =
      (w.moduleEntry k).edits +
        if (w.type outer).home = some k ∧ k.index < w.modules.size then 1
        else 0 := by
  simp only [attachNested]
  split
  · rename_i m hm
    rw [edits_touch]
    by_cases hk : k = m
    · simp [moduleEntry, updateType, modules_setHome, hm, hk]
    · simp [moduleEntry, updateType, modules_setHome, hm, hk, Ne.symm hk]
  · rename_i hnone
    simp [moduleEntry, updateType, modules_setHome, hnone]

theorem keeps_attachNested
    (h : (∃ k, (w.type outer).home = some k ∧ w.RecordedBy ms k) ∨
      ∀ k ∈ ms, outer ∉ w.typesOf k ∧ ¬ w.Supports inner k) :
    Keeps ms w (w.attachNested outer inner) where
  edits_le k _ := by
    rw [edits_attachNested]
    exact Nat.le_add_right _ _
  names := by
    intro hsame k hk
    -- a module of the universe that records the change has one change more
    have hunrecorded : ¬ ∃ k, (w.type outer).home = some k ∧
        w.RecordedBy ms k := by
      rintro ⟨k, hhome, hk, hlt⟩
      have hcount := hsame k hk
      rw [edits_attachNested, if_pos ⟨hhome, hlt⟩] at hcount
      omega
    obtain ⟨houter, hinner⟩ := h.resolve_left hunrecorded k hk
    refine namedTypesOf_congr (size_types_attachNested w outer inner)
      (types_moduleEntry_attachNested w outer inner k) (fun t ht => ?_)
        fun t ht => ?_
    · rw [nested_type_attachNested, if_neg]
      rintro ⟨rfl, -⟩
      exact houter ht
    · have hne : t ≠ inner := fun he => hinner (he ▸ ht)
      rw [outer_type_attachNested, if_neg fun h => hne h.1]
      exact ⟨rfl, head_type_attachNested outer hne⟩

theorem Edit.keeps (h : w.Edit ms w') : Keeps ms w w' := by
  cases h with
  | create h hproper hfree => exact keeps_create h hproper hfree
  | draft t f hfree => exact keeps_draft f hfree
  | attachType k t => exact keeps_attachType ms w k t
  | attachNested outer inner h => exact keeps_attachNested h
  | setTypes k ts => exact keeps_setTypes ms w k ts
  | setNested k t ts h => exact keeps_setNested h

end Workspace

/-! ## Look-ups -/

/-- The first type of the name in a scan of the modules in order. -/
def Workspace.scan (w : Workspace) (ms : List ModuleId) (name : String) :
    Option TypeId :=
  (ms.flatMap w.typesOf).find? fun t => w.typeName t == name

namespace Universe

variable {w w' : Workspace} {ms : List ModuleId}

/-- A universe that was up to date before some edits is up to date after a
refresh. -/
theorem refresh_of_keeps (h : Workspace.Keeps ms w w') :
    (ofModules w ms).refresh w' = ofModules w' ms := by
  unfold refresh
  split
  · rename_i hfresh
    have hedits : editCounts w' ms = editCounts w ms := by
      simpa [isFresh, ofModules] using hfresh
    have hindex : buildIndex w' ms = buildIndex w ms :=
      List.flatMap_congr (h.names (List.map_inj_left.1 hedits))
    rw [ofModules, ofModules, hedits, hindex]
  · rfl

theorem find?_ofModules (w : Workspace) (ms : List ModuleId) (name : String) :
    (ofModules w ms).find? name = w.scan ms name := by
  have hlookup : ∀ ts : List TypeId,
      (ts.map fun t => (w.typeName t, t)).lookup name =
        ts.find? fun t => w.typeName t == name := by
    intro ts
    induction ts with
    | nil => rfl
    | cons t ts ih =>
      rw [List.map_cons, List.lookup_cons, List.find?_cons, ih, BEq.comm]
  rw [find?, Workspace.scan, ← hlookup, List.map_flatMap]
  rfl

end Universe

/-- Edits of the definitions and look-ups, in any order. -/
inductive World.Evolves (ms : List ModuleId) (V : World) : World → Prop
  /-- nothing has happened -/
  | start : Evolves ms V V
  /-- an edit -/
  | edit {w : World} {ws : Workspace} :
    Evolves ms V w → w.workspace.Edit ms ws →
      Evolves ms V { w with workspace := ws }
  /-- a look-up by name -/
  | find {w w' : World} {name : String} {found : Option TypeId} :
    Evolves ms V w → Weave.findType name w = .ok found w' → Evolves ms V w'
  /-- a look-up of a reference -/
  | resolve {w w' : World} {r : TypeRef} {found : Option TypeId} :
    Evolves ms V w → Weave.resolveType r w = .ok found w' → Evolves ms V w'

namespace Weave

variable {ms : List ModuleId} {V w w' : World}

/-- The universe was up to date at some time, and edits since then were
recorded. -/
def UpToDate (ms : List ModuleId) (w : World) : Prop :=
  ∃ ws : Workspace, w.resolver = .ofModules ws ms ∧
    Workspace.Keeps ms ws w.workspace

theorem UpToDate.resolver_eq (h : UpToDate ms w) :
    Weave.resolver w = .ok (.ofModules w.workspace ms)
      { w with resolver := .ofModules w.workspace ms } := by
  obtain ⟨ws, hresolver, hkeeps⟩ := h
  have hrefresh := Universe.refresh_of_keeps hkeeps
  rw [← hresolver] at hrefresh
  rw [← hrefresh]
  rfl

theorem UpToDate.findType_eq (h : UpToDate ms w) (name : String) :
    findType name w = .ok (w.workspace.scan ms name)
      { w with resolver := .ofModules w.workspace ms } := by
  unfold findType
  simp only [bind, EStateM.bind, h.resolver_eq, ← Universe.find?_ofModules]
  rfl

theorem UpToDate.resolveType_eq (h : UpToDate ms w) (r : TypeRef) :
    resolveType r w =
      .ok ((Universe.named? r).bind fun n => w.workspace.scan ms n.openName)
        { w with resolver := .ofModules w.workspace ms } := by
  unfold resolveType
  simp only [bind, EStateM.bind, h.resolver_eq, ← Universe.find?_ofModules]
  rfl

/-- A look-up leaves a universe that is up to date. -/
theorem upToDate_fresh (ms : List ModuleId) (w : World) :
    UpToDate ms { w with resolver := .ofModules w.workspace ms } :=
  ⟨w.workspace, rfl, .refl ms _⟩

theorem upToDate_of_evolves (hV : V.resolver = .ofModules V.workspace ms)
    (h : V.Evolves ms w) : UpToDate ms w := by
  induction h with
  | start => exact ⟨V.workspace, hV, .refl ms _⟩
  | edit _ hedit ih =>
    obtain ⟨ws, hresolver, hkeeps⟩ := ih
    exact ⟨ws, hresolver, hkeeps.trans hedit.keeps⟩
  | @find w w' name found _ hrun ih =>
    rw [ih.findType_eq] at hrun
    cases hrun
    exact upToDate_fresh ms w
  | @resolve w w' r found _ hrun ih =>
    rw [ih.resolveType_eq] at hrun
    cases hrun
    exact upToDate_fresh ms w

/-- After any edits and look-ups, a look-up answers with the first type of the
name in a scan of the modules in order, as with a universe that was just
made. -/
theorem findType_coherent (hV : V.resolver = .ofModules V.workspace ms)
    (h : V.Evolves ms w) (name : String) (r : TypeRef) :
    findType name w = .ok (w.workspace.scan ms name)
        { w with resolver := .ofModules w.workspace ms } ∧
      resolveType r w =
        .ok ((Universe.named? r).bind fun n => w.workspace.scan ms n.openName)
          { w with resolver := .ofModules w.workspace ms } :=
  have hdate := upToDate_of_evolves hV h
  ⟨hdate.findType_eq name, hdate.resolveType_eq r⟩

end Weave

/-! ## Samples -/

namespace Sample

/-- A system with a type inside it. -/
def treeModule : Module :=
  { name := "Ticks"
    types := [.mk { ns := "Game", name := "Ticker" } []
      [.mk { name := "Job" } [] []]] }

/-- The world of the system. -/
def treeWorld : World :=
  (World.ofModules [treeModule]).1

/-- The system has lost the type by hand. -/
def prunedWorld : World :=
  { treeWorld with
    workspace := (treeWorld.workspace.setNested ⟨0⟩ []).touch ⟨0⟩ }

/-- Then a type was looked up. -/
def searchedWorld : World :=
  { prunedWorld with resolver := .ofModules prunedWorld.workspace [⟨0⟩] }

/-- Then the system got its type back. -/
def regrownWorld : World :=
  { searchedWorld with
    workspace := searchedWorld.workspace.attachNested ⟨0⟩ ⟨1⟩ }

end Sample

namespace Weave

open Sample

theorem findType_coherent_regrown :
    treeWorld.resolver = .ofModules treeWorld.workspace [⟨0⟩] ∧
      treeWorld.Evolves [⟨0⟩] regrownWorld ∧
      findType "Game.Ticker/Job" prunedWorld = .ok none searchedWorld ∧
      regrownWorld.workspace.scan [⟨0⟩] "Game.Ticker/Job" = some ⟨1⟩ ∧
      findType "Game.Ticker/Job" regrownWorld =
        .ok (regrownWorld.workspace.scan [⟨0⟩] "Game.Ticker/Job")
          { regrownWorld with
            resolver := .ofModules regrownWorld.workspace [⟨0⟩] } := by
  have hstart : treeWorld.resolver = .ofModules treeWorld.workspace [⟨0⟩] := rfl
  have hpruned : treeWorld.Evolves [⟨0⟩] prunedWorld :=
    .edit .start (.setNested ⟨0⟩ ⟨0⟩ [] (.inl ⟨by decide, by decide +kernel⟩))
  have hsearched : findType "Game.Ticker/Job" prunedWorld =
      .ok none searchedWorld := by
    have hscan : prunedWorld.workspace.scan [⟨0⟩] "Game.Ticker/Job" = none := by
      decide +kernel
    rw [(findType_coherent hstart hpruned "Game.Ticker/Job" .absent).1, hscan]
    rfl
  have hregrown : treeWorld.Evolves [⟨0⟩] regrownWorld :=
    .edit (.find hpruned hsearched)
      (.attachNested ⟨0⟩ ⟨1⟩ (.inl ⟨⟨0⟩, rfl, by decide, by decide +kernel⟩))
  exact ⟨hstart, hregrown, hsearched, by decide +kernel,
    (findType_coherent hstart hregrown "Game.Ticker/Job" .absent).1⟩

end Weave

/-! ## Edits that are not recorded -/

namespace Sample

/-- A look-up answers with another type than the scan. -/
def Stale (ms : List ModuleId) (name : String) (w : World) : Prop :=
  ∃ found w', Weave.findType name w = .ok found w' ∧
    found ≠ w.workspace.scan ms name

/-- Some edits, a look-up, and another edit. -/
def editedWorld (ms : List ModuleId) (before : Workspace)
    (edit : Workspace → Workspace) : World :=
  { workspace := edit before, resolver := .ofModules before ms }

/-- The definitions of the sample and two new types. -/
def grownWorkspace : Workspace :=
  let ws := (treeWorld.workspace.newType { ns := "Game", name := "Late" }).1
  (ws.newType { name := "Part" }).1

/-- A new type is put into the module by hand, which the module records.  Then
the other one is put into it: the type is not at home anywhere. -/
def adoptedWorld : World :=
  editedWorld [⟨0⟩] ((grownWorkspace.setTypes ⟨0⟩ [⟨0⟩, ⟨2⟩]).touch ⟨0⟩)
    (·.attachNested ⟨2⟩ ⟨3⟩)

/-- A type of the module is put into a type that has no place. -/
def liftedWorld : World :=
  editedWorld [⟨0⟩] grownWorkspace (·.attachNested ⟨2⟩ ⟨1⟩)

/-- A type of the module is put into a type of a module that the universe does
not have. -/
def tradedWorld : World :=
  editedWorld [⟨0⟩] (World.ofModules [treeModule, treeModule]).1.workspace
    (·.attachNested ⟨2⟩ ⟨0⟩)

/-- The types in a type are replaced by hand, and no module has recorded it
yet. -/
def unrecordedWorld : World :=
  editedWorld [⟨0⟩] treeWorld.workspace (·.setNested ⟨0⟩ [])

end Sample

namespace Weave

open Sample

/-- A look-up does not see a type that is put into one without a home, a type
that is taken into one outside the modules, or a list that was replaced by hand
before its module recorded it. -/
theorem findType_stale :
    Stale [⟨0⟩] "Game.Late/Part" adoptedWorld ∧
      Stale [⟨0⟩] "Game.Ticker/Job" liftedWorld ∧
      Stale [⟨0⟩] "Game.Ticker" tradedWorld ∧
      Stale [⟨0⟩] "Game.Ticker/Job" unrecordedWorld := by
  have hstale : ∀ {name w}, delivers (findType name) w
      (fun found _ => found != w.workspace.scan [⟨0⟩] name) = true →
      Stale [⟨0⟩] name w := by
    intro name w h
    obtain ⟨found, w', hfound, hother⟩ := exists_of_delivers h
    exact ⟨found, w', hfound, by simpa using hother⟩
  exact ⟨hstale (by decide +kernel), hstale (by decide +kernel),
    hstale (by decide +kernel), hstale (by decide +kernel)⟩

end Weave

end JobWeave
