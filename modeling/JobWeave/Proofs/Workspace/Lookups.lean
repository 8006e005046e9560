import Mathlib
import JobWeave.Workspace.World
import JobWeave.Proofs.Workspace.Signatures
import JobWeave.Proofs.Workspace.Walks

/-!
# Look-ups and the log of misses

References to members of the framework are looked up one by one, and a run of
them is checked at its end: the log of misses is read from where it ended before
the run.  Look-ups of all kinds share the log, and one table tells which texts
have placeholders, so a look-up is logged rightly only if no other one has its
text.

* `Lookup.run_cases` is what a look-up does: it gives what was stored under its
  key and logs it again if it is a placeholder, or it searches and stores what
  it found.
* `Lookup.key_inj`: the key of a look-up tells its kind, whether it resolves and
  what its member is called, if no mark of the keys occurs where it would end a
  name.
* `World.Counts` says that the placeholders are those of the look-ups that do
  not resolve.  A look-up preserves it and logs its member if it does not
  resolve (`World.Counts.run`), so a run logs the members that do not resolve,
  in their order (`World.Counts.runAll`).
* `Lookup.session_missing`: what a mark tells at the end of a run.
-/

namespace JobWeave

/-! ## References of a kind -/

/-- What is looked up. -/
inductive MemberKind where
  | type
  | method
  | field
  deriving DecidableEq

/-- What a look-up gives. -/
inductive Imported where
  | type (t : TypeRef)
  | method (m : MethodRef)
  | field (f : FieldRef)

/-- The kind of a reference. -/
def Imported.kind : Imported → MemberKind
  | type _ => .type
  | method _ => .method
  | field _ => .field

namespace Imports

variable {im : Imports} {k : MemberKind} {key key' name : String} {r : Imported}

/-- What is stored under a key. -/
def recorded? (im : Imports) : MemberKind → String → Option Imported
  | .type, key => (im.types.lookup key).map .type
  | .method, key => (im.methods.lookup key).map .method
  | .field, key => (im.fields.lookup key).map .field

/-- The keys of a kind, the last one first. -/
def keys (im : Imports) : MemberKind → List String
  | .type => im.types.map (·.1)
  | .method => im.methods.map (·.1)
  | .field => im.fields.map (·.1)

/-- The place of a key among those of its kind, by which the reference under it
is one and the same object. -/
def place? (im : Imports) (k : MemberKind) (key : String) : Option Nat :=
  (im.keys k).reverse.idxOf? key

/-- The imports with a miss logged that was logged before, if there is a
placeholder. -/
def repeated (im : Imports) (key : String) : Imports :=
  match im.missing.lookup key with
  | some name => { im with misses := im.misses.push name }
  | none => im

/-- The imports with a placeholder to come under a key. -/
def missed (im : Imports) (key name : String) : Imports :=
  { im with missing := (key, name) :: im.missing,
            misses := im.misses.push name }

/-- The imports with a reference under a key. -/
def stored (im : Imports) (key : String) : Imported → Imports
  | .type t => { im with types := (key, t) :: im.types }
  | .method m => { im with methods := (key, m) :: im.methods }
  | .field f => { im with fields := (key, f) :: im.fields }

theorem recorded?_stored :
    (im.stored key r).recorded? k key' =
      if r.kind = k ∧ key' = key then some r else im.recorded? k key' := by
  by_cases hkey : key' = key
  · subst hkey
    cases r <;> cases k <;> simp [stored, recorded?, Imported.kind]
  · have hne : (key' == key) = false := beq_false_of_ne hkey
    cases r <;> cases k <;> simp [stored, recorded?, Imported.kind,
      List.lookup_cons, hkey, hne]

theorem keys_stored :
    (im.stored key r).keys k =
      if r.kind = k then key :: im.keys k else im.keys k := by
  cases r <;> cases k <;> rfl

@[simp]
theorem missing_stored : (im.stored key r).missing = im.missing := by
  cases r <;> rfl

@[simp]
theorem misses_stored : (im.stored key r).misses = im.misses := by
  cases r <;> rfl

@[simp]
theorem recorded?_missed : (im.missed key name).recorded? = im.recorded? := by
  funext k key
  cases k <;> rfl

@[simp]
theorem keys_missed : (im.missed key name).keys = im.keys := by
  funext k
  cases k <;> rfl

@[simp]
theorem recorded?_repeated : (im.repeated key).recorded? = im.recorded? := by
  rw [repeated]
  split
  · funext k key
    cases k <;> rfl
  · rfl

@[simp]
theorem keys_repeated : (im.repeated key).keys = im.keys := by
  rw [repeated]
  split
  · funext k
    cases k <;> rfl
  · rfl

@[simp]
theorem missing_repeated : (im.repeated key).missing = im.missing := by
  rw [repeated]
  split <;> rfl

theorem mem_keys_of_recorded? (h : im.recorded? k key = some r) :
    key ∈ im.keys k := by
  cases k <;>
    · obtain ⟨x, hx, -⟩ := Option.map_eq_some_iff.1 h
      exact List.mem_map.2 ⟨_, Universe.mem_of_lookup hx, rfl⟩

/-- Entries stay where they are, and new ones come behind them. -/
structure Grows (im im' : Imports) : Prop where
  /-- what is stored stays -/
  entry : ∀ k key r, im.recorded? k key = some r → im'.recorded? k key = some r
  /-- keys come in front of those there are -/
  keys : ∀ k, im.keys k <:+ im'.keys k

variable {im' im'' : Imports}

theorem Grows.of_eq (hentry : im'.recorded? = im.recorded?)
    (hkeys : im'.keys = im.keys) :
    im.Grows im' :=
  ⟨fun _ _ _ h => hentry ▸ h, fun _ => hkeys ▸ List.suffix_rfl⟩

theorem Grows.trans (h : im.Grows im') (h' : im'.Grows im'') : im.Grows im'' :=
  ⟨fun k key r hr => h'.entry k key r (h.entry k key r hr),
    fun k => (h.keys k).trans (h'.keys k)⟩

/-- What is stored under a key that is not there changes no other one. -/
theorem grows_stored (h : im.recorded? r.kind key = none) :
    im.Grows (im.stored key r) where
  entry k key' r' hr' := by
    rw [recorded?_stored, if_neg]
    · exact hr'
    · rintro ⟨rfl, rfl⟩
      rw [h] at hr'
      cases hr'
  keys k := by
    rw [keys_stored]
    split
    · exact List.suffix_cons _ _
    · exact List.suffix_rfl

/-- The place of a key stays the same. -/
theorem Grows.place?_eq (h : im.Grows im') (hkey : key ∈ im.keys k) :
    im'.place? k key = im.place? k key ∧ (im.place? k key).isSome := by
  obtain ⟨more, hmore⟩ := h.keys k
  obtain ⟨n, hn⟩ := Option.isSome_iff_exists.1
    (List.isSome_idxOf?.2 (List.mem_reverse.2 hkey))
  rw [place?, place?, ← hmore, List.reverse_append, hn]
  refine ⟨?_, rfl⟩
  rw [List.idxOf?] at hn ⊢
  rw [List.findIdx?_append, hn]
  rfl

end Imports

/-! ## Look-ups -/

/-- A look-up of a framework member. -/
inductive Lookup where
  /-- a type -/
  | type (ns name : String)
  /-- a type inside another one -/
  | nested (ns outer name : String)
  /-- a method by the numbers of its parameters and the types of the first ones;
  a negative number of generic parameters is any -/
  | method (owner : TypeRef) (name : String) (params arity : Int)
    (first : List TypeRef)
  /-- a field -/
  | field (owner : TypeRef) (name : String)

namespace Weave

theorem importGenericMethod_eq (owner : TypeRef) (name : String)
    (params arity : Int) (first : List TypeRef) :
    importGenericMethod owner name params arity first = (do
      if owner.isAbsent then fault
      let names ← need (first.mapM (·.fullName?))
      match (← get).imports.methods.lookup (methodKey owner.openName name params
        arity names) with
      | some m =>
        logRepeat (methodKey owner.openName name params arity names)
        return m
      | none =>
        let u ← resolver
        let w ← workspace
        let m ←
          match ← need (u.importedMethod? w owner name params arity first) with
          | some id => methodRef id
          | none =>
            logMiss (methodKey owner.openName name params arity names)
              (owner.openName ++ "::" ++ name ++ "(" ++ toString params ++ ")")
            if params < 0 then fault
            pure { owner, name, ret := .void,
                   params := List.replicate params.toNat .object }
        modifyImports fun im =>
          { im with
            methods :=
              (methodKey owner.openName name params arity names, m) ::
                im.methods }
        return m) :=
  rfl

end Weave

namespace Lookup

variable {l l' : Lookup} {u : Universe} {w : Workspace} {ms : List ModuleId}
  {W W' : World} {owner : TypeRef} {ns outer name : String} {params arity : Int}
  {first : List TypeRef} {r : Imported}

/-- Makes the look-up. -/
def run : Lookup → Weave Imported
  | .type ns name => Imported.type <$> Weave.importType ns name
  | .nested ns outer name => Imported.type <$> Weave.importNested ns outer name
  | .method owner name params arity first =>
    Imported.method <$> Weave.importGenericMethod owner name params arity first
  | .field owner name => Imported.field <$> Weave.importField owner name

/-- The kind of what is looked up. -/
def kind : Lookup → MemberKind
  | .type .. | .nested .. => .type
  | .method .. => .method
  | .field .. => .field

/-- What the look-up is remembered by. -/
def key : Lookup → String
  | .type ns name => ns ++ "." ++ name
  | .nested ns outer name => ns ++ "." ++ outer ++ "/" ++ name
  | .method owner name params arity first =>
    methodKey owner.openName name params arity
      (first.map fun t => (t.name?).getD "")
  | .field owner name => owner.openName ++ "::" ++ name

/-- What the member is called in the log. -/
def member : Lookup → String
  | .method owner name params _ _ =>
    owner.openName ++ "::" ++ name ++ "(" ++ toString params ++ ")"
  | l => l.key

/-- The namespace is there, the owner is a named type, and no mark of the keys
stands in a name where it would end it; the types of the first parameters have
names. -/
def Plain : Lookup → Prop
  | .type ns name => ns ≠ "" ∧ ':' ∉ ns.toList ∧ ':' ∉ name.toList
  | .nested ns outer name =>
    ns ≠ "" ∧ ':' ∉ ns.toList ∧ ':' ∉ outer.toList ∧ ':' ∉ name.toList
  | .method owner name _ _ first =>
    owner.isNamed ∧ ':' ∉ owner.openName.toList ∧
    '/' ∉ name.toList ∧ ∀ t ∈ first, t.IsFlat ∧ (t.name?).isSome
  | .field owner name =>
    owner.isNamed ∧ ':' ∉ owner.openName.toList ∧ '/' ∉ name.toList

/-- The universe has a definition for the look-up: of the full name, or on the
owner or a type that it derives from. -/
def Resolves (u : Universe) (w : Workspace) : Lookup → Prop
  | .type ns name =>
    ∃ t, u.find? (TypeRef.ofName ns name false).openName = some t
  | .nested ns outer name =>
    ∃ t, u.find? ((TypeRef.ofName ns outer false).nestedIn name
      false).openName = some t
  | .method owner name params arity first =>
    ∃ t a, u.resolve? owner = some t ∧ u.Derives w t a ∧
    ∃ m ∈ (w.type a).methods,
    Framework.fits? name params arity first (w.method m) = some true
  | .field owner name => ∃ t a, u.resolve? owner = some t ∧ u.Derives w t a ∧
    ((w.type a).head.field? name).isSome

/-! ## What resolves -/

theorem resolves_type (hns : ns ≠ "") :
    (Lookup.type ns name).Resolves u w ↔
      (u.find? (Lookup.type ns name).key).isSome := by
  rw [Resolves, key, TypeRef.ofName, TypeRef.openName, if_neg hns,
    Option.isSome_iff_exists]

theorem resolves_nested (hns : ns ≠ "") :
    (Lookup.nested ns outer name).Resolves u w ↔
      (u.find? (Lookup.nested ns outer name).key).isSome := by
  rw [Resolves, key, TypeRef.nestedIn, TypeRef.ofName, TypeRef.openName,
    TypeRef.openName, if_neg hns, Option.isSome_iff_exists]
  exact TypeRef.noConfusion

/-- What is in the lineage of a type is what it derives from. -/
theorem mem_lineage_resolve? (hindex : ∀ p ∈ u.index, p.2.index < w.types.size)
    {a : TypeId} :
    a ∈ u.lineage w (u.resolve? owner) ↔ ∃ t, u.resolve? owner = some t ∧
    u.Derives w t a := by
  cases ht : u.resolve? owner with
  | none => simp [Universe.lineage]
  | some t =>
    rw [Universe.mem_lineage_iff (fun x b hb => Universe.lt_of_resolve?
      hindex hb) (Universe.lt_of_resolve? hindex ht), ← Universe.derives_iff]
    simp

theorem resolves_field (hindex : ∀ p ∈ u.index, p.2.index < w.types.size) :
    (Lookup.field owner name).Resolves u w ↔
    (u.resolveField? w owner name).isSome := by
  rw [Universe.resolveField?, List.findSome?_isSome_iff]
  simp only [Option.isSome_map, mem_lineage_resolve? hindex, Resolves]
  exact ⟨fun ⟨t, a, ht, ha, hf⟩ => ⟨a, ⟨t, ht, ha⟩, hf⟩,
    fun ⟨a, ⟨t, ht, ha⟩, hf⟩ => ⟨t, a, ht, ha, hf⟩⟩

theorem resolves_method (hindex : ∀ p ∈ u.index, p.2.index < w.types.size)
    {found : Option MethodId}
    (h : u.importedMethod? w owner name params arity first = some found) :
    (Lookup.method owner name params arity first).Resolves u w ↔
    found.isSome := by
  have hmem : (Lookup.method owner name params arity first).Resolves u w ↔
      ∃ m ∈ (u.lineage w (u.resolve? owner)).flatMap fun t =>
        (w.type t).methods, Framework.fits? name params arity
          first (w.method m) = some true := by
    simp only [Resolves, List.mem_flatMap, mem_lineage_resolve? hindex]
    exact ⟨fun ⟨t, a, ht, ha, m, hm, hfits⟩ => ⟨m, ⟨a, ⟨t, ht, ha⟩, hm⟩, hfits⟩,
      fun ⟨m, ⟨a, ⟨t, ht, ha⟩, hm⟩, hfits⟩ => ⟨t, a, ht, ha, m, hm, hfits⟩⟩
  rw [hmem]
  cases found with
  | none =>
    refine iff_of_false ?_ (by simp)
    rintro ⟨m, hm, hfits⟩
    rw [Universe.firstSome?_eq_some_none h m hm] at hfits
    cases hfits
  | some m => exact iff_of_true ⟨m, Universe.firstSome?_eq_some_some h⟩ rfl

/-! ## What a look-up does -/

/-- What a look-up does to the world: it finds what is stored, or searches and
stores something. -/
inductive Does (l : Lookup) (W : World) (u : Universe) (r : Imported) :
    World → Prop
  /-- it was looked up before -/
  | again : W.imports.recorded? l.kind l.key = some r →
    Does l W u r { W with imports := W.imports.repeated l.key }
  /-- it resolves -/
  | hit : W.imports.recorded? l.kind l.key = none → r.kind = l.kind →
    l.Resolves u W.workspace →
    Does l W u r { W with resolver := u, imports := W.imports.stored l.key r }
  /-- it does not resolve -/
  | miss : W.imports.recorded? l.kind l.key = none → r.kind = l.kind →
    ¬l.Resolves u W.workspace → Does l W u r
      { W with resolver := u, imports := (W.imports.missed l.key
                 l.member).stored l.key r }

theorem internType_does (hkind : l.kind = .type) (hmember : l.member = l.key)
    (hfound : l.Resolves (W.resolver.refresh W.workspace) W.workspace ↔
      ((W.resolver.refresh W.workspace).find? l.key).isSome) (placeholder :
    TypeRef) :
    ∃ t W', Weave.internType l.key placeholder W = .ok t W' ∧
      l.Does W (W.resolver.refresh W.workspace) (.type t) W' := by
  rw [Weave.internType]
  simp only [bind, EStateM.bind, get, getThe, MonadStateOf.get, EStateM.get]
  cases hentry : W.imports.types.lookup l.key with
  | some t =>
    refine ⟨t, _, rfl, .again ?_⟩
    rw [hkind, Imports.recorded?, hentry]
    rfl
  | none =>
    have hnone : W.imports.recorded? l.kind l.key = none := by
      rw [hkind, Imports.recorded?, hentry]
      rfl
    simp only [Weave.findType, Weave.resolver, modifyGet,
      MonadStateOf.modifyGet, EStateM.modifyGet, bind, EStateM.bind, pure,
      EStateM.pure]
    cases hfind : (W.resolver.refresh W.workspace).find? l.key with
    | some d =>
      exact ⟨_, _, rfl, .hit hnone hkind.symm (hfound.2 (by rw [hfind]; rfl))⟩
    | none =>
      refine ⟨_, _, rfl, ?_⟩
      have hmiss := Does.miss (r := .type placeholder) hnone hkind.symm
        (mt hfound.1 (by rw [hfind]; simp))
      rwa [hmember] at hmiss

theorem importField_does
    (hindex : ∀ p ∈ (W.resolver.refresh W.workspace).index,
      p.2.index < W.workspace.types.size)
    (h : owner.isNamed) (name : String) :
    ∃ f W', Weave.importField owner name W = .ok f W' ∧
      (Lookup.field owner name).Does W (W.resolver.refresh W.workspace)
        (.field f) W' := by
  have habsent : owner.isAbsent = false := by
    cases owner <;> simp_all [TypeRef.isNamed, TypeRef.isAbsent]
  rw [Weave.importField, habsent]
  simp only [Bool.false_eq_true, if_false, bind, EStateM.bind, get, getThe,
    MonadStateOf.get, EStateM.get, pure]
  cases hentry : W.imports.fields.lookup (owner.openName ++ "::" ++ name) with
  | some f =>
    refine ⟨f, _, rfl, .again ?_⟩
    rw [kind, key, Imports.recorded?, hentry]
    rfl
  | none =>
    have hnone : W.imports.recorded? .field (owner.openName ++ "::" ++ name) =
        none := by
      rw [Imports.recorded?, hentry]
      rfl
    simp only [Weave.resolveField, Weave.resolver, modifyGet,
      MonadStateOf.modifyGet, EStateM.modifyGet, bind, EStateM.bind,
      Weave.workspace, get, getThe, MonadStateOf.get, EStateM.get, pure,
      EStateM.pure]
    cases hfind : (W.resolver.refresh W.workspace).resolveField? W.workspace
        owner name with
    | some d =>
      exact ⟨_, _, rfl, .hit hnone
        rfl ((resolves_field hindex).2 (by rw [hfind]; rfl))⟩
    | none =>
      exact ⟨_, _, rfl, .miss hnone
        rfl (mt (resolves_field hindex).1 (by rw [hfind]; simp))⟩

theorem mapM_fullName? (h : ∀ t ∈ first, (t.name?).isSome) :
    first.mapM (·.fullName?) = some (first.map fun t => (t.name?).getD "") := by
  induction first with
  | nil => rfl
  | cons t first ih =>
    obtain ⟨ht, hfirst⟩ := List.forall_mem_cons.1 h
    obtain ⟨n, hn⟩ := Option.isSome_iff_exists.1 ht
    have hfull : t.fullName? = some n := by
      cases t with
      | absent => cases hn
      | named => exact hn
      | wrapped => exact hn
      | param => exact hn
    rw [List.mapM_cons, hfull, ih hfirst, List.map_cons, hn]
    rfl

/-- A method that an import asks for belongs to a type. -/
theorem exists_methodRef? {id : MethodId} (hw : w.Tidy)
    (h : u.importedMethod? w owner name params arity first = some (some id)) :
    ∃ m, w.methodRef? id = some m := by
  have hmem := (Universe.firstSome?_eq_some_some h).1
  obtain ⟨t, -, ht⟩ := List.mem_flatMap.1 hmem
  rw [Workspace.methodRef?, hw.owner t id ht]
  exact ⟨_, rfl⟩

/-- Looking a method up stops only where a parameter has no name, or where a
method without a sensible number of parameters does not resolve. -/
theorem importGenericMethod_does
    (hindex : ∀ p ∈ (W.resolver.refresh W.workspace).index,
      p.2.index < W.workspace.types.size)
    (h : owner.isNamed) (hfirst : ∀ t ∈ first, (t.name?).isSome) :
    (∀ m W', Weave.importGenericMethod owner name params arity first W =
      .ok m W' → (Lookup.method owner name params arity first).Does W
        (W.resolver.refresh W.workspace) (.method m) W') ∧
    (0 ≤ params → W.workspace.Tidy →
      (∃ found, (W.resolver.refresh W.workspace).importedMethod? W.workspace
        owner name params arity first = some found) →
      ∃ m W', Weave.importGenericMethod owner name params arity first W =
        .ok m W') := by
  have habsent : owner.isAbsent = false := by
    cases owner <;> simp_all [TypeRef.isNamed, TypeRef.isAbsent]
  rw [Weave.importGenericMethod_eq, habsent, mapM_fullName? hfirst]
  simp only [Bool.false_eq_true, if_false, Weave.need, bind, EStateM.bind,
    get, getThe, MonadStateOf.get, EStateM.get, pure, EStateM.pure]
  generalize hl : Lookup.method owner name params arity first = l
  have hkey : methodKey owner.openName name params arity
    (first.map fun t => (t.name?).getD "") =
      l.key := by rw [← hl, key]
  have hkind : l.kind = .method := by rw [← hl, kind]
  have hfound : ∀ found, (W.resolver.refresh W.workspace).importedMethod?
    W.workspace owner name
      params arity first = some found →
      (l.Resolves (W.resolver.refresh W.workspace) W.workspace ↔
        found.isSome) :=
    fun found hsearch => hl ▸ resolves_method hindex hsearch
  have hmember : owner.openName ++ "::" ++ name ++ "(" ++ toString params ++
      ")" = l.member := by
    rw [← hl, member]
  rw [hkey, hmember]
  cases hentry : W.imports.methods.lookup l.key with
  | some m =>
    have hagain : W.imports.recorded? l.kind l.key = some (.method m) := by
      rw [hkind, Imports.recorded?, hentry]
      rfl
    refine ⟨fun m' W' hrun => ?_, fun _ _ _ => ⟨_, _, rfl⟩⟩
    cases hrun
    exact .again hagain
  | none =>
    have hnone : W.imports.recorded? l.kind l.key = none := by
      rw [hkind, Imports.recorded?, hentry]
      rfl
    simp only [Weave.resolver, modifyGet, MonadStateOf.modifyGet,
      EStateM.modifyGet, bind, EStateM.bind, Weave.workspace, get, getThe,
      MonadStateOf.get, EStateM.get, pure, EStateM.pure]
    cases hsearch : (W.resolver.refresh W.workspace).importedMethod? W.workspace
      owner name params
        arity first with
    | none =>
      refine ⟨fun m W' hrun => ?_, fun _ _ hany => ?_⟩
      · cases hrun
      · obtain ⟨_, hany⟩ := hany
        cases hany
    | some found =>
      have hfound := hfound found hsearch
      cases found with
      | none =>
        by_cases hcount : params < 0
        · simp only [hcount, if_true]
          refine ⟨fun m W' hrun => ?_,
            fun hnat => absurd hcount (not_lt.2 hnat)⟩
          cases hrun
        · simp only [hcount, if_false]
          refine ⟨fun m W' hrun => ?_, fun _ _ _ => ⟨_, _, rfl⟩⟩
          cases hrun
          exact .miss hnone hkind.symm (mt hfound.1 (by simp))
      | some id =>
        simp only [Weave.methodRef, Weave.workspace, Weave.need, bind,
          EStateM.bind, get, getThe, MonadStateOf.get, EStateM.get, pure,
          EStateM.pure]
        cases href : W.workspace.methodRef? id with
        | none =>
          refine ⟨fun m W' hrun => ?_, fun _ htidy _ => ?_⟩
          · cases hrun
          · obtain ⟨m, hm⟩ := exists_methodRef? htidy hsearch
            rw [href] at hm
            cases hm
        | some m =>
          refine ⟨fun m' W' hrun => ?_, fun _ _ _ => ⟨_, _, rfl⟩⟩
          cases hrun
          exact .hit hnone hkind.symm (hfound.2 rfl)

theorem map_run {α β : Type} (f : α → β) (act : Weave α) (W : World) :
    (f <$> act) W = match act W with
      | .ok a W' => .ok (f a) W'
      | .error e W' => .error e W' := by
  simp only [Functor.map, EStateM.map]
  cases act W <;> rfl

theorem does_of_type_run (hkind : l.kind = .type) (hmember : l.member = l.key)
    (hfound : ∀ u w, l.Resolves u w ↔ (u.find? l.key).isSome)
    (placeholder : TypeRef) :
    ∃ r W',
      (Imported.type <$> Weave.internType l.key placeholder) W = .ok r W' ∧
      l.Does W (W.resolver.refresh W.workspace) r W' := by
  obtain ⟨t, W', hrun, hdoes⟩ :=
    internType_does (W := W) hkind hmember (hfound _ _) placeholder
  exact ⟨.type t, W', by rw [map_run, hrun], hdoes⟩

/-- What a look-up does if it gives something. -/
theorem does_of_run
    (hindex : ∀ p ∈ (W.resolver.refresh W.workspace).index,
      p.2.index < W.workspace.types.size)
    (hl : l.Plain) (h : l.run W = .ok r W') :
    l.Does W (W.resolver.refresh W.workspace) r W' := by
  cases l with
  | type ns name =>
    obtain ⟨r', W'', hrun, hdoes⟩ :=
      does_of_type_run (W := W) (l := .type ns name) rfl rfl
      (fun _ _ => resolves_type hl.1) (.ofName ns name false)
    cases hrun.symm.trans h
    exact hdoes
  | nested ns outer name =>
    obtain ⟨r', W'', hrun, hdoes⟩ :=
      does_of_type_run (W := W) (l := .nested ns outer name) rfl rfl
      (fun _ _ => resolves_nested hl.1)
        ((TypeRef.ofName ns outer false).nestedIn name false)
    cases hrun.symm.trans h
    exact hdoes
  | field owner name =>
    obtain ⟨f, W'', hrun, hdoes⟩ := importField_does hindex hl.1 name
    rw [run, map_run, hrun] at h
    cases h
    exact hdoes
  | method owner name params arity first =>
    rw [run, map_run] at h
    cases hrun : Weave.importGenericMethod owner name params arity first W with
    | error e W'' =>
      rw [hrun] at h
      cases h
    | ok m W'' =>
      rw [hrun] at h
      cases h
      exact (importGenericMethod_does hindex hl.1
        fun t ht => (hl.2.2.2 t ht).2).1 m W' hrun

/-- The number of parameters is one. -/
def HasCount : Lookup → Prop
  | .method _ _ params _ _ => 0 ≤ params
  | _ => True

/-- Where parameters have types with names, every look-up gives something. -/
theorem exists_run
    (hindex : ∀ p ∈ (W.resolver.refresh W.workspace).index,
      p.2.index < W.workspace.types.size)
    (hl : l.Plain) (hcount : l.HasCount) (hw : W.workspace.Tidy)
    (hnamed : Universe.ParamsNamed W.workspace) :
    ∃ r W', l.run W = .ok r W' := by
  cases l with
  | type ns name =>
    obtain ⟨r, W', hrun, -⟩ :=
      does_of_type_run (W := W) (l := .type ns name) rfl rfl
      (fun _ _ => resolves_type hl.1) (.ofName ns name false)
    exact ⟨r, W', hrun⟩
  | nested ns outer name =>
    obtain ⟨r, W', hrun, -⟩ :=
      does_of_type_run (W := W) (l := .nested ns outer name) rfl rfl
      (fun _ _ => resolves_nested hl.1)
        ((TypeRef.ofName ns outer false).nestedIn name false)
    exact ⟨r, W', hrun⟩
  | field owner name =>
    obtain ⟨f, W', hrun, -⟩ := importField_does hindex hl.1 name
    exact ⟨.field f, W', by rw [run, map_run, hrun]⟩
  | method owner name params arity first =>
    have hfirst : ∀ t ∈ first, (t.name?).isSome := fun t ht => (hl.2.2.2 t ht).2
    have hfull : ∀ t ∈ first, t.fullName?.isSome := by
      intro t ht
      have := hfirst t ht
      cases t <;> first | rfl | exact this
    have hsearch : ∃ found, (W.resolver.refresh W.workspace).importedMethod?
      W.workspace owner name
        params arity first = some found := by
      refine Universe.exists_firstSome? fun m hm => ?_
      obtain ⟨t, -, ht⟩ := List.mem_flatMap.1 hm
      exact Universe.exists_fits? (hnamed t m ht) hfull
    obtain ⟨m, W', hrun⟩ := (importGenericMethod_does hindex hl.1 hfirst).2
      hcount hw hsearch
    exact ⟨.method m, W', by rw [run, map_run, hrun]⟩

/-! ## Keys tell look-ups apart -/

theorem notMem_key (hl : l.Plain) (hkind : l.kind = .type) :
    ':' ∉ l.key.toList := by
  cases l with
  | type ns name =>
    obtain ⟨-, hns, hname⟩ := hl
    simp only [key, String.toList_append, List.mem_append, not_or]
    exact ⟨⟨hns, by decide⟩, hname⟩
  | nested ns outer name =>
    obtain ⟨-, hns, houter, hname⟩ := hl
    simp only [key, String.toList_append, List.mem_append, not_or]
    exact ⟨⟨⟨⟨hns, by decide⟩, houter⟩, by decide⟩, hname⟩
  | method => cases hkind
  | field => cases hkind

/-- The key of what is no type has two colons behind the owner. -/
theorem toList_key_field :
    (Lookup.field owner name).key.toList =
      owner.openName.toList ++ ':' :: ':' :: name.toList := by
  simp only [key, String.toList_append]
  simp

theorem toList_key_method :
    (Lookup.method owner name params arity first).key.toList =
      owner.openName.toList ++ ':' :: ':' :: (name.toList ++
      '/' :: ((toString params).toList ++ '\x60' :: ((toString arity).toList ++
        (first.map fun t => (t.name?).getD "").flatMap
          fun s => ',' :: s.toList))) := by
  rw [key, toList_methodKey]
  simp only [List.append_assoc, List.cons_append]

theorem mem_key (hkind : l.kind ≠ .type) : ':' ∈ l.key.toList := by
  cases l with
  | type => exact absurd rfl hkind
  | nested => exact absurd rfl hkind
  | method => simp [toList_key_method]
  | field => simp [toList_key_field]

/-- A field has no slash behind the owner, a method has one. -/
theorem key_field_ne_method {owner' : TypeRef} {name' : String}
    (hl : (Lookup.field owner name).Plain)
    (hl' : (Lookup.method owner' name' params arity first).Plain) :
    (Lookup.field owner name).key ≠
    (Lookup.method owner' name' params arity first).key := by
  intro hkey
  have h := congrArg String.toList hkey
  rw [toList_key_field, toList_key_method] at h
  obtain ⟨-, hrest⟩ := colons_inj hl.2.1 hl'.2.1 h
  exact hl.2.2 (by rw [hrest]; simp)

/-- A named type is found by its name. -/
theorem resolve?_congr {owner' : TypeRef} (h : owner.isNamed)
    (h' : owner'.isNamed) (hname : owner.openName = owner'.openName) :
    u.resolve? owner = u.resolve? owner' := by
  rw [Universe.resolve?, Universe.resolve?, Universe.named?_of_isNamed h,
    Universe.named?_of_isNamed h']
  exact congrArg u.find? hname

/-- Methods that have one key are looked for with the same names and numbers. -/
theorem resolves_method_iff {owner' : TypeRef} {first' : List TypeRef}
    (hl : (Lookup.method owner name params arity first).Plain)
    (hl' : (Lookup.method owner' name params arity first').Plain)
    (howner : owner.openName = owner'.openName)
    (hfirst : (first.map fun t => (t.name?).getD "") = first'.map
      fun t => (t.name?).getD "") :
    (Lookup.method owner name params arity first).Resolves u w ↔
      (Lookup.method owner' name params arity first').Resolves u w := by
  have hresolve : u.resolve? owner = u.resolve? owner' :=
    resolve?_congr hl.1 hl'.1 howner
  have hnames : first.map (·.name?) = first'.map (·.name?) := by
    have hsome : ∀ {ts : List TypeRef}, (∀ t ∈ ts, (t.name?).isSome) →
        ts.map (·.name?) = (ts.map fun t => (t.name?).getD "").map some := by
      intro ts hts
      rw [List.map_map]
      refine List.map_congr_left fun t ht => ?_
      obtain ⟨n, hn⟩ := Option.isSome_iff_exists.1 (hts t ht)
      simp [hn]
    rw [hsome fun t ht => (hl.2.2.2 t ht).2,
      hsome fun t ht => (hl'.2.2.2 t ht).2, hfirst]
  have hfits : ∀ d, Framework.fits? name params arity first d =
      Framework.fits? name params arity first' d :=
    fun d => Framework.fits?_first (fun t ht => (hl'.2.2.2 t ht).2) hnames
  simp only [Resolves, hresolve, hfits]

/-- The key of a look-up tells its kind, whether it resolves and what its member
is called. -/
theorem key_inj (hl : l.Plain) (hl' : l'.Plain) (hkey : l.key = l'.key) :
    l.kind = l'.kind ∧ l.member = l'.member ∧
    (l.Resolves u w ↔ l'.Resolves u w) := by
  have hcolon : l.kind = .type ↔ l'.kind = .type := by
    constructor <;> intro hkind <;> by_contra hother
    · exact notMem_key hl hkind (hkey ▸ mem_key hother)
    · exact notMem_key hl' hkind (hkey ▸ mem_key hother)
  by_cases htype : l.kind = .type
  · have htype' := hcolon.1 htype
    have hshown : ∀ {l : Lookup}, l.Plain → l.kind = .type →
        l.member = l.key ∧ (l.Resolves u w ↔ (u.find? l.key).isSome) := by
      intro l hl hkind
      cases l with
      | type => exact ⟨rfl, resolves_type hl.1⟩
      | nested => exact ⟨rfl, resolves_nested hl.1⟩
      | method => cases hkind
      | field => cases hkind
    obtain ⟨hmember, hfound⟩ := hshown hl htype
    obtain ⟨hmember', hfound'⟩ := hshown hl' htype'
    exact ⟨htype.trans htype'.symm,
      by rw [hmember, hmember', hkey], by rw [hfound, hfound', hkey]⟩
  have htype' := mt hcolon.2 htype
  cases l with
  | type => exact absurd rfl htype
  | nested => exact absurd rfl htype
  | field owner name =>
    cases l' with
    | type => exact absurd rfl htype'
    | nested => exact absurd rfl htype'
    | method => exact absurd hkey (key_field_ne_method hl hl')
    | field owner' name' =>
      have h := congrArg String.toList hkey
      rw [toList_key_field, toList_key_field] at h
      obtain ⟨howner, hname⟩ := colons_inj hl.2.1 hl'.2.1 h
      obtain rfl := String.toList_inj.1 hname
      exact ⟨rfl, hkey,
        by simp only [Resolves, resolve?_congr hl.1 hl'.1 howner]⟩
  | method owner name params arity first =>
    cases l' with
    | type => exact absurd rfl htype'
    | nested => exact absurd rfl htype'
    | field => exact absurd hkey.symm (key_field_ne_method hl' hl)
    | method owner' name' params' arity' first' =>
      have hclosed : ∀ {ts : List TypeRef},
        (∀ t ∈ ts, t.IsFlat ∧ (t.name?).isSome) →
          ∀ n ∈ ts.map fun t => (t.name?).getD "", IsClosed n := by
        intro ts hts n hn
        obtain ⟨t, ht, rfl⟩ := List.mem_map.1 hn
        obtain ⟨hflat, hsome⟩ := hts t ht
        obtain ⟨n, hname⟩ := Option.isSome_iff_exists.1 hsome
        rw [hname]
        exact TypeRef.isClosed_name hflat hname
      obtain ⟨howner, rfl, rfl, rfl, hfirst⟩ :=
        methodKey_inj_of_closed hl.2.1 hl'.2.1 hl.2.2.1
        hl'.2.2.1 (hclosed hl.2.2.2) (hclosed hl'.2.2.2) hkey
      exact ⟨rfl,
        by
        rw [member, member, howner], resolves_method_iff hl hl' howner hfirst⟩

theorem member_ne_empty (l : Lookup) : l.member ≠ "" := by
  have hmark : ∀ {c : Char}, c ∈ l.member.toList → l.member ≠ "" := by
    intro c hc he
    rw [he] at hc
    cases hc
  cases l with
  | type => exact hmark (c := '.') (by simp [member, key])
  | nested => exact hmark (c := '/') (by simp [member, key])
  | method => exact hmark (c := '(') (by simp [member])
  | field => exact hmark (c := ':') (by simp [member, key])

end Lookup

/-! ## Runs of look-ups -/

/-- What is logged for look-ups: the members of those that do not resolve. -/
inductive Lookup.Logs (u : Universe) (w : Workspace) : List Lookup →
    List String → Prop
  | nil : Logs u w [] []
  | hit {l : Lookup} {ls : List Lookup} {names : List String} :
    l.Resolves u w → Logs u w ls names → Logs u w (l :: ls) names
  | miss {l : Lookup} {ls : List Lookup} {names : List String} :
    ¬l.Resolves u w → Logs u w ls names → Logs u w (l :: ls) (l.member :: names)

namespace World

variable {W W' : World} {w : Workspace} {u : Universe} {l : Lookup}
  {ls : List Lookup} {r : Imported}

/-- The placeholders are those of the look-ups that do not resolve, under their
members' names. -/
structure Counts (W : World) (w : Workspace) (u : Universe) : Prop where
  /-- the definitions are these -/
  workspace : W.workspace = w
  /-- they are found in this universe -/
  resolver : W.resolver.refresh w = u
  /-- a key that was looked up and does not resolve has a placeholder -/
  placeholder : ∀ l : Lookup, l.Plain →
    (W.imports.recorded? l.kind l.key).isSome → ¬l.Resolves u w →
    W.imports.missing.lookup l.key = some l.member
  /-- no other key has one -/
  known : ∀ l : Lookup, l.Plain → ((W.imports.recorded? l.kind l.key).isSome →
    l.Resolves u w) → W.imports.missing.lookup l.key = none

theorem Counts.of_empty (h : W.imports = {}) :
    W.Counts W.workspace (W.resolver.refresh W.workspace) where
  workspace := rfl
  resolver := rfl
  placeholder l _ hsome _ := by
    rw [h] at hsome
    cases hkind : l.kind <;> rw [hkind] at hsome <;> cases hsome
  known l _ _ := by
    rw [h]
    rfl

/-- One look-up preserves the correspondence, keeps what is stored, and logs its
member if it does not resolve. -/
theorem Counts.run (h : W.Counts w u)
    (hindex : ∀ p ∈ u.index, p.2.index < w.types.size)
    (hl : l.Plain) (hrun : l.run W = .ok r W') :
    W'.Counts w u ∧ W.imports.Grows W'.imports ∧
    W'.imports.recorded? l.kind l.key = some r ∧
      ∃ names, Lookup.Logs u w [l] names ∧
        W'.imports.misses.toList = W.imports.misses.toList ++ names := by
  obtain ⟨rfl, hresolver, hplaceholder, hknown⟩ := h
  have hdoes := Lookup.does_of_run (by rwa [hresolver]) hl hrun
  rw [hresolver] at hdoes
  -- what is stored under the key of the look-up tells of no other look-up
  have hsame : ∀ l' : Lookup, l'.Plain → l'.key = l.key → l'.kind = l.kind ∧
      l'.member = l.member ∧ (l'.Resolves u W.workspace ↔
        l.Resolves u W.workspace) :=
    fun l' hl' hkey => Lookup.key_inj hl' hl hkey
  cases hdoes with
  | again hentry =>
    refine ⟨⟨rfl, hresolver, ?_, ?_⟩, .of_eq Imports.recorded?_repeated
      Imports.keys_repeated, ?_, ?_⟩
    · simpa using hplaceholder
    · simpa using hknown
    · simpa using hentry
    · have hsome : (W.imports.recorded? l.kind l.key).isSome := by
        rw [hentry]; rfl
      by_cases hres : l.Resolves u W.workspace
      · refine ⟨[], .hit hres .nil, ?_⟩
        rw [Imports.repeated, hknown l hl fun _ => hres]
        simp
      · refine ⟨[l.member], .miss hres .nil, ?_⟩
        rw [Imports.repeated, hplaceholder l hl hsome hres]
        simp
  | hit hnone hkind hres =>
    have hgrows : W.imports.Grows (W.imports.stored l.key r) :=
      Imports.grows_stored (by rw [hkind]; exact hnone)
    refine ⟨⟨rfl, ?_, ?_, ?_⟩, hgrows, ?_, [], .hit hres .nil, by simp⟩
    · rw [← hresolver, Universe.refresh_refresh]
    · intro l' hl' hsome hres'
      rw [Imports.missing_stored]
      refine hplaceholder l' hl' ?_ hres'
      rw [Imports.recorded?_stored, if_neg] at hsome
      · exact hsome
      · exact fun ⟨_, hkey⟩ => hres' ((hsame l' hl' hkey).2.2.2 hres)
    · intro l' hl' hsome
      rw [Imports.missing_stored]
      refine hknown l' hl' fun hold => hsome ?_
      obtain ⟨r', hr'⟩ := Option.isSome_iff_exists.1 hold
      rw [hgrows.entry _ _ _ hr']
      rfl
    · rw [Imports.recorded?_stored, if_pos ⟨hkind, rfl⟩]
  | miss hnone hkind hres =>
    have hgrows : W.imports.Grows ((W.imports.missed l.key l.member).stored
        l.key r) :=
      .trans (.of_eq Imports.recorded?_missed Imports.keys_missed)
        (Imports.grows_stored (by
          rw [hkind, Imports.recorded?_missed]; exact hnone))
    refine ⟨⟨rfl, ?_, ?_, ?_⟩, hgrows, ?_, [l.member], .miss hres .nil,
      by simp [Imports.missed]⟩
    · rw [← hresolver, Universe.refresh_refresh]
    · intro l' hl' hsome hres'
      rw [Imports.missing_stored, Imports.missed, List.lookup_cons]
      by_cases hkey : l'.key = l.key
      · rw [hkey, beq_self_eq_true, (hsame l' hl' hkey).2.1]
      · rw [beq_false_of_ne hkey]
        refine hplaceholder l' hl' ?_ hres'
        rwa [Imports.recorded?_stored, if_neg fun h => hkey h.2,
          Imports.recorded?_missed] at hsome
    · intro l' hl' hsome
      rw [Imports.recorded?_stored] at hsome
      rw [Imports.missing_stored, Imports.missed, List.lookup_cons]
      by_cases hkey : l'.key = l.key
      · obtain ⟨hk, -, hiff⟩ := hsame l' hl' hkey
        rw [if_pos ⟨hkind.trans hk.symm, hkey⟩] at hsome
        exact absurd (hiff.1 (hsome rfl)) hres
      · rw [beq_false_of_ne hkey]
        rw [if_neg fun h => hkey h.2, Imports.recorded?_missed] at hsome
        exact hknown l' hl' hsome
    · rw [Imports.recorded?_stored, if_pos ⟨hkind, rfl⟩]

end World

/-! ## Objects -/

namespace Lookup

variable {W W' : World} {w : Workspace} {u : Universe} {ms : List ModuleId}
  {l : Lookup} {ls : List Lookup} {im im' : Imports} {o : Imported × Option Nat}
  {os : List (Imported × Option Nat)}

/-- Makes the look-up, and tells the place of what it gives: of two references
of one kind that are in one place there is only one object. -/
def object (l : Lookup) : Weave (Imported × Option Nat) := do
  let r ← l.run
  return (r, (← get).imports.place? l.kind l.key)

/-- The object is stored for the look-up. -/
structure Holds (im : Imports) (l : Lookup) (o : Imported × Option Nat) :
    Prop where
  /-- it is the reference under the key -/
  entry : im.recorded? l.kind l.key = some o.1
  /-- it is in the place of the key -/
  place : im.place? l.kind l.key = o.2
  /-- it has a place -/
  isSome : o.2.isSome

/-- An object stays where it is. -/
theorem Holds.grow (h : Holds im l o) (hgrows : im.Grows im') :
    Holds im' l o where
  entry := hgrows.entry _ _ _ h.entry
  place := (hgrows.place?_eq (Imports.mem_keys_of_recorded? h.entry)).1.trans
    h.place
  isSome := h.isSome

theorem object_run (h : l.object W = .ok o W') :
    ∃ r, l.run W = .ok r W' ∧ o = (r, W'.imports.place? l.kind l.key) := by
  simp only [object, bind, EStateM.bind, get, getThe, MonadStateOf.get,
    EStateM.get, pure, EStateM.pure] at h
  cases hrun : l.run W with
  | error e W'' =>
    rw [hrun] at h
    cases h
  | ok r W'' =>
    rw [hrun] at h
    cases h
    exact ⟨r, rfl, rfl⟩

theorem Logs.append {ls' : List Lookup} {names names' : List String}
    (h : Logs u w ls names) (h' : Logs u w ls' names') :
    Logs u w (ls ++ ls') (names ++ names') := by
  induction h with
  | nil => exact h'
  | hit hres _ ih => exact .hit hres ih
  | miss hres _ ih => exact .miss hres ih

/-- A run of look-ups preserves the correspondence, stores an object for each of
them, and logs the members that do not resolve in their order. -/
theorem runAll (h : W.Counts w u)
    (hindex : ∀ p ∈ u.index, p.2.index < w.types.size)
    (hls : ∀ l ∈ ls, l.Plain) (hrun : ls.mapM object W = .ok os W') :
    W'.Counts w u ∧ W.imports.Grows W'.imports ∧
    List.Forall₂ (Holds W'.imports) ls os ∧
      ∃ names, Logs u w ls names ∧
        W'.imports.misses.toList = W.imports.misses.toList ++ names := by
  induction ls generalizing W os with
  | nil =>
    cases hrun
    exact ⟨h, .of_eq rfl rfl, .nil, [], .nil, by simp⟩
  | cons l ls ih =>
    obtain ⟨hl, hls⟩ := List.forall_mem_cons.1 hls
    rw [List.mapM_cons] at hrun
    simp only [bind, EStateM.bind, pure, EStateM.pure] at hrun
    cases hfirst : l.object W with
    | error e W₁ =>
      rw [hfirst] at hrun
      cases hrun
    | ok o W₁ =>
      rw [hfirst] at hrun
      dsimp only at hrun
      cases hrest : ls.mapM object W₁ with
      | error e W₂ =>
        rw [hrest] at hrun
        cases hrun
      | ok os' W₂ =>
        rw [hrest] at hrun
        cases hrun
        obtain ⟨r, hr, rfl⟩ := object_run hfirst
        obtain ⟨hcounts, hgrows, hentry, names, hlogs, hmisses⟩ :=
          h.run hindex hl hr
        obtain ⟨hcounts', hgrows', hall, names', hlogs', hmisses'⟩ :=
          ih hcounts hls hrest
        have hholds : Holds W₁.imports l (r, W₁.imports.place? l.kind l.key) :=
          ⟨hentry, rfl, ((Imports.Grows.of_eq rfl rfl).place?_eq
            (Imports.mem_keys_of_recorded? hentry)).2⟩
        refine ⟨hcounts', hgrows.trans hgrows',
          .cons (hholds.grow hgrows') hall, names ++ names',
          hlogs.append hlogs', ?_⟩
        rw [hmisses', hmisses, List.append_assoc]

/-- Look-ups, some before and some after a mark, and what is missing since the
mark in the end. -/
def session (before after : List Lookup) :
    Weave (List (Imported × Option Nat) × String) := do
  let os ← before.mapM object
  let since ← Weave.mark
  let os' ← after.mapM object
  return (os ++ os', ← Weave.missingSince since)

/-- The first member of a log, or the empty text. -/
theorem Logs.head {names : List String} (h : Logs u w ls names) :
    (names.headD "" = "" ↔ ∀ l ∈ ls, l.Resolves u w) ∧
      ∀ before l after, ls = before ++ l :: after →
      (∀ x ∈ before, x.Resolves u w) →
        ¬l.Resolves u w → names.headD "" = l.member := by
  induction h with
  | nil => simp
  | @hit l ls names hres _ ih =>
    rw [List.forall_mem_cons]
    refine ⟨ih.1.trans ⟨fun h => ⟨hres, h⟩, And.right⟩,
      fun before x after he hbefore hx => ?_⟩
    cases before with
    | nil =>
      cases he
      exact absurd hres hx
    | cons y before =>
      cases he
      exact ih.2 before x after
        rfl (fun z hz => hbefore z (List.mem_cons_of_mem _ hz)) hx
  | @miss l ls names hres _ _ =>
    constructor
    · simp [hres, member_ne_empty]
    · intro before x after he hbefore hx
      cases before with
      | nil =>
        cases he
        rfl
      | cons y before =>
        cases he
        exact absurd (hbefore _ List.mem_cons_self) hres

/-- Where parameters have types with names, a run of look-ups gives an object
for each. -/
theorem exists_runAll (h : W.Counts w u)
    (hindex : ∀ p ∈ u.index, p.2.index < w.types.size)
    (hw : w.Tidy) (hnamed : Universe.ParamsNamed w) (hls : ∀ l ∈ ls, l.Plain)
    (hcount : ∀ l ∈ ls, l.HasCount) :
    ∃ os W', ls.mapM object W = .ok os W' := by
  induction ls generalizing W with
  | nil => exact ⟨[], W, rfl⟩
  | cons l ls ih =>
    obtain ⟨hl, hls⟩ := List.forall_mem_cons.1 hls
    obtain ⟨hc, hcount⟩ := List.forall_mem_cons.1 hcount
    obtain ⟨r, W₁, hrun⟩ := exists_run (W := W)
      (by rwa [h.workspace, h.resolver]) hl hc (by rwa [h.workspace])
        (by rwa [h.workspace])
    obtain ⟨os, W₂, hrest⟩ := ih (h.run hindex hl hrun).1 hls hcount
    have hfirst : l.object W = .ok (r, W₁.imports.place? l.kind l.key) W₁ := by
      simp only [object, bind, EStateM.bind, hrun, get, getThe,
        MonadStateOf.get, EStateM.get, pure, EStateM.pure]
    refine ⟨(r, W₁.imports.place? l.kind l.key) :: os, W₂, ?_⟩
    rw [List.mapM_cons]
    simp only [bind, EStateM.bind, pure, EStateM.pure, hfirst, hrest]

theorem missingSince_run {n : Nat} (names : List String)
    (h : W.imports.misses.toList.drop n = names) :
    Weave.missingSince n W = .ok (names.headD "") W := by
  simp only [Weave.missingSince, bind, EStateM.bind, get, getThe,
    MonadStateOf.get, EStateM.get, pure, EStateM.pure, Int.toNat_natCast]
  rw [if_neg (by omega), ← h, ← Array.getElem?_toList, List.headD_eq_head?_getD,
    List.head?_drop]

/-- What a run of look-ups gives and what is missing since a mark in it: equal
look-ups give one object; nothing is missing exactly if every look-up since the
mark resolves; else it is the member of the first look-up that does not.  A run
stops at most where a parameter has a type without a name or a method is looked
up with a negative number of parameters. -/
theorem session_missing {before after : List Lookup} (himports : W.imports = {})
    (hw : W.workspace.Tidy)
    (hu : W.resolver.refresh W.workspace = .ofModules W.workspace ms)
    (hplain : ∀ l ∈ before ++ after, l.Plain) :
    (Universe.ParamsNamed W.workspace → (∀ l ∈ before ++ after, l.HasCount) →
      ∃ os name W', session before after W = .ok (os, name) W') ∧
    ∀ os name W', session before after W = .ok (os, name) W' →
      os.length = (before ++ after).length ∧
      (∀ (i j : Nat) l, (before ++ after)[i]? = some l →
        (before ++ after)[j]? = some l →
          os[i]? = os[j]? ∧ ∃ r place, os[i]? = some (r, some place)) ∧
      (name = "" ↔
        ∀ l ∈ after, l.Resolves (.ofModules W.workspace ms) W.workspace) ∧
      ∀ found l rest, after = found ++ l :: rest →
        (∀ x ∈ found, x.Resolves (.ofModules W.workspace ms) W.workspace) →
        ¬l.Resolves (.ofModules W.workspace ms) W.workspace →
        name = l.member := by
  have hindex : ∀ p ∈ (Universe.ofModules W.workspace ms).index,
      p.2.index < W.workspace.types.size :=
    fun p hp => Universe.lt_of_mem_buildIndex (.refl W.workspace) hw hp
  have hstart : W.Counts W.workspace (.ofModules W.workspace ms) :=
    hu ▸ .of_empty himports
  have hbefore : ∀ l ∈ before, l.Plain :=
    fun l hl => hplain l (List.mem_append_left _ hl)
  have hafter : ∀ l ∈ after, l.Plain :=
    fun l hl => hplain l (List.mem_append_right _ hl)
  constructor
  · intro hnamed hcount
    obtain ⟨os, W₁, hfirst⟩ := exists_runAll hstart hindex hw hnamed hbefore
      fun l hl => hcount l (List.mem_append_left _ hl)
    obtain ⟨os', W₂, hrest⟩ :=
      exists_runAll (runAll hstart hindex hbefore hfirst).1 hindex hw
      hnamed hafter fun l hl => hcount l (List.mem_append_right _ hl)
    refine ⟨os ++ os',
      (W₂.imports.misses.toList.drop W₁.imports.misses.size).headD "", W₂, ?_⟩
    simp only [session, bind, EStateM.bind, pure, EStateM.pure, hfirst,
      Weave.mark, get, getThe, MonadStateOf.get, EStateM.get, hrest]
    rw [missingSince_run _ rfl]
  · intro os name W' hsession
    simp only [session, bind, EStateM.bind, pure, EStateM.pure, Weave.mark,
      get, getThe, MonadStateOf.get, EStateM.get] at hsession
    cases hfirst : before.mapM object W with
    | error e W₁ =>
      rw [hfirst] at hsession
      cases hsession
    | ok os₁ W₁ =>
      rw [hfirst] at hsession
      dsimp only at hsession
      cases hrest : after.mapM object W₁ with
      | error e W₂ =>
        rw [hrest] at hsession
        cases hsession
      | ok os₂ W₂ =>
        rw [hrest] at hsession
        dsimp only at hsession
        obtain ⟨hcounts, -, hall, -⟩ := runAll hstart hindex hbefore hfirst
        obtain ⟨-, hgrows, hall', names, hlogs, hmisses⟩ :=
          runAll hcounts hindex hafter hrest
        rw [missingSince_run names
          (by rw [hmisses, ← Array.length_toList, List.drop_left])]
          at hsession
        cases hsession
        have hobjects : List.Forall₂ (Holds W'.imports) (before ++ after)
            (os₁ ++ os₂) :=
          List.rel_append (hall.imp fun _ _ h => h.grow hgrows) hall'
        refine ⟨hobjects.length_eq.symm, fun i j l hi hj => ?_, hlogs.head⟩
        have hget : ∀ i : Nat, (before ++ after)[i]? = some l →
            ∃ o, (os₁ ++ os₂)[i]? = some o ∧ Holds W'.imports l o := by
          intro i hi
          obtain ⟨hlt, hl⟩ := List.getElem?_eq_some_iff.1 hi
          have hlt' := hobjects.length_eq ▸ hlt
          refine ⟨_, List.getElem?_eq_getElem hlt', ?_⟩
          have := hobjects.get hlt hlt'
          simpa [hl] using this
        obtain ⟨⟨r, p⟩, hi, hholds⟩ := hget i hi
        obtain ⟨⟨r', p'⟩, hj, hholds'⟩ := hget j hj
        obtain ⟨place, rfl⟩ := Option.isSome_iff_exists.1 hholds.isSome
        have hr : r = r' := Option.some.inj
          (hholds.entry.symm.trans hholds'.entry)
        have hp : some place = p' := hholds.place.symm.trans hholds'.place
        exact ⟨by rw [hi, hj, hr, hp], r, place, hi⟩

end Lookup

/-! ## Samples -/

namespace Sample

/-- A method of the sample that is there, and a field that is not, looked up
twice. -/
def requests : List Lookup :=
  [.method (.ofName "N" "B" false) "F" 1 (-1) [.int32],
    .field (.ofName "N" "A" false) "x", .nested "N" "A" "C",
    .field (.ofName "N" "A" false) "x"]

end Sample

namespace Lookup

open Sample

theorem session_missing_descent :
    ∃ os W', session [.type "N" "A", .field (.ofName "N" "A" false) "x"]
      requests (World.ofModules [descent]).1 = .ok (os, "N.A::x") W' := by
  have hw : (World.ofModules [descent]).1.workspace.Tidy :=
    Workspace.tidy_loadAll [descent]
  have hu : (World.ofModules [descent]).1.resolver.refresh
    (World.ofModules [descent]).1.workspace =
      .ofModules (World.ofModules [descent]).1.workspace [⟨0⟩] :=
    Universe.refresh_ofModules _ _
  have hflat : TypeRef.int32.IsFlat :=
    .named (by decide) (by decide) .absent (by simp)
  have hplain :
    ∀ l ∈ [.type "N" "A", .field (.ofName "N" "A" false) "x"] ++ requests,
      Plain l := by
    simp only [requests, List.cons_append, List.nil_append,
      List.forall_mem_cons, Plain]
    simp only [List.not_mem_nil, false_implies, implies_true, and_true]
    refine ⟨by decide, by decide,
      ⟨by decide, by decide, by decide, hflat, by decide⟩, by decide,
      by decide, by decide⟩
  have hnamed : Universe.ParamsNamed (World.ofModules [descent]).1.workspace :=
    Universe.descent_named
  have hindex : ∀ p ∈
      (Universe.ofModules (World.ofModules [descent]).1.workspace [⟨0⟩]).index,
      p.2.index < (World.ofModules [descent]).1.workspace.types.size := by
    decide +kernel
  have hsession := session_missing (W := (World.ofModules [descent]).1) rfl hw
    hu hplain
  obtain ⟨os, name, W', hrun⟩ :=
    hsession.1 hnamed (by simp [requests, HasCount])
  obtain ⟨-, -, -, hname⟩ := hsession.2 os name W' hrun
  refine ⟨os, W', ?_⟩
  rw [hrun, hname [.method (.ofName "N" "B" false) "F" 1 (-1) [.int32]]
    (.field (.ofName "N" "A" false) "x") _ rfl ?_ ?_]
  · rfl
  · have hsearch : (Universe.ofModules (World.ofModules [descent]).1.workspace
      [⟨0⟩]).importedMethod?
        (World.ofModules [descent]).1.workspace (.ofName "N" "B" false) "F" 1
          (-1) [.int32] = some (some ⟨0⟩) := by
      decide +kernel
    intro x hx
    rw [List.mem_singleton.1 hx, resolves_method hindex hsearch]
    rfl
  · rw [resolves_field hindex]
    decide +kernel

end Lookup

end JobWeave
