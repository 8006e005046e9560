import Mathlib
import JobWeave.Proofs.Body.Straight
import JobWeave.Proofs.World.Trust

/-!
# The code that a plan adds to the creation hook

Two parts of planning add code for the creation hook: the one that plans the
query, and the one that fills the delegates for running on the calling thread.
In a world that can be trusted this code is straight, and it leaves the stack as
it found it.

* The steps of the code have a lemma each about the height of the stack behind
  them.
* `LibraryCall.effect` is what a call of a library method does to the stack.
* `Weave.synthesize_straight`: the code of a plan runs from an empty stack to an
  empty one.
-/

namespace JobWeave

open Framework Std.Do

set_option mvcgen.warning false

/-! ## Steps -/

namespace Step

variable {k : Nat} {h : Int} {t : TypeRef} {m : MethodRef} {f : FieldRef}

@[simp]
theorem after?_ldarg_zero :
    after? 1 h (ldarg 0) = if 0 ≤ h then some (h + 1) else none :=
  after?_eq (e := ⟨0, 1⟩) rfl rfl

@[simp]
theorem after?_ldcI4 (v : Int32) :
    after? k h (ldcI4 v) = if 0 ≤ h then some (h + 1) else none :=
  after?_eq (e := ⟨0, 1⟩) rfl rfl

@[simp]
theorem after?_ldnull :
    after? k h ldnull = if 0 ≤ h then some (h + 1) else none :=
  after?_eq (e := ⟨0, 1⟩) rfl rfl

@[simp]
theorem after?_ldftn :
    after? k h (ldftn m) = if 0 ≤ h then some (h + 1) else none :=
  after?_eq (e := ⟨0, 1⟩) rfl rfl

@[simp]
theorem after?_ldsfld :
    after? k h (ldsfld f) = if 0 ≤ h then some (h + 1) else none :=
  after?_eq (e := ⟨0, 1⟩) rfl rfl

@[simp]
theorem after?_stsfld :
    after? k h (stsfld f) = if 1 ≤ h then some (h - 1) else none :=
  after?_eq (e := ⟨1, 0⟩) rfl rfl

@[simp]
theorem after?_dup : after? k h dup = if 1 ≤ h then some (h + 1) else none :=
  after?_eq (e := ⟨1, 2⟩) rfl rfl

@[simp]
theorem after?_ldfld :
    after? k h (ldfld f) = if 1 ≤ h then some (h + 0) else none :=
  after?_eq (e := ⟨1, 1⟩) rfl rfl

@[simp]
theorem after?_stfld :
    after? k h (stfld f) = if 2 ≤ h then some (h - 2) else none :=
  after?_eq (e := ⟨2, 0⟩) rfl rfl

@[simp]
theorem after?_stelemRef :
    after? k h stelemRef = if 3 ≤ h then some (h - 3) else none :=
  after?_eq (e := ⟨3, 0⟩) rfl rfl

theorem after?_newarr (ht : t.isPresent) :
    after? k h (newarr t) = if 1 ≤ h then some (h + 0) else none :=
  after?_eq (e := ⟨1, 1⟩) rfl (by cases t <;> first | rfl | cases ht)

theorem after?_stelem (ht : t.isPresent) :
    after? k h (stelem t) = if 3 ≤ h then some (h - 3) else none :=
  after?_eq (e := ⟨3, 0⟩) rfl (by cases t <;> first | rfl | cases ht)

end Step

/-- What a call of a library method does to the stack. -/
def LibraryCall.effect (c : LibraryCall) (op : Opcode) : StackEffect :=
  ⟨c.params + (if c.hasThis && op != .newobj then 1 else 0),
    if op == .newobj || !c.returnsVoid then 1 else 0⟩

namespace LibraryCall.Fits

variable {c : LibraryCall} {k : Nat} {h : Int} {m : MethodRef}

theorem ofCall_eq (hm : c.Fits m) (op : Opcode) :
    StackEffect.ofCall op m = c.effect op := by
  simp [StackEffect.ofCall, effect, hm.params, hm.hasThis, hm.returnsVoid]

theorem after?_call (hm : c.Fits m) :
    Step.after? k h (.call m) =
      if (c.effect .call).pops ≤ h then some (h + (c.effect .call).net)
      else none :=
  hm.ofCall_eq .call ▸ Step.after?_eq rfl rfl

theorem after?_callvirt (hm : c.Fits m) :
    Step.after? k h (.callvirt m) =
      if (c.effect .callvirt).pops ≤ h then some (h + (c.effect .callvirt).net)
      else none :=
  hm.ofCall_eq .callvirt ▸ Step.after?_eq rfl rfl

theorem after?_newobj (hm : c.Fits m) :
    Step.after? k h (.newobj m) =
      if (c.effect .newobj).pops ≤ h then some (h + (c.effect .newobj).net)
      else none :=
  hm.ofCall_eq .newobj ▸ Step.after?_eq rfl rfl

end LibraryCall.Fits

/-! ## Members of the library -/

variable {V : Workspace} {mods : List ModuleId} {job : TypeId}

namespace Weave

@[spec 40000]
theorem importMethod_fits {owner : TypeRef} {name : String} {params : Nat} :
    Yields (World.TrustsWith V mods job)
      (fun m => ∀ c ∈ libraryCalls, owner.Names c.type → c.name = name →
        c.params = params → c.first = none → c.Fits m)
      (importMethod owner name params) := by
  refine importGenericMethod_fits.imp
    fun m hm c hc howner hname hparams hfirst => ?_
  refine hm c hc [] rfl ?_
  rw [LibraryCall.key, howner.openName, hname, hparams, hfirst]
  rfl

theorem mem_creationTypes_iff {name : String} :
    name ∈ creationTypes ↔ ∃ c ∈ libraryCalls, c.type = name := by
  rw [creationTypes, List.mem_eraseDups, List.mem_map]

theorem componentTypeOf_mem (readOnly : Bool) :
    componentTypeOf readOnly ∈ libraryCalls := by
  cases readOnly <;> simp [libraryCalls]

/-- The code for one component puts it into the array. -/
theorem componentEntry_height (V : Workspace) (mods : List ModuleId)
    (job : TypeId) (ct : TypeRef) (item : QueryItem) (n : Nat) :
    Yields (World.TrustsWith V mods job)
      (fun ss => ct.Names (entitiesName TypeName.componentType) →
        ∀ k, Step.heightAfter? k 1 ss = some 1)
      (do
        let m ← importMethod ct (if item.readOnly then "ReadOnly"
        else "ReadWrite") 0 return [Step.dup, Step.ldcI4 (Int32.ofNat n),
          Step.call (m.instantiate [item.type]), Step.stelem ct]) := by
  mvcgen
  rename_i m w hm
  refine ⟨hm.1, fun hct k => ?_⟩
  have hfits := (hm.2 (componentTypeOf item.readOnly) (componentTypeOf_mem _)
    hct rfl rfl rfl).instantiate [item.type]
  simp [Step.heightAfter?_cons, hfits.after?_call,
    Step.after?_stelem hct.isPresent_eq, LibraryCall.effect, componentTypeOf,
    StackEffect.net]

/-- The code that makes an array of components leaves the array. -/
@[spec 40000]
theorem componentTypes_height {items : List QueryItem} :
    Yields (World.TrustsWith V mods job)
      (fun ss => ∀ k, Step.heightAfter? k 0 ss = some 1)
      (Planning.componentTypes items) := by
  have hentries := fun ct => mapM_yields fun x (_ : x ∈ items.zipIdx) =>
    componentEntry_height V mods job ct x.1 x.2
  unfold Planning.componentTypes
  mvcgen [hentries, -mapM_preserves, -mapM_keeps]
  · rename_i hct
    exact hct.1
  rename_i ct w hct parts w' hparts
  refine ⟨hparts.1, fun k => ?_⟩
  have hnames :=
    hct.2 (mem_creationTypes_iff.2 ⟨_, componentTypeOf_mem true, rfl⟩)
  have hflat : Step.heightAfter? k 1 parts.flatten = some 1 := by
    refine Step.heightAfter?_flatten fun ss hss => ?_
    obtain ⟨n, hn, rfl⟩ := List.mem_iff_getElem.1 hss
    exact hparts.2.get (hparts.2.length_eq ▸ hn) hn hnames k
  simp [Step.heightAfter?_cons, Step.after?_newarr hnames.isPresent_eq, hflat]

/-- The code that fills a part of the query's description leaves the
description. -/
@[spec 40000]
theorem queryPart_height {desc : TypeRef} {name : String}
    {items : List QueryItem} (hname : isPlain name) :
    Yields (World.TrustsWith V mods job)
      (fun ss => ∀ k, Step.heightAfter? k 1 ss = some 1)
      (Planning.queryPart desc name items) := by
  unfold Planning.queryPart
  mvcgen
  case vc3.inst => infer_instance
  · rename_i h
    exact ⟨h, fun k => rfl⟩
  · rename_i h
    exact h.1
  · rename_i types w htypes field w' hw
    refine ⟨hw, fun k => ?_⟩
    have hbelow := Step.heightAfter?_add (n := 2) (by decide) (htypes.2 k)
    simp only [zero_add] at hbelow
    simp [Step.heightAfter?_append, Step.heightAfter?_cons, hbelow]

end Weave

/-- The code that the plan has for the creation hook can stand in it, and it
runs from an empty stack to an empty one. -/
def Plan.IsStraight (u : Plan) : Prop :=
  Step.heightAfter? 1 0 u.init = some 0

/-- A plan whose code for the creation hook is straight so far. -/
abbrev Outline.straight (job : TypeId) : Outline :=
  { job, code := fun init => Step.heightAfter? 1 0 init = some 0 }

namespace Planning

variable {desc base entityQuery : TypeRef} {ctor get_ set_ : MethodRef}
  {query : FieldRef}
variable {all any none options types filter : List Step}

/-- The code that makes the query leaves the stack as it found it. -/
theorem queryCode_height {store : Option FieldRef}
    (hdesc : newQueryDesc.type ∈ creationTypes → desc.Names newQueryDesc.type)
    (hbase : getEntityQuery.type ∈ creationTypes →
      base.Names getEntityQuery.type)
    (hctor : ∀ c ∈ libraryCalls, desc.Names c.type → c.name = ".ctor" →
      c.params = 0 → c.first = .none → c.Fits ctor)
    (hget : ∀ c ∈ libraryCalls, base.Names c.type → c.name = "GetEntityQuery" →
      c.params = 1 → c.first = .none → c.Fits get_)
    (hall : ∀ k, Step.heightAfter? k 1 all = some 1)
    (hany : ∀ k, Step.heightAfter? k 1 any = some 1)
    (hnone : ∀ k, Step.heightAfter? k 1 none = some 1)
    (hoptions : Step.heightAfter? 1 1 options = some 1)
    (hfilter : Step.heightAfter? 1 0 filter = some 0) :
    Step.heightAfter? 1 0
      ([Step.ldarg 0, Step.ldarg 0, Step.ldcI4 1, Step.newarr desc, Step.dup,
        Step.ldcI4 0, Step.newobj ctor] ++ all ++ any ++ none ++ options ++
        [Step.stelemRef, Step.call get_, Step.stfld query] ++ filter ++
        match store with
        | some f => [Step.ldarg 0, Step.ldarg 0, Step.ldfld query, Step.stfld f]
        | .none => []) = some 0 := by
  have hdesc := hdesc (Workspace.mem_creationTypes (by simp [libraryCalls]))
  have hbase := hbase (Workspace.mem_creationTypes (by simp [libraryCalls]))
  have hctor := hctor newQueryDesc (by simp [libraryCalls]) hdesc rfl rfl rfl
  have hget := hget getEntityQuery (by simp [libraryCalls]) hbase rfl rfl rfl
  have hpart : ∀ {part}, Step.heightAfter? 1 1 part = some 1 →
      Step.heightAfter? 1 6 part = some 6 :=
    fun h => Step.heightAfter?_add (n := 5) (by decide) h
  have hstore : Step.heightAfter? 1 0 (match store with
      | some f => [Step.ldarg 0, Step.ldarg 0, Step.ldfld query, Step.stfld f]
      | .none => []) = some 0 := by
    cases store <;> simp [Step.heightAfter?_cons]
  have hnew : newQueryDesc.effect .newobj = ⟨0, 1⟩ := rfl
  have hcall : getEntityQuery.effect .call = ⟨2, 1⟩ := rfl
  have hopen : Step.heightAfter? 1 0 [Step.ldarg 0, Step.ldarg 0, Step.ldcI4 1,
      Step.newarr desc, Step.dup, Step.ldcI4 0, Step.newobj ctor] = some 6 := by
    simp [Step.heightAfter?_cons, Step.after?_newarr hdesc.isPresent_eq,
      hctor.after?_newobj, hnew, StackEffect.net]
  have hclose : Step.heightAfter? 1 6 [Step.stelemRef, Step.call get_,
    Step.stfld query] =
      some 0 := by
    simp [Step.heightAfter?_cons, hget.after?_call, hcall, StackEffect.net]
  simp only [Step.heightAfter?_append, hopen, hclose, hpart (hall 1),
    hpart (hany 1), hpart (hnone 1), hpart hoptions, hfilter, hstore,
    Option.bind_some]

/-- The code that sets what changes the query looks for. -/
theorem filterCode_height
    (hquery : setVersionFilter.type ∈ creationTypes →
      entityQuery.Names setVersionFilter.type)
    (hset : ∀ c ∈ libraryCalls, entityQuery.Names c.type →
      c.name = "SetChangedVersionFilter" → c.params = 1 → c.first = .none →
      c.Fits set_)
    (htypes : ∀ k, Step.heightAfter? k 0 types = some 1) :
    Step.heightAfter? 1 0 ([Step.ldarg 0, Step.ldfld query] ++ types ++
      [Step.callvirt set_]) = some 0 := by
  have hquery := hquery (Workspace.mem_creationTypes (by simp [libraryCalls]))
  have hset := hset setVersionFilter (by simp [libraryCalls]) hquery rfl rfl rfl
  have htypes := Step.heightAfter?_add (n := 1) (by decide) (htypes 1)
  simp only [zero_add, Int.reduceAdd] at htypes
  simp [Step.heightAfter?_append, Step.heightAfter?_cons,
    hset.after?_callvirt, htypes, LibraryCall.effect, setVersionFilter,
    StackEffect.net]

/-- More code that leaves the stack as it found it. -/
theorem straight_append {u v : Plan} {w w' : World} {code : List Step}
    (hu : Sketch (World.TrustsWith V mods job) (.straight job) u w)
    (hw : w'.Has (World.TrustsWith V mods job))
    (hcode : Step.heightAfter? 1 0 code = some 0)
    (htype : v.type = u.type) (hinit : v.init = u.init ++ code) :
    Sketch (World.TrustsWith V mods job) (.straight job) v w' := by
  refine ⟨hw, htype.trans hu.plan.type, ?_, trivial, trivial, trivial, trivial,
    trivial⟩
  change Step.heightAfter? 1 0 v.init = some 0
  rw [hinit, Step.heightAfter?_append, show Step.heightAfter? 1 0 u.init =
    some 0 from hu.plan.init, Option.bind_some, hcode]

/-- The code that sets the options leaves the description. -/
@[spec 40000]
theorem optionsPart_height {options : Option Int32} :
    Weave.Yields (World.TrustsWith V mods job)
      (fun ss => Step.heightAfter? 1 1 ss = some 1)
        (optionsPart desc options) := by
  unfold optionsPart
  mvcgen
  all_goals infer_instance

/-- The code that sets what changes the query looks for leaves nothing. -/
@[spec 40000]
theorem filterPart_height {changed : List QueryItem} :
    Weave.Yields (World.TrustsWith V mods job)
      (fun ss => Step.heightAfter? 1 0 ss = some 0)
        (filterPart query changed) := by
  unfold filterPart
  mvcgen
  · rename_i h
    exact h.1
  · rename_i h
    exact h.1
  · rename_i types _ htypes qt _ hqt set_ _ hset
    exact ⟨hset.1, filterCode_height hqt.2 hset.2 htypes.2⟩

@[spec 40000]
theorem buildQuery_straight :
    Preserves (World.TrustsWith V mods job) (.straight job) buildQuery := by
  rw [buildQuery_eq]
  mvcgen
  case vc10.O => exact .straight job
  rotate_right
  · rename_i hu desc _ hdesc base _ hbase ctor _ hctor all _ hall any _ hany
      none _ hnone _ _ hoptions get_ _ hget _ _ hfilter _
    exact straight_append hu hfilter.1 (queryCode_height hdesc.2 hbase.2 hctor.2
      hget.2 hall.2 hany.2 hnone.2 hoptions.2 hfilter.2) rfl rfl
  all_goals grind -ring -linarith

/-! ## Delegates -/

/-- The types of the delegates for running on the calling thread. -/
def directTypes : List String :=
  [jobDelegate, chunkDelegate]

variable {delegate : TypeRef} {name : String} {m : MethodId}

theorem newDelegate_mem (h : name ∈ directTypes) :
    newDelegate name ∈ libraryCalls := by
  simp only [directTypes, List.mem_cons, List.not_mem_nil, or_false] at h
  obtain rfl | rfl := h <;> simp [libraryCalls]

theorem compileDelegate_mem (h : name ∈ directTypes) :
    compileDelegate name ∈ libraryCalls := by
  simp only [directTypes, List.mem_cons, List.not_mem_nil, or_false] at h
  obtain rfl | rfl := h <;> simp [libraryCalls]

@[spec 40000]
theorem directJob_names :
    Yields (World.TrustsWith V mods job) (.straight job)
      (fun r => ∃ name ∈ directTypes, r.1.Names name) directJob := by
  unfold directJob
  mvcgen
  case vc2.O => exact .straight job
  case vc3.inst => infer_instance
  all_goals try grind
  rename_i hdelegate _ _ _ hu
  have hname : jobDelegate ∈ directTypes := .head _
  exact ⟨hu, _, hname, hdelegate.2
    (Workspace.mem_creationTypes (newDelegate_mem hname))⟩

@[spec 40000]
theorem directChunks_names :
    Yields (World.TrustsWith V mods job) (.straight job)
    (fun r => ∃ name ∈ directTypes, r.1.Names name) directChunks := by
  unfold directChunks
  mvcgen
  case vc3.O => exact .straight job
  case vc4.inst => infer_instance
  all_goals try grind
  rename_i hdelegate _ _ _ _ _ _ hu _ _ _ _ _ hw
  have hname : chunkDelegate ∈ directTypes := .tail _ (.head _)
  exact ⟨⟨hw.1, hu.plan⟩, _, hname,
    hdelegate.2 (Workspace.mem_creationTypes (newDelegate_mem hname))⟩

/-- Importing the method that compiles what a delegate runs. -/
@[spec 40000]
theorem compile_fits {owner : TypeRef} :
    Weave.Yields (World.TrustsWith V mods job)
      (fun compile => ∀ name ∈ directTypes, delegate.Names name →
      ((compileDelegate name).type ∈ creationTypes →
        owner.Names (compileDelegate name).type) →
        (compileDelegate name).Fits compile)
    (Weave.importGenericMethod owner "BurstCompile" 1 (-1) [delegate]) := by
  refine Weave.importGenericMethod_fits.imp
    fun m hm name hname hdelegate howner => ?_
  have hmem := compileDelegate_mem hname
  refine hm _ hmem [name] ?_ ?_
  · simp [hdelegate.fullName?_eq]
  · rw [(howner (Workspace.mem_creationTypes hmem)).openName]
    rfl

/-- The code that fills the compiled delegate leaves the stack as it found
it. -/
theorem fillCompiled_height {compile : MethodRef} {plain native : FieldRef}
    (hcompile : (compileDelegate name).Fits compile) :
    Step.heightAfter? 1 0 [Step.ldsfld plain, Step.call compile,
      Step.stsfld native] = some 0 := by
  simp [Step.heightAfter?_cons, hcompile.after?_call, LibraryCall.effect,
    compileDelegate, StackEffect.net]

/-- The code that fills the delegates leaves the stack as it found it. -/
theorem fillDelegate_height {ctor r : MethodRef} {plain : FieldRef}
    {compile : List Step} (hname : name ∈ directTypes)
    (hdelegate : delegate.Names name) (hctor : ∀ c ∈ libraryCalls,
      delegate.Names c.type → c.name = ".ctor" → c.params = 2 →
      c.first = .none → c.Fits ctor)
    (hcompile : Step.heightAfter? 1 0 compile = some 0) :
    Step.heightAfter? 1 0
      ([Step.ldnull, Step.ldftn r, Step.newobj ctor, Step.stsfld plain] ++
        compile) =
        some 0 := by
  have hctor := hctor (newDelegate name) (newDelegate_mem hname) hdelegate
    rfl rfl rfl
  simp [Step.heightAfter?_cons, hctor.after?_newobj, LibraryCall.effect,
    newDelegate, StackEffect.net, hcompile]

@[spec 40000]
theorem directDelegates_straight
    (hdelegate : ∃ name ∈ directTypes, delegate.Names name) :
    Preserves (World.TrustsWith V mods job) (.straight job)
      (directDelegates delegate m) := by
  obtain ⟨name, hname, hdelegate⟩ := hdelegate
  unfold directDelegates
  mvcgen
  all_goals try infer_instance
  all_goals try grind
  -- with a compiled delegate or without
  · rename_i u _ hu ctor _ _ hctor owner _ howner compile _ hcompile r _ _
    have hfits := hcompile.2 name hname hdelegate howner.2
    exact straight_append hu hcompile.1
      (fillDelegate_height hname hdelegate hctor.2
        (fillCompiled_height hfits)) rfl
      (List.append_assoc ..)
  · rename_i u _ hu _ _ ctor _ _ hctor r _ _
    exact straight_append hu hctor.1 (fillDelegate_height hname hdelegate
      hctor.2 rfl) rfl (List.append_assoc ..)

@[spec 40000]
theorem directEntryPoint_straight :
    Preserves (World.TrustsWith V mods job) (.straight job)
      directEntryPoint := by
  unfold directEntryPoint
  mvcgen
  all_goals try infer_instance
  all_goals grind [MethodDef.Resembles]

/-! ## The whole plan -/

@[spec 40000]
theorem build_straight :
    Preserves (World.TrustsWith V mods job) (.straight job) build := by
  unfold build
  mvcgen
  all_goals first
    | exact id
    | assumption
    | exact fun _ => trivial
    | (intros; infer_instance)

end Planning

namespace Weave

variable {c : Chain} {asStruct : Bool}

/-- A plan starts with an added struct and no code. -/
theorem startPlan_straight (V : Workspace) (mods : List ModuleId) (c : Chain)
    (asStruct serves : Bool) :
    ⦃fun w => ⌜w.Has (World.Trusts V mods)⌝⦄ startPlan c asStruct serves
      ⦃post⟨fun u w => ⌜Sketch (World.TrustsWith V mods u.type)
        (.straight u.type) u w⌝,
        fun _ w => ⌜w.Has (World.Trusts V mods)⌝⟩⦄ := by
  have hadd : ∀ {w : World} {h : TypeHead} {home : Option ModuleId},
      w.Has (World.Trusts V mods) → h.base = .valueType → h.ns = "" →
      h.name = c.className → World.Has
        (World.TrustsWith V mods (w.workspace.newType h).2) { w with
        workspace := (w.workspace.newType h).1.updateType
            (w.workspace.newType h).2 fun e =>
          { e with outer := some c.system, home } } := by
    intro w h home hw hb hns hn
    rw [Workspace.updateType_newType]
    have hd := hw.holds.develops
    have hprefix : hasJobPrefix h.name :=
      hn ▸ hasJobPrefix_append_left _ (by decide)
    exact ⟨hw.holds.sustain (hd.push ⟨hb, hns, .inl hprefix, by simp⟩ rfl)
      (hw.holds.retains.push hd _), hd.types_le, by simp [Workspace.newType]⟩
  mvcgen [startPlan, addToWorkspace, modifyWorkspace, -startPlan_spec,
    -internType_names]
  all_goals first
    | infer_instance
    | exact ⟨hadd (by assumption) rfl rfl rfl, rfl, rfl, trivial, trivial,
      trivial, trivial, trivial⟩

theorem build_runs (V : Workspace) (mods : List ModuleId) (u₀ : Plan) :
    ⦃fun w => ⌜Sketch (World.TrustsWith V mods u₀.type)
      (.straight u₀.type) u₀ w⌝⦄
      (Planning.build u₀ : Weave (Unit × Plan))
      ⦃post⟨fun r w => ⌜w.Has (World.Trusts V mods) ∧ r.2.IsStraight⌝,
        fun _ w => ⌜w.Has (World.Trusts V mods)⌝⟩⦄ := by
  refine Ends.triple fun w hw => ?_
  exact (Ends.of_triple (Planning.build_straight u₀) hw).imp
    (fun _ _ h => ⟨⟨h.world.holds.1⟩, h.plan.init⟩) fun _ _ h => ⟨h.holds.1⟩

/-- The code of a plan is straight. -/
theorem synthesize_straight :
    Yields (World.Trusts V mods) Plan.IsStraight (synthesize c asStruct) := by
  have hstart := startPlan_straight V mods c asStruct
  have hbuild := build_runs V mods
  mvcgen [synthesize, hstart, hbuild, -synthesize_spec, -startPlan_spec,
    -Planning.build_spec]
  all_goals first
    | infer_instance
    | grind

end Weave

end JobWeave
