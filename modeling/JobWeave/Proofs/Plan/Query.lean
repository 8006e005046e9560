import Mathlib
import JobWeave.Plan.Synthesis
import JobWeave.Proofs.Plan.Lambda

/-!
# Providers and queries leave the old definitions alone

The steps of planning that find what supplies the lambda's parameters and that
plan the query keep the invariant of planning.  The query is the one part of a
plan with much code for the creation hook, so each piece of that code is shown
to have no call that starts a chain.
-/

namespace JobWeave

open Framework Std.Do

set_option mvcgen.warning false

variable {I : Workspace → Prop} {B : Ground}
variable {H : List (TypeId × MethodId)} {c : Chain}

namespace Planning

/-! ## Providers of lambda parameters -/

@[spec]
theorem refuseLambda_keeps {α : Type} {code : Code} {args : List String}
    (hc : Catalog.severity code = .error) :
    ⦃fun _ w => ⌜Holding I H w⌝⦄ (refuseLambda code args : Planning α)
      ⦃post⟨fun _ _ _ => ⌜False⌝,
        fun e w => ⌜Holding I H w ∧ e.IsSerious⌝⟩⦄ := by
  mvcgen [refuseLambda]

@[spec]
theorem providerOfType_keeps {p : ParamDef} {byRef isIn : Bool} {t : TypeRef}
    {id : TypeId} : Keeps I B H c (providerOfType p byRef isIn t id) := by
  mvcgen [providerOfType]
  all_goals grind

@[spec]
theorem classify_keeps {p : ParamDef} : Keeps I B H c (classify p) := by
  mvcgen [classify]
  all_goals grind

@[spec]
theorem classifyParams_keeps : Keeps I B H c classifyParams := by
  mvcgen [classifyParams]
  all_goals grind [Fresh]

attribute [spec] providerType runtimeType

@[spec]
theorem providerMethod_keeps {e : Element} {name : String} {params : Nat}
    (hn : name ∉ sourceNames) :
    Keeps I B H c (providerMethod e name params) := by
  mvcgen [providerMethod]
  all_goals grind

@[spec]
theorem runtimeMethod_keeps {e : Element} {name : String} {params : Nat}
    (hn : name ∉ sourceNames) :
    Keeps I B H c (runtimeMethod e name params) := by
  mvcgen [runtimeMethod]
  all_goals grind

/-- A struct nested in the job comes after the job's own. -/
@[spec]
theorem nestedStruct_drafts {name : String} :
    DraftsGiving B H c (fun t => B.job.index < t.index)
      (nestedStruct name) := by
  have hadd : ∀ (job : TypeId) (h : TypeHead), job = B.job →
    h.base = .valueType →
      Weave.Gives B.Reaches H (fun t => B.job.index < t.index)
        (Weave.addToWorkspace (·.addNested job (.mk h [] []))) := by
    rintro _ h rfl hb
    exact addToWorkspace_gives
      (fun _ hw => .addNested B.job h B.types_le_job hw.job_lt hb)
      fun w hw => hw.job_lt
  mvcgen [nestedStruct, hadd]
  all_goals grind [Fresh]

@[spec]
theorem nestedField_drafts {t : TypeId} {name : String} {type : TypeRef}
    (ht : B.job.index < t.index) : Drafts B H c (nestedField t name type) := by
  mvcgen [nestedField]
  all_goals grind

@[spec]
theorem declareProviders_drafts : Drafts B H c declareProviders := by
  mvcgen [declareProviders]
  all_goals grind [Fresh]

/-! ## The query -/

@[spec]
theorem hasType_keeps {ts : List TypeRef} {t : TypeRef} :
    Weave.Keeps I H (hasType ts t) := by
  mvcgen [hasType]
  all_goals grind

@[spec]
theorem addItem_keeps {t : TypeRef} {readOnly : Bool} {items : List QueryItem} :
    Weave.Keeps I H (addItem t readOnly items) := by
  induction items with
  | nil => mvcgen [addItem]
  | cons item rest ih =>
    mvcgen [addItem, ih]
    all_goals grind

@[spec]
theorem modifierTypes_keeps {name : String} :
    Keeps I B H c (modifierTypes name) := by
  mvcgen [modifierTypes]
  all_goals grind

@[spec]
theorem required_keeps : Keeps I B H c required := by
  mvcgen [required]
  all_goals grind

@[spec]
theorem namesOf_keeps {ts : List TypeRef} : Weave.Keeps I H (namesOf ts) := by
  mvcgen [namesOf]
  all_goals grind

@[spec]
theorem checkQuery_keeps {all : List QueryItem} {anyOf noneOf : List TypeRef} :
    Keeps I B H c (checkQuery all anyOf noneOf) := by
  mvcgen [checkQuery]
  all_goals grind

/-- The code of a list of parts is ordinary if each part is. -/
theorem allOrdinary_flatten {α : Type} {xs : List α} {parts : List (List Step)}
    (h : List.Forall₂ (fun _ steps => Step.AllOrdinary steps) xs parts) :
    Step.AllOrdinary parts.flatten := by
  induction h with
  | nil => simp
  | cons hx _ ih => simpa using ⟨hx, ih⟩

@[spec]
theorem componentTypes_gives {items : List QueryItem} :
    Weave.Gives I H Step.AllOrdinary (componentTypes items) := by
  have hentries : ∀ ct : TypeRef, Weave.Gives I H
      (List.Forall₂ (fun _ steps => Step.AllOrdinary steps) items.zipIdx)
      (items.zipIdx.mapM fun x => do
        let m ← Weave.importMethod ct
          (if x.1.readOnly then "ReadOnly" else "ReadWrite") 0
        return [Step.dup, Step.ldcI4 (Int32.ofNat x.2),
          Step.call (m.instantiate [x.1.type]), Step.stelem ct]) := by
    intro ct
    refine Weave.mapM_gives fun x _ => ?_
    mvcgen
    all_goals grind -ring -linarith [mem_sourceNames]
  mvcgen [componentTypes, hentries, -Weave.mapM_keeps]
  all_goals grind -ring -linarith [allOrdinary_flatten]

@[spec]
theorem queryPart_gives {desc : TypeRef} {name : String}
    {items : List QueryItem} :
    Weave.Gives I H Step.AllOrdinary (queryPart desc name items) := by
  mvcgen [queryPart]
  all_goals grind -ring -linarith

@[spec]
theorem queryOptions_keeps : Keeps I B H c queryOptions := by
  mvcgen [queryOptions]
  all_goals grind

/-- Code that sets the options of the query's description, if some were
given. -/
def optionsPart (desc : TypeRef) : Option Int32 → Weave (List Step)
  | none => pure []
  | some v => do
    pure [Step.dup, Step.ldcI4 v,
      Step.stfld (← Weave.importField desc "Options")]

/-- Code that tells the query which components to look for changes of, if there
are any. -/
def filterPart (query : FieldRef) (changed : List QueryItem) :
    Weave (List Step) := do
  if changed.isEmpty then return []
  let types ← componentTypes changed
  let set_ ← Weave.importMethod (← Weave.importEntities TypeName.entityQuery)
    "SetChangedVersionFilter" 1
  return [Step.ldarg 0, Step.ldfld query] ++ types ++ [Step.callvirt set_]

/-- The code for the query, in parts: what depends on the options and on the
components with changes is behind one step each. -/
theorem buildQuery_eq : buildQuery = (do
    let c ← chain
    let all ← required
    let anyOf ← modifierTypes Member.withAny
    let noneOf ← modifierTypes Member.withNone
    checkQuery all anyOf noneOf
    let queryType ← Weave.importEntities TypeName.entityQuery
    let field : FieldDef :=
      { name := "_" ++ c.name ++ "_entityQuery", type := queryType,
        flags := FieldFlag.priv }
    let query := (← Weave.workspace).fieldRef c.system field
    let options ← queryOptions
    let readOnly := fun (ts : List TypeRef) =>
      ts.map fun t => ({ type := t, readOnly := true } : QueryItem)
    let changed := readOnly (← modifierTypes Member.withChangeFilter)
    let desc ← Weave.importEntities TypeName.entityQueryDesc
    let base ← Weave.importEntities TypeName.componentSystemBase
    let ctor ← Weave.importMethod desc ".ctor" 0
    let allPart ← queryPart desc "All" all
    let anyPart ← queryPart desc "Any" (readOnly anyOf)
    let nonePart ← queryPart desc "None" (readOnly noneOf)
    let optionsPart ← optionsPart desc options
    let get_ ← Weave.importMethod base "GetEntityQuery" 1
    let filter ← filterPart query changed
    let store :=
      match c.storeQuery with
      | some f =>
        [Step.ldarg 0, Step.ldarg 0, Step.ldfld query, Step.stfld f]
      | none => []
    let code :=
      [Step.ldarg 0, Step.ldarg 0, Step.ldcI4 1, Step.newarr desc, Step.dup,
        Step.ldcI4 0, Step.newobj ctor] ++
      allPart ++ anyPart ++ nonePart ++ optionsPart ++
      [Step.stelemRef, Step.call get_, Step.stfld query] ++ filter ++ store
    modify fun u =>
      { u with query := some field, init := u.init ++ code }) := by
  unfold buildQuery
  refine bind_congr fun c => bind_congr fun all => bind_congr
      fun anyOf => bind_congr fun noneOf =>
    bind_congr fun _ => bind_congr fun queryType => bind_congr
        fun w => bind_congr fun options =>
    bind_congr fun changed => bind_congr fun desc => bind_congr
        fun base => bind_congr fun ctor =>
    bind_congr fun allPart => bind_congr fun anyPart => bind_congr
      fun nonePart => ?_
  cases options with
  | none =>
    dsimp only [optionsPart]
    simp only [liftM_pure, pure_bind]
    refine bind_congr fun get_ => ?_
    rw [filterPart]
    split <;> cases c.storeQuery <;>
      simp only [liftM_bind, liftM_pure, bind_assoc, pure_bind]
  | some v =>
    dsimp only [optionsPart]
    simp only [liftM_bind, liftM_pure, pure_bind, bind_assoc]
    refine bind_congr fun f => bind_congr fun get_ => ?_
    rw [filterPart]
    split <;> cases c.storeQuery <;>
      simp only [liftM_bind, liftM_pure, bind_assoc, pure_bind]

@[spec]
theorem optionsPart_gives {desc : TypeRef} {options : Option Int32} :
    Weave.Gives I H Step.AllOrdinary (optionsPart desc options) := by
  have hstore : ∀ r : FieldRef, (Step.stfld r).IsOrdinary := by grind
  mvcgen [optionsPart]
  all_goals grind -ring -linarith

@[spec]
theorem filterPart_gives {query : FieldRef} {changed : List QueryItem} :
    Weave.Gives I H Step.AllOrdinary (filterPart query changed) := by
  have hload : ∀ f : FieldRef, (Step.ldfld f).IsOrdinary := by grind
  mvcgen [filterPart]
  all_goals grind -ring -linarith [mem_sourceNames]

/-- The code for the query is ordinary if its parts are. -/
theorem queryCode_allOrdinary {desc : TypeRef} {ctor get_ : MethodRef}
    {query : FieldRef} {all any none options filter : List Step}
    {store : Option FieldRef} (hget : get_.name ∉ sourceNames)
    (hall : Step.AllOrdinary all) (hany : Step.AllOrdinary any)
    (hnone : Step.AllOrdinary none) (hoptions : Step.AllOrdinary options)
    (hfilter : Step.AllOrdinary filter) :
    Step.AllOrdinary
      ([Step.ldarg 0, Step.ldarg 0, Step.ldcI4 1, Step.newarr desc, Step.dup,
        Step.ldcI4 0, Step.newobj ctor] ++ all ++ any ++ none ++ options ++
        [Step.stelemRef, Step.call get_, Step.stfld query] ++ filter ++
        match store with
        | some f => [Step.ldarg 0, Step.ldarg 0, Step.ldfld query, Step.stfld f]
        | .none => []) := by
  cases store <;> simp only [Step.allOrdinary_append, Step.allOrdinary_cons] <;>
    grind

@[spec]
theorem buildQuery_keeps : Keeps I B H c buildQuery := by
  rw [buildQuery_eq]
  mvcgen
  rotate_right
  · rename_i hu _ _ _ _ _ _ _ _ _ _ _ hall _ _ hany _ _ hnone _ _ hoptions
      _ _ hget _ _ hfilter _
    exact drafting_iff.2 ⟨hfilter.1, Fresh.setQuery (drafting_iff.1 hu).2
      (queryCode_allOrdinary hget.2 hall.2 hany.2 hnone.2 hoptions.2 hfilter.2)⟩
  all_goals grind -ring -linarith [mem_sourceNames]

end Planning

end JobWeave
