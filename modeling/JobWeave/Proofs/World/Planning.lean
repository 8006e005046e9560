import Mathlib
import JobWeave.Proofs.World.Reading

/-!
# Planning preserves properties of worlds

What a plan adds goes into its own struct, which the plan keeps from start to
end, and into the code for the creation hook, which only two parts of planning
add to.  All the other parts leave that code as it is, and only one part sets
the list of copied methods.  Captured variables and component look-ups are added
where the copies are edited, and nowhere else.

* An `Outline` names the struct and says what the code for the hook, the list of
  copied methods, the captured variables, the look-ups, the parameters and the
  lambda have; `Plan.Follows` says that a plan is so.
* `Outline.OpenCaptured`, `Outline.OpenAccess`, `Outline.OpenElements` and
  `Outline.OpenLambda` say that it leaves the last four open.
* `Planning.Preserves` is the triple of planning that preserves this and a
  property of the world.
* `World.Fillable J job` says that the struct may get fields, and
  `World.Nests J job` that types may be nested in it.
-/

namespace JobWeave

open Framework Std.Do

set_option mvcgen.warning false

/-- What stays of a plan while it is made. -/
structure Outline where
  /-- the struct -/
  job : TypeId
  /-- what the code for the creation hook has -/
  code : List Step → Prop
  /-- what the list of copied methods has -/
  copies : List MethodId → Prop := fun _ => True
  /-- what the list of captured variables has -/
  captured : List CapturedVariable → Prop := fun _ => True
  /-- what the list of component look-ups has -/
  access : List ComponentAccess → Prop := fun _ => True
  /-- what the list of parameters has -/
  elements : List Element → Prop := fun _ => True
  /-- what the lambda has -/
  lambda : Option MethodId → Prop := fun _ => True

/-- Nothing is said of the captured variables. -/
class Outline.OpenCaptured (O : Outline) : Prop where
  /-- every list will do -/
  captured : ∀ vs, O.captured vs

/-- Nothing is said of the component look-ups. -/
class Outline.OpenAccess (O : Outline) : Prop where
  /-- every list will do -/
  access : ∀ as, O.access as

/-- Nothing is said of the parameters. -/
class Outline.OpenElements (O : Outline) : Prop where
  /-- every list will do -/
  elements : ∀ es, O.elements es

/-- Nothing is said of the lambda. -/
class Outline.OpenLambda (O : Outline) : Prop where
  /-- every method will do -/
  lambda : ∀ m, O.lambda m

section Open

variable {job : TypeId} {code : List Step → Prop}
  {copies : List MethodId → Prop}
variable {captured : List CapturedVariable → Prop}
  {access : List ComponentAccess → Prop}
variable {elements : List Element → Prop} {lambda : Option MethodId → Prop}

instance : Outline.OpenCaptured
    { job, code, copies, access, elements, lambda } :=
  ⟨fun _ => trivial⟩

instance : Outline.OpenAccess
    { job, code, copies, captured, elements, lambda } :=
  ⟨fun _ => trivial⟩

instance : Outline.OpenElements
    { job, code, copies, captured, access, lambda } :=
  ⟨fun _ => trivial⟩

instance : Outline.OpenLambda
    { job, code, copies, captured, access, elements } :=
  ⟨fun _ => trivial⟩

end Open

variable {J : World → Prop} {O : Outline} {α β : Type}

/-- The plan is as outlined. -/
structure Plan.Follows (O : Outline) (u : Plan) : Prop where
  /-- the struct -/
  type : u.type = O.job
  /-- the code for the hook -/
  init : O.code u.init
  /-- the copied methods -/
  cloned : O.copies u.cloned
  /-- the captured variables -/
  captured : O.captured u.captured
  /-- the component look-ups -/
  access : O.access u.access
  /-- the parameters -/
  elements : O.elements u.elements
  /-- the lambda -/
  lambda : O.lambda u.lambda

/-- The world has the property, and the plan is as outlined. -/
structure Sketch (J : World → Prop) (O : Outline) (u : Plan) (w : World) :
    Prop where
  /-- the world -/
  world : w.Has J
  /-- the plan -/
  plan : u.Follows O

@[grind .]
theorem Outline.captured_of_open [O.OpenCaptured] (vs : List CapturedVariable) :
    O.captured vs :=
  OpenCaptured.captured vs

@[grind .]
theorem Outline.access_of_open [O.OpenAccess] (as : List ComponentAccess) :
    O.access as :=
  OpenAccess.access as

@[grind .]
theorem Outline.elements_of_open [O.OpenElements] (es : List Element) :
    O.elements es :=
  OpenElements.elements es

@[grind .]
theorem Outline.lambda_of_open [O.OpenLambda] (m : Option MethodId) :
    O.lambda m :=
  OpenLambda.lambda m

@[grind =]
theorem sketch_iff {u : Plan} {w : World} :
    Sketch J O u w ↔ w.Has J ∧ u.Follows O :=
  ⟨fun h => ⟨h.1, h.2⟩, fun h => ⟨h.1, h.2⟩⟩

/-- Planning that preserves a property of the world and what is outlined. -/
abbrev Planning.Preserves (J : World → Prop) (O : Outline)
    (act : Planning α) : Prop :=
  ⦃fun u w => ⌜Sketch J O u w⌝⦄ act
    ⦃post⟨fun _ u w => ⌜Sketch J O u w⌝, fun _ w => ⌜w.Has J⌝⟩⦄

/-- Planning that preserves all this and gives a result with a property. -/
abbrev Planning.Yields (J : World → Prop) (O : Outline) (R : α → Prop)
    (act : Planning α) : Prop :=
  ⦃fun u w => ⌜Sketch J O u w⌝⦄ act
    ⦃post⟨fun r u w => ⌜Sketch J O u w ∧ R r⌝, fun _ w => ⌜w.Has J⌝⟩⦄

/-- Value types may be nested in the struct. -/
class World.Nests (J : World → Prop) (job : TypeId) : Prop where
  /-- one value type without members -/
  nest : ∀ h : TypeHead, h.base = .valueType →
    Weave.Preserves J (Weave.addToWorkspace (·.addNested job (.mk h [] [])))

/-- The struct may get fields, and its fields other attributes. -/
class World.Fillable (J : World → Prop) (job : TypeId) : Prop where
  /-- one change -/
  fill : ∀ f : TypeHead → TypeHead, TypeHead.Fills f →
    Weave.Preserves J (Weave.modifyWorkspace (·.updateHead job f))

@[grind ←]
theorem World.Editable.fillable {job : TypeId} (h : World.Editable J) :
    World.Fillable J job where
  fill _ hf := Weave.updateHead_preserves hf

instance (priority := low) [World.Editable J] {job : TypeId} :
    World.Fillable J job :=
  World.Editable.fillable inferInstance

namespace Planning

/-! ## Loops -/

variable {xs : List α}

/-- The property of the result may be forgotten. -/
theorem Yields.preserves {R : α → Prop} {act : Planning α}
    (h : Yields J O R act) :
    Preserves J O act := by
  mvcgen [h]
  simp_all

theorem Preserves.yields {R : α → Prop} {act : Planning α}
    (h : Preserves J O act) (hR : ∀ r, R r) : Yields J O R act := by
  mvcgen [h]
  exact fun hs => ⟨hs, hR _⟩

@[spec 20000]
theorem mapM_preserves {f : α → Planning β}
    (h : ∀ x ∈ xs, Preserves J O (f x)) :
    Preserves J O (xs.mapM f) := by
  have hall : Yields J O (List.Forall₂ (fun _ _ => True) xs) (xs.mapM f) :=
    mapM_inv fun x hx => (h x hx).yields fun _ => trivial
  exact hall.preserves

@[spec 20000]
theorem flatMapM_preserves {f : α → Planning (List β)}
    (h : ∀ x ∈ xs, Preserves J O (f x)) :
    Preserves J O (xs.flatMapM f) := by
  have hall : Yields J O (fun rs => ∀ r ∈ rs, True) (xs.flatMapM f) :=
    flatMapM_inv fun x hx => (h x hx).yields fun _ _ _ => trivial
  exact hall.preserves

@[spec 20000]
theorem forIn_preserves {f : α → β → Planning (ForInStep β)} {b : β}
    (h : ∀ x ∈ xs, ∀ b, Preserves J O (f x b)) : Preserves J O (forIn xs b f) :=
  forIn_inv h

@[spec 20000]
theorem forM_preserves {f : α → Planning PUnit}
    (h : ∀ x ∈ xs, Preserves J O (f x)) :
    Preserves J O (xs.forM f) :=
  forM_inv h

@[spec 20000]
theorem foldlM_preserves {f : β → α → Planning β} {b : β}
    (h : ∀ x ∈ xs, ∀ b, Preserves J O (f b x)) :
    Preserves J O (xs.foldlM f b) :=
  foldlM_inv h

@[spec 20000]
theorem filterM_preserves {f : α → Planning Bool}
    (h : ∀ x ∈ xs, Preserves J O (f x)) :
    Preserves J O (xs.filterM f) :=
  filterM_inv h

@[spec 20000]
theorem findM?_preserves {f : α → Planning Bool}
    (h : ∀ x ∈ xs, Preserves J O (f x)) :
    Preserves J O (xs.findM? f) :=
  findM?_inv h

@[spec 20000]
theorem part_preserves {needed : Bool} {act : Planning Unit}
    (h : Preserves J O act) :
    Preserves J O (part needed act) := by
  unfold part
  mvcgen [h]

/-! ## Primitives -/

@[spec 20000]
theorem declare_preserves [World.Editable J] {name : String} {flags : UInt16}
    {ret : TypeRef} {params : List ParamDef} :
    Preserves J O (declare name flags ret params) := by
  unfold declare
  mvcgen
  all_goals grind [Plan.Follows]

@[spec 20000]
theorem addField_preserves [World.Fillable J O.job] {name : String}
    {type : TypeRef} {flags : UInt16} {attributes : List Attribute} :
    Preserves J O (addField name type flags attributes) := by
  have hfield : ∀ (t : TypeId) (f : FieldDef), t = O.job →
      Weave.Preserves J (Weave.modifyWorkspace (·.addField t f)) := by
    rintro _ f rfl
    exact World.Fillable.fill _ fun _ => rfl
  unfold addField
  mvcgen [hfield, -Weave.addField_preserves, -addField_keeps]
  all_goals first | exact (‹Sketch J O _ _›).plan.type | grind [Plan.Follows]

@[spec 20000]
theorem modifyAttributes_preserves [World.Fillable J O.job]
    {field : String} {f : List Attribute → List Attribute} :
    Preserves J O (modifyAttributes field f) := by
  have hhead : ∀ (t : TypeId) (f : TypeHead → TypeHead), t = O.job →
    TypeHead.Fills f →
      Weave.Preserves J (Weave.modifyWorkspace (·.updateHead t f)) := by
    rintro _ f rfl hf
    exact World.Fillable.fill f hf
  unfold modifyAttributes
  mvcgen [hhead, -Weave.updateHead_preserves, -updateHead_keeps]
  all_goals first | exact (‹Sketch J O _ _›).plan.type | grind [Plan.Follows,
    TypeHead.Fills]

@[spec 20000]
theorem emit_preserves [World.Editable J] {m : MethodId} {steps : List Step} :
    Preserves J O (emit m steps) := by
  unfold emit
  mvcgen
  all_goals grind [Plan.Follows]

@[spec 20000]
theorem addLocal_preserves [World.Editable J] {m : MethodId} {type : TypeRef}
    {name : String} :
    Preserves J O (addLocal m type name) := by
  unfold addLocal
  mvcgen
  all_goals grind [Plan.Follows]

@[spec 20000]
theorem refuseAt_preserves {code : Code} {m : MethodId} {l : Label}
    {args : List Text.Arg} :
    Preserves J O (refuseAt code m l args : Planning α) := by
  unfold refuseAt
  mvcgen
  all_goals grind [Plan.Follows]

/-! ## Captured variables -/

@[spec 20000]
theorem isClosure_preserves [World.Resolving J] {t : TypeRef} :
    Preserves J O (isClosure t) := by
  unfold isClosure
  mvcgen
  all_goals grind [Plan.Follows]

@[spec 20000]
theorem walkBack_preserves {d : MethodDef} {accepts : Instr → Planning Bool}
    {fuel : Nat} {l : Option Label} (h : ∀ i, Preserves J O (accepts i)) :
    Preserves J O (walkBack d accepts fuel l) := by
  induction fuel generalizing l with
  | zero => mvcgen [walkBack, -walkBack_keeps]
  | succ fuel ih =>
    cases l with
    | none => mvcgen [walkBack, -walkBack_keeps]
    | some l =>
      mvcgen [walkBack, ih, h, -walkBack_keeps]
      all_goals grind

@[spec 20000]
theorem loadsEnclosing_preserves [World.Resolving J] {i : Instr} :
    Preserves J O (loadsEnclosing i) := by
  unfold loadsEnclosing
  mvcgen
  all_goals grind [Plan.Follows]

@[spec 20000]
theorem captureAt_preserves [World.Resolving J] {m : MethodId} {d : MethodDef}
    {i : Instr} :
    Preserves J O (captureAt m d i) := by
  unfold captureAt
  mvcgen
  all_goals grind [Plan.Follows]

@[spec 20000]
theorem captures_preserves [World.Resolving J] {m : MethodId} :
    Preserves J O (captures m) := by
  unfold captures
  mvcgen
  all_goals grind [Plan.Follows]

@[spec 20000]
theorem pathKey_preserves {path : List FieldRef} :
    Weave.Preserves J (pathKey path) := by
  unfold pathKey
  mvcgen

@[spec 20000]
theorem capturedField_preserves [World.Searchable J] [World.Fillable J O.job]
    [O.OpenCaptured] {x : Capture} {written : Bool} :
    Preserves J O (capturedField x written) := by
  unfold capturedField
  mvcgen
  all_goals grind [Plan.Follows]

@[spec 20000]
theorem refuseReference_preserves [World.Resolving J] {m : MethodId}
    {x : Capture} {t : TypeRef} :
    Preserves J O (refuseReference m x t) := by
  unfold refuseReference
  mvcgen
  all_goals grind [Plan.Follows]

@[spec 20000]
theorem checkReference_preserves [World.Resolving J] {m : MethodId}
    {x : Capture} :
    Preserves J O (checkReference m x) := by
  unfold checkReference
  mvcgen
  all_goals grind [Plan.Follows]

@[spec 20000]
theorem redirect_preserves [World.Searchable J] [World.Editable J]
    [O.OpenCaptured] {m : MethodId} {x : Capture} {written : Bool} :
    Preserves J O (redirect m x written) := by
  unfold redirect
  mvcgen
  all_goals grind [Plan.Follows]

@[spec 20000]
theorem remapCaptures_preserves [World.Searchable J] [World.Editable J]
    [O.OpenCaptured] {m : MethodId} :
    Preserves J O (remapCaptures m) := by
  unfold remapCaptures
  mvcgen
  all_goals grind [Plan.Follows]

/-! ## Component look-ups -/

@[spec 20000]
theorem checkAliasing_preserves [World.Resolving J]
    {m : MethodId} {call : Label} {r : MethodRef} {t : TypeRef} {write : Bool} :
    Preserves J O (checkAliasing m call r t write) := by
  unfold checkAliasing
  mvcgen
  all_goals grind [Plan.Follows]

@[spec 20000]
theorem loadsFromClosure_preserves [World.Resolving J] {i : Instr} :
    Preserves J O (loadsFromClosure i) := by
  unfold loadsFromClosure
  mvcgen
  all_goals grind [Plan.Follows]

@[spec 20000]
theorem systemInstance_preserves [World.Resolving J]
    {m : MethodId} {call : Label} {r : MethodRef} :
    Preserves J O (systemInstance m call r) := by
  unfold systemInstance
  mvcgen
  all_goals grind [Plan.Follows]

@[spec 20000]
theorem componentAccess_preserves [World.Searchable J] [World.Fillable J O.job]
    [O.OpenAccess] {t : TypeRef} :
    Preserves J O (componentAccess t) := by
  unfold componentAccess
  mvcgen
  all_goals grind [Plan.Follows]

@[spec 20000]
theorem allowWrites_preserves [World.Fillable J O.job] [O.OpenAccess]
    {a : ComponentAccess} :
    Preserves J O (allowWrites a) := by
  unfold allowWrites
  mvcgen
  all_goals grind [Plan.Follows]

@[spec 20000]
theorem lookupMethod_preserves [World.Searchable J] {accessor : String}
    {t : TypeRef} :
    Preserves J O (lookupMethod accessor t) := by
  unfold lookupMethod
  mvcgen
  all_goals grind [Plan.Follows]

@[spec 20000]
theorem patchCall_preserves [World.Searchable J] [World.Editable J]
    [O.OpenAccess] {m : MethodId} {call : Label} {r : MethodRef} :
    Preserves J O (patchCall m call r) := by
  unfold patchCall
  mvcgen
  all_goals grind [Plan.Follows]

@[spec 20000]
theorem patchComponentAccess_preserves [World.Searchable J] [World.Editable J]
    [O.OpenAccess] {m : MethodId} :
    Preserves J O (patchComponentAccess m) := by
  unfold patchComponentAccess
  mvcgen
  all_goals grind [Plan.Follows]

/-! ## Copies -/

@[spec 20000]
theorem relay_preserves [World.Searchable J] [World.Editable J] [O.OpenLambda] :
    Preserves J O relay := by
  unfold relay
  mvcgen
  all_goals grind [Plan.Follows]

@[spec 20000]
theorem resolve?_preserves [World.Resolving J] {r : Option MethodRef} :
    Weave.Preserves J (resolve? r) := by
  unfold resolve?
  mvcgen

@[spec 20000]
theorem checkBody_preserves [World.Resolving J] {m : MethodId} :
    Preserves J O (checkBody m) := by
  unfold checkBody
  mvcgen
  all_goals grind [Plan.Follows]

@[spec 20000]
theorem calledOn_preserves [World.Resolving J] {owner : TypeId}
    {code : List Instr} :
    Weave.Preserves J (calledOn owner code) := by
  unfold calledOn
  mvcgen

@[spec 20000]
theorem reachable_preserves [World.Resolving J]
    {owner : TypeId} {fuel : Nat} {done todo : List MethodId} :
    Preserves J O (reachable owner fuel done todo) := by
  induction fuel generalizing done todo with
  | zero => mvcgen [reachable, -reachable_keeps]
  | succ fuel ih =>
    cases todo with
    | nil => mvcgen [reachable, -reachable_keeps]
    | cons m todo =>
      mvcgen [reachable, ih, -reachable_keeps]
      all_goals grind

@[spec 20000]
theorem copyMethod_preserves [World.Editable J] {m : MethodId} {name : String} :
    Preserves J O (copyMethod m name) := by
  unfold copyMethod
  mvcgen
  all_goals grind [Plan.Follows]

@[spec 20000]
theorem relink_preserves [World.Resolving J]
    {copies : List (MethodId × MethodId)} {i : Instr} :
    Weave.Preserves J (relink copies i) := by
  unfold relink
  mvcgen

@[spec 20000]
theorem relinkBody_preserves [World.Resolving J] [World.Editable J]
    {copies : List (MethodId × MethodId)} {m : MethodId} :
    Weave.Preserves J (relinkBody copies m) := by
  unfold relinkBody
  mvcgen
  all_goals grind [Plan.Follows]

@[spec 20000]
theorem clone_preserves [World.Searchable J] [World.Editable J] [O.OpenCaptured]
    [O.OpenAccess] [O.OpenLambda] (hO : ∀ ms, O.copies ms) :
    Preserves J O clone := by
  unfold clone
  mvcgen
  all_goals grind [Plan.Follows]

/-! ## Providers of lambda parameters -/

@[spec 20000]
theorem refuseLambda_preserves {code : Code} {args : List String} :
    Preserves J O (refuseLambda code args : Planning α) := by
  unfold refuseLambda
  mvcgen
  all_goals grind [Plan.Follows]

@[spec 20000]
theorem providerOfType_preserves [World.Resolving J]
    {p : ParamDef} {byRef isIn : Bool} {t : TypeRef} {id : TypeId} :
    Preserves J O (providerOfType p byRef isIn t id) := by
  unfold providerOfType
  mvcgen
  all_goals grind [Plan.Follows]

@[spec 20000]
theorem classify_preserves [World.Resolving J] {p : ParamDef} :
    Preserves J O (classify p) := by
  unfold classify
  mvcgen
  all_goals grind [Plan.Follows]

@[spec 20000]
theorem classifyParams_preserves [World.Resolving J] [O.OpenElements] :
    Preserves J O classifyParams := by
  unfold classifyParams
  mvcgen
  all_goals grind [Plan.Follows]

@[spec 20000]
theorem providerMethod_preserves [World.Searchable J] {e : Element}
    {name : String} {params : Nat} (hname : isPlain name) :
    Preserves J O (providerMethod e name params) := by
  unfold providerMethod
  mvcgen
  all_goals grind [Plan.Follows]

@[spec 20000]
theorem runtimeMethod_preserves [World.Searchable J] {e : Element}
    {name : String} {params : Nat} (hname : isPlain name) :
    Preserves J O (runtimeMethod e name params) := by
  unfold runtimeMethod
  mvcgen
  all_goals grind [Plan.Follows]

@[spec 20000]
theorem nestedStruct_preserves [World.Nests J O.job] {name : String} :
    Preserves J O (nestedStruct name) := by
  have hadd : ∀ t (h : TypeHead), t = O.job → h.base = .valueType →
      Weave.Preserves J (Weave.addToWorkspace
        (·.addNested t (.mk h [] []))) := by
    rintro _ h rfl hb
    exact World.Nests.nest h hb
  unfold nestedStruct
  mvcgen [hadd]
  all_goals grind [Plan.Follows]

@[spec 20000]
theorem nestedField_preserves [World.Editable J] {t : TypeId} {name : String}
    {type : TypeRef} :
    Preserves J O (nestedField t name type) := by
  unfold nestedField
  mvcgen
  all_goals grind [Plan.Follows]

@[spec 20000]
theorem declareProviders_preserves [World.Searchable J] [World.Editable J]
    [World.Nests J O.job] [O.OpenElements] :
    Preserves J O declareProviders := by
  unfold declareProviders
  mvcgen
  all_goals grind [Plan.Follows]

/-! ## The components of the query -/

@[spec 20000]
theorem hasType_preserves {ts : List TypeRef} {t : TypeRef} :
    Weave.Preserves J (hasType ts t) := by
  unfold hasType
  mvcgen

@[spec 20000]
theorem addItem_preserves {t : TypeRef} {readOnly : Bool}
    {items : List QueryItem} :
    Weave.Preserves J (addItem t readOnly items) := by
  induction items with
  | nil => mvcgen [addItem, -addItem_keeps]
  | cons item rest ih => mvcgen [addItem, ih, -addItem_keeps]

@[spec 20000]
theorem modifierTypes_preserves {name : String} :
    Preserves J O (modifierTypes name) := by
  unfold modifierTypes
  mvcgen
  all_goals grind [Plan.Follows]

@[spec 20000]
theorem required_preserves : Preserves J O required := by
  unfold required
  mvcgen
  all_goals grind [Plan.Follows]

@[spec 20000]
theorem namesOf_preserves {ts : List TypeRef} :
    Weave.Preserves J (namesOf ts) := by
  unfold namesOf
  mvcgen

@[spec 20000]
theorem checkQuery_preserves {all : List QueryItem}
    {anyOf noneOf : List TypeRef} :
    Preserves J O (checkQuery all anyOf noneOf) := by
  unfold checkQuery
  mvcgen
  all_goals grind [Plan.Follows]

@[spec 20000]
theorem queryOptions_preserves : Preserves J O queryOptions := by
  unfold queryOptions
  mvcgen
  all_goals grind [Plan.Follows]

/-! ## Closures and containers -/

@[spec 20000]
theorem closureParam_preserves [World.Searchable J] :
    Preserves J O closureParam := by
  unfold closureParam
  mvcgen
  all_goals grind [Plan.Follows]

@[spec 20000]
theorem walkClosures_preserves [World.Searchable J] {hops : List FieldRef} :
    Preserves J O (walkClosures hops) := by
  unfold walkClosures
  mvcgen
  all_goals grind [Plan.Follows]

@[spec 20000]
theorem closureCopies_preserves [World.Searchable J] [World.Editable J] :
    Preserves J O closureCopies := by
  unfold closureCopies
  mvcgen
  all_goals grind -ring -linarith [Plan.Follows]

@[spec 20000]
theorem sameAs_preserves {f : FieldRef} {g : Option FieldRef} :
    Weave.Preserves J (sameAs f g) := by
  unfold sameAs
  mvcgen

@[spec 20000]
theorem toDispose_preserves [World.Searchable J] : Preserves J O toDispose := by
  unfold toDispose
  mvcgen
  all_goals grind [Plan.Follows]

@[spec 20000]
theorem deallocation_preserves [World.Searchable J] [World.Editable J] :
    Preserves J O deallocation := by
  unfold deallocation
  mvcgen
  all_goals grind -ring -linarith [Plan.Follows]

/-! ## Entry points -/

@[spec 20000]
theorem declareExecute_preserves [World.Editable J] {flags : UInt16}
    {params : List ParamDef} :
    Preserves J O (declareExecute flags params) := by
  unfold declareExecute
  mvcgen
  all_goals grind [Plan.Follows]

@[spec 20000]
theorem loopTemp_preserves [World.Editable J] {m : MethodId} {e : Element} :
    Preserves J O (loopTemp m e) := by
  unfold loopTemp
  mvcgen

@[spec 20000]
theorem loopArgument_preserves [World.Searchable J]
    {i : LocalRef} {e : Element} {temp : Option LocalRef} :
    Preserves J O (loopArgument i e temp) := by
  unfold loopArgument
  mvcgen

@[spec 20000]
theorem iterateEntities_preserves [World.Searchable J] [World.Editable J] :
    Preserves J O iterateEntities := by
  unfold iterateEntities
  mvcgen
  all_goals first | exact decorates_params.resembles | grind [Plan.Follows]

@[spec 20000]
theorem prepareRuntime_preserves [World.Searchable J] {runtimes : LocalRef}
    {e : Element} :
    Preserves J O (prepareRuntime runtimes e) := by
  unfold prepareRuntime
  mvcgen

@[spec 20000]
theorem entryPoint_preserves [World.Searchable J] [World.Editable J] :
    Preserves J O entryPoint := by
  unfold entryPoint
  mvcgen
  all_goals grind [Plan.Follows]

@[spec 20000]
theorem asRef_preserves [World.Searchable J] {t : TypeRef} :
    Preserves J O (asRef t) := by
  unfold asRef
  mvcgen
  all_goals grind [Plan.Follows]

@[spec 20000]
theorem declareCopies_preserves [World.Editable J] {m : MethodId}
    {e : Element} :
    Preserves J O (declareCopies m e) := by
  unfold declareCopies
  mvcgen

@[spec 20000]
theorem copyOut_preserves [World.Searchable J] {runtimes : LocalRef}
    {x : Copies} :
    Preserves J O (copyOut runtimes x) := by
  unfold copyOut
  mvcgen

@[spec 20000]
theorem writeBack_preserves [World.Searchable J] {runtimes : LocalRef}
    {x : Copies} :
    Preserves J O (writeBack runtimes x) := by
  unfold writeBack
  mvcgen

@[spec 20000]
theorem callback_preserves [World.Searchable J] [World.Editable J] :
    Preserves J O callback := by
  unfold callback
  mvcgen
  all_goals grind [Plan.Follows]

@[spec 20000]
theorem prepareStructural_preserves [World.Searchable J] {runtimes : LocalRef}
    {e : Element} :
    Preserves J O (prepareStructural runtimes e) := by
  unfold prepareStructural
  mvcgen

@[spec 20000]
theorem disposing_preserves {load : List Step} :
    Preserves J O (disposing load) := by
  unfold disposing
  mvcgen
  all_goals grind [Plan.Follows]

@[spec 20000]
theorem structuralEntryPoint_preserves [World.Searchable J] [World.Editable J] :
    Preserves J O structuralEntryPoint := by
  unfold structuralEntryPoint
  mvcgen
  all_goals grind [Plan.Follows]

@[spec 20000]
theorem preparation_preserves [World.Searchable J] [World.Editable J] :
    Preserves J O preparation := by
  unfold preparation
  mvcgen
  all_goals grind [Plan.Follows]

@[spec 20000]
theorem directJob_preserves [World.Searchable J] [World.Editable J] :
    Preserves J O directJob := by
  unfold directJob
  mvcgen
  all_goals grind [Plan.Follows]

@[spec 20000]
theorem directChunks_preserves [World.Searchable J] [World.Editable J] :
    Preserves J O directChunks := by
  unfold directChunks
  mvcgen
  all_goals grind [Plan.Follows]

@[spec 20000]
theorem directDispose_preserves [World.Searchable J] {arg : Int} {t : TypeRef} :
    Preserves J O (directDispose arg t) := by
  unfold directDispose
  mvcgen

@[spec 20000]
theorem directSteps_preserves [World.Searchable J] {entry : DirectEntry} :
    Preserves J O (directSteps entry) := by
  cases entry
  all_goals
    mvcgen [directSteps, -directSteps_drafts]
    all_goals grind [Plan.Follows]

/-! ## Attributes -/

@[spec 20000]
theorem searchStep_preserves [World.Resolving J] {marker : String}
    {s : MarkerSearch} :
    Weave.Preserves J (searchStep marker s) := by
  mvcgen [searchStep, -searchStep_keeps]

@[spec 20000]
theorem searchUpTo_preserves [World.Resolving J] {marker : String} {n : Nat}
    {s : MarkerSearch} : Weave.Preserves J (searchUpTo marker n s) := by
  induction n generalizing s with
  | zero => mvcgen [searchUpTo, -searchUpTo_keeps]
  | succ n ih => mvcgen [searchUpTo, ih, -searchUpTo_keeps]

@[spec 20000]
theorem markedVariable_preserves [World.Searchable J] [World.Editable J]
    {fm : FieldModifier} {m : Modifier} :
    Preserves J O (markedVariable fm m) := by
  unfold markedVariable
  mvcgen
  all_goals grind [Plan.Follows]

@[spec 20000]
theorem markVariables_preserves [World.Searchable J] [World.Editable J] :
    Preserves J O markVariables := by
  unfold markVariables
  mvcgen
  all_goals grind [Plan.Follows]

@[spec 20000]
theorem markNative_preserves [World.Searchable J] [World.Editable J] :
    Preserves J O markNative := by
  unfold markNative
  mvcgen
  all_goals grind [Plan.Follows, MethodDef.Resembles, TypeHead.Fills]

end Planning

end JobWeave
