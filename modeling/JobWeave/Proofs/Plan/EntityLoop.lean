import Mathlib
import JobWeave.Proofs.Plan.LoopMethod
import JobWeave.Proofs.Plan.QueryCode
import JobWeave.Proofs.Plan.Cloning
import JobWeave.Proofs.Plan.Stores

/-!
# The job visits every entity

A job for a chain over entities has the lambda as a method and another one,
`IterateEntities`, that calls it for each entity of a chunk.

* `Planning.classifyParams_run`: the elements of a plan stand for the parameters
  of the lambda.
* `Planning.relay_run` and `Planning.clone_run`: the lambda becomes a method of
  the job that is called on an instance, either as a relay or as a copy.
* `Planning.declareProviders_run`: each element gets the field that its provider
  is in.
* `Planning.entryPoint_run` and `Planning.build_run`: the loop calls that method
  with what these fields give for an entity, and nothing that comes later
  changes it.
* `Weave.synthesize_visits`: so the loop visits every entity once, in order.
-/

namespace JobWeave

open Framework Std.Do
open scoped World.Answers

set_option mvcgen.warning false

/-- The element stands for the parameter. -/
structure Element.StandsFor (p : ParamDef) (e : Element) : Prop where
  /-- the parameter -/
  param : e.param = p
  /-- it is passed by reference -/
  byRef : e.byRef = p.type.isByRef

/-- The state of the provider is in a field that is named for the parameter. -/
structure Element.RunsFor (p : ParamDef) (e : Element) :
    Prop extends e.StandsFor p where
  /-- the field -/
  runtime : e.runtimeField.name = "runtime_" ++ p.name

/-- Elements that are made ready one by one. -/
theorem Element.forall₂_runsFor {ps : List ParamDef} {es es' : List Element}
    (h : List.Forall₂ StandsFor ps es)
    (h' : List.Forall₂ (fun e e' => ∀ p, StandsFor p e → RunsFor p e') es es') :
    List.Forall₂ RunsFor ps es' := by
  induction h generalizing es' with
  | nil =>
    cases h'
    exact .nil
  | cons hp _ ih =>
    cases h' with
    | cons he hrest => exact .cons (he _ hp) (ih hrest)

namespace Workspace

variable {w : Workspace} {t : TypeId} {m n k : MethodId} {d : MethodDef}

/-- A copy of a method that is added to a type. -/
theorem declares_addCopy (ht : t.index < w.types.size) :
    (w.addCopy t n d).1.Declares t d (w.addCopy t n d).2 := by
  have hentry : (w.addCopy t n d).1.methodEntry (w.addCopy t n d).2 =
      { method := d, owner := some t, model := some (w.modelOf n) } := by
    rw [methodEntry_addCopy,
      if_pos (show (w.addCopy t n d).2.index = w.methods.size from rfl)]
  refine ⟨congrArg MethodEntry.owner hentry, ?_, ?_⟩
  · exact (declares_addMethod (w := w) (d := d) ht).1.declared
  · rw [method, hentry]
    exact .refl d

end Workspace

namespace Planning

variable {J : World → Prop} {O : Outline} {v₀ u u' : Plan} {w w' : World}
  {V : Workspace}
variable {I : Workspace → Prop} {α : Type} {a : α} {m : MethodId}

/-! ## Parameters -/

/-- An element stands for its parameter. -/
theorem classify_finds [World.Resolving J] {p : ParamDef} :
    Finds J v₀ (Element.StandsFor p) (classify p) := by
  unfold classify
  mvcgen [providerOfType_asks, refuseLambda_stops, -providerOfType_keeps,
    -providerOfType_preserves, -refuseLambda_keeps, -refuseLambda_preserves]
  all_goals grind [Element.StandsFor]

/-- The elements stand for the parameters of the lambda. -/
theorem classifyParams_run (hw : w.Has (World.Answers (· = V)))
    (hrun : classifyParams u w = .ok ((), u') w') :
    ∃ es, u' = { u with elements := es } ∧ w'.Has (World.Answers (· = V)) ∧
      List.Forall₂ Element.StandsFor (V.method u.chain.lambda).params es := by
  obtain ⟨c, u₁, w₁, hchain, hnext⟩ := run_bind_iff.1 hrun
  cases hchain
  obtain ⟨d, u₂, w₂, hd, hnext₂⟩ := run_bind_iff.1 hnext
  obtain ⟨es, u₃, w₃, hes, hset⟩ := run_bind_iff.1 hnext₂
  obtain ⟨hd, rfl⟩ := run_lift_iff.1 hd
  cases hd
  cases hset
  have hmap : ∀ ps : List ParamDef, Finds (World.Answers (· = V)) u₂
      (List.Forall₂ Element.StandsFor ps) (ps.mapM classify) :=
    fun ps => mapM_inv fun p _ => classify_finds
  obtain ⟨⟨rfl, hw₃⟩, hall⟩ := of_run (hmap _) ⟨rfl, hw⟩ hes
  rw [hw.holds.workspace] at hall
  exact ⟨es, rfl, hw₃, hall⟩

/-! ## The lambda -/

/-- What is preserved stays so in a run. -/
theorem sketch_run {act : Planning α} (h : Preserves J O act)
    (hs : Sketch J O u w) (hrun : act u w = .ok (a, u') w') :
    Sketch J O u' w' :=
  of_run (P := Sketch J O) (Q := fun _ => Sketch J O) h hs hrun

/-- The methods that are reached come after those that were done. -/
theorem reachable_run {owner : TypeId} {fuel : Nat}
    {done todo order : List MethodId}
    (hrun : reachable owner fuel done todo u w = .ok (order, u') w') :
    done <+: order := by
  induction fuel generalizing done todo u w with
  | zero =>
    cases hrun
    exact List.prefix_refl _
  | succ fuel ih =>
    cases todo with
    | nil =>
      cases hrun
      exact List.prefix_refl _
    | cons m todo =>
      obtain ⟨_, u₁, w₁, -, hnext⟩ := run_bind_iff.1 hrun
      obtain ⟨b, u₂, w₂, -, hnext₂⟩ := run_bind_iff.1 hnext
      obtain ⟨found, u₃, w₃, -, hnext₃⟩ := run_bind_iff.1 hnext₂
      exact (List.prefix_append done [m]).trans (ih hnext₃)

/-- The lambda is reached first. -/
theorem head?_reachable_run {owner : TypeId} {fuel : Nat}
    {order : List MethodId}
    (hrun : reachable owner (fuel + 1) [] [m] u w = .ok (order, u') w') :
    order.head? = some m := by
  obtain ⟨_, u₁, w₁, -, hnext⟩ := run_bind_iff.1 hrun
  obtain ⟨b, u₂, w₂, -, hnext₂⟩ := run_bind_iff.1 hnext
  obtain ⟨found, u₃, w₃, -, hnext₃⟩ := run_bind_iff.1 hnext₂
  obtain ⟨rest, rfl⟩ := reachable_run hnext₃
  rfl

/-- The method is the lambda as an instance method, for some number of
parameters. -/
structure IsLambda (n : Nat) (d : MethodDef) : Prop where
  /-- the name -/
  name : d.name = lambdaName
  /-- it is called on an instance -/
  hasThis : d.hasThis = true
  /-- the parameters -/
  params : d.params.length = n

/-- The method is called for as many parameters as there are elements. -/
theorem IsLambda.isLambda {W : Workspace} {t : TypeId} {l : MethodId} {n : Nat}
    {d : MethodDef} {r : MethodRef} {es : List Element} (h : IsLambda n d)
    (hdeclares : W.Declares t d l) (href : W.methodRef? l = some r)
    (hes : es.length = n) : Loop.IsLambda r es := by
  have hparams := hdeclares.signature.length_params
  rw [Workspace.methodRef?, hdeclares.owner] at href
  cases href
  refine ⟨hdeclares.signature.name.trans h.name,
    hdeclares.signature.hasThis_eq.trans h.hasThis, ?_⟩
  rw [hes, ← h.params, ← hparams]
  exact List.length_map _

/-- The plan keeps its struct and its elements. -/
abbrev kept (u : Plan) : Outline where
  job := u.type
  code := fun _ => True
  elements := (· = u.elements)

/-- The lambda is known besides. -/
abbrev known (u : Plan) (l : MethodId) : Outline where
  job := u.type
  code := fun _ => True
  elements := (· = u.elements)
  lambda := (· = some l)

/-- A field of the job's struct changes no method. -/
theorem addField_run {name : String} {type : TypeRef} {flags : UInt16}
    {attributes : List Attribute} {f : FieldRef}
    (hrun : addField name type flags attributes u w = .ok (f, u') w') :
    u' = u ∧ w'.imports = w.imports ∧
      w'.workspace.methods = w.workspace.methods ∧
      w'.workspace.types.size = w.workspace.types.size := by
  cases hrun
  exact ⟨rfl, rfl, rfl, Array.size_modify ..⟩

/-- A relay to the lambda is a method of the job. -/
theorem relay_run (hw : w.Has (World.Answers (· = V)))
    (ht : u.type.index < V.types.size) (hrun : relay u w = .ok ((), u') w') :
    ∃ l d, IsLambda (V.method u.chain.lambda).params.length d ∧
      Sketch (World.Answers (·.Declares u.type d l)) (known u l) u' w' := by
  obtain ⟨c, u₁, w₁, hchain, hnext⟩ := run_bind_iff.1 hrun
  cases hchain
  obtain ⟨r, u₂, w₂, href, hnext₂⟩ := run_bind_iff.1 hnext
  cases href
  obtain ⟨host, u₃, w₃, hhost, hnext₃⟩ := run_bind_iff.1 hnext₂
  obtain ⟨rfl, himports, hmethods, htypes⟩ := addField_run hhost
  obtain ⟨d, u₄, w₄, hd, hnext₄⟩ := run_bind_iff.1 hnext₃
  cases hd
  obtain ⟨l, u₅, w₅, hl, hnext₅⟩ := run_bind_iff.1 hnext₄
  have hV : w.workspace = V := hw.holds.workspace
  have hw₃ : w₃.Has (World.Answers w₃.workspace.Amends) :=
    ⟨himports ▸ hw.holds.imports, .refl _⟩
  have ht₃ : u₃.type.index < w₃.workspace.types.size := by rwa [htypes, hV]
  obtain ⟨rfl, d, hname, hflags, hparams, hw₅⟩ := declare_run hw₃ ht₃ hl
  have hlambda : w₃.workspace.method u₅.chain.lambda =
      V.method u₅.chain.lambda := by
    simp only [Workspace.method, Workspace.methodEntry, hmethods, hV]
  refine ⟨l, d, ⟨hname, ?_, ?_⟩, ?_⟩
  · rw [MethodDef.hasThis, MethodDef.isStatic, hflags]
    decide
  · rw [hparams, hlambda]
  · obtain ⟨_, u₆, w₆, hmodify, hnext₆⟩ := run_bind_iff.1 hnext₅
    cases hmodify
    refine sketch_run ?_ ?_ hnext₆
    · clear hnext hnext₂ hnext₃ hnext₄ hnext₅ hnext₆ hrun
      mvcgen
      · infer_instance
      · exact Sketch.world (by assumption)
    · exact ⟨⟨hw₅.holds.imports, hw₅.holds.workspace.1.2⟩,
        rfl, trivial, trivial, trivial, trivial, rfl, rfl⟩

/-- A method that is made public stays static or not. -/
theorem exposed_and_static (flags : UInt16) :
    ((flags &&& ~~~(MethodFlag.priv ||| MethodFlag.assembly |||
      MethodFlag.family)) ||| MethodFlag.pub) &&& MethodFlag.static =
        flags &&& MethodFlag.static := by
  apply UInt16.toBitVec_inj.1
  show ((flags.toBitVec &&& ~~~14#16) ||| 1#16) &&& 16#16 = flags.toBitVec
    &&& 16#16
  rw [BitVec.and_or_distrib_right, BitVec.and_assoc]
  exact BitVec.or_zero

/-- The lambda is copied as a method of the job. -/
theorem copyMethod_run (hw : w.Has (World.Answers (· = V)))
    (ht : u.type.index < V.types.size) {n l : MethodId}
    (hthis : (V.method n).hasThis = true)
    (hrun : copyMethod n lambdaName u w = .ok (l, u') w') :
    u' = u ∧ ∃ d, IsLambda (V.method n).params.length d ∧
      w'.Has (World.Answers (·.Declares u.type d l)) := by
  obtain ⟨him, rfl⟩ := hw.holds
  cases hrun
  refine ⟨rfl, _, ⟨rfl, ?_, ?_⟩, him, Workspace.declares_addCopy ht⟩
  · rw [MethodDef.hasThis, MethodDef.isStatic, ← exposed_and_static] at hthis
    exact hthis
  · rfl

/-- The copy of a lambda that is called on an instance is called on the job.
The other methods of its closure, which are copied with it, come after it. -/
theorem clone_run (hw : w.Has (World.Answers (· = V)))
    (ht : u.type.index < V.types.size)
    (hthis : (V.method u.chain.lambda).hasThis = true)
    (hrun : clone u w = .ok ((), u') w') :
    ∃ l d, IsLambda (V.method u.chain.lambda).params.length d ∧
      Sketch (World.Answers (·.Declares u.type d l)) (known u l) u' w' := by
  obtain ⟨c, u₁, w₁, hchain, hnext⟩ := run_bind_iff.1 hrun
  cases hchain
  obtain ⟨W, u₂, w₂, hW, hnext₂⟩ := run_bind_iff.1 hnext
  cases hW
  obtain ⟨order, u₃, w₃, horder, hnext₃⟩ := run_bind_iff.1 hnext₂
  obtain ⟨cloned, u₄, w₄, hcloned, hnext₄⟩ := run_bind_iff.1 hnext₃
  obtain ⟨_, u₅, w₅, hmodify, hnext₅⟩ := run_bind_iff.1 hnext₄
  clear hrun hnext hnext₂ hnext₃ hnext₄
  cases hmodify
  obtain ⟨rest, rfl⟩ := List.head?_eq_some_iff.1 (head?_reachable_run horder)
  have hstart : Sketch (World.Answers (· = V)) (kept u) u w :=
    ⟨hw, rfl, trivial, trivial, trivial, trivial, rfl, trivial⟩
  have hs₃ := sketch_run reachable_preserves hstart horder
  rw [List.mapM_cons] at hcloned
  obtain ⟨l, u₆, w₆, hl, hrest⟩ := run_bind_iff.1 hcloned
  obtain ⟨copies, u₇, w₇, hcopies, hlast⟩ := run_bind_iff.1 hrest
  cases hlast
  rw [if_pos BEq.rfl] at hl
  have htype : u₃.type = u.type := hs₃.plan.type
  obtain ⟨rfl, d, hd, hw₆⟩ := copyMethod_run hs₃.world (htype ▸ ht) hthis hl
  have hs₆ : Sketch (World.Answers (·.Declares u.type d l)) (kept u) u₆ w₆ :=
    ⟨htype ▸ hw₆, hs₃.plan⟩
  have hcopy : ∀ n ∈ rest, Preserves (World.Answers (·.Declares u.type d l))
    (kept u)
      (if n == u.chain.lambda then copyMethod n lambdaName
        else do copyMethod n (← Weave.methodDef n).name) := by
    intro n _
    mvcgen
    all_goals infer_instance
  have hs₇ := sketch_run (mapM_preserves hcopy) hs₆ hcopies
  refine ⟨l, d, hd, sketch_run ?_ ?_ hnext₅⟩
  · clear hnext₅ hcopies hrest hl horder
    mvcgen
    all_goals first | infer_instance | grind
  · exact ⟨hs₇.world,
      hs₇.plan.type, trivial, trivial, trivial, trivial, hs₇.plan.elements, rfl⟩

/-! ## The providers -/

/-- A field of a nested struct has the name that is asked for. -/
theorem nestedField_names [World.Editable J] {t : TypeId} {name : String}
    {type : TypeRef} :
    Yields J O (fun f => f.name = name) (nestedField t name type) := by
  unfold nestedField
  mvcgen
  all_goals grind [Plan.Follows, Workspace.fieldRef]

/-- With its fields an element is ready for its parameter. -/
theorem declareFields_runs [World.Searchable J] [World.Editable J]
    (providers runtimes : TypeId) (e : Element) :
    Yields J O (fun e' => ∀ p, e.StandsFor p → e'.RunsFor p) (do
      let providerField ← nestedField providers
        ("forParameter_" ++ e.param.name) (← providerType e)
      let runtimeField ← nestedField runtimes ("runtime_" ++ e.param.name)
        (← runtimeType e)
      return { e with providerField, runtimeField }) := by
  unfold providerType runtimeType chain
  mvcgen [nestedField_names, -nestedField_preserves, -nestedField_drafts]
  all_goals try grind
  rename_i h
  refine ⟨h.1, fun p hp => ⟨⟨hp.param, hp.byRef⟩, ?_⟩⟩
  rw [← hp.param]
  exact h.2

/-- Each element gets the field that its provider is in. -/
theorem declareProviders_run {ps : List ParamDef} [World.Searchable J]
    [World.Editable J] [World.Nests J u.type] {l : MethodId}
    (hs : Sketch J (known u l) u w)
    (hes : List.Forall₂ Element.StandsFor ps u.elements)
    (hrun : declareProviders u w = .ok ((), u') w') :
    List.Forall₂ Element.RunsFor ps u'.elements ∧
    Sketch J (known u' l) u' w' := by
  obtain ⟨providers, u₁, w₁, hproviders, hnext⟩ := run_bind_iff.1 hrun
  obtain ⟨runtimes, u₂, w₂, hruntimes, hnext₂⟩ := run_bind_iff.1 hnext
  obtain ⟨_, u₃, w₃, hget, hnext₃⟩ := run_bind_iff.1 hnext₂
  cases hget
  obtain ⟨es, u₄, w₄, hall, hnext₄⟩ := run_bind_iff.1 hnext₃
  obtain ⟨r, u₅, w₅, href, hnext₅⟩ := run_bind_iff.1 hnext₄
  obtain ⟨field, u₆, w₆, hfield, hnext₆⟩ := run_bind_iff.1 hnext₅
  obtain ⟨r', u₇, w₇, href', hlast⟩ := run_bind_iff.1 hnext₆
  clear hrun hnext hnext₂ hnext₃ hnext₄ hnext₅ hnext₆
  have hs₁ := sketch_run nestedStruct_preserves hs hproviders
  have hs₂ := sketch_run nestedStruct_preserves hs₁ hruntimes
  have helements : u₂.elements = u.elements := hs₂.plan.elements
  have hmap : Yields J (known u l) (List.Forall₂
      (fun e e' => ∀ p, Element.StandsFor p e → Element.RunsFor p e')
        u₂.elements) _ :=
    mapM_inv fun e _ => declareFields_runs providers runtimes e
  obtain ⟨hs₄, hruns⟩ := of_run (P := Sketch J (known u l)) hmap hs₂ hall
  obtain ⟨rfl, hw₅⟩ := keep_run (by mvcgen) hs₄.world href
  have hs₆ := sketch_run addField_preserves ⟨hw₅, hs₄.plan⟩ hfield
  obtain ⟨rfl, hw₇⟩ := keep_run (by mvcgen) hs₆.world href'
  cases hlast
  rw [helements] at hruns
  have hready : List.Forall₂ Element.RunsFor ps es :=
    Element.forall₂_runsFor hes hruns
  exact ⟨hready, hw₇, rfl, trivial, trivial, trivial, trivial, rfl,
    hs₆.plan.lambda⟩

/-! ## The loop in the plan -/

variable {B : Ground} {H : List (TypeId × MethodId)} {c : Chain}

/-- Planning is under way: it is on the ground, and the plan is as outlined. -/
structure Underway (J : World → Prop) (B : Ground)
    (H : List (TypeId × MethodId)) (c : Chain) (O : Outline) (u : Plan)
    (w : World) : Prop where
  /-- what planning did so far -/
  drafting : Drafting B.Reaches B H c u w
  /-- what is known of the plan -/
  sketch : Sketch J O u w

/-- Planning goes on in a run. -/
theorem draft_run {act : Planning α} (h : Drafts B H c act)
    (hd : Drafting B.Reaches B H c u w) (hrun : act u w = .ok (a, u') w') :
    Drafting B.Reaches B H c u' w' :=
  of_run (P := Drafting B.Reaches B H c) (Q := fun _ => Drafting B.Reaches B H
    c) h hd hrun

/-- What is known of the plan stays known. -/
theorem Underway.run {act : Planning α} (hd : Drafts B H c act)
    (hp : Preserves J O act) (h : Underway J B H c O u w)
    (hrun : act u w = .ok (a, u') w') : Underway J B H c O u' w' :=
  ⟨draft_run hd h.drafting hrun, sketch_run hp h.sketch hrun⟩

/-- The job has a loop over the entities that calls the lambda. -/
structure HasLoop (job : TypeId) (es : List Element) (l loop : MethodId)
    (W : Workspace) : Prop where
  /-- the loop is a method of the job -/
  declared : loop ∈ (W.type job).methods
  /-- its name -/
  name : (W.method loop).name = "IterateEntities"
  /-- its code -/
  code : ∃ r, W.methodRef? l = some r ∧ W.CodeSatisfies loop
    fun b => b.IsEntityLoop r es

theorem enterLoop_preserves [World.Searchable J] [World.Editable J]
    {loop : MethodId} :
    Preserves J O (enterLoop loop) := by
  unfold enterLoop
  mvcgen
  all_goals grind [Plan.Follows]

/-- Planning goes on after the loop, and all that was declared stays. -/
theorem entryPoint_run {d : MethodDef} {l : MethodId}
    (hkind : c.kind = .entities) (hB : B.direct = false)
    (h : Underway (World.Answers (·.Declares B.job d l)) B H c (known u l) u w)
    (hrun : entryPoint u w = .ok ((), u') w') :
    ∃ (g : Ground) (loop : MethodId), g.direct ∧
      Underway (fun w => g.base.Amends w.workspace) g H c (known u l) u' w' ∧
      g.base.Declares B.job d l ∧ loop.index < g.methods ∧
      HasLoop B.job u.elements l loop g.base := by
  have htype : u.type = B.job := h.drafting.fresh.type
  have hc : u.chain = c := h.drafting.fresh.chain
  rw [entryPoint_entities (hc ▸ hkind)] at hrun
  obtain ⟨loop, u₂, w₂, hloop, hrest⟩ := run_bind_iff.1 hrun
  have hdeclares : w.workspace.Declares B.job d l :=
    h.sketch.world.holds.workspace
  have hw₂ := Underway.run iterateEntities_drafts.keeps
    iterateEntities_preserves h hloop
  obtain ⟨rfl, him, hamends, ⟨di, hdi, hloops⟩, r, href, hcode⟩ :=
    iterateEntities_run h.sketch.world.holds.imports
      (htype ▸ h.drafting.holding.workspace.job_lt)
      h.sketch.plan.lambda hdeclares.lt hloop
  rw [htype] at hloops
  obtain ⟨g, hbase, hsize, hdirect, -, hdrafting⟩ :=
    exists_restart hw₂.drafting hB hw₂.drafting.holding.workspace
  have hstart : Underway (fun w => g.base.Amends w.workspace) g H c (known u₂ l)
      u₂ w₂ :=
    ⟨hdrafting, ⟨hbase ▸ .refl _⟩, hw₂.sketch.plan⟩
  have hend := Underway.run enterLoop_drafts enterLoop_preserves hstart hrest
  refine ⟨g, loop, hdirect, hend, ?_, hsize ▸ hloops.lt, ?_⟩
  · rw [hbase]
    exact hw₂.sketch.world.holds.workspace
  · rw [hbase]
    exact ⟨hloops.declared, hloops.signature.name.trans hdi, r,
      (hamends.methodRef?_eq hdeclares.lt).trans href, hcode⟩

/-- The lambda becomes a method of the job, one way or the other. -/
theorem lambda_run {p : Prop} [Decidable p] (hB : B.copies = none)
    (h : Underway (World.Answers (· = V)) B H c O u w)
    (hthis : (V.method c.lambda).hasThis = true)
    (hrun : (if p then relay else clone) u w = .ok ((), u') w') :
    ∃ l d, IsLambda (V.method c.lambda).params.length d ∧
      Underway (World.Answers (·.Declares B.job d l)) B H c (known u l) u'
        w' := by
  have hw := h.sketch.world
  have hc : u.chain = c := h.drafting.fresh.chain
  have htype : u.type = B.job := h.drafting.fresh.type
  have ht : u.type.index < V.types.size := by
    have hlt := h.drafting.holding.workspace.job_lt
    rwa [← htype, hw.holds.workspace] at hlt
  subst hc
  rw [← htype]
  split at hrun
  · obtain ⟨l, d, hd, hs⟩ := relay_run hw ht hrun
    exact ⟨l, d, hd, draft_run relay_drafts h.drafting hrun, hs⟩
  · obtain ⟨l, d, hd, hs⟩ := clone_run hw ht hthis hrun
    exact ⟨l, d, hd, draft_run (clone_drafts hB) h.drafting hrun, hs⟩

/-- A choice between two pieces of planning. -/
theorem run_either {β : Type} {p : Prop} [Decidable p] {act act' : Planning α}
    {f : α → Planning β} {b : β}
    (hrun : (if p then act >>= f else act' >>= f) u w = .ok (b, u') w') :
    ∃ a u₁ w₁, (if p then act else act') u w = .ok (a, u₁) w₁ ∧
      f a u₁ w₁ = .ok (b, u') w' := by
  split at hrun <;> rename_i hp
  · simpa only [if_pos hp] using run_bind_iff.1 hrun
  · simpa only [if_neg hp] using run_bind_iff.1 hrun

/-- What is known of the plan can be said of its present state. -/
theorem Underway.known {l : MethodId} {v : Plan}
    (h : Underway J B H c (known v l) u w) :
    Underway J B H c (Planning.known u l) u w :=
  ⟨h.drafting, h.sketch.world,
    rfl, trivial, trivial, trivial, trivial, rfl, h.sketch.plan.lambda⟩

/-- The plan of a job over entities has the loop. -/
theorem build_run (hB : B.copies = none) (hdirect : B.direct = false)
    (hdraft : Drafting B.Reaches B H c u w) (hw : w.Has (World.Answers (· = V)))
    (hkind : c.kind = .entities) (hplain : c.runsStructural = false)
    (hthis : (V.method c.lambda).hasThis = true)
    (hrun : build u w = .ok ((), u') w') :
    List.Forall₂ Element.RunsFor (V.method c.lambda).params u'.elements ∧
    u'.type = B.job ∧
      ∃ l d loop W, IsLambda (V.method c.lambda).params.length d ∧
      u'.lambda = some l ∧
        W.Declares B.job d l ∧ HasLoop B.job u'.elements l loop W ∧
        W.Amends w'.workspace ∧ w'.workspace.method loop = W.method loop := by
  have hc : u.chain = c := hdraft.fresh.chain
  obtain ⟨_, u₁, w₁, hget, hnext⟩ := run_bind_iff.1 hrun
  cases hget
  obtain ⟨_, u₂, w₂, hclassify, hnext₂⟩ := run_bind_iff.1 hnext
  obtain ⟨_, u₃, w₃, hquery, hnext₃⟩ := run_bind_iff.1 hnext₂
  obtain ⟨_, u₄, w₄, hlambda, hnext₄⟩ := run_either hnext₃
  obtain ⟨_, u₅, w₅, hmark, hnext₅⟩ := run_bind_iff.1 hnext₄
  obtain ⟨_, u₆, w₆, hcopies, hnext₆⟩ := run_bind_iff.1 hnext₅
  obtain ⟨_, u₇, w₇, hproviders, hnext₇⟩ := run_bind_iff.1 hnext₆
  obtain ⟨_, u₈, w₈, hdealloc, hnext₈⟩ := run_bind_iff.1 hnext₇
  obtain ⟨_, u₉, w₉, hentry, hnext₉⟩ := run_either hnext₈
  obtain ⟨_, u₁₀, w₁₀, hprepare, hnext₁₀⟩ := run_bind_iff.1 hnext₉
  obtain ⟨_, u₁₁, w₁₁, hdirectEntry, hnative⟩ := run_bind_iff.1 hnext₁₀
  clear hrun hnext hnext₂ hnext₃ hnext₄ hnext₅ hnext₆ hnext₇ hnext₈ hnext₉
    hnext₁₀
  rw [hc] at hclassify hquery hcopies hproviders hdealloc hentry hdirectEntry
  rw [part, if_pos (beq_iff_eq.2 hkind)] at hclassify hproviders
  rw [if_neg (by simp [hplain])] at hentry
  obtain ⟨es, rfl, hw₂, hstands⟩ := classifyParams_run hw hclassify
  rw [hc] at hstands
  have hstart : Underway (World.Answers (· = V)) B H c
    (kept { u with elements := es })
      { u with elements := es } w₂ :=
    ⟨draft_run classifyParams_keeps hdraft hclassify, hw₂,
      rfl, trivial, trivial, trivial, trivial, rfl, trivial⟩
  have h₃ := hstart.run (part_keeps buildQuery_keeps)
    (part_preserves buildQuery_opens) hquery
  have hes : u₃.elements = es := h₃.sketch.plan.elements
  obtain ⟨l, d, hd, h₄⟩ := lambda_run hB h₃ hthis hlambda
  have h₅ := h₄.run markVariables_drafts markVariables_preserves hmark
  have h₆ := h₅.run (part_keeps closureCopies_drafts)
    (part_preserves closureCopies_preserves) hcopies
  have hes₆ : u₆.elements = es := Eq.trans h₆.sketch.plan.elements hes
  obtain ⟨hruns, hs₇⟩ := declareProviders_run h₆.known.sketch (hes₆ ▸ hstands)
    hproviders
  have h₇ : Underway _ B H c (known u₇ l) u₇ w₇ :=
    ⟨draft_run declareProviders_drafts h₆.drafting hproviders, hs₇⟩
  have h₈ := h₇.run (part_keeps deallocation_drafts)
    (part_preserves deallocation_preserves) hdealloc
  have hes₈ : u₈.elements = u₇.elements := h₈.sketch.plan.elements
  obtain ⟨g, loop, hg, h₉, hlambda, hlt, hloop⟩ :=
    entryPoint_run hkind hdirect h₈.known hentry
  have h₁₀ := h₉.run preparation_drafts preparation_preserves hprepare
  have h₁₁ := h₁₀.run (part_keeps (directEntryPoint_drafts hg))
    (part_preserves directEntryPoint_opens) hdirectEntry
  have h₁₂ := h₁₁.run markNative_drafts markNative_preserves hnative
  have hes' : u'.elements = u₈.elements := h₁₂.sketch.plan.elements
  rw [hes', hes₈]
  have htype : u'.type = B.job :=
    Eq.trans h₁₂.sketch.plan.type h₈.drafting.fresh.type
  exact ⟨hruns, htype, l, d, loop, g.base, hd, h₁₂.sketch.plan.lambda, hlambda,
    hes₈ ▸ hloop, h₁₂.sketch.world.holds,
    h₁₂.drafting.holding.workspace.method_eq hlt⟩

end Planning

/-- The job has the lambda and a method that calls it for each entity of a
chunk, once and in order, on the job and with what the providers of the
parameters have for that entity. -/
def Plan.VisitsEntities (u : Plan) (W : Workspace) : Prop :=
  ∃ (l loop : MethodId) (r : MethodRef) (b : Body),
    (u.lambda = some l ∧ l ∈ (W.type u.type).methods ∧ W.methodRef? l = some r ∧
      r.name = Planning.lambdaName) ∧
    (loop ∈ (W.type u.type).methods ∧ (W.method loop).name = "IterateEntities" ∧
      (W.method loop).body = some b) ∧
    ∀ E : Loop.Setting, E.count < 2 ^ 31 → Loop.Visits E b r u.elements

namespace Weave

variable {c : Chain} {asStruct : Bool} {V : Workspace}
  {H : List (TypeId × MethodId)}

/-- A plan that is built for a new struct visits every entity. -/
theorem build_visits {u u' : Plan} {w w' : World} {serves : Bool}
    (hstart : Holding (fun v => v.methods = V.methods ∧
      u.type.index < v.types.size) H w)
    (hu : u = { chain := c, type := u.type, closureAsStruct := asStruct,
                servesSystem := serves })
    (him : w.imports.Answers) (hkind : c.kind = .entities)
    (hplain : c.runsStructural = false)
    (hthis : (V.method c.lambda).hasThis = true)
    (hrun : Planning.build u w = .ok ((), u') w') :
    List.Forall₂ Element.RunsFor (V.method c.lambda).params u'.elements ∧
      u'.VisitsEntities w'.workspace := by
  obtain ⟨hmethods, hlt⟩ := hstart.workspace
  have hmethod : w.workspace.method c.lambda = V.method c.lambda := by
    simp only [Workspace.method, Workspace.methodEntry, hmethods]
  let B : Ground :=
    { base := w.workspace, types := u.type.index,
      methods := w.workspace.methods.size,
      types_le := hlt.le, methods_le := Nat.le_refl _, job := u.type,
      types_le_job := Nat.le_refl _, job_lt := hlt, direct := false }
  have hfresh : Fresh B c u := by
    rw [hu]
    exact ⟨rfl, rfl, by simp, by simp, rfl, by simp [B]⟩
  rw [← hmethod] at hthis ⊢
  obtain ⟨hruns, htype, l, d, loop, W, hd, hl, hlambda, hloop, hamends,
      hcode⟩ :=
    Planning.build_run (B := B) rfl rfl ⟨⟨.refl, hstart.hooks, hstart.ordinary⟩,
      hfresh⟩ ⟨him, rfl⟩ hkind hplain hthis hrun
  obtain ⟨r, href, b, hb, hentity⟩ := hloop.code
  have href' : w'.workspace.methodRef? l = some r :=
    (hamends.methodRef?_eq hlambda.lt).trans href
  have hlambda' : w'.workspace.Declares B.job d l :=
    Workspace.Amendable.amend (I := fun W => W.Declares B.job d l)
      _ _ hlambda hamends
  have hr : Loop.IsLambda r u'.elements :=
    hd.isLambda hlambda' href' hruns.length_eq.symm
  have hdeclared : (W.type B.job).methods ⊆ (w'.workspace.type B.job).methods :=
    (hamends.declared B.job).subset
  refine ⟨hruns, l, loop, r, b, ⟨hl, ?_, href', hr.name⟩, ⟨?_, ?_, ?_⟩, ?_⟩
  · exact htype ▸ hlambda'.declared
  · exact htype ▸ hdeclared hloop.declared
  · rw [hcode]
    exact hloop.name
  · rw [hcode]
    exact hb
  · exact fun E hn => hentity.visits hr hn

/-- The job for a chain over entities visits each entity of a chunk once, in
order. -/
theorem synthesize_visits {w w' : World} {u : Plan} (hkind : c.kind = .entities)
    (hplain : c.runsStructural = false)
    (hthis : (w.workspace.method c.lambda).hasThis = true)
    (hordinary : ∀ p ∈ w.imports.methods, p.2.name ∉ sourceNames)
    (himports : w.imports.Answers) (hrun : synthesize c asStruct w = .ok u w') :
    List.Forall₂ Element.RunsFor (w.workspace.method c.lambda).params
      u.elements ∧ u.VisitsEntities w'.workspace := by
  obtain ⟨start, w₁, hmark, hnext⟩ := run_bind_iff.1 hrun
  obtain ⟨taken, w₂, htaken, hnext₂⟩ := run_bind_iff.1 hnext
  cases hmark
  cases htaken
  have hstart : Holding (· = w.workspace) w.hooks w := ⟨rfl, rfl, hordinary⟩
  have hw : w.Has (World.Answers (·.method c.lambda = w.workspace.method
      c.lambda)) :=
    ⟨himports, rfl⟩
  split at hnext₂
  · obtain ⟨_, w₃, hrefuse, -⟩ := run_bind_iff.1 hnext₂
    exact (of_run (Planning.refuse_stops (J := World.Any)) ⟨trivial⟩
      hrefuse).elim
  obtain ⟨serves, w₃, hserves, hnext₃⟩ := run_bind_iff.1 hnext₂
  obtain ⟨u₀, w₄, hplan, hnext₄⟩ := run_bind_iff.1 hnext₃
  obtain ⟨⟨_, u₁⟩, w₅, hbuild, hnext₅⟩ := run_bind_iff.1 hnext₄
  obtain ⟨_, w₆, hrequire, hlast⟩ := run_bind_iff.1 hnext₅
  cases hlast
  have hkeeps : Keeps (· = w.workspace) w.hooks (checkLambdaOnSystem c) :=
    checkLambdaOnSystem_keeps
  have hstart₃ := of_run (P := Holding (· = w.workspace) w.hooks)
    (Q := fun _ => Holding (· = w.workspace) w.hooks) hkeeps hstart hserves
  have hw₃ := of_run (P := fun w => w.Has _) (Q := fun _ w => w.Has _)
    checkLambdaOnSystem_preserves hw hserves
  obtain ⟨hstart₄, hu₀⟩ := of_run startPlan_methods
    (hstart₃.imp fun h => congrArg Workspace.methods h) hplan
  obtain ⟨-, hw₄⟩ := of_run startPlan_answers hw₃ hplan
  obtain ⟨hruns, hvisits⟩ :=
    build_visits hstart₄ hu₀ hw₄.holds.imports hkind hplain hthis hbuild
  let P : World → Prop := World.Has fun w => w.workspace = w₅.workspace
  have hsame : P w' := of_run (P := P) (Q := fun _ => P) requireSince_preserves
    ⟨rfl⟩ hrequire
  have hsame' : w'.workspace = w₅.workspace := hsame.holds
  exact ⟨hruns, hsame' ▸ hvisits⟩

section Samples

open Sample

/-- A lambda gets a component by reference and another one by value. -/
theorem synthesize_visits_components :
    let w := (World.ofModules [queryModule (entityJob [place, speed])
      [{ name := "place", type := place.byRef },
        { name := "speed", type := speed }] [Step.ret] [],
      queryFramework]).1
    ∃ c u w', c.kind = .entities ∧ c.runsStructural = false ∧
      (w.workspace.method c.lambda).hasThis = true ∧
      (∀ p ∈ w.imports.methods, p.2.name ∉ sourceNames) ∧ w.imports.Answers ∧
      synthesize c false w = .ok u w' ∧
      u.elements.map (fun e => (e.param.name, e.provider, e.byRef)) =
        [("place", .component, true), ("speed", .component, false)] ∧
      List.Forall₂ Element.RunsFor (w.workspace.method c.lambda).params
        u.elements ∧
      u.VisitsEntities w'.workspace := by
  rw [queryFramework_eq]
  intro w
  have hrun : delivers (chainsIn ⟨0⟩) w (fun found _ =>
      (found.filterMap Except.toOption).any
        fun c => delivers (synthesize c false) w fun u _ => decide (c.kind =
          .entities ∧ c.runsStructural = false ∧
          (w.workspace.method c.lambda).hasThis = true ∧
          u.elements.map (fun e => (e.param.name, e.provider, e.byRef)) =
            [("place", .component, true), ("speed", .component, false)])) =
              true := by
    decide +kernel
  have hordinary : ∀ p ∈ w.imports.methods, p.2.name ∉ sourceNames := by
    have hnone : w.imports.methods = [] := rfl
    simp [hnone]
  have himports : w.imports.Answers := Imports.answers_empty
  obtain ⟨found, -, -, hfound⟩ := exists_of_delivers hrun
  obtain ⟨c, -, hc⟩ := List.any_eq_true.1 hfound
  obtain ⟨u, w', hsynthesize, htest⟩ := exists_of_delivers hc
  obtain ⟨hkind, hplain, hthis, helements⟩ := of_decide_eq_true htest
  exact ⟨c, u, w', hkind, hplain, hthis, hordinary, himports, hsynthesize,
    helements, synthesize_visits hkind hplain hthis hordinary himports
      hsynthesize⟩

end Samples

end Weave

end JobWeave
