import Mathlib
import JobWeave.Proofs.Plan.Opening
import JobWeave.Proofs.Plan.QueryMachine
import JobWeave.Proofs.Plan.Requests
import JobWeave.Proofs.World.Answers
import JobWeave.Sample.Query

/-!
# The query of a plan is the one that is asked for

The code that a plan gives the creation hook starts with code that makes a
query.  On the machine for such code it leaves a query for which all the
components are listed that are asked for.

* `Chain.Lists` says what the parts of the query list, and `Chain.IsQueryCode`
  that code makes a query with such parts.
* The parts of the code have a lemma each, and `Planning.buildQuery_asks` joins
  them.
* `Weave.synthesize_query`: the code of a plan starts with code for the query of
  its chain.
-/

namespace JobWeave

open Framework Std.Do
open scoped World.Answers Planning.Opening Planning.Requests

set_option mvcgen.warning false

variable {I : Workspace → Prop}

/-! ## The code for parts of the query -/

/-- The call of a library method that makes a component. -/
theorem MethodRef.componentMade?_instantiate {r : MethodRef} {item : QueryItem}
    (hname : r.name = if item.readOnly then "ReadOnly" else "ReadWrite")
    (hparams : r.params.length = 0) :
    (r.instantiate [item.type]).componentMade? = some item := by
  obtain ⟨t, ro⟩ := item
  have hnil : r.params = [] := List.length_eq_zero_iff.1 hparams
  cases ro <;> simp_all [MethodRef.instantiate, MethodRef.componentMade?]

namespace Planning

theorem componentTypes_code {items : List QueryItem} :
    Weave.Yields (World.Answers I) (QueryState.IsArrayCode items)
      (componentTypes items) := by
  have hentry : ∀ (ct : TypeRef) (x : QueryItem × Nat),
      Weave.Yields (World.Answers I) (QueryState.IsEntry x.1 x.2) (do
        let m ← Weave.importMethod ct (if x.1.readOnly then "ReadOnly"
        else "ReadWrite") 0 return [Step.dup, Step.ldcI4 (Int32.ofNat x.2),
        Step.call (m.instantiate [x.1.type]),
          Step.stelem ct]) := by
    intro ct x
    mvcgen
    · cases x.1.readOnly <;> decide
    · rename_i m w hm
      exact ⟨hm.1, _, _, MethodRef.componentMade?_instantiate hm.2.1 hm.2.2,
        rfl⟩
  have hentries := fun ct => Weave.mapM_yields fun x (_ : x ∈ items.zipIdx) =>
    hentry ct x
  unfold componentTypes
  mvcgen [hentries, -Weave.mapM_preserves, -Weave.mapM_keeps]
  all_goals try infer_instance
  rename_i ct w hct parts w' hparts
  exact ⟨hparts.1, ct, parts, hparts.2, rfl⟩

attribute [local spec 30000] componentTypes_code in
theorem queryPart_code {desc : TypeRef} {name : String} {items : List QueryItem}
    (hname : isPlain name) :
    Weave.Yields (World.Answers I) (QueryState.IsPartCode name items)
      (queryPart desc name items) := by
  unfold queryPart
  mvcgen
  · rename_i hempty w hw
    exact ⟨hw, .inl ⟨List.isEmpty_iff.1 hempty, rfl⟩⟩
  · rename_i h
    exact h.1
  · rename_i types _ htypes f _ hf
    exact ⟨hf.1, .inr ⟨types, f, htypes.2, hf.2, rfl⟩⟩

theorem optionsPart_code {desc : TypeRef} {options : Option Int32} :
    Weave.Yields (World.Answers I) QueryState.IsOptionsCode
      (optionsPart desc options) := by
  unfold optionsPart
  mvcgen
  · rename_i hw
    exact ⟨hw, .inl rfl⟩
  · rename_i f _ hf
    exact ⟨hf.1, .inr ⟨_, f, hf.2, rfl⟩⟩

attribute [local spec 30000] componentTypes_code in
theorem filterPart_code {query : FieldRef} {changed : List QueryItem} :
    Weave.Yields (World.Answers I) (QueryState.IsFilterCode query changed)
      (filterPart query changed) := by
  unfold filterPart
  mvcgen
  all_goals try infer_instance
  · rename_i hw
    exact ⟨hw, .inl rfl⟩
  · rename_i h
    exact h.1
  · rename_i types _ htypes _ _ _ set_ _ hset
    exact ⟨hset.1, .inr ⟨types, set_, htypes.2, hset.2, rfl⟩⟩

variable {v₀ : Plan}

theorem queryOptions_finds :
    Finds (World.Answers I) v₀ (fun _ => True) queryOptions := by
  have hmap : ∀ {ms : List Modifier} {f : Modifier → Planning (Option Int32)},
      (∀ m ∈ ms, Finds (World.Answers I) v₀ (fun _ => True) (f m)) →
        Finds (World.Answers I) v₀ (List.Forall₂ (fun _ _ => True) ms)
          (ms.mapM f) :=
    fun h => mapM_inv h
  unfold queryOptions chain
  mvcgen [hmap, -mapM_preserves, -mapM_keeps]
  all_goals grind

namespace QueryCode

attribute [scoped spec 30000] componentTypes_code queryPart_code
    optionsPart_code filterPart_code

end QueryCode

end Planning

/-! ## The query -/

namespace Chain

variable {c : Chain} {requests : List QueryItem}

/-- The parts of the query for a chain, of which one lists what comes of the
requests. -/
structure Lists (c : Chain) (requests all anyOf noneOf : List QueryItem) :
    Prop where
  /-- the components that an entity must have -/
  required : QueryItem.Merges requests all
  /-- those of which it must have one -/
  optional : QueryItem.Merges ((c.typesOf Member.withAny).map .reading) anyOf
  /-- those that it must not have -/
  forbidden : QueryItem.Merges ((c.typesOf Member.withNone).map .reading) noneOf
  /-- no component is asked for that is excluded -/
  excluded : ∀ t ∈ noneOf, ∀ a ∈ all ++ anyOf, ¬ t.type.Same a.type

/-- There are no more requests than a number can count. -/
structure Countable (c : Chain) (requests : List QueryItem) : Prop where
  /-- for components that an entity must have -/
  required : requests.length < 2 ^ 31
  /-- for components of which it must have one -/
  optional : (c.typesOf Member.withAny).length < 2 ^ 31
  /-- for components that it must not have -/
  forbidden : (c.typesOf Member.withNone).length < 2 ^ 31

instance : Decidable (c.Countable requests) :=
  decidable_of_iff (requests.length < 2 ^ 31 ∧
    (c.typesOf Member.withAny).length < 2 ^ 31 ∧
    (c.typesOf Member.withNone).length < 2 ^ 31) ⟨fun h => ⟨h.1, h.2.1, h.2.2⟩,
    fun h => ⟨h.required, h.optional, h.forbidden⟩⟩

/-- The code gives the system the query for the chain. -/
def IsQueryCode (c : Chain) (requests : List QueryItem)
    (code : List Step) : Prop :=
  ∃ all anyOf noneOf, c.Lists requests all anyOf noneOf ∧
    ∀ s : QueryState, ∃ s', s.run code = some s' ∧ s'.stack = s.stack ∧
      s'.Asks ("_" ++ c.name ++ "_entityQuery") all anyOf noneOf

end Chain

namespace Planning

variable {v v₀ : Plan} {requests all : List QueryItem}
  {anyOf noneOf changed : List TypeRef}

/-- The parts that are listed can be counted. -/
theorem length_lt_of_countable {c : Chain} (hcount : c.Countable requests)
    (hlists : c.Lists requests all (anyOf.map .reading) (noneOf.map .reading))
    (hchanged : QueryItem.Merges ((c.typesOf Member.withChangeFilter).map
      .reading) (changed.map .reading)) (hrequired : c.typesRequired.length ≤
      requests.length) :
    ∀ items ∈
      [all, anyOf.map .reading, noneOf.map .reading, changed.map .reading],
      items.length < 2 ^ 31 := by
  have hchange : (c.typesOf Member.withChangeFilter).length ≤
      c.typesRequired.length := by
    simp only [Chain.typesRequired, List.flatMap_cons, List.length_append]
    omega
  have hall := hlists.required.length_le.trans_lt hcount.required
  have hany := hlists.optional.length_le
  have hnone := hlists.forbidden.length_le
  have hchanged := hchanged.length_le
  simp only [List.length_map] at hany hnone hchanged
  simp only [List.forall_mem_cons, List.not_mem_nil, false_imp_iff,
    implies_true, and_true, List.length_map]
  exact ⟨hall, hany.trans_lt hcount.optional, hnone.trans_lt hcount.forbidden,
    (hchanged.trans (hchange.trans hrequired)).trans_lt hcount.required⟩

/-- Code for the parts is code for the query. -/
theorem asks_of_parts {query : FieldRef} {desc : TypeRef}
    {ctor get_ : MethodRef}
    {allCode anyCode noneCode options filter : List Step}
    (hv : v = v₀) (hinit : v₀.init = [])
    (hrequests : received v₀.elements ++ v₀.chain.typesRequired.map .reading =
      requests)
    (hcount : v₀.chain.Countable requests)
    (hall : QueryItem.Merges (received v₀.elements ++ v₀.chain.typesRequired.map
      .reading) all)
    (hany : QueryItem.Merges ((v₀.chain.typesOf Member.withAny).map .reading)
      (anyOf.map .reading))
    (hnone : QueryItem.Merges ((v₀.chain.typesOf Member.withNone).map .reading)
      (noneOf.map .reading))
    (hexcluded : (∀ a ∈ all, ∀ t ∈ noneOf, ¬ t.Same a.type) ∧ ∀ a ∈ anyOf,
      ∀ t ∈ noneOf, ¬ t.Same a)
    (hchanged : QueryItem.Merges ((v₀.chain.typesOf Member.withChangeFilter).map
      .reading) (changed.map .reading))
    (hquery : query.name = "_" ++ v₀.chain.name ++ "_entityQuery")
    (hctor : ctor.params.length = 0)
    (hget : QueryState.IsUnary "GetEntityQuery" get_)
    (hallCode : QueryState.IsPartCode "All" all allCode)
    (hanyCode : QueryState.IsPartCode "Any" (anyOf.map .reading) anyCode)
    (hnoneCode : QueryState.IsPartCode "None" (noneOf.map .reading) noneCode)
    (hoptions : QueryState.IsOptionsCode options)
    (hfilter : QueryState.IsFilterCode query (changed.map .reading) filter) :
    v.type = v₀.type ∧ v₀.chain.IsQueryCode requests (v.init ++
      ([Step.ldarg 0, Step.ldarg 0, Step.ldcI4 1, Step.newarr desc, Step.dup,
          Step.ldcI4 0, Step.newobj ctor] ++
        allCode ++ anyCode ++ noneCode ++ options ++
        [Step.stelemRef, Step.call get_, Step.stfld query] ++ filter ++
        QueryState.storeCode query v₀.chain.storeQuery)) := by
  subst hv
  have hlists : v.chain.Lists requests all (anyOf.map .reading)
      (noneOf.map .reading) := by
    refine ⟨hrequests ▸ hall, hany, hnone, fun t ht a ha => ?_⟩
    obtain ⟨t, ht', rfl⟩ := List.mem_map.1 ht
    rcases List.mem_append.1 ha with ha | ha
    · exact hexcluded.1 a ha t ht'
    · obtain ⟨a, ha', rfl⟩ := List.mem_map.1 ha
      exact hexcluded.2 a ha' t ht'
  have hlength : v.chain.typesRequired.length ≤ requests.length := by
    simp [← hrequests]
  rw [hinit, List.nil_append]
  refine ⟨rfl, all, _, _, hlists, fun s => ?_⟩
  rw [← hquery]
  exact QueryState.run_queryCode (List.length_eq_zero_iff.1 hctor) hget hallCode
    hanyCode hnoneCode hoptions hfilter (length_lt_of_countable hcount hlists
      hchanged hlength)

open scoped QueryCode in
theorem buildQuery_asks (hinit : v₀.init = [])
    (hrequests : received v₀.elements ++ v₀.chain.typesRequired.map .reading =
      requests)
    (hcount : v₀.chain.Countable requests) :
    ⦃fun v w => ⌜v = v₀ ∧ w.Has (World.Answers I)⌝⦄ buildQuery
      ⦃post⟨fun _ v _ => ⌜v.type = v₀.type ∧
        v₀.chain.IsQueryCode requests v.init⌝,
        fun _ w => ⌜w.Has (World.Answers I)⌝⟩⦄ := by
  have hrequired : Finds (World.Answers I) v₀ _ required := required_merges
  have hnamed : ∀ name, Finds (World.Answers I) v₀ _ (modifierTypes name) :=
    fun _ => modifierTypes_merges
  have hcheck : ∀ all anyOf noneOf,
      Finds (World.Answers I) v₀ _ (checkQuery all anyOf noneOf) :=
    fun _ _ _ => checkQuery_excludes
  have hgiven : Finds (World.Answers I) v₀ _ queryOptions := queryOptions_finds
  rw [buildQuery_eq]
  unfold chain
  mvcgen [hrequired, hnamed, hcheck, hgiven, -required_preserves,
    -required_keeps, -modifierTypes_preserves, -modifierTypes_keeps,
    -checkQuery_preserves, -checkQuery_keeps, -queryOptions_preserves,
    -queryOptions_keeps]
  rotate_right
  · rename_i v _ hv all _ _ hall anyOf _ _ hany noneOf _ _ hnone _ _ _ hexcluded
      _ _ _ _ query _ _
      _ _ changed _ _ hchanged desc _ _ base _ _ ctor _ hctor _ _ hallCode
        _ _ hanyCode _ _ hnoneCode
      _ _ hoptions get_ _ hget _ _ hfilter _ _
    obtain rfl : v = v₀ := hv.1
    exact asks_of_parts hchanged.1.1 hinit hrequests hcount hall.2 hany.2
      hnone.2 hexcluded.2 hchanged.2 rfl hctor.2.2 hget.2 hallCode.2 hanyCode.2
        hnoneCode.2 hoptions.2 hfilter.2
  all_goals first | infer_instance | grind -ring -linarith

end Planning

/-! ## The whole plan -/

namespace Planning

variable {v₀ : Plan} {requests : List QueryItem} {d : MethodDef}

variable {needed : Bool}

/-- The elements, once they are known, ask for what the parameters do. -/
@[local spec 50000]
theorem classified_asks (hneeded : needed = (v₀.chain.kind == .entities))
    (hd : ∀ w, I w → w.method v₀.chain.lambda = d)
    (helements : v₀.elements = []) :
    ⦃fun v w => ⌜v = v₀ ∧ w.Has (World.Answers I)⌝⦄ part needed classifyParams
      ⦃post⟨fun _ v w => ⌜∃ es, v = { v₀ with elements := es } ∧
        w.Has (World.Answers I) ∧
          received es ++ v₀.chain.typesRequired.map .reading = v₀.chain.requests
            d.params⌝,
        fun _ _ => ⌜True⌝⟩⦄ := by
  have hclassify := classifyParams_asks (J := World.Answers I)
    fun w hw => hd _ hw.workspace
  subst hneeded
  unfold part
  mvcgen [hclassify, -classifyParams_preserves, -classifyParams_keeps]
  · rename_i hkind _ _ _ _ _ _
    rintro ⟨es, hv, hw, hes⟩
    refine ⟨es, hv, hw, ?_⟩
    rw [hes, Chain.requests, if_pos (eq_of_beq hkind)]
  · rename_i hkind _ _ h
    obtain ⟨rfl, hw⟩ := h
    refine ⟨_, rfl, hw, ?_⟩
    rw [helements, Chain.requests, if_neg fun h => hkind (beq_iff_eq.2 h)]
    rfl

/-- The query is made whatever the elements are that ask for it. -/
@[local spec 50000]
theorem query_asks (hneeded : needed = (v₀.chain.kind != .job))
    (hkind : v₀.chain.kind ≠ .job) (hinit : v₀.init = [])
    (hcount : v₀.chain.Countable requests) :
    ⦃fun v w => ⌜∃ es, v = { v₀ with elements := es } ∧
        w.Has (World.Answers I) ∧
        received es ++ v₀.chain.typesRequired.map .reading = requests⌝⦄
      part needed buildQuery
      ⦃post⟨fun _ v w => ⌜Sketch World.Any
          (.opening v₀.type (v₀.chain.IsQueryCode requests)) v w⌝,
        fun _ _ => ⌜True⌝⟩⦄ := by
  have hbuild : ∀ es,
      received es ++ v₀.chain.typesRequired.map .reading = requests →
      ⦃fun v w => ⌜v = { v₀ with elements := es } ∧ w.Has (World.Answers I)⌝⦄
        part needed buildQuery
        ⦃post⟨fun _ v w => ⌜Sketch World.Any
            (.opening v₀.type (v₀.chain.IsQueryCode requests)) v w⌝,
          fun _ _ => ⌜True⌝⟩⦄ := by
    intro es hes
    have hquery := @buildQuery_asks I { v₀ with elements := es } requests hinit
      hes hcount
    unfold part
    mvcgen [hquery, -buildQuery_keeps]
    · intro htype hcode
      exact ⟨⟨trivial⟩, htype, ⟨_, [], (List.append_nil _).symm, hcode⟩,
        trivial, trivial, trivial, trivial, trivial⟩
    · rename_i hnot _ _ _
      exact absurd (hneeded.trans (bne_iff_ne.2 hkind)) hnot
  rintro v w ⟨es, hv, hw, hes⟩
  exact hbuild es hes v w ⟨hv, hw⟩

theorem build_asks (hd : ∀ w, I w → w.method v₀.chain.lambda = d)
    (helements : v₀.elements = []) (hinit : v₀.init = [])
    (hkind : v₀.chain.kind ≠ .job)
    (hcount : v₀.chain.Countable (v₀.chain.requests d.params)) :
    ⦃fun v w => ⌜v = v₀ ∧ w.Has (World.Answers I)⌝⦄ build
      ⦃post⟨fun _ v w => ⌜Sketch World.Any (.opening v₀.type
          (v₀.chain.IsQueryCode (v₀.chain.requests d.params))) v w⌝,
        fun _ _ => ⌜True⌝⟩⦄ := by
  unfold build
  mvcgen
  case vc9.requests => exact v₀.chain.requests d.params
  all_goals first
    | (intros; infer_instance)
    | exact id
    | grind

end Planning

namespace Weave

variable {c : Chain} {asStruct : Bool} {d : MethodDef}

/-- A plan starts without elements and without code. -/
theorem startPlan_answers {serves : Bool} :
    ⦃fun w => ⌜w.Has (World.Answers (·.method c.lambda = d))⌝⦄ startPlan c
      asStruct serves
      ⦃post⟨fun u w => ⌜(u.chain = c ∧ u.elements = [] ∧ u.init = []) ∧
          w.Has (World.Answers (·.method c.lambda = d))⌝,
          fun _ _ => ⌜True⌝⟩⦄ := by
  mvcgen [startPlan, addToWorkspace, modifyWorkspace, -startPlan_spec]
  all_goals try infer_instance
  all_goals
    have hw := ‹World.Has _ _›.holds
    exact ⟨trivial, ⟨⟨hw.imports, hw.workspace⟩⟩⟩

/-- The code for the creation hook makes the query that the chain asks for. -/
theorem synthesize_asks (hkind : c.kind ≠ .job)
    (hcount : c.Countable (c.requests d.params)) :
    ⦃fun w => ⌜w.Has (World.Answers (·.method c.lambda = d))⌝⦄ synthesize c
      asStruct
      ⦃post⟨fun u _ => ⌜∃ code rest, u.init = code ++ rest ∧
          c.IsQueryCode (c.requests d.params) code⌝, fun _ _ => ⌜True⌝⟩⦄ := by
  have hstart : ∀ serves, _ :=
    fun serves => @startPlan_answers c asStruct d serves
  have hbuild : ∀ u₀ : Plan, u₀.chain = c ∧ u₀.elements = [] ∧ u₀.init = [] →
      ⦃fun w => ⌜w.Has (World.Answers (·.method c.lambda = d))⌝⦄
        (Planning.build u₀ : Weave (Unit × Plan))
        ⦃post⟨fun r _ => ⌜∃ code rest, r.2.init = code ++ rest ∧
            c.IsQueryCode (c.requests d.params) code⌝, fun _ _ => ⌜True⌝⟩⦄ := by
    rintro u₀ ⟨rfl, helements, hinit⟩
    refine Ends.triple fun w hw => ?_
    exact (Ends.of_triple (Planning.build_asks (fun _ => id) helements hinit
      hkind hcount u₀) ⟨rfl, hw⟩).imp (fun _ _ h => h.plan.init)
        fun _ _ _ => trivial
  have hrequire : ∀ start, Preserves World.Any (requireSince start c) :=
    fun _ => preserves_any
  mvcgen [synthesize, hstart, hbuild, hrequire, -synthesize_spec,
    -startPlan_spec, -Planning.build_spec, -requireSince_keeps,
    -requireSince_preserves]
  all_goals first
    | infer_instance
    | exact ⟨trivial⟩
    | grind

/-- What the code for the creation hook starts with makes the query that the
chain asks for: one whose parts list what the parameters of its lambda and its
modifiers name, each once, and of which none excludes what another asks for. -/
theorem synthesize_query {w w' : World} {u : Plan} (hkind : c.kind ≠ .job)
    (himports : w.imports.Answers)
    (hcount : c.Countable (c.requests (w.workspace.method c.lambda).params))
    (hrun : synthesize c asStruct w = .ok u w') :
    ∃ code rest, u.init = code ++ rest ∧
      c.IsQueryCode (c.requests (w.workspace.method c.lambda).params) code := by
  have hends := triple_iff.1 (@synthesize_asks c asStruct _ hkind hcount) w
    ⟨⟨himports, rfl⟩⟩
  rw [hrun] at hends
  exact hends

section Samples

open Sample

/-- A lambda writes a component that `WithAll` names too, with another one. -/
theorem synthesize_query_entities :
    let calls := [namesComponents (Ref.description TypeName.forEachDescription)
      Member.withAll [place, speed]]
    let w := (World.ofModules [queryModule (entityJob [place])
      [{ name := "place", type := place.byRef }] [Step.ret] calls,
      queryFramework]).1
    ∃ c u w', c.kind ≠ .job ∧ w.imports.Answers ∧
      c.Countable (c.requests (w.workspace.method c.lambda).params) ∧
      synthesize c false w = .ok u w' ∧
      (c.requests (w.workspace.method c.lambda).params).map
        (fun r => (r.type.simpleName, r.readOnly)) =
          [("Place", false), ("Place", true), ("Speed", true)] ∧
      ∃ code rest, u.init = code ++ rest ∧
        c.IsQueryCode (c.requests (w.workspace.method c.lambda).params)
          code := by
  rw [queryFramework_eq]
  intro calls w
  have hrun : delivers (chainsIn ⟨0⟩) w (fun found _ =>
      (found.filterMap Except.toOption).any
        fun c => delivers (synthesize c false) w
          fun _ _ => decide (c.kind ≠ .job ∧
            c.Countable (c.requests (w.workspace.method c.lambda).params) ∧
          (c.requests (w.workspace.method c.lambda).params).map
            (fun r => (r.type.simpleName, r.readOnly)) =
            [("Place", false), ("Place", true), ("Speed", true)])) = true := by
    decide +kernel
  have himports : w.imports.Answers := Imports.answers_empty
  obtain ⟨found, -, -, hfound⟩ := exists_of_delivers hrun
  obtain ⟨c, -, hc⟩ := List.any_eq_true.1 hfound
  obtain ⟨u, w', hsynthesize, htest⟩ := exists_of_delivers hc
  obtain ⟨hkind, hcount, hrequests⟩ := of_decide_eq_true htest
  exact ⟨c, u, w', hkind, himports, hcount, hsynthesize, hrequests,
    synthesize_query hkind himports hcount hsynthesize⟩

/-- A lambda over chunks may have a component among its parameters, and its
query lists nothing. -/
theorem synthesize_chunks_lists_nothing :
    let params : List ParamDef :=
      [{ name := "chunk", type := Ref.chunk },
        { name := "place", type := place.byRef },
        { name := "index", type := .int32 }]
    let w := (World.ofModules [queryModule chunkJob params [Step.ret] [],
      queryFramework]).1
    ∃ c u w' code rest s d, synthesize c false w = .ok u w' ∧ c.kind = .chunk ∧
      (w.workspace.method c.lambda).params.map (·.type.name?) =
        [some "Unity.Entities.ArchetypeChunk", some "Game.Place&",
          some "System.Int32"] ∧
      u.init = code ++ rest ∧ ({} : QueryState).run code = some s ∧
      s.description? ("_" ++ c.name ++ "_entityQuery") = some d ∧
      ∃ all, s.listed? d "All" = some all ∧ ∀ a ∈ all, ¬ a.type.Same place := by
  rw [queryFramework_eq]
  intro params w
  have hrun : delivers (chainsIn ⟨0⟩) w (fun found _ =>
      (found.filterMap Except.toOption).any
        fun c => delivers (synthesize c false) w
          fun u _ => (({} : QueryState).run (u.init.take 10)).any fun s =>
          (s.description? ("_" ++ c.name ++ "_entityQuery")).any fun d =>
            (s.listed? d "All").any fun all =>
              decide (c.kind = .chunk ∧ all.length = 0 ∧
                (w.workspace.method c.lambda).params.map (·.type.name?) =
                  [some "Unity.Entities.ArchetypeChunk", some "Game.Place&",
                    some "System.Int32"])) = true := by
    decide +kernel
  obtain ⟨found, -, -, hfound⟩ := exists_of_delivers hrun
  obtain ⟨c, -, hc⟩ := List.any_eq_true.1 hfound
  obtain ⟨u, w', hsynthesize, hu⟩ := exists_of_delivers hc
  obtain ⟨s, hs, hs'⟩ := (Option.any_eq_true _ _).1 hu
  obtain ⟨d, hd, hd'⟩ := (Option.any_eq_true _ _).1 hs'
  obtain ⟨all, hall, htest⟩ := (Option.any_eq_true _ _).1 hd'
  obtain ⟨hkind, hnone, hparams⟩ := of_decide_eq_true htest
  refine ⟨c, u, w', _, _, s, d, hsynthesize, hkind, hparams,
    (List.take_append_drop 10 _).symm, hs, hd, all, hall, ?_⟩
  rw [List.length_eq_zero_iff.1 hnone]
  simp

end Samples

end Weave

end JobWeave
