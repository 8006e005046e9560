import Mathlib
import JobWeave.Proofs.World.Reading

/-!
# Replacing chains preserves properties of worlds

A chain is replaced by changes of code alone, so this preserves what look-ups
and such changes do.  Converting closures also makes value types of closures;
that these changes preserve the property is asked for.
-/

namespace JobWeave

open Framework Std.Do

set_option mvcgen.warning false

variable {J : World → Prop} [World.Searchable J] [World.Codable J]
variable {m : MethodId} {b : Body} {u : Plan}

namespace Weave

/-! ## Call sites -/

omit [World.Searchable J] [World.Codable J] in
@[spec 20000]
theorem requireEffect_preserves {call : Label} {name : String}
    {want got : Int} :
    Preserves J (requireEffect m call name want got) := by
  unfold requireEffect
  mvcgen

omit [World.Codable J] in
@[spec 20000]
theorem sharedFilter_preserves {c : Chain} {mod : Modifier} :
    Preserves J (sharedFilter c mod) := by
  unfold sharedFilter
  mvcgen

omit [World.Codable J] in
@[spec 20000]
theorem modifierSteps_preserves {mod : Modifier} {want : Int} :
    Preserves J (modifierSteps u mod want) := by
  unfold modifierSteps
  mvcgen

@[spec 20000]
theorem eraseModifier_preserves {mod : Modifier} :
    Preserves J (eraseModifier u mod) := by
  unfold eraseModifier
  mvcgen
  all_goals exact fun _ _ => inferInstance

omit [World.Codable J] in
@[spec 20000]
theorem executionMethod_preserves : Preserves J (executionMethod u) := by
  unfold executionMethod
  mvcgen
  all_goals split <;> decide

omit [World.Codable J] in
@[spec 20000]
theorem loadRunDelegate_preserves {e : Emitter} :
    Preserves J (loadRunDelegate u e) := by
  unfold loadRunDelegate
  mvcgen

omit [World.Searchable J] [World.Codable J] in
@[spec 20000]
theorem loadClosure_preserves {closure : Option LocalRef} :
    Preserves J (loadClosure u closure) := by
  unfold loadClosure
  mvcgen

omit [World.Searchable J] in
@[spec 20000]
theorem addLocal_preserves {type : TypeRef} :
    Preserves J (addLocal m type) := by
  unfold addLocal
  mvcgen

@[spec 20000]
theorem takeHandle_preserves {system : TypeRef} {implicit : Bool}
    {e : Emitter} :
    Preserves J (takeHandle u system implicit e) := by
  unfold takeHandle
  mvcgen

@[spec 20000]
theorem prepareJob_preserves {system : TypeRef} {e : Emitter} :
    Preserves J (prepareJob u system e) := by
  unfold prepareJob
  mvcgen

omit [World.Searchable J] [World.Codable J] in
@[spec 20000]
theorem loadQuery_preserves {e : Emitter} : Preserves J (loadQuery u e) := by
  unfold loadQuery
  mvcgen

omit [World.Codable J] in
@[spec 20000]
theorem handOver_preserves {target : MethodRef} {job handle : LocalRef}
    {e : Emitter} :
    Preserves J (handOver u target job handle e) := by
  unfold handOver
  mvcgen

omit [World.Codable J] in
@[spec 20000]
theorem keepHandle_preserves {system : TypeRef} {handle : LocalRef}
    {e : Emitter} :
    Preserves J (keepHandle system handle e) := by
  unfold keepHandle
  mvcgen

omit [World.Searchable J] [World.Codable J] in
@[spec 20000]
theorem copyBack_preserves {job : LocalRef} {e : Emitter} :
    Preserves J (copyBack u job e) := by
  unfold copyBack
  mvcgen

@[spec 20000]
theorem executionCode_preserves : Preserves J (executionCode u) := by
  unfold executionCode
  mvcgen

@[spec 20000]
theorem spliceTerminal_preserves : Preserves J (spliceTerminal u) := by
  unfold spliceTerminal
  mvcgen
  all_goals exact fun _ _ => inferInstance

@[spec 20000]
theorem replaceChain_preserves : Preserves J (replaceChain u) := by
  unfold replaceChain
  mvcgen
  all_goals exact fun _ _ => inferInstance

@[spec 20000]
theorem splice_preserves : Preserves J (splice u) := by
  unfold splice
  mvcgen
  all_goals exact fun _ _ => inferInstance

/-! ## Closures -/

omit [World.Searchable J] in
@[spec 20000]
theorem markReferences_preserves {names : List String} :
    Preserves J (markReferences m b names) := by
  unfold markReferences
  mvcgen

omit [World.Searchable J] in
theorem convertSites_preserves {sites : List AllocationSite}
    (hmake : ∀ s ∈ sites, Preserves J (makeValueType s.closure)) :
    Preserves J (convertSites m b sites) := by
  have hclosures : ∀ t ∈ (sites.map (·.closure)).eraseDups,
      Preserves J (makeValueType t) := by
    intro t ht
    rw [List.mem_eraseDups] at ht
    obtain ⟨s, hs, rfl⟩ := List.mem_map.1 ht
    exact hmake s hs
  unfold convertSites
  mvcgen [-makeValueType_frame]
  all_goals first
    | exact hclosures _ ‹_›
    | exact fun _ _ => inferInstance

omit [World.Codable J] in
/-- What is found is a closure by its name. -/
theorem closureClass?_yields {R : TypeId → Prop} {r : TypeRef}
    (hR : ∀ w t, World.Has J w → (w.workspace.type t).head.isClosure → R t) :
    Yields J (fun o => ∀ t, o = some t → R t) (closureClass? r) := by
  unfold closureClass?
  mvcgen
  all_goals grind -ring -linarith [TypeHead.isClosure]

omit [World.Searchable J] [World.Codable J] in
/-- A refusal has no result. -/
theorem refuse_yields {α : Type} {c : Code} {l : Option Label}
    {args : List Text.Arg} :
    Yields J (fun _ => False) (refuse c m l args : Weave α) := by
  unfold refuse
  mvcgen

omit [World.Codable J] in
theorem allocationAt_yields {R : TypeId → Prop} {i : Instr}
    (hR : ∀ w t, World.Has J w → (w.workspace.type t).head.isClosure → R t) :
    Yields J (fun o => ∀ s, o = some s → R s.closure) (allocationAt m b i) := by
  have hclosure := fun r => closureClass?_yields (r := r) hR
  unfold allocationAt
  mvcgen [hclosure, refuse_yields, -closureClass?_preserves,
    -closureClass?_keeps, -refuse_preserves, -refuse_gives]
  all_goals grind

omit [World.Codable J] in
theorem allocationSites_yields {R : TypeId → Prop}
    (hR : ∀ w t, World.Has J w → (w.workspace.type t).head.isClosure → R t) :
    Yields J (fun ss => ∀ s ∈ ss, R s.closure) (allocationSites m b) := by
  have hsites : Yields J (List.Forall₂ (fun _ o => ∀ s, o = some s →
    R s.closure) b.code)
      (b.code.mapM (allocationAt m b)) :=
    mapM_yields fun _ _ => allocationAt_yields hR
  unfold allocationSites
  mvcgen [hsites, -mapM_preserves, -mapM_keeps]
  rename_i r w hr
  refine ⟨hr.1, fun s hs => ?_⟩
  obtain ⟨o, ho, rfl⟩ := List.mem_filterMap.1 hs
  obtain ⟨k, hk, hsite⟩ := List.mem_iff_getElem.1 ho
  exact hr.2.get (hr.2.length_eq ▸ hk) hk s hsite

/-- Converting closures preserves what making value types of them does. -/
theorem convertClosures_preserves
    (hmake : ∀ w t, World.Has J w → (w.workspace.type t).head.isClosure →
      Preserves J (makeValueType t)) : Preserves J (convertClosures m) := by
  have hsites := fun b => allocationSites_yields (m := m) (b := b) hmake
  unfold convertClosures
  mvcgen [hsites, convertSites_preserves, -allocationSites_keeps,
    -convertSites_frame, -makeValueType_frame]
  · rename_i hr
    exact hr.1
  · exact fun _ _ => inferInstance
  · rename_i hr site hsite
    exact hr.2 site hsite

end Weave

end JobWeave
