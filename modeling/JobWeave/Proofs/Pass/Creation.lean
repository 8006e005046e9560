import Mathlib
import JobWeave.Proofs.Pass.Filling
import JobWeave.Proofs.Pass.Module

/-!
# The creation hooks of a module

After the pass over a module the hook of every system builds what the reported
jobs of the system need, in the order of the report, and nothing else.  Work
that was undone has left nothing in it.
-/

namespace JobWeave

open Framework Std.Do

set_option mvcgen.warning false

variable {V W : Workspace} {mods : List ModuleId} {w w' : World}
  {home : ModuleId}
variable {ts : List TypeId} {p : PassState} {s : Settings} {ms : List Module}

/-- Where a module was loaded and nothing imported, the world can be trusted. -/
theorem World.trusts_ofModules
    (h : ∀ name ∈ creationTypes, (World.ofModules ms).1.workspace.FindsBuiltIn
      mods name) :
    World.Trusts (World.ofModules ms).1.workspace mods
      (World.afresh { (World.ofModules ms).1 with
        resolver := .ofModules (World.ofModules ms).1.workspace mods }) where
  grounds := ⟨Workspace.tidy_loadAll ms, h⟩
  develops := .refl _
  retains := .refl _
  modules := rfl
  found := fun _ _ => rfl
  types := fun _ _ r hr => by cases hr
  methods := fun _ _ m hm => by cases hm

/-- Looking for the systems of a module is a look-up. -/
theorem Weave.systemsOf_preserves {J : World → Prop} [World.Resolving J]
    (home : ModuleId) :
    Preserves J (systemsOf home) := by
  unfold systemsOf isComponentSystem inheritsFrom
  mvcgen [-resolver_trusts]

namespace Pass

/-- The pass hands the method of a batch over. -/
theorem Batch.From.handsOver {b : Batch} (h : b.From s ts p)
    (hp : Starts home w ts p) :
    ∃ hook q, HandsOver s home w b.system b.method hook q ∧ b.Of s q.world := by
  obtain ⟨q, hook, w₁, hreach, hhook, -, q₁, ⟨⟨before, after, hms, hrun⟩, hbody,
    hsources⟩, hb⟩ := h
  exact ⟨hook, q₁, ⟨⟨ts, p, q, w₁, before, after, hp, hreach, hhook, hms, hrun⟩,
    hbody, hsources⟩, hb⟩

end Pass

namespace Weave

/-- From the world on, the pass over a module fills the hooks.  The hook of
every system that got one calls the hook of the base class, builds what the
reported jobs of the system need, once each and in the order of the report, and
returns; the checks pass on it.  The jobs of a batch are those of the plans that
one attempt at a method gave, in the state in which the method was handed
over. -/
def FillsHooks (s : Settings) (home : ModuleId) (w : World) (r : Report)
    (w' : World) : Prop :=
  ∃ ts p, Pass.Starts home w ts p ∧
    ∃ bs : List Pass.Batch, r.jobs = bs.flatMap (·.jobs) ∧
      (∀ b ∈ bs, ∃ hook q, Pass.HandsOver s home w b.system b.method hook q ∧
        b.Of s q.world) ∧
      ∀ t q hook w₁, Pass.Reaches s ts p t q → hookOf t q.world = .ok hook w₁ →
        ∃ b, (w'.workspace.method hook).body = some b ∧
          b.steps = Step.inherited (q.world.workspace.type t).head.base ++
            Plan.initAll (Pass.plansFor bs t) ++ [Step.ret] ∧
          ∀ name, (w'.workspace.method hook).validate name b = .ok ()

/-- After the pass over a module the hooks hold what the reported jobs need, and
nothing else. -/
theorem process_fills (s : Settings) (ms : List Module) (mods : List ModuleId)
    (home : ModuleId) (r : Report) (result : Except Failure Unit) (w' : World)
    (hbuiltIn : ∀ name ∈ creationTypes,
      (World.ofModules ms).1.workspace.FindsBuiltIn mods name)
    (h : process s home { (World.ofModules ms).1 with
      resolver := .ofModules (World.ofModules ms).1.workspace mods } =
        .ok (r, result) w') :
    FillsHooks s home { (World.ofModules ms).1 with
      resolver := .ofModules (World.ofModules ms).1.workspace mods } r w' := by
  have htidy : ({ (World.ofModules ms).1 with
      resolver := .ofModules (World.ofModules ms).1.workspace mods } :
          World).workspace.Tidy :=
    Workspace.tidy_loadAll ms
  obtain ⟨w₁, hrun, hws⟩ := process_eq_ok h
  obtain ⟨ts, p, q, hstart, hsystems, rfl, rfl⟩ := processSystems_eq_ok hrun
  obtain ⟨hpending, hp⟩ := hstart.pending htidy
  have htrusts : p.world.Trusts (World.ofModules ms).1.workspace mods := by
    have hends := Ends.of_triple (systemsOf_preserves home)
      (World.Has.mk (World.trusts_ofModules hbuiltIn))
    rw [Ends, hstart.systems] at hends
    exact hends.holds
  have hends := Pass.processSystems_fills s ts [] (by simpa using hpending)
    hp htrusts
  rw [Ends, hsystems] at hends
  obtain ⟨-, bs, ds, hreport, hbs, hhooks⟩ := hends
  rw [hstart.report] at hreport
  refine ⟨ts, p, hstart, bs, by simp [hreport, Report.extend],
    fun b hb => (hbs b hb).2.handsOver hstart,
    fun t q₁ hook w hreach hhook => ?_⟩
  rw [hws]
  obtain ⟨b, hb, hsteps, -⟩ := (hhooks t q₁ hook w hreach hhook).validate ""
  refine ⟨b, hb, hsteps, fun name => ?_⟩
  obtain ⟨b', hb', -, hvalid⟩ := (hhooks t q₁ hook w hreach hhook).validate name
  rw [hb] at hb'
  cases hb'
  exact hvalid

/-- A module whose system runs a single job at once, with what it needs of the
framework. -/
def directModules : List Module :=
  [Sample.tickModule TypeName.systemBase Sample.runSteps, Sample.tickFramework,
    Sample.directFramework]

/-- The world of that module. -/
def directWorld : World := (World.ofModules directModules).1

set_option maxRecDepth 200000 in
/-- The names of the types for creation resolve to the definitions of the
framework. -/
theorem creationTypes_direct :
    (creationTypes.map fun name => ((Universe.buildIndex directWorld.workspace
        directWorld.resolver.modules).lookup name).map fun t =>
      ((directWorld.workspace.type t).head,
        (directWorld.workspace.type t).methods.map
          directWorld.workspace.method)) =
        creationTypes.map fun name => (definition? name).map
            fun d => (d.head, d.methods) := by
  rw [directWorld, directModules, Sample.tickFramework_eq,
    Sample.directFramework_eq]
  rfl

theorem findsBuiltIn_direct :
    ∀ name ∈ creationTypes,
      directWorld.workspace.FindsBuiltIn directWorld.resolver.modules name := by
  intro name hname
  have heq := List.map_inj_left.1 creationTypes_direct name hname
  obtain ⟨c, hc, rfl⟩ := List.mem_map.1 (List.mem_eraseDups.1 hname)
  have hdeclared := LibraryCall.isDeclared_of_mem c hc
  cases hdef : definition? c.type with
  | none => simp [LibraryCall.isDeclared, hdef] at hdeclared
  | some d =>
    rw [hdef, Option.map_some, Option.map_eq_some_iff] at heq
    obtain ⟨t, ht, heq⟩ := heq
    obtain ⟨hhead, hmethods⟩ := Prod.mk.inj heq
    exact ⟨t, d, ht, hdef, hhead, hmethods⟩

/-- The hook of a system builds what its one job needs. -/
theorem process_fills_direct :
    (∀ name ∈ creationTypes,
      directWorld.workspace.FindsBuiltIn directWorld.resolver.modules name) ∧
    ∃ r result w', process {} ⟨0⟩ directWorld = .ok (r, result) w' ∧
    r.jobs.length = 1 ∧
      FillsHooks {} ⟨0⟩ directWorld r w' := by
  have hrun : delivers (process {} ⟨0⟩) directWorld
      (fun a _ => a.1.jobs.length == 1) = true := by
    rw [directWorld, directModules, Sample.tickFramework_eq,
      Sample.directFramework_eq]
    decide +kernel
  obtain ⟨⟨r, result⟩, w', hprocess, htest⟩ := exists_of_delivers hrun
  exact ⟨findsBuiltIn_direct, r, result, w', hprocess, beq_iff_eq.1 htest,
    process_fills {} directModules directWorld.resolver.modules ⟨0⟩ r result w'
      findsBuiltIn_direct hprocess⟩

end Weave

end JobWeave
