import Mathlib
import JobWeave.Proofs.Pass.Development
import JobWeave.Proofs.Pass.Module
import JobWeave.Proofs.Workspace.Lineage
import JobWeave.Proofs.Workspace.Walks

/-!
# Processing a module again

After the pass every system has a creation hook, so another pass refuses each of
them and changes nothing.  It comes to the same systems as long as nothing that
may be taken for a struct derives from the base class of systems.

* `Weave.systemsOf_run`: the systems of a module are found without a change.
* `Weave.systems_eq`: they are the same after the pass.
* `Pass.processSystems_refused`: systems with hooks are refused, one diagnostic
  each.
* `Weave.process_again`: a second pass changes nothing and reports no jobs.
-/

namespace JobWeave

open Framework

/-! ## The systems of a module -/

namespace Workspace

variable {V w : Workspace} {mods : List ModuleId} {home : ModuleId}
  {S : Set MethodId}

/-- The type is a component system, as far as a universe over the modules can
tell. -/
def isSystem (w : Workspace) (mods : List ModuleId) (t : TypeId) : Bool :=
  let e := w.type t
  !(e.head.ns == Ns.entities && e.outer.isNone) &&
    (Universe.ofModules w mods).inheritsFrom w (some t) Ns.entities
      TypeName.componentSystemBase

/-- The component systems of a module, outer types first. -/
def systems (w : Workspace) (mods : List ModuleId) (home : ModuleId) :
    List TypeId :=
  (w.typesOf home).filter (w.isSystem mods)

/-- A type is a system after the pass if it was one before. -/
theorem Develops.isSystem_eq (h : V.Develops w) (hV : V.Tidy)
    (hapart : (Universe.ofModules V mods).Apart V Ns.entities
      TypeName.componentSystemBase)
    {t : TypeId} (hhome : home ∈ mods) (ht : t ∈ V.typesOf home) :
    w.isSystem mods t = V.isSystem mods t := by
  have hages := h.old t (hV.lt_of_mem_typesOf ht)
  have hindex : (V.typeName t, t) ∈ Universe.buildIndex V mods :=
    List.mem_flatMap.2 ⟨home, hhome, List.mem_map.2 ⟨t, ht, rfl⟩⟩
  simp only [isSystem, hages.ns, hages.outer]
  rw [Universe.inheritsFrom_eq h hV hapart (by decide) (by decide) hindex]

/-- The systems of a module are the same after the pass. -/
theorem Develops.systems_eq (h : V.Develops w) (hV : V.Tidy)
    (hapart : (Universe.ofModules V mods).Apart V Ns.entities
      TypeName.componentSystemBase)
    (hhome : home ∈ mods) : w.systems mods home = V.systems mods home := by
  have hold : ∀ t ∈ w.typesOf home, w.isSystem mods t = true →
      V.hasType t = true := by
    intro t ht hsystem
    by_contra hnew
    -- an added type is a struct
    have hle : V.types.size ≤ t.index := Nat.le_of_not_lt fun hlt =>
      hnew (hasType_iff.2 hlt)
    have hstranger : Universe.Stranger V w mods Ns.entities
        TypeName.componentSystemBase t :=
      .inl ⟨hle, h.lt_of_mem_typesOf hV ht⟩
    have hfalse := hstranger.inheritsFrom_eq_false h hV hapart (by decide)
      (by decide)
    simp [isSystem, hfalse] at hsystem
  calc (w.typesOf home).filter (w.isSystem mods)
      = (w.typesOf home).filter fun t => w.isSystem mods t && V.hasType t :=
        List.filter_congr fun t ht => by
          cases hsystem : w.isSystem mods t with
          | false => rfl
          | true => rw [hold t ht hsystem]; rfl
    _ = ((w.typesOf home).filter V.hasType).filter (w.isSystem mods) :=
        List.filter_filter.symm
    _ = (V.typesOf home).filter (w.isSystem mods) := by rw [h.filter_typesOf hV]
    _ = (V.typesOf home).filter (V.isSystem mods) :=
        List.filter_congr fun t ht => h.isSystem_eq hV hapart hhome ht

end Workspace

/-- The world with a universe over some modules. -/
def World.over (w : World) (mods : List ModuleId) : World :=
  { w with resolver := .ofModules w.workspace mods }

namespace Weave

variable {mods : List ModuleId} {home : ModuleId} {w w' : World}

/-- Over a universe that is up to date the test for systems changes nothing. -/
theorem isComponentSystem_run (hw : w.resolver = .ofModules w.workspace mods)
    (t : TypeId) :
    isComponentSystem t w = .ok (w.workspace.isSystem mods t) w := by
  have hresolver : resolver w = .ok (.ofModules w.workspace mods) w := by
    simp only [resolver, modifyGet, MonadStateOf.modifyGet, EStateM.modifyGet]
    rw [hw, Universe.refresh_ofModules, ← hw]
  have hinherits : ∀ ns name, inheritsFrom (some t) ns name w =
      .ok ((Universe.ofModules w.workspace mods).inheritsFrom w.workspace
        (some t) ns name) w := by
    intro ns name
    simp only [inheritsFrom, bind, EStateM.bind, hresolver]
    rfl
  have hentry : typeEntry t w = .ok (w.workspace.type t) w := rfl
  simp only [isComponentSystem, bind, EStateM.bind, hentry, Workspace.isSystem]
  cases hframework : (w.workspace.type t).head.ns == Ns.entities &&
      (w.workspace.type t).outer.isNone with
  | true => rfl
  | false =>
    simp only [Bool.false_eq_true, if_false, hinherits]
    rfl

/-- The systems of a module are found, and nothing changes. -/
theorem systemsOf_run (hw : w.resolver = .ofModules w.workspace mods)
    (home : ModuleId) :
    systemsOf home w = .ok (w.workspace.systems mods home) w := by
  have hfilter : ∀ ts acc : List TypeId, ts.filterAuxM isComponentSystem acc w =
      .ok ((ts.filter (w.workspace.isSystem mods)).reverse ++ acc) w := by
    intro ts
    induction ts with
    | nil => exact fun acc => rfl
    | cons t ts ih =>
      intro acc
      simp only [List.filterAuxM, bind, EStateM.bind,
        isComponentSystem_run hw, ih, List.filter_cons]
      cases w.workspace.isSystem mods t <;> simp
  have hworkspace : workspace w = .ok w.workspace w := rfl
  simp only [systemsOf, List.filterM, bind, EStateM.bind, hworkspace, hfilter]
  simp [pure, EStateM.pure, Workspace.systems]

end Weave

/-! ## Systems with hooks -/

/-- The diagnostic refuses a creation hook that the system declares. -/
structure Diagnostic.RefusesHook (d : Diagnostic) (w : Workspace) (t : TypeId) :
    Prop where
  /-- its code -/
  code : d.code = .dc0026
  /-- it is an error -/
  severity : d.severity = .error
  /-- the method that it is about -/
  method : ∃ m ∈ (w.type t).methods,
    (w.method m).name = Member.onCreateForCompiler ∧
    d.method = w.methodName m

namespace Pass

variable {s : Settings} {t : TypeId} {p : PassState}

/-- A system with a hook that the pass did not add is refused; nothing
changes. -/
theorem hookOf_refused {w : World} (hnone : w.hooks.lookup t = none)
    (hhook : w.workspace.HasHook t) :
    ∃ d, d.RefusesHook w.workspace t ∧
      Weave.tryFailure (Weave.hookOf t) w = .ok (.error (.note d)) w := by
  obtain ⟨m, hm, hname⟩ := hhook
  obtain ⟨n, hfind⟩ : ∃ n, (w.workspace.type t).methods.find?
      (fun n => (w.workspace.method n).name == Member.onCreateForCompiler) =
        some n := by
    rw [← Option.isSome_iff_exists, List.find?_isSome]
    exact ⟨m, hm, by simpa using hname⟩
  have hmem := List.mem_of_find?_eq_some hfind
  have hfound := List.find?_some hfind
  have hmethod : Weave.methodNamed? t Member.onCreateForCompiler w =
      .ok (some n) w :=
    congrArg (fun o => EStateM.Result.ok o w) hfind
  have hget : (get : Weave World) w = .ok w w := rfl
  obtain ⟨args, hrun⟩ : ∃ args, Weave.tryFailure (Weave.hookOf t) w =
      .ok (.error (.note (.ofCode .dc0026 (w.workspace.methodName n)
        (.inBody (w.workspace.method n).body none) args))) w := by
    simp only [Weave.tryFailure, Weave.attempt, bind, EStateM.bind,
      Weave.hookOf, hget, hnone, hmethod]
    exact ⟨_, rfl⟩
  exact ⟨_, ⟨rfl, rfl, n, hmem, by simpa using hfound, rfl⟩, hrun⟩

/-- A system with a hook gets its diagnostic, and nothing else happens. -/
theorem processSystem_refused (hnone : p.world.hooks.lookup t = none)
    (hhook : p.world.workspace.HasHook t) :
    ∃ d, d.RefusesHook p.world.workspace t ∧
      processSystem s t p =
        .ok () { p with report := p.report.extend [d] [] } := by
  obtain ⟨d, hd, hrun⟩ := hookOf_refused hnone hhook
  refine ⟨d, hd, ?_⟩
  unfold processSystem
  rw [lift_bind_run _ hrun]
  exact note_run [d] p

/-- Systems with hooks get one diagnostic each. -/
theorem processSystems_refused (s : Settings) (ts : List TypeId)
    (hnone : p.world.hooks = [])
    (hhooks : ∀ t ∈ ts, p.world.workspace.HasHook t) :
    ∃ ds, List.Forall₂ (fun t d => d.RefusesHook p.world.workspace t) ts ds ∧
      ts.forM (processSystem s) p =
        .ok () { p with report := p.report.extend ds [] } := by
  induction ts generalizing p with
  | nil => exact ⟨[], .nil, by simp [List.forM, pure, EStateM.pure]⟩
  | cons t ts ih =>
    obtain ⟨hhook, hhooks⟩ := List.forall_mem_cons.1 hhooks
    obtain ⟨d, hd, hrun⟩ := processSystem_refused (s := s)
      (by rw [hnone]; rfl) hhook
    obtain ⟨ds, hds, hrest⟩ :=
      ih (p := { p with report := p.report.extend [d] [] }) hnone hhooks
    refine ⟨d :: ds, .cons hd hds, ?_⟩
    unfold List.forM
    simp only [bind, EStateM.bind, hrun, hrest, Report.extend_extend]
    rfl

end Pass

/-! ## The second pass -/

namespace Weave

variable {s s₁ s₂ : Settings} {home : ModuleId} {mods : List ModuleId}
  {w w₁ : World}
variable {r : Report} {result : Except Failure Unit}

/-- Where every system has its hook already, the pass refuses each and does
nothing else. -/
theorem processSystems_hooked (hw : w.resolver = .ofModules w.workspace mods)
    (hhooks : ∀ t ∈ w.workspace.systems mods home, w.workspace.HasHook t) :
    ∃ ds, List.Forall₂ (fun t d => d.RefusesHook w.workspace t)
        (w.workspace.systems mods home) ds ∧
      processSystems s home w.afresh = .ok
        { module := (w.workspace.moduleEntry home).name,
          systems := (w.workspace.systems mods home).length,
          diagnostics := ds } w.afresh := by
  let start : Report :=
    { module := (w.workspace.moduleEntry home).name,
      systems := (w.workspace.systems mods home).length }
  obtain ⟨ds, hds, hrun⟩ :=
    Pass.processSystems_refused s (w.workspace.systems mods home)
    (p := ⟨w.afresh, start⟩) rfl hhooks
  refine ⟨ds, hds, ?_⟩
  have hsystems : systemsOf home w.afresh = .ok (w.workspace.systems mods home)
      w.afresh :=
    systemsOf_run (w := w.afresh) hw home
  have hworkspace : workspace w.afresh = .ok w.workspace w.afresh := rfl
  simp only [processSystems, bind, EStateM.bind, hsystems, hworkspace,
    Pass.reporting]
  rw [show (_ : Pass Unit) ⟨w.afresh, _⟩ = _ from hrun]
  simp [start, Report.extend]

/-- Processing a module twice is as good as once: whatever the settings, the
second pass changes no definition, reports no jobs, counts the same systems, and
refuses each of them with one error.  It comes to the same systems as long as no
closure, nothing with the name of a job and nothing that structs derive from is
a system, and its tests for systems come to their ends as long as no type of
what the first pass left comes back to itself over bases. -/
theorem process_again (s₁ s₂ : Settings) (ms : List Module)
    (mods : List ModuleId) (home : ModuleId) (r : Report)
    (result : Except Failure Unit) (w₁ : World) (hhome : home ∈ mods)
    (hapart : (Universe.ofModules (World.ofModules ms).1.workspace mods).Apart
      (World.ofModules ms).1.workspace Ns.entities TypeName.componentSystemBase)
    (h : process s₁ home ((World.ofModules ms).1.over mods) =
      .ok (r, result) w₁)
    (hrooted : (Universe.ofModules w₁.workspace mods).Rooted w₁.workspace) :
    (∀ t : TypeId, t.index < w₁.workspace.types.size →
      (Universe.ofModules w₁.workspace mods).ClassTestEnds w₁.workspace
        Ns.entities TypeName.componentSystemBase t) ∧
    ∃ r' w₂, process s₂ home (w₁.over mods) =
        .ok (r', verdict s₂ w₁.workspace home) w₂ ∧
      w₂.workspace = w₁.workspace ∧ r'.jobs = [] ∧ r'.systems = r.systems ∧
      (w₁.workspace.systems mods home).length = r'.systems ∧
      List.Forall₂ (fun t d => d.RefusesHook w₁.workspace t)
        (w₁.workspace.systems mods home) r'.diagnostics := by
  have htests := fun (t : TypeId) ht => hrooted.bases.classTestEnds
    hrooted.index Ns.entities TypeName.componentSystemBase (t := t) ht
  rw [Universe.refresh_ofModules] at htests
  refine ⟨htests, ?_⟩
  let w₀ := (World.ofModules ms).1.over mods
  have htidy : w₀.workspace.Tidy := Workspace.tidy_loadAll ms
  obtain ⟨w', hrun, hw'⟩ := process_eq_ok h
  obtain ⟨ts, p, q, hstart, hsystems, rfl, rfl⟩ := processSystems_eq_ok hrun
  obtain ⟨hpending, hp⟩ := hstart.pending htidy
  -- the systems are those that the universe finds
  have hfound : systemsOf home w₀.afresh = .ok (w₀.workspace.systems mods home)
      w₀.afresh :=
    systemsOf_run (w := w₀.afresh) rfl home
  have hts := hstart.systems
  rw [hfound] at hts
  injection hts with hts hworld
  have hV : p.world.workspace = w₀.workspace :=
    congrArg World.workspace hworld.symm
  -- afterwards each has its hook, and they are the same
  have hinner : p.world.workspace.InnerPresent := by
    rw [hV]
    exact htidy.innerPresent
  have hends := (Pass.processSystems_develops s₁ ts [] (by simpa using hpending)
    hinner hp).and (Pass.processSystems_ends s₁ ts []
      (by simpa using hpending) hp)
  rw [Ends, hsystems] at hends
  obtain ⟨⟨hdevelops, hhooks⟩, -, ds, jss, hreport, -⟩ := hends
  rw [hV] at hdevelops
  have hsame : q.world.workspace.systems mods home = w₀.workspace.systems
      mods home :=
    hdevelops.systems_eq htidy hapart hhome
  have hcount : q.report.systems = (w₀.workspace.systems mods home).length := by
    rw [hreport, hstart.report, ← hts]
    rfl
  have hhooks' : ∀ t ∈ (w₁.over mods).workspace.systems mods home,
      (w₁.over mods).workspace.HasHook t := by
    intro t ht
    have hw : (w₁.over mods).workspace = q.world.workspace := hw'
    rw [hw] at ht ⊢
    rw [hsame, hts] at ht
    exact hhooks t ht
  obtain ⟨ds', hds, hrun'⟩ :=
    processSystems_hooked (s := s₂) (w := w₁.over mods) rfl hhooks'
  have hagain := process_run hrun'
  refine ⟨_, _, hagain, rfl, rfl, ?_, rfl, hds⟩
  rw [hcount, ← hsame, ← hw']
  rfl

/-- The single job of a module is made once. -/
theorem tick_again :
    ∃ r result w₁,
      process {} ⟨0⟩ (tickWorld.over [⟨0⟩, ⟨1⟩]) = .ok (r, result) w₁ ∧
      r.jobs.length = 1 ∧
      (∀ t : TypeId, t.index < w₁.workspace.types.size →
        (Universe.ofModules w₁.workspace [⟨0⟩, ⟨1⟩]).ClassTestEnds w₁.workspace
          Ns.entities TypeName.componentSystemBase t) ∧
      ∃ r' w₂, process { verify := true } ⟨0⟩ (w₁.over [⟨0⟩, ⟨1⟩]) =
          .ok (r', verdict { verify := true } w₁.workspace ⟨0⟩) w₂ ∧
        w₂.workspace = w₁.workspace ∧ r'.jobs = [] ∧ r'.systems = r.systems ∧
        (w₁.workspace.systems [⟨0⟩, ⟨1⟩] ⟨0⟩).length = r'.systems ∧
        List.Forall₂ (fun t d => d.RefusesHook w₁.workspace t)
          (w₁.workspace.systems [⟨0⟩, ⟨1⟩] ⟨0⟩) r'.diagnostics := by
  have hrun : delivers (process {} ⟨0⟩) (tickWorld.over [⟨0⟩, ⟨1⟩])
      (fun a w => a.1.jobs.length == 1 &&
        (Universe.ofModules w.workspace [⟨0⟩, ⟨1⟩]).grounds w.workspace) =
          true := by
    rw [tickWorld, tickModules, Sample.tickFramework_eq]
    decide +kernel
  obtain ⟨⟨r, result⟩, w₁, hprocess, htest⟩ := exists_of_delivers hrun
  rw [Bool.and_eq_true, beq_iff_eq] at htest
  exact ⟨r, result, w₁, hprocess, htest.1,
    process_again {} { verify := true } tickModules [⟨0⟩, ⟨1⟩] ⟨0⟩ r result w₁
      (by decide) (by decide +kernel) hprocess
        (Universe.Grounded.of_grounds htest.2).toRooted⟩

/-- A module whose system has a closure that is a system, too. -/
def systemClosureModule : Module :=
  let m := Sample.tickModule TypeName.systemBase Sample.scheduleSteps
  let asSystem : TypeDef → TypeDef
    | .mk h ms ts =>
      .mk { h with base := .ofName Ns.entities TypeName.systemBase false } ms ts
  { m with
    types := m.types.map fun | .mk h ms ts => .mk h ms (ts.map asSystem) }

/-- A module in which value types come back to themselves over bases. -/
def circularValueModule : Module :=
  let derived (name base : String) : TypeDef :=
    .mk { ns := "System", name, base := .ofName "System" base false } [] []
  { name := "Circular", types := [derived "ValueType" "Kind",
      derived "Kind" "ValueType"] }

/-- A closure that is a system is none any more when it has become a value type,
and the second pass counts one system fewer.  And where value types come back to
themselves, the first pass leaves a closure on which the test for systems has no
end. -/
theorem not_process_again :
    (¬ ∀ (s₁ s₂ : Settings) (ms : List Module) (mods : List ModuleId)
        (home : ModuleId) (r : Report) (result : Except Failure Unit)
        (w₁ : World), home ∈ mods →
      process s₁ home ((World.ofModules ms).1.over mods) =
          .ok (r, result) w₁ →
        ∃ r' result' w₂,
          process s₂ home (w₁.over mods) = .ok (r', result') w₂ ∧
            r'.systems = r.systems) ∧
    ∃ ms mods r result w₁,
      process {} ⟨0⟩ ((World.ofModules ms).1.over mods) =
          .ok (r, result) w₁ ∧
        ∃ t ∈ w₁.workspace.typesOf ⟨0⟩, ∀ n,
          (Universe.ofModules w₁.workspace mods).follow w₁.workspace
            (Option.guard (Universe.comesTo w₁.workspace Ns.entities
              TypeName.componentSystemBase)) n (some t) = none := by
  refine ⟨fun h => ?_, ?_⟩
  swap
  · let ms := [Sample.tickModule TypeName.systemBase Sample.scheduleSteps,
      Sample.tickFramework, circularValueModule]
    let mods : List ModuleId := [⟨0⟩, ⟨1⟩, ⟨2⟩]
    -- the closure and the two types that it derives from
    let circle : List TypeId := [⟨1⟩, ⟨16⟩, ⟨17⟩]
    have hrun : delivers (process {} ⟨0⟩) ((World.ofModules ms).1.over mods)
        (fun _ w =>
        decide (⟨1⟩ ∈ w.workspace.typesOf ⟨0⟩) && decide (∀ t ∈ circle,
          Option.guard (Universe.comesTo w.workspace Ns.entities
            TypeName.componentSystemBase) t =
              none ∧
            ∃ b ∈ circle, (Universe.ofModules w.workspace mods).baseOf?
              w.workspace t = some b)) = true := by
      simp only [ms, Sample.tickFramework_eq]
      decide +kernel
    obtain ⟨⟨r, result⟩, w₁, hprocess, htest⟩ := exists_of_delivers hrun
    rw [Bool.and_eq_true, decide_eq_true_eq, decide_eq_true_eq] at htest
    exact ⟨ms, mods, r, result, w₁, hprocess, ⟨1⟩, htest.1, fun n =>
      Universe.follow_eq_none htest.2 n ⟨1⟩ (by decide)⟩
  let mods : List ModuleId := [⟨0⟩, ⟨1⟩]
  let start :=
    (World.ofModules [systemClosureModule, Sample.tickFramework]).1.over mods
  have hrun : delivers (process {} ⟨0⟩) start (fun a w => a.1.systems == 2 &&
      delivers (process {} ⟨0⟩) (w.over mods) fun a' _ => a'.1.systems == 1) =
        true := by
    simp only [start, Sample.tickFramework_eq]
    decide +kernel
  obtain ⟨⟨r, result⟩, w₁, hfirst, htest⟩ := exists_of_delivers hrun
  simp only [Bool.and_eq_true, beq_iff_eq] at htest
  obtain ⟨⟨r', result'⟩, w₂, hsecond, hone⟩ := exists_of_delivers htest.2
  obtain ⟨r₂, result₂, w, hagain, hsame⟩ :=
    h {} {} [systemClosureModule, Sample.tickFramework] mods ⟨0⟩ r result w₁
      (by decide) hfirst
  rw [hsecond] at hagain
  cases hagain
  simp only [beq_iff_eq] at hone
  rw [hone, htest.1] at hsame
  cases hsame

end Weave

end JobWeave
