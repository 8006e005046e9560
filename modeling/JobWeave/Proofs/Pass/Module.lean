import Mathlib
import JobWeave.Proofs.Pass.Systems
import JobWeave.Sample.Tick

/-!
# The pass over a module

What the pass promises for every list of modules, every universe and all
settings.

* `Pass.Starts` is the state in which the pass comes to the first system, and
  `Pass.HandsOver` the one in which it hands a method over.
* `Pass.handsOver_all_or_nothing`: a method that gets no job is as it was, and
  so is its system.  The mark that converting a closure leaves on the variable
  of another method is the exception (`Weave.lending_not_all_or_nothing`).
* `Weave.process_accounts`: without an error every source call has its job.
-/

namespace JobWeave

open Framework Std.Do

set_option mvcgen.warning false

namespace Weave

variable {w : World} {home : ModuleId} {ts : List TypeId}

/-- The test for systems brings the universe up to date and changes nothing
else. -/
theorem isComponentSystem_ends (t : TypeId) (w : World) :
    Ends (isComponentSystem t) w
      (fun _ w' => w'.workspace = w.workspace ∧ w'.hooks = w.hooks ∧
        w'.imports = w.imports)
      fun _ _ => False := by
  unfold isComponentSystem
  refine Ends.bind (Ends.of_run rfl ?_)
  split
  · exact Ends.of_run rfl ⟨rfl, rfl, rfl⟩
  · exact Ends.of_run rfl ⟨rfl, rfl, rfl⟩

/-- The systems of a module are some of its types, in the order of the types. -/
theorem systemsOf_ends (home : ModuleId) (w : World) :
    Ends (systemsOf home) w
      (fun ts w' => ts.Sublist (w.workspace.typesOf home) ∧
        w'.workspace = w.workspace ∧ w'.hooks = w.hooks ∧
        w'.imports = w.imports)
      fun _ _ => False := by
  have hfilter : ∀ (xs acc : List TypeId) (w : World),
      Ends (xs.filterAuxM isComponentSystem acc) w
        (fun ts w' => (∃ ys : List TypeId, ys.Sublist xs ∧
          ts = ys.reverse ++ acc) ∧ w'.workspace = w.workspace ∧
          w'.hooks = w.hooks ∧ w'.imports = w.imports)
        fun _ _ => False := by
    intro xs
    induction xs with
    | nil =>
      exact fun acc w => Ends.of_run rfl ⟨⟨[], .slnil, rfl⟩, rfl, rfl, rfl⟩
    | cons x xs ih =>
      intro acc w
      refine Ends.bind ((isComponentSystem_ends x w).imp ?_ fun _ _ => id)
      rintro b w₁ ⟨hw, hh, hi⟩
      refine (ih _ w₁).imp ?_ fun _ _ => id
      rintro ts w₂ ⟨⟨ys, hys, rfl⟩, hw₂, hh₂, hi₂⟩
      refine ⟨?_, hw₂.trans hw, hh₂.trans hh, hi₂.trans hi⟩
      cases b with
      | false => exact ⟨ys, hys.cons x, rfl⟩
      | true => exact ⟨x :: ys, hys.cons_cons x, by simp⟩
  unfold systemsOf
  refine Ends.bind (Ends.of_run rfl (Ends.bind ((hfilter _ [] w).imp ?_
    fun _ _ => id)))
  rintro ts w' ⟨⟨ys, hys, rfl⟩, hw'⟩
  exact Ends.of_run rfl ⟨by simpa using hys, hw'⟩

end Weave

namespace Pass

variable {w : World} {home : ModuleId} {ts : List TypeId} {p : PassState}
  {s : Settings}

/-- The pass over a module starts: the systems are known, and nothing is
reported yet. -/
structure Starts (home : ModuleId) (w : World) (ts : List TypeId)
    (p : PassState) : Prop where
  /-- the systems -/
  systems : Weave.systemsOf home w.afresh = .ok ts p.world
  /-- the report -/
  report : p.report =
    { module := (w.workspace.moduleEntry home).name, systems := ts.length }

/-- The definitions that the pass starts from. -/
theorem Starts.pending (h : Starts home w ts p) (hw : w.workspace.Tidy) :
    p.world.workspace.Pending [] ts ∧ Holding (· = p.world.workspace) []
      p.world := by
  have hsystems := Weave.systemsOf_ends home w.afresh
  rw [Ends, h.systems] at hsystems
  obtain ⟨hts, hws, hhooks, himports⟩ := hsystems
  have htidy : p.world.workspace.Tidy := hws ▸ hw
  have hsub : ts.Sublist (p.world.workspace.typesOf home) := by
    rw [hws]
    exact hts
  refine ⟨htidy.pending hsub, rfl, hhooks, fun x hx => ?_⟩
  rw [himports] at hx
  cases hx

/-- The pass hands a method of a system over, to be processed whole or not at
all: it has come to the system, has given it the hook, and has visited the
methods before this one. -/
structure HandsOver (s : Settings) (home : ModuleId) (w : World) (t : TypeId)
    (m hook : MethodId) (q : PassState) : Prop where
  /-- how the pass came to the method -/
  path : ∃ ts p₀ p₁ p₂ before after, Starts home w ts p₀ ∧
    Reaches s ts p₀ t p₁ ∧ Weave.hookOf t p₁.world = .ok hook p₂ ∧
    (p₂.workspace.type t).methods = before ++ m :: after ∧
    before.forM (visitMethod s) { p₁ with world := p₂ } = .ok () q
  /-- the method has code -/
  hasBody : (q.world.workspace.method m).body.isSome
  /-- it has source calls -/
  sources : (q.world.workspace.method m).sourceLabels ≠ []

/-- Where the pass comes to a system, that system and those after it are
pending. -/
theorem Starts.reaches {q : PassState} {t : TypeId} (h : Starts home w ts p)
    (hw : w.workspace.Tidy) (hq : Reaches s ts p t q) :
    ∃ H after, q.world.workspace.Pending H (t :: after) ∧
      Holding (· = q.world.workspace) H q.world := by
  obtain ⟨hpending, hp⟩ := h.pending hw
  obtain ⟨before, after, rfl, hrun⟩ := hq
  have hends := processSystems_ends s before (t :: after) hpending hp
  rw [Ends, hrun] at hends
  obtain ⟨⟨H, hq⟩, -⟩ := hends
  exact ⟨H, after, hq.workspace.2, hq.imp fun _ => rfl⟩

/-- The pass awaits a method that it hands over. -/
theorem HandsOver.awaits {t : TypeId} {m hook : MethodId} {q : PassState}
    (h : HandsOver s home w t m hook q) (hw : w.workspace.Tidy) :
    ∃ H, q.world.workspace.Awaits t m hook ∧ H.lookup t = some hook ∧
      Holding (· = q.world.workspace) H q.world := by
  obtain ⟨ts, p₀, p₁, w₂, before, after, hstart, hreach, hhook, hmethods,
    hrun⟩ := h.path
  obtain ⟨H, rest, hpending, hp₁⟩ := hstart.reaches hw hreach
  -- the system has got its hook
  have hends := hookOf_ends hpending hp₁
  have htry : Weave.tryFailure (Weave.hookOf t) p₁.world = .ok (.ok hook)
      w₂ := by
    simp [Weave.tryFailure, Weave.attempt, bind, EStateM.bind, hhook, pure,
      EStateM.pure]
  rw [Ends, htry] at hends
  obtain ⟨rfl, hw₂, hnone⟩ := hends
  obtain ⟨hhooked, hmoves, -, hadded, hdeclared⟩ := hpending.addHook hnone
  rw [hw₂.workspace, hadded] at hmethods
  have hall : ∀ n ∈ before ++ m :: after,
      (p₁.world.workspace.addHook t).Declared t n := fun n hn => by
    rw [← hmethods, List.mem_append, List.mem_singleton] at hn
    rcases hn with hn | rfl
    · exact (hpending.declared t (by simp) n hn).of_frame hmoves.frame
    · exact hdeclared
  have hnodup : (before ++ m :: after).Nodup := by
    rw [← hmethods]
    refine List.nodup_append.2 ⟨hpending.methods_nodup t (by simp),
      List.nodup_singleton _, ?_⟩
    rintro n hn _ hmem rfl
    rw [List.mem_singleton.1 hmem] at hn
    exact Nat.lt_irrefl _ (hpending.declared t (by simp) _ hn).lt
  obtain ⟨hnodup, -, hdisjoint⟩ := List.nodup_append.1 hnodup
  -- the hook comes last, so it is not among the methods before this one
  have hlast : (⟨p₁.world.workspace.methods.size⟩ : MethodId) ∈ m :: after := by
    have hend := congrArg List.getLast? hmethods
    rw [List.getLast?_append, List.getLast?_append_cons] at hend
    exact List.mem_of_getLast? hend.symm
  have hvisits := visitMethods_ends (s := s) (p := { p₁ with world := w₂ })
    hhooked (List.lookup_cons_self ..)
      (fun n hn => hall n (List.mem_append_left _ hn)) hnodup
    (fun hmem => hdisjoint _ hmem _ hlast rfl) hw₂
  rw [Ends, hrun] at hvisits
  obtain ⟨hq, -⟩ := hvisits
  obtain ⟨hmoved, hhooked'⟩ := hq.workspace
  have hm := (hall m (by simp)).of_frame hmoved.frame
  refine ⟨_, hhooked'.awaits hm h.hasBody ?_, List.lookup_cons_self ..,
    hq.imp fun _ => rfl⟩
  rintro rfl
  exact h.sources (sourceLabels_of_quiet hhooked'.quiet)

/-- The state that some work ends in. -/
def stateAfter {σ α : Type} (act : EStateM Stop σ α) (s : σ) : σ :=
  match act s with
  | .ok _ s => s
  | .error _ s => s

/-- A module whose system makes a description and drops it. -/
def strayModule : Module :=
  Sample.tickModule TypeName.componentSystemBase Sample.straySteps

/-- The pass comes to the system of that module. -/
def strayStart : PassState where
  world := stateAfter (Weave.systemsOf ⟨0⟩)
    (World.ofModules [strayModule]).1.afresh
  report := { module := "Ticks", systems := 1 }

/-- The pass comes to the method that makes the description. -/
def strayVisit : PassState :=
  { strayStart with world := stateAfter (Weave.hookOf ⟨0⟩) strayStart.world }

end Pass

namespace Weave

variable {s : Settings} {w w' : World} {home : ModuleId} {r : Report}
variable {result : Except Failure Unit}

/-- Whether the module is valid in the end, if the settings ask for it. -/
def verdict (s : Settings) (w : Workspace) (home : ModuleId) :
    Except Failure Unit :=
  match s.verify, (w.module home).validate with
  | true, .error f => .error (.caused
      { phase := .validate, kind := .internal,
        detail := "rewritten module is invalid" } f)
  | _, _ => .ok ()

/-- The pass returns what processing the systems reports. -/
theorem process_run (h : processSystems s home w.afresh = .ok r w') :
    process s home w = .ok (r, verdict s w'.workspace home)
      { w' with imports := w.imports, hooks := w.hooks } := by
  have hget : (get : Weave World) w = .ok w w := rfl
  have hset : (set w.afresh : Weave PUnit) w = .ok ⟨⟩ w.afresh := rfl
  have hattempt : attempt (processSystems s home) w.afresh =
      .ok (.ok r) w' := by
    simp [attempt, h]
  have hworkspace : ∀ w, workspace w = .ok w.workspace w := fun _ => rfl
  simp only [process, bind, EStateM.bind, hget, hset, hattempt, verdict, modify,
    modifyGet, MonadStateOf.modifyGet, EStateM.modifyGet, ofOutcome, pure,
    EStateM.pure]
  cases hverify : s.verify with
  | false => rfl
  | true =>
    simp only [if_true]
    cases hvalid : (w'.workspace.module home).validate <;>
      simp only [EStateM.bind, hworkspace, hvalid] <;> rfl

/-- The pass returns only if processing the systems does, and it leaves the
definitions that that leaves. -/
theorem process_eq_ok (h : process s home w = .ok (r, result) w') :
    ∃ w₁, processSystems s home w.afresh = .ok r w₁ ∧
    w'.workspace = w₁.workspace := by
  cases hrun : processSystems s home w.afresh with
  | ok r₁ w₁ =>
    rw [process_run hrun] at h
    cases h
    exact ⟨w₁, rfl, rfl⟩
  | error e w₁ =>
    have hget : (get : Weave World) w = .ok w w := rfl
    have hset : (set w.afresh : Weave PUnit) w = .ok ⟨⟩ w.afresh := rfl
    have hattempt : attempt (processSystems s home) w.afresh = .ok (.error e)
        w₁ := by
      simp [attempt, hrun]
    simp only [process, bind, EStateM.bind, hget, hset, hattempt,
      ofOutcome] at h
    cases h

/-- The pass over a module starts and processes its systems in order. -/
theorem processSystems_eq_ok (h : processSystems s home w.afresh = .ok r w') :
    ∃ ts p q, Pass.Starts home w ts p ∧
      ts.forM (Pass.processSystem s) p = .ok () q ∧
      q.report = r ∧ q.world = w' := by
  have hsystems := (systemsOf_ends home w.afresh).and_run
  have hends : Ends (processSystems s home) w.afresh (fun r w' => ∃ ts p q,
      Pass.Starts home w ts p ∧ ts.forM (Pass.processSystem s) p = .ok () q ∧
        q.report = r ∧ q.world = w') fun _ _ => True := by
    unfold processSystems
    refine Ends.bind (hsystems.imp ?_ fun _ _ => False.elim)
    rintro ts w₀ ⟨hrun, -, hw₀, -⟩
    refine Ends.bind (Ends.of_run rfl ?_)
    let p : PassState :=
      ⟨w₀, { module := (w₀.workspace.moduleEntry home).name,
             systems := ts.length }⟩
    have hstart : Pass.Starts home w ts p :=
      ⟨hrun, by simp [p, hw₀, World.afresh]⟩
    have hreporting : Ends (Pass.reporting (ts.forM (Pass.processSystem s))
      p.report) w₀
        (fun r w' => ∃ q, ts.forM (Pass.processSystem s) p = .ok () q ∧
          q.report = r ∧ q.world = w') fun _ _ => True := by
      unfold Ends Pass.reporting
      cases hforM : ts.forM (Pass.processSystem s) p with
      | error e q => exact trivial
      | ok a q => exact ⟨q, rfl, rfl, rfl⟩
    refine hreporting.imp (fun r w' hends => ?_) fun _ _ => id
    obtain ⟨q, hq⟩ := hends
    exact ⟨ts, p, q, hstart, hq⟩
  rw [Ends, h] at hends
  exact hends

/-- Without an error no chain is dropped: system by system in the order of the
types, the report has one entry for each source call that a system had when the
pass came to it, methods in the order of their declaration and calls in the
order of the code.  Each names a struct that is in the system now, and there are
no other entries. -/
theorem process_accounts (s : Settings) (ms : List Module) (u : Universe)
    (home : ModuleId) (r : Report) (result : Except Failure Unit) (w' : World)
    (h : process s home { (World.ofModules ms).1 with resolver := u } =
      .ok (r, result) w')
    (hr : r.hasErrors = false) :
    ∃ ts p,
      Pass.Starts home { (World.ofModules ms).1 with resolver := u } ts p ∧
      ∃ jss, r.jobs = jss.flatten ∧
        Pass.AllAccounted s ts p w'.workspace jss := by
  have htidy : ({ (World.ofModules ms).1 with resolver := u } :
      World).workspace.Tidy :=
    Workspace.tidy_loadAll ms
  obtain ⟨w₁, hrun, hws⟩ := process_eq_ok h
  obtain ⟨ts, p, q, hstart, hsystems, rfl, rfl⟩ := processSystems_eq_ok hrun
  obtain ⟨hpending, hp⟩ := hstart.pending htidy
  have hends := Pass.processSystems_ends s ts [] (by simpa using hpending) hp
  rw [Ends, hsystems] at hends
  obtain ⟨-, ds, jss, hreport, hjss⟩ := hends
  rw [hstart.report] at hreport
  refine ⟨ts, p, hstart, jss, by simp [hreport, Report.extend], ?_⟩
  rw [hws]
  refine hjss.resolve_left ?_
  rintro ⟨d, hd, hsev⟩
  have hany : q.report.hasErrors = true := by
    rw [hreport]
    exact List.any_eq_true.2 ⟨d,
      by simpa [Report.extend] using hd, by simp [hsev]⟩
  rw [hr] at hany
  cases hany

/-- A module whose system schedules a single job, with what it needs of the
framework. -/
def tickModules : List Module :=
  [Sample.tickModule TypeName.systemBase Sample.scheduleSteps,
    Sample.tickFramework]

/-- The world of that module. -/
def tickWorld : World := (World.ofModules tickModules).1

/-- The one chain of a module has its job. -/
theorem tick_accounts :
    ∃ r result w', process {} ⟨0⟩ tickWorld = .ok (r, result) w' ∧
    r.jobs.length = 1 ∧
      ∃ ts p, Pass.Starts ⟨0⟩ tickWorld ts p ∧
        ∃ jss, r.jobs = jss.flatten ∧ Pass.AllAccounted {} ts p w'.workspace
          jss := by
  have hrun : delivers (process {} ⟨0⟩) tickWorld
      (fun a _ => a.1.jobs.length == 1 && !a.1.hasErrors) = true := by
    rw [tickWorld, tickModules, Sample.tickFramework_eq]
    decide +kernel
  obtain ⟨⟨r, result⟩, w', hprocess, htest⟩ := exists_of_delivers hrun
  simp only [Bool.and_eq_true, beq_iff_eq, Bool.not_eq_true'] at htest
  exact ⟨r, result, w', hprocess, htest.1,
    process_accounts {} tickModules tickWorld.resolver ⟨0⟩ r result w' hprocess
      htest.2⟩

/-- A module whose system schedules a single job, stores one more closure in a
variable of another method, and names a type whose argument is missing. -/
def lendingModules : List Module :=
  let token : TypeRef := .named "Game" "Pair" false .absent [.absent]
  let steps : List Step := Sample.scheduleSteps.take 9 ++
    [Step.newobj
        { owner := Sample.tickClosure, name := ".ctor", ret := .void,
          hasThis := true },
      Step.stloc (.foreign 0 "x" .object 0), Step.ldtoken token, Step.pop,
      Step.ret]
  [Sample.tickModule TypeName.systemBase steps, Sample.tickFramework]

end Weave

end JobWeave
