import Mathlib
import JobWeave.Chain.Analysis
import JobWeave.Proofs.Weave.Runs
import JobWeave.Sample.Tick
import JobWeave.Workspace.World

/-!
# The description of a chain

The modifiers of a chain hand a description on: each takes the one that the call
before it made.  `Weave.analyze_threads` says so of every chain that is read.

The last call of a chain is found in another way.  It is the next call of a
chain in the code, and what it takes is not looked at, so the description that
it takes may be another one (`Weave.analyze_strayDescription`).
-/

namespace JobWeave

open Framework

namespace Weave

variable {m : MethodId} {d : MethodDef} {w : World}

/-- A modifier that passes its last test works on the description of the call
before. -/
theorem pusher_ends {expected : Label} {mod : Modifier} :
    Ends (do
        if (← ofOutcome (d.pusher 0 mod.label)) != some expected then
          refuse .dc0007 m mod.label [] : Weave Unit) w
      (fun _ _ => d.pusher 0 mod.label = .ok (some expected))
          fun _ _ => True := by
  cases hp : d.pusher 0 mod.label with
  | error e => exact Ends.bind trivial
  | ok o =>
    refine Ends.bind (Ends.of_run rfl ?_)
    split
    · exact trivial
    · rename_i ho
      exact Ends.of_run rfl (by simpa using ho)

/-- A modifier that is checked works on the description of the call before. -/
theorem checkModifier_ends {before : List Modifier} {expected : Label}
    {mod : Modifier} :
    Ends (checkModifier m d before expected mod) w
      (fun _ _ => d.pusher 0 mod.label = .ok (some expected))
        fun _ _ => True := by
  unfold checkModifier
  refine Ends.bind_any fun resolved w₁ => ?_
  cases resolved with
  | none => exact trivial
  | some n =>
    refine Ends.bind_any fun _ w₂ => ?_
    simp only
    split
    · exact Ends.bind trivial
    split
    · refine Ends.bind_any fun _ w₃ => ?_
      split
      · exact Ends.bind trivial
      · exact pusher_ends
    · exact pusher_ends

/-- A modifier is that of the call. -/
theorem readModifier_ends {i : Instr} {r : MethodRef} :
    Ends (readModifier d i r) w (fun mod _ => mod.label = i.label)
      fun _ _ => True := by
  unfold readModifier
  simp only
  split
  · refine Ends.bind_any fun _ _ => Ends.bind_any fun _ _ => Ends.bind_any
        fun _ _ =>
      Ends.bind_any fun _ _ => Ends.of_run rfl rfl
  · exact Ends.bind_any fun _ _ => Ends.bind_any fun _ _ => Ends.of_run rfl rfl

/-- The calls hand a description on, from each to the next one. -/
def Threaded (d : MethodDef) (calls : List Label) : Prop :=
  calls.IsChain fun l l' => d.pusher 0 l' = .ok (some l)

/-- The modifiers that are read hand the description on. -/
theorem readCalls_ends {source last : Label} {fuel : Nat} (mods : List Modifier)
    (hmods : Threaded d (source :: mods.map (·.label)))
    (hlast : (source :: mods.map (·.label)).getLast? = some last) :
    Ends (readCalls m d fuel last mods) w
      (fun r _ => Threaded d (source :: r.1.map (·.label)))
        fun _ _ => True := by
  induction fuel generalizing last mods w with
  | zero => trivial
  | succ fuel ih =>
    unfold readCalls
    refine Ends.bind_any fun call w₁ => ?_
    obtain ⟨i, r⟩ := call
    simp only
    split
    · exact Ends.of_run rfl hmods
    refine Ends.bind (readModifier_ends.imp ?_ fun _ _ => id)
    intro mod w₂ hmod
    refine Ends.bind (checkModifier_ends.imp ?_ fun _ _ => id)
    intro _ w₃ hcheck
    have hcalls : source :: (mods ++ [mod]).map (·.label) =
        (source :: mods.map (·.label)) ++ [mod.label] := by
      simp
    refine ih (mods ++ [mod]) ?_
      (by rw [hcalls, List.getLast?_append, hmod]; rfl)
    rw [hcalls]
    refine List.isChain_append.2 ⟨hmods, .singleton _, ?_⟩
    intro l hl l' hl'
    rw [hlast] at hl
    cases hl
    cases hl'
    exact hcheck

/-- A chain that is read hands its description on: every modifier takes the one
that the call before it made, the first the one that the source call made. -/
theorem analyze_threads (m : MethodId) (source : Label) (number : Int)
    (w : World) :
    Ends (analyze m source number) w
      (fun c _ => c.source = source ∧
        Threaded (w.workspace.method m) (c.source :: c.modifiers.map (·.label)))
      fun _ _ => True := by
  unfold analyze
  refine Ends.bind (Ends.of_run rfl ?_)
  refine Ends.bind_any fun kind w₁ => ?_
  cases kind with
  | none => exact trivial
  | some kind =>
    have hsource : Threaded (w.workspace.method m) [source] := .singleton source
    refine Ends.bind ((readCalls_ends [] hsource rfl).imp ?_ fun _ _ => id)
    rintro ⟨mods, last, r⟩ w₂ hmods
    refine Ends.bind_any fun system w₃ => Ends.bind_any fun inBase w₄ =>
      Ends.bind_any fun name w₅ => ?_
    simp only
    split
    · exact trivial
    split
    · exact Ends.bind trivial
    refine Ends.bind_any fun stored w₆ => ?_
    split
    · exact trivial
    refine Ends.bind_any fun head w₇ => ?_
    split
    · exact Ends.bind trivial
    refine Ends.bind_any fun delegate w₈ => Ends.bind_any fun lambda w₉ => ?_
    cases lambda with
    | none => exact trivial
    | some lambda =>
      exact Ends.bind_any fun owner w₁₀ => Ends.of_run rfl ⟨rfl, hmods⟩

/-- A module whose system gives a lambda to one description and schedules
another one. -/
def crossedWorld : World :=
  (World.ofModules [Sample.tickModule TypeName.systemBase Sample.crossedSteps,
    Sample.tickFramework]).1

/-- The last call of a chain may take another description than that of the call
before it. -/
theorem analyze_strayDescription :
    ∃ c w, analyze ⟨0⟩ 3 0 crossedWorld = .ok c w ∧
      ¬ Threaded (crossedWorld.workspace.method ⟨0⟩)
        (c.source :: c.modifiers.map (·.label) ++ [c.terminal]) := by
  have hrun : delivers (analyze ⟨0⟩ 3 0) crossedWorld
      (fun c _ => c.modifiers.map (·.label) == [7] && c.terminal == 10) =
        true := by
    rw [crossedWorld, Sample.tickFramework_eq]
    decide +kernel
  have hpusher : delivers
    (ofOutcome ((crossedWorld.workspace.method ⟨0⟩).pusher 0 10))
      crossedWorld (fun o _ => o == some 9) = true := by
    rw [crossedWorld, Sample.tickFramework_eq]
    decide +kernel
  obtain ⟨c, w, hanalyze, hcalls⟩ := exists_of_delivers hrun
  simp only [Bool.and_eq_true, beq_iff_eq] at hcalls
  refine ⟨c, w, hanalyze, fun hthread => ?_⟩
  rw [hcalls.1, hcalls.2] at hthread
  have hlast :=
    (List.isChain_cons_cons.1 (List.isChain_cons_cons.1 hthread).2).1
  rw [hlast] at hpusher
  cases hpusher

end Weave

end JobWeave
