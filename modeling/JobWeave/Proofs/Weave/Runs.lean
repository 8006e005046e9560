import Mathlib
import JobWeave.Proofs.Weave.Triple

/-!
# Runs

What some work does from one state on.  Triples speak of every state that
satisfies a condition; here the state is given, so what is found there can be
used: `Ends` names the ways in which the run may end, and `Ends.bind` takes a
run apart.  `delivers` is a test of a whole run that can be computed.
-/

namespace JobWeave

open Std.Do

set_option mvcgen.warning false

variable {σ α β : Type}

/-- The run of some work from a state ends in one of the given ways. -/
def Ends (act : EStateM Stop σ α) (s : σ) (Q : α → σ → Prop)
    (E : Stop → σ → Prop) : Prop :=
  match act s with
  | .ok a s' => Q a s'
  | .error e s' => E e s'

variable {act : EStateM Stop σ α} {s : σ} {Q Q' : α → σ → Prop}
  {E E' : Stop → σ → Prop}

theorem Ends.of_triple {P : σ → Prop}
    (h : ⦃fun s => ⌜P s⌝⦄ act ⦃post⟨fun a s => ⌜Q a s⌝, fun e s => ⌜E e s⌝⟩⦄)
    (hs : P s) : Ends act s Q E := by
  have hrun := triple_iff.1 h s hs
  unfold Ends
  cases hact : act s <;> simp only [hact] at hrun ⊢ <;> exact hrun

theorem Ends.triple {P : σ → Prop} (h : ∀ s, P s → Ends act s Q E) :
    ⦃fun s => ⌜P s⌝⦄ act ⦃post⟨fun a s => ⌜Q a s⌝, fun e s => ⌜E e s⌝⟩⦄ := by
  refine triple_iff.2 fun s hs => ?_
  have hrun := h s hs
  unfold Ends at hrun
  cases hact : act s <;> simp only [hact] at hrun ⊢ <;> exact hrun

theorem Ends.of_run {a : α} {s' : σ} (h : act s = .ok a s') (hQ : Q a s') :
    Ends act s Q E := by
  rw [Ends, h]
  exact hQ

theorem Ends.imp (h : Ends act s Q E) (hQ : ∀ a s', Q a s' → Q' a s')
    (hE : ∀ e s', E e s' → E' e s') : Ends act s Q' E' := by
  unfold Ends at h ⊢
  split <;> simp_all

/-- The work has a result that passes a test. -/
def delivers (act : EStateM Stop σ α) (s : σ) (test : α → σ → Bool) : Bool :=
  match act s with
  | .ok a s' => test a s'
  | .error _ _ => false

theorem exists_of_delivers {test : α → σ → Bool}
    (h : delivers act s test = true) :
    ∃ a s', act s = .ok a s' ∧ test a s' = true := by
  unfold delivers at h
  cases hact : act s <;> rw [hact] at h
  · exact ⟨_, _, rfl, h⟩
  · cases h

/-- The end of a run is that of the run. -/
theorem Ends.and_run (h : Ends act s Q E) :
    Ends act s (fun a s' => act s = .ok a s' ∧ Q a s') E := by
  unfold Ends at h ⊢
  cases hrun : act s <;> simp_all

/-- Two descriptions of the end of one run. -/
theorem Ends.and (h : Ends act s Q E) (h' : Ends act s Q' E') :
    Ends act s (fun a s' => Q a s' ∧ Q' a s') fun e s' => E e s' ∧ E' e s' := by
  unfold Ends at h h' ⊢
  cases hrun : act s <;> simp_all

/-- One piece of work after another. -/
theorem Ends.bind {f : α → EStateM Stop σ β} {Q : β → σ → Prop}
    (h : Ends act s (fun a s' => Ends (f a) s' Q E) E) :
    Ends (act >>= f) s Q E := by
  unfold Ends at h ⊢
  simp only [Bind.bind, EStateM.bind]
  cases hrun : act s with
  | ok a s' =>
    rw [hrun] at h
    exact h
  | error e s' =>
    rw [hrun] at h
    exact h

/-- One piece of work after another, whatever the first one gives. -/
theorem Ends.bind_any {f : α → EStateM Stop σ β} {Q : β → σ → Prop}
    (h : ∀ a s', Ends (f a) s' Q fun _ _ => True) :
    Ends (act >>= f) s Q fun _ _ => True := by
  refine Ends.bind ?_
  unfold Ends
  split
  · exact h _ _
  · trivial

/-- Some work is done for one element after another. -/
theorem Ends.forM {xs : List α} {f : α → EStateM Stop σ PUnit} {I E : σ → Prop}
    (hs : I s) (h : ∀ x ∈ xs, ∀ s, I s → Ends (f x) s (fun _ => I) fun _ => E) :
    Ends (xs.forM f) s (fun _ => I) fun _ => E := by
  induction xs generalizing s with
  | nil => exact Ends.of_run rfl hs
  | cons x xs ih =>
    obtain ⟨hx, hxs⟩ := List.forall_mem_cons.1 h
    unfold List.forM
    exact Ends.bind ((hx s hs).imp (fun _ s hs => ih hs hxs) fun _ _ => id)

end JobWeave
