import Mathlib
import JobWeave.Proofs.Weave.Triple
import JobWeave.Proofs.Workspace.Lineage

/-!
# Looking things up in a universe that is known

Where the definitions and the universe of a world are known, it is known what a
look-up gives.  The universe of a world may be out of date; it is the one that
is brought up to date that counts.
-/

namespace JobWeave

open Std.Do

set_option mvcgen.warning false

variable {V : Workspace} {u : Universe}

/-- The definitions are `V`, and references are resolved in `u`. -/
structure World.Shows (V : Workspace) (u : Universe) (w : World) : Prop where
  /-- the definitions -/
  workspace : w.workspace = V
  /-- the universe, brought up to date -/
  resolver : w.resolver.refresh V = u

namespace Weave

/-- Work that only looks things up gives a result with a property. -/
abbrev Reads {α : Type} (V : Workspace) (u : Universe) (R : α → Prop)
    (act : Weave α) : Prop :=
  ⦃fun w => ⌜w.Shows V u⌝⦄ act
    ⦃post⟨fun r w => ⌜w.Shows V u ∧ R r⌝, fun _ _ => ⌜True⌝⟩⦄

/-- The universe is known, and it is there. -/
theorem resolver_shows :
    ⦃fun w => ⌜w.Shows V u⌝⦄ resolver ⦃⇓ r w => ⌜w.Shows V u ∧ r = u⌝⦄ := by
  refine triple_iff.2 fun w hw => ?_
  obtain ⟨rfl, rfl⟩ := hw
  exact ⟨⟨rfl, Universe.refresh_refresh _ _⟩, rfl⟩

theorem resolver_reads : Reads V u (· = u) resolver := by
  have hresolver := resolver_shows (V := V) (u := u)
  mvcgen [hresolver, -resolver_keeps]
  exact And.intro

theorem resolveMethod_reads {r : MethodRef} :
    Reads V u (fun o => u.resolveMethod? V r = some o) (resolveMethod r) := by
  have hresolver := resolver_reads (V := V) (u := u)
  mvcgen [resolveMethod, hresolver, -resolver_keeps]
  all_goals grind [World.Shows]

end Weave

end JobWeave
