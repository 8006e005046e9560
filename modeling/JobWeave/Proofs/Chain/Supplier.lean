import Mathlib
import JobWeave.Proofs.Chain.Thread
import JobWeave.Proofs.World.Reading

/-!
# The lambda of a chain

A chain gets its lambda from a modifier: `ForEach` gives it to a description of
entities or of chunks, `WithCode` to that of a single job.  A chain that is read
has such a modifier, and the first of them is its body.  What comes after it is
only held to the rule for all modifiers: a name that comes again is that of a
method that is declared to be repeatable.

* `Weave.checkModifier_repeats` and `Weave.readCalls_repeats`: the rule for one
  modifier, and for the calls of a whole chain.
* `Weave.analyze_supplies`: where the lambda of a chain comes from.
* `Weave.analyze_secondLambda`: a chain with a modifier of each name is read, so
  its second lambda is lost; and the shape of the job is not compared with the
  name.
-/

namespace JobWeave

open Framework

set_option mvcgen.warning false

/-- The modifier gives the lambda. -/
def Modifier.givesLambda (x : Modifier) : Bool :=
  x.name == Member.forEach || x.name == Member.withCode

/-- The call of the modifier resolves to a method that is declared to be
repeatable. -/
def Modifier.IsRepeatable (V : Workspace) (u : Universe)
    (x : Modifier) : Prop :=
  ∃ id, u.resolveMethod? V x.method = some (some id) ∧
    Attribute.hasName? (V.method id).attributes
      AttributeName.allowMultipleInvocations = some true

/-- A name that comes again is that of a repeatable method. -/
def RepeatsAllowed (V : Workspace) (u : Universe)
    (mods : List Modifier) : Prop :=
  mods.Pairwise fun x y => x.name = y.name → y.IsRepeatable V u

/-- The lambda comes from a modifier, the first of those that give one. -/
structure SuppliedBy (V : Workspace) (u : Universe) (mods : List Modifier)
    (body : Label) (before : List Modifier) (x : Modifier)
    (after : List Modifier) : Prop where
  /-- the modifiers -/
  modifiers : mods = before ++ x :: after
  /-- the modifier gives a lambda -/
  gives : x.givesLambda = true
  /-- it is the body of the chain -/
  body : x.label = body
  /-- no modifier before it gives one -/
  first : ∀ y ∈ before, y.givesLambda = false
  /-- a later one that does has the other name, or is repeatable -/
  later : ∀ y ∈ after, y.givesLambda = true → y.name ≠ x.name ∨
    y.IsRepeatable V u

namespace Weave

variable {m : MethodId} {d : MethodDef} {w : World} {V : Workspace}
  {u : Universe}

/-- Work that only looks things up shows the same definitions afterwards. -/
theorem ends_of_resolving {α : Type} {act : Weave α} (hw : w.Shows V u)
    (h : ∀ (J : World → Prop) [World.Resolving J], Preserves J act) :
    Ends act w (fun _ w' => w'.Shows V u) fun _ _ => True :=
  (Ends.of_triple (h _) ⟨hw⟩).imp (fun _ _ h => h.holds) fun _ _ _ => trivial

/-- A modifier whose name came before is repeatable if it passes the check. -/
theorem checkModifier_repeats {before : List Modifier} {expected : Label}
    {x : Modifier} (hw : w.Shows V u) :
    Ends (checkModifier m d before expected x) w
      (fun _ _ => ∀ y ∈ before, y.name = x.method.name → x.IsRepeatable V u)
      fun _ _ => True := by
  unfold checkModifier
  refine Ends.bind ((Ends.of_triple resolveMethod_reads hw).imp ?_
    fun _ _ => id)
  rintro resolved w₁ ⟨hw₁, hresolved⟩
  cases resolved with
  | none => exact trivial
  | some n =>
    refine Ends.bind (Ends.of_run rfl ?_)
    simp only
    split
    · exact Ends.bind trivial
    split
    · cases hattr : Attribute.hasName? (w₁.workspace.method n).attributes
          AttributeName.allowMultipleInvocations with
      | none => exact Ends.bind trivial
      | some repeatable =>
        refine Ends.bind (Ends.of_run rfl ?_)
        cases repeatable with
        | false => exact Ends.bind trivial
        | true =>
          rw [hw₁.workspace] at hattr
          exact pusher_ends.imp (fun _ _ _ _ _ _ => ⟨n, hresolved, hattr⟩)
            fun _ _ => id
    · rename_i hany
      refine pusher_ends.imp (fun _ _ _ y hy hname => absurd ?_ hany)
        fun _ _ => id
      exact List.any_eq_true.2 ⟨y, hy, by simpa using hname⟩

/-- A modifier has the name of the method that it calls. -/
theorem readModifier_names {i : Instr} {r : MethodRef} :
    Ends (readModifier d i r) w (fun x _ => x.name = x.method.name)
      fun _ _ => True := by
  unfold readModifier
  simp only
  split
  · refine Ends.bind_any fun _ _ => Ends.bind_any fun _ _ =>
      Ends.bind_any fun _ _ => Ends.bind_any fun _ _ => Ends.of_run rfl rfl
  · exact Ends.bind_any fun _ _ => Ends.bind_any fun _ _ => Ends.of_run rfl rfl

/-- The modifiers that are read may be repeated where they are. -/
theorem readCalls_repeats {last : Label} {fuel : Nat} (mods : List Modifier)
    (hw : w.Shows V u) (hmods : RepeatsAllowed V u mods) :
    Ends (readCalls m d fuel last mods) w (fun r _ => RepeatsAllowed V u r.1)
      fun _ _ => True := by
  induction fuel generalizing last mods w with
  | zero => trivial
  | succ fuel ih =>
    unfold readCalls
    refine Ends.bind ((ends_of_resolving hw fun J _ => nextCall_preserves).imp
      ?_ fun _ _ => id)
    rintro ⟨i, r⟩ w₁ hw₁
    simp only
    split
    · exact Ends.of_run rfl hmods
    refine Ends.bind ((readModifier_names.and
      (ends_of_resolving hw₁ fun J _ => readModifier_preserves)).imp ?_
        fun _ _ _ => trivial)
    rintro x w₂ ⟨hname, hw₂⟩
    refine Ends.bind (((checkModifier_repeats hw₂).and
      (ends_of_resolving hw₂ fun J _ => checkModifier_preserves)).imp ?_
        fun _ _ _ => trivial)
    rintro - w₃ ⟨hcheck, hw₃⟩
    refine ih (mods ++ [x]) hw₃
      (List.pairwise_append.2 ⟨hmods, List.pairwise_singleton _ x, ?_⟩)
    intro y hy z hz hyz
    obtain rfl := List.mem_singleton.1 hz
    exact hcheck y hy (hyz.trans hname)

/-- Among modifiers that may be repeated where they are, the first one that
gives a lambda. -/
theorem suppliedBy_of_find {mods : List Modifier} {x : Modifier}
    (hmods : RepeatsAllowed V u mods)
    (hfind : mods.find? Modifier.givesLambda = some x) :
    ∃ before after, SuppliedBy V u mods x.label before x after := by
  obtain ⟨hgives, before, after, hsplit, hfirst⟩ :=
    List.find?_eq_some_iff_append.1 hfind
  refine ⟨before, after, hsplit, hgives, rfl,
    by simpa using hfirst, fun y hy _ => ?_⟩
  rw [RepeatsAllowed, hsplit] at hmods
  have hlater := List.rel_of_pairwise_cons (List.pairwise_append.1 hmods).2.1 hy
  by_cases hname : y.name = x.name
  · exact .inr (hlater hname.symm)
  · exact .inl hname

/-- A chain that is read has a modifier that gives its lambda, which is its
body.  None before it gives one, and one after it that does has the other name
or is declared to be repeatable. -/
theorem analyze_supplies (m : MethodId) (source : Label) (number : Int)
    (w : World) :
    Ends (analyze m source number) w
      (fun c _ => ∃ before x after,
        SuppliedBy w.workspace (w.resolver.refresh w.workspace)
          c.modifiers c.body before x after)
      fun _ _ => True := by
  unfold analyze
  refine Ends.bind (Ends.of_run rfl ?_)
  refine Ends.bind ((ends_of_resolving ⟨rfl, rfl⟩
    fun J _ => ofOutcome_preserves).imp ?_ fun _ _ => id)
  intro kind w₁ hw₁
  cases kind with
  | none => exact trivial
  | some kind =>
    refine Ends.bind ((readCalls_repeats [] hw₁ .nil).imp ?_ fun _ _ => id)
    rintro ⟨mods, last, r⟩ w₂ hmods
    refine Ends.bind_any fun system w₃ => Ends.bind_any fun inBase w₄ =>
      Ends.bind_any fun name w₅ => ?_
    simp only
    split
    · exact trivial
    split
    · exact Ends.bind trivial
    refine Ends.bind_any fun stored w₆ => ?_
    split
    · exact trivial
    rename_i x hfind
    refine Ends.bind_any fun head w₇ => ?_
    split
    · exact Ends.bind trivial
    refine Ends.bind_any fun delegate w₈ => Ends.bind_any fun lambda w₉ => ?_
    cases lambda with
    | none => exact trivial
    | some lambda =>
      obtain ⟨before, after, h⟩ := suppliedBy_of_find hmods hfind
      exact Ends.bind_any fun owner w₁₀ => Ends.of_run rfl ⟨before, x, after, h⟩

/-- The description of a single job also gets the lambda as if it were one of
entities. -/
def tickForEach : MethodRef :=
  { owner := .ofName Ns.entities TypeName.forEachConstructionMethods false,
    name := Member.forEach, ret := .methodParam 0,
    params := [.methodParam 0, .methodParam 1],
    typeArgs := [Sample.tickDescription, Sample.tickDelegate.owner],
    arity := 2 }

/-- A module whose system gives the description of a single job some lambdas and
schedules it. -/
def suppliedWorld (calls : List MethodRef) : World :=
  let give (call : MethodRef) : List Step :=
    [Step.ldloc (.slot 0), Step.ldftn Sample.tickLambda,
      Step.newobj Sample.tickDelegate, Step.call call]
  (World.ofModules [Sample.tickModule TypeName.systemBase
      (Sample.scheduleSteps.take 4 ++ calls.flatMap give ++
        [Step.call Sample.tickSchedule, Step.ret]),
    Sample.tickFramework,
    { name := "Entities",
      types := (Framework.modules.flatMap (·.types)).filter fun t =>
        t.head.name == TypeName.forEachConstructionMethods }]).1

/-- A chain that gives two lambdas is read, and so is one whose only lambda is
given in the way of the other kind of job. -/
theorem analyze_secondLambda :
    (∃ c w, analyze ⟨0⟩ 3 0 (suppliedWorld [Sample.tickWithCode, tickForEach]) =
      .ok c w ∧ c.modifiers.map (·.name) = [Member.withCode, Member.forEach]) ∧
    ∃ c w, analyze ⟨0⟩ 3 0 (suppliedWorld [tickForEach]) = .ok c w ∧
      c.kind = .job ∧ c.modifiers.map (·.name) = [Member.forEach] := by
  have htwo : delivers (analyze ⟨0⟩ 3 0)
    (suppliedWorld [Sample.tickWithCode, tickForEach])
      (fun c _ => c.modifiers.map (·.name) ==
        [Member.withCode, Member.forEach]) = true := by
    rw [suppliedWorld, Sample.tickFramework_eq]
    decide +kernel
  have hother : delivers (analyze ⟨0⟩ 3 0) (suppliedWorld [tickForEach])
      (fun c _ => c.kind == .job && c.modifiers.map (·.name) ==
        [Member.forEach]) = true := by
    rw [suppliedWorld, Sample.tickFramework_eq]
    decide +kernel
  obtain ⟨c, w, hanalyze, htest⟩ := exists_of_delivers htwo
  obtain ⟨c', w', hanalyze', htest'⟩ := exists_of_delivers hother
  simp only [Bool.and_eq_true, beq_iff_eq] at htest htest'
  exact ⟨⟨c, w, hanalyze, htest⟩, c', w', hanalyze', htest'⟩

end Weave

end JobWeave
