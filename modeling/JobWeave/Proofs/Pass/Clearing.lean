import Mathlib
import JobWeave.Proofs.Pass.Filling
import JobWeave.Proofs.Splice.Bindings
import JobWeave.Proofs.Splice.Conversion
import JobWeave.Sample.Tick
import JobWeave.Workspace.World

/-!
# What a method does with closures when they have become value types

The closures of a method are converted once all its chains are replaced.  The
delegates to the lambdas of the chains are gone by then, and where the
conversion is permitted no other code of the method points into a closure class.

* `Body.Spans.binds_first`: what is left of a delegate binds nothing.
* `Weave.Replaces` says that every chain of a method was replaced.
* `Weave.conversion_clears`: what is converted after that, and what the code
  does not do any more.
-/

namespace JobWeave

open Framework Std.Do

set_option mvcgen.warning false

variable {w w₁ w' : World} {m : MethodId} {cs : List Chain} {us : List Plan}
  {s : Settings}

/-- The first instruction of a delegate pushes what it is bound to, or what is
kept of it. -/
theorem Body.Spans.binds_first {b : Body} {n : Nat} {d : Delegate} {i : Instr}
    (h : b.Spans n d) (hb : b.HasOwnLabels) (hi : i ∈ b.code)
    (hl : i.label = d.first) : i.op.binds = false := by
  obtain ⟨k, hk⟩ := List.getElem?_of_mem hi
  obtain rfl := h.eq_of_first hb hk hl.symm
  have hop := opAt?_eq hk
  have hout := h.outline
  generalize d.labels.length = len at hout
  cases hout with
  | simple hfirst hloads =>
    obtain rfl := Option.some.inj (hop.symm.trans hfirst)
    revert hloads
    cases i.op <;> simp [loadsReceiver, Opcode.loadsLocal, Opcode.loadsArg,
      Opcode.binds]
  | cached hfirst =>
    rw [Option.some.inj (hop.symm.trans hfirst)]
    rfl

/-- If the attempt ends with plans, these have a property. -/
def Attempt.Delivers (P : List Plan → Prop) : Attempt → Prop
  | .done us _ _ => us ≠ [] → P us
  | .retry _ => True

theorem Attempt.Delivers.imp {P Q : List Plan → Prop} {r : Attempt}
    (h : r.Delivers P) (hPQ : ∀ us, P us → Q us) : r.Delivers Q := by
  cases r with
  | done us => exact fun hne => hPQ us (h hne)
  | retry => trivial

/-- Every chain of a method was replaced: all definitions but the code of the
method and its copies are as they were, and what the code binds it bound before,
outside the chains' delegates. -/
structure Workspace.Replaces (V : Workspace) (m : MethodId) (cs : List Chain)
    (w : Workspace) : Prop where
  /-- everything else -/
  frame : V.Frame Eq (V.kin m) w
  /-- what the code binds -/
  binds : ∀ i ∈ (w.method m).code.code, i.op.binds = true →
    i ∈ (V.method m).code.code ∧ ∀ c ∈ cs, i.label ∉ c.delegate.rest

namespace Weave

/-- The end of a replacement: the closures are converted, or the code is put
back and there are no plans. -/
theorem converting_ends (b : Body) (done : List Plan) (ds : List Diagnostic) :
    Ends (do
        if let .error f := ← tryFailure (convertClosures m) then
          restoreBody m b
          return .retry [f]
        return .done done ds [] : Weave Attempt) w
      (fun r w' => r.Delivers fun us => us = done ∧
        convertClosures m w = .ok () w')
      fun _ _ => True := by
  refine Ends.bind ((Pass.tryFailure_runs _ w).imp ?_ fun _ _ => id)
  rintro (f | ⟨⟩) w' hrun
  · exact Ends.bind_any fun _ _ => Ends.of_run rfl trivial
  · exact Ends.of_run rfl fun _ => ⟨rfl, hrun⟩

/-- Every chain is replaced and then the closures are converted, or there are no
plans in the end. -/
theorem replacePlans_ends
    (hordinary : ∀ p ∈ w.imports.methods, p.2.name ∉ sourceNames)
    (hus : ∀ u ∈ us, u.chain.method = m) :
    Ends (replacePlans s m us [] true) w
      (fun r w' => r.Delivers fun done => done = us ∧
        ∃ w₁, w.workspace.Replaces m (us.map (·.chain)) w₁.workspace ∧
        convertClosures m w₁ = .ok () w')
      fun _ _ => True := by
  unfold replacePlans
  refine Ends.bind (saveBody_ends.imp ?_ fun _ _ _ => trivial)
  rintro b w ⟨rfl, hb⟩
  have hm : w.workspace.Edits (w.workspace.kin m) m :=
    ⟨Workspace.lt_of_body hb, by rw [hb, Option.isSome_some], subset_rfl⟩
  have htended : Holding (w.workspace.Tended Eq (w.workspace.kin m) m b True)
      w.hooks w :=
    ⟨⟨.refl (fun _ => rfl) _ _, fun _ => ⟨b, hb, .refl b⟩⟩, rfl, hordinary⟩
  have hbinds : w.Has (World.BindsIn (w.workspace.method m).code.code [] m) :=
    ⟨fun i hi _ => ⟨hi, List.not_mem_nil⟩⟩
  refine Ends.bind (((Ends.of_triple (spliceAll_spec hm hus) htended).and
    (Ends.of_triple (spliceAll_unbinds hus) hbinds)).imp ?_
      fun _ _ _ => trivial)
  rintro ⟨done, ds, fs⟩ w₁ ⟨⟨htended, hdone⟩, hunbound⟩
  cases fs with
  | cons f fs => exact Ends.bind_any fun _ _ => Ends.of_run rfl trivial
  | nil =>
    obtain rfl : done = us := by simpa using hdone.all rfl
    have hreplaces : w.workspace.Replaces m (done.map (·.chain))
        w₁.workspace := by
      refine ⟨htended.workspace.frame, fun i hi hop => ?_⟩
      obtain ⟨hbefore, hgone⟩ := (hunbound rfl).bindsIn i hi hop
      refine ⟨hbefore, fun c hc hrest => hgone ?_⟩
      obtain ⟨u, hu, rfl⟩ := List.mem_map.1 hc
      exact List.mem_flatMap.2 ⟨u, List.mem_reverse.2 hu, hrest⟩
    have hconvert : Ends _ w₁ (fun (r : Attempt) w' => r.Delivers fun us =>
        us = done ∧
          ∃ w₁, w.workspace.Replaces m (done.map (·.chain)) w₁.workspace ∧
            convertClosures m w₁ = .ok () w') fun _ _ => True :=
      (converting_ends b done ds).imp (fun _ _ hr =>
        hr.imp fun _ h => ⟨h.1, w₁, hreplaces, h.2⟩) fun _ _ => id
    simp only [List.nil_append, List.isEmpty_nil, Bool.not_true, Bool.and_false,
      Bool.false_eq_true, if_false, if_true]
    split
    · exact Ends.of_run rfl fun hne => absurd rfl hne
    · split
      · -- the code is validated before
        refine Ends.bind (Ends.of_run rfl (Ends.bind (Ends.of_run rfl ?_)))
        have hbody : ⦃fun w' => ⌜w' = w₁⌝⦄ bodyOf m
            ⦃post⟨fun _ w' => ⌜w' = w₁⌝, fun _ _ => ⌜True⌝⟩⦄ := by mvcgen
        refine Ends.bind ((Ends.of_triple hbody rfl).imp ?_ fun _ _ => id)
        rintro c _ rfl
        split
        · exact Ends.bind_any fun _ _ => Ends.of_run rfl fun hne =>
            absurd rfl hne
        · exact hconvert
      · exact hconvert

/-- Planning changes none of the definitions that were there. -/
theorem attemptMethod_ends
    (hordinary : ∀ p ∈ w.imports.methods, p.2.name ∉ sourceNames)
    (hm : m.index < w.workspace.methods.size) (hcs : ∀ c ∈ cs, c.method = m) :
    Ends (attemptMethod s m cs true) w
      (fun r w' => r.Delivers fun us => us.map (·.chain) = cs ∧
        ∃ w₁, w.workspace.Replaces m cs w₁.workspace ∧
          convertClosures m w₁ = .ok () w')
      fun _ _ => True := by
  have hstart : Holding w.workspace.Extends w.hooks w :=
    ⟨.refl (fun _ => rfl) _ _, rfl, hordinary⟩
  unfold attemptMethod
  refine Ends.bind ((Ends.of_triple planAll_spec hstart).imp ?_
    fun _ _ _ => trivial)
  rintro ⟨us, fs⟩ w₁ ⟨hdrafted, hplanned⟩
  cases fs with
  | cons f fs => exact Ends.of_run rfl trivial
  | nil =>
    obtain ⟨hextends, -⟩ := hdrafted.workspace
    obtain rfl := hplanned.all rfl
    have hcode : w₁.workspace.method m = w.workspace.method m :=
      hextends.method_eq hm (Set.notMem_empty m)
    refine (replacePlans_ends hdrafted.ordinary fun u hu =>
      hcs _ (List.mem_map_of_mem hu)).imp (fun r w' hr => hr.imp ?_)
        fun _ _ => id
    rintro done ⟨rfl, w₂, hreplaces, hrun⟩
    refine ⟨rfl, w₂, ⟨?_, hcode ▸ hreplaces.binds⟩, hrun⟩
    exact (Workspace.Undone.of_extends hextends hm).frame.trans_kin
      (fun _ _ _ => Eq.trans) hreplaces.frame hm

/-- The closures become value types only where the method permits it before any
change. -/
theorem attemptChains_ends
    (hordinary : ∀ p ∈ w.imports.methods, p.2.name ∉ sourceNames)
    (hcs : ∀ c ∈ cs, c.method = m) :
    Ends (attemptChains s m cs) w
      (fun r w' => r.1 = true → r.2.Delivers fun us => us.map (·.chain) = cs ∧
        (∀ i ∈ (w.workspace.method m).code.code, ∀ t,
          w.workspace.pointed? (w.resolver.refresh w.workspace) i = some t →
            i.label ∈ cs.flatMap (·.delegate.labels)) ∧
        ∃ w₁, w.workspace.Replaces m cs w₁.workspace ∧
          convertClosures m w₁ = .ok () w')
      fun _ _ => True := by
  -- a second attempt leaves the closures classes
  have htail : ∀ {P : World → List Plan → Prop} (asStruct : Bool) (w₁ : World),
      (asStruct = true → Ends (attemptMethod s m cs true) w₁
        (fun r w' => r.Delivers (P w')) fun _ _ => True) →
      Ends (do
        match ← attemptMethod s m cs asStruct with
        | .done plans warnings failures =>
          return (asStruct, .done plans warnings failures)
        | .retry carried =>
          return (false, (← attemptMethod s m cs false).carrying carried) :
        Weave (Bool × Attempt)) w₁
        (fun r w' => r.1 = true → r.2.Delivers (P w')) fun _ _ => True := by
    intro P asStruct w₁ h
    have hclasses : ∀ {r : Attempt} {w' : World},
        Ends (pure (false, r) : Weave (Bool × Attempt)) w'
          (fun r w' => r.1 = true → r.2.Delivers (P w')) fun _ _ => True :=
      Ends.of_run rfl fun h => by cases h
    cases asStruct with
    | false =>
      refine Ends.bind_any fun r w' => ?_
      cases r with
      | done => exact hclasses
      | retry => exact Ends.bind_any fun _ _ => hclasses
    | true =>
      refine Ends.bind ((h rfl).imp (fun r w' hr => ?_) fun _ _ => id)
      cases r with
      | done => exact Ends.of_run rfl fun _ => hr
      | retry => exact Ends.bind_any fun _ _ => hclasses
  unfold attemptChains
  split
  · exact Ends.bind (Ends.of_run rfl (htail false w fun h => by cases h))
  · have hkeeps : Keeps (· = w.workspace) w.hooks (canConvertClosures m cs) :=
      canConvertClosures_keeps
    refine Ends.bind
      (((Ends.of_triple (canConvertClosures_reads m cs) ⟨rfl, rfl⟩).and
        (Ends.of_triple hkeeps ⟨rfl, rfl, hordinary⟩)).imp ?_
          fun _ _ _ => trivial)
    rintro ok w₁ ⟨⟨hshows, hpermits⟩, hholding⟩
    refine htail ok w₁ ?_
    rintro rfl
    obtain ⟨hbody, howned⟩ := hpermits rfl
    obtain ⟨b, hb⟩ := Option.isSome_iff_exists.1 hbody
    rw [← hshows.workspace] at hb
    refine (attemptMethod_ends hholding.ordinary (Workspace.lt_of_body hb)
      hcs).imp (fun r w' hr => hr.imp ?_) fun _ _ => id
    rintro us ⟨hus, w₂, hreplaces, hrun⟩
    exact ⟨hus, howned, w₂, hshows.workspace ▸ hreplaces, hrun⟩

/-- The chains that are read are those of the method, and their delegates stand
in its code. -/
theorem chainsIn_ends
    (hordinary : ∀ p ∈ w.imports.methods, p.2.name ∉ sourceNames) :
    Ends (chainsIn m) w
      (fun results w' => Holding (· = w.workspace) w.hooks w' ∧
        ∀ c ∈ results.filterMap Except.toOption, c.method = m ∧
          ∃ n, (w.workspace.method m).code.Spans n c.delegate)
      fun _ _ => True := by
  cases hls : (w.workspace.method m).sources with
  | error e =>
    unfold chainsIn
    refine Ends.bind (Ends.of_run rfl (Ends.bind ?_))
    rw [hls]
    trivial
  | ok ls =>
    have hgives := chainsIn_gives (I := (· = w.workspace)) (H := w.hooks)
      (fun _ h => congrArg (fun V => (V.methodEntry m).owner) h)
      (fun _ h => congrArg (fun V => V.method m) h) hls
    refine (Ends.of_triple hgives ⟨rfl, rfl, hordinary⟩).imp ?_
      fun _ _ _ => trivial
    rintro results w' ⟨hw', hread⟩
    refine ⟨hw', fun c hc => ?_⟩
    obtain ⟨r, hr, hc⟩ := List.mem_filterMap.1 hc
    obtain ⟨k, hk, rfl⟩ := List.mem_iff_getElem.1 hr
    have hat := hread.get (hread.length_eq ▸ hk) hk
    cases hresult : results[k] with
    | error f => simp [hresult, Except.toOption] at hc
    | ok c' =>
      obtain rfl : c' = c := by simpa [hresult, Except.toOption] using hc
      rw [List.get_eq_getElem, List.get_eq_getElem, hresult] at hat
      exact ⟨hat.method, hat.delegate⟩

/-- Where the closures of a method become value types, every chain of the method
is replaced first, and then just those closures are converted that its code
still allocates: they become value types without a constructor.  Afterwards the
code allocates no closure class, and nothing in it points into one, so it makes
no delegate from a closure. -/
theorem conversion_clears {w₀ : World} {results : List (Except Failure Chain)}
    {ds : List Diagnostic} {fs : List Failure}
    (hordinary : ∀ p ∈ w₀.imports.methods, p.2.name ∉ sourceNames)
    (hlabels : (w₀.workspace.method m).code.HasOwnLabels)
    (hchains : chainsIn m w₀ = .ok results w)
    (hrun : attemptChains s m (results.filterMap Except.toOption) w =
      .ok (true, .done us ds fs) w') (hne : us ≠ []) :
    us.map (·.chain) = results.filterMap Except.toOption ∧
    ∃ w₁, w.workspace.Replaces m (us.map (·.chain)) w₁.workspace ∧
      convertClosures m w₁ = .ok () w' ∧
      w₁.workspace.Converts
        (w₁.workspace.closuresOf (w₁.resolver.refresh w₁.workspace) m)
          w'.workspace ∧
      ∀ i ∈ (w'.workspace.method m).code.code,
        w₁.workspace.allocated? (w₁.resolver.refresh w₁.workspace) i = none ∧
        w.workspace.pointed? (w.resolver.refresh w.workspace) i = none := by
  have hread := chainsIn_ends (m := m) hordinary
  rw [Ends, hchains] at hread
  obtain ⟨⟨hsame, -, hordinary'⟩, hread⟩ := hread
  have hends := attemptChains_ends (s := s) hordinary'
    fun c hc => (hread c hc).1
  rw [Ends, hrun] at hends
  obtain ⟨hus, howned, w₁, hreplaces, hconvert⟩ := hends rfl hne
  have hconverted := convertClosures_ends (m := m) (w := w₁) ⟨rfl, rfl⟩
  rw [Ends, hconvert] at hconverted
  refine ⟨hus, w₁, hus ▸ hreplaces, hconvert, hconverted.1, fun i hi =>
    ⟨(hconverted.2 i hi).1, ?_⟩⟩
  rw [Option.eq_none_iff_forall_ne_some]
  intro t ht
  have hop := Workspace.op_of_pointed? ht
  obtain ⟨j, hj, hmarks⟩ :=
    (hconverted.2 i hi).2 (by rcases hop with hop | hop <;> simp [hop])
    (by rcases hop with hop | hop <;> simp [hop])
  obtain ⟨hlabel, hsameop, -⟩ := Instr.mk.inj hmarks
  have hbinds : j.op.binds = true := by
    rw [← hsameop]
    rcases hop with hop | hop <;> rw [hop] <;> rfl
  rw [← Workspace.pointed?_unmarked, hmarks, Workspace.pointed?_unmarked] at ht
  -- what points into a closure is in a delegate of the chains, and not after
  -- its receiver
  obtain ⟨hbefore, hgone⟩ := hreplaces.binds j hj hbinds
  obtain ⟨c, hc, hin⟩ := List.mem_flatMap.1 (howned j hbefore t ht)
  obtain ⟨-, n, hspans⟩ := hread c hc
  rcases List.mem_cons.1 hin with hfirst | hrest
  · rw [hsame] at hbefore
    have := hspans.binds_first hlabels hbefore hfirst
    rw [hbinds] at this
    cases this
  · exact hgone c hc hrest

/-- Whether closures were converted for one plan. -/
def convertsOne : Bool × Attempt → Bool
  | (true, .done us _ _) => us.length == 1
  | _ => false

/-- The system of a module with one closure and one chain. -/
theorem tick_clears :
    let w₀ := (World.ofModules [Sample.tickModule TypeName.systemBase
      Sample.scheduleSteps, Sample.tickFramework]).1
    (∀ p ∈ w₀.imports.methods, p.2.name ∉ sourceNames) ∧
    (w₀.workspace.method ⟨0⟩).code.HasOwnLabels ∧
    ∃ results w us ds fs w' w₁, chainsIn ⟨0⟩ w₀ = .ok results w ∧
      attemptChains {} ⟨0⟩ (results.filterMap Except.toOption) w =
        .ok (true, .done us ds fs) w' ∧ us.length = 1 ∧
      us.map (·.chain) = results.filterMap Except.toOption ∧
      w.workspace.Replaces ⟨0⟩ (us.map (·.chain)) w₁.workspace ∧
      convertClosures ⟨0⟩ w₁ = .ok () w' ∧
      w₁.workspace.Converts
        (w₁.workspace.closuresOf (w₁.resolver.refresh w₁.workspace) ⟨0⟩)
          w'.workspace ∧
      ∀ i ∈ (w'.workspace.method ⟨0⟩).code.code,
        w₁.workspace.allocated? (w₁.resolver.refresh w₁.workspace) i = none ∧
        w.workspace.pointed? (w.resolver.refresh w.workspace) i = none := by
  rw [Sample.tickFramework_eq]
  intro w₀
  have hordinary : ∀ p ∈ w₀.imports.methods, p.2.name ∉ sourceNames := by
    decide +kernel
  have hlabels : (w₀.workspace.method ⟨0⟩).code.HasOwnLabels := by
    decide +kernel
  have hrun : delivers (chainsIn ⟨0⟩) w₀ (fun results w =>
      delivers (attemptChains {} ⟨0⟩ (results.filterMap Except.toOption)) w
        fun r _ => convertsOne r) = true := by
    decide +kernel
  obtain ⟨results, w, hchains, hrun⟩ := exists_of_delivers hrun
  obtain ⟨⟨_ | _, us | _⟩, w', hattempt, htest⟩ := exists_of_delivers hrun
  all_goals first | cases htest | skip
  rename_i ds fs
  have hlen : us.length = 1 := by simpa [convertsOne] using htest
  have hne : us ≠ [] := by
    rintro rfl
    cases hlen
  obtain ⟨hus, w₁, hclears⟩ :=
    conversion_clears hordinary hlabels hchains hattempt hne
  exact ⟨hordinary, hlabels, results, w, us, ds, fs, w', w₁, hchains, hattempt,
    hlen, hus, hclears⟩

end Weave

end JobWeave
