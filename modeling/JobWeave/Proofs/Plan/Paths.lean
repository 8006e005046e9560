import Mathlib
import JobWeave.Proofs.Plan.Edits

/-!
# The paths of captured variables

An access to a captured variable loads the closure of the lambda, from there one
enclosing closure after another, and at last the variable.  The fields on the
way are its path.

* `Workspace.namesClosure` says which types are closures, `MethodDef.Loads`
  which closures an instruction loads, and `MethodDef.Accesses` which accesses
  there are.
* `MethodDef.Accesses.path_eq`: an instruction accesses one variable at most.
* `Planning.captures_lists`: the accesses that are found are all there are.
-/

namespace JobWeave

open Framework Std.Do

set_option mvcgen.warning false

/-! ## Closures -/

/-- The reference names a closure, which the job itself is not. -/
def Workspace.namesClosure (V : Workspace) (u : Universe) (job : TypeId)
    (t : TypeRef) : Bool :=
  !t.isAbsent && t.element.openName != V.typeName job &&
    (u.resolve? t).any fun id => isClosureName (V.type id).head.name

variable {V : Workspace} {u : Universe} {O : Outline} {I : Workspace → Prop}

namespace Planning

theorem isClosure_names {t : TypeRef} :
    Yields (World.Filling V u O.job I) O (· = V.namesClosure u O.job t)
      (isClosure t) := by
  have hname : ∀ {w : World}, w.Has (World.Filling V u O.job I) → ∀ t,
      w.workspace.typeName t = V.typeName t :=
    fun hw => hw.holds.fills.typeName_eq
  have hhead : ∀ {w : World}, w.Has (World.Filling V u O.job I) → ∀ t,
      (w.workspace.type t).head.name = (V.type t).head.name := fun hw t => by
    rw [hw.holds.fills.head_eq]
  unfold isClosure
  mvcgen [Weave.resolver_filling, -Weave.resolver_preserves,
    -Weave.resolver_keeps]
  all_goals grind [Workspace.namesClosure, Plan.Follows]

end Planning

/-! ## Paths -/

/-- The fields that some instructions load, the last instruction first. -/
def MethodDef.fieldsAt (d : MethodDef) (ls : List Label) : List FieldRef :=
  ls.reverse.filterMap fun l => (d.code.get l).field?.join

/-- The instruction loads a field with a closure from a closure. -/
structure Instr.LoadsClosure (C : TypeRef → Bool) (i : Instr) (f : FieldRef) :
    Prop where
  /-- the operation -/
  op : i.op = .ldfld ∨ i.op = .ldflda
  /-- the field -/
  operand : i.operand = .field (some f)
  /-- it belongs to a closure -/
  owner : C f.owner = true
  /-- it holds one -/
  type : C f.type = true

/-- The instruction loads the closure that some fields lead to from the
instance. -/
inductive MethodDef.Loads (d : MethodDef) (C : TypeRef → Bool) :
    Label → List FieldRef → Prop
  | this {l : Label} (h : (d.code.get l).loadsThis) : Loads d C l []
  | hop {l p : Label} {f : FieldRef} {hops : List FieldRef}
    (hload : (d.code.get l).LoadsClosure C f) (hpusher : d.pusher 0 l =
      .ok (some p))
    (h : Loads d C p hops) : Loads d C l (hops ++ [f])

/-- The instruction accesses the captured variable that a path leads to. -/
inductive MethodDef.Accesses (d : MethodDef) (C : TypeRef → Bool) (i : Instr) :
    List FieldRef → Prop
  | intro {p : Label} {hops : List FieldRef} {leaf : FieldRef}
    (hop : i.op.accessesField) (hfield : i.operand = .field (some leaf))
      (howner : C leaf.owner = true)
    (htype : C leaf.type = false) (hpusher : d.pusher 0 i.label = .ok (some p))
    (h : d.Loads C p hops) : Accesses d C i (hops ++ [leaf])

variable {d : MethodDef} {C : TypeRef → Bool}

theorem Instr.LoadsClosure.not_loadsThis {i : Instr} {f : FieldRef}
    (h : i.LoadsClosure C f) :
    i.loadsThis = false := by
  rcases h.op with hop | hop <;> simp [loadsThis, loadArg?, hop]

theorem MethodDef.Loads.hops_eq {l : Label} {hops hops' : List FieldRef}
    (h : d.Loads C l hops) (h' : d.Loads C l hops') : hops = hops' := by
  induction h generalizing hops' with
  | this h =>
    cases h' with
    | this => rfl
    | hop hload => simp [hload.not_loadsThis] at h
  | hop hload hpusher _ ih =>
    cases h' with
    | this h => simp [hload.not_loadsThis] at h
    | hop hload' hpusher' h' =>
      rw [hpusher] at hpusher'
      cases hpusher'
      have hfield := hload.operand.symm.trans hload'.operand
      cases hfield
      rw [ih h']

/-- An instruction accesses one variable at most. -/
theorem MethodDef.Accesses.path_eq {i : Instr} {path path' : List FieldRef}
    (h : d.Accesses C i path) (h' : d.Accesses C i path') : path = path' := by
  obtain ⟨-, hfield, -, -, hpusher, h⟩ := h
  obtain ⟨-, hfield', -, -, hpusher', h'⟩ := h'
  rw [hpusher] at hpusher'
  cases hpusher'
  cases hfield.symm.trans hfield'
  rw [h.hops_eq h']

/-! ## The accesses that are found -/

/-- The fields from the lambda's closure to the variable. -/
def Capture.path (c : Capture) : List FieldRef :=
  c.hops ++ [c.leaf]

/-- The access is one of the instruction. -/
structure Capture.IsAt (c : Capture) (d : MethodDef) (C : TypeRef → Bool)
    (i : Instr) : Prop where
  /-- the instruction -/
  label : c.label = i.label
  /-- the variable -/
  accesses : d.Accesses C i c.path
  /-- the loads on the way are loads of closures -/
  hops : ∀ l ∈ c.hopLabels, ∃ f, (d.code.get l).LoadsClosure C f

/-- The accesses are those of the code to captured variables. -/
structure MethodDef.Lists (d : MethodDef) (C : TypeRef → Bool)
    (found : List Capture) : Prop where
  /-- each is one of an instruction -/
  sound : ∀ c ∈ found, ∃ i ∈ d.code.code, c.IsAt d C i
  /-- each instruction that accesses a variable is there -/
  complete : ∀ i ∈ d.code.code, ∀ path, d.Accesses C i path →
    ∃ c ∈ found, c.label = i.label ∧ c.path = path
  /-- no two are at one instruction -/
  nodup : d.code.HasOwnLabels → (found.map Capture.label).Nodup

/-- What is found at each instruction lists the accesses of the code. -/
theorem MethodDef.lists_of_forall₂ {os : List (Option Capture)}
    (h : List.Forall₂ (fun i o => (∀ c ∈ o, c.IsAt d C i) ∧
      ∀ path, d.Accesses C i path → ∃ c, o = some c) d.code.code os) :
    d.Lists C (os.filterMap id) where
  sound c hc := by
    obtain ⟨o, ho, rfl⟩ := List.mem_filterMap.1 hc
    obtain ⟨n, hn, hget⟩ := List.getElem_of_mem ho
    have hn' : n < d.code.code.length := h.length_eq ▸ hn
    exact ⟨_, List.getElem_mem hn', (h.get hn' hn).1 c hget⟩
  complete i hi path hpath := by
    obtain ⟨n, hn, rfl⟩ := List.getElem_of_mem hi
    have hn' : n < os.length := h.length_eq ▸ hn
    obtain ⟨hsound, hfound⟩ := h.get hn hn'
    obtain ⟨c, hc⟩ := hfound path hpath
    have hat := hsound c hc
    exact ⟨c, List.mem_filterMap.2 ⟨_, List.getElem_mem hn', hc⟩, hat.label,
      hat.accesses.path_eq hpath⟩
  nodup hlabels := by
    unfold Body.HasOwnLabels at hlabels
    have hsub : ((os.filterMap id).map Capture.label).Sublist
        (d.code.code.map Instr.label) := by
      clear hlabels
      generalize d.code.code = is at h
      induction h with
      | nil => exact List.Sublist.refl _
      | @cons i o _ _ hio _ ih =>
        cases o with
        | none => simpa using ih.cons _
        | some c => simpa [(hio.1 c rfl).label] using ih.cons_cons i.label
    exact hlabels.sublist hsub

namespace Planning

theorem loadsEnclosing_loads {i : Instr} :
    Yields (World.Filling V u O.job I) O
      (fun a => a = true → ∃ f, i.LoadsClosure (V.namesClosure u O.job) f)
        (loadsEnclosing i) := by
  have hload : ∀ {f : FieldRef}, ¬(i.op != .ldfld && i.op != .ldflda) = true →
      i.field?.join = some f → V.namesClosure u O.job f.owner = true →
        V.namesClosure u O.job f.type = true →
          ∃ f, i.LoadsClosure (V.namesClosure u O.job) f := by
    intro f hop hf howner htype
    refine ⟨f, ?_, Instr.operand_of_field? hf, howner, htype⟩
    by_contra hc
    exact hop (by simpa using hc)
  unfold loadsEnclosing isClosureField
  mvcgen [isClosure_names, -isClosure_preserves, -isClosure_keeps]
  all_goals grind -ring -linarith

/-- Walking back over the loads of closures. -/
theorem walkBack_loads (fuel : Nat) (start : Option Label) :
    Yields (World.Filling V u O.job I) O
      (fun r => (∀ l ∈ r.1, ∃ f,
        (d.code.get l).LoadsClosure (V.namesClosure u O.job) f) ∧
        ∀ this, r.2 = some this → (d.code.get this).loadsThis →
          ∃ p, start = some p ∧ d.Loads (V.namesClosure u O.job) p
            (d.fieldsAt r.1))
      (walkBack d loadsEnclosing fuel start) := by
  have hthis : ∀ {l : Label}, (d.code.get l).loadsThis →
      d.Loads (V.namesClosure u O.job) l (d.fieldsAt []) := fun h => .this h
  induction fuel generalizing start with
  | zero =>
    mvcgen [walkBack, -walkBack_preserves, -walkBack_keeps]
    grind -ring -linarith
  | succ fuel ih =>
    cases start with
    | none =>
      mvcgen [walkBack, -walkBack_preserves, -walkBack_keeps]
      grind -ring -linarith
    | some l =>
      have hhop : ∀ {p ls f}, (d.code.get l).LoadsClosure
        (V.namesClosure u O.job) f →
          d.pusher 0 l = .ok (some p) →
          d.Loads (V.namesClosure u O.job) p (d.fieldsAt ls) →
          d.Loads (V.namesClosure u O.job) l (d.fieldsAt (l :: ls)) := by
        intro p ls f hload hpusher h
        have hfields : d.fieldsAt (l :: ls) = d.fieldsAt ls ++ [f] := by
          simp [MethodDef.fieldsAt, Instr.field?, hload.operand]
        rw [hfields]
        exact .hop hload hpusher h
      have hpusher := Weave.ofOutcome_yields (o := d.pusher 0 l)
        (J := World.Filling V u O.job I)
      mvcgen [walkBack, loadsEnclosing_loads, ih, hpusher, -walkBack_preserves,
        -walkBack_keeps, -loadsEnclosing_preserves, -loadsEnclosing_keeps,
        -Weave.ofOutcome_preserves, -Weave.ofOutcome_gives]
      · rename_i h
        exact h.1.world
      · rename_i h _ _ hw
        exact ⟨hw.1, h.1.plan⟩
      · rename_i haccepts _ _ hl _ _ hp _ _ _ h
        obtain ⟨f, hf⟩ := hl.2 haccepts
        refine ⟨h.1, ?_, fun this hlast hloads => ⟨l, rfl, ?_⟩⟩
        · exact List.forall_mem_cons.2 ⟨⟨f, hf⟩, h.2.1⟩
        · obtain ⟨p, hstart, hwalk⟩ := h.2.2 this hlast hloads
          exact hhop hf (hp.2.trans (congrArg Except.ok hstart)) hwalk
      · rename_i h
        refine ⟨h.1, by simp, fun this hlast hloads => ⟨l, rfl, hthis ?_⟩⟩
        rwa [Option.some.inj hlast]

/-- An access that is found is one, and where none is found there is none. -/
theorem captureAt_accesses {m : MethodId} {i : Instr} :
    Yields (World.Filling V u O.job I) O
      (fun o => (∀ c ∈ o, c.IsAt d (V.namesClosure u O.job) i) ∧
        ∀ path, d.Accesses (V.namesClosure u O.job) i path → ∃ c, o = some c)
      (captureAt m d i) := by
  have hpusher := Weave.ofOutcome_yields (o := d.pusher 0 i.label)
    (J := World.Filling V u O.job I)
  have hrefuse : ∀ args, ⦃fun v w => ⌜Sketch (World.Filling V u O.job I) O v w⌝⦄
      (refuseAt .dcice004 m i.label args : Planning PUnit)
      ⦃post⟨fun _ _ _ => ⌜False⌝,
        fun _ w => ⌜w.Has (World.Filling V u O.job I)⌝⟩⦄ :=
    fun _ => refuseAt_stops
  -- an instruction that is passed over accesses no variable
  have hnone : ∀ {v w}, Sketch (World.Filling V u O.job I) O v w →
      (∀ path, ¬d.Accesses (V.namesClosure u O.job) i path) →
      Sketch (World.Filling V u O.job I) O v w ∧
        (∀ c ∈ (none : Option Capture), c.IsAt d (V.namesClosure u O.job) i) ∧
        ∀ path, d.Accesses (V.namesClosure u O.job) i path → ∃ c : Capture,
        none = some c :=
    fun h hno => ⟨h, by simp, fun path hpath => absurd hpath (hno path)⟩
  have hleaf : ∀ {leaf}, i.field?.join = some leaf → ∀ {path},
      d.Accesses (V.namesClosure u O.job) i path →
        V.namesClosure u O.job leaf.owner = true ∧
        V.namesClosure u O.job leaf.type = false := by
    intro leaf hf path hpath
    obtain ⟨-, hfield, howner, htype, -, -⟩ := hpath
    cases hfield.symm.trans (Instr.operand_of_field? hf)
    exact ⟨howner, htype⟩
  unfold captureAt isClosureField
  mvcgen [isClosure_names, walkBack_loads, hpusher, hrefuse,
    -isClosure_preserves, -isClosure_keeps, -walkBack_preserves,
    -walkBack_keeps, -Weave.ofOutcome_preserves, -Weave.ofOutcome_gives,
    -refuseAt_preserves, -refuseAt_keeps]
  · rename_i hop _ _ h
    refine hnone h fun path hpath => ?_
    obtain ⟨hop', -⟩ := hpath
    simp [hop'] at hop
  · rename_i hf _ howner _ _ h
    refine hnone h.1 fun path hpath => ?_
    simp [h.2, (hleaf hf hpath).1] at howner
  · rename_i h
    exact h.1
  · rename_i hf _ _ _ _ _ _ htype _ _ h
    refine hnone h.1 fun path hpath => ?_
    simp [h.2, (hleaf hf hpath).2] at htype
  · rename_i h
    exact h.1.world
  · rename_i h _ _ hw
    exact ⟨hw.1, h.1.plan⟩
  · rename_i h
    exact h.1
  · rename_i hop _ _ _ leaf hf _ howner _ _ hclosure _ htype _ _ hplain _ _ hp r
      _ hends _ _ h
    obtain ⟨this, hthis⟩ := Option.ne_none_iff_exists'.1 (by simpa using hends)
    obtain ⟨hlast, hloads⟩ := Option.filter_eq_some_iff.1 hthis
    obtain ⟨p, hstart, hwalk⟩ := h.2.2 this hlast hloads
    refine ⟨h.1, fun c hc => ?_, fun _ _ => ⟨_, rfl⟩⟩
    cases hc
    refine ⟨rfl, .intro (by simpa using hop) (Instr.operand_of_field? hf) ?_ ?_
      (hp.2.trans (congrArg Except.ok hstart)) hwalk, h.2.1⟩
    · simpa [hclosure.2] using howner
    · simpa [hplain.2] using htype
  · rename_i h _
    exact h.world

/-- The accesses that are found are those of the code. -/
theorem captures_lists {k : MethodId} (hcode : ∀ W, I W → W.method k = d) :
    Yields (World.Filling V u O.job I) O (d.Lists (V.namesClosure u O.job))
      (captures k) := by
  have hall : ∀ d', d' = d → Yields (World.Filling V u O.job I) O
      (List.Forall₂ (fun i o => (∀ c ∈ o, c.IsAt d (V.namesClosure u O.job) i) ∧
        ∀ path, d.Accesses (V.namesClosure u O.job) i path → ∃ c,
        o = some c) d'.code.code)
      (d'.code.code.mapM (captureAt k d')) := by
    rintro _ rfl
    exact mapM_inv fun i _ => captureAt_accesses
  unfold captures
  mvcgen [hall, -mapM_preserves, -mapM_keeps]
  · rename_i h
    exact hcode _ h.world.holds.holds
  · rename_i h₀ found _ _ h
    have hd := hcode _ h₀.world.holds.holds
    rw [hd] at h
    exact ⟨h.1, MethodDef.lists_of_forall₂ h.2⟩

end Planning

end JobWeave
