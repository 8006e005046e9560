import Mathlib
import JobWeave.Chain.Analysis
import JobWeave.Workspace.Import
import JobWeave.Proofs.Weave.Fault

/-!
# Triples for work on a world

The pass is written in `Weave` and in `Planning`, and what it does is proved
with triples of the program logic.  Most of it only looks definitions up and
imports references; such work leaves the definitions alone and is stated once
for every property of the workspace.

* `Holding I H` is the invariant: the workspace has the property `I`, the
  creation hooks are `H`, and no imported method is a source of chains.
* `Stop.IsSerious` says that a stop, if it is reported, is reported as an error.
* `Weave.Keeps` is the triple of work that keeps the invariant and stops only
  seriously.  There is one lemma for each way to loop over a list and one for
  each operation; the lemmas are tagged so that the logic finds them.
-/

namespace JobWeave

open Framework Std.Do

set_option mvcgen.warning false

/-! ## The invariant -/

/-- The names of the methods that start a chain. -/
def sourceNames : List String :=
  [Member.getEntities, Member.getJob, Member.getChunks]

theorem mem_sourceNames {s : String} :
    s ∈ sourceNames ↔ s = "get_Entities" ∨ s = "get_Job" ∨
    s = "get_Chunks" := by
  simp [sourceNames, Member.getEntities, Member.getJob, Member.getChunks]

/-- A call of a method with another name is no source. -/
theorem Instr.sourceKind_of_ordinary {i : Instr}
    (h : ∀ m, i.invokes? = some m → ∃ r, m = some r ∧ r.name ∉ sourceNames) :
    i.sourceKind = .ok none := by
  unfold Instr.sourceKind
  split
  · rfl
  · rename_i hi
    obtain ⟨r, hr, -⟩ := h _ hi
    cases hr
  · rename_i m hi
    obtain ⟨r, hr, hn⟩ := h _ hi
    cases hr
    simp only [sourceNames, List.mem_cons, List.not_mem_nil, or_false,
      not_or] at hn
    simp [hn.1, hn.2.1, hn.2.2]

/-- A failure that is reported as a diagnostic is reported as an error. -/
def Failure.IsSerious (f : Failure) : Prop :=
  ∀ d, f.note? = some d → d.severity = .error

/-- A stop with a failure stops with a serious one. -/
def Stop.IsSerious (s : Stop) : Prop :=
  ∀ f, s = .failed f → f.IsSerious

@[simp, grind .]
theorem Stop.isSerious_fault (text : Option String) :
    (Stop.fault text).IsSerious := by
  intro f h
  cases h

@[grind ←]
theorem Stop.isSerious_failed {f : Failure} (h : f.IsSerious) :
    (Stop.failed f).IsSerious := by
  intro g hg
  cases hg
  exact h

/-- A failure without a diagnostic is serious. -/
@[grind ←]
theorem Failure.isSerious_of_note?_eq_none {f : Failure} (h : f.note? = none) :
    f.IsSerious := by
  intro d hd
  rw [h] at hd
  cases hd

/-! A run of emitted instructions fails without a diagnostic. -/

theorem Emitter.note?_pointBranches {e : Emitter} {bs : List (Label × EmitMark)}
    {f : Failure} (h : (e.pointBranches bs).2 = some f) : f.note? = none := by
  induction bs generalizing e with
  | nil => cases h
  | cons b bs ih =>
    simp only [pointBranches] at h
    split at h
    · cases h
      rfl
    · exact ih h

@[grind →]
theorem Emitter.isSerious_finish {e : Emitter} {f : Failure}
    (h : e.finish.2 = .error f) : f.IsSerious := by
  apply Failure.isSerious_of_note?_eq_none
  unfold finish at h
  split at h
  · rename_i hp
    cases h
    exact note?_pointBranches (congrArg Prod.snd hp)
  · split at h
    · cases h
      rfl
    · cases h

@[grind →]
theorem Emitter.isSerious_appendTo {e : Emitter} {b : Body} {f : Failure}
    (h : e.appendTo b = .error f) : f.IsSerious := by
  unfold appendTo at h
  cases hf : e.finish.2 with
  | ok code =>
    rw [hf] at h
    cases h
  | error g =>
    rw [hf] at h
    cases h
    exact isSerious_finish hf

/-- The workspace has a property, the creation hooks are known, and no imported
method starts a chain. -/
structure Holding (I : Workspace → Prop) (H : List (TypeId × MethodId))
    (w : World) : Prop where
  /-- the property of the workspace -/
  workspace : I w.workspace
  /-- the hooks -/
  hooks : w.hooks = H
  /-- no imported method starts a chain -/
  ordinary : ∀ p ∈ w.imports.methods, p.2.name ∉ sourceNames

variable {I : Workspace → Prop} {H : List (TypeId × MethodId)}
variable {α β : Type}

/-- The invariant speaks of three parts of a world. -/
theorem Holding.of_eq {w w' : World} (h : Holding I H w)
    (hw : w'.workspace = w.workspace) (hh : w'.hooks = w.hooks)
    (hm : w'.imports.methods = w.imports.methods) : Holding I H w' :=
  ⟨hw ▸ h.workspace, hh ▸ h.hooks, hm ▸ h.ordinary⟩

/-- The invariant depends on the property of the workspace alone. -/
theorem Holding.imp {J : Workspace → Prop} {w : World} (h : Holding I H w)
    (hIJ : I w.workspace → J w.workspace) : Holding J H w :=
  ⟨hIJ h.workspace, h.hooks, h.ordinary⟩

/-- Work that keeps the invariant, whether it stops or not. -/
abbrev Weave.Keeps (I : Workspace → Prop) (H : List (TypeId × MethodId))
    (act : Weave α) : Prop :=
  ⦃fun w => ⌜Holding I H w⌝⦄ act
    ⦃post⟨fun _ w => ⌜Holding I H w⌝,
      fun e w => ⌜Holding I H w ∧ e.IsSerious⌝⟩⦄

/-- Work that keeps the invariant and gives a result with a property. -/
abbrev Weave.Gives (I : Workspace → Prop) (H : List (TypeId × MethodId))
    (R : α → Prop) (act : Weave α) : Prop :=
  ⦃fun w => ⌜Holding I H w⌝⦄ act
    ⦃post⟨fun r w => ⌜Holding I H w ∧ R r⌝,
      fun e w => ⌜Holding I H w ∧ e.IsSerious⌝⟩⦄

/-- A triple says what a run from a state with the precondition ends in. -/
theorem triple_iff {σ : Type} {act : EStateM Stop σ α} {P : σ → Prop}
    {Q : α → σ → Prop} {E : Stop → σ → Prop} :
    ⦃fun s => ⌜P s⌝⦄ act ⦃post⟨fun a s => ⌜Q a s⌝, fun e s => ⌜E e s⌝⟩⦄ ↔
      ∀ s, P s → match act s with
        | .ok a s' => Q a s'
        | .error e s' => E e s' := by
  constructor
  · intro h s hs
    have hrun := h s hs
    simp only [wp, EStateM.run, PredTrans.apply] at hrun
    cases hact : act s with
    | ok a s' =>
      rw [hact] at hrun
      exact hrun
    | error e s' =>
      rw [hact] at hrun
      exact hrun
  · intro h s hs
    have hrun := h s hs
    simp only [wp, EStateM.run, PredTrans.apply]
    cases hact : act s with
    | ok a s' =>
      rw [hact] at hrun
      exact hrun
    | error e s' =>
      rw [hact] at hrun
      exact hrun

/-! ## Loops -/

section Loops

variable {m : Type → Type} {ps : PostShape} [Monad m] [WPMonad m ps]
variable {P : Assertion ps} {E : ExceptConds ps} {xs : List α}

/-- A loop keeps what each run of its body keeps, and its results are related to
the elements one by one. -/
theorem mapM_inv {R : α → β → Prop} {f : α → m β}
    (h : ∀ x ∈ xs, ⦃P⦄ f x ⦃(fun r => spred(P ∧ ⌜R x r⌝), E)⦄) :
    ⦃P⦄ xs.mapM f ⦃(fun rs => spred(P ∧ ⌜List.Forall₂ R xs rs⌝), E)⦄ := by
  induction xs with
  | nil =>
    simp only [List.mapM_nil]
    mvcgen
    exact SPred.and_intro .rfl (SPred.pure_intro (by simp))
  | cons x xs ih =>
    have hx := h x (by simp)
    have hxs := ih fun y hy => h y (by simp [hy])
    simp only [List.mapM_cons]
    mvcgen [hx, hxs]
    exact SPred.and_intro .rfl (SPred.pure_intro (by simp_all))

theorem flatMapM_inv {R : β → Prop} {f : α → m (List β)}
    (h : ∀ x ∈ xs, ⦃P⦄ f x ⦃(fun rs => spred(P ∧ ⌜∀ r ∈ rs, R r⌝), E)⦄) :
    ⦃P⦄ xs.flatMapM f ⦃(fun rs => spred(P ∧ ⌜∀ r ∈ rs, R r⌝), E)⦄ := by
  induction xs with
  | nil =>
    simp only [List.flatMapM_nil]
    mvcgen
    exact SPred.and_intro .rfl (SPred.pure_intro (by simp))
  | cons x xs ih =>
    have hx := h x (by simp)
    have hxs := ih fun y hy => h y (by simp [hy])
    simp only [List.flatMapM_cons]
    mvcgen [hx, hxs]
    exact SPred.and_intro .rfl (SPred.pure_intro (by grind))

theorem forIn_inv {f : α → β → m (ForInStep β)} {b : β}
    (h : ∀ x ∈ xs, ∀ b, ⦃P⦄ f x b ⦃(fun _ => P, E)⦄) :
    ⦃P⦄ forIn xs b f ⦃(fun _ => P, E)⦄ := by
  refine Spec.forIn_list (fun _ => P, E) ?_
  intro pref x suff hx b
  have hstep := h x (by simp [hx]) b
  mvcgen [hstep]
  split <;> exact .rfl

theorem forM_inv {f : α → m PUnit}
    (h : ∀ x ∈ xs, ⦃P⦄ f x ⦃(fun _ => P, E)⦄) :
    ⦃P⦄ xs.forM f ⦃(fun _ => P, E)⦄ := by
  induction xs with
  | nil =>
    unfold List.forM
    mvcgen
  | cons x xs ih =>
    have hx := h x (by simp)
    have hxs := ih fun y hy => h y (by simp [hy])
    unfold List.forM
    mvcgen [hx, hxs]

theorem foldlM_inv {f : β → α → m β} {b : β}
    (h : ∀ x ∈ xs, ∀ b, ⦃P⦄ f b x ⦃(fun _ => P, E)⦄) :
    ⦃P⦄ xs.foldlM f b ⦃(fun _ => P, E)⦄ := by
  refine Spec.foldlM_list (fun _ => P, E) ?_
  intro pref x suff hx b
  exact h x (by simp [hx]) b

theorem filterM_inv {f : α → m Bool}
    (h : ∀ x ∈ xs, ⦃P⦄ f x ⦃(fun _ => P, E)⦄) :
    ⦃P⦄ xs.filterM f ⦃(fun _ => P, E)⦄ := by
  have haux : ∀ acc, ⦃P⦄ xs.filterAuxM f acc ⦃(fun _ => P, E)⦄ := by
    induction xs with
    | nil =>
      intro acc
      simp only [List.filterAuxM]
      mvcgen
    | cons x xs ih =>
      intro acc
      have hx := h x (by simp)
      have hxs := ih fun y hy => h y (by simp [hy])
      simp only [List.filterAuxM]
      mvcgen [hx, hxs]
  unfold List.filterM
  mvcgen [haux]

theorem filterMapM_inv {f : α → m (Option β)}
    (h : ∀ x ∈ xs, ⦃P⦄ f x ⦃(fun _ => P, E)⦄) :
    ⦃P⦄ xs.filterMapM f ⦃(fun _ => P, E)⦄ := by
  induction xs with
  | nil =>
    simp only [List.filterMapM_nil]
    mvcgen
  | cons x xs ih =>
    have hx := h x (by simp)
    have hxs := ih fun y hy => h y (by simp [hy])
    simp only [List.filterMapM_cons]
    mvcgen [hx, hxs]

theorem anyM_inv {f : α → m Bool}
    (h : ∀ x ∈ xs, ⦃P⦄ f x ⦃(fun _ => P, E)⦄) :
    ⦃P⦄ xs.anyM f ⦃(fun _ => P, E)⦄ := by
  induction xs with
  | nil =>
    unfold List.anyM
    mvcgen
  | cons x xs ih =>
    have hx := h x (by simp)
    have hxs := ih fun y hy => h y (by simp [hy])
    unfold List.anyM
    mvcgen [hx, hxs]

theorem allM_inv {f : α → m Bool}
    (h : ∀ x ∈ xs, ⦃P⦄ f x ⦃(fun _ => P, E)⦄) :
    ⦃P⦄ xs.allM f ⦃(fun _ => P, E)⦄ := by
  induction xs with
  | nil =>
    unfold List.allM
    mvcgen
  | cons x xs ih =>
    have hx := h x (by simp)
    have hxs := ih fun y hy => h y (by simp [hy])
    unfold List.allM
    mvcgen [hx, hxs]

theorem findM?_inv {f : α → m Bool}
    (h : ∀ x ∈ xs, ⦃P⦄ f x ⦃(fun _ => P, E)⦄) :
    ⦃P⦄ xs.findM? f ⦃(fun _ => P, E)⦄ := by
  induction xs with
  | nil =>
    unfold List.findM?
    mvcgen
  | cons x xs ih =>
    have hx := h x (by simp)
    have hxs := ih fun y hy => h y (by simp [hy])
    unfold List.findM?
    mvcgen [hx, hxs]

end Loops

/-- A fold whose invariant speaks of what was folded so far. -/
theorem foldlM_run {σ : Type} {xs : List α} {f : β → α → EStateM Stop σ β}
    {P : List α → β → σ → Prop} {E : Stop → σ → Prop} {b : β}
    (h : ∀ before x after, xs = before ++ x :: after → ∀ b,
      ⦃fun s => ⌜P before b s⌝⦄ f b x
        ⦃post⟨fun r s => ⌜P (before ++ [x]) r s⌝, fun e s => ⌜E e s⌝⟩⦄) :
    ⦃fun s => ⌜P [] b s⌝⦄ xs.foldlM f b
      ⦃post⟨fun r s => ⌜P xs r s⌝, fun e s => ⌜E e s⌝⟩⦄ := by
  let folded : Invariant xs β (.except Stop (.arg σ .pure)) :=
    (fun (⟨before, _, _⟩, b) => fun s => ⌜P before b s⌝,
      fun e s => ⌜E e s⌝, ())
  refine Spec.foldlM_list folded ?_
  intro before x after hx b
  exact h before x after hx b

/-- Two triples of the same work hold together. -/
theorem triple_and {σ : Type} {act : EStateM Stop σ α} {P P' : σ → Prop}
    {Q Q' : α → σ → Prop} {E E' : Stop → σ → Prop}
    (h : ⦃fun s => ⌜P s⌝⦄ act ⦃post⟨fun a s => ⌜Q a s⌝, fun e s => ⌜E e s⌝⟩⦄)
    (h' : ⦃fun s => ⌜P' s⌝⦄ act
      ⦃post⟨fun a s => ⌜Q' a s⌝, fun e s => ⌜E' e s⌝⟩⦄) :
    ⦃fun s => ⌜P s ∧ P' s⌝⦄ act
      ⦃post⟨fun a s => ⌜Q a s ∧ Q' a s⌝, fun e s => ⌜E e s ∧ E' e s⌝⟩⦄ := by
  refine triple_iff.2 fun s hs => ?_
  have hrun := triple_iff.1 h s hs.1
  have hrun' := triple_iff.1 h' s hs.2
  cases hact : act s <;> simp only [hact] at hrun hrun' <;> exact ⟨hrun, hrun'⟩

namespace Weave

variable {xs : List α}

/-- Any result has some property. -/
theorem Keeps.gives {act : Weave α} (h : Keeps I H act) :
    Gives I H (fun _ => True) act := by
  mvcgen [h]
  simp_all

/-- The property of the result may be forgotten. -/
theorem Gives.keeps {R : α → Prop} {act : Weave α} (h : Gives I H R act) :
    Keeps I H act := by
  mvcgen [h]
  simp_all

/-- Work that gives a result with a property and never fails. -/
theorem Gives.neverFails {R : α → Prop} {act : Weave α} (h : Gives I H R act)
    (hact : NeverFails act) :
    ⦃fun w => ⌜Holding I H w⌝⦄ act
      ⦃post⟨fun r w => ⌜Holding I H w ∧ R r⌝,
        fun e w => ⌜Holding I H w ∧ ∀ f, e ≠ .failed f⌝⟩⦄ := by
  refine triple_iff.2 fun w hw => ?_
  have hrun := triple_iff.1 h w hw
  cases hr : act w with
  | ok a w' =>
    rw [hr] at hrun
    exact hrun
  | error e w' =>
    rw [hr] at hrun
    exact ⟨hrun.1, fun f he => hact w f w' (he ▸ hr)⟩

/-- Work that keeps the invariant and never fails. -/
theorem Keeps.neverFails {act : Weave α} (h : Keeps I H act)
    (hact : NeverFails act) :
    ⦃fun w => ⌜Holding I H w⌝⦄ act
      ⦃post⟨fun _ w => ⌜Holding I H w⌝,
        fun e w => ⌜Holding I H w ∧ ∀ f, e ≠ .failed f⌝⟩⦄ := by
  have hgives := Gives.neverFails (Keeps.gives h) hact
  mvcgen [hgives]
  simp_all

theorem mapM_gives {R : α → β → Prop} {f : α → Weave β}
    (h : ∀ x ∈ xs, Gives I H (R x) (f x)) :
    Gives I H (List.Forall₂ R xs) (xs.mapM f) :=
  mapM_inv h

@[spec]
theorem mapM_keeps {f : α → Weave β} (h : ∀ x ∈ xs, Keeps I H (f x)) :
    Keeps I H (xs.mapM f) :=
  (mapM_gives fun x hx => (h x hx).gives).keeps

@[spec high]
theorem forIn_keeps {f : α → β → Weave (ForInStep β)} {b : β}
    (h : ∀ x ∈ xs, ∀ b, Keeps I H (f x b)) : Keeps I H (forIn xs b f) :=
  forIn_inv h

@[spec high]
theorem foldlM_keeps {f : β → α → Weave β} {b : β}
    (h : ∀ x ∈ xs, ∀ b, Keeps I H (f b x)) : Keeps I H (xs.foldlM f b) :=
  foldlM_inv h

@[spec]
theorem filterM_keeps {f : α → Weave Bool} (h : ∀ x ∈ xs, Keeps I H (f x)) :
    Keeps I H (xs.filterM f) :=
  filterM_inv h

@[spec]
theorem filterMapM_keeps {f : α → Weave (Option β)}
    (h : ∀ x ∈ xs, Keeps I H (f x)) : Keeps I H (xs.filterMapM f) :=
  filterMapM_inv h

@[spec]
theorem anyM_keeps {f : α → Weave Bool} (h : ∀ x ∈ xs, Keeps I H (f x)) :
    Keeps I H (xs.anyM f) :=
  anyM_inv h

@[spec]
theorem allM_keeps {f : α → Weave Bool} (h : ∀ x ∈ xs, Keeps I H (f x)) :
    Keeps I H (xs.allM f) :=
  allM_inv h

@[spec]
theorem optionMapM_keeps {f : α → Weave β} {o : Option α}
    (h : ∀ a, o = some a → Keeps I H (f a)) : Keeps I H (o.mapM f) := by
  cases o with
  | none => mvcgen [Option.mapM]
  | some a =>
    have ha := h a rfl
    mvcgen [Option.mapM, ha]

/-! ## Ends as values -/

/-- The end of some work as a value; the state is the one that it left. -/
theorem attempt_spec {P : World → Prop} {Q : α → World → Prop}
    {E : Stop → World → Prop} {act : Weave α}
    (h : ⦃fun w => ⌜P w⌝⦄ act ⦃post⟨fun a w => ⌜Q a w⌝, fun e w => ⌜E e w⌝⟩⦄) :
    ⦃fun w => ⌜P w⌝⦄ attempt act
      ⦃post⟨fun r w => ⌜match r with
          | .ok a => Q a w
          | .error e => E e w⌝, fun _ _ => ⌜False⌝⟩⦄ := by
  rw [triple_iff] at h ⊢
  intro w hw
  have hrun := h w hw
  unfold attempt
  revert hrun
  cases act w <;> exact id

/-- A failure as a value; the state is the one that it left. -/
theorem tryFailure_spec {P : World → Prop} {Q : α → World → Prop}
    {E : Stop → World → Prop} {act : Weave α}
    (h : ⦃fun w => ⌜P w⌝⦄ act ⦃post⟨fun a w => ⌜Q a w⌝, fun e w => ⌜E e w⌝⟩⦄) :
    ⦃fun w => ⌜P w⌝⦄ tryFailure act
      ⦃post⟨fun r w => ⌜match r with
          | .ok a => Q a w
          | .error f => E (.failed f) w⌝, fun e w => ⌜E e w⌝⟩⦄ := by
  have hact := attempt_spec h
  unfold tryFailure
  mvcgen [hact]

/-- The result has a property, or the failure in its place is serious. -/
def Settles (R : α → Prop) : Except Failure α → Prop
  | .ok a => R a
  | .error f => f.IsSerious

theorem tryFailure_gives {R : α → Prop} {act : Weave α} (h : Gives I H R act) :
    Gives I H (Settles R) (tryFailure act) := by
  have hact := tryFailure_spec h
  mvcgen [hact]
  grind [Settles, Stop.IsSerious]

/-! ## Looking things up -/

attribute [spec] workspace typeEntry typeHead typeName typeRef selfRef methodDef
  methodName ownerOf methodRef bodyOf locationOf diagnostic unexpected
    fault fail
  need

/-- A computation that never fails stops seriously. -/
@[spec]
theorem ofOutcome_gives {o : Outcome α} (ho : o.NeverFails) :
    Gives I H (fun a => o = .ok a) (ofOutcome o) := by
  mvcgen [ofOutcome]
  all_goals grind [Stop.IsSerious, Outcome.NeverFails]

attribute [grind =] Catalog.severity Code.dc0001 Code.dc0002 Code.dc0003
  Code.dc0004 Code.dc0005 Code.dc0006 Code.dc0007 Code.dc0008 Code.dc0009
  Code.dc0010 Code.dc0011 Code.dc0012 Code.dc0013 Code.dc0014 Code.dc0015
  Code.dc0016 Code.dc0017 Code.dc0018 Code.dc0019 Code.dc0020 Code.dc0021
  Code.dc0023 Code.dc0024 Code.dc0025 Code.dc0026 Code.dc0027 Code.dc0028
  Code.dc0029 Code.dc0031 Code.dc0032 Code.dc0033 Code.dc0034 Code.dc0035
  Code.dc0036 Code.dc0037 Code.dc0038 Code.dc0043 Code.dc0044 Code.dc0045
  Code.dc0046 Code.dc0047 Code.dcice001 Code.dcice002 Code.dcice003
  Code.dcice004 Code.dcice005 Code.dcice006 Code.dcice007 Code.dcice008

/-- Refusing is for codes of errors. -/
@[spec]
theorem refuse_gives {c : Code} {m : MethodId} {l : Option Label}
    {args : List Text.Arg} (hc : Catalog.severity c = .error) :
    ⦃fun w => ⌜Holding I H w⌝⦄ (refuse c m l args : Weave α)
      ⦃post⟨fun _ _ => ⌜False⌝,
        fun e w => ⌜Holding I H w ∧ e.IsSerious⌝⟩⦄ := by
  mvcgen [refuse]
  refine ⟨‹_›, Stop.isSerious_failed fun d hd => ?_⟩
  cases hd
  exact hc

@[spec]
theorem resolver_keeps : Keeps I H resolver := by
  mvcgen [resolver]
  rename_i hw t
  exact hw.of_eq rfl rfl rfl

attribute [spec] findType resolveType resolveMethod resolveField inheritsFrom
  implements isValueType

/-! ## Imported references -/

attribute [spec] mark missingSince missedSince? importedDef importEntities
  importAttribute importType importNested

/-- A change of the import table that adds no method which starts a chain. -/
@[spec]
theorem modifyImports_keeps {f : Imports → Imports}
    (hf : ∀ im : Imports, (∀ p ∈ im.methods, p.2.name ∉ sourceNames) →
      ∀ p ∈ (f im).methods, p.2.name ∉ sourceNames) :
    Keeps I H (modifyImports f) := by
  mvcgen [modifyImports]
  rename_i hw t
  exact ⟨hw.workspace, hw.hooks, hf _ hw.ordinary⟩

@[spec]
theorem logMiss_keeps {key name : String} : Keeps I H (logMiss key name) := by
  mvcgen [logMiss]
  grind

@[spec]
theorem logRepeat_keeps {key : String} : Keeps I H (logRepeat key) := by
  mvcgen [logRepeat]
  grind

@[spec]
theorem internType_keeps {key : String} {placeholder : TypeRef} :
    Keeps I H (internType key placeholder) := by
  mvcgen [internType]
  all_goals grind

@[spec]
theorem importField_keeps {owner : TypeRef} {name : String} :
    Keeps I H (importField owner name) := by
  mvcgen [importField]
  all_goals grind

end Weave

/-- The first element that passes a test passes it. -/
@[grind →]
theorem Universe.firstSome?_eq_some {test : α → Option Bool} {as : List α}
    {a : α} (h : firstSome? test as = some (some a)) : test a = some true := by
  induction as with
  | nil => cases h
  | cons b as ih =>
    simp only [firstSome?, Option.bind_eq_bind, Option.bind_eq_some_iff] at h
    obtain ⟨ok, hok, h⟩ := h
    cases ok with
    | true =>
      simp only [if_true, Option.some.injEq] at h
      exact h ▸ hok
    | false => exact ih (by simpa using h)

/-- An imported method starts no chain. -/
@[grind →]
theorem Holding.lookup_ordinary {w : World} {key : String} {m : MethodRef}
    (h : Holding I H w) (hm : w.imports.methods.lookup key = some m) :
    m.name ∉ sourceNames := by
  obtain ⟨l₁, l₂, hl, -⟩ := List.lookup_eq_some_iff.1 hm
  exact h.ordinary (key, m) (by simp [hl])

/-- A reference to a method has the name of its definition. -/
@[grind →]
theorem Workspace.name_methodRef? {w : Workspace} {m : MethodId} {r : MethodRef}
    (h : w.methodRef? m = some r) : r.name = (w.method m).name := by
  simp only [Workspace.methodRef?, Option.bind_eq_bind,
    Option.bind_eq_some_iff, Option.some.injEq] at h
  obtain ⟨t, -, rfl⟩ := h
  rfl

namespace Weave

/-- An imported method has the name that was asked for. -/
@[spec]
theorem importGenericMethod_gives {owner : TypeRef} {name : String}
    {params arity : Int} {first : List TypeRef} (hn : name ∉ sourceNames) :
    Gives I H (fun r => r.name ∉ sourceNames)
      (importGenericMethod owner name params arity first) := by
  mvcgen [importGenericMethod]
  all_goals grind

@[spec]
theorem importMethod_gives {owner : TypeRef} {name : String} {params : Nat}
    (hn : name ∉ sourceNames) :
    Gives I H (fun r => r.name ∉ sourceNames)
      (importMethod owner name params) :=
  importGenericMethod_gives hn

end Weave

end JobWeave
