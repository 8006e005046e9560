import Mathlib
import JobWeave.Proofs.Plan.LoopMachine
import JobWeave.Proofs.Plan.Requests
import JobWeave.Proofs.World.Answers

/-!
# The method with the loop over entities

A run of planning is taken apart into the runs of its parts
(`Planning.run_bind_iff`), and what a triple says of a part is used of its run
(`Planning.of_run`).  So the code that a part gives a method can be followed
from state to state.

* `Workspace.Declares` says that a type has a method, declared in some way, and
  `Workspace.CodeSatisfies` what the code of a method has.
* `Planning.loopTemps_run` and `Planning.loopArguments_finds` are the parts for
  the parameters.
* `Planning.iterateEntities_run`: the method gets a loop over the entities.
-/

namespace JobWeave

open Framework Std.Do
open scoped World.Answers

set_option mvcgen.warning false

/-! ## Runs -/

namespace Weave

variable {α β : Type} {act : Weave α} {w w' : World} {a : α} {b : β}

/-- A run of one piece of work after another. -/
theorem run_bind_iff {f : α → Weave β} :
    (act >>= f) w = .ok b w' ↔ ∃ a w₁, act w = .ok a w₁ ∧
    f a w₁ = .ok b w' := by
  simp only [Bind.bind, EStateM.bind]
  cases hact : act w with
  | ok a w₁ =>
    constructor
    · exact fun h => ⟨a, w₁, rfl, h⟩
    · rintro ⟨a, w₁, heq, h⟩
      cases heq
      exact h
  | error e w₁ => simp

/-- What a triple says of a run. -/
theorem of_run {P : World → Prop} {Q : α → World → Prop}
    {E : Stop → World → Prop}
    (h : ⦃fun w => ⌜P w⌝⦄ act ⦃post⟨fun a w => ⌜Q a w⌝, fun e w => ⌜E e w⌝⟩⦄)
    (hP : P w) (hrun : act w = .ok a w') : Q a w' := by
  have hends := Ends.of_triple h hP
  rw [Ends, hrun] at hends
  exact hends

end Weave

namespace Planning

variable {α β : Type} {u u' : Plan} {w w' : World} {a : α} {b : β}

/-- A run of one piece of planning after another. -/
theorem run_bind_iff {act : Planning α} {f : α → Planning β} :
    (act >>= f) u w = .ok (b, u') w' ↔
      ∃ a u₁ w₁, act u w = .ok (a, u₁) w₁ ∧ f a u₁ w₁ = .ok (b, u') w' := by
  have hbind : (act >>= f) u w = (act u >>= fun r : α × Plan => f r.1 r.2) w :=
    rfl
  rw [hbind, Weave.run_bind_iff]
  exact ⟨fun ⟨r, w₁, h⟩ => ⟨r.1, r.2, w₁, h⟩,
    fun ⟨a, u₁, w₁, h⟩ => ⟨(a, u₁), w₁, h⟩⟩

/-- Planning that does not look at the plan. -/
theorem run_lift_iff {act : Weave α} :
    (liftM act : Planning α) u w = .ok (a, u') w' ↔ act w = .ok a w' ∧
    u' = u := by
  have hlift : (liftM act : Planning α) u w =
      (act >>= fun a => (pure (a, u) : Weave (α × Plan))) w := rfl
  rw [hlift, Weave.run_bind_iff]
  constructor
  · rintro ⟨a, w₁, hact, hpure⟩
    cases hpure
    exact ⟨hact, rfl⟩
  · rintro ⟨hact, rfl⟩
    exact ⟨a, w', hact, rfl⟩

/-- What a triple says of a run. -/
theorem of_run {act : Planning α} {P : Plan → World → Prop}
    {Q : α → Plan → World → Prop} {E : Stop → World → Prop}
    (h : ⦃fun u w => ⌜P u w⌝⦄ act ⦃post⟨fun a u w => ⌜Q a u w⌝,
      fun e w => ⌜E e w⌝⟩⦄)
    (hP : P u w) (hrun : act u w = .ok (a, u') w') : Q a u' w' := by
  have hends : Ends (act u) w (fun r w => Q r.1 r.2 w) E :=
    Ends.of_triple (P := P u) (h u) hP
  rw [Ends, hrun] at hends
  exact hends

end Planning

/-! ## Methods -/

namespace Workspace

/-- A type has a method that is declared in some way. -/
structure Declares (w : Workspace) (t : TypeId) (d : MethodDef) (k : MethodId) :
    Prop where
  /-- it belongs to the type -/
  owner : (w.methodEntry k).owner = some t
  /-- it is among the methods of the type -/
  declared : k ∈ (w.type t).methods
  /-- its signature -/
  signature : d.Resembles (w.method k)

/-- The code of a method has a property. -/
def CodeSatisfies (w : Workspace) (k : MethodId) (P : Body → Prop) : Prop :=
  ∃ b, (w.method k).body = some b ∧ P b

variable {w : Workspace} {t : TypeId} {d : MethodDef} {k : MethodId}
  {P : Body → Prop}

theorem Declares.lt (h : w.Declares t d k) : k.index < w.methods.size := by
  by_contra hk
  have howner := h.owner
  rw [methodEntry, Array.getElem?_eq_none (not_lt.1 hk)] at howner
  cases howner

instance : Enduring fun w => w.Declares t d k where
  amend w W h ha :=
    ⟨(ha.owner k h.lt).trans h.owner, (ha.declared t).subset h.declared,
      h.signature.trans (ha.signature k h.lt)⟩
  nest w outer hd hb h := by
    have hstart : w.Frame (fun e e' => e'.methods = e.methods) ∅ w :=
      .refl (fun e => Eq.refl e.methods) ∅ w
    have hframe := hstart.addNested_leaf outer hd fun _ _ _ hr => hr
    have hmethods : (w.addNested outer (.mk hd [] [])).1.methods =
        w.methods := by
      simp only [addNested, loadType, loadNested, List.foldl_nil]
      exact methods_attachNested ..
    refine ⟨?_, ?_, ?_⟩
    · rw [methodEntry, hmethods]
      exact h.owner
    · rw [hframe.type t (lt_of_mem_methods h.declared)]
      exact h.declared
    · rw [method, methodEntry, hmethods]
      exact h.signature

instance {I I' : Workspace → Prop} [Amendable I] [Amendable I'] :
    Amendable fun w => I w ∧ I' w :=
  ⟨fun w W h ha => ⟨Amendable.amend w W h.1 ha, Amendable.amend w W h.2 ha⟩⟩

instance : Amendable w.Amends :=
  ⟨fun _ _ h ha => h.trans ha⟩

/-- A method that is added to a type. -/
theorem declares_addMethod (ht : t.index < w.types.size) :
    (w.addMethod t d).1.Declares t d (w.addMethod t d).2 ∧
      (w.addMethod t d).1.method (w.addMethod t d).2 = d := by
  have hentry : (w.addMethod t d).1.methodEntry (w.addMethod t d).2 =
      { method := d, owner := some t } := by
    rw [methodEntry_addMethod,
      if_pos (show (w.addMethod t d).2.index = w.methods.size from rfl)]
  have hmethod : (w.addMethod t d).1.method (w.addMethod t d).2 = d :=
    congrArg MethodEntry.method hentry
  refine ⟨⟨congrArg MethodEntry.owner hentry, ?_, ?_⟩, hmethod⟩
  · rw [type_addMethod, if_pos ⟨rfl, ht⟩]
    exact List.mem_append_right _ (List.mem_singleton_self _)
  · rw [hmethod]
    exact .refl d

/-- The code of a method is known besides other things. -/
abbrev Drawn (I : Workspace → Prop) (k : MethodId) (P : Body → Prop)
    (w : Workspace) : Prop :=
  I w ∧ w.CodeSatisfies k P

theorem lt_of_codeSatisfies (h : w.CodeSatisfies k P) :
    k.index < w.methods.size := by
  obtain ⟨b, hb, -⟩ := h
  exact lt_of_body hb

/-- The method gets other code. -/
theorem Drawn.setBody {I : Workspace → Prop} [Amendable I] {b : Body}
    {P' : Body → Prop} (h : w.Drawn I k P) (hb : P' b) :
    Drawn I k P' (w.updateMethod k fun d => { d with body := some b }) := by
  refine ⟨Amendable.amend _ _ h.1 (amends_setBody w k b), b, ?_, hb⟩
  rw [method, methodEntry_updateMethod_self _ (lt_of_codeSatisfies h.2)]

/-- The method gets attributes. -/
theorem Drawn.decorate {I : Workspace → Prop} [Amendable I]
    {f : MethodDef → MethodDef} (h : w.Drawn I k P)
    (hf : MethodDef.Decorates f) : Drawn I k P (w.updateMethod k f) := by
  obtain ⟨b, hb, hP⟩ := h.2
  refine ⟨Amendable.amend _ _ h.1 (amends_updateMethod w k hf.resembles),
    b, ?_, hP⟩
  rw [method, methodEntry_updateMethod_self _ (lt_of_body hb)]
  exact (hf _).2.2.2.2.2.trans hb

end Workspace

/-- The body has no code yet, and this many local variables. -/
structure Body.IsBlank (n : Nat) (b : Body) : Prop where
  /-- no code -/
  code : b.code = []
  /-- the local variables -/
  locals : b.locals.length = n

/-! ## The parts of the loop -/

namespace Planning

variable {I : Workspace → Prop} {u u' : Plan} {w w' : World} {m : MethodId}
  {n : Nat}

/-- A method is declared without code. -/
theorem declare_run [Workspace.Amendable I] {name : String} {flags : UInt16}
    {ret : TypeRef} {params : List ParamDef} (hw : w.Has (World.Answers I))
    (ht : u.type.index < w.workspace.types.size)
    (hrun : declare name flags ret params u w = .ok (m, u') w') :
    u' = u ∧ ∃ d : MethodDef, d.name = name ∧
    d.flags = flags ||| MethodFlag.hideBySig ∧
      d.params = params ∧ w'.Has (World.Answers (Workspace.Drawn
        (fun W => I W ∧ W.Declares u.type d m) m (Body.IsBlank 0))) := by
  cases hrun
  let d : MethodDef :=
    { name, params, flags := flags ||| MethodFlag.hideBySig,
      ret := if ret.isAbsent then .void else ret, body := some {} }
  obtain ⟨hdeclares, hmethod⟩ := Workspace.declares_addMethod (d := d) ht
  have hI : I (w.workspace.addMethod u.type d).1 :=
    Workspace.Amendable.amend _ _ hw.holds.workspace
      (Workspace.amends_addMethod ..)
  exact ⟨rfl, d, rfl, rfl, rfl, hw.holds.imports, ⟨hI, hdeclares⟩, {},
    congrArg MethodDef.body hmethod, rfl, rfl⟩

/-- The code that is read is the code of the method. -/
theorem bodyOf_run {b b' : Body} (hb : (w.workspace.method m).body = some b)
    (hrun : (liftM (Weave.bodyOf m) : Planning Body) u w = .ok (b', u') w') :
    b' = b ∧ u' = u ∧ w' = w := by
  obtain ⟨hbody, rfl⟩ := run_lift_iff.1 hrun
  have hneed : Weave.bodyOf m w = Weave.need (w.workspace.method m).body w :=
    rfl
  rw [hneed, hb] at hbody
  cases hbody
  exact ⟨rfl, rfl, rfl⟩

/-- A local variable comes after those that are there. -/
theorem addLocal_run [Workspace.Amendable I] {type : TypeRef} {name : String}
    {l : LocalRef}
    (hw : w.Has (World.Answers (Workspace.Drawn I m (Body.IsBlank n))))
    (hrun : addLocal m type name u w = .ok (l, u') w') :
    u' = u ∧ l = .slot n ∧
      w'.Has (World.Answers (Workspace.Drawn I m (Body.IsBlank (n + 1)))) := by
  obtain ⟨b, hb, hblank⟩ := hw.holds.workspace.2
  obtain ⟨b', u₁, w₁, hbody, hset⟩ := run_bind_iff.1 hrun
  obtain ⟨rfl, rfl, rfl⟩ := bodyOf_run hb hbody
  cases hset
  refine ⟨rfl, congrArg LocalRef.slot hblank.locals, ⟨hw.holds.imports, ?_⟩⟩
  refine hw.holds.workspace.setBody ⟨hblank.code, ?_⟩
  exact List.length_append.trans (congrArg (· + 1) hblank.locals)

/-- The temporaries come after the local variables that are there. -/
theorem loopTemps_run [Workspace.Amendable I] {es : List Element}
    {temps : List (Element × Option LocalRef)}
    (hw : w.Has (World.Answers (Workspace.Drawn I m (Body.IsBlank n))))
    (hrun : es.mapM (loopTemp m) u w = .ok (temps, u') w') :
    u' = u ∧ temps = (temporaries n es).map
      (fun x => (x.1, x.2.map LocalRef.slot)) ∧ ∃ k,
      w'.Has (World.Answers (Workspace.Drawn I m (Body.IsBlank k))) := by
  induction es generalizing n u w temps with
  | nil =>
    rw [List.mapM_nil] at hrun
    cases hrun
    exact ⟨rfl, rfl, n, hw⟩
  | cons e es ih =>
    rw [List.mapM_cons] at hrun
    obtain ⟨x, u₁, w₁, hx, hrun⟩ := run_bind_iff.1 hrun
    obtain ⟨xs, u₂, w₂, hxs, hrun⟩ := run_bind_iff.1 hrun
    cases hrun
    rw [loopTemp] at hx
    rw [temporaries]
    split at hx <;> rename_i htemp
    · obtain ⟨l, u₃, w₃, hl, hx⟩ := run_bind_iff.1 hx
      cases hx
      obtain ⟨rfl, rfl, hw₃⟩ := addLocal_run hw hl
      obtain ⟨rfl, rfl, hk⟩ := ih hw₃ hxs
      rw [if_pos htemp]
      exact ⟨rfl, rfl, hk⟩
    · cases hx
      obtain ⟨rfl, rfl, hk⟩ := ih hw hxs
      rw [if_neg htemp]
      exact ⟨rfl, rfl, hk⟩

/-- Imports leave the plan alone. -/
theorem import_run {α : Type} {act : Weave α} {a : α} {J : World → Prop}
    {R : α → Prop} (h : Weave.Yields J R act) (hw : w.Has J)
    (hrun : (liftM act : Planning α) u w = .ok (a, u') w') :
    u' = u ∧ w'.Has J ∧ R a := by
  obtain ⟨hact, rfl⟩ := run_lift_iff.1 hrun
  exact ⟨rfl, Weave.of_run h hw hact⟩

/-- The method that gives a value for an entity. -/
theorem runtimeMethod_finds {e : Element} :
    Finds (World.Answers I) u (fun r => r.name = "For" ∧ r.params.length = 1)
      (runtimeMethod e "For" 1) := by
  have hplain : isPlain "For" := by decide
  unfold runtimeMethod runtimeType chain
  mvcgen
  all_goals first | infer_instance | grind [MethodRef.onType]

/-- The code for the argument of one parameter. -/
theorem loopArgument_finds {x : Element × Option Nat} :
    Finds (World.Answers I) u (Loop.IsArgumentCode x)
      (loopArgument (.slot 1) x.1 (x.2.map LocalRef.slot)) := by
  obtain ⟨e, temp⟩ := x
  have hmethod := @runtimeMethod_finds I u e
  unfold loopArgument
  cases temp with
  | some t =>
    mvcgen [hmethod, -runtimeMethod_preserves, -runtimeMethod_keeps]
    rename_i r _ t' heq _ _ h
    cases heq
    exact ⟨h.1, r, h.2.1, h.2.2, rfl⟩
  | none =>
    mvcgen [hmethod, -runtimeMethod_preserves, -runtimeMethod_keeps]
    rename_i r _ _ _ _ h
    refine ⟨h.1, r, h.2.1, h.2.2, ?_⟩
    rw [Loop.passing]
    split
    · rfl
    · exact (List.append_nil _).symm

/-- The code for the arguments. -/
theorem loopArguments_finds {xs : List (Element × Option Nat)} :
    Finds (World.Answers I) u (fun code => ∃ codes,
      List.Forall₂ Loop.IsArgumentCode xs codes ∧ code = codes.flatten)
    ((xs.map fun x => (x.1, x.2.map LocalRef.slot)).flatMapM
      fun x => loopArgument (.slot 1) x.1 x.2) := by
  have hmap : (xs.map fun x => (x.1, x.2.map LocalRef.slot)).flatMapM
      (fun x => loopArgument (.slot 1) x.1 x.2) =
        xs.flatMapM fun x => loopArgument (.slot 1) x.1
          (x.2.map LocalRef.slot) := by
    induction xs with
    | nil => simp only [List.map_nil, List.flatMapM_nil]
    | cons x xs ih =>
      rw [List.map_cons, List.flatMapM_cons, List.flatMapM_cons, ih]
  rw [hmap]
  exact flatMapM_tells fun x _ => loopArgument_finds

/-- A piece of planning that is only done under a condition. -/
theorem run_optional {p : Prop} [Decidable p] {act : Planning α}
    {f : α → Planning Unit} {g : Unit → Planning β} {b : β}
    (hrun : (if p then act >>= fun a => f a >>= g else g ()) u w =
      .ok (b, u') w') :
    ∃ u₁ w₁, ((act >>= f) u w = .ok ((), u₁) w₁ ∨ u₁ = u ∧ w₁ = w) ∧
      g () u₁ w₁ = .ok (b, u') w' := by
  split at hrun
  · rw [← bind_assoc] at hrun
    obtain ⟨_, u₁, w₁, hact, hg⟩ := run_bind_iff.1 hrun
    exact ⟨u₁, w₁, .inl hact, hg⟩
  · exact ⟨u, w, .inr ⟨rfl, rfl⟩, hrun⟩

/-- What planning in the world keeps is kept. -/
theorem keep_run {α : Type} {act : Weave α} {a : α} {J : World → Prop}
    (h : Weave.Preserves J act) (hw : w.Has J)
    (hrun : (liftM act : Planning α) u w = .ok (a, u') w') :
    u' = u ∧ w'.Has J := by
  obtain ⟨hact, rfl⟩ := run_lift_iff.1 hrun
  exact ⟨rfl, Weave.of_run (P := fun w => w.Has J) (Q := fun _ w => w.Has J) h
    hw hact⟩

/-- The reference to the lambda is one to the method. -/
theorem lambdaRef_run {l : MethodId} {r : MethodRef} (hl : u.lambda = some l)
    (hrun : lambdaRef u w = .ok (r, u') w') :
    u' = u ∧ w' = w ∧ w.workspace.methodRef? l = some r := by
  obtain ⟨_, u₁, w₁, hget, hnext⟩ := run_bind_iff.1 hrun
  cases hget
  obtain ⟨l', u₂, w₂, hneed, href⟩ := run_bind_iff.1 hnext
  rw [hl] at hneed
  cases hneed
  obtain ⟨hmethod, rfl⟩ := run_lift_iff.1 href
  have hneed : Weave.methodRef l w = Weave.need (w.workspace.methodRef? l) w :=
    rfl
  rw [hneed] at hmethod
  cases hr : w.workspace.methodRef? l with
  | none =>
    rw [hr] at hmethod
    cases hmethod
  | some r' =>
    rw [hr] at hmethod
    cases hmethod
    exact ⟨rfl, rfl, rfl⟩

/-- The method gets a loop over the entities. -/
theorem iterateEntities_run {l : MethodId} (him : w.imports.Answers)
    (ht : u.type.index < w.workspace.types.size) (hl : u.lambda = some l)
    (hlt : l.index < w.workspace.methods.size)
    (hrun : iterateEntities u w = .ok (m, u') w') :
    u' = u ∧ w'.imports.Answers ∧ w.workspace.Amends w'.workspace ∧
      (∃ d : MethodDef, d.name = "IterateEntities" ∧
        w'.workspace.Declares u.type d m) ∧
      ∃ r : MethodRef, w.workspace.methodRef? l = some r ∧
        w'.workspace.CodeSatisfies m fun b => b.IsEntityLoop r u.elements := by
  have hw : w.Has (World.Answers w.workspace.Amends) := ⟨him, .refl _⟩
  have hentities : ∀ {I : Workspace → Prop},
      Weave.Preserves (World.Answers I)
        (Weave.importEntities TypeName.archetypeChunk) := by
    intro I
    unfold Weave.importEntities
    mvcgen
    intros
    infer_instance
  have hattribute : ∀ {I : Workspace → Prop}, Weave.Preserves (World.Answers I)
      (Weave.importAttribute Ns.burst AttributeName.noAlias []) := by
    intro I
    mvcgen
    infer_instance
  unfold iterateEntities at hrun
  obtain ⟨c, u₁, w₁, hchain, hnext⟩ := run_bind_iff.1 hrun
  obtain ⟨chunk, u₂, w₂, hchunk, hnext₂⟩ := run_bind_iff.1 hnext
  obtain ⟨_, u₃, w₃, hget, hnext₃⟩ := run_bind_iff.1 hnext₂
  obtain ⟨k, u₄, w₄, hdeclare, hnext₄⟩ := run_bind_iff.1 hnext₃
  obtain ⟨u₅, w₅, hdecorate, hnext₅⟩ := run_optional hnext₄
  obtain ⟨count, u₆, w₆, hcount, hnext₆⟩ := run_bind_iff.1 hnext₅
  obtain ⟨i, u₇, w₇, hi, hnext₇⟩ := run_bind_iff.1 hnext₆
  obtain ⟨_, u₈, w₈, hget', hnext₈⟩ := run_bind_iff.1 hnext₇
  obtain ⟨temps, u₉, w₉, htemps, hnext₉⟩ := run_bind_iff.1 hnext₈
  obtain ⟨owner, u₁₀, w₁₀, howner, hnext₁₀⟩ := run_bind_iff.1 hnext₉
  obtain ⟨getCount, u₁₁, w₁₁, hgetCount, hnext₁₁⟩ := run_bind_iff.1 hnext₁₀
  obtain ⟨args, u₁₂, w₁₂, hargs, hnext₁₂⟩ := run_bind_iff.1 hnext₁₁
  obtain ⟨b, u₁₃, w₁₃, hb, hnext₁₃⟩ := run_bind_iff.1 hnext₁₂
  obtain ⟨r, u₁₄, w₁₄, hr, hlast⟩ := run_bind_iff.1 hnext₁₃
  clear hrun hnext hnext₂ hnext₃ hnext₄ hnext₅ hnext₆ hnext₇ hnext₈ hnext₉
    hnext₁₀ hnext₁₁ hnext₁₂ hnext₁₃
  cases hchain
  cases hget
  cases hget'
  obtain ⟨rfl, hw₂⟩ := keep_run hentities hw hchunk
  obtain ⟨rfl, d, hd, -, -, hw₄⟩ := declare_run hw₂
    (ht.trans_eq hw₂.holds.workspace.types_eq.symm) hdeclare
  have hw₅ : u₅ = u₄ ∧ w₅.Has (World.Answers (Workspace.Drawn
      (fun W => w.workspace.Amends W ∧ W.Declares u₄.type d k) k
        (Body.IsBlank 0))) := by
    rcases hdecorate with hdecorate | ⟨rfl, rfl⟩
    · obtain ⟨noAlias, u', w', himport, hmodify⟩ := run_bind_iff.1 hdecorate
      obtain ⟨rfl, hw'⟩ := keep_run hattribute hw₄ himport
      cases hmodify
      exact ⟨rfl, hw'.holds.imports,
        hw'.holds.workspace.decorate decorates_params⟩
    · exact ⟨rfl, hw₄⟩
  obtain ⟨rfl, hw₅⟩ := hw₅
  obtain ⟨rfl, rfl, hw₆⟩ := addLocal_run hw₅ hcount
  obtain ⟨rfl, rfl, hw₇⟩ := addLocal_run hw₆ hi
  obtain ⟨rfl, rfl, n, hw₉⟩ := loopTemps_run hw₇ htemps
  obtain ⟨rfl, hw₁₀⟩ := keep_run hentities hw₉ howner
  have himport := @Weave.importMethod_answers
  obtain ⟨rfl, hw₁₁, hname, hparams⟩ :=
    import_run (himport (by decide)) hw₁₀ hgetCount
  obtain ⟨⟨rfl, hw₁₂⟩, codes, hcodes, rfl⟩ :=
    of_run loopArguments_finds ⟨rfl, hw₁₁⟩ hargs
  obtain ⟨blank, hblank, hempty⟩ := hw₁₂.holds.workspace.2
  obtain ⟨rfl, rfl, rfl⟩ := bodyOf_run hblank hb
  obtain ⟨rfl, rfl, href⟩ := lambdaRef_run hl hr
  have href' := hw₁₂.holds.workspace.1.1.methodRef?_eq hlt
  cases happend : ((countingLoop (.forBody b) (Loop.start getCount)
      ([Step.ldarg 0] ++ codes.flatten ++ [Step.call r])
      [Step.ldloc (.slot 1), Step.ldcI4 1, (.add, .none), Step.stloc (.slot 1)]
      Loop.test).emit Step.ret).appendTo b with
  | error f =>
    simp only [Loop.start, Loop.test] at happend
    rw [happend] at hlast
    cases hlast
  | ok b' =>
    have hloop := (Emitter.isCountingLoop hempty.code (by simp)
      (by simp [Loop.test]) happend).1
    simp only [Loop.start, Loop.test] at happend
    rw [happend] at hlast
    cases hlast
    have hentity : b'.IsEntityLoop r _ :=
      ⟨getCount, codes, hname, hparams, hcodes, hloop⟩
    have hw' : Workspace.Drawn _ _ (fun b => b.IsEntityLoop r _) _ :=
      hw₁₂.holds.workspace.setBody hentity
    exact ⟨rfl, hw₁₂.holds.imports, hw'.1.1, ⟨d, hd, hw'.1.2⟩, r,
      href'.symm.trans href, hw'.2⟩

end Planning

end JobWeave
