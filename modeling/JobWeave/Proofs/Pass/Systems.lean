import Mathlib
import JobWeave.Proofs.Pass.Guard

/-!
# Processing the systems of a module

The pass comes to the systems of a module one after another and gives each its
creation hook; then it comes to the methods that the system has.

* `Workspace.Pending` is what the pass relies on for the systems that it has
  still to process, and `Workspace.Moves` what processing one system does to the
  definitions.
* `Pass.Reaches` and `Pass.HandsOver` say in which state the pass comes to a
  system and hands a method over.
* `Pass.processSystem_ends` and `Pass.processSystems_ends`: every source call of
  a system gets its job, in order, or an error is reported.
-/

namespace JobWeave

open Framework Std.Do

set_option mvcgen.warning false

/-- The source calls of a method in order, none if there is no code. -/
def MethodDef.sourceLabels (d : MethodDef) : List Label :=
  match d.body, d.sources with
  | some _, .ok ls => ls
  | _, _ => []

/-- If the method has code, its source calls can be found and the code can be
recorded. -/
def MethodDef.Readable (d : MethodDef) : Prop :=
  ∀ b, d.body = some b → (∃ ls, d.sources = .ok ls) ∧ b.lacksReference = false

namespace Workspace

variable {V w : Workspace} {t : TypeId} {m hook : MethodId} {S : Set MethodId}
variable {ts : List TypeId} {H : List (TypeId × MethodId)}

/-- The source calls of some methods, in the order of the methods and of their
code. -/
def callsIn (w : Workspace) (ms : List MethodId) : List (MethodId × Label) :=
  ms.flatMap fun m => (w.method m).sourceLabels.map fun l => (m, l)

theorem mem_callsIn {ms : List MethodId} {c : MethodId × Label}
    (h : c ∈ w.callsIn ms) :
    c.1 ∈ ms := by
  simp only [callsIn, List.mem_flatMap, List.mem_map] at h
  obtain ⟨m, hm, l, -, rfl⟩ := h
  exact hm

/-- The source calls of a system, methods in the order of their declaration. -/
def sourceCalls (w : Workspace) (t : TypeId) : List (MethodId × Label) :=
  w.callsIn (w.type t).methods

/-! ## Methods that a type declares -/

/-- The method was declared by the type and is no copy. -/
structure Declared (V : Workspace) (t : TypeId) (m : MethodId) : Prop where
  /-- the method is there -/
  lt : m.index < V.methods.size
  /-- its type -/
  owner : (V.methodEntry m).owner = some t
  /-- it is no copy -/
  model : (V.methodEntry m).model = none

theorem Declared.of_frame {R : TypeEntry → TypeEntry → Prop}
    (h : V.Declared t m) (hf : V.Frame R S w) : w.Declared t m where
  lt := h.lt.trans_le hf.methods_le
  owner := (hf.owner_eq h.lt).trans h.owner
  model := by rw [hf.entry m h.lt]; exact h.model

theorem Hooked.declared (h : V.Hooked t hook) : V.Declared t hook :=
  ⟨h.lt hook h.mem, h.hookOwner, h.model⟩

/-- Methods that are no copies are kin only to themselves. -/
theorem eq_of_mem_kin {n : MethodId} (hm : (V.methodEntry m).model = none)
    (hn : (V.methodEntry n).model = none) (h : n ∈ V.kin m) : n = m := by
  have hmodel : V.modelOf n = V.modelOf m := h
  rwa [modelOf, modelOf, hm, hn] at hmodel

/-- The pass comes to a method that the system declares. -/
theorem Hooked.awaits (h : V.Hooked t hook) (hm : V.Declared t m)
    (hb : (V.method m).body.isSome) (hne : m ≠ hook) : V.Awaits t m hook :=
  ⟨h, hm.owner, ⟨hm.lt, hb, subset_rfl⟩,
    fun hk => hne (eq_of_mem_kin hm.model h.model hk).symm⟩

theorem Hooked.advances (h : V.Hooked t hook) (m : MethodId) :
    V.Advances t m hook V :=
  .of_frame h (.refl (TypeEntry.Stays.refl ∅ _) _ _)
    (Set.empty_subset _) h.quiet

theorem Kept.refl (V : Workspace) (t : TypeId) (m hook : MethodId) :
    V.Kept t m hook V :=
  ⟨.refl m V, rfl, rfl, rfl, fun _ _ => rfl, fun _ _ => rfl, fun _ _ => rfl,
    .refl hook V, fun _ _ _ => rfl⟩

/-! ## Systems that are still to come -/

/-- What processing a system does to the definitions: the system may have got
more, and of the other types closures may have become value types.  Their
methods stay as they are. -/
structure Moves (V : Workspace) (t : TypeId) (w : Workspace) : Prop where
  /-- what was there before -/
  frame : V.Frame TypeEntry.Grows Set.univ w
  /-- the other types -/
  others : ∀ n, n ≠ t → n.index < V.types.size →
    (V.type n).Stays w.present ∅ (w.type n)
  /-- the methods that other types declare -/
  methods : ∀ n m, n ≠ t → V.Declared n m → w.method m = V.method m

theorem Moves.refl (V : Workspace) (t : TypeId) : V.Moves t V :=
  ⟨.refl TypeEntry.Grows.refl _ _, fun _ _ _ => .refl _ _ _, fun _ _ _ _ => rfl⟩

theorem Moves.trans {w' : Workspace} (h : V.Moves t w) (h' : w.Moves t w') :
    V.Moves t w' where
  frame := h.frame.trans TypeEntry.Grows.trans h'.frame fun _ _ => id
  others := fun n hne hn =>
    ((h.others n hne hn).mono h'.frame.present_subset).trans _ _ _
      (h'.others n hne (hn.trans_le h.frame.types_le))
  methods := fun n m hne hm =>
    (h'.methods n m hne (hm.of_frame h.frame)).trans (h.methods n m hne hm)

/-- Only the method and the hook change of what types declare. -/
theorem Advances.method_eq {n : TypeId} {k : MethodId}
    (h : V.Advances t m hook w) (hm : V.Declared t m)
    (hhook : V.Declared t hook) (hk : V.Declared n k) (hne : k ≠ m)
    (hne' : k ≠ hook) : w.method k = V.method k := by
  refine h.frame.method_eq hk.lt ?_
  rintro (hkin | hkin)
  · exact hne (eq_of_mem_kin hm.model hk.model hkin)
  · exact hne' (eq_of_mem_kin hhook.model hk.model hkin)

theorem Declared.ne {n : TypeId} {k : MethodId} (hm : V.Declared t m)
    (hk : V.Declared n k) (hne : n ≠ t) : k ≠ m := by
  rintro rfl
  exact hne (Option.some.inj (hk.owner.symm.trans hm.owner))

theorem Advances.moves (h : V.Advances t m hook w) (hm : V.Declared t m)
    (hhook : V.Declared t hook) : V.Moves t w where
  frame := h.frame.mono (fun _ _ => id) (Set.subset_univ _)
  others := fun n hne hn =>
    { h.others n hne hn with
        kept := fun _ hk => absurd hk (Set.notMem_empty _) }
  methods := fun _ _ hne hk => h.method_eq hm hhook hk (hm.ne hk hne)
    (hhook.ne hk hne)

/-- The systems that the pass has still to process. -/
structure Pending (V : Workspace) (H : List (TypeId × MethodId))
    (ts : List TypeId) : Prop where
  /-- each comes once -/
  nodup : ts.Nodup
  /-- it is there -/
  lt : ∀ t ∈ ts, t.index < V.types.size
  /-- so are its nested types -/
  inner : ∀ t ∈ ts, ∀ n ∈ (V.type t).nested, n.index < V.types.size
  /-- its full name is settled -/
  named : ∀ t ∈ ts, V.Named t
  /-- its methods are its own -/
  declared : ∀ t ∈ ts, ∀ m ∈ (V.type t).methods, V.Declared t m
  /-- it has each once -/
  methods_nodup : ∀ t ∈ ts, (V.type t).methods.Nodup
  /-- it has no hook yet -/
  unhooked : ∀ t ∈ ts, H.lookup t = none

/-- The systems of a module that was only loaded are pending. -/
theorem Tidy.pending {home : ModuleId} (h : V.Tidy)
    (hts : ts.Sublist (V.typesOf home)) :
    V.Pending [] ts where
  nodup := hts.nodup (h.nodup_typesOf home)
  lt := fun _ ht => h.lt_of_mem_typesOf (hts.subset ht)
  inner := fun t _ => h.nested_lt t
  named := fun _ ht _ _ hf => h.typeName_eq hf
    (h.lt_of_mem_typesOf (hts.subset ht))
  declared := fun t _ m hm => ⟨h.method_lt t m hm, h.owner t m hm,
    h.model t m hm⟩
  methods_nodup := fun t _ => h.methods_nodup t
  unhooked := fun _ _ => rfl

/-- The systems after the first one, whether that has its hook by now or not. -/
theorem Pending.tail {H' : List (TypeId × MethodId)} (h : V.Pending H (t :: ts))
    (hH : ∀ x ∈ ts, H'.lookup x = H.lookup x) : V.Pending H' ts where
  nodup := (List.nodup_cons.1 h.nodup).2
  lt := fun x hx => h.lt x (List.mem_cons_of_mem t hx)
  inner := fun x hx => h.inner x (List.mem_cons_of_mem t hx)
  named := fun x hx => h.named x (List.mem_cons_of_mem t hx)
  declared := fun x hx => h.declared x (List.mem_cons_of_mem t hx)
  methods_nodup := fun x hx => h.methods_nodup x (List.mem_cons_of_mem t hx)
  unhooked := fun x hx => (hH x hx).trans
    (h.unhooked x (List.mem_cons_of_mem t hx))

/-- The other systems are still pending after one was processed. -/
theorem Pending.of_moves (h : V.Pending H ts) (hm : V.Moves t w) (ht : t ∉ ts) :
    w.Pending H ts := by
  have hstays : ∀ x ∈ ts, (V.type x).Stays w.present ∅ (w.type x) := fun x hx =>
    hm.others x (fun he => ht (he ▸ hx)) (h.lt x hx)
  refine ⟨h.nodup, fun x hx => (h.lt x hx).trans_le hm.frame.types_le,
    fun x hx n hn => ?_, fun x hx => (h.named x hx).of_frame hm.frame,
    fun x hx m hmem => ?_, fun x hx => ?_, h.unhooked⟩
  · exact ((hstays x hx).added n hn).elim
      (fun hold => (h.inner x hx n hold).trans_le hm.frame.types_le) id
  · exact (h.declared x hx m ((hstays x hx).methods.mem hmem)).of_frame hm.frame
  · exact (h.methods_nodup x hx).sublist (hstays x hx).methods

/-! ## The hook -/

/-- A new hook starts no chain. -/
theorem isQuiet_newHook {base : TypeRef} {b : Body}
    (h : (Weave.newHook base).body = some b) : b.IsQuiet := by
  cases h
  refine Body.IsQuiet.append (fun i hi => by cases hi)
    (Body.isQuiet_labelled ?_)
  have hname : Member.onCreateForCompiler ∉ sourceNames := by decide
  simp only [Step.allOrdinary_cons, Step.isOrdinary_call]
  exact ⟨Step.isOrdinary_of_ne (by decide) (by decide) rfl, hname,
    Step.isOrdinary_of_ne (by decide) (by decide) rfl, Step.allOrdinary_nil⟩

/-- The definitions with a hook for a system. -/
def addHook (V : Workspace) (t : TypeId) : Workspace :=
  (V.addMethod t (Weave.newHook (V.type t).head.base)).1

/-- A system that has no hook gets one, and nothing else changes. -/
theorem Pending.addHook (h : V.Pending H (t :: ts))
    (hnone : ∀ n ∈ (V.type t).methods,
      (V.method n).name ≠ Member.onCreateForCompiler) :
    (V.addHook t).Hooked t ⟨V.methods.size⟩ ∧ V.Moves t (V.addHook t) ∧
      (∀ n ∈ (V.type t).methods, (V.addHook t).methodEntry n =
        V.methodEntry n) ∧
      ((V.addHook t).type t).methods = (V.type t).methods ++
      [⟨V.methods.size⟩] ∧ (V.addHook t).Declared t ⟨V.methods.size⟩ := by
  have ht := h.lt t (by simp)
  have htype : ∀ n, (V.addHook t).type n = if n = t then { V.type n with
      methods := (V.type n).methods ++ [⟨V.methods.size⟩] }
          else V.type n := fun n => by
    have := type_addMethod V t n (Weave.newHook (V.type t).head.base)
    simp only [ht, and_true] at this
    exact this
  have hnew := methodEntry_addMethod V t (Weave.newHook (V.type t).head.base)
    ⟨V.methods.size⟩
  rw [if_pos rfl] at hnew
  have hold : ∀ n ∈ (V.type t).methods, (V.addHook t).methodEntry n =
      V.methodEntry n := by
    intro n hn
    have hne : n.index ≠ V.methods.size := ((h.declared t (by simp) n hn).lt).ne
    exact (methodEntry_addMethod V t _ n).trans (if_neg hne)
  have hmethods : ((V.addHook t).type t).methods = (V.type t).methods ++
      [⟨V.methods.size⟩] := by
    rw [htype, if_pos rfl]
  have hframe : V.Frame TypeEntry.Grows ∅ (V.addHook t) :=
    (Frame.refl TypeEntry.Grows.refl ∅ V).addMethod t _ fun _ _ hr =>
      ⟨hr.name, hr.ns, hr.outer, hr.isValueType, hr.nested⟩
  have hsize : (V.addHook t).types.size = V.types.size := types_addMethod V t _
  have hcount : (V.addHook t).methods.size = V.methods.size + 1 :=
    methods_addMethod V t _
  refine ⟨⟨hsize ▸ ht, fun n hn => ?_, fun n hn => ?_, ?_, fun n hn => ?_,
    ?_, ?_, ?_, ?_, (h.named t (by simp)).of_frame hframe⟩,
    ⟨?_, fun n hne _ => ?_, fun n k _ hk => ?_⟩, hold, hmethods, ?_, ?_, ?_⟩
  · rw [htype, if_pos rfl] at hn
    rw [hsize]
    exact h.inner t (by simp) n hn
  · rw [hmethods, List.mem_append, List.mem_singleton] at hn
    rw [hcount]
    rcases hn with hn | rfl
    · exact ((h.declared t (by simp) n hn).lt).trans (Nat.lt_succ_self _)
    · exact Nat.lt_succ_self _
  · rw [hmethods]
    simp
  · rw [hmethods, List.mem_append, List.mem_singleton] at hn
    rcases hn with hn | rfl
    · have hlt := (h.declared t (by simp) n hn).lt
      rw [method, hold n hn]
      refine iff_of_false (hnone n hn) ?_
      rintro rfl
      exact Nat.lt_irrefl _ hlt
    · exact iff_of_true (congrArg (fun e => e.method.name) hnew) rfl
  · exact congrArg (fun e => e.method.body.isSome) hnew
  · exact congrArg (fun e => e.owner) hnew
  · exact congrArg (fun e => e.model) hnew
  · intro b hb
    exact isQuiet_newHook ((congrArg (fun e => e.method.body) hnew).symm.trans
      hb)
  · exact hframe.mono (fun _ _ => id) (Set.empty_subset _)
  · rw [htype, if_neg hne]
    exact .refl _ _ _
  · exact congrArg (·.method) ((methodEntry_addMethod V t _ k).trans
      (if_neg hk.lt.ne))
  · rw [hcount]
    exact Nat.lt_succ_self _
  · exact congrArg (fun e => e.owner) hnew
  · exact congrArg (fun e => e.model) hnew

end Workspace

namespace Pass

variable {V : Workspace} {t : TypeId} {m hook : MethodId} {ts : List TypeId}
variable {H : List (TypeId × MethodId)} {p : PassState} {s : Settings}

/-- A failure is a result, a fault is not. -/
theorem ends_tryFailure {α : Type} {act : Weave α} {w : World}
    {Q : Except Failure α → World → Prop} {E : Stop → World → Prop}
    (h : Ends act w (fun a => Q (.ok a)) fun e w' => match e with
      | .failed f => Q (.error f) w'
      | .fault text => E (.fault text) w') :
    Ends (Weave.tryFailure act) w Q E := by
  have hattempt : Ends (Weave.attempt act) w (fun r w' => match r with
      | .ok a => Q (.ok a) w'
      | .error (.failed f) => Q (.error f) w'
      | .error (.fault text) => E (.fault text) w') E := by
    unfold Ends Weave.attempt at *
    cases hact : act w with
    | ok a w' => rwa [hact] at h
    | error e w' =>
      rw [hact] at h
      cases e <;> exact h
  refine Ends.bind (hattempt.imp ?_ fun _ _ => id)
  rintro (e | a) w' hr
  · cases e with
    | failed f => exact Ends.of_run rfl hr
    | fault text => exact hr
  · exact Ends.of_run rfl hr

/-- A system gets its hook; one that declares the hook itself is refused with an
error. -/
theorem hookOf_ends {w : World} (hV : V.Pending H (t :: ts))
    (hw : Holding (· = V) H w) :
    Ends (Weave.tryFailure (Weave.hookOf t)) w
      (fun r w' => match r with
        | .ok hook => hook = ⟨V.methods.size⟩ ∧
            Holding (· = V.addHook t) ((t, hook) :: H) w' ∧
            ∀ n ∈ (V.type t).methods,
            (V.method n).name ≠ Member.onCreateForCompiler
        | .error f =>
          Holding (· = V) H w' ∧ ∃ d, f.note? = some d ∧ d.severity = .error)
      fun _ _ => False := by
  obtain ⟨rfl, rfl, hord⟩ := hw
  have hlookup : w.hooks.lookup t = none := hV.unhooked t (by simp)
  refine ends_tryFailure ?_
  unfold Weave.hookOf
  refine Ends.bind (Ends.of_run rfl ?_)
  simp only [hlookup]
  refine Ends.bind (Ends.of_run rfl ?_)
  cases hfind : (w.workspace.type t).methods.find?
      (fun n => (w.workspace.method n).name == Member.onCreateForCompiler) with
  | some n => exact ⟨⟨rfl, rfl, hord⟩, _, rfl, rfl⟩
  | none =>
    refine Ends.bind (Ends.of_run rfl (Ends.bind (Ends.of_run rfl (Ends.bind
      (Ends.of_run rfl (Ends.of_run rfl ⟨rfl, ⟨rfl, rfl, hord⟩,
        fun n hn => ?_⟩))))))
    simpa using List.find?_eq_none.1 hfind n hn

/-! ## Methods -/

/-- Work on one list after another. -/
theorem ends_forM_append {α : Type} {f : α → Pass Unit} {xs ys : List α}
    {Q : Unit → PassState → Prop} {E : Stop → PassState → Prop}
    (h : Ends (xs.forM f) p (fun _ q => Ends (ys.forM f) q Q E) E) :
    Ends ((xs ++ ys).forM f) p Q E := by
  rw [List.forM_eq_forM, List.forM_append]
  exact Ends.bind h

/-- A method without source calls. -/
theorem settled_of_quiet {ls : List Label} (hV : V.Hooked t hook)
    (hls : ls = []) (hp : Holding (· = V) H p.world) :
    Settled V H t m hook (SourceAt (V.method m).code) ls p.report p := by
  refine ⟨hp.imp fun he => he ▸ hV.advances m, [], [],
    by simp, fun _ => ?_, .inr ?_⟩
  · rw [hp.workspace]
    exact .refl V t m hook
  · rw [hls]
    exact .nil

/-- Code that starts no chain has no source calls. -/
theorem sources_of_quiet {d : MethodDef} (h : d.code.IsQuiet) :
    d.sources = .ok [] := by
  have hfilter : ∀ (is acc : List Instr), (∀ i ∈ is, i.IsQuiet) →
      is.filterAuxM (fun i => return (← i.sourceKind).isSome) acc =
        (.ok acc : Outcome _) := by
    intro is acc his
    induction is with
    | nil => rfl
    | cons i is ih =>
      obtain ⟨hi, his⟩ := List.forall_mem_cons.1 his
      rw [List.filterAuxM, hi.kind]
      exact ih his
  have hnone : d.code.code.filterM (fun i => return (← i.sourceKind).isSome) =
      (.ok [] : Outcome _) := by
    rw [List.filterM, hfilter _ _ h]
    rfl
  rw [MethodDef.sources, hnone]
  rfl

/-- A method that starts no chain has no source calls. -/
theorem sourceLabels_of_quiet {n : MethodId} (h : V.QuietAt n) :
    (V.method n).sourceLabels = [] := by
  unfold MethodDef.sourceLabels
  cases hb : (V.method n).body with
  | none => rfl
  | some b =>
    rw [sources_of_quiet (by simpa [MethodDef.code, hb] using h b hb)]

/-- Code that starts no chain is readable. -/
theorem readable_of_quiet {n : MethodId} (h : V.QuietAt n) :
    (V.method n).Readable := by
  intro b hb
  have hquiet := h b hb
  exact ⟨⟨[], sources_of_quiet (by simpa [MethodDef.code, hb] using hquiet)⟩,
    hquiet.lacksReference_eq⟩

/-- Every source call of a method gets its job, or an error is reported; only
methods that are not readable stop the pass. -/
theorem visitMethod_ends (hV : V.Hooked t hook) (hl : H.lookup t = some hook)
    (hm : V.Declared t m) (hp : Holding (· = V) H p.world) :
    Ends (visitMethod s m) p
      (fun _ q => Settled V H t m hook (SourceAt (V.method m).code)
        (V.method m).sourceLabels p.report q)
      fun _ _ => ¬ (V.method m).Readable := by
  unfold visitMethod
  refine Ends.bind (ends_lift (Ends.of_run rfl ?_))
  rw [hp.workspace]
  cases hb : (V.method m).body with
  | none =>
    exact Ends.of_run rfl (settled_of_quiet hV
      (by simp [MethodDef.sourceLabels, hb]) hp)
  | some b =>
    simp only [Option.isSome_some, if_true]
    cases hls : (V.method m).sources with
    | error e =>
      refine Ends.bind (ends_lift (fun hread => ?_))
      obtain ⟨⟨ls, hls'⟩, -⟩ := hread b hb
      rw [hls] at hls'
      cases hls'
    | ok ls =>
      have hlabels : (V.method m).sourceLabels = ls := by
        simp [MethodDef.sourceLabels, hb, hls]
      rw [hlabels]
      refine Ends.bind (ends_lift (Ends.of_run rfl ?_))
      cases ls with
      | nil => exact Ends.of_run rfl (settled_of_quiet hV rfl hp)
      | cons l ls =>
        have hne : m ≠ hook := by
          rintro rfl
          rw [sourceLabels_of_quiet hV.quiet] at hlabels
          cases hlabels
        refine (guardMethod_stops _ (hV.awaits hm (by simp [hb]) hne) hl
          hls hp).imp (fun _ _ => And.left) ?_
        rintro - _ ⟨-, b', hb', hlacks⟩ hread
        rw [(hread b' hb').2] at hlacks
        cases hlacks

/-- The entry is that of a source call of the system: `V` has the call, and `w`
the job. -/
def IsJobOf (V w : Workspace) (t : TypeId) (c : MethodId × Label)
    (e : JobEntry) : Prop :=
  ∃ k, SourceAt (V.method c.1).code c.2 k ∧ e.Describes w t c.1 k

theorem IsJobOf.grow {V w w' : Workspace} {t : TypeId} {c : MethodId × Label}
    {e : JobEntry} {S : Set MethodId} (h : IsJobOf V w t c e)
    (hf : w.Frame TypeEntry.Grows S w') (ht : t.index < w.types.size)
    (hn : w.Named t) : IsJobOf V w' t c e :=
  h.imp fun _ hk => ⟨hk.1, hk.2.grow hf ht hn⟩

/-- Every source call of a system has its job, or an error was reported. -/
def Accounted (V : Workspace) (t : TypeId) (calls : List (MethodId × Label))
    (r : Report) (q : PassState) : Prop :=
  ∃ ds js, q.report = r.extend ds js ∧
    ((∃ d ∈ ds, d.severity = .error) ∨
      List.Forall₂ (IsJobOf V q.world.workspace t) calls js)

/-- What is accounted for depends on the methods alone. -/
theorem forall₂_isJobOf_congr {V V' w : Workspace} {t : TypeId}
    {ms : List MethodId} {js : List JobEntry}
    (hms : ∀ m ∈ ms, V'.method m = V.method m)
    (h : List.Forall₂ (IsJobOf V' w t) (V'.callsIn ms) js) :
    List.Forall₂ (IsJobOf V w t) (V.callsIn ms) js := by
  have hcalls : V'.callsIn ms = V.callsIn ms :=
    List.flatMap_congr fun m hm => by rw [hms m hm]
  rw [hcalls] at h
  have hmem :=
    (List.forall₂_and_left (p := fun c : MethodId × Label => c.1 ∈ ms) _ _).2
    ⟨fun _ hc => Workspace.mem_callsIn hc, h⟩
  exact hmem.imp fun c e ⟨hc, hjob⟩ => by
    rwa [IsJobOf, hms c.1 hc] at hjob

/-- Every source call of some methods gets its job, or an error is reported. -/
theorem visitMethods_ends {ms : List MethodId} (hV : V.Hooked t hook)
    (hl : H.lookup t = some hook) (hms : ∀ m ∈ ms, V.Declared t m)
    (hnodup : ms.Nodup) (hhook : hook ∉ ms) (hp : Holding (· = V) H p.world) :
    Ends (ms.forM (visitMethod s)) p
      (fun _ q => Holding (fun w => V.Moves t w ∧ w.Hooked t hook) H q.world ∧
        Accounted V t (V.callsIn ms) p.report q)
      fun _ _ => ∃ m ∈ ms, ¬ (V.method m).Readable := by
  induction ms generalizing V p with
  | nil =>
    refine Ends.of_run rfl ⟨hp.imp fun he => ?_, [], [], by simp, .inr .nil⟩
    rw [he]
    exact ⟨.refl V t, hV⟩
  | cons m ms ih =>
    obtain ⟨hm, hms⟩ := List.forall_mem_cons.1 hms
    obtain ⟨hnot, hnodup⟩ := List.nodup_cons.1 hnodup
    have hhook : hook ∉ ms := fun hmem => hhook (List.mem_cons_of_mem m hmem)
    unfold List.forM
    refine Ends.bind ((visitMethod_ends hV hl hm hp).imp ?_
      fun _ _ he => ⟨m, by simp, he⟩)
    rintro - q ⟨hq, ds, js, hr, -, hjs⟩
    have hframe := hq.workspace.frame
    -- the methods that come later have not changed
    have hsame : ∀ n ∈ ms, q.world.workspace.method n = V.method n :=
      fun n hn => hq.workspace.method_eq hm hV.declared (hms n hn)
        (fun he => hnot (he ▸ hn)) fun he => hhook (he ▸ hn)
    have hrest := ih (V := q.world.workspace) (p := q) hq.workspace.hooked
      (fun n hn => (hms n hn).of_frame hframe) hnodup hhook
        (hq.imp fun _ => rfl)
    refine hrest.imp ?_ ?_
    swap
    · rintro - - ⟨n, hn, he⟩
      exact ⟨n, List.mem_cons_of_mem m hn, hsame n hn ▸ he⟩
    rintro - q' ⟨hq', ds', js', hr', hjs'⟩
    have hmoves := hq.workspace.moves hm hV.declared
    refine ⟨hq'.imp fun h => ⟨hmoves.trans h.1, h.2⟩, ds ++ ds', js ++ js',
      by simp [hr, hr'], ?_⟩
    rcases hjs with ⟨d, hd, hsev⟩ | hjs
    · exact .inl ⟨d, List.mem_append_left _ hd, hsev⟩
    rcases hjs' with ⟨d, hd, hsev⟩ | hjs'
    · exact .inl ⟨d, List.mem_append_right _ hd, hsev⟩
    refine .inr ?_
    rw [Workspace.callsIn, List.flatMap_cons]
    refine List.rel_append ?_ (forall₂_isJobOf_congr hsame hjs')
    rw [List.forall₂_map_left_iff]
    exact hjs.imp fun l e he => IsJobOf.grow (c := (m, l)) he
      hq'.workspace.1.frame hq.workspace.hooked.system hq.workspace.hooked.named

/-! ## Systems -/

/-- A system is processed: every source call of it gets its job, or an error is
reported. The pass stops only at a method that is not readable. -/
theorem processSystem_ends (hV : V.Pending H (t :: ts))
    (hp : Holding (· = V) H p.world) :
    Ends (processSystem s t) p
      (fun _ q => (∃ H', Holding (fun w => V.Moves t w ∧ w.Pending H' ts) H'
        q.world) ∧ Accounted V t (V.sourceCalls t) p.report q)
      fun _ _ => ∃ m ∈ (V.type t).methods, ¬ (V.method m).Readable := by
  have hnot : t ∉ ts := (List.nodup_cons.1 hV.nodup).1
  unfold processSystem
  refine Ends.bind (ends_lift ((hookOf_ends hV hp).imp ?_
    fun _ _ => False.elim))
  rintro (f | hook) w hw
  · -- the system declares the hook itself
    obtain ⟨hw, d, hd, hsev⟩ := hw
    refine Ends.of_run (note_run _ _) ⟨⟨H, hw.imp fun he => ?_⟩, [d],
      [], ?_, ?_⟩
    · rw [he]
      exact ⟨.refl V t, hV.tail fun _ _ => rfl⟩
    · simp [hd]
    · exact .inl ⟨d, by simp, hsev⟩
  obtain ⟨rfl, hw, hnone⟩ := hw
  obtain ⟨hhooked, hmoves, hold, hmethods, hdeclared⟩ := hV.addHook hnone
  have hlookup : ((t, (⟨V.methods.size⟩ : MethodId)) :: H).lookup t =
      some ⟨V.methods.size⟩ := by
    simp
  have hpending : V.Pending ((t, ⟨V.methods.size⟩) :: H) ts :=
    hV.tail fun x hx => by
    rw [List.lookup_cons, beq_false_of_ne (fun he : x = t => hnot (he ▸ hx))]
  have hfresh : ∀ n ∈ (V.type t).methods, n ≠ ⟨V.methods.size⟩ := by
    rintro n hn rfl
    exact Nat.lt_irrefl _ (hV.declared t (by simp) _ hn).lt
  refine Ends.bind (ends_lift (Ends.of_run rfl ?_))
  rw [hw.workspace, hmethods]
  have hsame : ∀ n ∈ (V.type t).methods, (V.addHook t).method n = V.method n :=
    fun n hn => congrArg (·.method) (hold n hn)
  refine ends_forM_append ((visitMethods_ends hhooked hlookup (fun n hn => ?_)
    (hV.methods_nodup t (by simp)) (fun hmem => hfresh _ hmem rfl) hw).imp ?_
      fun _ _ he => ?_)
  · exact (hV.declared t (by simp) n hn).of_frame hmoves.frame
  swap
  · obtain ⟨n, hn, he⟩ := he
    exact ⟨n, hn, hsame n hn ▸ he⟩
  rintro - q ⟨hq, ds, js, hr, hjs⟩
  -- the hook itself comes last and has no source calls
  obtain ⟨hq₁, hq₂⟩ := hq.workspace
  have hvisit := visitMethod_ends (s := s) hq₂ hlookup
    (hdeclared.of_frame hq₁.frame) (hq.imp fun _ => rfl)
  refine Ends.bind (hvisit.imp ?_ fun _ _ he => absurd
    (readable_of_quiet hq₂.quiet) he)
  rintro - q' ⟨hq', ds', js', hr', -, hjs'⟩
  have hmoved : V.Moves t q'.world.workspace :=
    (hmoves.trans hq₁).trans (hq'.workspace.moves hq₂.declared hq₂.declared)
  refine Ends.of_run rfl ⟨⟨_,
    hq'.imp fun _ => ⟨hmoved, hpending.of_moves hmoved hnot⟩⟩, ds ++ ds',
    js ++ js', by simp [hr, hr'], ?_⟩
  rcases hjs with ⟨d, hd, hsev⟩ | hjs
  · exact .inl ⟨d, List.mem_append_left _ hd, hsev⟩
  rcases hjs' with ⟨d, hd, hsev⟩ | hjs'
  · exact .inl ⟨d, List.mem_append_right _ hd, hsev⟩
  have hlabels := sourceLabels_of_quiet (hq₂.quiet)
  rw [hlabels, List.forall₂_nil_left_iff] at hjs'
  subst hjs'
  rw [List.append_nil]
  refine .inr ((forall₂_isJobOf_congr hsame hjs).imp fun c e he => ?_)
  exact he.grow hq'.workspace.frame hq₂.system hq₂.named

/-- The pass comes to a system in some state: it has processed the systems
before it. -/
def Reaches (s : Settings) (ts : List TypeId) (p : PassState) (t : TypeId)
    (q : PassState) : Prop :=
  ∃ before after, ts = before ++ t :: after ∧
    before.forM (processSystem s) p = .ok () q

theorem Reaches.cons {q q' : PassState} {x : TypeId} (h : Reaches s ts q t q')
    (hx : processSystem s x p = .ok () q) : Reaches s (x :: ts) p t q' := by
  obtain ⟨before, after, rfl, hrun⟩ := h
  refine ⟨x :: before, after, rfl, ?_⟩
  unfold List.forM
  simp only [bind, EStateM.bind, hx]
  exact hrun

/-- The entries are those of the systems, system by system: each system has the
jobs of the source calls that it had when the pass came to it. -/
def AllAccounted (s : Settings) (ts : List TypeId) (p : PassState)
    (w : Workspace) (jss : List (List JobEntry)) : Prop :=
  List.Forall₂ (fun t js => ∃ q, Reaches s ts p t q ∧
    List.Forall₂ (IsJobOf q.world.workspace w t)
      (q.world.workspace.sourceCalls t) js) ts jss

/-- Systems are processed one after another, up to a method that is not
readable. -/
theorem processSystems_ends (s : Settings) (ts rest : List TypeId)
    (hV : V.Pending H (ts ++ rest)) (hp : Holding (· = V) H p.world) :
    Ends (ts.forM (processSystem s)) p
      (fun _ q => (∃ H', Holding (fun w => V.Frame TypeEntry.Grows Set.univ w ∧
          w.Pending H' rest) H' q.world) ∧
        ∃ ds jss, q.report = p.report.extend ds jss.flatten ∧
          ((∃ d ∈ ds, d.severity = .error) ∨
            AllAccounted s ts p q.world.workspace jss))
      fun _ _ => ∃ t ∈ ts, ∃ m ∈ (V.type t).methods,
      ¬ (V.method m).Readable := by
  induction ts generalizing V H p with
  | nil =>
    refine Ends.of_run rfl ⟨⟨H, hp.imp fun he => ?_⟩, [], [],
      by simp, .inr .nil⟩
    rw [he]
    exact ⟨.refl TypeEntry.Grows.refl _ _, hV⟩
  | cons t ts ih =>
    unfold List.forM
    have hfirst := (processSystem_ends (s := s) hV hp).and_run
    refine Ends.bind (hfirst.imp ?_ fun _ _ he => ⟨t, by simp, he⟩)
    rintro ⟨⟩ q ⟨hrun, ⟨H', hq⟩, ds, js, hr, hjs⟩
    obtain ⟨hmoves, hpending⟩ := hq.workspace
    refine (ih hpending (hq.imp fun _ => rfl)).imp ?_ fun _ _ => ?_
    swap
    · -- the methods of the systems after this one have not changed
      rintro ⟨x, hx, n, hn, he⟩
      have hne : x ≠ t := fun h => (List.nodup_cons.1 hV.nodup).1
        (h ▸ List.mem_append_left rest hx)
      have hmem : x ∈ t :: ts ++ rest := by simp [hx]
      have hn' := (hmoves.others x hne (hV.lt x hmem)).methods.mem hn
      rw [hmoves.methods x n hne (hV.declared x hmem n hn')] at he
      exact ⟨x, by simp [hx], n, hn', he⟩
    rintro - q' ⟨⟨H'', hq'⟩, ds', jss, hr', hjss⟩
    refine ⟨⟨H'', hq'.imp fun h => ⟨?_, h.2⟩⟩, ds ++ ds', js :: jss,
      by simp [hr, hr'], ?_⟩
    · exact hmoves.frame.trans TypeEntry.Grows.trans h.1 fun _ _ => id
    rcases hjs with ⟨d, hd, hsev⟩ | hjs
    · exact .inl ⟨d, List.mem_append_left _ hd, hsev⟩
    rcases hjss with ⟨d, hd, hsev⟩ | hjss
    · exact .inl ⟨d, List.mem_append_right _ hd, hsev⟩
    refine .inr (.cons ⟨p, ⟨[], ts, rfl, rfl⟩, ?_⟩ (hjss.imp ?_))
    · rw [hp.workspace]
      exact hjs.imp fun c e he => he.grow hq'.workspace.1
        ((hV.lt t (by simp)).trans_le hmoves.frame.types_le)
        ((hV.named t (by simp)).of_frame hmoves.frame)
    · rintro x js' ⟨q₁, hreach, hx⟩
      exact ⟨q₁, hreach.cons hrun, hx⟩

end Pass

end JobWeave
