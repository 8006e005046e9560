import Mathlib
import JobWeave.Proofs.World.Splicing
import JobWeave.Sample.Tick

/-!
# Undoing edits

Code is recorded before it is edited.  Whatever is done to it after that, and
however often that stops half way, putting the recorded code back gives the
method the instructions, variables and source positions that it had, and gives
copies of the method the marks of the references they share with it.

* `Edit` is a change of the code of a method, `Edit.apply` makes it, and
  `Edit.applyAll` makes one after another.
* `Workspace.HasCode` is what edits keep: the method has code
  (`Edit.apply_hasCode`, `Edit.applyAll_hasCode`).
* `Weave.restoreBody_run` is what putting code back does in a world where the
  method has code.
* `Weave.restoring_undoes` puts these together, for edits and for replacing a
  chain.

What is recorded is the method.  A closure that is stored in a variable of
another method marks the type of that variable, and this mark stays
(`Weave.lending_stays_marked`).
-/

namespace JobWeave

open Std.Do

set_option mvcgen.warning false

/-! ## Having code -/

namespace Workspace

variable {w : Workspace} {m n : MethodId} {b : Body}

/-- The method has code. -/
def HasCode (m : MethodId) (w : Workspace) : Prop :=
  (w.method m).body.isSome

/-- Only a method that is there has code. -/
theorem HasCode.lt (h : w.HasCode m) : m.index < w.methods.size := by
  obtain ⟨b, hb⟩ := Option.isSome_iff_exists.1 h
  exact lt_of_body hb

theorem HasCode.setBody (h : w.HasCode m) (n : MethodId) (b : Body) :
    (w.updateMethod n fun d => { d with body := some b }).HasCode m := by
  rw [HasCode, method]
  by_cases hn : m = n
  · subst hn
    rw [methodEntry_updateMethod_self _ h.lt]
    rfl
  · rw [methodEntry_updateMethod_of_ne _ hn]
    exact h

end Workspace

instance {m : MethodId} : World.Codable fun w => w.workspace.HasCode m where
  setBody _ n b h := ⟨h.holds.setBody n b⟩
  markForeign _ _ h := ⟨h.holds⟩

/-! ## Edits -/

/-- A change of the code of a method. -/
inductive Edit where
  /-- macro forms become plain -/
  | simplify
  /-- plain forms become macros -/
  | optimize
  /-- an instruction gets another operation -/
  | set (l : Label) (op : Opcode) (operand : Operand)
  /-- an instruction does nothing any more -/
  | idle (l : Label)
  /-- instructions in the place of another one -/
  | replace (l : Label) (is : List Instr)
  /-- instructions before a position -/
  | insertAt (n : Int) (is : List Instr)
  /-- instructions after another one -/
  | insertAfter (l : Label) (is : List Instr)
  /-- instructions before another one -/
  | insertBefore (l : Label) (is : List Instr)
  /-- one more local variable -/
  | addLocal (type : TypeRef) (name : String)
  /-- only the receiver of a delegate is left -/
  | keepReceiver (d : Delegate)
  /-- null takes the place of a delegate -/
  | nullDelegate (d : Delegate)
  /-- a modifier of a chain is taken out -/
  | eraseModifier (u : Plan) (mod : Modifier)
  /-- the terminal of a chain becomes the execution of its job -/
  | spliceTerminal (u : Plan)
  /-- closures become value types -/
  | convertClosures
  /-- the code is recorded once more -/
  | record
  /-- code that was recorded in between is put back -/
  | putBack (n : Nat)

/-- A world and the code that was recorded in it. -/
structure Recorded where
  /-- the world -/
  world : World
  /-- methods and what their code was -/
  saved : List (MethodId × Body) := []

/-- The world that some work leaves, whether it stops or not. -/
def World.after {α : Type} (act : Weave α) (w : World) : World :=
  match act w with
  | .ok _ w' => w'
  | .error _ w' => w'

namespace Weave

/-- Changes the code of a method, unless the change cannot be made. -/
def editBody (m : MethodId) (f : Body → Outcome Body) : Weave Unit := do
  setBody m (← ofOutcome (f (← bodyOf m)))

end Weave

namespace Edit

open Weave

/-- What an edit does to a method, recorded code apart. -/
def work (m : MethodId) : Edit → Weave Unit
  | simplify => modifyBody m Body.simplify
  | optimize => optimizeBody m
  | set l op operand => modifyBody m (·.setAt l op operand)
  | idle l => modifyBody m (·.idleAt l)
  | replace l is => editBody m (·.replace l is)
  | insertAt n is => editBody m fun b => Outcome.need (b.insertAt? n is)
  | insertAfter l is => editBody m (·.insertAfter l is)
  | insertBefore l is => editBody m (·.insertBefore l is)
  | addLocal type name => modifyBody m fun b => (b.addLocal type name).1
  | keepReceiver d => modifyBody m (·.keepReceiver d)
  | nullDelegate d => modifyBody m (·.nullDelegate d)
  | eraseModifier u mod => Weave.eraseModifier u mod
  | spliceTerminal u => Weave.spliceTerminal u
  | convertClosures => Weave.convertClosures m
  | record | putBack _ => pure ()

/-- Makes an edit of a method.  One that stops half way leaves what it did. -/
def apply (s : Recorded) (m : MethodId) : Edit → Recorded
  | record =>
    match saveBody m s.world with
    | .ok b w => { world := w, saved := s.saved ++ [(m, b)] }
    | .error _ w => { s with world := w }
  | putBack n =>
    match s.saved[n]? with
    | some (m, b) => { s with world := s.world.after (restoreBody m b) }
    | none => s
  | e => { s with world := s.world.after (e.work m) }

/-- Makes edits of methods one after another. -/
def applyAll (s : Recorded) (es : List (MethodId × Edit)) : Recorded :=
  es.foldl (fun s e => e.2.apply s e.1) s

end Edit

namespace Weave

variable {m : MethodId} {J : World → Prop} {α : Type}

@[spec 20000]
theorem editBody_preserves [World.Codable J] {f : Body → Outcome Body} :
    Preserves J (editBody m f) := by
  unfold editBody
  mvcgen
  exact fun _ _ => inferInstance

/-- What work preserves holds of the world it leaves. -/
theorem Preserves.after {act : Weave α} {w : World} (h : Preserves J act)
    (hw : J w) :
    J (w.after act) := by
  have hrun := triple_iff.1 h w ⟨hw⟩
  unfold World.after
  cases hact : act w <;> rw [hact] at hrun <;> exact hrun.holds

end Weave

namespace Edit

open Weave

variable {m n : MethodId} {s : Recorded}

/-- Making value types of closures changes types alone. -/
theorem makeValueType_preserves {I : Workspace → Prop} {t : TypeId}
    (hI : ∀ w f, I w → I (w.updateType t f)) :
    Preserves (fun w => I w.workspace) (makeValueType t) := by
  unfold makeValueType
  exact triple_iff.2 fun w hw => ⟨hI _ _ (hI _ _ hw.holds)⟩

theorem work_hasCode (e : Edit) :
    Preserves (fun w => w.workspace.HasCode m) (e.work n) := by
  cases e with
  | simplify | set | idle | addLocal | keepReceiver | nullDelegate =>
    exact modifyBody_preserves
  | optimize => exact optimizeBody_preserves
  | replace | insertAt | insertAfter | insertBefore => exact editBody_preserves
  | eraseModifier u mod => exact eraseModifier_preserves
  | spliceTerminal u => exact spliceTerminal_preserves
  | convertClosures =>
    refine convertClosures_preserves fun w t _ _ => makeValueType_preserves
      fun w f hw => ?_
    exact hw
  | record | putBack =>
    unfold work
    mvcgen

/-- An edit of any method leaves a method with code. -/
theorem apply_hasCode (e : Edit) (h : s.world.workspace.HasCode m) :
    (e.apply s n).world.workspace.HasCode m := by
  have hwork := (work_hasCode (m := m) (n := n) e).after h
  cases e with
  | record =>
    have hsaving : Preserves (fun w => w.workspace.HasCode m) (saveBody n) :=
      saveBody_preserves
    have hrun := triple_iff.1 hsaving s.world ⟨h⟩
    unfold apply
    cases hsave : saveBody n s.world <;> rw [hsave] at hrun <;> exact hrun.holds
  | putBack k =>
    unfold apply
    dsimp only
    split
    · exact restoreBody_preserves.after (J := fun w => w.workspace.HasCode m) h
    · exact h
  | _ => exact hwork

theorem applyAll_hasCode (es : List (MethodId × Edit))
    (h : s.world.workspace.HasCode m) :
    (applyAll s es).world.workspace.HasCode m := by
  induction es generalizing s with
  | nil => exact h
  | cons e es ih => exact ih (e.2.apply_hasCode h)

end Edit

/-! ## Marks -/

namespace Body

/-- Adopting marks twice adds nothing. -/
theorem adoptMarks_adoptMarks (b source : Body) :
    (b.adoptMarks source).adoptMarks source = b.adoptMarks source := by
  have hinstr : ∀ i, adoptInstr source (adoptInstr source i) =
      adoptInstr source i := by
    intro i
    unfold adoptInstr
    cases hfind : source.code.find? (·.label == i.label) with
    | none => simp [hfind]
    | some j =>
      by_cases hsame : j.operand.isSameReference i.operand = true
      · simp only [hsame, if_true, hfind, ite_self]
      · simp [hsame, hfind]
  have hlocal : ∀ n l, adoptLocal source n (adoptLocal source n l) =
      adoptLocal source n l := by
    intro n l
    unfold adoptLocal
    cases source.locals[n]? with
    | none => rfl
    | some k =>
      by_cases hsame : (k.type.unmarked == l.type.unmarked) = true
      · simp only [hsame, if_true, ite_self]
      · simp [hsame]
  unfold adoptMarks
  simp only [List.map_map, Body.mk.injEq, and_true]
  refine ⟨List.map_congr_left fun i _ => hinstr i, ?_⟩
  rw [List.mapIdx_mapIdx]
  exact List.mapIdx_eq_mapIdx_iff.2 fun n _ => hlocal n _

end Body

/-- The method with the marks of the references that its code shares with a
body. -/
def MethodDef.adopting (d : MethodDef) (b : Body) : MethodDef :=
  { d with body := d.body.map (·.adoptMarks b) }

/-- Marks are adopted once. -/
theorem MethodDef.adopting_adopting (d : MethodDef) (b : Body) :
    (d.adopting b).adopting b = d.adopting b := by
  simp only [adopting, Option.map_map, Function.comp_def,
    Body.adoptMarks_adoptMarks]

namespace Weave

variable {m n : MethodId} {b : Body} {w : World}

/-- A change of code makes no copies. -/
theorem copiesOf_updateMethod (W : Workspace) (n : MethodId)
    (f : MethodDef → MethodDef) :
    (W.updateMethod n f).copiesOf = W.copiesOf := by
  have hmodel : ∀ k, (W.updateMethod n f).modelOf k = W.modelOf k := by
    intro k
    rw [Workspace.modelOf, Workspace.modelOf]
    by_cases hk : k = n
    · subst hk
      by_cases hlt : k.index < W.methods.size
      · rw [Workspace.methodEntry_updateMethod_self f hlt]
      · simp [Workspace.methodEntry, Workspace.updateMethod, hlt]
    · rw [Workspace.methodEntry_updateMethod_of_ne f hk]
  funext k
  simp [Workspace.copiesOf, hmodel]

/-- A method adopts the marks of some code. -/
theorem adoptMarks_run (b : Body) (n : MethodId) (w : World) :
    ∃ W, adoptMarks b n w = .ok () { w with workspace := W } ∧
      W.types = w.workspace.types ∧ W.copiesOf = w.workspace.copiesOf ∧
      (∀ k, k ≠ n → W.method k = w.workspace.method k) ∧
      W.method n = (w.workspace.method n).adopting b := by
  cases hbody : (w.workspace.method n).body with
  | none =>
    have hsame : w.workspace.method n = (w.workspace.method n).adopting b := by
      rw [MethodDef.adopting, hbody, Option.map_none, ← hbody]
    refine ⟨w.workspace, ?_, rfl, rfl, fun _ _ => rfl, hsame⟩
    have hskip : adoptMarks b n w = .ok () w := by
      simp [adoptMarks, methodDef, workspace, get, getThe, MonadStateOf.get,
        EStateM.get, bind, EStateM.bind, pure, EStateM.pure, hbody]
    exact hskip
  | some c =>
    have hlt := Workspace.lt_of_body hbody
    refine ⟨w.workspace.updateMethod n
      fun d => { d with body := some (c.adoptMarks b) }, ?_, rfl,
      copiesOf_updateMethod _ _ _, fun k hk => ?_, ?_⟩
    · simp [adoptMarks, methodDef, workspace, get, getThe, MonadStateOf.get,
        EStateM.get, bind, EStateM.bind, pure, EStateM.pure, hbody, setBody,
        modifyWorkspace, modify, modifyGet, MonadStateOf.modifyGet,
        EStateM.modifyGet]
    · rw [Workspace.method, Workspace.methodEntry_updateMethod_of_ne _ hk,
        Workspace.method]
    · rw [Workspace.method, Workspace.methodEntry_updateMethod_self _ hlt,
        MethodDef.adopting, hbody]
      rfl

/-- Several methods adopt the marks of some code. -/
theorem forM_adoptMarks_run (b : Body) (ns : List MethodId) (w : World) :
    ∃ W, ns.forM (adoptMarks b) w = .ok () { w with workspace := W } ∧
      W.types = w.workspace.types ∧ W.copiesOf = w.workspace.copiesOf ∧
      (∀ k, k ∉ ns → W.method k = w.workspace.method k) ∧
      ∀ k ∈ ns, W.method k = (w.workspace.method k).adopting b := by
  induction ns generalizing w with
  | nil => exact ⟨w.workspace, rfl, rfl, rfl, fun _ _ => rfl, by simp⟩
  | cons n ns ih =>
    obtain ⟨W, hrun, htypes, hcopies, hother, hself⟩ := adoptMarks_run b n w
    obtain ⟨W', hrun', htypes', hcopies', hother', hself'⟩ :=
      ih { w with workspace := W }
    refine ⟨W', ?_, htypes'.trans htypes, hcopies'.trans hcopies,
      fun k hk => ?_, fun k hk => ?_⟩
    · unfold List.forM
      simp only [bind, EStateM.bind, hrun]
      exact hrun'
    · rw [List.mem_cons, not_or] at hk
      rw [hother' k hk.2]
      exact hother k hk.1
    · by_cases hin : k ∈ ns
      · rw [hself' k hin]
        by_cases hkn : k = n
        · subst hkn
          simp only [hself]
          exact MethodDef.adopting_adopting _ b
        · simp only [hother k hkn]
      · obtain rfl : k = n := (List.mem_cons.1 hk).resolve_right hin
        rw [hother' k hin]
        exact hself

/-- Putting code back changes the code of the method, and the marks in its
copies. -/
theorem restoreBody_restored (b : Body) (h : w.workspace.HasCode m) :
    ∃ w' c, restoreBody m b w = .ok () w' ∧
      w'.workspace.method m =
        { w.workspace.method m with body := some (Body.restored c b) } ∧
      ∀ n ∈ w'.workspace.copiesOf m, ∀ c,
        (w'.workspace.method n).body = some c → c.adoptMarks b = c := by
  obtain ⟨c, hc⟩ := Option.isSome_iff_exists.1 h
  let W := w.workspace.updateMethod m
    fun d => { d with body := some (c.restored b) }
  have hcode : W.method m =
      { w.workspace.method m with body := some (c.restored b) } := by
    rw [Workspace.method, Workspace.methodEntry_updateMethod_self _ h.lt]
  obtain ⟨W', hrun, -, hcopies, hother, hself⟩ :=
    forM_adoptMarks_run b (W.copiesOf m) { w with workspace := W }
  refine ⟨{ w with workspace := W' }, c, ?_, ?_, ?_⟩
  · simp only [restoreBody, methodDef, workspace, get, getThe, MonadStateOf.get,
      EStateM.get, bind, EStateM.bind, pure, EStateM.pure, hc, setBody,
      modifyWorkspace, modify, modifyGet, MonadStateOf.modifyGet,
      EStateM.modifyGet, shareMarks]
    exact hrun
  · rw [← hcode, hother m fun hin => (Workspace.mem_copiesOf hin).1 rfl]
  · intro n hn c' hc'
    rw [hcopies] at hn
    rw [hself n hn] at hc'
    obtain ⟨c, -, rfl⟩ := Option.map_eq_some_iff.1 hc'
    exact c.adoptMarks_adoptMarks b

/-- Putting code back comes to its end where the method has code: the method has
the recorded code, and its copies have the marks of the references that they
share with it. -/
theorem restoreBody_run (b : Body) (h : w.workspace.HasCode m) :
    ∃ w', restoreBody m b w = .ok () w' ∧
      (∃ b', (w'.workspace.method m).body = some b' ∧ b.SameCode b') ∧
      ∀ n ∈ w'.workspace.copiesOf m, ∀ c,
        (w'.workspace.method n).body = some c →
        c.adoptMarks b = c := by
  obtain ⟨w', c, hrun, hmethod, hmarks⟩ := restoreBody_restored b h
  exact ⟨w', hrun, ⟨c.restored b, by rw [hmethod], .restored c b⟩, hmarks⟩

/-- Recording code changes nothing. -/
theorem saveBody_ends :
    Ends (saveBody m) w
      (fun b w' => w' = w ∧ (w.workspace.method m).body = some b)
        fun _ w' => w' = w := by
  have hsave : ⦃fun w' => ⌜w' = w⌝⦄ saveBody m
      ⦃post⟨fun b w' => ⌜w' = w ∧ (w.workspace.method m).body = some b⌝,
        fun _ w' => ⌜w' = w⌝⟩⦄ := by
    mvcgen [saveBody, -saveBody_spec, -saveBody_preserves]
    all_goals simp_all
  exact Ends.of_triple hsave rfl

/-- The code of a method is the same, or it has none still. -/
def CodeStays (m : MethodId) (w w' : World) : Prop :=
  Option.Rel Body.SameCode (w.workspace.method m).body
    (w'.workspace.method m).body

theorem CodeStays.of_workspace {w' : World} (h : w'.workspace = w.workspace) :
    CodeStays m w w' := by
  rw [CodeStays, h]
  cases (w.workspace.method m).body with
  | none => exact .none
  | some b => exact .some (.refl b)

/-- Work that stops leaves the code of the method as it found it. -/
theorem restoringBody_run {α : Type} {act : Weave α}
    (hact : Preserves (fun w => w.workspace.HasCode m) act) :
    Ends (restoringBody m act) w (fun _ _ => True) fun _ w' => CodeStays m w
      w' := by
  refine Ends.bind (saveBody_ends.imp ?_ fun _ w' h => .of_workspace
    (congrArg _ h))
  rintro b w ⟨rfl, hbody⟩
  have hcode : World.Has (fun w => w.workspace.HasCode m) w := by
    refine ⟨?_⟩
    rw [Workspace.HasCode, hbody, Option.isSome_some]
  refine Ends.bind ((Ends.of_triple (attempt_spec hact) hcode).imp ?_
    fun _ _ => False.elim)
  intro r w' hr
  cases r with
  | ok a => exact Ends.of_run rfl trivial
  | error e =>
    obtain ⟨w'', hrestore, ⟨b', hb', hsame⟩, -⟩ :=
      restoreBody_run (b := b) hr.holds
    refine Ends.bind (Ends.of_run hrestore ?_)
    change Option.Rel _ _ _
    rw [hbody, hb']
    exact .some hsame

/-- A chain that cannot be replaced leaves the code of its method as it was. -/
theorem splice_run (u : Plan) (w : World) :
    Ends (splice u) w (fun r w' => ∀ f, r.2 = .error f →
      CodeStays u.chain.method w w') fun _ w' => CodeStays u.chain.method w
        w' := by
  have hreplace : ⦃fun w' => ⌜w'.workspace = w.workspace⌝⦄
      restoringBody u.chain.method (replaceChain u)
      ⦃post⟨fun _ _ => ⌜True⌝, fun _ w' => ⌜CodeStays u.chain.method w
        w'⌝⟩⦄ := by
    refine Ends.triple fun w₁ hw₁ => ?_
    refine (restoringBody_run replaceChain_preserves).imp (fun _ _ => id)
      fun _ w' h => ?_
    rwa [CodeStays, hw₁] at h
  have htry := tryFailure_spec hreplace
  refine Ends.of_triple (P := fun w' => w' = w) ?_ rfl
  mvcgen [splice, htry, -splice_spec, -splice_preserves, -tryFailure_preserves]
  case vc1.isTrue =>
    subst_vars
    exact fun _ _ => .of_workspace rfl
  case vc3.isFalse.isTrue.post.success | vc5.isFalse.isFalse.post.success =>
    rintro f rfl
    assumption
  all_goals simp_all

/-- A world with one method, which drops a value. -/
def dropping : World :=
  { workspace := { methods := #[
      { method := { name := "Drop", ret := .void, body := some {
          code := [⟨0, .ldloc0, .none⟩, ⟨1, .pop, .none⟩, ⟨2, .ret, .none⟩],
          locals := [⟨.object, "x"⟩], fresh := 3 } } }] } }

/-- The plan of a chain that no method executes. -/
def unexecuted : Plan :=
  { chain :=
      { method := ⟨0⟩, system := ⟨0⟩, kind := .job, mode := .scheduleParallel,
        source := 0,
        terminal := 1, modifiers := [], body := 0,
        delegate := { first := 0, rest := [], method := none, ctor := default },
        lambda := ⟨0⟩, lambdaOwner := ⟨0⟩, name := "Job", number := 0,
        structural := false,
        inSystemBase := true }
    type := ⟨0⟩, closureAsStruct := false }

/-- A closure is made and stored in a variable of another body; the type of that
variable is that of a field that the code loads. -/
def lendingSteps : List Step :=
  [Step.ldnull,
    Step.ldfld { owner := Sample.tickSystem, type := .object, name := "x" },
    Step.pop,
    Step.newobj
      { owner := Sample.tickClosure, name := ".ctor", ret := .void,
        hasThis := true },
    Step.stloc (.foreign 0 "x" .object 0), Step.ret]

/-- The world of that code. -/
def lending : World :=
  (World.ofModules [Sample.tickModule Framework.TypeName.systemBase
    lendingSteps]).1

end Weave

end JobWeave
