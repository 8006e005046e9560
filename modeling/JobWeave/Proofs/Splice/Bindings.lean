import Mathlib
import JobWeave.Proofs.World.Restoring
import JobWeave.Proofs.World.Splicing

/-!
# Which objects and methods the code of a replaced chain still names

An instruction binds what it names if it makes an object or points at a method.
Replacing a chain puts no such instruction into a method, and it takes those of
the chain's delegate out.  So what is bound after all chains were replaced was
bound before, and not in one of their delegates.

* `Body.BindsIn` says this of some code; edits keep it (`Body.BindsIn.replace`,
  `Body.BindsIn.insertAfter`), and leaving the receiver of a delegate adds the
  rest of it (`Body.BindsIn.keepReceiver`).
* `Emitter.Unbound` says of emitted code that nothing in it binds.
* `Weave.replaceChain_unbinds` is about one chain, `Weave.spliceAll_unbinds`
  about several.
-/

namespace JobWeave

open Framework Std.Do

set_option mvcgen.warning false

/-- An operation that makes an object or points at a method. -/
def Opcode.binds (op : Opcode) : Bool :=
  op == .newobj || op == .ldftn || op == .ldvirtftn

/-! ## Code -/

namespace Body

variable {S : List Instr} {gone : List Label} {b b' : Body} {l : Label}
  {is : List Instr}

/-- What the code binds is among `S`, and no longer under the labels `gone`. -/
def BindsIn (S : List Instr) (gone : List Label) (b : Body) : Prop :=
  ∀ i ∈ b.code, i.op.binds = true → i ∈ S ∧ i.label ∉ gone

/-- Instructions that bind nothing do not matter. -/
theorem BindsIn.of_mem (h : b.BindsIn S gone)
    (hcode : ∀ i ∈ b'.code, i.op.binds = true → i ∈ b.code) :
    b'.BindsIn S gone :=
  fun i hi hop => h i (hcode i hi hop) hop

theorem BindsIn.map (h : b.BindsIn S gone) {f : Instr → Instr}
    (hf : ∀ i, (f i).op.binds = true → f i = i)
    (hcode : b'.code = b.code.map f) :
    b'.BindsIn S gone := by
  refine h.of_mem fun i hi hop => ?_
  rw [hcode] at hi
  obtain ⟨j, hj, rfl⟩ := List.mem_map.1 hi
  rwa [hf j hop]

theorem BindsIn.simplify (h : b.BindsIn S gone) :
    b.simplify.BindsIn S gone := by
  refine h.map (fun i hop => ?_) rfl
  obtain ⟨label, op, operand⟩ := i
  cases op <;> first
    | rfl
    | (revert hop; simp only [simplifyInstr]; split <;>
      simp [Instr.become, Opcode.binds])
    | (simp [simplifyInstr, Instr.become, Opcode.binds, Opcode.long] at hop)

/-- An instruction that is changed into one that binds nothing is gone. -/
theorem BindsIn.update (h : b.BindsIn S gone) {f : Instr → Instr}
    (hf : ∀ i, (f i).op.binds = false) (l : Label) :
    (b.update l f).BindsIn S (l :: gone) := by
  intro i hi hop
  obtain ⟨j, hj, rfl⟩ := List.mem_map.1 hi
  by_cases hl : (j.label == l) = true
  · rw [if_pos hl, hf] at hop
    cases hop
  · rw [if_neg hl] at hop ⊢
    obtain ⟨hS, hgone⟩ := h j hj hop
    have hne : j.label ≠ l := by simpa using hl
    exact ⟨hS, by simp [hne, hgone]⟩

theorem BindsIn.mono (h : b.BindsIn S gone) {gone' : List Label}
    (hsub : gone' ⊆ gone) :
    b.BindsIn S gone' :=
  fun i hi hop => (h i hi hop).imp_right fun hnot hmem => hnot (hsub hmem)

theorem BindsIn.idleAt (h : b.BindsIn S gone) (l : Label) :
    (b.idleAt l).BindsIn S (l :: gone) :=
  h.update (fun _ => rfl) l

theorem BindsIn.idle (h : b.BindsIn S gone) (l : Label) :
    (b.idleAt l).BindsIn S gone :=
  (h.idleAt l).mono (List.subset_cons_self _ _)

theorem BindsIn.setAt (h : b.BindsIn S gone) {op : Opcode}
    (hop : op.binds = false) (l : Label) (o : Operand) :
    (b.setAt l op o).BindsIn S gone :=
  (h.update (fun _ => hop) l).mono (List.subset_cons_self _ _)

/-- Only the receiver of the delegate is left. -/
theorem BindsIn.keepReceiver (h : b.BindsIn S gone) (d : Delegate) :
    (b.keepReceiver d).BindsIn S (d.rest ++ gone) := by
  have hfold : ∀ (ls : List Label) {b : Body} {gone : List Label},
    b.BindsIn S gone →
      (ls.foldl Body.idleAt b).BindsIn S (ls ++ gone) := by
    intro ls
    induction ls with
    | nil => exact fun h => h
    | cons l ls ih =>
      intro b gone h
      refine (ih (h.idleAt l)).mono fun x hx => ?_
      simp only [List.cons_append, List.mem_cons, List.mem_append] at hx ⊢
      tauto
  exact hfold d.rest h

theorem BindsIn.nullDelegate (h : b.BindsIn S gone) (d : Delegate) :
    (b.nullDelegate d).BindsIn S (d.rest ++ gone) :=
  (h.setAt rfl d.first .none).keepReceiver d

/-- Code that binds nothing is put in. -/
theorem BindsIn.insertAt (h : b.BindsIn S gone) {n : Int}
    (his : ∀ i ∈ is, i.op.binds = false) (hb : b.insertAt? n is = some b') :
    b'.BindsIn S gone := by
  simp only [insertAt?, List.splitAt_eq] at hb
  split at hb
  · cases hb
    exact h
  · split at hb
    · cases hb
    · cases hb
      refine h.of_mem fun i hi hop => ?_
      simp only [List.append_assoc, List.mem_append] at hi
      rcases hi with hi | hi | hi
      · exact List.mem_of_mem_take hi
      · rw [his i hi] at hop
        cases hop
      · exact List.mem_of_mem_drop hi

theorem BindsIn.insertAfter (h : b.BindsIn S gone)
    (his : ∀ i ∈ is, i.op.binds = false) (hb : b.insertAfter l is = .ok b') :
    b'.BindsIn S gone := by
  unfold Body.insertAfter at hb
  split at hb
  · rename_i n _
    cases hinsert : b.insertAt? (n + 1) is with
    | none =>
      rw [hinsert] at hb
      cases hb
    | some c =>
      rw [hinsert] at hb
      cases hb
      exact h.insertAt his hinsert
  · cases hb

theorem BindsIn.replace (h : b.BindsIn S gone)
    (his : ∀ i ∈ is, i.op.binds = false) (hb : b.replace l is = .ok b') :
    b'.BindsIn S gone := by
  cases is with
  | nil =>
    cases hb
    exact h.idle l
  | cons i is =>
    obtain ⟨hi, his⟩ := List.forall_mem_cons.1 his
    exact (h.setAt hi l i.operand).insertAfter his hb

theorem binds_labelled {ss : List Step} (hss : ∀ s ∈ ss, s.1.binds = false) :
    ∀ i ∈ b.labelled ss, i.op.binds = false := by
  intro i hi
  obtain ⟨n, hn, rfl⟩ := List.mem_mapIdx.1 hi
  exact hss _ (List.getElem_mem hn)

end Body

/-! ## Emitted code -/

namespace Emitter

variable {e : Emitter}

/-- Nothing in the emitted code binds. -/
def Unbound (e : Emitter) : Prop :=
  ∀ i ∈ e.code, i.op.binds = false

theorem unbound_forBody (b : Body) : (forBody b).Unbound :=
  fun i hi => by simp [forBody] at hi

@[simp, grind =]
theorem unbound_emit {s : Step} :
    (e.emit s).Unbound ↔ e.Unbound ∧ s.1.binds = false := by
  have hcode : (e.emit s).code = e.code.push ⟨e.fresh, s.1, s.2⟩ := rfl
  simp [Unbound, hcode, or_imp, forall_and]

@[simp, grind =]
theorem unbound_emitAll {ss : List Step} :
    (e.emitAll ss).Unbound ↔ e.Unbound ∧ ∀ s ∈ ss, s.1.binds = false := by
  induction ss generalizing e with
  | nil => simp [Emitter.emitAll]
  | cons s ss ih =>
    rw [show e.emitAll (s :: ss) = (e.emit s).emitAll ss from rfl, ih,
      unbound_emit, List.forall_mem_cons, and_assoc]

@[simp, grind =]
theorem unbound_branch {op : Opcode} {m : EmitMark} :
    (e.branch op m).Unbound ↔ e.Unbound ∧ op.binds = false :=
  unbound_emit (e := { e with branches := e.branches.push (e.fresh, m) })

@[simp, grind =]
theorem unbound_place {m : EmitMark} : (e.place m).Unbound ↔ e.Unbound :=
  Iff.rfl

theorem Unbound.pointBranches (h : e.Unbound) (bs : List (Label × EmitMark)) :
    (e.pointBranches bs).1.Unbound := by
  induction bs generalizing e with
  | nil => exact h
  | cons x bs ih =>
    rw [Emitter.pointBranches]
    split
    · exact h
    · refine ih fun i hi => ?_
      obtain ⟨j, hj, rfl⟩ := Array.mem_map.1 hi
      split <;> exact h j hj

theorem Unbound.finish (h : e.Unbound) {is : List Instr}
    (his : e.finish.2 = .ok is) :
    ∀ i ∈ is, i.op.binds = false := by
  have hpoint := h.pointBranches e.branches.toList
  unfold Emitter.finish at his
  split at his
  · cases his
  · rename_i e' hrun
    rw [hrun] at hpoint
    split at his
    · cases his
    · cases his
      exact fun i hi => hpoint i (by simpa using hi)

end Emitter

/-! ## Replacing a chain -/

/-- What the code of the method binds is among `S`, and no longer under the
labels `gone`. -/
def World.BindsIn (S : List Instr) (gone : List Label) (m : MethodId)
    (w : World) : Prop :=
  (w.workspace.method m).code.BindsIn S gone

instance (S : List Instr) (gone : List Label) (m : MethodId) :
    World.Importing (World.BindsIn S gone m) :=
  Weave.importing_workspace (I := fun V => (V.method m).code.BindsIn S gone)

@[grind →]
theorem World.Has.bindsIn {S : List Instr} {gone : List Label} {m : MethodId}
    {w : World} (h : w.Has (World.BindsIn S gone m)) :
    (w.workspace.method m).code.BindsIn S gone :=
  h.holds

namespace Weave

variable {S : List Instr} {gone : List Label} {m : MethodId} {b : Body}
  {u : Plan} {e : Emitter}

/-! ### What is emitted -/

section Lookups

variable {J : World → Prop} [World.Searchable J]

theorem modifierSteps_unbound {mod : Modifier} {want : Int} :
    Yields J (fun ss => ∀ s ∈ ss, s.1.binds = false)
      (modifierSteps u mod want) := by
  unfold modifierSteps
  mvcgen
  · exact ⟨‹_›, by simp [Step.ldarg, Step.ldfld, Step.call, Opcode.binds]⟩
  · exact ⟨‹_›, fun s hs => List.eq_of_mem_replicate hs ▸ rfl⟩

theorem loadRunDelegate_unbound (he : e.Unbound) :
    Yields J Emitter.Unbound (loadRunDelegate u e) := by
  have hmarks : e.newMark.1.newMark.1.Unbound := he
  unfold loadRunDelegate
  mvcgen
  all_goals simp_all [Step.call, Step.ldsfld, Step.nop, Opcode.binds]

omit [World.Searchable J] in
theorem loadClosure_unbound {closure : Option LocalRef} :
    Yields J (·.1.binds = false) (loadClosure u closure) := by
  unfold loadClosure
  mvcgen
  all_goals grind [Step.ldloca, Step.ldloc, Opcode.binds]

omit [World.Searchable J] in
theorem loadQuery_unbound (he : e.Unbound) :
    Yields J Emitter.Unbound (loadQuery u e) := by
  unfold loadQuery
  mvcgen
  all_goals grind [Step.ldarg, Step.ldfld, Opcode.binds]

namespace Binding

attribute [scoped spec 30000] ofOutcome_yields modifierSteps_unbound
  loadRunDelegate_unbound loadClosure_unbound loadQuery_unbound

end Binding

open scoped Binding

theorem handOver_unbound {target : MethodRef} {job handle : LocalRef}
    (he : e.Unbound) :
    Yields J Emitter.Unbound (handOver u target job handle e) := by
  unfold handOver
  mvcgen
  all_goals grind [Step.ldloca, Step.ldloc, Step.call, Opcode.binds]

theorem keepHandle_unbound {system : TypeRef} {handle : LocalRef}
    (he : e.Unbound) :
    Yields J Emitter.Unbound (keepHandle system handle e) := by
  unfold keepHandle
  mvcgen
  all_goals grind [Step.stloc, Step.ldarg, Step.ldloc, Step.call, Opcode.binds]

omit [World.Searchable J] in
theorem copyBack_unbound {job : LocalRef} (he : e.Unbound) :
    Yields J Emitter.Unbound (copyBack u job e) := by
  unfold copyBack
  mvcgen
  all_goals grind [Step.ldloca, Step.call, Opcode.binds]

namespace Binding

attribute [scoped spec 30000] handOver_unbound keepHandle_unbound
  copyBack_unbound

end Binding

end Lookups

/-! ### What changes the code -/

open scoped Binding

/-- A method gets code with other bindings. -/
theorem setBody_rebinds {gone' : List Label} (hb : b.BindsIn S gone') :
    ⦃fun w => ⌜w.Has (World.BindsIn S gone m)⌝⦄ setBody m b
      ⦃post⟨fun _ w => ⌜w.Has (World.BindsIn S gone' m)⌝,
        fun _ _ => ⌜False⌝⟩⦄ := by
  exact triple_iff.2 fun w _ =>
    ⟨fun i hi => hb i (Workspace.mem_of_mem_code_updateMethod hi)⟩

theorem setBody_binds (hb : b.BindsIn S gone) :
    Preserves (World.BindsIn S gone m) (setBody m b) :=
  triple_iff.2 fun w hw => triple_iff.1 (setBody_rebinds hb) w hw

namespace Binding

attribute [scoped spec 30000] setBody_binds

end Binding

open scoped Binding

theorem eraseModifier_binds {mod : Modifier} :
    Preserves (World.BindsIn S gone u.chain.method) (eraseModifier u mod) := by
  unfold eraseModifier
  mvcgen
  · infer_instance
  all_goals grind [Body.BindsIn.replace, Body.binds_labelled]

theorem addLocal_binds {type : TypeRef} :
    Preserves (World.BindsIn S gone m) (addLocal m type) := by
  unfold addLocal
  mvcgen
  rename_i hw b hb
  exact Workspace.code_eq hb ▸ hw.bindsIn

namespace Binding

attribute [scoped spec 30000] eraseModifier_binds addLocal_binds

end Binding

theorem takeHandle_binds {system : TypeRef} {implicit : Bool} (he : e.Unbound) :
    Yields (World.BindsIn S gone u.chain.method) (·.1.Unbound)
      (takeHandle u system implicit e) := by
  unfold takeHandle
  mvcgen
  all_goals first
    | infer_instance
    | grind [Step.ldarg, Step.call, Step.stloc, Opcode.binds]

theorem prepareJob_binds {system : TypeRef} (he : e.Unbound) :
    Yields (World.BindsIn S gone u.chain.method) (·.1.Unbound)
      (prepareJob u system e) := by
  unfold prepareJob
  mvcgen
  all_goals first
    | infer_instance
    | simp_all +zetaDelta [Step.pop, Step.ldloca, Step.initobj, Step.ldarg,
        Step.call, Opcode.binds]

namespace Binding

attribute [scoped spec 30000] takeHandle_binds prepareJob_binds

end Binding

theorem executionCode_binds :
    Yields (World.BindsIn S gone u.chain.method) (∀ i ∈ ·, i.op.binds = false)
      (executionCode u) := by
  unfold executionCode
  mvcgen
  all_goals first
    | infer_instance
    | grind [Emitter.unbound_forBody, Emitter.Unbound.finish]

namespace Binding

attribute [scoped spec 30000] executionCode_binds

end Binding

theorem spliceTerminal_binds :
    Preserves (World.BindsIn S gone u.chain.method) (spliceTerminal u) := by
  unfold spliceTerminal
  mvcgen
  all_goals grind [Body.BindsIn.idle, Body.BindsIn.insertAfter]

namespace Binding

attribute [scoped spec 30000] spliceTerminal_binds

end Binding

/-- A change of code that takes bindings out. -/
theorem modifyBody_rebinds {gone' : List Label} {f : Body → Body}
    (hf : ∀ b, b.BindsIn S gone → (f b).BindsIn S gone') :
    ⦃fun w => ⌜w.Has (World.BindsIn S gone m)⌝⦄ modifyBody m f
      ⦃post⟨fun _ w => ⌜w.Has (World.BindsIn S gone' m)⌝,
        fun _ _ => ⌜True⌝⟩⦄ := by
  have hset := fun b hb => @setBody_rebinds S gone m b gone' hb
  unfold modifyBody
  mvcgen [hset, -setBody_binds, -setBody_preserves, -setBody_frame,
    -Planning.setBody_keeps]
  · rename_i hw b hb
    exact hf b (Workspace.code_eq hb ▸ hw.bindsIn)
  · exact id

/-- The rest of the chain's delegate is taken out of the code. -/
theorem replaceChain_unbinds :
    ⦃fun w => ⌜w.Has (World.BindsIn S gone u.chain.method)⌝⦄ replaceChain u
      ⦃post⟨fun _ w => ⌜w.Has
          (World.BindsIn S (u.chain.delegate.rest ++ gone) u.chain.method)⌝,
        fun _ _ => ⌜True⌝⟩⦄ := by
  have hmodify := fun f hf => @modifyBody_rebinds S gone u.chain.method
    (u.chain.delegate.rest ++ gone) f hf
  have herase : Preserves
      (World.BindsIn S (u.chain.delegate.rest ++ gone) u.chain.method)
      (u.chain.modifiers.forM (eraseModifier u)) :=
    forM_preserves fun _ _ => eraseModifier_binds
  have hterminal := @spliceTerminal_binds S (u.chain.delegate.rest ++ gone) u
  unfold replaceChain
  mvcgen [hmodify, herase, hterminal, -modifyBody_preserves, -modifyBody_frame,
    -Planning.modifyBody_keeps, -forM_preserves, -forM_keeps,
    -spliceTerminal_preserves, -spliceTerminal_frame, -spliceTerminal_binds]
  · intro b hb
    split
    · exact hb.simplify.keepReceiver _
    · exact hb.simplify.nullDelegate _
  · exact id

/-- Work that does not stop is done. -/
theorem restoringBody_done {P Q : World → Prop} {act : Weave Unit}
    (hact : ⦃fun w => ⌜P w⌝⦄ act ⦃post⟨fun _ w => ⌜Q w⌝, fun _ _ => ⌜True⌝⟩⦄) :
    ⦃fun w => ⌜P w⌝⦄ restoringBody m act
      ⦃post⟨fun _ w => ⌜Q w⌝, fun _ _ => ⌜True⌝⟩⦄ := by
  refine Ends.triple fun w hw => ?_
  refine Ends.bind (saveBody_ends.imp ?_ fun _ _ _ => trivial)
  rintro b w' ⟨rfl, -⟩
  refine Ends.bind ((Ends.of_triple (attempt_spec hact) hw).imp ?_
    fun _ _ => False.elim)
  intro r w' hr
  cases r with
  | ok a => exact Ends.of_run rfl hr
  | error e => exact Ends.bind_any fun _ _ => trivial

theorem splice_unbinds :
    ⦃fun w => ⌜w.Has (World.BindsIn S gone u.chain.method)⌝⦄ splice u
      ⦃post⟨fun r w => ⌜match r.2 with
          | .ok _ =>
            w.Has (World.BindsIn S (u.chain.delegate.rest ++ gone)
              u.chain.method)
          | .error _ => True⌝,
        fun _ _ => ⌜True⌝⟩⦄ := by
  have hreplace := tryFailure_spec
    (restoringBody_done (m := u.chain.method) (@replaceChain_unbinds S gone u))
  unfold splice
  mvcgen [hreplace, -tryFailure_preserves]
  all_goals
    rename_i r w hr
    cases r <;> exact hr

/-- The instructions that the replaced chains take out, those of the last chain
first. -/
def erasedBy (us : List Plan) : List Label :=
  us.reverse.flatMap fun u => u.chain.delegate.rest

/-- If every chain is replaced, the rest of every delegate is taken out of the
code. -/
theorem spliceAll_unbinds {us : List Plan}
    (hus : ∀ u ∈ us, u.chain.method = m) :
    ⦃fun w => ⌜w.Has (World.BindsIn S [] m)⌝⦄ spliceAll us
      ⦃post⟨fun r w => ⌜r.2.2 = [] → w.Has (World.BindsIn S (erasedBy us) m)⌝,
        fun _ _ => ⌜True⌝⟩⦄ := by
  have hfold : ⦃fun w => ⌜([] : List Failure) = [] →
        w.Has (World.BindsIn S (erasedBy []) m)⌝⦄ spliceAll us
      ⦃post⟨fun r w => ⌜r.2.2 = [] → w.Has (World.BindsIn S (erasedBy us) m)⌝,
        fun _ _ => ⌜True⌝⟩⦄ := by
    refine foldlM_run
      (P := fun before (r : List Plan × List Diagnostic × List Failure)
        (w : World) =>
          r.2.2 = [] → w.Has (World.BindsIn S (erasedBy before) m)) ?_
    rintro before u after hsplit ⟨done, warnings, fs⟩
    obtain rfl := hus u (by simp [hsplit])
    refine Ends.triple fun w hw => ?_
    cases fs with
    | nil =>
      refine Ends.bind ((Ends.of_triple splice_unbinds (hw rfl)).imp ?_
        fun _ _ => id)
      rintro ⟨ws, _ | f⟩ w' hr
      · exact Ends.of_run rfl fun h => by simp at h
      · exact Ends.of_run rfl fun _ => by simpa [erasedBy] using hr
    | cons f fs =>
      refine Ends.bind_any fun r w' => ?_
      rcases r with ⟨ws, _ | f⟩
      · exact Ends.of_run rfl fun h => by simp at h
      · exact Ends.of_run rfl fun h => by simp at h
  refine triple_iff.2 fun w hw => triple_iff.1 hfold w fun _ => hw

end Weave

end JobWeave
