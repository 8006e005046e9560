import Mathlib
import JobWeave.Plan.Synthesis
import JobWeave.Proofs.Chain.Analysis
import JobWeave.Proofs.Weave.Runs
import JobWeave.Proofs.Workspace.Frame

/-!
# Planning changes only what it made

While a plan is made, the job's struct grows and everything that was there
before stays as it was: what planning changes, it has added itself.

* `Workspace.DraftStep` lists what planning can do to a workspace, and `Ground`
  says from where on definitions are its own; `Ground.Reaches` is a run of such
  steps.  What holds of every run is shown step by step.
* `Fresh B c u` says that the plan `u` of the chain `c` owns only definitions
  that are new to the ground `B`, and that the code for the creation hook starts
  no chain.
* `Planning.Drafts` is the triple of a part of planning: it goes on with the
  run. There is one lemma for each way to loop and for each primitive of
  planning.
-/

namespace JobWeave

open Framework Std.Do

set_option mvcgen.warning false

/-! ## Steps -/

/-- The change leaves the signature and the code of a method alone. -/
def MethodDef.Decorates (f : MethodDef → MethodDef) : Prop :=
  ∀ d, (f d).name = d.name ∧ (f d).flags = d.flags ∧ (f d).ret = d.ret ∧
    (f d).params.map (·.type) = d.params.map (·.type) ∧
    (f d).genericParams = d.genericParams ∧ (f d).body = d.body

/-- The change leaves all but the fields and attributes of a type alone. -/
def TypeHead.Fills (f : TypeHead → TypeHead) : Prop :=
  ∀ h, f h = { h with fields := (f h).fields, attributes := (f h).attributes }

/-- The names of a type's fields. -/
def TypeHead.fieldNames (h : TypeHead) : List String :=
  h.fields.map (·.name)

/-- The change gives no two fields of a type one name. -/
def TypeHead.Distinguishes (f : TypeHead → TypeHead) (h : TypeHead) : Prop :=
  h.fieldNames.Nodup → (f h).fieldNames.Nodup

/-- What planning can do to a workspace.  It changes types from the `nt`-th on
and methods from the `nm`-th on, and it tells the fields of the job's struct
apart. -/
inductive Workspace.DraftStep (job : TypeId) (nt nm : Nat) (w : Workspace) :
    Workspace → Prop
  /-- gives code to a method -/
  | setBody (m : MethodId) (b : Body) (hm : nm ≤ m.index) :
      DraftStep job nt nm w (w.updateMethod m
        fun d => { d with body := some b })
  /-- puts attributes on a method -/
  | decorate (m : MethodId) (f : MethodDef → MethodDef) (hm : nm ≤ m.index)
      (hf : MethodDef.Decorates f) : DraftStep job nt nm w (w.updateMethod m f)
  /-- adds a method to a type -/
  | addMethod (t : TypeId) (d : MethodDef) (ht : nt ≤ t.index) :
      DraftStep job nt nm w (w.addMethod t d).1
  /-- adds a copy of a method to a type -/
  | addCopy (t : TypeId) (m : MethodId) (d : MethodDef) (ht : nt ≤ t.index) :
      DraftStep job nt nm w (w.addCopy t m d).1
  /-- gives fields or attributes to a type -/
  | updateHead (t : TypeId) (f : TypeHead → TypeHead) (ht : nt ≤ t.index)
      (hf : TypeHead.Fills f) (hn : t = job →
        TypeHead.Distinguishes f (w.type t).head) :
      DraftStep job nt nm w (w.updateHead t f)
  /-- adds an empty struct to a type that is there -/
  | addNested (t : TypeId) (h : TypeHead) (ht : nt ≤ t.index)
      (hlt : t.index < w.types.size) (hb : h.base = .valueType) :
      DraftStep job nt nm w (w.addNested t (.mk h [] [])).1

/-- Where planning starts, and from where on definitions are its own. -/
structure Ground where
  /-- the workspace at the start -/
  base : Workspace
  /-- older types are left alone -/
  types : Nat
  /-- older methods are left alone -/
  methods : Nat
  /-- the types that planning finds are older or of the start -/
  types_le : types ≤ base.types.size
  /-- the methods that planning finds are older or of the start -/
  methods_le : methods ≤ base.methods.size
  /-- the job's struct -/
  job : TypeId
  /-- the struct is its own -/
  types_le_job : types ≤ job.index
  /-- the struct is there -/
  job_lt : job.index < base.types.size
  /-- the copies of the lambda and of the methods that it reaches, once they are
  made -/
  copies : Option (List MethodId) := none
  /-- the plan may have an entry point for direct runs -/
  direct : Bool := true

/-- Planning on the ground gets to the workspace. -/
def Ground.Reaches (B : Ground) (w : Workspace) : Prop :=
  Relation.ReflTransGen (Workspace.DraftStep B.job B.types B.methods) B.base w

/-- Planning leaves old definitions alone. -/
theorem Workspace.DraftStep.frame {job : TypeId} {nt nm : Nat}
    {R : TypeEntry → TypeEntry → Prop} {S : Set MethodId} {v w w' : Workspace}
    (h : DraftStep job nt nm w w') (ht : v.types.size ≤ nt)
    (hm : v.methods.size ≤ nm) (hw : Frame R S v w) :
    Frame R S v w' := by
  cases h with
  | setBody m b hn => exact hw.updateMethod_new _ (hm.trans hn)
  | decorate m f hn _ => exact hw.updateMethod_new f (hm.trans hn)
  | addMethod t d hn => exact hw.addMethod_new d (ht.trans hn)
  | addCopy t m d hn => exact hw.addCopy_new m d (ht.trans hn)
  | updateHead t f hn _ => exact hw.updateType_new _ (ht.trans hn)
  | addNested t d hn _ _ => exact hw.addNested_leaf_new d (ht.trans hn)

/-- Planning keeps what its own types are. -/
theorem Workspace.DraftStep.grows {job : TypeId} {nt nm : Nat}
    {w w' : Workspace} {t : TypeId} (h : DraftStep job nt nm w w')
    (ht : t.index < w.types.size) :
    (w.type t).Grows (w'.type t) := by
  have hw : Frame TypeEntry.Grows Set.univ w w := .refl .refl _ _
  cases h with
  | setBody m b hn => exact .refl _
  | decorate m f hn _ => exact .refl _
  | addMethod t' d hn =>
    exact (hw.addMethod t' d fun _ _ hr => ⟨hr.1, hr.2, hr.3, hr.4,
      hr.5⟩).type t ht
  | addCopy t' m d hn =>
    exact (hw.addCopy t' m d fun _ _ hr => ⟨hr.1, hr.2, hr.3, hr.4,
      hr.5⟩).type t ht
  | updateHead t' f hn hf =>
    refine (hw.updateType t' _ fun _ hr => ?_).type t ht
    rw [hf]
    exact ⟨hr.1, hr.2, hr.3, hr.4, hr.5⟩
  | addNested t' d hn _ _ =>
    refine (hw.addNested_leaf t' d fun _ e ts hr => ?_).type t ht
    exact ⟨hr.1, hr.2, hr.3, hr.4, hr.5.trans (List.prefix_append _ _)⟩

/-- Planning takes nothing away. -/
theorem Workspace.DraftStep.sizes {job : TypeId} {nt nm : Nat}
    {w w' : Workspace} (h : DraftStep job nt nm w w') :
    w.types.size ≤ w'.types.size ∧ w.methods.size ≤ w'.methods.size := by
  cases h with
  | setBody m b hn => simp
  | decorate m f hn _ => simp
  | addMethod t d hn => simp
  | addCopy t m d hn => simp
  | updateHead t f hn _ => simp [Workspace.updateHead]
  | addNested t d hn _ _ =>
    simp [Workspace.addNested, loadType, loadNested, newType]

/-- Planning leaves old methods alone. -/
theorem Workspace.DraftStep.method_eq {job : TypeId} {nt nm : Nat}
    {w w' : Workspace} {m : MethodId} (h : DraftStep job nt nm w w')
    (hm : m.index < nm) (hlt : m.index < w.methods.size) :
    w'.method m = w.method m := by
  have hw : Frame (fun _ _ => True) ∅ w w := .refl (fun _ => trivial) _ _
  cases h with
  | setBody m' b hn =>
    rw [method, methodEntry_updateMethod_of_ne _ (by rintro rfl; omega)]
    rfl
  | decorate m' f hn _ =>
    rw [method, methodEntry_updateMethod_of_ne _ (by rintro rfl; omega)]
    rfl
  | addMethod t d hn =>
    exact (hw.addMethod t d fun _ _ _ => trivial).method_eq hlt (by simp)
  | addCopy t m' d hn =>
    exact (hw.addCopy t m' d fun _ _ _ => trivial).method_eq hlt (by simp)
  | updateHead t f hn _ => rfl
  | addNested t d hn _ _ =>
    exact (hw.addNested_leaf t d fun _ _ _ _ => trivial).method_eq hlt (by simp)

namespace Ground

variable {B : Ground} {w w' : Workspace}

theorem Reaches.step (h : B.Reaches w)
    (hs : w.DraftStep B.job B.types B.methods w') : B.Reaches w' :=
  Relation.ReflTransGen.tail h hs

/-- What is as it was at some time before planning stays so. -/
theorem Reaches.frame {R : TypeEntry → TypeEntry → Prop} {S : Set MethodId}
    {v : Workspace} (h : B.Reaches w) (ht : v.types.size ≤ B.types)
    (hm : v.methods.size ≤ B.methods) (hv : Workspace.Frame R S v B.base) :
    Workspace.Frame R S v w := by
  induction h with
  | refl => exact hv
  | tail _ hs ih => exact hs.frame ht hm ih

/-- A type that planning has made stays what it is. -/
theorem Reaches.grows (h : B.Reaches w) {t : TypeId}
    (ht : t.index < B.base.types.size) :
    t.index < w.types.size ∧ (B.base.type t).Grows (w.type t) := by
  induction h with
  | refl => exact ⟨ht, .refl _⟩
  | tail _ hs ih =>
    exact ⟨ih.1.trans_le hs.sizes.1, ih.2.trans _ _ _ (hs.grows ih.1)⟩

/-- Filling the job's struct keeps the property. -/
def Stable (B : Ground) (I : Workspace → Prop) : Prop :=
  ∀ w f, TypeHead.Fills f → TypeHead.Distinguishes f (w.type B.job).head → I w →
    I (w.updateHead B.job f)

theorem stable_reaches (B : Ground) : B.Stable B.Reaches := fun _ f hf hn hw =>
  hw.step (.updateHead B.job f B.types_le_job hf fun _ => hn)

/-- Nothing of the start goes away. -/
theorem Reaches.sizes (h : B.Reaches w) :
    B.types ≤ w.types.size ∧ B.methods ≤ w.methods.size := by
  induction h with
  | refl => exact ⟨B.types_le, B.methods_le⟩
  | tail _ hs ih =>
    have hle := hs.sizes
    omega

/-- The job's struct stays there. -/
theorem Reaches.job_lt (h : B.Reaches w) : B.job.index < w.types.size :=
  (h.grows B.job_lt).1

/-- An old method has the definition it had. -/
theorem Reaches.method_eq (h : B.Reaches w) {m : MethodId}
    (hm : m.index < B.methods) :
    w.method m = B.base.method m := by
  induction h with
  | refl => rfl
  | tail hr hs ih => rw [hs.method_eq hm (hm.trans_le (Reaches.sizes hr).2), ih]

end Ground

/-! ## The invariant -/

/-- The operand is no field and no method that is not there.  Every kind has an
equation of its own, so that code that is written out is found complete by
rewriting. -/
@[simp, grind =]
def Operand.isComplete : Operand → Bool
  | .field f => f.isSome
  | .method m => m.isSome
  | .none => true
  | .arg _ => true
  | .int32 _ => true
  | .int64 _ => true
  | .float32 _ => true
  | .float64 _ => true
  | .text _ => true
  | .flag _ => true
  | .slot _ => true
  | .target _ => true
  | .targets _ => true
  | .type _ => true

/-- The step calls no method that starts a chain and none that is not there. -/
@[mk_iff]
structure Step.IsOrdinary (s : Step) : Prop where
  /-- the method that it calls -/
  calls : ∀ m, Instr.invokes? { label := 0, op := s.1, operand := s.2 } =
    some m → ∃ r, m = some r ∧ r.name ∉ sourceNames
  /-- what it names -/
  complete : s.2.isComplete

/-- An ordinary step is no source, whatever its label. -/
theorem Step.IsOrdinary.sourceKind {s : Step} (h : s.IsOrdinary) (l : Label) :
    Instr.sourceKind { label := l, op := s.1, operand := s.2 } = .ok none :=
  Instr.sourceKind_of_ordinary h.calls

/-- A step that calls nothing is ordinary. -/
@[grind ←]
theorem Step.isOrdinary_of_ne {op : Opcode} {o : Operand} (hc : op ≠ .call)
    (hv : op ≠ .callvirt) (ho : o.isComplete) : Step.IsOrdinary (op, o) := by
  refine ⟨fun m hm => ?_, ho⟩
  simp [Instr.invokes?, hc, hv] at hm

@[grind =]
theorem Step.isOrdinary_call {r : MethodRef} :
    (Step.call r).IsOrdinary ↔ r.name ∉ sourceNames := by
  simp [Step.isOrdinary_iff, Step.call, Instr.invokes?, Instr.method?]

@[grind =]
theorem Step.isOrdinary_callvirt {r : MethodRef} :
    (Step.callvirt r).IsOrdinary ↔ r.name ∉ sourceNames := by
  simp [Step.isOrdinary_iff, Step.callvirt, Instr.invokes?, Instr.method?]

/-- The code has no call that starts a chain. -/
def Step.AllOrdinary (xs : List Step) : Prop :=
  ∀ s ∈ xs, s.IsOrdinary

@[simp, grind .]
theorem Step.allOrdinary_nil : AllOrdinary [] := by
  simp [AllOrdinary]

@[simp, grind =]
theorem Step.allOrdinary_cons {s : Step} {xs : List Step} :
    AllOrdinary (s :: xs) ↔ s.IsOrdinary ∧ AllOrdinary xs := by
  simp [AllOrdinary]

@[simp, grind =]
theorem Step.allOrdinary_append {xs ys : List Step} :
    AllOrdinary (xs ++ ys) ↔ AllOrdinary xs ∧ AllOrdinary ys := by
  simp [AllOrdinary, or_imp, forall_and]

attribute [grind =] Step.ldarg Step.ldcI4 Step.ldnull Step.newobj Step.ldftn
  Step.ldfld Step.stfld Step.ldsfld Step.stsfld Step.dup Step.newarr Step.stelem
  Step.stelemRef MethodRef.instantiate

/-- The plan owns definitions that are not in `B`. -/
structure Fresh (B : Ground) (c : Chain) (u : Plan) : Prop where
  /-- the plan is for the chain -/
  chain : u.chain = c
  /-- the struct is the job's -/
  type : u.type = B.job
  /-- the static entry point is new -/
  runDirectly : ∀ m, u.runDirectly = some m → B.direct ∧ B.methods ≤ m.index
  /-- the code for the creation hook starts no chain -/
  init : Step.AllOrdinary u.init
  /-- that code has no place yet -/
  initLabels : u.initLabels = none
  /-- the copies that were made are the plan's -/
  cloned : ∀ ms, B.copies = some ms → u.cloned = ms

@[grind →]
theorem Fresh.types_le {B : Ground} {c : Chain} {u : Plan} (h : Fresh B c u) :
    B.types ≤ u.type.index := by
  rw [h.type]
  exact B.types_le_job

/-- The workspace has a property, and the plan owns none of the old
definitions. -/
structure Drafting (I : Workspace → Prop) (B : Ground)
    (H : List (TypeId × MethodId)) (c : Chain) (u : Plan) (w : World) :
    Prop where
  /-- the workspace -/
  holding : Holding I H w
  /-- the plan -/
  fresh : Fresh B c u

variable {I : Workspace → Prop} {B : Ground} {H : List (TypeId × MethodId)}
  {c : Chain}
variable {α β : Type}

@[grind =]
theorem drafting_iff {u : Plan} {w : World} :
    Drafting I B H c u w ↔ Holding I H w ∧ Fresh B c u :=
  ⟨fun h => ⟨h.holding, h.fresh⟩, fun h => ⟨h.1, h.2⟩⟩

/-- Ordinary code is added to the code for the creation hook. -/
theorem Fresh.setQuery {u : Plan} {f : FieldDef} {code : List Step}
    (hu : Fresh B c u) (hcode : Step.AllOrdinary code) :
    Fresh B c { u with query := some f, init := u.init ++ code } :=
  { hu with init := Step.allOrdinary_append.2 ⟨hu.init, hcode⟩ }

/-- A new static entry point, and ordinary code that makes the delegates to
it. -/
theorem Fresh.setDirect {u : Plan} {m : MethodId} {plain : FieldRef}
    {native : Option FieldRef} {start compile : List Step} (hu : Fresh B c u)
    (hB : B.direct) (hm : B.methods ≤ m.index) (hstart : Step.AllOrdinary start)
    (hcompile : Step.AllOrdinary compile) :
    Fresh B c { u with
      runDirectly := some m, runDelegate := some plain, burstDelegate := native,
      init := u.init ++ start ++ compile } :=
  { hu with
    runDirectly := by
      rintro _ ⟨⟩
      exact ⟨hB, hm⟩
    init := Step.allOrdinary_append.2
      ⟨Step.allOrdinary_append.2 ⟨hu.init, hstart⟩, hcompile⟩ }

/-- A step of planning keeps a property of the workspace. -/
abbrev Planning.Keeps (I : Workspace → Prop) (B : Ground)
    (H : List (TypeId × MethodId)) (c : Chain) (act : Planning α) : Prop :=
  ⦃fun u w => ⌜Drafting I B H c u w⌝⦄ act
    ⦃post⟨fun _ u w => ⌜Drafting I B H c u w⌝,
      fun e w => ⌜Holding I H w ∧ e.IsSerious⌝⟩⦄

/-- A step of planning keeps a property of the workspace and gives a result with
a property. -/
abbrev Planning.KeepsGiving (I : Workspace → Prop) (B : Ground)
    (H : List (TypeId × MethodId)) (c : Chain) (R : α → Prop)
    (act : Planning α) : Prop :=
  ⦃fun u w => ⌜Drafting I B H c u w⌝⦄ act
    ⦃post⟨fun r u w => ⌜Drafting I B H c u w ∧ R r⌝,
      fun e w => ⌜Holding I H w ∧ e.IsSerious⌝⟩⦄

/-- A step of planning goes on with the run of steps on the ground. -/
abbrev Planning.Drafts (B : Ground) (H : List (TypeId × MethodId)) (c : Chain)
    (act : Planning α) : Prop :=
  Planning.Keeps B.Reaches B H c act

/-- A step of planning goes on with the run and gives a result with a
property. -/
abbrev Planning.DraftsGiving (B : Ground) (H : List (TypeId × MethodId))
    (c : Chain) (R : α → Prop) (act : Planning α) : Prop :=
  Planning.KeepsGiving B.Reaches B H c R act

namespace Planning

/-! ## Loops -/

variable {xs : List α}

theorem Keeps.giving {act : Planning α} (h : Keeps I B H c act) :
    KeepsGiving I B H c (fun _ => True) act := by
  mvcgen [h]
  simp_all

theorem KeepsGiving.keeps {R : α → Prop} {act : Planning α}
    (h : KeepsGiving I B H c R act) : Keeps I B H c act := by
  mvcgen [h]
  simp_all

theorem mapM_giving {R : α → β → Prop} {f : α → Planning β}
    (h : ∀ x ∈ xs, KeepsGiving I B H c (R x) (f x)) :
    KeepsGiving I B H c (List.Forall₂ R xs) (xs.mapM f) :=
  mapM_inv h

@[spec]
theorem mapM_keeps {f : α → Planning β} (h : ∀ x ∈ xs, Keeps I B H c (f x)) :
    Keeps I B H c (xs.mapM f) :=
  (mapM_giving fun x hx => (h x hx).giving).keeps

theorem flatMapM_giving {R : β → Prop} {f : α → Planning (List β)}
    (h : ∀ x ∈ xs, KeepsGiving I B H c (fun rs => ∀ r ∈ rs, R r) (f x)) :
    KeepsGiving I B H c (fun rs => ∀ r ∈ rs, R r) (xs.flatMapM f) :=
  flatMapM_inv h

@[spec]
theorem flatMapM_keeps {f : α → Planning (List β)}
    (h : ∀ x ∈ xs, Keeps I B H c (f x)) : Keeps I B H c (xs.flatMapM f) := by
  have hall : KeepsGiving I B H c (fun rs => ∀ r ∈ rs, True)
      (xs.flatMapM f) := by
    refine flatMapM_giving fun x hx => ?_
    have hx := h x hx
    mvcgen [hx]
    simp_all
  exact hall.keeps

@[spec high]
theorem forIn_keeps {f : α → β → Planning (ForInStep β)} {b : β}
    (h : ∀ x ∈ xs, ∀ b, Keeps I B H c (f x b)) : Keeps I B H c (forIn xs b f) :=
  forIn_inv h

@[spec]
theorem forM_keeps {f : α → Planning PUnit}
    (h : ∀ x ∈ xs, Keeps I B H c (f x)) :
    Keeps I B H c (xs.forM f) :=
  forM_inv h

@[spec high]
theorem foldlM_keeps {f : β → α → Planning β} {b : β}
    (h : ∀ x ∈ xs, ∀ b, Keeps I B H c (f b x)) :
    Keeps I B H c (xs.foldlM f b) :=
  foldlM_inv h

@[spec]
theorem filterM_keeps {f : α → Planning Bool}
    (h : ∀ x ∈ xs, Keeps I B H c (f x)) :
    Keeps I B H c (xs.filterM f) :=
  filterM_inv h

@[spec]
theorem findM?_keeps {f : α → Planning Bool}
    (h : ∀ x ∈ xs, Keeps I B H c (f x)) :
    Keeps I B H c (xs.findM? f) :=
  findM?_inv h

/-! ## Primitives -/

/-- The method is not in `B`. -/
def IsNew (B : Ground) (m : MethodId) : Prop :=
  B.methods ≤ m.index

attribute [spec] chain lambdaRef self

/-- Changing the definitions in a way that keeps a property. -/
theorem modifyWorkspace_inv {f : Workspace → Workspace}
    (hf : ∀ w, I w → I (f w)) :
    Weave.Keeps I H (Weave.modifyWorkspace f) := by
  mvcgen [Weave.modifyWorkspace]
  rename_i hw t
  exact ⟨hf _ hw.workspace, hw.hooks, hw.ordinary⟩

/-- Changing the definitions by a step. -/
theorem modifyWorkspace_keeps {f : Workspace → Workspace}
    (hf : ∀ w : Workspace, w.DraftStep B.job B.types B.methods (f w)) :
    Weave.Keeps B.Reaches H (Weave.modifyWorkspace f) :=
  modifyWorkspace_inv fun w hw => hw.step (hf w)

/-- Code is given to a method that is not an old one. -/
@[spec]
theorem setBody_keeps {m : MethodId} {b : Body} (hm : IsNew B m) :
    Weave.Keeps B.Reaches H (Weave.setBody m b) :=
  modifyWorkspace_keeps fun _ => .setBody m b hm

/-- A method that is not an old one gets attributes. -/
@[spec]
theorem decorate_keeps {m : MethodId} {f : MethodDef → MethodDef}
    (hm : IsNew B m) (hf : MethodDef.Decorates f) :
    Weave.Keeps B.Reaches H (Weave.modifyWorkspace (·.updateMethod m f)) :=
  modifyWorkspace_keeps fun _ => .decorate m f hm hf

/-- A type that is not an old one gets fields or attributes. -/
@[spec]
theorem updateHead_keeps {t : TypeId} {f : TypeHead → TypeHead}
    (ht : B.types ≤ t.index) (hf : TypeHead.Fills f)
    (hn : ∀ h, TypeHead.Distinguishes f h) :
    Weave.Keeps B.Reaches H (Weave.modifyWorkspace (·.updateHead t f)) :=
  modifyWorkspace_keeps fun _ => .updateHead t f ht hf fun _ => hn _

/-- A type that came after the job's struct gets a field. -/
@[spec]
theorem addField_keeps {t : TypeId} {f : FieldDef}
    (ht : B.job.index < t.index) :
    Weave.Keeps B.Reaches H (Weave.modifyWorkspace (·.addField t f)) :=
  modifyWorkspace_keeps fun _ => .updateHead t _ (B.types_le_job.trans ht.le)
    (fun _ => rfl) fun he => absurd (he ▸ ht) (Nat.lt_irrefl _)

@[spec]
theorem modifyBody_keeps {m : MethodId} {f : Body → Body} (hm : IsNew B m) :
    Weave.Keeps B.Reaches H (Weave.modifyBody m f) := by
  mvcgen [Weave.modifyBody]
  all_goals grind

/-- Adding to the definitions by a step. -/
theorem addToWorkspace_gives {R : α → Prop} {f : Workspace → Workspace × α}
    (hf : ∀ w : Workspace, B.Reaches w → w.DraftStep B.job B.types B.methods
      (f w).1)
    (hr : ∀ w, B.Reaches w → R (f w).2) :
    Weave.Gives B.Reaches H R (Weave.addToWorkspace f) := by
  mvcgen [Weave.addToWorkspace]
  rename_i hw t
  exact ⟨⟨hw.workspace.step (hf _ hw.workspace), hw.hooks, hw.ordinary⟩,
    hr _ hw.workspace⟩

/-- A declared method is not an old one. -/
@[spec]
theorem declare_drafts {name : String} {flags : UInt16} {ret : TypeRef}
    {params : List ParamDef} :
    DraftsGiving B H c (IsNew B) (declare name flags ret params) := by
  have hadd : ∀ (job : TypeId) (d : MethodDef), B.types ≤ job.index →
      Weave.Gives B.Reaches H (IsNew B)
        (Weave.addToWorkspace (·.addMethod job d)) := fun job d hjob =>
    addToWorkspace_gives (fun _ _ => .addMethod job d hjob)
      fun w hw => hw.sizes.2
  mvcgen [declare, hadd]
  all_goals grind [Fresh]

/-! Fields of the job have names of their own. -/

theorem append_toString_injective (a : String) :
    Function.Injective fun n : Nat => a ++ toString (n + 1) := fun _ _ h =>
  Nat.succ_injective (Nat.repr_injective ((String.append_right_inj a).1 h))

/-- A free name is not taken. -/
theorem freeName_not_mem (taken : List String) (name : String) :
    freeName taken name ∉ taken := by
  let names := name :: (List.range taken.length).map fun n => name ++ "_" ++
    toString (n + 1)
  have hnodup : names.Nodup := by
    refine List.nodup_cons.2 ⟨?_,
      List.nodup_range.map (append_toString_injective _)⟩
    intro hname
    obtain ⟨n, -, hn⟩ := List.mem_map.1 hname
    have hlength := congrArg String.length hn
    simp only [String.length_append] at hlength
    have hone : ("_" : String).length = 1 := rfl
    omega
  change (names.find? fun s => !taken.contains s).getD name ∉ taken
  cases hfind : names.find? fun s => !taken.contains s with
  | some s => simpa using List.find?_some hfind
  | none =>
    -- there are more names than are taken
    have hsub : names ⊆ taken := fun s hs => by
      simpa using List.find?_eq_none.1 hfind s hs
    have hle := (List.subperm_of_subset hnodup hsub).length_le
    simp [names] at hle

theorem distinguishes_addField {h : TypeHead} {x : FieldDef}
    (hx : x.name ∉ h.fieldNames) :
    TypeHead.Distinguishes (fun h => { h with fields := h.fields ++ [x] })
      h := by
  intro hn
  simp only [TypeHead.fieldNames, List.map_append, List.map_cons, List.map_nil]
    at hx hn ⊢
  exact List.nodup_append.2 ⟨hn, List.nodup_singleton _, by simp; grind⟩

theorem distinguishes_attributes (field : String)
    (f : List Attribute → List Attribute) (h : TypeHead) :
    TypeHead.Distinguishes
      (fun h => { h with fields := h.fields.map fun x =>
        if x.name == field then { x with attributes := f x.attributes }
            else x }) h := by
  intro hn
  unfold TypeHead.fieldNames at hn ⊢
  rw [List.map_map]
  convert hn using 2
  funext x
  dsimp only [Function.comp_apply]
  split <;> rfl

/-- The job gets a field with a name of its own. -/
theorem addField_fills {t : TypeId} {x : FieldDef} (hI : B.Stable I)
    (ht : t = B.job) :
    ⦃fun w => ⌜Holding I H w ∧ x.name ∉ (w.workspace.type t).head.fieldNames⌝⦄
      Weave.modifyWorkspace (·.addField t x)
      ⦃post⟨fun _ w => ⌜Holding I H w⌝, fun e w => ⌜Holding I H w ∧
        e.IsSerious⌝⟩⦄ := by
  subst ht
  refine triple_iff.2 fun w ⟨hw, hx⟩ => ?_
  exact ⟨hI _ _ (fun _ => rfl) (distinguishes_addField hx) hw.workspace,
    hw.hooks, hw.ordinary⟩

theorem addField_stable {name : String} {type : TypeRef} {flags : UInt16}
    {attributes : List Attribute} (hI : B.Stable I) :
    Keeps I B H c (addField name type flags attributes) := by
  have hfill := fun t x (ht : t = B.job) => addField_fills (H := H) (t := t)
    (x := x) hI ht
  mvcgen [addField, hfill, -addField_keeps]
  all_goals grind [Fresh, freeName_not_mem, TypeHead.fieldNames]

@[spec]
theorem addField_drafts {name : String} {type : TypeRef} {flags : UInt16}
    {attributes : List Attribute} :
    Drafts B H c (addField name type flags attributes) :=
  addField_stable B.stable_reaches

theorem modifyAttributes_stable {field : String}
    {f : List Attribute → List Attribute} (hI : B.Stable I) :
    Keeps I B H c (modifyAttributes field f) := by
  have hfill : ∀ t f, t = B.job → TypeHead.Fills f →
    (∀ h, TypeHead.Distinguishes f h) →
      Weave.Keeps I H (Weave.modifyWorkspace (·.updateHead t f)) := by
    rintro _ f rfl hf hn
    exact modifyWorkspace_inv fun w => hI w f hf (hn _)
  have hn := distinguishes_attributes field f
  mvcgen [modifyAttributes, hfill, -updateHead_keeps]
  all_goals grind [Fresh, TypeHead.Fills]

@[spec]
theorem modifyAttributes_drafts {field : String}
    {f : List Attribute → List Attribute} :
    Drafts B H c (modifyAttributes field f) :=
  modifyAttributes_stable B.stable_reaches

@[spec]
theorem emit_drafts {m : MethodId} {steps : List Step} (hm : IsNew B m) :
    Drafts B H c (emit m steps) := by
  mvcgen [emit]
  all_goals grind

@[spec]
theorem addLocal_drafts {m : MethodId} {type : TypeRef} {name : String}
    (hm : IsNew B m) : Drafts B H c (addLocal m type name) := by
  mvcgen [addLocal]
  all_goals grind

/-- Refusing at generated code is for codes of errors too. -/
@[spec]
theorem refuseAt_keeps {code : Code} {m : MethodId} {l : Label}
    {args : List Text.Arg} (hc : Catalog.severity code = .error) :
    ⦃fun _ w => ⌜Holding I H w⌝⦄ (refuseAt code m l args : Planning α)
      ⦃post⟨fun _ _ _ => ⌜False⌝,
        fun e w => ⌜Holding I H w ∧ e.IsSerious⌝⟩⦄ := by
  mvcgen [refuseAt]
  all_goals grind [Stop.IsSerious, Failure.IsSerious, Failure.note?,
    Diagnostic.ofCode]

end Planning

end JobWeave
