import Mathlib
import JobWeave.Proofs.Body.Shape
import JobWeave.Proofs.Splice.Development
import JobWeave.Proofs.World.Showing

/-!
# What a conversion leaves behind

Converting the closures of a method makes value types of exactly those that its
code allocates.  Afterwards no instruction of the method allocates a closure
class, and what neither loads an address nor initialises was there before.

* `Workspace.allocated?` and `Workspace.pointed?` name the closure class that an
  instruction allocates or points into, as a universe has it; marks on
  references do not matter to them.
* `Workspace.Converts` says which types were converted.
* `Weave.canConvertClosures_reads`: where a conversion is permitted, only the
  delegates of the chains point into a closure class.
* `Weave.convertClosures_ends`: what is converted, and what the code does not do
  afterwards.
-/

namespace JobWeave

open Framework Std.Do

set_option mvcgen.warning false

variable {V : Workspace} {u : Universe} {m : MethodId} {b : Body} {i j : Instr}

/-! ## Closures in code -/

/-- The instruction without the mark of value types. -/
def Instr.unmarked (i : Instr) : Instr :=
  { i with operand := i.operand.unmarked }

namespace Workspace

/-- The closure class that a reference names. -/
def closure? (V : Workspace) (u : Universe) (r : TypeRef) : Option TypeId :=
  if r.isNamed then
    (u.resolve? r).filter fun t => (V.type t).head.isClosure &&
      (V.type t).head.isClass
  else none

/-- The closure class that an instruction allocates. -/
def allocated? (V : Workspace) (u : Universe) (i : Instr) : Option TypeId :=
  if i.op = .newobj then
    i.method?.join.bind fun r => if r.params.isEmpty then V.closure? u r.owner
      else none
  else none

/-- The closure class that an instruction points into, at the code of a
method. -/
def pointed? (V : Workspace) (u : Universe) (i : Instr) : Option TypeId :=
  if i.op = .ldftn ∨ i.op = .ldvirtftn then
    i.method?.join.bind fun r => V.closure? u r.owner
  else none

theorem op_of_allocated? {t : TypeId} (h : V.allocated? u i = some t) :
    i.op = .newobj := by
  by_contra hop
  simp [allocated?, hop] at h

theorem op_of_pointed? {t : TypeId} (h : V.pointed? u i = some t) :
    i.op = .ldftn ∨ i.op = .ldvirtftn := by
  by_contra hop
  simp [pointed?, hop] at h

/-- A mark on a reference does not change what it names. -/
theorem closure?_unmarked (r : TypeRef) :
    V.closure? u r.unmarked = V.closure? u r := by
  cases r with
  | named ns n v o as => cases o <;> rfl
  | _ => rfl

theorem bind_method?_unmarked {α : Type} {g : MethodRef → Option α}
    (hg : ∀ r, g { r with owner := r.owner.unmarked } = g r) (i : Instr) :
    i.unmarked.method?.join.bind g = i.method?.join.bind g := by
  rcases i with ⟨l, op, o⟩
  cases o with
  | method r =>
    cases r with
    | none => rfl
    | some r => exact hg r
  | field f => cases f <;> rfl
  | _ => rfl

theorem allocated?_unmarked (i : Instr) :
    V.allocated? u i.unmarked = V.allocated? u i := by
  simp only [allocated?]
  rw [bind_method?_unmarked fun r => by simp only [closure?_unmarked]]
  rfl

theorem pointed?_unmarked (i : Instr) :
    V.pointed? u i.unmarked = V.pointed? u i := by
  simp only [pointed?]
  rw [bind_method?_unmarked fun r => by simp only [closure?_unmarked]]
  rfl

end Workspace

/-! ## Looking closures up -/

namespace Weave

variable {α : Type}

theorem closureClass?_reads {r : TypeRef} :
    Reads V u (· = V.closure? u r) (closureClass? r) := by
  have hresolver := resolver_reads (V := V) (u := u)
  mvcgen [closureClass?, resolveType, hresolver, -closureClass?_keeps,
    -resolver_keeps]
  all_goals grind [World.Shows, Workspace.closure?, TypeHead.isClosure]

/-- Refusing stops. -/
theorem refuse_stops {P : World → Prop} {c : Code} {l : Option Label}
    {args : List Text.Arg} :
    ⦃fun w => ⌜P w⌝⦄ (refuse c m l args : Weave α)
      ⦃post⟨fun _ _ => ⌜False⌝, fun _ _ => ⌜True⌝⟩⦄ := by
  mvcgen [refuse, -refuse_gives]

theorem allocates_reads {t : TypeId} :
    Reads V u (fun _ => True) (allocates i t) := by
  mvcgen [allocates, -allocates_keeps]

theorem anyM_reads {xs : List α} {f : α → Weave Bool}
    (h : ∀ x ∈ xs, Reads V u (fun _ => True) (f x)) :
    Reads V u (fun _ => True) (xs.anyM f) := by
  induction xs with
  | nil =>
    unfold List.anyM
    mvcgen
  | cons x xs ih =>
    obtain ⟨hx, hxs⟩ := List.forall_mem_cons.1 h
    have hrest := ih hxs
    unfold List.anyM
    mvcgen [hx, hrest, -anyM_keeps]
    assumption

/-- A check of every element that succeeds has succeeded for each. -/
theorem allM_reads {xs : List α} {R : α → Prop} {f : α → Weave Bool}
    (h : ∀ x ∈ xs, Reads V u (fun ok => ok = true → R x) (f x)) :
    Reads V u (fun ok => ok = true → ∀ x ∈ xs, R x) (xs.allM f) := by
  induction xs with
  | nil =>
    unfold List.allM
    mvcgen
    simp_all
  | cons x xs ih =>
    obtain ⟨hx, hxs⟩ := List.forall_mem_cons.1 h
    have hrest := ih hxs
    unfold List.allM
    mvcgen [hx, hrest, -allM_keeps]
    all_goals grind -ring -linarith

theorem permitsConversion_reads {owned : List Label} {n : Nat} :
    Reads V u (fun ok => ok = true → ∀ t, V.pointed? u i = some t →
      i.label ∈ owned) (permitsConversion b owned n i) := by
  have hclosure := fun r => closureClass?_reads (V := V) (u := u) (r := r)
  have hany : ∀ fs : List FieldDef, Reads V u (fun _ => True)
      (fs.anyM fun f => do return (← closureClass? f.type).isSome) := fun fs =>
    anyM_reads fun f _ => by
      mvcgen [hclosure, -closureClass?_keeps]
      simp_all
  have hallocates := fun i t => allocates_reads (V := V) (u := u) (i := i)
    (t := t)
  mvcgen [permitsConversion, hclosure, hany, hallocates,
    -permitsConversion_keeps, -closureClass?_keeps, -allocates_keeps,
    -anyM_keeps]
  all_goals grind -ring -linarith [Workspace.pointed?,
    Option.isNone_iff_eq_none]

theorem canConvertClosures_reads (m : MethodId) (chains : List Chain) :
    Reads V u (fun ok => ok = true → (V.method m).body.isSome ∧
        ∀ i ∈ (V.method m).code.code, ∀ t, V.pointed? u i = some t →
          i.label ∈ chains.flatMap (·.delegate.labels))
      (canConvertClosures m chains) := by
  have hall : ∀ b : Body, Reads V u (fun ok => ok = true →
        ∀ x ∈ b.code.zipIdx, ∀ t, V.pointed? u x.1 = some t →
          x.1.label ∈ chains.flatMap (·.delegate.labels))
      (b.code.zipIdx.allM fun x => permitsConversion b
        (chains.flatMap (·.delegate.labels)) x.2 x.1) :=
    fun b => allM_reads fun x _ => permitsConversion_reads
  mvcgen [canConvertClosures, hall, -canConvertClosures_keeps,
    -permitsConversion_keeps, -allM_keeps]
  · exact ⟨‹_›, by simp⟩
  · rename_i hw₀ b hb _ _ _
    intro hw hok
    refine ⟨hw, fun he =>
      ⟨by rw [← hw₀.workspace, hb, Option.isSome_some], fun i hi => ?_⟩⟩
    rw [← hw₀.workspace, Workspace.code_eq hb] at hi
    obtain ⟨n, hn, rfl⟩ := List.mem_iff_getElem.1 hi
    exact hok he (b.code[n], n)
      (List.mem_zipIdx_iff_getElem?.2 (List.getElem?_eq_getElem hn))

/-- An allocation is found at the instruction that it is. -/
theorem allocationAt_reads :
    Reads V u (fun o => o.map (fun s => (s.alloc, s.closure)) =
        (V.allocated? u i).map fun t => (i.label, t))
      (allocationAt m b i) := by
  have hclosure := fun r => closureClass?_reads (V := V) (u := u) (r := r)
  have hrefuse : ∀ c l args, ⦃fun w => ⌜w.Shows V u⌝⦄
      (refuse c m l args : Weave (Option AllocationSite))
        ⦃post⟨fun _ _ => ⌜False⌝, fun _ _ => ⌜True⌝⟩⦄ :=
    fun _ _ _ => refuse_stops
  mvcgen [allocationAt, hclosure, hrefuse, -allocationAt_keeps,
    -closureClass?_keeps, -refuse_gives]
  all_goals try grind -ring -linarith [Workspace.allocated?]
  -- an instruction that makes something else
  rename_i o _ _ _ _ _ _ _
  cases o <;> grind -ring -linarith [Workspace.allocated?]

/-- The allocations in some code, by their labels. -/
theorem allocationSites_reads :
    Reads V u (fun ss => ss.map (fun s => (s.alloc, s.closure)) =
        b.code.filterMap fun i => (V.allocated? u i).map fun t => (i.label, t))
      (allocationSites m b) := by
  have hsites : Reads V u (List.Forall₂ (fun i o => o.map
    (fun s => (s.alloc, s.closure)) =
      (V.allocated? u i).map fun t => (i.label, t)) b.code)
        (b.code.mapM (allocationAt m b)) :=
    mapM_inv fun _ _ => allocationAt_reads
  mvcgen [allocationSites, hsites, -allocationSites_keeps, -allocationAt_keeps,
    -mapM_keeps]
  rename_i os w hos
  obtain ⟨hw, hos⟩ := hos
  refine ⟨hw, ?_⟩
  generalize b.code = code at hos
  induction hos with
  | nil => rfl
  | @cons i o code os ho _ ih =>
    rw [List.filterMap_cons, List.filterMap_cons, ← ho]
    cases o with
    | none => exact ih
    | some s => exact congrArg (List.cons _) ih

end Weave

/-! ## Converted code -/

/-- An instruction that is not made by a change was there before. -/
theorem Body.mem_setAt {l : Label} {op : Opcode} {o : Operand}
    (hi : i ∈ (b.setAt l op o).code) (hop : i.op ≠ op) :
    i ∈ b.code ∧ i.label ≠ l := by
  obtain ⟨j, hj, rfl⟩ := List.mem_map.1 hi
  by_cases hl : (j.label == l) = true
  · rw [if_pos hl] at hop
    exact absurd rfl hop
  · rw [if_neg hl]
    exact ⟨hj, by simpa using hl⟩

/-- An instruction of converted code that neither loads an address nor
initialises was there before, and not as one of the allocations. -/
theorem Weave.mem_convertCode {sites : List (AllocationSite × TypeRef)}
    (hi : i ∈ (convertCode b sites).code) (hload : i.op ≠ .ldloca)
    (hinit : i.op ≠ .initobj) :
    i ∈ b.code ∧ ∀ s ∈ sites, s.1.alloc ≠ i.label := by
  have hfold : ∀ (sites : List (AllocationSite × TypeRef)) (b : Body),
      i ∈ (sites.foldl (fun b x =>
        (b.setAt x.1.alloc .ldloca (.slot x.1.slot)).setAt x.1.store
        .initobj (.type x.2)) b).code → i ∈ b.code ∧ ∀ s ∈ sites,
        s.1.alloc ≠ i.label := by
    intro sites
    induction sites with
    | nil => exact fun b hi => ⟨hi, by simp⟩
    | cons s sites ih =>
      intro b hi
      obtain ⟨hi, hsites⟩ := ih _ hi
      obtain ⟨hi, -⟩ := Body.mem_setAt hi hinit
      obtain ⟨hi, hl⟩ := Body.mem_setAt hi hload
      exact ⟨hi, List.forall_mem_cons.2 ⟨hl.symm, hsites⟩⟩
  obtain ⟨j, hj, hji⟩ := List.mem_map.1 hi
  -- what has changed loads an address
  have hsame : j = i := by
    revert hji
    split
    · split
      · rintro rfl
        exact absurd rfl hload
      · exact id
    · exact id
  exact hfold sites b (hsame ▸ hj)

/-- Marking references as value types changes nothing but their marks. -/
theorem Operand.unmarked_markValueTypes {names : List String} {o o' : Operand}
    (h : o.markValueTypes names = .ok o') : o'.unmarked = o.unmarked := by
  have hmark : ∀ {t t' : TypeRef}, markValueTypes.mark names t = .ok t' →
      t'.unmarked = t.unmarked := by
    intro t t' h
    unfold markValueTypes.mark at h
    split at h
    · cases h
      rfl
    · obtain ⟨name, -, h⟩ := bind_eq_ok_iff.1 h
      obtain rfl : (if names.contains name then t.asValueType else t) = t' :=
        Except.ok.inj h
      split
      · exact TypeRef.unmarked_asValueType t
      · rfl
  cases o with
  | type t =>
    obtain ⟨t', ht, h⟩ := bind_eq_ok_iff.1 h
    cases h
    exact congrArg type (hmark ht)
  | field f =>
    cases f with
    | none => cases h
    | some f =>
      obtain ⟨t', ht, h⟩ := bind_eq_ok_iff.1 h
      cases h
      simp only [Operand.unmarked, hmark ht]
  | method r =>
    cases r with
    | none => cases h
    | some r =>
      obtain ⟨t', ht, h⟩ := bind_eq_ok_iff.1 h
      cases h
      simp only [Operand.unmarked, hmark ht]
  | _ =>
    cases h
    rfl

/-- So it does in code, as far as it comes. -/
theorem Weave.mem_marked {names : List String} {code : List Instr}
    (hi : i ∈ ((code.zip (((code.map fun i => i.operand.markValueTypes
      names).takeWhile (·.isOk)).filterMap (·.toOption))).map
        fun (i, operand) => { i with operand })) :
    ∃ j ∈ code, i.unmarked = j.unmarked := by
  induction code with
  | nil => simp at hi
  | cons j code ih =>
    cases hmark : j.operand.markValueTypes names with
    | error e => simp [hmark, Except.isOk, Except.toBool] at hi
    | ok o =>
      simp only [List.map_cons, hmark, List.takeWhile_cons, Except.isOk,
        Except.toBool, if_true, List.filterMap_cons, Except.toOption,
        List.zip_cons_cons, List.mem_cons] at hi
      rcases hi with rfl | hi
      · exact ⟨j, by simp,
          by simp [Instr.unmarked, Operand.unmarked_markValueTypes hmark]⟩
      · obtain ⟨k, hk, hsame⟩ := ih hi
        exact ⟨k, by simp [hk], hsame⟩

/-! ## Converted types -/

/-- A constructor without parameters. -/
def MethodDef.isPlainConstructor (d : MethodDef) : Bool :=
  d.isConstructor && !d.isStatic && d.params.isEmpty

/-- The type as a value type without such a constructor. -/
def TypeEntry.asValueType (w : Workspace) (e : TypeEntry) : TypeEntry :=
  { e with
    head := { e.head with
      base := .valueType, flags := e.head.flags ||| TypeFlag.sequentialLayout },
    methods := e.methods.filter fun c => !(w.method c).isPlainConstructor }

/-- The types in `ts` have become value types without a constructor, and the
others are as they were in `V`. -/
structure Workspace.Converts (V : Workspace) (ts : List TypeId)
    (w : Workspace) : Prop where
  /-- the same types -/
  types_eq : w.types.size = V.types.size
  /-- the same constructors -/
  constructors : ∀ c, (w.method c).isPlainConstructor =
    (V.method c).isPlainConstructor
  /-- the other types -/
  others : ∀ t, t ∉ ts → w.type t = V.type t
  /-- the base -/
  base : ∀ t ∈ ts, t.index < V.types.size → (w.type t).head.base = .valueType
  /-- the methods -/
  methods : ∀ t ∈ ts, ∀ c ∈ (w.type t).methods,
    (V.method c).isPlainConstructor = false

namespace Workspace

variable {w : Workspace} {ts : List TypeId} {t : TypeId}

theorem Converts.refl (V : Workspace) : V.Converts [] V :=
  ⟨rfl, fun _ => rfl, fun _ _ => rfl, by simp, by simp⟩

theorem Converts.congr {ts' : List TypeId} (h : V.Converts ts w)
    (hts : ∀ t, t ∈ ts ↔ t ∈ ts') :
    V.Converts ts' w :=
  ⟨h.types_eq, h.constructors, fun t ht => h.others t (mt (hts t).1 ht),
    fun t ht => h.base t ((hts t).2 ht), fun t ht => h.methods t ((hts t).2 ht)⟩

/-- A conversion does not look at code. -/
theorem Converts.setBody (h : V.Converts ts w) (n : MethodId) (b : Body) :
    V.Converts ts (w.updateMethod n fun d => { d with body := some b }) := by
  refine ⟨h.types_eq, fun c => ?_, h.others, h.base, h.methods⟩
  rw [← h.constructors c]
  simp only [method, methodEntry, updateMethod, Array.getElem?_modify]
  split
  · cases w.methods[c.index]? <;> rfl
  · rfl

end Workspace

namespace Weave

variable {w : World} {ts : List TypeId} {t : TypeId} {E : Stop → World → Prop}

theorem makeValueType_run (t : TypeId) (w : World) :
    makeValueType t w = .ok ()
      { w with
        workspace := w.workspace.updateType t
          (TypeEntry.asValueType w.workspace) } := by
  have htwice : ∀ (w : Workspace) (f g : TypeEntry → TypeEntry),
      (w.updateType t f).updateType t g = w.updateType t (g ∘ f) := by
    intro w f g
    simp only [Workspace.updateType]
    congr 1
    refine Array.ext (by simp) fun n hn hn' => ?_
    simp only [Array.getElem_modify]
    split <;> rfl
  exact congrArg (fun v => EStateM.Result.ok () { w with workspace := v })
    (htwice _ _ _)

/-- One more type is converted. -/
theorem makeValueType_ends (h : V.Converts ts w.workspace) :
    Ends (makeValueType t) w (fun _ w' => V.Converts (ts ++ [t]) w'.workspace ∧
      w'.workspace.methods = w.workspace.methods) E := by
  refine Ends.of_run (makeValueType_run t w) ⟨⟨?_, h.constructors,
    fun t' ht' => ?_, fun t' ht' hlt => ?_, fun t' ht' => ?_⟩, rfl⟩
  · rw [Workspace.size_types_updateType, h.types_eq]
  · simp only [List.mem_append, List.mem_singleton, not_or] at ht'
    rw [Workspace.type_updateType, if_neg fun he => ht'.2 he.1]
    exact h.others t' ht'.1
  · rw [Workspace.type_updateType]
    split
    · rfl
    · rename_i hne
      refine h.base t' ((List.mem_append.1 ht').resolve_right
        fun he => hne ?_) hlt
      obtain rfl := List.mem_singleton.1 he
      exact ⟨rfl, h.types_eq ▸ hlt⟩
  · intro c hc
    rw [Workspace.type_updateType] at hc
    split at hc
    · simpa [h.constructors] using (List.mem_filter.1 hc).2
    · rename_i hne
      refine h.methods t' ((List.mem_append.1 ht').resolve_right
        fun he => hne ?_) c hc
      obtain rfl := List.mem_singleton.1 he
      exact ⟨rfl, Workspace.lt_of_mem_methods hc⟩

/-- All of them are converted. -/
theorem forM_makeValueType_ends (ts' : List TypeId)
    (h : V.Converts ts w.workspace) :
    Ends (ts'.forM makeValueType) w (fun _ w' => V.Converts (ts ++ ts')
      w'.workspace ∧ w'.workspace.methods = w.workspace.methods) E := by
  induction ts' generalizing ts w with
  | nil => exact Ends.of_run rfl ⟨by simpa using h, rfl⟩
  | cons t ts' ih =>
    unfold List.forM
    refine Ends.bind ((makeValueType_ends h).imp ?_ fun _ _ => id)
    rintro - w₁ ⟨h₁, hm₁⟩
    refine (ih h₁).imp ?_ fun _ _ => id
    rintro - w₂ ⟨h₂, hm₂⟩
    exact ⟨by simpa using h₂, hm₂.trans hm₁⟩

/-- Work that only reads is done for every element. -/
theorem mapM_run {α β : Type} {f : α → Weave β} {g : α → β}
    (h : ∀ a, f a w = .ok (g a) w) (as : List α) :
    as.mapM f w = .ok (as.map g) w := by
  induction as with
  | nil => rfl
  | cons a as ih =>
    simp only [List.mapM_cons, bind, EStateM.bind, h, ih]
    rfl

variable {d : MethodDef}

/-- The copies of a method have their marks brought up to those of some code;
the method keeps its own code. -/
theorem shareMarks_ends (h : V.Converts ts w.workspace)
    (hm : w.workspace.method m = d) :
    Ends (shareMarks m b) w (fun _ w' => V.Converts ts w'.workspace ∧
      w'.workspace.method m = d) fun _ _ => False := by
  unfold shareMarks
  refine Ends.bind (Ends.of_run rfl (Ends.forM
    (I := fun w' : World => V.Converts ts w'.workspace ∧
      w'.workspace.method m = d)
    ⟨h, hm⟩ ?_))
  intro n hn w' hw'
  have hne : m ≠ n := by
    rintro rfl
    simp [Workspace.copiesOf] at hn
  unfold adoptMarks
  refine Ends.bind (Ends.of_run rfl ?_)
  split
  · refine Ends.of_run rfl ⟨hw'.1.setBody _ _, ?_⟩
    rw [← hw'.2]
    exact congrArg MethodEntry.method
      (Workspace.methodEntry_updateMethod_of_ne _ hne)
  · exact Ends.of_run rfl hw'

/-- Marking references as value types gives a method the code up to marks. -/
theorem markReferences_ends {names : List String}
    (h : V.Converts ts w.workspace) (hm : m.index < w.workspace.methods.size) :
    Ends (markReferences m b names) w (fun _ w' => V.Converts ts w'.workspace ∧
      ∀ i ∈ (w'.workspace.method m).code.code, ∃ j ∈ b.code,
      i.unmarked = j.unmarked) fun _ _ => True := by
  unfold markReferences
  refine Ends.bind (Ends.of_run rfl ?_)
  refine Ends.bind ((shareMarks_ends (h.setBody m _) rfl).imp ?_
    fun _ _ => False.elim)
  rintro - w' ⟨hconverts, hcode⟩
  split
  · trivial
  · refine Ends.of_run rfl ⟨hconverts, fun i hi => ?_⟩
    rw [hcode, Workspace.method, Workspace.methodEntry_updateMethod_self _ hm]
      at hi
    rcases List.mem_append.1 hi with hi | hi
    · exact mem_marked hi
    · exact ⟨i, List.mem_of_mem_drop hi, rfl⟩

/-- The closures of the allocations are converted; instructions that neither
load an address nor initialise were there before, and not as one of the
allocations. -/
theorem convertSites_ends {sites : List AllocationSite} {b₀ : Body}
    (hm : (w.workspace.method m).body = some b₀) :
    Ends (convertSites m b sites) w (fun _ w' =>
      w.workspace.Converts (sites.map (·.closure)) w'.workspace ∧
      ∀ i ∈ (w'.workspace.method m).code.code, i.op ≠ .ldloca →
        i.op ≠ .initobj → ∃ j ∈ b.code, i.unmarked = j.unmarked ∧ ∀ s ∈ sites,
        s.alloc ≠ j.label)
      fun _ _ => True := by
  have htyped : ∀ s : AllocationSite,
      (do return (s, (← typeRef s.closure).asValueType) : Weave
        (AllocationSite × TypeRef)) w =
          .ok (s, (w.workspace.typeRef s.closure).asValueType) w := fun _ => rfl
  unfold convertSites
  refine Ends.bind (Ends.of_run (mapM_run htyped sites) ?_)
  refine Ends.bind (Ends.of_run rfl ?_)
  dsimp only
  split
  · exact Ends.bind trivial
  · refine Ends.bind (Ends.of_run rfl ?_)
    refine Ends.bind (Ends.of_run rfl ?_)
    refine Ends.bind ((forM_makeValueType_ends _
      ((Workspace.Converts.refl w.workspace).setBody m _ |>.setBody m _)).imp ?_
        fun _ _ => id)
    rintro - w₁ ⟨h₁, hm₁⟩
    have hnames : ∀ t, typeName t w₁ = .ok (w₁.workspace.typeName t) w₁ :=
      fun _ => rfl
    refine Ends.bind (Ends.of_run (mapM_run hnames _) ?_)
    have hlt : m.index < w₁.workspace.methods.size := by
      simpa [hm₁] using Workspace.lt_of_body hm
    refine (markReferences_ends h₁ hlt).imp ?_ fun _ _ => id
    rintro - w₂ ⟨h₂, hcode⟩
    refine ⟨h₂.congr fun t => by simp, fun i hi hload hinit => ?_⟩
    obtain ⟨j, hj, hmarks⟩ := hcode i hi
    have hop : i.op = j.op := (Instr.mk.inj hmarks).2.1
    obtain ⟨hj, hplace⟩ := mem_convertCode hj (hop ▸ hload) (hop ▸ hinit)
    exact ⟨j, hj, hmarks, fun s hs => hplace (s, _)
      (List.mem_map.2 ⟨s, hs, rfl⟩)⟩

end Weave

/-! ## What is converted, and what is not done afterwards -/

/-- The closure classes that a method allocates. -/
def Workspace.closuresOf (V : Workspace) (u : Universe) (m : MethodId) :
    List TypeId :=
  (V.method m).code.code.filterMap (V.allocated? u)

namespace Weave

variable {w : World}

/-- The allocated closures are converted.  Afterwards none is allocated, and an
instruction that neither loads an address nor initialises was there before. -/
theorem convertClosures_ends (hw : w.Shows V u) :
    Ends (convertClosures m) w (fun _ w' => V.Converts (V.closuresOf u m)
      w'.workspace ∧ ∀ i ∈ (w'.workspace.method m).code.code,
      V.allocated? u i = none ∧
        (i.op ≠ .ldloca → i.op ≠ .initobj →
          ∃ j ∈ (V.method m).code.code, i.unmarked = j.unmarked))
      fun _ _ => True := by
  have hbody : bodyOf m w = (need (V.method m).body : Weave Body) w := by
    rw [← hw.workspace]
    rfl
  unfold convertClosures
  cases hb : (V.method m).body with
  | none =>
    rw [hb] at hbody
    refine Ends.bind ?_
    rw [Ends, hbody]
    trivial
  | some b =>
    rw [hb] at hbody
    refine Ends.bind (Ends.of_run hbody (Ends.bind ((Ends.of_triple
      (allocationSites_reads (m := m) (b := b)) hw).imp ?_ fun _ _ => id)))
    rintro sites w₁ ⟨hw₁, hsites⟩
    refine (convertSites_ends (b := b) (hw₁.workspace ▸ hb)).imp ?_
      fun _ _ => id
    rintro - w₂ ⟨hconverts, hcode⟩
    rw [hw₁.workspace] at hconverts
    have hclosures : sites.map (·.closure) = V.closuresOf u m := by
      have hsnd := congrArg (List.map Prod.snd) hsites
      rw [Workspace.closuresOf, Workspace.code_eq hb]
      simpa [List.map_filterMap, Function.comp_def] using hsnd
    refine ⟨hclosures ▸ hconverts, fun i hi => ⟨?_, fun hload hinit => ?_⟩⟩
    · rw [Option.eq_none_iff_forall_ne_some]
      intro t ht
      have hop := Workspace.op_of_allocated? ht
      -- what is allocated was allocated there before, so it is one of the
      -- allocations
      obtain ⟨j, hj, hmarks, hplace⟩ :=
        hcode i hi (by simp [hop]) (by simp [hop])
      rw [← Workspace.allocated?_unmarked, hmarks,
        Workspace.allocated?_unmarked] at ht
      have hsite : (j.label, t) ∈ sites.map fun s => (s.alloc, s.closure) := by
        rw [hsites]
        exact List.mem_filterMap.2 ⟨j, hj, by rw [ht]; rfl⟩
      obtain ⟨s, hs, he⟩ := List.mem_map.1 hsite
      exact hplace s hs (congrArg Prod.fst he)
    · obtain ⟨j, hj, hmarks, -⟩ := hcode i hi hload hinit
      exact ⟨j, by rwa [Workspace.code_eq hb], hmarks⟩

end Weave

end JobWeave
