import Mathlib
import JobWeave.Emitter

/-!
# Where marks come to stand

An emitter learns where a mark stands only from the next instruction, and
branches may come before their marks.  What the emitter is told is a list of
events, instructions and placed marks, and the list alone says where each branch
of the finished run leads.

* `Emitter.run` does operations in order, and `Emitter.events` is what they tell
  the emitter.
* `Emitter.LandsOn` says which instruction a mark comes to stand at: the first
  one after the last place of it.
* `Emitter.labelOf?_run`, `Emitter.toList_code_run`, `Emitter.branches_run` and
  `Emitter.pending_run_eq_nil_iff` say what a run of operations leaves, each
  from what one operation does.
* `Emitter.finish_eq_ok_iff` says when there is a finished run and what it is.
* `Emitter.finish_lands`: the run is finished exactly if no mark is left over
  and all goals of branches are placed, and then every branch leads where its
  mark came to stand.
-/

namespace JobWeave

/-- What is done with an emitter. -/
inductive Emission where
  /-- a new instruction -/
  | emit (s : Step)
  /-- an instruction that is there already -/
  | push (i : Instr)
  /-- a mark is made -/
  | newMark
  /-- a mark is placed before the next instruction -/
  | place (m : EmitMark)
  /-- a branch to a mark -/
  | branch (op : Opcode) (m : EmitMark)

/-- The mark that an operation uses. -/
def Emission.mark? : Emission → Option EmitMark
  | place m | branch _ m => some m
  | _ => none

namespace Emitter

/-- What an emitter is told. -/
inductive Event where
  /-- an instruction, and the mark it branches to -/
  | instr (i : Instr) (goal : Option EmitMark)
  /-- a mark that is placed -/
  | mark (m : EmitMark)

namespace Event

/-- The instruction of an event. -/
def instr? : Event → Option Instr
  | instr i _ => some i
  | mark _ => none

/-- The branch of an event: its label and the mark it goes to. -/
def branch? : Event → Option (Label × EmitMark)
  | instr i (some m) => some (i.label, m)
  | _ => none

end Event

variable {b : Body} {e : Emitter} {op : Emission} {ops : List Emission}
  {es : List Event} {m : EmitMark} {ms : List EmitMark} {i j : Instr}
  {goal : Option EmitMark} {l : Label} {bs : List (Label × EmitMark)}
  {code : List Instr}

/-! ## Runs of operations -/

/-- The emitter after an operation. -/
def apply (e : Emitter) : Emission → Emitter
  | .emit s => e.emit s
  | .push i => e.push i
  | .newMark => e.newMark.1
  | .place m => e.place m
  | .branch op m => e.branch op m

/-- The emitter after operations in order. -/
def run (e : Emitter) (ops : List Emission) : Emitter :=
  ops.foldl apply e

/-- What an operation tells the emitter. -/
def event? (e : Emitter) : Emission → Option Event
  | .emit s => some (.instr ⟨e.fresh, s.1, s.2⟩ none)
  | .push i => some (.instr i none)
  | .newMark => none
  | .place m => some (.mark m)
  | .branch op m => some (.instr ⟨e.fresh, op, .none⟩ (some m))

/-- What operations tell the emitter, in order. -/
def events (e : Emitter) : List Emission → List Event
  | [] => []
  | op :: ops => (e.event? op).toList ++ (e.apply op).events ops

/-- The marks that operations make. -/
def made (e : Emitter) : List Emission → List EmitMark
  | [] => []
  | .newMark :: ops => e.newMark.2 :: e.newMark.1.made ops
  | op :: ops => (e.apply op).made ops

/-- The operations use only marks that they make. -/
def OwnMarks (e : Emitter) (ops : List Emission) : Prop :=
  ∀ op ∈ ops, ∀ m ∈ op.mark?, m ∈ e.made ops

instance (e : Emitter) (ops : List Emission) : Decidable (e.OwnMarks ops) :=
  inferInstanceAs (Decidable (∀ op ∈ ops, ∀ m ∈ op.mark?, m ∈ e.made ops))

/-- The emitter of a body after whatever was done with it, with marks that it
made. -/
inductive Reached (b : Body) : Emitter → Prop where
  /-- nothing was done -/
  | new : Reached b (forBody b)
  /-- an operation -/
  | apply {e : Emitter} {op : Emission} : Reached b e →
    (∀ m ∈ op.mark?, m.key < e.keys) →
      Reached b (e.apply op)
  /-- the run was finished, and is gone on with -/
  | finish {e : Emitter} : Reached b e → Reached b e.finish.1
  /-- the run was dropped -/
  | restart {e : Emitter} : Reached b e → Reached b e.restart

/-- The instructions of a list of events. -/
def instrs (es : List Event) : List Instr :=
  es.filterMap Event.instr?

/-- The mark comes to stand at an instruction: the first one after the last
place of the mark. -/
def LandsOn (es : List Event) (m : EmitMark) (i : Instr) : Prop :=
  ∃ (front : List Event) (marks : List EmitMark) (goal : Option EmitMark)
    (back : List Event),
    es = front ++ .mark m :: (marks.map .mark ++ .instr i goal :: back) ∧
    m ∉ marks ∧
      .mark m ∉ back

/-- The instruction of the finished code in the place of the one that was
emitted: the same one, but if it is a branch to a mark then it leads to where
the mark came to stand. -/
structure Finished (es : List Event) (code : List Instr) (i c : Instr) :
    Prop where
  /-- it is the same instruction -/
  label : c.label = i.label
  /-- it does the same -/
  op : c.op = i.op
  /-- a branch leads to an instruction of the code -/
  branch : ∀ m, .instr i (some m) ∈ es →
    ∃ j, LandsOn es m j ∧ c.operand = .target j.label ∧ ∃ x ∈ code,
    x.label = j.label
  /-- what is no branch to a mark is as it was -/
  plain : (∀ j m, .instr j (some m) ∈ es → j.label ≠ i.label) → c = i

theorem LandsOn.mem_instrs (h : LandsOn es m i) : i ∈ instrs es := by
  obtain ⟨front, marks, goal, back, rfl, -, -⟩ := h
  exact List.mem_filterMap.2 ⟨.instr i goal, by simp, rfl⟩

/-! ## What operations leave -/

theorem run_cons (e : Emitter) (op : Emission) (ops : List Emission) :
    e.run (op :: ops) = (e.apply op).run ops :=
  rfl

/-- The code is what was there and the instructions in order. -/
theorem toList_code_run (e : Emitter) (ops : List Emission) :
    (e.run ops).code.toList = e.code.toList ++ instrs (e.events ops) := by
  induction ops generalizing e with
  | nil => simp [run, events, instrs]
  | cons op ops ih =>
    rw [run_cons, ih]
    cases op <;> simp [apply, events, event?, instrs, List.filterMap_cons,
      Event.instr?, emit, push, newMark, place, branch]

/-- The branches are those that were there and the new ones in order. -/
theorem branches_run (e : Emitter) (ops : List Emission) :
    (e.run ops).branches.toList = e.branches.toList ++ (e.events ops).filterMap
      Event.branch? := by
  induction ops generalizing e with
  | nil => simp [run, events]
  | cons op ops ih =>
    rw [run_cons, ih]
    cases op <;> simp [apply, events, event?, List.filterMap_cons,
      Event.branch?, emit, push, newMark, place, branch]

/-- No mark is left over if none was placed last. -/
theorem pending_run_eq_nil_iff (e : Emitter) (ops : List Emission) :
    (e.run ops).pending = [] ↔
      ∀ m, (e.pending.map Event.mark ++ e.events ops).getLast? ≠
      some (.mark m) := by
  induction ops generalizing e with
  | nil =>
    rcases List.eq_nil_or_concat e.pending with hnil | ⟨ms, m, hms⟩
    · simp [run, events, hnil]
    · simp [run, events, hms]
  | cons op ops ih =>
    have hinstr : ∀ (e' : Emitter) (i : Instr) (goal : Option EmitMark),
      e'.pending = [] →
        ((e'.run ops).pending = [] ↔ ∀ m, (e.pending.map Event.mark ++
          Event.instr i goal :: e'.events ops).getLast? ≠ some (.mark m)) := by
      intro e' i goal hnil
      rw [ih, hnil, List.map_nil, List.nil_append]
      cases hes : e'.events ops <;> simp [List.getLast?_append]
    cases op with
    | emit s => exact hinstr _ _ _ rfl
    | push i => exact hinstr _ _ _ rfl
    | newMark => exact ih _
    | place m =>
      rw [run_cons, ih]
      simp [apply, place, events, event?]
    | branch op m => exact hinstr _ _ _ rfl

/-! ## Where marks stand -/

/-- The label of the first instruction. -/
def firstLabel? : List Event → Option Label
  | [] => none
  | .instr i _ :: _ => some i.label
  | .mark _ :: es => firstLabel? es

/-- The label that the events give to a mark; later ones have precedence. -/
def labelIn? (m : EmitMark) : List Event → Option Label
  | [] => none
  | .instr .. :: es => labelIn? m es
  | .mark m' :: es =>
    (labelIn? m es).or (if m' = m then firstLabel? es else none)

theorem firstLabel?_marks (ms : List EmitMark) (es : List Event) :
    firstLabel? (ms.map .mark ++ es) = firstLabel? es := by
  induction ms with
  | nil => rfl
  | cons m ms ih => exact ih

/-- Marks without an instruction after them have no label. -/
theorem labelIn?_marks (m : EmitMark) (ms : List EmitMark) :
    labelIn? m (ms.map .mark) = none := by
  induction ms with
  | nil => rfl
  | cons m' ms ih =>
    have hfirst := firstLabel?_marks ms []
    rw [List.append_nil] at hfirst
    rw [List.map_cons, labelIn?, ih, hfirst]
    simp [firstLabel?]

/-- Marks stand at the instruction that comes next. -/
theorem labelIn?_marks_instr (m : EmitMark) (ms : List EmitMark) (i : Instr)
    (goal : Option EmitMark) (es : List Event) :
    labelIn? m (ms.map .mark ++ .instr i goal :: es) =
      (labelIn? m es).or (if m ∈ ms then some i.label else none) := by
  induction ms with
  | nil => simp [labelIn?]
  | cons m' ms ih =>
    rw [List.map_cons, List.cons_append, labelIn?, ih, firstLabel?_marks,
      firstLabel?]
    by_cases hm : m = m'
    · subst hm
      cases labelIn? m es <;> by_cases hmem : m ∈ ms <;> simp [hmem]
    · simp [hm, Ne.symm hm]

/-- All marks stand at the one label. -/
theorem find?_standing (m : EmitMark) (ms : List EmitMark) (l : Label) :
    ((ms.map (·, l)).find? (·.1 == m)).map (·.2) = if m ∈ ms then some l
    else none := by
  induction ms with
  | nil => rfl
  | cons m' ms ih =>
    rw [List.map_cons, List.find?_cons]
    by_cases hm : m' = m
    · simp [hm]
    · have hbeq : (m' == m) = false := by simpa using hm
      simp only [hbeq, ih, List.mem_cons, Ne.symm hm, false_or]

/-- A mark stands where the events say, and else where it stood before. -/
theorem labelOf?_run (e : Emitter) (ops : List Emission) (m : EmitMark) :
    (e.run ops).labelOf? m =
      (labelIn? m (e.pending.map .mark ++ e.events ops)).or (e.labelOf? m) := by
  induction ops generalizing e with
  | nil => simp [run, events, labelIn?_marks]
  | cons op ops ih =>
    have hinstr : ∀ (e' : Emitter) (i : Instr) (goal : Option EmitMark),
      e'.pending = [] →
        e'.placed = e.pending.map (·, i.label) ++ e.placed →
        (e'.run ops).labelOf? m =
          (labelIn? m (e.pending.map .mark ++ .instr i goal :: e'.events
            ops)).or (e.labelOf? m) := by
      intro e' i goal hnil hplaced
      have hold : e'.labelOf? m =
          (if m ∈ e.pending then some i.label else none).or (e.labelOf? m) := by
        rw [labelOf?, hplaced, List.find?_append, Option.map_or, find?_standing,
          labelOf?]
      rw [ih, hnil, hold, labelIn?_marks_instr, List.map_nil, List.nil_append,
        Option.or_assoc]
    cases op with
    | emit s => exact hinstr _ _ _ rfl rfl
    | push i => exact hinstr _ _ _ rfl rfl
    | newMark => exact ih _
    | place m' =>
      rw [run_cons, ih]
      simp [apply, place, events, event?, labelOf?]
    | branch op m' => exact hinstr _ _ _ rfl rfl

/-- The first label is that of an instruction with only marks before it. -/
theorem exists_of_firstLabel? (h : firstLabel? es = some l) :
    ∃ (marks : List EmitMark) (i : Instr) (goal : Option EmitMark)
      (back : List Event),
      es = marks.map .mark ++ .instr i goal :: back ∧ i.label = l := by
  induction es with
  | nil => cases h
  | cons x es ih =>
    cases x with
    | instr i goal => exact ⟨[], i, goal, es, rfl, Option.some.inj h⟩
    | mark m =>
      obtain ⟨marks, i, goal, back, rfl, hl⟩ := ih h
      exact ⟨m :: marks, i, goal, back, rfl, hl⟩

theorem firstLabel?_ne_none (hlast : ∀ m, es.getLast? ≠ some (.mark m))
    (hne : es ≠ []) :
    firstLabel? es ≠ none := by
  induction es with
  | nil => exact absurd rfl hne
  | cons x es ih =>
    cases x with
    | instr i goal => simp [firstLabel?]
    | mark m =>
      cases es with
      | nil => exact absurd rfl (hlast m)
      | cons y es => exact ih (by simpa using hlast) (by simp)

/-- Where no mark is left over, the marks with a label are those that were
placed. -/
theorem labelIn?_isSome_iff (hlast : ∀ m, es.getLast? ≠ some (.mark m)) :
    (labelIn? m es).isSome ↔ .mark m ∈ es := by
  induction es with
  | nil => simp [labelIn?]
  | cons x es ih =>
    cases es with
    | nil =>
      cases x with
      | instr i goal => simp [labelIn?]
      | mark m' => exact absurd rfl (hlast m')
    | cons y es =>
      have hlast' : ∀ m, (y :: es).getLast? ≠ some (.mark m) := by
        simpa using hlast
      cases x with
      | instr i goal => simpa [labelIn?] using ih hlast'
      | mark m' =>
        obtain ⟨l, hl⟩ := Option.ne_none_iff_exists'.1
          (firstLabel?_ne_none hlast' (by simp))
        rw [labelIn?, Option.isSome_or, Bool.or_eq_true, ih hlast', hl,
          List.mem_cons]
        by_cases hm : m' = m
        · simp [hm]
        · simp [hm, Ne.symm hm]

/-- The label of a mark is that of the instruction where the mark came to
stand. -/
theorem exists_landsOn (hlast : ∀ m, es.getLast? ≠ some (.mark m))
    (h : labelIn? m es = some l) :
    ∃ i, LandsOn es m i ∧ i.label = l := by
  induction es with
  | nil => cases h
  | cons x es ih =>
    have hlast' : ∀ m, es.getLast? ≠ some (.mark m) := by
      cases es with
      | nil => simp
      | cons y es => simpa using hlast
    have hlater : labelIn? m es = some l → ∃ i, LandsOn (x :: es) m i ∧
        i.label = l := by
      intro h
      obtain ⟨i, ⟨front, marks, goal, back, rfl, hmarks, hback⟩, hl⟩ :=
        ih hlast' h
      exact ⟨i, ⟨x :: front, marks, goal, back, rfl, hmarks, hback⟩, hl⟩
    cases x with
    | instr i goal => exact hlater h
    | mark m' =>
      rw [labelIn?] at h
      cases hes : labelIn? m es with
      | some l' => exact hlater (by simpa [hes] using h)
      | none =>
        -- this is the last place of the mark
        rw [hes, Option.none_or] at h
        split at h
        · rename_i hm
          subst hm
          have hno : Event.mark m' ∉ es := by
            rw [← labelIn?_isSome_iff hlast', hes]
            simp
          obtain ⟨marks, i, goal, back, rfl, hl⟩ := exists_of_firstLabel? h
          refine ⟨i, ⟨[], marks, goal, back, rfl, ?_, ?_⟩, hl⟩
          · exact fun hmem => hno (List.mem_append_left
              _ (List.mem_map_of_mem hmem))
          · exact fun hmem => hno (List.mem_append_right
              _ (List.mem_cons_of_mem _ hmem))
        · cases h

/-! ## Finishing -/

/-- An instruction pointed at a mark if it is the branch. -/
def pointAt (e : Emitter) (i : Instr) (x : Label × EmitMark) : Instr :=
  if i.label == x.1 then { i with operand := .target ((e.labelOf? x.2).getD 0) }
  else i

/-- All branches are pointed if all their marks stand somewhere. -/
theorem pointBranches_eq (e : Emitter) (bs : List (Label × EmitMark)) :
    ((e.pointBranches bs).2 = none ↔ ∀ x ∈ bs, (e.labelOf? x.2).isSome) ∧
      (e.pointBranches bs).1.pending = e.pending ∧
      (e.pointBranches bs).1.placed = e.placed ∧
        (e.pointBranches bs).1.keys = e.keys ∧ ((e.pointBranches bs).2 = none →
        (e.pointBranches bs).1.code.toList = e.code.toList.map
          fun i => bs.foldl e.pointAt i) := by
  induction bs generalizing e with
  | nil => simp [pointBranches]
  | cons x bs ih =>
    obtain ⟨l, m⟩ := x
    rw [pointBranches]
    cases hl : e.labelOf? m with
    | none => simp [hl]
    | some t =>
      obtain ⟨hnone, hpending, hplaced, hkeys, hcode⟩ := ih { e with
        code := e.code.map fun i => if i.label ==
          l then { i with operand := .target t } else i }
      refine ⟨hnone.trans ?_, hpending, hplaced, hkeys,
        fun h => (hcode h).trans ?_⟩
      · simp only [List.forall_mem_cons, hl, Option.isSome_some, true_and]
        rfl
      · simp only [Array.toList_map, List.map_map, List.foldl_cons]
        refine List.map_congr_left fun i _ => ?_
        simp only [Function.comp_apply, pointAt, hl, Option.getD_some]
        rfl

/-- There is a finished run if all marks of branches stand somewhere and none is
left over. -/
theorem finish_eq_ok_iff :
    e.finish.2 = .ok code ↔ (∀ x ∈ e.branches.toList, (e.labelOf? x.2).isSome) ∧
      e.pending = [] ∧ code = e.code.toList.map fun i => e.branches.toList.foldl
        e.pointAt i := by
  obtain ⟨hnone, hpending, -, -, hcode⟩ := e.pointBranches_eq e.branches.toList
  rw [finish]
  cases hpoint : e.pointBranches e.branches.toList with
  | mk e' o =>
    rw [hpoint] at hnone hpending hcode
    cases o with
    | some f =>
      simp only [reduceCtorEq, false_iff] at hnone ⊢
      exact fun h => hnone h.1
    | none =>
      replace hcode := hcode rfl
      simp only [true_iff] at hnone
      simp only at hpending hcode ⊢
      rw [hpending]
      cases e.pending with
      | nil =>
        simp only [Except.ok.injEq, hcode, true_and]
        exact ⟨fun h => ⟨hnone, h.symm⟩, fun h => h.2.symm⟩
      | cons => simp

theorem label_foldl_pointAt (e : Emitter) (bs : List (Label × EmitMark))
    (i : Instr) :
    (bs.foldl e.pointAt i).label = i.label ∧
      (bs.foldl e.pointAt i).op = i.op := by
  induction bs generalizing i with
  | nil => exact ⟨rfl, rfl⟩
  | cons x bs ih =>
    have hstep : (e.pointAt i x).label = i.label ∧ (e.pointAt i x).op =
        i.op := by
      rw [pointAt]
      split <;> exact ⟨rfl, rfl⟩
    exact ⟨(ih _).1.trans hstep.1, (ih _).2.trans hstep.2⟩

/-- What is no branch stays. -/
theorem foldl_pointAt_eq_self (h : ∀ x ∈ bs, x.1 ≠ i.label) :
    bs.foldl e.pointAt i = i := by
  induction bs with
  | nil => rfl
  | cons x bs ih =>
    obtain ⟨hx, hbs⟩ := List.forall_mem_cons.1 h
    rw [List.foldl_cons, pointAt, if_neg (by simpa using hx.symm)]
    exact ih hbs

/-- A branch is pointed at its mark. -/
theorem operand_foldl_pointAt (hbs : (bs.map (·.1)).Nodup)
    (hx : (i.label, m) ∈ bs) :
    (bs.foldl e.pointAt i).operand = .target ((e.labelOf? m).getD 0) := by
  induction bs generalizing i with
  | nil => cases hx
  | cons x bs ih =>
    obtain ⟨hnot, hbs⟩ := List.nodup_cons.1 hbs
    rw [List.foldl_cons]
    rcases List.mem_cons.1 hx with rfl | hx
    · -- the branches after it have other labels
      rw [pointAt, if_pos (beq_self_eq_true _), foldl_pointAt_eq_self]
      exact fun y hy heq => hnot (List.mem_map.2 ⟨y, hy, heq⟩)
    · have hlabel : (e.pointAt i x).label = i.label :=
        (label_foldl_pointAt e [x] i).1
      exact ih hbs (hlabel ▸ hx)

/-! ## Marks and labels of a run -/

/-- New labels grow. -/
theorem fresh_le_of_mem_branch?
    (h : ∃ m, (l, m) ∈ (e.events ops).filterMap Event.branch?) :
    e.fresh ≤ l := by
  obtain ⟨m, h⟩ := h
  induction ops generalizing e with
  | nil => cases h
  | cons op ops ih =>
    rw [events, List.filterMap_append, List.mem_append] at h
    rcases h with h | h
    · cases op <;> simp [event?, Event.branch?] at h
      exact h.1.ge
    · refine le_trans ?_ (ih h)
      cases op <;> simp [apply, emit, push, newMark, place, branch]

/-- The branches of events. -/
theorem mem_branch?_iff :
    (l, m) ∈ es.filterMap Event.branch? ↔
      ∃ i, .instr i (some m) ∈ es ∧ i.label = l := by
  rw [List.mem_filterMap]
  constructor
  · rintro ⟨x, hx, hbranch⟩
    cases x with
    | mark => cases hbranch
    | instr i goal =>
      cases goal with
      | none => cases hbranch
      | some m =>
        cases hbranch
        exact ⟨i, hx, rfl⟩
  · rintro ⟨i, hi, rfl⟩
    exact ⟨_, hi, rfl⟩

/-- Branches come from operations that branch. -/
theorem exists_of_instr_mem (h : .instr i (some m) ∈ e.events ops) :
    ∃ op ∈ ops, m ∈ op.mark? := by
  induction ops generalizing e with
  | nil => cases h
  | cons op ops ih =>
    rw [events, List.mem_append] at h
    rcases h with h | h
    · cases op <;> simp [event?] at h
      exact ⟨_, List.mem_cons_self, by simp [Emission.mark?, h.2]⟩
    · obtain ⟨op', hop, hm⟩ := ih h
      exact ⟨op', List.mem_cons_of_mem _ hop, hm⟩

/-- No two branches of a run are one instruction. -/
theorem nodup_branches (e : Emitter) (ops : List Emission) :
    (((e.events ops).filterMap Event.branch?).map (·.1)).Nodup := by
  induction ops generalizing e with
  | nil => simp [events]
  | cons op ops ih =>
    rw [events, List.filterMap_append, List.map_append]
    have hlater := ih (e.apply op)
    cases op with
    | branch op m =>
      simp only [event?, Option.toList_some, List.filterMap_cons, Event.branch?,
        List.filterMap_nil, List.map_cons, List.map_nil, List.singleton_append,
        List.nodup_cons]
      refine ⟨fun hmem => ?_, hlater⟩
      obtain ⟨x, hx, hlabel⟩ := List.mem_map.1 hmem
      have hle : e.fresh + 1 ≤ x.1 :=
        fresh_le_of_mem_branch? (e := e.apply (.branch op m)) ⟨x.2, hx⟩
      exact absurd hle (hlabel ▸ Nat.not_succ_le_self _)
    | _ => simpa [event?, List.filterMap_cons, Event.branch?] using hlater

/-- Marks that an emitter makes are not those it made before. -/
theorem keys_le_of_mem_made (h : m ∈ e.made ops) : e.keys ≤ m.key := by
  induction ops generalizing e with
  | nil => cases h
  | cons op ops ih =>
    cases op with
    | newMark =>
      rcases List.mem_cons.1 h with rfl | h
      · exact le_rfl
      · exact (Nat.le_succ _).trans (ih h)
    | _ => exact ih (e := e.apply _) h

/-- Marks that stand somewhere or will were made by the emitter. -/
theorem Reached.key_lt (h : Reached b e) :
    (∀ x ∈ e.placed, x.1.key < e.keys) ∧ ∀ m ∈ e.pending, m.key < e.keys := by
  induction h with
  | new => simp [forBody]
  | @apply e op _ hown ih =>
    have hplaced : ∀ l, ∀ x ∈ e.pending.map (·, l) ++ e.placed,
        x.1.key < e.keys := by
      intro l x hx
      rcases List.mem_append.1 hx with hx | hx
      · obtain ⟨m, hm, rfl⟩ := List.mem_map.1 hx
        exact ih.2 m hm
      · exact ih.1 x hx
    cases op with
    | emit s => exact ⟨hplaced _, by simp [Emitter.apply, Emitter.emit, push]⟩
    | push i => exact ⟨hplaced _, by simp [Emitter.apply, push]⟩
    | newMark =>
      exact ⟨fun x hx => Nat.lt_succ_of_lt (ih.1 x hx),
        fun m hm => Nat.lt_succ_of_lt (ih.2 m hm)⟩
    | place m =>
      refine ⟨ih.1, fun m' hm' => ?_⟩
      rcases List.mem_append.1 hm' with hm' | hm'
      · exact ih.2 m' hm'
      · exact List.mem_singleton.1 hm' ▸ hown m rfl
    | branch op m =>
      exact ⟨hplaced _, by simp [Emitter.apply, branch, Emitter.emit, push]⟩
  | @finish e _ ih =>
    obtain ⟨-, hpending, hplaced, hkeys, -⟩ :=
      e.pointBranches_eq e.branches.toList
    have hfinish : e.finish.1 = (e.pointBranches e.branches.toList).1 := by
      rw [Emitter.finish]
      split
      · rename_i hpoint
        rw [hpoint]
      · rename_i hpoint
        rw [hpoint]
        split <;> rfl
    rw [hfinish, hplaced, hpending, hkeys]
    exact ih
  | restart _ ih => exact ⟨ih.1, by simp [Emitter.restart]⟩

/-- A mark that is new stands nowhere. -/
theorem Reached.labelOf?_eq_none (he : Reached b e) (h : m ∈ e.made ops) :
    e.labelOf? m = none := by
  rw [labelOf?, Option.map_eq_none_iff, List.find?_eq_none]
  intro x hx hbeq
  have hlt := he.key_lt.1 x hx
  rw [eq_of_beq hbeq] at hlt
  exact absurd (keys_le_of_mem_made h) (Nat.not_le.2 hlt)

/-- Where marks come to stand.  After a restart, operations that use marks of
their own make a finished run exactly if no mark was placed last and every mark
that is branched to was placed. The finished run is made of the emitted
instructions in order, where every branch leads to the first instruction after
the last place of its mark. -/
theorem finish_lands (he : Reached b e) (hown : e.restart.OwnMarks ops) :
    ((∃ code, (e.restart.run ops).finish.2 = .ok code) ↔
      (∀ m, (e.restart.events ops).getLast? ≠ some (.mark m)) ∧
        ∀ i m, .instr i (some m) ∈ e.restart.events ops →
          .mark m ∈ e.restart.events ops) ∧
    ∀ code, (e.restart.run ops).finish.2 = .ok code →
      List.Forall₂ (Finished (e.restart.events ops) code)
        (instrs (e.restart.events ops)) code := by
  have hbranches : (e.restart.run ops).branches.toList =
      (e.restart.events ops).filterMap Event.branch? := branches_run ..
  have hcode : (e.restart.run ops).code.toList =
      instrs (e.restart.events ops) :=
    toList_code_run ..
  have hpending : (e.restart.run ops).pending = [] ↔
      ∀ m, (e.restart.events ops).getLast? ≠ some (.mark m) :=
    pending_run_eq_nil_iff ..
  have hlabel : ∀ {i m}, .instr i (some m) ∈ e.restart.events ops →
      (e.restart.run ops).labelOf? m = labelIn? m (e.restart.events ops) := by
    intro i m hm
    obtain ⟨op, hop, hop'⟩ := exists_of_instr_mem hm
    rw [labelOf?_run, he.restart.labelOf?_eq_none (hown op hop m hop'),
      Option.or_none]
    rfl
  have hnodup := nodup_branches e.restart ops
  generalize e.restart.events ops = es at *
  constructor
  · simp only [finish_eq_ok_iff, hbranches, hpending, exists_and_left,
      exists_eq, and_true]
    rw [and_comm]
    refine and_congr_right fun hlast => ?_
    constructor
    · intro h i m hm
      have hsome := h (i.label, m) (mem_branch?_iff.2 ⟨i, hm, rfl⟩)
      rwa [hlabel hm, labelIn?_isSome_iff hlast] at hsome
    · rintro h ⟨l, m⟩ hx
      obtain ⟨i, hm, rfl⟩ := mem_branch?_iff.1 hx
      rw [hlabel hm, labelIn?_isSome_iff hlast]
      exact h i m hm
  · intro code hfinish
    obtain ⟨hstand, hnil, hall⟩ := finish_eq_ok_iff.1 hfinish
    have hlast := hpending.1 hnil
    rw [hbranches] at hstand hall
    rw [hcode] at hall
    have hthere : ∀ j ∈ instrs es, ∃ x ∈ code, x.label = j.label := by
      intro j hj
      rw [hall]
      exact ⟨_, List.mem_map_of_mem hj, (label_foldl_pointAt _ _ j).1⟩
    refine (congrArg (List.Forall₂ (Finished es code) (instrs es)) hall).mpr ?_
    rw [List.forall₂_map_right_iff, List.forall₂_same]
    intro i hi
    obtain ⟨hsame, hop⟩ := label_foldl_pointAt (e.restart.run ops)
      (es.filterMap Event.branch?) i
    refine ⟨hsame, hop, fun m hm => ?_, fun hplain => foldl_pointAt_eq_self ?_⟩
    · have hx : (i.label, m) ∈ es.filterMap Event.branch? :=
        mem_branch?_iff.2 ⟨i, hm, rfl⟩
      obtain ⟨t, ht⟩ := Option.isSome_iff_exists.1 (hstand _ hx)
      obtain ⟨j, hj, rfl⟩ := exists_landsOn hlast ((hlabel hm).symm.trans ht)
      refine ⟨j, hj, ?_, hthere j hj.mem_instrs⟩
      rw [operand_foldl_pointAt hnodup hx, ht, Option.getD_some]
    · rintro ⟨l, m⟩ hx heq
      obtain ⟨j, hj, hl⟩ := mem_branch?_iff.1 hx
      exact hplain j m hj (hl.trans heq)

/-- An emitter that was used before, and so made a mark that stands
somewhere. -/
def used : Emitter :=
  (forBody {}).run [.newMark, .place ⟨0, 1⟩, .emit Step.nop]

theorem reached_used : Reached {} used := by
  have hmade : Reached {} ((forBody {}).apply .newMark) :=
    Reached.new.apply (by simp [Emission.mark?])
  have hplaced : Reached {} (((forBody {}).apply .newMark).apply
      (.place ⟨0, 1⟩)) :=
    hmade.apply (by simp [Emission.mark?, Emitter.apply, newMark])
  have hemitted :
      Reached {} ((((forBody {}).apply .newMark).apply (.place ⟨0, 1⟩)).apply
        (.emit Step.nop)) :=
    hplaced.apply (by simp [Emission.mark?])
  exact hemitted

/-- A loop that is entered at its test.  Its top is marked a second time, behind
the first instruction. -/
def loopOps : List Emission :=
  [.newMark, .newMark, .place ⟨1, 1⟩, .branch .br ⟨2, 2⟩, .place ⟨1, 1⟩,
    .emit Step.nop, .place ⟨2, 2⟩, .emit (Step.ldcI4 0), .branch .brtrue ⟨1, 1⟩,
    .emit Step.ret]

/-- The finished run of the loop. -/
def loopCode : List Instr :=
  [⟨1, .br, .target 3⟩, ⟨2, .nop, .none⟩, ⟨3, .ldcI4, .int32 0⟩,
    ⟨4, .brtrue, .target 2⟩, ⟨5, .ret, .none⟩]

theorem finish_lands_loop :
    Reached {} used ∧ used.restart.OwnMarks loopOps ∧
      (used.restart.run loopOps).finish.2 = .ok loopCode ∧
      List.Forall₂ (Finished (used.restart.events loopOps) loopCode)
        (instrs (used.restart.events loopOps)) loopCode := by
  have hown : used.restart.OwnMarks loopOps := by decide
  have hfinish : (used.restart.run loopOps).finish.2 = .ok loopCode :=
    finish_eq_ok_iff.2 ⟨by decide, rfl, rfl⟩
  exact ⟨reached_used, hown, hfinish, (finish_lands reached_used hown).2
    _ hfinish⟩

end Emitter

end JobWeave
