import Mathlib
import JobWeave.Plan.Entry
import JobWeave.Plan.Lambda
import JobWeave.Proofs.Body.Straight
import JobWeave.Proofs.Flow.Sequence

/-!
# A machine for the loop over the entities of a chunk

The job over entities has a loop that asks the chunk for the number of its
entities, counts from zero and calls the lambda each time.  `Loop.run` runs code
on a machine with a position, a stack and local variables, and notes the calls.
It knows the members of the framework that the loop uses by their names.

* `Loop.exec` runs steps that do not branch, and `Loop.Finishes` says how a run
  ends; there is one lemma for each way to go on (`Loop.finishes_steps` and the
  ones after it).
* `Body.IsCountingLoop` is what the emitter makes of a counting loop.
* `Body.IsEntityLoop` is the loop over entities.  `Loop.exec_arguments` and
  `Loop.exec_round` are about one round, and `Loop.finishes_rounds` and
  `Body.IsEntityLoop.visits` about all of them.
-/

namespace JobWeave

namespace Loop

/-! ## The machine -/

/-- A value on the stack or in a local variable. -/
inductive Value where
  | job
  | chunk
  /-- the struct with the state of the providers -/
  | runtimes
  | number (n : Int32)
  /-- the state of the provider that a field holds -/
  | runtime (f : FieldRef)
  /-- what that state gives for the entity at an index -/
  | element (f : FieldRef) (i : Int32)
  /-- the value that a reference refers to -/
  | loaded (t : TypeRef) (v : Value)
  /-- the address of a local variable -/
  | address (n : Nat)
  /-- a value that nothing is known of -/
  | other
  deriving Repr, Inhabited, BEq

/-- The value is the address of a local variable. -/
def Value.isAddress (n : Nat) : Value → Bool
  | address m => m == n
  | _ => false

/-- A call of a method that is not the framework's. -/
structure Call where
  /-- the method -/
  method : MethodRef
  /-- the instance that it is called on -/
  receiver : Option Value
  /-- the arguments in order -/
  args : List Value
  /-- the local variables when it is called -/
  locals : Nat → Value

/-- What the code runs in. -/
structure Setting where
  /-- the number of entities in the chunk -/
  count : Nat
  /-- what a call leaves in a local variable that it was given the address of -/
  leaves : Call → Nat → Value

/-- A state of the machine. -/
structure State where
  /-- the stack, its top first -/
  stack : List Value := []
  /-- the local variables -/
  locals : Nat → Value := fun _ => .other
  /-- the calls in order -/
  calls : List Call := []

namespace State

variable (E : Setting)

/-- The state with other values on the stack. -/
def withStack (s : State) (stack : List Value) : State :=
  { s with stack }

/-- The state after a call. -/
def called (s : State) (c : Call) (stack : List Value) : State where
  stack := if c.method.returnsVoid then stack else .other :: stack
  locals := fun n => if c.args.any (·.isAddress n) then E.leaves c n
    else s.locals n
  calls := s.calls ++ [c]

/-- Calls a method with the values on the stack. -/
def call? (s : State) (r : MethodRef) : Option State :=
  let args := (s.stack.take r.params.length).reverse
  match r.hasThis, s.stack.drop r.params.length with
  | true, v :: stack => some (s.called E ⟨r, some v, args, s.locals⟩ stack)
  | true, [] => none
  | false, stack =>
    if args.length < r.params.length then none
    else some (s.called E ⟨r, none, args, s.locals⟩ stack)

/-- The state with one more value on the stack. -/
def push (s : State) (v : Value) : State :=
  s.withStack (v :: s.stack)

/-- The value of an argument. -/
def argument? : Int → Option Value
  | 0 => some .job
  | 1 => some .chunk
  | 2 => some .runtimes
  | _ => none

/-- A step that works on numbers. -/
def compute? (s : State) (op : Opcode) : Option State :=
  match s.stack with
  | .number b :: .number a :: stack =>
    if op = .add then some (s.withStack (.number (a + b) :: stack))
    else if op = .clt then some (s.withStack
      (.number (if a < b then 1 else 0) :: stack))
    else none
  | _ => none

/-- A step that works on a local variable. -/
def access? (s : State) (op : Opcode) (n : Nat) : Option State :=
  if op = .ldloc then some (s.push (s.locals n))
  else if op = .ldloca then some (s.push (.address n))
  else if op = .stloc then
    match s.stack with
    | v :: stack =>
      some { s with stack, locals := Function.update s.locals n v }
    | [] => none
  else none

/-- Calls a method, which may be one of the framework's. -/
def invoke? (s : State) (r : MethodRef) : Option State :=
  if r.name = "get_Count" ∧ r.params.length = 0 then
    match s.stack with
    | .chunk :: stack =>
      some (s.withStack (.number (Int32.ofNat E.count) :: stack))
    | _ => none
  else if r.name = "For" ∧ r.params.length = 1 then
    match s.stack with
    | .number i :: .runtime f :: stack =>
      some (s.withStack (.element f i :: stack))
    | _ => none
  else s.call? E r

/-- One step that goes on with the next one. -/
def step? (s : State) (x : Step) : Option State :=
  match x.2 with
  | .none => s.compute? x.1
  | .arg n => if x.1 = .ldarg then (argument? n).map s.push else none
  | .int32 v => if x.1 = .ldcI4 then some (s.push (.number v)) else none
  | .slot (.slot n) => s.access? x.1 n
  | .field (some f) =>
    match s.stack with
    | .runtimes :: stack =>
      if x.1 = .ldflda then some (s.withStack (.runtime f :: stack)) else none
    | _ => none
  | .type t =>
    match s.stack with
    | v :: stack =>
      if x.1 = .ldobj then some (s.withStack (.loaded t v :: stack)) else none
    | [] => none
  | .method (some r) => if x.1 = .call then s.invoke? E r else none
  | _ => none

/-- Runs steps one after another. -/
def exec (s : State) (code : List Step) : Option State :=
  code.foldlM (step? E) s

end State

/-- Runs the code of a method from a position to its return; the fuel bounds the
steps. -/
def run (E : Setting) (b : Body) : Nat → Nat → State → Option State
  | 0, _, _ => none
  | fuel + 1, n, s => do
    let i ← b.code[n]?
    if i.op = .ret then some s
    else
      match i.operand with
      | .target l =>
        let target ← b.indexOf? l
        if i.op = .br then run E b fuel target s
        else if i.op = .brtrue then
          match s.stack with
          | .number v :: stack =>
            run E b fuel (if v = 0 then n + 1 else target) (s.withStack stack)
          | _ => none
        else none
      | operand => run E b fuel (n + 1) (← s.step? E (i.op, operand))

/-- The run from a position returns in a state. -/
def Finishes (E : Setting) (b : Body) (n : Nat) (s t : State) : Prop :=
  ∃ fuel, run E b fuel n s = some t

variable {E : Setting} {b : Body} {n k : Nat} {s s' t : State} {x : Step}
  {code more : List Step}
variable {l : Label} {r : MethodRef}

/-! ## Steps -/

namespace State

@[simp]
theorem exec_nil : s.exec E [] = some s :=
  rfl

@[simp]
theorem exec_cons : s.exec E (x :: code) = (s.step? E x).bind (·.exec E code) :=
  rfl

theorem exec_append :
    s.exec E (code ++ more) = (s.exec E code).bind (·.exec E more) :=
  List.foldlM_append

@[simp]
theorem step?_chunk :
    s.step? E (.ldarg 1) = some (s.withStack (.chunk :: s.stack)) :=
  rfl

@[simp]
theorem step?_runtimes :
    s.step? E (.ldarg 2) = some (s.withStack (.runtimes :: s.stack)) :=
  rfl

@[simp]
theorem step?_ldcI4 (v : Int32) :
    s.step? E (.ldcI4 v) = some (s.withStack (.number v :: s.stack)) :=
  rfl

@[simp]
theorem step?_ldloc :
    s.step? E (.ldloc (.slot n)) = some (s.withStack (s.locals n :: s.stack)) :=
  rfl

theorem step?_stloc {v : Value} {stack : List Value}
    (h : s.stack = v :: stack) :
    s.step? E (.stloc (.slot n)) =
      some { s with stack, locals := Function.update s.locals n v } := by
  simp [step?, Step.stloc, access?, h]

theorem step?_ldflda {f : FieldRef} {stack : List Value}
    (h : s.stack = .runtimes :: stack) :
    s.step? E (.ldflda f) = some (s.withStack (.runtime f :: stack)) := by
  simp [step?, Step.ldflda, h]

theorem step?_ldobj {ty : TypeRef} {v : Value} {stack : List Value}
    (h : s.stack = v :: stack) :
    s.step? E (.ldobj ty) = some (s.withStack (.loaded ty v :: stack)) := by
  simp [step?, Step.ldobj, h]

theorem step?_getCount {stack : List Value} (hname : r.name = "get_Count")
    (hparams : r.params.length = 0) (h : s.stack = .chunk :: stack) :
    s.step? E (.call r) = some (s.withStack (.number (Int32.ofNat E.count) ::
      stack)) := by
  simp only [step?, Step.call, if_true, invoke?, h,
    if_pos (And.intro hname hparams)]

theorem step?_for {f : FieldRef} {i : Int32} {stack : List Value}
    (hname : r.name = "For") (hparams : r.params.length = 1)
    (h : s.stack = .number i :: .runtime f :: stack) :
    s.step? E (.call r) = some (s.withStack (.element f i :: stack)) := by
  have hcount : ¬ (r.name = "get_Count" ∧ r.params.length = 0) := by
    simp [hparams]
  simp only [step?, Step.call, if_true, invoke?, h, if_neg hcount,
    if_pos (And.intro hname hparams)]

theorem step?_call (hcount : r.name ≠ "get_Count") (hfor : r.name ≠ "For") :
    s.step? E (.call r) = s.call? E r := by
  simp [step?, Step.call, invoke?, hcount, hfor]

end State

/-! ## Runs -/

/-- Steps that go on with the next one do not return. -/
theorem ne_ret_of_step? (h : s.step? E x = some s') : x.1 ≠ .ret := by
  obtain ⟨op, operand⟩ := x
  rintro rfl
  simp only [State.step?] at h
  split at h
  · simp only [State.compute?] at h
    split at h <;> simp at h
  all_goals simp [State.access?] at h
  all_goals split at h <;> simp at h

theorem run_step {fuel : Nat} {i : Instr} (hi : b.code[n]? = some i)
    (h : s.step? E (i.op, i.operand) = some s') :
    run E b (fuel + 1) n s = run E b fuel (n + 1) s' := by
  have hret : i.op ≠ .ret := ne_ret_of_step? h
  rw [run, hi]
  simp only [Option.bind_eq_bind, Option.bind_some, if_neg hret]
  split
  · rename_i hoperand
    rw [hoperand] at h
    cases h
  · rw [h, Option.bind_some]

/-- Steps that do not branch come first. -/
theorem finishes_steps {front back : List Step}
    (hb : b.steps = front ++ code ++ back) (hcode : s.exec E code = some s')
    (h : Finishes E b (front.length + code.length) s' t) :
    Finishes E b front.length s t := by
  induction code generalizing front s with
  | nil =>
    cases hcode
    exact h
  | cons x code ih =>
    rw [State.exec_cons, Option.bind_eq_some_iff] at hcode
    obtain ⟨s₁, hx, hcode⟩ := hcode
    have hlength : (front ++ [x]).length = front.length + 1 := by simp
    have hrest : Finishes E b (front ++ [x]).length s₁ t := by
      refine ih ?_ hcode ?_
      · rw [hb]
        simp
      · rw [hlength, Nat.add_assoc, Nat.add_comm 1]
        exact h
    obtain ⟨i, hi, hix⟩ : ∃ i, b.code[front.length]? = some i ∧
        (i.op, i.operand) = x := by
      have hget : b.steps[front.length]? = some x := by
        rw [hb]
        simp
      rw [Body.steps, List.getElem?_map, Option.map_eq_some_iff] at hget
      exact hget
    obtain ⟨fuel, hfuel⟩ := hrest
    rw [hlength] at hfuel
    exact ⟨fuel + 1, (run_step hi (hix ▸ hx)).trans hfuel⟩

theorem exists_instr {op : Opcode} {o : Operand}
    (h : b.steps[n]? = some (op, o)) :
    ∃ i, b.code[n]? = some i ∧ i.op = op ∧ i.operand = o := by
  rw [Body.steps, List.getElem?_map, Option.map_eq_some_iff] at h
  obtain ⟨i, hi, hstep⟩ := h
  exact ⟨i, hi, congrArg Prod.fst hstep, congrArg Prod.snd hstep⟩

theorem finishes_ret (hn : b.steps[n]? = some Step.ret) :
    Finishes E b n s s := by
  obtain ⟨i, hi, hop, -⟩ := exists_instr hn
  refine ⟨1, ?_⟩
  rw [run, hi]
  simp [hop]

theorem finishes_br (hn : b.steps[n]? = some (.br, .target l))
    (hl : b.indexOf? l = some k) (h : Finishes E b k s t) :
    Finishes E b n s t := by
  obtain ⟨i, hi, hop, ho⟩ := exists_instr hn
  obtain ⟨fuel, hfuel⟩ := h
  refine ⟨fuel + 1, ?_⟩
  rw [run, hi]
  simp [hop, ho, hl, hfuel]

theorem finishes_brtrue {v : Int32} {stack : List Value}
    (hn : b.steps[n]? = some (.brtrue, .target l))
    (hl : b.indexOf? l = some k) (hstack : s.stack = .number v :: stack)
    (h : Finishes E b (if v = 0 then n + 1 else k) (s.withStack stack) t) :
    Finishes E b n s t := by
  obtain ⟨i, hi, hop, ho⟩ := exists_instr hn
  obtain ⟨fuel, hfuel⟩ := h
  refine ⟨fuel + 1, ?_⟩
  rw [run, hi]
  simp only [Option.bind_eq_bind, Option.bind_some, hop, ho, hstack, hl]
  split <;> simp_all

end Loop

/-! ## Counting loops -/

section Emission

variable {b b' : Body} {e : Emitter} {n k l : Nat}
  {ss front back start body step test : List Step}
variable {x : Step}

/-- Instructions for steps, with labels from one on. -/
abbrev Emitter.labelled (n : Nat) (ss : List Step) : List Instr :=
  Body.labelled { fresh := n } ss

theorem Emitter.labelled_append :
    Emitter.labelled n (front ++ back) =
      Emitter.labelled n front ++ Emitter.labelled (n + front.length) back := by
  rw [labelled, labelled, labelled, Body.labelled, Body.labelled, Body.labelled,
    List.mapIdx_append]
  have hlabel : ∀ k, n + (k + front.length) = n + front.length + k :=
    fun k => by omega
  simp only [hlabel]

theorem Emitter.labelled_cons :
    Emitter.labelled n (x :: ss) = ⟨n, x.1, x.2⟩ :: Emitter.labelled (n + 1)
      ss := by
  rw [labelled, labelled, Body.labelled, Body.labelled, List.mapIdx_cons]
  have hlabel : (fun k (s : Step) => Instr.mk (n + (k + 1)) s.1 s.2) =
      fun k s => ⟨n + 1 + k, s.1, s.2⟩ := by
    funext k s
    rw [Nat.add_right_comm n 1 k, Nat.add_assoc]
  rw [hlabel]
  rfl

/-- What an emitter holds: code for the steps with labels from `n` on, marks
before the next step, marks that are placed, and branches to marks. -/
structure Emitter.Holds (e : Emitter) (n : Nat) (ss : List Step)
    (marks : List EmitMark) (placed : List (EmitMark × Label))
    (branches : List (Label × EmitMark)) : Prop where
  code : e.code.toList = Emitter.labelled n ss
  fresh : e.fresh = n + ss.length
  pending : e.pending = marks
  placed : e.placed = placed
  branches : e.branches.toList = branches

namespace Emitter.Holds

variable {marks : List EmitMark} {placed : List (EmitMark × Label)}
variable {branches : List (Label × EmitMark)}

/-- Pending marks stand at the next step. -/
theorem emit (h : e.Holds n ss marks placed branches) (x : Step) :
    (e.emit x).Holds n (ss ++ [x]) [] (marks.map (·, n + ss.length) ++ placed)
      branches := by
  constructor
  case code =>
    show (e.code.push ⟨e.fresh, x.1, x.2⟩).toList = _
    rw [Array.toList_push, h.code, h.fresh, labelled_append, labelled_cons]
    rfl
  case fresh =>
    show e.fresh + 1 = _
    rw [h.fresh, List.length_append, List.length_singleton, Nat.add_assoc]
  case pending => rfl
  case placed =>
    show e.pending.map (·, e.fresh) ++ e.placed = _
    rw [h.pending, h.fresh, h.placed]
  case branches => exact h.branches

theorem emitAll_of_marked (h : e.Holds n ss [] placed branches)
    (more : List Step) :
    (e.emitAll more).Holds n (ss ++ more) [] placed branches := by
  induction more generalizing e ss with
  | nil => rwa [List.append_nil]
  | cons x more ih =>
    rw [← List.singleton_append, ← List.append_assoc]
    exact ih (h.emit x)

theorem emitAll (h : e.Holds n ss marks placed branches) {more : List Step}
    (hmore : more ≠ []) :
    (e.emitAll more).Holds n (ss ++ more) []
      (marks.map (·, n + ss.length) ++ placed) branches := by
  obtain ⟨x, more, rfl⟩ := List.exists_cons_of_ne_nil hmore
  rw [← List.singleton_append, ← List.append_assoc]
  exact (h.emit x).emitAll_of_marked more

theorem place (h : e.Holds n ss marks placed branches) (m : EmitMark) :
    (e.place m).Holds n ss (marks ++ [m]) placed branches :=
  { h with pending := congrArg (· ++ [m]) h.pending }

theorem branch (h : e.Holds n ss [] placed branches) (op : Opcode)
    (m : EmitMark) :
    (e.branch op m).Holds n (ss ++ [(op, .none)]) [] placed
      (branches ++ [(n + ss.length, m)]) := by
  have hmore : ({ e with branches := e.branches.push (e.fresh, m) } :
    Emitter).Holds n ss [] placed
      (branches ++ [(n + ss.length, m)]) := by
    refine { h with branches := ?_ }
    rw [Array.toList_push, h.branches, h.fresh]
  exact hmore.emit (op, .none)

end Emitter.Holds

/-- A branch is pointed at its target. -/
theorem Emitter.labelled_point :
    (Emitter.labelled n (front ++ x :: back)).map
        (fun i =>
          if i.label == n + front.length then { i with operand := .target l }
          else i) =
        Emitter.labelled n (front ++ (x.1, .target l) :: back) := by
  refine List.ext_getElem (by simp [labelled, Body.labelled]) fun k h₁ h₂ => ?_
  simp only [labelled, Body.labelled, List.getElem_map, List.getElem_mapIdx,
    beq_iff_eq, Nat.add_left_cancel_iff]
  obtain hk | rfl | hk := Nat.lt_trichotomy k front.length
  · rw [if_neg hk.ne, List.getElem_append_left hk, List.getElem_append_left hk]
  · simp
  · obtain ⟨j, rfl⟩ : ∃ j, k = front.length + (j + 1) :=
      ⟨k - front.length - 1, by omega⟩
    simp

/-- The code counts: what comes first is run once, then the test, and the body
and the test again as long as the test holds. -/
def Body.IsCountingLoop (b : Body) (start body test : List Step) : Prop :=
  ∃ top check, b.indexOf? top = some (start.length + 1) ∧
    b.indexOf? check = some (start.length + 1 + body.length) ∧
    b.steps = start ++ [(.br, .target check)] ++ body ++ test ++
      [(.brtrue, .target top), Step.ret]

theorem Body.indexOf?_of_labelled (h : b.code = Emitter.labelled n ss)
    (hk : k < ss.length) :
    b.indexOf? (n + k) = some k := by
  have hown : b.HasOwnLabels := by
    rw [HasOwnLabels, h, labels_labelled]
    exact List.nodup_range'
  refine hown.indexOf?_eq (i := ⟨n + k, ss[k].1, ss[k].2⟩) ?_
  simp [h, Emitter.labelled, labelled, hk]

theorem Emitter.Holds.point {marks : List EmitMark}
    {placed : List (EmitMark × Label)} {branches : List (Label × EmitMark)}
    (h : e.Holds n (front ++ x :: back) marks placed branches) :
    Emitter.Holds { e with code := e.code.map fun i =>
        if i.label == n + front.length then { i with operand := .target l }
          else i }
      n (front ++ (x.1, .target l) :: back) marks placed branches := by
  refine { h with code := ?_, fresh := ?_ }
  · rw [Array.toList_map, h.code, labelled_point]
  · rw [h.fresh]
    simp

theorem Emitter.pointBranches_cons {m : EmitMark}
    {rest : List (Label × EmitMark)} (h : e.labelOf? m = some l) :
    e.pointBranches ((k, m) :: rest) =
      pointBranches { e with code := e.code.map fun i =>
        if i.label == k then { i with operand := .target l } else i } rest := by
  rw [pointBranches, h]

/-- The emitter makes a counting loop. -/
theorem Emitter.isCountingLoop (hb : b.code = []) (hbody : body ≠ [])
    (htest : test ≠ [])
    (h : ((Planning.countingLoop (.forBody b) start body step test).emit
      Step.ret).appendTo b = .ok b') :
    b'.IsCountingLoop start (body ++ step) test ∧ b'.locals = b.locals := by
  let top : EmitMark := ⟨0, 1⟩
  let check : EmitMark := ⟨1, 2⟩
  obtain ⟨e, he⟩ : ∃ e, (Planning.countingLoop (.forBody b) start body step
      test).emit Step.ret = e :=
    ⟨_, rfl⟩
  let loop := body ++ step
  let back := [(.brtrue, .none), Step.ret]
  let jump := b.fresh + start.length
  let exit := jump + (loop.length + (test.length + 1))
  let placed := [(check, jump + (loop.length + 1)), (top, jump + 1)]
  have hemitted : e.Holds b.fresh
    (start ++ (.br, .none) :: (loop ++ test ++ back)) [] placed
      [(jump, check), (exit, top)] := by
    have hstart : Emitter.Holds (newMark (newMark (forBody b)).1).1 b.fresh []
        [] [] [] :=
      ⟨rfl, rfl, rfl, rfl, rfl⟩
    have hloop : ((Planning.countingLoop (.forBody b) start body step test).emit
      Step.ret).Holds
        _ _ _ _ _ :=
          (((((((hstart.emitAll_of_marked start).branch .br check).place
            top).emitAll
      (List.append_ne_nil_of_left_ne_nil hbody step)).place check).emitAll
        htest).branch .brtrue top).emit Step.ret
    rw [← he]
    simpa [jump, exit, placed, loop, back, Nat.add_assoc] using hloop
  have hcheck : ∀ e' : Emitter, e'.placed = placed →
      e'.labelOf? check = some (jump + (loop.length + 1)) := by
    intro e' hplaced
    rw [labelOf?, hplaced]
    rfl
  have htop : ∀ e' : Emitter, e'.placed = placed →
      e'.labelOf? top = some (jump + 1) := by
    intro e' hplaced
    rw [labelOf?, hplaced]
    rfl
  -- both branches are pointed at their targets
  let code := start ++ (.br, .target (jump + (loop.length + 1))) ::
    (loop ++ test) ++ (.brtrue, .target (jump + 1)) :: [Step.ret]
  have hcode : e.finish.2 = .ok (Emitter.labelled b.fresh code) := by
    have hjump := hemitted.point (l := jump + (loop.length + 1))
    have hsteps : start ++ (.br, .target (jump + (loop.length + 1))) ::
      (loop ++ test ++ back) =
        (start ++ (.br, .target (jump + (loop.length + 1))) ::
          (loop ++ test)) ++ (.brtrue, .none) :: [Step.ret] := by
      simp [back]
    rw [hsteps] at hjump
    have hexit := hjump.point (l := jump + 1)
    have hlength : b.fresh + (start ++
      (.br, .target (jump + (loop.length + 1))) ::
        (loop ++ test)).length = exit := by
      simp [jump, exit, Nat.add_assoc]
    rw [hlength] at hexit
    rw [finish, hemitted.branches,
      pointBranches_cons (hcheck _ hemitted.placed),
      pointBranches_cons (htop _ hjump.placed), pointBranches]
    simp only
    rw [hexit.pending, hexit.code]
  have hb' : b' = b.append (Emitter.labelled b.fresh code) := by
    rw [he, appendTo, hcode] at h
    exact (Except.ok.inj h).symm
  have hlabelled : b'.code = Emitter.labelled b.fresh code := by
    rw [hb', Body.append]
    exact (congrArg (· ++ _) hb).trans (List.nil_append _)
  have hsteps : b'.steps = code := by
    rw [Body.steps, hlabelled]
    exact Body.steps_labelled _ code
  refine ⟨⟨jump + 1, jump + (loop.length + 1), ?_, ?_, ?_⟩, hb' ▸ rfl⟩
  · rw [show jump + 1 = b.fresh + (start.length + 1) from Nat.add_assoc ..]
    refine Body.indexOf?_of_labelled hlabelled ?_
    simp [code]
  · have hposition : jump + (loop.length + 1) = b.fresh +
        (start.length + 1 + loop.length) := by
      rw [Nat.add_right_comm start.length 1, Nat.add_assoc start.length,
        ← Nat.add_assoc b.fresh]
    rw [hposition]
    refine Body.indexOf?_of_labelled hlabelled ?_
    simp [code]
    omega
  · rw [hsteps]
    simp [code, loop]

end Emission

/-! ## Arguments -/

/-- The parameters, each with the local variable of the loop that holds its
value: those that are passed by reference, and whose provider gives values, have
one of their own. -/
def Planning.temporaries : Nat → List Element → List (Element × Option Nat)
  | _, [] => []
  | n, e :: es =>
    if e.byRef && e.provider != .component then (e, some n) :: temporaries
      (n + 1) es
    else (e, none) :: temporaries n es

namespace Loop

open Planning

variable {E : Setting} {s : State} {i : Int32} {x : Element × Option Nat}
  {code : List Step}
variable {xs : List (Element × Option Nat)} {locals : Nat → Value} {e : Element}
  {es : List Element}
variable {n t : Nat}

/-- What follows the call that gives the value of a parameter. -/
def passing (e : Element) : Option Nat → List Step
  | some t => [.stloc (.slot t), .ldloca (.slot t)]
  | none =>
    if e.provider == .component && !e.byRef then [.ldobj e.valueType] else []

/-- The code pushes the argument for a parameter. -/
def IsArgumentCode (x : Element × Option Nat) (code : List Step) : Prop :=
  ∃ r : MethodRef, r.name = "For" ∧ r.params.length = 1 ∧
    code = [.ldarg 2, .ldflda x.1.runtimeField, .ldloc (.slot 1), .call r] ++
      passing x.1 x.2

/-- The argument for a parameter. -/
def argument (i : Int32) (x : Element × Option Nat) : Value :=
  match x.2 with
  | some t => .address t
  | none =>
    if x.1.provider == .component && !x.1.byRef then
      .loaded x.1.valueType (.element x.1.runtimeField i)
    else .element x.1.runtimeField i

/-- The local variables once the argument is pushed. -/
def hold (i : Int32) (locals : Nat → Value) (x : Element × Option Nat) :
    Nat → Value :=
  match x.2 with
  | some t => Function.update locals t (.element x.1.runtimeField i)
  | none => locals

theorem isAddress_argument (h : x.2 ≠ some t) :
    (argument i x).isAddress t = false := by
  obtain ⟨e, temp⟩ := x
  cases temp with
  | some t' => simpa [argument, Value.isAddress] using h
  | none =>
    simp only [argument]
    split <;> rfl

theorem exec_argument (h : IsArgumentCode x code)
    (hi : s.locals 1 = .number i) :
    s.exec E code =
      some { s with
        stack := argument i x :: s.stack, locals := hold i s.locals x } := by
  obtain ⟨r, hname, hparams, rfl⟩ := h
  obtain ⟨e, temp⟩ := x
  rw [State.exec_append]
  have hvalue : s.exec E [.ldarg 2, .ldflda e.runtimeField, .ldloc (.slot 1),
    .call r] =
      some (s.withStack (.element e.runtimeField i :: s.stack)) := by
    simp only [State.exec_cons, State.step?_runtimes, Option.bind_some]
    rw [State.step?_ldflda rfl, Option.bind_some, State.step?_ldloc,
      Option.bind_some, State.step?_for hname hparams (f := e.runtimeField)
        (i := i) (by rw [← hi]; rfl)]
    rfl
  rw [hvalue, Option.bind_some]
  cases temp with
  | some t =>
    rw [passing, State.exec_cons, State.step?_stloc rfl]
    rfl
  | none =>
    rw [passing]
    split
    · rename_i hload
      rw [State.exec_cons, State.step?_ldobj rfl]
      simp only [argument, hold, if_pos hload]
      rfl
    · rename_i hload
      simp only [argument, hold, if_neg hload]
      rfl

theorem exec_arguments {codes : List (List Step)}
    (h : List.Forall₂ IsArgumentCode xs codes) (hi : s.locals 1 = .number i)
    (hxs : ∀ x ∈ xs, x.2 ≠ some 1) :
    s.exec E codes.flatten =
      some { s with
        stack := (xs.map (argument i)).reverse ++ s.stack, locals :=
          xs.foldl (hold i) s.locals } := by
  induction h generalizing s with
  | nil => rfl
  | @cons x code xs codes hcode _ ih =>
    obtain ⟨hx, hxs⟩ := List.forall_mem_cons.1 hxs
    have hi' : hold i s.locals x 1 = .number i := by
      obtain ⟨e, temp⟩ := x
      cases temp with
      | some t =>
        exact (Function.update_of_ne (fun h => hx (congrArg some h.symm))
          _ _).trans hi
      | none => exact hi
    rw [List.flatten_cons, State.exec_append, exec_argument hcode hi,
      Option.bind_some, ih hi' hxs]
    simp

/-! The temporaries hold what was stored in them. -/

theorem foldl_hold_of_ne (h : ∀ x ∈ xs, x.2 ≠ some t) :
    xs.foldl (hold i) locals t = locals t := by
  induction xs generalizing locals with
  | nil => rfl
  | cons x xs ih =>
    obtain ⟨hx, hxs⟩ := List.forall_mem_cons.1 h
    rw [List.foldl_cons, ih hxs]
    obtain ⟨e, temp⟩ := x
    cases temp with
    | some t' =>
      exact Function.update_of_ne (fun h => hx (congrArg some h.symm)) _ _
    | none => rfl

theorem foldl_hold_of_mem (hnodup : (xs.filterMap (·.2)).Nodup)
    (h : (e, some t) ∈ xs) :
    xs.foldl (hold i) locals t = .element e.runtimeField i := by
  induction xs generalizing locals with
  | nil => cases h
  | cons x xs ih =>
    rw [List.foldl_cons]
    obtain rfl | h := List.mem_cons.1 h
    · have hnodup : (t :: xs.filterMap (·.2)).Nodup := hnodup
      have hnew := (List.nodup_cons.1 hnodup).1
      rw [foldl_hold_of_ne]
      · exact Function.update_self ..
      · intro x hx heq
        exact hnew (List.mem_filterMap.2 ⟨x, hx, heq⟩)
    · exact ih (hnodup.sublist ((List.sublist_cons_self x xs).filterMap _)) h

theorem map_fst_temporaries : (temporaries n es).map (·.1) = es := by
  induction es generalizing n with
  | nil => rfl
  | cons e es ih =>
    rw [temporaries]
    split <;> simp [ih]

theorem length_temporaries : (temporaries n es).length = es.length := by
  rw [← List.length_map, map_fst_temporaries]

theorem isSome_of_mem_temporaries (h : x ∈ temporaries n es) :
    x.2.isSome = (x.1.byRef && x.1.provider != .component) := by
  induction es generalizing n with
  | nil => cases h
  | cons e es ih =>
    rw [temporaries] at h
    split at h <;> obtain rfl | h := List.mem_cons.1 h
    all_goals first
      | exact ih h
      | simp_all

theorem le_of_mem_temporaries (h : x ∈ temporaries n es) (ht : x.2 = some t) :
    n ≤ t := by
  induction es generalizing n with
  | nil => cases h
  | cons e es ih =>
    rw [temporaries] at h
    split at h <;> obtain rfl | h := List.mem_cons.1 h
    · exact (Option.some.inj ht).le
    · exact Nat.le_of_succ_le (ih h)
    · cases ht
    · exact ih h

theorem nodup_temporaries : ((temporaries n es).filterMap (·.2)).Nodup := by
  induction es generalizing n with
  | nil => exact List.nodup_nil
  | cons e es ih =>
    rw [temporaries]
    split
    · show (n :: (temporaries (n + 1) es).filterMap (·.2)).Nodup
      refine List.nodup_cons.2 ⟨fun hn => ?_, ih⟩
      obtain ⟨x, hx, hxn⟩ := List.mem_filterMap.1 hn
      exact absurd (le_of_mem_temporaries hx hxn) (Nat.not_succ_le_self n)
    · show ((temporaries n es).filterMap (·.2)).Nodup
      exact ih

/-! ## Rounds -/

/-- The call gets for a parameter what its provider has for the entity at an
index: the reference to a component or the component itself, the address of a
local variable with the value, or the value. -/
def Call.Passes (c : Call) (i : Int32) (e : Element) (v : Value) : Prop :=
  if e.provider = .component then
    if e.byRef then v = .element e.runtimeField i
    else v = .loaded e.valueType (.element e.runtimeField i)
  else if e.byRef then ∃ t, v = .address t ∧
    c.locals t = .element e.runtimeField i
  else v = .element e.runtimeField i

/-- The method is the lambda as an instance method of the job, for as many
parameters. -/
structure IsLambda (r : MethodRef) (es : List Element) : Prop where
  /-- the name that it has there -/
  name : r.name = Planning.lambdaName
  /-- it is called on the job -/
  hasThis : r.hasThis = true
  /-- the parameters -/
  params : r.params.length = es.length

/-- The call is one of the method on the job, for the entity at an index. -/
structure Call.Serves (r : MethodRef) (es : List Element) (i : Nat) (c : Call) :
    Prop where
  /-- the method -/
  method : c.method = r
  /-- it is called on the job -/
  receiver : c.receiver = some .job
  /-- every parameter gets its value -/
  args : List.Forall₂ (c.Passes (Int32.ofNat i)) es c.args

/-- The code calls the method once for each entity, in order, and returns. -/
def Visits (E : Setting) (b : Body) (r : MethodRef)
    (es : List Element) : Prop :=
  ∃ s, Finishes E b 0 {} s ∧
    List.Forall₂ (Call.Serves r es) (List.range E.count) s.calls

end Loop

/-- The code before the rounds. -/
def Loop.start (getCount : MethodRef) : List Step :=
  [.ldarg 1, .call getCount, .stloc (.slot 0), .ldcI4 0, .stloc (.slot 1)]

/-- The code of the test. -/
def Loop.test : List Step :=
  [Step.ldloc (.slot 1), Step.ldloc (.slot 0), (.clt, .none)]

/-- The code of a round: it calls the method on the job and counts. -/
def Loop.round (r : MethodRef) (args : List Step) : List Step :=
  ([Step.ldarg 0] ++ args ++ [Step.call r]) ++
    [Step.ldloc (.slot 1), Step.ldcI4 1, (.add, .none), Step.stloc (.slot 1)]

/-- The code is a loop over the entities of a chunk that calls the method. -/
def Body.IsEntityLoop (b : Body) (r : MethodRef) (es : List Element) : Prop :=
  ∃ (getCount : MethodRef) (codes : List (List Step)),
    getCount.name = "get_Count" ∧ getCount.params.length = 0 ∧
    List.Forall₂ Loop.IsArgumentCode (Planning.temporaries 2 es) codes ∧
    b.IsCountingLoop (Loop.start getCount) (Loop.round r codes.flatten)
      Loop.test

namespace Loop

open Planning

variable {E : Setting} {b : Body} {s : State} {r : MethodRef}
  {es : List Element} {n i : Nat}
variable {codes : List (List Step)} {k : Nat}

theorem IsLambda.ne_getCount (h : IsLambda r es) : r.name ≠ "get_Count" := by
  rw [h.name]
  decide

theorem IsLambda.ne_for (h : IsLambda r es) : r.name ≠ "For" := by
  rw [h.name]
  decide

/-- A call takes the arguments and the instance from the stack. -/
theorem call?_eq {values stack : List Value}
    (h : s.stack = values.reverse ++ .job :: stack)
    (hthis : r.hasThis = true) (hlength : values.length = r.params.length) :
    s.call? E r = some (s.called E ⟨r, some .job, values, s.locals⟩ stack) := by
  have htake : (s.stack.take r.params.length).reverse = values := by
    rw [h, ← hlength, ← List.length_reverse, List.take_left,
      List.reverse_reverse]
  have hdrop : s.stack.drop r.params.length = .job :: stack := by
    rw [h, ← hlength, ← List.length_reverse, List.drop_left]
  rw [State.call?]
  simp only [htake, hdrop, hthis]

/-- The arguments are what the parameters get. -/
theorem passes_argument {c : Call} {locals : Nat → Value} {v : Int32}
    {x : Element × Option Nat}
    (hlocals : c.locals = (temporaries 2 es).foldl (hold v) locals)
    (hx : x ∈ temporaries 2 es) : c.Passes v x.1 (argument v x) := by
  have hsome := isSome_of_mem_temporaries hx
  obtain ⟨e, temp⟩ := x
  rw [Call.Passes]
  cases temp with
  | some t =>
    simp only [Option.isSome_some, Bool.true_eq, Bool.and_eq_true, bne_iff_ne]
      at hsome
    rw [if_neg hsome.2, if_pos hsome.1]
    exact ⟨t, rfl, hlocals ▸ foldl_hold_of_mem nodup_temporaries hx⟩
  | none =>
    simp only [Option.isSome_none, Bool.false_eq, Bool.and_eq_false_iff,
      bne_eq_false_iff_eq] at hsome
    cases hprovider : decide (e.provider = .component) <;>
      cases hbyRef : e.byRef <;> simp_all [argument]

/-- The index is counted up. -/
theorem exec_increment {v : Int32} (h : s.locals 1 = .number v) :
    s.exec E [Step.ldloc (.slot 1), Step.ldcI4 1, (.add, .none),
        Step.stloc (.slot 1)] =
        some { s with
          locals := Function.update s.locals 1 (.number (v + 1)) } := by
  simp only [State.exec_cons, State.step?_ldloc, h, Option.bind_some,
    State.step?_ldcI4]
  rfl

/-- One round calls the method for the entity at the index and counts. -/
theorem exec_round
    (hcodes : List.Forall₂ IsArgumentCode (temporaries 2 es) codes)
    (hr : IsLambda r es) {v : Value} (h₀ : s.locals 0 = v)
    (h₁ : s.locals 1 = .number (Int32.ofNat i)) :
    ∃ s' c, s.exec E (round r codes.flatten) = some s' ∧ Call.Serves r es i c ∧
      s'.calls = s.calls ++ [c] ∧ s'.locals 0 = v ∧
      s'.locals 1 = .number (Int32.ofNat (i + 1)) := by
  let xs := temporaries 2 es
  let values := xs.map (argument (Int32.ofNat i))
  let held := xs.foldl (hold (Int32.ofNat i)) s.locals
  have hslot : ∀ t < 2, ∀ x ∈ xs, x.2 ≠ some t := by
    intro t ht x hx heq
    exact absurd (le_of_mem_temporaries hx heq) (Nat.not_le.2 ht)
  let c : Call := ⟨r, some .job, values, held⟩
  -- the call leaves the first two local variables alone
  have haddress : ∀ t < 2, c.args.any (·.isAddress t) = false := by
    intro t ht
    refine List.any_eq_false.2 fun w hw => ?_
    obtain ⟨x, hx, rfl⟩ := List.mem_map.1 hw
    rw [isAddress_argument (hslot t ht x hx)]
    exact Bool.false_ne_true
  let s₁ : State :=
    { s with stack := values.reverse ++ .job :: s.stack, locals := held }
  have hargs : s.exec E ([.ldarg 0] ++ codes.flatten) = some s₁ := by
    have hload : s.exec E [.ldarg 0] = some (s.withStack (.job :: s.stack)) :=
      rfl
    rw [State.exec_append, hload]
    exact exec_arguments hcodes h₁ (hslot 1 (by decide))
  have hlength : values.length = r.params.length := by
    rw [hr.params, List.length_map, length_temporaries]
  have hcall : s₁.call? E r = some (s₁.called E c s.stack) :=
    call?_eq rfl hr.hasThis hlength
  have hzero : (s₁.called E c s.stack).locals 0 = v := by
    simp only [State.called, haddress 0 (by decide), Bool.false_eq_true,
      if_false]
    exact (foldl_hold_of_ne (hslot 0 (by decide))).trans h₀
  have hone : (s₁.called E c s.stack).locals 1 = .number (Int32.ofNat i) := by
    simp only [State.called, haddress 1 (by decide), Bool.false_eq_true,
      if_false]
    exact (foldl_hold_of_ne (hslot 1 (by decide))).trans h₁
  have hround : s.exec E (round r codes.flatten) =
      some { s₁.called E c s.stack with
        locals := Function.update (s₁.called E c s.stack).locals 1
            (.number (Int32.ofNat i + 1)) } := by
    rw [round, State.exec_append, State.exec_append, hargs, Option.bind_some,
      State.exec_cons, State.step?_call hr.ne_getCount hr.ne_for, hcall,
      Option.bind_some, State.exec_nil, Option.bind_some, exec_increment hone]
  have hpasses : List.Forall₂ (c.Passes (Int32.ofNat i)) es values := by
    have hes : xs.map (·.1) = es := map_fst_temporaries
    rw [← hes, List.forall₂_map_left_iff, List.forall₂_map_right_iff,
      List.forall₂_same]
    exact fun x hx => passes_argument rfl hx
  refine ⟨_, c, hround, ⟨rfl, rfl, hpasses⟩, rfl, ?_, ?_⟩
  · show Function.update (s₁.called E c s.stack).locals 1
      (.number (Int32.ofNat i + 1)) 0 = v
    rw [Function.update_of_ne (by decide), hzero]
  · show Function.update (s₁.called E c s.stack).locals 1
      (.number (Int32.ofNat i + 1)) 1 = _
    rw [Function.update_self, Int32.ofNat_add]
    rfl

/-! ## All rounds -/

/-- The test compares the index with the number of entities. -/
theorem exec_test {v w : Int32} (h₀ : s.locals 0 = .number w)
    (h₁ : s.locals 1 = .number v) :
    s.exec E test = some (s.withStack (.number (if v < w then 1 else 0) ::
      s.stack)) := by
  have hload : (s.withStack (.number v :: s.stack)).locals 0 = .number w := h₀
  simp only [test, State.exec_cons, State.step?_ldloc, h₁, hload,
    Option.bind_some]
  rfl

theorem ofNat_lt_ofNat_iff {m n : Nat} (hm : m < 2 ^ 31) (hn : n < 2 ^ 31) :
    Int32.ofNat m < Int32.ofNat n ↔ m < n := by
  rw [Int32.lt_iff_toInt_lt, Int32.toInt_ofNat_of_lt hm,
    Int32.toInt_ofNat_of_lt hn, Int.ofNat_lt]

section Counting

variable {front body : List Step} {top : Label} {t : State}
  (hn : E.count < 2 ^ 31)
variable (hi : i ≤ E.count) (htop : b.indexOf? top = some k)
variable (hb : b.steps = front ++ test ++ [(.brtrue, .target top), Step.ret])
variable (h₀ : s.locals 0 = .number (Int32.ofNat E.count))
variable (h₁ : s.locals 1 = .number (Int32.ofNat i))

include hn htop hb h₀ h₁

/-- The test starts a round while there are more entities. -/
theorem finishes_test_of_lt (hi : i < E.count) (h : Finishes E b k s t) :
    Finishes E b front.length s t := by
  have hnext : b.steps[front.length + test.length]? = some (.brtrue,
      .target top) := by
    rw [hb, ← List.length_append]
    simp
  have hvalue : (if Int32.ofNat i < Int32.ofNat E.count then (1 : Int32)
      else 0) = 1 :=
    if_pos ((ofNat_lt_ofNat_iff (by omega) hn).2 hi)
  refine finishes_steps hb (exec_test h₀ h₁) (finishes_brtrue hnext htop rfl ?_)
  rw [hvalue, if_neg (by decide)]
  exact h

/-- The test ends the loop when every entity was visited. -/
theorem finishes_test_of_eq (hi : i = E.count) :
    Finishes E b front.length s s := by
  have hnext : b.steps[front.length + test.length]? = some (.brtrue,
      .target top) := by
    rw [hb, ← List.length_append]
    simp
  have hlast : b.steps[front.length + test.length + 1]? = some Step.ret := by
    rw [hb, List.getElem?_append_right (by simp)]
    simp
  have hvalue : (if Int32.ofNat i < Int32.ofNat E.count then (1 : Int32)
      else 0) = 0 :=
    if_neg fun hlt => absurd ((ofNat_lt_ofNat_iff (by omega) hn).1 hlt)
      (by omega)
  refine finishes_steps hb (exec_test h₀ h₁) (finishes_brtrue hnext htop rfl ?_)
  rw [hvalue, if_pos rfl]
  exact finishes_ret hlast

end Counting

/-- From the test on, the entities that are left are visited in order. -/
theorem finishes_rounds {getCount : MethodRef} {top check : Label}
    (hcodes : List.Forall₂ IsArgumentCode (temporaries 2 es) codes)
    (hr : IsLambda r es) (hn : E.count < 2 ^ 31)
    (htop : b.indexOf? top = some ((start getCount).length + 1))
    (hb : b.steps = start getCount ++ [(Opcode.br, Operand.target check)] ++
      round r codes.flatten ++ test ++ [(Opcode.brtrue, Operand.target top),
        Step.ret])
    (h₀ : s.locals 0 = .number (Int32.ofNat E.count))
    (h₁ : s.locals 1 = .number (Int32.ofNat i)) (hi : i + k = E.count) :
    ∃ t cs, Finishes E b ((start getCount).length + 1 +
      (round r codes.flatten).length) s t ∧ t.calls = s.calls ++ cs ∧
      List.Forall₂ (Call.Serves r es) (List.range' i k) cs := by
  have hlength : (start getCount ++ [(Opcode.br, Operand.target check)] ++
      round r codes.flatten).length =
        (start getCount).length + 1 + (round r codes.flatten).length := by
    rw [List.length_append, List.length_append, List.length_singleton]
  rw [← hlength]
  induction k generalizing i s with
  | zero =>
    refine ⟨s, [], finishes_test_of_eq hn htop hb h₀ h₁ hi,
      (List.append_nil _).symm, ?_⟩
    exact .nil
  | succ k ih =>
    obtain ⟨s', c, hround, hserves, hcalls, h₀', h₁'⟩ :=
      exec_round (E := E) hcodes hr h₀ h₁
    obtain ⟨t, cs, hrun, hrest, hall⟩ := ih h₀' h₁' (by omega)
    refine ⟨t, c :: cs, finishes_test_of_lt hn htop hb h₀ h₁ (by omega) ?_, ?_,
      ?_⟩
    · -- a round leads back to the test
      have hsteps : b.steps = (start getCount ++
        [(Opcode.br, Operand.target check)]) ++
          round r codes.flatten ++
          (test ++ [(Opcode.brtrue, Operand.target top), Step.ret]) := by
        rw [hb, List.append_assoc, List.append_assoc]
      exact finishes_steps hsteps hround (by rwa [List.length_append] at hrun)
    · rw [hrest, hcalls, List.append_assoc]
      rfl
    · rw [List.range'_succ]
      exact .cons hserves hall

/-- The number of entities is read, and the index starts at zero. -/
theorem exec_start {getCount : MethodRef} (hname : getCount.name = "get_Count")
    (hparams : getCount.params.length = 0) :
    ∃ s', ({} : State).exec E (start getCount) = some s' ∧ s'.calls = [] ∧
      s'.locals 0 = .number (Int32.ofNat E.count) ∧
      s'.locals 1 = .number (Int32.ofNat 0) := by
  let locals : Nat → Value :=
    Function.update (fun _ => .other) 0 (.number (Int32.ofNat E.count))
  have hstart : ({} : State).exec E (start getCount) =
      some { locals := Function.update locals 1 (.number 0) } := by
    simp only [start, State.exec_cons, State.step?_chunk, Option.bind_some]
    rw [State.step?_getCount hname hparams rfl, Option.bind_some,
      State.step?_stloc rfl, Option.bind_some, State.step?_ldcI4,
      Option.bind_some, State.step?_stloc rfl]
    rfl
  refine ⟨_, hstart, rfl, ?_, ?_⟩
  · show Function.update locals 1 (.number 0) 0 = _
    rw [Function.update_of_ne (by decide)]
    exact Function.update_self ..
  · show Function.update locals 1 (.number 0) 1 = _
    rw [Function.update_self]
    rfl

end Loop

/-- A loop over entities visits each of them once, in order, and ends. -/
theorem Body.IsEntityLoop.visits {b : Body} {r : MethodRef} {es : List Element}
    (h : b.IsEntityLoop r es) (hr : Loop.IsLambda r es) {E : Loop.Setting}
    (hn : E.count < 2 ^ 31) : Loop.Visits E b r es := by
  obtain ⟨getCount, codes, hget, hnone, hcodes, top, check, htop, hcheck, hb⟩ :=
    h
  obtain ⟨s, hstart, hcalls, h₀, h₁⟩ := Loop.exec_start (E := E) hget hnone
  obtain ⟨t, cs, hrun, hrest, hall⟩ :=
    Loop.finishes_rounds hcodes hr hn htop hb h₀ h₁ (Nat.zero_add _)
  refine ⟨t, ?_, ?_⟩
  · have hsteps : b.steps = [] ++ Loop.start getCount ++
      ((.br, .target check) ::
        (Loop.round r codes.flatten ++ Loop.test ++ [(.brtrue, .target top),
          Step.ret])) := by
      rw [hb]
      simp
    refine Loop.finishes_steps hsteps hstart (Loop.finishes_br ?_ hcheck hrun)
    rw [hsteps]
    simp
  · rw [hrest, hcalls, List.range_eq_range']
    exact hall

end JobWeave
