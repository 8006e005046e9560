import Mathlib
import JobWeave.Plan.Query

/-!
# A machine for the code that makes queries

The code that a plan gives the creation hook makes objects of the framework,
fills them and hands them to the system.  `QueryState.run` runs the code on a
machine with a stack, a heap and the fields of the system.  It knows the members
of the framework that the code uses by their names.

A description of a query lists components in its parts.  `QueryState.listed?`
reads a part of one from the heap, and `QueryState.description?` finds the
description that the query in a field of the system was made from.

The code is made of pieces, and each piece has one lemma: `run_arrayCode` for an
array of components, `FillsPart` for a part of a description and `run_queryCode`
for the whole.
-/

namespace JobWeave

/-! ## The machine -/

/-- A value on the stack, in an array or in a field. -/
inductive QueryValue where
  | null
  /-- the system that is created -/
  | system
  | number (n : Int32)
  | component (item : QueryItem)
  /-- an object on the heap -/
  | address (l : Nat)
  /-- the query made from the descriptions in an array -/
  | query (descriptions : Nat)
  deriving Repr, Inhabited

/-- An object on the heap. -/
inductive QueryObject where
  | array (entries : List QueryValue)
  /-- an object with fields, of which those that were set are listed -/
  | record (fields : List (String × QueryValue))
  deriving Repr, Inhabited

/-- A state of the machine. -/
structure QueryState where
  /-- the stack, its top first -/
  stack : List QueryValue := []
  /-- the heap -/
  heap : List QueryObject := []
  /-- the fields of the system, those set last first -/
  fields : List (String × QueryValue) := []
  deriving Repr, Inhabited

/-- The component that a call of a library method gives. -/
def MethodRef.componentMade? (r : MethodRef) : Option QueryItem :=
  match r.params, r.typeArgs with
  | [], [t] =>
    if r.name = "ReadOnly" then some ⟨t, true⟩
    else if r.name = "ReadWrite" then some ⟨t, false⟩
    else none
  | _, _ => none

/-- The component that a value is. -/
def QueryValue.item? : QueryValue → Option QueryItem
  | component item => some item
  | _ => none

namespace QueryState

/-- The state with other values on the stack. -/
def withStack (s : QueryState) (stack : List QueryValue) : QueryState :=
  { s with stack }

/-- Puts an object on the heap and its address on the stack. -/
def allocate (s : QueryState) (o : QueryObject) (stack : List QueryValue) :
    QueryState :=
  { s with heap := s.heap ++ [o], stack := .address s.heap.length :: stack }

/-- Sets an entry of an array. -/
def setEntry (s : QueryState) (l : Nat) (i : Int32) (v : QueryValue)
    (stack : List QueryValue) : Option QueryState :=
  match s.heap[l]? with
  | some (.array entries) =>
    if 0 ≤ i.toInt ∧ i.toInt < entries.length then
      some { s with
        heap := s.heap.set l (.array (entries.set i.toInt.toNat v)), stack }
    else none
  | _ => none

/-- Sets a field of an object. -/
def setField (s : QueryState) (l : Nat) (name : String) (v : QueryValue)
    (stack : List QueryValue) : Option QueryState :=
  match s.heap[l]? with
  | some (.record fields) =>
    some { s with heap := s.heap.set l (.record ((name, v) :: fields)), stack }
  | _ => none

/-- One step; there is none for code that makes no query. -/
def step (s : QueryState) : Step → Option QueryState
  | (.ldarg, .arg 0) => some (s.withStack (.system :: s.stack))
  | (.ldcI4, .int32 v) => some (s.withStack (.number v :: s.stack))
  | (.dup, .none) =>
    match s.stack with
    | v :: stack => some (s.withStack (v :: v :: stack))
    | _ => none
  | (.newarr, .type _) =>
    match s.stack with
    | .number n :: stack =>
      if 0 ≤ n.toInt then
        some (s.allocate (.array (List.replicate n.toInt.toNat .null)) stack)
      else none
    | _ => none
  | (.newobj, .method (some r)) =>
    if r.params = [] then some (s.allocate (.record []) s.stack) else none
  | (.stelem, .type _) | (.stelemRef, .none) =>
    match s.stack with
    | v :: .number i :: .address l :: stack => s.setEntry l i v stack
    | _ => none
  | (.stfld, .field (some f)) =>
    match s.stack with
    | v :: .address l :: stack => s.setField l f.name v stack
    | v :: .system :: stack =>
      some { s with fields := (f.name, v) :: s.fields, stack }
    | _ => none
  | (.ldfld, .field (some f)) =>
    match s.stack with
    | .system :: stack => do
      let v ← s.fields.lookup f.name
      return s.withStack (v :: stack)
    | _ => none
  | (.call, .method (some r)) =>
    match r.componentMade? with
    | some item => some (s.withStack (.component item :: s.stack))
    | none =>
      match s.stack with
      | .address l :: .system :: stack =>
        if r.name = "GetEntityQuery" ∧ r.params.length = 1 then
          some (s.withStack (.query l :: stack))
        else none
      | _ => none
  -- the components whose changes a query looks for are no part of its
  -- description
  | (.callvirt, .method (some r)) =>
    match s.stack with
    | .address _ :: .query _ :: stack =>
      if r.name = "SetChangedVersionFilter" ∧
        r.params.length = 1 then some (s.withStack stack)
      else none
    | _ => none
  | _ => none

/-- Runs code. -/
def run (s : QueryState) (code : List Step) : Option QueryState :=
  code.foldlM step s

/-- The components in the array that a value is the address of. -/
def listing? (heap : List QueryObject) : QueryValue → Option (List QueryItem)
  | .address l =>
    match heap[l]? with
    | some (.array entries) => entries.mapM QueryValue.item?
    | _ => none
  | _ => none

/-- The components that a part of a description lists; a part that was not set
lists none. -/
def listed? (s : QueryState) (d : Nat) (part : String) :
    Option (List QueryItem) :=
  match s.heap[d]? with
  | some (.record fields) =>
    match fields.lookup part with
    | none => some []
    | some v => listing? s.heap v
  | _ => none

/-- The description that the query in a field of the system was made from. -/
def description? (s : QueryState) (field : String) : Option Nat :=
  match s.fields.lookup field with
  | some (.query l) =>
    match s.heap[l]? with
    | some (.array [.address d]) => some d
    | _ => none
  | _ => none

variable {s s' : QueryState} {code more : List Step}

@[simp]
theorem run_nil : s.run [] = some s :=
  rfl

@[simp]
theorem run_cons {x : Step} :
    s.run (x :: code) = (s.step x).bind (·.run code) :=
  rfl

theorem run_append : s.run (code ++ more) = (s.run code).bind (·.run more) :=
  List.foldlM_append

/-! ## Steps -/

@[simp]
theorem step_ldarg :
    s.step (.ldarg 0) = some (s.withStack (.system :: s.stack)) :=
  rfl

@[simp]
theorem step_ldcI4 (v : Int32) :
    s.step (.ldcI4 v) = some (s.withStack (.number v :: s.stack)) :=
  rfl

@[simp]
theorem withStack_stack (stack : List QueryValue) :
    (s.withStack stack).stack = stack :=
  rfl

@[simp]
theorem withStack_heap (stack : List QueryValue) :
    (s.withStack stack).heap = s.heap :=
  rfl

@[simp]
theorem withStack_fields (stack : List QueryValue) :
    (s.withStack stack).fields = s.fields :=
  rfl

@[simp]
theorem withStack_withStack (stack stack' : List QueryValue) :
    (s.withStack stack).withStack stack' = s.withStack stack' :=
  rfl

@[simp]
theorem setEntry_withStack (stack stack' : List QueryValue) (l : Nat)
    (i : Int32) (v : QueryValue) :
    (s.withStack stack).setEntry l i v stack' = s.setEntry l i v stack' :=
  rfl

@[simp]
theorem setField_withStack (stack stack' : List QueryValue) (l : Nat)
    (name : String) (v : QueryValue) :
    (s.withStack stack).setField l name v stack' = s.setField l name v stack' :=
  rfl

theorem step_dup {v : QueryValue} {stack : List QueryValue}
    (h : s.stack = v :: stack) :
    s.step .dup = some (s.withStack (v :: v :: stack)) := by
  simp [step, Step.dup, h]

theorem step_newobj {r : MethodRef} (h : r.params = []) :
    s.step (.newobj r) = some (s.allocate (.record []) s.stack) := by
  simp [step, Step.newobj, h]

/-- Lengths of lists fit the numbers of the machine. -/
theorem toInt_ofNat {n : Nat} (h : n < 2 ^ 31) : (Int32.ofNat n).toInt = n :=
  Int32.toInt_ofNat_of_lt h

theorem step_newarr {t : TypeRef} {n : Nat} {stack : List QueryValue}
    (hn : n < 2 ^ 31) (h : s.stack = .number (Int32.ofNat n) :: stack) :
    s.step (.newarr t) = some (s.allocate (.array (List.replicate n .null))
      stack) := by
  simp [step, Step.newarr, h, toInt_ofNat hn]

theorem step_stelem {t : TypeRef} {v : QueryValue} {i : Int32} {l : Nat}
    {stack : List QueryValue}
    (h : s.stack = v :: .number i :: .address l :: stack) :
    s.step (.stelem t) = s.setEntry l i v stack := by
  simp [step, Step.stelem, h]

theorem step_stelemRef {v : QueryValue} {i : Int32} {l : Nat}
    {stack : List QueryValue}
    (h : s.stack = v :: .number i :: .address l :: stack) :
    s.step .stelemRef = s.setEntry l i v stack := by
  simp [step, Step.stelemRef, h]

theorem setEntry_eq {l i : Nat} {v : QueryValue}
    {entries stack : List QueryValue} (hi : i < 2 ^ 31)
    (hlt : i < entries.length) (hl : s.heap[l]? = some (.array entries)) :
    s.setEntry l (Int32.ofNat i) v stack =
      some { s with
        heap := s.heap.set l (.array (entries.set i v)), stack } := by
  simp [setEntry, hl, toInt_ofNat hi, hlt]

/-! ## Arrays of components -/

/-- The code puts a component into an array. -/
def IsEntry (item : QueryItem) (i : Nat) (code : List Step) : Prop :=
  ∃ (r : MethodRef) (t : TypeRef), r.componentMade? = some item ∧
    code = [.dup, .ldcI4 (Int32.ofNat i), .call r, .stelem t]

theorem run_entry {item : QueryItem} {i l : Nat}
    {entries stack : List QueryValue} (hcode : IsEntry item i code)
    (hi : i < 2 ^ 31) (hlt : i < entries.length)
    (hl : s.heap[l]? = some (.array entries))
    (hstack : s.stack = .address l :: stack) :
    s.run code =
      some { s with
        heap := s.heap.set l (.array (entries.set i (.component item))) } := by
  obtain ⟨r, t, hr, rfl⟩ := hcode
  have hcall : ∀ s : QueryState,
      s.step (.call r) = some (s.withStack (.component item :: s.stack)) := by
    intro s
    simp [step, Step.call, hr]
  simp only [run_cons, step_dup hstack, step_ldcI4, hcall, withStack_withStack,
    withStack_stack, Option.bind_some, run_nil]
  rw [step_stelem rfl, setEntry_withStack, setEntry_eq hi hlt hl, hstack]
  rfl

/-- The entries that are left get their components. -/
theorem run_entries {items : List QueryItem} {parts : List (List Step)}
    {done : Nat} {l : Nat} {front stack : List QueryValue}
    (hparts : List.Forall₂ (fun x code => IsEntry x.1 x.2 code)
      (items.zipIdx done) parts)
    (hn : done + items.length ≤ 2 ^ 31) (hfront : front.length = done)
    (hl : s.heap[l]? = some (.array (front ++ List.replicate items.length
      .null)))
    (hstack : s.stack = .address l :: stack) :
    s.run parts.flatten =
      some { s with
        heap := s.heap.set l (.array (front ++ items.map .component)) } := by
  induction items generalizing s parts done front with
  | nil =>
    obtain rfl : parts = [] := by simpa using hparts
    obtain ⟨hlt, hget⟩ := List.getElem?_eq_some_iff.1 hl
    simp only [List.length_nil, List.replicate_zero] at hget
    rw [List.flatten_nil, run_nil, List.map_nil, ← hget, List.set_getElem_self]
  | cons item items ih =>
    rw [List.zipIdx_cons] at hparts
    obtain ⟨code, parts, hcode, hrest, rfl⟩ :=
      List.forall₂_cons_left_iff.1 hparts
    simp only [List.length_cons] at hn hl
    have hset : (front ++ List.replicate (items.length + 1) QueryValue.null).set
      done (.component item) =
        front ++ [.component item] ++ List.replicate items.length
          QueryValue.null := by
      subst hfront
      simp [List.replicate_succ]
    have hlt : l < s.heap.length := (List.getElem?_eq_some_iff.1 hl).1
    rw [List.flatten_cons, run_append,
      run_entry hcode (by omega) (by simp [hfront]) hl hstack,
      Option.bind_some, hset]
    let after : QueryState := { s with
      heap := s.heap.set l
        (.array (front ++ [.component item] ++ List.replicate items.length
          .null)) }
    have hafter : after.heap[l]? =
        some (.array (front ++ [.component item] ++ List.replicate items.length
          .null)) :=
      List.getElem?_set_self hlt
    have hrun := ih hrest (by omega) (by simp [hfront]) hafter hstack
    simp only [after, List.set_set] at hrun
    simpa using hrun

/-- The code makes an array of components. -/
def IsArrayCode (items : List QueryItem) (code : List Step) : Prop :=
  ∃ (t : TypeRef) (parts : List (List Step)),
    List.Forall₂ (fun x code => IsEntry x.1 x.2 code) items.zipIdx parts ∧
      code = [.ldcI4 (Int32.ofNat items.length), .newarr t] ++ parts.flatten

theorem run_arrayCode {items : List QueryItem} (hcode : IsArrayCode items code)
    (hn : items.length < 2 ^ 31) :
    s.run code = some (s.allocate (.array (items.map .component)) s.stack) := by
  obtain ⟨t, parts, hparts, rfl⟩ := hcode
  rw [run_append, run_cons, step_ldcI4, Option.bind_some, run_cons,
    step_newarr hn rfl, Option.bind_some, run_nil, Option.bind_some]
  let start :=
    (s.withStack (.number (Int32.ofNat items.length) :: s.stack)).allocate
    (.array (List.replicate items.length .null)) s.stack
  have hnew : start.heap[s.heap.length]? =
      some (.array ([] ++ List.replicate items.length .null)) := by
    simp [start, allocate]
  have hrun := run_entries hparts (by omega) rfl hnew rfl
  rw [show (s.withStack (.number (Int32.ofNat items.length) ::
    s.stack)).allocate (.array (List.replicate items.length .null)) s.stack =
      start from rfl, hrun]
  simp [start, allocate, withStack]

/-! ## Parts of a description -/

/-- All arrays stay on the heap as they are. -/
def Retains (s s' : QueryState) : Prop :=
  ∀ (l : Nat) entries, s.heap[l]? = some (QueryObject.array entries) →
    s'.heap[l]? = some (.array entries)

/-- What an address lists stays so. -/
theorem Retains.listing? (h : s.Retains s') {v : QueryValue}
    {items : List QueryItem} (hv : QueryState.listing? s.heap v = some items) :
    QueryState.listing? s'.heap v = some items := by
  unfold QueryState.listing? at hv
  split at hv
  · split at hv
    · rename_i hl
      simpa only [QueryState.listing?, h _ _ hl] using hv
    · cases hv
  · cases hv

/-- A description gets a part; its other parts and all arrays stay, and so does
the stack. -/
structure FillsPart (d : Nat) (part : String) (listed : Option (List QueryItem))
    (s s' : QueryState) : Prop where
  /-- the stack -/
  stack : s'.stack = s.stack
  /-- the fields of the system -/
  fields : s'.fields = s.fields
  /-- the part -/
  filled : s'.listed? d part = listed
  /-- the other parts -/
  others : ∀ p ≠ part, ∀ items, s.listed? d p = some items →
    s'.listed? d p = some items
  /-- the arrays -/
  retains : s.Retains s'

/-- An object that lists components has fields. -/
theorem exists_record {d : Nat} {part : String} {items : List QueryItem}
    (h : s.listed? d part = some items) :
    ∃ fields, s.heap[d]? = some (.record fields) := by
  unfold listed? at h
  split at h
  · exact ⟨_, ‹_›⟩
  · cases h

/-- One field of a description is set, where more objects may have come to the
heap. -/
theorem fillsPart_set {d : Nat} {fields : List (String × QueryValue)}
    (hd : s.heap[d]? = some (.record fields)) (part : String) (v : QueryValue)
    (more : List QueryObject) :
    FillsPart d part
      (listing? ((s.heap ++ more).set d (.record ((part, v) :: fields))) v) s
      { s with
        heap := (s.heap ++ more).set d (.record ((part, v) :: fields)) } := by
  have hlt : d < s.heap.length := (List.getElem?_eq_some_iff.1 hd).1
  have hset : ((s.heap ++ more).set d (.record ((part, v) :: fields)))[d]? =
      some (.record ((part, v) :: fields)) :=
    List.getElem?_set_self (by rw [List.length_append]; omega)
  have hretains : s.Retains
      { s with
        heap := (s.heap ++ more).set d (.record ((part, v) :: fields)) } := by
    intro l entries hl
    have hne : d ≠ l := by
      rintro rfl
      rw [hd] at hl
      cases hl
    have hl' : l < s.heap.length := (List.getElem?_eq_some_iff.1 hl).1
    rw [List.getElem?_set_ne hne, List.getElem?_append_left hl', hl]
  refine ⟨rfl, rfl, ?_, ?_, hretains⟩
  · simp only [listed?, hset, List.lookup_cons, beq_self_eq_true]
  · intro p hp items h
    have hlookup : ((part, v) :: fields).lookup p = fields.lookup p := by
      rw [List.lookup_cons, beq_false_of_ne hp]
    simp only [listed?, hd] at h
    simp only [listed?, hset, hlookup]
    cases hf : fields.lookup p with
    | none => simpa [hf] using h
    | some w =>
      rw [hf] at h
      exact hretains.listing? h

/-- The code fills a part of a description, unless there is nothing to list. -/
def IsPartCode (part : String) (items : List QueryItem)
    (code : List Step) : Prop :=
  (items = [] ∧ code = []) ∨ ∃ (types : List Step) (f : FieldRef),
    IsArrayCode items types ∧ f.name = part ∧ code = [.dup] ++ types ++
      [.stfld f]

theorem step_stfld {f : FieldRef} {v : QueryValue} {l : Nat}
    {stack : List QueryValue} (h : s.stack = v :: .address l :: stack) :
    s.step (.stfld f) = s.setField l f.name v stack := by
  simp only [step, Step.stfld, h]

theorem setField_eq {l : Nat} {name : String} {v : QueryValue}
    {stack : List QueryValue} {fields : List (String × QueryValue)}
    (hl : s.heap[l]? = some (.record fields)) :
    s.setField l name v stack =
      some { s with
        heap := s.heap.set l (.record ((name, v) :: fields)), stack } := by
  simp only [setField, hl]

theorem mapM_item? (items : List QueryItem) :
    (items.map QueryValue.component).mapM QueryValue.item? = some items := by
  induction items with
  | nil => rfl
  | cons item items ih => simp [QueryValue.item?, ih]

theorem run_partCode {d : Nat} {part : String} {items : List QueryItem}
    {stack : List QueryValue} (hcode : IsPartCode part items code)
    (hn : items.length < 2 ^ 31) (hstack : s.stack = .address d :: stack)
    (hd : s.listed? d part = some []) :
    ∃ s', s.run code = some s' ∧ FillsPart d part (some items) s s' := by
  rcases hcode with ⟨rfl, rfl⟩ | ⟨types, f, htypes, rfl, rfl⟩
  · exact ⟨s, rfl, rfl, rfl, hd, fun _ _ _ => id, fun _ _ => id⟩
  obtain ⟨fields, hfields⟩ := exists_record hd
  have hlt : d < s.heap.length := (List.getElem?_eq_some_iff.1 hfields).1
  have hfields' : (s.heap ++ [.array (items.map .component)])[d]? =
      some (.record fields) := by
    rw [List.getElem?_append_left hlt, hfields]
  have hfill := fillsPart_set hfields f.name (.address s.heap.length)
    [.array (items.map .component)]
  have hlist : listing? ((s.heap ++
    [QueryObject.array (items.map .component)]).set d
      (.record ((f.name, .address s.heap.length) :: fields)))
        (.address s.heap.length) =
        some items := by
    have hget : ((s.heap ++ [QueryObject.array (items.map .component)]).set d
        (.record ((f.name, .address s.heap.length) ::
          fields)))[s.heap.length]? =
          some (.array (items.map .component)) := by
      rw [List.getElem?_set_ne hlt.ne, List.getElem?_concat_length]
    simp only [listing?, hget, mapM_item?]
  rw [hlist] at hfill
  refine ⟨_, ?_, hfill⟩
  simp only [run_append, run_cons, run_nil, step_dup hstack, Option.bind_some,
    run_arrayCode htypes hn]
  rw [step_stfld rfl, setField_eq hfields', hstack]
  rfl

/-- The code sets the options of a description, if there are any. -/
def IsOptionsCode (code : List Step) : Prop :=
  code = [] ∨ ∃ (v : Int32) (f : FieldRef), f.name = "Options" ∧
    code = [.dup, .ldcI4 v, .stfld f]

theorem run_optionsCode {d : Nat} {part : String} {items : List QueryItem}
    {stack : List QueryValue} (hcode : IsOptionsCode code)
    (hstack : s.stack = .address d :: stack)
    (hd : s.listed? d part = some items) :
    ∃ s' listed, s.run code = some s' ∧ FillsPart d "Options" listed s s' := by
  rcases hcode with rfl | ⟨v, f, hf, rfl⟩
  · exact ⟨s, _, rfl, rfl, rfl, rfl, fun _ _ _ => id, fun _ _ => id⟩
  obtain ⟨fields, hfields⟩ := exists_record hd
  have hfill := fillsPart_set hfields f.name (.number v) []
  rw [← hf]
  refine ⟨_, _, ?_, hfill⟩
  simp only [run_cons, run_nil, step_dup hstack, step_ldcI4,
    withStack_withStack, withStack_stack, Option.bind_some]
  rw [step_stfld rfl, setField_withStack, setField_eq hfields, hstack,
    List.append_nil]
  rfl

/-! ## The query -/

/-- A field of the system has a query made from a description with the given
parts. -/
def Asks (s : QueryState) (field : String) (all anyOf noneOf : List QueryItem) :
    Prop :=
  ∃ d, s.description? field = some d ∧ s.listed? d "All" = some all ∧
    s.listed? d "Any" = some anyOf ∧ s.listed? d "None" = some noneOf

/-- The method with a parameter has a name. -/
def IsUnary (name : String) (r : MethodRef) : Prop :=
  r.name = name ∧ r.params.length = 1

/-- The code tells the query which changes it looks for, if there are any. -/
def IsFilterCode (query : FieldRef) (changed : List QueryItem)
    (code : List Step) : Prop :=
  code = [] ∨ ∃ (types : List Step) (r : MethodRef), IsArrayCode changed types ∧
    IsUnary "SetChangedVersionFilter" r ∧
    code = [.ldarg 0, .ldfld query] ++ types ++ [.callvirt r]

/-- The code that hands the query to another field of the system, if there is
one. -/
def storeCode (query : FieldRef) : Option FieldRef → List Step
  | some f => [.ldarg 0, .ldarg 0, .ldfld query, .stfld f]
  | none => []

theorem step_call {r : MethodRef} {l : Nat} {stack : List QueryValue}
    (hr : IsUnary "GetEntityQuery" r)
    (h : s.stack = .address l :: .system :: stack) :
    s.step (.call r) = some (s.withStack (.query l :: stack)) := by
  have hmade : r.componentMade? = none := by
    unfold MethodRef.componentMade?
    split
    · simp_all [IsUnary]
    · rfl
  simp [step, Step.call, h, hmade, hr.1, hr.2]

theorem step_callvirt {r : MethodRef} {l q : Nat} {stack : List QueryValue}
    (hr : IsUnary "SetChangedVersionFilter" r)
    (h : s.stack = .address l :: .query q :: stack) :
    s.step (.callvirt r) = some (s.withStack stack) := by
  simp [step, Step.callvirt, h, hr.1, hr.2]

theorem step_ldfld {f : FieldRef} {v : QueryValue} {stack : List QueryValue}
    (hf : s.fields.lookup f.name = some v) :
    (s.withStack (.system :: stack)).step (.ldfld f) =
      some (s.withStack (v :: stack)) := by
  simp [step, Step.ldfld, hf]

theorem step_stfld_system {f : FieldRef} {v : QueryValue}
    {stack : List QueryValue} (h : s.stack = v :: .system :: stack) :
    s.step (.stfld f) =
      some { s with fields := (f.name, v) :: s.fields, stack } := by
  simp [step, Step.stfld, h]

/-- More objects may come to the heap. -/
theorem Asks.append {field : String} {all anyOf noneOf : List QueryItem}
    {more : List QueryObject} (h : s.Asks field all anyOf noneOf)
    (hfields : s'.fields.lookup field = s.fields.lookup field)
    (hheap : s'.heap = s.heap ++ more) : s'.Asks field all anyOf noneOf := by
  have hstays : ∀ {l : Nat} {o : QueryObject}, s.heap[l]? = some o →
      s'.heap[l]? = some o := by
    intro l o hl
    rw [hheap, List.getElem?_append_left (List.getElem?_eq_some_iff.1 hl).1, hl]
  have hretains : s.Retains s' := fun _ _ => hstays
  have hlisted : ∀ {d part items}, s.listed? d part = some items →
      s'.listed? d part = some items := by
    intro d part items hd
    obtain ⟨fields, hfields⟩ := exists_record hd
    simp only [listed?, hfields] at hd
    simp only [listed?, hstays hfields]
    cases hf : fields.lookup part with
    | none => simpa [hf] using hd
    | some v =>
      rw [hf] at hd
      exact hretains.listing? hd
  obtain ⟨d, hd, hall, hany, hnone⟩ := h
  refine ⟨d, ?_, hlisted hall, hlisted hany, hlisted hnone⟩
  unfold description? at hd ⊢
  rw [hfields]
  split at hd
  · split at hd
    · rename_i hl
      simpa [hstays hl] using hd
    · cases hd
  · cases hd

theorem Asks.exists_query {field : String} {all anyOf noneOf : List QueryItem}
    (h : s.Asks field all anyOf noneOf) :
    ∃ l, s.fields.lookup field = some (.query l) := by
  obtain ⟨d, hd, -⟩ := h
  unfold description? at hd
  split at hd
  · exact ⟨_, ‹_›⟩
  · cases hd

/-- The array for the description is set, and no part lists what was in it. -/
theorem listed?_setEntry {a d : Nat} {part : String} {items : List QueryItem}
    {o : QueryObject} (ha : s.heap[a]? = some (.array [.null]))
    (hheap : s'.heap = s.heap.set a o) (h : s.listed? d part = some items) :
    s'.listed? d part = some items := by
  obtain ⟨fields, hd⟩ := exists_record h
  have hstays : ∀ {l : Nat} {o : QueryObject}, s.heap[l]? = some o →
    o ≠ .array [.null] →
      s'.heap[l]? = some o := by
    intro l o hl ho
    have hne : a ≠ l := by
      rintro rfl
      exact ho (Option.some.inj (hl.symm.trans ha))
    rw [hheap, List.getElem?_set_ne hne, hl]
  simp only [listed?, hd] at h
  simp only [listed?, hstays hd (by simp)]
  cases hf : fields.lookup part with
  | none => simpa [hf] using h
  | some v =>
    simp only [hf, listing?] at h ⊢
    split at h
    · split at h
      · rename_i l _ entries hl
        have hne : QueryObject.array entries ≠ .array [.null] := by
          rintro he
          cases he
          simp [QueryValue.item?] at h
        simpa [hstays hl hne] using h
      · cases h
    · cases h

variable {query : FieldRef} {all anyOf noneOf : List QueryItem}

theorem run_filterCode {changed : List QueryItem}
    (hcode : IsFilterCode query changed code) (hn : changed.length < 2 ^ 31)
    (h : s.Asks query.name all anyOf noneOf) :
    ∃ s', s.run code = some s' ∧ s'.stack = s.stack ∧
    s'.Asks query.name all anyOf noneOf := by
  rcases hcode with rfl | ⟨types, r, htypes, hr, rfl⟩
  · exact ⟨s, rfl, rfl, h⟩
  obtain ⟨l, hl⟩ := h.exists_query
  refine ⟨{ s with heap := s.heap ++ [.array (changed.map .component)] },
    ?_, rfl, h.append rfl rfl⟩
  simp only [run_append, run_cons, run_nil, step_ldarg, Option.bind_some]
  rw [step_ldfld hl, Option.bind_some, Option.bind_some,
    run_arrayCode htypes hn, Option.bind_some, step_callvirt hr rfl]
  rfl

theorem run_storeCode (store : Option FieldRef)
    (h : s.Asks query.name all anyOf noneOf) :
    ∃ s', s.run (storeCode query store) = some s' ∧ s'.stack = s.stack ∧
      s'.Asks query.name all anyOf noneOf := by
  cases store with
  | none => exact ⟨s, rfl, rfl, h⟩
  | some f =>
    obtain ⟨l, hl⟩ := h.exists_query
    refine ⟨{ s with fields := (f.name, .query l) :: s.fields }, ?_, rfl, ?_⟩
    · simp only [storeCode, run_cons, run_nil, step_ldarg, withStack_withStack,
        Option.bind_some]
      rw [step_ldfld hl, Option.bind_some, step_stfld_system rfl]
      rfl
    · -- the field may be the query's own, which then gets the query it has
      have hlookup : List.lookup query.name
        ((f.name, QueryValue.query l) :: s.fields) =
          s.fields.lookup query.name := by
        rw [List.lookup_cons]
        split
        · exact hl.symm
        · rfl
      exact h.append hlookup (List.append_nil _).symm

/-- The stack while the description is filled: what is below the description
itself. -/
def queryStack (a : Nat) (stack : List QueryValue) : List QueryValue :=
  .number 0 :: .address a :: .address a :: .system :: .system :: stack

/-- An array for the description and the description are made. -/
theorem run_opening (desc : TypeRef) {ctor : MethodRef}
    (hctor : ctor.params = []) :
    s.run [.ldarg 0, .ldarg 0, .ldcI4 1, .newarr desc, .dup, .ldcI4 0,
      .newobj ctor] = some { s with
        heap := s.heap ++ [.array [.null], .record []],
        stack := .address (s.heap.length + 1) :: queryStack s.heap.length
            s.stack } := by
  simp only [run_cons, run_nil, step_ldarg, step_ldcI4, withStack_withStack,
    withStack_stack, Option.bind_some]
  rw [step_newarr (n := 1) (by decide) rfl, Option.bind_some, step_dup rfl,
    Option.bind_some, step_newobj hctor, Option.bind_some]
  simp [queryStack, allocate, withStack]

/-- The query is made from the description and handed to the system. -/
theorem run_handOver (query : FieldRef) {get_ : MethodRef} {a d : Nat}
    {stack : List QueryValue} (hget : IsUnary "GetEntityQuery" get_)
    (hstack : s.stack = .address d :: queryStack a stack)
    (ha : s.heap[a]? = some (.array [.null]))
    (hall : s.listed? d "All" = some all)
    (hany : s.listed? d "Any" = some anyOf)
    (hnone : s.listed? d "None" = some noneOf) :
    ∃ s', s.run [.stelemRef, .call get_, .stfld query] = some s' ∧
    s'.stack = stack ∧
      s'.Asks query.name all anyOf noneOf := by
  have hset : s.setEntry a 0 (.address d)
    (.address a :: .system :: .system :: stack) =
      some { s with
        heap := s.heap.set a (.array [.address d]),
        stack := .address a :: .system :: .system :: stack } :=
    setEntry_eq (i := 0) (by decide) (by decide) ha
  refine ⟨{ heap := s.heap.set a (.array [.address d]), stack := stack,
            fields := (query.name, .query a) :: s.fields }, ?_, rfl, d, ?_, ?_⟩
  · simp only [run_cons, run_nil]
    rw [step_stelemRef hstack, hset, Option.bind_some, step_call hget rfl,
      Option.bind_some, step_stfld_system rfl]
    rfl
  · have hlt : a < s.heap.length := (List.getElem?_eq_some_iff.1 ha).1
    simp [description?, hlt]
  · exact ⟨listed?_setEntry ha rfl hall, listed?_setEntry ha rfl hany,
      listed?_setEntry ha rfl hnone⟩

/-- The code makes a query from a description with the given parts. -/
theorem run_queryCode {desc : TypeRef} {ctor get_ : MethodRef}
    {changed : List QueryItem}
    {allCode anyCode noneCode options filter : List Step}
    {store : Option FieldRef} (hctor : ctor.params = [])
    (hget : IsUnary "GetEntityQuery" get_) (hall : IsPartCode "All" all allCode)
    (hany : IsPartCode "Any" anyOf anyCode)
    (hnone : IsPartCode "None" noneOf noneCode)
    (hoptions : IsOptionsCode options)
    (hfilter : IsFilterCode query changed filter)
    (hsmall : ∀ items ∈ [all, anyOf, noneOf, changed],
      items.length < 2 ^ 31) :
    ∃ s', s.run ([Step.ldarg 0, Step.ldarg 0, Step.ldcI4 1, Step.newarr desc,
          Step.dup, Step.ldcI4 0, Step.newobj ctor] ++
        allCode ++ anyCode ++ noneCode ++ options ++
        [Step.stelemRef, Step.call get_, Step.stfld query] ++ filter ++
        storeCode query store) = some s' ∧
      s'.stack = s.stack ∧ s'.Asks query.name all anyOf noneOf := by
  simp only [List.forall_mem_cons, List.not_mem_nil, false_imp_iff,
    implies_true, and_true] at hsmall
  obtain ⟨hallLt, hanyLt, hnoneLt, hchangedLt⟩ := hsmall
  have hopening := run_opening (s := s) desc hctor
  generalize ha : s.heap.length = a at hopening
  generalize hs₀ : QueryState.mk _ _ _ = s₀ at hopening
  have hstack : s₀.stack = .address (a + 1) :: queryStack a s.stack := by
    rw [← hs₀]
  have harray : s₀.heap[a]? = some (.array [.null]) := by
    simp [← hs₀, ← ha]
  have hempty : ∀ part, s₀.listed? (a + 1) part = some [] := by
    intro part
    simp [← hs₀, ← ha, listed?]
  -- the parts are filled one after the other, and what is filled stays
  obtain ⟨s₁, hrun₁, h₁⟩ := run_partCode hall hallLt hstack (hempty _)
  have hempty₁ : ∀ part ≠ "All", s₁.listed? (a + 1) part = some [] :=
    fun part hp => h₁.others part hp _ (hempty part)
  obtain ⟨s₂, hrun₂, h₂⟩ :=
    run_partCode hany hanyLt (h₁.stack.trans hstack) (hempty₁ _ (by decide))
  have hempty₂ : s₂.listed? (a + 1) "None" = some [] :=
    h₂.others _ (by decide) _ (hempty₁ _ (by decide))
  have hstack₂ : s₂.stack = .address (a + 1) :: queryStack a s.stack :=
    h₂.stack.trans (h₁.stack.trans hstack)
  obtain ⟨s₃, hrun₃, h₃⟩ := run_partCode hnone hnoneLt hstack₂ hempty₂
  obtain ⟨s₄, listed, hrun₄, h₄⟩ :=
    run_optionsCode hoptions (h₃.stack.trans hstack₂) h₃.filled
  have hall₄ : s₄.listed? (a + 1) "All" = some all := by
    refine h₄.others _ (by decide) _ (h₃.others _ (by decide) _ ?_)
    exact h₂.others _ (by decide) _ h₁.filled
  have hany₄ : s₄.listed? (a + 1) "Any" = some anyOf :=
    h₄.others _ (by decide) _ (h₃.others _ (by decide) _ h₂.filled)
  have hnone₄ : s₄.listed? (a + 1) "None" = some noneOf :=
    h₄.others _ (by decide) _ h₃.filled
  have harray₄ : s₄.heap[a]? = some (.array [.null]) :=
    h₄.retains _ _ (h₃.retains _ _ (h₂.retains _ _ (h₁.retains _ _ harray)))
  obtain ⟨s₅, hrun₅, hstack₅, h₅⟩ := run_handOver query hget
    (h₄.stack.trans (h₃.stack.trans hstack₂)) harray₄ hall₄ hany₄ hnone₄
  obtain ⟨s₆, hrun₆, hstack₆, h₆⟩ := run_filterCode hfilter hchangedLt h₅
  obtain ⟨s₇, hrun₇, hstack₇, h₇⟩ := run_storeCode store h₆
  refine ⟨s₇, ?_, hstack₇.trans (hstack₆.trans hstack₅), h₇⟩
  simp only [run_append, hopening, hrun₁, hrun₂, hrun₃, hrun₄, hrun₅,
    hrun₆, hrun₇, Option.bind_some]

end QueryState

end JobWeave
