import Mathlib
import JobWeave.Proofs.Codec.Copies

/-!
# Methods as graphs of objects

In memory the instructions, the local variables, the parameters and the lists of
a method are objects, and a branch points at the object of its target.  An edit
changes an object for all that point at it.  Here a heap is a list of objects;
what a body or a method means is read off it, with the addresses of the
instructions for labels.  Types, fields and methods that code names are not
objects here: they are shared by all that name them, and no edit is about them.

* `Heap.body` and `Heap.method` read a graph.
* `Heap.Closed`: no object points outside of the heap.
* `Heap.Keeps`: what is below an address is as it was; `Closed.body_eq` and
  `Closed.method_eq` say that a graph in a closed heap then reads the same.
* `Heap.Inside`: what the code of a body points at is in the body.
-/

namespace JobWeave

/-- The operand points at no instruction and no local variable. -/
def Operand.isPlain : Operand → Bool
  | .slot _ | .target _ | .targets _ => false
  | _ => true

theorem Operand.labels_of_isPlain {o : Operand} (h : o.isPlain) :
    o.labels = [] := by
  cases o <;> first | rfl | cases h

theorem Operand.relabel_of_isPlain {o : Operand} (h : o.isPlain)
    (f : Label → Label) :
    o.relabel f = o :=
  relabel_eq_self (by simp [labels_of_isPlain h])

end JobWeave

namespace JobWeave.Objects

/-! ## Objects -/

/-- What an instruction works on. -/
inductive Value where
  /-- a constant, an argument number or a shared reference -/
  | plain (o : Operand) (h : o.isPlain)
  /-- a local variable -/
  | slot (a : Nat)
  /-- an instruction -/
  | target (a : Nat)
  /-- a list of instructions -/
  | targets (list : Nat)

/-- The object of a body. -/
structure BodyObj where
  /-- the list of instructions -/
  instrs : Nat
  /-- the list of local variables -/
  locals : Nat
  /-- the list of source positions -/
  points : Nat
  /-- local variables start with a default value -/
  initLocals : Bool

/-- The object of a parameter. -/
structure ParamObj where
  /-- the name -/
  name : String
  /-- the type -/
  type : TypeRef
  /-- the flags -/
  flags : UInt8
  /-- the list of attributes -/
  attributes : Nat

/-- The object of a method. -/
structure MethodObj where
  /-- the name -/
  name : String
  /-- the flags -/
  flags : UInt16
  /-- the flags for the machine that runs the method -/
  implFlags : UInt8
  /-- the type of the result -/
  ret : TypeRef
  /-- the list of parameters -/
  params : Nat
  /-- the list of generic parameters -/
  genericParams : Nat
  /-- the list of attributes -/
  attributes : Nat
  /-- the code, if there is any -/
  body : Option Nat

/-- An object. -/
inductive Obj where
  | instr (op : Opcode) (value : Value)
  /-- a local variable, with the position that it was declared at -/
  | slot (l : Local) (index : Int)
  /-- a list of objects -/
  | pointers (as : List Nat)
  /-- a list of source positions, whose labels are addresses -/
  | points (ps : List SequencePoint)
  | names (ns : List String)
  | attr (a : Attribute)
  | param (p : ParamObj)
  | body (b : BodyObj)
  | method (m : MethodObj)

instance : Inhabited Obj := ⟨.names []⟩

/-- What an object points at. -/
def Obj.refs : Obj → List Nat
  | .instr _ (.slot a) | .instr _ (.target a) | .instr _ (.targets a) => [a]
  | .pointers as => as
  | .points ps => ps.map (·.label)
  | .param p => [p.attributes]
  | .body b => [b.instrs, b.locals, b.points]
  | .method m => [m.params, m.genericParams, m.attributes] ++ m.body.toList
  | _ => []

/-- The objects by address. -/
structure Heap where
  /-- the objects -/
  objs : List Obj

namespace Heap

/-- The first address without an object. -/
def size (h : Heap) : Nat :=
  h.objs.length

/-- The object at an address. -/
def get? (h : Heap) (a : Nat) : Option Obj :=
  h.objs[a]?

/-- A new object: the heap with it, and its address. -/
def alloc (h : Heap) (o : Obj) : Heap × Nat :=
  (⟨h.objs ++ [o]⟩, h.size)

/-- Another object at an address. -/
def write (h : Heap) (a : Nat) (o : Obj) : Heap :=
  ⟨h.objs.set a o⟩

/-! ## Reading -/

/-- The list of objects at an address. -/
def pointers (h : Heap) (a : Nat) : List Nat :=
  match h.get? a with
  | some (.pointers as) => as
  | _ => []

/-- The list of source positions at an address. -/
def points (h : Heap) (a : Nat) : List SequencePoint :=
  match h.get? a with
  | some (.points ps) => ps
  | _ => []

/-- The list of names at an address. -/
def names (h : Heap) (a : Nat) : List String :=
  match h.get? a with
  | some (.names ns) => ns
  | _ => []

/-- The operation at an address, and what it works on. -/
def instr (h : Heap) (a : Nat) : Opcode × Value :=
  match h.get? a with
  | some (.instr op v) => (op, v)
  | _ => (.nop, .plain .none rfl)

/-- The local variable at an address, and its position. -/
def slot (h : Heap) (a : Nat) : Local × Int :=
  match h.get? a with
  | some (.slot l n) => (l, n)
  | _ => (⟨.absent, ""⟩, 0)

/-- The attribute at an address. -/
def attr (h : Heap) (a : Nat) : Attribute :=
  match h.get? a with
  | some (.attr a) => a
  | _ => { type := .absent }

/-- The object of a parameter at an address. -/
def paramObj (h : Heap) (a : Nat) : ParamObj :=
  match h.get? a with
  | some (.param p) => p
  | _ => ⟨"", .absent, 0, a⟩

/-- The object of a body at an address. -/
def bodyObj (h : Heap) (a : Nat) : BodyObj :=
  match h.get? a with
  | some (.body b) => b
  | _ => ⟨a, a, a, false⟩

/-- The object of a method at an address. -/
def methodObj (h : Heap) (a : Nat) : MethodObj :=
  match h.get? a with
  | some (.method m) => m
  | _ => ⟨"", 0, 0, .absent, a, a, a, none⟩

/-- The instructions of a body. -/
def instrs (h : Heap) (b : Nat) : List Nat :=
  h.pointers (h.bodyObj b).instrs

/-- The local variables of a body. -/
def locals (h : Heap) (b : Nat) : List Nat :=
  h.pointers (h.bodyObj b).locals

/-- The operand that a value is in a body with the given local variables. -/
def operand (h : Heap) (locals : List Nat) : Value → Operand
  | .plain o _ => o
  | .slot a =>
    match lastIndex? locals a with
    | some n => .slot (.slot n)
    | none =>
      .slot (.foreign a (h.slot a).1.name (h.slot a).1.type (h.slot a).2)
  | .target a => .target a
  | .targets list => .targets (h.pointers list)

/-- An instruction of a body with the given local variables. -/
def labelled (h : Heap) (locals : List Nat) (a : Nat) : Instr :=
  { label := a, op := (h.instr a).1, operand := h.operand locals (h.instr a).2 }

/-- A body, where labels from `fresh` on are free. -/
def body (h : Heap) (fresh : Label) (b : Nat) : Body :=
  { code := (h.instrs b).map (h.labelled (h.locals b))
    locals := (h.locals b).map fun a => (h.slot a).1
    points := h.points (h.bodyObj b).points
    initLocals := (h.bodyObj b).initLocals
    fresh }

/-- The list of attributes at an address. -/
def attributes (h : Heap) (a : Nat) : List Attribute :=
  (h.pointers a).map h.attr

/-- A parameter. -/
def param (h : Heap) (a : Nat) : ParamDef :=
  let p := h.paramObj a
  { name := p.name, type := p.type, flags := p.flags,
    attributes := h.attributes p.attributes }

/-- A method. -/
def method (h : Heap) (fresh : Label) (m : Nat) : MethodDef :=
  let o := h.methodObj m
  { name := o.name, flags := o.flags, implFlags := o.implFlags, ret := o.ret
    params := (h.pointers o.params).map h.param
    genericParams := h.names o.genericParams
    attributes := h.attributes o.attributes
    body := o.body.map (h.body fresh) }

/-! ## The objects of a body and of a method -/

/-- The list that an instruction has of its own. -/
def targetLists (h : Heap) (i : Nat) : List Nat :=
  match (h.instr i).2 with
  | .targets list => [list]
  | _ => []

/-- The objects that an edit of a body changes. -/
def bodyParts (h : Heap) (b : Nat) : List Nat :=
  [b, (h.bodyObj b).instrs, (h.bodyObj b).locals, (h.bodyObj b).points] ++
    h.instrs b ++ h.locals b ++ (h.instrs b).flatMap h.targetLists

/-- The objects that an edit of a method changes, its body apart.  Attributes
are not among them: only the lists that they are in are. -/
def methodParts (h : Heap) (m : Nat) : List Nat :=
  let o := h.methodObj m
  [m, o.params, o.genericParams, o.attributes] ++ h.pointers o.params ++
    (h.pointers o.params).map fun p => (h.paramObj p).attributes

/-- What the code of a body points at is in the body. -/
structure Inside (h : Heap) (b : Nat) : Prop where
  /-- branches -/
  branch : ∀ i ∈ h.instrs b, (h.instr i).1.info.operand = .branch →
    ∃ a ∈ h.instrs b, (h.instr i).2 = .target a
  /-- switches -/
  table : ∀ i ∈ h.instrs b, (h.instr i).1.info.operand = .table →
    ∀ list, (h.instr i).2 = .targets list → ∀ a ∈ h.pointers list,
    a ∈ h.instrs b
  /-- local variables -/
  slot : ∀ i ∈ h.instrs b, (h.instr i).1.info.operand = .slot →
    ∃ a ∈ h.locals b, (h.instr i).2 = .slot a
  /-- source positions -/
  points : ∀ p ∈ h.points (h.bodyObj b).points, p.label ∈ h.instrs b

/-! ## Heaps without dangling pointers -/

/-- No object points outside of the heap. -/
def Closed (h : Heap) : Prop :=
  ∀ o ∈ h.objs, ∀ a ∈ o.refs, a < h.size

instance (h : Heap) : Decidable h.Closed :=
  inferInstanceAs (Decidable (∀ o ∈ h.objs, ∀ a ∈ o.refs, a < h.size))

section

variable {h : Heap} {a b i m : Nat} {o : Obj}

namespace Closed

variable (hh : h.Closed)

include hh

theorem refs_lt (ho : h.get? a = some o) : ∀ p ∈ o.refs, p < h.size :=
  hh o (List.mem_of_getElem? ho)

theorem pointers_lt : ∀ p ∈ h.pointers a, p < h.size := by
  unfold pointers
  split
  · rename_i as ha
    exact hh.refs_lt ha
  · simp

theorem points_lt : ∀ p ∈ h.points a, p.label < h.size := by
  unfold points
  split
  · rename_i ps ha
    exact fun p hp => hh.refs_lt ha _ (List.mem_map_of_mem hp)
  · simp

theorem instrs_lt : ∀ i ∈ h.instrs b, i < h.size :=
  hh.pointers_lt

theorem locals_lt : ∀ l ∈ h.locals b, l < h.size :=
  hh.pointers_lt

theorem slot_lt (ha : (h.instr i).2 = .slot a) : a < h.size := by
  unfold instr at ha
  split at ha
  · rename_i hi
    cases ha
    exact hh.refs_lt hi _ (List.mem_singleton_self _)
  · cases ha

theorem target_lt (ha : (h.instr i).2 = .target a) : a < h.size := by
  unfold instr at ha
  split at ha
  · rename_i hi
    cases ha
    exact hh.refs_lt hi _ (List.mem_singleton_self _)
  · cases ha

theorem targets_lt (ha : (h.instr i).2 = .targets a) : a < h.size := by
  unfold instr at ha
  split at ha
  · rename_i hi
    cases ha
    exact hh.refs_lt hi _ (List.mem_singleton_self _)
  · cases ha

theorem bodyObj_lt (hb : b < h.size) :
    (h.bodyObj b).instrs < h.size ∧ (h.bodyObj b).locals < h.size ∧
      (h.bodyObj b).points < h.size := by
  unfold bodyObj
  split
  · rename_i ho
    have := hh.refs_lt ho
    exact ⟨this _ (by simp [Obj.refs]), this _ (by simp [Obj.refs]),
      this _ (by simp [Obj.refs])⟩
  · exact ⟨hb, hb, hb⟩

theorem paramObj_lt (hp : a < h.size) : (h.paramObj a).attributes < h.size := by
  unfold paramObj
  split
  · rename_i ho
    exact hh.refs_lt ho _ (List.mem_singleton_self _)
  · exact hp

theorem methodObj_lt (hm : m < h.size) :
    (h.methodObj m).params < h.size ∧ (h.methodObj m).genericParams < h.size ∧
      (h.methodObj m).attributes < h.size ∧ ∀ b, (h.methodObj m).body = some b →
      b < h.size := by
  unfold methodObj
  split
  · rename_i ho
    have := hh.refs_lt ho
    refine ⟨this _ (by simp [Obj.refs]), this _ (by simp [Obj.refs]),
      this _ (by simp [Obj.refs]), fun b hb => this _ ?_⟩
    simp [Obj.refs, hb]
  · exact ⟨hm, hm, hm, fun _ hb => by cases hb⟩

theorem bodyParts_lt (hb : b < h.size) : ∀ a ∈ h.bodyParts b, a < h.size := by
  obtain ⟨hinstrs, hlocals, hpoints⟩ := hh.bodyObj_lt hb
  intro a ha
  simp only [bodyParts, List.mem_append, List.mem_cons, List.not_mem_nil,
    or_false, List.mem_flatMap] at ha
  rcases ha with (((rfl | rfl | rfl | rfl) | ha) | ha) | ⟨i, hi, ha⟩
  · exact hb
  · exact hinstrs
  · exact hlocals
  · exact hpoints
  · exact hh.instrs_lt a ha
  · exact hh.locals_lt a ha
  · unfold targetLists at ha
    split at ha
    · rename_i hlist
      exact List.mem_singleton.1 ha ▸ hh.targets_lt hlist
    · cases ha

theorem methodParts_lt (hm : m < h.size) :
    ∀ a ∈ h.methodParts m, a < h.size := by
  obtain ⟨hparams, hgenerics, hattributes, -⟩ := hh.methodObj_lt hm
  intro a ha
  simp only [methodParts, List.mem_append, List.mem_cons, List.not_mem_nil,
    or_false, List.mem_map] at ha
  rcases ha with ((rfl | rfl | rfl | rfl) | ha) | ⟨p, hp, rfl⟩
  · exact hm
  · exact hparams
  · exact hgenerics
  · exact hattributes
  · exact hh.pointers_lt a ha
  · exact hh.paramObj_lt (hh.pointers_lt p hp)

end Closed

/-! ## Frames -/

/-- What is below an address is as it was. -/
structure Keeps (n : Nat) (h h' : Heap) : Prop where
  /-- no object is gone -/
  size : h.size ≤ h'.size
  /-- the objects below -/
  get : ∀ a < n, h'.get? a = h.get? a

variable {h' h'' : Heap} {n k : Nat}

theorem Keeps.refl (n : Nat) (h : Heap) : Keeps n h h :=
  ⟨Nat.le_refl _, fun _ _ => rfl⟩

theorem Keeps.trans (h₁ : Keeps n h h') (h₂ : Keeps n h' h'') : Keeps n h h'' :=
  ⟨Nat.le_trans h₁.size h₂.size, fun a ha => (h₂.get a ha).trans (h₁.get a ha)⟩

theorem Keeps.mono (hkeeps : Keeps n h h') (hk : k ≤ n) : Keeps k h h' :=
  ⟨hkeeps.size, fun a ha => hkeeps.get a (Nat.lt_of_lt_of_le ha hk)⟩

@[simp]
theorem size_alloc : (h.alloc o).1.size = h.size + 1 := by
  simp [alloc, size]

@[simp]
theorem alloc_snd : (h.alloc o).2 = h.size :=
  rfl

@[simp]
theorem size_write : (h.write a o).size = h.size := by
  simp [write, size]

theorem get?_alloc_self : (h.alloc o).1.get? h.size = some o := by
  simp [alloc, get?, size]

theorem keeps_alloc (h : Heap) (o : Obj) : Keeps h.size h (h.alloc o).1 := by
  refine ⟨by simp, fun a ha => ?_⟩
  exact List.getElem?_append_left ha

theorem get?_write_self (ha : a < h.size) : (h.write a o).get? a = some o := by
  exact List.getElem?_set_self ha

theorem get?_write_of_ne (hne : a ≠ b) : (h.write a o).get? b = h.get? b := by
  simp [write, get?, hne]

theorem keeps_write (hn : n ≤ a) : Keeps n h (h.write a o) :=
  ⟨by simp, fun _ hb =>
    get?_write_of_ne (Nat.ne_of_gt (Nat.lt_of_lt_of_le hb hn))⟩

/-! What is read at an address is read off its object. -/

section

variable (ha : h'.get? b = h.get? a)

include ha

theorem pointers_eq : h'.pointers b = h.pointers a := by
  simp only [pointers, ha]

theorem points_eq : h'.points b = h.points a := by
  simp only [points, ha]

theorem names_eq : h'.names b = h.names a := by
  simp only [names, ha]

theorem instr_eq : h'.instr b = h.instr a := by
  simp only [instr, ha]

theorem slot_eq : h'.slot b = h.slot a := by
  simp only [slot, ha]

theorem attr_eq : h'.attr b = h.attr a := by
  simp only [attr, ha]

end

variable (ha : h'.get? a = h.get? a)

include ha

theorem paramObj_eq : h'.paramObj a = h.paramObj a := by
  simp only [paramObj, ha]

theorem bodyObj_eq : h'.bodyObj a = h.bodyObj a := by
  simp only [bodyObj, ha]

theorem methodObj_eq : h'.methodObj a = h.methodObj a := by
  simp only [methodObj, ha]

end

/-! A graph of a closed heap is read off the objects of that heap. -/

namespace Closed

variable {h h' : Heap} {a b m : Nat} (hh : h.Closed)
  (hkeeps : Keeps h.size h h')

include hh hkeeps

theorem labelled_eq {ls : List Nat} (ha : a < h.size) :
    h'.labelled ls a = h.labelled ls a := by
  have hinstr := instr_eq (hkeeps.get a ha)
  unfold labelled
  rw [hinstr]
  refine congrArg (Instr.mk a (h.instr a).1) ?_
  cases hv : (h.instr a).2 with
  | plain o ho => rfl
  | target t => rfl
  | slot s =>
    simp only [operand]
    rw [slot_eq (hkeeps.get s (hh.slot_lt hv))]
  | targets list =>
    simp only [operand]
    rw [pointers_eq (hkeeps.get list (hh.targets_lt hv))]

theorem body_eq (hb : b < h.size) (fresh : Label) :
    h'.body fresh b = h.body fresh b := by
  obtain ⟨hinstrs, hlocals, hpoints⟩ := hh.bodyObj_lt hb
  have hobj := bodyObj_eq (hkeeps.get b hb)
  have hi : h'.instrs b = h.instrs b := by
    rw [instrs, hobj, pointers_eq (hkeeps.get _ hinstrs), instrs]
  have hl : h'.locals b = h.locals b := by
    rw [locals, hobj, pointers_eq (hkeeps.get _ hlocals), locals]
  have hcode : (h.instrs b).map (h'.labelled (h.locals b)) =
      (h.instrs b).map (h.labelled (h.locals b)) :=
    List.map_congr_left fun a ha => hh.labelled_eq hkeeps (hh.instrs_lt a ha)
  have hslots : (h.locals b).map (fun a => (h'.slot a).1) = (h.locals b).map
      fun a => (h.slot a).1 :=
    List.map_congr_left fun a ha => by
      rw [slot_eq (hkeeps.get a (hh.locals_lt a ha))]
  rw [body, hi, hl, hcode, hslots, hobj, points_eq (hkeeps.get _ hpoints), body]

theorem attributes_eq (ha : a < h.size) : h'.attributes a = h.attributes a := by
  rw [attributes, pointers_eq (hkeeps.get a ha), attributes]
  exact List.map_congr_left fun p hp => attr_eq
    (hkeeps.get p (hh.pointers_lt p hp))

theorem param_eq (ha : a < h.size) : h'.param a = h.param a := by
  rw [param, paramObj_eq (hkeeps.get a ha),
    hh.attributes_eq hkeeps (hh.paramObj_lt ha), param]

theorem method_eq (hm : m < h.size) (fresh : Label) :
    h'.method fresh m = h.method fresh m := by
  obtain ⟨hparams, hgenerics, hattributes, hbody⟩ := hh.methodObj_lt hm
  have hps : (h.pointers (h.methodObj m).params).map h'.param =
      (h.pointers (h.methodObj m).params).map h.param :=
    List.map_congr_left fun p hp => hh.param_eq hkeeps (hh.pointers_lt p hp)
  have hcode : (h.methodObj m).body.map (h'.body fresh) =
      (h.methodObj m).body.map (h.body fresh) :=
    Option.map_congr fun b hb => hh.body_eq hkeeps (hbody b hb) fresh
  rw [method, methodObj_eq (hkeeps.get m hm),
    pointers_eq (hkeeps.get _ hparams), names_eq (hkeeps.get _ hgenerics),
    hh.attributes_eq hkeeps hattributes, hps, hcode, method]

end Closed

/-! ## Edits -/

/-- One edit. -/
inductive Edit where
  /-- an object is changed -/
  | write (a : Nat) (o : Obj)
  /-- an object is made -/
  | alloc (o : Obj)

/-- The edit is of no object below an address. -/
def Edit.Spares (n : Nat) : Edit → Prop
  | .write a _ => n ≤ a
  | .alloc _ => True

/-- The heap after an edit. -/
def edit (h : Heap) : Edit → Heap
  | .write a o => h.write a o
  | .alloc o => (h.alloc o).1

/-- The heap after some edits. -/
def edits (h : Heap) (es : List Edit) : Heap :=
  es.foldl edit h

theorem keeps_edit {h : Heap} {n : Nat} {e : Edit} (hn : n ≤ h.size)
    (he : e.Spares n) :
    Keeps n h (h.edit e) := by
  cases e with
  | write a o => exact keeps_write he
  | alloc o => exact (keeps_alloc h o).mono hn

/-- Edits that spare what is below an address keep it. -/
theorem keeps_edits {h : Heap} {n : Nat} {es : List Edit} (hn : n ≤ h.size)
    (hes : ∀ e ∈ es, e.Spares n) : Keeps n h (h.edits es) := by
  induction es generalizing h with
  | nil => exact Keeps.refl n h
  | cons e es ih =>
    have hstep := keeps_edit (h := h) hn (hes e List.mem_cons_self)
    exact hstep.trans
      (ih (Nat.le_trans hn hstep.size)
        fun e he => hes e (List.mem_cons_of_mem _ he))

end Heap

end JobWeave.Objects
