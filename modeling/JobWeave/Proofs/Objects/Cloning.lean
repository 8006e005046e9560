import Mathlib
import JobWeave.Proofs.Objects.Graph

/-!
# Cloning

A clone of a body has copies of the instructions and of the local variables, and
lists of its own. Whatever points at one of the originals is pointed at its
copy.

* `Heap.clone` and `Heap.cloneMethod`.
* `Heap.copies`: the map from originals to copies.
* `Heap.Linked`: the copy of a value points at copies.
  `Heap.linked_retargetAll` says so of a whole loop.
* `Heap.CodeCopied`: the copies of code, as `Heap.copyCode_copied` finds them.
-/

namespace JobWeave.Objects.Heap

/-! ## Copies of objects -/

/-- Another object that is the same. -/
def duplicate (h : Heap) (a : Nat) : Heap × Nat :=
  h.alloc ((h.get? a).getD default)

/-- Other objects that are the same, one by one. -/
def duplicateAll (h : Heap) : List Nat → Heap × List Nat
  | [] => (h, [])
  | a :: as =>
    let first := h.duplicate a
    let rest := first.1.duplicateAll as
    (rest.1, first.2 :: rest.2)

/-- The map from some objects to others, one by one.  What occurs more than once
goes to the last of its images. -/
def copies (as cs : List Nat) : Nat → Option Nat :=
  (as.zip cs).foldl (fun m p => Function.update m p.1 (some p.2)) fun _ => none

/-- Points an instruction at the copies of what it points at.  It gets a list of
its own. -/
def retarget (h : Heap) (instrOf slotOf : Nat → Option Nat) (c : Nat) : Heap :=
  match h.instr c with
  | (op, .slot a) => h.write c (.instr op (.slot ((slotOf a).getD a)))
  | (op, .target a) => h.write c (.instr op (.target ((instrOf a).getD a)))
  | (op, .targets list) =>
    let own :=
      h.alloc (.pointers ((h.pointers list).map fun a => (instrOf a).getD a))
    own.1.write c (.instr op (.targets own.2))
  | _ => h

/-- Points instructions at copies, one by one. -/
def retargetAll (h : Heap) (instrOf slotOf : Nat → Option Nat)
    (cs : List Nat) : Heap :=
  cs.foldl (fun h c => h.retarget instrOf slotOf c) h

/-- Copies of instructions and of local variables that point at each other: the
heap with them, the instructions and the local variables. -/
def copyCode (h : Heap) (is ls : List Nat) : Heap × List Nat × List Nat :=
  let slots := h.duplicateAll ls
  let instrs := slots.1.duplicateAll is
  (instrs.1.retargetAll (copies is instrs.2) (copies ls slots.2) instrs.2,
    instrs.2, slots.2)

/-- The source positions of the instructions that are copied, at the copies. -/
def copyPoints (instrOf : Nat → Option Nat) (ps : List SequencePoint) :
    List SequencePoint :=
  ps.filterMap fun p => (instrOf p.label).map fun c => { p with label := c }

/-- A new body, and lists of its own. -/
def newBody (h : Heap) (is ls : List Nat) (ps : List SequencePoint)
    (initLocals : Bool) : Heap × Nat :=
  let instrs := h.alloc (.pointers is)
  let locals := instrs.1.alloc (.pointers ls)
  let points := locals.1.alloc (.points ps)
  points.1.alloc (.body ⟨instrs.2, locals.2, points.2, initLocals⟩)

/-- A copy of a body: the heap with it, its address, and the map from the
instructions to their copies. -/
def clone (h : Heap) (b : Nat) : Heap × Nat × (Nat → Option Nat) :=
  let code := h.copyCode (h.instrs b) (h.locals b)
  let instrOf := copies (h.instrs b) code.2.1
  let copy := code.1.newBody code.2.1 code.2.2
    (copyPoints instrOf (h.points (h.bodyObj b).points))
      (h.bodyObj b).initLocals
  (copy.1, copy.2, instrOf)

/-- A copy of a parameter, with a list of attributes of its own. -/
def duplicateParam (h : Heap) (p : Nat) : Heap × Nat :=
  let list := h.alloc (.pointers (h.pointers (h.paramObj p).attributes))
  list.1.alloc (.param { h.paramObj p with attributes := list.2 })

/-- Copies of parameters, one by one. -/
def duplicateParams (h : Heap) : List Nat → Heap × List Nat
  | [] => (h, [])
  | p :: ps =>
    let first := h.duplicateParam p
    let rest := first.1.duplicateParams ps
    (rest.1, first.2 :: rest.2)

/-- A copy of the code of a method, if it has any. -/
def cloneBody? (h : Heap) : Option Nat → Heap × Option Nat
  | none => (h, none)
  | some b => ((h.clone b).1, some (h.clone b).2.1)

/-- New lists of parameters, of generic parameters and of attributes. -/
def newLists (h : Heap) (params : List Nat) (generics : List String)
    (attributes : List Nat) :
    Heap × Nat × Nat × Nat :=
  let ps := h.alloc (.pointers params)
  let gs := ps.1.alloc (.names generics)
  let as := gs.1.alloc (.pointers attributes)
  (as.1, ps.2, gs.2, as.2)

/-- What a method is under another name and without its code, with lists of its
own. -/
def duplicateHead (h : Heap) (m : Nat) (name : String) : Heap × MethodObj :=
  let o := h.methodObj m
  let params := h.duplicateParams (h.pointers o.params)
  let lists := params.1.newLists params.2 (h.names o.genericParams)
    (h.pointers o.attributes)
  (lists.1, { o with
    name, params := lists.2.1, genericParams := lists.2.2.1, attributes :=
      lists.2.2.2,
    body := none })

/-- A copy of a method under another name: the heap with it, and its address. -/
def cloneMethod (h : Heap) (m : Nat) (name : String) : Heap × Nat :=
  let head := h.duplicateHead m name
  let code := head.1.cloneBody? (h.methodObj m).body
  code.1.alloc (.method { head.2 with body := code.2 })

variable {h h' : Heap} {a b c m : Nat} {o : Obj} {as cs : List Nat} {n : Nat}
variable {instrOf slotOf : Nat → Option Nat}

/-! ## No dangling pointers -/

theorem Closed.alloc (hh : h.Closed) (ho : ∀ p ∈ o.refs, p < h.size) :
    (h.alloc o).1.Closed := by
  intro o' ho' p hp
  rw [size_alloc]
  rcases List.mem_append.1 ho' with ho' | ho'
  · exact Nat.lt_succ_of_lt (hh o' ho' p hp)
  · rw [List.mem_singleton.1 ho'] at hp
    exact Nat.lt_succ_of_lt (ho p hp)

theorem Closed.write (hh : h.Closed) (ho : ∀ p ∈ o.refs, p < h.size) :
    (h.write a o).Closed := by
  intro o' ho' p hp
  rw [size_write]
  rcases List.mem_or_eq_of_mem_set ho' with ho' | rfl
  · exact hh o' ho' p hp
  · exact ho p hp

theorem Closed.duplicate (hh : h.Closed) : (h.duplicate a).1.Closed := by
  refine hh.alloc ?_
  cases ho : h.get? a with
  | none => simp [default, Obj.refs]
  | some o => exact hh.refs_lt ho

theorem Closed.duplicateAll (hh : h.Closed) : (h.duplicateAll as).1.Closed := by
  induction as generalizing h with
  | nil => exact hh
  | cons a as ih => exact ih hh.duplicate

/-! ## The addresses of copies -/

@[simp]
theorem size_duplicate : (h.duplicate a).1.size = h.size + 1 :=
  size_alloc

@[simp]
theorem duplicate_snd : (h.duplicate a).2 = h.size :=
  rfl

theorem size_duplicateAll :
    (h.duplicateAll as).1.size = h.size + as.length := by
  induction as generalizing h with
  | nil => rfl
  | cons a as ih =>
    show ((h.duplicate a).1.duplicateAll as).1.size = _
    rw [ih, size_duplicate, List.length_cons]
    omega

theorem keeps_duplicateAll : Keeps h.size h (h.duplicateAll as).1 := by
  induction as generalizing h with
  | nil => exact Keeps.refl _ _
  | cons a as ih =>
    refine (keeps_alloc h _).trans (ih.mono ?_)
    rw [size_alloc]
    exact Nat.le_succ _

/-- Copies follow each other. -/
theorem duplicateAll_snd :
    (h.duplicateAll as).2 = List.range' h.size as.length := by
  induction as generalizing h with
  | nil => rfl
  | cons a as ih =>
    show (h.duplicate a).2 :: ((h.duplicate a).1.duplicateAll as).2 = _
    rw [ih, size_duplicate, duplicate_snd, List.length_cons, List.range'_succ]

/-- The copies are the same as the originals. -/
theorem get?_duplicateAll (has : ∀ a ∈ as, a < h.size) :
    List.Forall₂ (fun a c => (h.duplicateAll as).1.get? c = h.get? a) as
      (h.duplicateAll as).2 := by
  induction as generalizing h with
  | nil => exact .nil
  | cons a as ih =>
    obtain ⟨ha, has⟩ := List.forall_mem_cons.1 has
    have hkeeps : Keeps h.size h (h.duplicate a).1 := keeps_alloc h _
    refine .cons ?_ ?_
    · show ((h.duplicate a).1.duplicateAll as).1.get? h.size = h.get? a
      rw [keeps_duplicateAll.get _ (by simp), duplicate, get?_alloc_self]
      obtain ⟨o, ho⟩ : ∃ o, h.get? a = some o :=
        ⟨_, List.getElem?_eq_getElem ha⟩
      rw [ho, Option.getD_some]
    · refine List.Forall₂.imp ?_
        ((List.forall₂_and_left _ _).2 ⟨has, ih fun p hp => ?_⟩)
      · rintro p c ⟨hp, hc⟩
        exact hc.trans (hkeeps.get p hp)
      · rw [size_duplicate]
        exact Nat.lt_succ_of_lt (has p hp)

/-- The objects `cs` are new and are the same as `as`. -/
structure Duplicated (h : Heap) (as : List Nat) (h' : Heap) (cs : List Nat) :
    Prop where
  /-- what there was is as it was -/
  keeps : Keeps h.size h h'
  /-- no pointer dangles -/
  closed : h'.Closed
  /-- each is made for one position -/
  nodup : cs.Nodup
  /-- they are new -/
  new : ∀ c ∈ cs, h.size ≤ c ∧ c < h'.size
  /-- they are the same -/
  same : List.Forall₂ (fun a c => h'.get? c = h.get? a) as cs

theorem duplicateAll_duplicated (hh : h.Closed) (has : ∀ a ∈ as, a < h.size) :
    Duplicated h as (h.duplicateAll as).1 (h.duplicateAll as).2 where
  keeps := keeps_duplicateAll
  closed := hh.duplicateAll
  nodup := duplicateAll_snd ▸ List.nodup_range'
  new c hc := by
    rw [duplicateAll_snd, List.mem_range'_1] at hc
    rwa [size_duplicateAll]
  same := get?_duplicateAll has

/-- An object goes to the copy at its last position. -/
theorem copies_eq (hlen : as.length = cs.length) :
    copies as cs a = (lastIndex? as a).bind (cs[·]?) := by
  induction as using List.reverseRecOn generalizing cs with
  | nil => simp [copies, lastIndex?]
  | append_singleton as x ih =>
    obtain ⟨cs, c, rfl⟩ : ∃ cs' c, cs = cs' ++ [c] :=
      ⟨cs.dropLast, cs.getLast
        (List.ne_nil_of_length_pos (by simp at hlen; omega)),
        (List.dropLast_append_getLast _).symm⟩
    have hlen : as.length = cs.length := by simpa using hlen
    have hstep : copies (as ++ [x]) (cs ++ [c]) = Function.update (copies as cs)
        x (some c) := by
      rw [copies, List.zip_append hlen, List.foldl_append]
      rfl
    rw [hstep, lastIndex?_append_singleton, Function.update_apply]
    by_cases hx : a = x
    · rw [if_pos hx, if_pos (by simp [hx])]
      simp [hlen]
    · rw [if_neg hx, if_neg (by simpa using Ne.symm hx), ih hlen]
      cases hn : lastIndex? as a with
      | none => rfl
      | some n =>
        obtain ⟨hn, -⟩ := lastIndex?_eq_some_iff.1 hn
        obtain ⟨hlt, -⟩ := List.getElem?_eq_some_iff.1 hn
        exact (List.getElem?_append_left (hlen ▸ hlt)).symm

theorem copies_eq_none_iff (hlen : as.length = cs.length) :
    copies as cs a = none ↔ a ∉ as := by
  rw [copies_eq hlen, ← lastIndex?_eq_none_iff]
  constructor
  · intro hnone
    by_contra hsome
    obtain ⟨n, hn⟩ := Option.ne_none_iff_exists'.1 hsome
    obtain ⟨hget, -⟩ := lastIndex?_eq_some_iff.1 hn
    obtain ⟨hlt, -⟩ := List.getElem?_eq_some_iff.1 hget
    rw [hn, Option.bind_some] at hnone
    exact absurd (List.getElem?_eq_none_iff.1 hnone) (Nat.not_le.2 (hlen ▸ hlt))
  · intro hnone
    rw [hnone]
    rfl

theorem mem_of_copies (hlen : as.length = cs.length)
    (hc : copies as cs a = some c) : c ∈ cs := by
  rw [copies_eq hlen] at hc
  obtain ⟨n, -, hn⟩ := Option.bind_eq_some_iff.1 hc
  exact List.mem_of_getElem? hn

theorem exists_of_mem_right {α β : Type} {R : α → β → Prop} {xs : List α}
    {ys : List β} (hxs : List.Forall₂ R xs ys) {y : β} (hy : y ∈ ys) :
    ∃ x ∈ xs, R x y := by
  induction hxs with
  | nil => cases hy
  | cons hxy _ ih =>
    rcases List.mem_cons.1 hy with rfl | hy
    · exact ⟨_, List.mem_cons_self, hxy⟩
    · obtain ⟨x, hx, hxy⟩ := ih hy
      exact ⟨x, List.mem_cons_of_mem _ hx, hxy⟩

theorem forall₂_and_right {α β : Type} {R : α → β → Prop} {P : β → Prop}
    {xs : List α} {ys : List β} (hxs : List.Forall₂ R xs ys)
    (hys : ∀ y ∈ ys, P y) :
    List.Forall₂ (fun x y => R x y ∧ P y) xs ys := by
  induction hxs with
  | nil => exact .nil
  | cons hxy _ ih =>
    obtain ⟨hy, hys⟩ := List.forall_mem_cons.1 hys
    exact .cons ⟨hxy, hy⟩ (ih hys)

/-! ## Pointing at copies -/

/-- The value is the copy of the other one: it points at the copies, by a list
of its own that is not below an address. -/
inductive Linked (n : Nat) (instrOf slotOf : Nat → Option Nat) (h h' : Heap) :
    Value → Value → Prop
  | plain {o : Operand} {ho : o.isPlain} : Linked n instrOf slotOf h h'
    (.plain o ho) (.plain o ho)
  | slot {a : Nat} : Linked n instrOf slotOf h h' (.slot a)
    (.slot ((slotOf a).getD a))
  | target {a : Nat} : Linked n instrOf slotOf h h' (.target a)
    (.target ((instrOf a).getD a))
  | targets {list own : Nat} : n ≤ own → own < h'.size →
    h'.pointers own = (h.pointers list).map (fun a => (instrOf a).getD a) →
    Linked n instrOf slotOf h h' (.targets list) (.targets own)

theorem Closed.retarget (hh : h.Closed)
    (hinstr : ∀ a c, instrOf a = some c → c < h.size)
    (hslot : ∀ a c, slotOf a = some c → c < h.size) :
    (h.retarget instrOf slotOf c).Closed := by
  have hgetD : ∀ {f : Nat → Option Nat}, (∀ a c, f a = some c → c < h.size) →
    ∀ a < h.size,
      (f a).getD a < h.size := by
    intro f hf a ha
    cases hfa : f a with
    | none => exact ha
    | some c => exact hf a c hfa
  unfold Heap.retarget
  split
  · rename_i op a hc
    refine hh.write ?_
    simp only [Obj.refs, List.mem_singleton, forall_eq]
    exact hgetD hslot a (hh.slot_lt (congrArg Prod.snd hc))
  · rename_i op a hc
    refine hh.write ?_
    simp only [Obj.refs, List.mem_singleton, forall_eq]
    exact hgetD hinstr a (hh.target_lt (congrArg Prod.snd hc))
  · refine (hh.alloc ?_).write ?_
    · simp only [Obj.refs, List.mem_map, forall_exists_index, and_imp,
        forall_apply_eq_imp_iff₂]
      exact fun a ha => hgetD hinstr a (hh.pointers_lt a ha)
    · simp [Obj.refs]
  · exact hh

theorem size_le_size_retarget :
    h.size ≤ (h.retarget instrOf slotOf c).size := by
  unfold retarget
  split <;> simp

theorem get?_retarget_of_ne (hne : c ≠ a) (ha : a < h.size) :
    (h.retarget instrOf slotOf c).get? a = h.get? a := by
  unfold retarget
  split
  · exact get?_write_of_ne hne
  · exact get?_write_of_ne hne
  · exact (get?_write_of_ne hne).trans ((keeps_alloc h _).get a ha)
  · rfl

/-- What was changed is now the copy of what it was. -/
theorem linked_retarget (hc : c < h.size) :
    ((h.retarget instrOf slotOf c).instr c).1 = (h.instr c).1 ∧
      Linked h.size instrOf slotOf h (h.retarget instrOf slotOf c) (h.instr c).2
        ((h.retarget instrOf slotOf c).instr c).2 := by
  have hwrite : ∀ {g : Heap} {op v}, c < g.size →
      (g.write c (.instr op v)).instr c = (op, v) := by
    intro g op v hg
    simp only [instr, get?_write_self hg]
  unfold retarget
  split
  · rename_i op a hi
    rw [hwrite hc, hi]
    exact ⟨rfl, .slot⟩
  · rename_i op a hi
    rw [hwrite hc, hi]
    exact ⟨rfl, .target⟩
  · rename_i op list hi
    rw [hwrite (by simpa using Nat.lt_succ_of_lt hc), hi]
    refine ⟨rfl, .targets (Nat.le_refl _) (by simp) ?_⟩
    dsimp only
    rw [pointers, alloc_snd, get?_write_of_ne (Nat.ne_of_lt hc),
      get?_alloc_self]
  · rename_i hslot htarget htargets
    refine ⟨rfl, ?_⟩
    cases hv : (h.instr c).2 with
    | plain o ho => exact .plain
    | slot a => exact (hslot _ a (Prod.ext rfl hv)).elim
    | target a => exact (htarget _ a (Prod.ext rfl hv)).elim
    | targets list => exact (htargets _ list (Prod.ext rfl hv)).elim

theorem Linked.imp {v v' : Value} {h₁ h₁' : Heap} {n' : Nat}
    (hv : Linked n instrOf slotOf h h' v v') (hn : n' ≤ n)
    (hsize : h'.size ≤ h₁'.size)
    (hlist : ∀ list, v = .targets list → h₁.pointers list = h.pointers list)
    (hown : ∀ own, n ≤ own → own < h'.size →
      h₁'.pointers own = h'.pointers own) :
    Linked n' instrOf slotOf h₁ h₁' v v' := by
  cases hv with
  | plain => exact .plain
  | slot => exact .slot
  | target => exact .target
  | targets hge hlt hps =>
    refine .targets (Nat.le_trans hn hge) (Nat.lt_of_lt_of_le hlt hsize) ?_
    rw [hown _ hge hlt, hps, hlist _ rfl]

section

variable {N : Nat}

theorem size_le_size_retargetAll :
    h.size ≤ (h.retargetAll instrOf slotOf cs).size := by
  induction cs generalizing h with
  | nil => exact Nat.le_refl _
  | cons c cs ih => exact Nat.le_trans size_le_size_retarget ih

theorem get?_retargetAll (ha : a < h.size) (hcs : a ∉ cs) :
    (h.retargetAll instrOf slotOf cs).get? a = h.get? a := by
  induction cs generalizing h with
  | nil => rfl
  | cons c cs ih =>
    rw [List.mem_cons, not_or] at hcs
    obtain ⟨hc, hcs⟩ := hcs
    have hlt : a < (h.retarget instrOf slotOf c).size :=
      Nat.lt_of_lt_of_le ha size_le_size_retarget
    exact (ih hlt hcs).trans (get?_retarget_of_ne (Ne.symm hc) ha)

theorem Closed.retargetAll (hh : h.Closed)
    (hinstr : ∀ a c, instrOf a = some c → c < h.size)
    (hslot : ∀ a c, slotOf a = some c → c < h.size) :
    (h.retargetAll instrOf slotOf cs).Closed := by
  induction cs generalizing h with
  | nil => exact hh
  | cons c cs ih =>
    refine ih (hh.retarget hinstr hslot) (fun a c hc => ?_) fun a c hc => ?_
    · exact Nat.lt_of_lt_of_le (hinstr a c hc) size_le_size_retarget
    · exact Nat.lt_of_lt_of_le (hslot a c hc) size_le_size_retarget

/-- Instructions that are changed one by one become copies of what they were.
The lists that they had must not be among them. -/
theorem linked_retargetAll (hcs : cs.Nodup) (hlt : ∀ c ∈ cs, c < h.size)
    (hlists : ∀ c ∈ cs, ∀ list, (h.instr c).2 = .targets list → list < h.size ∧
      list ∉ cs) :
    ∀ c ∈ cs, ((h.retargetAll instrOf slotOf cs).instr c).1 = (h.instr c).1 ∧
      Linked h.size instrOf slotOf h (h.retargetAll instrOf slotOf cs)
        (h.instr c).2 ((h.retargetAll instrOf slotOf cs).instr c).2 := by
  induction cs generalizing h with
  | nil => simp
  | cons x cs ih =>
    obtain ⟨hx, hcs⟩ := List.nodup_cons.1 hcs
    obtain ⟨hltx, hlt⟩ := List.forall_mem_cons.1 hlt
    have hsize : h.size ≤ (h.retarget instrOf slotOf x).size :=
      size_le_size_retarget
    have hsame : ∀ c ∈ cs, (h.retarget instrOf slotOf x).instr c = h.instr c :=
      fun c hc =>
      instr_eq (get?_retarget_of_ne (fun heq => hx (heq ▸ hc)) (hlt c hc))
    have hrest := ih (h := h.retarget instrOf slotOf x) hcs
      (fun c hc => Nat.lt_of_lt_of_le (hlt c hc) hsize)
        fun c hc list hlist => by
        obtain ⟨hl, hnot⟩ := hlists c (List.mem_cons_of_mem _ hc) list
          (hsame c hc ▸ hlist)
        exact ⟨Nat.lt_of_lt_of_le hl hsize,
          fun hmem => hnot (List.mem_cons_of_mem _ hmem)⟩
    refine List.forall_mem_cons.2 ⟨?_, fun c hc => ?_⟩
    · -- the instruction itself, which the rest of the loop leaves alone
      obtain ⟨hop, hlinked⟩ :
          ((h.retarget instrOf slotOf x).instr x).1 = (h.instr x).1 ∧
            Linked h.size instrOf slotOf h (h.retarget instrOf slotOf x)
              (h.instr x).2 ((h.retarget instrOf slotOf x).instr x).2 :=
        linked_retarget hltx
      have hstay : (h.retargetAll instrOf slotOf (x :: cs)).instr x =
          (h.retarget instrOf slotOf x).instr x :=
        instr_eq (get?_retargetAll (Nat.lt_of_lt_of_le hltx hsize) hx)
      rw [hstay]
      refine ⟨hop, hlinked.imp (Nat.le_refl _) size_le_size_retargetAll
        (fun _ _ => rfl) ?_⟩
      intro own hge hown
      exact pointers_eq (get?_retargetAll hown fun hmem => absurd (hlt own hmem)
        (Nat.not_lt.2 hge))
    · obtain ⟨hop, hlinked⟩ := hrest c hc
      rw [hsame c hc] at hop hlinked
      refine ⟨hop, hlinked.imp hsize (Nat.le_refl _) (fun list hlist => ?_)
        fun _ _ _ => rfl⟩
      obtain ⟨hl, hnot⟩ := hlists c (List.mem_cons_of_mem _ hc) list hlist
      exact (pointers_eq (get?_retarget_of_ne (fun heq => hnot (by simp [heq]))
        hl)).symm

end

/-! ## Copies of code -/

/-- The instructions `is'` and the local variables `ls'` are new and are the
copies of `is` and `ls`; they point at each other. -/
structure CodeCopied (h : Heap) (is ls : List Nat) (h' : Heap)
    (is' ls' : List Nat) : Prop where
  /-- what there was is as it was -/
  keeps : Keeps h.size h h'
  /-- no pointer dangles -/
  closed : h'.Closed
  /-- every instruction has a copy of its own -/
  instrsNodup : is'.Nodup
  /-- every local variable has a copy of its own -/
  localsNodup : ls'.Nodup
  /-- the copies of the instructions are new -/
  newInstrs : ∀ a ∈ is', h.size ≤ a ∧ a < h'.size
  /-- the copies of the local variables are new -/
  newLocals : ∀ a ∈ ls', h.size ≤ a ∧ a < h'.size
  /-- the local variables -/
  slots : List.Forall₂ (fun a c => h'.slot c = h.slot a) ls ls'
  /-- the instructions -/
  code : List.Forall₂ (fun a c => (h'.instr c).1 = (h.instr a).1 ∧
    Linked h.size (copies is is') (copies ls ls') h h' (h.instr a).2
      (h'.instr c).2) is is'

section

variable {h'' : Heap} {is ls is' ls' : List Nat}

theorem CodeCopied.of_keeps (hcopied : CodeCopied h is ls h' is' ls')
    (hkeeps : Keeps h'.size h' h'') (hclosed : h''.Closed) :
    CodeCopied h is ls h'' is' ls' where
  keeps := hcopied.keeps.trans (hkeeps.mono hcopied.keeps.size)
  closed := hclosed
  instrsNodup := hcopied.instrsNodup
  localsNodup := hcopied.localsNodup
  newInstrs a ha := (hcopied.newInstrs a ha).imp_right
    (Nat.lt_of_lt_of_le · hkeeps.size)
  newLocals a ha := (hcopied.newLocals a ha).imp_right
    (Nat.lt_of_lt_of_le · hkeeps.size)
  slots := by
    refine List.Forall₂.imp ?_
      (forall₂_and_right hcopied.slots hcopied.newLocals)
    rintro a c ⟨hslot, -, hc⟩
    rw [slot_eq (hkeeps.get c hc), hslot]
  code := by
    refine List.Forall₂.imp ?_
      (forall₂_and_right hcopied.code hcopied.newInstrs)
    rintro a c ⟨⟨hop, hlinked⟩, -, hc⟩
    rw [instr_eq (hkeeps.get c hc)]
    exact ⟨hop, hlinked.imp (Nat.le_refl _) hkeeps.size (fun _ _ => rfl)
      fun own _ hown => pointers_eq (hkeeps.get own hown)⟩

/-- `copyCode` gives new copies that point at each other, and no other object
changes. -/
theorem copyCode_copied (hh : h.Closed) (his : ∀ a ∈ is, a < h.size)
    (hls : ∀ a ∈ ls, a < h.size) :
    CodeCopied h is ls (h.copyCode is ls).1 (h.copyCode is ls).2.1
      (h.copyCode is ls).2.2 := by
  obtain ⟨h₁, ls', hslots⟩ : ∃ h₁ ls', h.duplicateAll ls = (h₁, ls') :=
    ⟨_, _, rfl⟩
  obtain ⟨h₂, is', hinstrs⟩ : ∃ h₂ is', h₁.duplicateAll is = (h₂, is') :=
    ⟨_, _, rfl⟩
  have hdup₁ : Duplicated h ls h₁ ls' := by
    simpa [hslots] using duplicateAll_duplicated hh hls
  have hdup₂ : Duplicated h₁ is h₂ is' := by
    simpa [hinstrs] using duplicateAll_duplicated hdup₁.closed fun a ha =>
      Nat.lt_of_lt_of_le (his a ha) hdup₁.keeps.size
  have hsize₁ := hdup₁.keeps.size
  have hsize₂ := hdup₂.keeps.size
  have hsame : List.Forall₂ (fun a c => h₂.get? c = h.get? a) is is' := by
    refine List.Forall₂.imp ?_ ((List.forall₂_and_left _ _).2 ⟨his, hdup₂.same⟩)
    rintro a c ⟨ha, hc⟩
    exact hc.trans (hdup₁.keeps.get a ha)
  obtain ⟨h₃, hh₃⟩ : ∃ h₃, h₂.retargetAll (copies is is') (copies ls ls') is' =
    h₃ := ⟨_, rfl⟩
  have hsize₃ : h₂.size ≤ h₃.size := hh₃ ▸ size_le_size_retargetAll
  have hget₃ : ∀ a < h₁.size, h₃.get? a = h₁.get? a := by
    intro a ha
    rw [← hh₃, get?_retargetAll (by omega)
      fun hmem => absurd (hdup₂.new a hmem).1 (by omega)]
    exact hdup₂.keeps.get a ha
  -- the lists that the originals point at are older than the copies
  have hlinked : ∀ c ∈ is', (h₃.instr c).1 = (h₂.instr c).1 ∧
      Linked h₂.size (copies is is') (copies ls ls') h₂ h₃ (h₂.instr c).2
        (h₃.instr c).2 := by
    rw [← hh₃]
    refine linked_retargetAll hdup₂.nodup (fun a ha => (hdup₂.new a ha).2)
      fun c hc list hlist => ?_
    obtain ⟨a, -, hsame⟩ := exists_of_mem_right hsame hc
    have hold : list < h.size :=
      hh.targets_lt ((congrArg Prod.snd (instr_eq hsame)).symm.trans hlist)
    exact ⟨by omega, fun hmem => absurd (hdup₂.new list hmem).1 (by omega)⟩
  have hcode : h.copyCode is ls = (h₃, is', ls') := by
    simp only [copyCode, hslots, hinstrs, hh₃]
  rw [hcode]
  show CodeCopied h is ls h₃ is' ls'
  constructor
  case keeps =>
    exact ⟨by omega,
      fun a ha => (hget₃ a (by omega)).trans (hdup₁.keeps.get a ha)⟩
  case closed =>
    rw [← hh₃]
    refine hdup₂.closed.retargetAll (fun a c hc => ?_) fun a c hc => ?_
    · exact (hdup₂.new c (mem_of_copies hdup₂.same.length_eq hc)).2
    · exact Nat.lt_of_lt_of_le
        (hdup₁.new c (mem_of_copies hdup₁.same.length_eq hc)).2 hsize₂
  case instrsNodup => exact hdup₂.nodup
  case localsNodup => exact hdup₁.nodup
  case newInstrs =>
    intro a ha
    have := hdup₂.new a ha
    exact ⟨by omega, by omega⟩
  case newLocals =>
    intro a ha
    have := hdup₁.new a ha
    exact ⟨by omega, by omega⟩
  case slots =>
    refine List.Forall₂.imp ?_ (forall₂_and_right hdup₁.same
      fun a ha => (hdup₁.new a ha).2)
    rintro a c ⟨hsame, hc⟩
    exact slot_eq ((hget₃ c hc).trans hsame)
  case code =>
    refine List.Forall₂.imp ?_ (forall₂_and_right hsame hlinked)
    rintro a c ⟨hsame, hop, hlink⟩
    rw [instr_eq hsame] at hop hlink
    refine ⟨hop, hlink.imp (by omega) (Nat.le_refl _) (fun list hlist => ?_)
      fun _ _ _ => rfl⟩
    have hold : list < h.size := hh.targets_lt hlist
    rw [pointers_eq (hdup₂.keeps.get list (by omega)),
      pointers_eq (hdup₁.keeps.get list hold)]

end

end JobWeave.Objects.Heap
