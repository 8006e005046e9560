import Mathlib
import JobWeave.Proofs.Body.Stores
import JobWeave.Proofs.Codec.Bodies
import JobWeave.Proofs.Codec.Parts

/-!
# Copies in the binary form

The binary form names instructions by their last positions.  So a body whose
instructions stand in for those of another one, position by position, is written
as the same bytes, whatever its labels are; in particular it may tell apart
instructions that are one in the other body.

* `lastIndex?` is the last position in a list, which `Body.lastIndexOf?` is for
  labels.
* `Body.Copies`: the second body stands in for the first one.
* `Codec.body_of_copies`: both are written the same.
* `Body.Copies.alike`: it is the only copy with labels of its own, up to those
  labels.
-/

namespace JobWeave

/-! ## Last positions -/

/-- The last position of an element. -/
def lastIndex? {α : Type} [BEq α] (xs : List α) (x : α) : Option Nat :=
  (xs.reverse.findIdx? (· == x)).map fun n => xs.length - 1 - n

section

variable {α : Type} [BEq α] [LawfulBEq α] {xs : List α} {x y : α} {n : Nat}

omit [LawfulBEq α] in
theorem lastIndex?_append_singleton :
    lastIndex? (xs ++ [y]) x = if y == x then some xs.length
    else lastIndex? xs x := by
  unfold lastIndex?
  rw [List.reverse_append, List.reverse_singleton, List.singleton_append,
    List.findIdx?_cons]
  split
  · simp
  · rw [Option.map_map]
    refine congrArg (fun f => Option.map f _) (funext fun n => ?_)
    simp only [Function.comp_apply, List.length_append, List.length_singleton]
    omega

/-- The last position has the element, and none after it has. -/
theorem lastIndex?_eq_some_iff :
    lastIndex? xs x = some n ↔ xs[n]? = some x ∧ ∀ m, n < m →
    xs[m]? ≠ some x := by
  induction xs using List.reverseRecOn with
  | nil => simp [lastIndex?]
  | append_singleton xs y ih =>
    rw [lastIndex?_append_singleton]
    have hget : ∀ m, (xs ++ [y])[m]? = if m = xs.length then some y
        else xs[m]? := by
      intro m
      rcases lt_trichotomy m xs.length with hm | rfl | hm
      · rw [List.getElem?_append_left hm, if_neg (Nat.ne_of_lt hm)]
      · simp
      · rw [if_neg (Nat.ne_of_gt hm), List.getElem?_eq_none (by simp; omega),
          List.getElem?_eq_none (Nat.le_of_lt hm)]
    simp only [hget]
    by_cases hy : y = x
    · subst hy
      rw [if_pos (beq_self_eq_true y), Option.some_inj]
      constructor
      · rintro rfl
        refine ⟨by simp, fun m hm => ?_⟩
        rw [if_neg (Nat.ne_of_gt hm), List.getElem?_eq_none (Nat.le_of_lt hm)]
        simp
      · rintro ⟨hn, hlast⟩
        by_contra hne
        rw [if_neg (Ne.symm hne)] at hn
        obtain ⟨hlt, -⟩ := List.getElem?_eq_some_iff.1 hn
        exact hlast xs.length hlt (by simp)
    · rw [if_neg (by simpa using hy), ih]
      constructor
      · rintro ⟨hn, hlast⟩
        obtain ⟨hlt, -⟩ := List.getElem?_eq_some_iff.1 hn
        refine ⟨by rw [if_neg (Nat.ne_of_lt hlt), hn], fun m hm => ?_⟩
        split
        · simpa using hy
        · exact hlast m hm
      · rintro ⟨hn, hlast⟩
        by_cases hlen : n = xs.length
        · rw [if_pos hlen, Option.some_inj] at hn
          exact absurd hn hy
        · rw [if_neg hlen] at hn
          refine ⟨hn, fun m hm => ?_⟩
          have := hlast m hm
          split at this
          · rename_i hmlen
            rw [List.getElem?_eq_none (Nat.le_of_eq hmlen.symm)]
            simp
          · exact this

theorem lastIndex?_eq_none_iff : lastIndex? xs x = none ↔ x ∉ xs := by
  unfold lastIndex?
  rw [Option.map_eq_none_iff, List.findIdx?_eq_none_iff]
  simp only [List.mem_reverse, beq_eq_false_iff_ne]
  exact ⟨fun h hx => h x hx rfl, fun h y hy he => h (he ▸ hy)⟩

theorem exists_lastIndex? (h : x ∈ xs) : ∃ n, lastIndex? xs x = some n :=
  Option.ne_none_iff_exists'.1 (mt lastIndex?_eq_none_iff.1 (not_not.2 h))

/-- In a list without repetitions every position is the last one. -/
theorem lastIndex?_of_nodup (hxs : xs.Nodup) (h : xs[n]? = some x) :
    lastIndex? xs x = some n := by
  refine lastIndex?_eq_some_iff.2 ⟨h, fun m hm hx => ?_⟩
  obtain ⟨hlt, hn⟩ := List.getElem?_eq_some_iff.1 h
  obtain ⟨hlt', hm'⟩ := List.getElem?_eq_some_iff.1 hx
  exact absurd (hxs.getElem_inj_iff.1 (hn.trans hm'.symm)) (Nat.ne_of_lt hm)

end

theorem Operand.relabel_congr {f g : Label → Label} {o : Operand}
    (h : ∀ l ∈ o.labels, f l = g l) : o.relabel f = o.relabel g := by
  cases o with
  | target l => exact congrArg Operand.target (h l List.mem_cons_self)
  | targets ls => exact congrArg Operand.targets (List.map_congr_left h)
  | _ => rfl

namespace Body

variable {b b' : Body} {l : Label} {n : Nat}

theorem lastIndexOf?_eq (b : Body) (l : Label) :
    b.lastIndexOf? l = lastIndex? b.labels l := by
  rw [lastIndexOf?, lastIndex?, length_labels]
  rfl

theorem contains_eq (b : Body) (l : Label) :
    b.contains l = (b.lastIndexOf? l).isSome := by
  rw [Bool.eq_iff_iff, contains_iff, lastIndexOf?_eq,
    Option.isSome_iff_ne_none, Ne, lastIndex?_eq_none_iff, not_not]
  simp [labels]

/-! ## Copies -/

/-- The second body stands in for the first one, position by position: what
points at an instruction of the one points at the same position of the other.
Source positions outside of the first body are left out. -/
structure Copies (b b' : Body) (f : Label → Label) : Prop where
  /-- the local variables -/
  locals : b'.locals = b.locals
  /-- whether they are initialised -/
  initLocals : b'.initLocals = b.initLocals
  /-- the instructions that are pointed at -/
  index : ∀ l n, b.lastIndexOf? l = some n → b'.lastIndexOf? (f l) = some n
  /-- the instructions -/
  code : List.Forall₂ (fun i j => j.op = i.op ∧ j.operand = i.operand.relabel f)
    b.code b'.code
  /-- the source positions -/
  points : b'.points = (b.points.filter fun p => b.contains p.label).map
    (·.relabel f)

end Body

namespace Codec

variable {b b' : Body} {f : Label → Label} {i j : Instr} {bs : List UInt8}

theorem target_of_copies (h : b.Copies b' f) {l : Label}
    (hl : target b l = .ok bs) :
    target b' (f l) = .ok bs := by
  unfold target at hl ⊢
  cases hn : b.lastIndexOf? l with
  | none => simp [hn] at hl
  | some n =>
    rw [hn] at hl
    rw [h.index l n hn]
    exact hl

theorem targets_of_copies (h : b.Copies b' f) {ls : List Label}
    {parts : List (List UInt8)} (hls : ls.mapM (target b) = .ok parts) :
    (ls.map f).mapM (target b') = .ok parts := by
  have hparts := forall₂_of_mapM hls
  clear hls
  induction hparts with
  | nil => rfl
  | cons hl _ ih =>
    rw [List.map_cons, List.mapM_cons, target_of_copies h hl, ih]
    rfl

/-- An operand is written the same. -/
theorem operand_of_copies (h : b.Copies b' f) (hop : j.op = i.op)
    (hoperand : j.operand = i.operand.relabel f)
    (hi : operand b i = .ok (.ok bs)) :
    operand b' j = .ok (.ok bs) := by
  unfold operand at hi ⊢
  rw [hop, hoperand, h.locals]
  cases ho : i.operand with
  | target l =>
    rw [ho] at hi
    cases hkind : i.op.info.operand with
    | branch =>
      rw [hkind] at hi
      exact congrArg _ (target_of_copies h (Except.ok.inj hi))
    | token =>
      rw [hkind] at hi
      cases hi
    | _ =>
      rw [hkind] at hi
      exact hi
  | targets ls =>
    rw [ho] at hi
    cases hkind : i.op.info.operand with
    | table =>
      rw [hkind] at hi
      obtain ⟨parts, hparts, hbs⟩ := bind_eq_ok_iff.1 (Except.ok.inj hi)
      exact congrArg _ (bind_eq_ok_iff.2 ⟨parts, targets_of_copies h hparts,
        hbs⟩)
    | token =>
      rw [hkind] at hi
      cases hi
    | _ =>
      rw [hkind] at hi
      exact hi
  | slot v =>
    rw [ho] at hi
    cases v <;> cases hkind : i.op.info.operand <;> rw [hkind] at hi <;>
      exact hi
  | field r =>
    rw [ho] at hi
    cases r <;> cases hkind : i.op.info.operand <;> rw [hkind] at hi <;>
      exact hi
  | method r =>
    rw [ho] at hi
    cases r <;> cases hkind : i.op.info.operand <;> rw [hkind] at hi <;>
      exact hi
  | _ =>
    rw [ho] at hi
    cases hkind : i.op.info.operand <;> rw [hkind] at hi <;> exact hi

theorem instr_of_copies (h : b.Copies b' f) (hop : j.op = i.op)
    (hoperand : j.operand = i.operand.relabel f) {n : Nat}
    (hi : instr b n i = .ok bs) :
    instr b' n j = .ok bs := by
  unfold instr at hi ⊢
  rw [hop]
  dsimp only at hi ⊢
  split at hi
  · cases hi
  · rename_i hvalid
    rw [if_neg hvalid]
    obtain ⟨r, hr, hi⟩ := bind_eq_ok_iff.1 hi
    cases r with
    | error why => cases hi
    | ok operandBytes =>
      exact bind_eq_ok_iff.2 ⟨_, operand_of_copies h hop hoperand hr, hi⟩

theorem code_of_copies (h : b.Copies b' f) {parts : List (List UInt8)} {k : Nat}
    {is js : List Instr}
    (hcode : List.Forall₂ (fun i j => j.op = i.op ∧
      j.operand = i.operand.relabel f) is js)
    (his : (is.mapIdx fun n i => (n + k, i)).mapM (fun x => instr b x.1 x.2) =
      .ok parts) :
    (js.mapIdx fun n j => (n + k, j)).mapM (fun x => instr b' x.1 x.2) =
      .ok parts := by
  induction hcode generalizing k parts with
  | nil => exact his
  | cons hij _ ih =>
    have hsucc : ∀ xs : List Instr, (xs.mapIdx fun n x => (n + 1 + k, x)) =
        xs.mapIdx fun n x => (n + (k + 1), x) := fun xs => by
      simp only [Nat.add_assoc, Nat.add_comm 1 k]
    simp only [List.mapIdx_cons, List.mapM_cons, hsucc] at his ⊢
    obtain ⟨part, hpart, his⟩ := bind_eq_ok_iff.1 his
    obtain ⟨rest, hrest, his⟩ := bind_eq_ok_iff.1 his
    exact bind_eq_ok_iff.2 ⟨part, instr_of_copies h hij.1 hij.2 hpart,
      bind_eq_ok_iff.2 ⟨rest, ih hrest, his⟩⟩

/-- Where all source positions are written, they are inside. -/
theorem contains_of_points {ps : List SequencePoint} {parts : List (List UInt8)}
    (h : ps.mapM (point b) = .ok parts) :
    ∀ p ∈ ps, b.contains p.label = true := by
  have hparts := forall₂_of_mapM h
  clear h
  induction hparts with
  | nil => simp
  | @cons p _ _ _ hp _ ih =>
    refine List.forall_mem_cons.2 ⟨?_, ih⟩
    rw [Body.contains_eq]
    unfold point target at hp
    cases hn : b.lastIndexOf? p.label with
    | none => simp [hn, unwritable, Outcome.fail] at hp
    | some n => rfl

theorem points_of_copies (h : b.Copies b' f) {ps : List SequencePoint}
    {parts : List (List UInt8)} (hps : ps.mapM (point b) = .ok parts) :
    (ps.map (·.relabel f)).mapM (point b') = .ok parts := by
  have hparts := forall₂_of_mapM hps
  clear hps
  induction hparts with
  | nil => rfl
  | @cons p part _ _ hp _ ih =>
    have hpart : point b' (p.relabel f) = .ok part := by
      unfold point at hp ⊢
      cases ht : target b p.label with
      | error why => simp [ht, unwritable, Outcome.fail] at hp
      | ok n =>
        rw [ht] at hp
        simp only [SequencePoint.relabel, target_of_copies h ht]
        exact hp
    rw [List.map_cons, List.mapM_cons, hpart, ih]
    rfl

/-! ## What a written body points at -/

theorem mem_labels_of_target {l : Label} (hl : target b l = .ok bs) :
    l ∈ b.labels := by
  unfold target at hl
  rw [Body.lastIndexOf?_eq] at hl
  cases hn : lastIndex? b.labels l with
  | none => simp [hn] at hl
  | some n =>
    obtain ⟨hget, -⟩ := lastIndex?_eq_some_iff.1 hn
    exact List.mem_of_getElem? hget

/-- The operands of a written body are written. -/
theorem exists_operand_of_body (hb : body b = .ok bs) (hi : i ∈ b.code) :
    ∃ part, operand b i = .ok (.ok part) := by
  obtain ⟨code, hcode, -⟩ := bind_eq_ok_iff.1 hb
  obtain ⟨n, hn, rfl⟩ := List.mem_iff_getElem.1 hi
  have hmem : (n, b.code[n]) ∈ b.code.mapIdx fun n i => (n, i) :=
    List.mem_mapIdx.2 ⟨n, hn, rfl⟩
  obtain ⟨k, hk, hget⟩ := List.mem_iff_getElem.1 hmem
  obtain ⟨hlen, hparts⟩ := List.forall₂_iff_get.1 (forall₂_of_mapM hcode)
  have hinstr := hparts k hk (hlen ▸ hk)
  rw [List.get_eq_getElem, hget] at hinstr
  unfold instr at hinstr
  dsimp only at hinstr
  split at hinstr
  · cases hinstr
  · obtain ⟨r, hr, hinstr⟩ := bind_eq_ok_iff.1 hinstr
    cases r with
    | error why => cases hinstr
    | ok part => exact ⟨part, hr⟩

/-- A branch that is written goes to an instruction of the body. -/
theorem branch_of_body (hb : body b = .ok bs) (hi : i ∈ b.code)
    (hkind : i.op.info.operand = .branch) :
    ∃ l ∈ b.labels, i.operand = .target l := by
  obtain ⟨part, hpart⟩ := exists_operand_of_body hb hi
  unfold operand at hpart
  rw [hkind] at hpart
  cases ho : i.operand with
  | target l =>
    rw [ho] at hpart
    exact ⟨l, mem_labels_of_target (Except.ok.inj hpart), rfl⟩
  | _ =>
    rw [ho] at hpart
    cases hpart

/-- So do the cases of a switch that is written. -/
theorem table_of_body (hb : body b = .ok bs) (hi : i ∈ b.code)
    (hkind : i.op.info.operand = .table) {ls : List Label}
    (ho : i.operand = .targets ls) :
    ∀ l ∈ ls, l ∈ b.labels := by
  obtain ⟨part, hpart⟩ := exists_operand_of_body hb hi
  unfold operand at hpart
  rw [hkind, ho] at hpart
  obtain ⟨parts, hparts, -⟩ := bind_eq_ok_iff.1 (Except.ok.inj hpart)
  have hall := forall₂_of_mapM hparts
  clear hpart ho hparts
  induction hall with
  | nil => simp
  | cons hl _ ih => exact List.forall_mem_cons.2 ⟨mem_labels_of_target hl, ih⟩

/-- A local variable that is written is one of the body. -/
theorem slot_of_body (hb : body b = .ok bs) (hi : i ∈ b.code)
    (hkind : i.op.info.operand = .slot) :
    ∃ n < b.locals.length, i.operand = .slot (.slot n) := by
  obtain ⟨part, hpart⟩ := exists_operand_of_body hb hi
  unfold operand at hpart
  rw [hkind] at hpart
  cases ho : i.operand with
  | slot v =>
    rw [ho] at hpart
    cases v with
    | slot n =>
      simp only at hpart
      split at hpart
      · rename_i hn
        exact ⟨n, hn, rfl⟩
      · cases hpart
    | foreign => cases hpart
  | _ =>
    rw [ho] at hpart
    cases hpart

/-- Source positions that are written are in the body. -/
theorem points_of_body (hb : body b = .ok bs) :
    ∀ p ∈ b.points, b.contains p.label = true := by
  obtain ⟨code, -, hb⟩ := bind_eq_ok_iff.1 hb
  obtain ⟨points, hpoints, -⟩ := bind_eq_ok_iff.1 hb
  exact contains_of_points hpoints

/-! ## The bytes of a copy -/

/-- A copy is written as the same bytes. -/
theorem body_of_copies (h : b.Copies b' f) (hb : body b = .ok bs) :
    body b' = .ok bs := by
  unfold body at hb ⊢
  obtain ⟨code, hcode, hb⟩ := bind_eq_ok_iff.1 hb
  obtain ⟨points, hpoints, hb⟩ := bind_eq_ok_iff.1 hb
  have hpoints' : b'.points.mapM (point b') = .ok points := by
    rw [h.points, List.filter_eq_self.2 (contains_of_points hpoints)]
    exact points_of_copies h hpoints
  rw [h.locals, h.initLocals]
  exact bind_eq_ok_iff.2 ⟨code, code_of_copies (k := 0) h h.code hcode,
    bind_eq_ok_iff.2 ⟨points, hpoints', hb⟩⟩

end Codec

namespace Body

variable {b : Body}

theorem locals_distinct (b : Body) : b.distinct.locals = b.locals := by
  unfold distinct
  dsimp only
  split <;> rfl

theorem initLocals_distinct (b : Body) :
    b.distinct.initLocals = b.initLocals := by
  unfold distinct
  dsimp only
  split <;> rfl

theorem points_distinct (b : Body) :
    b.distinct.points = b.points.filter fun p => b.contains p.label := by
  unfold distinct
  dsimp only
  split <;> rfl

/-! ## Copies with labels of their own -/

namespace Copies

variable {b' : Body} {f : Label → Label} {l : Label} {n : Nat}

theorem length_code (h : b.Copies b' f) : b'.code.length = b.code.length :=
  h.code.length_eq.symm

/-- How the labels of the body with an instruction of its own at every position
become those of a copy: an instruction that lost its label in the one has the
label of its position in the other. -/
def newLabel (b b' : Body) (f : Label → Label) (l : Label) : Label :=
  if l ∈ b.labels then f l else if b.fresh ≤ l then b'.labels.getD (l - b.fresh)
    l else l

/-- Labels go position by position. -/
theorem getElem?_newLabel (h : b.Copies b' f) (hb : b.Labelled)
    (hn : b.distinct.labels[n]? = some l) :
    b'.labels[n]? = some (newLabel b b' f l) := by
  rw [labels, code_distinct, List.getElem?_map, List.getElem?_mapIdx,
    Option.map_map, Option.map_eq_some_iff] at hn
  obtain ⟨i, hi, rfl⟩ := hn
  have hmem : i.label ∈ b.labels :=
    List.mem_map_of_mem (List.mem_of_getElem? hi)
  dsimp only [Function.comp_apply]
  split
  · rename_i hlast
    have hcopy := h.index _ n (by simpa using hlast)
    rw [lastIndexOf?_eq] at hcopy
    rw [newLabel, if_pos hmem]
    exact (lastIndex?_eq_some_iff.1 hcopy).1
  · -- the label is a new one, so no instruction of the first body has it
    have hnew : b.fresh + n ∉ b.labels := by
      intro hmem
      obtain ⟨j, hj, hlabel⟩ := List.mem_map.1 hmem
      exact absurd (hlabel ▸ hb j hj) (Nat.not_lt.2 (Nat.le_add_right _ _))
    have hlt : n < b'.labels.length := by
      rw [length_labels, h.length_code]
      exact (List.getElem?_eq_some_iff.1 hi).1
    dsimp only
    rw [newLabel, if_neg hnew, if_pos (Nat.le_add_right _ _),
      Nat.add_sub_cancel_left, List.getD_eq_getElem?_getD,
      List.getElem?_eq_getElem hlt, Option.getD_some]

/-- The instruction at the last position of a label keeps it. -/
theorem mem_labels_distinct (hl : l ∈ b.labels) : l ∈ b.distinct.labels := by
  obtain ⟨n, hn⟩ := exists_lastIndex? hl
  obtain ⟨hget, -⟩ := lastIndex?_eq_some_iff.1 hn
  rw [labels, List.getElem?_map] at hget
  obtain ⟨i, hi, rfl⟩ := Option.map_eq_some_iff.1 hget
  refine List.mem_of_getElem? (i := n) ?_
  rw [labels, code_distinct, List.getElem?_map, List.getElem?_mapIdx, hi]
  simp [lastIndexOf?_eq, hn]

theorem mentions_distinct (hl : l ∈ b.distinct.mentions) :
    l ∈ b.distinct.labels ∨ l ∈ b.mentions := by
  rcases List.mem_append.1 hl with hl | hl
  · rcases List.mem_append.1 hl with hl | hl
    · exact .inl hl
    · right
      obtain ⟨i, hi, hl⟩ := List.mem_flatMap.1 hl
      rw [code_distinct] at hi
      obtain ⟨n, hn, rfl⟩ := List.mem_mapIdx.1 hi
      have hmem : l ∈ b.code[n].operand.labels := by
        split at hl <;> exact hl
      exact List.mem_append_left _
        (List.mem_append_right _ (List.mem_flatMap.2 ⟨_,
          List.getElem_mem hn, hmem⟩))
  · right
    obtain ⟨p, hp, rfl⟩ := List.mem_map.1 hl
    rw [points_distinct] at hp
    exact List.mem_append_right _ (List.mem_map_of_mem (List.mem_filter.1 hp).1)

section

variable (h : b.Copies b' f) (hb : ∀ l ∈ b.mentions, l < b.fresh)
variable (hstay : ∀ l, l ∉ b.labels → f l = l)

include hb in
theorem labelled_of_mentions : b.Labelled := fun _ hi =>
  hb _ (List.mem_append_left
    _ (List.mem_append_left _ (List.mem_map_of_mem hi)))

include hb hstay

/-- What the first body mentions goes where the copy has it. -/
theorem newLabel_of_mem_mentions (hl : l ∈ b.mentions) :
    newLabel b b' f l = f l := by
  unfold newLabel
  split
  · rfl
  · rename_i hnot
    rw [if_neg (Nat.not_le.2 (hb l hl)), hstay l hnot]

include h

/-- Different labels stay different: those of instructions have different
positions, and what is no instruction's label stays and is none in the copy. -/
theorem injOn_newLabel (hown : b'.labels.Nodup)
    (hnew : ∀ l ∈ b.mentions, l ∉ b.labels → l ∉ b'.labels) :
    Set.InjOn (newLabel b b' f) {l | l ∈ b.distinct.mentions} := by
  have hspec : ∀ l ∈ b.distinct.labels, ∃ n : Nat,
    b.distinct.labels[n]? = some l ∧
      b'.labels[n]? = some (newLabel b b' f l) := by
    intro l hl
    obtain ⟨n, hn⟩ := List.mem_iff_getElem?.1 hl
    exact ⟨n, hn, getElem?_newLabel h (labelled_of_mentions hb) hn⟩
  have hother : ∀ l ∈ b.distinct.mentions, l ∉ b.distinct.labels →
      newLabel b b' f l = l ∧ l ∉ b'.labels := by
    intro l hl hnot
    have hl := (mentions_distinct hl).resolve_left hnot
    have hnot : l ∉ b.labels := fun hmem => hnot (mem_labels_distinct hmem)
    exact ⟨(newLabel_of_mem_mentions hb hstay hl).trans (hstay l hnot),
      hnew l hl hnot⟩
  intro l hl l' hl' heq
  by_cases hmem : l ∈ b.distinct.labels <;>
    by_cases hmem' : l' ∈ b.distinct.labels
  · obtain ⟨n, hn, hcopy⟩ := hspec l hmem
    obtain ⟨n', hn', hcopy'⟩ := hspec l' hmem'
    rw [← heq] at hcopy'
    obtain ⟨hlt, hget⟩ := List.getElem?_eq_some_iff.1 hcopy
    obtain ⟨hlt', hget'⟩ := List.getElem?_eq_some_iff.1 hcopy'
    have hnn : n = n' := hown.getElem_inj_iff.1 (hget.trans hget'.symm)
    exact Option.some.inj (hn.symm.trans (hnn ▸ hn'))
  · obtain ⟨n, -, hcopy⟩ := hspec l hmem
    obtain ⟨hstays, hnot⟩ := hother l' hl' hmem'
    exact absurd (List.mem_of_getElem? hcopy) (by rwa [heq, hstays])
  · obtain ⟨n, -, hcopy⟩ := hspec l' hmem'
    obtain ⟨hstays, hnot⟩ := hother l hl hmem
    exact absurd (List.mem_of_getElem? hcopy) (by rwa [← heq, hstays])
  · exact (hother l hl hmem).1.symm.trans (heq.trans (hother l' hl' hmem').1)

theorem code_eq_relabel :
    b'.code = b.distinct.code.map (·.relabel (newLabel b b' f)) := by
  refine List.ext_getElem (by simp [code_distinct, h.length_code])
    fun n hn hn' => ?_
  have hlt : n < b.code.length := h.length_code ▸ hn
  have hltd : n < b.distinct.code.length := by simpa [code_distinct] using hlt
  have hlabel : b'.code[n].label = newLabel b b' f
      b.distinct.code[n].label := by
    have hget : b.distinct.labels[n]? = some b.distinct.code[n].label := by
      rw [labels, List.getElem?_map, List.getElem?_eq_getElem hltd,
        Option.map_some]
    have hcopy := getElem?_newLabel h (labelled_of_mentions hb) hget
    rw [labels, List.getElem?_map, List.getElem?_eq_getElem hn, Option.map_some]
      at hcopy
    exact Option.some.inj hcopy
  obtain ⟨hop, hoperand⟩ := (List.forall₂_iff_get.1 h.code).2 n hlt hn
  have hrelabel : b.code[n].operand.relabel f = b.code[n].operand.relabel
      (newLabel b b' f) :=
    Operand.relabel_congr fun l hl => (newLabel_of_mem_mentions hb hstay
      (List.mem_append_left _ (List.mem_append_right _ (List.mem_flatMap.2 ⟨_,
        List.getElem_mem hlt, hl⟩)))).symm
  have hdistinct : b.distinct.code[n].op = b.code[n].op ∧
      b.distinct.code[n].operand = b.code[n].operand := by
    simp only [code_distinct, List.getElem_mapIdx]
    split <;> exact ⟨rfl, rfl⟩
  rw [List.getElem_map, Instr.relabel, ← hlabel, hdistinct.1, hdistinct.2,
    ← hrelabel]
  simp only [List.get_eq_getElem] at hop hoperand
  rw [← hop, ← hoperand]

/-- A copy with labels of its own is, up to labels, the body with an instruction
of its own at every position. -/
theorem alike (hown : b'.labels.Nodup)
    (hnew : ∀ l ∈ b.mentions, l ∉ b.labels → l ∉ b'.labels) :
    b.distinct.Alike b' where
  locals := h.locals.trans (locals_distinct b).symm
  initLocals := h.initLocals.trans (initLocals_distinct b).symm
  code := by
    refine ⟨newLabel b b' f, injOn_newLabel h hb hstay hown hnew,
      code_eq_relabel h hb hstay, ?_⟩
    rw [h.points, points_distinct]
    refine List.map_congr_left fun p hp => ?_
    have hmem : p.label ∈ b.mentions :=
      List.mem_append_right _ (List.mem_map_of_mem (List.mem_filter.1 hp).1)
    rw [SequencePoint.relabel, SequencePoint.relabel,
      newLabel_of_mem_mentions hb hstay hmem]

end

end Copies

end Body

end JobWeave
