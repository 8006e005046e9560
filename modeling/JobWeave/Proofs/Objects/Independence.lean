import Mathlib
import JobWeave.Proofs.Objects.Cloning

/-!
# Clones are independent

The clone of a body is written as the same bytes, what it points at is its own,
and edits of it are no edits of the body.  Up to labels it is `Body.distinct`,
and the clone of a method is `MethodDef.copyAs`.

* `Heap.IsClone`: what `Heap.clone` makes; `IsClone.copies` reads it as a body.
* `Heap.IsMethodClone`: what `Heap.cloneMethod` makes.
* `Heap.Independent`: a body and an equal body that shares no object with it.
* `Heap.clone_independent`: clones are such bodies.
-/

namespace JobWeave.Objects.Heap

variable {h h' h'' : Heap} {a b c m m' : Nat} {as cs ls ls' : List Nat}
  {n : Nat}
variable {instrOf slotOf : Nat → Option Nat} {fresh fresh' : Label}
  {bs : List UInt8}

/-! ## What a clone reads as -/

@[simp]
theorem labels_body : (h.body fresh b).labels = h.instrs b := by
  rw [Body.labels, body, List.map_map]
  exact List.map_id _

theorem mem_instrs_iff :
    (h.body fresh b).contains a = true ↔ a ∈ h.instrs b := by
  have hlabels : (h.body fresh b).labels = h.instrs b := labels_body
  rw [← hlabels, Body.contains_eq, Body.lastIndexOf?_eq,
    Option.isSome_iff_ne_none, Ne, lastIndex?_eq_none_iff, not_not]

/-- The copy of a value is the same operand with copies for labels. -/
theorem operand_of_linked {v v' : Value}
    (hv : Linked n instrOf (copies ls ls') h h' v v')
    (hlen : ls.length = ls'.length) (hown : ls'.Nodup)
    (hslot : ∀ a, v = .slot a → h'.slot a = h.slot a ∧ a ∉ ls') :
    h'.operand ls' v' = (h.operand ls v).relabel
      fun a => (instrOf a).getD a := by
  cases hv with
  | @plain o ho => exact (Operand.relabel_of_isPlain ho _).symm
  | target => rfl
  | targets _ _ hps => exact congrArg Operand.targets hps
  | @slot a =>
    obtain ⟨hsame, hnot⟩ := hslot a rfl
    simp only [operand]
    rw [copies_eq hlen]
    cases hn : lastIndex? ls a with
    | none =>
      rw [Option.bind_none, Option.getD_none, lastIndex?_eq_none_iff.2 hnot,
        hsame]
      rfl
    | some n =>
      obtain ⟨hget, -⟩ := lastIndex?_eq_some_iff.1 hn
      obtain ⟨hlt, -⟩ := List.getElem?_eq_some_iff.1 hget
      have hcopy : ls'[n]? = some (ls'.get ⟨n, hlen ▸ hlt⟩) :=
        List.getElem?_eq_getElem _
      rw [Option.bind_some, hcopy, Option.getD_some,
        lastIndex?_of_nodup hown hcopy]
      rfl

/-- The copied source positions are those of the instructions that are
copied. -/
theorem copyPoints_eq {ps : List SequencePoint} :
    copyPoints instrOf ps =
      (ps.filter fun p => (instrOf p.label).isSome).map
        (·.relabel fun a => (instrOf a).getD a) := by
  induction ps with
  | nil => rfl
  | cons p ps ih =>
    cases hp : instrOf p.label with
    | none => simpa [copyPoints, hp] using ih
    | some c => simpa [copyPoints, hp, SequencePoint.relabel] using ih

/-- The body `c` is made of copies of what the body `b` is made of. -/
structure IsClone (h : Heap) (b : Nat) (h' : Heap) (c : Nat) : Prop
    extends CodeCopied h (h.instrs b) (h.locals b) h' (h'.instrs c)
      (h'.locals c) where
  /-- it is in the heap -/
  lt : c < h'.size
  /-- whether local variables are initialised -/
  initLocals : (h'.bodyObj c).initLocals = (h.bodyObj b).initLocals
  /-- the source positions -/
  points : h'.points (h'.bodyObj c).points =
    copyPoints (copies (h.instrs b) (h'.instrs c))
      (h.points (h.bodyObj b).points)
  /-- it is new, and has lists of its own -/
  new : h.size ≤ c ∧ h.size ≤ (h'.bodyObj c).instrs ∧
    h.size ≤ (h'.bodyObj c).locals ∧ h.size ≤ (h'.bodyObj c).points

section

variable {is : List Nat} {ps : List SequencePoint} {i : Bool}

theorem newBody_eq : h.newBody is ls ps i =
    (⟨h.objs ++ [.pointers is, .pointers ls, .points ps,
      .body ⟨h.size, h.size + 1, h.size + 2, i⟩]⟩, h.size + 3) := by
  simp [newBody, alloc, size]

theorem keeps_newBody : Keeps h.size h (h.newBody is ls ps i).1 := by
  rw [newBody_eq]
  exact ⟨by simp [size], fun a ha => List.getElem?_append_left ha⟩

theorem Closed.newBody (hh : h.Closed) (his : ∀ a ∈ is, a < h.size)
    (hls : ∀ a ∈ ls, a < h.size) (hps : ∀ p ∈ ps, p.label < h.size) :
    (h.newBody is ls ps i).1.Closed := by
  refine Closed.alloc (Closed.alloc (Closed.alloc (hh.alloc his) ?_) ?_) ?_
  · exact fun a ha => by simpa using Nat.lt_succ_of_lt (hls a ha)
  · intro a ha
    obtain ⟨p, hp, rfl⟩ := List.mem_map.1 ha
    have hlt := Nat.lt_succ_of_lt (Nat.lt_succ_of_lt (hps p hp))
    simpa using hlt
  · simp [Obj.refs]
    omega

theorem bodyObj_newBody :
    (h.newBody is ls ps i).1.bodyObj (h.newBody is ls ps i).2 =
      ⟨h.size, h.size + 1, h.size + 2, i⟩ := by
  rw [newBody_eq]
  simp [bodyObj, get?, size]

theorem instrs_newBody :
    (h.newBody is ls ps i).1.instrs (h.newBody is ls ps i).2 = is := by
  rw [instrs, bodyObj_newBody, newBody_eq]
  simp [pointers, get?, size]

theorem locals_newBody :
    (h.newBody is ls ps i).1.locals (h.newBody is ls ps i).2 = ls := by
  rw [locals, bodyObj_newBody, newBody_eq]
  simp [pointers, get?, size]

theorem points_newBody :
    (h.newBody is ls ps i).1.points
      ((h.newBody is ls ps i).1.bodyObj (h.newBody is ls ps i).2).points =
        ps := by
  rw [bodyObj_newBody, newBody_eq]
  simp [points, get?, size]

end

/-- What `clone` makes, and its map. -/
theorem clone_isClone (hh : h.Closed) (b : Nat) :
    IsClone h b (h.clone b).1 (h.clone b).2.1 ∧
      (h.clone b).2.2 = copies (h.instrs b)
        ((h.clone b).1.instrs (h.clone b).2.1) := by
  have hcopied := copyCode_copied hh (hh.instrs_lt (b := b))
    (hh.locals_lt (b := b))
  obtain ⟨h₁, is, ls, hcode⟩ : ∃ h₁ is ls,
      h.copyCode (h.instrs b) (h.locals b) = (h₁, is, ls) :=
    ⟨_, _, _, rfl⟩
  rw [hcode] at hcopied
  replace hcopied : CodeCopied h (h.instrs b) (h.locals b) h₁ is ls := hcopied
  simp only [clone, hcode]
  have hpoints :
    ∀ p ∈ copyPoints (copies (h.instrs b) is) (h.points (h.bodyObj b).points),
      p.label < h₁.size := by
    intro p hp
    obtain ⟨q, -, hq⟩ := List.mem_filterMap.1 hp
    obtain ⟨c, hc, rfl⟩ := Option.map_eq_some_iff.1 hq
    exact (hcopied.newInstrs c (mem_of_copies hcopied.code.length_eq hc)).2
  have hclosed := hcopied.closed.newBody (i := (h.bodyObj b).initLocals)
    (fun a ha => (hcopied.newInstrs a ha).2)
      (fun a ha => (hcopied.newLocals a ha).2) hpoints
  refine ⟨{ toCodeCopied := ?_, lt := ?_, initLocals := ?_, points := ?_,
            new := ?_ }, ?_⟩
  · rw [instrs_newBody, locals_newBody]
    exact hcopied.of_keeps keeps_newBody hclosed
  · rw [newBody_eq]
    simp [size]
  · rw [bodyObj_newBody]
  · rw [points_newBody, instrs_newBody]
  · have := hcopied.keeps.size
    rw [bodyObj_newBody, newBody_eq]
    refine ⟨?_, ?_, ?_, ?_⟩ <;> dsimp only <;> omega
  · rw [instrs_newBody]

namespace IsClone

variable (hc : IsClone h b h' c)

include hc

/-- A clone stands in for the body. -/
theorem copies (hh : h.Closed) :
    (h.body fresh b).Copies (h'.body fresh' c)
      fun l => (Heap.copies (h.instrs b) (h'.instrs c) l).getD l where
  locals := by
    have hslots : List.Forall₂ (· = ·) ((h.locals b).map fun a => (h.slot a).1)
        ((h'.locals c).map fun a => (h'.slot a).1) :=
      List.forall₂_map_left_iff.2 (List.forall₂_map_right_iff.2
        (hc.slots.imp fun _ _ hslot => congrArg Prod.fst hslot.symm))
    rw [List.forall₂_eq_eq_eq] at hslots
    exact hslots.symm
  initLocals := hc.initLocals
  index l n hl := by
    rw [Body.lastIndexOf?_eq, labels_body] at hl ⊢
    obtain ⟨hget, -⟩ := lastIndex?_eq_some_iff.1 hl
    obtain ⟨hlt, -⟩ := List.getElem?_eq_some_iff.1 hget
    have hlen : n < (h'.instrs c).length := hc.code.length_eq ▸ hlt
    have hcopy : (h'.instrs c)[n]? = some (h'.instrs c)[n] :=
      List.getElem?_eq_getElem hlen
    rw [copies_eq hc.code.length_eq, hl, Option.bind_some, hcopy,
      Option.getD_some]
    exact lastIndex?_of_nodup hc.instrsNodup hcopy
  code := by
    refine List.forall₂_map_left_iff.2
      (List.forall₂_map_right_iff.2 (hc.code.imp ?_))
    rintro i j ⟨hop, hlinked⟩
    refine ⟨hop, operand_of_linked hlinked hc.slots.length_eq hc.localsNodup
      fun a ha => ?_⟩
    have hlt := hh.slot_lt ha
    exact ⟨slot_eq (hc.keeps.get a hlt),
      fun hmem => absurd (hc.newLocals a hmem).1 (Nat.not_le.2 hlt)⟩
  points := by
    show h'.points (h'.bodyObj c).points = _
    rw [hc.points, copyPoints_eq]
    refine congrArg (List.map _) (List.filter_congr fun p _ => ?_)
    rw [Bool.eq_iff_iff, mem_instrs_iff, Option.isSome_iff_ne_none, Ne,
      copies_eq_none_iff hc.code.length_eq, not_not]

/-- All that an edit of a clone changes is new. -/
theorem bodyParts_new : ∀ a ∈ h'.bodyParts c, h.size ≤ a := by
  obtain ⟨hnew, hinstrs, hlocals, hpoints⟩ := hc.new
  intro a ha
  simp only [bodyParts, List.mem_append, List.mem_cons, List.not_mem_nil,
    or_false, List.mem_flatMap] at ha
  rcases ha with (((rfl | rfl | rfl | rfl) | ha) | ha) | ⟨i, hi, ha⟩
  · exact hnew
  · exact hinstrs
  · exact hlocals
  · exact hpoints
  · exact (hc.newInstrs a ha).1
  · exact (hc.newLocals a ha).1
  · obtain ⟨j, -, -, hlinked⟩ := exists_of_mem_right hc.code hi
    unfold targetLists at ha
    cases hv : (h'.instr i).2 with
    | targets own =>
      rw [hv] at hlinked ha
      rw [List.mem_singleton.1 ha]
      generalize (h.instr j).2 = v at hlinked
      cases hlinked with
      | targets hge _ _ => exact hge
    | _ =>
      rw [hv] at ha
      cases ha

end IsClone

/-! ## What a body points at -/

theorem eq_target_of_operand {v : Value} {l : Label}
    (hv : h.operand ls v = .target l) :
    v = .target l := by
  cases v with
  | plain o ho =>
    rw [show o = .target l from hv] at ho
    cases ho
  | slot a =>
    simp only [operand] at hv
    split at hv <;> cases hv
  | target a =>
    cases hv
    rfl
  | targets list => cases hv

theorem exists_slot_of_operand {v : Value} {k : Nat}
    (hv : h.operand ls v = .slot (.slot k)) :
    ∃ a ∈ ls, v = .slot a := by
  cases v with
  | plain o ho =>
    rw [show o = .slot (.slot k) from hv] at ho
    cases ho
  | slot a =>
    simp only [operand] at hv
    split at hv
    · rename_i n hn
      exact ⟨a, List.mem_of_getElem? (lastIndex?_eq_some_iff.1 hn).1, rfl⟩
    · cases hv
  | target a => cases hv
  | targets list => cases hv

/-- What a body that is written points at is in it. -/
theorem inside_of_body (hb : Codec.body (h.body fresh b) = .ok bs) :
    h.Inside b where
  branch i hi hkind := by
    obtain ⟨l, hl, ho⟩ := Codec.branch_of_body hb (List.mem_map_of_mem hi) hkind
    exact ⟨l, labels_body ▸ hl, eq_target_of_operand ho⟩
  table i hi hkind list hlist := by
    have hlabels : (h.body fresh b).labels = h.instrs b := labels_body
    rw [← hlabels]
    exact Codec.table_of_body hb (List.mem_map_of_mem hi) hkind
      (by simp [labelled, hlist, operand])
  slot i hi hkind := by
    obtain ⟨n, -, ho⟩ := Codec.slot_of_body hb (List.mem_map_of_mem hi) hkind
    exact exists_slot_of_operand ho
  points p hp := mem_instrs_iff.1 (Codec.points_of_body hb p hp)

theorem Closed.mentions_lt (hh : h.Closed) :
    ∀ l ∈ (h.body fresh b).mentions, l < h.size := by
  intro l hl
  rcases List.mem_append.1 hl with hl | hl
  · rcases List.mem_append.1 hl with hl | hl
    · rw [labels_body] at hl
      exact hh.instrs_lt l hl
    · obtain ⟨i, hi, hl⟩ := List.mem_flatMap.1 hl
      obtain ⟨a, -, rfl⟩ := List.mem_map.1 hi
      simp only [labelled] at hl
      cases hv : (h.instr a).2 with
      | plain o ho =>
        rw [hv, show h.operand (h.locals b) (.plain o ho) = o from rfl,
          Operand.labels_of_isPlain ho] at hl
        cases hl
      | slot s =>
        rw [hv] at hl
        simp only [operand] at hl
        split at hl <;> cases hl
      | target t =>
        rw [hv] at hl
        exact List.mem_singleton.1 hl ▸ hh.target_lt hv
      | targets list =>
        rw [hv] at hl
        exact hh.pointers_lt l hl
  · obtain ⟨p, hp, rfl⟩ := List.mem_map.1 hl
    exact hh.points_lt p hp

/-! ## Independent bodies -/

/-- The body `c` is written as the bytes `bs`, as the body `b` was, and shares
no object with it. -/
structure Independent (h : Heap) (b : Nat) (bs : List UInt8) (h' : Heap)
    (c : Nat) : Prop where
  /-- it is written as the same bytes -/
  written : Codec.body (h'.body h'.size c) = .ok bs
  /-- what it points at is in it -/
  inside : h'.Inside c
  /-- the objects of the one are old -/
  old : ∀ a ∈ h.bodyParts b, a < h.size
  /-- the objects of the other are new -/
  new : ∀ a ∈ h'.bodyParts c, h.size ≤ a
  /-- after any edits of new objects the one is still written as these bytes -/
  spared : ∀ es : List Edit, (∀ e ∈ es, e.Spares h.size) →
    Codec.body ((h'.edits es).body h.size b) = .ok bs
  /-- up to labels it is the copy that the pass works with -/
  alike : (h.body h.size b).distinct.Alike (h'.body h'.size c)

section

variable {h₁ : Heap} (hc : IsClone h₁ b h' c) (hh : h.Closed) (hh₁ : h₁.Closed)
variable (hkeeps : Keeps h.size h h₁) (hb : b < h.size)

include hc hh hh₁ hkeeps hb

/-- A clone that is made after some objects were added stands in for the
body. -/
theorem IsClone.copies_of_keeps :
    (h.body h.size b).Copies (h'.body fresh' c)
      fun l => (Heap.copies (h₁.instrs b) (h'.instrs c) l).getD l :=
  hh.body_eq hkeeps hb _ ▸ hc.copies hh₁

/-- Up to labels it is the copy that the pass works with. -/
theorem IsClone.alike :
    (h.body h.size b).distinct.Alike (h'.body fresh' c) := by
  have hinstrs : (h.body h.size b).labels = h₁.instrs b := by
    rw [← hh.body_eq hkeeps hb, labels_body]
  refine (hc.copies_of_keeps hh hh₁ hkeeps hb).alike hh.mentions_lt
    (fun l hl => ?_) (labels_body ▸ hc.instrsNodup) ?_
  · rw [hinstrs] at hl
    rw [(copies_eq_none_iff hc.code.length_eq).2 hl, Option.getD_none]
  · intro l hl _ hmem
    rw [labels_body] at hmem
    have hold : l < h₁.size :=
      Nat.lt_of_lt_of_le (hh.mentions_lt l hl) hkeeps.size
    exact absurd (hc.newInstrs l hmem).1 (Nat.not_le.2 hold)

/-- It is independent of what there was. -/
theorem IsClone.independent (hbs : Codec.body (h.body h.size b) = .ok bs) :
    h.Independent b bs h' c := by
  have hcopies : (h.body h.size b).Copies (h'.body h'.size c)
      fun l => (Heap.copies (h₁.instrs b) (h'.instrs c) l).getD l :=
    hc.copies_of_keeps hh hh₁ hkeeps hb
  have hwritten := Codec.body_of_copies hcopies hbs
  constructor
  case written => exact hwritten
  case inside => exact inside_of_body hwritten
  case old => exact hh.bodyParts_lt hb
  case new => exact fun a ha => Nat.le_trans hkeeps.size (hc.bodyParts_new a ha)
  case spared =>
    intro es hes
    have hafter : Keeps h.size h (h'.edits es) :=
      (hkeeps.trans (hc.keeps.mono hkeeps.size)).trans
        (keeps_edits (Nat.le_trans hkeeps.size hc.keeps.size) hes)
    rw [hh.body_eq hafter hb]
    exact hbs
  case alike => exact hc.alike hh hh₁ hkeeps hb

end

/-- A clone stays one when objects are added. -/
theorem IsClone.of_keeps (hc : IsClone h b h' c) (hkeeps : Keeps h'.size h' h'')
    (hclosed : h''.Closed) : IsClone h b h'' c := by
  obtain ⟨hinstrs, hlocals, hpoints⟩ := hc.closed.bodyObj_lt hc.lt
  have hobj : h''.bodyObj c = h'.bodyObj c := bodyObj_eq (hkeeps.get c hc.lt)
  have hi : h''.instrs c = h'.instrs c := by
    rw [instrs, hobj, pointers_eq (hkeeps.get _ hinstrs), instrs]
  have hl : h''.locals c = h'.locals c := by
    rw [locals, hobj, pointers_eq (hkeeps.get _ hlocals), locals]
  refine { toCodeCopied := ?_, lt := Nat.lt_of_lt_of_le hc.lt hkeeps.size
           initLocals := by rw [hobj, hc.initLocals]
           points := ?_, new := by rw [hobj]; exact hc.new }
  · rw [hi, hl]
    exact hc.toCodeCopied.of_keeps hkeeps hclosed
  · rw [hobj, points_eq (hkeeps.get _ hpoints), hc.points, hi]

/-! ## Methods -/

/-- The parameters `ps'` are new, have lists of attributes of their own, and
read as `ps` do. -/
structure ParamsCopied (h : Heap) (ps : List Nat) (h' : Heap) (ps' : List Nat) :
    Prop where
  /-- what there was is as it was -/
  keeps : Keeps h.size h h'
  /-- no pointer dangles -/
  closed : h'.Closed
  /-- the parameters -/
  same : List.Forall₂ (fun p p' => h'.param p' = h.param p ∧ h.size ≤ p' ∧
    p' < h'.size ∧ h.size ≤ (h'.paramObj p').attributes) ps ps'

theorem keeps_duplicateParam {p : Nat} :
    Keeps h.size h (h.duplicateParam p).1 := by
  refine (keeps_alloc h _).trans ((keeps_alloc _ _).mono ?_)
  rw [size_alloc]
  exact Nat.le_succ _

theorem size_duplicateParam {p : Nat} :
    (h.duplicateParam p).1.size = h.size + 2 := by
  simp [duplicateParam]

theorem duplicateParam_snd {p : Nat} : (h.duplicateParam p).2 = h.size + 1 := by
  simp [duplicateParam]

theorem Closed.duplicateParam (hh : h.Closed) {p : Nat} :
    (h.duplicateParam p).1.Closed := by
  refine Closed.alloc (Closed.alloc hh ?_) ?_
  · exact fun a ha => hh.pointers_lt a ha
  · simp [Obj.refs]

theorem paramObj_duplicateParam {p : Nat} :
    (h.duplicateParam p).1.paramObj (h.size + 1) =
      { h.paramObj p with attributes := h.size } := by
  simp [duplicateParam, paramObj, get?, alloc, size]

theorem param_duplicateParam (hh : h.Closed) {p : Nat} :
    (h.duplicateParam p).1.param (h.size + 1) = h.param p := by
  have hpointers : (h.duplicateParam p).1.pointers h.size =
      h.pointers (h.paramObj p).attributes := by
    simp [duplicateParam, pointers, get?, alloc, size]
  have hattributes : (h.duplicateParam p).1.attributes h.size =
      h.attributes (h.paramObj p).attributes := by
    rw [attributes, hpointers, attributes]
    exact List.map_congr_left fun a ha =>
      attr_eq (keeps_duplicateParam.get a (hh.pointers_lt a ha))
  simp only [param, paramObj_duplicateParam, hattributes]

theorem duplicateParams_copied (hh : h.Closed) {ps : List Nat}
    (hps : ∀ p ∈ ps, p < h.size) :
    ParamsCopied h ps (h.duplicateParams ps).1 (h.duplicateParams ps).2 := by
  induction ps generalizing h with
  | nil => exact ⟨Keeps.refl _ _, hh, .nil⟩
  | cons p ps ih =>
    obtain ⟨hp, hps⟩ := List.forall_mem_cons.1 hps
    have hsize : (h.duplicateParam p).1.size = h.size + 2 := size_duplicateParam
    have hrest := ih (hh.duplicateParam (p := p)) fun q hq => by
      have := hps q hq
      omega
    have hkeeps : Keeps h.size h (h.duplicateParam p).1 := keeps_duplicateParam
    have hlt : h.size + 1 < (h.duplicateParam p).1.size := by omega
    refine ⟨hkeeps.trans (hrest.keeps.mono hkeeps.size), hrest.closed,
      .cons ?_ ?_⟩
    · rw [duplicateParam_snd]
      have hparam := hh.duplicateParam.param_eq hrest.keeps hlt
      have hobj := paramObj_eq (hrest.keeps.get _ hlt)
      rw [param_duplicateParam hh] at hparam
      rw [paramObj_duplicateParam] at hobj
      exact ⟨hparam, Nat.le_succ _, Nat.lt_of_lt_of_le hlt hrest.keeps.size,
        Nat.le_of_eq (congrArg ParamObj.attributes hobj).symm⟩
    · refine List.Forall₂.imp ?_
        ((List.forall₂_and_left _ _).2 ⟨hps, hrest.same⟩)
      rintro q q' ⟨hq, hsame, hge, hq', hattributes⟩
      rw [hh.param_eq hkeeps hq] at hsame
      exact ⟨hsame, Nat.le_trans hkeeps.size hge, hq',
        Nat.le_trans hkeeps.size hattributes⟩

/-- The method `o` is the method at `m` under another name and without its code,
and has lists and parameters of its own. -/
structure HeadCopied (h : Heap) (m : Nat) (name : String) (h' : Heap)
    (o : MethodObj) : Prop where
  /-- what there was is as it was -/
  keeps : Keeps h.size h h'
  /-- no pointer dangles -/
  closed : h'.Closed
  /-- all but the lists is the same -/
  same : o = { h.methodObj m with
    name, params := o.params, genericParams := o.genericParams, attributes :=
      o.attributes,
    body := none }
  /-- the lists are in the heap -/
  lt : o.params < h'.size ∧ o.genericParams < h'.size ∧ o.attributes < h'.size
  /-- the lists are new -/
  new : h.size ≤ o.params ∧ h.size ≤ o.genericParams ∧ h.size ≤ o.attributes
  /-- the generic parameters -/
  names : h'.names o.genericParams = h.names (h.methodObj m).genericParams
  /-- the attributes -/
  attributes : h'.attributes o.attributes = h.attributes
    (h.methodObj m).attributes
  /-- the parameters -/
  params : List.Forall₂ (fun p p' => h'.param p' = h.param p ∧ h.size ≤ p' ∧
    h.size ≤ (h'.paramObj p').attributes)
    (h.pointers (h.methodObj m).params) (h'.pointers o.params)

theorem newLists_eq {ps gs as} : h.newLists ps gs as =
    (⟨h.objs ++ [.pointers ps, .names gs, .pointers as]⟩, h.size, h.size + 1,
      h.size + 2) := by
  simp [newLists, alloc, size]

theorem Closed.newLists (hh : h.Closed) {ps gs as} (hps : ∀ p ∈ ps, p < h.size)
    (has : ∀ a ∈ as, a < h.size) : (h.newLists ps gs as).1.Closed := by
  refine Closed.alloc (Closed.alloc (hh.alloc hps) ?_) ?_
  · simp [Obj.refs]
  · exact fun a ha => by
      simpa using Nat.lt_succ_of_lt (Nat.lt_succ_of_lt (has a ha))

theorem duplicateHead_copied (hh : h.Closed) (m : Nat) (name : String) :
    HeadCopied h m name (h.duplicateHead m name).1
      (h.duplicateHead m name).2 := by
  obtain ⟨h₁, ps, hps⟩ : ∃ h₁ ps,
      h.duplicateParams (h.pointers (h.methodObj m).params) = (h₁, ps) :=
    ⟨_, _, rfl⟩
  have hparams : ParamsCopied h (h.pointers (h.methodObj m).params) h₁ ps := by
    have := duplicateParams_copied hh
        fun p (hp : p ∈ h.pointers (h.methodObj m).params) =>
      hh.pointers_lt p hp
    rwa [hps] at this
  have hsize := hparams.keeps.size
  obtain ⟨h₂, hh₂⟩ : ∃ h₂,
    h₂ = (h₁.newLists ps (h.names (h.methodObj m).genericParams)
      (h.pointers (h.methodObj m).attributes)).1 := ⟨_, rfl⟩
  have hresult : h.duplicateHead m name = (h₂, { h.methodObj m with
      name, params := h₁.size, genericParams := h₁.size + 1, attributes :=
        h₁.size + 2,
      body := none }) := by
    simp only [duplicateHead, hps, hh₂, newLists_eq]
  have hclosed : h₂.Closed := hh₂ ▸ hparams.closed.newLists
    (fun p hp => by
      obtain ⟨q, -, -, -, hlt, -⟩ := exists_of_mem_right hparams.same hp
      exact hlt)
    fun a ha => Nat.lt_of_lt_of_le (hh.pointers_lt a ha) hsize
  rw [newLists_eq] at hh₂
  have hkeeps₂ : Keeps h₁.size h₁ h₂ :=
    hh₂ ▸ ⟨by simp [size], fun a ha => List.getElem?_append_left ha⟩
  have hkeeps : Keeps h.size h h₂ := hparams.keeps.trans (hkeeps₂.mono hsize)
  have hsize₂ : h₂.size = h₁.size + 3 := by simp [hh₂, size]
  rw [hresult]
  dsimp only
  constructor
  case keeps => exact hkeeps
  case closed => exact hclosed
  case same => rfl
  case lt => exact ⟨by simp [hsize₂], by simp [hsize₂], by simp [hsize₂]⟩
  case new => exact ⟨hsize, Nat.le_succ_of_le hsize,
    Nat.le_succ_of_le (Nat.le_succ_of_le hsize)⟩
  case names => simp [hh₂, names, get?, size]
  case attributes =>
    have hlist : h₂.pointers (h₁.size + 2) =
        h.pointers (h.methodObj m).attributes := by
      simp [hh₂, pointers, get?, size]
    rw [Heap.attributes, hlist, Heap.attributes]
    exact List.map_congr_left fun a ha => attr_eq
      (hkeeps.get a (hh.pointers_lt a ha))
  case params =>
    have hlist : h₂.pointers h₁.size = ps := by simp [hh₂, pointers, get?, size]
    rw [hlist]
    refine hparams.same.imp ?_
    rintro p p' ⟨hsame, hge, hlt, hattributes⟩
    rw [hparams.closed.param_eq hkeeps₂ hlt, paramObj_eq (hkeeps₂.get _ hlt)]
    exact ⟨hsame, hge, hattributes⟩

/-- The method `m'` is a copy of `m` under another name, with code that is a
clone. -/
structure IsMethodClone (h : Heap) (m : Nat) (name : String) (h' : Heap)
    (m' : Nat) : Prop where
  /-- what there was is as it was -/
  keeps : Keeps h.size h h'
  /-- no pointer dangles -/
  closed : h'.Closed
  /-- all but the name and the code reads the same -/
  head : { h'.method h'.size m' with body := none } =
    { h.method h.size m with name, body := none }
  /-- the code is a clone that was made after some objects were added -/
  body : Option.Rel (fun b c => ∃ h₁, Keeps h.size h h₁ ∧ h₁.Closed ∧
    IsClone h₁ b h' c) (h.methodObj m).body (h'.methodObj m').body
  /-- it is new, and has lists and parameters of its own -/
  new : ∀ a ∈ h'.methodParts m', h.size ≤ a

/-- The code of a copied method is a clone. -/
theorem cloneBody?_spec (hh : h.Closed) (o : Option Nat) :
    Keeps h.size h (h.cloneBody? o).1 ∧ (h.cloneBody? o).1.Closed ∧
      Option.Rel (fun b c => IsClone h b (h.cloneBody? o).1 c) o
        (h.cloneBody? o).2 := by
  cases o with
  | none => exact ⟨Keeps.refl _ _, hh, .none⟩
  | some b =>
    obtain ⟨hclone, -⟩ := clone_isClone hh b
    exact ⟨hclone.keeps, hclone.closed, .some hclone⟩

/-- What `cloneMethod` makes. -/
theorem cloneMethod_isMethodClone (hh : h.Closed) (m : Nat) (name : String) :
    IsMethodClone h m name (h.cloneMethod m name).1
      (h.cloneMethod m name).2 := by
  obtain ⟨h₁, o, hhead⟩ : ∃ h₁ o, h.duplicateHead m name = (h₁, o) :=
    ⟨_, _, rfl⟩
  have hcopied : HeadCopied h m name h₁ o := by
    have := duplicateHead_copied hh m name
    rwa [hhead] at this
  obtain ⟨h₂, body, hcode⟩ : ∃ h₂ body, h₁.cloneBody? (h.methodObj m).body =
      (h₂, body) :=
    ⟨_, _, rfl⟩
  obtain ⟨hkeeps₂, hclosed₂, hbody⟩ :=
    cloneBody?_spec hcopied.closed (h.methodObj m).body
  rw [hcode] at hkeeps₂ hclosed₂ hbody
  dsimp only at hkeeps₂ hclosed₂ hbody
  have hresult : h.cloneMethod m name = h₂.alloc (.method { o with body }) := by
    simp only [cloneMethod, hhead, hcode]
  obtain ⟨h₃, hh₃⟩ : ∃ h₃, h₃ = (h₂.alloc (.method { o with body })).1 :=
    ⟨_, rfl⟩
  have hkeeps₃ : Keeps h₂.size h₂ h₃ := hh₃ ▸ keeps_alloc h₂ _
  have hlists := hcopied.lt
  have hclosed₃ : h₃.Closed := hh₃ ▸ hclosed₂.alloc fun a ha => by
    simp only [Obj.refs, List.cons_append, List.nil_append, List.mem_cons,
      Option.mem_toList] at ha
    have hsize := hkeeps₂.size
    rcases ha with rfl | rfl | rfl | ha
    · omega
    · omega
    · omega
    · rw [ha] at hbody
      generalize (h.methodObj m).body = b? at hbody
      cases hbody with
      | some hclone => exact hclone.lt
  have hafter : Keeps h₁.size h₁ h₃ := hkeeps₂.trans (hkeeps₃.mono hkeeps₂.size)
  have hobj : h₃.methodObj h₂.size = { o with body } := by
    rw [hh₃, methodObj, get?_alloc_self]
  have hpointers : h₃.pointers o.params = h₁.pointers o.params :=
    pointers_eq (hafter.get _ hlists.1)
  rw [hresult, ← hh₃, alloc_snd]
  constructor
  case keeps => exact hcopied.keeps.trans (hafter.mono hcopied.keeps.size)
  case closed => exact hclosed₃
  case head =>
    have hparams : (h₃.pointers o.params).map h₃.param =
        (h.pointers (h.methodObj m).params).map h.param := by
      rw [hpointers, List.map_congr_left fun p hp =>
        hcopied.closed.param_eq hafter (hcopied.closed.pointers_lt p hp)]
      have hsame : List.Forall₂ (· = ·) ((h.pointers (h.methodObj m).params).map
        h.param)
          ((h₁.pointers o.params).map h₁.param) :=
        List.forall₂_map_left_iff.2 (List.forall₂_map_right_iff.2
          (hcopied.params.imp fun _ _ hp => hp.1.symm))
      rw [List.forall₂_eq_eq_eq] at hsame
      exact hsame.symm
    have hgenerics : h₃.names o.genericParams =
        h.names (h.methodObj m).genericParams :=
      (names_eq (hafter.get _ hlists.2.1)).trans hcopied.names
    have hattributes : h₃.attributes o.attributes = h.attributes
        (h.methodObj m).attributes :=
      (hcopied.closed.attributes_eq hafter hlists.2.2).trans hcopied.attributes
    simp only [method, hobj, hparams, hgenerics, hattributes,
      congrArg MethodObj.name hcopied.same,
      congrArg MethodObj.flags hcopied.same,
      congrArg MethodObj.implFlags hcopied.same,
      congrArg MethodObj.ret hcopied.same]
  case body =>
    rw [hobj]
    dsimp only
    generalize (h.methodObj m).body = b? at hbody
    cases hbody with
    | none => exact .none
    | some hclone =>
      exact .some ⟨h₁, hcopied.keeps, hcopied.closed,
        hclone.of_keeps hkeeps₃ hclosed₃⟩
  case new =>
    obtain ⟨hparams, hgenerics, hattributes⟩ := hcopied.new
    intro a ha
    simp only [methodParts, hobj, hpointers, List.mem_append, List.mem_cons,
      List.not_mem_nil, or_false, List.mem_map] at ha
    rcases ha with ((rfl | rfl | rfl | rfl) | ha) | ⟨p', hp', rfl⟩
    · exact Nat.le_trans hcopied.keeps.size hkeeps₂.size
    · exact hparams
    · exact hgenerics
    · exact hattributes
    · obtain ⟨p, -, -, hge, -⟩ := exists_of_mem_right hcopied.params ha
      exact hge
    · obtain ⟨p, -, -, -, hge⟩ := exists_of_mem_right hcopied.params hp'
      rwa [paramObj_eq (hafter.get _ (hcopied.closed.pointers_lt p' hp'))]

theorem IsMethodClone.alike (hc : IsMethodClone h m name h' m') (hh : h.Closed)
    (hm : m < h.size) :
    ((h.method h.size m).copyAs name).Alike (h'.method h'.size m') where
  head := hc.head
  body := by
    have hlt := (hh.methodObj_lt hm).2.2.2
    have hbody := hc.body
    show Option.Rel Body.Alike ((((h.methodObj m).body).map (h.body h.size)).map
      Body.distinct) (((h'.methodObj m').body).map (h'.body h'.size))
    generalize (h.methodObj m).body = b? at hlt hbody ⊢
    generalize (h'.methodObj m').body = c? at hbody ⊢
    cases hbody with
    | none => exact .none
    | @some b c hclone =>
      obtain ⟨h₁, hkeeps, hh₁, hclone⟩ := hclone
      exact .some (hclone.alike hh hh₁ hkeeps (hlt b rfl))

/-- Clones are independent of what they are clones of, and the map of a clone
goes from the instructions to their copies. -/
theorem clone_independent (h : Heap) (hh : h.Closed) :
    (∀ b < h.size, ∀ bs, Codec.body (h.body h.size b) = .ok bs →
      h.Independent b bs (h.clone b).1 (h.clone b).2.1 ∧
      (h.body h.size b).Copies
        ((h.clone b).1.body (h.clone b).1.size (h.clone b).2.1)
        (fun l => ((h.clone b).2.2 l).getD l) ∧
      ∀ a, (h.clone b).2.2 a =
        (lastIndex? (h.instrs b) a).bind
          (((h.clone b).1.instrs (h.clone b).2.1)[·]?)) ∧
    ∀ m < h.size, ∀ name,
      ((h.method h.size m).copyAs name).Alike
        ((h.cloneMethod m name).1.method (h.cloneMethod m name).1.size
          (h.cloneMethod m name).2) ∧
      (∀ b, (h.methodObj m).body = some b →
        ∀ bs, Codec.body (h.body h.size b) = .ok bs →
          ∃ c, ((h.cloneMethod m name).1.methodObj
              (h.cloneMethod m name).2).body = some c ∧
            h.Independent b bs (h.cloneMethod m name).1 c) ∧
      (∀ a ∈ h.methodParts m, a < h.size) ∧
      (∀ a ∈ (h.cloneMethod m name).1.methodParts (h.cloneMethod m name).2,
        h.size ≤ a) ∧
      ∀ es : List Edit, (∀ e ∈ es, e.Spares h.size) →
        ((h.cloneMethod m name).1.edits es).method h.size m =
          h.method h.size m := by
  refine ⟨fun b hb bs hbs => ?_, fun m hm name => ?_⟩
  · obtain ⟨hclone, hmap⟩ := clone_isClone hh b
    refine ⟨hclone.independent hh hh (Keeps.refl _ _) hb hbs, ?_, fun a => ?_⟩
    · rw [hmap]
      exact hclone.copies hh
    · rw [hmap, copies_eq hclone.code.length_eq]
  · have hclone := cloneMethod_isMethodClone hh m name
    refine ⟨hclone.alike hh hm, fun b hb bs hbs => ?_, hh.methodParts_lt hm,
      hclone.new, fun es hes => ?_⟩
    · have hbody := hclone.body
      rw [hb] at hbody
      generalize ((h.cloneMethod m name).1.methodObj
        (h.cloneMethod m name).2).body = c? at hbody ⊢
      cases hbody with
      | @some _ c hbody =>
        obtain ⟨h₁, hkeeps, hh₁, hbody⟩ := hbody
        exact ⟨c, rfl, hbody.independent hh hh₁ hkeeps
          ((hh.methodObj_lt hm).2.2.2 b hb) hbs⟩
    · exact hh.method_eq (hclone.keeps.trans (keeps_edits hclone.keeps.size
        hes)) hm _

theorem isPlain_none : Operand.none.isPlain :=
  rfl

/-- A method with an attribute, whose code loops while a local variable is
set. -/
def loop : Heap where
  objs := [
    .instr .ldlocS (.slot 3),
    .instr .brtrueS (.target 0),
    .instr .ret (.plain .none isPlain_none),
    .slot ⟨.absent, "n"⟩ 0,
    .pointers [0, 1, 2],
    .pointers [3],
    .points [⟨0, "a", 1, 1⟩],
    .body ⟨4, 5, 6, true⟩,
    .attr { type := .absent },
    .pointers [8],
    .names [],
    .pointers [],
    .param ⟨"x", .absent, 0, 9⟩,
    .pointers [12],
    .method ⟨"Loop", 1, 0, .absent, 13, 10, 11, some 7⟩]

/-- Address 18 is the last instruction of the clone of the loop. -/
theorem loop_clone_independent :
    loop.Closed ∧
      Codec.body (loop.body loop.size 7) =
        .ok [1, 1, 0, 1, 110, 3, 15, 0, 48, 0, 45, 1, 0, 1, 97, 1, 1] ∧
      ((loop.clone 7).1.instrs (loop.clone 7).2.1)[2]? = some 18 ∧
      Codec.body (((loop.clone 7).1.edits
        [.write 18 (.instr .nop (.plain .none rfl))]).body
          loop.size 7) =
          .ok [1, 1, 0, 1, 110, 3, 15, 0, 48, 0, 45, 1, 0, 1, 97, 1, 1] ∧
      ∃ c, ((loop.cloneMethod 14 "Copy").1.methodObj
        (loop.cloneMethod 14 "Copy").2).body = some c ∧
        (loop.cloneMethod 14 "Copy").1.Inside c := by
  have hclosed : loop.Closed := by decide
  have hbytes : Codec.body (loop.body loop.size 7) =
      .ok [1, 1, 0, 1, 110, 3, 15, 0, 48, 0, 45, 1, 0, 1, 97, 1, 1] := by
    decide +kernel
  obtain ⟨hbody, hmethod⟩ := clone_independent loop hclosed
  obtain ⟨hclone, -, -⟩ := hbody 7 (by decide) _ hbytes
  obtain ⟨-, hcode, -, -, -⟩ := hmethod 14 (by decide) "Copy"
  obtain ⟨c, hc, hcopy⟩ := hcode 7 rfl _ hbytes
  refine ⟨hclosed, hbytes,
    by rfl, hclone.spared _ fun e he => ?_, c, hc, hcopy.inside⟩
  rw [List.mem_singleton.1 he]
  show loop.size ≤ 18
  decide

end JobWeave.Objects.Heap
