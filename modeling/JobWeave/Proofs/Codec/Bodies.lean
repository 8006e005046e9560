import Mathlib
import JobWeave.Proofs.Codec.References

/-!
# Bodies in the binary form

A body is read back with the positions of its instructions as their labels.

* `Body.positionOf` is the position that an instruction is written as, and
  `Body.renumbered` the body with positions for labels.
* `written_body`: a body is written, and what is read back is `renumbered`.
* `Body.alike_renumbered`: that is the same body up to labels.
* `gives_readBody`: whatever is read fits and keeps its labels.
-/

namespace JobWeave

open Codec Bytes

/-! ## Positions -/

namespace Body

variable {b : Body} {l l' : Label} {n : Nat}

/-- The position that an instruction is written as. -/
def positionOf (b : Body) (l : Label) : Nat :=
  (b.lastIndexOf? l).getD 0

/-- The body with positions for labels. -/
def renumbered (b : Body) : Body :=
  { code := b.code.map (·.relabel b.positionOf)
    locals := b.locals
    points := b.points.map (·.relabel b.positionOf)
    initLocals := b.initLocals
    fresh := b.code.length }

@[simp]
theorem length_labels (b : Body) : b.labels.length = b.code.length := by
  simp [labels]

theorem lastIndexOf?_of_nodup (hb : b.labels.Nodup)
    (h : b.labels[n]? = some l) :
    b.lastIndexOf? l = some n := by
  obtain ⟨hn, rfl⟩ := List.getElem?_eq_some_iff.1 h
  have hlen : n < b.code.length := by simpa using hn
  have hfind : b.labels.reverse.findIdx? (· == b.labels[n]) =
      some (b.code.length - 1 - n) := by
    rw [List.findIdx?_eq_some_iff_getElem]
    refine ⟨by simp; omega, ?_, ?_⟩
    · have hpos : b.code.length - 1 - (b.code.length - 1 - n) = n := by omega
      simp [List.getElem_reverse, hpos]
    · intro k hk
      simp only [List.getElem_reverse, length_labels, beq_iff_eq]
      intro heq
      have := (hb.getElem_inj_iff).1 heq
      omega
  unfold lastIndexOf?
  rw [show b.code.map (·.label) = b.labels from rfl, hfind, Option.map_some]
  congr 1
  omega

/-- An instruction of the code is written as its position. -/
theorem positionOf_spec (hb : b.labels.Nodup) (h : l ∈ b.labels) :
    b.lastIndexOf? l = some (b.positionOf l) ∧
      b.labels[b.positionOf l]? = some l := by
  obtain ⟨n, hn⟩ := List.getElem?_of_mem h
  have hlast := lastIndexOf?_of_nodup hb hn
  have hpos : b.positionOf l = n := by rw [positionOf, hlast, Option.getD_some]
  rw [hpos]
  exact ⟨hlast, hn⟩

theorem positionOf_lt (hb : b.labels.Nodup) (h : l ∈ b.labels) :
    b.positionOf l < b.code.length := by
  obtain ⟨hlt, -⟩ := List.getElem?_eq_some_iff.1 (positionOf_spec hb h).2
  simpa using hlt

theorem positionOf_getElem (hb : b.labels.Nodup) (h : b.labels[n]? = some l) :
    b.positionOf l = n := by
  rw [positionOf, lastIndexOf?_of_nodup hb h, Option.getD_some]

/-- Different instructions are written as different positions. -/
theorem positionOf_inj (hb : b.labels.Nodup) (h : l ∈ b.labels)
    (h' : l' ∈ b.labels) (heq : b.positionOf l = b.positionOf l') : l = l' := by
  have hl := (positionOf_spec hb h).2
  have hl' := (positionOf_spec hb h').2
  rw [heq, hl'] at hl
  exact (Option.some.inj hl).symm

/-- Labels that are positions already stay. -/
theorem positionOf_range (hb : b.labels = List.range b.code.length)
    (h : l ∈ b.labels) :
    b.positionOf l = l := by
  have hnodup : b.labels.Nodup := hb ▸ List.nodup_range
  refine positionOf_getElem hnodup ?_
  rw [hb] at h ⊢
  exact List.getElem?_range (List.mem_range.1 h)

end Body

/-! ## Labels that are pointed at -/

theorem Operand.relabel_eq_self {f : Label → Label} {o : Operand}
    (h : ∀ l ∈ o.labels, f l = l) : o.relabel f = o := by
  cases o with
  | target l => simp [relabel, h l (by simp [labels])]
  | targets ls =>
    have hmap : ls.map f = ls.map id := List.map_congr_left h
    simp [relabel, hmap]
  | _ => rfl

theorem Operand.mem_labels_relabel {f : Label → Label} {o : Operand}
    {l : Label} :
    l ∈ (o.relabel f).labels ↔ ∃ k ∈ o.labels, f k = l := by
  cases o <;> simp [relabel, labels, eq_comm]

/-- Values point at no instruction. -/
theorem Operand.ValueFits.labels_eq_nil {strict : Bool} {o : Operand}
    (h : o.ValueFits strict) :
    o.labels = [] := by
  cases o <;> first | rfl | exact h.elim

theorem Operand.ValueFits.relabel {strict : Bool} {o : Operand}
    (h : o.ValueFits strict) (f : Label → Label) : o.relabel f = o :=
  relabel_eq_self (by simp [h.labels_eq_nil])

/-- An operand that points into a body does so with all its labels. -/
theorem Operand.Suits.mem_labels {strict : Bool} {b : Body} {kind : OperandKind}
    {o : Operand} (h : o.Suits strict b kind) {l : Label} (hl : l ∈ o.labels) :
    l ∈ b.labels := by
  cases o with
  | target k =>
    cases kind with
    | branch => simp_all [Suits, labels]
    | _ => exact h.elim
  | targets ks =>
    cases kind with
    | table => exact h.2 l hl
    | _ => exact h.elim
  | _ => simp [labels] at hl

namespace Body.Fits

variable {b : Body}

theorem mem_labels_of_mem_mentions (h : b.Fits true) {l : Label}
    (hl : l ∈ b.mentions) :
    l ∈ b.labels := by
  simp only [mentions, List.mem_append, List.mem_flatMap, List.mem_map] at hl
  rcases hl with (hl | ⟨i, hi, hl⟩) | ⟨p, hp, rfl⟩
  · exact hl
  · exact (h.operands i hi).mem_labels hl
  · exact h.placed rfl p hp

/-- With positions for labels a body is the same. -/
theorem alike_renumbered (h : b.Fits true) : b.Alike b.renumbered where
  locals := rfl
  initLocals := rfl
  code := by
    refine ⟨b.positionOf, ?_, rfl, rfl⟩
    intro l hl l' hl' heq
    exact positionOf_inj h.nodup (h.mem_labels_of_mem_mentions hl)
      (h.mem_labels_of_mem_mentions hl') heq

/-- A body that has positions for labels is what it is read back as. -/
theorem renumbered_eq_self (h : b.Fits true)
    (hlabels : b.labels = List.range b.code.length)
    (hfresh : b.fresh = b.code.length) (hdetached : b.detached = []) :
    b.renumbered = b := by
  have hstay : ∀ l ∈ b.labels, b.positionOf l = l :=
    fun _ => positionOf_range hlabels
  have hcode : b.code.map (·.relabel b.positionOf) = b.code.map id := by
    refine List.map_congr_left fun i hi => ?_
    have hlabel : b.positionOf i.label = i.label :=
      hstay _ (List.mem_map_of_mem hi)
    have hoperand : i.operand.relabel b.positionOf = i.operand :=
      Operand.relabel_eq_self fun l hl => hstay l
        ((h.operands i hi).mem_labels hl)
    simp [Instr.relabel, hlabel, hoperand]
  have hpoints : b.points.map (·.relabel b.positionOf) = b.points.map id := by
    refine List.map_congr_left fun p hp => ?_
    simp [SequencePoint.relabel, hstay _ (h.placed rfl p hp)]
  rw [List.map_id] at hcode hpoints
  unfold renumbered
  rw [hcode, hpoints, ← hfresh, ← hdetached]

end Body.Fits

namespace Codec

/-! ## Instructions -/

theorem reads_inside {size n : Nat} (h : n < size) :
    Reads (inside size n) [] () := by
  rw [inside, if_pos h]
  exact Reads.pure ()

theorem gives_inside {size n : Nat} :
    Gives (inside size n) fun _ => n < size := by
  unfold inside
  split
  · exact Gives.pure ‹_›
  · exact Gives.throw

section

variable {b : Body}

/-- The position of an instruction fits into 32 bits. -/
theorem reads_position (hb : b.Fits true) {l : Label} (h : l ∈ b.labels) :
    target b l = .ok (u32 (b.positionOf l)) ∧
      Reads Reader.u32 (u32 (b.positionOf l)) (b.positionOf l) := by
  have hlt := Body.positionOf_lt hb.nodup h
  have hcount : b.code.length ≤ maxCount := hb.codeCount
  have hmax : maxCount < 2 ^ 32 := by decide
  refine ⟨?_, reads_u32 (by omega)⟩
  rw [target, (Body.positionOf_spec hb.nodup h).1]

theorem reads_targets (hb : b.Fits true) {ls : List Label} (hn : ListFits ls)
    (h : ∀ l ∈ ls, l ∈ b.labels) :
    ∃ parts, ls.mapM (target b) = .ok parts ∧
      Reads (listOf Reader.u32) (counted parts) (ls.map b.positionOf) := by
  obtain ⟨parts, hparts, hreads⟩ := mapM_succeeds
    (R := fun l bs => Reads Reader.u32 bs (b.positionOf l)) fun l hl =>
      ⟨_, (reads_position hb (h l hl)).1, (reads_position hb (h l hl)).2⟩
  refine ⟨parts, hparts, reads_listOf ?_ (by simpa [ListFits] using hn)⟩
  rw [List.forall₂_map_right_iff]
  exact hreads.flip

/-- An operand is written, and read back with positions for labels. -/
theorem written_operand (hb : b.Fits true) {i : Instr}
    (h : i.operand.Suits true b i.op.info.operand) :
    ∃ bs, operand b i = .ok (.ok bs) ∧
      Reads (readOperand b.locals.length i.op.info.operand) bs
        (i.operand.relabel b.positionOf) := by
  unfold operand
  generalize i.op.info.operand = kind at h ⊢
  generalize i.operand = o at h ⊢
  match kind, o, h with
  | .none, .none, _ => exact ⟨_, rfl, Reads.pure _⟩
  | .arg, .arg n, h =>
    obtain ⟨hread, heq⟩ := reads_number h
    refine ⟨_, rfl, hread.bind_last ?_⟩
    rw [heq]
    exact Reads.pure _
  | .slot, .slot (.slot n), h =>
    have hlt : n < b.locals.length := h
    have hmax : maxCount < 2 ^ 32 := by decide
    have hcount : b.locals.length ≤ maxCount := hb.localCount
    refine ⟨u32 n, by simp [hlt], (reads_u32 (by omega)).bind_last ?_⟩
    rw [if_pos hlt]
    exact Reads.pure _
  | .int32, .int32 v, _ =>
    refine ⟨_, rfl, (reads_s32 v).bind_last ?_⟩
    rw [Int32.ofInt_toInt]
    exact Reads.pure _
  | .int64, .int64 v, _ =>
    refine ⟨_, rfl, (reads_s64 v).bind_last ?_⟩
    rw [Int64.ofInt_toInt]
    exact Reads.pure _
  | .float32, .float32 x, _ =>
    refine ⟨_, rfl, (reads_word32 x.toNat_lt).bind_last ?_⟩
    rw [UInt32.ofNat_toNat]
    exact Reads.pure _
  | .float64, .float64 x, _ =>
    refine ⟨_, rfl, (reads_word64 x.toNat_lt).bind_last ?_⟩
    rw [UInt64.ofNat_toNat]
    exact Reads.pure _
  | .text, .text s, h => exact ⟨_, rfl, (reads_name h).bind_last (Reads.pure _)⟩
  | .branch, .target l, h =>
    obtain ⟨htarget, hread⟩ := reads_position hb h
    exact ⟨_, by simp only [htarget], hread.bind_last (Reads.pure _)⟩
  | .table, .targets ls, h =>
    obtain ⟨parts, hparts, hread⟩ := reads_targets hb h.1 h.2
    exact ⟨_, by simp only [hparts]; rfl, hread.bind_last (Reads.pure _)⟩
  | .type, .type t, h =>
    exact ⟨_, rfl, (reads_typeRef h).bind_last (Reads.pure _)⟩
  | .field, .field (some f), h =>
    exact ⟨_, rfl, (reads_fieldRef h).bind_last (Reads.pure _)⟩
  | .method, .method (some m), h =>
    exact ⟨_, rfl, (reads_methodRef h).bind_last (Reads.pure _)⟩
  | .token, o, h =>
    have hvalue : o.ValueFits true := by cases o <;> exact h
    obtain ⟨bs, hbs, hread⟩ := reads_value hvalue
    refine ⟨bs, by simp only [hbs]; rfl, ?_⟩
    rw [hvalue.relabel]
    exact hread

theorem written_instr (hb : b.Fits true) {i : Instr} {n : Nat}
    (hi : b.code[n]? = some i) :
    Written (instr b n i) (readInstr b.locals.length n)
      (i.relabel b.positionOf) := by
  have hmem : i ∈ b.code := List.mem_of_getElem? hi
  have hpos : b.positionOf i.label = n :=
    Body.positionOf_getElem hb.nodup (by simp [Body.labels, hi])
  have hvalid := hb.known rfl i hmem
  obtain ⟨bs, hbs, hread⟩ := written_operand hb (hb.operands i hmem)
  have hraw : i.op.number.toNat < 2 ^ 32 :=
    i.op.number.toNat_lt.trans (by decide)
  refine ⟨u32 i.op.number.toNat ++ bs, ?_, (reads_u32 hraw).bind ?_⟩
  · simp only [instr, hvalid, hbs]
    rfl
  · simp only [UInt16.ofNat_toNat, Opcode.ofNumber_number i.op hvalid, hvalid]
    exact hread.bind_last (hpos ▸ Reads.pure _)

theorem written_point (hb : b.Fits true) {p : SequencePoint}
    (hp : p ∈ b.points) :
    Written (point b p) (readPoint b.code.length) (p.relabel b.positionOf) := by
  have hplaced := hb.placed rfl p hp
  have hfits := hb.points p hp
  obtain ⟨htarget, hread⟩ := reads_position hb hplaced
  obtain ⟨hline, hline'⟩ := reads_number hfits.line
  obtain ⟨hcolumn, hcolumn'⟩ := reads_number hfits.column
  refine ⟨u32 (b.positionOf p.label) ++
    (name p.document ++ (u32 p.line ++ u32 p.column)), ?_, ?_⟩
  · simp only [point, htarget, List.append_assoc]
  · have hinside := reads_inside (Body.positionOf_lt hb.nodup hplaced)
    refine hread.bind <| hinside.bind_first <|
      (reads_name hfits.document).bind <| hline.bind <| hcolumn.bind_last ?_
    rw [hline', hcolumn']
    exact Reads.pure _

/-- The code is read in order, each instruction at its position. -/
theorem reads_code {parts : List (List UInt8)}
    (hlen : parts.length = b.code.length) (h : ∀ n bs i, parts[n]? = some bs →
      b.code[n]? = some i → Reads (readInstr b.locals.length n) bs
        (i.relabel b.positionOf)) :
    Reads (times (readInstr b.locals.length) b.code.length 0) parts.flatten
      (b.code.map (·.relabel b.positionOf)) := by
  have hat : ∀ k bs a, parts[k]? = some bs →
    (b.code.map (·.relabel b.positionOf))[k]? = some a →
      Reads (readInstr b.locals.length (0 + k)) bs a := by
    intro k bs a hbs ha
    obtain ⟨i, hi, rfl⟩ := by simpa using ha
    rw [Nat.zero_add]
    exact h k bs i hbs hi
  simpa using reads_times 0 (by simpa using hlen) hat

/-- The code is written in order, and each instruction is read at its
position. -/
theorem written_code (hb : b.Fits true) :
    ∃ parts, ((b.code.mapIdx fun n i => (n, i)).mapM fun (n, i) => instr b n
      i) = .ok parts ∧ parts.length = b.code.length ∧
      Reads (times (readInstr b.locals.length) b.code.length 0) parts.flatten
        (b.code.map (·.relabel b.positionOf)) := by
  have hinstr : ∀ x ∈ b.code.mapIdx fun n i => (n, i), ∃ bs,
    instr b x.1 x.2 = .ok bs ∧
      Reads (readInstr b.locals.length x.1) bs (x.2.relabel b.positionOf) := by
    intro x hx
    obtain ⟨n, hn, rfl⟩ := List.mem_mapIdx.1 hx
    exact written_instr hb (List.getElem?_eq_getElem hn)
  obtain ⟨parts, hparts, hreads⟩ := mapM_succeeds hinstr
  have hlen : parts.length = b.code.length := by
    simpa using hreads.length_eq.symm
  refine ⟨parts, hparts, hlen, reads_code hlen fun n bs i hbs hi => ?_⟩
  obtain ⟨hn, rfl⟩ := List.getElem?_eq_some_iff.1 hbs
  obtain ⟨hn', rfl⟩ := List.getElem?_eq_some_iff.1 hi
  simpa using hreads.get (i := n) (by simpa using hn') hn

end

/-! ## Bodies -/

theorem reads_forM {α : Type} {f : α → Read Unit} {xs : List α}
    (h : ∀ x ∈ xs, Reads (f x) [] ()) : Reads (xs.forM f) [] () := by
  induction xs with
  | nil => exact Reads.pure ()
  | cons x xs ih =>
    exact (h x (by simp)).bind_first (ih fun y hy => h y (by simp [hy]))

theorem gives_forM {α : Type} {f : α → Read Unit} {Q : α → Prop} {xs : List α}
    (h : ∀ x ∈ xs, Gives (f x) fun _ => Q x) :
    Gives (xs.forM f) fun _ => ∀ x ∈ xs, Q x := by
  induction xs with
  | nil => exact Gives.pure (by simp)
  | cons x xs ih =>
    refine (h x (by simp)).bind
      fun _ hx => (ih fun y hy => h y (by simp [hy])).imp fun _ hxs => ?_
    simpa using ⟨hx, hxs⟩

/-- A body is read from its parts. -/
theorem reads_body {b : Body} (h : b.Fits true)
    {code points : List (List UInt8)} (hlen : code.length = b.code.length)
    (hcode : Reads (times (readInstr b.locals.length) b.code.length 0)
      code.flatten (b.code.map (·.relabel b.positionOf)))
    (hpoints : Reads (listOf (readPoint b.code.length)) (counted points)
      (b.points.map (·.relabel b.positionOf))) :
    Reads readBody (bool b.initLocals ++
      (counted (b.locals.map fun l => typeRef l.type ++ name l.name) ++
        (u32 code.length ++ (code.flatten ++ counted points))))
          b.renumbered := by
  have hlocals : Reads (listOf do
      let type ← readTypeRef
      return { type, name := ← Reader.name })
      (counted (b.locals.map fun l => typeRef l.type ++ name l.name))
          b.locals :=
    reads_all (fun l hl => (reads_typeRef (h.locals l hl).type).bind
      ((reads_name (h.locals l hl).name).bind_last (Reads.pure _))) h.localCount
  have hinside : Reads ((b.code.map (·.relabel b.positionOf)).forM fun i =>
      i.operand.labels.forM (inside b.code.length)) [] () := by
    refine reads_forM fun i hi => reads_forM fun l hl => reads_inside ?_
    obtain ⟨j, hj, rfl⟩ := List.mem_map.1 hi
    obtain ⟨k, hk, rfl⟩ := Operand.mem_labels_relabel.1 hl
    exact Body.positionOf_lt h.nodup ((h.operands j hj).mem_labels hk)
  rw [hlen]
  exact (reads_bool b.initLocals).bind <| hlocals.bind <|
    (reads_readCount h.codeCount).bind <| hcode.bind <| hinside.bind_first <|
      hpoints.bind_last <| Reads.pure _

/-- A body is written, and read back with positions for labels. -/
theorem written_body {b : Body} (h : b.Fits true) :
    Written (body b) readBody b.renumbered := by
  obtain ⟨code, hcode, hlen, hreadCode⟩ := written_code h
  obtain ⟨points, hpoints, hreadPoints⟩ := listOf_written
    (fun p hp => written_point h hp) h.pointCount
  refine ⟨_, ?_, reads_body h hlen hreadCode hreadPoints⟩
  simp only [body, hcode, hpoints, bind, Except.bind, pure, Except.pure,
    counted, List.append_assoc]

/-- An operand is of its kind, and suits every body that it points into. -/
theorem gives_readOperand (localCount : Nat) (kind : OperandKind) :
    Gives (readOperand localCount kind) fun o => ∀ b : Body,
    b.locals.length = localCount →
      (∀ l ∈ o.labels, l ∈ b.labels) → o.Suits true b kind := by
  cases kind with
  | none => exact Gives.pure fun _ _ _ => trivial
  | arg => exact gives_number.bind fun n hn => Gives.pure fun _ _ _ => hn
  | slot =>
    refine Gives.bind_any fun n => ?_
    split
    · rename_i hlt
      exact Gives.pure fun b hb _ => hlt.trans_eq hb.symm
    · exact Gives.throw
  | int32 | int64 | float32 | float64 =>
    exact Gives.bind_any fun _ => Gives.pure fun _ _ _ => trivial
  | text => exact gives_name.bind fun _ h => Gives.pure fun _ _ _ => h
  | branch =>
    exact Gives.bind_any fun l => Gives.pure
      fun _ _ hl => hl l (by simp [Operand.labels])
  | table =>
    exact (gives_listOf Gives.any).bind fun ls h => Gives.pure
      fun _ _ hl => ⟨h.1, hl⟩
  | type => exact gives_readTypeRef.bind fun _ h => Gives.pure fun _ _ _ => h
  | field => exact gives_readFieldRef.bind fun _ h => Gives.pure fun _ _ _ => h
  | method =>
    exact gives_readMethodRef.bind fun _ h => Gives.pure fun _ _ _ => h
  | token =>
    refine gives_readValue.imp fun o h _ _ _ => ?_
    cases o <;> exact h

/-- An instruction that was read at a position. -/
structure ReadAt (localCount n : Nat) (i : Instr) : Prop where
  /-- the position is its label -/
  label : i.label = n
  /-- the opcode is known -/
  known : i.op.isValid
  /-- the operand suits every body that it points into -/
  operand : ∀ b : Body, b.locals.length = localCount →
    (∀ l ∈ i.operand.labels, l ∈ b.labels) →
    i.operand.Suits true b i.op.info.operand

theorem gives_readInstr (localCount n : Nat) :
    Gives (readInstr localCount n) (ReadAt localCount n) := by
  refine Gives.bind_any fun raw => ?_
  simp only
  generalize Opcode.ofNumber (UInt16.ofNat raw) = op
  split
  · exact Gives.throw
  · rename_i hvalid
    exact (gives_readOperand _ _).bind fun o ho => Gives.pure ⟨rfl,
      by simpa using hvalid, ho⟩

theorem gives_readPoint (size : Nat) :
    Gives (readPoint size) fun p => p.Fits ∧ p.label < size :=
  Gives.bind_any fun _ => gives_inside.bind fun _ hlabel => gives_name.bind
      fun _ hdocument =>
    gives_number.bind fun _ hline => gives_number.bind fun _ hcolumn =>
      Gives.pure ⟨⟨hdocument, hline, hcolumn⟩, hlabel⟩

/-- Whatever is read as a body fits, and has positions for labels. -/
theorem gives_readBody :
    Gives readBody fun b => b.Fits true ∧ b.renumbered = b := by
  refine Gives.bind_any fun initLocals =>
    (gives_listOf (P := Local.Fits true) ?_).bind fun locals hlocals =>
    gives_readCount.bind fun size hsize =>
    (gives_times (gives_readInstr locals.length) size 0).bind fun code hcode =>
    (gives_forM fun i _ => gives_forM fun l _ => gives_inside).bind
        fun _ hinside =>
    (gives_listOf (gives_readPoint size)).bind fun points hpoints =>
      Gives.pure ?_
  · exact gives_readTypeRef.bind fun _ htype => gives_name.bind fun _ hname =>
      Gives.pure ⟨htype, hname⟩
  · obtain ⟨hlen, hread⟩ := hcode
    obtain ⟨b, hb⟩ : ∃ b : Body,
        b = { code, locals, points, initLocals, fresh := size } :=
      ⟨_, rfl⟩
    rw [← hb]
    have hlabels : b.labels = List.range b.code.length := by
      refine List.ext_getElem (by simp) fun k hk hk' => ?_
      have hk' : k < code.length := by simpa [hb] using hk
      have := (hread k _ (List.getElem?_eq_getElem hk')).label
      simpa [hb, Body.labels] using this
    have hmem : ∀ l, l < size → l ∈ b.labels := by
      intro l hl
      rw [hlabels, List.mem_range, hb]
      exact hlen.symm ▸ hl
    have hat : ∀ i ∈ b.code, ∃ k, ReadAt b.locals.length k i ∧ i ∈ code := by
      intro i hi
      rw [hb] at hi ⊢
      obtain ⟨k, hk⟩ := List.getElem?_of_mem hi
      exact ⟨_, hread k i hk, hi⟩
    have hfits : b.Fits true :=
      { localCount := hb ▸ hlocals.1
        locals := hb ▸ hlocals.2
        codeCount := by rw [ListFits, hb]; exact hlen.trans_le hsize
        nodup := hlabels ▸ List.nodup_range
        operands := by
          intro i hi
          obtain ⟨k, hik, hi⟩ := hat i hi
          exact hik.operand b rfl fun l hl => hmem l (hinside i hi l hl)
        pointCount := hb ▸ hpoints.1
        points := fun p hp => (hpoints.2 p (by simpa [hb] using hp)).1
        known := fun _ i hi => (hat i hi).choose_spec.1.known
        placed := fun _ p hp => hmem
          _ (hpoints.2 p (by simpa [hb] using hp)).2 }
    exact ⟨hfits, hfits.renumbered_eq_self hlabels (by simp [hb, hlen])
      (by rw [hb])⟩

end Codec

end JobWeave
