import Mathlib
import JobWeave.Proofs.Codec.Parts
import JobWeave.Proofs.Codec.RoundTrip

/-!
# Modules that are written but not accepted

Writing succeeds on modules that reading refuses: a writer looks at the opcodes,
the targets and the local variables of a body, a reader at the lengths of lists
and at the types that must not be missing.

* `decides_operand` and `decides_body`: what the writer has checked of a body is
  enough for all that is read of it but its parts.
* `decode_accepts_iff`: the bytes of a module are accepted exactly if all its
  parts are readable.
-/

namespace JobWeave

open Bytes

namespace Codec

variable {α β : Type} {P : α → Prop}

/-! ## Bodies -/

section

variable {b : Body}

theorem lastIndexOf?_lt {l : Label} {n : Nat} (h : b.lastIndexOf? l = some n) :
    n < b.code.length := by
  unfold Body.lastIndexOf? at h
  obtain ⟨k, hk, rfl⟩ := Option.map_eq_some_iff.1 h
  have hlt := (List.findIdx?_eq_some_iff_findIdx_eq.1 hk).1
  simp at hlt
  omega

/-- A target is written as a position inside the body. -/
theorem decides_target (hcount : b.code.length ≤ maxCount) {l : Label}
    {bs : List UInt8} (h : target b l = .ok bs) :
    Decides Reader.u32 bs [] (· < b.code.length) := by
  unfold target at h
  split at h
  · rename_i n hn
    cases h
    have hlt := lastIndexOf?_lt hn
    have hmax : maxCount < 2 ^ 32 := by decide
    exact .of_reads (reads_u32 (by omega)) hlt
  · cases h

/-- A constant is decided; one of another kind is written as zero or the empty
text. -/
theorem decides_constant {i : Instr} {bs : List UInt8} {size : Nat}
    (hkind : i.op.info.operand ∈ [OperandKind.int32, .int64, .float32,
      .float64, .text])
    (h : operand b i = .ok (.ok bs)) :
    Decides (readOperand size i.op.info.operand) bs
      (i.operand.parts i.op.info.operand) (·.labels = []) := by
  unfold operand at h
  generalize i.op.info.operand = kind at h hkind ⊢
  generalize i.operand = o at h ⊢
  fin_cases hkind
  · cases o with
    | int32 v =>
      cases h
      exact (decides_s32 v).map fun _ _ => rfl
    | _ =>
      cases h
      exact (decides_s32 0).map fun _ _ => rfl
  · cases o with
    | int64 v =>
      cases h
      exact (decides_s64 v).map fun _ _ => rfl
    | _ =>
      cases h
      exact (decides_s64 0).map fun _ _ => rfl
  · cases o with
    | float32 x =>
      cases h
      exact (decides_word32 x).map fun _ _ => rfl
    | _ =>
      cases h
      exact (decides_word32 0).map fun _ _ => rfl
  · cases o with
    | float64 x =>
      cases h
      exact (decides_word64 x).map fun _ _ => rfl
    | _ =>
      cases h
      exact (decides_word64 0).map fun _ _ => rfl
  · cases o with
    | text s =>
      cases h
      exact (decides_name s).map fun _ _ => rfl
    | _ =>
      cases h
      exact (Decides.of_reads (P := fun _ => True) (reads_name (by decide))
        trivial).map fun _ _ => rfl

/-- A reference, or a table of targets, is decided by its parts. -/
theorem decides_reference (hcount : b.code.length ≤ maxCount) {i : Instr}
    {bs : List UInt8} {size : Nat}
    (hkind : i.op.info.operand ∈ [OperandKind.table, .type, .field, .method,
      .token])
    (h : operand b i = .ok (.ok bs)) :
    Decides (readOperand size i.op.info.operand) bs
      (i.operand.parts i.op.info.operand) fun o => ∀ l ∈ o.labels,
      l < b.code.length := by
  unfold operand at h
  generalize i.op.info.operand = kind at h hkind ⊢
  generalize i.operand = o at h ⊢
  fin_cases hkind
  · cases o with
    | targets ls =>
      obtain ⟨parts, hparts, hbs⟩ := bind_eq_ok_iff.1 (Except.ok.inj h)
      cases hbs
      have hlist : Decides (listOf Reader.u32) (counted parts)
        (Part.list (fun _ => []) ls)
          fun ns => ns.length = ls.length ∧ ls.length ≤ maxCount ∧ ∀ n ∈ ns,
          n < b.code.length :=
        decides_listOf ((forall₂_of_mapM hparts).imp
          fun _ _ => decides_target hcount)
      rw [Part.list, List.flatMap_eq_nil_iff.2 (by simp)] at hlist
      exact hlist.map fun ns hns => hns.2.2
    | _ =>
      cases h
      have hlist : Reads (listOf Reader.u32) (counted []) [] :=
        reads_listOf .nil listFits_nil
      have hempty : Reads (listOf Reader.u32) (u32 0) [] := by
        simpa [counted] using hlist
      exact (Decides.of_reads (P := (· = [])) hempty rfl).map fun ns hns => by
        simp [hns, Operand.labels]
  · cases o with
    | type t =>
      cases h
      exact (decides_typeRef t).map fun _ _ => by simp [Operand.labels]
    | _ =>
      cases h
      exact (decides_typeRef .absent).map fun _ _ => by simp [Operand.labels]
  · cases o with
    | field f =>
      cases f with
      | some f =>
        cases h
        exact (decides_fieldRef f).map fun _ _ => by simp [Operand.labels]
      | none => cases h
    | _ => cases h
  · cases o with
    | method m =>
      cases m with
      | some m =>
        cases h
        exact (decides_methodRef m).map fun _ _ => by simp [Operand.labels]
      | none => cases h
    | _ => cases h
  · obtain ⟨form, hform, h⟩ := bind_eq_ok_iff.1 h
    cases form with
    | some cs =>
      cases h
      have hparts : o.parts .token = o.valueParts?.getD [] := by cases o <;> rfl
      rw [hparts]
      exact (decides_value hform).imp fun _ hlabels => by simp [hlabels]
    | none => cases h

/-- An index is decided, if it is inside the body. -/
theorem decides_index (hlocals : b.locals.length ≤ maxCount)
    (hcount : b.code.length ≤ maxCount) {i : Instr} {bs : List UInt8}
    (hkind : i.op.info.operand ∈ [OperandKind.none, .arg, .slot, .branch])
    (h : operand b i = .ok (.ok bs)) :
    Decides (readOperand b.locals.length i.op.info.operand) bs
      (i.operand.parts i.op.info.operand) fun o => ∀ l ∈ o.labels,
      l < b.code.length := by
  unfold operand at h
  generalize i.op.info.operand = kind at h hkind ⊢
  generalize i.operand = o at h ⊢
  fin_cases hkind
  · cases h
    have hparts : o.parts .none = [] := by cases o <;> rfl
    rw [hparts]
    exact .pure (by simp [Operand.labels])
  · have hparts : o.parts .arg = [] := by cases o <;> rfl
    obtain ⟨n, rfl⟩ : ∃ n : Int, bs = u32 n := by
      cases o <;> cases h <;> exact ⟨_, rfl⟩
    rw [hparts]
    exact (decides_number n).map fun _ _ => by simp [Operand.labels]
  · cases o with
    | slot l =>
      cases l with
      | slot n =>
        have hn : n < b.locals.length := by
          by_contra hn
          simp [hn] at h
        have hmax : maxCount < 2 ^ 32 := by decide
        have hread := Decides.of_reads (P := (· = n))
          (reads_u32 (n := n) (by omega)) rfl
        simp only [hn, if_true] at h
        cases h
        refine hread.bind_last fun k hk => ?_
        rw [hk, if_pos hn]
        exact .pure (by simp [Operand.labels])
      | foreign => cases h
    | _ => cases h
  · cases o with
    | target l =>
      exact (decides_target hcount (Except.ok.inj h)).map fun n hn => by
        simpa [Operand.labels] using hn
    | _ => cases h

/-- An operand is decided, and what is read points inside the body. -/
theorem decides_operand (hlocals : b.locals.length ≤ maxCount)
    (hcount : b.code.length ≤ maxCount) {i : Instr} {bs : List UInt8}
    (h : operand b i = .ok (.ok bs)) :
    Decides (readOperand b.locals.length i.op.info.operand) bs
      (i.operand.parts i.op.info.operand) fun o => ∀ l ∈ o.labels,
      l < b.code.length := by
  cases hkind : i.op.info.operand with
  | int32 | int64 | float32 | float64 | text =>
    rw [← hkind]
    exact (decides_constant (by simp [hkind]) h).imp fun _ hlabels => by
      simp [hlabels]
  | table | type | field | method | token =>
    rw [← hkind]
    exact decides_reference hcount (by simp [hkind]) h
  | none | arg | slot | branch =>
    rw [← hkind]
    exact decides_index hlocals hcount (by simp [hkind]) h

theorem decides_instr (hlocals : b.locals.length ≤ maxCount)
    (hcount : b.code.length ≤ maxCount) {i : Instr} {n : Nat} {bs : List UInt8}
    (h : instr b n i = .ok bs) (k : Nat) :
    Decides (readInstr b.locals.length k) bs (i.operand.parts i.op.info.operand)
      fun j => ∀ l ∈ j.operand.labels, l < b.code.length := by
  unfold instr at h
  split at h
  · cases h
  rename_i hvalid
  have hvalid : i.op.isValid = true := by simpa using hvalid
  obtain ⟨written, hwritten, h⟩ := bind_eq_ok_iff.1 h
  cases written with
  | error why => cases h
  | ok cs =>
    cases h
    have hraw : i.op.number.toNat < 2 ^ 32 :=
      i.op.number.toNat_lt.trans (by decide)
    refine (Decides.of_reads (P := (· = i.op.number.toNat)) (reads_u32 hraw)
      rfl).bind fun raw hraw => ?_
    simp only [hraw, UInt16.ofNat_toNat, Opcode.ofNumber_number i.op hvalid,
      hvalid]
    exact (decides_operand hlocals hcount hwritten).map fun _ hlabels => hlabels

theorem reads_inside_all {is : List Instr} {size : Nat}
    (h : ∀ i ∈ is, ∀ l ∈ i.operand.labels, l < size) :
    Reads (is.forM fun i => i.operand.labels.forM (inside size)) [] () :=
  reads_forM fun i hi => reads_forM fun l hl => reads_inside (h i hi l hl)

theorem decides_point (hcount : b.code.length ≤ maxCount) {p : SequencePoint}
    {bs : List UInt8} (h : point b p = .ok bs) :
    Decides (readPoint b.code.length) bs [Part.name p.document]
      fun _ => True := by
  unfold point at h
  split at h
  · rename_i cs hcs
    cases h
    rw [List.append_assoc, List.append_assoc]
    have hinside : ∀ l, l < b.code.length → Decides (inside b.code.length l) []
        [] fun _ => True :=
      fun l hl => .of_reads (reads_inside hl) trivial
    exact (decides_target hcount hcs).bind fun l hl => (hinside l hl).bind
        fun _ _ =>
      (decides_name p.document).bind fun _ _ => (decides_number p.line).bind
          fun _ _ =>
      (decides_number p.column).map fun _ _ => trivial
  · cases h

/-- The code is decided in order, and points inside the body. -/
theorem decides_code (hlocals : b.locals.length ≤ maxCount)
    (hcount : b.code.length ≤ maxCount) {code : List (List UInt8)}
    (h : ((b.code.mapIdx fun n i => (n, i)).mapM fun (n, i) => instr b n i) =
      .ok code) :
    Decides (times (readInstr b.locals.length) b.code.length 0) code.flatten
      (b.code.flatMap fun i => i.operand.parts i.op.info.operand)
      fun is => ∀ i ∈ is, ∀ l ∈ i.operand.labels, l < b.code.length := by
  have hcode : (b.code.mapIdx fun n i => (n, i)).map Prod.snd = b.code :=
    List.ext_getElem (by simp) fun _ _ _ => by simp
  have htimes := decides_times
    ((forall₂_of_mapM h).imp fun _ _ hx k => decides_instr hlocals
      hcount hx k) 0
  rw [List.length_mapIdx] at htimes
  rw [← hcode, List.flatMap_map]
  simpa [hcode] using htimes.imp fun _ his => his.2

end

theorem decides_local (l : Local) :
    Decides (do
      let type ← readTypeRef
      return ({ type, name := ← Reader.name } : Local))
        (typeRef l.type ++ name l.name)
      (l.type.parts ++ [Part.name l.name]) fun _ => True :=
  (decides_typeRef l.type).bind fun _ _ => (decides_name l.name).map
    fun _ _ => trivial

theorem decides_body {b : Body} {bs : List UInt8} (h : body b = .ok bs) :
    Decides readBody bs b.parts fun _ => True := by
  obtain ⟨code, hcode, h⟩ := bind_eq_ok_iff.1 h
  obtain ⟨points, hpoints, h⟩ := bind_eq_ok_iff.1 h
  cases h
  have hlen : code.length = b.code.length := by
    simpa using (forall₂_of_mapM hcode).length_eq.symm
  have hread : Decides readBody (bool b.initLocals ++
      (counted (b.locals.map fun l => typeRef l.type ++ name l.name) ++
      (u32 b.code.length ++ (code.flatten ++ counted points))))
      ([] ++ (Part.list (fun l : Local => l.type.parts ++ [Part.name l.name])
        b.locals ++
      ([Part.count b.code.length] ++
        ((b.code.flatMap fun i => i.operand.parts i.op.info.operand) ++
      ([] ++ Part.list (fun p : SequencePoint => [Part.name p.document])
        b.points)))))
      fun _ => True := by
    refine (decides_bool b.initLocals).bind fun _ _ =>
      (decides_all fun l _ => decides_local l).bind fun locals hlocals => ?_
    obtain ⟨hlocalCount, hlocalFits, -⟩ := hlocals
    refine (decides_readCount b.code.length).bind fun size hsize => ?_
    obtain ⟨rfl, hcount⟩ := hsize
    rw [hlocalCount]
    refine (decides_code hlocalFits hcount hcode).bind fun is his => ?_
    have hinside := reads_inside_all his
    refine (Decides.of_reads (P := fun _ => True) hinside trivial).bind
      fun _ _ => ?_
    exact (decides_listOf ((forall₂_of_mapM hpoints).imp
      fun _ _ => decides_point hcount)).map fun _ _ => trivial
  simpa [Body.parts, Part.list, counted, hlen] using hread

/-! ## Definitions -/

theorem decides_names (names : List String) :
    Decides (listOf Reader.name) (counted (names.map name))
      (Part.list (fun s => [Part.name s]) names) fun _ => True :=
  (decides_all fun s _ => (decides_name s).any).any

theorem decides_field {f : FieldDef} {bs : List UInt8} (h : field f = .ok bs)
    (owner : String) :
    Decides (readField owner) bs f.parts fun _ => True := by
  obtain ⟨attrs, hattrs, h⟩ := bind_eq_ok_iff.1 h
  cases h
  have hread : Decides (readField owner)
      (name f.name ++ (typeRef f.type ++ (u32 f.flags.toNat ++ attrs)))
      ([Part.name f.name] ++ (f.type.parts ++
        ([] ++ Part.list Attribute.parts f.attributes)))
      fun _ => True :=
    (decides_name f.name).within.bind fun _ _ => .within <|
      (decides_typeRef f.type).bind fun _ _ => (decides_number _).bind
        fun _ _ =>
      (decides_attributes hattrs).map fun _ _ => trivial
  simpa [FieldDef.parts] using hread

theorem decides_param {p : ParamDef} {bs : List UInt8} (h : param p = .ok bs) :
    Decides readParam bs p.parts fun _ => True := by
  obtain ⟨attrs, hattrs, h⟩ := bind_eq_ok_iff.1 h
  cases h
  have hread : Decides readParam
    (name p.name ++ (typeRef p.type ++ ([p.flags] ++ attrs)))
      ([Part.name p.name] ++ (p.type.parts ++
        ([] ++ Part.list Attribute.parts p.attributes)))
      fun _ => True :=
    (decides_name p.name).bind fun _ _ => (decides_typeRef p.type).bind
        fun _ _ =>
      (decides_byte p.flags).bind fun _ _ => (decides_attributes hattrs).map
        fun _ _ => trivial
  simpa [ParamDef.parts] using hread

theorem inMethod_eq_ok {fullName : String} {r : Outcome α} {a : α}
    (h : inMethod fullName r = .ok a) : r = .ok a := by
  unfold inMethod at h
  split at h
  · cases h
  · exact h

theorem decides_method {fullName : String} {m : MethodDef} {bs : List UInt8}
    (h : method fullName m = .ok bs) :
    Decides readMethod bs m.parts fun _ => True := by
  obtain ⟨params, hparams, h⟩ := bind_eq_ok_iff.1 h
  obtain ⟨attrs, hattrs, h⟩ := bind_eq_ok_iff.1 h
  have hfront : ∀ hasBody part s, Decides (within part do
      let flags ← Reader.u32
      let implFlags ← Reader.byte
      let ret ← readTypeRef
      let params ← listOf readParam
      let genericParams ← listOf Reader.name
      let attributes ← listOf readAttribute
      let hasBody ← Reader.bool
      let m' : MethodDef :=
        { name := s, flags := UInt16.ofNat flags, implFlags, ret, params,
          genericParams, attributes }
      return (m', hasBody))
      (u32 m.flags.toNat ++ ([m.implFlags] ++ (typeRef m.ret ++
        (counted params ++ (counted (m.genericParams.map name) ++
          (attrs ++ Bytes.bool hasBody))))))
      ([] ++ ([] ++ (m.ret.parts ++ (Part.list ParamDef.parts m.params ++
        (Part.list (fun s => [Part.name s]) m.genericParams ++
          (Part.list Attribute.parts m.attributes ++ []))))))
      (·.2 = hasBody) := fun hasBody part s => .within <|
    (decides_number _).bind fun _ _ => (decides_byte _).bind fun _ _ =>
      (decides_typeRef m.ret).bind fun _ _ =>
      (decides_listOf ((forall₂_of_mapM hparams).imp
        fun _ _ => decides_param)).bind fun _ _ =>
      (decides_names _).bind fun _ _ => (decides_attributes hattrs).bind
          fun _ _ =>
      (decides_bool hasBody).map fun _ hbool => hbool
  have hread : ∀ hasBody code parts,
      (∀ part (m' : MethodDef), Decides (if hasBody then do
          let b ← within part readBody
          return { m' with body := some b }
        else return m') code parts fun _ => True) →
      Decides readMethod (name m.name ++ ((u32 m.flags.toNat ++
        ([m.implFlags] ++ (typeRef m.ret ++ (counted params ++
          (counted (m.genericParams.map name) ++
            (attrs ++ Bytes.bool hasBody)))))) ++ code))
        ([Part.name m.name] ++ (([] ++ ([] ++ (m.ret.parts ++
          (Part.list ParamDef.parts m.params ++
            (Part.list (fun s => [Part.name s]) m.genericParams ++
            (Part.list Attribute.parts m.attributes ++ [])))))) ++ parts))
              fun _ => True := by
    intro hasBody code parts hcode
    refine (decides_name m.name).within.bind
      fun s _ => (hfront hasBody _ s).bind fun v hv => ?_
    obtain ⟨m', flag⟩ := v
    cases hv
    exact hcode _ m'
  cases hb : m.body with
  | none =>
    rw [hb] at h
    cases h
    have hnone := hread false [] [] fun _ _ => .pure trivial
    simpa [MethodDef.parts, hb] using hnone
  | some b =>
    rw [hb] at h
    obtain ⟨code, hcode, h⟩ := bind_eq_ok_iff.1 h
    cases h
    have hsome := hread true code b.parts fun part m' =>
      (decides_body (inMethod_eq_ok hcode)).within.map fun _ _ => trivial
    simpa [MethodDef.parts, hb] using hsome

/-! ## Types -/

/-- The parts of what a type says of itself, in the order that they are read
in. -/
theorem typeHead_eq_ok {h : TypeHead} {bs : List UInt8}
    (hh : typeHead h = .ok bs) :
    ∃ attrs fields, bs = name h.ns ++ (name h.name ++ ((u32 h.flags.toNat ++
      (typeRef h.base ++
        (typeRefs h.interfaces ++ (counted (h.genericParams.map name) ++
          attrs)))) ++
        (u32 h.fields.length ++ fields.flatten))) ∧
      attributes h.attributes = .ok attrs ∧
      List.Forall₂ (fun f bs => field f = .ok bs) h.fields fields := by
  obtain ⟨attrs, hattrs, hh⟩ := bind_eq_ok_iff.1 hh
  obtain ⟨fields, hfields, hh⟩ := bind_eq_ok_iff.1 hh
  cases hh
  have hlen := (forall₂_of_mapM hfields).length_eq
  exact ⟨attrs, fields,
    by simp [counted, hlen], hattrs, forall₂_of_mapM hfields⟩

/-- What stands between the name of a type and its fields. -/
theorem decides_typeFront {h : TypeHead} {attrs : List UInt8}
    (hattrs : attributes h.attributes = .ok attrs) (ns s : String) :
    Decides (do
      let flags ← Reader.u32
      let base ← readTypeRef
      let interfaces ← listOf readTypeRef
      let genericParams ← listOf Reader.name
      let attributes ← listOf readAttribute
      let head : TypeHead :=
        { ns, name := s, flags := UInt32.ofNat flags, base, interfaces,
          genericParams, attributes }
      return head)
      (u32 h.flags.toNat ++ (typeRef h.base ++ (typeRefs h.interfaces ++
        (counted (h.genericParams.map name) ++ attrs))))
      ([] ++ (h.base.parts ++ (Part.list TypeRef.parts h.interfaces ++
        (Part.list (fun s => [Part.name s]) h.genericParams ++
          Part.list Attribute.parts h.attributes)))) fun _ => True :=
  (decides_number _).bind fun _ _ => (decides_typeRef h.base).bind fun _ _ =>
    (decides_typeRefs h.interfaces).bind fun _ _ => (decides_names _).bind
        fun _ _ =>
    (decides_attributes hattrs).map fun _ _ => trivial

/-- A type is decided with more fuel than it has bytes. -/
theorem decides_typeDefUpTo {t : TypeDef} {outer : Option String}
    {bs : List UInt8} {fuel : Nat} (h : typeDef outer t = .ok bs)
    (hfuel : bs.length < fuel) :
    Decides (typeDefUpTo fuel) bs t.parts fun _ => True := by
  induction fuel generalizing t outer bs with
  | zero => omega
  | succ fuel ih =>
    obtain ⟨head, methods, nested⟩ := t
    obtain ⟨front, hfront, h⟩ := bind_eq_ok_iff.1 h
    obtain ⟨ms, hms, h⟩ := bind_eq_ok_iff.1 h
    rw [typeDefParts_eq] at h
    obtain ⟨inner, hinner, h⟩ := bind_eq_ok_iff.1 h
    obtain ⟨ts, hts, hinner⟩ := bind_eq_ok_iff.1 hinner
    cases hinner
    cases h
    obtain ⟨attrs, fields, rfl, hattrs, hfields⟩ := typeHead_eq_ok hfront
    have hmethods := forall₂_of_mapM hms
    have hnested := forall₂_of_mapM hts
    have hshort : ∀ cs ∈ ts, cs.length < fuel := by
      intro cs hcs
      have hpart := (List.sublist_flatten_of_mem hcs).length_le
      have hcount := length_u32_pos nested.length
      simp only [List.length_append] at hfuel
      omega
    have hinner : List.Forall₂
        (fun t bs => ℕ → Decides (typeDefUpTo fuel) bs t.parts fun _ => True)
          nested ts :=
      ((List.forall₂_and_left (p := (·.length < fuel)) _ _).2 ⟨hshort,
        hnested.flip⟩).flip.imp fun _ _ hcs _ => ih hcs.2 hcs.1
    have hread : Decides (typeDefUpTo (fuel + 1)) (name head.ns ++
      (name head.name ++
        ((u32 head.flags.toNat ++ (typeRef head.base ++
          (typeRefs head.interfaces ++ (counted (head.genericParams.map name) ++
            attrs)))) ++ (u32 head.fields.length ++
        (fields.flatten ++ (u32 methods.length ++ (ms.flatten ++
          (u32 nested.length ++ ts.flatten))))))))
        ([Part.name head.ns] ++ ([Part.name head.name] ++
          (([] ++ (head.base.parts ++ (Part.list TypeRef.parts
            head.interfaces ++
          (Part.list (fun s => [Part.name s]) head.genericParams ++
            Part.list Attribute.parts head.attributes)))) ++
              ([Part.count head.fields.length] ++
        (head.fields.flatMap FieldDef.parts ++ ([Part.count methods.length] ++
        (methods.flatMap MethodDef.parts ++ ([Part.count nested.length] ++
          nested.flatMap TypeDef.parts))))))))
        fun _ => True := by
      refine (decides_name head.ns).within.bind fun ns _ =>
        (decides_name head.name).within.bind fun s _ =>
        (decides_typeFront hattrs ns s).within.bind fun _ _ =>
        (decides_readCount head.fields.length).within.bind fun k hk => hk.1 ▸
        (decides_times (hfields.imp fun _ _ hf _ => decides_field hf s) 0).bind
            fun _ _ =>
        (decides_readCount methods.length).within.bind fun k hk => hk.1 ▸
        (decides_times (hmethods.imp fun _ _ hm _ => decides_method hm) 0).bind
            fun _ _ =>
        (decides_readCount nested.length).within.bind fun k hk => hk.1 ▸
        (decides_times hinner 0).map fun _ _ => trivial
    simpa [TypeDef.parts, TypeHead.parts, TypeDef.partsOfAll_eq, Part.list,
      counted, hmethods.length_eq] using hread

theorem decides_typeDef {t : TypeDef} {outer : Option String} {bs : List UInt8}
    (h : typeDef outer t = .ok bs) :
    Decides readTypeDef bs t.parts fun _ => True :=
  .get_bind fun _ hle => decides_typeDefUpTo h (by omega)

/-! ## Modules -/

/-- As `Decides`, if the bytes are all there are. -/
structure DecidesAll (act : Read α) (bs : List UInt8) (ps : List Part) :
    Prop where
  /-- readable parts are taken -/
  takes : (∀ p ∈ ps, p.FitsWord) → (∀ p ∈ ps, p.IsReadable) → ∀ n, ∃ a r,
    act ⟨n, bs⟩ = .ok a r
  /-- others are refused -/
  refuses : (∀ p ∈ ps, p.FitsWord) → (¬ ∀ p ∈ ps, p.IsReadable) →
    ∀ n, ∃ f r, act ⟨n, bs⟩ = .error f r

/-- The bytes up to the end. -/
theorem Decides.bind_all {act : Read α} {f : α → Read β} {bs cs : List UInt8}
    {ps qs : List Part} (h : Decides act bs ps P)
    (hf : ∀ a, P a → DecidesAll (f a) cs qs) :
    DecidesAll (act >>= f) (bs ++ cs) (ps ++ qs) where
  takes := by
    intro hfits hread n
    rw [List.forall_mem_append] at hfits hread
    obtain ⟨a, ha, hrun⟩ := h.takes hfits.1 hread.1 n cs
    obtain ⟨b, r, hrun'⟩ := (hf a ha).takes hfits.2 hread.2 (n + bs.length)
    exact ⟨b, r, by simp only [Bind.bind, EStateM.bind, hrun, hrun']⟩
  refuses := by
    intro hfits hread n
    rw [List.forall_mem_append] at hfits hread
    by_cases hps : ∀ p ∈ ps, p.IsReadable
    · have hqs : ¬ ∀ p ∈ qs, p.IsReadable := fun hqs => hread ⟨hps, hqs⟩
      obtain ⟨a, ha, hrun⟩ := h.takes hfits.1 hps n cs
      obtain ⟨e, r, hrun'⟩ := (hf a ha).refuses hfits.2 hqs (n + bs.length)
      exact ⟨e, r, by simp only [Bind.bind, EStateM.bind, hrun, hrun']⟩
    · obtain ⟨e, r, hrun⟩ := h.refuses hfits.1 hps n cs
      exact ⟨e, r, by simp only [Bind.bind, EStateM.bind, hrun]⟩

theorem decides_readModule {m : Module} {bs : List UInt8}
    (h : encode m = .ok bs) :
    DecidesAll readModule bs m.parts := by
  rw [encode, typeDefParts_eq] at h
  obtain ⟨types, htypes, h⟩ := bind_eq_ok_iff.1 h
  obtain ⟨ts, hts, htypes⟩ := bind_eq_ok_iff.1 htypes
  cases htypes
  cases h
  have htypes := forall₂_of_mapM hts
  have hword : ∀ n, n < 2 ^ 32 → Decides (within "header" Reader.word32)
      (word32 n) [] (· = n) :=
    fun n hn => .of_reads (reads_within (reads_word32 hn)) rfl
  have hread : DecidesAll readModule (word32 magic ++ (word32 version ++
    (name m.name ++
      (u32 m.types.length ++ (ts.flatten ++ [])))))
      ([] ++ ([] ++ ([Part.name m.name] ++ ([Part.count m.types.length] ++
        (m.types.flatMap TypeDef.parts ++ []))))) := by
    refine (hword magic (by decide)).bind_all fun found hfound => ?_
    subst hfound
    refine (hword version (by decide)).bind_all fun found hfound => ?_
    subst hfound
    refine (decides_name m.name).within.bind_all fun _ _ =>
      (decides_readCount m.types.length).within.bind_all fun k hk => hk.1 ▸
      (decides_times (htypes.imp fun _ _ ht _ => decides_typeDef ht) 0).bind_all
        fun ms _ => ?_
    exact ⟨fun _ _ n => ⟨_, ⟨n, []⟩, rfl⟩, by simp⟩
  simpa [Module.parts, TypeDef.partsOfAll_eq] using hread

end Codec

/-! ## Samples -/

namespace Sample

/-- A managed pointer to nothing. -/
def barePointer : Body :=
  alone .ret [⟨.wrapped .byRef .absent [], "r"⟩] []

/-- A field of no type. -/
def bareField : Body :=
  { code := [⟨0, .ldsfld, .field
      (some { owner := .absent, type := .int32, name := "x" })⟩] }

/-- A method of no type. -/
def bareMethod : Body :=
  { code := [⟨0, .call, .method
      (some { owner := .absent, ret := .void, name := "F" })⟩] }

end Sample

namespace Codec

open Sample

/-- The bytes of a module, its lengths being words, are accepted exactly if no
list is too long and no element or owner is missing. -/
theorem decode_accepts_iff {m : Module} {bs : List UInt8}
    (h : encode m = .ok bs) (hfits : ∀ p ∈ m.parts, p.FitsWord) :
    (∃ m', decode bs = .ok m') ↔ ∀ p ∈ m.parts, p.IsReadable := by
  have hdecides := decides_readModule h
  constructor
  · rintro ⟨m', hm'⟩
    by_contra hread
    obtain ⟨f, r, hrun⟩ := hdecides.refuses hfits hread 0
    rw [decode, Reader.ofBytes, hrun] at hm'
    cases hm'
  · intro hread
    obtain ⟨m', r, hrun⟩ := hdecides.takes hfits hread 0
    exact ⟨m', by rw [decode, Reader.ofBytes, hrun]⟩

theorem decode_accepts_iff_barePointer :
    ∃ bs, encode (around barePointer) = .ok bs ∧
    (∀ p ∈ (around barePointer).parts, p.FitsWord) ∧
      ((∃ m', decode bs = .ok m') ↔ ∀ p ∈ (around barePointer).parts,
        p.IsReadable) := by
  have hfits : ∀ p ∈ (around barePointer).parts, p.FitsWord := by decide +kernel
  have hwritten : (encode (around barePointer)).isOk := by decide +kernel
  cases hencode : encode (around barePointer) with
  | error e => simp [hencode, Except.isOk, Except.toBool] at hwritten
  | ok bs => exact ⟨bs, rfl, hfits, decode_accepts_iff hencode hfits⟩

/-- A wrapper without element and members without owner are written and not
accepted. -/
theorem not_decode_bare :
    List.Forall (fun b => ∃ bs, encode (around b) = .ok bs ∧
        ¬ ∃ m', decode bs = .ok m')
      [barePointer, bareField, bareMethod] := by
  have hrun : ∀ b ∈ [barePointer, bareField, bareMethod],
      ((encode (around b)).toOption.map fun bs => (decode bs).isOk) =
        some false := by
    decide +kernel
  refine List.forall_iff_forall_mem.2 fun b hb => ?_
  obtain ⟨bs, hbs, hrefused⟩ := Option.map_eq_some_iff.1 (hrun b hb)
  refine ⟨bs, ?_, ?_⟩
  · cases hencode : encode (around b) with
    | error e => simp [hencode, Except.toOption] at hbs
    | ok cs => simpa [hencode, Except.toOption] using hbs
  · rintro ⟨m', hm'⟩
    simp [hm', Except.isOk, Except.toBool] at hrefused

end Codec

end JobWeave
