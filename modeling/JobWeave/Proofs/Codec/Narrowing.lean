import Mathlib
import JobWeave.Proofs.Codec.Acceptance

/-!
# Numbers that reading narrows

Opcodes and the flags of fields and methods are read as 32-bit numbers and kept
in 16 bits, with no check in between.  So each of them can be written as any
number of its residue class, and the bytes are still accepted as the same
module.

* `SpellsNumber`: the bytes of a number that is narrowed to a given one.
* `SpellsModule`: the bytes of a module in which every such number may be a
  wider one; the bytes that a module is written as are among them
  (`spelling_of_encode`).
* `decode_of_spelling`: they all are read as that module.
-/

namespace JobWeave

open Bytes

namespace Codec

/-- The bytes of a 32-bit number that is this one when it is cut to 16 bits. -/
inductive SpellsNumber (n : UInt16) : List UInt8 → Prop
  | mk {raw : Nat} : raw < 2 ^ 32 → UInt16.ofNat raw = n →
    SpellsNumber n (u32 raw)

theorem spells_self (n : UInt16) : SpellsNumber n (u32 n.toNat) :=
  .mk (n.toNat_lt.trans (by decide)) (UInt16.ofNat_toNat ..)

/-! ## The bytes of a module -/

/-- An instruction behind a number for its opcode. -/
inductive SpellsInstr (b : Body) (i : Instr) : List UInt8 → Prop
  | mk {number part : List UInt8} : SpellsNumber i.op.number number →
    operand b i = .ok (.ok part) → SpellsInstr b i (number ++ part)

/-- A body, instruction by instruction. -/
inductive SpellsBody (b : Body) : List UInt8 → Prop
  | mk {code points : List (List UInt8)} : List.Forall₂ (SpellsInstr b)
    b.code code → b.points.mapM (point b) = .ok points →
    SpellsBody b (Bytes.bool b.initLocals ++
      (counted (b.locals.map fun l => typeRef l.type ++ name l.name) ++
        (counted code ++ counted points)))

/-- A field around a number for its flags. -/
inductive SpellsField (f : FieldDef) : List UInt8 → Prop
  | mk {flags attrs : List UInt8} : SpellsNumber f.flags flags →
    attributes f.attributes = .ok attrs →
    SpellsField f (name f.name ++ (typeRef f.type ++ (flags ++ attrs)))

/-- The body of a method, if it has one. -/
inductive SpellsCode : Option Body → List UInt8 → Prop
  | none : SpellsCode none (Bytes.bool false)
  | some {b : Body} {code : List UInt8} : SpellsBody b code →
    SpellsCode (some b) (Bytes.bool true ++ code)

/-- A method around a number for its flags. -/
inductive SpellsMethod (m : MethodDef) : List UInt8 → Prop
  | mk {flags attrs code : List UInt8} {params : List (List UInt8)} :
    SpellsNumber m.flags flags → m.params.mapM param = .ok params →
    attributes m.attributes = .ok attrs → SpellsCode m.body code →
    SpellsMethod m (name m.name ++ (flags ++ ([m.implFlags] ++ (typeRef m.ret ++
      (counted params ++ (counted (m.genericParams.map name) ++
        (attrs ++ code)))))))

/-- What a type says of itself, with its fields. -/
inductive SpellsHead (h : TypeHead) : List UInt8 → Prop
  | mk {attrs : List UInt8} {fields : List (List UInt8)} : attributes
    h.attributes = .ok attrs → List.Forall₂ SpellsField h.fields fields →
    SpellsHead h (name h.ns ++ (name h.name ++ ((u32 h.flags.toNat ++
      (typeRef h.base ++ (typeRefs h.interfaces ++
        (counted (h.genericParams.map name) ++ attrs)))) ++ counted fields)))

/-- A type with its methods and the types inside it. -/
inductive SpellsType : TypeDef → List UInt8 → Prop
  | mk {head : TypeHead} {methods : List MethodDef} {nested : List TypeDef}
    {front : List UInt8} {ms ts : List (List UInt8)} : SpellsHead head front →
    List.Forall₂ SpellsMethod methods ms → nested.length = ts.length →
    (∀ p ∈ nested.zip ts, SpellsType p.1 p.2) →
    SpellsType (.mk head methods nested) (front ++ (counted ms ++ counted ts))

/-- A module.  The bytes leave open which number of its residue class each
opcode and each flags word of a field or method is written as. -/
inductive SpellsModule (m : Module) : List UInt8 → Prop
  | mk {types : List (List UInt8)} : List.Forall₂ SpellsType m.types types →
    SpellsModule m (word32 magic ++
      (word32 version ++ (name m.name ++ counted types)))

/-! ## What is written is a spelling -/

theorem spelling_of_instr {b : Body} {i : Instr} {n : Nat} {bs : List UInt8}
    (h : instr b n i = .ok bs) : SpellsInstr b i bs := by
  unfold instr at h
  split at h
  · cases h
  · obtain ⟨written, hwritten, h⟩ := bind_eq_ok_iff.1 h
    cases written with
    | error why => cases h
    | ok part =>
      cases h
      exact .mk (spells_self _) hwritten

theorem spelling_of_body {b : Body} {bs : List UInt8} (h : body b = .ok bs) :
    SpellsBody b bs := by
  obtain ⟨code, hcode, h⟩ := bind_eq_ok_iff.1 h
  obtain ⟨points, hpoints, h⟩ := bind_eq_ok_iff.1 h
  cases h
  have hsnd : (b.code.mapIdx fun n i => (n, i)).map Prod.snd = b.code :=
    List.ext_getElem (by simp) fun _ _ _ => by simp
  have hspelled : List.Forall₂ (SpellsInstr b) b.code code := by
    rw [← hsnd, List.forall₂_map_left_iff]
    exact (forall₂_of_mapM hcode).imp fun _ _ => spelling_of_instr
  simpa only [List.append_assoc] using SpellsBody.mk hspelled hpoints

theorem spelling_of_field {f : FieldDef} {bs : List UInt8}
    (h : field f = .ok bs) :
    SpellsField f bs := by
  obtain ⟨attrs, hattrs, h⟩ := bind_eq_ok_iff.1 h
  cases h
  simpa only [List.append_assoc]
    using SpellsField.mk (spells_self f.flags) hattrs

theorem spelling_of_method {fullName : String} {m : MethodDef} {bs : List UInt8}
    (h : method fullName m = .ok bs) : SpellsMethod m bs := by
  obtain ⟨params, hparams, h⟩ := bind_eq_ok_iff.1 h
  obtain ⟨attrs, hattrs, h⟩ := bind_eq_ok_iff.1 h
  have hmk := fun (code : List UInt8) (hcode : SpellsCode m.body code) =>
    SpellsMethod.mk (spells_self m.flags) hparams hattrs hcode
  cases hb : m.body with
  | none =>
    rw [hb] at h hmk
    cases h
    simpa only [List.append_assoc] using hmk _ .none
  | some b =>
    rw [hb] at h hmk
    obtain ⟨code, hcode, h⟩ := bind_eq_ok_iff.1 h
    cases h
    simpa only [List.append_assoc]
      using hmk _ (.some (spelling_of_body (inMethod_eq_ok hcode)))

theorem spelling_of_typeHead {h : TypeHead} {bs : List UInt8}
    (hh : typeHead h = .ok bs) :
    SpellsHead h bs := by
  obtain ⟨attrs, fields, rfl, hattrs, hfields⟩ := typeHead_eq_ok hh
  have hspelled := SpellsHead.mk hattrs
    (hfields.imp fun _ _ => spelling_of_field)
  simpa only [counted, hfields.length_eq] using hspelled

theorem spelling_of_typeDef {t : TypeDef} (hfits : t.Fits true)
    {outer : Option String} {bs : List UInt8} (h : typeDef outer t = .ok bs) :
    SpellsType t bs := by
  induction hfits generalizing outer bs with
  | mk _ _ _ _ _ _ ih =>
    obtain ⟨front, hfront, h⟩ := bind_eq_ok_iff.1 h
    obtain ⟨ms, hms, h⟩ := bind_eq_ok_iff.1 h
    rw [typeDefParts_eq] at h
    obtain ⟨inner, hinner, h⟩ := bind_eq_ok_iff.1 h
    obtain ⟨ts, hts, hinner⟩ := bind_eq_ok_iff.1 hinner
    cases hinner
    cases h
    obtain ⟨hlen, hnested⟩ := List.forall₂_iff_zip.1 (forall₂_of_mapM hts)
    have hspelled := SpellsType.mk (spelling_of_typeHead hfront)
      ((forall₂_of_mapM hms).imp fun _ _ => spelling_of_method) hlen
      fun p hp => ih p.1 (List.of_mem_zip hp).1 (hnested hp)
    simpa only [counted, hlen, List.append_assoc] using hspelled

/-- What a module is written as is one of its spellings. -/
theorem spelling_of_encode {m : Module} (hfits : m.Fits true) {bs : List UInt8}
    (h : encode m = .ok bs) : SpellsModule m bs := by
  rw [encode, typeDefParts_eq] at h
  obtain ⟨types, htypes, h⟩ := bind_eq_ok_iff.1 h
  obtain ⟨ts, hts, htypes⟩ := bind_eq_ok_iff.1 htypes
  cases htypes
  cases h
  obtain ⟨hlen, heach⟩ := List.forall₂_iff_zip.1 (forall₂_of_mapM hts)
  have hspelled : List.Forall₂ SpellsType m.types ts := List.forall₂_iff_zip.2
    ⟨hlen, fun hp => spelling_of_typeDef (hfits.types _ (List.of_mem_zip hp).1)
      (heach hp)⟩
  simpa only [counted, hlen, List.append_assoc] using SpellsModule.mk hspelled

/-! ## A spelling is read -/

theorem forall₂_of_mem {α β : Type} {R S : α → β → Prop} {xs : List α}
    {ys : List β} (h : List.Forall₂ R xs ys)
    (hRS : ∀ x ∈ xs, ∀ y, R x y → S x y) : List.Forall₂ S xs ys := by
  obtain ⟨hlen, heach⟩ := List.forall₂_iff_zip.1 h
  exact List.forall₂_iff_zip.2 ⟨hlen, fun hp => hRS _ (List.of_mem_zip hp).1
    _ (heach hp)⟩

/-- A wider number is narrowed. -/
theorem reads_of_spells {n : UInt16} {bs : List UInt8} (h : SpellsNumber n bs) :
    ∃ raw, Reads Reader.u32 bs raw ∧ UInt16.ofNat raw = n := by
  cases h with
  | mk hraw hn => exact ⟨_, reads_u32 hraw, hn⟩

theorem reads_instr_of_spelling {b : Body} (hb : b.Fits true) {i : Instr}
    {n : Nat} {bs : List UInt8} (hi : b.code[n]? = some i)
    (h : SpellsInstr b i bs) :
    Reads (readInstr b.locals.length n) bs (i.relabel b.positionOf) := by
  cases h with
  | mk hnumber hpart =>
    have hmem : i ∈ b.code := List.mem_of_getElem? hi
    have hpos : b.positionOf i.label = n :=
      Body.positionOf_getElem hb.nodup (by simp [Body.labels, hi])
    have hvalid := hb.known rfl i hmem
    obtain ⟨raw, hraw, hnarrow⟩ := reads_of_spells hnumber
    obtain ⟨part, hwritten, hread⟩ := written_operand hb (hb.operands i hmem)
    cases hwritten.symm.trans hpart
    refine hraw.bind ?_
    -- the check comes after the cut, so it sees the opcode that the number
    -- stands in for
    simp only [hnarrow, Opcode.ofNumber_number i.op hvalid, hvalid]
    exact hread.bind_last (hpos ▸ Reads.pure _)

theorem reads_body_of_spelling {b : Body} (h : b.Fits true) {bs : List UInt8}
    (hs : SpellsBody b bs) : Reads readBody bs b.renumbered := by
  cases hs with
  | mk hcode hpoints =>
    obtain ⟨_, hwritten, hreadPoints⟩ :=
      listOf_written (fun p hp => written_point h hp)
      h.pointCount
    cases hwritten.symm.trans hpoints
    have hreadCode := reads_code hcode.length_eq.symm fun n bs i hbs hi => by
      obtain ⟨hlt, rfl⟩ := List.getElem?_eq_some_iff.1 hbs
      obtain ⟨hlt', rfl⟩ := List.getElem?_eq_some_iff.1 hi
      exact reads_instr_of_spelling h hi (hcode.get hlt' hlt)
    simpa only [counted, List.append_assoc] using
      reads_body h hcode.length_eq.symm hreadCode hreadPoints

theorem reads_field_of_spelling {f : FieldDef} (h : f.Fits true)
    {bs : List UInt8} (hs : SpellsField f bs) (owner : String) :
    Reads (readField owner) bs f := by
  cases hs with
  | mk hflags hattrs =>
    obtain ⟨raw, hraw, hnarrow⟩ := reads_of_spells hflags
    obtain ⟨_, hwritten, hread⟩ := written_attributes h.attributes
    cases hwritten.symm.trans hattrs
    refine (reads_within (reads_name h.name)).bind <| reads_within <|
      (reads_typeRef h.type).bind <| hraw.bind <| hread.bind_last ?_
    rw [hnarrow]
    exact Reads.pure f

theorem reads_method_of_spelling {m : MethodDef} (h : m.Fits true)
    {bs : List UInt8} (hs : SpellsMethod m bs) :
    Reads readMethod bs m.renumbered := by
  cases hs with
  | mk hflags hparams hattrs hcode =>
    obtain ⟨raw, hraw, hnarrow⟩ := reads_of_spells hflags
    obtain ⟨_, hwritten, hreadParams⟩ := listOf_written (f := param) (g := id)
      (fun p hp => written_param (h.params p hp)) h.paramCount
    cases hwritten.symm.trans hparams
    obtain ⟨_, hwritten, hreadAttrs⟩ := written_attributes h.attributes
    cases hwritten.symm.trans hattrs
    rw [List.map_id] at hreadParams
    refine reads_method h _ hraw hnarrow hreadParams hreadAttrs ?_
    cases hb : m.body with
    | none =>
      rw [hb] at hcode
      cases hcode
      rfl
    | some b =>
      rw [hb] at hcode
      cases hcode with
      | some hbody => exact ⟨_, rfl, reads_body_of_spelling (h.body b hb) hbody⟩

theorem reads_typeDef_of_spelling {t : TypeDef} (h : t.Fits true)
    {bs : List UInt8} (hs : SpellsType t bs) {fuel : Nat}
    (hfuel : bs.length ≤ fuel) :
    Reads (typeDefUpTo (fuel + 1)) bs t.renumbered := by
  induction h generalizing bs fuel with
  | @mk head methods nested hhead hmethodCount hmethods hnestedCount hnested
      hns ih =>
    cases hs with
    | @mk _ _ _ _ ms ts hfront hms hlen hts =>
      cases hfront with
      | @mk attrs fields hattrs hfields =>
        obtain ⟨_, hwritten, hreadAttrs⟩ := written_attributes hhead.attributes
        cases hwritten.symm.trans hattrs
        have hreadFields : List.Forall₂ (Reads (readField head.name)) fields
            head.fields :=
          (forall₂_of_mem hfields fun f hf bs hbs =>
            reads_field_of_spelling (hhead.fields f hf) hbs head.name).flip
        have hreadMethods := forall₂_of_mem hms fun m hm bs hbs =>
          reads_method_of_spelling (hmethods m hm) hbs
        have hreadNested : List.Forall₂
          (fun t bs => Reads (typeDefUpTo fuel) bs t.renumbered)
            nested ts := by
          refine reads_nested (List.forall₂_iff_zip.2 ⟨hlen,
              fun {t bs} hp k hk =>
            ih t (List.of_mem_zip hp).1 (hts _ hp) hk⟩) ?_
          simp only [counted, List.length_append] at hfuel
          omega
        simpa only [counted, List.append_assoc] using reads_typeDef
          (.mk hhead hmethodCount hmethods hnestedCount hnested hns) hreadAttrs
            hreadFields
          hreadMethods hreadNested

/-- A spelling of a module that fits is read as the module, with positions for
labels. -/
theorem decode_renumbered_of_spelling {m : Module} (h : m.Fits true)
    {bs : List UInt8} (hs : SpellsModule m bs) :
    decode bs = .ok m.renumbered := by
  cases hs with
  | @mk types htypes =>
    have hread : List.Forall₂ (fun t bs => Reads readTypeDef bs t.renumbered)
        m.types types :=
      forall₂_of_mem htypes fun t ht bs hbs => Reads.get_bind fun _ hle =>
        reads_typeDef_of_spelling (h.types t ht) hbs hle
    simpa only [counted, List.append_nil] using decode_of_reads h hread

end Codec

/-! ## Samples -/

namespace Sample

/-- Code that does nothing. -/
def idle : Body :=
  { code := [⟨0, .nop, .none⟩, ⟨1, .ret, .none⟩] }

end Sample

namespace Codec

open Sample

theorem eq_ok_of_toOption {ε α : Type} {x : Except ε α} {a : α}
    (h : x.toOption = some a) :
    x = .ok a := by
  cases x with
  | error e => cases h
  | ok b =>
    cases h
    rfl

theorem decode_of_encode {data bs : List UInt8} {m : Module}
    (h : decode data = .ok m) (hbs : encode m = .ok bs) :
    decode bs = .ok m := by
  obtain ⟨hfits, hself⟩ := fits_of_decode h
  obtain ⟨_, hwritten, hread⟩ := decode_encode_renumbered hfits
  cases hwritten.symm.trans hbs
  rw [hread, hself]

/-- Bytes that differ from those of a module in nothing but how wide the numbers
of its opcodes and flags are have the same module: reading keeps these numbers
modulo 2^16 and checks no more of them. -/
theorem decode_of_spelling {data : List UInt8} {m : Module}
    (h : decode data = .ok m) :
    (∃ bs, encode m = .ok bs ∧ SpellsModule m bs) ∧
      ∀ bs, SpellsModule m bs → decode bs = .ok m := by
  obtain ⟨hfits, hself⟩ := fits_of_decode h
  constructor
  · obtain ⟨bs, hbs, -⟩ := decode_encode_renumbered hfits
    exact ⟨bs, hbs, spelling_of_encode hfits hbs⟩
  · intro bs hs
    rw [decode_renumbered_of_spelling hfits hs, hself]

theorem decode_of_spelling_idle :
    ∃ data m, decode data = .ok m ∧
    (∃ bs, encode m = .ok bs ∧ SpellsModule m bs) ∧
      ∀ bs, SpellsModule m bs → decode bs = .ok m := by
  have hrun : ((encode (around idle)).toOption.bind
      fun bs => (decode bs).toOption).isSome := by
    decide +kernel
  obtain ⟨m, hm⟩ := Option.isSome_iff_exists.1 hrun
  obtain ⟨bs, -, hm⟩ := Option.bind_eq_some_iff.1 hm
  exact ⟨bs, m, eq_ok_of_toOption hm, decode_of_spelling (eq_ok_of_toOption hm)⟩

/-- The flags of the method, at byte 77, and the first opcode, at byte 102, are
numbers below 2^16; with a number past that range in the same place the module
is accepted and is the same. -/
theorem decode_narrows_idle :
    List.Forall (fun n => ∃ before after m,
      decode (before ++ (u32 0 ++ after)) = .ok m ∧
      decode (before ++ (u32 0x10000 ++ after)) = .ok m ∧
      encode (around idle) = .ok (before ++ (u32 0 ++ after)) ∧
      before.length = n) [77, 102] := by
  have hrun : ∀ n ∈ [77, 102], ((encode (around idle)).toOption.bind fun bs =>
      (decode (bs.take n ++ (u32 0x10000 ++ bs.drop (n + 1)))).toOption.bind
          fun m =>
        if (bs.take n).length = n ∧
          bs = bs.take n ++ (u32 0 ++ bs.drop (n + 1)) then
          (encode m).toOption.map (· == bs) else none) = some true := by
    decide +kernel
  refine List.forall_iff_forall_mem.2 fun n hn => ?_
  obtain ⟨bs, hbs, hrest⟩ := Option.bind_eq_some_iff.1 (hrun n hn)
  obtain ⟨m, hm, hrest⟩ := Option.bind_eq_some_iff.1 hrest
  split at hrest
  · rename_i hsplit
    obtain ⟨bs', hbs', hsame⟩ := Option.map_eq_some_iff.1 hrest
    cases eq_of_beq hsame
    have hwide := eq_ok_of_toOption hm
    have hwritten := eq_ok_of_toOption hbs'
    refine ⟨_, _, m, hsplit.2 ▸ decode_of_encode hwide hwritten, hwide, ?_,
      hsplit.1⟩
    rw [← hsplit.2]
    exact eq_ok_of_toOption hbs
  · cases hrest

end Codec

end JobWeave
