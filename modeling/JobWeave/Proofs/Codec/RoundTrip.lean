import Mathlib
import JobWeave.Framework.Names
import JobWeave.Proofs.Codec.Bodies

/-!
# Modules in the binary form

Reading undoes writing, and writing undoes reading up to what the bytes leave
open.

* `decode_encode`: a module that fits is written, and what is read back is the
  module with positions for labels, which is the same up to labels.
* `encode_decode`: a module that was read is written to bytes that it is read
  back from, so writing it again changes nothing.
-/

namespace JobWeave

open Codec Bytes

/-! ## Positions for labels -/

/-- The method with positions for labels. -/
def MethodDef.renumbered (m : MethodDef) : MethodDef :=
  { m with body := m.body.map Body.renumbered }

mutual

/-- The type with positions for labels. -/
def TypeDef.renumbered : TypeDef → TypeDef
  | .mk h ms ts =>
    .mk h (ms.map MethodDef.renumbered) (TypeDef.renumberedAll ts)

/-- The types with positions for labels. -/
def TypeDef.renumberedAll : List TypeDef → List TypeDef
  | [] => []
  | t :: ts => t.renumbered :: TypeDef.renumberedAll ts

end

/-- The module with positions for labels. -/
def Module.renumbered (m : Module) : Module :=
  { m with types := TypeDef.renumberedAll m.types }

theorem TypeDef.renumberedAll_eq (ts : List TypeDef) :
    renumberedAll ts = ts.map renumbered := by
  induction ts with
  | nil => rfl
  | cons t ts ih => rw [renumberedAll, ih, List.map_cons]

theorem TypeDef.allAlike_renumbered {ts : List TypeDef}
    (h : ∀ t ∈ ts, t.Alike t.renumbered) :
    AllAlike ts (renumberedAll ts) := by
  induction ts with
  | nil => trivial
  | cons t ts ih => exact ⟨h t (by simp), ih fun t' ht' => h t' (by simp [ht'])⟩

theorem MethodDef.Fits.alike_renumbered {m : MethodDef} (h : m.Fits true) :
    m.Alike m.renumbered where
  head := rfl
  body := by
    unfold renumbered
    cases hb : m.body with
    | none => exact .none
    | some b => exact .some (h.body b hb).alike_renumbered

theorem TypeDef.Fits.alike_renumbered {t : TypeDef} (h : t.Fits true) :
    t.Alike t.renumbered := by
  induction h with
  | mk _ _ hmethods _ _ _ ih =>
    refine ⟨rfl, ?_, allAlike_renumbered ih⟩
    rw [List.forall₂_map_right_iff]
    exact List.forall₂_same.2 fun m hm => (hmethods m hm).alike_renumbered

/-- With positions for labels a module is the same. -/
theorem Module.Fits.alike_renumbered {m : Module} (h : m.Fits true) :
    m.Alike m.renumbered where
  name := rfl
  types := TypeDef.allAlike_renumbered
    fun t ht => (h.types t ht).alike_renumbered

namespace Codec

/-! ## Fields and methods -/

theorem reads_names {names : List String} (h : NamesFit names) :
    Reads (listOf Reader.name) (counted (names.map name)) names :=
  reads_all (fun s hs => reads_name (h.each s hs)) h.count

theorem gives_readNames : Gives (listOf Reader.name) NamesFit :=
  (gives_listOf gives_name).imp fun _ h => ⟨h.1, h.2⟩

theorem written_field {f : FieldDef} (h : f.Fits true) (owner : String) :
    Written (field f) (readField owner) f := by
  obtain ⟨attrs, hattrs, hread⟩ := written_attributes h.attributes
  have hflags : f.flags.toNat < 2 ^ 32 := f.flags.toNat_lt.trans (by decide)
  refine ⟨name f.name ++ (typeRef f.type ++ (u32 f.flags.toNat ++ attrs)), ?_,
    ?_⟩
  · simp only [field, hattrs, bind, Except.bind, pure, Except.pure,
      List.append_assoc]
  · refine (reads_within (reads_name h.name)).bind <| reads_within <|
      (reads_typeRef h.type).bind <| (reads_u32 hflags).bind <|
        hread.bind_last ?_
    rw [UInt16.ofNat_toNat]
    exact Reads.pure f

theorem gives_readField (owner : String) :
    Gives (readField owner) (FieldDef.Fits true) :=
  (gives_within gives_name).bind fun _ hname => gives_within <|
    gives_readTypeRef.bind fun _ htype => Gives.bind_any fun _ =>
      gives_readAttributes.bind fun _ hattrs => Gives.pure ⟨hname,
        htype, hattrs⟩

theorem written_param {p : ParamDef} (h : p.Fits true) :
    Written (param p) readParam p := by
  obtain ⟨attrs, hattrs, hread⟩ := written_attributes h.attributes
  refine ⟨name p.name ++ (typeRef p.type ++ ([p.flags] ++ attrs)), ?_, ?_⟩
  · simp only [param, hattrs, bind, Except.bind, pure, Except.pure,
      List.append_assoc]
  · exact (reads_name h.name).bind <| (reads_typeRef h.type).bind <|
      (reads_byte p.flags).bind <| hread.bind_last <| Reads.pure p

theorem gives_readParam : Gives readParam (ParamDef.Fits true) :=
  gives_name.bind fun _ hname => gives_readTypeRef.bind fun _ htype =>
      Gives.bind_any fun _ =>
    gives_readAttributes.bind fun _ hattrs => Gives.pure ⟨hname, htype, hattrs⟩

/-- A method is read from its parts. -/
theorem reads_method {m : MethodDef} (h : m.Fits true) (code : List UInt8)
    {flags attrs : List UInt8} {params : List (List UInt8)} {raw : Nat}
    (hflags : Reads Reader.u32 flags raw) (hraw : UInt16.ofNat raw = m.flags)
    (hparams : Reads (listOf readParam) (counted params) m.params)
    (hattrs : Reads (listOf readAttribute) attrs m.attributes)
    (hcode : match m.body with
      | none => code = bool false
      | some b =>
        ∃ bs, code = bool true ++ bs ∧ Reads readBody bs b.renumbered) :
    Reads readMethod (name m.name ++ (flags ++ ([m.implFlags] ++
      (typeRef m.ret ++ (counted params ++
        (counted (m.genericParams.map name) ++ (attrs ++ code)))))))
      m.renumbered := by
  -- what stands between the name and the code
  have hfront : ∀ hasBody, Reads (do
      let flags ← Reader.u32
      let implFlags ← Reader.byte
      let ret ← readTypeRef
      let params ← listOf readParam
      let genericParams ← listOf Reader.name
      let attributes ← listOf readAttribute
      let hasBody ← Reader.bool
      let m' : MethodDef :=
        { name := m.name, flags := UInt16.ofNat flags, implFlags, ret, params,
          genericParams, attributes }
      return (m', hasBody)) (flags ++ ([m.implFlags] ++ (typeRef m.ret ++
        (counted params ++ (counted (m.genericParams.map name) ++
          (attrs ++ bool hasBody))))))
      ({ m with body := none }, hasBody) := by
    intro hasBody
    refine hflags.bind <| (reads_byte m.implFlags).bind <|
      (reads_typeRef h.ret).bind <| hparams.bind <|
        (reads_names h.genericParams).bind <| hattrs.bind <|
      (reads_bool hasBody).bind_last ?_
    rw [hraw]
    exact Reads.pure _
  have hname : Reads (within "method" Reader.name) (name m.name) m.name :=
    reads_within (reads_name h.name)
  cases hb : m.body with
  | none =>
    rw [hb] at hcode
    subst hcode
    refine hname.bind <| (reads_within (hfront false)).bind_last ?_
    rw [MethodDef.renumbered, hb]
    exact Reads.pure _
  | some b =>
    rw [hb] at hcode
    obtain ⟨bs, rfl, hread⟩ := hcode
    have hbytes : name m.name ++ (flags ++ ([m.implFlags] ++ (typeRef m.ret ++
      (counted params ++
        (counted (m.genericParams.map name) ++
          (attrs ++ (bool true ++ bs))))))) =
          name m.name ++ ((flags ++ ([m.implFlags] ++ (typeRef m.ret ++
            (counted params ++ (counted (m.genericParams.map name) ++
              (attrs ++ bool true)))))) ++ bs) := by
      simp only [List.append_assoc]
    rw [hbytes]
    refine hname.bind <| (reads_within (hfront true)).bind <|
      (reads_within hread).bind_last ?_
    rw [MethodDef.renumbered, hb]
    exact Reads.pure _

/-- A method is written, and read back with positions for labels. -/
theorem written_method {m : MethodDef} (h : m.Fits true) (fullName : String) :
    Written (method fullName m) readMethod m.renumbered := by
  obtain ⟨params, hparams, hreadParams⟩ := listOf_written (f := param) (g := id)
    (fun p hp => written_param (h.params p hp)) h.paramCount
  obtain ⟨attrs, hattrs, hreadAttrs⟩ := written_attributes h.attributes
  rw [List.map_id] at hreadParams
  have hflags : m.flags.toNat < 2 ^ 32 := m.flags.toNat_lt.trans (by decide)
  have hread := fun code => reads_method h code (reads_u32 hflags)
    UInt16.ofNat_toNat hreadParams hreadAttrs
  cases hb : m.body with
  | none =>
    rw [hb] at hread
    refine ⟨_, ?_, hread _ rfl⟩
    simp only [method, hparams, hattrs, hb, bind, Except.bind, pure,
      Except.pure, List.append_assoc]
  | some b =>
    rw [hb] at hread
    obtain ⟨bs, hbs, hreadBody⟩ := written_body (h.body b hb)
    refine ⟨_, ?_, hread _ ⟨bs, rfl, hreadBody⟩⟩
    simp only [method, hparams, hattrs, hb, hbs, inMethod, bind,
      Except.bind, pure, Except.pure, List.append_assoc]

theorem gives_readMethod :
    Gives readMethod fun m => m.Fits true ∧ m.renumbered = m := by
  refine (gives_within gives_name).bind fun name hname => ?_
  refine (gives_within (P := fun v => v.1.Fits true ∧ v.1.body = none) ?_).bind
    fun v hv => ?_
  · exact Gives.bind_any fun flags => Gives.bind_any fun implFlags =>
      gives_readTypeRef.bind fun ret hret => (gives_listOf gives_readParam).bind
          fun params hparams =>
      gives_readNames.bind fun genericParams hgeneric =>
      gives_readAttributes.bind fun attributes hattrs => Gives.bind_any
        fun hasBody => Gives.pure ⟨⟨hname, hret, hparams.1, hparams.2, hgeneric,
          hattrs, by simp⟩, rfl⟩
  · obtain ⟨m, hasBody⟩ := v
    obtain ⟨hfits, hnone⟩ := hv
    simp only
    split
    · refine (gives_within gives_readBody).bind fun b hb => Gives.pure ⟨?_, ?_⟩
      · exact { hfits with body := by simpa using hb.1 }
      · simp [MethodDef.renumbered, hb.2]
    · refine Gives.pure ⟨hfits, ?_⟩
      obtain ⟨⟩ := m
      cases hnone
      rfl

/-! ## Types -/

/-- The parts of what a type says of itself, in the order that they are read
in. -/
theorem typeHead_parts {h : TypeHead} (hh : h.Fits true) :
    ∃ attrs fields, typeHead h = .ok (name h.ns ++ (name h.name ++
        ((u32 h.flags.toNat ++ (typeRef h.base ++ (typeRefs h.interfaces ++
          (counted (h.genericParams.map name) ++ attrs)))) ++
        (u32 fields.length ++ fields.flatten)))) ∧
      Reads (listOf readAttribute) attrs h.attributes ∧
      List.Forall₂ (Reads (readField h.name)) fields h.fields := by
  obtain ⟨attrs, hattrs, hreadAttrs⟩ := written_attributes hh.attributes
  obtain ⟨fields, hfields, hreadFields⟩ := mapM_succeeds
    fun f hf => written_field (hh.fields f hf) h.name
  refine ⟨attrs, fields, ?_, hreadAttrs, hreadFields.flip⟩
  simp only [typeHead, hattrs, hfields, bind, Except.bind, pure, Except.pure,
    counted, List.append_assoc]

/-- What stands between the name of a type and its fields. -/
theorem reads_typeFront {h : TypeHead} (hh : h.Fits true) {attrs : List UInt8}
    (hattrs : Reads (listOf readAttribute) attrs h.attributes) :
    Reads (do
      let flags ← Reader.u32
      let base ← readTypeRef
      let interfaces ← listOf readTypeRef
      let genericParams ← listOf Reader.name
      let attributes ← listOf readAttribute
      let head : TypeHead :=
        { ns := h.ns, name := h.name, flags := UInt32.ofNat flags, base,
          interfaces, genericParams, attributes }
      return head)
      (u32 h.flags.toNat ++ (typeRef h.base ++ (typeRefs h.interfaces ++
        (counted (h.genericParams.map name) ++ attrs))))
      { h with fields := [] } := by
  have hflags : h.flags.toNat < 2 ^ 32 := h.flags.toNat_lt
  refine (reads_u32 hflags).bind <| (reads_typeRef hh.base).bind <|
    (reads_typeRefs hh.interfaces).bind <|
      (reads_names hh.genericParams).bind <|
    hattrs.bind_last ?_
  rw [UInt32.ofNat_toNat]
  exact Reads.pure _

theorem typeDefParts_eq (outer : Option String) (ts : List TypeDef) :
    typeDefParts outer ts = (return (← ts.mapM (typeDef outer)).flatten) := by
  induction ts with
  | nil => rfl
  | cons t ts ih =>
    rw [typeDefParts, ih, List.mapM_cons]
    simp

/-- The types inside others have no namespace that could be dropped. -/
theorem asNested_renumbered {t : TypeDef} (h : t.head.ns = "") :
    asNested t.renumbered = t.renumbered := by
  obtain ⟨head, methods, nested⟩ := t
  obtain ⟨⟩ := head
  cases h
  rfl

theorem renumbered_asNested (t : TypeDef) :
    (asNested t).renumbered = asNested t.renumbered := by
  obtain ⟨head, methods, nested⟩ := t
  rfl

theorem asNested_fits {t : TypeDef} (h : t.Fits true) :
    (asNested t).Fits true := by
  cases h with
  | mk hhead hmethodCount hmethods hnestedCount hnested hns =>
    have hns' : NameFits "" := Nat.two_pow_pos 32
    exact .mk { hhead with ns := hns' } hmethodCount hmethods hnestedCount
      hnested hns

/-- A type is read from its parts. -/
theorem reads_typeDef {head : TypeHead} {methods : List MethodDef}
    {nested : List TypeDef} (h : (TypeDef.mk head methods nested).Fits true)
    {attrs : List UInt8} {fields ms ts : List (List UInt8)} {fuel : Nat}
    (hattrs : Reads (listOf readAttribute) attrs head.attributes)
    (hfields : List.Forall₂ (Reads (readField head.name)) fields head.fields)
    (hmethods : List.Forall₂ (fun m bs => Reads readMethod bs m.renumbered)
      methods ms)
    (hnested : List.Forall₂ (fun t bs => Reads (typeDefUpTo fuel) bs
      t.renumbered) nested ts) :
    Reads (typeDefUpTo (fuel + 1)) (name head.ns ++ (name head.name ++
      ((u32 head.flags.toNat ++ (typeRef head.base ++
        (typeRefs head.interfaces ++ (counted (head.genericParams.map name) ++
          attrs)))) ++
      (u32 fields.length ++ (fields.flatten ++ (u32 ms.length ++ (ms.flatten ++
      (u32 ts.length ++ ts.flatten))))))))
        (TypeDef.mk head methods nested).renumbered := by
  cases h with
  | mk hhead hmethodCount _ hnestedCount _ hns =>
    have hmethodLen : ms.length ≤ maxCount := hmethods.length_eq ▸ hmethodCount
    have hnestedLen : ts.length ≤ maxCount := hnested.length_eq ▸ hnestedCount
    have hfieldLen : fields.length ≤ maxCount :=
      hfields.length_eq ▸ hhead.fieldCount
    have hmethodsRead : List.Forall₂ (Reads readMethod) ms
        (methods.map MethodDef.renumbered) := by
      rw [List.forall₂_map_right_iff]
      exact hmethods.flip
    have hnestedRead : List.Forall₂ (Reads (typeDefUpTo fuel)) ts
        (nested.map TypeDef.renumbered) := by
      rw [List.forall₂_map_right_iff]
      exact hnested.flip
    have hsame : (nested.map TypeDef.renumbered).map asNested =
        TypeDef.renumberedAll nested := by
      rw [TypeDef.renumberedAll_eq, List.map_map]
      exact List.map_congr_left fun t ht => asNested_renumbered (hns t ht)
    refine (reads_within (reads_name hhead.ns)).bind <|
      (reads_within (reads_name hhead.name)).bind <|
      (reads_within (reads_typeFront hhead hattrs)).bind <|
      (reads_within (reads_readCount hfieldLen)).bind <|
        (reads_each hfields).bind <|
      (reads_within (reads_readCount hmethodLen)).bind <|
        (reads_each hmethodsRead).bind <|
      (reads_within (reads_readCount hnestedLen)).bind <|
        (reads_each hnestedRead).bind_last ?_
    rw [hsame]
    exact Reads.pure _

/-- Types that are read with as much fuel as they have bytes are read with the
fuel for all. -/
theorem reads_nested {nested : List TypeDef} {ts : List (List UInt8)}
    {fuel : Nat} (h : List.Forall₂ (fun t bs => ∀ k, bs.length ≤ k →
      Reads (typeDefUpTo (k + 1)) bs t.renumbered) nested ts)
    (hfuel : (u32 ts.length).length + ts.flatten.length ≤ fuel) :
    List.Forall₂ (fun t bs => Reads (typeDefUpTo fuel) bs t.renumbered) nested
      ts := by
  have hshort : ∀ bs ∈ ts, bs.length + 1 ≤ fuel := by
    intro bs hbs
    have hpart := (List.sublist_flatten_of_mem hbs).length_le
    have hcount := length_u32_pos ts.length
    omega
  refine ((List.forall₂_and_left (p := fun bs => bs.length + 1 ≤ fuel) _ _).2
    ⟨hshort, h.flip⟩).flip.imp fun t bs hpart => ?_
  obtain ⟨hbs, hread⟩ := hpart
  obtain ⟨k, rfl⟩ := Nat.exists_eq_add_of_le' (Nat.le_of_add_left_le hbs)
  exact hread k (by omega)

/-- The type is written, and read back with as much fuel as it has bytes. -/
def TypeWritten (outer : Option String) (t : TypeDef) : Prop :=
  ∃ bs, typeDef outer t = .ok bs ∧
    ∀ fuel, bs.length ≤ fuel → Reads (typeDefUpTo (fuel + 1)) bs t.renumbered

theorem typeWritten {t : TypeDef} (h : t.Fits true) (outer : Option String) :
    TypeWritten outer t := by
  induction h generalizing outer with
  | @mk head methods nested hhead hmethodCount hmethods hnestedCount hnested
      hns ih =>
    obtain ⟨attrs, fields, hfront, hreadAttrs, hreadFields⟩ :=
      typeHead_parts hhead
    obtain ⟨ms, hms, hreadMethods⟩ := mapM_succeeds
      (f := fun m => method (TypeDef.qualifiedName outer head ++ "::" ++
        m.name) m)
      fun m hm => written_method (hmethods m hm) _
    obtain ⟨ts, hts, hreadNested⟩ := mapM_succeeds
      fun t ht => ih t ht (some (TypeDef.qualifiedName outer head))
    refine ⟨_, ?_, fun fuel hfuel => reads_typeDef
      (.mk hhead hmethodCount hmethods hnestedCount hnested hns) hreadAttrs
        hreadFields
      hreadMethods (reads_nested hreadNested ?_)⟩
    · simp only [typeDef, hfront, hms, typeDefParts_eq, hts,
        hreadNested.length_eq, bind, Except.bind, pure, Except.pure, counted,
        List.append_assoc]
    · simp only [List.length_append] at hfuel
      omega

theorem written_typeDef {t : TypeDef} (h : t.Fits true)
    (outer : Option String) :
    Written (typeDef outer t) readTypeDef t.renumbered := by
  obtain ⟨bs, hbs, hread⟩ := typeWritten h outer
  exact ⟨bs, hbs, Reads.get_bind fun _ hle => hread _ hle⟩

theorem gives_typeDefUpTo (fuel : Nat) :
    Gives (typeDefUpTo fuel) fun t => t.Fits true ∧ t.renumbered = t := by
  induction fuel with
  | zero => exact Gives.throw
  | succ fuel ih =>
    refine (gives_within gives_name).bind
        fun ns hns => (gives_within gives_name).bind fun name hname =>
      (gives_within (P := fun h : TypeHead => h.Fits true) ?_).bind
          fun head hhead =>
      (gives_within gives_readCount).bind fun fieldCount hfieldCount =>
      (gives_each (gives_readField name) fieldCount).bind fun fields hfields =>
      (gives_within gives_readCount).bind fun methodCount hmethodCount =>
      (gives_each gives_readMethod methodCount).bind fun methods hmethods =>
      (gives_within gives_readCount).bind fun nestedCount hnestedCount =>
      (gives_each ih nestedCount).bind fun nested hnested => Gives.pure ⟨?_, ?_⟩
    · exact Gives.bind_any fun _ => gives_readTypeRef.bind fun _ hbase =>
        gives_readTypeRefs.bind fun _ hinterfaces => gives_readNames.bind
            fun _ hgeneric =>
        gives_readAttributes.bind fun _ hattrs => Gives.pure
          ⟨hns, hname, hbase, hinterfaces, hgeneric, hattrs, listFits_nil,
            by simp⟩
    · refine .mk
        { hhead with
          fieldCount := hfields.1.trans_le hfieldCount, fields := hfields.2 }
        (hmethods.1.trans_le hmethodCount) (fun m hm => (hmethods.2 m hm).1)
          ?_ ?_ ?_
      · simpa [ListFits, hnested.1] using hnestedCount
      · intro t ht
        obtain ⟨t', ht', rfl⟩ := List.mem_map.1 ht
        exact asNested_fits (hnested.2 t' ht').1
      · intro t ht
        obtain ⟨⟨⟩, ht, rfl⟩ := List.mem_map.1 ht
        rfl
    · have hms : methods.map MethodDef.renumbered = methods :=
        (List.map_congr_left fun m hm => (hmethods.2 m hm).2).trans
          (List.map_id _)
      have hts : (nested.map asNested).map TypeDef.renumbered =
          nested.map asNested := by
        rw [List.map_map]
        refine List.map_congr_left fun t ht => ?_
        rw [Function.comp_apply, renumbered_asNested, (hnested.2 t ht).2]
      rw [TypeDef.renumbered, TypeDef.renumberedAll_eq, hms, hts]

theorem gives_readTypeDef :
    Gives readTypeDef fun t => t.Fits true ∧ t.renumbered = t :=
  Gives.bind_any fun _ => gives_typeDefUpTo _

/-! ## Modules -/

/-- A module is read from its types. -/
theorem decode_of_reads {m : Module} (h : m.Fits true)
    {types : List (List UInt8)}
    (htypes : List.Forall₂ (fun t bs => Reads readTypeDef bs t.renumbered)
      m.types types) :
    decode (word32 magic ++ (word32 version ++ (name m.name ++
      (u32 types.length ++ (types.flatten ++ []))))) = .ok m.renumbered := by
  have hcount : types.length ≤ maxCount := htypes.length_eq ▸ h.count
  have htypesRead : List.Forall₂ (Reads readTypeDef) types
      (m.types.map TypeDef.renumbered) := by
    rw [List.forall₂_map_right_iff]
    exact htypes.flip
  have hall : ReadsAll readModule (word32 magic ++ (word32 version ++
    (name m.name ++
      (u32 types.length ++ (types.flatten ++ []))))) m.renumbered := by
    refine (reads_within (reads_word32 (by decide))).bind_all <|
      (reads_within (reads_word32 (by decide))).bind_all <|
      (reads_within (reads_name h.name)).bind_all <|
      (reads_within (reads_readCount hcount)).bind_all <|
      (reads_each htypesRead).bind_all fun n => ⟨⟨n, []⟩, ?_⟩
    rw [Module.renumbered, TypeDef.renumberedAll_eq]
    rfl
  obtain ⟨r, hr⟩ := hall 0
  rw [decode, Reader.ofBytes, hr]

/-- A module that fits is written, and read back with positions for labels. -/
theorem decode_encode_renumbered {m : Module} (h : m.Fits true) :
    ∃ bs, encode m = .ok bs ∧ decode bs = .ok m.renumbered := by
  obtain ⟨types, htypes, hread⟩ :=
    mapM_succeeds fun t ht => written_typeDef (h.types t ht) none
  refine ⟨_, ?_, decode_of_reads h hread⟩
  simp only [encode, typeDefParts_eq, htypes, hread.length_eq, bind,
    Except.bind, pure, Except.pure, List.append_assoc, List.append_nil]

/-- Whatever is read as a module fits, and has positions for labels. -/
theorem gives_readModule :
    Gives readModule fun m => m.Fits true ∧ m.renumbered = m := by
  refine Gives.bind_any fun found => ?_
  split
  · exact Gives.throw
  refine Gives.bind_any fun found => ?_
  split
  · exact Gives.throw
  refine (gives_within gives_name).bind fun name hname =>
    (gives_within gives_readCount).bind fun count hcount =>
    (gives_each gives_readTypeDef count).bind fun types htypes => Gives.bind_any
      fun r => ?_
  simp only
  split
  · exact gives_within Gives.throw
  · refine Gives.pure ⟨⟨hname, htypes.1.trans_le hcount,
      fun t ht => (htypes.2 t ht).1⟩, ?_⟩
    have hsame : types.map TypeDef.renumbered = types :=
      (List.map_congr_left fun t ht => (htypes.2 t ht).2).trans (List.map_id _)
    rw [Module.renumbered, TypeDef.renumberedAll_eq, hsame]

theorem fits_of_decode {data : List UInt8} {m : Module}
    (h : decode data = .ok m) :
    m.Fits true ∧ m.renumbered = m := by
  unfold decode at h
  split at h
  · rename_i m' r hrun
    cases h
    exact gives_readModule _ _ _ hrun
  · cases h

end Codec

/-! ## Samples -/

namespace Sample

open Framework

/-- A module around a single body, which is that of a system with a type inside
it. -/
def around (b : Body) : Module :=
  { name := "Sample"
    types := [.mk
      { ns := "Game", name := "S",
        base := .ofName Ns.entities TypeName.componentSystemBase false }
      [{ name := "OnUpdate", ret := .void, body := some b }]
        [.mk { name := "C" } [] []]] }

/-- Code with a table, a branch back, a local variable, a token and a sequence
point; the labels are not in order. -/
def tangled : Body :=
  { locals := [⟨.array .int32, "xs"⟩]
    code := [⟨7, .switch, .targets [9, 7]⟩, ⟨3, .br, .target 7⟩,
      ⟨9, .ldloc, .slot (.slot 0)⟩, ⟨12, .ldtoken, .text "t"⟩, ⟨4, .ret, .none⟩]
    points := [⟨9, "S.cs", 3, 5⟩] }

/-- A single instruction. -/
def alone (op : Opcode) (locals : List Local) (points : List SequencePoint) :
    Body :=
  { code := [⟨0, op, .none⟩], locals, points }

/-- A sequence point that is not in the code. -/
def strayPoint : Body :=
  alone .ret [] [⟨1, "S.cs", 3, 5⟩]

/-- An opcode that there is not. -/
def strayOpcode : Body :=
  alone (.unknown 9999) [] []

/-- A managed pointer with type arguments of its own. -/
def strayArguments : Body :=
  alone .ret [⟨.wrapped .byRef .int32 [.int32], "r"⟩] []

/-- The bytes of a module whose name has a length of two bytes, where one is
enough, and whose inner type has a namespace. -/
def overlong : List UInt8 :=
  [0x4c, 0x4a, 0x49, 0x4c, 1, 0, 0, 0, 0x81, 0, 77, 1] ++
    [0, 1, 84, 0, 0, 0, 0, 0, 0, 0, 1] ++ [1, 78, 1, 85, 0, 0, 0, 0, 0, 0, 0, 0]

/-- The module itself. -/
def overlongModule : Module :=
  { name := "M", types := [.mk { name := "T" } [] [.mk { name := "U" } [] []]] }

theorem ofName_fits {strict valueType : Bool} {ns name : String}
    (hns : NameFits ns) (hname : NameFits name) :
    (TypeRef.ofName ns name valueType).Fits strict :=
  .named hns hname .absent listFits_nil (by simp)

theorem around_fits {strict : Bool} {b : Body} (h : b.Fits strict) :
    (around b).Fits strict := by
  have hhead : ∀ ns name base, NameFits ns → NameFits name → base.Fits strict →
      TypeHead.Fits strict { ns, name, base } := fun _ _ _ hns hname hbase =>
    ⟨hns, hname, hbase, ⟨listFits_nil, by simp⟩, ⟨listFits_nil, by simp⟩,
      ⟨listFits_nil, by simp⟩, listFits_nil, by simp⟩
  have hname : NameFits "OnUpdate" := by decide
  have hmethod : MethodDef.Fits strict
      { name := "OnUpdate", ret := .void, body := some b } :=
    ⟨hname, ofName_fits (by decide) (by decide), listFits_nil,
      by
      simp, ⟨listFits_nil, by simp⟩, ⟨listFits_nil, by simp⟩, by simpa using h⟩
  have hnested : TypeDef.Fits strict (.mk { name := "C" } [] []) :=
    .mk (hhead _ _ _ (by decide) (by decide) .absent) listFits_nil (by simp)
      listFits_nil (by simp) (by simp)
  have hbase := hhead "Game" "S" _ (by decide) (by decide)
    (show (TypeRef.ofName Ns.entities TypeName.componentSystemBase false).Fits
      strict from ofName_fits (by decide) (by decide))
  have hmodule : NameFits "Sample" := by decide
  refine ⟨hmodule, by simp [around, ListFits, maxCount], ?_⟩
  simp only [around, List.mem_singleton, forall_eq]
  exact .mk hbase (by simp [ListFits, maxCount]) (by simpa using hmethod)
    (by decide) (by simpa using hnested) (by simp [TypeDef.head])

theorem tangled_fits : Body.Fits true tangled where
  localCount := by decide
  locals := by
    simp only [tangled, List.mem_singleton, forall_eq]
    exact ⟨.wrapped rfl (ofName_fits (by decide) (by decide)) listFits_nil
      (by simp) fun _ => rfl, by decide⟩
  codeCount := by decide
  nodup := by decide
  operands := by
    have htext : NameFits "t" := by decide
    simpa [tangled, Operand.Suits, Operand.ValueFits, Opcode.info, Body.labels,
      ListFits, maxCount] using htext
  pointCount := by decide
  points := by
    simp only [tangled, List.mem_singleton, forall_eq]
    exact ⟨by decide, by decide, by decide⟩
  known := by decide
  placed := by decide

theorem alone_fits {strict : Bool} {op : Opcode} {locals : List Local}
    {points : List SequencePoint} (hop : op.info.operand = .none)
    (hlocals : ListFits locals ∧ ∀ l ∈ locals, l.Fits strict)
    (hpoints : ListFits points ∧ ∀ p ∈ points, p.Fits)
    (hknown : strict → op.isValid)
    (hplaced : strict → ∀ p ∈ points, p.label = 0) :
    (alone op locals points).Fits strict where
  localCount := hlocals.1
  locals := hlocals.2
  codeCount := by simp [alone, ListFits, maxCount]
  nodup := by simp [alone, Body.labels]
  operands := by simp [alone, hop, Operand.Suits]
  pointCount := hpoints.1
  points := hpoints.2
  known := by simpa [alone] using hknown
  placed := by simpa [alone, Body.labels] using hplaced

end Sample

namespace Codec

open Sample

/-! ## Both ways -/

/-- A module that was read is written, to bytes that it is read back from and
that it is written to again. -/
theorem encode_decode {data : List UInt8} {m : Module}
    (h : decode data = .ok m) :
    ∃ bs m', encode m = .ok bs ∧ decode bs = .ok m' ∧ m' = m ∧
      encode m' = .ok bs := by
  obtain ⟨hfits, hsame⟩ := fits_of_decode h
  obtain ⟨bs, hencode, hdecode⟩ := decode_encode_renumbered hfits
  rw [hsame] at hdecode
  exact ⟨bs, m, hencode, hdecode, rfl, hencode⟩

theorem encode_decode_overlong :
    decode overlong = .ok overlongModule ∧
      ∃ bs m', encode overlongModule = .ok bs ∧ decode bs = .ok m' ∧
        m' = overlongModule ∧ encode m' = .ok bs :=
  ⟨rfl, encode_decode (show decode overlong = .ok overlongModule from rfl)⟩

end Codec

end JobWeave
