import Mathlib
import JobWeave.Proofs.Body.Shape
import JobWeave.Proofs.Codec.References

/-!
# Parts that a reader looks at

What was written is taken or refused by its parts: names, lengths of lists and
types that must not be missing.

* `Module.parts` lists the parts of a module in the order that they are written
  in.
* `Decides` says that a reader takes the written bytes if all of some parts are
  readable, and fails if they are not.  Readers compose like the bytes and the
  parts do (`Decides.bind`), and lists like their entries (`decides_listOf`).
* For references, values and attributes there are theorems `decides_…`.
-/

namespace JobWeave

open Codec Bytes

namespace Codec

/-- A part of a module that a reader looks at. -/
inductive Part
  /-- a name -/
  | name (s : String)
  /-- the length of a list -/
  | count (n : Nat)
  /-- a type that must not be missing -/
  | needed (t : TypeRef)

namespace Part

/-- A length fits into the word that it is written as. -/
def FitsWord : Part → Prop
  | name s => NameFits s
  | count n => n < 2 ^ 32
  | needed _ => True

/-- The reader accepts the part. -/
def IsReadable : Part → Prop
  | name _ => True
  | count n => n ≤ maxCount
  | needed t => t.isPresent

instance : DecidablePred FitsWord
  | name s => inferInstanceAs (Decidable (NameFits s))
  | count n => inferInstanceAs (Decidable (n < 2 ^ 32))
  | needed _ => inferInstanceAs (Decidable True)

instance : DecidablePred IsReadable
  | name _ => inferInstanceAs (Decidable True)
  | count n => inferInstanceAs (Decidable (n ≤ maxCount))
  | needed t => inferInstanceAs (Decidable (t.isPresent = true))

/-- The parts of a list are its length and those of its entries. -/
def list {β : Type} (parts : β → List Part) (xs : List β) : List Part :=
  count xs.length :: xs.flatMap parts

end Part

end Codec

/-! ## Parts -/

mutual

/-- The parts of a type reference. -/
def TypeRef.parts : TypeRef → List Part
  | .absent | .param _ _ _ => []
  | .wrapped _ e _ => e.parts ++ [.needed e]
  | .named ns n _ o as =>
    .name ns :: .name n :: (o.parts ++ .count as.length ::
      TypeRef.partsOfAll as)

/-- The parts of type references one after another. -/
def TypeRef.partsOfAll : List TypeRef → List Part
  | [] => []
  | t :: ts => t.parts ++ TypeRef.partsOfAll ts

end

/-- The parts of a field reference. -/
def FieldRef.parts (f : FieldRef) : List Part :=
  f.owner.parts ++ f.type.parts ++ [.name f.name, .needed f.owner]

/-- The parts of a method reference. -/
def MethodRef.parts (m : MethodRef) : List Part :=
  m.owner.parts ++ m.ret.parts ++ [.name m.name] ++ Part.list TypeRef.parts
    m.params ++ Part.list TypeRef.parts m.typeArgs ++ [.needed m.owner]

/-- The parts of a value that has a form of its own. -/
def Operand.valueParts? : Operand → Option (List Part)
  | .text s => some [.name s]
  | .int32 _ | .flag _ => some []
  | .type t => some t.parts
  | .field (some f) => some f.parts
  | .method (some m) => some m.parts
  | _ => Option.none

/-- The parts of an attribute argument, which may be written as the text of a
message. -/
def Operand.argumentParts (v : Operand) : List Part :=
  v.valueParts?.getD [.name (({} : Body).display v)]

/-- The parts of an attribute. -/
def Attribute.parts (a : Attribute) : List Part :=
  a.type.parts ++ Part.list Operand.argumentParts a.args ++
    Part.list (fun v => .name v.1 :: v.2.argumentParts) a.named

/-- The parts of an operand. -/
def Operand.parts : OperandKind → Operand → List Part
  | .text, .text s => [.name s]
  | .table, .targets ls => [.count ls.length]
  | .type, .type t => t.parts
  | .field, .field (some f) => f.parts
  | .method, .method (some m) => m.parts
  | .token, v => v.valueParts?.getD []
  | _, _ => []

/-- The parts of a body. -/
def Body.parts (b : Body) : List Part :=
  Part.list (fun l : Local => l.type.parts ++ [.name l.name]) b.locals ++
    Part.list (fun i : Instr => i.operand.parts i.op.info.operand) b.code ++
    Part.list (fun p : SequencePoint => [.name p.document]) b.points

/-- The parts of a field. -/
def FieldDef.parts (f : FieldDef) : List Part :=
  .name f.name :: (f.type.parts ++ Part.list Attribute.parts f.attributes)

/-- The parts of a parameter. -/
def ParamDef.parts (p : ParamDef) : List Part :=
  .name p.name :: (p.type.parts ++ Part.list Attribute.parts p.attributes)

/-- The parts of a method. -/
def MethodDef.parts (m : MethodDef) : List Part :=
  .name m.name :: (m.ret.parts ++ Part.list ParamDef.parts m.params ++
    Part.list (fun s => [.name s]) m.genericParams ++
    Part.list Attribute.parts m.attributes ++ (m.body.map Body.parts).getD [])

/-- The parts of what a type says of itself. -/
def TypeHead.parts (h : TypeHead) : List Part :=
  .name h.ns :: .name h.name :: (h.base.parts ++ Part.list TypeRef.parts
    h.interfaces ++ Part.list (fun s => [.name s]) h.genericParams ++
    Part.list Attribute.parts h.attributes ++ Part.list FieldDef.parts h.fields)

mutual

/-- The parts of a type. -/
def TypeDef.parts : TypeDef → List Part
  | .mk h ms ts =>
    h.parts ++ Part.list MethodDef.parts ms ++ .count ts.length ::
      TypeDef.partsOfAll ts

/-- The parts of types one after another. -/
def TypeDef.partsOfAll : List TypeDef → List Part
  | [] => []
  | t :: ts => t.parts ++ TypeDef.partsOfAll ts

end

/-- The parts of a module. -/
def Module.parts (m : Module) : List Part :=
  .name m.name :: .count m.types.length :: TypeDef.partsOfAll m.types

theorem TypeRef.partsOfAll_eq (ts : List TypeRef) :
    partsOfAll ts = ts.flatMap parts := by
  induction ts with
  | nil => rfl
  | cons t ts ih => rw [partsOfAll, ih, List.flatMap_cons]

theorem TypeDef.partsOfAll_eq (ts : List TypeDef) :
    partsOfAll ts = ts.flatMap parts := by
  induction ts with
  | nil => rfl
  | cons t ts ih => rw [partsOfAll, ih, List.flatMap_cons]

namespace Codec

variable {α β : Type} {P Q : α → Prop}

/-! ## Readers that decide -/

/-- The reader takes exactly these bytes, whatever follows them, and gives a
value with the property. -/
def Takes (act : Read α) (bs : List UInt8) (P : α → Prop) : Prop :=
  ∀ n rest, ∃ a, P a ∧ act ⟨n, bs ++ rest⟩ = .ok a ⟨n + bs.length, rest⟩

/-- The reader fails on these bytes, whatever follows them. -/
def Refuses (act : Read α) (bs : List UInt8) : Prop :=
  ∀ n rest, ∃ f r, act ⟨n, bs ++ rest⟩ = .error f r

/-- The reader takes these bytes if all the parts are readable and refuses them
if not. -/
structure Decides (act : Read α) (bs : List UInt8) (ps : List Part)
    (P : α → Prop) : Prop where
  /-- readable parts are taken -/
  takes : (∀ p ∈ ps, p.FitsWord) → (∀ p ∈ ps, p.IsReadable) → Takes act bs P
  /-- others are refused -/
  refuses : (∀ p ∈ ps, p.FitsWord) → (¬ ∀ p ∈ ps, p.IsReadable) → Refuses act bs

theorem bind_run {act : Read α} {f : α → Read β} {bs cs rest : List UInt8}
    {a : α} {n : Nat}
    (h : act ⟨n, bs ++ (cs ++ rest)⟩ = .ok a ⟨n + bs.length, cs ++ rest⟩) :
    (act >>= f) ⟨n, bs ++ cs ++ rest⟩ = f a ⟨n + bs.length, cs ++ rest⟩ := by
  rw [List.append_assoc]
  simp only [Bind.bind, EStateM.bind, h]

theorem Takes.bind {act : Read α} {f : α → Read β} {bs cs : List UInt8}
    {R : β → Prop} (h : Takes act bs P) (hf : ∀ a, P a → Takes (f a) cs R) :
    Takes (act >>= f) (bs ++ cs) R := by
  intro n rest
  obtain ⟨a, ha, hrun⟩ := h n (cs ++ rest)
  obtain ⟨b, hb, hrun'⟩ := hf a ha (n + bs.length) rest
  refine ⟨b, hb, ?_⟩
  rw [bind_run hrun, hrun', List.length_append, Nat.add_assoc]

theorem Refuses.bind {act : Read α} {f : α → Read β} {bs : List UInt8}
    (h : Refuses act bs) (cs : List UInt8) :
    Refuses (act >>= f) (bs ++ cs) := by
  intro n rest
  obtain ⟨e, r, hrun⟩ := h n (cs ++ rest)
  refine ⟨e, r, ?_⟩
  rw [List.append_assoc]
  simp only [Bind.bind, EStateM.bind, hrun]

/-- After bytes that are taken the rest is refused. -/
theorem Takes.refuses {act : Read α} {f : α → Read β} {bs cs : List UInt8}
    (h : Takes act bs P) (hf : ∀ a, P a → Refuses (f a) cs) :
    Refuses (act >>= f) (bs ++ cs) := by
  intro n rest
  obtain ⟨a, ha, hrun⟩ := h n (cs ++ rest)
  obtain ⟨e, r, hrun'⟩ := hf a ha (n + bs.length) rest
  exact ⟨e, r, by rw [bind_run hrun, hrun']⟩

namespace Decides

theorem of_reads {act : Read α} {bs : List UInt8} {a : α} (h : Reads act bs a)
    (ha : P a) :
    Decides act bs [] P where
  takes := fun _ _ n rest => ⟨a, ha, h n rest⟩
  refuses := by simp

theorem pure {a : α} (ha : P a) : Decides (Pure.pure a : Read α) [] [] P :=
  of_reads (Reads.pure a) ha

theorem imp {act : Read α} {bs : List UInt8} {ps : List Part}
    (h : Decides act bs ps P) (hPQ : ∀ a, P a → Q a) : Decides act bs ps Q where
  takes := by
    intro hfits hps n rest
    obtain ⟨a, ha, hrun⟩ := h.takes hfits hps n rest
    exact ⟨a, hPQ a ha, hrun⟩
  refuses := h.refuses

theorem any {act : Read α} {bs : List UInt8} {ps : List Part}
    (h : Decides act bs ps P) :
    Decides act bs ps fun _ => True :=
  h.imp fun _ _ => trivial

theorem bind {act : Read α} {f : α → Read β} {bs cs : List UInt8}
    {ps qs : List Part} {R : β → Prop} (h : Decides act bs ps P)
    (hf : ∀ a, P a → Decides (f a) cs qs R) :
    Decides (act >>= f) (bs ++ cs) (ps ++ qs) R where
  takes := by
    intro hfits hread
    rw [List.forall_mem_append] at hfits hread
    exact (h.takes hfits.1 hread.1).bind fun a ha => (hf a ha).takes
      hfits.2 hread.2
  refuses := by
    intro hfits hread
    rw [List.forall_mem_append] at hfits hread
    by_cases hps : ∀ p ∈ ps, p.IsReadable
    · have hqs : ¬ ∀ p ∈ qs, p.IsReadable := fun hqs => hread ⟨hps, hqs⟩
      exact (h.takes hfits.1 hps).refuses fun a ha => (hf a ha).refuses
        hfits.2 hqs
    · exact (h.refuses hfits.1 hps).bind cs

/-- The last reader of several, which takes no bytes. -/
theorem bind_last {act : Read α} {f : α → Read β} {bs : List UInt8}
    {ps qs : List Part} {R : β → Prop} (h : Decides act bs ps P)
    (hf : ∀ a, P a → Decides (f a) [] qs R) :
    Decides (act >>= f) bs (ps ++ qs) R := by
  simpa using h.bind hf

/-- A result is made from what was read. -/
theorem map {act : Read α} {g : α → β} {bs : List UInt8} {ps : List Part}
    {R : β → Prop} (h : Decides act bs ps P) (hg : ∀ a, P a → R (g a)) :
    Decides (act >>= fun a => Pure.pure (g a)) bs ps R := by
  simpa using h.bind_last fun a ha => pure (hg a ha)

theorem within {part : String} {act : Read α} {bs : List UInt8} {ps : List Part}
    (h : Decides act bs ps P) : Decides (within part act) bs ps P where
  takes := by
    intro hfits hps n rest
    obtain ⟨a, ha, hrun⟩ := h.takes hfits hps n rest
    exact ⟨a, ha, by rw [Codec.within, hrun]⟩
  refuses := by
    intro hfits hps n rest
    obtain ⟨e, r, hrun⟩ := h.refuses hfits hps n rest
    rw [Codec.within, hrun]
    exact ⟨_, _, rfl⟩

/-- A reader that looks at how many bytes are left. -/
theorem get_bind {f : Reader → Read α} {bs : List UInt8} {ps : List Part}
    (h : ∀ r, bs.length ≤ r.remaining → Decides (f r) bs ps P) :
    Decides (get >>= f) bs ps P where
  takes := fun hfits hps n rest =>
    (h ⟨n, bs ++ rest⟩ (by simp [Reader.remaining])).takes hfits hps n rest
  refuses := fun hfits hps n rest =>
    (h ⟨n, bs ++ rest⟩ (by simp [Reader.remaining])).refuses hfits hps n rest

end Decides

/-! ## Names, numbers and lists -/

theorem decides_name (s : String) :
    Decides Reader.name (name s) [Part.name s] (· = s) where
  takes := fun hfits _ n rest => ⟨s, rfl,
    reads_name (hfits (.name s) (by simp)) n rest⟩
  refuses := by simp [Part.IsReadable]

/-- A number is taken modulo 2^32. -/
theorem decides_number (n : Int) :
    Decides Reader.u32 (u32 n) [] fun _ => True := by
  obtain ⟨k, hk, hlt⟩ : ∃ k : Nat, n % 0x100000000 = k ∧ k < 2 ^ 32 :=
    ⟨(n % 0x100000000).toNat, by omega, by omega⟩
  have hsame : u32 n = u32 k := by
    simp only [u32, hk]
    congr 1
    omega
  exact .of_reads (hsame ▸ reads_u32 hlt) trivial

theorem decides_byte (b : UInt8) : Decides Reader.byte [b] [] (· = b) :=
  .of_reads (reads_byte b) rfl

theorem decides_bool (b : Bool) : Decides Reader.bool (bool b) [] (· = b) :=
  .of_reads (reads_bool b) rfl

theorem decides_s32 (v : Int32) :
    Decides Reader.s32 (s32 v.toInt) [] fun _ => True :=
  .of_reads (reads_s32 v) trivial

theorem decides_s64 (v : Int64) :
    Decides Reader.s64 (s64 v.toInt) [] fun _ => True :=
  .of_reads (reads_s64 v) trivial

theorem decides_word32 (v : UInt32) :
    Decides Reader.word32 (word32 v.toNat) [] fun _ => True :=
  .of_reads (reads_word32 v.toNat_lt) trivial

theorem decides_word64 (v : UInt64) :
    Decides Reader.word64 (word64 v.toNat) [] fun _ => True :=
  .of_reads (reads_word64 v.toNat_lt) trivial

theorem decides_readCount (n : Nat) :
    Decides readCount (u32 n) [Part.count n] fun k => k = n ∧ n ≤ maxCount where
  takes := by
    intro _ hread k rest
    have hn : n ≤ maxCount := hread (.count n) (by simp)
    exact ⟨n, ⟨rfl, hn⟩, reads_readCount hn k rest⟩
  refuses := by
    intro hfits hread
    have hlt : n < 2 ^ 32 := hfits (.count n) (by simp)
    have hn : maxCount < n := by simpa [Part.IsReadable] using hread
    have htakes : Takes Reader.u32 (u32 n) (· = n) :=
      fun k rest => ⟨n, rfl, reads_u32 hlt k rest⟩
    rw [← List.append_nil (u32 n)]
    refine htakes.refuses fun a ha k rest => ?_
    subst ha
    rw [if_pos hn]
    exact ⟨_, _, rfl⟩

theorem decides_times {act : Nat → Read α} {parts : β → List Part} {xs : List β}
    {bss : List (List UInt8)}
    (h : List.Forall₂ (fun x bs => ∀ k, Decides (act k) bs (parts x) P) xs bss)
    (i : Nat) :
    Decides (times act xs.length i) bss.flatten (xs.flatMap parts)
      fun as => as.length = xs.length ∧ ∀ a ∈ as, P a := by
  induction h generalizing i with
  | nil => exact .pure ⟨rfl, by simp⟩
  | @cons x bs xs bss hx _ ih =>
    refine (hx i).bind fun a ha => (ih (i + 1)).map fun as has => ?_
    simpa [has.1] using ⟨ha, has.2⟩

theorem decides_listOf {act : Read α} {parts : β → List Part} {xs : List β}
    {bss : List (List UInt8)}
    (h : List.Forall₂ (fun x bs => Decides act bs (parts x) P) xs bss) :
    Decides (listOf act) (counted bss) (Part.list parts xs)
      fun as => as.length = xs.length ∧ xs.length ≤ maxCount ∧ ∀ a ∈ as,
      P a := by
  rw [counted, ← h.length_eq]
  refine (decides_readCount xs.length).bind fun n hn => ?_
  rw [hn.1]
  exact (decides_times (h.imp fun _ _ hx _ => hx) 0).imp
    fun as has => ⟨has.1, hn.2, has.2⟩

/-- A list of which every entry has bytes of its own. -/
theorem decides_all {act : Read α} {parts : β → List Part}
    {write : β → List UInt8} {xs : List β}
    (h : ∀ x ∈ xs, Decides act (write x) (parts x) P) :
    Decides (listOf act) (counted (xs.map write)) (Part.list parts xs)
      fun as => as.length = xs.length ∧ xs.length ≤ maxCount ∧ ∀ a ∈ as,
      P a := by
  refine decides_listOf ?_
  rw [List.forall₂_map_right_iff]
  exact List.forall₂_same.2 h

/-- Each result of a loop that succeeds belongs to its entry. -/
theorem forall₂_of_mapM {ε : Type} {f : β → Except ε α} {xs : List β}
    {ys : List α} (h : xs.mapM f = .ok ys) :
    List.Forall₂ (fun x y => f x = .ok y) xs ys := by
  induction xs generalizing ys with
  | nil =>
    cases h
    exact .nil
  | cons x xs ih =>
    rw [List.mapM_cons] at h
    obtain ⟨y, hy, h⟩ := bind_eq_ok_iff.1 h
    obtain ⟨zs, hzs, h⟩ := bind_eq_ok_iff.1 h
    cases h
    exact .cons hy (ih hzs)

/-! ## References -/

/-- A check that a type is there. -/
theorem decides_present {t t' : TypeRef} (h : t'.isAbsent = t.isAbsent)
    {path : List String} {detail : String} {a : α} (ha : P a) :
    Decides (if t'.isAbsent then malformed path detail else Pure.pure a) []
    [Part.needed t] P where
  takes := by
    intro _ hread
    have hpresent : t.isPresent := hread (.needed t) (by simp)
    rw [if_neg (by simpa [h, TypeRef.isPresent] using hpresent)]
    exact fun n rest => ⟨a, ha, rfl⟩
  refuses := by
    intro _ hread
    have habsent : t.isAbsent := by
      simpa [Part.IsReadable, TypeRef.isPresent] using hread
    rw [if_pos (h.trans habsent)]
    exact fun n rest => ⟨_, _, rfl⟩

theorem decides_wrapped {fuel : Nat} {e : TypeRef} {kind : Wrapper}
    {args : List TypeRef} (he : Decides (typeRefUpTo fuel) (typeRef e) e.parts
      (·.isAbsent = e.isAbsent)) :
    Decides (typeRefUpTo (fuel + 1)) (typeRef (.wrapped kind e args))
      (TypeRef.wrapped kind e args).parts
      (·.isAbsent = (TypeRef.wrapped kind e args).isAbsent) := by
  have hwrap : ∀ e', e'.isAbsent = e.isAbsent →
    Decides (typeRefUpTo.wrapper kind e') []
      [Part.needed e] (·.isAbsent = (TypeRef.wrapped kind e args).isAbsent) :=
    fun e' he' => decides_present he' rfl
  have htag : ∀ tag, Decides Reader.byte [tag] [] (· = tag) := fun tag =>
    .of_reads (reads_byte tag) rfl
  cases kind with
  | byRef => exact (htag 2).bind fun tag htag => htag ▸ he.bind_last hwrap
  | pointer => exact (htag 3).bind fun tag htag => htag ▸ he.bind_last hwrap
  | array => exact (htag 4).bind fun tag htag => htag ▸ he.bind_last hwrap

theorem decides_named {fuel : Nat} {ns name : String} {valueType : Bool}
    {outer : TypeRef} {args : List TypeRef}
    (houter : Decides (typeRefUpTo fuel) (typeRef outer) outer.parts
      fun _ => True)
    (hargs : ∀ a ∈ args, Decides (typeRefUpTo fuel) (typeRef a) a.parts
      fun _ => True) :
    Decides (typeRefUpTo (fuel + 1))
      (typeRef (.named ns name valueType outer args))
      (TypeRef.named ns name valueType outer args).parts
        (·.isAbsent = false) := by
  rw [typeRef_named]
  have h : Decides (typeRefUpTo (fuel + 1)) ([1] ++ (Bytes.name ns ++
    (Bytes.name name ++
      (bool valueType ++ (typeRef outer ++ counted (args.map typeRef))))))
      ([] ++ ([Part.name ns] ++ ([Part.name name] ++
        ([] ++ (outer.parts ++ Part.list TypeRef.parts args)))))
      (·.isAbsent = false) := by
    refine (decides_byte 1).bind fun tag htag => ?_
    subst htag
    exact (decides_name ns).bind fun _ _ => (decides_name name).bind fun _ _ =>
      (decides_bool valueType).bind fun _ _ => houter.bind fun _ _ =>
      (decides_all hargs).map fun _ _ => rfl
  simpa [TypeRef.parts, TypeRef.partsOfAll_eq, Part.list] using h

/-- A type reference is decided with more fuel than it has bytes. -/
theorem decides_typeRefUpTo {t : TypeRef} {fuel : Nat}
    (hfuel : (typeRef t).length < fuel) :
    Decides (typeRefUpTo fuel) (typeRef t) t.parts
      (·.isAbsent = t.isAbsent) := by
  induction fuel generalizing t with
  | zero => omega
  | succ fuel ih =>
    cases t with
    | absent =>
      refine .of_reads (a := .absent) ((reads_byte 0).bind_last ?_) rfl
      exact Reads.pure _
    | named ns name valueType outer args =>
      have houter := length_typeRef_outer ns name valueType outer args
      refine decides_named (ih (by omega)).any fun a ha => ?_
      have harg := length_typeRef_arg ns name valueType outer ha
      exact (ih (by omega)).any
    | wrapped kind elem args =>
      refine decides_wrapped (ih ?_)
      cases kind <;> simpa [typeRef] using hfuel
    | param owner position args =>
      cases owner with
      | type =>
        exact (decides_byte 5).bind fun tag htag => htag ▸
          (decides_number position).map fun _ _ => rfl
      | method =>
        exact (decides_byte 6).bind fun tag htag => htag ▸
          (decides_number position).map fun _ _ => rfl

theorem decides_typeRef (t : TypeRef) :
    Decides readTypeRef (typeRef t) t.parts (·.isAbsent = t.isAbsent) :=
  .get_bind fun _ hle => decides_typeRefUpTo (by omega)

theorem decides_typeRefs (ts : List TypeRef) :
    Decides (listOf readTypeRef) (typeRefs ts) (Part.list TypeRef.parts ts)
      fun _ => True := by
  rw [typeRefs_eq]
  exact (decides_all fun t _ => (decides_typeRef t).any).any

theorem decides_fieldRef (f : FieldRef) :
    Decides readFieldRef (fieldRef f) f.parts fun _ => True := by
  have h : Decides readFieldRef
    (typeRef f.owner ++ (typeRef f.type ++ name f.name))
      (f.owner.parts ++ (f.type.parts ++
        ([Part.name f.name] ++ [Part.needed f.owner])))
      fun _ => True :=
    (decides_typeRef f.owner).bind fun _ howner => (decides_typeRef f.type).bind
        fun _ _ =>
      (decides_name f.name).bind_last fun _ _ => decides_present howner trivial
  simpa [fieldRef, FieldRef.parts] using h

theorem decides_methodRef (m : MethodRef) :
    Decides readMethodRef (methodRef m) m.parts fun _ => True := by
  have h : Decides readMethodRef (typeRef m.owner ++ (typeRef m.ret ++
    (name m.name ++
      (bool m.hasThis ++ (typeRefs m.params ++
        (u32 m.arity ++ typeRefs m.typeArgs))))))
      (m.owner.parts ++ (m.ret.parts ++ ([Part.name m.name] ++ ([] ++
        (Part.list TypeRef.parts m.params ++ ([] ++
          (Part.list TypeRef.parts m.typeArgs ++ [Part.needed m.owner])))))))
            fun _ => True :=
    (decides_typeRef m.owner).bind fun _ howner => (decides_typeRef m.ret).bind
        fun _ _ =>
      (decides_name m.name).bind fun _ _ => (decides_bool m.hasThis).bind
          fun _ _ =>
      (decides_typeRefs m.params).bind fun _ _ => (decides_number m.arity).bind
          fun _ _ =>
      (decides_typeRefs m.typeArgs).bind_last fun _ _ => decides_present
        howner trivial
  simpa [methodRef, MethodRef.parts] using h

/-! ## Values and attributes -/

/-- A value with a form of its own has the parts of that form. -/
theorem decides_value {v : Operand} {bs : List UInt8}
    (h : value? v = .ok (some bs)) :
    Decides readValue bs (v.valueParts?.getD []) fun v' => v'.labels = [] := by
  cases v with
  | text s =>
    cases h
    exact (decides_byte 0).bind fun tag htag => htag ▸ (decides_name s).map
      fun _ _ => rfl
  | int32 v =>
    cases h
    exact (decides_byte 1).bind fun tag htag => htag ▸
      (Decides.of_reads (P := fun _ => True) (reads_s32 v) trivial).map
        fun _ _ => rfl
  | flag b =>
    cases h
    exact (decides_byte 2).bind fun tag htag => htag ▸ (decides_bool b).map
      fun _ _ => rfl
  | type t =>
    cases h
    exact (decides_byte 3).bind fun tag htag => htag ▸ (decides_typeRef t).map
      fun _ _ => rfl
  | field f =>
    cases f with
    | none => cases h
    | some f =>
      cases h
      exact (decides_byte 4).bind fun tag htag => htag ▸
        (decides_fieldRef f).map fun _ _ => rfl
  | method m =>
    cases m with
    | none => cases h
    | some m =>
      cases h
      exact (decides_byte 5).bind fun tag htag => htag ▸
        (decides_methodRef m).map fun _ _ => rfl
  | none | arg | int64 | float32 | float64 | slot | target | targets => cases h

theorem isSome_valueParts? {v : Operand} {form : Option (List UInt8)}
    (h : value? v = .ok form) : v.valueParts?.isSome = form.isSome := by
  cases v with
  | field f => cases f <;> cases h; rfl
  | method m => cases m <;> cases h; rfl
  | _ => cases h; rfl

theorem decides_argument {v : Operand} {bs : List UInt8}
    (h : argument v = .ok bs) :
    Decides readValue bs v.argumentParts fun _ => True := by
  obtain ⟨form, hform, h⟩ := bind_eq_ok_iff.1 h
  have hsome := isSome_valueParts? hform
  unfold Operand.argumentParts
  cases form with
  | some cs =>
    cases h
    obtain ⟨ps, hps⟩ := Option.isSome_iff_exists.1 hsome
    simpa [hps] using (decides_value hform).any
  | none =>
    cases h
    have hnone : v.valueParts? = none := by simpa using hsome
    rw [hnone]
    exact (decides_byte 0).bind fun tag htag => htag ▸ (decides_name _).map
      fun _ _ => trivial

theorem decides_named_argument {v : String × Operand} {bs : List UInt8}
    (h : (do return name v.1 ++ (← argument v.2) : Outcome (List UInt8)) =
      .ok bs) :
    Decides (do let n ← Reader.name; return (n, ← readValue)) bs
      (.name v.1 :: v.2.argumentParts) fun _ => True := by
  obtain ⟨cs, hcs, h⟩ := bind_eq_ok_iff.1 h
  cases h
  exact (decides_name v.1).bind fun _ _ => (decides_argument hcs).map
    fun _ _ => trivial

theorem decides_attribute {a : Attribute} {bs : List UInt8}
    (h : (do
      let args ← a.args.mapM argument
      let named ← a.named.mapM fun v => do return name v.1 ++ (← argument v.2)
      return typeRef a.type ++ counted args ++ counted named :
    Outcome (List UInt8)) = .ok bs) :
    Decides readAttribute bs a.parts fun _ => True := by
  obtain ⟨args, hargs, h⟩ := bind_eq_ok_iff.1 h
  obtain ⟨named, hnamed, h⟩ := bind_eq_ok_iff.1 h
  cases h
  rw [List.append_assoc, Attribute.parts, List.append_assoc]
  exact (decides_typeRef a.type).bind fun _ _ =>
    (decides_listOf ((forall₂_of_mapM hargs).imp
      fun _ _ => decides_argument)).bind fun _ _ =>
    (decides_listOf ((forall₂_of_mapM hnamed).imp
      fun _ _ => decides_named_argument)).map fun _ _ => trivial

theorem decides_attributes {as : List Attribute} {bs : List UInt8}
    (h : attributes as = .ok bs) :
    Decides (listOf readAttribute) bs (Part.list Attribute.parts as)
      fun _ => True := by
  obtain ⟨parts, hparts, h⟩ := bind_eq_ok_iff.1 h
  cases h
  exact (decides_listOf ((forall₂_of_mapM hparts).imp
    fun _ _ => decides_attribute)).any

end Codec

end JobWeave
