import Mathlib
import JobWeave.Proofs.Bytes.Reading
import JobWeave.Proofs.Codec.Form

/-!
# References in the binary form

Type, field and method references, values and attributes are read back, and
whatever is read of them is complete.

* `reads_listOf` and `reads_times` are the rules for lists.
* `Written` says that a writer succeeds with bytes that the reader takes, and
  `listOf_written` is its rule for lists.
* For each form there is a theorem `reads_…` or `written_…` in the one direction
  and `gives_…` in the other.
-/

namespace JobWeave.Codec

open Bytes

variable {α β : Type}

/-! ## Lists -/

/-- A failure that did not happen belongs to no part. -/
theorem reads_within {part : String} {act : Read α} {bs : List UInt8} {a : α}
    (h : Reads act bs a) : Reads (within part act) bs a := by
  intro n rest
  rw [within, h]

theorem gives_within {part : String} {act : Read α} {P : α → Prop}
    (h : Gives act P) :
    Gives (within part act) P := by
  intro r a r' hrun
  unfold within at hrun
  cases hact : act r with
  | error e s =>
    rw [hact] at hrun
    cases hrun
  | ok b s =>
    rw [hact] at hrun
    cases hrun
    exact h r a r' hact

theorem reads_readCount {n : Nat} (h : n ≤ maxCount) :
    Reads readCount (u32 n) n := by
  have hlt : n < 2 ^ 32 := h.trans_lt (by decide)
  refine (reads_u32 hlt).bind_last ?_
  rw [if_neg (by omega)]
  exact Reads.pure n

theorem gives_readCount : Gives readCount (· ≤ maxCount) := by
  refine Gives.bind_any fun n => ?_
  split
  · exact Gives.throw
  · exact Gives.pure (by omega)

theorem reads_number {n : Int} (h : NumberFits n) :
    Reads Reader.u32 (u32 n) n.toNat ∧ (n.toNat : Int) = n := by
  obtain ⟨k, rfl⟩ := Int.eq_ofNat_of_zero_le h.1
  exact ⟨reads_u32 (by exact_mod_cast h.2), rfl⟩

theorem gives_number : Gives Reader.u32 fun n => NumberFits n :=
  gives_u32.imp fun _ hn => ⟨by omega, by omega⟩

/-- Parts that follow each other are read one after another. -/
theorem reads_times {act : Nat → Read α} {parts : List (List UInt8)}
    {as : List α} (i : Nat) (hlen : parts.length = as.length)
    (h : ∀ k bs a, parts[k]? = some bs → as[k]? = some a →
      Reads (act (i + k)) bs a) :
    Reads (times act as.length i) parts.flatten as := by
  induction as generalizing parts i with
  | nil =>
    cases List.length_eq_zero_iff.1 hlen
    exact Reads.pure []
  | cons a as ih =>
    obtain ⟨bs, parts, rfl⟩ := List.exists_cons_of_length_eq_add_one hlen
    have hrest : Reads (times act as.length (i + 1)) parts.flatten as := by
      refine ih (i + 1) (by simpa using hlen) fun k cs b hcs hb => ?_
      have hk := h (k + 1) cs b (by simpa using hcs) (by simpa using hb)
      rwa [show i + (k + 1) = i + 1 + k by omega] at hk
    exact (h 0 bs a rfl rfl).bind (hrest.bind_last (Reads.pure _))

theorem reads_each {act : Read α} {parts : List (List UInt8)} {as : List α}
    (h : List.Forall₂ (Reads act) parts as) :
    Reads (times (fun _ => act) parts.length 0) parts.flatten as := by
  rw [h.length_eq]
  refine reads_times 0 h.length_eq fun k bs a hbs ha => ?_
  obtain ⟨hk, rfl⟩ := List.getElem?_eq_some_iff.1 hbs
  obtain ⟨hk', rfl⟩ := List.getElem?_eq_some_iff.1 ha
  exact h.get hk hk'

theorem reads_listOf {act : Read α} {parts : List (List UInt8)} {as : List α}
    (h : List.Forall₂ (Reads act) parts as) (hn : ListFits as) :
    Reads (listOf act) (counted parts) as :=
  (reads_readCount (h.length_eq ▸ hn)).bind (reads_each h)

/-- A list of which every part is read back. -/
theorem reads_all {act : Read α} {write : α → List UInt8} {as : List α}
    (h : ∀ a ∈ as, Reads act (write a) a) (hn : ListFits as) :
    Reads (listOf act) (counted (as.map write)) as := by
  refine reads_listOf ?_ hn
  rw [List.forall₂_map_left_iff]
  exact List.forall₂_same.2 h

/-- What is read one after another, with its number. -/
theorem gives_times {act : Nat → Read α} {P : Nat → α → Prop}
    (h : ∀ k, Gives (act k) (P k)) (n i : Nat) : Gives (times act n i) fun as =>
      as.length = n ∧ ∀ k a, as[k]? = some a → P (i + k) a := by
  induction n generalizing i with
  | zero => exact Gives.pure ⟨rfl, by simp⟩
  | succ n ih =>
    refine (h i).bind fun a ha => (ih (i + 1)).bind fun as has => Gives.pure
      ⟨by simp [has.1], ?_⟩
    intro k b hb
    cases k with
    | zero =>
      cases hb
      exact ha
    | succ k =>
      have hk := has.2 k b (by simpa using hb)
      rwa [show i + 1 + k = i + (k + 1) by omega] at hk

/-- What is read of a list. -/
theorem gives_each {act : Read α} {P : α → Prop} (h : Gives act P) (n : Nat) :
    Gives (times (fun _ => act) n 0) fun as => as.length = n ∧ ∀ a ∈ as,
    P a := by
  refine (gives_times (P := fun _ => P) (fun _ => h) n 0).imp
    fun as has => ⟨has.1, ?_⟩
  intro a ha
  obtain ⟨k, hk, rfl⟩ := List.getElem_of_mem ha
  exact has.2 k _ (List.getElem?_eq_getElem hk)

theorem gives_listOf {act : Read α} {P : α → Prop} (h : Gives act P) :
    Gives (listOf act) fun as => ListFits as ∧ ∀ a ∈ as, P a :=
  gives_readCount.bind fun n hn => (gives_each h n).imp
    fun _ has => ⟨has.1.trans_le hn, has.2⟩

/-- The writer succeeds, and the reader takes what it wrote. -/
def Written (out : Outcome (List UInt8)) (act : Read α) (a : α) : Prop :=
  ∃ bs, out = .ok bs ∧ Reads act bs a

/-- Every part succeeds, so all of them do. -/
theorem mapM_succeeds {ε : Type} {f : β → Except ε α} {R : β → α → Prop}
    {xs : List β} (h : ∀ x ∈ xs, ∃ y, f x = .ok y ∧ R x y) :
    ∃ ys, xs.mapM f = .ok ys ∧ List.Forall₂ R xs ys := by
  induction xs with
  | nil => exact ⟨[], rfl, .nil⟩
  | cons x xs ih =>
    obtain ⟨y, hx, hy⟩ := h x (by simp)
    obtain ⟨ys, hxs, hys⟩ := ih fun z hz => h z (by simp [hz])
    exact ⟨y :: ys, by rw [List.mapM_cons, hx, hxs]; rfl, .cons hy hys⟩

/-- A list is written behind its length. -/
theorem listOf_written {f : β → Outcome (List UInt8)} {act : Read α} {g : β → α}
    {xs : List β} (h : ∀ x ∈ xs, Written (f x) act (g x)) (hn : ListFits xs) :
    ∃ parts, xs.mapM f = .ok parts ∧ Reads (listOf act) (counted parts)
      (xs.map g) := by
  obtain ⟨parts, hparts, hreads⟩ := mapM_succeeds h
  refine ⟨parts, hparts, reads_listOf ?_ (by simpa [ListFits] using hn)⟩
  rw [List.forall₂_map_right_iff]
  exact hreads.flip

/-! ## Type references -/

theorem typeRefParts_eq (ts : List TypeRef) :
    typeRefParts ts = (ts.map typeRef).flatten := by
  induction ts with
  | nil => rfl
  | cons t ts ih => rw [typeRefParts, ih, List.map_cons, List.flatten_cons]

theorem typeRefs_eq (ts : List TypeRef) :
    typeRefs ts = counted (ts.map typeRef) := by
  rw [typeRefs, counted, typeRefParts_eq, List.length_map]

/-- The bytes of a part are among those of the list. -/
theorem length_typeRef_le {t : TypeRef} {ts : List TypeRef} (h : t ∈ ts) :
    (typeRef t).length ≤ (typeRefParts ts).length := by
  rw [typeRefParts_eq]
  exact (List.sublist_flatten_of_mem (List.mem_map_of_mem h)).length_le

theorem typeRef_named (ns name : String) (valueType : Bool) (outer : TypeRef)
    (args : List TypeRef) :
    typeRef (.named ns name valueType outer args) =
      [1] ++ (Bytes.name ns ++ (Bytes.name name ++ (bool valueType ++
        (typeRef outer ++ counted (args.map typeRef))))) := by
  simp [typeRef, ← typeRefs_eq, typeRefs]

/-- The bytes of the outer type are among those of the type. -/
theorem length_typeRef_outer (ns name : String) (valueType : Bool)
    (outer : TypeRef) (args : List TypeRef) :
    (typeRef outer).length <
    (typeRef (.named ns name valueType outer args)).length := by
  rw [typeRef_named]
  simp only [List.length_append, List.length_singleton]
  omega

/-- The bytes of an argument are among those of the type. -/
theorem length_typeRef_arg (ns name : String) (valueType : Bool)
    (outer : TypeRef) {args : List TypeRef} {a : TypeRef} (h : a ∈ args) :
    (typeRef a).length <
    (typeRef (.named ns name valueType outer args)).length := by
  have hle := length_typeRef_le h
  rw [typeRef_named, ← typeRefs_eq, typeRefs]
  simp only [List.length_append, List.length_singleton]
  omega

theorem reads_named {fuel : Nat} {ns name : String} {valueType : Bool}
    {outer : TypeRef} {args : List TypeRef} (hns : NameFits ns)
    (hname : NameFits name)
    (houter : Reads (typeRefUpTo fuel) (typeRef outer) outer)
    (hcount : ListFits args)
    (hargs : ∀ a ∈ args, Reads (typeRefUpTo fuel) (typeRef a) a) :
    Reads (typeRefUpTo (fuel + 1))
      (typeRef (.named ns name valueType outer args))
      (.named ns name valueType outer args) := by
  rw [typeRef_named]
  refine (reads_byte 1).bind <| (reads_name hns).bind <|
    (reads_name hname).bind <| (reads_bool valueType).bind <| houter.bind <|
      (reads_all hargs hcount).bind_last ?_
  exact Reads.pure _

theorem reads_wrapped {fuel : Nat} {kind : Wrapper} {elem : TypeRef}
    (hpresent : elem.isPresent)
    (helem : Reads (typeRefUpTo fuel) (typeRef elem) elem) :
    Reads (typeRefUpTo (fuel + 1)) (typeRef (.wrapped kind elem []))
      (.wrapped kind elem []) := by
  have hwrap : Reads (typeRefUpTo.wrapper kind elem) []
      (.wrapped kind elem []) := by
    unfold typeRefUpTo.wrapper
    rw [if_neg (by simpa [TypeRef.isPresent] using hpresent)]
    exact Reads.pure _
  cases kind with
  | byRef => exact (reads_byte 2).bind (helem.bind_last hwrap)
  | pointer => exact (reads_byte 3).bind (helem.bind_last hwrap)
  | array => exact (reads_byte 4).bind (helem.bind_last hwrap)

theorem reads_param {fuel : Nat} {owner : ParamOwner} {position : Int}
    (h : NumberFits position) :
    Reads (typeRefUpTo (fuel + 1)) (typeRef (.param owner position []))
      (.param owner position []) := by
  obtain ⟨n, rfl⟩ := Int.eq_ofNat_of_zero_le h.1
  have hread := (reads_number h).1
  cases owner with
  | type => exact (reads_byte 5).bind (hread.bind_last (Reads.pure _))
  | method => exact (reads_byte 6).bind (hread.bind_last (Reads.pure _))

/-- A type reference is read back with as much fuel as it has bytes. -/
theorem reads_typeRefUpTo {t : TypeRef} (h : t.Fits true) {fuel : Nat}
    (hfuel : (typeRef t).length ≤ fuel) :
    Reads (typeRefUpTo (fuel + 1)) (typeRef t) t := by
  induction h generalizing fuel with
  | absent => exact (reads_byte 0).bind_last (Reads.pure _)
  | @named ns name valueType outer args hns hname _ hcount _ ihouter ihargs =>
    have hlt := length_typeRef_outer ns name valueType outer args
    obtain ⟨fuel, rfl⟩ : ∃ n, fuel = n + 1 := ⟨fuel - 1, by omega⟩
    refine reads_named hns hname (ihouter (by omega)) hcount fun a ha => ?_
    have harg := length_typeRef_arg ns name valueType outer ha
    exact ihargs a ha (by omega)
  | @wrapped kind elem args hpresent _ _ _ hempty ihelem _ =>
    cases hempty rfl
    obtain ⟨fuel, rfl⟩ : ∃ n, fuel = n + 1 :=
      ⟨fuel - 1, by cases kind <;> simp [typeRef] at hfuel <;> omega⟩
    refine reads_wrapped hpresent (ihelem ?_)
    cases kind <;> simpa [typeRef] using hfuel
  | param hposition _ _ hempty _ =>
    cases hempty rfl
    exact reads_param hposition

theorem reads_typeRef {t : TypeRef} (h : t.Fits true) :
    Reads readTypeRef (typeRef t) t :=
  Reads.get_bind fun _ hle => reads_typeRefUpTo h hle

theorem gives_typeRefUpTo (fuel : Nat) :
    Gives (typeRefUpTo fuel) (TypeRef.Fits true) := by
  induction fuel with
  | zero => exact Gives.throw
  | succ fuel ih =>
    have hwrap : ∀ kind (elem : TypeRef), elem.Fits true →
        Gives (typeRefUpTo.wrapper kind elem) (TypeRef.Fits true) := by
      intro kind elem helem
      unfold typeRefUpTo.wrapper
      split
      · exact Gives.throw
      · rename_i hpresent
        exact Gives.pure (.wrapped (by simpa [TypeRef.isPresent] using hpresent)
          helem listFits_nil (by simp) fun _ => rfl)
    have hparam : ∀ (owner : ParamOwner) (n : Nat), NumberFits n →
        TypeRef.Fits true (.param owner n []) := fun _ _ hn =>
      .param hn listFits_nil (by simp) fun _ => rfl
    refine Gives.bind_any fun tag => ?_
    split
    · exact Gives.pure .absent
    · exact gives_name.bind fun _ hns => gives_name.bind fun _ hname =>
          Gives.bind_any fun _ =>
        ih.bind fun _ houter => (gives_listOf ih).bind fun _ hargs =>
          Gives.pure (.named hns hname houter hargs.1 hargs.2)
    · exact ih.bind (hwrap _)
    · exact ih.bind (hwrap _)
    · exact ih.bind (hwrap _)
    · exact gives_number.bind fun n hn => Gives.pure (hparam _ n hn)
    · exact gives_number.bind fun n hn => Gives.pure (hparam _ n hn)
    · exact Gives.throw

theorem gives_readTypeRef : Gives readTypeRef (TypeRef.Fits true) :=
  Gives.bind_any fun _ => gives_typeRefUpTo _

theorem reads_typeRefs {ts : List TypeRef} (h : TypeRef.AllFit true ts) :
    Reads (listOf readTypeRef) (typeRefs ts) ts := by
  rw [typeRefs_eq]
  exact reads_all (fun t ht => reads_typeRef (h.each t ht)) h.count

theorem gives_readTypeRefs : Gives (listOf readTypeRef) (TypeRef.AllFit true) :=
  (gives_listOf gives_readTypeRef).imp fun _ h => ⟨h.1, h.2⟩

/-! ## Members -/

theorem reads_fieldRef {f : FieldRef} (h : f.Fits true) :
    Reads readFieldRef (fieldRef f) f := by
  rw [fieldRef, List.append_assoc]
  refine (reads_typeRef h.owner).bind <| (reads_typeRef h.type).bind <|
    (reads_name h.name).bind_last ?_
  rw [if_neg (by simpa [TypeRef.isPresent] using h.hasOwner)]
  exact Reads.pure f

theorem gives_readFieldRef : Gives readFieldRef (FieldRef.Fits true) := by
  refine gives_readTypeRef.bind fun owner howner => gives_readTypeRef.bind
      fun type htype =>
    gives_name.bind fun name hname => ?_
  split
  · exact Gives.throw
  · rename_i hpresent
    exact Gives.pure
      ⟨by simpa [TypeRef.isPresent] using hpresent, howner, htype, hname⟩

theorem reads_methodRef {m : MethodRef} (h : m.Fits true) :
    Reads readMethodRef (methodRef m) m := by
  obtain ⟨harity, heq⟩ := reads_number h.arity
  simp only [methodRef, List.append_assoc]
  refine (reads_typeRef h.owner).bind <| (reads_typeRef h.ret).bind <|
    (reads_name h.name).bind <| (reads_bool m.hasThis).bind <|
      (reads_typeRefs h.params).bind <|
    harity.bind <| (reads_typeRefs h.typeArgs).bind_last ?_
  rw [if_neg (by simpa [TypeRef.isPresent] using h.hasOwner), heq]
  exact Reads.pure m

theorem gives_readMethodRef : Gives readMethodRef (MethodRef.Fits true) := by
  refine gives_readTypeRef.bind fun owner howner => gives_readTypeRef.bind
      fun ret hret =>
    gives_name.bind fun name hname => Gives.bind_any fun hasThis =>
    gives_readTypeRefs.bind fun params hparams => gives_number.bind
        fun arity harity =>
    gives_readTypeRefs.bind fun typeArgs htypeArgs => ?_
  split
  · exact Gives.throw
  · rename_i hpresent
    exact Gives.pure
      { hasOwner := by simpa [TypeRef.isPresent] using hpresent
        owner := howner
        ret := hret
        name := hname
        params := hparams
        arity := harity
        typeArgs := htypeArgs }

/-! ## Values -/

/-- The values that tokens and attributes have are read back. -/
theorem reads_value {v : Operand} (h : v.ValueFits true) :
    ∃ bs, value? v = .ok (some bs) ∧ Reads readValue bs v := by
  match v, h with
  | .text s, h =>
    exact ⟨_, rfl, (reads_byte 0).bind
      ((reads_name h).bind_last (Reads.pure _))⟩
  | .int32 v, _ =>
    refine ⟨_, rfl, (reads_byte 1).bind ((reads_s32 v).bind_last ?_)⟩
    rw [Int32.ofInt_toInt]
    exact Reads.pure _
  | .flag b, _ =>
    exact ⟨_, rfl, (reads_byte 2).bind
      ((reads_bool b).bind_last (Reads.pure _))⟩
  | .type t, h =>
    exact ⟨_, rfl, (reads_byte 3).bind
      ((reads_typeRef h).bind_last (Reads.pure _))⟩
  | .field (some f), h =>
    exact ⟨_, rfl, (reads_byte 4).bind
      ((reads_fieldRef h).bind_last (Reads.pure _))⟩
  | .method (some m), h =>
    exact ⟨_, rfl, (reads_byte 5).bind
      ((reads_methodRef h).bind_last (Reads.pure _))⟩

theorem gives_readValue : Gives readValue (Operand.ValueFits true) := by
  refine Gives.bind_any fun tag => ?_
  split
  · exact gives_name.bind fun _ h => Gives.pure h
  · exact Gives.bind_any fun _ => Gives.pure trivial
  · exact Gives.bind_any fun _ => Gives.pure trivial
  · exact gives_readTypeRef.bind fun _ h => Gives.pure h
  · exact gives_readFieldRef.bind fun _ h => Gives.pure h
  · exact gives_readMethodRef.bind fun _ h => Gives.pure h
  · exact Gives.throw

theorem written_argument {v : Operand} (h : v.ValueFits true) :
    Written (argument v) readValue v := by
  obtain ⟨bs, hbs, hreads⟩ := reads_value h
  refine ⟨bs, ?_, hreads⟩
  rw [argument, hbs]
  rfl

/-! ## Attributes -/

theorem written_named {v : String × Operand} (hname : NameFits v.1)
    (hvalue : v.2.ValueFits true) :
    Written (do return name v.1 ++ (← argument v.2))
      (do let n ← Reader.name; return (n, ← readValue)) v := by
  obtain ⟨bs, hbs, hreads⟩ := written_argument hvalue
  refine ⟨name v.1 ++ bs, ?_,
    (reads_name hname).bind (hreads.bind_last (Reads.pure v))⟩
  rw [hbs]
  rfl

theorem written_attribute {a : Attribute} (h : a.Fits true) :
    Written (do
      let args ← a.args.mapM argument
      let named ← a.named.mapM fun v => do return name v.1 ++ (← argument v.2)
      return typeRef a.type ++ counted args ++ counted named)
        readAttribute a := by
  obtain ⟨args, hargs, hreadArgs⟩ := listOf_written (f := argument) (g := id)
    (fun v hv => written_argument (h.args v hv)) h.argCount
  obtain ⟨named, hnamed, hreadNamed⟩ := listOf_written
    (f := fun v : String × Operand => do return name v.1 ++ (← argument v.2))
      (g := id)
    (fun v hv => written_named (h.named v hv).1 (h.named v hv).2) h.namedCount
  rw [List.map_id] at hreadArgs hreadNamed
  refine ⟨typeRef a.type ++ (counted args ++ counted named), ?_, ?_⟩
  · rw [hargs, hnamed]
    simp only [bind, Except.bind, pure, Except.pure, List.append_assoc]
  · exact (reads_typeRef h.type).bind <| hreadArgs.bind <| hreadNamed.bind_last
      (Reads.pure a)

theorem written_attributes {as : List Attribute}
    (h : Attribute.AllFit true as) :
    Written (attributes as) (listOf readAttribute) as := by
  obtain ⟨parts, hparts, hreads⟩ := listOf_written (g := id)
    (fun a ha => written_attribute (h.each a ha)) h.count
  rw [List.map_id] at hreads
  refine ⟨counted parts, ?_, hreads⟩
  exact congrArg (· >>= fun parts => pure (counted parts)) hparts

theorem gives_readAttributes :
    Gives (listOf readAttribute) (Attribute.AllFit true) := by
  refine (gives_listOf (P := Attribute.Fits true) ?_).imp fun _ h => ⟨h.1, h.2⟩
  refine gives_readTypeRef.bind fun type htype =>
      (gives_listOf gives_readValue).bind fun args hargs =>
    (gives_listOf (P := fun v : String × Operand => NameFits v.1 ∧
      v.2.ValueFits true) ?_).bind fun named hnamed => Gives.pure ⟨htype,
      hargs.1, hargs.2, hnamed.1, hnamed.2⟩
  exact gives_name.bind fun _ hn => gives_readValue.bind fun _ hv => Gives.pure
    ⟨hn, hv⟩

end JobWeave.Codec
