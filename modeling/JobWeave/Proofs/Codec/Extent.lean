import Mathlib
import JobWeave.Proofs.Codec.References

/-!
# How much is read

Whatever the bytes are, reading ends, and what it gives is no larger than they
are.

* `Module.extent` counts the definitions, references, instructions and the other
  parts of a module.
* `Costs` says that a reader takes a byte for everything that it gives, does not
  lose its place, and fails at positions inside the data.  Readers and lists
  compose (`Costs.bind`, `costs_listOf`), and there is a theorem `costs_…` for
  each form.
* `RecursesOnUnread`: a recursion that goes on only where fewer bytes are left,
  as type references and type definitions do (`typeRefLevel`, `typeDefLevel`);
  all other forms are lists of parts.
* `decode_bounded` puts these together.
-/

namespace JobWeave

open Codec Bytes

/-! ## Extents -/

mutual

/-- The number of references in a type reference, those to no type included. -/
def TypeRef.extent : TypeRef → Nat
  | .absent => 1
  | .named _ _ _ o as => 1 + o.extent + TypeRef.extentOfAll as
  | .wrapped _ e as => 1 + e.extent + TypeRef.extentOfAll as
  | .param _ _ as => 1 + TypeRef.extentOfAll as

/-- The number of references in type references together. -/
def TypeRef.extentOfAll : List TypeRef → Nat
  | [] => 0
  | t :: ts => t.extent + TypeRef.extentOfAll ts

end

/-- The number of references in a field reference. -/
def FieldRef.extent (f : FieldRef) : Nat :=
  1 + f.owner.extent + f.type.extent

/-- The number of references in a method reference. -/
def MethodRef.extent (m : MethodRef) : Nat :=
  1 + m.owner.extent + m.ret.extent + (m.params.map TypeRef.extent).sum +
    (m.typeArgs.map TypeRef.extent).sum

/-- The number of references in an operand, or of targets in a table. -/
def Operand.extent : Operand → Nat
  | .type t => t.extent
  | .field f => (f.map FieldRef.extent).getD 1
  | .method m => (m.map MethodRef.extent).getD 1
  | .targets ls => ls.length
  | _ => 0

/-- An attribute with its arguments and the references in them. -/
def Attribute.extent (a : Attribute) : Nat :=
  1 + a.type.extent + (a.args.map fun v => 1 + v.extent).sum +
    (a.named.map fun v => 1 + v.2.extent).sum

/-- The local variables, instructions and sequence points of a body with their
parts. -/
def Body.extent (b : Body) : Nat :=
  (b.locals.map fun l => 1 + l.type.extent).sum +
    (b.code.map fun i => 1 + i.operand.extent).sum +
    b.points.length

/-- A field with its parts. -/
def FieldDef.extent (f : FieldDef) : Nat :=
  1 + f.type.extent + (f.attributes.map Attribute.extent).sum

/-- A parameter with its parts. -/
def ParamDef.extent (p : ParamDef) : Nat :=
  1 + p.type.extent + (p.attributes.map Attribute.extent).sum

/-- A method with its parts. -/
def MethodDef.extent (m : MethodDef) : Nat :=
  1 + m.ret.extent + (m.params.map ParamDef.extent).sum +
    m.genericParams.length + (m.attributes.map Attribute.extent).sum +
      (m.body.map Body.extent).getD 0

/-- What a type says of itself, with its fields. -/
def TypeHead.extent (h : TypeHead) : Nat :=
  h.base.extent + (h.interfaces.map TypeRef.extent).sum +
    h.genericParams.length + (h.attributes.map Attribute.extent).sum +
      (h.fields.map FieldDef.extent).sum

mutual

/-- A type with its parts. -/
def TypeDef.extent : TypeDef → Nat
  | .mk h ms ts =>
    1 + h.extent + (ms.map MethodDef.extent).sum + TypeDef.extentOfAll ts

/-- Types with their parts. -/
def TypeDef.extentOfAll : List TypeDef → Nat
  | [] => 0
  | t :: ts => t.extent + TypeDef.extentOfAll ts

end

/-- The number of types, members, parameters, attributes with their arguments,
references, local variables, instructions, targets of tables and sequence points
of a module. -/
def Module.extent (m : Module) : Nat :=
  (m.types.map TypeDef.extent).sum

theorem TypeRef.extentOfAll_eq (ts : List TypeRef) :
    extentOfAll ts = (ts.map extent).sum := by
  induction ts with
  | nil => rfl
  | cons t ts ih => rw [extentOfAll, ih, List.map_cons, List.sum_cons]

theorem TypeDef.extentOfAll_eq (ts : List TypeDef) :
    extentOfAll ts = (ts.map extent).sum := by
  induction ts with
  | nil => rfl
  | cons t ts ih => rw [extentOfAll, ih, List.map_cons, List.sum_cons]

theorem TypeDef.extent_asNested (t : TypeDef) :
    (asNested t).extent = t.extent := by
  cases t
  rfl

/-- All positions that a failure tells are at most a number. -/
def Failure.StaysWithin (n : Nat) : Failure → Prop
  | .parsing _ p c => p ≤ n ∧ c.StaysWithin n
  | .caused _ c | .context _ c => c.StaysWithin n
  | _ => True

namespace Codec

variable {α β : Type}

/-! ## What reading costs -/

/-- The position of the last byte, told by any reader of the same bytes. -/
def endOf (r : Reader) : Nat :=
  r.position + r.remaining

/-- The reader takes a byte for everything that it gives, and fails inside the
data. -/
structure Costs (act : Read α) (cost : α → Nat) : Prop where
  /-- what is given is paid for -/
  pays : ∀ r a r', act r = .ok a r' → cost a + r'.remaining ≤ r.remaining
  /-- the bytes stay where they are -/
  keeps : ∀ r a r', act r = .ok a r' → endOf r' = endOf r
  /-- so they do in a failure -/
  stays : ∀ r f r', act r = .error f r' → endOf r' = endOf r ∧
    f.StaysWithin (endOf r)

namespace Costs

variable {cost cost' : α → Nat}

theorem imp {act : Read α} (h : Costs act cost) (hle : ∀ a, cost' a ≤ cost a) :
    Costs act cost' where
  pays r a r' hrun := (Nat.add_le_add_right (hle a) _).trans
    (h.pays r a r' hrun)
  keeps := h.keeps
  stays := h.stays

theorem pure {a : α} (h : cost a = 0) : Costs (Pure.pure a : Read α) cost where
  pays r b r' hrun := by
    cases hrun
    rw [h, Nat.zero_add]
  keeps r b r' hrun := by
    cases hrun
    rfl
  stays r f r' hrun := by cases hrun

/-- A failure that tells no position. -/
theorem throw {f : Failure} (h : ∀ n, f.StaysWithin n) :
    Costs (MonadExcept.throw f : Read α) cost where
  pays r a r' hrun := by cases hrun
  keeps r a r' hrun := by cases hrun
  stays r e r' hrun := by
    cases hrun
    exact ⟨rfl, h _⟩

/-- What the first reader has paid for need not be paid again. -/
theorem bind {act : Read α} {f : α → Read β} {total : β → Nat}
    (h : Costs act cost) (hf : ∀ a, Costs (f a) fun b => total b - cost a) :
    Costs (act >>= f) total where
  pays r b r' hrun := by
    simp only [Bind.bind, EStateM.bind] at hrun
    cases hact : act r with
    | error e s => simp [hact] at hrun
    | ok a s =>
      rw [hact] at hrun
      have hfirst := h.pays r a s hact
      have hrest := (hf a).pays s b r' hrun
      omega
  keeps r b r' hrun := by
    simp only [Bind.bind, EStateM.bind] at hrun
    cases hact : act r with
    | error e s => simp [hact] at hrun
    | ok a s =>
      rw [hact] at hrun
      exact ((hf a).keeps s b r' hrun).trans (h.keeps r a s hact)
  stays r e r' hrun := by
    simp only [Bind.bind, EStateM.bind] at hrun
    cases hact : act r with
    | error e' s =>
      rw [hact] at hrun
      cases hrun
      exact h.stays r e r' hact
    | ok a s =>
      rw [hact] at hrun
      have hrest := (hf a).stays s e r' hrun
      rwa [h.keeps r a s hact] at hrest

theorem get_bind {f : Reader → Read α} (h : ∀ r, Costs (f r) cost) :
    Costs (get >>= f) cost where
  pays r a r' hrun := (h r).pays r a r' hrun
  keeps r a r' hrun := (h r).keeps r a r' hrun
  stays r e r' hrun := (h r).stays r e r' hrun

theorem failHere {f : Failure} (h : ∀ n, f.StaysWithin n) :
    Costs (Reader.failHere f : Read α) cost :=
  get_bind fun _ => throw h

/-- The position of the reader is inside the data. -/
theorem within {part : String} {act : Read α} (h : Costs act cost) :
    Costs (within part act) cost where
  pays r a r' hrun := by
    unfold Codec.within at hrun
    cases hact : act r with
    | error e s => simp [hact] at hrun
    | ok b s =>
      rw [hact] at hrun
      cases hrun
      exact h.pays r a r' hact
  keeps r a r' hrun := by
    unfold Codec.within at hrun
    cases hact : act r with
    | error e s => simp [hact] at hrun
    | ok b s =>
      rw [hact] at hrun
      cases hrun
      exact h.keeps r a r' hact
  stays r e r' hrun := by
    unfold Codec.within at hrun
    cases hact : act r with
    | ok b s => simp [hact] at hrun
    | error e s =>
      rw [hact] at hrun
      cases hrun
      obtain ⟨hend, hwithin⟩ := h.stays r e r' hact
      exact ⟨hend, hend ▸ Nat.le_add_right _ _, hwithin⟩

end Costs

/-! ## Primitives -/

theorem costs_byte : Costs Reader.byte fun _ => 1 where
  pays := by
    rintro ⟨n, _ | ⟨b, rest⟩⟩ a r' hrun <;> cases hrun
    exact (Nat.add_comm 1 rest.length).le
  keeps := by
    rintro ⟨n, _ | ⟨b, rest⟩⟩ a r' hrun <;> cases hrun
    simp only [endOf, Reader.remaining, List.length_cons]
    omega
  stays := by
    rintro ⟨n, _ | ⟨b, rest⟩⟩ f r' hrun <;> cases hrun
    exact ⟨rfl, trivial⟩

/-- Bytes are taken if they are there. -/
theorem bytes_cases (n : Int) (r : Reader) :
    Reader.bytes n r = .error .truncated r ∨
      n.toNat ≤ r.remaining ∧ Reader.bytes n r =
        .ok (r.rest.take n.toNat) ⟨r.position + n.toNat,
          r.rest.drop n.toNat⟩ := by
  unfold Reader.bytes Reader.remaining
  simp only [bind, EStateM.bind, get, getThe, MonadStateOf.get, EStateM.get]
  split
  · exact .inl rfl
  · rename_i htaken
    rw [List.length_take] at htaken
    exact .inr ⟨by omega, rfl⟩

theorem costs_bytes (n : Int) : Costs (Reader.bytes n) List.length where
  pays r data r' hrun := by
    obtain hcut | ⟨hle, htaken⟩ := bytes_cases n r
    · simp [hcut] at hrun
    rw [htaken] at hrun
    cases hrun
    simp only [Reader.remaining, List.length_take, List.length_drop] at hle ⊢
    omega
  keeps r data r' hrun := by
    obtain hcut | ⟨hle, htaken⟩ := bytes_cases n r
    · simp [hcut] at hrun
    rw [htaken] at hrun
    cases hrun
    simp only [endOf, Reader.remaining, List.length_drop] at hle ⊢
    omega
  stays r f r' hrun := by
    obtain hcut | ⟨-, htaken⟩ := bytes_cases n r
    · rw [hcut] at hrun
      cases hrun
      exact ⟨rfl, trivial⟩
    · simp [htaken] at hrun

theorem costs_bool : Costs Reader.bool fun _ => 1 := by
  refine costs_byte.bind fun b => ?_
  dsimp only
  split
  · exact .failHere fun _ => trivial
  · exact .pure rfl

theorem costs_groups (fuel shift sum : Nat) :
    Costs (Reader.groups fuel shift sum) fun _ => 1 := by
  induction fuel generalizing shift sum with
  | zero => exact .failHere fun _ => trivial
  | succ fuel ih =>
    refine costs_byte.bind fun b => ?_
    dsimp only
    split
    · exact .pure rfl
    · exact (ih _ _).imp fun _ => Nat.zero_le _

theorem costs_u32 : Costs Reader.u32 fun _ => 1 := by
  refine (costs_groups 5 0 0).bind fun ⟨v, _, _⟩ => ?_
  dsimp only
  split
  · exact .failHere fun _ => trivial
  · exact .pure rfl

theorem costs_s32 : Costs Reader.s32 fun _ => 1 := by
  refine (costs_groups 5 0 0).bind fun ⟨v, _, _⟩ => ?_
  dsimp only
  split
  · exact .failHere fun _ => trivial
  · exact .pure rfl

theorem costs_s64 : Costs Reader.s64 fun _ => 1 :=
  (costs_groups 10 0 0).bind fun ⟨_, _, _⟩ => .pure rfl

theorem costs_word32 : Costs Reader.word32 fun _ => 0 :=
  (costs_bytes 4).bind fun _ => .pure (Nat.zero_sub _)

theorem costs_word64 : Costs Reader.word64 fun _ => 0 :=
  (costs_bytes 8).bind fun _ => .pure (Nat.zero_sub _)

theorem costs_name : Costs Reader.name fun _ => 1 := by
  refine costs_u32.bind fun n => (costs_bytes n).bind fun data => ?_
  split
  · exact .pure (Nat.zero_sub _)
  · exact .failHere fun _ => trivial

/-! ## Lists -/

theorem costs_readCount : Costs readCount fun _ => 1 := by
  refine costs_u32.bind fun n => ?_
  split
  · exact .throw fun _ => trivial
  · exact .pure rfl

/-- Each entry pays for itself. -/
theorem costs_times {act : Nat → Read α} {cost : α → Nat}
    (h : ∀ i, Costs (act i) cost) (n i : Nat) :
    Costs (times act n i) fun as => (as.map cost).sum := by
  induction n generalizing i with
  | zero => exact .pure rfl
  | succ n ih =>
    refine (h i).bind fun a => (ih (i + 1)).bind fun as => .pure ?_
    rw [List.map_cons, List.sum_cons]
    omega

theorem costs_listOf {act : Read α} {cost : α → Nat} (h : Costs act cost) :
    Costs (listOf act) fun as => 1 + (as.map cost).sum :=
  costs_readCount.bind fun n =>
    (costs_times (fun _ => h) n 0).imp fun as => by rw [Nat.add_sub_cancel_left]

theorem costs_names : Costs (listOf Reader.name) fun as => 1 + as.length :=
  (costs_listOf costs_name).imp fun as => by simp

/-! ## References -/

theorem costs_wrapper (k : Wrapper) (t : TypeRef) :
    Costs (typeRefUpTo.wrapper k t) fun u => u.extent - 1 - t.extent := by
  unfold typeRefUpTo.wrapper
  split
  · exact .throw fun _ => trivial
  · refine .pure ?_
    rw [TypeRef.extent, TypeRef.extentOfAll]
    omega

theorem costs_typeRefUpTo (fuel : Nat) :
    Costs (typeRefUpTo fuel) TypeRef.extent := by
  induction fuel with
  | zero => exact .throw fun _ => trivial
  | succ fuel ih =>
    refine costs_byte.bind fun tag => ?_
    split
    · exact .pure rfl
    · refine costs_name.bind fun ns => costs_name.bind fun n => costs_bool.bind
          fun v =>
        ih.bind fun outer => (costs_listOf ih).bind fun args => .pure ?_
      rw [TypeRef.extent, TypeRef.extentOfAll_eq]
      omega
    · exact ih.bind (costs_wrapper .byRef)
    · exact ih.bind (costs_wrapper .pointer)
    · exact ih.bind (costs_wrapper .array)
    · exact costs_u32.bind fun _ => .pure rfl
    · exact costs_u32.bind fun _ => .pure rfl
    · exact .throw fun _ => trivial

theorem costs_readTypeRef : Costs readTypeRef TypeRef.extent :=
  .get_bind fun _ => costs_typeRefUpTo _

theorem costs_readFieldRef : Costs readFieldRef FieldRef.extent := by
  refine costs_readTypeRef.bind fun owner => costs_readTypeRef.bind fun type =>
    costs_name.bind fun name => ?_
  split
  · exact .throw fun _ => trivial
  · refine .pure ?_
    simp only [FieldRef.extent]
    omega

theorem costs_readMethodRef : Costs readMethodRef MethodRef.extent := by
  refine costs_readTypeRef.bind fun owner => costs_readTypeRef.bind fun ret =>
    costs_name.bind fun name => costs_bool.bind fun hasThis =>
    (costs_listOf costs_readTypeRef).bind fun params => costs_u32.bind
        fun arity =>
    (costs_listOf costs_readTypeRef).bind fun typeArgs => ?_
  split
  · exact .throw fun _ => trivial
  · refine .pure ?_
    simp only [MethodRef.extent]
    omega

/-- A value pays for itself and for what it refers to. -/
theorem costs_readValue : Costs readValue fun v => 1 + v.extent := by
  refine costs_byte.bind fun tag => ?_
  split
  · exact costs_name.bind fun _ => .pure rfl
  · exact costs_s32.bind fun _ => .pure rfl
  · exact costs_bool.bind fun _ => .pure rfl
  · refine costs_readTypeRef.bind fun t => .pure ?_
    rw [Operand.extent]
    omega
  · refine costs_readFieldRef.bind fun f => .pure ?_
    simp only [Operand.extent, Option.map_some, Option.getD_some]
    omega
  · refine costs_readMethodRef.bind fun m => .pure ?_
    simp only [Operand.extent, Option.map_some, Option.getD_some]
    omega
  · exact .throw fun _ => trivial

theorem costs_readAttribute : Costs readAttribute Attribute.extent := by
  have hnamed : Costs (do
      let n ← Reader.name
      return (n, ← readValue)) fun v => 1 + v.2.extent := by
    refine costs_name.bind fun n => costs_readValue.bind fun v => .pure ?_
    dsimp only
    omega
  refine costs_readTypeRef.bind fun type => (costs_listOf costs_readValue).bind
      fun args =>
    (costs_listOf hnamed).bind fun named => .pure ?_
  simp only [Attribute.extent]
  omega

/-! ## Bodies -/

theorem costs_readOperand (localCount : Nat) (kind : OperandKind) :
    Costs (readOperand localCount kind) Operand.extent := by
  cases kind with
  | none => exact .pure rfl
  | arg => exact costs_u32.bind fun _ => .pure rfl
  | slot =>
    refine costs_u32.bind fun n => ?_
    split
    · exact .pure rfl
    · exact .throw fun _ => trivial
  | int32 => exact costs_s32.bind fun _ => .pure rfl
  | int64 => exact costs_s64.bind fun _ => .pure rfl
  | float32 => exact costs_word32.bind fun _ => .pure rfl
  | float64 => exact costs_word64.bind fun _ => .pure rfl
  | text => exact costs_name.bind fun _ => .pure rfl
  | branch => exact costs_u32.bind fun _ => .pure rfl
  | table =>
    refine (costs_listOf costs_u32).bind fun ls => .pure ?_
    simp [Operand.extent]
  | type => exact costs_readTypeRef.bind fun t => .pure (Nat.sub_self _)
  | field => exact costs_readFieldRef.bind fun f => .pure (Nat.sub_self _)
  | method => exact costs_readMethodRef.bind fun m => .pure (Nat.sub_self _)
  | token => exact costs_readValue.imp fun v => Nat.le_add_left _ _

theorem costs_readInstr (localCount n : Nat) :
    Costs (readInstr localCount n) fun i => 1 + i.operand.extent := by
  refine costs_u32.bind fun raw => ?_
  dsimp only
  split
  · exact .throw fun _ => trivial
  · refine (costs_readOperand _ _).bind fun o => .pure ?_
    dsimp only
    omega

/-- A check of a position costs nothing. -/
theorem costs_inside (size n : Nat) : Costs (inside size n) fun _ => 0 := by
  unfold inside
  split
  · exact .pure rfl
  · exact .throw fun _ => trivial

theorem costs_forM {f : α → Read Unit} (h : ∀ a, Costs (f a) fun _ => 0)
    (as : List α) :
    Costs (as.forM f) fun _ => 0 := by
  induction as with
  | nil => exact .pure rfl
  | cons a as ih => exact (h a).bind fun _ => ih

theorem costs_readPoint (size : Nat) : Costs (readPoint size) fun _ => 1 :=
  costs_u32.bind fun _ => (costs_inside size _).bind fun _ => costs_name.bind
      fun _ =>
    costs_u32.bind fun _ => costs_u32.bind fun _ => .pure rfl

theorem costs_readBody : Costs readBody Body.extent := by
  have hlocal : Costs (do
      let type ← readTypeRef
      return { type, name := ← Reader.name }) fun l : Local => 1 +
        l.type.extent := by
    refine costs_readTypeRef.bind fun type => costs_name.bind
      fun name => .pure ?_
    dsimp only
    omega
  refine costs_bool.bind fun initLocals => (costs_listOf hlocal).bind
      fun locals =>
    costs_readCount.bind fun size =>
    (costs_times (costs_readInstr locals.length) size 0).bind fun code =>
    (costs_forM (fun i => costs_forM (costs_inside size) _) code).bind fun _ =>
    (costs_listOf (costs_readPoint size)).bind fun points => .pure ?_
  simp only [Body.extent, List.map_const', List.sum_replicate, smul_eq_mul,
    Nat.mul_one]
  omega

/-! ## Definitions -/

theorem costs_readField (owner : String) :
    Costs (readField owner) FieldDef.extent := by
  refine costs_name.within.bind fun name => .within ?_
  refine costs_readTypeRef.bind fun type => costs_u32.bind fun flags =>
    (costs_listOf costs_readAttribute).bind fun attributes => .pure ?_
  simp only [FieldDef.extent]
  omega

theorem costs_readParam : Costs readParam ParamDef.extent := by
  refine costs_name.bind fun name => costs_readTypeRef.bind
      fun type => costs_byte.bind fun flags =>
    (costs_listOf costs_readAttribute).bind fun attributes => .pure ?_
  simp only [ParamDef.extent]
  omega

theorem costs_readMethod : Costs readMethod MethodDef.extent := by
  refine costs_name.within.bind fun name => ?_
  -- what comes before the body pays for the method without it
  refine Costs.bind (show Costs _ fun v => v.1.extent - 1 from .within ?_)
    fun v => ?_
  · refine costs_u32.bind fun flags => costs_byte.bind fun implFlags =>
      costs_readTypeRef.bind fun ret => (costs_listOf costs_readParam).bind
          fun params =>
      costs_names.bind fun genericParams =>
          (costs_listOf costs_readAttribute).bind fun attributes =>
      costs_bool.bind fun hasBody => .pure ?_
    simp only [MethodDef.extent, Option.map_none, Option.getD_none]
    omega
  · obtain ⟨m, hasBody⟩ := v
    dsimp only
    split
    · refine costs_readBody.within.bind fun b => .pure ?_
      simp only [MethodDef.extent, Option.map_some, Option.getD_some]
      omega
    · refine .pure ?_
      omega

/-- What a type says of itself behind its names, its fields apart. -/
def readTypeHead (ns name : String) : Read TypeHead := do
  let flags ← Reader.u32
  let base ← readTypeRef
  let interfaces ← listOf readTypeRef
  let genericParams ← listOf Reader.name
  let attributes ← listOf readAttribute
  return { ns, name, flags := UInt32.ofNat flags, base, interfaces,
           genericParams, attributes }

theorem costs_readTypeHead (ns name : String) :
    Costs (readTypeHead ns name) TypeHead.extent := by
  refine costs_u32.bind fun flags => costs_readTypeRef.bind fun base =>
    (costs_listOf costs_readTypeRef).bind fun interfaces =>
    costs_names.bind fun genericParams =>
    (costs_listOf costs_readAttribute).bind fun attributes => .pure ?_
  simp only [TypeHead.extent, List.map_nil, List.sum_nil]
  omega

theorem costs_typeDefUpTo (fuel : Nat) :
    Costs (typeDefUpTo fuel) TypeDef.extent := by
  induction fuel with
  | zero => exact .throw fun _ => trivial
  | succ fuel ih =>
    refine costs_name.within.bind fun ns => costs_name.within.bind
      fun name => ?_
    refine (costs_readTypeHead ns name).within.bind fun head =>
      costs_readCount.within.bind fun fieldCount =>
      (costs_times (fun _ => costs_readField name) fieldCount 0).bind
          fun fields =>
      costs_readCount.within.bind fun methodCount =>
      (costs_times (fun _ => costs_readMethod) methodCount 0).bind
          fun methods =>
      costs_readCount.within.bind fun nestedCount =>
      (costs_times (fun _ => ih) nestedCount 0).bind fun nested => .pure ?_
    have hnested : TypeDef.extentOfAll (nested.map asNested) =
        (nested.map TypeDef.extent).sum := by
      rw [TypeDef.extentOfAll_eq, List.map_map]
      exact congrArg List.sum (List.map_congr_left fun t _ => t.extent_asNested)
    simp only [TypeDef.extent, TypeHead.extent, hnested]
    omega

theorem costs_readTypeDef : Costs readTypeDef TypeDef.extent :=
  .get_bind fun _ => costs_typeDefUpTo _

theorem costs_readModule : Costs readModule Module.extent := by
  refine costs_word32.within.bind fun found => ?_
  split
  · exact .throw fun _ => trivial
  refine costs_word32.within.bind fun found => ?_
  split
  · exact .throw fun _ => trivial
  refine costs_name.within.bind fun name => costs_readCount.within.bind
      fun count =>
    (costs_times (fun _ => costs_readTypeDef) count 0).bind
      fun types => .get_bind fun r => ?_
  dsimp only
  split
  · exact .within (.throw fun _ => trivial)
  · refine .pure ?_
    simp only [Module.extent]
    omega

/-! ## The recursion -/

/-- Both readers do the same where fewer bytes are left. -/
def AgreesBelow (n : Nat) (act act' : Read α) : Prop :=
  ∀ r, r.remaining < n → act r = act' r

namespace AgreesBelow

variable {n : Nat} {act act' : Read α} {cost : α → Nat}

theorem refl (act : Read α) : AgreesBelow n act act := fun _ _ => rfl

/-- The bytes that are left do not become more. -/
theorem bind {f f' : α → Read β} (h : AgreesBelow n act act')
    (hcosts : Costs act cost) (hf : ∀ a, AgreesBelow n (f a) (f' a)) :
    AgreesBelow n (act >>= f) (act' >>= f') := by
  intro r hr
  simp only [Bind.bind, EStateM.bind, ← h r hr]
  cases hact : act r with
  | error e s => rfl
  | ok a s => exact hf a s (by have := hcosts.pays r a s hact; omega)

/-- After something that takes a byte fewer bytes are left. -/
theorem bind_first {f f' : α → Read β} (hcosts : Costs act cost)
    (hpos : ∀ a, 0 < cost a) (hf : ∀ a, AgreesBelow n (f a) (f' a)) :
    AgreesBelow (n + 1) (act >>= f) (act >>= f') := by
  intro r hr
  simp only [Bind.bind, EStateM.bind]
  cases hact : act r with
  | error e s => rfl
  | ok a s =>
    have hpays := hcosts.pays r a s hact
    have := hpos a
    exact hf a s (by omega)

theorem times (h : AgreesBelow n act act') (hcosts : Costs act cost)
    (k i : Nat) :
    AgreesBelow n (times (fun _ => act) k i) (times (fun _ => act') k i) := by
  induction k generalizing i with
  | zero => exact .refl _
  | succ k ih =>
    exact h.bind hcosts fun a =>
      (ih (i + 1)).bind (costs_times (fun _ => hcosts) k _) fun as => .refl _

theorem listOf (h : AgreesBelow n act act') (hcosts : Costs act cost) :
    AgreesBelow n (listOf act) (listOf act') :=
  (refl readCount).bind costs_readCount fun k => h.times hcosts k 0

end AgreesBelow

/-- One level of a recursion that goes on only where fewer bytes are left: what
it does with the bytes depends on nothing else of the reader for the levels
below. -/
def RecursesOnUnread (level : Read α → Read α) (act : Read α) : Prop :=
  ∀ below r, (∀ s, s.remaining < r.remaining → below s = act s) →
    level below r = act r

/-- A level that takes a byte before the levels below it. -/
def Descends (level : Read α → Read α) (cost : α → Nat) : Prop :=
  ∀ n act act', Costs act cost → AgreesBelow n act act' →
    AgreesBelow (n + 1) (level act) (level act')

section Descent

variable {level : Read α → Read α} {cost : α → Nat} {upTo : Nat → Read α}

/-- Any depth will do that the unread bytes do not exceed. -/
theorem Descends.agrees (h : Descends level cost)
    (hsucc : ∀ n, upTo (n + 1) = level (upTo n))
    (hcosts : ∀ n, Costs (upTo n) cost) (m n : Nat) :
    AgreesBelow (min m n) (upTo m) (upTo n) := by
  induction m generalizing n with
  | zero => exact fun r hr => absurd hr (by omega)
  | succ m ih =>
    cases n with
    | zero => exact fun r hr => absurd hr (by omega)
    | succ n =>
      rw [hsucc, hsucc, Nat.succ_min_succ]
      exact h _ _ _ (hcosts m) (ih n)

/-- With as many levels as there are unread bytes nothing is cut off. -/
theorem Descends.recursesOnUnread (h : Descends level cost)
    (hsucc : ∀ n, upTo (n + 1) = level (upTo n))
    (hcosts : ∀ n, Costs (upTo n) cost) :
    RecursesOnUnread level (get >>= fun r => upTo (r.remaining + 1)) := by
  intro below r hbelow
  have hagrees : AgreesBelow r.remaining (upTo r.remaining) below := by
    intro s hs
    rw [hbelow s hs]
    exact h.agrees hsucc hcosts _ _ s (by omega)
  have hlevel := h _ _ _ (hcosts r.remaining) hagrees r r.remaining.lt_succ_self
  rw [← hlevel, ← hsucc]
  rfl

end Descent

/-- One level of a type reference. -/
def typeRefLevel (below : Read TypeRef) : Read TypeRef := do
  let tag ← Reader.byte
  match tag.toNat with
  | 0 => return .absent
  | 1 =>
    let ns ← Reader.name
    let n ← Reader.name
    let v ← Reader.bool
    let outer ← below
    let args ← listOf below
    return .named ns n v outer args
  | 2 => typeRefUpTo.wrapper .byRef (← below)
  | 3 => typeRefUpTo.wrapper .pointer (← below)
  | 4 => typeRefUpTo.wrapper .array (← below)
  | 5 => return .typeParam (← Reader.u32)
  | 6 => return .methodParam (← Reader.u32)
  | n => malformed ["type"] ("unknown type tag " ++ toString n)

/-- One level of a type definition. -/
def typeDefLevel (below : Read TypeDef) : Read TypeDef := do
  let ns ← within "type" Reader.name
  let name ← within "type" Reader.name
  let head ← within ("type " ++ name) (readTypeHead ns name)
  let fieldCount ← within ("fields of " ++ name) readCount
  let fields ← times (fun _ => readField name) fieldCount 0
  let methodCount ← within ("methods of " ++ name) readCount
  let methods ← times (fun _ => readMethod) methodCount 0
  let nestedCount ← within ("nested types of " ++ name) readCount
  let nested ← times (fun _ => below) nestedCount 0
  return .mk { head with fields } methods (nested.map asNested)

/-- Type references nest only behind their tags. -/
theorem descends_typeRefLevel : Descends typeRefLevel TypeRef.extent := by
  intro n act act' hcosts h
  refine .bind_first costs_byte (fun _ => Nat.one_pos) fun tag => ?_
  split
  · exact .refl _
  · exact (AgreesBelow.refl _).bind costs_name fun ns =>
      (AgreesBelow.refl _).bind costs_name fun n =>
      (AgreesBelow.refl _).bind costs_bool fun v => h.bind hcosts fun outer =>
      (h.listOf hcosts).bind (costs_listOf hcosts) fun args => .refl _
  · exact h.bind hcosts fun _ => .refl _
  · exact h.bind hcosts fun _ => .refl _
  · exact h.bind hcosts fun _ => .refl _
  · exact .refl _
  · exact .refl _
  · exact .refl _

/-- Types nest only behind the rest of what they say. -/
theorem descends_typeDefLevel : Descends typeDefLevel TypeDef.extent := by
  intro n act act' hcosts h
  refine .bind_first costs_name.within (fun _ => Nat.one_pos) fun ns => ?_
  refine (AgreesBelow.refl _).bind costs_name.within fun name => ?_
  exact (AgreesBelow.refl _).bind (costs_readTypeHead ns name).within
      fun head =>
    (AgreesBelow.refl _).bind costs_readCount.within fun fieldCount =>
    (AgreesBelow.refl _).bind (costs_times (fun _ => costs_readField name)
      fieldCount 0) fun fields =>
    (AgreesBelow.refl _).bind costs_readCount.within fun methodCount =>
    (AgreesBelow.refl _).bind (costs_times (fun _ => costs_readMethod)
      methodCount 0) fun methods =>
    (AgreesBelow.refl _).bind costs_readCount.within fun nestedCount =>
    (h.times hcosts nestedCount 0).bind
        (costs_times (fun _ => hcosts) nestedCount 0) fun nested =>
      .refl _

/-! ## Modules -/

/-- Reading ends, because types and references go on only where fewer bytes are
left.  A module that is read is no larger than the bytes, and a failure tells
positions inside them. -/
theorem decode_bounded :
    RecursesOnUnread typeRefLevel readTypeRef ∧
    RecursesOnUnread typeDefLevel readTypeDef ∧
      ∀ data : List UInt8,
        match decode data with
        | .ok m => m.extent ≤ data.length
        | .error f => f.StaysWithin data.length := by
  refine ⟨descends_typeRefLevel.recursesOnUnread (fun _ => rfl)
    costs_typeRefUpTo, descends_typeDefLevel.recursesOnUnread
      (fun _ => rfl) costs_typeDefUpTo, fun data => ?_⟩
  unfold decode
  cases hrun : readModule (.ofBytes data) with
  | ok m r =>
    exact (Nat.le_add_right _ _).trans (costs_readModule.pays _ _ _ hrun)
  | error f r =>
    have hstays := (costs_readModule.stays _ _ _ hrun).2
    rwa [endOf, Reader.ofBytes, Nat.zero_add] at hstays

end Codec

end JobWeave
