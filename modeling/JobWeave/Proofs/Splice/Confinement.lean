import Mathlib
import JobWeave.Proofs.Splice.Allocation
import JobWeave.Proofs.World.Restoring

/-!
# What a conversion leaves alone

Converting the closures of a method changes the allocations of closures, the
stores right after them and the loads of the variables that are stored there.
Everything else in the code stays, but for the marks on references to the
closures; the other types and methods stay as they are, and copies of the method
take over its marks.

The variables are those that an allocation is stored in, whatever their types
are.  So a variable of another type than the closure gets the mark of a value
type, and the type it refers to with it.

* `Workspace.Rewrites` relates an instruction to the one in its place.
* `Workspace.Confines` says what became of the definitions.
* `Weave.convertClosures_confines`: every conversion is confined.
* `Weave.canConvertClosures_otherLocal`: a variable of another type is marked.
-/

namespace JobWeave

open Framework Std.Do

set_option mvcgen.warning false

variable {V : Workspace} {u : Universe} {m : MethodId} {b b' : Body}
  {i j : Instr} {l : LocalRef}
variable {s s' : AllocationSite} {ss : List AllocationSite}

/-- An instruction comes right after one other. -/
theorem Body.eq_of_next? {l l' : Label} (hlabels : (b.code.map (·.label)).Nodup)
    (h : b.next? l = some i) (h' : b.next? l' = some j)
    (he : i.label = j.label) : l = l' := by
  obtain ⟨n, hn, hi⟩ := Option.bind_eq_some_iff.1 h
  obtain ⟨n', hn', hj⟩ := Option.bind_eq_some_iff.1 h'
  obtain ⟨hlt, hl, -⟩ := List.findIdx?_eq_some_iff_getElem.1 hn
  obtain ⟨hlt', hl', -⟩ := List.findIdx?_eq_some_iff_getElem.1 hn'
  obtain ⟨hlti, rfl⟩ := List.getElem?_eq_some_iff.1 hi
  obtain ⟨hltj, rfl⟩ := List.getElem?_eq_some_iff.1 hj
  have hlti' : n + 1 < (b.code.map (·.label)).length := by simpa using hlti
  have hltj' : n' + 1 < (b.code.map (·.label)).length := by simpa using hltj
  have hlabel : (b.code.map (·.label))[n + 1] =
      (b.code.map (·.label))[n' + 1] := by
    simpa using he
  have hsame : n + 1 = n' + 1 := hlabels.getElem_inj_iff.1 hlabel
  obtain rfl : n = n' := by omega
  exact (eq_of_beq hl).symm.trans (eq_of_beq hl')

/-! ## Converted instructions -/

/-- The type that an operand refers to, or that declares what it refers to. -/
def Operand.reference? : Operand → Option TypeRef
  | .type t => some t
  | .field f => f.map (·.owner)
  | .method r => r.map (·.owner)
  | _ => .none

namespace Workspace

/-- An allocation is stored in the variable. -/
def StoredIn (V : Workspace) (u : Universe) (b : Body) (l : LocalRef) : Prop :=
  ∃ i ∈ b.code, ∃ s, V.IsSite u b i s ∧ s.slot.same l

/-- The instruction stores what another one allocates. -/
def StoresSite (V : Workspace) (u : Universe) (b : Body) (j : Instr)
    (s : AllocationSite) : Prop :=
  ∃ i ∈ b.code, V.IsSite u b i s ∧ b.next? i.label = some j

/-- The reference names a closure that the code allocates. -/
def NamesClosure (V : Workspace) (u : Universe) (b : Body)
    (r : TypeRef) : Prop :=
  ∃ i ∈ b.code, ∃ t, V.allocated? u i = some t ∧
    (r.fullName? = some (V.typeName t) ∨ r.unmarked = (V.typeRef t).unmarked)

/-- What a conversion puts in the place of an instruction. -/
inductive Rewrites (V : Workspace) (u : Universe) (b : Body) : Instr → Instr →
    Prop where
  /-- the address of the variable, for an allocation -/
  | allocation {i : Instr} {s : AllocationSite} (h : V.IsSite u b i s) :
    Rewrites V u b i (i.become .ldloca (.slot s.slot))
  /-- an initialisation, for the store after it -/
  | store {j : Instr} {s : AllocationSite} (h : V.StoresSite u b j s) :
    Rewrites V u b j (j.become .initobj
      (.type (V.typeRef s.closure).asValueType))
  /-- the address of the variable, for a load of it -/
  | load {i : Instr} {l : LocalRef} (h : b.loadedLocal? i = some l)
    (hl : V.StoredIn u b l) :
    Rewrites V u b i (i.become .ldloca (.slot l))
  /-- the same, with a mark if it refers to a closure -/
  | other {i : Instr} {o : Operand} (halloc : V.allocated? u i = none)
    (hstore : ∀ s, ¬ V.StoresSite u b i s)
    (hload : ∀ l, b.loadedLocal? i = some l → ¬ V.StoredIn u b l)
    (hsame : o.unmarked = i.operand.unmarked)
    (hname : o ≠ i.operand → ∃ r, i.operand.reference? = some r ∧
      V.NamesClosure u b r) :
    Rewrites V u b i { i with operand := o }

/-! ### Sites are told apart by their labels -/

theorem IsSite.eq_of_alloc (hlabels : (b.code.map (·.label)).Nodup)
    (hi : i ∈ b.code) (hj : j ∈ b.code) (h : V.IsSite u b i s)
    (h' : V.IsSite u b j s') (he : s.alloc = s'.alloc) : s = s' := by
  obtain rfl : i = j := List.inj_on_of_nodup_map hlabels hi hj
    (by rw [← h.alloc, he, h'.alloc])
  obtain ⟨k, hk, hlabel, hslot⟩ := h.store
  obtain ⟨k', hk', hlabel', hslot'⟩ := h'.store
  have hclosure := h.closure.symm.trans h'.closure
  rw [hk] at hk'
  cases hk'
  rw [hslot] at hslot'
  cases s
  cases s'
  simp_all

/-- What one site allocates, none stores. -/
theorem IsSite.alloc_ne_store (hlabels : (b.code.map (·.label)).Nodup)
    (hi : i ∈ b.code) (h : V.IsSite u b i s) (h' : V.IsSite u b j s') :
    s.alloc ≠ s'.store := by
  obtain ⟨k, hk, hlabel, hslot⟩ := h'.store
  intro he
  have hik : i = k := List.inj_on_of_nodup_map hlabels hi (Body.mem_of_next? hk)
    (by rw [← h.alloc, he, hlabel])
  rw [← hik, Body.storedLocal?, op_of_allocated? h.closure] at hslot
  cases hslot

end Workspace

/-! ### One instruction after all sites -/

/-- The instruction after the conversion of one site. -/
def Instr.convert (i : Instr) (x : AllocationSite × TypeRef) : Instr :=
  let i := if i.label == x.1.alloc then i.become .ldloca (.slot x.1.slot) else i
  if i.label == x.1.store then i.become .initobj (.type x.2) else i

theorem Body.code_foldl_setAt (xs : List (AllocationSite × TypeRef))
    (b : Body) :
    (xs.foldl (fun b x => (b.setAt x.1.alloc .ldloca (.slot x.1.slot)).setAt
      x.1.store .initobj (.type x.2)) b).code = b.code.map
        fun i => xs.foldl Instr.convert i := by
  induction xs generalizing b with
  | nil => simp
  | cons x xs ih =>
    rw [List.foldl_cons, ih]
    simp only [setAt, update, List.map_map, List.foldl_cons]
    rfl

/-- Steps of which each does nothing or comes to one thing come to it, if one
does. -/
theorem foldl_eq_of_mem {σ α : Type} {f : α → σ → α} {P : α → Prop} {a x : α}
    {xs : List σ} (hstep : ∀ s ∈ xs, ∀ a, P a → f a s = a ∨ f a s = x)
    (hx : P x) (hmem : ∃ s ∈ xs, ∀ a, P a → f a s = x) (ha : P a) :
    xs.foldl f a = x := by
  -- once there, it stays there
  have hstay : ∀ {xs : List σ}, (∀ s ∈ xs, ∀ a, P a → f a s = a ∨ f a s = x) →
      xs.foldl f x = x := by
    intro xs h
    induction xs with
    | nil => rfl
    | cons s xs ih =>
      obtain ⟨hs, hxs⟩ := List.forall_mem_cons.1 h
      rw [List.foldl_cons, (hs x hx).elim id id, ih hxs]
  induction xs generalizing a with
  | nil => simp at hmem
  | cons s xs ih =>
    obtain ⟨hs, hxs⟩ := List.forall_mem_cons.1 hstep
    rw [List.foldl_cons]
    rcases hs a ha with hsame | hthere
    · obtain ⟨s', hs', hcomes⟩ := hmem
      rcases List.mem_cons.1 hs' with rfl | hs'
      · rw [hcomes a ha]
        exact hstay hxs
      · rw [hsame]
        exact ih hxs ⟨s', hs', hcomes⟩ ha
    · rw [hthere]
      exact hstay hxs

/-- The site with the type that its variable is initialised to. -/
def Workspace.typed (V : Workspace) (s : AllocationSite) :
    AllocationSite × TypeRef :=
  (s, (V.typeRef s.closure).asValueType)

/-- What the conversion of one site does to an instruction. -/
theorem Workspace.IsSite.convert (hlabels : (b.code.map (·.label)).Nodup)
    (hi : i ∈ b.code) (hj : j ∈ b.code) (h : V.IsSite u b j s) {a : Instr}
    (ha : a.label = i.label) :
    (i = j → a.convert (V.typed s) = i.become .ldloca (.slot s.slot)) ∧
      (b.next? j.label = some i →
        a.convert (V.typed s) = i.become .initobj
          (.type (V.typeRef s.closure).asValueType)) ∧
      (i ≠ j → b.next? j.label ≠ some i → a.convert (V.typed s) = a) := by
  obtain ⟨k, hk, hlabel, -⟩ := h.store
  have hbecome : ∀ {op : Opcode} {o : Operand},
      a.become op o = i.become op o := by
    obtain ⟨l, op, o⟩ := a
    rintro _ _
    cases ha
    rfl
  have halloc : a.label = s.alloc ↔ i = j := by
    rw [ha, h.alloc]
    exact ⟨List.inj_on_of_nodup_map hlabels hi hj, congrArg Instr.label⟩
  have hstore : a.label = s.store ↔ b.next? j.label = some i := by
    rw [ha, ← hlabel, hk, Option.some_inj]
    exact ⟨fun he => (List.inj_on_of_nodup_map hlabels hi (Body.mem_of_next? hk)
      he).symm, fun he => congrArg Instr.label he.symm⟩
  have hnot : ¬ (a.label = s.alloc ∧ a.label = s.store) := fun he =>
    h.alloc_ne_store hlabels hj h (he.1.symm.trans he.2)
  refine ⟨fun he => ?_, fun he => ?_, fun hne hnext => ?_⟩
  · have ha := halloc.2 he
    have hs : s.alloc ≠ s.store := fun hs => hnot ⟨ha, ha.trans hs⟩
    rw [← hbecome]
    simp [Instr.convert, typed, Instr.become, ha, hs]
  · have hs := hstore.2 he
    have ha : a.label ≠ s.alloc := fun ha => hnot ⟨ha, hs⟩
    rw [Instr.convert, typed, if_neg (mt eq_of_beq ha),
      if_pos (beq_iff_eq.2 hs), hbecome]
  · have ha := mt halloc.1 hne
    have hs := mt hstore.1 hnext
    simp [Instr.convert, typed, ha, hs]

/-- An instruction that is no site stays, and the others are converted. -/
theorem Workspace.AreSites.foldl_convert (hss : V.AreSites u b ss)
    (hlabels : (b.code.map (·.label)).Nodup) (hi : i ∈ b.code) :
    (∃ s, V.IsSite u b i s ∧ (ss.map V.typed).foldl Instr.convert i =
        i.become .ldloca (.slot s.slot)) ∨
      (∃ s, V.StoresSite u b i s ∧ (ss.map V.typed).foldl Instr.convert i =
        i.become .initobj (.type (V.typeRef s.closure).asValueType)) ∨
      (V.allocated? u i = none ∧ ∀ s, ¬ V.StoresSite u b i s) ∧
        (ss.map V.typed).foldl Instr.convert i = i := by
  rw [List.foldl_map]
  have hconvert := fun {j s a} => IsSite.convert (V := V) (u := u) (j := j)
    (s := s) (a := a) hlabels hi
  by_cases halloc : V.allocated? u i = none
  · by_cases hstore : ∃ s, V.StoresSite u b i s
    · obtain ⟨s, j, hj, hsite, hnext⟩ := hstore
      obtain ⟨s', hs', hsite'⟩ := hss.complete j hj (by simp [hsite.closure])
      obtain rfl := hsite.eq_of_alloc hlabels hj hj hsite'
        (hsite.alloc.trans hsite'.alloc.symm)
      refine .inr (.inl ⟨s, ⟨j, hj, hsite, hnext⟩, ?_⟩)
      refine foldl_eq_of_mem (P := fun a => a.label = i.label)
        (fun s' hs' a ha => ?_) rfl ⟨s, hs',
          fun a ha => (hconvert hj hsite ha).2.1 hnext⟩ rfl
      obtain ⟨k, hk, hsite'⟩ := hss.sound s' hs'
      have hne : i ≠ k := fun he => by simp [he, hsite'.closure] at halloc
      by_cases hnext' : b.next? k.label = some i
      · -- it comes right after one instruction, so it belongs to one site
        obtain rfl : j = k := List.inj_on_of_nodup_map hlabels hj hk
          (Body.eq_of_next? hlabels hnext hnext' rfl)
        obtain rfl := hsite.eq_of_alloc hlabels hj hj hsite'
          (hsite.alloc.trans hsite'.alloc.symm)
        exact .inr ((hconvert hj hsite ha).2.1 hnext)
      · exact .inl ((hconvert hk hsite' ha).2.2 hne hnext')
    · refine .inr (.inr ⟨⟨halloc, not_exists.1 hstore⟩, ?_⟩)
      refine List.foldlRecOn (motive := (· = i)) ss _ rfl fun a ha s hs => ?_
      obtain ⟨k, hk, hsite⟩ := hss.sound s hs
      subst ha
      exact (hconvert hk hsite rfl).2.2
        (fun he => by simp [he, hsite.closure] at halloc)
        fun hnext => hstore ⟨s, k, hk, hsite, hnext⟩
  · obtain ⟨s, hs, hsite⟩ := hss.complete i hi halloc
    refine .inl ⟨s, hsite, ?_⟩
    refine foldl_eq_of_mem (P := fun a => a.label = i.label)
      (fun s' hs' a ha => ?_) rfl ⟨s, hs, fun a ha => (hconvert hi hsite ha).1
        rfl⟩ rfl
    obtain ⟨k, hk, hsite'⟩ := hss.sound s' hs'
    by_cases he : i = k
    · subst he
      obtain rfl := hsite.eq_of_alloc hlabels hi hi hsite'
        (hsite.alloc.trans hsite'.alloc.symm)
      exact .inr ((hconvert hi hsite ha).1 rfl)
    · refine .inl ((hconvert hk hsite' ha).2.2 he fun hnext => ?_)
      obtain ⟨k', hk', hlabel, -⟩ := hsite'.store
      obtain rfl := Option.some_inj.1 (hnext.symm.trans hk')
      exact hsite.alloc_ne_store hlabels hi hsite' (hsite.alloc.trans hlabel)

/-! ### The code -/

/-- A body with the same variables loads the same one. -/
theorem Body.loadedLocal?_congr (h : b'.locals = b.locals) (i : Instr) :
    b'.loadedLocal? i = b.loadedLocal? i := by
  simp only [loadedLocal?, localOf?, slot?, h]

theorem TypeRef.asValueType_asValueType (t : TypeRef) :
    t.asValueType.asValueType = t.asValueType := by
  cases t <;> rfl

/-- Marking references changes none but those with one of the names. -/
theorem Operand.reference?_of_markValueTypes {names : List String}
    {o o' : Operand} (h : o.markValueTypes names = .ok o') (hne : o' ≠ o) :
    ∃ r, o.reference? = some r ∧ ∃ n ∈ names, r.fullName? = some n := by
  have hmark : ∀ {t t' : TypeRef}, markValueTypes.mark names t = .ok t' →
    t' ≠ t →
      ∃ n ∈ names, t.fullName? = some n := by
    intro t t' h hne
    unfold markValueTypes.mark at h
    split at h
    · cases h
      exact absurd rfl hne
    · obtain ⟨n, hn, h⟩ := bind_eq_ok_iff.1 h
      obtain rfl : (if names.contains n then t.asValueType else t) = t' :=
        Except.ok.inj h
      refine ⟨n, ?_, ?_⟩
      · by_contra hnot
        simp [hnot] at hne
      · cases ht : t.fullName? <;> rw [ht] at hn <;> cases hn
        rfl
  cases o with
  | type t =>
    obtain ⟨t', ht, h⟩ := bind_eq_ok_iff.1 h
    cases h
    exact ⟨t, rfl, hmark ht fun he => hne (by rw [he])⟩
  | field f =>
    cases f with
    | none => cases h
    | some f =>
      obtain ⟨t', ht, h⟩ := bind_eq_ok_iff.1 h
      cases h
      exact ⟨f.owner, rfl, hmark ht fun he => hne (by rw [he])⟩
  | method r =>
    cases r with
    | none => cases h
    | some r =>
      obtain ⟨t', ht, h⟩ := bind_eq_ok_iff.1 h
      cases h
      exact ⟨r.owner, rfl, hmark ht fun he => hne (by rw [he])⟩
  | _ =>
    cases h
    exact absurd rfl hne

/-- A mark that is there stays. -/
theorem Operand.eq_of_markValueTypes {names : List String} {t : TypeRef}
    {o : Operand}
    (h : (Operand.type t.asValueType).markValueTypes names = .ok o) :
    o = .type t.asValueType := by
  obtain ⟨t', ht, h⟩ := bind_eq_ok_iff.1 h
  cases h
  unfold markValueTypes.mark at ht
  split at ht
  · cases ht
    rfl
  · obtain ⟨n, -, ht⟩ := bind_eq_ok_iff.1 ht
    obtain rfl := Except.ok.inj ht
    split <;> simp only [TypeRef.asValueType_asValueType]

/-- The names of the closures that the code allocates. -/
def Workspace.ClosureNames (V : Workspace) (u : Universe) (b : Body)
    (names : List String) : Prop :=
  ∀ n ∈ names, ∃ i ∈ b.code, ∃ t, V.allocated? u i = some t ∧ n = V.typeName t

/-- The variables that are converted are those that an allocation is stored
in. -/
theorem Workspace.AreSites.any_typed (hss : V.AreSites u b ss)
    (hlabels : (b.code.map (·.label)).Nodup) :
    (ss.map V.typed).any (fun x => x.1.slot.same l) = true ↔
    V.StoredIn u b l := by
  rw [List.any_map, List.any_eq_true]
  constructor
  · rintro ⟨s, hs, hsame⟩
    obtain ⟨i, hi, hsite⟩ := hss.sound s hs
    exact ⟨i, hi, s, hsite, hsame⟩
  · rintro ⟨i, hi, s, hsite, hsame⟩
    obtain ⟨s', hs', hsite'⟩ := hss.complete i hi (by simp [hsite.closure])
    obtain rfl := hsite.eq_of_alloc hlabels hi hi hsite'
      (hsite.alloc.trans hsite'.alloc.symm)
    exact ⟨s, hs', hsame⟩

/-- Every instruction of the converted code is in the place of one, also with
its mark. -/
theorem Workspace.AreSites.rewrites (hss : V.AreSites u b ss)
    {names : List String} (hlabels : (b.code.map (·.label)).Nodup)
    (hnames : V.ClosureNames u b names) :
    List.Forall₂ (fun i j => ∀ o, j.operand.markValueTypes names = .ok o →
      V.Rewrites u b i { j with operand := o })
      b.code (Weave.convertCode b (ss.map V.typed)).code := by
  simp only [Weave.convertCode, Body.code_foldl_setAt, List.map_map,
    List.forall₂_map_right_iff]
  rw [List.forall₂_same]
  intro i hi o ho
  have hload : ∀ j : Instr, Body.loadedLocal? ((ss.map V.typed).foldl
      (fun b x =>
      (b.setAt x.1.alloc .ldloca (.slot x.1.slot)).setAt x.1.store .initobj
        (.type x.2)) b) j =
        b.loadedLocal? j := fun j =>
    Body.loadedLocal?_congr (Body.foldl_setAt_frame _ _).1 j
  simp only [Function.comp_apply, hload] at ho ⊢
  obtain ⟨s, hsite, he⟩ | ⟨s, hstore, he⟩ | ⟨⟨halloc, hstore⟩, he⟩ :=
    hss.foldl_convert hlabels hi
  · rw [he] at ho ⊢
    cases ho
    exact .allocation hsite
  · rw [he] at ho ⊢
    have ho := Operand.eq_of_markValueTypes ho
    rw [ho]
    exact .store hstore
  · rw [he] at ho ⊢
    have hother : (∀ l, b.loadedLocal? i = some l → ¬ V.StoredIn u b l) →
        i.operand.markValueTypes names = .ok o →
        V.Rewrites u b i { i with operand := o } := by
      intro hload ho
      refine .other halloc hstore hload (Operand.unmarked_markValueTypes ho)
        fun hne => ?_
      obtain ⟨r, hr, n, hn, hname⟩ :=
        Operand.reference?_of_markValueTypes ho hne
      obtain ⟨k, hk, t, ht, rfl⟩ := hnames n hn
      exact ⟨r, hr, k, hk, t, ht, .inl hname⟩
    cases hl : b.loadedLocal? i with
    | none =>
      simp only [hl] at ho
      exact hother (by simp [hl]) ho
    | some l =>
      by_cases hstored : V.StoredIn u b l
      · simp only [hl, if_pos ((hss.any_typed hlabels).2 hstored)] at ho ⊢
        cases ho
        exact .load hl hstored
      · simp only [hl, if_neg (mt (hss.any_typed hlabels).1 hstored)] at ho ⊢
        exact hother (by simpa [hl] using hstored) ho

/-- References that are all marked: every instruction is in the place of the one
that was in its place before. -/
theorem Weave.forall₂_marked {names : List String} {R : Instr → Instr → Prop}
    {xs code : List Instr} (h : List.Forall₂ (fun i j => ∀ o,
      j.operand.markValueTypes names = .ok o → R i { j with operand := o })
        xs code)
    (hall : code.length ≤ (((code.map fun i => i.operand.markValueTypes
      names).takeWhile (·.isOk)).filterMap (·.toOption)).length) :
    List.Forall₂ R xs ((code.zip (((code.map fun i => i.operand.markValueTypes
      names).takeWhile (·.isOk)).filterMap (·.toOption))).map
        fun (i, operand) => { i with operand }) := by
  induction h with
  | nil => exact .nil
  | @cons i j xs code hij _ ih =>
    cases hmark : j.operand.markValueTypes names with
    | error e => simp [hmark, Except.isOk, Except.toBool] at hall
    | ok o =>
      simp only [List.map_cons, hmark, List.takeWhile_cons, Except.isOk,
        Except.toBool, if_true, List.filterMap_cons, Except.toOption,
        List.zip_cons_cons, List.length_cons, Nat.add_le_add_iff_right]
        at hall ⊢
      exact .cons (hij o hmark) (ih hall)

/-! ## Confined conversions -/

/-- What a conversion of the closures of a method does to the definitions: `b`
is the code that the method had, and `b'` is the code that it has now. -/
structure Workspace.Confines (V : Workspace) (u : Universe) (m : MethodId)
    (b b' : Body) (w : Workspace) : Prop where
  /-- the types -/
  types : V.Converts (V.closuresOf u m) w
  /-- the other methods -/
  others : ∀ n, n ≠ m → n ∉ V.copiesOf m → w.method n = V.method n
  /-- the method -/
  method : w.method m = { V.method m with body := some b' }
  /-- its copies -/
  copies : ∀ n ∈ V.copiesOf m, w.method n = (V.method n).adopting b'
  /-- the instructions -/
  code : List.Forall₂ (V.Rewrites u b) b.code b'.code
  /-- the variables that an allocation is stored in -/
  stored : ∀ n, V.StoredIn u b (.slot n) →
    b'.locals[n]? = b.locals[n]?.map
      fun l => { l with type := l.type.asValueType }
  /-- the other variables -/
  unstored : ∀ n, ¬ V.StoredIn u b (.slot n) → b'.locals[n]? = b.locals[n]?
  /-- the source positions -/
  points : b'.points = b.points
  /-- instructions elsewhere that share a reference with the code -/
  shared : ∀ i, b.adoptInstr i = i → b'.adoptInstr i ≠ i →
    ∃ r, i.operand.reference? = some r ∧ V.NamesClosure u b r
  /-- variables elsewhere that share a type with the code -/
  sharedLocals : ∀ n l, b.adoptLocal n l = l → b'.adoptLocal n l ≠ l →
    V.StoredIn u b (.slot n)

/-- An instruction keeps its label. -/
theorem Workspace.Rewrites.label (h : V.Rewrites u b i j) :
    j.label = i.label := by
  cases h <;> rfl

/-- The first instruction with a label is in the place of the first one. -/
theorem Workspace.find?_rewrites {xs ys : List Instr}
    (h : List.Forall₂ (V.Rewrites u b) xs ys) (l : Label) :
    Option.Rel (V.Rewrites u b) (xs.find? (·.label == l))
      (ys.find? (·.label == l)) := by
  induction h with
  | nil => exact .none
  | cons hij _ ih =>
    rw [List.find?_cons, List.find?_cons, hij.label]
    split
    · exact .some hij
    · exact ih

/-- A reference is the same up to its mark. -/
theorem Operand.isSameReference_iff {o p : Operand} :
    o.isSameReference p = true ↔ o.reference?.isSome ∧
    o.unmarked = p.unmarked := by
  cases o with
  | field f => cases f <;> simp [isSameReference, reference?]
  | method r => cases r <;> simp [isSameReference, reference?]
  | _ => simp [isSameReference, reference?]

theorem Operand.isSome_reference?_unmarked (o : Operand) :
    o.unmarked.reference?.isSome = o.reference?.isSome := by
  cases o with
  | field f => cases f <;> rfl
  | method r => cases r <;> rfl
  | _ => rfl

/-- A reference that an instruction elsewhere shares with the code gets a mark
only if it names a closure. -/
theorem Workspace.names_of_adoptInstr
    (hcode : List.Forall₂ (V.Rewrites u b) b.code b'.code)
    (hb : b.adoptInstr i = i) (hb' : b'.adoptInstr i ≠ i) :
    ∃ r, i.operand.reference? = some r ∧ V.NamesClosure u b r := by
  have hfind := find?_rewrites hcode i.label
  unfold Body.adoptInstr at hb hb'
  cases hj' : b'.code.find? (·.label == i.label) with
  | none => simp [hj'] at hb'
  | some j' =>
    rw [hj'] at hfind hb'
    cases hj : b.code.find? (·.label == i.label) with
    | none =>
      rw [hj] at hfind
      cases hfind
    | some j =>
      rw [hj] at hfind hb
      obtain ⟨hrewrites⟩ := hfind
      dsimp only at hb hb'
      by_cases hsame : j'.operand.isSameReference i.operand = true
      · obtain ⟨href, hmarks⟩ := Operand.isSameReference_iff.1 hsame
        cases hrewrites with
        | allocation | load => cases href
        | store hstore =>
          obtain ⟨k, hk, hsite, -⟩ := hstore
          cases ho : i.operand with
          | type r =>
            refine ⟨r, rfl, k, hk, _, hsite.closure, .inr ?_⟩
            rw [ho] at hmarks
            simpa [Operand.unmarked, Instr.become] using hmarks.symm
          | field f =>
            cases f <;> simp [ho, Operand.unmarked, Instr.become] at hmarks
          | method r =>
            cases r <;> simp [ho, Operand.unmarked, Instr.become] at hmarks
          | _ => simp [ho, Operand.unmarked, Instr.become] at hmarks
        | other _ _ _ hunmarked hname =>
          -- the reference is shared, so it is the one that the code had
          have hshared : j.operand.isSameReference i.operand = true := by
            refine Operand.isSameReference_iff.2 ⟨?_,
              hunmarked.symm.trans hmarks⟩
            rwa [← Operand.isSome_reference?_unmarked, ← hunmarked,
              Operand.isSome_reference?_unmarked]
          rw [if_pos hshared] at hb
          rw [if_pos hsame] at hb'
          have hoperand : j.operand = i.operand := (Instr.mk.inj hb).2.2
          rw [← hoperand]
          refine hname fun he => hb' ?_
          rw [he, hoperand]
      · exact absurd (if_neg hsame) hb'

/-! ### The run -/

namespace Workspace

variable {w : Workspace} {t : TypeId}

/-- Names depend on types alone. -/
theorem typeName_of_types_eq {w' : Workspace} (h : w'.types = w.types) :
    w'.typeName = w.typeName := by
  have hupTo : ∀ fuel t, w'.typeNameUpTo fuel t = w.typeNameUpTo fuel t := by
    intro fuel
    induction fuel with
    | zero => exact fun _ => rfl
    | succ fuel ih =>
      intro t
      rw [typeNameUpTo, typeNameUpTo, funext ih, type, type, h]
  funext t
  rw [typeName, typeName, h, hupTo]

/-- The names of types stay with their heads. -/
theorem typeName_updateType {f : TypeEntry → TypeEntry}
    (hf : ∀ e, (f e).outer = e.outer ∧ (f e).head.ns = e.head.ns ∧
      (f e).head.name = e.head.name) (t t' : TypeId) :
    (w.updateType t f).typeName t' = w.typeName t' := by
  have hupTo : ∀ fuel t', (w.updateType t f).typeNameUpTo fuel t' =
      w.typeNameUpTo fuel t' := by
    intro fuel
    induction fuel with
    | zero => exact fun _ => rfl
    | succ fuel ih =>
      intro t'
      have hentry : ((w.updateType t f).type t').outer = (w.type t').outer ∧
          ((w.updateType t f).type t').head.ns = (w.type t').head.ns ∧
          ((w.updateType t f).type t').head.name = (w.type t').head.name := by
        rw [type_updateType]
        split
        · exact hf _
        · exact ⟨rfl, rfl, rfl⟩
      rw [typeNameUpTo, typeNameUpTo, hentry.1, funext ih]
      simp only [TypeDef.qualifiedName, hentry.2]
  rw [typeName, typeName, size_types_updateType, hupTo]

theorem method_of_methods_eq {w' : Workspace} (h : w'.methods = w.methods)
    (n : MethodId) :
    w'.method n = w.method n := by
  simp only [method, methodEntry, h]

theorem copiesOf_of_methods_eq {w' : Workspace} (h : w'.methods = w.methods) :
    w'.copiesOf = w.copiesOf := by
  funext n
  simp only [copiesOf, modelOf, methodEntry, h]

/-- A change of a method is a change of that one. -/
theorem method_updateMethod (n : MethodId) (f : MethodDef → MethodDef)
    (h : m.index < w.methods.size) :
    (w.updateMethod m f).method n = if n = m then f (w.method m)
    else w.method n := by
  split
  · rename_i he
    rw [he, method, methodEntry_updateMethod_self f h]
  · rename_i hne
    rw [method, methodEntry_updateMethod_of_ne f hne]
    rfl

end Workspace

namespace Weave

variable {w : World} {b₀ : Body}

/-- Closures that become value types keep their names, and methods stay. -/
theorem forM_makeValueType_confines {ts : List TypeId} (ts' : List TypeId)
    (h : V.Converts ts w.workspace) :
    Ends (ts'.forM makeValueType) w (fun _ w' => V.Converts (ts ++ ts')
      w'.workspace ∧ w'.workspace.methods = w.workspace.methods ∧
      w'.workspace.typeName = w.workspace.typeName) fun _ _ => True := by
  have hnames : Ends (ts'.forM makeValueType) w
      (fun _ w' => w'.workspace.typeName = w.workspace.typeName)
        fun _ _ => True := by
    refine Ends.forM (I := fun w' => w'.workspace.typeName =
      w.workspace.typeName) (E := fun _ => True) rfl fun t _ w₁ hw₁ =>
        Ends.of_run (makeValueType_run t w₁) ?_
    rw [← hw₁]
    exact funext (Workspace.typeName_updateType (f := TypeEntry.asValueType
      w₁.workspace) (fun _ => ⟨rfl, rfl, rfl⟩) t)
  exact ((forM_makeValueType_ends (E := fun _ _ => True) ts' h).and hnames).imp
    (fun _ _ h => ⟨h.1.1, h.1.2, h.2⟩) fun _ _ => And.right

/-- References are marked, and nothing else is changed. -/
theorem markReferences_confines {names : List String} {ts : List TypeId}
    {R : Instr → Instr → Prop} {xs : List Instr}
    (hm : m.index < w.workspace.methods.size) (h : V.Converts ts w.workspace)
    (hcode : List.Forall₂ (fun i j => ∀ o,
      j.operand.markValueTypes names = .ok o → R i { j with operand := o }) xs
        b.code) :
    Ends (markReferences m b names) w (fun _ w' => V.Converts ts w'.workspace ∧
      ∃ b', List.Forall₂ R xs b'.code ∧ b'.locals = b.locals ∧
      b'.points = b.points ∧
        w'.workspace.method m = { w.workspace.method m with body := some b' } ∧
        (∀ n ∈ w.workspace.copiesOf m,
          w'.workspace.method n = (w.workspace.method n).adopting b') ∧
        ∀ n, n ≠ m → n ∉ w.workspace.copiesOf m →
          w'.workspace.method n = w.workspace.method n)
      fun _ _ => True := by
  unfold markReferences
  extract_lets marked reached code b'
  let W := w.workspace.updateMethod m fun d => { d with body := some b' }
  have hW : ∀ n, W.method n =
      if n = m then { w.workspace.method m with body := some b' }
      else w.workspace.method n :=
    fun n => Workspace.method_updateMethod n _ hm
  have hcopies : W.copiesOf = w.workspace.copiesOf :=
    copiesOf_updateMethod _ _ _
  obtain ⟨W', hrun, -, -, hother, hself⟩ :=
    forM_adoptMarks_run b' (W.copiesOf m) { w with workspace := W }
  have hshare : shareMarks m b' { w with workspace := W } =
      .ok () { w with workspace := W' } :=
    hrun
  have hconverts := shareMarks_ends (b := b') (m := m)
    (w := { w with workspace := W }) (h.setBody m b') rfl
  rw [Ends, hshare] at hconverts
  refine Ends.bind (Ends.of_run rfl (Ends.bind (Ends.of_run hshare ?_)))
  split
  · trivial
  · rename_i hall
    refine Ends.of_run rfl ⟨hconverts.1, b', ?_, rfl, rfl, ?_, fun n hn => ?_,
      fun n hne hn => ?_⟩
    · have hlength : b'.code.length =
          min b.code.length reached.length +
            (b.code.length - reached.length) := by
        simp [b', code]
      have hall : b.code.length ≤ reached.length := by omega
      change List.Forall₂ R xs (code ++ b.code.drop reached.length)
      rw [List.drop_of_length_le hall, List.append_nil]
      exact forall₂_marked hcode hall
    · rw [hother m fun hin => (Workspace.mem_copiesOf hin).1 rfl, hW,
        if_pos rfl]
    · have hne := (Workspace.mem_copiesOf hn).1
      rw [hself n (hcopies ▸ hn), hW, if_neg hne]
    · rw [hother n (hcopies ▸ hn), hW, if_neg hne]

/-- The allocations in some code are converted, and nothing else. -/
theorem convertSites_confines (hw : w.workspace = V)
    (hb : (V.method m).body = some b) (hlabels : (b.code.map (·.label)).Nodup)
    (hss : V.AreSites u b ss)
    (hclosures : ∀ t, t ∈ ss.map (·.closure) ↔ t ∈ V.closuresOf u m) :
    Ends (convertSites m b ss) w (fun _ w' => ∃ b',
      V.Confines u m b b' w'.workspace) fun _ _ => True := by
  subst hw
  have htyped : ∀ s : AllocationSite,
      (do return (s, (← typeRef s.closure).asValueType) : Weave
        (AllocationSite × TypeRef)) w = .ok (w.workspace.typed s) w :=
    fun _ => rfl
  have hlt := Workspace.lt_of_body hb
  unfold convertSites
  refine Ends.bind (Ends.of_run (mapM_run htyped ss) ?_)
  refine Ends.bind (Ends.of_run rfl ?_)
  dsimp only
  split
  · exact Ends.bind trivial
  · refine Ends.bind (Ends.of_run rfl ?_)
    refine Ends.bind (Ends.of_run rfl ?_)
    refine Ends.bind ((forM_makeValueType_confines _
      ((Workspace.Converts.refl w.workspace).setBody m _ |>.setBody m _)).imp ?_
        fun _ _ => id)
    rintro - w₁ ⟨hconverts, hmethods, hnames⟩
    have hnames : w₁.workspace.typeName = w.workspace.typeName :=
      hnames.trans (Workspace.typeName_of_types_eq rfl)
    have hname : ∀ t, typeName t w₁ = .ok (w.workspace.typeName t) w₁ :=
      fun t => by
      rw [← hnames]
      rfl
    refine Ends.bind (Ends.of_run (mapM_run hname _) ?_)
    have hnamed : w.workspace.ClosureNames u b
        ((ss.map (·.closure)).eraseDups.map w.workspace.typeName) := by
      intro n hn
      obtain ⟨t, ht, rfl⟩ := List.mem_map.1 hn
      obtain ⟨s, hs, rfl⟩ := List.mem_map.1 (List.mem_eraseDups.1 ht)
      obtain ⟨i, hi, hsite⟩ := hss.sound s hs
      exact ⟨i, hi, _, hsite.closure, rfl⟩
    refine Ends.imp (markReferences_confines ?_ hconverts
      (hss.rewrites hlabels hnamed)) ?_ fun _ _ => id
    · rw [hmethods]
      simpa using hlt
    · rintro - w₂ ⟨hconverts, b', hcode, hlocals, hpoints, hmethod, hcopies,
        hothers⟩
      have hother₁ : ∀ n, n ≠ m → w₁.workspace.method n =
          w.workspace.method n := by
        intro n hn
        rw [Workspace.method_of_methods_eq hmethods,
          Workspace.method_updateMethod n _ (by simpa using hlt), if_neg hn,
          Workspace.method_updateMethod n _ hlt, if_neg hn]
      have hcopies₁ : w₁.workspace.copiesOf = w.workspace.copiesOf := by
        rw [Workspace.copiesOf_of_methods_eq hmethods, copiesOf_updateMethod,
          copiesOf_updateMethod]
      have hstored : ∀ n, (ss.any fun s => s.slot.same (.slot n)) = true ↔
          w.workspace.StoredIn u b (.slot n) := by
        intro n
        rw [← hss.any_typed hlabels, List.any_map]
        rfl
      have hlocal : ∀ n, b'.locals[n]? = b.locals[n]?.map fun l =>
          if ss.any fun s => s.slot.same (.slot n) then
            { l with type := l.type.asValueType }
          else l := by
        intro n
        rw [hlocals]
        simp only [(convertCode_frame _ b).1, List.getElem?_mapIdx]
      have hunstored : ∀ n, ¬ w.workspace.StoredIn u b (.slot n) →
          b'.locals[n]? = b.locals[n]? := by
        intro n hn
        have hfalse : (ss.any fun s => s.slot.same (.slot n)) = false := by
          simpa using mt (hstored n).1 hn
        simp [hlocal, hfalse]
      refine ⟨b', ?_, fun n hne hn => ?_, ?_, fun n hn => ?_, hcode,
        fun n hn => ?_, hunstored, ?_, fun i => Workspace.names_of_adoptInstr
          hcode, fun n l hb hb' => ?_⟩
      · refine hconverts.congr fun t => ?_
        rw [List.nil_append, List.mem_eraseDups, hclosures]
      · rw [hothers n hne (hcopies₁ ▸ hn), hother₁ n hne]
      · rw [hmethod, Workspace.method_of_methods_eq hmethods,
          Workspace.method_updateMethod m _ (by simpa using hlt), if_pos rfl,
          Workspace.method_updateMethod m _ hlt, if_pos rfl]
      · rw [hcopies n (hcopies₁ ▸ hn), hother₁ n (Workspace.mem_copiesOf hn).1]
      · rw [hlocal]
        simp only [(hstored n).2 hn, if_true]
      · rw [hpoints]
        exact (convertCode_frame _ b).2
      · by_contra hn
        have hsame : b'.adoptLocal n l = b.adoptLocal n l := by
          unfold Body.adoptLocal
          rw [hunstored n hn]
        exact hb' (hsame.trans hb)

/-- The closures in code that passes the shape checks are converted, and nothing
else.  A failure comes before the first change. -/
theorem convertClosures_ends_confined {k : Nat}
    (hb : (w.workspace.method m).body = some b)
    (hshape : b.checkShapes k = .ok ()) :
    Ends (convertClosures m) w (fun _ w' =>
      ∃ b', w.workspace.Confines (w.resolver.refresh w.workspace) m b b'
        w'.workspace)
      fun e w' => ∀ f, e = .failed f → w'.workspace = w.workspace := by
  obtain ⟨hlabels, hheld, -⟩ := Body.checkShapes_eq_ok_iff.1 hshape
  have hbody : bodyOf m w = .ok b w := by
    change (need (w.workspace.method m).body : Weave Body) w = _
    rw [hb]
    rfl
  unfold convertClosures
  refine Ends.bind (Ends.of_run hbody (Ends.bind ((Ends.of_triple
    (allocationSites_shows fun i hi => (hheld i hi).method?) ⟨rfl, rfl⟩).imp ?_
      fun _ _ h _ _ => h.1.workspace)))
  rintro sites w₁ ⟨hw₁, hsites⟩
  have hclosures : ∀ t, t ∈ sites.map (·.closure) ↔
      t ∈ w.workspace.closuresOf (w.resolver.refresh w.workspace) m := by
    intro t
    rw [Workspace.closuresOf, Workspace.code_eq hb, List.mem_filterMap,
      List.mem_map]
    constructor
    · rintro ⟨s, hs, rfl⟩
      obtain ⟨i, hi, hsite⟩ := hsites.sound s hs
      exact ⟨i, hi, hsite.closure⟩
    · rintro ⟨i, hi, ht⟩
      obtain ⟨s, hs, hsite⟩ := hsites.complete i hi (by simp [ht])
      exact ⟨s, hs, Option.some_inj.1 (hsite.closure.symm.trans ht)⟩
  have hnever : Ends (convertSites m b sites) w₁ (fun _ _ => True)
      fun e _ => ∀ f, e ≠ .failed f := by
    unfold Ends
    split
    · trivial
    · rintro f rfl
      exact neverFails_convertSites _ _ _ ‹_›
  exact ((convertSites_confines hw₁.workspace hb hlabels hsites hclosures).and
    hnever).imp (fun _ _ => And.left) fun e w' h f he => absurd he (h.2 f)

/-- A conversion that succeeds is confined: it rewrites the allocations of
closures, the stores after them and the loads of the variables stored in, it
makes value types of those closures, and it marks references to them.  Of the
variables it marks those that an allocation is stored in. -/
theorem convertClosures_confines {w' : World} {k : Nat}
    (hb : (w.workspace.method m).body = some b)
    (hshape : b.checkShapes k = .ok ())
    (hconvert : convertClosures m w = .ok () w') :
    ∃ b', w.workspace.Confines (w.resolver.refresh w.workspace) m b b'
      w'.workspace := by
  have hends := convertClosures_ends_confined hb hshape
  rw [Ends, hconvert] at hends
  exact hends

/-- A closure is made and stored. -/
theorem tick_confines :
    let w := (World.ofModules
      [Sample.tickModule TypeName.systemBase Sample.scheduleSteps]).1
    let b := Sample.codeOf Sample.scheduleSteps [⟨Sample.tickClosure, ""⟩]
    ∃ w' b', convertClosures ⟨0⟩ w = .ok () w' ∧
      w.workspace.Confines (w.resolver.refresh w.workspace) ⟨0⟩ b b'
        w'.workspace := by
  intro w b
  have hrun : delivers (convertClosures ⟨0⟩) w (fun _ _ => true) = true := by
    decide +kernel
  obtain ⟨_, w', hconvert, -⟩ := exists_of_delivers hrun
  obtain ⟨b', hconfines⟩ :=
    convertClosures_confines (m := ⟨0⟩) (b := b) (k := 1) rfl
    (by decide) hconvert
  exact ⟨w', b', hconvert, hconfines⟩

/-- A system that makes a closure and stores it in a variable for systems. -/
def otherLocalModule : Module :=
  let ctor : MethodRef :=
    { owner := Sample.tickClosure, name := ".ctor", ret := .void,
      hasThis := true }
  let update : MethodDef :=
    { name := "OnUpdate", ret := .void,
      body := some (Sample.codeOf [Step.newobj ctor, Step.stloc (.slot 0),
        Step.ret] [⟨Sample.tickSystem, ""⟩]) }
  let system : TypeHead :=
    { ns := "Game", name := "Ticker",
      base := .ofName Ns.entities TypeName.systemBase false }
  let closure : TypeHead := { name := "<>c__DisplayClass0_0", base := .object }
  { name := "Ticks", types := [.mk system [update] [.mk closure [] []]] }

/-- The check looks at variables for closures only, and the conversion marks the
other one: the system, which is a class, is referred to as a value type. -/
theorem canConvertClosures_otherLocal :
    let w := (World.ofModules [otherLocalModule]).1
    ∃ w₁ w', canConvertClosures ⟨0⟩ [] w = .ok true w₁ ∧
      convertClosures ⟨0⟩ w₁ = .ok () w' ∧
      (w.workspace.method ⟨0⟩).code.localType (.slot 0) = Sample.tickSystem ∧
      (w'.workspace.method ⟨0⟩).code.localType (.slot 0) =
        Sample.tickSystem.asValueType ∧
      ∀ t ∈ w.workspace.closuresOf (w.resolver.refresh w.workspace) ⟨0⟩,
        Sample.tickSystem.fullName? ≠ some (w.workspace.typeName t) := by
  intro w
  have hrun : delivers (canConvertClosures ⟨0⟩ []) w (fun ok w₁ => ok &&
      delivers (convertClosures ⟨0⟩) w₁ fun _ w' =>
        (w'.workspace.method ⟨0⟩).code.localType (.slot 0) ==
          Sample.tickSystem.asValueType) =
        true := by
    decide +kernel
  obtain ⟨ok, w₁, hcan, hrun⟩ := exists_of_delivers hrun
  rw [Bool.and_eq_true] at hrun
  obtain ⟨rfl, hrun⟩ := hrun
  obtain ⟨_, w', hconvert, hlocal⟩ := exists_of_delivers hrun
  exact ⟨w₁, w', hcan, hconvert, rfl, eq_of_beq hlocal, by decide +kernel⟩

end Weave

end JobWeave
