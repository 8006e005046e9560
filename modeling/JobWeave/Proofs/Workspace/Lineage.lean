import Mathlib
import JobWeave.Workspace.Universe
import JobWeave.Proofs.Workspace.Development

/-!
# What types derive from, before and after the pass

The pass adds structs and makes structs of closures, and both change what a
universe finds under a name and what it finds a type to derive from.

* `Workspace.Develops.filter_typesOf` and
  `Workspace.Develops.filter_buildIndex`: without the added types a module has
  the types that it had, and a universe the names.
* `Universe.inheritsFrom_iff`: following bases as often as there are types is
  enough, so the bound on the way makes no difference.
* `Universe.inheritsFrom_eq`: as long as nothing that is taken for a struct
  derives from a class, the same types as before derive from it.
-/

namespace JobWeave

open Framework

namespace Workspace

variable {V w : Workspace} {t : TypeId} {k : ModuleId} {ts : List TypeId}

/-! ## Types under a module -/

/-- The type is there. -/
def hasType (w : Workspace) (t : TypeId) : Bool :=
  t.index < w.types.size

@[simp]
theorem hasType_iff : w.hasType t = true ↔ t.index < w.types.size :=
  decide_eq_true_iff

/-- One more level of depth makes no difference if there are levels enough. -/
theorem Tidy.underUpTo_succ (h : w.Tidy) {fuel : Nat}
    (hts : ∀ t ∈ ts, t.index < w.types.size ∧ w.types.size ≤ t.index + fuel) :
    w.underUpTo (fuel + 1) ts = w.underUpTo fuel ts := by
  induction fuel generalizing ts with
  | zero =>
    have hnil : ts = [] := List.eq_nil_iff_forall_not_mem.2 fun t ht => by
      have := hts t ht
      omega
    rw [hnil]
    rfl
  | succ fuel ih =>
    rw [underUpTo, underUpTo]
    refine List.flatMap_congr fun t ht => ?_
    rw [ih fun n hn => ⟨h.nested_lt t n hn, ?_⟩]
    -- nested types come later
    have hlater := h.outer_lt n t (h.nested_outer t n hn)
    have := (hts t ht).2
    omega

theorem Tidy.underUpTo_of_le (h : w.Tidy) {fuel : Nat}
    (hle : w.types.size ≤ fuel) (hts : ∀ t ∈ ts, t.index < w.types.size) :
    w.underUpTo fuel ts = w.underUpTo w.types.size ts := by
  induction fuel, hle using Nat.le_induction with
  | base => rfl
  | succ fuel hle ih =>
    rw [h.underUpTo_succ fun t ht => ⟨hts t ht, by omega⟩, ih]

/-- Without the added types a type has the nested types that it had, and an
added one has none. -/
theorem Develops.filter_nested (h : V.Develops w) (hV : V.InnerPresent)
    (t : TypeId) :
    (w.type t).nested.filter V.hasType = if V.hasType t then (V.type t).nested
    else [] := by
  split
  · rename_i ht
    obtain ⟨added, hnested, hadded⟩ := (h.old t (hasType_iff.1 ht)).nested
    have hold : (V.type t).nested.filter V.hasType = (V.type t).nested :=
      List.filter_eq_self.2 fun n hn => hasType_iff.2 (hV t n hn)
    have hnew : added.filter V.hasType = [] :=
      List.filter_eq_nil_iff.2 fun n hn he =>
        absurd (hasType_iff.1 he) (Nat.not_lt.2 (hadded n hn))
    rw [hnested, List.filter_append, hold, hnew, List.append_nil]
  · rename_i ht
    have hle : V.types.size ≤ t.index :=
      Nat.le_of_not_lt fun hlt => ht (hasType_iff.2 hlt)
    refine List.filter_eq_nil_iff.2 fun n hn he => ?_
    exact absurd (hasType_iff.1 he)
      (Nat.not_lt.2 ((h.made t hle (lt_of_nested hn)).nested n hn))

theorem Develops.filter_underUpTo (h : V.Develops w) (hV : V.InnerPresent)
    (fuel : Nat) (ts : List TypeId) :
    (w.underUpTo fuel ts).filter V.hasType = V.underUpTo fuel
      (ts.filter V.hasType) := by
  induction fuel generalizing ts with
  | zero => rfl
  | succ fuel ih =>
    rw [underUpTo, underUpTo]
    induction ts with
    | nil => rfl
    | cons t ts ihts =>
      rw [List.flatMap_cons, List.filter_append, ihts, List.filter_cons,
        List.filter_cons, ih, h.filter_nested hV]
      by_cases ht : V.hasType t
      · simp [ht]
      · have hnil : V.underUpTo fuel [] = [] := by cases fuel <;> rfl
        simp [ht, hnil]

/-- Without the added types a module has the types that it had, in their
order. -/
theorem Develops.filter_typesOf (h : V.Develops w) (hV : V.Tidy)
    (k : ModuleId) :
    (w.typesOf k).filter V.hasType = V.typesOf k := by
  have hroots : (V.moduleEntry k).types.filter V.hasType =
      (V.moduleEntry k).types :=
    List.filter_eq_self.2 fun t ht => hasType_iff.2 (hV.root_lt k t ht)
  rw [typesOf, typesOf, h.filter_underUpTo hV.innerPresent, h.roots, hroots,
    hV.underUpTo_of_le (h.types_le.trans (Nat.le_succ _)) (hV.root_lt k),
    hV.underUpTo_of_le (Nat.le_succ _) (hV.root_lt k)]

theorem Develops.lt_of_mem_typesOf (h : V.Develops w) (hV : V.Tidy)
    (ht : t ∈ w.typesOf k) :
    t.index < w.types.size := by
  refine (h.innerPresent hV.innerPresent).lt_of_mem_underUpTo
    (fun r hr => ?_) ht
  rw [h.roots] at hr
  exact (hV.root_lt k r hr).trans_le h.types_le

/-! ## Names -/

/-- The full names of types stay the same. -/
theorem Develops.typeName_eq (h : V.Develops w) (hV : V.Tidy)
    (ht : t.index < V.types.size) :
    w.typeName t = V.typeName t :=
  hV.typeName_congr h.types_le (fun t hlt =>
    ⟨(h.old t hlt).name, (h.old t hlt).ns, (h.old t hlt).outer⟩) ht

/-- The full name of an added type has the name of a job in it. -/
theorem Develops.hasJobPrefix_typeName (h : V.Develops w)
    (hle : V.types.size ≤ t.index) (hlt : t.index < w.types.size) :
    hasJobPrefix (w.typeName t) := by
  have hname : ∀ (i fuel : Nat) (t : TypeId), t.index = i → i < fuel →
      V.types.size ≤ t.index → t.index < w.types.size →
      hasJobPrefix (w.typeNameUpTo fuel t) := by
    intro i
    -- the type around an added one comes before it
    induction i using Nat.strong_induction_on with
    | _ i ih =>
      intro fuel t hi hfuel hle hlt
      obtain ⟨fuel, rfl⟩ := Nat.exists_eq_succ_of_ne_zero (by omega : fuel ≠ 0)
      rw [typeNameUpTo]
      refine hasJobPrefix_qualifiedName ?_
      rcases (h.made t hle hlt).named with hn | ⟨o, ho, hle', hlt'⟩
      · exact .inl hn
      · refine .inr ⟨_, by rw [ho]; rfl, ?_⟩
        exact ih o.index (by omega) fuel o rfl (by omega) hle' (by omega)
  exact hname t.index _ t rfl (by omega) hle hlt

end Workspace

namespace Universe

variable {V w : Workspace} {t a b : TypeId} {ms : List ModuleId} {n : String}
variable {u : Universe}

/-- A universe over the modules as they are now needs no new index. -/
theorem refresh_ofModules (w : Workspace) (ms : List ModuleId) :
    (ofModules w ms).refresh w = ofModules w ms := by
  simp [refresh, isFresh, ofModules]

theorem refresh_refresh (u : Universe) (w : Workspace) :
    (u.refresh w).refresh w = u.refresh w := by
  by_cases hfresh : u.isFresh w
  · simp [refresh, hfresh]
  · have hnew : u.refresh w = ofModules w u.modules := if_neg hfresh
    rw [hnew, refresh_ofModules]

/-- Entries under other names make no difference to what is found under a
name. -/
theorem lookup_filter {β : Type} {l : List (String × β)} {p : String × β → Bool}
    (h : ∀ x ∈ l, p x = false → x.1 ≠ n) :
    (l.filter p).lookup n = l.lookup n := by
  induction l with
  | nil => rfl
  | cons x l ih =>
    obtain ⟨hx, hl⟩ := List.forall_mem_cons.1 h
    obtain ⟨m, y⟩ := x
    rw [List.filter_cons, List.lookup_cons]
    split
    · rw [List.lookup_cons, ih hl]
    · rename_i hp
      have hne : n ≠ m := fun he => hx (by simpa using hp) he.symm
      rw [ih hl, beq_false_of_ne hne]

theorem mem_of_lookup {β : Type} {l : List (String × β)} {y : β}
    (h : l.lookup n = some y) :
    (n, y) ∈ l := by
  obtain ⟨before, after, rfl, -⟩ := List.lookup_eq_some_iff.1 h
  simp

theorem lt_of_mem_buildIndex (h : V.Develops w) (hV : V.Tidy)
    (hb : (n, b) ∈ buildIndex w ms) :
    b.index < w.types.size := by
  simp only [buildIndex, Workspace.namedTypesOf, List.mem_flatMap, List.mem_map]
    at hb
  obtain ⟨k, -, t, ht, he⟩ := hb
  cases he
  exact h.lt_of_mem_typesOf hV ht

theorem name_of_mem_buildIndex (hb : (n, b) ∈ buildIndex w ms) :
    w.typeName b = n := by
  simp only [buildIndex, Workspace.namedTypesOf, List.mem_flatMap, List.mem_map]
    at hb
  obtain ⟨k, -, t, ht, he⟩ := hb
  cases he
  rfl

/-- Without the added types an index has the names that it had. -/
theorem filter_buildIndex (h : V.Develops w) (hV : V.Tidy)
    (ms : List ModuleId) :
    (buildIndex w ms).filter (fun p => V.hasType p.2) = buildIndex V ms := by
  rw [buildIndex, buildIndex, List.filter_flatMap]
  refine List.flatMap_congr fun k _ => ?_
  rw [Workspace.namedTypesOf, List.filter_map]
  have hcomp : (fun p : String × TypeId => V.hasType p.2) ∘
    (fun t => (w.typeName t, t)) =
      V.hasType := rfl
  rw [hcomp, h.filter_typesOf hV]
  refine List.map_congr_left fun t ht => ?_
  rw [h.typeName_eq hV (hV.lt_of_mem_typesOf ht)]

/-- What an index has in the end was there, or it is an added type. -/
theorem mem_buildIndex (h : V.Develops w) (hV : V.Tidy)
    (hb : (n, b) ∈ buildIndex w ms) :
    (n, b) ∈ buildIndex V ms ∨
      (V.types.size ≤ b.index ∧ b.index < w.types.size ∧ hasJobPrefix n) := by
  have hlt := lt_of_mem_buildIndex h hV hb
  by_cases hold : V.hasType b
  · refine .inl ?_
    rw [← filter_buildIndex h hV]
    exact List.mem_filter.2 ⟨hb, hold⟩
  · have hle : V.types.size ≤ b.index := Nat.le_of_not_lt fun he =>
      hold (Workspace.hasType_iff.2 he)
    refine .inr ⟨hle, hlt, ?_⟩
    rw [← name_of_mem_buildIndex hb]
    exact h.hasJobPrefix_typeName hle hlt

/-- The same is found under a name that is not like a job's. -/
theorem lookup_buildIndex (h : V.Develops w) (hV : V.Tidy)
    (hn : hasJobPrefix n = false) :
    (buildIndex w ms).lookup n = (buildIndex V ms).lookup n := by
  rw [← filter_buildIndex h hV ms]
  refine (lookup_filter fun x hx hnew he => ?_).symm
  obtain ⟨m, b⟩ := x
  rcases mem_buildIndex h hV hx with hold | ⟨-, -, hprefix⟩
  · have hlt := lt_of_mem_buildIndex (.refl V) hV hold
    rw [Workspace.hasType_iff.2 hlt] at hnew
    cases hnew
  · obtain rfl : m = n := he
    rw [hn] at hprefix
    cases hprefix

/-! ## Lineages -/

/-- The type some bases further on. -/
def ancestor? (u : Universe) (w : Workspace) : Nat → TypeId → Option TypeId
  | 0, t => some t
  | k + 1, t => (u.baseOf? w t).bind (ancestor? u w k)

theorem mem_lineageUpTo {fuel : Nat} :
    a ∈ u.lineageUpTo w fuel t ↔ ∃ k ≤ fuel, u.ancestor? w k t = some a := by
  induction fuel generalizing t with
  | zero => simp [lineageUpTo, ancestor?, eq_comm]
  | succ fuel ih =>
    rw [lineageUpTo]
    constructor
    · intro ha
      cases hb : u.baseOf? w t with
      | none =>
        simp only [hb, List.mem_singleton] at ha
        exact ⟨0, Nat.zero_le _, by rw [ha]; rfl⟩
      | some b =>
        simp only [hb, List.mem_cons] at ha
        rcases ha with rfl | ha
        · exact ⟨0, Nat.zero_le _, rfl⟩
        · obtain ⟨k, hk, hka⟩ := ih.1 ha
          exact ⟨k + 1, by omega, by rw [ancestor?, hb]; exact hka⟩
    · rintro ⟨k, hk, hka⟩
      cases k with
      | zero =>
        cases hka
        split <;> simp
      | succ k =>
        rw [ancestor?] at hka
        cases hb : u.baseOf? w t with
        | none =>
          rw [hb] at hka
          cases hka
        | some b =>
          rw [hb] at hka
          exact List.mem_cons_of_mem _ (ih.2 ⟨k, by omega, hka⟩)

theorem ancestor?_add (i j : Nat) (t : TypeId) :
    u.ancestor? w (i + j) t = (u.ancestor? w i t).bind (u.ancestor? w j) := by
  induction i generalizing t with
  | zero => simp [ancestor?]
  | succ i ih =>
    rw [Nat.add_right_comm, ancestor?, ancestor?]
    cases u.baseOf? w t with
    | none => rfl
    | some b => exact ih b

theorem lt_of_ancestor?
    (hu : ∀ x b, u.baseOf? w x = some b → b.index < w.types.size)
    {k : Nat} (ht : t.index < w.types.size)
    (hk : u.ancestor? w k t = some a) :
    a.index < w.types.size := by
  induction k generalizing t with
  | zero =>
    cases hk
    exact ht
  | succ k ih =>
    rw [ancestor?] at hk
    cases hb : u.baseOf? w t with
    | none =>
      rw [hb] at hk
      cases hk
    | some b =>
      rw [hb] at hk
      exact ih (hu t b hb) hk

/-- A way that comes through one type twice can be made shorter. -/
theorem ancestor?_shortcut {i j k : Nat} {x : TypeId} (hij : i < j)
    (hjk : j ≤ k) (hi : u.ancestor? w i t = some x)
    (hj : u.ancestor? w j t = some x) (hk : u.ancestor? w k t = some a) :
    ∃ l < k, u.ancestor? w l t = some a := by
  obtain ⟨d, rfl⟩ := Nat.exists_eq_add_of_le hjk
  refine ⟨i + d, by omega, ?_⟩
  rw [ancestor?_add, hj] at hk
  rw [ancestor?_add, hi]
  exact hk

/-- What is reached at all is reached in as many steps as there are types. -/
theorem exists_ancestor?_le
    (hu : ∀ x b, u.baseOf? w x = some b → b.index < w.types.size)
    {k : Nat} (ht : t.index < w.types.size) (hk : u.ancestor? w k t = some a) :
    ∃ l ≤ w.types.size, u.ancestor? w l t = some a := by
  induction k using Nat.strong_induction_on with
  | _ k ih =>
    by_cases hle : k ≤ w.types.size
    · exact ⟨k, hle, hk⟩
    -- the first types on the way are more than there are, so two of them are
    -- the same
    have hvisit : ∀ i : Fin (w.types.size + 1), ∃ x : TypeId,
        u.ancestor? w i t = some x ∧ x.index < w.types.size := by
      intro i
      obtain ⟨d, hd⟩ := Nat.exists_eq_add_of_le (show i.val ≤ k by omega)
      rw [hd, ancestor?_add] at hk
      cases hx : u.ancestor? w i t with
      | none =>
        rw [hx] at hk
        cases hk
      | some x => exact ⟨x, rfl, lt_of_ancestor? hu ht hx⟩
    choose visit hvisit hthere using hvisit
    obtain ⟨i, j, hne, heq⟩ := Fintype.exists_ne_map_eq_of_card_lt
      (fun i : Fin (w.types.size + 1) =>
        (⟨(visit i).index, hthere i⟩ : Fin w.types.size))
      (by simp)
    have hsame : visit i = visit j := by
      have hindex : (visit i).index = (visit j).index := congrArg Fin.val heq
      cases hi : visit i
      cases hj : visit j
      rw [hi, hj] at hindex
      exact congrArg TypeId.mk hindex
    have hj := hvisit j
    rw [← hsame] at hj
    obtain ⟨l, hl, hla⟩ : ∃ l < k, u.ancestor? w l t = some a := by
      rcases Nat.lt_or_gt_of_ne (Fin.val_ne_of_ne hne) with hlt | hlt
      · exact ancestor?_shortcut hlt (by omega) (hvisit i) hj hk
      · exact ancestor?_shortcut hlt (by omega) hj (hvisit i) hk
    exact ih l hl hla

/-! ## What a type derives from -/

/-- The first type derives from the second one, or they are the same. -/
def Derives (u : Universe) (w : Workspace) : TypeId → TypeId → Prop :=
  Relation.ReflTransGen fun t b => u.baseOf? w t = some b

theorem derives_iff : u.Derives w t a ↔ ∃ k, u.ancestor? w k t = some a := by
  constructor
  · intro h
    induction h using Relation.ReflTransGen.head_induction_on with
    | refl => exact ⟨0, rfl⟩
    | head hb _ ih =>
      obtain ⟨k, hk⟩ := ih
      exact ⟨k + 1, by rw [ancestor?, hb]; exact hk⟩
  · rintro ⟨k, hk⟩
    induction k generalizing t with
    | zero =>
      cases hk
      exact .refl
    | succ k ih =>
      rw [ancestor?] at hk
      cases hb : u.baseOf? w t with
      | none =>
        rw [hb] at hk
        cases hk
      | some b =>
        rw [hb] at hk
        exact (ih hk).head hb

/-- The type is `ns.name`, or its base is. -/
def comesTo (w : Workspace) (ns name : String) (t : TypeId) : Bool :=
  let e := w.type t
  (e.head.ns == ns && e.head.name == name && e.outer.isNone) ||
    e.head.base.isType ns name

/-- Following bases as often as there are types is enough. -/
theorem inheritsFrom_iff {ns name : String}
    (hu : ∀ x b, u.baseOf? w x = some b → b.index < w.types.size)
    (ht : t.index < w.types.size) :
    u.inheritsFrom w (some t) ns name = true ↔
      ∃ a, u.Derives w t a ∧ comesTo w ns name a = true := by
  rw [inheritsFrom, List.any_eq_true]
  refine exists_congr fun a => and_congr_left fun _ => ?_
  rw [lineage, mem_lineageUpTo, derives_iff]
  constructor
  · rintro ⟨k, -, hk⟩
    exact ⟨k, hk⟩
  · rintro ⟨k, hk⟩
    exact exists_ancestor?_le hu ht hk

/-! ## Structs that are no systems -/

/-- The type may become a struct of the pass, or be found where one is meant: it
is a closure, its full name has that of a job in it, or structs derive from
it. -/
def isStructLike (w : Workspace) (name : String) (t : TypeId) : Bool :=
  (w.type t).head.isClosure || hasJobPrefix name ||
    name == TypeRef.valueType.openName

/-- Nothing that may be taken for a struct derives from `ns.name`. -/
def Apart (u : Universe) (w : Workspace) (ns name : String) : Prop :=
  ∀ p ∈ u.index, isStructLike w p.1 p.2 = true →
    u.inheritsFrom w (some p.2) ns name = false

instance (u : Universe) (w : Workspace) (ns name : String) :
    Decidable (u.Apart w ns name) :=
  inferInstanceAs (Decidable (∀ p ∈ u.index, _ → _))

theorem baseOf?_eq_some :
    u.baseOf? w t = some b ↔ ∃ r, named? (w.type t).head.base = some r ∧
      u.index.lookup r.openName = some b := by
  simp [baseOf?, resolve?, find?, Option.bind_eq_some_iff]

theorem lt_of_baseOf? (h : V.Develops w) (hV : V.Tidy) (x b : TypeId)
    (hb : (ofModules w ms).baseOf? w x = some b) : b.index < w.types.size := by
  obtain ⟨r, -, hr⟩ := baseOf?_eq_some.1 hb
  exact lt_of_mem_buildIndex h hV (mem_of_lookup hr)

section Systems

variable {ns name : String}

/-- What derives from the class is not taken for a struct. -/
theorem not_isStructLike (hV : V.Tidy)
    (hapart : (ofModules V ms).Apart V ns name) (hn : (n, t) ∈ buildIndex V ms)
    (hd : (ofModules V ms).Derives V t a) (ha : comesTo V ns name a = true) :
    isStructLike V n t = false := by
  by_contra hs
  have hfalse := hapart (n, t) hn (by simpa using hs)
  have htrue := (inheritsFrom_iff (lt_of_baseOf? (.refl V) hV)
    (lt_of_mem_buildIndex (.refl V) hV hn)).2 ⟨a, hd, ha⟩
  rw [htrue] at hfalse
  cases hfalse

/-- What is no closure keeps its base. -/
theorem base_eq (h : V.Develops w) (ht : t.index < V.types.size)
    (hc : (V.type t).head.isClosure = false) :
    (w.type t).head.base = (V.type t).head.base := by
  rcases (h.old t ht).base with he | ⟨hclosure, -⟩
  · exact he
  · rw [hc] at hclosure
    cases hclosure

/-- A type that was there comes to a class by its name as before. -/
theorem comesTo_eq (h : V.Develops w) (ht : t.index < V.types.size)
    (hb : (w.type t).head.base = (V.type t).head.base) :
    comesTo w ns name t = comesTo V ns name t := by
  have hages := h.old t ht
  simp only [comesTo, hages.name, hages.ns, hages.outer, hb]

/-- What derived from the class still does. -/
theorem Derives.develop (hd : (ofModules V ms).Derives V t a) (h : V.Develops w)
    (hV : V.Tidy)
    (hapart : (ofModules V ms).Apart V ns name) (hn : (n, t) ∈ buildIndex V ms)
    (ha : comesTo V ns name a = true) :
    (ofModules w ms).Derives w t a ∧ comesTo w ns name a = true := by
  have hclosure : ∀ {n t}, (n, t) ∈ buildIndex V ms →
    (ofModules V ms).Derives V t a →
      (V.type t).head.isClosure = false := fun hn hd => by
    have hs := not_isStructLike hV hapart hn hd ha
    simp only [isStructLike, Bool.or_eq_false_iff] at hs
    exact hs.1.1
  induction hd using Relation.ReflTransGen.head_induction_on generalizing n with
  | refl =>
    have hlt := lt_of_mem_buildIndex (.refl V) hV hn
    exact ⟨.refl, (comesTo_eq h hlt (base_eq h hlt (hclosure hn .refl))).trans
      ha⟩
  | @head t b hb hd ih =>
    have hlt := lt_of_mem_buildIndex (.refl V) hV hn
    obtain ⟨r, hr, hlookup⟩ := baseOf?_eq_some.1 hb
    have hmem := mem_of_lookup hlookup
    obtain ⟨hrest, htrue⟩ := ih hmem
    -- the base is found under a name that no job has
    have hprefix : hasJobPrefix r.openName = false := by
      have hs := not_isStructLike hV hapart hmem hd ha
      simp only [isStructLike, Bool.or_eq_false_iff] at hs
      exact hs.1.2
    refine ⟨Relation.ReflTransGen.head (baseOf?_eq_some.2 ⟨r, ?_, ?_⟩) hrest,
      htrue⟩
    · rw [base_eq h hlt (hclosure hn (Relation.ReflTransGen.head hb hd))]
      exact hr
    · exact (lookup_buildIndex h hV hprefix).trans hlookup

/-- An added type, or one that was found under a name and does not derive from
the class. -/
def Stranger (V w : Workspace) (ms : List ModuleId) (ns name : String)
    (t : TypeId) : Prop :=
  (V.types.size ≤ t.index ∧ t.index < w.types.size) ∨
    ((∃ n, (n, t) ∈ buildIndex V ms) ∧
      (ofModules V ms).inheritsFrom V (some t) ns name = false)

/-- A struct is a stranger's base at most. -/
theorem stranger_of_valueType (h : V.Develops w) (hV : V.Tidy)
    (hapart : (ofModules V ms).Apart V ns name)
    (hbase : (w.type t).head.base = .valueType)
    (hb : (ofModules w ms).baseOf? w t = some b) :
    Stranger V w ms ns name b := by
  obtain ⟨r, hr, hlookup⟩ := baseOf?_eq_some.1 hb
  rw [hbase] at hr
  cases hr
  rw [show (ofModules w ms).index = buildIndex w ms from rfl,
    lookup_buildIndex h hV (by decide)] at hlookup
  have hmem := mem_of_lookup hlookup
  refine .inr ⟨⟨_, hmem⟩, hapart _ hmem ?_⟩
  simp [isStructLike, TypeRef.valueType, TypeRef.ofName]

/-- The base of a stranger is a stranger. -/
theorem Stranger.base (ht : Stranger V w ms ns name t) (h : V.Develops w)
    (hV : V.Tidy) (hapart : (ofModules V ms).Apart V ns name)
    (hb : (ofModules w ms).baseOf? w t = some b) :
    Stranger V w ms ns name b := by
  rcases ht with ⟨hle, hlt⟩ | ⟨⟨n, hn⟩, hfalse⟩
  · exact stranger_of_valueType h hV hapart (h.made t hle hlt).base hb
  have hlt := lt_of_mem_buildIndex (.refl V) hV hn
  rcases (h.old t hlt).base with he | ⟨-, he⟩
  swap
  · exact stranger_of_valueType h hV hapart he hb
  obtain ⟨r, hr, hlookup⟩ := baseOf?_eq_some.1 hb
  rcases mem_buildIndex h hV (mem_of_lookup hlookup) with hmem | ⟨hle, hlt', -⟩
  swap
  · exact .inl ⟨hle, hlt'⟩
  refine .inr ⟨⟨_, hmem⟩, ?_⟩
  by_cases hprefix : hasJobPrefix r.openName
  · exact hapart _ hmem (by simp [isStructLike, hprefix])
  -- it was the base before
  have hbase : (ofModules V ms).baseOf? V t = some b := by
    refine baseOf?_eq_some.2 ⟨r, he ▸ hr, ?_⟩
    exact (lookup_buildIndex h hV (by simpa using hprefix)).symm.trans hlookup
  by_contra htrue
  obtain ⟨a, hd, ha⟩ := (inheritsFrom_iff (lt_of_baseOf? (.refl V) hV)
    (lt_of_mem_buildIndex (.refl V) hV hmem)).1 (by simpa using htrue)
  have := (inheritsFrom_iff (lt_of_baseOf? (.refl V) hV) hlt).2
    ⟨a, Relation.ReflTransGen.head hbase hd, ha⟩
  rw [this] at hfalse
  cases hfalse

/-- A stranger does not come to the class. -/
theorem Stranger.comesTo_eq_false (ht : Stranger V w ms ns name t)
    (h : V.Develops w) (hV : V.Tidy) (hns : ns ≠ "")
    (hvalue : TypeRef.valueType.isType ns name = false) :
    comesTo w ns name t = false := by
  rcases ht with ⟨hle, hlt⟩ | ⟨⟨n, hn⟩, hfalse⟩
  · have hmade := h.made t hle hlt
    simp [comesTo, hmade.base, hmade.ns, hvalue, hns.symm]
  have hlt := lt_of_mem_buildIndex (.refl V) hV hn
  have hold : comesTo V ns name t = false := by
    by_contra htrue
    have := (inheritsFrom_iff (u := ofModules V ms) (lt_of_baseOf? (.refl V) hV)
      hlt).2 ⟨t, .refl, by simpa using htrue⟩
    rw [this] at hfalse
    cases hfalse
  have hages := h.old t hlt
  rcases hages.base with he | ⟨-, he⟩
  · rw [comesTo_eq h hlt he, hold]
  · simp only [comesTo, Bool.or_eq_false_iff] at hold ⊢
    rw [hages.ns, hages.name, hages.outer, he]
    exact ⟨hold.1, hvalue⟩

/-- A stranger does not derive from the class. -/
theorem Stranger.inheritsFrom_eq_false (ht : Stranger V w ms ns name t)
    (h : V.Develops w) (hV : V.Tidy)
    (hapart : (ofModules V ms).Apart V ns name) (hns : ns ≠ "")
    (hvalue : TypeRef.valueType.isType ns name = false) :
    (ofModules w ms).inheritsFrom w (some t) ns name = false := by
  have hlt : t.index < w.types.size := by
    rcases ht with ⟨-, hlt⟩ | ⟨⟨n, hn⟩, -⟩
    · exact hlt
    · exact (lt_of_mem_buildIndex (.refl V) hV hn).trans_le h.types_le
  by_contra htrue
  obtain ⟨a, hd, ha⟩ := (inheritsFrom_iff (lt_of_baseOf? h hV) hlt).1
    (by simpa using htrue)
  have hstranger : Stranger V w ms ns name a := by
    clear ha
    induction hd with
    | refl => exact ht
    | tail _ hb ih => exact ih.base h hV hapart hb
  rw [hstranger.comesTo_eq_false h hV hns hvalue] at ha
  cases ha

/-- The same types as before derive from the class. -/
theorem inheritsFrom_eq (h : V.Develops w) (hV : V.Tidy)
    (hapart : (ofModules V ms).Apart V ns name) (hns : ns ≠ "")
    (hvalue : TypeRef.valueType.isType ns name = false)
    (hn : (n, t) ∈ buildIndex V ms) :
    (ofModules w ms).inheritsFrom w (some t) ns name =
      (ofModules V ms).inheritsFrom V (some t) ns name := by
  have hlt := lt_of_mem_buildIndex (.refl V) hV hn
  cases hold : (ofModules V ms).inheritsFrom V (some t) ns name with
  | true =>
    obtain ⟨a, hd, ha⟩ := (inheritsFrom_iff (lt_of_baseOf? (.refl V) hV)
      hlt).1 hold
    exact (inheritsFrom_iff (lt_of_baseOf? h hV) (hlt.trans_le h.types_le)).2
      ⟨a, hd.develop h hV hapart hn ha⟩
  | false =>
    exact Stranger.inheritsFrom_eq_false (.inr ⟨⟨n, hn⟩, hold⟩) h hV hapart
      hns hvalue

end Systems

end Universe

end JobWeave
