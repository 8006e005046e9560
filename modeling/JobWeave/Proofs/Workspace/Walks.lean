import Mathlib
import JobWeave.Workspace.Import
import JobWeave.Proofs.Codec.RoundTrip
import JobWeave.Proofs.Workspace.BuiltIn
import JobWeave.Proofs.Workspace.Lineage
import JobWeave.Proofs.Workspace.TypeNames

/-!
# Where the ways over bases and interfaces end

What is looked up on a type is looked up on the types it derives from, one after
another until one has it, and interfaces are looked up on the interfaces of
interfaces.  Here these searches run without a bound: a number of steps says how
far one has come, and one that goes on has no result.

* `Universe.follow` is the search over bases and `Universe.followInterfaces`
  that for an interface.
* `Universe.follow_ends_iff`: the first one ends where a type on the way has
  what is looked for or has no base; what it gives is what `Universe.lineage`
  gives.
* `Universe.followInterfaces_eq`: where the second one ends, it gives what
  `Universe.implements` gives.
* `Universe.searches_end`: if no type comes back to itself over bases and
  interfaces, all searches end.
* `Universe.Rooted` and `Universe.Grounded` say of a universe that is brought up
  to date that no type comes back to itself, over bases or over both.  Then the
  tests for base classes (`Universe.AcyclicBases.classTestEnds`) and interfaces
  (`Universe.Acyclic.interfaceTestEnds`) and the search for a method
  (`Universe.AcyclicBases.methodSearchEnds`) end.
-/

namespace JobWeave.Universe

open Framework

variable {α : Type} {u : Universe} {w : Workspace} {t a b d : TypeId}
  {n k : Nat} {test : TypeId → Option α} {r : Option α} {ns name : String}
  {is : List TypeRef} {v : Bool}

/-! ## Over bases -/

/-- The search for the first type, among a type and those it derives from, on
which a test has an answer; so many types are looked at. -/
def follow (u : Universe) (w : Workspace) (test : TypeId → Option α) :
    Nat → Option TypeId → Option (Option α)
  | 0, _ => none
  | _ + 1, none => some none
  | n + 1, some t =>
    match test t with
    | some a => some (some a)
    | none => follow u w test n (u.baseOf? w t)

/-- The search ends with a result. -/
def Ends (u : Universe) (w : Workspace) (test : TypeId → Option α)
    (t : Option TypeId) (r : Option α) : Prop :=
  ∃ n, u.follow w test n t = some r

theorem follow_mono {t : Option TypeId} (h : u.follow w test n t = some r)
    (hle : n ≤ k) :
    u.follow w test k t = some r := by
  induction n generalizing t k with
  | zero => cases h
  | succ n ih =>
    obtain ⟨k, rfl⟩ := Nat.exists_eq_add_of_le'
      (Nat.le_trans (Nat.succ_le_succ n.zero_le) hle)
    cases t with
    | none => exact h
    | some t =>
      rw [follow] at h ⊢
      split at h
      · exact h
      · exact ih h (by omega)

/-- A search that ends came to a type with an answer or to one without a
base. -/
theorem exists_of_follow (h : u.follow w test n (some t) = some r) :
    ∃ k a, u.ancestor? w k t = some a ∧
    ((test a).isSome ∨ u.baseOf? w a = none) := by
  induction n generalizing t with
  | zero => cases h
  | succ n ih =>
    rw [follow] at h
    cases hbase : u.baseOf? w t with
    | none => exact ⟨0, t, rfl, .inr hbase⟩
    | some b =>
      split at h
      · rename_i a ha
        exact ⟨0, t, rfl, .inl (by rw [ha]; rfl)⟩
      · rw [hbase] at h
        obtain ⟨k, a, ha, hstop⟩ := ih h
        exact ⟨k + 1, a, by rw [ancestor?, hbase]; exact ha, hstop⟩

/-- The search has ended one step behind such a type. -/
theorem exists_follow (ha : u.ancestor? w k t = some a)
    (hstop : (test a).isSome ∨ u.baseOf? w a = none) :
    ∃ r, u.follow w test (k + 2) (some t) = some r := by
  induction k generalizing t with
  | zero =>
    cases ha
    rw [follow]
    cases htest : test a with
    | some x => exact ⟨_, rfl⟩
    | none =>
      have hbase : u.baseOf? w a = none := hstop.resolve_left (by simp [htest])
      exact ⟨none, by rw [hbase, follow]⟩
  | succ k ih =>
    rw [follow]
    cases htest : test t with
    | some x => exact ⟨_, rfl⟩
    | none =>
      rw [ancestor?] at ha
      obtain ⟨b, hb, ha⟩ := Option.bind_eq_some_iff.1 ha
      rw [hb]
      exact ih ha

/-- Among types that have no answer and a base among them the search goes on. -/
theorem follow_eq_none {s : List TypeId}
    (hs : ∀ t ∈ s, test t = none ∧ ∃ b ∈ s, u.baseOf? w t = some b) (n : Nat) :
    ∀ t ∈ s, u.follow w test n (some t) = none := by
  induction n with
  | zero => exact fun _ _ => rfl
  | succ n ih =>
    intro t ht
    obtain ⟨htest, b, hb, hbase⟩ := hs t ht
    rw [follow, htest, hbase]
    exact ih b hb

/-- The result of a search is that of looking at as many types as it took. -/
theorem follow_eq_findSome? (h : u.follow w test n (some t) = some r)
    (hle : n ≤ k) :
    r = (u.lineageUpTo w k t).findSome? test := by
  induction n generalizing t k with
  | zero => cases h
  | succ n ih =>
    obtain ⟨k, rfl⟩ := Nat.exists_eq_add_of_le'
      (Nat.le_trans (Nat.succ_le_succ n.zero_le) hle)
    rw [follow] at h
    rw [lineageUpTo]
    cases htest : test t with
    | some x =>
      rw [htest] at h
      split <;> simpa [htest] using h.symm
    | none =>
      rw [htest] at h
      cases hb : u.baseOf? w t with
      | none =>
        rw [hb] at h
        cases n with
        | zero => cases h
        | succ n =>
          simp only [follow, Option.some.injEq] at h
          simp [htest, ← h]
      | some b =>
        rw [hb] at h
        simpa [htest] using ih h (Nat.le_of_succ_le_succ hle)

theorem lineageUpTo_extends (n : Nat) (t : TypeId) :
    u.lineageUpTo w n t <+: u.lineageUpTo w (n + 1) t := by
  induction n generalizing t with
  | zero =>
    rw [lineageUpTo, lineageUpTo]
    split <;> simp
  | succ n ih =>
    rw [lineageUpTo]
    split
    · rename_i b hb
      rw [lineageUpTo, hb]
      exact List.prefix_cons_inj t |>.2 (ih b)
    · rename_i hb
      rw [lineageUpTo, hb]

section

variable (hu : ∀ x b, u.baseOf? w x = some b → b.index < w.types.size)
include hu

theorem mem_lineage_iff (ht : t.index < w.types.size) :
    a ∈ u.lineage w (some t) ↔ ∃ k, u.ancestor? w k t = some a := by
  rw [lineage, mem_lineageUpTo]
  constructor
  · rintro ⟨k, -, hk⟩
    exact ⟨k, hk⟩
  · rintro ⟨k, hk⟩
    exact exists_ancestor?_le hu ht hk

/-- Behind as many types as there are no other one comes. -/
theorem findSome?_lineageUpTo (ht : t.index < w.types.size)
    (hle : w.types.size ≤ k) :
    (u.lineageUpTo w k t).findSome? test = (u.lineage w (some t)).findSome?
      test := by
  have hprefix : u.lineage w (some t) <+: u.lineageUpTo w k t := by
    induction k, hle using Nat.le_induction with
    | base => exact List.prefix_rfl
    | succ k _ ih => exact ih.trans (lineageUpTo_extends k t)
  obtain ⟨more, hmore⟩ := hprefix
  rw [← hmore, List.findSome?_append]
  cases hfound : (u.lineage w (some t)).findSome? test with
  | some x => rfl
  | none =>
    rw [Option.none_or, List.findSome?_eq_none_iff]
    intro x hx
    have hmem : x ∈ u.lineageUpTo w k t := hmore ▸ List.mem_append_right _ hx
    obtain ⟨j, -, hj⟩ := mem_lineageUpTo.1 hmem
    exact List.findSome?_eq_none_iff.1 hfound x
      ((mem_lineage_iff hu ht).2 ⟨j, hj⟩)

/-- Where a search ends, the bound on its way makes no difference. -/
theorem Ends.eq (ht : t.index < w.types.size) (h : u.Ends w test (some t) r) :
    r = (u.lineage w (some t)).findSome? test := by
  obtain ⟨n, hn⟩ := h
  rw [← findSome?_lineageUpTo hu ht (Nat.le_max_right n w.types.size)]
  exact follow_eq_findSome? hn (Nat.le_max_left n w.types.size)

/-- A search ends exactly if a type on its way has an answer or no base. -/
theorem follow_ends_iff (ht : t.index < w.types.size) :
    (∃ r, u.Ends w test (some t) r) ↔
      ∃ a ∈ u.lineage w (some t), (test a).isSome ∨ u.baseOf? w a = none := by
  constructor
  · rintro ⟨r, n, hn⟩
    obtain ⟨k, a, ha, hstop⟩ := exists_of_follow hn
    exact ⟨a, (mem_lineage_iff hu ht).2 ⟨k, ha⟩, hstop⟩
  · rintro ⟨a, ha, hstop⟩
    obtain ⟨k, hk⟩ := (mem_lineage_iff hu ht).1 ha
    obtain ⟨r, hr⟩ := exists_follow hk hstop
    exact ⟨r, k + 2, hr⟩

/-- A search that ends looks at no more types than there are, and one. -/
theorem Ends.follow_eq (ht : t.index < w.types.size)
    (h : u.Ends w test (some t) r) :
    u.follow w test (w.types.size + 2) (some t) = some r := by
  obtain ⟨a, ha, hstop⟩ := (follow_ends_iff hu ht).1 ⟨r, h⟩
  obtain ⟨k, hle, hk⟩ := mem_lineageUpTo.1 ha
  obtain ⟨r', hr⟩ := exists_follow hk hstop
  rw [follow_mono hr (Nat.add_le_add_right hle 2), h.eq hu ht]
  exact congrArg some (Ends.eq hu ht ⟨_, hr⟩)

end

/-! ## Over interfaces -/

/-- A type comes to an interface by one that it lists; `search` goes on with the
type of that one, which is not the type itself. -/
def viaInterface (u : Universe) (ns name : String) (t : TypeId)
    (search : TypeId → Option Bool) (i : TypeRef) : Option Bool :=
  if i.isType ns name then some true
  else
    match u.resolve? i with
    | some d => if d = t then some false else search d
    | none => some false

/-- The search for an interface on a type and those it derives from, and from
each of them over the interfaces that it lists; so many types deep. -/
def followInterfaces (u : Universe) (w : Workspace) (ns name : String) :
    Nat → TypeId → Option Bool
  | 0, _ => none
  | n + 1, t => do
    let search := followInterfaces u w ns name n
    if ← (w.type t).head.interfaces.anyM (u.viaInterface ns name t search)
      then some true
    else
      match u.baseOf? w t with
      | some b => search b
      | none => some false

/-- What a type needs of the searches on the types that it leads to. -/
theorem viaInterface_congr {search search' : TypeId → Option Bool} {i : TypeRef}
    (hle : ∀ d v, u.resolve? i = some d → search d = some v →
      search' d = some v)
    (h : u.viaInterface ns name t search i = some v) :
    u.viaInterface ns name t search' i = some v := by
  rw [viaInterface] at h ⊢
  split
  · rename_i hi
    rwa [if_pos hi] at h
  · rename_i hi
    rw [if_neg hi] at h
    cases hd : u.resolve? i with
    | none => rwa [hd] at h
    | some d =>
      rw [hd] at h
      dsimp only at h ⊢
      split
      · rename_i he
        rwa [if_pos he] at h
      · rename_i hne
        rw [if_neg hne] at h
        exact hle d v hd h

theorem anyM_cons_eq_some {β : Type} {test : β → Option Bool} {x : β}
    {xs : List β} :
    (x :: xs).anyM test = some v ↔
      (test x = some true ∧ v = true) ∨
      (test x = some false ∧ xs.anyM test = some v) := by
  rw [List.anyM]
  cases hx : test x with
  | none => simp
  | some b => cases b <;> simp [eq_comm]

theorem anyM_congr {test test' : TypeRef → Option Bool}
    (hle : ∀ i ∈ is, ∀ v, test i = some v → test' i = some v)
    (h : is.anyM test = some v) :
    is.anyM test' = some v := by
  induction is with
  | nil => exact h
  | cons i is ih =>
    obtain ⟨hi, his⟩ := List.forall_mem_cons.1 hle
    rcases anyM_cons_eq_some.1 h with ⟨hx, hv⟩ | ⟨hx, hxs⟩
    · exact anyM_cons_eq_some.2 (.inl ⟨hi _ hx, hv⟩)
    · exact anyM_cons_eq_some.2 (.inr ⟨hi _ hx, ih his hxs⟩)

theorem anyM_some {test : TypeRef → Bool} :
    is.anyM (fun i => some (test i)) = some (is.any test) := by
  induction is with
  | nil => rfl
  | cons i is ih =>
    rw [List.any_cons]
    cases hi : test i with
    | true => exact anyM_cons_eq_some.2 (.inl ⟨congrArg some hi, rfl⟩)
    | false => exact anyM_cons_eq_some.2 (.inr ⟨congrArg some hi, ih⟩)

/-- A type comes to an interface by one that it lists, and `found` tells of the
type of that one. -/
def lists (u : Universe) (ns name : String) (found : TypeId → Bool) (t : TypeId)
    (i : TypeRef) : Bool :=
  i.isType ns name || (u.resolve? i).any fun d => d != t && found d

theorem viaInterface_eq_lists (found : TypeId → Bool) :
    u.viaInterface ns name t (fun d => some (found d)) =
      fun i => some (u.lists ns name found t i) := by
  funext i
  rw [viaInterface, lists]
  cases i.isType ns name with
  | true => rfl
  | false =>
    cases u.resolve? i with
    | none => rfl
    | some d => by_cases hd : d = t <;> simp [hd]

theorem implementsUpTo_eq_any (k : Nat) :
    u.implementsUpTo w ns name (k + 1) t = (u.lineage w (some t)).any fun a =>
      (w.type a).head.interfaces.any
          (u.lists ns name (u.implementsUpTo w ns name k) a) := by
  rw [implementsUpTo]
  refine congrArg _ (funext fun a => congrArg _ (funext fun i => ?_))
  rw [lists]
  cases u.resolve? i <;> rfl

theorem followInterfaces_succ :
    u.followInterfaces w ns name (n + 1) t =
      some v ↔ ((w.type t).head.interfaces.anyM
          (u.viaInterface ns name t (u.followInterfaces w ns name n)) =
            some true ∧ v = true) ∨
        ((w.type t).head.interfaces.anyM
            (u.viaInterface ns name t (u.followInterfaces w ns name n)) =
              some false ∧
          (match u.baseOf? w t with
            | some b => u.followInterfaces w ns name n b
            | none => some false) = some v) := by
  rw [followInterfaces]
  cases (w.type t).head.interfaces.anyM
      (u.viaInterface ns name t (u.followInterfaces w ns name n)) with
  | none => simp
  | some b => cases b <;> simp [eq_comm]

theorem followInterfaces_mono (h : u.followInterfaces w ns name n t = some v)
    (hle : n ≤ k) :
    u.followInterfaces w ns name k t = some v := by
  induction n generalizing t k v with
  | zero => cases h
  | succ n ih =>
    obtain ⟨k, rfl⟩ := Nat.exists_eq_add_of_le'
      (Nat.le_trans (Nat.succ_le_succ n.zero_le) hle)
    have hstep : ∀ d v, u.followInterfaces w ns name n d = some v →
        u.followInterfaces w ns name k d = some v :=
      fun d v hd => ih hd (by omega)
    have hvia : ∀ {v}, (w.type t).head.interfaces.anyM
          (u.viaInterface ns name t (u.followInterfaces w ns name n)) = some v →
        (w.type t).head.interfaces.anyM
          (u.viaInterface ns name t (u.followInterfaces w ns name k)) =
            some v :=
      anyM_congr fun i _ v => viaInterface_congr fun d v _ => hstep d v
    rw [followInterfaces_succ] at h ⊢
    refine h.imp (And.imp_left hvia) fun ⟨hlisted, hbase⟩ => ⟨hvia hlisted, ?_⟩
    cases hb : u.baseOf? w t with
    | none => rwa [hb] at hbase
    | some b =>
      rw [hb] at hbase
      exact hstep b v hbase

/-- Among types that list first one of them, and not what is looked for, the
search goes on. -/
theorem followInterfaces_eq_none {s : List TypeId}
    (hs : ∀ t ∈ s, ∃ i ∈ (w.type t).head.interfaces.head?,
      i.isType ns name = false ∧ ∃ d ∈ s, u.resolve? i = some d ∧
      d ≠ t) (n : Nat) :
    ∀ t ∈ s, u.followInterfaces w ns name n t = none := by
  induction n with
  | zero => exact fun _ _ => rfl
  | succ n ih =>
    intro t ht
    obtain ⟨i, hi, hname, d, hd, hresolve, hne⟩ := hs t ht
    obtain ⟨is, his⟩ := List.head?_eq_some_iff.1 hi
    have hvia : u.viaInterface ns name t (u.followInterfaces w ns name n) i =
        none := by
      rw [viaInterface, hname, hresolve]
      simpa [hne] using ih d hd
    rw [followInterfaces, his, List.anyM, hvia]
    rfl

theorem anyM_mono (hle : n ≤ k)
    (h : is.anyM (u.viaInterface ns name t (u.followInterfaces w ns name n)) =
      some v) :
    is.anyM (u.viaInterface ns name t (u.followInterfaces w ns name k)) =
      some v :=
  anyM_congr (fun _ _ _ => viaInterface_congr fun _ _ _ hd =>
    followInterfaces_mono hd hle) h

/-- The search over a list of interfaces is as deep as the deepest of them. -/
theorem exists_anyM (h : ∀ i ∈ is, ∀ d, u.resolve? i = some d → d ≠ t →
      ∃ n v, u.followInterfaces w ns name n d = some v) :
    ∃ n v, is.anyM (u.viaInterface ns name t (u.followInterfaces w ns name n)) =
      some v := by
  have heach : ∀ i ∈ is, ∃ n v,
      u.viaInterface ns name t (u.followInterfaces w ns name n) i = some v := by
    intro i hi
    simp only [viaInterface]
    split
    · exact ⟨0, true, rfl⟩
    · cases hd : u.resolve? i with
      | none => exact ⟨0, false, rfl⟩
      | some d =>
        by_cases he : d = t
        · exact ⟨0, false, if_pos he⟩
        · obtain ⟨n, v, hv⟩ := h i hi d hd he
          exact ⟨n, v, (if_neg he).trans hv⟩
  clear h
  induction is with
  | nil => exact ⟨0, false, rfl⟩
  | cons i is ih =>
    obtain ⟨⟨n, v, hv⟩, his⟩ := List.forall_mem_cons.1 heach
    obtain ⟨k, x, hx⟩ := ih his
    have hv' : u.viaInterface ns name t (u.followInterfaces w ns name (max n k))
        i = some v :=
      viaInterface_congr (fun _ _ _ hd => followInterfaces_mono hd
        (Nat.le_max_left n k)) hv
    refine ⟨max n k, ?_⟩
    cases v with
    | true => exact ⟨true, anyM_cons_eq_some.2 (.inl ⟨hv', rfl⟩)⟩
    | false =>
      exact ⟨x, anyM_cons_eq_some.2
        (.inr ⟨hv', anyM_mono (Nat.le_max_right n k) hx⟩)⟩

section

variable (hindex : ∀ p ∈ u.index, p.2.index < w.types.size)
include hindex

theorem lt_of_resolve? {i : TypeRef} (h : u.resolve? i = some d) :
    d.index < w.types.size := by
  rw [resolve?] at h
  obtain ⟨r, -, hr⟩ := Option.bind_eq_some_iff.1 h
  exact hindex _ (mem_of_lookup hr)

/-- A type implements what it lists, and what its base implements. -/
theorem implementsUpTo_succ (ht : t.index < w.types.size) :
    u.implementsUpTo w ns name (k + 1) t =
      ((w.type t).head.interfaces.any
        (u.lists ns name (u.implementsUpTo w ns name k) t) ||
        (u.baseOf? w t).any (u.implementsUpTo w ns name (k + 1))) := by
  have hbase : ∀ x b, u.baseOf? w x = some b → b.index < w.types.size :=
    fun x b hb => lt_of_resolve? hindex hb
  have hall : ∀ x, x.index < w.types.size →
    (u.implementsUpTo w ns name (k + 1) x = true ↔
      ∃ j a, u.ancestor? w j x = some a ∧ (w.type a).head.interfaces.any
        (u.lists ns name (u.implementsUpTo w ns name k) a) = true) := by
    intro x hx
    simp only [implementsUpTo_eq_any, List.any_eq_true,
      mem_lineage_iff hbase hx]
    exact ⟨fun ⟨a, ⟨j, hj⟩, ha⟩ => ⟨j, a, hj, ha⟩,
      fun ⟨j, a, hj, ha⟩ => ⟨a, ⟨j, hj⟩, ha⟩⟩
  rw [Bool.eq_iff_iff, hall t ht, Bool.or_eq_true, Option.any_eq_true]
  constructor
  · rintro ⟨j, a, hj, ha⟩
    cases j with
    | zero =>
      cases hj
      exact .inl ha
    | succ j =>
      rw [ancestor?] at hj
      obtain ⟨b, hb, hj⟩ := Option.bind_eq_some_iff.1 hj
      exact .inr ⟨b, hb, (hall b (hbase t b hb)).2 ⟨j, a, hj, ha⟩⟩
  · rintro (ha | ⟨b, hb, himpl⟩)
    · exact ⟨0, t, rfl, ha⟩
    · obtain ⟨j, a, hj, ha⟩ := (hall b (hbase t b hb)).1 himpl
      exact ⟨j + 1, a, by rw [ancestor?, hb]; exact hj, ha⟩

/-- More levels than there are types make no difference: each one that does
finds a type more. -/
theorem implementsUpTo_of_le (ht : t.index < w.types.size)
    (hle : w.types.size ≤ k) :
    u.implementsUpTo w ns name k t = u.implementsUpTo w ns name
      w.types.size t := by
  let found (k : Nat) : Finset (Fin w.types.size) :=
    Finset.univ.filter fun i => u.implementsUpTo w ns name k ⟨i⟩ = true
  have hmem : ∀ {k} {i : Fin w.types.size},
      i ∈ found k ↔ u.implementsUpTo w ns name k ⟨i⟩ = true := by simp [found]
  -- what the levels below find decides what a level finds
  have hstep : ∀ {j k}, (∀ d : TypeId, d.index < w.types.size →
        u.implementsUpTo w ns name j d = true →
        u.implementsUpTo w ns name k d = true) →
      ∀ t : TypeId, u.implementsUpTo w ns name (j + 1) t = true →
        u.implementsUpTo w ns name (k + 1) t = true := by
    intro j k hjk t h
    simp only [implementsUpTo_eq_any, List.any_eq_true, lists, Bool.or_eq_true,
      Option.any_eq_true, Bool.and_eq_true] at h ⊢
    obtain ⟨a, ha, i, hi, hlists⟩ := h
    refine ⟨a, ha, i, hi, hlists.imp_right ?_⟩
    rintro ⟨d, hd, hne, hfound⟩
    exact ⟨d, hd, hne, hjk d (lt_of_resolve? hindex hd) hfound⟩
  have hmono : ∀ k (t : TypeId), u.implementsUpTo w ns name k t = true →
      u.implementsUpTo w ns name (k + 1) t = true := by
    intro k
    induction k with
    | zero =>
      intro t h
      cases h
    | succ k ih => exact hstep fun d _ => ih d
  have hsub : ∀ k, found k ⊆ found (k + 1) :=
    fun k i hi => hmem.2 (hmono k _ (hmem.1 hi))
  have hstable : ∀ k, (found k).card = (found (k + 1)).card →
      (found (k + 1)).card = (found (k + 2)).card := by
    intro k hk
    have hsame := Finset.eq_of_subset_of_card_le (hsub k) hk.ge
    refine congrArg _ ((hsub (k + 1)).antisymm fun i hi => hmem.2 ?_)
    refine hstep (fun d hd h => ?_) _ (hmem.1 hi)
    exact hmem.1 (hsame.ge (hmem (i := ⟨d.index, hd⟩).2 h))
  have hcard : (found k).card = (found w.types.size).card :=
    Nat.stabilises_of_monotone (monotone_nat_of_le_succ fun k =>
      Finset.card_le_card (hsub k))
        (fun k => (Finset.card_le_univ _).trans_eq (Fintype.card_fin _))
          hstable hle
  have hfound : found w.types.size = found k :=
    Finset.eq_of_subset_of_card_le (monotone_nat_of_le_succ hsub hle) hcard.le
  have hiff := Finset.ext_iff.1 hfound ⟨t.index, ht⟩
  rw [hmem, hmem] at hiff
  exact Bool.eq_iff_iff.2 hiff.symm

/-- Where the search for an interface ends, the bound on its depth makes no
difference. -/
theorem followInterfaces_eq (ht : t.index < w.types.size)
    (h : u.followInterfaces w ns name n t = some v) :
    v = u.implements w (some t) ns name := by
  have hupto : ∀ {n v} {t : TypeId}, t.index < w.types.size →
      u.followInterfaces w ns name n t = some v → ∀ k, n ≤ k →
        u.implementsUpTo w ns name k t = v := by
    intro n
    induction n with
    | zero =>
      intro v t ht h
      cases h
    | succ n ih =>
      intro v t ht h k hk
      obtain ⟨k, rfl⟩ := Nat.exists_eq_add_of_le'
        (Nat.le_trans (Nat.succ_le_succ n.zero_le) hk)
      have hvia : ∀ {v}, (w.type t).head.interfaces.anyM
            (u.viaInterface ns name t (u.followInterfaces w ns name n)) =
              some v →
          (w.type t).head.interfaces.any
            (u.lists ns name (u.implementsUpTo w ns name k) t) =
              v := by
        intro v hv
        refine Option.some.inj (anyM_some.symm.trans ?_)
        rw [← viaInterface_eq_lists]
        refine anyM_congr (fun i _ v hi => ?_) hv
        refine viaInterface_congr (fun d v hd hv => ?_) hi
        exact congrArg some (ih (lt_of_resolve? hindex hd) hv k
          (Nat.le_of_succ_le_succ hk))
      rw [implementsUpTo_succ hindex ht]
      rcases followInterfaces_succ.1 h with ⟨hlisted, rfl⟩ | ⟨hlisted, hbase⟩
      · rw [hvia hlisted, Bool.true_or]
      · rw [hvia hlisted, Bool.false_or]
        cases hb : u.baseOf? w t with
        | none =>
          rw [hb] at hbase
          exact Option.some.inj hbase
        | some b =>
          rw [hb] at hbase
          exact ih (lt_of_resolve? hindex hb) hbase (k + 1) (by omega)
  rw [implements, ← implementsUpTo_of_le hindex ht
    (Nat.le_max_right n w.types.size)]
  exact (hupto ht h _ (Nat.le_max_left _ _)).symm

end

/-! ## Where no way comes back -/

/-- The searches go on from the first type to the second one: it is the base, or
the type of an interface that is another one. -/
def Leads (u : Universe) (w : Workspace) (t d : TypeId) : Prop :=
  u.baseOf? w t = some d ∨ ∃ i ∈ (w.type t).head.interfaces,
    u.resolve? i = some d ∧ d ≠ t

/-- No type comes back to itself. -/
def Acyclic (u : Universe) (w : Workspace) : Prop :=
  ∀ t, ¬Relation.TransGen (u.Leads w) t t

/-- No type comes back to itself over bases. -/
def AcyclicBases (u : Universe) (w : Workspace) : Prop :=
  ∀ t, ¬Relation.TransGen (fun t b => u.baseOf? w t = some b) t t

theorem Acyclic.bases (h : u.Acyclic w) : u.AcyclicBases w :=
  fun t ht => h t (Relation.TransGen.mono (fun _ _ hb => Or.inl hb) t t ht)

/-- The types that a type leads to. -/
def leadsTo (u : Universe) (w : Workspace) (t : TypeId) : List TypeId :=
  (u.baseOf? w t).toList ++
    ((w.type t).head.interfaces.filterMap u.resolve?).filter (· != t)

theorem mem_leadsTo : d ∈ u.leadsTo w t ↔ u.Leads w t d := by
  simp only [leadsTo, Leads, List.mem_append, Option.mem_toList,
    List.mem_filter, List.mem_filterMap, bne_iff_ne]
  exact or_congr_right ⟨fun ⟨⟨i, hi, hd⟩, hne⟩ => ⟨i, hi, hd, hne⟩,
    fun ⟨i, hi, hd, hne⟩ => ⟨⟨i, hi, hd⟩, hne⟩⟩

/-- If what a type leads to has a lower rank, none comes back to itself. -/
theorem Acyclic.of_rank (rank : TypeId → Nat)
    (h : ∀ t d, u.Leads w t d → rank d < rank t) :
    u.Acyclic w := by
  have hlt : ∀ {t d}, Relation.TransGen (u.Leads w) t d → rank d < rank t := by
    intro t d hd
    induction hd with
    | single hd => exact h _ _ hd
    | tail _ hd ih => exact (h _ _ hd).trans ih
  exact fun t ht => (hlt ht).false

/-- How far a type leads on, as long as that is not further than so many
steps. -/
def height (u : Universe) (w : Workspace) : Nat → TypeId → Nat
  | 0, _ => 0
  | n + 1, t => ((u.leadsTo w t).map (height u w n)).foldr max 0 + 1

/-- Each type leads on further than the types it leads to. -/
def descends (u : Universe) (w : Workspace) : Bool :=
  (List.range w.types.size).all fun i => (u.leadsTo w ⟨i⟩).all fun d =>
    u.height w w.types.size d < u.height w w.types.size ⟨i⟩

/-- Then none comes back to itself. -/
theorem Acyclic.of_descends (h : u.descends w = true) : u.Acyclic w := by
  refine .of_rank (u.height w w.types.size) fun t d hleads => ?_
  have ht : t.index < w.types.size := Workspace.lt_of_ne_default fun he => by
    rw [Leads, baseOf?, he] at hleads
    rcases hleads with hbase | ⟨i, hi, -⟩
    · cases hbase
    · cases hi
  simp only [descends, List.all_eq_true, List.mem_range, decide_eq_true_eq] at h
  exact h t.index ht d (mem_leadsTo.2 hleads)

section

variable (hindex : ∀ p ∈ u.index, p.2.index < w.types.size)
include hindex

theorem lt_of_leads (h : u.Leads w t d) : d.index < w.types.size := by
  rcases h with hb | ⟨i, -, hi, -⟩
  · exact lt_of_resolve? hindex hb
  · exact lt_of_resolve? hindex hi

omit hindex in
/-- A property that a type has if all types have it that come next, and nothing
comes back. -/
theorem induction_of_acyclic {R : TypeId → TypeId → Prop} {p : TypeId → Prop}
    (hR : ∀ t, ¬Relation.TransGen R t t)
    (hlt : ∀ t d, R t d → d.index < w.types.size)
    (hstep : ∀ t, (∀ d, R t d → p d) → p t) (t : TypeId) : p t := by
  let later (x y : Fin w.types.size) : Prop := Relation.TransGen R ⟨y⟩ ⟨x⟩
  have hwf : WellFounded later :=
    @Finite.wellFounded_of_trans_of_irrefl _ _ later
      ⟨fun _ _ _ hxy hyz => hyz.trans hxy⟩ ⟨fun x => hR ⟨x⟩⟩
  have hthere : ∀ x : Fin w.types.size, p ⟨x⟩ := fun x =>
    hwf.induction x fun x ih => hstep _ fun d hd => ih ⟨d.index, hlt _ _ hd⟩
      (.single hd)
  exact hstep t fun d hd => hthere ⟨d.index, hlt _ _ hd⟩

/-- The search over bases ends. -/
theorem AcyclicBases.ends (hbases : u.AcyclicBases w) (test : TypeId → Option α)
    (t : Option TypeId) : ∃ r, u.Ends w test t r := by
  cases t with
  | none => exact ⟨none, 1, rfl⟩
  | some t =>
    refine induction_of_acyclic (w := w) (p := fun t => ∃ r,
      u.Ends w test (some t) r) hbases (fun _ _ hb => lt_of_resolve? hindex hb)
        (fun t ih => ?_) t
    have hnext : ∃ r, u.Ends w test (u.baseOf? w t) r := by
      cases hb : u.baseOf? w t with
      | none => exact ⟨none, 1, rfl⟩
      | some b => exact ih b hb
    obtain ⟨r, n, hn⟩ := hnext
    cases htest : test t with
    | some x => exact ⟨some x, n + 1, by rw [follow, htest]⟩
    | none => exact ⟨r, n + 1, by rw [follow, htest]; exact hn⟩

/-- The search for an interface ends. -/
theorem Acyclic.interfaces_end (hacyclic : u.Acyclic w) (ns name : String)
    (t : TypeId) :
    ∃ n v, u.followInterfaces w ns name n t = some v := by
  refine induction_of_acyclic (w := w)
    (p := fun t => ∃ n v, u.followInterfaces w ns name n t = some v) hacyclic
    (fun _ _ => lt_of_leads hindex) (fun t ih => ?_) t
  obtain ⟨n, v, hlisted⟩ :=
    exists_anyM fun i hi d hd hne => ih d (.inr ⟨i, hi, hd, hne⟩)
  cases v with
  | true => exact ⟨n + 1, true, followInterfaces_succ.2 (.inl ⟨hlisted, rfl⟩)⟩
  | false =>
    cases hb : u.baseOf? w t with
    | none =>
      exact ⟨n + 1, false, followInterfaces_succ.2 (.inr ⟨hlisted, by rw [hb]⟩)⟩
    | some b =>
      obtain ⟨k, x, hx⟩ := ih b (.inl hb)
      refine ⟨max n k + 1, x, followInterfaces_succ.2 (.inr ⟨?_, ?_⟩)⟩
      · exact anyM_mono (Nat.le_max_left n k) hlisted
      · rw [hb]
        exact followInterfaces_mono hx (Nat.le_max_right n k)

end

/-! ## Methods -/

/-- A type has a method that passes a test; a test without an answer ends the
search. -/
def hasMethod (w : Workspace) (fits : MethodId → Option Bool) (t : TypeId) :
    Option (Option MethodId) :=
  match firstSome? fits (w.type t).methods with
  | some none => none
  | some (some m) => some (some m)
  | none => some none

/-- Searching through the methods of types is searching through the types. -/
theorem firstSome?_flatMap {fits : MethodId → Option Bool} {ts : List TypeId} :
    firstSome? fits (ts.flatMap fun t => (w.type t).methods) =
      ((ts.findSome? (hasMethod w fits)).elim (some none)
        fun m => m.map some) := by
  have happend : ∀ ms ms' : List MethodId, firstSome? fits (ms ++ ms') =
      (firstSome? fits ms).bind fun m => m.elim (firstSome? fits ms')
        (some ∘ some) := by
    intro ms ms'
    induction ms with
    | nil => rfl
    | cons m ms ih =>
      rw [List.cons_append, firstSome?, firstSome?, ih]
      cases fits m with
      | none => rfl
      | some b => cases b <;> rfl
  induction ts with
  | nil => rfl
  | cons t ts ih =>
    rw [List.flatMap_cons, happend, List.findSome?_cons, hasMethod]
    cases firstSome? fits (w.type t).methods with
    | none => rfl
    | some m =>
      cases m with
      | none => exact ih
      | some m => rfl

/-- If the test has an answer on each method, the search has one. -/
theorem exists_firstSome? {fits : MethodId → Option Bool} {ms : List MethodId}
    (h : ∀ m ∈ ms, ∃ b, fits m = some b) :
    ∃ found, firstSome? fits ms = some found := by
  induction ms with
  | nil => exact ⟨none, rfl⟩
  | cons m ms ih =>
    obtain ⟨⟨b, hb⟩, hms⟩ := List.forall_mem_cons.1 h
    rw [firstSome?, hb]
    cases b with
    | true => exact ⟨some m, rfl⟩
    | false => exact ih hms

/-- What is found first passes the test. -/
theorem firstSome?_eq_some_some {fits : MethodId → Option Bool}
    {ms : List MethodId} {m : MethodId}
    (h : firstSome? fits ms = some (some m)) : m ∈ ms ∧ fits m = some true := by
  induction ms with
  | nil => cases h
  | cons x ms ih =>
    rw [firstSome?] at h
    cases hx : fits x with
    | none =>
      rw [hx] at h
      cases h
    | some b =>
      rw [hx] at h
      cases b with
      | true =>
        cases h
        exact ⟨List.mem_cons_self, hx⟩
      | false => exact (ih h).imp_left (List.mem_cons_of_mem x)

/-- Where nothing is found, nothing passes the test. -/
theorem firstSome?_eq_some_none {fits : MethodId → Option Bool}
    {ms : List MethodId} (h : firstSome? fits ms = some none) :
    ∀ m ∈ ms, fits m = some false := by
  induction ms with
  | nil => simp
  | cons x ms ih =>
    rw [firstSome?] at h
    cases hx : fits x with
    | none =>
      rw [hx] at h
      cases h
    | some b =>
      rw [hx] at h
      cases b with
      | true => cases h
      | false => exact List.forall_mem_cons.2 ⟨hx, ih h⟩

/-- The types of the parameters of all methods have names. -/
def ParamsNamed (w : Workspace) : Prop :=
  ∀ t, ∀ m ∈ (w.type t).methods, ∀ p ∈ (w.method m).params,
    p.type.fullName?.isSome

theorem exists_sameParams? {ps : List ParamDef} {ts : List TypeRef}
    (hps : ∀ p ∈ ps, p.type.fullName?.isSome)
    (hts : ∀ t ∈ ts, t.fullName?.isSome) :
    ∃ v, sameParams? ps ts = some v := by
  induction ps generalizing ts with
  | nil => exact ⟨true, by rw [sameParams?]; nofun⟩
  | cons p ps ih =>
    cases ts with
    | nil => exact ⟨true, by rw [sameParams?]; nofun⟩
    | cons t ts =>
      obtain ⟨hp, hps⟩ := List.forall_mem_cons.1 hps
      obtain ⟨ht, hts⟩ := List.forall_mem_cons.1 hts
      obtain ⟨b, hb⟩ := TypeRef.exists_same? hp ht
      rw [sameParams?, hb]
      cases b with
      | true => exact ih hps hts
      | false => exact ⟨false, rfl⟩

theorem exists_startsWith? {ps : List ParamDef} {ts : List TypeRef}
    (hps : ∀ p ∈ ps, p.type.fullName?.isSome)
    (hts : ∀ t ∈ ts, t.fullName?.isSome) :
    ∃ v, Weave.startsWith? ps ts = some v := by
  induction ts generalizing ps with
  | nil => exact ⟨true, by rw [Weave.startsWith?]⟩
  | cons t ts ih =>
    cases ps with
    | nil => exact ⟨false, by rw [Weave.startsWith?]⟩
    | cons p ps =>
      obtain ⟨hp, hps⟩ := List.forall_mem_cons.1 hps
      obtain ⟨ht, hts⟩ := List.forall_mem_cons.1 hts
      obtain ⟨b, hb⟩ := TypeRef.exists_same? hp ht
      rw [Weave.startsWith?, hb]
      cases b with
      | true => exact ih hps hts
      | false => exact ⟨false, rfl⟩

theorem exists_matches? {m : MethodRef} {d : MethodDef}
    (hd : ∀ p ∈ d.params, p.type.fullName?.isSome)
    (hm : ∀ p ∈ m.params, p.fullName?.isSome) :
    ∃ v, matches? m d = some v := by
  rw [matches?]
  split
  · exact ⟨false, rfl⟩
  · exact exists_sameParams? hd hm

/-- The definition that an import of a method asks for. -/
def importedMethod? (u : Universe) (w : Workspace) (owner : TypeRef)
    (name : String) (params arity : Int) (first : List TypeRef) :
    Option (Option MethodId) :=
  firstSome? (fun id => fits? name params arity first (w.method id))
    ((u.lineage w (u.resolve? owner)).flatMap fun t => (w.type t).methods)

theorem exists_fits? {params arity : Int} {first : List TypeRef} {id : MethodId}
    (hd : ∀ p ∈ (w.method id).params, p.type.fullName?.isSome)
    (hfirst : ∀ p ∈ first, p.fullName?.isSome) :
    ∃ v, fits? name params arity first (w.method id) = some v := by
  rw [fits?]
  split
  · split
    · exact ⟨false, rfl⟩
    · exact exists_startsWith? hd hfirst
  · exact ⟨false, rfl⟩

/-! ## All searches -/

/-- The type has a field of the name. -/
def hasField (w : Workspace) (name : String) (t : TypeId) :
    Option (TypeId × FieldDef) :=
  ((w.type t).head.field? name).map fun f => (t, f)

/-- The searches end, after so many types or at some depth, and find what the
bounded ones find. -/
structure SearchesEnd (u : Universe) (w : Workspace) : Prop where
  /-- for a class that a type derives from -/
  inheritsFrom : ∀ t : TypeId, t.index < w.types.size → ∀ ns name, ∃ r,
    u.follow w (Option.guard (comesTo w ns name)) (w.types.size + 2) (some t) =
      some r ∧ u.inheritsFrom w (some t) ns name = r.isSome
  /-- for an interface that a type implements -/
  implements : ∀ t : TypeId, t.index < w.types.size → ∀ ns name, ∃ n,
    u.followInterfaces w ns name n t = some (u.implements w (some t) ns name)
  /-- for a field -/
  resolveField : ∀ owner name,
    u.follow w (hasField w name) (w.types.size + 2) (u.resolve? owner) =
      some (u.resolveField? w owner name)
  /-- for a method whose parameters are all there -/
  resolveMethod : ∀ m : MethodRef, (∀ p ∈ m.params, p.fullName?.isSome) →
    ∃ found, u.follow w (hasMethod w fun id => matches? m (w.method id))
      (w.types.size + 2)
        (u.resolve? m.owner) = some (found.map some) ∧
      u.resolveMethod? w m = some found
  /-- for a method by its name and first parameters -/
  importedMethod : ∀ owner name params arity (first : List TypeRef),
    (∀ p ∈ first, p.fullName?.isSome) → ∃ found,
      u.follow w (hasMethod w fun id => fits? name params arity
        first (w.method id)) (w.types.size + 2)
          (u.resolve? owner) = some (found.map some) ∧
        u.importedMethod? w owner name params arity first = some found

section

variable (hindex : ∀ p ∈ u.index, p.2.index < w.types.size)
  (hbases : u.AcyclicBases w)
include hindex hbases

/-- If no type comes back to itself, the search over bases is the one through
the lineage. -/
theorem AcyclicBases.follow_eq (test : TypeId → Option α) {t : Option TypeId}
    (ht : ∀ x ∈ t, x.index < w.types.size) :
    u.follow w test (w.types.size + 2) t =
      some ((u.lineage w t).findSome? test) := by
  cases t with
  | none => rfl
  | some t =>
    have hbase : ∀ x b, u.baseOf? w x = some b → b.index < w.types.size :=
      fun x b hb => lt_of_resolve? hindex hb
    obtain ⟨r, hr⟩ := hbases.ends hindex test (some t)
    rw [hr.follow_eq hbase (ht t rfl), hr.eq hbase (ht t rfl)]

/-- The search for a method has an answer, if the test for it has one on each
method. -/
theorem AcyclicBases.exists_method {fits : MethodId → Option Bool}
    (hfits : ∀ t, ∀ m ∈ (w.type t).methods, ∃ b, fits m = some b)
    (owner : TypeRef) :
    ∃ found, u.follow w (hasMethod w fits) (w.types.size + 2)
      (u.resolve? owner) =
        some (found.map some) ∧
      firstSome? fits ((u.lineage w (u.resolve? owner)).flatMap
        fun t => (w.type t).methods) = some found := by
  obtain ⟨found, hfound⟩ : ∃ found,
      firstSome? fits ((u.lineage w (u.resolve? owner)).flatMap
        fun t => (w.type t).methods) = some found := by
    refine exists_firstSome? fun m hm => ?_
    obtain ⟨t, -, hm⟩ := List.mem_flatMap.1 hm
    exact hfits t m hm
  refine ⟨found, ?_, hfound⟩
  rw [hbases.follow_eq hindex _ fun x hx => lt_of_resolve? hindex hx]
  rw [firstSome?_flatMap] at hfound
  cases hsearch : (u.lineage w (u.resolve? owner)).findSome?
      (hasMethod w fits) with
  | none =>
    rw [hsearch] at hfound
    cases hfound
    rfl
  | some m =>
    rw [hsearch] at hfound
    cases m with
    | none => cases hfound
    | some m =>
      cases hfound
      rfl

end

/-- The test for a class that a type derives from ends, and finds what the
bounded one finds. -/
def ClassTestEnds (u : Universe) (w : Workspace) (ns name : String)
    (t : TypeId) : Prop :=
  ∃ r, u.follow w (Option.guard (comesTo w ns name)) (w.types.size + 2)
    (some t) = some r ∧ u.inheritsFrom w (some t) ns name = r.isSome

/-- So does the test for an interface. -/
def InterfaceTestEnds (u : Universe) (w : Workspace) (ns name : String)
    (t : TypeId) : Prop :=
  ∃ n, u.followInterfaces w ns name n t = some (u.implements w (some t) ns name)

/-- So does the search for the definition of a method reference, which has no
answer where a type without a name is in the way. -/
def MethodSearchEnds (u : Universe) (w : Workspace) (m : MethodRef) : Prop :=
  ∃ r, u.follow w (hasMethod w fun id => matches? m (w.method id))
    (w.types.size + 2)
      (u.resolve? m.owner) = some r ∧
    u.resolveMethod? w m = r.elim (some none) fun found => found.map some

section

variable (hindex : ∀ p ∈ u.index, p.2.index < w.types.size)
include hindex

theorem AcyclicBases.classTestEnds (hbases : u.AcyclicBases w)
    (ns name : String) (ht : t.index < w.types.size) :
    u.ClassTestEnds w ns name t := by
  refine ⟨_, hbases.follow_eq hindex _ fun x hx => by cases hx; exact ht, ?_⟩
  rw [List.findSome?_guard, Bool.eq_iff_iff, List.find?_isSome]
  exact List.any_eq_true

theorem Acyclic.interfaceTestEnds (hacyclic : u.Acyclic w) (ns name : String)
    (ht : t.index < w.types.size) : u.InterfaceTestEnds w ns name t := by
  obtain ⟨n, v, hv⟩ := hacyclic.interfaces_end hindex ns name t
  exact ⟨n, followInterfaces_eq hindex ht hv ▸ hv⟩

theorem AcyclicBases.methodSearchEnds (hbases : u.AcyclicBases w)
    (m : MethodRef) :
    u.MethodSearchEnds w m :=
  ⟨_, hbases.follow_eq hindex _ fun _ hx => lt_of_resolve? hindex hx,
    firstSome?_flatMap⟩

end

/-- A universe that is brought up to date knows types that are there, and none
of them comes back to itself over bases. -/
structure Rooted (u : Universe) (w : Workspace) : Prop where
  /-- the types it knows are there -/
  index : ∀ p ∈ (u.refresh w).index, p.2.index < w.types.size
  /-- none comes back to itself -/
  bases : (u.refresh w).AcyclicBases w

/-- Nor does one come back to itself over bases and interfaces. -/
structure Grounded (u : Universe) (w : Workspace) :
    Prop extends u.Rooted w where
  /-- none comes back to itself -/
  acyclic : (u.refresh w).Acyclic w

/-- A test for that. -/
def grounds (u : Universe) (w : Workspace) : Bool :=
  let u := u.refresh w
  u.index.all (fun p => p.2.index < w.types.size) && u.descends w

theorem Grounded.of_grounds (h : u.grounds w = true) : u.Grounded w := by
  simp only [grounds, Bool.and_eq_true, List.all_eq_true,
    decide_eq_true_eq] at h
  exact { index := h.1, bases := (Acyclic.of_descends h.2).bases,
          acyclic := .of_descends h.2 }

/-- If no type of the modules comes back to itself, over bases and over
interfaces that are others, and the parameters have types with names, all
searches end and find what the bounded ones find. -/
theorem searches_end {ms : List ModuleId} (hw : w.Tidy) (hnamed : ParamsNamed w)
    (hacyclic : (ofModules w ms).Acyclic w) :
    (ofModules w ms).SearchesEnd w := by
  have hindex : ∀ p ∈ (ofModules w ms).index, p.2.index < w.types.size :=
    fun p hp => lt_of_mem_buildIndex (.refl w) hw hp
  constructor
  case inheritsFrom =>
    exact fun t ht ns name => hacyclic.bases.classTestEnds hindex ns name ht
  case implements =>
    exact fun t ht ns name => hacyclic.interfaceTestEnds hindex ns name ht
  case resolveField =>
    intro owner name
    exact hacyclic.bases.follow_eq hindex _ fun x hx => lt_of_resolve? hindex hx
  case resolveMethod =>
    intro m hm
    exact hacyclic.bases.exists_method hindex
      (fun t id hid => exists_matches? (hnamed t id hid) hm) _
  case importedMethod =>
    intro owner name params arity first hfirst
    exact hacyclic.bases.exists_method hindex
      (fun t id hid => exists_fits? (hnamed t id hid) hfirst) _

end JobWeave.Universe

namespace JobWeave

/-! ## Samples -/

namespace Sample

/-- A public class without methods. -/
def kin (name base : String) (interfaces : List String) : TypeDef :=
  .mk { ns := "N", name, flags := TypeFlag.pub, base := .ofName "N" base false,
        interfaces := interfaces.map (TypeRef.ofName "N" · false) } [] []

/-- Two classes of which each derives from the other one, and two interfaces of
which each lists the other one. -/
def circular : Module :=
  { name := "Circular"
    types := [kin "A" "B" [], kin "B" "A" [], kin "I" "" ["J"],
      kin "J" "" ["I"]] }

/-- The module laid out. -/
def circularWorkspace : Workspace :=
  (({} : Workspace).loadAll [circular]).1

/-- What its types resolve in. -/
def circularUniverse : Universe :=
  .ofModules circularWorkspace [⟨0⟩]

open Codec in
theorem circular_fits : circular.Fits true := by
  have hkin : ∀ name base interfaces, NameFits name → NameFits base →
    ListFits interfaces →
      (∀ i ∈ interfaces, NameFits i) →
      (kin name base interfaces).Fits true := by
    intro name base interfaces hname hbase hcount hall
    have hns : NameFits "N" := by decide
    have href : ∀ n, NameFits n → (TypeRef.ofName "N" n false).Fits true :=
      fun n hn => ofName_fits hns hn
    refine .mk ⟨hns, hname, href base hbase, ⟨?_, ?_⟩, ⟨listFits_nil, by simp⟩,
      ⟨listFits_nil, by simp⟩, listFits_nil, by simp⟩ listFits_nil (by simp)
        listFits_nil
      (by simp) (by simp)
    · simpa [ListFits] using hcount
    · intro i hi
      obtain ⟨n, hn, rfl⟩ := List.mem_map.1 hi
      exact href n (hall n hn)
  refine ⟨by decide, by decide, ?_⟩
  simp only [circular, List.mem_cons, List.not_mem_nil, or_false,
    forall_eq_or_imp, forall_eq]
  exact ⟨hkin _ _ _ (by decide) (by decide) (by decide) (by simp),
    hkin _ _ _ (by decide) (by decide) (by decide) (by simp),
    hkin _ _ _ (by decide) (by decide) (by decide) (by decide),
    hkin _ _ _ (by decide) (by decide) (by decide) (by decide)⟩

/-- A class that derives from another one, which implements an interface by one
that lists it. -/
def descent : Module :=
  { name := "Descent"
    types := [kin "J" "" [], kin "I" "" ["J"], kin "A" "" ["I"],
      .mk { ns := "N", name := "B", base := .ofName "N" "A" false }
        [{ name := "F", ret := .void,
           params := [{ name := "x", type := .int32 }] }] []] }

end Sample

namespace Universe

open Sample

theorem descent_named : ParamsNamed (({} : Workspace).loadAll [descent]).1 := by
  intro t m hm p hp
  have hall : ∀ i < (({} : Workspace).loadAll [descent]).1.types.size,
      ∀ m ∈ ((({} : Workspace).loadAll [descent]).1.type ⟨i⟩).methods,
        ∀ p ∈ ((({} : Workspace).loadAll [descent]).1.method m).params,
          p.type.fullName?.isSome := by
    decide +kernel
  exact hall t.index (Workspace.lt_of_mem_methods hm) m hm p hp

theorem searches_end_descent :
    (ofModules (({} : Workspace).loadAll [descent]).1 [⟨0⟩]).SearchesEnd
      (({} : Workspace).loadAll [descent]).1 := by
  exact searches_end (Workspace.tidy_loadAll [descent]) descent_named
    (.of_descends (by decide +kernel))

/-- A module that is read and valid can have types whose bases, or whose
interfaces, come back to them; then no number of steps is enough. -/
theorem circular_never_ends :
    (∃ data, Codec.decodeValid data = .ok circular) ∧
      ∀ n, (circularUniverse.follow circularWorkspace
            (Option.guard (comesTo circularWorkspace "N" "C")) n
              (some ⟨0⟩) = none) ∧
        circularUniverse.followInterfaces circularWorkspace "N" "K" n ⟨2⟩ =
          none := by
  constructor
  · obtain ⟨data, -, hdecode⟩ := Codec.decode_encode_renumbered circular_fits
    have hsame : circular.renumbered = circular := rfl
    refine ⟨data, ?_⟩
    rw [Codec.decodeValid, hdecode, hsame]
    rfl
  · intro n
    constructor
    · refine follow_eq_none (s := [⟨0⟩, ⟨1⟩]) (by decide +kernel) n
        _ (by decide)
    · refine followInterfaces_eq_none (s := [⟨2⟩, ⟨3⟩]) (by decide +kernel) n
        _ (by decide)

end Universe

end JobWeave
