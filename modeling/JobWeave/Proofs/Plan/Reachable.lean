import Mathlib
import JobWeave.Proofs.Plan.Stores
import JobWeave.Proofs.World.Filling

/-!
# The methods that a lambda reaches

The methods that are copied into a job are found by a worklist: the lambda
first, then method by method those that the code found so far calls or takes the
address of.  Methods may call each other and themselves in any way.

* `Workspace.called?` is the method that an instruction adds to the list, and
  `Workspace.Calls` the relation between methods.
* `Explored` is the invariant of the worklist, and `Explored.mem_iff` what it
  comes to at the end.
* `Planning.reachable_explores`: the list ends by itself, since no method is
  taken twice.
-/

namespace JobWeave

open Framework Std.Do

set_option mvcgen.warning false

/-! ## Calls -/

/-- The method is one that is copied along with a lambda on the type: it is
declared there, has an instance and code. -/
structure Workspace.IsHelper (V : Workspace) (owner : TypeId) (n : MethodId) :
    Prop where
  /-- it is declared by the type -/
  owner : (V.methodEntry n).owner = some owner
  /-- it has an instance -/
  hasInstance : (V.method n).isStatic = false
  /-- it has code -/
  hasBody : (V.method n).body.isSome

instance (V : Workspace) (owner : TypeId) (n : MethodId) :
    Decidable (V.IsHelper owner n) :=
  decidable_of_iff ((V.methodEntry n).owner = some owner ∧
    (V.method n).isStatic = false ∧ (V.method n).body.isSome)
      ⟨fun h => ⟨h.1, h.2.1, h.2.2⟩, fun h => ⟨h.1, h.2, h.3⟩⟩

/-- The operation calls a method or takes its address. -/
def Opcode.follows (op : Opcode) : Bool :=
  op == .call || op == .callvirt || op == .ldftn

/-- The method of the type that an instruction calls or takes the address of. -/
def Workspace.called? (V : Workspace) (u : Universe) (owner : TypeId)
    (i : Instr) : Option MethodId :=
  if i.op.follows then
    (i.method?.join.bind fun r => (u.resolveMethod? V r).join).filter
      fun n => decide (V.IsHelper owner n)
  else none

/-- The first method calls the second one or takes its address, and that one is
on the type. -/
def Workspace.Calls (V : Workspace) (u : Universe) (owner : TypeId)
    (m n : MethodId) : Prop :=
  ∃ i ∈ (V.method m).code.code, V.called? u owner i = some n

/-- A method with code is there. -/
theorem Workspace.lt_of_isSome {V : Workspace} {m : MethodId}
    (h : (V.method m).body.isSome) :
    m.index < V.methods.size := by
  obtain ⟨b, hb⟩ := Option.isSome_iff_exists.1 h
  exact lt_of_body hb

/-- A reference that resolves does so to a method that is there. -/
theorem Workspace.Detaches.lt_of_resolve {V : Workspace} {u : Universe}
    {job : TypeId} (h : V.Detaches u job) {r : MethodRef} {n : MethodId}
    (hn : u.resolveMethod? V r = some (some n)) : n.index < V.methods.size := by
  obtain ⟨n', hn', rfl, -⟩ := Universe.exists_of_firstSome?_map (p := id)
    (by simpa [Universe.resolveMethod?] using hn)
  obtain ⟨t, -, hmem⟩ := List.mem_flatMap.1 hn'
  exact h.method_lt t _ hmem

/-- What is said of a method that is there stays while the struct is filled. -/
theorem Workspace.Fills.eq_called? {V w : Workspace} {u : Universe}
    {job owner t : TypeId} (h : V.Fills job w) (hd : V.Detaches u job)
    {i : Instr} {n : MethodId} (hop : i.op.follows = true)
    (hn : some n = i.method?.join.bind fun r => (u.resolveMethod? V r).join)
    (ht : (w.methodEntry n).owner = some t) :
    (if t == owner && !(w.method n).isStatic &&
      (w.method n).body.isSome then some n else none) =
        V.called? u owner i := by
  obtain ⟨r, -, hr⟩ := Option.bind_eq_some_iff.1 hn.symm
  have hlt : n.index < V.methods.size :=
    hd.lt_of_resolve (Option.join_eq_some_iff.1 hr)
  rw [h.old n hlt] at ht
  rw [called?, if_pos hop, ← hn, Option.filter_some, h.method_eq hlt]
  have hiff : (t == owner && !(V.method n).isStatic &&
    (V.method n).body.isSome) =
      decide (V.IsHelper owner n) := by
    rw [Bool.eq_iff_iff, decide_eq_true_iff]
    refine ⟨fun hc => ⟨by simp_all, by simp_all, by simp_all⟩, ?_⟩
    rintro ⟨ho, hs, hb⟩
    simp_all
  rw [hiff]

/-! ## The worklist -/

/-- Of the repetitions in a list the first one is kept. -/
theorem nodup_eraseDups {α : Type} [BEq α] [LawfulBEq α] (xs : List α) :
    xs.eraseDups.Nodup := by
  induction h : xs.length using Nat.strong_induction_on generalizing xs with
  | _ n ih =>
    cases xs with
    | nil => simp
    | cons x xs =>
      -- what is left of the tail is shorter than the list
      have hlt : (xs.filter fun y => !y == x).length < n :=
        h ▸ Nat.lt_succ_of_le (List.length_filter_le _ _)
      rw [List.eraseDups_cons, List.nodup_cons, List.mem_eraseDups]
      exact ⟨by simp, ih _ hlt _ rfl⟩

/-- What was done and what is to do are different methods that are reached from
the root, and what the done ones call is among them. -/
structure Explored (R : MethodId → MethodId → Prop) (root : MethodId)
    (done todo : List MethodId) : Prop where
  /-- the methods are different -/
  nodup : (done ++ todo).Nodup
  /-- the root comes first -/
  first : (done ++ todo).head? = some root
  /-- they are reached -/
  reached : ∀ m ∈ done ++ todo, Relation.ReflTransGen R root m
  /-- what they call is known -/
  closed : ∀ m ∈ done, ∀ n, R m n → n ∈ done ++ todo

namespace Explored

variable {R : MethodId → MethodId → Prop} {root m : MethodId}
  {done todo found : List MethodId}

theorem start (R : MethodId → MethodId → Prop) (root : MethodId) :
    Explored R root [] [root] :=
  ⟨by simp, rfl, by simp [Relation.ReflTransGen.refl], by simp⟩

/-- At the end the methods are those that are reached. -/
theorem mem_iff (h : Explored R root done []) (n : MethodId) :
    n ∈ done ↔ Relation.ReflTransGen R root n := by
  obtain ⟨-, hfirst, hreached, hclosed⟩ := h
  rw [List.append_nil] at hfirst hreached hclosed
  refine ⟨hreached n, fun hn => ?_⟩
  induction hn with
  | refl => exact List.mem_of_mem_head? hfirst
  | tail _ hstep ih => exact hclosed _ ih _ hstep

/-- The new ones among the methods that the next one calls are put at the
end. -/
theorem step (h : Explored R root done (m :: todo))
    (hfound : ∀ n, n ∈ found ↔ R m n) :
    Explored R root (done ++ [m])
      (todo ++ (found.filter fun n => !(done ++ m :: todo).contains
        n).eraseDups) := by
  obtain ⟨hnodup, hfirst, hreached, hclosed⟩ := h
  have hlist : ∀ new, (done ++ [m]) ++ (todo ++ new) = (done ++ m :: todo) ++
    new := by simp
  have hnew : ∀ n, n ∈ (found.filter fun n => !(done ++ m :: todo).contains
    n).eraseDups ↔
      R m n ∧ n ∉ done ++ m :: todo := fun n => by
    rw [List.mem_eraseDups, List.mem_filter, hfound]
    simp
  constructor <;> rw [hlist]
  · refine List.nodup_append.2 ⟨hnodup, nodup_eraseDups _, ?_⟩
    rintro n hn _ hn' rfl
    exact ((hnew n).1 hn').2 hn
  · rw [List.head?_append, hfirst]
    rfl
  · intro n hn
    rcases List.mem_append.1 hn with hn | hn
    · exact hreached n hn
    · exact (hreached m (by simp)).tail ((hnew n).1 hn).1
  · intro k hk n hn
    rw [List.mem_append, or_iff_not_imp_left]
    intro hknown
    refine (hnew n).2 ⟨?_, hknown⟩
    rcases List.mem_append.1 hk with hk | hk
    · exact absurd (hclosed k hk n hn) hknown
    · rwa [List.mem_singleton.1 hk] at hn

/-- The done methods are not more than there are. -/
theorem length_le (h : Explored R root done todo) {size : Nat}
    (hsize : ∀ m ∈ done, m.index < size) :
    done.length ≤ size := by
  have hnodup : (done.map MethodId.index).Nodup := by
    refine (List.nodup_append.1 h.nodup).1.map fun m n hmn => ?_
    cases m
    cases n
    exact congrArg MethodId.mk hmn
  have hsub : done.map MethodId.index ⊆ List.range size := fun n hn => by
    obtain ⟨m, hm, rfl⟩ := List.mem_map.1 hn
    exact List.mem_range.2 (hsize m hm)
  simpa using (List.subperm_of_subset hnodup hsub).length_le

end Explored

/-! ## The code that looks for the methods -/

variable {V : Workspace} {u : Universe} {job : TypeId} {I : Workspace → Prop}
  {O : Outline}

namespace Weave

theorem filterMapM_yields {α β : Type} {J : World → Prop} {xs : List α}
    {f : α → Weave (Option β)} {g : α → Option β}
    (h : ∀ x ∈ xs, Yields J (· = g x) (f x)) :
    Yields J (· = xs.filterMap g) (xs.filterMapM f) := by
  induction xs with
  | nil =>
    simp only [List.filterMapM_nil]
    mvcgen
  | cons x xs ih =>
    have hx := h x (by simp)
    have hxs := ih fun y hy => h y (by simp [hy])
    simp only [List.filterMapM_cons]
    mvcgen [hx, hxs, -filterMapM_preserves, -filterMapM_keeps]
    · rename_i hw
      exact hw.1
    · rename_i hw _ _
      exact fun hw' hrs => ⟨hw', by simp [← hw.2, hrs]⟩
    · rename_i hw
      exact hw.1
    · rename_i hw _ _ hrs
      exact ⟨hrs.1, by simp [← hw.2, hrs.2]⟩

end Weave

namespace Planning

theorem resolve?_finds (hd : V.Detaches u job) {r : Option MethodRef} :
    Weave.Yields (World.Filling V u job I)
      (· = r.bind fun r => (u.resolveMethod? V r).join) (resolve? r) := by
  have hresolve := fun r => Weave.resolveMethod_finds (I := I) hd (r := r)
  unfold resolve?
  mvcgen [hresolve]
  exact fun hw hr => ⟨hw, by simp [hr]⟩

/-- The methods of the type that some code calls are found, as long as the
struct is filled. -/
theorem calledOn_finds (hd : V.Detaches u job) {owner : TypeId}
    {code : List Instr} :
    Weave.Yields (World.Filling V u job I)
      (· = code.filterMap (V.called? u owner)) (calledOn owner code) := by
  have hresolve := fun r => resolve?_finds (I := I) hd (r := r)
  unfold calledOn
  refine Weave.filterMapM_yields fun i _ => ?_
  mvcgen [hresolve, -resolve?_preserves, -resolve?_keeps]
  · rename_i hop _ _ _ _ _ _ hw _ howner
    exact ⟨hw.1, hw.1.holds.fills.eq_called? hd hop hw.2 howner⟩
  · rename_i hw _
    exact hw.1
  · rename_i hw
    exact ⟨hw.1, by simp [Workspace.called?, ← hw.2]⟩
  · rename_i hop _ hw
    exact ⟨hw, by simp [Workspace.called?, Opcode.follows, hop]⟩

/-- The worklist ends by itself, and with the methods that are reached. -/
theorem reachable_explores (hd : V.Detaches u job) {owner : TypeId}
    {root : MethodId} {fuel : Nat} {done todo : List MethodId}
    (hexplored : Explored (V.Calls u owner) root done todo)
    (hdone : ∀ m ∈ done, (V.method m).body.isSome)
    (hfuel : V.methods.size < fuel + done.length) :
    Yields (World.Filling V u job (· = V)) O
      (fun order => Explored (V.Calls u owner) root order [] ∧
        ∀ m ∈ order, (V.method m).body.isSome)
      (reachable owner fuel done todo) := by
  induction fuel generalizing done todo with
  | zero =>
    have hle := hexplored.length_le fun m hm => Workspace.lt_of_isSome
      (hdone m hm)
    omega
  | succ fuel ih =>
    cases todo with
    | nil =>
      mvcgen [reachable, -reachable_preserves, -reachable_keeps]
    | cons m todo =>
      have hcalled : ∀ code, Weave.Yields (World.Filling V u job (· = V))
          (· = code.filterMap (V.called? u owner)) (calledOn owner code) :=
        fun _ => calledOn_finds hd
      have hbody : ∀ {v : Plan} {w : World} {b : Body},
          Sketch (World.Filling V u job (· = V)) O v w →
          (w.workspace.method m).body = some b →
            (V.method m).body = some b := fun h hb => h.world.holds.holds ▸ hb
      mvcgen [reachable, hcalled, ih, -reachable_preserves, -reachable_keeps,
        -calledOn_preserves, -calledOn_keeps]
      · infer_instance
      · rename_i h _ _
        exact h.world
      · rename_i h _ _ _ _ _ _ hw
        exact ⟨hw.1, h.plan⟩
      · rename_i h b hb _ _ _
        rintro _ - rfl
        refine hexplored.step fun n => ?_
        rw [List.mem_filterMap, Workspace.Calls, Workspace.code_eq (hbody h hb)]
      · rename_i h b hb _ _ _
        intro _ _ _
        simp only [List.mem_append, List.mem_singleton]
        rintro k (hk | rfl)
        · exact hdone k hk
        · rw [hbody h hb, Option.isSome_some]
      · intros
        rw [List.length_append, List.length_singleton]
        omega
      · rename_i h _
        exact h.world

end Planning

end JobWeave
