import Mathlib
import JobWeave.Plan.Markers
import JobWeave.Proofs.World.Planning

/-!
# The search for a marker

A search for a marker looks at a type, then at the types of its instance fields
with the arguments of the type put in, and so on.  It remembers the names of the
types it looked at.

* `Workspace.Reaches` says which types a search may come to, and
  `Workspace.Bears` which of them have the marker.
* `Workspace.SearchSteps` is one step (`Planning.searchStep_shows`), and
  `Workspace.Explores` is what every step keeps (`Workspace.Explores.step`).
* `Planning.carriesMarker_decides`: an answer is right where names tell the
  types apart (`Workspace.NamesApart`), and the search comes to one if the types
  have finitely many names.
* `Planning.search_endless`: it comes to none if they have infinitely many and
  none is marked.
* `Planning.carriesMarker_clash`: a marker that is missed, and a search without
  an answer.
-/

namespace JobWeave

open Framework Std.Do Planning

set_option mvcgen.warning false

variable {V : Workspace} {u : Universe} {marker name : String}
  {s t t₀ : TypeRef}
variable {σ σ' : MarkerSearch} {r : Bool ⊕ MarkerSearch}

namespace Workspace

/-! ## Types and their fields -/

/-- A value of the one type holds a value of the other: in an instance field,
with the arguments put in. -/
def Holds (V : Workspace) (u : Universe) (t s : TypeRef) : Prop :=
  Planning.isSearched t ∧ ∃ id, u.resolve? t = some id ∧
    ∃ f ∈ (V.type id).head.fields, f.isStatic = false ∧
    f.type.substitute? t.args [] = some s

/-- A search that starts at the one type may come to the other. -/
def Reaches (V : Workspace) (u : Universe) : TypeRef → TypeRef → Prop :=
  Relation.ReflTransGen (V.Holds u)

/-- The definition of the type has the marker. -/
def Bears (V : Workspace) (u : Universe) (marker : String)
    (t : TypeRef) : Prop :=
  Planning.isSearched t ∧ ∃ id, u.resolve? t = some id ∧
    Attribute.hasName? (V.type id).head.attributes marker = some true

/-- What a search needs to know of a type is there. -/
def Tells (V : Workspace) (u : Universe) (marker : String)
    (t : TypeRef) : Prop :=
  Planning.isSearched t → t.fullName?.isSome ∧ ∀ id, u.resolve? t = some id →
    (Attribute.hasName? (V.type id).head.attributes marker).isSome ∧
    ∀ f ∈ (V.type id).head.fields, f.isStatic = false →
    (f.type.substitute? t.args []).isSome

/-- The names of the types that a search may look at. -/
def reachedNames (V : Workspace) (u : Universe) (t₀ : TypeRef) : Set String :=
  {name | ∃ t, V.Reaches u t₀ t ∧ Planning.isSearched t ∧
    t.fullName? = some name}

/-- Types of one name that a search may look at have the same definition and
arguments. -/
def NamesApart (V : Workspace) (u : Universe) (t₀ : TypeRef) : Prop :=
  ∀ s t, V.Reaches u t₀ s → V.Reaches u t₀ t → Planning.isSearched s →
    Planning.isSearched t → s.fullName? = t.fullName? →
    u.resolve? s = u.resolve? t ∧ s.args = t.args

theorem Holds.congr {s' : TypeRef} (h : V.Holds u s s')
    (ht : Planning.isSearched t)
    (hsame : u.resolve? s = u.resolve? t ∧ s.args = t.args) :
    V.Holds u t s' := by
  obtain ⟨-, id, hid, f, hf, hstatic, hs'⟩ := h
  exact ⟨ht, id, hsame.1 ▸ hid, f, hf, hstatic, hsame.2 ▸ hs'⟩

theorem Bears.congr (h : V.Bears u marker s) (ht : Planning.isSearched t)
    (hsame : u.resolve? s = u.resolve? t) : V.Bears u marker t := by
  obtain ⟨-, id, hid, hmarked⟩ := h
  exact ⟨ht, id, hsame ▸ hid, hmarked⟩

/-! ## One step -/

/-- What one step of a search comes to. -/
inductive SearchSteps (V : Workspace) (u : Universe) (marker : String) :
    MarkerSearch → Bool ⊕ MarkerSearch → Prop where
  /-- nothing is left -/
  | done {seen : List String} : SearchSteps V u marker ⟨seen, []⟩ (.inl false)
  /-- a type that is not looked at, or was before -/
  | skip {seen : List String} {t : TypeRef} {rest : List TypeRef}
    (h : Planning.isSearched t = false ∨ ∃ name ∈ seen,
      t.fullName? = some name) :
    SearchSteps V u marker ⟨seen, t :: rest⟩ (.inr ⟨seen, rest⟩)
  /-- a type with the marker -/
  | found {seen : List String} {t : TypeRef} {rest : List TypeRef}
    (h : V.Bears u marker t) :
    SearchSteps V u marker ⟨seen, t :: rest⟩ (.inl true)
  /-- a type without it -/
  | visit {seen : List String} {t : TypeRef} {name : String}
    {inner rest : List TypeRef} (hsearched : Planning.isSearched t)
      (hname : t.fullName? = some name) (hnew : name ∉ seen)
    (h : ¬ V.Bears u marker t) (hinner : ∀ s, s ∈ inner ↔ V.Holds u t s) :
    SearchSteps V u marker ⟨seen, t :: rest⟩
      (.inr ⟨name :: seen, inner ++ rest⟩)

/-! ## What every step keeps -/

/-- The search will look at the type, or need not. -/
def Covers (σ : MarkerSearch) (t : TypeRef) : Prop :=
  t ∈ σ.left ∨ Planning.isSearched t = false ∨ ∃ name ∈ σ.seen,
    t.fullName? = some name

/-- The search started at a type and has found no marker so far. -/
structure Explores (V : Workspace) (u : Universe) (marker : String)
    (t₀ : TypeRef) (σ : MarkerSearch) : Prop where
  /-- what is left can be reached -/
  left : ∀ t ∈ σ.left, V.Reaches u t₀ t
  /-- the start -/
  start : Covers σ t₀
  /-- what was looked at is not marked, and the search goes on from it -/
  seen : ∀ name ∈ σ.seen, ∃ t, V.Reaches u t₀ t ∧ Planning.isSearched t ∧
    t.fullName? = some name ∧ ¬ V.Bears u marker t ∧ ∀ s, V.Holds u t s →
    Covers σ s

theorem Explores.begin (t : TypeRef) : V.Explores u marker t { left := [t] } :=
  ⟨fun _ hs => List.mem_singleton.1 hs ▸ .refl,
    .inl (List.mem_singleton_self t), nofun⟩

/-- A step that goes on keeps it. -/
theorem Explores.step (h : V.Explores u marker t₀ σ)
    (hstep : V.SearchSteps u marker σ (.inr σ')) :
    V.Explores u marker t₀ σ' := by
  cases hstep with
  | @skip seen t rest hskip =>
    have hcovers : ∀ {s}, Covers ⟨seen, t :: rest⟩ s →
        Covers ⟨seen, rest⟩ s := by
      rintro s (hs | hs)
      · rcases List.mem_cons.1 hs with rfl | hs
        · exact .inr hskip
        · exact .inl hs
      · exact .inr hs
    refine ⟨fun s hs => h.left s (List.mem_cons_of_mem _ hs), hcovers h.start,
      fun n hn => ?_⟩
    obtain ⟨t, ht, hsearched, hname, hnot, hinner⟩ := h.seen n hn
    exact ⟨t, ht, hsearched, hname, hnot, fun s hs => hcovers (hinner s hs)⟩
  | @visit seen t name inner rest hsearched hname hnew hnot hinner =>
    have ht := h.left t (by simp)
    have hcovers : ∀ {s}, Covers ⟨seen, t :: rest⟩ s →
        Covers ⟨name :: seen, inner ++ rest⟩ s := by
      rintro s (hs | hs | ⟨n, hn, hs⟩)
      · rcases List.mem_cons.1 hs with rfl | hs
        · exact .inr (.inr ⟨name, by simp, hname⟩)
        · exact .inl (List.mem_append_right _ hs)
      · exact .inr (.inl hs)
      · exact .inr (.inr ⟨n, List.mem_cons_of_mem _ hn, hs⟩)
    refine ⟨fun s hs => ?_, hcovers h.start, fun n hn => ?_⟩
    · rcases List.mem_append.1 hs with hs | hs
      · exact ht.tail ((hinner s).1 hs)
      · exact h.left s (List.mem_cons_of_mem _ hs)
    · rcases List.mem_cons.1 hn with rfl | hn
      · exact ⟨t, ht, hsearched, hname, hnot,
          fun s hs => .inl (List.mem_append_left _ ((hinner s).2 hs))⟩
      · obtain ⟨t', ht', hsearched', hname', hnot', hinner'⟩ := h.seen n hn
        exact ⟨t', ht', hsearched', hname', hnot',
          fun s hs => hcovers (hinner' s hs)⟩

/-- When nothing is left, everything that can be reached was looked at. -/
theorem Explores.covers (h : V.Explores u marker t₀ σ)
    (hapart : V.NamesApart u t₀) (hleft : σ.left = []) (hs : V.Reaches u t₀ s) :
    Covers σ s := by
  induction hs with
  | refl => exact h.start
  | @tail s s' hs hstep ih =>
    rcases ih with hmem | hnot | ⟨name, hseen, hname⟩
    · simp [hleft] at hmem
    · simp [hstep.1] at hnot
    · obtain ⟨t, ht, hsearched, hname', -, hinner⟩ := h.seen name hseen
      refine hinner s' (hstep.congr hsearched ?_)
      exact hapart s t hs ht hstep.1 hsearched (hname.trans hname'.symm)

/-- Then none of it is marked. -/
theorem Explores.not_bears (h : V.Explores u marker t₀ σ)
    (hapart : V.NamesApart u t₀) (hleft : σ.left = []) (hs : V.Reaches u t₀ s) :
    ¬ V.Bears u marker s := by
  intro hmarked
  rcases h.covers hapart hleft hs with hmem | hnot | ⟨name, hseen, hname⟩
  · simp [hleft] at hmem
  · simp [hmarked.1] at hnot
  · obtain ⟨t, ht, hsearched, hname', hnot, -⟩ := h.seen name hseen
    have hsame := hapart s t hs ht hmarked.1 hsearched (hname.trans hname'.symm)
    exact hnot (hmarked.congr hsearched hsame.1)

/-- Then the names are those of the types that were looked at. -/
theorem Explores.reachedNames_subset (h : V.Explores u marker t₀ σ)
    (hapart : V.NamesApart u t₀) (hleft : σ.left = []) :
    V.reachedNames u t₀ ⊆ {name | name ∈ σ.seen} := by
  rintro name ⟨t, ht, hsearched, hname⟩
  rcases h.covers hapart hleft ht with hmem | hnot | ⟨name', hseen, hname'⟩
  · simp [hleft] at hmem
  · simp [hsearched] at hnot
  · rw [hname, Option.some_inj] at hname'
    exact hname' ▸ hseen

/-- An answer of a step. -/
theorem Explores.answer {b : Bool} (h : V.Explores u marker t₀ σ)
    (hapart : V.NamesApart u t₀) (hstep : V.SearchSteps u marker σ (.inl b)) :
    b = true ↔ ∃ s, V.Reaches u t₀ s ∧ V.Bears u marker s := by
  cases hstep with
  | done =>
    refine ⟨nofun, ?_⟩
    rintro ⟨s, hs, hmarked⟩
    exact absurd hmarked (h.not_bears hapart rfl hs)
  | @found seen t rest hmarked =>
    exact ⟨fun _ => ⟨t, h.left t (by simp), hmarked⟩, fun _ => rfl⟩

end Workspace

namespace Planning

open Weave

variable {w w₁ : World} {n : Nat}

/-! ## Runs of a search -/

theorem mem_iff_of_forall₂ {α β : Type} {g : α → Option β} {as : List α}
    {bs : List β} {b : β} (h : List.Forall₂ (fun a b => g a = some b) as bs) :
    b ∈ bs ↔ ∃ a ∈ as, g a = some b := by
  induction h with
  | nil => simp
  | cons hab _ ih => simp [ih, hab, eq_comm]

/-- A step gives a result unless something cannot be told of a type that is
left. -/
theorem searchStep_shows :
    ⦃fun w => ⌜w.Shows V u⌝⦄ searchStep marker σ
      ⦃post⟨fun r w => ⌜w.Shows V u ∧ V.SearchSteps u marker σ r⌝,
        fun _ _ => ⌜∃ t ∈ σ.left, ¬ V.Tells u marker t⌝⟩⦄ := by
  have hresolver := resolver_shows (V := V) (u := u)
  have hinner : ∀ (fs : List FieldDef) (as : List TypeRef),
      ⦃fun w => ⌜w.Shows V u⌝⦄
        (fs.mapM fun f => (need (f.type.substitute? as []) : Weave TypeRef))
      ⦃post⟨fun ts w => ⌜w.Shows V u ∧
          List.Forall₂ (fun f t => f.type.substitute? as [] = some t) fs ts⌝,
        fun _ _ => ⌜∃ f ∈ fs, f.type.substitute? as [] = none⌝⟩⦄ := by
    intro fs as
    refine mapM_inv fun f hf => Ends.triple fun w hw => ?_
    unfold need
    split
    · exact Ends.of_run rfl ⟨hw, ‹_›⟩
    · exact ⟨f, hf, ‹_›⟩
  unfold need fault at hinner
  obtain ⟨seen, left⟩ := σ
  mvcgen [searchStep, hresolver, hinner, -searchStep_keeps,
    -searchStep_preserves, -resolver_keeps, -resolver_preserves,
    -Weave.mapM_keeps, -Weave.mapM_preserves]
  case vc1 => exact ⟨‹_›, .done⟩
  case vc2 => exact ⟨‹_›, .skip (.inl (by simp_all))⟩
  case vc3 =>
    rename_i name hname hseen
    exact ⟨‹_›, .skip (.inr ⟨name, by simpa using hseen, hname⟩)⟩
  case vc5 =>
    -- what does not resolve has no fields
    rename_i t rest _ hsearched _ _ name hname hnew seen' r _ hw hid
    obtain ⟨hw, rfl⟩ := hw
    have hvisit : V.SearchSteps r marker ⟨seen, t :: rest⟩
        (.inr ⟨name :: seen, [] ++ rest⟩) := by
      refine .visit (by simpa using hsearched) hname (by simpa using hnew) ?_
          fun s =>
        ⟨fun hs => absurd hs List.not_mem_nil, ?_⟩
      · rintro ⟨-, id, hid', -⟩
        simp [hid] at hid'
      · rintro ⟨-, id, hid', -⟩
        simp [hid] at hid'
    exact ⟨hw, hvisit⟩
  case vc6 =>
    rename_i t rest _ hsearched _ _ name hname hnew seen' r _ hw id hid found
      hmarked hfound
    obtain ⟨hw, rfl⟩ := hw
    rw [hw.workspace, hfound] at hmarked
    exact ⟨hw, .found ⟨by simpa using hsearched, id, hid, hmarked⟩⟩
  case vc7 => exact And.left ‹_›
  case vc8 =>
    rename_i t rest _ hsearched _ _ name hname hnew seen' r _ hw id hid found
      hmarked hfound inner _ hinner
    obtain ⟨hw, rfl⟩ := hw
    obtain ⟨hw', hinner⟩ := hinner
    rw [hw.workspace] at hmarked hinner
    have hsearched : isSearched t = true := by simpa using hsearched
    refine ⟨hw', .visit hsearched hname (by simpa using hnew) ?_ fun s => ?_⟩
    · rintro ⟨-, id', hid', hmarked'⟩
      rw [hid, Option.some_inj] at hid'
      rw [← hid', hmarked, Option.some_inj] at hmarked'
      exact hfound hmarked'
    · rw [List.mem_reverse, mem_iff_of_forall₂ hinner, Workspace.Holds]
      simp [hid, hsearched, and_assoc]
  case vc9 =>
    rename_i t rest _ hsearched _ _ name hname hnew seen' r _ hw id hid found
      hmarked hfound _ _
    obtain ⟨hw, rfl⟩ := hw
    rw [hw.workspace]
    rintro ⟨f, hf, hnone⟩
    refine ⟨t, by simp, fun htells => ?_⟩
    obtain ⟨hmem, hstatic⟩ := List.mem_filter.1 hf
    have hsome := ((htells (by simpa using hsearched)).2 id hid).2 f hmem
      (by simpa using hstatic)
    simp [hnone] at hsome
  case vc10 =>
    rename_i t rest _ hsearched _ _ name hname hnew seen' r _ hw id hid hmarked
    obtain ⟨hw, rfl⟩ := hw
    rw [hw.workspace] at hmarked
    refine ⟨t, by simp, fun htells => ?_⟩
    have hsome := ((htells (by simpa using hsearched)).2 id hid).1
    simp [hmarked] at hsome
  case vc11 =>
    rename_i t rest _ hsearched _ _ hname
    refine ⟨t, by simp, fun htells => ?_⟩
    have hsome := (htells (by simpa using hsearched)).1
    simp [hname] at hsome

theorem searchUpTo_of_answer {b : Bool}
    (h : searchStep marker σ w = .ok (.inl b) w₁) :
    searchUpTo marker (n + 1) σ w = .ok (some b) w₁ := by
  simp only [searchUpTo, bind, EStateM.bind, h]
  rfl

theorem searchUpTo_of_step (h : searchStep marker σ w = .ok (.inr σ') w₁) :
    searchUpTo marker (n + 1) σ w = searchUpTo marker n σ' w₁ := by
  simp only [searchUpTo, bind, EStateM.bind, h]

/-- An answer is right where names tell the types apart, and it is no only if
there are finitely many of them. -/
theorem searchUpTo_shows (h : V.Explores u marker t₀ σ)
    (hapart : V.NamesApart u t₀) :
    ⦃fun w => ⌜w.Shows V u⌝⦄ searchUpTo marker n σ
      ⦃post⟨fun o w => ⌜w.Shows V u ∧ ∀ b, o = some b →
          (b = true ↔ ∃ s, V.Reaches u t₀ s ∧ V.Bears u marker s) ∧
          (b = false → (V.reachedNames u t₀).Finite)⌝,
        fun _ _ => ⌜∃ t, V.Reaches u t₀ t ∧ ¬ V.Tells u marker t⌝⟩⦄ := by
  induction n generalizing σ with
  | zero =>
    unfold searchUpTo
    mvcgen
    refine ⟨‹_›, ?_⟩
    rintro b ⟨⟩
  | succ n ih =>
    refine Ends.triple fun w hw => ?_
    unfold searchUpTo
    refine Ends.bind ((Ends.of_triple searchStep_shows hw).imp ?_ ?_)
    · rintro (b | σ') w₁ ⟨hw₁, hstep⟩
      · refine Ends.of_run rfl ⟨hw₁, ?_⟩
        rintro _ ⟨⟩
        refine ⟨h.answer hapart hstep, ?_⟩
        rintro rfl
        cases hstep
        exact (List.finite_toSet _).subset (h.reachedNames_subset hapart rfl)
      · exact Ends.of_triple (ih (h.step hstep)) hw₁
    · rintro e w₁ ⟨t, ht, hnot⟩
      exact ⟨t, h.left t ht, hnot⟩

/-- A step gives a result where everything can be told. -/
theorem searchStep_run (htells : ∀ t ∈ σ.left, V.Tells u marker t)
    (hw : w.Shows V u) :
    ∃ r w₁, searchStep marker σ w = .ok r w₁ ∧ w₁.Shows V u ∧
    V.SearchSteps u marker σ r := by
  have hstep : Ends (searchStep marker σ) w _ _ :=
    Ends.of_triple searchStep_shows hw
  unfold Ends at hstep
  cases hrun : searchStep marker σ w with
  | ok r w₁ =>
    rw [hrun] at hstep
    exact ⟨r, w₁, rfl, hstep⟩
  | error e w₁ =>
    rw [hrun] at hstep
    obtain ⟨t, ht, hnot⟩ := hstep
    exact absurd (htells t ht) hnot

/-- A search through types with finitely many names comes to an answer: a visit
leaves fewer names, and a step without one leaves fewer types. -/
theorem searchUpTo_ends (h : V.Explores u marker t₀ σ)
    (htells : ∀ t, V.Reaches u t₀ t → V.Tells u marker t)
    (hfin : (V.reachedNames u t₀).Finite) (hw : w.Shows V u) :
    ∃ n b w', searchUpTo marker n σ w = .ok (some b) w' := by
  induction hk : (V.reachedNames u t₀ \ {name | name ∈ σ.seen}).ncard
    using Nat.strong_induction_on generalizing σ w with
  | h k ih =>
    obtain ⟨seen, left⟩ := σ
    induction left generalizing w with
    | nil =>
      obtain ⟨r, w₁, hrun, hw₁, hstep⟩ :=
        searchStep_run (fun t ht => htells t (h.left t ht)) hw
      cases hstep
      exact ⟨1, false, w₁, searchUpTo_of_answer hrun⟩
    | cons t rest ihrest =>
      obtain ⟨r, w₁, hrun, hw₁, hstep⟩ :=
        searchStep_run (fun t ht => htells t (h.left t ht)) hw
      have hgo : ∀ {σ'}, r = .inr σ' →
        (∃ n b w', searchUpTo marker n σ' w₁ = .ok (some b) w') →
          ∃ n b w', searchUpTo marker n ⟨seen, t :: rest⟩ w = .ok (some b)
            w' := by
        rintro σ' rfl ⟨n, b, w', hrest⟩
        exact ⟨n + 1, b, w', (searchUpTo_of_step hrun).trans hrest⟩
      cases hstep with
      | found => exact ⟨1, true, w₁, searchUpTo_of_answer hrun⟩
      | skip hskip => exact hgo rfl (ihrest hw₁ (h.step (.skip hskip)) hk)
      | visit hsearched hname hnew hnot hinner =>
        refine hgo
          rfl (ih _ ?_ (h.step (.visit hsearched hname hnew hnot hinner))
            hw₁ rfl)
        rw [← hk]
        refine Set.ncard_lt_ncard ⟨fun n hn => ?_, fun hsub => ?_⟩
          (hfin.subset Set.sdiff_subset)
        · exact ⟨hn.1, fun hmem => hn.2 (List.mem_cons_of_mem _ hmem)⟩
        · have hmem := hsub ⟨⟨t, h.left t (by simp), hsearched, hname⟩, hnew⟩
          exact hmem.2 (List.mem_cons_self ..)

/-! ## What the answers are -/

/-- Where names tell the types apart that the search may look at, its answer is
whether one of them has the marker.  It comes to that answer if the types have
finitely many names. -/
theorem carriesMarker_decides (w : World) (t : TypeRef) (marker : String)
    (hapart : w.workspace.NamesApart (w.resolver.refresh w.workspace) t) :
    (∀ b w', carriesMarker t marker w = .ok b w' →
      (b = true ↔ ∃ s,
        w.workspace.Reaches (w.resolver.refresh w.workspace) t s ∧
        w.workspace.Bears (w.resolver.refresh w.workspace) marker s)) ∧
    ((∀ s, w.workspace.Reaches (w.resolver.refresh w.workspace) t s →
        w.workspace.Tells (w.resolver.refresh w.workspace) marker s) →
      (w.workspace.reachedNames (w.resolver.refresh w.workspace) t).Finite →
      ∃ n b w', searchUpTo marker n { left := [t] } w = .ok (some b) w' ∧
        (b = true ↔ ∃ s,
          w.workspace.Reaches (w.resolver.refresh w.workspace) t s ∧
          w.workspace.Bears (w.resolver.refresh w.workspace) marker s)) := by
  have hbegin : w.workspace.Explores (w.resolver.refresh w.workspace) marker t
      { left := [t] } :=
    Workspace.Explores.begin t
  have hanswer : ∀ {n b w'}, searchUpTo marker n { left := [t] } w =
    .ok (some b) w' →
      (b = true ↔ ∃ s, w.workspace.Reaches (w.resolver.refresh w.workspace)
        t s ∧ w.workspace.Bears (w.resolver.refresh w.workspace) marker s) := by
    intro n b w' hrun
    have hends := Ends.of_triple (searchUpTo_shows (n := n) hbegin hapart)
      ⟨rfl, rfl⟩
    rw [Ends, hrun] at hends
    exact (hends.2 b rfl).1
  constructor
  · intro b w' hrun
    simp only [carriesMarker, bind, EStateM.bind] at hrun
    cases hsearch : searchUpTo marker searchLimit { left := [t] } w with
    | error e w₁ =>
      rw [hsearch] at hrun
      cases hrun
    | ok o w₁ =>
      rw [hsearch] at hrun
      cases o with
      | none => cases hrun
      | some b' =>
        cases hrun
        exact hanswer hsearch
  · intro htells hfin
    obtain ⟨n, b, w', hrun⟩ := searchUpTo_ends hbegin htells hfin ⟨rfl, rfl⟩
    exact ⟨n, b, w', hrun, hanswer hrun⟩

/-- A search through types with infinitely many names, none of which has the
marker, comes to no answer. -/
theorem search_endless (w : World) (t : TypeRef) (marker : String)
    (hapart : w.workspace.NamesApart (w.resolver.refresh w.workspace) t)
    (htells : ∀ s, w.workspace.Reaches (w.resolver.refresh w.workspace) t s →
      w.workspace.Tells (w.resolver.refresh w.workspace) marker s)
    (hinf : (w.workspace.reachedNames (w.resolver.refresh w.workspace)
      t).Infinite)
    (hnone : ∀ s, w.workspace.Reaches (w.resolver.refresh w.workspace) t s →
      ¬ w.workspace.Bears (w.resolver.refresh w.workspace) marker s) (n : Nat) :
    ∃ w', searchUpTo marker n { left := [t] } w = .ok none w' := by
  have hends : Ends (searchUpTo marker n { left := [t] }) w _ _ :=
    Ends.of_triple (searchUpTo_shows (Workspace.Explores.begin t) hapart)
      ⟨rfl, rfl⟩
  unfold Ends at hends
  cases hrun : searchUpTo marker n { left := [t] } w with
  | error e w' =>
    rw [hrun] at hends
    obtain ⟨s, hs, hnot⟩ := hends
    exact absurd (htells s hs) hnot
  | ok o w' =>
    rw [hrun] at hends
    cases o with
    | none => exact ⟨w', rfl⟩
    | some b =>
      obtain ⟨hiff, hfinite⟩ := hends.2 b rfl
      cases b with
      | false => exact absurd (hfinite rfl) hinf
      | true =>
        obtain ⟨s, hs, hmarked⟩ := hiff.1 rfl
        exact absurd hmarked (hnone s hs)

/-! ## Types of one name -/

/-- A type with a marker. -/
def markedType : TypeRef :=
  .ofName "" "Marked" false

/-- A type with two parameters that holds a value of the second one. -/
def pairType : List TypeRef → TypeRef :=
  (TypeRef.ofName "" "G" false).withArgs

/-- The instance that holds the marker. -/
def markedPair : TypeRef :=
  pairType [.ofName "" "A" false, markedType]

/-- A module with these types.  The root holds two values whose types have one
name: `G<A,Marked>` with two arguments, and with one whose name has a comma. -/
def clashModule : Module where
  name := "Clash"
  types :=
    [.mk { name := "Marked", base := .object,
           attributes := [{ type := .ofName "" "Marker" false }] }
      [] [],
    .mk { name := "G", base := .object, genericParams := ["T0", "T1"],
          fields := [{ name := "inner", type := .typeParam 1 }] } [] [],
    .mk { name := "Root", base := .object,
          fields := [{ name := "y", type := markedPair },
            { name := "x", type := pairType [.ofName "" "A,Marked" false] }]
              } [] []]

theorem markedPair_holds :
    let w := (World.ofModules [clashModule]).1
    w.workspace.Holds (w.resolver.refresh w.workspace) markedPair markedType :=
  ⟨by decide, ⟨1⟩, by decide +kernel, { name := "inner", type := .typeParam 1 },
    List.mem_cons_self .., by decide, rfl⟩

theorem markedType_bears :
    let w := (World.ofModules [clashModule]).1
    w.workspace.Bears (w.resolver.refresh w.workspace) "Marker" markedType :=
  ⟨by decide, ⟨0⟩, by decide +kernel, by decide +kernel⟩

/-- The search through the one instance finds the marker. -/
theorem carriesMarker_pair :
    let w := (World.ofModules [clashModule]).1
    let u := w.resolver.refresh w.workspace
    w.workspace.NamesApart u markedPair ∧
    (w.workspace.reachedNames u markedPair).Finite ∧
      ∃ n w', searchUpTo "Marker" n { left := [markedPair] } w = .ok (some true)
        w' := by
  intro w u
  have hpair : u.resolve? markedPair = some ⟨1⟩ := by decide +kernel
  have hmarked : u.resolve? markedType = some ⟨0⟩ := by decide +kernel
  have hreaches : ∀ s, w.workspace.Reaches u markedPair s → s = markedPair ∨
      s = markedType := by
    intro s hs
    induction hs with
    | refl => exact .inl rfl
    | tail _ hstep ih =>
      obtain ⟨-, id, hid, f, hf, -, hs⟩ := hstep
      rcases ih with rfl | rfl
      · rw [hpair, Option.some_inj] at hid
        subst hid
        obtain rfl := List.mem_singleton.1 hf
        exact .inr (Option.some_inj.1 hs).symm
      · rw [hmarked, Option.some_inj] at hid
        subst hid
        cases hf
  have hapart : w.workspace.NamesApart u markedPair := by
    intro s t hs ht _ _ he
    rcases hreaches s hs with rfl | rfl <;> rcases hreaches t ht with rfl | rfl
    · exact ⟨rfl, rfl⟩
    · exact absurd he (by decide)
    · exact absurd he (by decide)
    · exact ⟨rfl, rfl⟩
  have htells : ∀ s, w.workspace.Reaches u markedPair s →
      w.workspace.Tells u "Marker" s := by
    intro s hs _
    rcases hreaches s hs with rfl | rfl
    · refine ⟨by decide, fun id hid => ?_⟩
      rw [hpair, Option.some_inj] at hid
      subst hid
      refine ⟨by decide +kernel, fun f hf _ => ?_⟩
      obtain rfl := List.mem_singleton.1 hf
      decide
    · refine ⟨by decide, fun id hid => ?_⟩
      rw [hmarked, Option.some_inj] at hid
      subst hid
      exact ⟨by decide +kernel, fun f hf => absurd hf List.not_mem_nil⟩
  have hfin : (w.workspace.reachedNames u markedPair).Finite := by
    refine (Set.toFinite {"G<A,Marked>", "Marked"}).subset ?_
    rintro name ⟨s, hs, -, hname⟩
    rcases hreaches s hs with rfl | rfl
    · exact .inl (Option.some_inj.1 (hname.symm.trans (by decide)))
    · exact .inr (Option.some_inj.1 (hname.symm.trans (by decide)))
  obtain ⟨n, b, w', hrun, hb⟩ :=
    (carriesMarker_decides w markedPair "Marker" hapart).2 htells hfin
  obtain rfl := hb.2 ⟨markedType, .single markedPair_holds, markedType_bears⟩
  exact ⟨hapart, hfin, n, w', hrun⟩

/-- The search looks at the type without the marker first, and takes the other
one for the same. -/
theorem search_clash :
    let w := (World.ofModules [clashModule]).1
    let u := w.resolver.refresh w.workspace
    let root : TypeRef := .ofName "" "Root" false
    (∃ w', carriesMarker root "Marker" w = .ok false w') ∧
      ∃ s, w.workspace.Reaches u root s ∧ w.workspace.Bears u "Marker" s := by
  intro w u root
  have hrun : delivers (carriesMarker root "Marker") w (fun b _ => !b) =
      true := by
    decide +kernel
  obtain ⟨b, w', hrun, hb⟩ := exists_of_delivers hrun
  obtain rfl : b = false := by simpa using hb
  have hroot : w.workspace.Holds u root markedPair :=
    ⟨by decide, ⟨2⟩, by decide +kernel, { name := "y", type := markedPair },
      List.mem_cons_self .., by decide, rfl⟩
  exact ⟨⟨w', hrun⟩, markedType, (Relation.ReflTransGen.single hroot).tail
    markedPair_holds, markedType_bears⟩

/-! ## Types without end -/

/-- The node with an argument. -/
def node (t : TypeRef) : TypeRef :=
  .named "" "Node" false .absent [t]

/-- A class of nodes, each of which refers to a node with another argument. -/
def nodeHead : TypeHead where
  name := "Node"
  base := .object
  genericParams := ["T"]
  fields := [{ name := "next", type := node (node (.typeParam 0)) }]

/-- Its module. -/
def nodeModule : Module where
  name := "Nodes"
  types := [.mk nodeHead [] []]

/-- The nodes that a search comes to. -/
def nodes : Nat → TypeRef
  | 0 => node .int32
  | n + 1 => node (nodes n)

theorem exists_nodes (k : Nat) :
    ∃ t, nodes k = node t ∧ nodes (k + 1) = node (node t) := by
  cases k with
  | zero => exact ⟨.int32, rfl, rfl⟩
  | succ k => exact ⟨nodes k, rfl, rfl⟩

/-- Every node has a name that is longer than the one before. -/
theorem fullName?_nodes (k : Nat) :
    ∃ name, (nodes k).fullName? = some name ∧ name.length = 6 * k + 18 := by
  induction k with
  | zero => exact ⟨"Node<System.Int32>", by decide, by decide⟩
  | succ k ih =>
    obtain ⟨name, hname, hlength⟩ := ih
    refine ⟨"Node" ++ "<" ++ name ++ ">", ?_, ?_⟩
    · have hname : (nodes k).name? = some name := by
        obtain ⟨t, ht, -⟩ := exists_nodes k
        rw [ht] at hname ⊢
        exact hname
      change (node (nodes k)).name? = _
      simp [node, TypeRef.name?, TypeRef.names?, hname, TypeRef.openName]
    · have hfixed : ("Node" ++ "<").length = 5 ∧ ">".length = 1 := by decide
      rw [String.length_append, String.length_append, hlength, hfixed.1,
        hfixed.2]
      omega

/-- The search through nodes comes to no answer. -/
theorem search_nodes (n : Nat) :
    ∃ w', searchUpTo "Marker" n { left := [nodes 0] }
      (World.ofModules [nodeModule]).1 = .ok none w' := by
  set w := (World.ofModules [nodeModule]).1 with hw
  set u := w.resolver.refresh w.workspace with hu
  have hfind : u.find? "Node" = some ⟨0⟩ := by decide +kernel
  have hresolve : ∀ t, u.resolve? (node t) = some ⟨0⟩ := fun t => hfind
  have hhead : (w.workspace.type ⟨0⟩).head = nodeHead := rfl
  have hholds : ∀ t s, w.workspace.Holds u (node t) s ↔ s = node (node t) := by
    intro t s
    have hinner : (node (node (.typeParam 0))).substitute? (node t).args [] =
        some (node (node t)) := rfl
    simp only [Workspace.Holds, hresolve, Option.some_inj,
      exists_eq_left', hhead]
    constructor
    · rintro ⟨-, f, hf, -, hs⟩
      obtain rfl := List.mem_singleton.1 hf
      exact Option.some_inj.1 (hs.symm.trans hinner)
    · rintro rfl
      exact ⟨rfl, _, List.mem_singleton_self _, by decide, hinner⟩
  have hreaches : ∀ s, w.workspace.Reaches u (nodes 0) s ↔ ∃ k,
      s = nodes k := by
    intro s
    constructor
    · intro hs
      induction hs with
      | refl => exact ⟨0, rfl⟩
      | tail _ hstep ih =>
        obtain ⟨k, rfl⟩ := ih
        obtain ⟨t, ht, hnext⟩ := exists_nodes k
        rw [ht, hholds] at hstep
        exact ⟨k + 1, hstep.trans hnext.symm⟩
    · rintro ⟨k, rfl⟩
      induction k with
      | zero => exact .refl
      | succ k ih =>
        obtain ⟨t, ht, hnext⟩ := exists_nodes k
        refine ih.tail ?_
        rw [ht, hholds, hnext]
  have hinj : ∀ j k, (nodes j).fullName? = (nodes k).fullName? → j = k := by
    intro j k he
    obtain ⟨name, hname, hlength⟩ := fullName?_nodes j
    obtain ⟨name', hname', hlength'⟩ := fullName?_nodes k
    rw [hname, hname', Option.some_inj] at he
    rw [he, hlength'] at hlength
    omega
  refine search_endless w (nodes 0) "Marker" ?_ ?_ ?_ ?_ n
  · rintro s t hs ht - - he
    obtain ⟨j, rfl⟩ := (hreaches s).1 hs
    obtain ⟨k, rfl⟩ := (hreaches t).1 ht
    obtain rfl := hinj j k he
    exact ⟨rfl, rfl⟩
  · rintro s hs -
    obtain ⟨k, rfl⟩ := (hreaches s).1 hs
    obtain ⟨name, hname, -⟩ := fullName?_nodes k
    obtain ⟨t, ht, -⟩ := exists_nodes k
    refine ⟨by rw [hname]; rfl, fun id hid => ?_⟩
    rw [ht, hresolve, Option.some_inj] at hid
    subst hid
    rw [hhead]
    refine ⟨rfl, fun f hf _ => ?_⟩
    obtain rfl := List.mem_singleton.1 hf
    rw [ht]
    rfl
  · choose name hname hlength using fullName?_nodes
    refine Set.infinite_of_injective_forall_mem (f := name)
      (fun j k he => hinj j k ?_) fun k => ?_
    · rw [hname, hname, he]
    · obtain ⟨t, ht, -⟩ := exists_nodes k
      exact ⟨nodes k, (hreaches _).2 ⟨k, rfl⟩, by rw [ht]; rfl, hname k⟩
  · rintro s hs ⟨-, id, hid, hmarked⟩
    obtain ⟨k, rfl⟩ := (hreaches s).1 hs
    obtain ⟨t, ht, -⟩ := exists_nodes k
    rw [ht, hresolve, Option.some_inj] at hid
    subst hid
    rw [hhead] at hmarked
    cases hmarked

/-- A marker is missed behind a type that has the name of another one, and a
search through types without end does not answer. -/
theorem carriesMarker_clash :
    (let w := (World.ofModules [clashModule]).1
    let u := w.resolver.refresh w.workspace
    let root : TypeRef := .ofName "" "Root" false
    (∃ w', carriesMarker root "Marker" w = .ok false w') ∧
      ∃ s, w.workspace.Reaches u root s ∧ w.workspace.Bears u "Marker" s) ∧
    ∀ n, ∃ w', searchUpTo "Marker" n { left := [nodes 0] }
      (World.ofModules [nodeModule]).1 = .ok none w' :=
  ⟨search_clash, search_nodes⟩

end Planning

end JobWeave
