import Mathlib
import JobWeave.Proofs.Workspace.TypeNames
import JobWeave.Proofs.World.Planning

/-!
# What a query is asked for

The components that a query lists come from the parameters of the lambda and
from the modifiers of the chain.  Several may ask for one component; then it is
listed once, and it is only read if all who ask for it only read it.

* `TypeRef.Same`: the references name one type.
* `ParamDef.request?` and `Chain.requests` are what is asked for.
* `QueryItem.Merges requests items`: the items are what the requests come to.
  `Merges.add` adds one request, and `Merges.of_covers` replaces requests that
  only read by others for the same types.
* `Planning.required_merges`, `Planning.modifierTypes_merges` and
  `Planning.checkQuery_excludes` say this of the work that makes the lists.
-/

namespace JobWeave

open Framework Std.Do

set_option mvcgen.warning false

/-- The references name one type. -/
def TypeRef.Same (t t' : TypeRef) : Prop :=
  t = t' ∨ t.same? t' = some true

namespace TypeRef

variable {a b c : TypeRef}

@[refl]
theorem Same.refl (a : TypeRef) : a.Same a :=
  .inl rfl

@[symm]
theorem Same.symm (h : a.Same b) : b.Same a := by
  rcases h with rfl | h
  · exact .refl a
  · rw [same?_eq_some_true_iff] at h
    refine .inr (same?_eq_some_true_iff.2 ?_)
    exact h.imp And.symm fun ⟨n, ha, hb⟩ => ⟨n, hb, ha⟩

@[trans]
theorem Same.trans (hab : a.Same b) (hbc : b.Same c) : a.Same c := by
  rcases hab with rfl | hab
  · exact hbc
  rcases hbc with rfl | hbc
  · exact .inr hab
  rw [same?_eq_some_true_iff] at hab hbc
  refine .inr (same?_eq_some_true_iff.2 ?_)
  rcases hab with ⟨rfl, rfl⟩ | ⟨n, ha, hb⟩ <;>
    rcases hbc with ⟨h, rfl⟩ | ⟨n', hb', hc⟩
  · exact .inl ⟨rfl, rfl⟩
  · cases hb'
  · rw [h] at hb
    cases hb
  · rw [hb] at hb'
    exact .inr ⟨n, ha, hb'.symm ▸ hc⟩

theorem same_iff_of_same? {ok : Bool} (h : a.same? b = some ok) :
    ok = true ↔ a.Same b := by
  constructor
  · rintro rfl
    exact .inr h
  · rintro (rfl | h')
    · by_cases ha : a = absent
      · subst ha
        exact (Option.some.inj h).symm
      · rw [same?_of_ne_absent ha ha] at h
        simp only [Option.bind_eq_some_iff, Option.some.injEq] at h
        obtain ⟨n, hn, n', hn', rfl⟩ := h
        obtain rfl := Option.some.inj (hn.symm.trans hn')
        exact beq_self_eq_true n
    · exact Option.some.inj (h.symm.trans h')

end TypeRef

/-- A request that only reads. -/
def QueryItem.reading (t : TypeRef) : QueryItem :=
  ⟨t, true⟩

/-- The items are what the requests come to. -/
structure QueryItem.Merges (requests items : List QueryItem) : Prop where
  /-- no type is listed twice -/
  distinct : items.Pairwise fun a b => ¬ a.type.Same b.type
  /-- what is listed is asked for -/
  requested : ∀ a ∈ items, ∃ r ∈ requests, r.type = a.type
  /-- what is asked for is listed -/
  listed : ∀ r ∈ requests, ∃ a ∈ items, a.type.Same r.type
  /-- what is only read is only read by all who ask for it -/
  readOnly : ∀ a ∈ items, a.readOnly = true ↔ ∀ r ∈ requests,
    a.type.Same r.type → r.readOnly = true

namespace QueryItem

variable {requests requests' items items' : List QueryItem} {t : TypeRef}
  {ro : Bool}

theorem Merges.nil : Merges [] [] :=
  ⟨.nil, by simp, by simp, by simp⟩

/-- Adding a request to a list of items. -/
def Adds (t : TypeRef) (ro : Bool) (items items' : List QueryItem) : Prop :=
  ((∀ a ∈ items, ¬ a.type.Same t) ∧ items' = items ++ [⟨t, ro⟩]) ∨
    ∃ before a after, items = before ++ a :: after ∧ a.type.Same t ∧
      items' = before ++ { a with readOnly := a.readOnly && ro } :: after

/-- A type that is not listed is added to the list. -/
theorem Merges.add_new (h : Merges requests items) (ro : Bool)
    (hnew : ∀ a ∈ items, ¬ a.type.Same t) :
    Merges (requests ++ [⟨t, ro⟩]) (items ++ [⟨t, ro⟩]) := by
  refine ⟨?_, ?_, ?_, ?_⟩
  · rw [List.pairwise_append]
    refine ⟨h.distinct, List.pairwise_singleton _ _, fun a ha b hb => ?_⟩
    obtain rfl := List.mem_singleton.1 hb
    exact hnew a ha
  · intro a ha
    rcases List.mem_append.1 ha with ha | ha
    · obtain ⟨r, hr, hra⟩ := h.requested a ha
      exact ⟨r, List.mem_append_left _ hr, hra⟩
    · obtain rfl := List.mem_singleton.1 ha
      exact ⟨_, List.mem_append_right _ ha, rfl⟩
  · intro r hr
    rcases List.mem_append.1 hr with hr | hr
    · obtain ⟨a, ha, har⟩ := h.listed r hr
      exact ⟨a, List.mem_append_left _ ha, har⟩
    · obtain rfl := List.mem_singleton.1 hr
      exact ⟨_, List.mem_append_right _ hr, .refl _⟩
  · intro a ha
    rw [List.forall_mem_append]
    rcases List.mem_append.1 ha with ha | ha
    · rw [h.readOnly a ha]
      simp [hnew a ha]
    · obtain rfl := List.mem_singleton.1 ha
      -- a request for the type would have it listed
      have hnone : ∀ r ∈ requests, ¬ t.Same r.type := by
        intro r hr htr
        obtain ⟨a, ha, har⟩ := h.listed r hr
        exact hnew a ha (har.trans htr.symm)
      simp +contextual [hnone, TypeRef.Same.refl]

/-- A type that is listed stays listed once. -/
theorem Merges.add_known {before after : List QueryItem} {a : QueryItem}
    (h : Merges requests (before ++ a :: after)) (ro : Bool)
    (hat : a.type.Same t) :
    Merges (requests ++ [⟨t, ro⟩])
      (before ++ { a with readOnly := a.readOnly && ro } :: after) := by
  have hdistinct := h.distinct
  have hmem : ∀ {x}, x ∈ before ++ { a with readOnly := a.readOnly && ro } ::
    after ↔
      (x ∈ before ∨ x ∈ after) ∨
      x = { a with readOnly := a.readOnly && ro } := by
    intro x
    rw [List.mem_append, List.mem_cons, or_left_comm, or_comm]
  have hold : ∀ {x}, x ∈ before ∨ x ∈ after → x ∈ before ++ a :: after ∧
      ¬ x.type.Same t := by
    intro x hx
    rw [List.pairwise_append, List.pairwise_cons] at hdistinct
    rcases hx with hx | hx
    · refine ⟨List.mem_append_left _ hx, fun hxt => ?_⟩
      exact hdistinct.2.2 x hx a List.mem_cons_self (hxt.trans hat.symm)
    · refine ⟨List.mem_append_right _ (List.mem_cons_of_mem _ hx),
        fun hxt => ?_⟩
      exact hdistinct.2.1.1 x hx (hat.trans hxt.symm)
  have ha : a ∈ before ++ a :: after :=
    List.mem_append_right _ List.mem_cons_self
  refine ⟨?_, fun x hx => ?_, fun r hr => ?_, fun x hx => ?_⟩
  · simpa only [List.pairwise_append, List.pairwise_cons, List.forall_mem_cons]
      using hdistinct
  · -- the item has the type that it had
    have hx' : ∃ y ∈ before ++ a :: after, y.type = x.type := by
      rcases hmem.1 hx with hx | rfl
      · exact ⟨x, (hold hx).1, rfl⟩
      · exact ⟨a, ha, rfl⟩
    obtain ⟨y, hy, hyx⟩ := hx'
    obtain ⟨r, hr, hry⟩ := h.requested y hy
    exact ⟨r, List.mem_append_left _ hr, hry.trans hyx⟩
  · have hr' : ∃ y ∈ before ++ a :: after, y.type.Same r.type := by
      rcases List.mem_append.1 hr with hr | hr
      · exact h.listed r hr
      · obtain rfl := List.mem_singleton.1 hr
        exact ⟨a, ha, hat⟩
    obtain ⟨y, hy, hyr⟩ := hr'
    rw [List.mem_append, List.mem_cons] at hy
    rcases hy with hy | rfl | hy
    · exact ⟨y, hmem.2 (.inl (.inl hy)), hyr⟩
    · exact ⟨_, hmem.2 (.inr rfl), hyr⟩
    · exact ⟨y, hmem.2 (.inl (.inr hy)), hyr⟩
  · rw [List.forall_mem_append, List.forall_mem_singleton]
    rcases hmem.1 hx with hx | rfl
    · obtain ⟨hx, hxt⟩ := hold hx
      rw [h.readOnly x hx]
      exact (and_iff_left fun hxt' => absurd hxt' hxt).symm
    · rw [Bool.and_eq_true, h.readOnly a ha]
      exact and_congr_right fun _ => (imp_iff_right hat).symm

theorem Merges.add (h : Merges requests items) (hadd : Adds t ro items items') :
    Merges (requests ++ [⟨t, ro⟩]) items' := by
  rcases hadd with ⟨hnew, rfl⟩ | ⟨before, a, after, rfl, hat, rfl⟩
  · exact h.add_new ro hnew
  · exact h.add_known ro hat

/-- One more type is listed, unless it is listed already. -/
theorem Merges.add_reading {ts out : List TypeRef} {known : Bool}
    (h : Merges (ts.map reading) (out.map reading))
    (hknown : known = true ↔ ∃ o ∈ out, o.Same t) :
    Merges ((ts ++ [t]).map reading)
      ((if known then out else out ++ [t]).map reading) := by
  rw [List.map_append]
  cases known with
  | true =>
    obtain ⟨o, ho, hot⟩ := hknown.1 rfl
    obtain ⟨before, after, rfl⟩ := List.append_of_mem ho
    rw [List.map_append, List.map_cons] at h
    simpa [reading] using h.add_known true hot
  | false =>
    have hnew : ∀ a ∈ out.map reading, ¬ a.type.Same t := by
      intro a ha hat
      obtain ⟨o, ho, rfl⟩ := List.mem_map.1 ha
      exact Bool.false_ne_true (hknown.2 ⟨o, ho, hat⟩)
    simpa [reading] using h.add_new true hnew

/-- There are no more items than requests. -/
theorem Merges.length_le (h : Merges requests items) :
    items.length ≤ requests.length := by
  have hnodup : (items.map QueryItem.type).Nodup := by
    rw [List.Nodup, List.pairwise_map]
    refine h.distinct.imp fun {a b} hab heq => hab ?_
    rw [heq]
  have hsub : items.map QueryItem.type ⊆ requests.map QueryItem.type := by
    intro t ht
    obtain ⟨a, ha, rfl⟩ := List.mem_map.1 ht
    obtain ⟨r, hr, hra⟩ := h.requested a ha
    exact hra ▸ List.mem_map_of_mem hr
  simpa using (hnodup.subperm hsub).length_le

/-- Requests that only read may be replaced by others for the same types. -/
theorem Merges.of_covers {ts ts' : List TypeRef}
    (h : Merges (requests ++ ts.map reading) items) (hsub : ts ⊆ ts')
    (hcovers : ∀ t' ∈ ts', ∃ t ∈ ts, t.Same t') :
    Merges (requests ++ ts'.map reading) items := by
  have hmem : ∀ {ts : List TypeRef} {r}, r ∈ requests ++ ts.map reading ↔
      r ∈ requests ∨ ∃ t ∈ ts, reading t = r := by
    simp
  refine ⟨h.distinct, fun a ha => ?_, fun r hr => ?_, fun a ha => ?_⟩
  · obtain ⟨r, hr, hra⟩ := h.requested a ha
    rcases hmem.1 hr with hr | ⟨t, ht, rfl⟩
    · exact ⟨r, hmem.2 (.inl hr), hra⟩
    · exact ⟨_, hmem.2 (.inr ⟨t, hsub ht, rfl⟩), hra⟩
  · rcases hmem.1 hr with hr | ⟨t', ht', rfl⟩
    · exact h.listed r (hmem.2 (.inl hr))
    · obtain ⟨t, ht, htt'⟩ := hcovers t' ht'
      obtain ⟨a, ha, hat⟩ := h.listed _ (hmem.2 (.inr ⟨t, ht, rfl⟩))
      exact ⟨a, ha, hat.trans htt'⟩
  · have hreading : ∀ ts : List TypeRef,
        ∀ r ∈ ts.map reading, a.type.Same r.type → r.readOnly = true := by
      intro ts r hr _
      obtain ⟨t, -, rfl⟩ := List.mem_map.1 hr
      rfl
    rw [h.readOnly a ha, List.forall_mem_append, List.forall_mem_append]
    exact and_congr_right fun _ => iff_of_true (hreading ts) (hreading ts')

end QueryItem

/-! ## Requests -/

/-- The component that a parameter asks for, and whether it is only read:
entities and numbers of entities ask for none, and a buffer asks for its
elements and may always be written. -/
def ParamDef.request? (p : ParamDef) : Option QueryItem :=
  let t := p.type.element
  if t.isType Ns.entities TypeName.entity ||
    t.isType Ns.system "Int32" then none
  else
    match t.isType Ns.entities TypeName.dynamicBuffer, t.args with
    | true, [arg] => some ⟨arg, false⟩
    | _, _ => some ⟨t, !p.type.isByRef || p.isIn.toOption.getD false⟩

namespace ParamDef

variable {p : ParamDef}

theorem request?_eq_none
    (h : p.type.element.isType Ns.entities TypeName.entity ∨
    p.type.element.isType Ns.system "Int32") : p.request? = none := by
  simp only [request?, Bool.or_eq_true, h, if_true]

theorem request?_buffer
    (hentity : ¬ p.type.element.isType Ns.entities TypeName.entity)
    (hint : ¬ p.type.element.isType Ns.system "Int32")
    {arg : TypeRef}
    (hbuffer : p.type.element.isType Ns.entities TypeName.dynamicBuffer = true)
    (harg : p.type.element.args = [arg]) : p.request? = some ⟨arg, false⟩ := by
  simp only [request?, hentity, hint, hbuffer, harg, Bool.or_self,
    Bool.false_eq_true, if_false]

end ParamDef

namespace Chain

/-- The types that the modifiers of a name list. -/
def typesOf (c : Chain) (name : String) : List TypeRef :=
  (c.named name).flatMap (·.typeArgs)

/-- The types that the chain's modifiers say an entity must have. -/
def typesRequired (c : Chain) : List TypeRef :=
  [Member.withAll, Member.withChangeFilter,
    Member.withSharedComponentFilter].flatMap c.typesOf

/-- What is asked for by the parameters of a lambda over entities, and by the
modifiers. -/
def requests (c : Chain) (params : List ParamDef) : List QueryItem :=
  (if c.kind = .entities then params.filterMap ParamDef.request? else []) ++
    c.typesRequired.map .reading

end Chain

/-! ## Loops -/

section Loops

variable {m : Type → Type} {ps : PostShape} [Monad m] [WPMonad m ps]
variable {Q : Assertion ps} {E : ExceptConds ps} {α β : Type} {xs : List α}

/-- Whether some element passes a test that tells whether it has a property. -/
theorem anyM_tells {R : α → Prop} {f : α → m Bool}
    (h : ∀ x ∈ xs, ⦃Q⦄ f x ⦃(fun ok => spred(Q ∧ ⌜ok = true ↔ R x⌝), E)⦄) :
    ⦃Q⦄ xs.anyM f ⦃(fun ok => spred(Q ∧ ⌜ok = true ↔ ∃ x ∈ xs, R x⌝), E)⦄ := by
  induction xs with
  | nil =>
    unfold List.anyM
    mvcgen
    exact SPred.and_intro .rfl (SPred.pure_intro (by simp))
  | cons x xs ih =>
    have hx := h x (by simp)
    have hxs := ih fun y hy => h y (by simp [hy])
    unfold List.anyM
    mvcgen [hx, hxs]
    · rename_i hR
      exact SPred.and_intro .rfl (SPred.pure_intro (by simp [hR.1 trivial]))
    · rename_i hR ok
      refine SPred.and_mono_r (SPred.pure_mono fun hok => ?_)
      have hnot : ¬ R x := fun hx => by simpa using hR.2 hx
      simp [hok, hnot]

/-- The elements that pass a test are among the results. -/
theorem filterM_tells {R : α → Prop} {f : α → m Bool}
    (h : ∀ x ∈ xs, ⦃Q⦄ f x ⦃(fun ok => spred(Q ∧ ⌜ok = true ↔ R x⌝), E)⦄) :
    ⦃Q⦄ xs.filterM f ⦃(fun rs => spred(Q ∧ ⌜∀ x ∈ xs, R x → x ∈ rs⌝), E)⦄ := by
  have haux : ∀ acc, ⦃Q⦄ xs.filterAuxM f acc
      ⦃(fun rs => spred(Q ∧ ⌜(∀ x ∈ acc, x ∈ rs) ∧ ∀ x ∈ xs, R x → x ∈ rs⌝),
        E)⦄ := by
    induction xs with
    | nil =>
      intro acc
      simp only [List.filterAuxM]
      mvcgen
      exact SPred.and_intro .rfl (SPred.pure_intro (by simp))
    | cons x xs ih =>
      intro acc
      have hx := h x (by simp)
      have hxs := ih fun y hy => h y (by simp [hy])
      simp only [List.filterAuxM]
      mvcgen [hx, hxs]
      rename_i ok hok rs
      refine SPred.and_mono_r (SPred.pure_mono fun hrs => ?_)
      cases ok
      all_goals
        simp only [Bool.false_eq_true, false_iff, true_iff, cond_true,
          cond_false, List.forall_mem_cons] at hok hrs ⊢
      · exact ⟨hrs.1, fun hx => absurd hx hok, hrs.2⟩
      · exact ⟨hrs.1.2, fun _ => hrs.1.1, hrs.2⟩
  unfold List.filterM
  mvcgen [haux]
  refine SPred.and_intro .rfl (SPred.pure_intro ?_)
  simp_all

/-- A fold whose results are related to what was folded so far. -/
theorem foldlM_tells {R : List α → β → Prop} {f : β → α → m β} {b : β}
    (hb : R [] b) (h : ∀ before, ∀ x ∈ xs, ∀ b, R before b →
      ⦃Q⦄ f b x ⦃(fun r => spred(Q ∧ ⌜R (before ++ [x]) r⌝), E)⦄) :
    ⦃Q⦄ xs.foldlM f b ⦃(fun r => spred(Q ∧ ⌜R xs r⌝), E)⦄ := by
  have hall : ∀ before b, R before b →
      ⦃Q⦄ xs.foldlM f b ⦃(fun r => spred(Q ∧ ⌜R (before ++ xs) r⌝), E)⦄ := by
    induction xs with
    | nil =>
      intro before b hb
      simp only [List.foldlM_nil]
      mvcgen
      exact SPred.and_intro .rfl (SPred.pure_intro (by simpa using hb))
    | cons x xs ih =>
      intro before b hb
      have hx := h before x (by simp) b hb
      have hxs := fun b' hb' => ih
        (fun before y hy => h before y (by simp [hy])) (before ++ [x]) b' hb'
      simp only [List.foldlM_cons]
      mvcgen [hx, hxs, -Spec.foldlM_list]
      · rename_i r
        exact SPred.and_mono_r (SPred.pure_mono fun hr => by simpa using hr)
      · exact id
  simpa using hall [] b hb

/-- The results for the elements, one after the other. -/
theorem flatMapM_tells {R : α → List β → Prop} {f : α → m (List β)}
    (h : ∀ x ∈ xs, ⦃Q⦄ f x ⦃(fun rs => spred(Q ∧ ⌜R x rs⌝), E)⦄) :
    ⦃Q⦄ xs.flatMapM f
      ⦃(fun rs => spred(Q ∧ ⌜∃ parts, List.Forall₂ R xs parts ∧
        rs = parts.flatten⌝), E)⦄ := by
  induction xs with
  | nil =>
    simp only [List.flatMapM_nil]
    mvcgen
    exact SPred.and_intro .rfl (SPred.pure_intro ⟨[], .nil, rfl⟩)
  | cons x xs ih =>
    have hx := h x (by simp)
    have hxs := ih fun y hy => h y (by simp [hy])
    simp only [List.flatMapM_cons]
    mvcgen [hx, hxs]
    rename_i hr rs hrs
    refine SPred.and_intro .rfl (SPred.pure_intro ?_)
    obtain ⟨parts, hparts, rfl⟩ := hrs
    exact ⟨_ :: parts, .cons hr hparts, rfl⟩

end Loops

/-! ## Lists of requests -/

namespace Planning

variable {J : World → Prop} {α β : Type}

/-- Planning that leaves the plan as it is and gives a result with a
property. -/
abbrev Finds (J : World → Prop) (v₀ : Plan) (R : α → Prop)
    (act : Planning α) : Prop :=
  ⦃fun v w => ⌜v = v₀ ∧ w.Has J⌝⦄ act
    ⦃post⟨fun r v w => ⌜(v = v₀ ∧ w.Has J) ∧ R r⌝, fun _ w => ⌜w.Has J⌝⟩⦄

variable {v₀ : Plan} {ts : List TypeRef} {t : TypeRef}

/-- What was found before is found with it. -/
theorem forIn_finds {xs : List α} {f : α → β → Planning (ForInStep β)} {b : β}
    (h : ∀ x ∈ xs, ∀ b, ⦃fun v w => ⌜v = v₀ ∧ w.Has J⌝⦄ f x b
      ⦃post⟨fun _ v w => ⌜v = v₀ ∧ w.Has J⌝, fun _ w => ⌜w.Has J⌝⟩⦄) :
    ⦃fun v w => ⌜v = v₀ ∧ w.Has J⌝⦄ forIn xs b f
      ⦃post⟨fun _ v w => ⌜v = v₀ ∧ w.Has J⌝, fun _ w => ⌜w.Has J⌝⟩⦄ :=
  forIn_inv h

/-- Nothing comes after a refusal. -/
theorem refuse_stops {code : Code} {m : MethodId} {l : Option Label}
    {args : List Text.Arg} :
    ⦃fun w => ⌜w.Has J⌝⦄ (Weave.refuse code m l args : Weave α)
      ⦃post⟨fun _ _ => ⌜False⌝, fun _ w => ⌜w.Has J⌝⟩⦄ := by
  unfold Weave.refuse
  mvcgen

/-- The list has the type if it has one of its name. -/
theorem hasType_tells :
    Weave.Yields J (fun ok => ok = true ↔ ∃ o ∈ ts, o.Same t)
      (hasType ts t) := by
  refine anyM_tells fun o _ => ?_
  mvcgen
  rename_i hw _ hsame
  exact ⟨hsame, TypeRef.same_iff_of_same? hw⟩

theorem addItem_adds {readOnly : Bool} {items : List QueryItem} :
    Weave.Yields J (QueryItem.Adds t readOnly items)
      (addItem t readOnly items) := by
  induction items with
  | nil =>
    unfold addItem
    mvcgen
    exact ⟨‹_›, .inl ⟨by simp, rfl⟩⟩
  | cons a rest ih =>
    unfold addItem
    mvcgen [ih, -addItem_keeps, -addItem_preserves]
    · rename_i hw ok hsame hok
      have hat : a.type.Same t := (TypeRef.same_iff_of_same? hsame).1 hok
      exact ⟨hw, .inr ⟨[], a, rest, rfl, hat, rfl⟩⟩
    · rename_i ok hsame hok items w h
      have hat : ¬ a.type.Same t :=
        fun hat => hok ((TypeRef.same_iff_of_same? hsame).2 hat)
      refine ⟨h.1, ?_⟩
      rcases h.2 with ⟨hnew, rfl⟩ | ⟨before, b, after, rfl, hbt, rfl⟩
      · exact .inl ⟨List.forall_mem_cons.2 ⟨hat, hnew⟩, rfl⟩
      · exact .inr ⟨a :: before, b, after, rfl, hbt, rfl⟩

namespace Requests

attribute [scoped spec 30000] hasType_tells addItem_adds

end Requests

open scoped Requests

/-- Each type that the modifiers list is found once. -/
theorem modifierTypes_merges {name : String} :
    Finds J v₀
      (fun ts => QueryItem.Merges ((v₀.chain.typesOf name).map .reading)
        (ts.map .reading))
      (modifierTypes name) := by
  have hstep : ∀ (before out : List TypeRef) (t : TypeRef),
      QueryItem.Merges (before.map .reading) (out.map .reading) → Finds J v₀
        (fun out => QueryItem.Merges ((before ++ [t]).map .reading)
          (out.map .reading))
        (do return if ← hasType out t then out else out ++ [t]) := by
    intro before out t hout
    mvcgen
    · rename_i h
      exact h.2
    · rename_i h ok w hok
      exact ⟨⟨h.1, hok.1⟩, hout.add_reading hok.2⟩
  have hfold : ∀ ts : List TypeRef, Finds J v₀
      (fun out => QueryItem.Merges (ts.map .reading) (out.map .reading))
      (ts.foldlM (fun out t =>
        do return if ← hasType out t then out else out ++ [t]) []) :=
    fun ts => foldlM_tells (R := fun before (out : List TypeRef) =>
      QueryItem.Merges (before.map .reading) (out.map .reading))
        QueryItem.Merges.nil
      fun before t _ out hout => hstep before out t hout
  unfold modifierTypes chain
  mvcgen [hfold, -foldlM_preserves, -foldlM_keeps, -Spec.foldlM_list]
  rename_i h _ _ _
  intro hv hw hmerges
  rw [h.1] at hmerges
  exact ⟨⟨hv, hw⟩, hmerges⟩

/-- What the elements ask for. -/
def received (es : List Element) : List QueryItem :=
  es.filterMap Element.item?

/-- What several lists merge, one by one. -/
theorem merges_flatten {c : Chain} {names : List String}
    {parts : List (List TypeRef)}
    (h : List.Forall₂ (fun name (ts : List TypeRef) =>
      QueryItem.Merges ((c.typesOf name).map .reading) (ts.map .reading)) names
        parts) :
    parts.flatten ⊆ names.flatMap c.typesOf ∧
      ∀ t ∈ names.flatMap c.typesOf, ∃ t' ∈ parts.flatten, t'.Same t := by
  induction h with
  | nil => simp
  | cons hmerges _ ih =>
    rename_i name ts names parts _
    rw [List.flatten_cons, List.flatMap_cons]
    constructor
    · refine List.append_subset.2 ⟨fun t ht => List.mem_append_left _ ?_,
        fun t ht => List.mem_append_right _ (ih.1 ht)⟩
      obtain ⟨r, hr, hrt⟩ := hmerges.requested _ (List.mem_map_of_mem ht)
      obtain ⟨t', ht', rfl⟩ := List.mem_map.1 hr
      have heq : t' = t := hrt
      exact heq ▸ ht'
    · intro t ht
      rcases List.mem_append.1 ht with ht | ht
      · obtain ⟨a, ha, hat⟩ := hmerges.listed _ (List.mem_map_of_mem ht)
        obtain ⟨t', ht', rfl⟩ := List.mem_map.1 ha
        exact ⟨t', List.mem_append_left _ ht', hat⟩
      · obtain ⟨t', ht', htt'⟩ := ih.2 t ht
        exact ⟨t', List.mem_append_right _ ht', htt'⟩

/-- The components that an entity must have are those that are asked for. -/
theorem required_merges :
    Finds J v₀
      (QueryItem.Merges (received v₀.elements ++ v₀.chain.typesRequired.map
        .reading)) required := by
  have hnamed : Finds J v₀
      (fun ts => ∃ parts, List.Forall₂ (fun name (ts : List TypeRef) =>
        QueryItem.Merges ((v₀.chain.typesOf name).map .reading)
          (ts.map .reading))
        [Member.withAll, Member.withChangeFilter,
          Member.withSharedComponentFilter] parts ∧
        ts = parts.flatten)
      ([Member.withAll, Member.withChangeFilter,
        Member.withSharedComponentFilter].flatMapM modifierTypes) :=
    flatMapM_tells fun name _ => modifierTypes_merges
  have hfold : ∀ items : List QueryItem, Finds J v₀ (QueryItem.Merges items)
      (items.foldlM (fun all item => (addItem item.type item.readOnly all :
        Weave _)) []) := by
    have hstep : ∀ before all (item : QueryItem), QueryItem.Merges before all →
        Finds J v₀ (QueryItem.Merges (before ++ [item]))
          (addItem item.type item.readOnly all : Weave (List QueryItem)) := by
      intro before all item hall
      mvcgen
      · rename_i h
        exact h.2
      · rename_i h _ _
        exact fun hw hadd => ⟨⟨h.1, hw⟩, hall.add hadd⟩
    exact fun items => foldlM_tells (R := QueryItem.Merges) .nil
        fun before item _ all hall =>
      hstep before all item hall
  unfold required
  mvcgen [hnamed, hfold, -foldlM_preserves, -foldlM_keeps, -Spec.foldlM_list,
    -flatMapM_preserves, -flatMapM_keeps]
  · rename_i h
    exact h.1
  · rename_i h _ _ _ hnames _ _ _
    obtain ⟨parts, hparts, rfl⟩ := hnames.2
    intro hv hw hmerges
    rw [h.1] at hmerges
    obtain ⟨hsub, hcovers⟩ := merges_flatten hparts
    exact ⟨⟨hv, hw⟩, hmerges.of_covers hsub hcovers⟩

/-- No type is excluded that is listed. -/
theorem checkQuery_excludes {all : List QueryItem}
    {anyOf noneOf : List TypeRef} :
    Finds J v₀ (fun _ => (∀ a ∈ all, ∀ t ∈ noneOf, ¬ t.Same a.type) ∧
      ∀ a ∈ anyOf, ∀ t ∈ noneOf, ¬ t.Same a) (checkQuery all anyOf noneOf) := by
  have hexcluded : ∀ ts : List TypeRef, Weave.Yields J
      (fun rs => ∀ t ∈ ts, (∃ o ∈ noneOf, o.Same t) → t ∈ rs)
      (ts.filterM fun t => hasType noneOf t) :=
    fun ts => filterM_tells fun t _ => hasType_tells
  unfold checkQuery chain
  mvcgen [hexcluded, modifierTypes_merges, forIn_finds, refuse_stops,
    -modifierTypes_preserves, -modifierTypes_keeps, -Weave.filterM_preserves,
    -Weave.filterM_keeps, -forIn_preserves, -forIn_keeps, -Spec.forIn_list,
    -Weave.refuse_preserves, -Weave.refuse_gives]
  all_goals try grind -ring -linarith
  rename_i _ _ h _ both _ hboth _ hall both' _ hboth' _ hany _ _ _ hshared
    _ _ _ hlist _ _ _ hend
  have hnone : ∀ {rs : List TypeRef}, ¬ (!rs.isEmpty) = true → rs = [] := by
    intro rs hrs
    simpa using hrs
  obtain rfl := hnone hboth
  obtain rfl := hnone hboth'
  refine ⟨⟨hend.1.trans (hlist.1.1.trans (hshared.1.1.trans h.1)), hend.2⟩, ?_,
    ?_⟩
  · intro a ha t ht hta
    cases hall.2 a.type (List.mem_map_of_mem ha) ⟨t, ht, hta⟩
  · intro a ha t ht hta
    cases hany.2 a ha ⟨t, ht, hta⟩

/-! ## Parameters -/

namespace Requests

attribute [scoped spec 30000] Weave.ofOutcome_yields

end Requests

theorem refuseLambda_stops {code : Code} {args : List String} :
    Finds J v₀ (fun _ => False) (refuseLambda code args : Planning α) := by
  unfold refuseLambda chain
  mvcgen [refuse_stops, -Weave.refuse_preserves, -Weave.refuse_gives]
  all_goals grind

variable [World.Resolving J]

/-- The type of a parameter is that of a component. -/
theorem providerOfType_asks {p : ParamDef} {byRef isIn : Bool} {id : TypeId} :
    Finds J v₀ (fun pr => pr ∉ [.entity, .entityInQueryIndex,
      .nativeThreadIndex, .buffer])
    (providerOfType p byRef isIn t id) := by
  unfold providerOfType chain
  mvcgen [refuseLambda_stops, -refuseLambda_keeps, -refuseLambda_preserves]
  all_goals grind

/-- A provider for components of a type gives these. -/
theorem item?_eq_request? {p : ParamDef} {isIn : Bool} {pr : ValueProvider}
    (hpr : pr ∉ [.entity, .entityInQueryIndex, .nativeThreadIndex, .buffer])
    (hin : p.isIn = .ok isIn)
    (hentity : ¬ p.type.element.isType Ns.entities TypeName.entity)
    (hint : ¬ p.type.element.isType Ns.system "Int32")
    (hbuffer : ∀ arg, p.type.element.isType Ns.entities TypeName.dynamicBuffer =
      true → p.type.element.args = [arg] → False) :
    Element.item? ⟨p, pr, p.type.element, p.type.isByRef, isIn, default,
      default⟩ =
        p.request? := by
  have hitem : Element.item? ⟨p, pr, p.type.element, p.type.isByRef, isIn,
    default, default⟩ =
      some ⟨p.type.element, !p.type.isByRef || isIn⟩ := by
    cases pr <;> simp_all [Element.item?, Element.isReadOnly]
  rw [hitem, ParamDef.request?]
  simp only [hentity, hint, Bool.false_eq_true, Bool.or_self, if_false, hin]
  rfl

/-- An element asks for what its parameter does. -/
theorem classify_asks {p : ParamDef} :
    Finds J v₀ (fun e => e.item? = p.request?) (classify p) := by
  unfold classify
  mvcgen [providerOfType_asks, refuseLambda_stops, -providerOfType_keeps,
    -providerOfType_preserves, -refuseLambda_keeps, -refuseLambda_preserves]
  all_goals try grind
  · rename_i h _ _ _ ht _ hw
    exact ⟨⟨h.1, hw.1⟩, (ParamDef.request?_eq_none (.inl ht)).symm⟩
  · rename_i h _ _ _ _ ht _ _ hw
    exact ⟨⟨h.1, hw.1⟩, (ParamDef.request?_eq_none (.inr ht)).symm⟩
  · rename_i h _ _ _ _ ht _ _ _ hw
    exact ⟨⟨h.1, hw.1⟩, (ParamDef.request?_eq_none (.inr ht)).symm⟩
  · rename_i h _ _ _ hentity hint _ hargs hbuf _ hw
    exact ⟨⟨h.1, hw.1⟩, (ParamDef.request?_buffer hentity hint hbuf hargs).symm⟩
  · rename_i h _ _ _ hentity hint _ _ hbuffer hargs hbuf _ hw
      _ _ _ _ _ _ _ _ hpr
    refine ⟨⟨hpr.1.1.trans h.1, hpr.1.2⟩, item?_eq_request? hpr.2 hw.2 hentity
      hint ?_⟩
    exact fun arg ht harg => hbuffer arg (hbuf ▸ ht) (hargs ▸ harg)

theorem received_eq {ps : List ParamDef} {es : List Element}
    (h : List.Forall₂ (fun p (e : Element) => e.item? = p.request?) ps es) :
    received es = ps.filterMap ParamDef.request? := by
  induction h with
  | nil => rfl
  | cons he _ ih =>
    unfold received at ih ⊢
    rw [List.filterMap_cons, List.filterMap_cons, he, ih]

/-- The elements ask for what the parameters of the lambda do. -/
theorem classifyParams_asks {d : MethodDef}
    (hd : ∀ w, J w → w.workspace.method v₀.chain.lambda = d) :
    ⦃fun v w => ⌜v = v₀ ∧ w.Has J⌝⦄ classifyParams
      ⦃post⟨fun _ v w => ⌜∃ es, v = { v₀ with elements := es } ∧ w.Has J ∧
          received es = d.params.filterMap ParamDef.request?⌝,
          fun _ w => ⌜w.Has J⌝⟩⦄ := by
  have hmap : ∀ ps : List ParamDef, Finds J v₀
      (List.Forall₂ (fun p (e : Element) => e.item? = p.request?) ps)
        (ps.mapM classify) :=
    fun ps => mapM_inv fun p _ => classify_asks
  unfold classifyParams chain
  mvcgen [hmap, -mapM_preserves, -mapM_keeps]
  rename_i h es _ _ hes _
  refine ⟨es, ?_, hes.1.2, ?_⟩
  · cases hes.1.1
    rfl
  · rw [received_eq hes.2, h.1, hd _ h.2.holds]

end Planning

end JobWeave
