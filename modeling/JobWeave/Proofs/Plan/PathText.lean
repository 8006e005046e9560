import Mathlib
import JobWeave.Plan.Captures

/-!
# The texts of paths

Captured variables are told apart by a text, in which the full names of the
fields on the path stand between slashes.  A full name has a type, a space,
another type, two colons and the name of the field; the types may have slashes
themselves, since types may be nested.

* `FieldRef.hasPlainNames` says that spaces and colons occur in no name, and
  slashes in no name of a field.
* `FieldRef.intercalate_slash_inj`: then one text belongs to one list of full
  names.
-/

namespace JobWeave

/-! ## Plain names -/

/-- Neither spaces nor colons occur in the text. -/
def isUnspaced (s : String) : Bool :=
  s.toList.all fun c => c != ' ' && c != ':'

mutual

/-- Neither spaces nor colons occur in the names of the type. -/
def TypeRef.hasPlainNames : TypeRef → Bool
  | .absent | .param .. => true
  | .named ns n _ o as =>
    isUnspaced ns && isUnspaced n && o.hasPlainNames &&
      TypeRef.havePlainNames as
  | .wrapped _ e _ => e.hasPlainNames

/-- Neither spaces nor colons occur in the names of the types. -/
def TypeRef.havePlainNames : List TypeRef → Bool
  | [] => true
  | t :: ts => t.hasPlainNames && TypeRef.havePlainNames ts

end

/-- Neither spaces nor colons occur in the names of the field, its type and its
owner, and no slash in its own name. -/
def FieldRef.hasPlainNames (f : FieldRef) : Bool :=
  f.type.hasPlainNames && f.owner.hasPlainNames && isUnspaced f.name &&
    !f.name.toList.contains '/'

theorem isUnspaced_append {s t : String} :
    isUnspaced (s ++ t) = (isUnspaced s && isUnspaced t) := by
  simp [isUnspaced]

theorem isUnspaced_intercalate {s : String} (hs : isUnspaced s)
    {ts : List String} (h : ∀ t ∈ ts, isUnspaced t) :
    isUnspaced (s.intercalate ts) := by
  induction ts with
  | nil => rfl
  | cons t ts ih =>
    obtain ⟨ht, hts⟩ := List.forall_mem_cons.1 h
    cases ts with
    | nil => simpa [String.intercalate_singleton] using ht
    | cons t' ts =>
      rw [String.intercalate_cons_cons, isUnspaced_append, isUnspaced_append,
        ht, hs, ih hts]
      rfl

theorem isUnspaced_toString (n : Int) : isUnspaced (toString n) := by
  have hdigits : ∀ k : Nat, isUnspaced k.repr := by
    intro k
    rw [isUnspaced, Nat.repr_eq_ofList_toDigits, String.toList_ofList,
      List.all_eq_true]
    intro c hc
    have hdigit := Nat.isDigit_of_mem_toDigits (by decide) (by decide) hc
    by_contra hmark
    simp only [Bool.and_eq_true, bne_iff_ne, not_and_or, not_not] at hmark
    rcases hmark with rfl | rfl <;> revert hdigit <;> decide
  rw [Int.toString_eq_repr, Int.repr_eq_if]
  split
  · exact hdigits _
  · rw [isUnspaced_append, hdigits]
    rfl

namespace TypeRef

theorem isUnspaced_openName {t : TypeRef} (h : t.hasPlainNames) :
    isUnspaced t.openName := by
  induction t using openName.induct with
  | case1 n =>
    simp only [hasPlainNames, Bool.and_eq_true] at h
    exact h.1.1.2
  | case2 ns n v as hns =>
    simp only [hasPlainNames, Bool.and_eq_true] at h
    rw [openName, if_neg hns, isUnspaced_append, isUnspaced_append, h.1.1.1,
      h.1.1.2]
    rfl
  | case3 _ n _ o _ hnested ih =>
    simp only [hasPlainNames, Bool.and_eq_true] at h
    rw [openName.eq_2 _ _ _ _ _ hnested, isUnspaced_append, isUnspaced_append,
      ih h.1.2, h.1.1.2]
    rfl
  | case4 t =>
    rw [openName]
    · rfl
    all_goals assumption

mutual

theorem isUnspaced_of_name? {t : TypeRef} {s : String} (h : t.hasPlainNames)
    (hs : t.name? = some s) : isUnspaced s := by
  cases t with
  | absent => simp [name?] at hs
  | param o p as =>
    cases hs
    rw [isUnspaced_append, isUnspaced_toString]
    cases o <;> rfl
  | wrapped k e as =>
    obtain ⟨s', hs', rfl⟩ := Option.map_eq_some_iff.1 hs
    rw [isUnspaced_append, isUnspaced_of_name? (t := e) h hs']
    cases k <;> rfl
  | named ns n v o as =>
    have hopen := isUnspaced_openName h
    cases as with
    | nil =>
      cases hs
      exact hopen
    | cons a as =>
      simp only [name?, Option.bind_eq_bind, Option.bind_eq_some_iff,
        Option.some.injEq] at hs
      obtain ⟨first, hfirst, rest, hrest, rfl⟩ := hs
      simp only [hasPlainNames, havePlainNames, Bool.and_eq_true] at h
      have hargs : ∀ s ∈ first :: rest, isUnspaced s := List.forall_mem_cons.2
        ⟨isUnspaced_of_name? h.2.1 hfirst, isUnspaced_of_names? h.2.2 hrest⟩
      simp only [isUnspaced_append, hopen, isUnspaced_intercalate (s := ",")
        rfl hargs]
      rfl

theorem isUnspaced_of_names? {ts : List TypeRef} {ss : List String}
    (h : TypeRef.havePlainNames ts) (hs : names? ts = some ss) :
    ∀ s ∈ ss, isUnspaced s := by
  cases ts with
  | nil =>
    cases hs
    simp
  | cons t ts =>
    simp only [names?, Option.bind_eq_bind, Option.bind_eq_some_iff,
      Option.some.injEq] at hs
    obtain ⟨s, hs, ss, hss, rfl⟩ := hs
    simp only [havePlainNames, Bool.and_eq_true] at h
    exact List.forall_mem_cons.2 ⟨isUnspaced_of_name? h.1 hs,
      isUnspaced_of_names? h.2 hss⟩

end

theorem isUnspaced_of_fullName? {t : TypeRef} {s : String} (h : t.hasPlainNames)
    (hs : t.fullName? = some s) : isUnspaced s := by
  cases t with
  | absent =>
    cases hs
    rfl
  | _ => exact isUnspaced_of_name? h hs

end TypeRef

/-! ## Texts that stand apart -/

/-- A mark that occurs in neither of two texts tells where they end. -/
theorem append_cons_inj {α : Type*} {s s' t t' : List α} {a : α} (hs : a ∉ s)
    (hs' : a ∉ s') (h : s ++ a :: t = s' ++ a :: t') : s = s' ∧ t = t' := by
  rcases List.append_eq_append_iff.1 h with ⟨m, rfl, hm⟩ | ⟨m, rfl, hm⟩ <;>
    cases m with
  | nil => simp_all
  | cons b m =>
    obtain ⟨rfl, -⟩ := List.cons.inj hm
    simp_all

theorem not_mem_of_isUnspaced {s : String} (h : isUnspaced s) :
    ' ' ∉ s.toList ∧ ':' ∉ s.toList := by
  simp only [isUnspaced, List.all_eq_true, Bool.and_eq_true, bne_iff_ne] at h
  exact ⟨fun hmem => (h _ hmem).1 rfl, fun hmem => (h _ hmem).2 rfl⟩

/-! ## Full names of fields -/

namespace FieldRef

/-- The text is the full name of a field with plain names. -/
def Spells (s : String) : Prop :=
  ∃ f : FieldRef, f.hasPlainNames ∧ f.fullName? = some s

/-- A full name is made of three texts that a space and two colons divide. -/
theorem Spells.parts {s : String} (h : Spells s) :
    ∃ type owner name : List Char,
    s.toList = type ++ ' ' :: (owner ++ ':' :: ':' :: name) ∧ ' ' ∉ type ∧
    ':' ∉ owner ∧
      '/' ∉ name := by
  obtain ⟨f, h, hs⟩ := h
  simp only [fullName?, Option.bind_eq_bind, Option.bind_eq_some_iff,
    Option.some.injEq] at hs
  obtain ⟨type, htype, owner, howner, rfl⟩ := hs
  simp only [hasPlainNames, Bool.and_eq_true, Bool.not_eq_true'] at h
  refine ⟨type.toList, owner.toList, f.name.toList,
    by simp [String.toList_append], ?_, ?_, by simpa using h.2⟩
  · exact (not_mem_of_isUnspaced (TypeRef.isUnspaced_of_fullName? h.1.1.1
      htype)).1
  · exact (not_mem_of_isUnspaced (TypeRef.isUnspaced_of_fullName? h.1.1.2
      howner)).2

/-- The characters of texts with a slash before each. -/
def slashed : List String → List Char
  | [] => []
  | s :: ss => '/' :: (s.toList ++ slashed ss)

theorem toList_intercalate_slash (s : String) (ss : List String) :
    ("/".intercalate (s :: ss)).toList = s.toList ++ slashed ss := by
  induction ss generalizing s with
  | nil => simp [String.intercalate_singleton, slashed]
  | cons s' ss ih =>
    rw [String.intercalate_cons_cons, String.toList_append,
      String.toList_append, ih]
    simp [slashed]

/-- What stands between slashes ends where the next slash, or nothing,
follows. -/
theorem append_slashed_inj {x x' : List Char} {ss ss' : List String}
    (hx : '/' ∉ x) (hx' : '/' ∉ x') (h : x ++ slashed ss = x' ++ slashed ss') :
    x = x' ∧ slashed ss = slashed ss' := by
  cases ss with
  | nil =>
    cases ss' with
    | nil => simpa [slashed] using h
    | cons s' ss' =>
      have heq : x = x' ++ slashed (s' :: ss') := by simpa [slashed] using h
      exact absurd (by simp [heq, slashed]) hx
  | cons s ss =>
    cases ss' with
    | nil =>
      have heq : x' = x ++ slashed (s :: ss) := by simpa [slashed] using h.symm
      exact absurd (by simp [heq, slashed]) hx'
    | cons s' ss' =>
      obtain ⟨rfl, hrest⟩ := append_cons_inj hx hx' h
      exact ⟨rfl, congrArg ('/' :: ·) hrest⟩

theorem Spells.append_slashed_inj {s s' : String} {ss ss' : List String}
    (hs : Spells s) (hs' : Spells s')
    (h : s.toList ++ slashed ss = s'.toList ++ slashed ss') :
    s = s' ∧ slashed ss = slashed ss' := by
  obtain ⟨type, owner, name, hparts, htype, howner, hname⟩ := hs.parts
  obtain ⟨type', owner', name', hparts', htype', howner', hname'⟩ := hs'.parts
  rw [hparts, hparts'] at h
  simp only [List.append_assoc, List.cons_append] at h
  obtain ⟨rfl, howners⟩ := append_cons_inj htype htype' h
  obtain ⟨rfl, hnames⟩ := append_cons_inj howner howner' howners
  obtain ⟨rfl, hrest⟩ := FieldRef.append_slashed_inj hname hname'
    (List.cons.inj hnames).2
  exact ⟨String.toList_inj.1 (hparts.trans hparts'.symm), hrest⟩

theorem slashed_inj {ss ss' : List String} (hs : ∀ s ∈ ss, Spells s)
    (hs' : ∀ s ∈ ss', Spells s) (h : slashed ss = slashed ss') : ss = ss' := by
  induction ss generalizing ss' with
  | nil =>
    cases ss' with
    | nil => rfl
    | cons => cases h
  | cons s ss ih =>
    cases ss' with
    | nil => cases h
    | cons s' ss' =>
      obtain ⟨hs, hss⟩ := List.forall_mem_cons.1 hs
      obtain ⟨hs', hss'⟩ := List.forall_mem_cons.1 hs'
      obtain ⟨rfl, hrest⟩ := hs.append_slashed_inj hs' (List.cons.inj h).2
      rw [ih hss hss' hrest]

/-- The text of a path tells the full names on it. -/
theorem intercalate_slash_inj {ss ss' : List String} (hs : ∀ s ∈ ss, Spells s)
    (hs' : ∀ s ∈ ss', Spells s) (hne : ss ≠ []) (hne' : ss' ≠ [])
    (h : "/".intercalate ss = "/".intercalate ss') : ss = ss' := by
  obtain ⟨s, ss, rfl⟩ := List.exists_cons_of_ne_nil hne
  obtain ⟨s', ss', rfl⟩ := List.exists_cons_of_ne_nil hne'
  refine slashed_inj hs hs' ?_
  rw [slashed, slashed, ← toList_intercalate_slash,
    ← toList_intercalate_slash, h]

end FieldRef

end JobWeave
