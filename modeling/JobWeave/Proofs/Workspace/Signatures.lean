import Mathlib
import JobWeave.Proofs.Workspace.Keys

/-!
# Keys with the types of parameters

A look-up of a method may give the types of the first parameters, and its key
has their names in it, each behind a comma.  The name of a type on arguments has
commas of its own, but only between angles, so the names are told apart by how
deep their commas are (`flatMap_closed_inj`), and the key has all parts of the
look-up (`methodKey_inj_of_closed`).

* `angles` goes through a text and counts the angles that are open; a comma
  outside of all of them ends it.
* `TypeRef.angles_name` says that the name of a type has its commas inside, if
  the names that it is made of have neither commas nor angles.
-/

namespace JobWeave

/-! ## Angles -/

/-- The number of open angles behind a text; there is none if one is closed that
is not open, or if a comma stands outside of all of them. -/
def angles : Nat → List Char → Option Nat
  | d, [] => some d
  | d, c :: s =>
    if c = '<' then angles (d + 1) s
    else if c = '>' then if d = 0 then none else angles (d - 1) s
    else if c = ',' ∧ d = 0 then none
    else angles d s

variable {d e : Nat} {s t x y : List Char}

theorem angles_append : angles d (s ++ t) = (angles d s).bind (angles · t) := by
  induction s generalizing d with
  | nil => rfl
  | cons c s ih =>
    rw [List.cons_append, angles, angles]
    split_ifs <;> first | exact ih | rfl

/-- With more open angles around a text the same ones are open behind it. -/
theorem angles_add (k : Nat) (h : angles d s = some e) :
    angles (d + k) s = some (e + k) := by
  induction s generalizing d with
  | nil =>
    cases h
    rfl
  | cons c s ih =>
    rw [angles] at h ⊢
    by_cases hopen : c = '<'
    · rw [if_pos hopen] at h ⊢
      rw [show d + k + 1 = d + 1 + k by omega]
      exact ih h
    rw [if_neg hopen] at h ⊢
    by_cases hclose : c = '>'
    · rw [if_pos hclose] at h ⊢
      by_cases hd : d = 0
      · simp [hd] at h
      · rw [if_neg hd] at h
        rw [if_neg (by omega), show d + k - 1 = d - 1 + k by omega]
        exact ih h
    rw [if_neg hclose] at h ⊢
    by_cases hcomma : c = ',' ∧ d = 0
    · simp [hcomma] at h
    · rw [if_neg hcomma] at h
      rw [if_neg fun hc => hcomma ⟨hc.1, by omega⟩]
      exact ih h

/-- No comma and no angle occurs in the text. -/
def isFlat (s : String) : Bool :=
  s.toList.all fun c => c != ',' && c != '<' && c != '>'

theorem angles_of_isFlat {s : String} (h : isFlat s) :
    angles d s.toList = some d := by
  rw [isFlat, List.all_eq_true] at h
  generalize s.toList = s at h
  induction s with
  | nil => rfl
  | cons c s ih =>
    obtain ⟨hc, hs⟩ := List.forall_mem_cons.1 h
    simp only [Bool.and_eq_true, bne_iff_ne] at hc
    rw [angles, if_neg hc.1.2, if_neg hc.2,
      if_neg fun hcomma => hc.1.1 hcomma.1]
    exact ih hs

/-- The angles of the text are closed, and its commas are inside of them. -/
def IsClosed (s : String) : Prop :=
  angles 0 s.toList = some 0

theorem isClosed_of_isFlat {s : String} (h : isFlat s) : IsClosed s :=
  angles_of_isFlat h

theorem isClosed_empty : IsClosed "" :=
  rfl

theorem IsClosed.append {s t : String} (hs : IsClosed s) (ht : IsClosed t) :
    IsClosed (s ++ t) := by
  rw [IsClosed, String.toList_append, angles_append, hs]
  exact ht

/-- Texts between angles, behind commas, are a text whose commas are inside. -/
theorem IsClosed.intercalate {ns : List String} (h : ∀ n ∈ ns, IsClosed n) :
    IsClosed ("<" ++ ",".intercalate ns ++ ">") := by
  have hinner : angles 1 (",".intercalate ns).toList = some 1 := by
    induction ns with
    | nil => rfl
    | cons n ns ih =>
      obtain ⟨hn, hns⟩ := List.forall_mem_cons.1 h
      have hname : angles 1 n.toList = some 1 := angles_add 1 hn
      cases ns with
      | nil => simpa using hname
      | cons m ns =>
        rw [String.intercalate_cons_cons, String.toList_append,
          String.toList_append, angles_append, angles_append, hname]
        exact ih hns
  rw [IsClosed, String.toList_append, String.toList_append, angles_append,
    angles_append]
  change ((angles 1 (",".intercalate ns).toList).bind _) = _
  rw [hinner]
  rfl

/-- Behind a text whose commas are inside, the next comma is the first one
outside. -/
theorem closed_append_inj (hs : angles 0 s = some 0) (ht : angles 0 t = some 0)
    (h : s ++ ',' :: x = t ++ ',' :: y) : s = t ∧ x = y := by
  have hprefix : ∀ {s t x y : List Char}, angles 0 s = some 0 →
    angles 0 t = some 0 →
      ∀ {c m}, s = t ++ c :: m → c :: m ++ ',' :: x = ',' :: y → False := by
    intro s t x y hs ht c m he hm
    obtain rfl : c = ',' := by simpa using (List.cons.inj hm).1
    rw [he, angles_append, ht] at hs
    cases hs
  rcases List.append_eq_append_iff.1 h with ⟨m, he, hm⟩ | ⟨m, he, hm⟩ <;>
    cases m with
  | nil => simp_all
  | cons c m =>
    first
      | exact absurd hm.symm fun hm => hprefix ht hs he hm
      | exact absurd hm.symm fun hm => hprefix hs ht he hm

/-- With one more comma at its end the text of a list starts with one. -/
theorem exists_flatMap_comma (ns : List String) :
    ∃ x, (ns.flatMap fun n => ',' :: n.toList) ++ [','] = ',' :: x := by
  cases ns <;> exact ⟨_, rfl⟩

/-- A list of texts whose commas are inside is told by the text that has each of
them behind a comma. -/
theorem flatMap_closed_inj {ns ns' : List String} (hns : ∀ n ∈ ns, IsClosed n)
    (hns' : ∀ n ∈ ns', IsClosed n)
    (h : (ns.flatMap fun n => ',' :: n.toList) = ns'.flatMap
      fun n => ',' :: n.toList) :
    ns = ns' := by
  induction ns generalizing ns' with
  | nil =>
    cases ns' with
    | nil => rfl
    | cons n' ns' => cases h
  | cons n ns ih =>
    cases ns' with
    | nil => cases h
    | cons n' ns' =>
      obtain ⟨hn, hns⟩ := List.forall_mem_cons.1 hns
      obtain ⟨hn', hns'⟩ := List.forall_mem_cons.1 hns'
      rw [List.flatMap_cons, List.flatMap_cons, List.cons_append,
        List.cons_append] at h
      obtain ⟨x, hx⟩ := exists_flatMap_comma ns
      obtain ⟨y, hy⟩ := exists_flatMap_comma ns'
      have hcomma := congrArg (· ++ [',']) (List.cons.inj h).2
      simp only [List.append_assoc, hx, hy] at hcomma
      obtain ⟨hname, hrest⟩ := closed_append_inj hn hn' hcomma
      rw [String.toList_inj.1 hname, ih hns hns' ?_]
      exact List.append_cancel_right
        (hx.trans ((congrArg _ hrest).trans hy.symm))

/-! ## Names of types -/

/-- Neither commas nor angles occur in the names that a reference is made of. -/
inductive TypeRef.IsFlat : TypeRef → Prop
  | absent : IsFlat .absent
  | named {ns name : String} {valueType : Bool} {outer : TypeRef}
    {args : List TypeRef} :
    isFlat ns → isFlat name → IsFlat outer → (∀ a ∈ args, IsFlat a) →
    IsFlat (.named ns name valueType outer args)
  | wrapped {kind : Wrapper} {elem : TypeRef} {args : List TypeRef} :
    IsFlat elem → IsFlat (.wrapped kind elem args)
  | param {owner : ParamOwner} {position : Int} {args : List TypeRef} :
    IsFlat (.param owner position args)

namespace TypeRef

variable {r : TypeRef} {n : String}

theorem isClosed_openName (h : r.IsFlat) : IsClosed r.openName := by
  induction h with
  | absent => exact isClosed_empty
  | @named ns name v outer args hns hname houter hargs ih =>
    have hname := isClosed_of_isFlat hname
    have hinner : IsClosed (outer.openName ++ "/" ++ name) :=
      (ih.append (isClosed_of_isFlat (by decide))).append hname
    cases outer with
    | absent =>
      rw [openName]
      split
      · exact hname
      · exact ((isClosed_of_isFlat hns).append
          (isClosed_of_isFlat (by decide))).append hname
    | named => exact hinner
    | wrapped => exact hinner
    | param => exact hinner
  | wrapped => exact isClosed_empty
  | param => exact isClosed_empty

/-- The commas of a name are between the angles of arguments. -/
theorem isClosed_name (h : r.IsFlat) (hn : r.name? = some n) : IsClosed n := by
  induction h generalizing n with
  | absent => cases hn
  | @named ns name v outer args hns hname houter hargs _ ih =>
    have hflat : IsFlat (.named ns name v outer args) :=
      .named hns hname houter hargs
    have hopen := isClosed_openName hflat
    cases args with
    | nil =>
      rw [name?] at hn
      cases hn
      exact hopen
    | cons a args =>
      have hall : ∀ {as : List TypeRef} {ns},
        (∀ a ∈ as, ∀ {n}, a.name? = some n → IsClosed n) →
          names? as = some ns → ∀ n ∈ ns, IsClosed n := by
        intro as
        induction as with
        | nil =>
          intro ns _ h
          cases h
          simp
        | cons a as ihas =>
          intro ns has h
          rw [names?] at h
          obtain ⟨x, hx, h⟩ := Option.bind_eq_some_iff.1 h
          obtain ⟨xs, hxs, h⟩ := Option.bind_eq_some_iff.1 h
          cases h
          obtain ⟨ha, has⟩ := List.forall_mem_cons.1 has
          exact List.forall_mem_cons.2 ⟨ha hx, ihas has hxs⟩
      rw [name?] at hn
      obtain ⟨x, hx, hn⟩ := Option.bind_eq_some_iff.1 hn
      obtain ⟨xs, hxs, hn⟩ := Option.bind_eq_some_iff.1 hn
      cases hn
      have hnames : names? (a :: args) = some (x :: xs) := by
        rw [names?, hx, hxs]
        rfl
      have hargs := hall ih hnames
      have hall := hopen.append (.intercalate hargs)
      rwa [← String.append_assoc, ← String.append_assoc] at hall
  | @wrapped kind elem args _ ih =>
    rw [name?] at hn
    obtain ⟨x, hx, rfl⟩ := Option.map_eq_some_iff.1 hn
    exact (ih hx).append
      (by cases kind <;> exact isClosed_of_isFlat (by decide))
  | @param owner position args =>
    rw [name?] at hn
    cases hn
    refine IsClosed.append
      (by cases owner <;> exact isClosed_of_isFlat (by decide))
      (isClosed_of_isFlat (List.all_eq_true.2 fun c hc => ?_))
    simp only [Bool.and_eq_true, bne_iff_ne]
    refine ⟨⟨?_, ?_⟩, ?_⟩ <;> rintro rfl <;>
      exact absurd (digit_of_mem_toString hc) (by decide)

end TypeRef

/-! ## Keys -/

/-- The first place of a mark tells what stands before it. -/
theorem append_first_inj {α : Type*} {s t x y : List α} {a : α} (hs : a ∉ s)
    (ht : a ∉ t) (h : s ++ a :: x = t ++ a :: y) : s = t ∧ x = y := by
  rcases List.append_eq_append_iff.1 h with ⟨m, rfl, hm⟩ | ⟨m, rfl, hm⟩ <;>
    cases m with
  | nil => simp_all
  | cons b m =>
    obtain ⟨rfl, -⟩ := List.cons.inj hm
    simp_all

theorem colons_inj {o o' : String} (ho : ':' ∉ o.toList) (ho' : ':' ∉ o'.toList)
    (h : o.toList ++ ':' :: ':' :: x = o'.toList ++ ':' :: ':' :: y) :
    o = o' ∧ x = y := by
  obtain ⟨howner, hrest⟩ := append_first_inj ho ho' h
  exact ⟨String.toList_inj.1 howner, (List.cons.inj hrest).2⟩

/-- A key of a method has all that the method was looked up with, if the owner's
name has no colon, the method's name no slash, and the commas in the names of
parameters are inside. -/
theorem methodKey_inj_of_closed {o n o' n' : String} {p a p' a' : Int}
    {ns ns' : List String} (ho : ':' ∉ o.toList) (ho' : ':' ∉ o'.toList)
    (hn : '/' ∉ n.toList) (hn' : '/' ∉ n'.toList)
    (hns : ∀ n ∈ ns, IsClosed n) (hns' : ∀ n ∈ ns', IsClosed n)
    (h : methodKey o n p a ns = methodKey o' n' p' a' ns') :
    o = o' ∧ n = n' ∧ p = p' ∧ a = a' ∧ ns = ns' := by
  have h := congrArg String.toList h
  simp only [toList_methodKey, List.append_assoc, List.cons_append] at h
  obtain ⟨howner, h⟩ := colons_inj ho ho' h
  obtain ⟨hname, h⟩ := append_first_inj hn hn' h
  have hmark : ∀ {n : Int}, '`' ∉ (toString n).toList := notMem_toString rfl
  have hcomma : ∀ {n : Int}, ',' ∉ (toString n).toList := notMem_toString rfl
  obtain ⟨hparams, h⟩ := append_first_inj hmark hmark h
  obtain ⟨x, hx⟩ := exists_flatMap_comma ns
  obtain ⟨y, hy⟩ := exists_flatMap_comma ns'
  have h := congrArg (· ++ [',']) h
  simp only [List.append_assoc, hx, hy] at h
  obtain ⟨harity, h⟩ := append_first_inj hcomma hcomma h
  have hfirst := List.append_cancel_right
    (hx.trans ((congrArg _ h).trans hy.symm))
  exact ⟨howner, String.toList_inj.1 hname, toString_int_inj hparams,
    toString_int_inj harity, flatMap_closed_inj hns hns' hfirst⟩

end JobWeave
