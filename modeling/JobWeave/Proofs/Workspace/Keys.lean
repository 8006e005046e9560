import Mathlib
import JobWeave.Workspace.Import

/-!
# Keys of look-ups

A method that was looked up is remembered by one text, made of the name of its
type, its own name, the numbers of its parameters and the names of the types
that its first parameters have. Marks stand between these parts.  Names of the
code at hand may have the same marks in them, but a text that was made of names
without marks was made of these names only (`methodKey_inj`).
-/

namespace JobWeave

/-- What a look-up of a method is remembered by. -/
def methodKey (owner name : String) (params arity : Int) (first : List String) :
    String :=
  owner ++ "::" ++ name ++ "/" ++ toString params ++ "`" ++ toString arity ++
    String.join (first.map ("," ++ ·))

/-- The character stands between the parts of keys. -/
def isKeyMark (c : Char) : Bool :=
  c == ':' || c == '/' || c == '`' || c == ','

/-- Texts around two colons, where the second pair has no others. -/
theorem append_colons_inj {a b c d : List Char} (hb : ':' ∉ b) (hd : ':' ∉ d)
    (h : a ++ ':' :: ':' :: c = b ++ ':' :: ':' :: d) : a = b ∧ c = d := by
  rcases List.append_eq_append_iff.1 h with ⟨e, rfl, he⟩ | ⟨e, rfl, he⟩
  · cases e with
    | nil => simpa using he
    | cons x e =>
      simp only [List.cons_append, List.cons.injEq] at he
      exact absurd (he.1 ▸ by simp) hb
  · cases e with
    | nil => simpa using he.symm
    | cons x e =>
      -- a mark would be left in what follows
      refine absurd ?_ hd
      simp only [List.cons_append, List.cons.injEq] at he
      cases e with
      | nil =>
        simp only [List.nil_append, List.cons.injEq] at he
        simp [he.2.2]
      | cons y e =>
        simp only [List.cons_append, List.cons.injEq] at he
        simp [he.2.2]

/-- Numbers are written with digits, and a minus sign. -/
theorem digit_of_mem_toString {n : Int} {c : Char}
    (h : c ∈ (toString n).toList) :
    c.isDigit ∨ c = '-' := by
  have hdigit : ∀ k : Nat, c ∈ k.repr.toList → c.isDigit := by
    intro k hk
    rw [Nat.repr_eq_ofList_toDigits, String.toList_ofList] at hk
    exact Nat.isDigit_of_mem_toDigits (by decide) (by decide) hk
  rw [Int.toString_eq_repr, Int.repr_eq_if] at h
  split at h
  · exact .inl (hdigit _ h)
  · rw [String.toList_append, List.mem_append] at h
    rcases h with h | h
    · exact .inr (List.mem_singleton.1 h)
    · exact .inl (hdigit _ h)

/-- Numbers are written without marks. -/
theorem isKeyMark_of_mem_toString {n : Int} {c : Char}
    (h : c ∈ (toString n).toList) :
    isKeyMark c = false := by
  by_contra hmark
  simp only [isKeyMark, Bool.not_eq_false, Bool.or_eq_true, beq_iff_eq] at hmark
  rcases hmark with ((rfl | rfl) | rfl) | rfl <;> revert h <;>
    exact fun h => absurd (digit_of_mem_toString h) (by decide)

theorem notMem_toString {n : Int} {c : Char} (h : isKeyMark c = true) :
    c ∉ (toString n).toList :=
  fun hc => by simp [isKeyMark_of_mem_toString hc] at h

/-- No mark occurs in the text. -/
def isPlain (s : String) : Bool :=
  s.toList.all fun c => !isKeyMark c

theorem notMem_of_isPlain {s : String} (hs : isPlain s) {c : Char}
    (h : isKeyMark c = true) :
    c ∉ s.toList := by
  intro hc
  have := List.all_eq_true.1 hs c hc
  simp [h] at this

theorem toList_join_comma (first : List String) :
    (String.join (first.map ("," ++ ·))).toList = first.flatMap
      fun s => ',' :: s.toList := by
  induction first with
  | nil => rfl
  | cons s first ih => simp [String.join_cons, ih]

theorem toList_methodKey (o n : String) (p a : Int) (ns : List String) :
    (methodKey o n p a ns).toList = (o.toList ++ ':' :: ':' :: (n.toList ++
      '/' :: (toString p).toList)) ++ '`' :: ((toString a).toList ++
        ns.flatMap fun s => ',' :: s.toList) := by
  simp only [methodKey, String.toList_append, toList_join_comma]
  simp

theorem toString_int_inj {p p' : Int}
    (h : (toString p).toList = (toString p').toList) : p = p' := by
  rw [String.toList_inj, Int.toString_eq_repr, Int.toString_eq_repr] at h
  exact Int.repr_injective h

/-- Lists of names, the second of one name at most, are told apart by their
marks. -/
theorem flatMap_comma_inj {ns : List String} {o : Option String}
    {x y : List Char} (hx : ',' ∉ x) (hy : ',' ∉ y)
    (ho : ∀ s ∈ o, ',' ∉ s.toList)
    (h : x ++ (ns.flatMap fun s => ',' :: s.toList) =
      y ++ (o.toList.flatMap fun s => ',' :: s.toList)) : x = y ∧
      ns = o.toList := by
  cases o with
  | none =>
    simp only [Option.toList_none, List.flatMap_nil, List.append_nil] at h
    cases ns with
    | nil => simpa using h
    | cons n ns =>
      refine absurd ?_ hy
      simp [← h]
  | some s =>
    have hs := ho s rfl
    simp only [Option.toList_some, List.flatMap_cons, List.flatMap_nil,
      List.append_nil] at h
    cases ns with
    | nil =>
      refine absurd ?_ hx
      simp only [List.flatMap_nil, List.append_nil] at h
      simp [h]
    | cons n ns =>
      simp only [List.flatMap_cons, List.cons_append] at h
      obtain ⟨hxy, -, hrest⟩ := (List.append_cons_inj_of_notMem hy hs).1 h.symm
      refine ⟨hxy.symm, ?_⟩
      cases ns with
      | nil => simpa [String.toList_inj, eq_comm] using hrest
      | cons n' ns =>
        refine absurd ?_ hs
        simp [hrest]

/-- A key is that of one look-up only, if no mark occurs in the names of that
look-up; types may be nested. -/
theorem methodKey_inj {o n o' n' : String} {p a p' a' : Int} {ns : List String}
    {f : Option String} (ho : ∀ c ∈ o'.toList, c ≠ ':' ∧ c ≠ '`')
    (hn : isPlain n') (hf : ∀ s ∈ f, ∀ c ∈ s.toList, c ≠ ',' ∧ c ≠ '`')
    (h : methodKey o n p a ns = methodKey o' n' p' a' f.toList) :
    o = o' ∧ n = n' ∧ p = p' ∧ a = a' ∧ ns = f.toList := by
  have h := congrArg String.toList h
  rw [toList_methodKey, toList_methodKey] at h
  have hleft : '`' ∉ o'.toList ++ ':' :: ':' ::
      (n'.toList ++ '/' :: (toString p').toList) := by
    have h₁ : '`' ∉ o'.toList := fun hc => (ho _ hc).2 rfl
    have h₂ := notMem_of_isPlain hn (c := '`') rfl
    have h₃ := notMem_toString (n := p') (c := '`') rfl
    simp only [List.mem_append, List.mem_cons, not_or]
    exact ⟨h₁, by decide, by decide, h₂, by decide, h₃⟩
  have hright : '`' ∉ (toString a').toList ++ f.toList.flatMap
      fun s => ',' :: s.toList := by
    have h₁ := notMem_toString (n := a') (c := '`') rfl
    cases f with
    | none => simpa using h₁
    | some s =>
      have h₂ : '`' ∉ s.toList := fun hc => (hf s rfl _ hc).2 rfl
      simp only [Option.toList_some, List.flatMap_cons, List.flatMap_nil,
        List.append_nil, List.mem_append, List.mem_cons, not_or]
      exact ⟨h₁, by decide, h₂⟩
  obtain ⟨hfront, -, hback⟩ :=
    (List.append_cons_inj_of_notMem hleft hright).1 h.symm
  have hname : ':' ∉ n'.toList ++ '/' :: (toString p').toList := by
    have h₁ := notMem_of_isPlain hn (c := ':') rfl
    have h₂ := notMem_toString (n := p') (c := ':') rfl
    simp only [List.mem_append, List.mem_cons, not_or]
    exact ⟨h₁, by decide, h₂⟩
  obtain ⟨howner, hmember⟩ :=
    append_colons_inj (fun hc => (ho _ hc).1 rfl) hname hfront.symm
  obtain ⟨hn', -, hp⟩ :=
    (List.append_cons_inj_of_notMem (notMem_of_isPlain hn (c := '/') rfl)
    (notMem_toString (c := '/') rfl)).1 hmember.symm
  obtain ⟨ha, hns⟩ := flatMap_comma_inj (notMem_toString rfl)
    (notMem_toString rfl) (fun s hs hc => (hf s hs _ hc).1 rfl) hback.symm
  exact ⟨String.toList_inj.1 howner, (String.toList_inj.1 hn').symm,
    (toString_int_inj hp).symm, toString_int_inj ha, hns⟩

/-- A mark that occurs in neither of two texts tells where they start. -/
theorem append_mark_inj {α : Type*} {s s' t t' : List α} {a : α} (ht : a ∉ t)
    (ht' : a ∉ t') (h : s ++ a :: t = s' ++ a :: t') : s = s' ∧ t = t' := by
  rcases List.append_eq_append_iff.1 h with ⟨m, rfl, hm⟩ | ⟨m, rfl, hm⟩ <;>
    cases m with
  | nil => simp_all
  | cons b m =>
    obtain ⟨rfl, rfl⟩ := List.cons.inj hm
    simp_all

/-- Look-ups of members without marks in their names are told apart by the
names, whatever the names of their types. -/
theorem memberKey_inj {o n o' n' : String} (hn : isPlain n) (hn' : isPlain n')
    (h : o ++ "::" ++ n = o' ++ "::" ++ n') : n = n' := by
  have h := congrArg String.toList h
  simp only [String.toList_append] at h
  rw [show ("::" : String).toList = [':'] ++ [':'] from rfl,
    ← List.append_assoc, ← List.append_assoc,
    List.append_assoc _ [':'] n.toList,
    List.append_assoc _ [':'] n'.toList] at h
  have hmembers := append_mark_inj (notMem_of_isPlain hn rfl)
    (notMem_of_isPlain hn' rfl) h
  exact String.toList_inj.1 hmembers.2

/-- Look-ups of methods with any first parameters are told apart by names
without marks. -/
theorem methodKey_inj_of_isPlain {o n o' n' : String} {p p' : Int}
    (hn : isPlain n) (hn' : isPlain n')
    (h : methodKey o n p (-1) [] = methodKey o' n' p' (-1) []) :
    n = n' ∧ p = p' := by
  have h := congrArg String.toList h
  rw [toList_methodKey, toList_methodKey] at h
  have h := List.append_cancel_right h
  rw [List.append_cons o.toList, List.append_cons o'.toList] at h
  have hcolon : ∀ {n : String} {p : Int}, isPlain n →
      ':' ∉ n.toList ++ '/' :: (toString p).toList := by
    intro n p hn
    have h₁ := notMem_of_isPlain hn (c := ':') rfl
    have h₂ := notMem_toString (n := p) (c := ':') rfl
    simp only [List.mem_append, List.mem_cons, not_or]
    exact ⟨h₁, by decide, h₂⟩
  have hmembers := (append_mark_inj (hcolon hn) (hcolon hn') h).2
  obtain ⟨hname, hparams⟩ :=
    append_mark_inj (notMem_toString rfl) (notMem_toString rfl) hmembers
  exact ⟨String.toList_inj.1 hname, toString_int_inj hparams⟩

end JobWeave
