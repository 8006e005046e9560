import Mathlib
import JobWeave.Proofs.Workspace.Keys

/-!
# Names as identities of types

References are the same type when their names agree.  A name is one text: the
words of the namespace, the declaring types, the arguments and the wrappers
follow one another with marks in between, and the names that a compiler makes up
have two of these marks themselves.  What a part of the text is and where it
ends can be told from the marks, whatever follows.

* `TypeRef.Legible`: the references whose names are made of words without marks.
* `TypeRef.shape` is a reference without the flags of value types and the
  arguments of declaring types; nothing of these is in the name.
* `TypePath.append_inj`, `wrapperMarks_append_inj` and
  `TypeRef.Legible.readsBack` read the parts of a name and the whole of it back,
  in front of other text.
* `TypeRef.same?_eq_shape`: legible references are the same type exactly if they
  have one shape.
-/

namespace JobWeave

/-! ## Comparing names -/

namespace TypeRef

variable {a b : TypeRef}

/-- Types that are there are compared by their names. -/
theorem same?_of_ne_absent (ha : a ≠ absent) (hb : b ≠ absent) :
    a.same? b = a.name?.bind fun x => b.name?.bind fun y => some (x == y) := by
  cases a <;> cases b <;> first | rfl | contradiction

theorem same?_eq_some_true_iff :
    a.same? b = some true ↔
      (a = absent ∧ b = absent) ∨ ∃ n, a.name? = some n ∧ b.name? = some n := by
  by_cases ha : a = absent
  · subst ha
    cases b <;> simp [same?, name?]
  by_cases hb : b = absent
  · subst hb
    cases a <;> simp [same?, name?] at ha ⊢
  rw [same?_of_ne_absent ha hb]
  simp [Option.bind_eq_some_iff, ha]

/-- Types that have names can be compared. -/
theorem exists_same? (ha : a.fullName?.isSome) (hb : b.fullName?.isSome) :
    ∃ v, a.same? b = some v := by
  obtain ⟨x, hx⟩ := Option.isSome_iff_exists.1 ha
  obtain ⟨y, hy⟩ := Option.isSome_iff_exists.1 hb
  cases a <;> cases b <;> first
    | exact ⟨_, rfl⟩
    | exact ⟨x == y, by simp_all [same?, fullName?]⟩

end TypeRef

/-! ## Words and marks -/

/-- The characters that have a meaning in the names of types. -/
def typeMarks : List Char :=
  ['.', '/', '<', '>', ',', '&', '*', '[', ']', '!']

/-- No mark occurs in the text. -/
def IsBare (s : String) : Prop :=
  ∀ c ∈ s.toList, c ∉ typeMarks

instance (s : String) : Decidable (IsBare s) :=
  inferInstanceAs (Decidable (∀ c ∈ s.toList, c ∉ typeMarks))

/-- A word of a name. -/
structure IsWord (s : String) : Prop where
  /-- it has no marks -/
  bare : IsBare s
  /-- it is not empty -/
  ne : s ≠ ""

instance (s : String) : Decidable (IsWord s) :=
  decidable_of_iff (IsBare s ∧ s ≠ "")
    ⟨fun h => ⟨h.1, h.2⟩, fun h => ⟨h.bare, h.ne⟩⟩

/-- Dots stand between the words of a namespace; there may be none. -/
def IsNamespace (s : String) : Prop :=
  ∃ ws : List String, (∀ w ∈ ws, IsWord w) ∧ ".".intercalate ws = s

/-- The own name of a type is a word.  A compiler puts another one in angle
brackets before it, or just the brackets. -/
inductive IsTypeName : String → Prop where
  /-- the word alone -/
  | plain {w : String} : IsWord w → IsTypeName w
  /-- the word behind brackets -/
  | tagged {tag w : String} : IsBare tag → IsWord w →
    IsTypeName ("<" ++ tag ++ ">" ++ w)

/-- The text is empty or starts with one of the characters. -/
def StartsIn (marks r : List Char) : Prop :=
  ∀ c ∈ r.head?, c ∈ marks

variable {r r' : List Char} {marks : List Char} {w w' n n' : String} {c : Char}

@[simp]
theorem startsIn_nil : StartsIn marks [] :=
  nofun

@[simp]
theorem startsIn_cons : StartsIn marks (c :: r) ↔ c ∈ marks := by
  simp [StartsIn]

theorem StartsIn.mono {more : List Char} (hr : StartsIn marks r)
    (h : marks ⊆ more) :
    StartsIn more r :=
  fun c hc => h (hr c hc)

theorem toList_intercalate_cons (between s : String) (ss : List String) :
    (between.intercalate (s :: ss)).toList =
      s.toList ++ ss.flatMap fun s => between.toList ++ s.toList := by
  induction ss generalizing s with
  | nil => simp [String.intercalate_singleton]
  | cons s' ss ih =>
    rw [String.intercalate_cons_cons, String.toList_append,
      String.toList_append, ih]
    simp

/-- A text without marks ends where the first mark stands. -/
theorem IsBare.append_inj (hw : IsBare w) (hw' : IsBare w')
    (hr : StartsIn typeMarks r) (hr' : StartsIn typeMarks r')
    (h : w.toList ++ r = w'.toList ++ r') : w = w' ∧ r = r' := by
  have htake : ∀ {s : String} {t : List Char}, IsBare s → StartsIn typeMarks t →
      (s.toList ++ t).takeWhile (· ∉ typeMarks) = s.toList := by
    intro s t hs ht
    rw [List.takeWhile_append_of_pos fun c hc => by simpa using hs c hc]
    cases t with
    | nil => simp
    | cons c t => simp [startsIn_cons.1 ht]
  obtain rfl : w = w' := String.toList_inj.1 <| by
    rw [← htake hw hr, h, htake hw' hr']
  exact ⟨rfl, List.append_cancel_left h⟩

/-- A word starts with a character that is no mark. -/
theorem IsWord.exists_cons (hw : IsWord w) :
    ∃ c cs, w.toList = c :: cs ∧ c ∉ typeMarks := by
  cases hc : w.toList with
  | nil => exact absurd (String.toList_eq_nil_iff.1 hc) hw.ne
  | cons c cs => exact ⟨c, cs, rfl, hw.bare c (by simp [hc])⟩

/-- A word in front of some text is no mark in front of another. -/
theorem IsWord.append_ne_cons (hw : IsWord w) (hc : c ∈ typeMarks) :
    w.toList ++ r ≠ c :: r' := by
  obtain ⟨d, ds, hd, hmark⟩ := hw.exists_cons
  intro h
  rw [hd] at h
  exact hmark ((List.cons.inj h).1 ▸ hc)

theorem IsTypeName.append_inj (hn : IsTypeName n) (hn' : IsTypeName n')
    (hr : StartsIn typeMarks r) (hr' : StartsIn typeMarks r')
    (h : n.toList ++ r = n'.toList ++ r') : n = n' ∧ r = r' := by
  cases hn with
  | plain hw =>
    cases hn' with
    | plain hw' => exact hw.bare.append_inj hw'.bare hr hr' h
    | tagged _ _ =>
      simp only [String.toList_append, List.append_assoc] at h
      exact absurd h (hw.append_ne_cons (by decide))
  | tagged ht hw =>
    cases hn' with
    | plain hw' =>
      simp only [String.toList_append, List.append_assoc] at h
      exact absurd h.symm (hw'.append_ne_cons (by decide))
    | tagged ht' hw' =>
      simp only [String.toList_append, List.append_assoc] at h
      obtain ⟨rfl, hwords⟩ := ht.append_inj ht' (by simp [typeMarks])
        (by simp [typeMarks]) (List.cons.inj h).2
      obtain ⟨rfl, rfl⟩ := hw.bare.append_inj hw'.bare hr hr'
        (List.cons.inj hwords).2
      exact ⟨rfl, rfl⟩

/-! ## Open names -/

/-- What can follow the own name of a type. -/
def marksAfterName : List Char :=
  ['/', '<', '>', ',', '&', '*', '[']

/-- What can follow the name of a type without its arguments. -/
def marksAfterPath : List Char :=
  ['<', '>', ',', '&', '*', '[']

/-- Words with a dot behind each. -/
def dotted (ws : List String) : List Char :=
  ws.flatMap fun w => w.toList ++ ['.']

/-- Names with a slash before each. -/
def slashes (ns : List String) : List Char :=
  ns.flatMap fun n => '/' :: n.toList

/-- A name that ends is not the first word of a namespace. -/
theorem IsTypeName.append_ne (hn : IsTypeName n) (hw : IsWord w)
    (hr : StartsIn marksAfterName r) :
    n.toList ++ r ≠ w.toList ++ '.' :: r' := by
  intro h
  cases hn with
  | plain hn =>
    obtain ⟨-, rfl⟩ := hn.bare.append_inj hw.bare (hr.mono (by decide))
      (by simp [typeMarks]) h
    exact absurd (startsIn_cons.1 hr) (by decide)
  | tagged _ _ =>
    simp only [String.toList_append, List.append_assoc] at h
    exact absurd h.symm (hw.append_ne_cons (by decide))

/-- The words of a namespace and the name behind them. -/
theorem dotted_append_inj {ws ws' : List String} (hws : ∀ w ∈ ws, IsWord w)
    (hws' : ∀ w ∈ ws', IsWord w) (hn : IsTypeName n) (hn' : IsTypeName n')
    (hr : StartsIn marksAfterName r) (hr' : StartsIn marksAfterName r')
    (h : dotted ws ++ (n.toList ++ r) = dotted ws' ++ (n'.toList ++ r')) :
    ws = ws' ∧ n = n' ∧ r = r' := by
  induction ws generalizing ws' with
  | nil =>
    cases ws' with
    | nil =>
      exact ⟨rfl, hn.append_inj hn' (hr.mono (by decide))
        (hr'.mono (by decide)) h⟩
    | cons w' ws' =>
      rw [dotted, dotted, List.flatMap_nil, List.nil_append, List.flatMap_cons,
        List.append_assoc, List.append_assoc] at h
      exact absurd h (hn.append_ne (List.forall_mem_cons.1 hws').1 hr)
  | cons w ws ih =>
    obtain ⟨hw, hws⟩ := List.forall_mem_cons.1 hws
    cases ws' with
    | nil =>
      rw [dotted, dotted, List.flatMap_nil, List.nil_append, List.flatMap_cons,
        List.append_assoc, List.append_assoc] at h
      exact absurd h.symm (hn'.append_ne hw hr')
    | cons w' ws' =>
      rw [List.forall_mem_cons] at hws'
      simp only [dotted, List.flatMap_cons, List.append_assoc] at h
      obtain ⟨rfl, hwords⟩ :=
        hw.bare.append_inj hws'.1.bare (by simp [typeMarks])
          (by simp [typeMarks]) h
      obtain ⟨rfl, hrest⟩ := ih hws hws'.2 (List.cons.inj hwords).2
      exact ⟨rfl, hrest⟩

theorem startsIn_slashes {ns : List String} (hr : StartsIn marksAfterPath r) :
    StartsIn marksAfterName (slashes ns ++ r) := by
  cases ns with
  | nil => exact hr.mono (by decide)
  | cons n ns => simp [slashes, marksAfterName]

theorem slashes_append_inj {ns ns' : List String} (hns : ∀ n ∈ ns, IsTypeName n)
    (hns' : ∀ n ∈ ns', IsTypeName n) (hr : StartsIn marksAfterPath r)
    (hr' : StartsIn marksAfterPath r')
    (h : slashes ns ++ r = slashes ns' ++ r') :
    ns = ns' ∧ r = r' := by
  induction ns generalizing ns' with
  | nil =>
    cases ns' with
    | nil => exact ⟨rfl, h⟩
    | cons n' ns' =>
      obtain rfl : r = '/' :: (n'.toList ++ (slashes ns' ++ r')) := by
        simpa [slashes] using h
      exact absurd (startsIn_cons.1 hr) (by decide)
  | cons n ns ih =>
    obtain ⟨hn, hns⟩ := List.forall_mem_cons.1 hns
    cases ns' with
    | nil =>
      obtain rfl : r' = '/' :: (n.toList ++ (slashes ns ++ r)) := by
        simpa [slashes] using h.symm
      exact absurd (startsIn_cons.1 hr') (by decide)
    | cons n' ns' =>
      rw [List.forall_mem_cons] at hns'
      have hnames : n.toList ++ (slashes ns ++ r) = n'.toList ++
          (slashes ns' ++ r') := by
        simpa [slashes] using h
      obtain ⟨rfl, hmore⟩ := hn.append_inj hns'.1
        ((startsIn_slashes hr).mono (by decide))
          ((startsIn_slashes hr').mono (by decide)) hnames
      obtain ⟨rfl, hrest⟩ := ih hns hns'.2 hmore
      exact ⟨rfl, hrest⟩

/-- A name with its namespace in front of it. -/
theorem toList_namespace {ws : List String} (hws : ∀ w ∈ ws, IsWord w) :
    (if ".".intercalate ws = "" then n else ".".intercalate ws ++ "." ++
      n).toList = dotted ws ++ n.toList := by
  cases ws with
  | nil => rfl
  | cons w ws =>
    have hne : ".".intercalate (w :: ws) ≠ "" := by
      obtain ⟨c, cs, hc, -⟩ := (hws w (List.mem_cons_self ..)).exists_cons
      rw [Ne, ← String.toList_inj, toList_intercalate_cons, hc]
      exact List.cons_ne_nil _ _
    have hdots : ∀ ws : List String,
      (ws.flatMap fun w => ".".toList ++ w.toList) ++ ['.'] =
        '.' :: dotted ws := by
      intro ws
      induction ws with
      | nil => rfl
      | cons w ws ih => simpa [dotted] using ih
    rw [if_neg hne, String.toList_append, String.toList_append,
      toList_intercalate_cons, List.append_assoc w.toList]
    show w.toList ++ (_ ++ ['.']) ++ _ = _
    rw [hdots]
    simp [dotted]

/-- The parts of an open name. -/
structure TypePath where
  /-- the words of the namespace -/
  words : List String
  /-- the outermost type -/
  outermost : String
  /-- the types in it, one in another -/
  inner : List String

namespace TypePath

variable {p p' : TypePath}

/-- The parts are words and names. -/
structure Legible (p : TypePath) : Prop where
  words : ∀ w ∈ p.words, IsWord w
  outermost : IsTypeName p.outermost
  inner : ∀ n ∈ p.inner, IsTypeName n

/-- The open name. -/
def text (p : TypePath) : List Char :=
  dotted p.words ++ (p.outermost.toList ++ slashes p.inner)

/-- A type in the last one. -/
def nest (p : TypePath) (n : String) : TypePath :=
  { p with inner := p.inner ++ [n] }

/-- A reference that has the name. -/
def ref (p : TypePath) : TypeRef :=
  p.inner.foldl (TypeRef.nestedIn · · false)
    (.ofName (".".intercalate p.words) p.outermost false)

theorem ref_nest (p : TypePath) (n : String) :
    (p.nest n).ref = .nestedIn p.ref n false := by
  simp [ref, nest]

theorem text_nest (p : TypePath) (n : String) :
    (p.nest n).text = p.text ++ '/' :: n.toList := by
  simp [text, nest, slashes]

theorem Legible.nest (hp : p.Legible) (hn : IsTypeName n) :
    (p.nest n).Legible where
  words := hp.words
  outermost := hp.outermost
  inner m hm := by
    rcases List.mem_append.1 hm with hm | hm
    · exact hp.inner m hm
    · rwa [List.mem_singleton.1 hm]

/-- An open name tells its parts. -/
theorem append_inj (hp : p.Legible) (hp' : p'.Legible)
    (hr : StartsIn marksAfterPath r) (hr' : StartsIn marksAfterPath r')
    (h : p.text ++ r = p'.text ++ r') : p = p' ∧ r = r' := by
  rcases p with ⟨ws, n, ns⟩
  rcases p' with ⟨ws', n', ns'⟩
  simp only [text, List.append_assoc] at h
  obtain ⟨rfl, rfl, hinner⟩ := dotted_append_inj hp.words hp'.words hp.outermost
    hp'.outermost (startsIn_slashes hr) (startsIn_slashes hr') h
  obtain ⟨rfl, hrest⟩ := slashes_append_inj hp.inner hp'.inner hr hr' hinner
  exact ⟨rfl, hrest⟩

/-- An open name starts like a word or with an angle bracket. -/
theorem text_append_ne_cons (hp : p.Legible) (hc : c ∈ typeMarks)
    (hopen : c ≠ '<') :
    p.text ++ r ≠ c :: r' := by
  rcases p with ⟨ws, n, ns⟩
  intro h
  simp only [text, List.append_assoc] at h
  cases ws with
  | cons w ws =>
    simp only [dotted, List.flatMap_cons, List.append_assoc] at h
    exact absurd h ((hp.words w (List.mem_cons_self ..)).append_ne_cons hc)
  | nil =>
    have hname : IsTypeName n := hp.outermost
    cases hname with
    | plain hw => exact absurd h (hw.append_ne_cons hc)
    | tagged _ _ =>
      simp only [String.toList_append, List.append_assoc] at h
      exact hopen (List.cons.inj h).1.symm

end TypePath

/-! ## Wrappers -/

/-- What can follow the name of a type. -/
def marksAfterType : List Char :=
  ['>', ',']

/-- What can follow the name of the type that wrappers stand around. -/
def marksAfterElement : List Char :=
  ['>', ',', '&', '*', '[']

/-- The marks of wrappers, of the innermost first. -/
def wrapperMarks (ks : List Wrapper) : List Char :=
  ks.flatMap (·.mark.toList)

theorem startsIn_wrapperMarks {ks : List Wrapper}
    (hr : StartsIn marksAfterType r) :
    StartsIn marksAfterElement (wrapperMarks ks ++ r) := by
  cases ks with
  | nil => exact hr.mono (by decide)
  | cons k ks =>
    cases k <;> simp [wrapperMarks, Wrapper.mark, marksAfterElement]

theorem wrapperMarks_append_inj {ks ks' : List Wrapper}
    (hr : StartsIn marksAfterType r) (hr' : StartsIn marksAfterType r')
    (h : wrapperMarks ks ++ r = wrapperMarks ks' ++ r') :
    ks = ks' ∧ r = r' := by
  -- the mark of a wrapper does not end a name
  have hmark : ∀ {k : Wrapper} {s t : List Char}, StartsIn marksAfterType s →
      s ≠ k.mark.toList ++ t := by
    rintro k s t hs rfl
    cases k <;> exact absurd (startsIn_cons.1 hs) (by decide)
  induction ks generalizing ks' with
  | nil =>
    cases ks' with
    | nil => exact ⟨rfl, h⟩
    | cons k' ks' =>
      rw [wrapperMarks, wrapperMarks, List.flatMap_cons, List.append_assoc] at h
      exact absurd h (hmark hr)
  | cons k ks ih =>
    cases ks' with
    | nil =>
      rw [wrapperMarks, wrapperMarks, List.flatMap_cons, List.append_assoc] at h
      exact absurd h.symm (hmark hr')
    | cons k' ks' =>
      simp only [wrapperMarks, List.flatMap_cons, List.append_assoc] at h
      obtain rfl : k = k' := by
        cases k <;> cases k' <;>
          first
          | rfl
          | exact absurd (List.cons.inj h).1 (by decide)
      obtain ⟨rfl, hrest⟩ := ih (List.append_cancel_left h)
      exact ⟨rfl, hrest⟩

/-! ## Legible references -/

namespace TypeRef

mutual

/-- The reference without the flags of value types and the arguments of
declaring types. -/
def shape : TypeRef → TypeRef
  | absent => absent
  | named ns n _ o as => named ns n false o.shape.opened (shapes as)
  | wrapped k e as => wrapped k e.shape (shapes as)
  | param o p as => param o p (shapes as)

/-- The references without these. -/
def shapes : List TypeRef → List TypeRef
  | [] => []
  | t :: ts => t.shape :: shapes ts

end

/-- The reference has no absent parts, and the marks of names occur in its names
only as the brackets and dots that belong there. -/
inductive Legible : TypeRef → Prop where
  /-- a type of a namespace -/
  | top {ns n : String} {v : Bool} {as : List TypeRef} : IsNamespace ns →
    IsTypeName n →
      (∀ a ∈ as, Legible a) → Legible (named ns n v absent as)
  /-- a type in another one, which has the namespace -/
  | nested {n : String} {v : Bool} {o : TypeRef} {as : List TypeRef} :
    IsTypeName n →
      Legible o → o.isNamed → (∀ a ∈ as, Legible a) →
      Legible (named "" n v o as)
  /-- a wrapper -/
  | wrapped {k : Wrapper} {e : TypeRef} : Legible e → Legible (wrapped k e [])
  /-- a parameter -/
  | param {o : ParamOwner} {p : Int} : Legible (param o p [])

/-- The reference with wrappers around it, the first one innermost. -/
def wrapAll (ks : List Wrapper) (t : TypeRef) : TypeRef :=
  ks.foldl (fun t k => .wrapped k t []) t

/-- The name, if there is one. -/
def text (t : TypeRef) : String :=
  t.name?.getD ""

/-- The characters of arguments behind a first one, and what follows them. -/
def argsTail (as : List TypeRef) (r : List Char) : List Char :=
  (as.flatMap fun a => ',' :: a.text.toList) ++ '>' :: r

/-- The characters of arguments, and what follows them. -/
def argsText : List TypeRef → List Char → List Char
  | [], r => r
  | a :: as, r => '<' :: (a.text.toList ++ argsTail as r)

variable {t o e : TypeRef} {as as' : List TypeRef} {ks : List Wrapper}

theorem shape_wrapAll : (wrapAll ks t).shape = wrapAll ks t.shape := by
  induction ks generalizing t with
  | nil => rfl
  | cons k ks ih => exact ih

theorem ne_absent_of_isNamed (h : t.isNamed = true) : t ≠ absent := by
  rintro rfl
  cases h

theorem text_eq {s : String} (h : t.name? = some s) : t.text = s := by
  rw [text, h]
  rfl

theorem Legible.name?_eq (h : t.Legible) : t.name? = some t.text := by
  suffices hs : ∃ s, t.name? = some s by
    obtain ⟨s, hs⟩ := hs
    rw [text_eq hs, hs]
  have hargs : ∀ {as : List TypeRef}, (∀ a ∈ as, ∃ s, a.name? = some s) →
      ∃ ss, names? as = some ss := by
    intro as has
    induction as with
    | nil => exact ⟨[], rfl⟩
    | cons a as ih =>
      obtain ⟨⟨s, hs⟩, has⟩ := List.forall_mem_cons.1 has
      obtain ⟨ss, hss⟩ := ih has
      exact ⟨s :: ss, by simp [names?, hs, hss]⟩
  have hnamed : ∀ {ns n v o} {as : List TypeRef},
    (∀ a ∈ as, ∃ s, a.name? = some s) →
      ∃ s, (named ns n v o as).name? = some s := by
    intro ns n v o as has
    cases as with
    | nil => exact ⟨_, rfl⟩
    | cons a as =>
      obtain ⟨⟨s, hs⟩, has⟩ := List.forall_mem_cons.1 has
      obtain ⟨ss, hss⟩ := hargs has
      exact ⟨_, by simp [name?, hs, hss]; rfl⟩
  induction h with
  | top _ _ _ ih => exact hnamed ih
  | nested _ _ _ _ _ ih => exact hnamed ih
  | wrapped _ ih =>
    obtain ⟨s, hs⟩ := ih
    exact ⟨_, by rw [name?, hs]; rfl⟩
  | param => exact ⟨_, rfl⟩

theorem names?_eq (has : ∀ a ∈ as, Legible a) :
    names? as = some (as.map text) := by
  induction as with
  | nil => rfl
  | cons a as ih =>
    obtain ⟨ha, has⟩ := List.forall_mem_cons.1 has
    simp [names?, ha.name?_eq, ih has]

theorem text_named {ns n : String} {v : Bool} (has : ∀ a ∈ as, Legible a) :
    (named ns n v o as).text.toList ++ r =
      (named ns n v o as).openName.toList ++ argsText as r := by
  cases as with
  | nil => rfl
  | cons a as =>
    obtain ⟨ha, has⟩ := List.forall_mem_cons.1 has
    have hname : (named ns n v o (a :: as)).name? =
        some ((named ns n v o (a :: as)).openName ++ "<" ++
          ",".intercalate (a.text :: as.map text) ++ ">") := by
      simp [name?, ha.name?_eq, names?_eq has]
    rw [text_eq hname]
    simp only [String.toList_append, toList_intercalate_cons, List.flatMap_map,
      argsText, argsTail, List.append_assoc]
    rfl

theorem text_wrapAll (ht : t.Legible) :
    (wrapAll ks t).text.toList = t.text.toList ++ wrapperMarks ks := by
  induction ks generalizing t with
  | nil => simp [wrapAll, wrapperMarks]
  | cons k ks ih =>
    have hname : (TypeRef.wrapped k t []).name? = some (t.text ++ k.mark) := by
      simp [name?, ht.name?_eq]
    show (wrapAll ks (.wrapped k t [])).text.toList = _
    rw [ih ht.wrapped, text_eq hname, String.toList_append, wrapperMarks,
      wrapperMarks, List.flatMap_cons, List.append_assoc]

/-- What wrappers stand around is a named type or a parameter. -/
theorem Legible.exists_wrapAll (h : t.Legible) :
    ∃ ks e, t = wrapAll ks e ∧ e.Legible ∧
    (e.isNamed = true ∨ e.isParam = true) := by
  induction h with
  | top hns hn has => exact ⟨[], _, rfl, .top hns hn has, .inl rfl⟩
  | nested hn ho hnamed has =>
    exact ⟨[], _, rfl, .nested hn ho hnamed has, .inl rfl⟩
  | @wrapped k e _ ih =>
    obtain ⟨ks, e, rfl, he, hkind⟩ := ih
    exact ⟨ks ++ [k], e, by simp [wrapAll], he, hkind⟩
  | param => exact ⟨[], _, rfl, .param, .inr rfl⟩

theorem Legible.args (h : t.Legible) : ∀ a ∈ t.args, Legible a := by
  cases h with
  | top _ _ has => exact has
  | nested _ _ _ has => exact has
  | wrapped => exact nofun
  | param => exact nofun

/-- The open name of a named type has parts, and these are its shape but for the
arguments. -/
theorem Legible.exists_path (h : t.Legible) (hnamed : t.isNamed = true) :
    ∃ p : TypePath, p.Legible ∧ t.openName.toList = p.text ∧
    t.shape.opened = p.ref := by
  induction h with
  | @top ns n v as hns hn _ =>
    obtain ⟨ws, hws, rfl⟩ := hns
    refine ⟨⟨ws, n, []⟩, ⟨hws, hn, by simp⟩, ?_, rfl⟩
    rw [openName, toList_namespace hws]
    simp [TypePath.text, slashes]
  | @nested n v o as hn _ ho _ ih =>
    obtain ⟨p, hp, htext, hshape⟩ := ih ho
    refine ⟨p.nest n, hp.nest hn, ?_, ?_⟩
    · rw [openName.eq_2 _ _ _ _ _ (ne_absent_of_isNamed ho),
        String.toList_append, String.toList_append, htext, TypePath.text_nest]
      simp
    · rw [TypePath.ref_nest, ← hshape]
      rfl
  | wrapped => cases hnamed
  | param => cases hnamed

/-- The name of a named type is its open name and its arguments. -/
theorem Legible.exists_parts (h : t.Legible) (hnamed : t.isNamed = true) :
    ∃ p : TypePath, p.Legible ∧
    (∀ r, t.text.toList ++ r = p.text ++ argsText t.args r) ∧
      t.shape = p.ref.withArgs (shapes t.args) := by
  obtain ⟨p, hp, htext, hshape⟩ := h.exists_path hnamed
  cases t <;> cases hnamed
  rename_i ns n v o as
  refine ⟨p, hp, fun r => ?_, ?_⟩
  · have hargs : ∀ a ∈ as, Legible a := h.args
    rw [text_named hargs, htext]
    rfl
  · rw [← hshape]
    rfl

/-! ## Reading names back -/

/-- What the reference is, but for flags and arguments that are not in the name,
can be told from the name, with wrappers around it and other text behind it. -/
def ReadsBack (t : TypeRef) : Prop :=
  ∀ (ks : List Wrapper) (o : TypeRef) (r r' : List Char), o.Legible →
    StartsIn marksAfterType r → StartsIn marksAfterType r' →
    (wrapAll ks t).text.toList ++ r = o.text.toList ++ r' →
      (wrapAll ks t).shape = o.shape ∧ r = r'

theorem startsIn_argsTail : StartsIn marksAfterType (argsTail as r) := by
  cases as <;> simp [argsTail, marksAfterType]

theorem startsIn_argsText (hr : StartsIn marksAfterElement r) :
    StartsIn marksAfterPath (argsText as r) := by
  cases as with
  | nil => exact hr.mono (by decide)
  | cons => simp [argsText, marksAfterPath]

theorem argsTail_cons (a : TypeRef) (as : List TypeRef) :
    argsTail (a :: as) r = ',' :: (a.text.toList ++ argsTail as r) := by
  simp [argsTail]

theorem argsTail_inj (has : ∀ a ∈ as, ReadsBack a) (has' : ∀ a ∈ as', Legible a)
    (h : argsTail as r = argsTail as' r') :
    shapes as = shapes as' ∧ r = r' := by
  induction as generalizing as' with
  | nil =>
    cases as' with
    | nil => exact ⟨rfl, (List.cons.inj h).2⟩
    | cons a' as' => exact absurd (List.cons.inj h).1 (by decide)
  | cons a as ih =>
    cases as' with
    | nil => exact absurd (List.cons.inj h).1 (by decide)
    | cons a' as' =>
      obtain ⟨ha, has⟩ := List.forall_mem_cons.1 has
      obtain ⟨ha', has'⟩ := List.forall_mem_cons.1 has'
      rw [argsTail_cons, argsTail_cons] at h
      obtain ⟨hshape, htail⟩ :=
        ha [] a' _ _ ha' startsIn_argsTail startsIn_argsTail (List.cons.inj h).2
      obtain ⟨hshapes, hrest⟩ := ih has has' htail
      exact ⟨congrArg₂ List.cons hshape hshapes, hrest⟩

theorem argsText_inj (has : ∀ a ∈ as, ReadsBack a) (has' : ∀ a ∈ as', Legible a)
    (hr : StartsIn marksAfterElement r) (hr' : StartsIn marksAfterElement r')
    (h : argsText as r = argsText as' r') :
    shapes as = shapes as' ∧ r = r' := by
  cases as with
  | nil =>
    cases as' with
    | nil => exact ⟨rfl, h⟩
    | cons a' as' =>
      obtain rfl : r = _ := h
      exact absurd (startsIn_cons.1 hr) (by decide)
  | cons a as =>
    cases as' with
    | nil =>
      obtain rfl : r' = _ := h.symm
      exact absurd (startsIn_cons.1 hr') (by decide)
    | cons a' as' =>
      -- behind the bracket the first argument stands like those behind a comma
      exact argsTail_inj has has'
        (by rw [argsTail_cons, argsTail_cons, (List.cons.inj h).2])

/-- It is enough to read what wrappers stand around in front of the marks of
wrappers. -/
theorem Legible.readsBack_of_element (ht : t.Legible)
    (h : ∀ (e : TypeRef) (r r' : List Char), e.Legible →
      (e.isNamed = true ∨ e.isParam = true) → StartsIn marksAfterElement r →
      StartsIn marksAfterElement r' →
        t.text.toList ++ r = e.text.toList ++ r' → t.shape = e.shape ∧
        r = r') : t.ReadsBack := by
  intro ks o r r' ho hr hr' htext
  obtain ⟨ks', e, rfl, he, hkind⟩ := ho.exists_wrapAll
  rw [text_wrapAll ht, text_wrapAll he, List.append_assoc, List.append_assoc]
    at htext
  obtain ⟨hshape, hmarks⟩ := h e _ _ he hkind (startsIn_wrapperMarks hr)
    (startsIn_wrapperMarks hr') htext
  obtain ⟨rfl, rfl⟩ := wrapperMarks_append_inj hr hr' hmarks
  exact ⟨by rw [shape_wrapAll, shape_wrapAll, hshape], rfl⟩

theorem isWord_toString (p : Int) : IsWord (toString p) where
  bare c hc hmark := by
    rcases digit_of_mem_toString hc with hdigit | rfl
    · simp only [typeMarks, List.mem_cons, List.not_mem_nil, or_false] at hmark
      rcases hmark with rfl | rfl | rfl | rfl | rfl | rfl | rfl | rfl |
        rfl | rfl <;> revert hdigit <;> decide
    · revert hmark
      decide
  ne := by
    rw [Int.toString_eq_repr, Int.repr_eq_if]
    split
    · exact Nat.repr_ne_empty
    · simp

/-- A named type stands apart from a parameter. -/
theorem Legible.text_ne_param (ht : t.Legible) (hnamed : t.isNamed = true)
    {w : ParamOwner} {p : Int} :
    t.text.toList ++ r ≠ (TypeRef.param w p []).text.toList ++ r' := by
  obtain ⟨q, hq, htext, -⟩ := ht.exists_parts hnamed
  have hmark : (TypeRef.param w p []).text.toList ++ r' =
      '!' :: ((TypeRef.param w p []).text.toList.tail ++ r') := by
    cases w <;> simp [text, name?, ParamOwner.mark]
  rw [htext, hmark]
  exact TypePath.text_append_ne_cons hq (by decide) (by decide)

theorem readsBack_param {w : ParamOwner} {p : Int} :
    (TypeRef.param w p []).ReadsBack := by
  refine Legible.param.readsBack_of_element fun e r r' he hkind hr hr' h => ?_
  rcases hkind with hnamed | hparam
  · exact absurd h.symm (he.text_ne_param hnamed)
  cases he <;> cases hparam
  rename_i w' p'
  have hword : ∀ {x y : Int}, (toString x).toList ++ r =
    (toString y).toList ++ r' →
      x = y ∧ r = r' := by
    intro x y h
    obtain ⟨hxy, hrest⟩ := (isWord_toString x).bare.append_inj
      (isWord_toString y).bare (hr.mono (by decide)) (hr'.mono (by decide)) h
    exact ⟨toString_int_inj (congrArg _ hxy), hrest⟩
  cases w <;> cases w'
  all_goals
    simp only [text, name?, Option.getD_some, String.toList_append,
      List.append_assoc] at h
  · obtain ⟨rfl, rfl⟩ := hword (List.cons.inj h).2
    exact ⟨rfl, rfl⟩
  · exact absurd (List.cons.inj h).2 ((isWord_toString p).append_ne_cons
      (by decide))
  · exact absurd (List.cons.inj h).2.symm ((isWord_toString p').append_ne_cons
      (by decide))
  · obtain ⟨rfl, rfl⟩ := hword (List.cons.inj (List.cons.inj h).2).2
    exact ⟨rfl, rfl⟩

theorem Legible.readsBack_named (ht : t.Legible) (hnamed : t.isNamed = true)
    (has : ∀ a ∈ t.args, ReadsBack a) : t.ReadsBack := by
  refine ht.readsBack_of_element fun e r r' he hkind hr hr' h => ?_
  rcases hkind with hnamed' | hparam
  · obtain ⟨p, hp, htext, hshape⟩ := ht.exists_parts hnamed
    obtain ⟨p', hp', htext', hshape'⟩ := he.exists_parts hnamed'
    rw [htext, htext'] at h
    obtain ⟨rfl, hargs⟩ := TypePath.append_inj hp hp' (startsIn_argsText hr)
      (startsIn_argsText hr') h
    obtain ⟨hshapes, hrest⟩ := argsText_inj has he.args hr hr' hargs
    exact ⟨by rw [hshape, hshape', hshapes], hrest⟩
  · cases he <;> cases hparam
    exact absurd h (ht.text_ne_param hnamed)

theorem Legible.readsBack (h : t.Legible) : t.ReadsBack := by
  induction h with
  | top hns hn has ih => exact (Legible.top hns hn has).readsBack_named rfl ih
  | nested hn ho hnamed has _ ih =>
    exact (Legible.nested hn ho hnamed has).readsBack_named rfl ih
  | @wrapped k e _ ih => exact fun ks => ih (k :: ks)
  | param => exact readsBack_param

/-- Flags of value types and arguments of declaring types are not in the open
name. -/
theorem openName_shape (t : TypeRef) : t.shape.openName = t.openName := by
  have hopened : ∀ t : TypeRef, t.opened.openName = t.openName := by
    intro t
    cases t with
    | named ns n v o as => cases o <;> rfl
    | _ => rfl
  cases t with
  | named ns n v o as =>
    by_cases habsent : o = absent
    · subst habsent
      rfl
    · have hpresent : o.shape.opened ≠ absent := by
        cases o <;> simp [shape, opened, withArgs] at habsent ⊢
      rw [openName.eq_2 _ _ _ _ _ habsent, shape,
        openName.eq_2 _ _ _ _ _ hpresent, hopened, openName_shape o]
  | _ => rfl

mutual

/-- Neither are they in the name. -/
theorem name?_shape (t : TypeRef) : t.shape.name? = t.name? := by
  cases t with
  | absent => rfl
  | param => rfl
  | wrapped k e as => rw [shape, name?, name?, name?_shape e]
  | named ns n v o as =>
    have hopen := openName_shape (named ns n v o as)
    cases as with
    | nil => exact congrArg some hopen
    | cons a as =>
      rw [shape, shapes] at hopen ⊢
      rw [name?, name?, hopen, name?_shape a, names?_shapes as]

theorem names?_shapes (ts : List TypeRef) : names? (shapes ts) = names? ts := by
  cases ts with
  | nil => rfl
  | cons t ts => rw [shapes, names?, names?, name?_shape t, names?_shapes ts]

end

/-- Two legible references are the same type exactly if they differ in no more
than flags of value types and arguments of declaring types. -/
theorem same?_eq_shape (ht : t.Legible) (ho : o.Legible) :
    t.same? o = some (t.shape == o.shape) := by
  have habsent : ∀ {t : TypeRef}, t.Legible → t ≠ absent := by
    rintro _ ht rfl
    cases ht
  rw [same?_of_ne_absent (habsent ht) (habsent ho), ht.name?_eq, ho.name?_eq]
  show some (t.text == o.text) = _
  rw [Option.some.injEq, Bool.eq_iff_iff, beq_iff_eq, beq_iff_eq]
  constructor
  · intro h
    exact (ht.readsBack [] o [] [] ho startsIn_nil startsIn_nil
      (by rw [← h]; rfl)).1
  · intro h
    rw [text, text, ← name?_shape, h, name?_shape]

/-- A closure in a generic type. -/
def closureIn (outerArgs : List TypeRef) (v : Bool) (a : TypeRef) : TypeRef :=
  .named "" "<>c__DisplayClass0_0" v (.named "Game.Jobs" "Box" v .absent
    outerArgs) [a]

theorem same?_eq_shape_closure :
    (closureIn [.typeParam 0] true (.byRef (.array (.methodParam 1)))).same?
        (closureIn [] false (.byRef (.array (.methodParam 1)))) = some true ∧
      (closureIn [] true (.byRef (.array (.methodParam 1)))).same?
        (closureIn [] true (.array (.byRef (.methodParam 1)))) =
          some false := by
  have hns : IsNamespace "Game.Jobs" := by
    refine ⟨["Game", "Jobs"], ?_, by cbv⟩
    rw [List.forall_mem_cons, List.forall_mem_singleton]
    constructor <;> exact ⟨by simp [IsBare, typeMarks], by simp⟩
  have hbox : IsTypeName "Box" := .plain ⟨by simp [IsBare, typeMarks], by simp⟩
  have hname : IsTypeName "<>c__DisplayClass0_0" :=
    @IsTypeName.tagged "" "c__DisplayClass0_0" (by simp [IsBare])
      ⟨by simp [IsBare, typeMarks], by simp⟩
  have hclosure : ∀ {outerArgs v a}, (∀ b ∈ outerArgs, Legible b) → a.Legible →
      (closureIn outerArgs v a).Legible := fun hargs ha =>
    .nested hname (.top hns hbox hargs) rfl (by simpa using ha)
  have hparam : Legible (.typeParam 0) := .param
  have hbyRef : Legible (.byRef (.array (.methodParam 1))) :=
    .wrapped (.wrapped .param)
  have harray : Legible (.array (.byRef (.methodParam 1))) :=
    .wrapped (.wrapped .param)
  constructor
  · rw [same?_eq_shape (hclosure (by simpa using hparam) hbyRef)
      (hclosure (by simp) hbyRef)]
    rfl
  · rw [same?_eq_shape (hclosure (by simp) hbyRef) (hclosure (by simp) harray)]
    rfl

end TypeRef

end JobWeave
