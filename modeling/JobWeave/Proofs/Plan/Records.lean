import Mathlib
import JobWeave.Proofs.Plan.PathText
import JobWeave.Proofs.Plan.Paths

/-!
# Records of captured variables

The struct has a field for each captured variable, and the plan a record that
says which.  The variable is known by the full names of the fields on the path
to it, and its field by its name.

* `Workspace.Separates` says that no two records are of one variable, and no two
  have one field. A new variable with a field of its own may be added, by
  `Workspace.Separates.snoc`.
* `Body.Redirected` says that some accesses in code were pointed at the fields
  of their variables; `Body.Redirected.snoc` adds one more.
* `Workspace.TellsApart` says of several methods that two of their accesses have
  one field just if they are to one variable.
-/

namespace JobWeave

/-! ## Records -/

/-- A list has a record of the variable with some full names on its path, in
some field. -/
def CapturedVariable.Recorded (vs : List CapturedVariable)
    (names : List (Option String)) (f : FieldRef) : Prop :=
  ∃ x ∈ vs, x.path.map FieldRef.fullName? = names ∧ x.field = f

/-- The records are of different variables, and each has a field of the struct
for itself, with the type of the variable. -/
structure Workspace.Separates (V : Workspace) (job : TypeId)
    (fs : List FieldDef) (vs : List CapturedVariable) : Prop where
  /-- the variables -/
  paths : (vs.map fun x => x.path.map FieldRef.fullName?).Nodup
  /-- the names of their fields -/
  names : (vs.map fun x => x.field.name).Nodup
  /-- the fields -/
  fields : ∀ x ∈ vs, ∃ f ∈ fs, x.field = V.fieldRef job f ∧
    x.leaf.resolvedType? = some f.type
  /-- the names on the paths -/
  plain : ∀ x ∈ vs, ∀ f ∈ x.path, f.hasPlainNames

namespace Workspace.Separates

variable {V : Workspace} {job : TypeId} {fs : List FieldDef}
  {vs : List CapturedVariable}

/-- Two records have one field only if they are of one variable. -/
theorem field_eq_iff (h : V.Separates job fs vs)
    {names names' : List (Option String)} {f f' : FieldRef}
    (hf : CapturedVariable.Recorded vs names f)
    (hf' : CapturedVariable.Recorded vs names' f') :
    f = f' ↔ names = names' := by
  obtain ⟨x, hx, rfl, rfl⟩ := hf
  obtain ⟨x', hx', rfl, rfl⟩ := hf'
  constructor
  · intro heq
    rw [List.inj_on_of_nodup_map h.names hx hx' (congrArg FieldRef.name heq)]
  · intro heq
    rw [List.inj_on_of_nodup_map h.paths hx hx' heq]

/-- A new variable gets a field with a name of its own. -/
theorem snoc (h : V.Separates job fs vs) {f : FieldDef}
    (hf : f.name ∉ fs.map FieldDef.name) {x : CapturedVariable}
    (hfield : x.field = V.fieldRef job f)
    (htype : x.leaf.resolvedType? = some f.type)
    (hplain : ∀ f ∈ x.path, f.hasPlainNames) (hpath : ∀ y ∈ vs,
      y.path.map FieldRef.fullName? ≠ x.path.map FieldRef.fullName?) :
    V.Separates job (fs ++ [f]) (vs ++ [x]) where
  paths := by
    rw [List.map_append, List.nodup_append]
    refine ⟨h.paths, List.nodup_singleton _, ?_⟩
    simpa using hpath
  names := by
    rw [List.map_append, List.nodup_append]
    refine ⟨h.names, List.nodup_singleton _, ?_⟩
    have hold : ∀ y ∈ vs, y.field.name ≠ x.field.name := by
      intro y hy heq
      obtain ⟨g, hg, hgy, -⟩ := h.fields y hy
      rw [hgy, hfield] at heq
      have hname : g.name = f.name := heq
      exact hf (hname ▸ List.mem_map_of_mem hg)
    simpa using hold
  fields := by
    intro y hy
    rcases List.mem_append.1 hy with hy | hy
    · obtain ⟨g, hg, hgy⟩ := h.fields y hy
      exact ⟨g, List.mem_append_left _ hg, hgy⟩
    · cases List.mem_singleton.1 hy
      exact ⟨f, by simp, hfield, htype⟩
  plain := by
    intro y hy
    rcases List.mem_append.1 hy with hy | hy
    · exact h.plain y hy
    · cases List.mem_singleton.1 hy
      exact hplain

/-- What else a record says may change. -/
theorem map (h : V.Separates job fs vs)
    {g : CapturedVariable → CapturedVariable} (hpath : ∀ x, (g x).path = x.path)
    (hleaf : ∀ x, (g x).leaf = x.leaf) (hfield : ∀ x, (g x).field = x.field) :
    V.Separates job fs (vs.map g) where
  paths := by simpa [List.map_map, Function.comp_def, hpath] using h.paths
  names := by simpa [List.map_map, Function.comp_def, hfield] using h.names
  fields := by simpa [hfield, hleaf] using h.fields
  plain := by simpa [hpath] using h.plain

end Workspace.Separates

theorem CapturedVariable.Recorded.snoc {vs : List CapturedVariable}
    {names : List (Option String)} {f : FieldRef} (h : Recorded vs names f)
    (x : CapturedVariable) :
    Recorded (vs ++ [x]) names f := by
  obtain ⟨y, hy, hpath, hfield⟩ := h
  exact ⟨y, List.mem_append_left _ hy, hpath, hfield⟩

theorem CapturedVariable.Recorded.map {vs : List CapturedVariable}
    {names : List (Option String)} {f : FieldRef} (h : Recorded vs names f)
    {g : CapturedVariable → CapturedVariable} (hpath : ∀ x, (g x).path = x.path)
    (hfield : ∀ x, (g x).field = x.field) :
    Recorded (vs.map g) names f := by
  obtain ⟨y, hy, hnames, hf⟩ := h
  exact ⟨g y, List.mem_map_of_mem hy, by rw [hpath, hnames], by rw [hfield, hf]⟩

theorem CapturedVariable.path_ne_nil (x : CapturedVariable) : x.path ≠ [] := by
  simp [path]

theorem Capture.path_ne_nil (c : Capture) : c.path ≠ [] := by
  simp [path]

/-! ## Redirected accesses -/

namespace Body

variable {b b' : Body} {c : Capture} {field : FieldRef}

/-- Idling changes the instructions with some labels. -/
theorem code_idleAll (b : Body) (ls : List Label) :
    ∃ g : Instr → Instr,
      (ls.foldl idleAt b).code = b.code.map g ∧ (∀ i, (g i).label = i.label) ∧
        ∀ i, i.label ∉ ls → g i = i := by
  induction ls generalizing b with
  | nil => exact ⟨id, (List.map_id _).symm, fun _ => rfl, fun _ _ => rfl⟩
  | cons l ls ih =>
    obtain ⟨g, hg, hlabel, hother⟩ := ih (b.idleAt l)
    refine ⟨fun i => g (if i.label == l then i.idle else i), ?_, fun i => ?_,
      fun i hi => ?_⟩
    · rw [List.foldl_cons, hg]
      exact List.map_map
    · show (g _).label = i.label
      rw [hlabel]
      split <;> rfl
    · rw [List.mem_cons, not_or] at hi
      show g _ = i
      rw [if_neg (by simpa using hi.1), hother i hi.2]

/-- Redirecting an access changes its operand, and otherwise only loads on the
way to it. -/
theorem code_redirect (b : Body) (hc : c.label ∉ c.hopLabels) :
    ∃ g : Instr → Instr, (b.redirect c field).code = b.code.map g ∧
    (∀ i, (g i).label = i.label) ∧
      (∀ i, i.label = c.label →
        g i = { i with operand := .field (some field) }) ∧
      ∀ i, i.label ≠ c.label → i.label ∉ c.hopLabels → g i = i := by
  obtain ⟨g, hg, hlabel, hother⟩ := b.code_idleAll c.hopLabels
  refine ⟨fun i => if (g i).label ==
    c.label then { g i with operand := .field (some field) }
    else g i, ?_, fun i => ?_, fun i hi => ?_, fun i hi hhop => ?_⟩
  · rw [redirect, update, hg]
    exact List.map_map
  · dsimp only
    split <;> exact hlabel i
  · dsimp only
    rw [if_pos (by simp [hlabel, hi]), hother i (hi ▸ hc)]
  · dsimp only
    rw [if_neg (by simpa [hlabel] using hi), hother i hhop]

/-- Some accesses were pointed at the fields of their variables. -/
structure Redirected (vs : List CapturedVariable) (done : List Capture)
    (b b' : Body) : Prop where
  /-- the labels stay -/
  labels : b'.code.map Instr.label = b.code.map Instr.label
  /-- the accesses -/
  redirected : ∀ c ∈ done, ∀ i ∈ b.code, i.label = c.label → ∃ f,
    CapturedVariable.Recorded vs (c.path.map FieldRef.fullName?) f ∧
      { i with operand := .field (some f) } ∈ b'.code
  /-- all else but the loads on the way is as it was -/
  kept : ∀ i ∈ b.code, (∀ c ∈ done, i.label ≠ c.label ∧ i.label ∉ c.hopLabels) →
    i ∈ b'.code

variable {vs vs' : List CapturedVariable} {done : List Capture}

theorem Redirected.refl (vs : List CapturedVariable) (b : Body) :
    b.Redirected vs [] b :=
  ⟨rfl, by simp, fun _ hi _ => hi⟩

/-- One more access is pointed at a field. -/
theorem Redirected.snoc (h : b.Redirected vs done b')
    (hgrow : ∀ names f, CapturedVariable.Recorded vs names f →
      CapturedVariable.Recorded vs' names f)
    (hfield : CapturedVariable.Recorded vs' (c.path.map FieldRef.fullName?)
      field)
    (hnew : ∀ x ∈ done, x.label ≠ c.label)
    (hapart : ∀ x ∈ done ++ [c], ∀ y ∈ done ++ [c], x.label ∉ y.hopLabels) :
    b.Redirected vs' (done ++ [c]) (b'.redirect c field) := by
  obtain ⟨g, hcode, hlabel, hself, hother⟩ :=
    @code_redirect c field b' (hapart c (by simp) c (by simp))
  refine ⟨?_, fun x hx i hi hl => ?_, fun i hi hi' => ?_⟩
  · rw [hcode, List.map_map, ← h.labels]
    exact List.map_congr_left fun i _ => hlabel i
  · rw [hcode]
    rcases List.mem_append.1 hx with hx | hx
    · obtain ⟨f, hf, hmem⟩ := h.redirected x hx i hi hl
      refine ⟨f, hgrow _ _ hf, List.mem_map.2 ⟨_, hmem, hother _ ?_ ?_⟩⟩
      · exact hl ▸ hnew x hx
      · exact hl ▸ hapart x (List.mem_append_left _ hx) c (by simp)
    · cases List.mem_singleton.1 hx
      refine ⟨field, hfield, List.mem_map.2 ⟨i, h.kept i hi fun y hy => ?_,
        hself i hl⟩⟩
      rw [hl]
      exact ⟨(hnew y hy).symm, hapart c (by simp) y (List.mem_append_left _ hy)⟩
  · rw [hcode]
    have hc := hi' c (by simp)
    exact List.mem_map.2 ⟨i,
      h.kept i hi fun x hx => hi' x (List.mem_append_left _ hx),
      hother i hc.1 hc.2⟩

end Body

/-- The accesses of a method to captured variables are accesses to fields in
other code, in which the variables are recorded. -/
structure MethodDef.Remaps (d : MethodDef) (C : TypeRef → Bool)
    (vs : List CapturedVariable) (b : Body) : Prop where
  /-- the labels stay -/
  labels : b.code.map Instr.label = d.code.code.map Instr.label
  /-- the accesses -/
  accesses : ∀ i ∈ d.code.code, ∀ path, d.Accesses C i path → ∃ f,
    CapturedVariable.Recorded vs (path.map FieldRef.fullName?) f ∧
      { i with operand := .field (some f) } ∈ b.code

theorem MethodDef.Remaps.mono {d : MethodDef} {C : TypeRef → Bool}
    {vs vs' : List CapturedVariable} {b : Body} (h : d.Remaps C vs b)
    (hgrow : ∀ names f, CapturedVariable.Recorded vs names f →
      CapturedVariable.Recorded vs' names f) : d.Remaps C vs' b where
  labels := h.labels
  accesses i hi path hpath := by
    obtain ⟨f, hf, hmem⟩ := h.accesses i hi path hpath
    exact ⟨f, hgrow _ _ hf, hmem⟩

/-- Spaces and colons occur in none of the names that the code's fields have,
and slashes in none of the fields. -/
def Body.hasPlainFields (b : Body) : Bool :=
  (b.code ++ b.detached).all fun i => i.field?.join.all FieldRef.hasPlainNames

theorem Body.hasPlainNames_of_get {b : Body} (h : b.hasPlainFields) {l : Label}
    {f : FieldRef} (hf : (b.get l).operand = .field (some f)) :
    f.hasPlainNames := by
  have hmem : ∀ i, b.find? l = some i → i ∈ b.code ++ b.detached := by
    intro i hi
    unfold find? at hi
    split at hi
    · rename_i hfind
      cases hi
      exact List.mem_append_left _ (List.mem_of_find?_eq_some hfind)
    · exact List.mem_append_right _ (List.mem_of_find?_eq_some hi)
  unfold get at hf
  cases hi : b.find? l with
  | none => simp [hi] at hf
  | some i =>
    rw [hi, Option.getD_some] at hf
    have hall := List.all_eq_true.1 h i (hmem i hi)
    simpa [Instr.field?, hf] using hall

/-- An instruction of a method accesses the captured variable that a path leads
to. -/
def Workspace.Captures (w : Workspace) (u : Universe) (job : TypeId)
    (k : MethodId) (i : Instr) (path : List FieldRef) : Prop :=
  (w.method k).Accesses (w.namesClosure u job) i path

/-- The accesses of some methods have become accesses to fields of the struct,
and two of them have one field just if the full names on the paths to their
variables agree. -/
structure Workspace.TellsApart (w : Workspace) (u : Universe) (job : TypeId)
    (ks : List MethodId) (vs : List CapturedVariable) (w' : Workspace) :
    Prop where
  /-- any two accesses, in one method or in two -/
  accesses : ∀ k₁ ∈ ks, ∀ k₂ ∈ ks, ∀ i₁ ∈ (w.method k₁).code.code,
    ∀ i₂ ∈ (w.method k₂).code.code, ∀ path₁ path₂,
    w.Captures u job k₁ i₁ path₁ → w.Captures u job k₂ i₂ path₂ → ∃ f₁ f₂,
      (w'.method k₁).code.get i₁.label =
        { i₁ with operand := .field (some f₁) } ∧
      (w'.method k₂).code.get i₂.label =
        { i₂ with operand := .field (some f₂) } ∧
      CapturedVariable.Recorded vs (path₁.map FieldRef.fullName?) f₁ ∧
      CapturedVariable.Recorded vs (path₂.map FieldRef.fullName?) f₂ ∧
      (f₁ = f₂ ↔ path₁.map FieldRef.fullName? = path₂.map FieldRef.fullName?)
  /-- the records -/
  separates : w'.Separates job (w'.type job).head.fields vs

variable {d : MethodDef} {C : TypeRef → Bool} {i : Instr}

/-- The fields on a path are those that the loads have. -/
theorem MethodDef.Loads.exists_label {l : Label} {hops : List FieldRef}
    (h : d.Loads C l hops) {f : FieldRef} (hf : f ∈ hops) :
    ∃ l, (d.code.get l).operand = .field (some f) := by
  induction h with
  | this => cases hf
  | hop hload _ _ ih =>
    rcases List.mem_append.1 hf with hf | hf
    · exact ih hf
    · cases List.mem_singleton.1 hf
      exact ⟨_, hload.operand⟩

theorem MethodDef.Accesses.exists_label {path : List FieldRef}
    (h : d.Accesses C i path) (hown : d.code.HasOwnLabels)
    (hi : i ∈ d.code.code) {f : FieldRef} (hf : f ∈ path) :
    ∃ l, (d.code.get l).operand = .field (some f) := by
  obtain ⟨-, hfield, -, -, -, hloads⟩ := h
  rcases List.mem_append.1 hf with hf | hf
  · exact hloads.exists_label hf
  · cases List.mem_singleton.1 hf
    exact ⟨i.label, by rw [hown.get_eq hi, hfield]⟩

/-- The load of a variable is none of the loads on the way to one. -/
theorem Capture.IsAt.not_mem_hopLabels {c c' : Capture} {i' : Instr}
    (h : c.IsAt d C i) (h' : c'.IsAt d C i') (hown : d.code.HasOwnLabels)
    (hi : i ∈ d.code.code) :
    c.label ∉ c'.hopLabels := by
  intro hmem
  obtain ⟨f, hload⟩ := h'.hops c.label hmem
  rw [h.label, hown.get_eq hi] at hload
  have haccesses := h.accesses
  generalize c.path = path at haccesses
  obtain ⟨-, hfield, -, htype, -, -⟩ := haccesses
  cases hfield.symm.trans hload.operand
  rw [hload.type] at htype
  cases htype

/-- Code whose accesses are all redirected. -/
theorem MethodDef.Lists.remaps {found : List Capture}
    {vs : List CapturedVariable} {b : Body} (h : d.Lists C found)
    (hred : d.code.Redirected vs found b) : d.Remaps C vs b where
  labels := hred.labels
  accesses i hi path hpath := by
    obtain ⟨c, hc, hlabel, rfl⟩ := h.complete i hi path hpath
    exact hred.redirected c hc i hi hlabel.symm

end JobWeave
