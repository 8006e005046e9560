import Mathlib
import JobWeave.Proofs.Plan.Cloning
import JobWeave.Proofs.Plan.Records

/-!
# Captured variables get fields of their own

The accesses of the copies to captured variables are redirected one by one.  The
first access to a variable adds a field to the struct, under a name that is free
at that time, and a record to the plan; later accesses, in the same copy or in
another one, find the record by the text of their path.

* `Planning.Maps` says what holds between two accesses: the records separate the
  variables, and those that were there before have kept their fields.
* `Planning.capturedField_separates`, `Planning.redirect_separates`,
  `Planning.remapCaptures_separates` and `Planning.remapAll_separates` are the
  step for one access and the loops over the accesses of a copy and over the
  copies.
* `Planning.remapCaptures_injective`: two accesses have one field just if their
  paths agree.
-/

namespace JobWeave

open Framework Std.Do

set_option mvcgen.warning false

/-- The struct is filled; the methods are some, and the struct has some
fields. -/
abbrev World.Remapping (V : Workspace) (u : Universe) (job : TypeId)
    (D : MethodId → MethodDef) (fs : List FieldDef) : World → Prop :=
  World.Filling V u job fun W => W.method = D ∧ (W.type job).head.fields = fs

/-- The plan has some captured variables. -/
abbrev Outline.capturing (job : TypeId) (vs : List CapturedVariable) :
    Outline where
  job := job
  code _ := True
  captured := (· = vs)

/-- The plan separates the captured variables, those it recorded before are
recorded, and methods and records have a property. -/
def Planning.Maps (V : Workspace) (u : Universe) (job : TypeId)
    (vs : List CapturedVariable)
    (R : (MethodId → MethodDef) → List CapturedVariable → Prop) (v : Plan)
    (w : World) : Prop :=
  ∃ D fs vs', Sketch (World.Remapping V u job D fs) (.capturing job vs') v w ∧
    V.Separates job fs vs' ∧ (∀ names f, CapturedVariable.Recorded vs names f →
      CapturedVariable.Recorded vs' names f) ∧ R D vs'

namespace Planning

variable {V : Workspace} {u : Universe} {job : TypeId}
  {D : MethodId → MethodDef}
variable {fs : List FieldDef} {vs : List CapturedVariable} {J : World → Prop}
  {O : Outline}

/-- The text of a path joins the full names on it. -/
theorem pathKey_joins {path : List FieldRef} :
    Weave.Yields J (fun key => ∃ names : List String,
      path.map FieldRef.fullName? = names.map some ∧
      key = "/".intercalate names) (pathKey path) := by
  have hnames : Weave.Yields J
    (List.Forall₂ (fun f s => f.fullName? = some s) path)
      (path.mapM fun f => Weave.need f.fullName?) :=
    Weave.mapM_yields fun f _ => by mvcgen
  unfold pathKey
  mvcgen [hnames, -Weave.mapM_preserves, -Weave.mapM_keeps]
  rename_i names _ h
  refine ⟨h.1, names, ?_, rfl⟩
  rw [← List.forall₂_eq_eq_eq, List.forall₂_map_left_iff,
    List.forall₂_map_right_iff]
  exact h.2

/-- Texts tell paths apart. -/
theorem eq_iff_of_joins {path path' : List FieldRef}
    {names names' : List String}
    (h : path.map FieldRef.fullName? = names.map some)
    (h' : path'.map FieldRef.fullName? = names'.map some)
    (hplain : ∀ f ∈ path, f.hasPlainNames)
    (hplain' : ∀ f ∈ path', f.hasPlainNames) (hne : path ≠ [])
    (hne' : path' ≠ []) :
    "/".intercalate names = "/".intercalate names' ↔
      path.map FieldRef.fullName? = path'.map FieldRef.fullName? := by
  have hspells : ∀ {path : List FieldRef} {names : List String},
      path.map FieldRef.fullName? = names.map some →
      (∀ f ∈ path, f.hasPlainNames) →
        ∀ s ∈ names, FieldRef.Spells s := by
    intro path names h hplain s hs
    have hmem : some s ∈ path.map FieldRef.fullName? :=
      h ▸ List.mem_map_of_mem hs
    obtain ⟨f, hf, hfs⟩ := List.mem_map.1 hmem
    exact ⟨f, hplain f hf, hfs⟩
  have hnames : ∀ {path : List FieldRef} {names : List String},
      path.map FieldRef.fullName? = names.map some → path ≠ [] →
      names ≠ [] := by
    rintro path _ h hne rfl
    exact hne (List.map_eq_nil_iff.1 h)
  constructor
  · intro heq
    rw [h, h', FieldRef.intercalate_slash_inj (hspells h hplain)
      (hspells h' hplain') (hnames h hne) (hnames h' hne') heq]
  · intro heq
    rw [h, h'] at heq
    rw [List.map_injective_iff.2 (Option.some_injective _) heq]

/-- The struct gets a field with a name of its own. -/
theorem addField_remapping (hjob : job.index < V.types.size) {name : String}
    {type : TypeRef} {flags : UInt16} {attributes : List Attribute} :
    ⦃fun v w => ⌜Sketch (World.Remapping V u job D fs) (.capturing job vs) v w⌝⦄
      addField name type flags attributes
      ⦃post⟨fun r v w => ⌜∃ f : FieldDef, f.type = type ∧
        f.name ∉ fs.map FieldDef.name ∧ r = V.fieldRef job f ∧
          Sketch (World.Remapping V u job D (fs ++ [f]))
            (.capturing job vs) v w⌝,
        fun _ _ => ⌜True⌝⟩⦄ := by
  unfold addField
  mvcgen [Weave.modifyWorkspace, -Weave.addField_preserves, -addField_keeps]
  rename_i v w h _ f _
  obtain ⟨hfills, hres, hD, hfs⟩ := h.world.holds
  have htype : v.type = job := h.plan.type
  subst htype
  have hfilled : V.Fills v.type (w.workspace.addField v.type f) :=
    hfills.updateHead fun _ => rfl
  have hlt : v.type.index < w.workspace.types.size := hfills.types ▸ hjob
  refine ⟨f, rfl, ?_, ?_, ⟨⟨h.world.holds.fill hfilled ⟨hD, ?_⟩⟩, h.plan⟩⟩
  · rw [← hfs]
    exact freeName_not_mem _ name
  · exact congrArg (FieldRef.mk · f.type f.name) (hfilled.selfRef_eq v.type)
  · rw [Workspace.addField, Workspace.updateHead,
      Workspace.type_updateType_self _ hlt]
    exact congrArg (· ++ [f]) hfs

/-- The first access to a variable gives it a field of the struct, and later
ones find it. -/
theorem capturedField_separates (hjob : job.index < V.types.size)
    (hs : V.Separates job fs vs) {c : Capture}
    (hc : ∀ f ∈ c.path, f.hasPlainNames) {written : Bool} :
    ⦃fun v w => ⌜Sketch (World.Remapping V u job D fs) (.capturing job vs) v w⌝⦄
      capturedField c written
      ⦃post⟨fun r v w => ⌜Maps V u job vs (fun D' vs' => D' = D ∧
          CapturedVariable.Recorded vs' (c.path.map FieldRef.fullName?) r) v w⌝,
        fun _ _ => ⌜True⌝⟩⦄ := by
  have hkey : ∀ path, Weave.Yields (World.Remapping V u job D fs)
      (fun key => ∃ names : List String, path.map FieldRef.fullName? =
        names.map some ∧ key = "/".intercalate names) (pathKey path) :=
    fun _ => pathKey_joins
  have hfind : ∀ (xs : List CapturedVariable) (key : String), xs = vs →
      (∃ names : List String, c.path.map FieldRef.fullName? = names.map some ∧
        key = "/".intercalate names) →
      Yields (World.Remapping V u job D fs) (.capturing job vs)
        (· = vs.find? fun x => decide (x.path.map FieldRef.fullName? =
          c.path.map FieldRef.fullName?))
        (xs.findM? fun x => do return (← pathKey x.path) == key) := by
    rintro _ _ rfl ⟨names, hnames, rfl⟩
    refine findM?_eq fun x hx => ?_
    mvcgen [hkey, -pathKey_preserves, -pathKey_keeps]
    · rename_i h
      exact h.world
    · rename_i h key _ hkey
      obtain ⟨names', hnames', rfl⟩ := hkey.2
      refine ⟨⟨hkey.1, h.plan⟩, ?_⟩
      rw [Bool.eq_iff_iff, beq_iff_eq, decide_eq_true_eq]
      exact eq_iff_of_joins hnames' hnames (hs.plain x hx) hc x.path_ne_nil
        c.path_ne_nil
  have hfound : ∀ {x : CapturedVariable}, (vs.find? fun x => decide
      (x.path.map FieldRef.fullName? = c.path.map FieldRef.fullName?)) =
        some x → CapturedVariable.Recorded vs (c.path.map FieldRef.fullName?)
          x.field := fun h =>
    ⟨_, List.mem_of_find?_eq_some h, by simpa using List.find?_some h, rfl⟩
  have hadd := fun name type flags attributes =>
    @addField_remapping V u job D fs vs hjob name type flags attributes
  unfold capturedField
  mvcgen [hkey, hfind, hadd, -pathKey_preserves, -pathKey_keeps,
    -findM?_preserves, -findM?_keeps, -addField_preserves, -addField_drafts,
    -addField_keeps]
  · rename_i h
    exact h.world
  · rename_i h _ _ _
    exact h.plan.captured
  · rename_i h
    exact h.2
  · rename_i h _ _ hw
    exact ⟨hw.1, h.plan⟩
  · rename_i x _ _ _ v _ h _
    have htype : v.type = job := h.1.plan.type
    have hx : CapturedVariable.Recorded vs (c.path.map FieldRef.fullName?)
        x.field :=
      hfound h.2.symm
    have hcaptured : v.captured = vs := h.1.plan.captured
    let mark := fun y : CapturedVariable =>
      if y.field.name == x.field.name then { y with written := true } else y
    have hmark : ∀ y, (mark y).path = y.path ∧ (mark y).leaf = y.leaf ∧
        (mark y).field = y.field := by
      intro y
      dsimp only [mark]
      split <;> exact ⟨rfl, rfl, rfl⟩
    refine ⟨D, fs, v.captured.map mark, ⟨h.1.world, ⟨htype, trivial, trivial,
      rfl, trivial, trivial, trivial⟩⟩, ?_⟩
    rw [hcaptured]
    exact ⟨hs.map (fun y => (hmark y).1) (fun y => (hmark y).2.1)
      fun y => (hmark y).2.2, fun _ _ hr => hr.map (fun y => (hmark y).1)
        fun y => (hmark y).2.2,
      rfl, hx.map (fun y => (hmark y).1) fun y => (hmark y).2.2⟩
  · rename_i h
    exact ⟨D, fs, vs, h.1, hs, fun _ _ hr => hr, rfl, hfound h.2.symm⟩
  · rename_i h _ _
    exact h.1
  · rename_i h type hleaf field v _ hfield _
    obtain ⟨f, rfl, hname, rfl, hsketch⟩ := hfield
    have htype : v.type = job := hsketch.plan.type
    have hnew : ∀ y ∈ vs, y.path.map FieldRef.fullName? ≠
        c.path.map FieldRef.fullName? := by
      simpa using List.find?_eq_none.1 h.2.symm
    have hcaptured : v.captured = vs := hsketch.plan.captured
    refine ⟨D, fs ++ [f], v.captured ++
      [{ hops := c.hops, leaf := c.leaf, field := _, written }], ⟨hsketch.world,
        ⟨htype, trivial, trivial, rfl, trivial, trivial, trivial⟩⟩, ?_⟩
    rw [hcaptured]
    exact ⟨hs.snoc hname rfl hleaf hc hnew, fun _ _ hr => hr.snoc _, rfl,
      _, List.mem_append_right _ (List.mem_singleton.2 rfl), rfl, rfl⟩

variable {k : MethodId} {b : Body}

/-- The code of a method is changed. -/
theorem modifyBody_remapping {f : Body → Body} (hk : V.methods.size ≤ k.index)
    (hb : (D k).body = some b) :
    ⦃fun w => ⌜w.Has (World.Remapping V u job D fs)⌝⦄ Weave.modifyBody k f
      ⦃post⟨fun _ w => ⌜w.Has (World.Remapping V u job
        (Function.update D k { D k with body := some (f b) }) fs)⌝,
        fun _ _ => ⌜True⌝⟩⦄ := by
  have hset : ∀ b', ⦃fun w => ⌜w.Has (World.Remapping V u job D fs)⌝⦄
    Weave.setBody k b'
      ⦃post⟨fun _ w => ⌜w.Has (World.Remapping V u job
        (Function.update D k { D k with body := some b' }) fs)⌝,
        fun _ _ => ⌜True⌝⟩⦄ := by
    refine fun b' => triple_iff.2 fun w hw => ?_
    obtain ⟨hD, hfs⟩ := hw.holds.holds
    refine ⟨hw.holds.fill (hw.holds.fills.updateMethod hk _) ⟨?_, hfs⟩⟩
    have hkb : (w.workspace.method k).body = some b := hD ▸ hb
    funext n
    by_cases hn : n = k
    · subst hn
      rw [Function.update_self, Workspace.method, ← hD,
        Workspace.methodEntry_updateMethod_self _ (Workspace.lt_of_body hkb)]
    · rw [Function.update_of_ne hn, Workspace.method,
        Workspace.methodEntry_updateMethod_of_ne _ hn, ← hD]
      rfl
  unfold Weave.modifyBody
  mvcgen [hset, -Weave.setBody_preserves, -Weave.setBody_frame, -setBody_keeps]
  rename_i w hw b' hb' _ _
  have hbody : b = b' := by
    rw [hw.holds.holds.1, hb] at hb'
    exact Option.some.inj hb'
  rw [hbody]
  exact id

/-- What is recorded later was recorded since. -/
theorem Maps.since {act : Planning Unit} {vs₀ : List CapturedVariable}
    {R R' : (MethodId → MethodDef) → List CapturedVariable → Prop}
    (h : ⦃fun v w => ⌜Sketch (World.Remapping V u job D fs) (.capturing job vs)
      v w⌝⦄ act
      ⦃post⟨fun _ v w => ⌜Maps V u job vs R v w⌝, fun _ _ => ⌜True⌝⟩⦄)
    (hgrow : ∀ names f, CapturedVariable.Recorded vs₀ names f →
      CapturedVariable.Recorded vs names f)
    (himp : ∀ D' vs', (∀ names f, CapturedVariable.Recorded vs names f →
      CapturedVariable.Recorded vs' names f) → R D' vs' → R' D' vs') :
    ⦃fun v w => ⌜Sketch (World.Remapping V u job D fs) (.capturing job vs)
      v w⌝⦄ act
      ⦃post⟨fun _ v w => ⌜Maps V u job vs₀ R' v w⌝, fun _ _ => ⌜True⌝⟩⦄ := by
  mvcgen [h]
  rintro ⟨D', fs', vs', hsketch, hs, hgrow', hR⟩
  exact ⟨D', fs', vs', hsketch, hs, fun _ _ hr => hgrow' _ _ (hgrow _ _ hr),
    himp _ _ hgrow' hR⟩

/-- One access is pointed at the field of its variable. -/
theorem redirect_separates (hjob : job.index < V.types.size)
    (hs : V.Separates job fs vs) (hk : V.methods.size ≤ k.index)
    (hb : (D k).body = some b) {c : Capture}
    (hc : ∀ f ∈ c.path, f.hasPlainNames) {written : Bool} :
    ⦃fun v w => ⌜Sketch (World.Remapping V u job D fs) (.capturing job vs) v w⌝⦄
      redirect k c written
      ⦃post⟨fun _ v w => ⌜Maps V u job vs (fun D' vs' => ∃ f,
          D' = Function.update D k { D k with body := some (b.redirect c f) } ∧
            CapturedVariable.Recorded vs' (c.path.map FieldRef.fullName?)
              f) v w⌝,
        fun _ _ => ⌜True⌝⟩⦄ := by
  unfold redirect
  refine Triple.bind _ _ (capturedField_separates hjob hs hc) fun f => ?_
  rintro v w ⟨D', fs', vs', h, hs', hgrow, rfl, hf⟩
  have hmodify := @modifyBody_remapping V u job D' fs' k b
    (·.redirect c f) hk hb
  have hrun : ⦃fun v w => ⌜Sketch (World.Remapping V u job D' fs')
    (.capturing job vs') v w⌝⦄
      (Weave.modifyBody k (·.redirect c f) : Planning Unit)
      ⦃post⟨fun _ v w => ⌜Maps V u job vs (fun D vs' => ∃ f,
          D = Function.update D' k { D' k with body := some (b.redirect c f) } ∧
            CapturedVariable.Recorded vs' (c.path.map FieldRef.fullName?)
              f) v w⌝,
        fun _ _ => ⌜True⌝⟩⦄ := by
    mvcgen [hmodify, -Weave.modifyBody_preserves, -Weave.modifyBody_frame,
      -modifyBody_keeps]
    · rename_i h
      exact h.world
    · rename_i h _ _
      exact fun hw => ⟨_, fs', vs', ⟨hw, h.plan⟩, hs', hgrow, f, rfl, hf⟩
  exact hrun v w h

/-- The accesses of a copy are pointed at the fields of their variables. -/
theorem redirectAll_separates (hjob : job.index < V.types.size)
    (hs : V.Separates job fs vs) (hk : V.methods.size ≤ k.index)
    (hb : (D k).body = some b) {found : List Capture}
    (hplain : ∀ c ∈ found, ∀ f ∈ c.path, f.hasPlainNames)
    (hnodup : (found.map Capture.label).Nodup)
    (hapart : ∀ x ∈ found, ∀ y ∈ found, x.label ∉ y.hopLabels)
    {written : Capture → Bool} :
    ⦃fun v w => ⌜Sketch (World.Remapping V u job D fs) (.capturing job vs) v w⌝⦄
      found.forM fun c => redirect k c (written c)
      ⦃post⟨fun _ v w => ⌜Maps V u job vs (fun D' vs' => ∃ b',
          D' = Function.update D k { D k with body := some b' } ∧
            b.Redirected vs' found b') v w⌝, fun _ _ => ⌜True⌝⟩⦄ := by
  have hrun := @forM_run _ found (fun c => redirect k c (written c))
    (fun before => Maps V u job vs fun D' vs' => ∃ b',
      D' = Function.update D k { D k with body := some b' } ∧
      b.Redirected vs' before b') ?_
  · intro v w h
    refine hrun v w ⟨D, fs, vs, h, hs, fun _ _ hr => hr, b, ?_, .refl vs b⟩
    rw [← hb, Function.update_eq_self]
  · rintro before c after hsplit v w ⟨D₁, fs₁, vs₁, h, hs₁, hgrow, b₁,
      rfl, hred⟩
    have hsub : ∀ x ∈ before ++ [c], x ∈ found := by
      intro x hx
      rw [hsplit]
      rcases List.mem_append.1 hx with hx | hx
      · exact List.mem_append_left _ hx
      · exact List.mem_append_right _ (by simp [List.mem_singleton.1 hx])
    have hc : c ∈ found := hsub c (by simp)
    have hnew : ∀ x ∈ before, x.label ≠ c.label := by
      rw [hsplit, List.map_append, List.nodup_append] at hnodup
      exact fun x hx => hnodup.2.2 _ (List.mem_map_of_mem hx) _ (by simp)
    have hbody : (Function.update D k { D k with body := some b₁ } k).body =
      some b₁ := by simp
    refine Maps.since (redirect_separates hjob hs₁ hk hbody (hplain c hc)) hgrow
      ?_ v w h
    rintro D' vs' hgrow' ⟨f, rfl, hf⟩
    refine ⟨b₁.redirect c f, ?_, ?_⟩
    · simp
    · exact hred.snoc hgrow' hf hnew fun x hx y hy => hapart x (hsub x hx) y
        (hsub y hy)

/-- The accesses of a copy to captured variables become accesses to their
fields. -/
theorem remapCaptures_separates (hjob : job.index < V.types.size)
    (hs : V.Separates job fs vs) (hk : V.methods.size ≤ k.index)
    (hown : (D k).code.HasOwnLabels) (hplain : ∀ l f,
      ((D k).code.get l).operand = .field (some f) → f.hasPlainNames) :
    ⦃fun v w => ⌜Sketch (World.Remapping V u job D fs) (.capturing job vs) v w⌝⦄
      remapCaptures k
      ⦃post⟨fun _ v w => ⌜Maps V u job vs (fun D' vs' => ∃ b',
          D' = Function.update D k { D k with body := some b' } ∧
            (D k).Remaps (V.namesClosure u job) vs' b') v w⌝,
            fun _ _ => ⌜True⌝⟩⦄ := by
  have hcaptures := captures_lists (V := V) (u := u) (O := .capturing job vs)
    (d := D k) (k := k) (I := fun W => W.method = D ∧ (W.type job).head.fields =
      fs) fun W hW => by rw [hW.1]
  have hrefuse : ∀ (found : List Capture) (stores : Capture → Bool),
      Preserves (World.Remapping V u job D fs) (.capturing job vs)
        (found.forM fun c => do
          if stores c then refuseAt .dc0013 k c.label [.text c.leaf.name]) :=
    fun _ _ => forM_preserves fun _ _ => by mvcgen
  have hredirect :
    ∀ (found : List Capture) (written : Capture → Bool) (b : Body),
      (D k).body = some b → (D k).Lists (V.namesClosure u job) found →
      ⦃fun v w => ⌜Sketch (World.Remapping V u job D fs)
        (.capturing job vs) v w⌝⦄
        found.forM fun c => redirect k c (written c)
        ⦃post⟨fun _ v w => ⌜Maps V u job vs (fun D' vs' => ∃ b',
          D' = Function.update D k { D k with body := some b' } ∧
            (D k).Remaps (V.namesClosure u job) vs' b') v w⌝,
            fun _ _ => ⌜True⌝⟩⦄ := by
    intro found written b hb hfound
    refine Maps.since (redirectAll_separates hjob hs hk hb (fun c hc f hf => ?_)
      (hfound.nodup hown) (fun x hx y hy => ?_)) (fun _ _ => id) ?_
    · obtain ⟨i, hi, hat⟩ := hfound.sound c hc
      obtain ⟨l, hl⟩ := hat.accesses.exists_label hown hi hf
      exact hplain l f hl
    · obtain ⟨i, hi, hx⟩ := hfound.sound x hx
      obtain ⟨_, -, hy⟩ := hfound.sound y hy
      exact hx.not_mem_hopLabels hy hown hi
    · rintro D' vs' - ⟨b', rfl, hred⟩
      have hcode : (D k).code = b := by
        rw [MethodDef.code, hb, Option.getD_some]
      rw [← hcode] at hred
      exact ⟨b', rfl, hfound.remaps hred⟩
  have hcheck : ∀ (found : List Capture) R, ⦃fun v w => ⌜Maps V u job vs R v w⌝⦄
      found.forM (checkReference k)
      ⦃post⟨fun _ v w => ⌜Maps V u job vs R v w⌝, fun _ _ => ⌜True⌝⟩⦄ := by
    rintro found R v w ⟨D', fs', vs', h, hs', hgrow, hR⟩
    have hall : Preserves (World.Remapping V u job D' fs') (.capturing job vs')
        (found.forM (checkReference k)) :=
      forM_preserves fun _ _ => checkReference_preserves
    have hrun : ⦃fun v w => ⌜Sketch (World.Remapping V u job D' fs')
      (.capturing job vs') v w⌝⦄
        found.forM (checkReference k)
        ⦃post⟨fun _ v w => ⌜Maps V u job vs R v w⌝, fun _ _ => ⌜True⌝⟩⦄ := by
      mvcgen [hall, -forM_preserves, -forM_keeps]
      exact fun h => ⟨D', fs', vs', h, hs', hgrow, hR⟩
    exact hrun v w h
  unfold remapCaptures
  mvcgen [hcaptures, hrefuse, hredirect, hcheck, -captures_preserves,
    -captures_keeps, -forM_preserves, -forM_keeps]
  · rename_i h _ _ _
    exact h.1
  · rename_i h b hb _ _ _ _ _
    exact h.1.world.holds.holds.1 ▸ hb
  · rename_i h _ _ _ _ _ _ _
    exact h.2

/-- The accesses of several copies to captured variables become accesses to
their fields. -/
theorem remapAll_separates {ks : List MethodId}
    (hjob : job.index < V.types.size) (hs : V.Separates job fs vs)
    (hks : ks.Nodup) (hnew : ∀ k ∈ ks, V.methods.size ≤ k.index)
    (hown : ∀ k ∈ ks, (D k).code.HasOwnLabels)
    (hplain : ∀ k ∈ ks, ∀ l f, ((D k).code.get l).operand = .field (some f) →
      f.hasPlainNames) :
    ⦃fun v w => ⌜Sketch (World.Remapping V u job D fs) (.capturing job vs) v w⌝⦄
      ks.forM remapCaptures
      ⦃post⟨fun _ v w => ⌜Maps V u job vs (fun D' vs' => ∀ k ∈ ks,
          (D k).Remaps (V.namesClosure u job) vs' (D' k).code) v w⌝,
          fun _ _ => ⌜True⌝⟩⦄ := by
  have hrun := @forM_run _ ks remapCaptures
    (fun before => Maps V u job vs fun D' vs' => (∀ k, k ∉ before →
      D' k = D k) ∧ ∀ k ∈ before, (D k).Remaps (V.namesClosure u job) vs'
        (D' k).code) ?_
  · mvcgen [hrun, -forM_preserves, -forM_keeps]
    · rename_i h
      exact ⟨D, fs, vs, h, hs, fun _ _ => id, fun _ _ => rfl, by simp⟩
    · rintro ⟨D', fs', vs', h, hs', hgrow, -, hR⟩
      exact ⟨D', fs', vs', h, hs', hgrow, hR⟩
  · rintro before k after hsplit v w ⟨D₁, fs₁, vs₁, h, hs₁, hgrow, hrest, hdone⟩
    have hk : k ∈ ks := by simp [hsplit]
    have hnot : k ∉ before := by
      rw [hsplit, List.nodup_append] at hks
      exact fun hc => hks.2.2 k hc k (by simp) rfl
    have hsame : D₁ k = D k := hrest k hnot
    refine Maps.since (remapCaptures_separates hjob hs₁ (hnew k hk)
      (hsame ▸ hown k hk) (hsame ▸ hplain k hk)) hgrow ?_ v w h
    rintro _ vs' hgrow' ⟨b', rfl, hremaps⟩
    refine ⟨fun n hn => ?_, fun n hn => ?_⟩
    · rw [List.mem_append, List.mem_singleton, not_or] at hn
      rw [Function.update_of_ne hn.2, hrest n hn.1]
    · rcases List.mem_append.1 hn with hn | hn
      · have hne : n ≠ k := fun hc => hnot (hc ▸ hn)
        rw [Function.update_of_ne hne]
        exact (hdone n hn).mono hgrow'
      · cases List.mem_singleton.1 hn
        rw [Function.update_self]
        exact hsame ▸ hremaps

/-- Captured variables are told apart: after the accesses of some methods were
pointed at fields of the struct, two of them have one field just if the full
names on the paths to their variables agree. The records are of different
variables, and each has a field for itself, which has the type of the variable
and a name of its own. -/
theorem remapCaptures_injective {v v' : Plan} {w w' : World}
    {ks : List MethodId} (hjob : v.type.index < w.workspace.types.size)
    (hstart : v.captured = []) (hks : ks.Nodup)
    (hown : ∀ k ∈ ks, (w.workspace.method k).code.HasOwnLabels)
    (hplain : ∀ k ∈ ks, (w.workspace.method k).code.hasPlainFields)
    (hrun : ks.forM remapCaptures v w = .ok ((), v') w') :
    w.workspace.TellsApart (w.resolver.refresh w.workspace) v.type ks
      v'.captured w'.workspace := by
  let V : Workspace := { w.workspace with methods := #[] }
  have hfills : V.Fills v.type w.workspace :=
    ⟨rfl, rfl, fun _ _ => rfl, rfl, Nat.zero_le _,
      fun _ hm => absurd hm (Nat.not_lt_zero _)⟩
  have hget : ∀ k ∈ ks, ∀ l f, ((w.workspace.method k).code.get l).operand =
    .field (some f) →
      f.hasPlainNames := fun k hk l f hf => Body.hasPlainNames_of_get
        (hplain k hk) hf
  have htriple := @remapAll_separates V (w.resolver.refresh w.workspace) v.type
    w.workspace.method (w.workspace.type v.type).head.fields [] ks
    hjob ⟨List.nodup_nil, List.nodup_nil, by simp, by simp⟩ hks
      (fun _ _ => Nat.zero_le _) hown hget
  have hfrom : ⦃fun w₀ => ⌜w₀ =
    w⌝⦄ (ks.forM remapCaptures v : Weave (Unit × Plan))
      ⦃post⟨fun r w' => ⌜Maps V (w.resolver.refresh w.workspace) v.type []
        (fun D' vs' =>
          ∀ k ∈ ks, (w.workspace.method k).Remaps
            (V.namesClosure (w.resolver.refresh w.workspace) v.type) vs'
              (D' k).code) r.2 w'⌝,
        fun _ _ => ⌜True⌝⟩⦄ := by
    rintro _ rfl
    exact htriple v _ ⟨⟨hfills, rfl, rfl, rfl⟩, ⟨rfl, trivial, trivial, hstart,
      trivial, trivial, trivial⟩⟩
  have hends := triple_iff.1 hfrom w rfl
  rw [hrun] at hends
  obtain ⟨D', fs', vs', h, hs, -, hR⟩ := hends
  obtain ⟨⟨hfilled, -, rfl, rfl⟩⟩ := h.world
  have hvs : v'.captured = vs' := h.plan.captured
  subst hvs
  have hclosures : w.workspace.namesClosure = V.namesClosure := by
    funext u job t
    rw [Workspace.namesClosure, Workspace.namesClosure, hfills.typeName_eq]
    rfl
  -- what an access has become
  have haccess : ∀ k ∈ ks, ∀ i ∈ (w.workspace.method k).code.code, ∀ path,
      w.workspace.Captures (w.resolver.refresh w.workspace) v.type k i
        path → ∃ f, (w'.workspace.method k).code.get i.label =
          { i with operand := .field (some f) } ∧
          CapturedVariable.Recorded v'.captured (path.map FieldRef.fullName?)
            f := by
    intro k hk i hi path hpath
    rw [Workspace.Captures, hclosures] at hpath
    obtain ⟨f, hf, hmem⟩ := (hR k hk).accesses i hi path hpath
    have hown' : (w'.workspace.method k).code.HasOwnLabels := by
      rw [Body.HasOwnLabels, (hR k hk).labels]
      exact hown k hk
    exact ⟨f, hown'.get_eq hmem, hf⟩
  refine ⟨fun k₁ hk₁ k₂ hk₂ i₁ hi₁ i₂ hi₂ path₁ path₂ hpath₁ hpath₂ => ?_,
    hs.paths, hs.names, fun x hx => ?_, hs.plain⟩
  · obtain ⟨f₁, hget₁, hf₁⟩ := haccess k₁ hk₁ i₁ hi₁ path₁ hpath₁
    obtain ⟨f₂, hget₂, hf₂⟩ := haccess k₂ hk₂ i₂ hi₂ path₂ hpath₂
    exact ⟨f₁, f₂, hget₁, hget₂, hf₁, hf₂, hs.field_eq_iff hf₁ hf₂⟩
  · obtain ⟨f, hf, hfield, htype⟩ := hs.fields x hx
    refine ⟨f, hf, ?_, htype⟩
    rw [hfield, Workspace.fieldRef, Workspace.fieldRef, hfilled.selfRef_eq]

/-- A module whose lambda, and another method of its closure, read variables of
two closures; the closures have a variable of one name, and another one has that
name with a number. -/
def nestedModule : Module :=
  let inner : TypeRef := Sample.tickClosure
  let outer : TypeRef := Sample.tickSystem.nestedIn "<>c__DisplayClass0_1" false
  let scope : FieldRef := { owner := inner, type := outer, name := "locals" }
  let reads (fields : List FieldRef) : List Step :=
    [Step.ldarg 0] ++ fields.map Step.ldfld ++ [Step.pop]
  let ownX : FieldRef := { owner := inner, type := .int32, name := "x" }
  let ownX1 : FieldRef := { owner := inner, type := .int32, name := "x_1" }
  let outerX : FieldRef := { owner := outer, type := .int32, name := "x" }
  let method (name : String) (steps : List Step) : MethodDef :=
    { name, ret := .void,
      body := some (Sample.codeOf (steps ++ [Step.ret]) []) }
  let update : MethodDef :=
    { name := "OnUpdate", ret := .void
      body := some (Sample.codeOf Sample.scheduleSteps [⟨inner, ""⟩]) }
  let field (f : FieldRef) : FieldDef := { name := f.name, type := f.type }
  let system : TypeHead :=
    { ns := "Game", name := "Ticker",
      base := .ofName Ns.entities TypeName.systemBase false }
  let innerHead : TypeHead :=
    { ns := "", name := inner.simpleName, base := .object
      fields := [field ownX, field ownX1, field scope] }
  let outerHead : TypeHead :=
    { ns := "", name := outer.simpleName, base := .object,
      fields := [field outerX] }
  { name := "Nested"
    types := [.mk system [update]
      [.mk innerHead
        [method Sample.tickLambda.name (reads [ownX] ++ reads [scope, outerX] ++
          reads [ownX1]), method "Again"
            (reads [scope, outerX] ++ reads [ownX])] [],
        .mk outerHead [] []]] }

/-- Three variables of two closures are read in two methods. -/
theorem remapCaptures_injective_nested :
    ∃ (v v' : Plan) (w w' : World) (ks : List MethodId),
      v.type.index < w.workspace.types.size ∧ v.captured = [] ∧ ks.Nodup ∧
      (∀ k ∈ ks, (w.workspace.method k).code.HasOwnLabels) ∧
      (∀ k ∈ ks, (w.workspace.method k).code.hasPlainFields) ∧
      ks.forM remapCaptures v w = .ok ((), v') w' ∧ ks.length = 2 ∧
      v'.captured.map (·.field.name) = ["x", "x_1", "x_1_1"] ∧
    w.workspace.TellsApart (w.resolver.refresh w.workspace) v.type ks
      v'.captured w'.workspace := by
  have hstart : delivers (startAt 3) (jobWorld nestedModule) (fun v w =>
      let ks := (w.workspace.type v.chain.lambdaOwner).methods
      (decide (v.type.index < w.workspace.types.size ∧ v.captured.length = 0 ∧
        ks.Nodup ∧ ∀ k ∈ ks, (w.workspace.method k).code.HasOwnLabels ∧
          (w.workspace.method k).code.hasPlainFields)) &&
      delivers (ks.forM remapCaptures v) w fun r _ => ks.length == 2 &&
        r.2.captured.map (·.field.name) == ["x", "x_1", "x_1_1"]) = true := by
    decide +kernel
  obtain ⟨v, w, -, htest⟩ := exists_of_delivers hstart
  simp only [Bool.and_eq_true, decide_eq_true_eq] at htest
  obtain ⟨⟨hjob, hnone, hks, hcode⟩, hremap⟩ := htest
  obtain ⟨⟨⟨⟩, v'⟩, w', hrun, hend⟩ := exists_of_delivers hremap
  simp only [Bool.and_eq_true, beq_iff_eq] at hend
  have hstart := List.length_eq_zero_iff.1 hnone
  have hown := fun k hk => (hcode k hk).1
  have hplain := fun k hk => (hcode k hk).2
  exact ⟨v, v', w, w', _, hjob, hstart, hks, hown, hplain, hrun, hend.1, hend.2,
    remapCaptures_injective hjob hstart hks hown hplain hrun⟩

end Planning

end JobWeave
