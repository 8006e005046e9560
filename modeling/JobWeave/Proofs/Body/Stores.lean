import Mathlib
import JobWeave.Flow.Delegate
import JobWeave.Body.Spelling
import JobWeave.Plan.Captures

/-!
# Stores of code

Which fields some code stores to, and which edits leave that alone.

* `Body.storesTo` are the fields that are stored to.
* `Body.Spares b b'` says that every store of the code `b'` is a store of the
  code `b` at the same label.  Every edit of copied code is of this kind,
  redirecting an access that is not a store included.
* `Body.distinct` gives a copy labels of its own; its stores are those of the
  original.
-/

namespace JobWeave

/-! ## Comparing references -/

namespace TypeRef

mutual

/-- The references are the same part by part. -/
def agrees : TypeRef → TypeRef → Bool
  | absent, absent => true
  | named ns n v o as, named ns' n' v' o' as' =>
    ns = ns' && n = n' && v = v' && o.agrees o' && agreesAll as as'
  | wrapped k e as, wrapped k' e' as' =>
    k = k' && e.agrees e' && agreesAll as as'
  | param o p as, param o' p' as' => o = o' && p = p' && agreesAll as as'
  | _, _ => false

/-- The lists are the same part by part. -/
def agreesAll : List TypeRef → List TypeRef → Bool
  | [], [] => true
  | t :: ts, t' :: ts' => t.agrees t' && agreesAll ts ts'
  | _, _ => false

end

mutual

theorem agrees_iff : ∀ {t t' : TypeRef}, t.agrees t' ↔ t = t'
  | absent, t' => by cases t' <;> simp [agrees]
  | named ns n v o as, t' => by
    cases t' <;> simp [agrees, agrees_iff, agreesAll_iff, and_assoc]
  | wrapped k e as, t' => by
    cases t' <;> simp [agrees, agrees_iff, agreesAll_iff, and_assoc]
  | param o p as, t' => by
    cases t' <;> simp [agrees, agreesAll_iff, and_assoc]

theorem agreesAll_iff : ∀ {ts ts' : List TypeRef}, agreesAll ts ts' ↔ ts = ts'
  | [], ts' => by cases ts' <;> simp [agreesAll]
  | t :: ts, ts' => by cases ts' <;> simp [agreesAll, agrees_iff, agreesAll_iff]

end

instance : DecidableEq TypeRef := fun _ _ => decidable_of_iff _ agrees_iff

end TypeRef

instance : DecidableEq FieldRef := fun f g =>
  decidable_of_iff (f.owner = g.owner ∧ f.type = g.type ∧ f.name = g.name) <| by
    cases f
    cases g
    simp

/-! ## Stores -/

/-- A store has no short form. -/
theorem Opcode.long_eq_stfld {op : Opcode} (h : op.long = .stfld) :
    op = .stfld := by
  unfold Opcode.long at h
  split at h <;> first | exact h | cases h

namespace Body

variable {b b' b'' : Body} {l : Label}

/-- The fields that the code stores to. -/
def storesTo (b : Body) : Set FieldRef :=
  {f | ∃ i ∈ b.code, i.op = .stfld ∧ i.operand = .field (some f)}

/-- No instruction has a label that is to come. -/
def Labelled (b : Body) : Prop :=
  ∀ i ∈ b.code, i.label < b.fresh

instance (b : Body) : Decidable b.Labelled :=
  inferInstanceAs (Decidable (∀ i ∈ b.code, i.label < b.fresh))

/-- Every instruction has a label of its own. -/
def HasOwnLabels (b : Body) : Prop :=
  (b.code.map (·.label)).Nodup

instance (b : Body) : Decidable b.HasOwnLabels :=
  inferInstanceAs (Decidable (b.code.map (·.label)).Nodup)

/-- The instruction with a label is the only one that has it. -/
theorem HasOwnLabels.get_eq {i : Instr} (hb : b.HasOwnLabels)
    (hi : i ∈ b.code) :
    b.get i.label = i := by
  cases hfind : b.code.find? (·.label == i.label) with
  | none => simpa using List.find?_eq_none.1 hfind i hi
  | some j =>
    have hlabel : j.label = i.label := by simpa using List.find?_some hfind
    have hsame : j = i := List.inj_on_of_nodup_map hb
      (List.mem_of_find?_eq_some hfind) hi hlabel
    simp [get, find?, hfind, hsame]

/-- Every store of the second code is a store of the first one at the same
label, and the labels of the second code are as good as those of the first. -/
structure Spares (b b' : Body) : Prop where
  /-- the stores -/
  stores : ∀ i ∈ b'.code, i.op = .stfld → ∃ j ∈ b.code, j.label = i.label ∧
    j.op = .stfld ∧ ∀ f, i.operand = .field (some f) →
    j.operand = .field (some f)
  /-- the labels that are used -/
  labelled : b.Labelled → b'.Labelled
  /-- the labels are still distinct -/
  ownLabels : b.Labelled → b.HasOwnLabels → b'.HasOwnLabels

theorem Spares.refl (b : Body) : b.Spares b :=
  ⟨fun i hi hop => ⟨i, hi, rfl, hop, fun _ => id⟩, id, fun _ => id⟩

theorem Spares.trans (h : b.Spares b') (h' : b'.Spares b'') : b.Spares b'' where
  stores i hi hop := by
    obtain ⟨j, hj, hjl, hjop, hjf⟩ := h'.stores i hi hop
    obtain ⟨k, hk, hkl, hkop, hkf⟩ := h.stores j hj hjop
    exact ⟨k, hk, hkl.trans hjl, hkop, fun f hf => hkf f (hjf f hf)⟩
  labelled := h'.labelled ∘ h.labelled
  ownLabels hl hn := h'.ownLabels (h.labelled hl) (h.ownLabels hl hn)

theorem Spares.storesTo_subset (h : b.Spares b') :
    b'.storesTo ⊆ b.storesTo := by
  rintro f ⟨i, hi, hop, hf⟩
  obtain ⟨j, hj, -, hjop, hjf⟩ := h.stores i hi hop
  exact ⟨j, hj, hjop, hjf f hf⟩

/-- No store gets a label that had none. -/
theorem Spares.not_store (h : b.Spares b')
    (hb : ∀ i ∈ b.code, i.label = l → i.op ≠ .stfld) :
    ∀ i ∈ b'.code, i.label = l → i.op ≠ .stfld := by
  intro i hi hl hop
  obtain ⟨j, hj, hjl, hjop, -⟩ := h.stores i hi hop
  exact hb j hj (hjl.trans hl) hjop

/-- Instructions are changed in place, one by one. -/
theorem spares_of_forall₂ {code : List Instr}
    (h : List.Forall₂ (fun j i => i.label = j.label ∧ (i.op = .stfld →
      j.op = .stfld ∧ ∀ f, i.operand = .field (some f) →
      j.operand = .field (some f))) b.code code) :
    b.Spares { b with code } := by
  have hlabels : code.map (·.label) = b.code.map (·.label) := by
    refine List.ext_getElem (by simp [h.length_eq]) fun n hn hn' => ?_
    simpa using (h.get (by simpa using hn') (by simpa using hn)).1
  refine ⟨fun i hi hop => ?_, fun hl i hi => ?_, fun _ hn => ?_⟩
  · obtain ⟨n, hn, rfl⟩ := List.getElem_of_mem hi
    obtain ⟨hlabel, hstore⟩ := h.get (h.length_eq ▸ hn) hn
    obtain ⟨hjop, hjf⟩ := hstore hop
    exact ⟨_, List.getElem_mem _, hlabel.symm, hjop, hjf⟩
  · have hmem : i.label ∈ b.code.map (·.label) :=
      hlabels ▸ List.mem_map_of_mem hi
    obtain ⟨j, hj, hji⟩ := List.mem_map.1 hmem
    exact hji ▸ hl j hj
  · rw [HasOwnLabels, hlabels]
    exact hn

theorem spares_map {f : Instr → Instr} (hlabel : ∀ i, (f i).label = i.label)
    (hstore : ∀ i ∈ b.code, (f i).op = .stfld → f i = i) :
    b.Spares { b with code := b.code.map f } := by
  refine spares_of_forall₂ ?_
  rw [List.forall₂_map_right_iff, List.forall₂_same]
  intro i hi
  refine ⟨hlabel i, fun hop => ?_⟩
  have hsame := hstore i hi hop
  rw [hsame] at hop
  exact ⟨hop, fun f hf => hsame ▸ hf⟩

/-! ## Edits in place -/

theorem spares_update {f : Instr → Instr} (hlabel : ∀ i, (f i).label = i.label)
    (hstore : ∀ i ∈ b.code, i.label = l → (f i).op ≠ .stfld) :
    b.Spares (b.update l f) := by
  have hcode : b.Spares
      { b with code := b.code.map fun i => if i.label == l then f i
                 else i } := by
    refine spares_map (fun i => ?_) fun i hi hop => ?_
    · split
      · exact hlabel i
      · rfl
    · split at hop
      · rename_i hl
        exact absurd hop (hstore i hi (by simpa using hl))
      · rename_i hl
        exact if_neg hl
  exact ⟨hcode.stores, hcode.labelled, hcode.ownLabels⟩

theorem spares_setAt {op : Opcode} {o : Operand} (hop : op ≠ .stfld) :
    b.Spares (b.setAt l op o) :=
  spares_update (fun _ => rfl) fun _ _ _ => hop

theorem spares_idleAll (ls : List Label) : b.Spares (ls.foldl idleAt b) := by
  induction ls generalizing b with
  | nil => exact .refl b
  | cons l ls ih => exact (spares_setAt (by decide)).trans ih

/-- An access that is not a store can be pointed at another field. -/
theorem spares_redirect {c : Capture} {field : FieldRef}
    (h : ∀ i ∈ b.code, i.label = c.label → i.op ≠ .stfld) :
    b.Spares (b.redirect c field) := by
  have hidle : b.Spares (c.hopLabels.foldl idleAt b) := spares_idleAll _
  exact hidle.trans (spares_update (fun _ => rfl) (hidle.not_store h))

theorem label_simplifyInstr (i : Instr) :
    (b.simplifyInstr i).label = i.label := by
  unfold simplifyInstr
  split <;> first | rfl | (split <;> rfl)

theorem simplifyInstr_eq_self {i : Instr}
    (h : (b.simplifyInstr i).op = .stfld) :
    b.simplifyInstr i = i := by
  have hop : i.op = .stfld := by
    unfold simplifyInstr at h
    split at h <;> grind [Instr.become, Opcode.long_eq_stfld]
  simp only [simplifyInstr, hop, Opcode.long]
  rw [← hop]

theorem spares_simplify (b : Body) : b.Spares b.simplify :=
  spares_map label_simplifyInstr fun _ _ => simplifyInstr_eq_self

/-! ## New instructions -/

/-- The labels in use are below the next one. -/
theorem fresh_claim (b : Body) (is : List Instr) :
    b.fresh ≤ (b.claim is).fresh ∧ ∀ i ∈ is, i.label < (b.claim is).fresh := by
  have hfold : ∀ (is : List Instr) (n : Nat),
      n ≤ is.foldl (fun n i => max n (i.label + 1)) n ∧
        ∀ i ∈ is, i.label < is.foldl (fun n i => max n (i.label + 1)) n := by
    intro is
    induction is with
    | nil => simp
    | cons i is ih =>
      intro n
      obtain ⟨hle, hlt⟩ := ih (max n (i.label + 1))
      exact ⟨(Nat.le_max_left _ _).trans hle,
        List.forall_mem_cons.2 ⟨(Nat.le_max_right n _).trans hle, hlt⟩⟩
  exact hfold is b.fresh

theorem labels_labelled (b : Body) (steps : List Step) :
    (b.labelled steps).map (·.label) = List.range' b.fresh steps.length := by
  refine List.ext_getElem (by simp [labelled]) fun n hn hn' => ?_
  simp [labelled]

/-- Instructions are put after the first one with a label. -/
theorem exists_of_insertAfter {is : List Instr}
    (h : b.insertAfter l is = .ok b') :
    ∃ front i back, b.code = front ++ i :: back ∧ i.label = l ∧
      b' = { b.claim is with code := front ++ i :: (is ++ back) } := by
  unfold insertAfter at h
  split at h
  · rename_i n hn
    obtain ⟨hlt, hl, -⟩ := List.findIdx?_eq_some_iff_getElem.1 hn
    have hcode : b.code = b.code.take n ++ b.code[n] :: b.code.drop
        (n + 1) := by
      rw [List.getElem_cons_drop, List.take_append_drop]
    refine ⟨_, _, _, hcode, beq_iff_eq.1 hl, ?_⟩
    cases hput : b.insertAt? (n + 1) is with
    | none =>
      rw [hput] at h
      cases h
    | some b'' =>
      rw [hput] at h
      cases h
      unfold insertAt? at hput
      split at hput
      · rename_i hnil
        cases hput
        cases List.isEmpty_iff.1 hnil
        rw [List.nil_append, ← hcode]
        rfl
      · split at hput
        · cases hput
        · simp only [List.splitAt_eq, Int.toNat_natCast_add_one,
            Option.some.injEq] at hput
          subst hput
          simp only [List.take_succ_eq_append_getElem hlt, List.append_assoc,
            List.cons_append, List.nil_append]
  · cases h

/-- New code without a store can be put after an instruction. -/
theorem spares_insertAfter {steps : List Step}
    (hsteps : ∀ s ∈ steps, s.1 ≠ .stfld)
    (h : b.insertAfter l (b.labelled steps) = .ok b') : b.Spares b' := by
  obtain ⟨front, back, hcode, rfl⟩ : ∃ front back, b.code = front ++ back ∧
      b' = { b.claim (b.labelled steps) with
               code := front ++ b.labelled steps ++ back } := by
    obtain ⟨front, i, back, hcode, -, hb'⟩ := exists_of_insertAfter h
    exact ⟨front ++ [i], back, by simp [hcode], by simp [hb']⟩
  obtain ⟨hle, hlt⟩ := fresh_claim b (b.labelled steps)
  refine ⟨fun i hi hop => ?_, fun hl i hi => ?_, fun hl hn => ?_⟩
  · simp only [List.mem_append] at hi
    obtain (hi | hi) | hi := hi
    · exact ⟨i, by simp [hcode, hi], rfl, hop, fun _ => id⟩
    · obtain ⟨n, hn, rfl⟩ := List.mem_mapIdx.1 hi
      exact absurd hop (hsteps _ (List.getElem_mem hn))
    · exact ⟨i, by simp [hcode, hi], rfl, hop, fun _ => id⟩
  · simp only [List.mem_append] at hi
    obtain (hi | hi) | hi := hi
    · exact (hl i (by simp [hcode, hi])).trans_le hle
    · exact hlt i hi
    · exact (hl i (by simp [hcode, hi])).trans_le hle
  · have hperm : (front ++ b.labelled steps ++ back).Perm
        (b.labelled steps ++ b.code) := by
      rw [hcode, ← List.append_assoc]
      exact List.perm_append_comm.append_right back
    rw [HasOwnLabels, (hperm.map _).nodup_iff, List.map_append, labels_labelled]
    refine List.nodup_append.2 ⟨List.nodup_range', hn, ?_⟩
    rintro n hn _ hm rfl
    obtain ⟨i, hi, rfl⟩ := List.mem_map.1 hm
    exact absurd (hl i hi) (Nat.not_lt.2 (List.mem_range'_1.1 hn).1)

/-! ## Copies -/

/-- In a copy every instruction but the last one with its label gets a new
label. -/
theorem code_distinct (b : Body) :
    b.distinct.code = b.code.mapIdx fun n i =>
      if b.lastIndexOf? i.label == some n then i
          else { i with label := b.fresh + n } := by
  unfold distinct
  simp only
  split
  · rename_i hall
    refine List.ext_getElem (by simp) fun n hn hn' => ?_
    have hlast : (b.lastIndexOf? b.code[n].label == some n) = true :=
      List.all_eq_true.1 hall _ (List.mem_mapIdx.2 ⟨n, hn, rfl⟩)
    simp only [List.getElem_mapIdx]
    rw [if_pos hlast]
  · rfl

theorem storesTo_distinct (b : Body) : b.distinct.storesTo ⊆ b.storesTo := by
  rintro f ⟨i, hi, hop, hf⟩
  rw [code_distinct] at hi
  obtain ⟨n, hn, rfl⟩ := List.mem_mapIdx.1 hi
  refine ⟨_, List.getElem_mem hn, ?_⟩
  split at hop <;> simp_all

/-- A copy has labels of its own. -/
theorem hasOwnLabels_distinct (hb : b.Labelled) : b.distinct.HasOwnLabels := by
  rw [HasOwnLabels, List.Nodup, List.pairwise_iff_getElem, code_distinct]
  intro n m hn hm hlt heq
  simp only [List.length_map, List.length_mapIdx] at hn hm
  have hltn := hb _ (List.getElem_mem hn)
  have hltm := hb _ (List.getElem_mem hm)
  simp only [List.getElem_map, List.getElem_mapIdx, beq_iff_eq] at heq
  split at heq
  · rename_i hlast
    split at heq
    · rename_i hlast'
      rw [heq, hlast'] at hlast
      exact absurd (Option.some.inj hlast) (Nat.ne_of_gt hlt)
    · exact absurd (heq ▸ hltn) (Nat.not_lt.2 (Nat.le_add_right _ _))
  · split at heq
    · exact absurd (heq ▸ hltm) (Nat.not_lt.2 (Nat.le_add_right _ _))
    · exact absurd (Nat.add_left_cancel heq) (Nat.ne_of_lt hlt)

theorem labelled_distinct (hb : b.Labelled) : b.distinct.Labelled := by
  unfold distinct
  simp only
  split
  · exact hb
  · intro i hi
    obtain ⟨n, hn, rfl⟩ := List.mem_mapIdx.1 hi
    split
    · exact Nat.lt_add_right _ (hb _ (List.getElem_mem hn))
    · exact Nat.add_lt_add_left hn _

end Body

end JobWeave
