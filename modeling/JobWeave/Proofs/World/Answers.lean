import Mathlib
import JobWeave.Proofs.World.Planning
import JobWeave.Proofs.Workspace.Keys

/-!
# Imported members have the names that were asked for

A look-up of a member is remembered under a text with the name of the member in
it.  Code that was made with imported members is read by these names, so what
the import table remembers has to have them.

* `Imports.Answers` says that members are remembered under their own names, as
  far as no marks occur in these; an empty table does (`Imports.answers_empty`).
* `World.Answers I` adds a property of the definitions; looking up types and
  members with such names preserves it, and gives members of the names that were
  asked for.
* `Workspace.Amendable I` says that changes which leave declarations as they are
  preserve the property of the definitions, and `Workspace.Enduring I` that
  nesting a type does as well.

The lemmas about imported members are used where `World.Answers` is open.
-/

namespace JobWeave

open Framework Std.Do

set_option mvcgen.warning false

/-- Members without marks in their names are remembered under their own
names. -/
structure Imports.Answers (im : Imports) : Prop where
  /-- the methods, which have the number of parameters that was asked for -/
  methods : ∀ (owner name : String) (params : Int) (m : MethodRef),
    isPlain name → im.methods.lookup (methodKey owner name params (-1) []) =
      some m → m.name = name ∧ (m.params.length : Int) = params
  /-- the fields -/
  fields : ∀ (owner name : String) (f : FieldRef), isPlain name →
    im.fields.lookup (owner ++ "::" ++ name) = some f → f.name = name

theorem Imports.answers_empty : ({} : Imports).Answers :=
  ⟨by simp, by simp⟩

namespace Imports.Answers

variable {im im' : Imports}

/-- Remembering a method under its name. -/
theorem addMethod (h : im.Answers) {owner name : String} {params : Int}
    {m : MethodRef} (hname : isPlain name) (hm : m.name = name)
    (hparams : (m.params.length : Int) = params) :
    Imports.Answers
      { im with methods :=
          (methodKey owner name params (-1) [], m) :: im.methods } := by
  refine { h with methods := fun owner' name' params' m' hname' hm' => ?_ }
  rw [List.lookup_cons] at hm'
  split at hm'
  · rename_i hkey
    obtain ⟨rfl, rfl⟩ := methodKey_inj_of_isPlain hname' hname (eq_of_beq hkey)
    cases hm'
    exact ⟨hm, hparams⟩
  · exact h.methods owner' name' params' m' hname' hm'

/-- Remembering a field under its name. -/
theorem addField (h : im.Answers) {owner name : String} {f : FieldRef}
    (hname : isPlain name) (hf : f.name = name) :
    Imports.Answers
      { im with fields := (owner ++ "::" ++ name, f) :: im.fields } := by
  refine { h with fields := fun owner' name' f' hname' hf' => ?_ }
  rw [List.lookup_cons] at hf'
  split at hf'
  · rename_i hkey
    obtain rfl := memberKey_inj hname' hname (eq_of_beq hkey)
    cases hf'
    exact hf
  · exact h.fields owner' name' f' hname' hf'

end Imports.Answers

/-- Members are remembered under their own names, and the definitions have a
property. -/
structure World.Answers (I : Workspace → Prop) (w : World) : Prop where
  /-- the import table -/
  imports : w.imports.Answers
  /-- the definitions -/
  workspace : I w.workspace

/-- The log and the table of types do not matter. -/
theorem World.Answers.of_imports {I : Workspace → Prop} {w : World}
    {im : Imports} (h : w.Answers I) (hmethods : im.methods = w.imports.methods)
    (hfields : im.fields = w.imports.fields) :
    World.Answers I { w with imports := im } :=
  ⟨⟨hmethods ▸ h.imports.methods, hfields ▸ h.imports.fields⟩, h.workspace⟩

theorem Workspace.length_params_methodRef? {w : Workspace} {id : MethodId}
    {m : MethodRef} (h : w.methodRef? id = some m) :
    m.params.length = (w.method id).params.length := by
  simp only [Workspace.methodRef?, Option.bind_eq_bind, Option.bind_eq_some_iff,
    Option.some.injEq] at h
  obtain ⟨t, -, rfl⟩ := h
  exact List.length_map _

/-- A field that is found has the name that was asked for. -/
theorem Universe.name_of_resolveField? {u : Universe} {w : Workspace}
    {owner : TypeRef} {name : String} {t : TypeId} {f : FieldDef}
    (h : u.resolveField? w owner name = some (t, f)) :
    f.name = name := by
  obtain ⟨t', -, ht⟩ := List.exists_of_findSome?_eq_some h
  rw [Option.map_eq_some_iff] at ht
  obtain ⟨f', hf', heq⟩ := ht
  cases heq
  simpa using List.find?_some hf'

namespace Weave

variable {I : Workspace → Prop}

theorem resolver_answers : Preserves (World.Answers I) resolver :=
  triple_iff.2 fun _ hw => ⟨⟨hw.holds.imports, hw.holds.workspace⟩⟩

instance : World.Resolving (World.Answers I) :=
  ⟨resolver_answers⟩

theorem logRepeat_answers {key : String} :
    Preserves (World.Answers I) (logRepeat key) := by
  unfold logRepeat modifyImports
  mvcgen
  rename_i w h _
  refine ⟨h.holds.of_imports ?_ ?_⟩ <;>
    cases w.imports.missing.lookup key <;> rfl

theorem logMiss_answers {key name : String} :
    Preserves (World.Answers I) (logMiss key name) := by
  unfold logMiss modifyImports
  mvcgen
  rename_i h _
  exact ⟨h.holds.of_imports rfl rfl⟩

theorem internType_answers {key : String} {placeholder : TypeRef} :
    Preserves (World.Answers I) (internType key placeholder) := by
  have hmodify : ∀ r : TypeRef, Preserves (World.Answers I)
      (modifyImports fun im => { im with types := (key, r) :: im.types }) :=
    fun r => triple_iff.2 fun w hw => ⟨hw.holds.of_imports rfl rfl⟩
  have hmiss := fun name => @logMiss_answers I key name
  unfold internType
  mvcgen [hmodify, logRepeat_answers, hmiss, -modifyImports_keeps,
    -logRepeat_keeps, -logMiss_keeps]
  all_goals infer_instance

/-- Importing a method gives one of its name. -/
theorem importMethod_answers {owner : TypeRef} {name : String} {params : Nat}
    (hname : isPlain name) :
    Yields (World.Answers I) (fun m => m.name = name ∧ m.params.length = params)
      (importMethod owner name params) := by
  unfold importMethod importGenericMethod modifyImports methodRef
  mvcgen [logRepeat_answers, logMiss_answers, -logRepeat_keeps, -logMiss_keeps]
  all_goals try infer_instance
  · rename_i h names hnames _ m hm _ _ hw
    obtain rfl : names = [] := by simpa using hnames.symm
    have hanswer := h.holds.imports.methods owner.openName name params m
      hname hm
    exact ⟨hw, hanswer.1, by exact_mod_cast hanswer.2⟩
  · rename_i names hnames _ _ _ w hw _ hsearch _ id ho m hm _
    obtain rfl : names = [] := by simpa using hnames.symm
    have hfits := Universe.firstSome?_eq_some (hsearch.trans (congrArg some ho))
    split at hfits
    case isFalse => cases hfits
    rename_i hd
    simp only [Bool.and_eq_true, beq_iff_eq] at hd
    have hanswer : m.name = name ∧ (m.params.length : Int) = params := by
      rw [Workspace.name_methodRef? hm, Workspace.length_params_methodRef? hm]
      exact hd.1
    exact ⟨⟨⟨hw.holds.imports.addMethod hname hanswer.1 hanswer.2,
      hw.holds.workspace⟩⟩, hanswer.1, by exact_mod_cast hanswer.2⟩
  · rename_i names hnames _ _ _ w hw _ hsearch _ ho _ _ _ w' hw' _
    obtain rfl : names = [] := by simpa using hnames.symm
    have hlength : (List.replicate (params : Int).toNat TypeRef.object).length =
      params := by simp
    exact ⟨⟨⟨hw'.holds.imports.addMethod hname rfl (by exact_mod_cast hlength),
      hw'.holds.workspace⟩⟩, trivial, hlength⟩

/-- Importing a field gives one of its name. -/
theorem importField_answers {owner : TypeRef} {name : String}
    (hname : isPlain name) :
    Yields (World.Answers I) (fun f => f.name = name)
      (importField owner name) := by
  unfold importField resolveField modifyImports
  mvcgen [logRepeat_answers, logMiss_answers, -logRepeat_keeps, -logMiss_keeps]
  all_goals try infer_instance
  · rename_i h f hf _ _ hw
    exact ⟨hw, h.holds.imports.fields owner.openName name f hname hf⟩
  · rename_i w hw _ t d hd _
    have hf : (w.workspace.fieldRef t d).name = name :=
      Universe.name_of_resolveField? hd
    exact ⟨⟨⟨hw.holds.imports.addField hname hf, hw.holds.workspace⟩⟩, hf⟩
  · rename_i hw _
    exact ⟨⟨hw.holds.imports.addField hname rfl, hw.holds.workspace⟩⟩

instance : World.Searchable (World.Answers I) where
  resolver := resolver_answers
  internType _ _ := internType_answers
  importField _ _ hname := (importField_answers hname).preserves
  importMethod _ _ _ hname := (importMethod_answers hname).preserves

end Weave

namespace World.Answers

attribute [scoped spec 30000] Weave.importMethod_answers
    Weave.importField_answers

end World.Answers

/-! ## Changes -/

/-- Changes that leave declarations as they are preserve the property. -/
class Workspace.Amendable (I : Workspace → Prop) : Prop where
  /-- one change -/
  amend : ∀ w W : Workspace, I w → w.Amends W → I W

/-- Nesting a value type without members preserves the property as well. -/
class Workspace.Enduring (I : Workspace → Prop) :
    Prop extends Workspace.Amendable I where
  /-- one value type -/
  nest : ∀ (w : Workspace) (t : TypeId) (h : TypeHead),
    h.base = .valueType → I w → I (w.addNested t (.mk h [] [])).1

instance {I : Workspace → Prop} [Workspace.Amendable I] :
    World.Editable (World.Answers I) where
  amend _ _ h ha :=
    ⟨⟨h.holds.imports, Workspace.Amendable.amend _ _ h.holds.workspace ha⟩⟩
  markForeign _ _ h := ⟨⟨h.holds.imports, h.holds.workspace⟩⟩

instance {I : Workspace → Prop} [Workspace.Amendable I] :
    World.Editable fun w => I w.workspace where
  amend _ _ h ha := ⟨Workspace.Amendable.amend _ _ h.holds ha⟩
  markForeign _ _ h := ⟨h.holds⟩

instance {I : Workspace → Prop} [Workspace.Enduring I] {job : TypeId} :
    World.Nests (World.Answers I) job where
  nest h hb := triple_iff.2 fun _ hw =>
    ⟨⟨hw.holds.imports, Workspace.Enduring.nest _ _ h hb hw.holds.workspace⟩⟩

end JobWeave
