import Mathlib
import JobWeave.Proofs.Plan.Synthesis
import JobWeave.Proofs.Pass.Attempt
import JobWeave.Proofs.Workspace.Keys
import JobWeave.Proofs.Workspace.Retention

/-!
# Properties of worlds that work preserves

What the import table has depends on the definitions at the time of each
look-up.  A property that relates the two cannot be stated of the definitions
alone, so here the property is one of the whole world.

* `Weave.Preserves J` is the triple of work that preserves the property `J`,
  whether it stops or not.
* `World.Resolving J` says that resolving references preserves `J`,
  `World.Searchable J` that importing types does as well, and members that are
  asked for by plain names, and `World.Importing J` that importing members by
  first parameters does.
* `World.Codable J` says that giving methods other code preserves `J`, and
  `World.Editable J` that all changes do which leave declarations as they are.

From these, each function of the pass gets one lemma, by its own structure.  The
lemmas are preferred to those about properties of the definitions.
-/

namespace JobWeave

open Framework Std.Do

set_option mvcgen.warning false

/-- The world has the property. -/
structure World.Has (J : World → Prop) (w : World) : Prop where
  /-- the property -/
  holds : J w

variable {J : World → Prop} {α β : Type}

/-- Work that preserves a property of the world, whether it stops or not. -/
abbrev Weave.Preserves (J : World → Prop) (act : Weave α) : Prop :=
  ⦃fun w => ⌜w.Has J⌝⦄ act ⦃post⟨fun _ w => ⌜w.Has J⌝, fun _ w => ⌜w.Has J⌝⟩⦄

/-- Work that preserves a property of the world and gives a result with a
property. -/
abbrev Weave.Yields (J : World → Prop) (R : α → Prop) (act : Weave α) : Prop :=
  ⦃fun w => ⌜w.Has J⌝⦄ act
    ⦃post⟨fun r w => ⌜w.Has J ∧ R r⌝, fun _ w => ⌜w.Has J⌝⟩⦄

/-- Resolving references preserves the property. -/
class World.Resolving (J : World → Prop) : Prop where
  /-- bringing the universe up to date -/
  resolver : Weave.Preserves J Weave.resolver

/-- Looking things up by plain names preserves the property. -/
class World.Searchable (J : World → Prop) : Prop extends World.Resolving J where
  /-- importing a type -/
  internType : ∀ key placeholder,
    Weave.Preserves J (Weave.internType key placeholder)
  /-- importing a field -/
  importField : ∀ owner name, isPlain name →
    Weave.Preserves J (Weave.importField owner name)
  /-- importing a method -/
  importMethod : ∀ owner name params, isPlain name →
    Weave.Preserves J (Weave.importMethod owner name params)

/-- Looking methods up by their first parameters preserves the property as
well. -/
class World.Importing (J : World → Prop) : Prop extends World.Searchable J where
  /-- importing a method -/
  importGenericMethod : ∀ owner name params arity first,
    Weave.Preserves J (Weave.importGenericMethod owner name params arity first)

attribute [grind →] World.Searchable.toResolving

/-- Giving a method other code preserves the property. -/
class World.Codable (J : World → Prop) : Prop where
  /-- one change -/
  setBody : ∀ (w : World) (m : MethodId) (b : Body), w.Has J →
    World.Has J
      { w with workspace := w.workspace.updateMethod m
                 fun d => { d with body := some b } }
  /-- marking types that no method owns -/
  markForeign : ∀ (w : World) (ts : List TypeRef), w.Has J →
    World.Has J { w with foreignMarks := w.foreignMarks ++ ts }

/-- Changes that leave declarations as they are preserve the property. -/
class World.Editable (J : World → Prop) : Prop where
  /-- one change -/
  amend : ∀ (w : World) (W : Workspace), w.Has J → w.workspace.Amends W →
    World.Has J { w with workspace := W }
  /-- marking types that no method owns -/
  markForeign : ∀ (w : World) (ts : List TypeRef), w.Has J →
    World.Has J { w with foreignMarks := w.foreignMarks ++ ts }

@[grind →]
theorem World.Editable.codable (h : World.Editable J) : World.Codable J where
  setBody _ m b hw := h.amend _ _ hw (Workspace.amends_setBody _ m b)
  markForeign := h.markForeign

instance (priority := low) [World.Editable J] : World.Codable J :=
  World.Editable.codable inferInstance

namespace Weave

variable {xs : List α}

/-- The property of the result may be forgotten. -/
theorem Yields.preserves {R : α → Prop} {act : Weave α} (h : Yields J R act) :
    Preserves J act := by
  mvcgen [h]
  simp_all

/-! ## Loops -/

theorem mapM_yields {R : α → β → Prop} {f : α → Weave β}
    (h : ∀ x ∈ xs, Yields J (R x) (f x)) :
    Yields J (List.Forall₂ R xs) (xs.mapM f) :=
  mapM_inv h

@[spec 20000]
theorem mapM_preserves {f : α → Weave β} (h : ∀ x ∈ xs, Preserves J (f x)) :
    Preserves J (xs.mapM f) := by
  refine (mapM_yields (R := fun _ _ => True) fun x hx => ?_).preserves
  have hx := h x hx
  mvcgen [hx]
  simp_all

@[spec 20000]
theorem forIn_preserves {f : α → β → Weave (ForInStep β)} {b : β}
    (h : ∀ x ∈ xs, ∀ b, Preserves J (f x b)) : Preserves J (forIn xs b f) :=
  forIn_inv h

@[spec 20000]
theorem forM_preserves {f : α → Weave PUnit} (h : ∀ x ∈ xs, Preserves J (f x)) :
    Preserves J (xs.forM f) :=
  forM_inv h

@[spec 20000]
theorem foldlM_preserves {f : β → α → Weave β} {b : β}
    (h : ∀ x ∈ xs, ∀ b, Preserves J (f b x)) : Preserves J (xs.foldlM f b) :=
  foldlM_inv h

@[spec 20000]
theorem filterM_preserves {f : α → Weave Bool}
    (h : ∀ x ∈ xs, Preserves J (f x)) :
    Preserves J (xs.filterM f) :=
  filterM_inv h

@[spec 20000]
theorem filterMapM_preserves {f : α → Weave (Option β)}
    (h : ∀ x ∈ xs, Preserves J (f x)) :
    Preserves J (xs.filterMapM f) :=
  filterMapM_inv h

@[spec 20000]
theorem anyM_preserves {f : α → Weave Bool} (h : ∀ x ∈ xs, Preserves J (f x)) :
    Preserves J (xs.anyM f) :=
  anyM_inv h

@[spec 20000]
theorem allM_preserves {f : α → Weave Bool} (h : ∀ x ∈ xs, Preserves J (f x)) :
    Preserves J (xs.allM f) :=
  allM_inv h

@[spec 20000]
theorem optionMapM_preserves {f : α → Weave β} {o : Option α}
    (h : ∀ a, o = some a → Preserves J (f a)) : Preserves J (o.mapM f) := by
  unfold Option.mapM
  cases o with
  | none => mvcgen
  | some a =>
    have ha := h a rfl
    mvcgen [ha]

/-! ## Ends as values -/

@[spec 20000]
theorem attempt_preserves {act : Weave α} (h : Preserves J act) :
    Preserves J (attempt act) := by
  have hact := attempt_spec h
  mvcgen [hact]
  split <;> exact id

@[spec 20000]
theorem tryFailure_preserves {act : Weave α} (h : Preserves J act) :
    Preserves J (tryFailure act) := by
  have hact := tryFailure_spec h
  mvcgen [hact]
  split <;> exact id

/-! ## Looking things up -/

theorem ofOutcome_yields {o : Outcome α} :
    Yields J (o = .ok ·) (ofOutcome o) := by
  unfold ofOutcome
  mvcgen

@[spec 20000]
theorem ofOutcome_preserves {o : Outcome α} : Preserves J (ofOutcome o) :=
  ofOutcome_yields.preserves

@[spec 20000]
theorem refuse_preserves {c : Code} {m : MethodId} {l : Option Label}
    {args : List Text.Arg} :
    Preserves J (refuse c m l args : Weave α) := by
  unfold refuse
  mvcgen

@[spec 20000]
theorem saveBody_preserves {m : MethodId} : Preserves J (saveBody m) := by
  unfold saveBody
  mvcgen

section Definitions

variable {I : Workspace → Prop}

theorem resolver_defs : Preserves (fun w => I w.workspace) resolver :=
  triple_iff.2 fun _ hw => ⟨hw.holds⟩

theorem modifyImports_defs {f : Imports → Imports} :
    Preserves (fun w => I w.workspace) (modifyImports f) :=
  triple_iff.2 fun _ hw => ⟨hw.holds⟩

/-- Looking things up leaves the definitions alone. -/
instance importing_workspace : World.Importing fun w => I w.workspace :=
  have hmethod : ∀ owner name params arity first,
    Preserves (fun w => I w.workspace)
      (importGenericMethod owner name params arity first) := by
    intro owner name params arity first
    mvcgen [importGenericMethod, logRepeat, logMiss, resolver_defs,
      modifyImports_defs, -importGenericMethod_gives, -logRepeat_keeps,
      -logMiss_keeps, -resolver_keeps, -modifyImports_keeps]
  { resolver := resolver_defs
    internType := fun key placeholder => by
      mvcgen [internType, logRepeat, logMiss, resolver_defs, modifyImports_defs,
        -internType_keeps, -logRepeat_keeps, -logMiss_keeps, -resolver_keeps,
        -modifyImports_keeps]
    importField := fun owner name _ => by
      mvcgen [importField, logRepeat, logMiss, resolver_defs,
        modifyImports_defs, -importField_keeps, -logRepeat_keeps,
        -logMiss_keeps, -resolver_keeps, -modifyImports_keeps]
    importMethod := fun _ _ _ _ => hmethod _ _ _ _ _
    importGenericMethod := hmethod }

end Definitions

section Searching

@[spec 20000]
theorem resolver_preserves [World.Resolving J] : Preserves J resolver :=
  World.Resolving.resolver

@[spec 20000]
theorem internType_preserves [World.Searchable J] {key : String}
    {placeholder : TypeRef} :
    Preserves J (internType key placeholder) :=
  World.Searchable.internType key placeholder

@[spec 20000]
theorem importField_preserves [World.Searchable J] {owner : TypeRef}
    {name : String} (hname : isPlain name) :
    Preserves J (importField owner name) :=
  World.Searchable.importField owner name hname

@[spec 20000]
theorem importMethod_preserves [World.Searchable J] {owner : TypeRef}
    {name : String} {params : Nat} (hname : isPlain name) :
    Preserves J (importMethod owner name params) :=
  World.Searchable.importMethod owner name params hname

@[spec 20000]
theorem importGenericMethod_preserves [World.Importing J] {owner : TypeRef}
    {name : String} {params arity : Int} {first : List TypeRef} :
    Preserves J (importGenericMethod owner name params arity first) :=
  World.Importing.importGenericMethod owner name params arity first

end Searching

/-! ## Changes -/

section Editing

variable [World.Editable J] {m : MethodId} {t : TypeId}

theorem modifyWorkspace_preserves {f : Workspace → Workspace}
    (hf : ∀ w : Workspace, w.Amends (f w)) :
    Preserves J (modifyWorkspace f) := by
  unfold modifyWorkspace
  mvcgen
  exact World.Editable.amend _ _ ‹_› (hf _)

theorem addToWorkspace_preserves {f : Workspace → Workspace × α}
    (hf : ∀ w : Workspace, w.Amends (f w).1) :
    Preserves J (addToWorkspace f) := by
  unfold addToWorkspace
  mvcgen
  exact World.Editable.amend _ _ ‹_› (hf _)

@[spec 20000]
theorem updateMethod_preserves {f : MethodDef → MethodDef}
    (hf : ∀ d : MethodDef, d.Resembles (f d)) :
    Preserves J (modifyWorkspace (·.updateMethod m f)) :=
  modifyWorkspace_preserves fun w => Workspace.amends_updateMethod w m hf

@[spec 20000]
theorem updateHead_preserves {f : TypeHead → TypeHead} (hf : TypeHead.Fills f) :
    Preserves J (modifyWorkspace (·.updateHead t f)) :=
  modifyWorkspace_preserves fun w => Workspace.amends_updateHead w t hf

@[spec 20000]
theorem addField_preserves {f : FieldDef} :
    Preserves J (modifyWorkspace (·.addField t f)) :=
  modifyWorkspace_preserves fun w => Workspace.amends_addField w t f

@[spec 20000]
theorem addMethod_preserves {d : MethodDef} :
    Preserves J (addToWorkspace (·.addMethod t d)) :=
  addToWorkspace_preserves fun w => Workspace.amends_addMethod w t d

@[spec 20000]
theorem addCopy_preserves {d : MethodDef} :
    Preserves J (addToWorkspace (·.addCopy t m d)) :=
  addToWorkspace_preserves fun w => Workspace.amends_addCopy w t m d

end Editing

/-! ## Code -/

section Coding

variable [World.Codable J] {m : MethodId}

@[spec 20000]
theorem setBody_preserves {b : Body} : Preserves J (setBody m b) :=
  triple_iff.2 fun w hw => World.Codable.setBody w m b hw

@[spec 20000]
theorem markForeign_preserves {ts : List TypeRef} :
    Preserves J (markForeign ts) :=
  triple_iff.2 fun w hw => World.Codable.markForeign w ts hw

@[spec 20000]
theorem modifyBody_preserves {f : Body → Body} :
    Preserves J (modifyBody m f) := by
  unfold modifyBody
  mvcgen

@[spec 20000]
theorem adoptMarks_preserves {b : Body} : Preserves J (adoptMarks b m) := by
  unfold adoptMarks
  mvcgen

@[spec 20000]
theorem shareMarks_preserves {b : Body} : Preserves J (shareMarks m b) := by
  unfold shareMarks
  mvcgen
  intros
  infer_instance

@[spec 20000]
theorem restoreBody_preserves {b : Body} : Preserves J (restoreBody m b) := by
  unfold restoreBody
  mvcgen
  intros
  infer_instance

@[spec 20000]
theorem restoringBody_preserves {act : Weave α} (h : Preserves J act) :
    Preserves J (restoringBody m act) := by
  unfold restoringBody
  mvcgen [h]

@[spec 20000]
theorem optimizeBody_preserves : Preserves J (optimizeBody m) := by
  unfold optimizeBody
  mvcgen

end Coding

end Weave

end JobWeave
