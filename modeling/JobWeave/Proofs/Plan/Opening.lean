import Mathlib
import JobWeave.Proofs.World.Planning

/-!
# The code for the creation hook keeps how it starts

Planning adds to the code for the creation hook at its end.  Once that code
starts with some code, the finished plan's code starts with it too, whatever the
world is like.

* `World.Any` says nothing of the world, and all work preserves it.
* `Outline.Continues` says that the outline allows more code at the end, and
  `Outline.opening job R` that the code starts with code that has the property
  `R`.
* `Planning.buildQuery_opens` and `Planning.directEntryPoint_opens` are the
  parts that add to the code.
-/

namespace JobWeave

open Framework Std.Do

set_option mvcgen.warning false

/-- Nothing is said of the world. -/
def World.Any (_ : World) : Prop :=
  True

theorem Weave.preserves_any {α : Type} {act : Weave α} :
    Weave.Preserves World.Any act := by
  refine triple_iff.2 fun w _ => ?_
  cases act w <;> exact ⟨trivial⟩

instance : World.Importing World.Any where
  resolver := Weave.preserves_any
  internType _ _ := Weave.preserves_any
  importField _ _ _ := Weave.preserves_any
  importMethod _ _ _ _ := Weave.preserves_any
  importGenericMethod _ _ _ _ _ := Weave.preserves_any

instance : World.Editable World.Any :=
  ⟨fun _ _ _ _ => ⟨trivial⟩, fun _ _ _ => ⟨trivial⟩⟩

instance {job : TypeId} : World.Nests World.Any job :=
  ⟨fun _ _ => Weave.preserves_any⟩

/-- The code for the creation hook may get more code at its end. -/
class Outline.Continues (O : Outline) : Prop where
  /-- more code -/
  append : ∀ code more, O.code code → O.code (code ++ more)

/-- A plan whose code for the creation hook starts with code that has a
property. -/
abbrev Outline.opening (job : TypeId) (R : List Step → Prop) : Outline :=
  { job, code := fun init => ∃ code rest, init = code ++ rest ∧ R code }

instance {job : TypeId} {R : List Step → Prop} :
    (Outline.opening job R).Continues where
  append := by
    rintro _ more ⟨code, rest, rfl, hcode⟩
    exact ⟨code, rest ++ more, List.append_assoc .., hcode⟩

instance {job : TypeId} {copies : List MethodId → Prop}
    {captured : List CapturedVariable → Prop}
    {access : List ComponentAccess → Prop} {elements : List Element → Prop}
    {lambda : Option MethodId → Prop} :
    Outline.Continues
      { job, code := fun _ => True, copies, captured, access, elements,
        lambda } :=
  ⟨fun _ _ _ => trivial⟩

variable {J : World → Prop} {O : Outline}

/-- A plan with more code for the creation hook. -/
theorem Plan.Follows.append [O.Continues] {u v : Plan} {code : List Step}
    (hu : u.Follows O) (htype : v.type = u.type)
    (hinit : v.init = u.init ++ code) (hcloned : v.cloned = u.cloned)
    (hcaptured : v.captured = u.captured) (haccess : v.access = u.access)
    (helements : v.elements = u.elements) (hlambda : v.lambda = u.lambda) :
    v.Follows O where
  type := htype.trans hu.type
  init := hinit ▸ Outline.Continues.append _ _ hu.init
  cloned := hcloned ▸ hu.cloned
  captured := hcaptured ▸ hu.captured
  access := haccess ▸ hu.access
  elements := helements ▸ hu.elements
  lambda := hlambda ▸ hu.lambda

namespace Planning

@[local spec 30000]
theorem componentTypes_preserves [World.Searchable J] {items : List QueryItem} :
    Weave.Preserves J (componentTypes items) := by
  unfold componentTypes
  mvcgen
  rename_i x _ _ _
  cases x.1.readOnly <;> decide

@[local spec 30000]
theorem queryPart_preserves [World.Searchable J] {desc : TypeRef}
    {name : String} {items : List QueryItem} (hname : isPlain name) :
    Weave.Preserves J (queryPart desc name items) := by
  unfold queryPart
  mvcgen

@[local spec 30000]
theorem optionsPart_preserves [World.Searchable J] {desc : TypeRef}
    {options : Option Int32} :
    Weave.Preserves J (optionsPart desc options) := by
  unfold optionsPart
  mvcgen

@[local spec 30000]
theorem filterPart_preserves [World.Searchable J] {query : FieldRef}
    {changed : List QueryItem} :
    Weave.Preserves J (filterPart query changed) := by
  unfold filterPart
  mvcgen

theorem buildQuery_opens [World.Searchable J] [O.Continues] :
    Preserves J O buildQuery := by
  rw [buildQuery_eq]
  mvcgen
  rotate_right
  · have hu := ‹Sketch J O _ _›
    have hw := ‹World.Has J _›
    exact ⟨hw, hu.plan.append rfl rfl rfl rfl rfl rfl rfl⟩
  all_goals grind -ring -linarith

theorem directDelegates_opens [World.Importing J] [World.Editable J]
    [O.Continues] {delegate : TypeRef} {m : MethodId} :
    Preserves J O (directDelegates delegate m) := by
  unfold directDelegates
  mvcgen
  all_goals try infer_instance
  all_goals try grind
  -- with a compiled delegate or without
  all_goals
    have hu := ‹Sketch J O _ _›
    have hw := ‹World.Has J _›
    exact ⟨hw, hu.plan.append rfl (List.append_assoc ..) rfl rfl rfl rfl rfl⟩

theorem directEntryPoint_opens [World.Importing J] [World.Editable J]
    [O.Continues] :
    Preserves J O directEntryPoint := by
  have hdelegates := fun delegate m => @directDelegates_opens J O
    _ _ _ delegate m
  unfold directEntryPoint
  mvcgen [hdelegates, -directDelegates_drafts]
  all_goals try infer_instance
  all_goals grind [MethodDef.Resembles]

namespace Opening

attribute [scoped spec 30000] directDelegates_opens directEntryPoint_opens

end Opening

end Planning

end JobWeave
