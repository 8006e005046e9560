import Mathlib
import JobWeave.Body.Spelling
import JobWeave.Proofs.Body.References
import JobWeave.Workspace.Universe

/-!
# The method operands of a copy

The code of a copied method refers to other methods.  Here it is said what each
of these operands is in the copy.

* `Workspace.relinkedBody` is some code with the copies of the methods that it
  refers to.
* `Workspace.Adapts` relates the operands of the code of a method to those of
  its copy.
* `Workspace.adapts_references`: code is so related to what is left of it when
  its accessors are served and its captured variables are redirected as well.
-/

namespace JobWeave

variable {V : Workspace} {u : Universe}

/-! ## Calls of copied methods -/

/-- The copy of the method that a reference resolves to. -/
def Workspace.copy? (V : Workspace) (u : Universe)
    (copies : List (MethodId × MethodId)) (r : MethodRef) : Option MethodId :=
  (u.resolveMethod? V r).join.bind fun n => copies.lookup n

/-- A virtual call as a direct one. -/
def Opcode.direct (op : Opcode) : Opcode :=
  if op == .callvirt then .call else op

/-- The instruction with the copy of the method that it refers to. -/
def Workspace.relinked (V : Workspace) (u : Universe)
    (copies : List (MethodId × MethodId)) (R : MethodId → MethodRef)
    (i : Instr) : Instr :=
  match i.method?.join.bind (V.copy? u copies) with
  | some k => i.become i.op.direct (.method (some (R k)))
  | none => i

/-- The code with the copies of the methods that it refers to. -/
def Workspace.relinkedBody (V : Workspace) (u : Universe)
    (copies : List (MethodId × MethodId)) (R : MethodId → MethodRef)
    (b : Body) : Body :=
  { b with code := b.code.map (V.relinked u copies R) }

theorem Workspace.relinked_eq {copies : List (MethodId × MethodId)}
    {R : MethodId → MethodRef} {i : Instr} {o : Option MethodId}
    (ho : o = i.method?.join.bind fun r => (u.resolveMethod? V r).join) :
    V.relinked u copies R i =
      match o.bind fun n => copies.lookup n with
      | some k => i.become i.op.direct (.method (some (R k)))
      | none => i := by
  rw [ho, Option.bind_assoc]
  rfl

/-! ## Method operands of a copy -/

/-- The code of a method as it is copied. -/
def Body.copied (b : Body) : Body :=
  b.distinct.simplify

theorem Body.isTidy_copied {b : Body} (hb : b.Labelled) : b.copied.IsTidy :=
  (Body.spares_simplify _).isTidy ⟨Body.labelled_distinct hb,
    Body.hasOwnLabels_distinct hb⟩

/-- The method is a member of a look-up of the component that an accessor is
called for. -/
def MethodRef.LooksUp (accessor r : MethodRef) : Prop :=
  ∃ lookup : TypeRef, r.owner = lookup.withArgs
    [accessor.typeArgs.headD .absent]

namespace Workspace

variable {V : Workspace} {u : Universe} {copies : List (MethodId × MethodId)}
variable {R : MethodId → MethodRef}

/-- What becomes of a method operand in a copy.  It names a copy if it resolves
to a method that is copied.  Else it stays as it is, component accessors apart:
a call of a member of a look-up takes the place of theirs. -/
inductive Adapts (V : Workspace) (u : Universe)
    (copies : List (MethodId × MethodId)) (R : MethodId → MethodRef)
    (x : Reference) : Reference → Prop
  | linked {k : MethodId} (hk : V.copy? u copies x.target = some k) :
    Adapts V u copies R x { label := x.label, op := x.op.direct, target := R k }
  | kept (hk : V.copy? u copies x.target = none) (hx : x.isAccessor = false) :
    Adapts V u copies R x x
  | served {r : MethodRef} (hk : V.copy? u copies x.target = none)
    (hx : x.isAccessor) (hr : x.target.LooksUp r) :
    Adapts V u copies R x { label := x.label, op := .call, target := r }

/-- The method operand with the copy of the method. -/
def relinkedReference (V : Workspace) (u : Universe)
    (copies : List (MethodId × MethodId)) (R : MethodId → MethodRef)
    (x : Reference) : Reference :=
  match V.copy? u copies x.target with
  | some k => { label := x.label, op := x.op.direct, target := R k }
  | none => x

theorem reference?_relinked (i : Instr) :
    (V.relinked u copies R i).reference? = i.reference?.map
      (V.relinkedReference u copies R) := by
  unfold relinked relinkedReference Instr.reference?
  cases hm : i.method?.join with
  | none => simp [hm]
  | some r =>
    cases hk : V.copy? u copies r with
    | none => simp [hk, hm]
    | some k => simp [hk, Instr.method?, Instr.become]

theorem label_relinked (i : Instr) :
    (V.relinked u copies R i).label = i.label := by
  unfold relinked
  split <;> rfl

theorem references_relinkedBody (b : Body) :
    (V.relinkedBody u copies R b).references = b.references.map
      (V.relinkedReference u copies R) := by
  rw [Body.references, Body.references, relinkedBody, List.filterMap_map,
    List.map_filterMap]
  exact List.filterMap_congr fun i _ => reference?_relinked i

theorem isTidy_relinkedBody {b : Body} (hb : b.IsTidy) :
    (V.relinkedBody u copies R b).IsTidy := by
  constructor
  · intro i hi
    obtain ⟨j, hj, rfl⟩ := List.mem_map.1 hi
    rw [label_relinked]
    exact hb.labelled j hj
  · have hlabels : (V.relinkedBody u copies R b).code.map Instr.label =
        b.code.map Instr.label := by
      rw [relinkedBody, List.map_map]
      exact List.map_congr_left fun i _ => label_relinked i
    rw [Body.HasOwnLabels, hlabels]
    exact hb.ownLabels

/-- Relinking a copy, serving its accessors and redirecting its captured
variables. -/
theorem adapts_references {b b₁ b₂ : Body} (hb : b.IsTidy)
    (hR : ∀ k, (R k).typeArgs = [])
    (hserves : (V.relinkedBody u copies R b).ServesAll MethodRef.LooksUp
      ((V.relinkedBody u copies R b).references.filter Reference.isAccessor) b₁)
    (hremaps : b₁.Remaps b₂) :
    List.Forall₂ (V.Adapts u copies R) b.references b₂.references := by
  have htidy : (V.relinkedBody u copies R b).IsTidy := isTidy_relinkedBody hb
  have hserved := hserves.references htidy (htidy.nodup_references.filter _)
    fun x hx => (List.mem_filter.1 hx).1
  rw [hremaps.references (hserves.spares.isTidy htidy)]
  have hboth := (List.forall₂_and_left _ _).2 ⟨fun y hy => hy, hserved⟩
  rw [references_relinkedBody, List.forall₂_map_left_iff] at hboth
  refine hboth.imp fun x z ⟨hmem, hz⟩ => ?_
  unfold relinkedReference at hmem hz
  split at hz
  · rename_i k hk
    have hno : z = _ := hz.eq_self fun hc => by
      have hacc := (List.mem_filter.1 hc).2
      simp [Reference.isAccessor, MethodRef.isComponentAccessor, hR] at hacc
    rw [hno]
    exact .linked hk
  · rename_i hk
    rw [hk] at hmem
    cases hz with
    | kept hx => exact .kept hk (by simpa [hmem] using hx)
    | served hx hr => exact .served hk (List.mem_filter.1 hx).2 hr

end Workspace

end JobWeave
