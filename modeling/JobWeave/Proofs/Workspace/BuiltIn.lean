import JobWeave.Framework.Library
import JobWeave.Proofs.Workspace.Keys
import JobWeave.Proofs.Workspace.Lineage
import JobWeave.Proofs.Workspace.Retention
import JobWeave.Workspace.Import

/-!
# Members of the framework that the creation code uses

The code for a creation hook makes arrays of component types, queries and
delegates, with calls of a few methods of the framework.  How many values such a
call takes and leaves depends on the declaration that is found for it.

* `TypeRef.Names` says that a reference is to a type of a given full name.
* `LibraryCall` is a look-up of a method with the signature that the creation
  code counts on, and `libraryCalls` are those that it does.
* `Workspace.FindsBuiltIn` says that a name resolves to the framework's own
  type.  Under it `Workspace.Grounds.finds` says that a look-up finds a method
  with the expected signature, also after methods were added to the type.
-/

namespace JobWeave

open Framework

/-! ## References by name -/

/-- The reference is to a type of the full name, without arguments. -/
structure TypeRef.Names (r : TypeRef) (name : String) : Prop where
  /-- it is by name -/
  isNamed : r.isNamed = true
  /-- it has no arguments -/
  args : r.args = []
  /-- the name -/
  openName : r.openName = name

namespace TypeRef.Names

variable {r : TypeRef} {name : String}

theorem name?_eq (h : r.Names name) : r.name? = some name := by
  obtain ⟨hnamed, hargs, hname⟩ := h
  cases r <;> simp_all [TypeRef.isNamed, TypeRef.args, TypeRef.name?]

theorem isAbsent_eq (h : r.Names name) : r.isAbsent = false := by
  obtain ⟨hnamed, -, -⟩ := h
  cases r <;> simp_all [TypeRef.isNamed, TypeRef.isAbsent]

theorem isPresent_eq (h : r.Names name) : r.isPresent = true := by
  rw [TypeRef.isPresent, h.isAbsent_eq, Bool.not_false]

theorem fullName?_eq (h : r.Names name) : r.fullName? = some name := by
  have hname := h.name?_eq
  obtain ⟨hnamed, -, -⟩ := h
  cases r <;> simp_all [TypeRef.isNamed, TypeRef.fullName?]

theorem nestedIn {inner : String} {valueType : Bool} (h : r.Names name) :
    (TypeRef.named "" inner valueType r []).Names (name ++ "/" ++ inner) := by
  refine ⟨rfl, rfl, ?_⟩
  obtain ⟨hnamed, -, rfl⟩ := h
  cases r <;> simp_all [TypeRef.isNamed, TypeRef.openName]

end TypeRef.Names

/-- A reference whose name without arguments is not empty is by name. -/
theorem TypeRef.isNamed_of_openName {r : TypeRef} (h : r.openName ≠ "") :
    r.isNamed = true := by
  cases r <;> simp_all [TypeRef.isNamed, TypeRef.openName]

theorem Universe.named?_of_isNamed {r : TypeRef} (h : r.isNamed = true) :
    Universe.named? r = some r := by
  cases r <;> simp_all [TypeRef.isNamed, Universe.named?]

/-- Comparing with a reference only looks at its name. -/
theorem TypeRef.same?_of_name? {r t : TypeRef} {name : String}
    (h : t.name? = some name) :
    r.same? t = if r.isAbsent then some false else r.name?.map (· == name) := by
  cases t with
  | absent => simp [TypeRef.name?] at h
  | named _ _ _ _ _ =>
    cases r <;> simp only [TypeRef.same?, TypeRef.isAbsent, h] <;>
      simp [Option.map_eq_bind]
  | wrapped _ _ _ =>
    cases r <;> simp only [TypeRef.same?, TypeRef.isAbsent, h] <;>
      simp [Option.map_eq_bind]
  | param _ _ _ =>
    cases r <;> simp only [TypeRef.same?, TypeRef.isAbsent, h] <;>
      simp [Option.map_eq_bind]

namespace Workspace

variable {V w : Workspace} {t : TypeId}

/-- The open reference to a type has its full name, if types come after those
around them. -/
theorem names_typeRefUpTo {n fuel : Nat}
    (houter : ∀ t o, t.index < n → (w.type t).outer = some o →
      o.index < t.index)
    (hn : t.index < n) (hfuel : t.index < fuel) :
    (w.typeRefUpTo fuel t).Names (w.typeNameUpTo fuel t) := by
  induction fuel generalizing t with
  | zero => omega
  | succ fuel ih =>
    rw [typeRefUpTo, typeNameUpTo]
    cases ho : (w.type t).outer with
    | none =>
      refine ⟨rfl, rfl, ?_⟩
      simp [TypeRef.openName, TypeDef.qualifiedName]
    | some o =>
      have hlt := houter t o hn ho
      exact (ih (hlt.trans hn) (by omega)).nestedIn

theorem Develops.names_typeRef (h : V.Develops w) (hV : V.Tidy)
    (ht : t.index < V.types.size) :
    (w.typeRef t).Names (V.typeName t) := by
  have houter : ∀ x o, x.index < V.types.size → (w.type x).outer = some o →
      o.index < x.index := fun x o hx ho =>
    hV.outer_lt x o ((h.old x hx).outer ▸ ho)
  have hlt : t.index < w.types.size + 1 := by
    have := h.types_le
    omega
  have hnames := names_typeRefUpTo houter ht hlt
  rwa [show w.typeNameUpTo (w.types.size + 1) t = w.typeName t from rfl,
    h.typeName_eq hV ht] at hnames

end Workspace

/-! ## Looking for a method -/

namespace Framework

/-- The definition is what a look-up by name, numbers of parameters and first
parameters asks for. -/
def fits? (name : String) (params arity : Int) (first : List TypeRef)
    (d : MethodDef) : Option Bool :=
  if d.name == name && (d.params.length : Int) == params &&
      (arity < 0 || (d.genericParams.length : Int) == arity) then
    if d.params.length < first.length then some false
    else Weave.startsWith? d.params first
  else some false

theorem startsWith?_congr {ps qs : List ParamDef} {ts : List TypeRef}
    (h : qs.map (·.type) = ps.map (·.type)) :
    Weave.startsWith? qs ts = Weave.startsWith? ps ts := by
  induction ps generalizing qs ts with
  | nil => simp_all
  | cons p ps ih =>
    cases qs with
    | nil => simp at h
    | cons q qs =>
      simp only [List.map_cons, List.cons.injEq] at h
      cases ts with
      | nil => rfl
      | cons t ts => rw [Weave.startsWith?, Weave.startsWith?, h.1, ih h.2]

/-- A method of the same signature is found by the same look-ups. -/
theorem fits?_of_resembles {name : String} {params arity : Int}
    {first : List TypeRef} {d d' : MethodDef} (h : d.Resembles d') :
    fits? name params arity first d' = fits? name params arity first d := by
  rw [fits?, fits?, h.name, h.length_params, h.genericParams,
    startsWith?_congr h.params]

/-- The look-up only uses the names of the types of the first parameters. -/
theorem fits?_first {name : String} {params arity : Int} {ss ts : List TypeRef}
    {d : MethodDef} (hts : ∀ t ∈ ts, t.name?.isSome)
    (h : ss.map (·.name?) = ts.map (·.name?)) :
    fits? name params arity ss d = fits? name params arity ts d := by
  have hstarts : ∀ ps : List ParamDef,
      Weave.startsWith? ps ss = Weave.startsWith? ps ts := by
    induction ts generalizing ss with
    | nil =>
      obtain rfl : ss = [] := by simpa using h
      exact fun _ => rfl
    | cons t ts ih =>
      obtain ⟨s, ss, rfl, hs, hss⟩ := List.map_eq_cons_iff.1 h
      obtain ⟨ht, hts⟩ := List.forall_mem_cons.1 hts
      obtain ⟨n, hn⟩ := Option.isSome_iff_exists.1 ht
      intro ps
      cases ps with
      | nil => rfl
      | cons p ps =>
        rw [Weave.startsWith?, Weave.startsWith?,
          TypeRef.same?_of_name? (hs.trans hn), TypeRef.same?_of_name? hn,
          ih hts hss]
  have hlength : ss.length = ts.length := by simpa using congrArg List.length h
  rw [fits?, fits?, hstarts, hlength]

end Framework

namespace Universe

variable {α β : Type} {f g : α → Option Bool} {xs ys : List α} {a : α}

theorem firstSome?_append (h : firstSome? f xs = some (some a)) :
    firstSome? f (xs ++ ys) = some (some a) := by
  induction xs with
  | nil => simp [firstSome?] at h
  | cons x xs ih =>
    rw [List.cons_append, firstSome?] at *
    cases hx : f x with
    | none => simp [hx] at h
    | some b => cases b <;> simp_all

theorem firstSome?_congr (h : ∀ x ∈ xs, f x = g x) :
    firstSome? f xs = firstSome? g xs := by
  induction xs with
  | nil => rfl
  | cons x xs ih =>
    rw [firstSome?, firstSome?, h x List.mem_cons_self,
      ih fun y hy => h y (List.mem_cons_of_mem x hy)]

theorem exists_of_firstSome?_map {p : β → α} {bs : List β}
    (h : firstSome? f (bs.map p) = some (some a)) :
    ∃ b ∈ bs, p b = a ∧ firstSome? (fun b => f (p b)) bs = some (some b) := by
  induction bs with
  | nil => simp [firstSome?] at h
  | cons b bs ih =>
    rw [List.map_cons, firstSome?] at h
    simp only [firstSome?]
    cases hb : f (p b) with
    | none => simp [hb] at h
    | some c =>
      cases c with
      | true => exact ⟨b, List.mem_cons_self, by simpa [hb] using h, by simp⟩
      | false =>
        obtain ⟨x, hx, hpx, hfirst⟩ := ih (by simpa [hb] using h)
        exact ⟨x, List.mem_cons_of_mem b hx, hpx, by simpa using hfirst⟩

end Universe

/-! ## The look-ups of the creation code -/

/-- A look-up of a method of the framework, and the signature that is counted
on. -/
structure LibraryCall where
  /-- the full name of the type -/
  type : String
  /-- the method's name -/
  name : String
  /-- its number of parameters -/
  params : Nat
  /-- the full name of its first parameter's type, if the look-up gives one -/
  first : Option String := none
  /-- it has an instance -/
  hasThis : Bool
  /-- it has no result -/
  returnsVoid : Bool
  deriving DecidableEq, Repr

/-- The reference is to a method of the signature that is counted on. -/
structure LibraryCall.Fits (c : LibraryCall) (m : MethodRef) : Prop where
  /-- the parameters -/
  params : m.params.length = c.params
  /-- the instance -/
  hasThis : m.hasThis = c.hasThis
  /-- the result -/
  returnsVoid : m.returnsVoid = c.returnsVoid

/-- An instance of the method has the same signature. -/
theorem LibraryCall.Fits.instantiate {c : LibraryCall} {m : MethodRef}
    (h : c.Fits m) (as : List TypeRef) : c.Fits (m.instantiate as) :=
  ⟨h.params, h.hasThis, h.returnsVoid⟩

namespace Framework

/-- The full name of a type of the main namespace. -/
def entitiesName (name : String) : String :=
  Ns.entities ++ "." ++ name

/-- The full name of a delegate type for running without the job system. -/
def delegateName (name : String) : String :=
  Ns.entities ++ "." ++ TypeName.internalCompilerInterface ++ "/" ++ name

/-- The delegate type of a job without entities. -/
def jobDelegate : String := delegateName "JobRunWithoutJobSystemDelegate"

/-- The delegate type of a job over chunks. -/
def chunkDelegate : String := delegateName "JobChunkRunWithoutJobSystemDelegate"

/-- Makes an empty description of a query. -/
def newQueryDesc : LibraryCall :=
  { type := entitiesName TypeName.entityQueryDesc, name := ".ctor", params := 0,
    hasThis := true, returnsVoid := true }

/-- Gives the component type that is only read, or also written. -/
def componentTypeOf (readOnly : Bool) : LibraryCall :=
  { type := entitiesName TypeName.componentType,
    name := if readOnly then "ReadOnly" else "ReadWrite", params := 0,
    hasThis := false, returnsVoid := false }

/-- Gives the query of a description. -/
def getEntityQuery : LibraryCall :=
  { type := entitiesName TypeName.componentSystemBase, name := "GetEntityQuery",
    params := 1,
    hasThis := true, returnsVoid := false }

/-- Sets the components whose changes a query looks for. -/
def setVersionFilter : LibraryCall :=
  { type := entitiesName TypeName.entityQuery,
    name := "SetChangedVersionFilter", params := 1,
    hasThis := true, returnsVoid := true }

/-- Makes a delegate. -/
def newDelegate (delegate : String) : LibraryCall :=
  { type := delegate, name := ".ctor", params := 2, hasThis := true,
    returnsVoid := true }

/-- Compiles what a delegate runs. -/
def compileDelegate (delegate : String) : LibraryCall :=
  { type := entitiesName TypeName.internalCompilerInterface,
    name := "BurstCompile", params := 1,
    first := some delegate, hasThis := false, returnsVoid := false }

/-- The look-ups that the creation code does. -/
def libraryCalls : List LibraryCall :=
  [newQueryDesc, componentTypeOf true, componentTypeOf false, getEntityQuery,
    setVersionFilter, newDelegate jobDelegate, newDelegate chunkDelegate,
    compileDelegate jobDelegate, compileDelegate chunkDelegate]

/-- The types that the creation code uses. -/
def creationTypes : List String :=
  (libraryCalls.map (·.type)).eraseDups

/-- The framework's own type of a full name. -/
def definition? (name : String) : Option TypeDef :=
  (modules.flatMap Module.allTypes).lookup name

end Framework

namespace LibraryCall

variable {c : LibraryCall}

/-- What the method is remembered under. -/
def key (c : LibraryCall) : String :=
  methodKey c.type c.name c.params (-1) c.first.toList

/-- References to the first parameters. -/
def firstRefs (c : LibraryCall) : List TypeRef :=
  c.first.toList.map fun name => .ofName "" name false

/-- The method that the look-up finds in the framework's own type. -/
def definition? (c : LibraryCall) : Option MethodDef := do
  let d ← Framework.definition? c.type
  (Universe.firstSome? (fits? c.name c.params (-1) c.firstRefs) d.methods).join

/-- The parts of the key can be told apart, and no job has the name of the
type. -/
def isClear (c : LibraryCall) : Bool :=
  c.type.toList.all (fun x => x != ':' && x != '\x60') && isPlain c.name &&
    c.first.toList.all (fun s =>
      s != TypeRef.absentText && s.toList.all fun x => x != ',' &&
        x != '\x60') &&
    c.type != "" && !hasJobPrefix c.type

/-- The look-up finds a method of the expected signature in the framework's own
type. -/
def isDeclared (c : LibraryCall) : Bool :=
  match Framework.definition? c.type, c.definition? with
  | some d, some m => !d.head.isClosure && m.params.length == c.params &&
      m.hasThis == c.hasThis && m.returnsVoid == c.returnsVoid
  | _, _ => false

theorem isClear_of_mem : ∀ c ∈ libraryCalls, c.isClear = true := by
  decide +kernel

theorem isDeclared_of_mem : ∀ c ∈ libraryCalls, c.isDeclared = true := by
  decide +kernel

end LibraryCall

/-- A reference to a method has a result where the method has one. -/
@[simp]
theorem MethodDef.returnsVoid_refOn (d : MethodDef) (owner : TypeRef) :
    (d.refOn owner).returnsVoid = d.returnsVoid := by
  unfold MethodDef.refOn MethodRef.returnsVoid MethodDef.returnsVoid
  cases hret : d.ret.isAbsent <;> simp [hret, TypeRef.void, TypeRef.ofName,
    TypeRef.isVoid]

namespace Workspace

variable {V w : Workspace} {mods : List ModuleId} {t : TypeId} {c : LibraryCall}

/-- The name resolves to the framework's own type. -/
def FindsBuiltIn (V : Workspace) (mods : List ModuleId)
    (name : String) : Prop :=
  ∃ t d, (Universe.buildIndex V mods).lookup name = some t ∧
    definition? name = some d ∧ (V.type t).head = d.head ∧
    (V.type t).methods.map V.method = d.methods

/-- What the creation code builds on: the types that it uses are the framework's
own. -/
structure Grounds (V : Workspace) (mods : List ModuleId) : Prop where
  /-- the links agree -/
  tidy : V.Tidy
  /-- the types -/
  builtIn : ∀ name ∈ creationTypes, V.FindsBuiltIn mods name

theorem Grounds.find (h : V.Grounds mods) {name : String}
    (hname : name ∈ creationTypes) :
    ∃ t, (Universe.buildIndex V mods).lookup name = some t ∧
    t.index < V.types.size ∧
      V.typeName t = name := by
  obtain ⟨t, d, hlookup, -⟩ := h.builtIn name hname
  have hmem := Universe.mem_of_lookup hlookup
  exact ⟨t, hlookup, Universe.lt_of_mem_buildIndex (.refl V) h.tidy hmem,
    Universe.name_of_mem_buildIndex hmem⟩

theorem mem_creationTypes (hc : c ∈ libraryCalls) : c.type ∈ creationTypes := by
  rw [creationTypes, List.mem_eraseDups]
  exact List.mem_map_of_mem hc

/-- A look-up finds a method of the expected signature, also after methods were
added to the type or got other code. -/
theorem Grounds.finds (h : V.Grounds mods) (hr : V.Retains w)
    (hc : c ∈ libraryCalls) (rest : List MethodId) :
    ∃ t id, (Universe.buildIndex V mods).lookup c.type = some t ∧
      Universe.firstSome? (fun id => fits? c.name c.params (-1) c.firstRefs
        (w.method id)) ((w.type t).methods ++ rest) = some (some id) ∧
      ∀ m, w.methodRef? id = some m → c.Fits m := by
  obtain ⟨t, d, hlookup, hdef, hhead, hmethods⟩ :=
    h.builtIn c.type (mem_creationTypes hc)
  have ht : t.index < V.types.size :=
    Universe.lt_of_mem_buildIndex (.refl V) h.tidy
      (Universe.mem_of_lookup hlookup)
  have hdecl := LibraryCall.isDeclared_of_mem c hc
  cases hm : c.definition? with
  | none => simp [LibraryCall.isDeclared, hm] at hdecl
  | some m =>
    simp only [LibraryCall.isDeclared, hdef, hm, Bool.and_eq_true, beq_iff_eq,
      Bool.not_eq_true'] at hdecl
    obtain ⟨⟨⟨hclosure, hparams⟩, hthis⟩, hvoid⟩ := hdecl
    have hfirst : Universe.firstSome? (fits? c.name c.params (-1) c.firstRefs)
      d.methods =
        some (some m) := by
      simpa [LibraryCall.definition?, hdef, Option.join_eq_some_iff] using hm
    rw [← hmethods] at hfirst
    obtain ⟨id, hid, hidm, hfirst⟩ := Universe.exists_of_firstSome?_map hfirst
    have hsame : ∀ x ∈ (V.type t).methods,
        fits? c.name c.params (-1) c.firstRefs (V.method x) =
          fits? c.name c.params (-1) c.firstRefs (w.method x) := fun x hx =>
      (fits?_of_resembles (hr.signature x (h.tidy.method_lt t x hx))).symm
    rw [Universe.firstSome?_congr hsame] at hfirst
    obtain ⟨more, hmore⟩ := hr.declared t ht (hhead ▸ hclosure)
    refine ⟨t, id, hlookup, ?_, fun r href => ?_⟩
    · rw [← hmore, List.append_assoc]
      exact Universe.firstSome?_append hfirst
    · have hlike := hr.signature id (h.tidy.method_lt t id hid)
      rw [hidm] at hlike
      rw [methodRef?, Option.bind_eq_bind, Option.bind_eq_some_iff] at href
      obtain ⟨owner, -, hr⟩ := href
      rw [← Option.some.inj hr]
      refine ⟨?_, ?_, ?_⟩
      · rw [MethodDef.refOn, List.length_map]
        exact hlike.length_params.trans hparams
      · exact hlike.hasThis_eq.trans hthis
      · rw [MethodDef.returnsVoid_refOn]
        have hret : (w.method id).ret = m.ret := hlike.ret
        rw [← hvoid, MethodDef.returnsVoid, MethodDef.returnsVoid]
        exact congrArg₂ _ (congrArg _ hret) (congrArg _ hret)

end Workspace

end JobWeave
