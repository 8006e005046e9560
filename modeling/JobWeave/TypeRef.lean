/-!
# Type references

A type reference is a tree: a named type, possibly nested in another one and
applied to arguments, a wrapper around an element type, or a generic parameter.
The absent type stands where a definition names no type.

Two references are the same type when their names agree, so the name is the
identity of a type.  A reference with an absent part in a place that its name
needs has no name; the functions that need it then have no result.

* `openName` is the name without arguments, `name?` and `fullName?` the name
  with them;
* `same?` compares references, `substitute?` instantiates generic parameters.
-/

namespace JobWeave

/-- The ways to wrap an element type. -/
inductive Wrapper where
  /-- a managed pointer -/
  | byRef
  /-- an unmanaged pointer -/
  | pointer
  /-- an array of one dimension -/
  | array
  deriving DecidableEq, Repr, Inhabited

/-- What a wrapper adds to the name of its element. -/
def Wrapper.mark : Wrapper → String
  | byRef => "&"
  | pointer => "*"
  | array => "[]"

/-- Whose parameter a generic parameter is. -/
inductive ParamOwner where
  | type
  | method
  deriving DecidableEq, Repr, Inhabited

/-- What stands in front of a generic parameter's position. -/
def ParamOwner.mark : ParamOwner → String
  | type => "!"
  | method => "!!"

/-- A reference to a type. -/
inductive TypeRef where
  /-- no type -/
  | absent
  /-- a type by name, with the type it is nested in and its arguments -/
  | named (ns name : String) (valueType : Bool) (outer : TypeRef)
      (args : List TypeRef)
  /-- a wrapper around an element type -/
  | wrapped (kind : Wrapper) (elem : TypeRef) (args : List TypeRef)
  /-- a generic parameter by position -/
  | param (owner : ParamOwner) (position : Int) (args : List TypeRef)
  deriving Repr, Inhabited

namespace TypeRef

/-! ## Equality of terms -/

mutual

/-- Both references are written the same. -/
def equal : TypeRef → TypeRef → Bool
  | absent, absent => true
  | named ns n v o as, named ns' n' v' o' as' =>
    ns == ns' && n == n' && v == v' && o.equal o' && equalAll as as'
  | wrapped k e as, wrapped k' e' as' =>
    k == k' && e.equal e' && equalAll as as'
  | param o p as, param o' p' as' => o == o' && p == p' && equalAll as as'
  | _, _ => false

/-- Both lists have the same references. -/
def equalAll : List TypeRef → List TypeRef → Bool
  | [], [] => true
  | t :: ts, t' :: ts' => t.equal t' && equalAll ts ts'
  | _, _ => false

end

instance : BEq TypeRef := ⟨equal⟩

mutual

theorem eq_of_equal : ∀ {s t : TypeRef}, s.equal t = true → s = t
  | absent, t, h => by cases t <;> simp_all [equal]
  | named ns n v o as, t, h => by
    cases t <;> simp only [equal, Bool.and_eq_true, beq_iff_eq,
      reduceCtorEq] at h
    obtain ⟨⟨⟨⟨rfl, rfl⟩, rfl⟩, ho⟩, has⟩ := h
    rw [eq_of_equal ho, eq_of_equalAll has]
  | wrapped k e as, t, h => by
    cases t <;> simp only [equal, Bool.and_eq_true, beq_iff_eq,
      reduceCtorEq] at h
    obtain ⟨⟨rfl, he⟩, has⟩ := h
    rw [eq_of_equal he, eq_of_equalAll has]
  | param o p as, t, h => by
    cases t <;> simp only [equal, Bool.and_eq_true, beq_iff_eq,
      reduceCtorEq] at h
    obtain ⟨⟨rfl, rfl⟩, has⟩ := h
    rw [eq_of_equalAll has]

theorem eq_of_equalAll : ∀ {ss ts : List TypeRef},
    equalAll ss ts = true → ss = ts
  | [], ts, h => by cases ts <;> simp_all [equalAll]
  | s :: ss, ts, h => by
    cases ts <;> simp only [equalAll, Bool.and_eq_true, reduceCtorEq] at h
    rw [eq_of_equal h.1, eq_of_equalAll h.2]

end

mutual

theorem equal_refl : ∀ t : TypeRef, t.equal t = true
  | absent => rfl
  | named ns n v o as => by simp [equal, equal_refl o, equalAll_refl as]
  | wrapped k e as => by simp [equal, equal_refl e, equalAll_refl as]
  | param o p as => by simp [equal, equalAll_refl as]

theorem equalAll_refl : ∀ ts : List TypeRef, equalAll ts ts = true
  | [] => rfl
  | t :: ts => by simp [equalAll, equal_refl t, equalAll_refl ts]

end

instance : LawfulBEq TypeRef where
  eq_of_beq := eq_of_equal
  rfl := equal_refl _

/-! ## Making references -/

/-- A type of a namespace. -/
def ofName (ns name : String) (valueType : Bool) : TypeRef :=
  named ns name valueType absent []

/-- A type nested in another one. -/
def nestedIn (outer : TypeRef) (name : String) (valueType : Bool) : TypeRef :=
  named "" name valueType outer []

/-- The parameter of the declaring type at a position. -/
def typeParam (position : Int) : TypeRef :=
  param .type position []

/-- The parameter of the method at a position. -/
def methodParam (position : Int) : TypeRef :=
  param .method position []

/-- A managed pointer to `t`. -/
def byRef (t : TypeRef) : TypeRef :=
  wrapped .byRef t []

/-- An unmanaged pointer to `t`. -/
def pointer (t : TypeRef) : TypeRef :=
  wrapped .pointer t []

/-- An array of `t`. -/
def array (t : TypeRef) : TypeRef :=
  wrapped .array t []

/-- The arguments of a reference. -/
def args : TypeRef → List TypeRef
  | absent => []
  | named _ _ _ _ as | wrapped _ _ as | param _ _ as => as

/-- The reference with other arguments. -/
def withArgs (t : TypeRef) (as : List TypeRef) : TypeRef :=
  match t with
  | absent => absent
  | named ns n v o _ => named ns n v o as
  | wrapped k e _ => wrapped k e as
  | param o p _ => param o p as

/-- The reference without arguments. -/
def opened (t : TypeRef) : TypeRef :=
  t.withArgs []

/-- The name without namespace, outer type and arguments. -/
def simpleName : TypeRef → String
  | named _ n _ _ _ => n
  | _ => ""

/-- The reference names no type. -/
def isAbsent : TypeRef → Bool
  | absent => true
  | _ => false

/-- The reference names a type. -/
def isPresent (t : TypeRef) : Bool :=
  !t.isAbsent

/-- A managed pointer. -/
def isByRef : TypeRef → Bool
  | wrapped .byRef _ _ => true
  | _ => false

/-- An unmanaged pointer. -/
def isPointer : TypeRef → Bool
  | wrapped .pointer _ _ => true
  | _ => false

/-- An array. -/
def isArray : TypeRef → Bool
  | wrapped .array _ _ => true
  | _ => false

/-- A generic parameter of a type or a method. -/
def isParam : TypeRef → Bool
  | param .. => true
  | _ => false

/-- A type by name. -/
def isNamed : TypeRef → Bool
  | named .. => true
  | _ => false

/-- The reference carries arguments. -/
def isInstance (t : TypeRef) : Bool :=
  !t.args.isEmpty

/-- The names of the primitive types of the namespace `System`. -/
def primitiveNames : List String :=
  ["Boolean", "Char", "SByte", "Byte", "Int16", "UInt16", "Int32", "UInt32",
    "Int64", "UInt64", "Single", "Double", "IntPtr", "UIntPtr"]

/-- A primitive type. -/
def isPrimitive : TypeRef → Bool
  | named ns n _ _ _ => ns == "System" && primitiveNames.contains n
  | _ => false

/-- The type of methods without a result. -/
def isVoid : TypeRef → Bool
  | named ns n _ _ _ => ns == "System" && n == "Void"
  | _ => false

/-- Values of the type are stored in place, as far as the reference tells. -/
def isValueType : TypeRef → Bool
  | named _ _ v _ _ => v
  | wrapped .pointer _ _ => true
  | _ => false

/-- The type under any managed and unmanaged pointers. -/
def element : TypeRef → TypeRef
  | wrapped .byRef e _ | wrapped .pointer e _ => e.element
  | t => t

/-- The type a wrapper stands around; other references have none. -/
def wrappedType : TypeRef → TypeRef
  | wrapped _ e _ => e
  | _ => absent

/-- The type a nested type is declared in. -/
def outer : TypeRef → TypeRef
  | named _ _ _ o _ => o
  | _ => absent

/-- The name with its namespace or outer type, without arguments. -/
def openName : TypeRef → String
  | named ns n _ absent _ => if ns = "" then n else ns ++ "." ++ n
  | named _ n _ o _ => o.openName ++ "/" ++ n
  | _ => ""

/-- The type is `ns.name`, whatever its arguments. -/
def isType (t : TypeRef) (ns name : String) : Bool :=
  match t with
  | named ns' n _ absent _ => ns' == ns && n == name
  | _ => false

mutual

/-- The name of a type that is there. -/
def name? : TypeRef → Option String
  | absent => none
  | t@(named _ _ _ _ as) =>
    match as with
    | [] => some t.openName
    | a :: as => do
      let first ← a.name?
      let rest ← names? as
      some (t.openName ++ "<" ++ ",".intercalate (first :: rest) ++ ">")
  | wrapped k e _ => (e.name?).map (· ++ k.mark)
  | param o p _ => some (o.mark ++ toString p)

/-- The names of a list of types that are all there. -/
def names? : List TypeRef → Option (List String)
  | [] => some []
  | t :: ts => do
    let n ← t.name?
    let ns ← names? ts
    some (n :: ns)

end

/-- The text that stands for no type. -/
def absentText : String := "<nil>"

/-- The name of a type; the absent type has one too when it is the whole
reference. -/
def fullName? : TypeRef → Option String
  | absent => some absentText
  | t => t.name?

/-- The mark that a message shows in place of a name that there is not. -/
def nameless (letter : String) : String :=
  "%!" ++ letter ++ "(PANIC=String method: runtime error: " ++
    "invalid memory address or nil pointer dereference)"

/-- The name of a type inside a message, at a place of the given letter. -/
def shown (letter : String) (t : TypeRef) : String :=
  (t.fullName?).getD (nameless letter)

/-- Both references name the same type. -/
def same? : TypeRef → TypeRef → Option Bool
  | absent, absent => some true
  | absent, _ | _, absent => some false
  | a, b => do
    let x ← a.name?
    let y ← b.name?
    some (x == y)

/-- The argument at a position, or `none` for a negative one; a position past
the end keeps the parameter. -/
def argument? (args : List TypeRef) (position : Int) (keep : TypeRef) :
    Option TypeRef :=
  if position < 0 then none else some ((args[position.toNat]?).getD keep)

mutual

/-- Replaces generic parameters by arguments; a parameter without an argument
stays. -/
def substitute? (typeArgs methodArgs : List TypeRef) :
    TypeRef → Option TypeRef
  | absent => some absent
  | t@(param .type p _) => argument? typeArgs p t
  | t@(param .method p _) => argument? methodArgs p t
  | wrapped k e as => do
    let e ← substitute? typeArgs methodArgs e
    some (wrapped k e as)
  | named ns n v o as => do
    let as ← substituteAll? typeArgs methodArgs as
    some (named ns n v o as)

/-- Replaces generic parameters in each type of a list. -/
def substituteAll? (typeArgs methodArgs : List TypeRef) :
    List TypeRef → Option (List TypeRef)
  | [] => some []
  | t :: ts => do
    let t ← substitute? typeArgs methodArgs t
    let ts ← substituteAll? typeArgs methodArgs ts
    some (t :: ts)

end

/-! ## Types of the namespace `System` -/

/-- The type of methods without a result. -/
def void : TypeRef := ofName "System" "Void" true

/-- The root of all types. -/
def object : TypeRef := ofName "System" "Object" false

/-- The base of types stored in place. -/
def valueType : TypeRef := ofName "System" "ValueType" false

/-- Integers of 32 bits. -/
def int32 : TypeRef := ofName "System" "Int32" true

/-- Truth values. -/
def boolean : TypeRef := ofName "System" "Boolean" true

/-- Floating-point numbers of 32 bits. -/
def single : TypeRef := ofName "System" "Single" true

/-- Texts. -/
def string : TypeRef := ofName "System" "String" false

/-- Integers as wide as an address. -/
def intPtr : TypeRef := ofName "System" "IntPtr" true

/-- The base of delegate types. -/
def delegate : TypeRef := ofName "System" "MulticastDelegate" false

end TypeRef

end JobWeave
