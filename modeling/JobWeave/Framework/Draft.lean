import JobWeave.Module
import JobWeave.Framework.Names

/-!
# Drafting definitions

Shorthands for definitions without code: the framework's modules need only
signatures and attributes.
-/

namespace JobWeave.Framework.Draft

/-- The base of attribute types. -/
def attributeBase : TypeRef := .ofName "System" "Attribute" false

/-- The first parameter of the declaring type. -/
def t0 : TypeRef := .typeParam 0

/-- The first parameter of the method. -/
def mt0 : TypeRef := .methodParam 0

/-- The second parameter of the method. -/
def mt1 : TypeRef := .methodParam 1

/-! ## Parameters -/

/-- A parameter. -/
def param (name : String) (type : TypeRef) : ParamDef :=
  { name, type }

/-- A parameter with an attribute. -/
def markedParam (name : String) (type mark : TypeRef) : ParamDef :=
  { name, type, attributes := [{ type := mark }] }

/-- A parameter passed by a reference that is only read. -/
def inParam (name : String) (type : TypeRef) : ParamDef :=
  { name, type := type.byRef, flags := ParamFlag.readOnly,
    attributes :=
      [{ type := .ofName Ns.compilerServices AttributeName.isReadOnly false }] }

/-- A parameter that returns a value. -/
def outParam (name : String) (type : TypeRef) : ParamDef :=
  { name, type := type.byRef, flags := ParamFlag.out }

/-! ## Methods -/

/-- A method without code. -/
def method (name : String) (flags : UInt16) (ret : TypeRef)
    (params : List ParamDef) : MethodDef :=
  { name, flags := flags ||| MethodFlag.hideBySig, ret, params }

/-- A public method of instances. -/
def onInstance (name : String) (ret : TypeRef) (params : List ParamDef) :
    MethodDef :=
  method name MethodFlag.pub ret params

/-- A public method without an instance. -/
def static (name : String) (ret : TypeRef) (params : List ParamDef) :
    MethodDef :=
  method name (MethodFlag.pub ||| MethodFlag.static) ret params

/-- A constructor. -/
def constructor (params : List ParamDef) : MethodDef :=
  method ".ctor"
    (MethodFlag.pub ||| MethodFlag.specialName ||| MethodFlag.rtSpecialName)
    .void params

/-- A generic method. -/
def generic (m : MethodDef) (names : List String) : MethodDef :=
  { m with genericParams := names }

/-- A method with attributes. -/
def marked (m : MethodDef) (marks : List TypeRef) : MethodDef :=
  { m with attributes := m.attributes ++ marks.map fun t => { type := t } }

/-- A public field. -/
def field (name : String) (type : TypeRef) : FieldDef :=
  { name, type, flags := FieldFlag.pub }

/-! ## Types -/

/-- A class. -/
def class_ (ns name : String) (base : TypeRef) (methods : List MethodDef) :
    TypeDef :=
  .mk { ns, name, base, flags := TypeFlag.pub } methods []

/-- A class without instances. -/
def staticClass (ns name : String) (methods : List MethodDef)
    (nested : List TypeDef) : TypeDef :=
  .mk
    { ns, name, base := .object,
      flags := TypeFlag.pub ||| TypeFlag.abstract ||| TypeFlag.sealed }
    methods nested

/-- A generic type stored in place, with attributes. -/
def structOf (ns name : String) (genericParams : List String)
    (marks : List TypeRef) (methods : List MethodDef) (nested : List TypeDef) :
    TypeDef :=
  .mk
    { ns, name, base := .valueType, genericParams,
      flags := TypeFlag.pub ||| TypeFlag.sealed ||| TypeFlag.sequentialLayout,
      attributes := marks.map fun t => { type := t } }
    methods nested

/-- A type stored in place. -/
def struct (ns name : String) (methods : List MethodDef) : TypeDef :=
  structOf ns name [] [] methods []

/-- A type stored in place that implements interfaces. -/
def structImplementing (ns name : String) (interfaces : List TypeRef) :
    TypeDef :=
  .mk
    { ns, name, base := .valueType, interfaces,
      flags := TypeFlag.pub ||| TypeFlag.sealed ||| TypeFlag.sequentialLayout }
    [] []

/-- An enumeration. -/
def enum (ns name : String) : TypeDef :=
  .mk
    { ns, name, base := .ofName "System" "Enum" false,
      flags := TypeFlag.pub ||| TypeFlag.sealed }
    [] []

/-- An interface. -/
def interface (ns name : String) (methods : List MethodDef) : TypeDef :=
  .mk
    { ns, name,
      flags := TypeFlag.pub ||| TypeFlag.interface ||| TypeFlag.abstract }
    methods []

/-- An attribute type. -/
def attributeType (ns name : String) : TypeDef :=
  class_ ns name attributeBase [constructor []]

/-- The constructor and the invocation of a delegate type. -/
def delegateMethods (ret : TypeRef) (params : List ParamDef) :
    List MethodDef :=
  [method ".ctor"
      (MethodFlag.pub ||| MethodFlag.specialName ||| MethodFlag.rtSpecialName)
      .void [param "object" .object, param "method" .intPtr],
    method "Invoke" (MethodFlag.pub ||| MethodFlag.virtual) ret params]

/-- A generic delegate type. -/
def delegate (ns name : String) (genericParams : List String) (ret : TypeRef)
    (params : List ParamDef) : TypeDef :=
  .mk
    { ns, name, base := .delegate, genericParams,
      flags := TypeFlag.pub ||| TypeFlag.sealed }
    (delegateMethods ret params) []

/-- A delegate type inside another type. -/
def nestedDelegate (name : String) (ret : TypeRef) (params : List ParamDef) :
    TypeDef :=
  .mk
    { name, base := .delegate,
      flags := TypeFlag.nestedPublic ||| TypeFlag.sealed }
    (delegateMethods ret params) []

/-- An attribute type inside another type. -/
def nestedAttribute (name : String) : TypeDef :=
  .mk { name, base := attributeBase, flags := TypeFlag.nestedPublic }
    [constructor []] []

/-- A type stored in place inside another type. -/
def nestedStruct (name : String) (genericParams : List String)
    (methods : List MethodDef) : TypeDef :=
  .mk
    { name, base := .valueType, genericParams,
      flags :=
        TypeFlag.nestedPublic ||| TypeFlag.sealed |||
          TypeFlag.sequentialLayout }
    methods []

/-- The type with more fields. -/
def withFields (fields : List FieldDef) : TypeDef → TypeDef
  | .mk h ms ts => .mk { h with fields := h.fields ++ fields } ms ts

/-- The type, not to be instantiated itself. -/
def abstract : TypeDef → TypeDef
  | .mk h ms ts => .mk { h with flags := h.flags ||| TypeFlag.abstract } ms ts

end JobWeave.Framework.Draft
