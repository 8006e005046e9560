import JobWeave.Module

/-!
# Listings

The readable form of types and methods.  Instructions are numbered by position;
a branch shows the number of its target, and question marks when the target is
not in the body.  A definition with a type that has no name has no listing.
-/

namespace JobWeave

namespace Listing

/-- A number with leading zeros up to four digits. -/
def fourDigits (n : Nat) : String :=
  let s := toString n
  String.ofList (List.replicate (4 - s.length) '0') ++ s

/-- The number of a branch target. -/
def targetText (b : Body) (l : Label) : String :=
  match b.lastIndexOf? l with
  | some n => "IL_" ++ fourDigits n
  | none => "IL_????"

/-- The operand of an instruction, after a blank. -/
def operand? (b : Body) : Operand → Option String
  | .none => some ""
  | .target l => some (" " ++ targetText b l)
  | .targets ls =>
    some (" (" ++ ", ".intercalate (ls.map (targetText b)) ++ ")")
  | o => (b.operandText? o).map (" " ++ ·)

/-- One instruction, after its source position if it has one. -/
def instr? (b : Body) (indent : String) (n : Nat) (i : Instr) :
    Option String := do
  let point :=
    match b.pointAt? i.label with
    | some p =>
      if p.isVisible then
        indent ++ "// " ++ p.document ++ "(" ++ toString p.line ++ "," ++
          toString p.column ++ ")\n"
      else ""
    | none => ""
  let o ← operand? b i.operand
  some (point ++ indent ++ "IL_" ++ fourDigits n ++ ": " ++ i.op.name ++
    o ++ "\n")

/-- Attributes, one on a line. -/
def attributes? (indent : String) (as : List Attribute) : Option String := do
  let lines ← as.mapM fun a => do
    let byPosition ← a.args.mapM (({} : Body).operandText? ·)
    let byName ← a.named.mapM fun (name, v) => do
      some (name ++ "=" ++ (← ({} : Body).operandText? v))
    some (indent ++ ".custom " ++ a.type.shown "s" ++ "(" ++
      ", ".intercalate (byPosition ++ byName) ++ ")\n")
  some (String.join lines)

/-- Generic parameter names in angle brackets, or nothing. -/
def generics (names : List String) : String :=
  if names.isEmpty then "" else "<" ++ ",".intercalate names ++ ">"

/-- The local variables of a body. -/
def locals (indent : String) (b : Body) : String :=
  if b.locals.isEmpty then ""
  else
    indent ++ ".locals init (\n" ++
      String.join (b.locals.mapIdx fun n l =>
        indent ++ "  [" ++ toString n ++ "] " ++ l.type.shown "s" ++ " " ++
          b.localText (.slot n) ++ "\n") ++
      indent ++ ")\n"

/-- A method. -/
def method? (indent : String) (m : MethodDef) : Option String := do
  let params ← m.params.mapM fun p => do
    some ((← p.type.fullName?) ++ " " ++ p.name)
  let signature :=
    indent ++ ".method " ++ (if m.isStatic then "static " else "instance ") ++
      (if m.ret.isAbsent then TypeRef.void else m.ret).shown "s" ++ " " ++
      m.name ++ generics m.genericParams ++
      "(" ++ ", ".intercalate params ++ ")\n"
  match m.body with
  | none => some signature
  | some b =>
    let inner := indent ++ "  "
    let attrs ← attributes? inner m.attributes
    let code ← (b.code.mapIdx fun n i => (n, i)).mapM fun (n, i) =>
      instr? b inner n i
    some (signature ++ indent ++ "\x7b\n" ++ attrs ++ locals inner b ++
      String.join code ++ indent ++ "\x7d\n")

/-- A field and its attributes. -/
def field? (indent : String) (f : FieldDef) : Option String := do
  let attrs ← attributes? (indent ++ "  ") f.attributes
  some (indent ++ ".field " ++ (if f.isStatic then "static " else "") ++
    f.type.shown "s" ++ " " ++ f.name ++ "\n" ++ attrs)

/-- The first line of a type. -/
def typeLine? (name indent : String) (h : TypeHead) : Option String := do
  let kind :=
    if h.isInterface then "interface"
    else if h.isValueType then "struct" else "class"
  let base :=
    if h.base.isAbsent || h.isValueType then ""
    else " extends " ++ h.base.shown "s"
  let interfaces ← h.interfaces.mapM (·.fullName?)
  some (indent ++ "." ++ kind ++ " " ++ name ++ generics h.genericParams ++
    base ++
    (if interfaces.isEmpty then ""
      else " implements " ++ ", ".intercalate interfaces) ++ "\n")

mutual

/-- A type of the given outer type, with everything in it. -/
def type? (outer : Option String) (indent : String) : TypeDef → Option String
  | .mk h methods nested => do
    let name := TypeDef.qualifiedName outer h
    let inner := indent ++ "  "
    let line ← typeLine? name indent h
    let attrs ← attributes? inner h.attributes
    let fields ← h.fields.mapM (field? inner)
    let methods ← methods.mapM (method? inner)
    let nested ← types? (some name) inner nested
    some (line ++ indent ++ "\x7b\n" ++ attrs ++ String.join fields ++
      String.join methods ++ nested ++ indent ++ "\x7d\n")

/-- Types one after another. -/
def types? (outer : Option String) (indent : String) :
    List TypeDef → Option String
  | [] => some ""
  | t :: ts => do
    let first ← type? outer indent t
    let rest ← types? outer indent ts
    some (first ++ rest)

end

end Listing

/-- The listing of a whole module. -/
def Module.listing? (m : Module) : Option String :=
  Listing.types? none "" m.types

end JobWeave
