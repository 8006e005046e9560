/-!
# JSON documents

Values of the JSON format with integers as their only numbers, and the accessors
that readers of documents use: a missing field or element is null, and a value
of another kind reads as the default of the kind that is asked for.
-/

namespace JobWeave

/-- A JSON value. -/
inductive Json where
  | null
  | bool (b : Bool)
  | int (n : Int)
  | str (s : String)
  | arr (xs : List Json)
  | obj (fields : List (String × Json))
  deriving Repr, Inhabited, BEq

namespace Json

mutual

/-- How deep a value is nested. -/
def depth : Json → Nat
  | arr xs => depths xs + 1
  | obj fs => fieldDepths fs + 1
  | _ => 0

/-- The deepest of some values. -/
def depths : List Json → Nat
  | [] => 0
  | x :: xs => max x.depth (depths xs)

/-- The deepest of some fields. -/
def fieldDepths : List (String × Json) → Nat
  | [] => 0
  | (_, x) :: fs => max x.depth (fieldDepths fs)

end

/-- The value of a field, if the object has it. -/
def get? (j : Json) (key : String) : Option Json :=
  match j with
  | obj fs => (fs.find? (·.1 == key)).map (·.2)
  | _ => none

/-- The value of a field, or null. -/
def get (j : Json) (key : String) : Json :=
  (j.get? key).getD null

/-- The object mentions the field. -/
def mentions (j : Json) (key : String) : Bool :=
  (j.get? key).isSome

/-- There is no value. -/
def isNull : Json → Bool
  | null => true
  | _ => false

/-- The object has a value in the field. -/
def has (j : Json) (key : String) : Bool :=
  !(j.get key).isNull

/-- The elements of an array. -/
def toList : Json → List Json
  | arr xs => xs
  | _ => []

/-- The fields of an object. -/
def fields : Json → List (String × Json)
  | obj fs => fs
  | _ => []

/-- An element of an array, or null. -/
def at_ (j : Json) (n : Nat) : Json :=
  (j.toList[n]?).getD null

/-- A text. -/
def text : Json → String
  | str s => s
  | _ => ""

/-- The value is a text. -/
def isText : Json → Bool
  | str _ => true
  | _ => false

/-- An integer, or a text of decimal digits. -/
def toInt : Json → Int
  | int n => n
  | str s => s.toInt?.getD 0
  | _ => 0

/-- A truth value. -/
def toBool : Json → Bool
  | bool b => b
  | _ => false

/-- The texts of an array. -/
def texts (j : Json) : List String :=
  j.toList.map text

/-- An array of texts. -/
def ofTexts (ss : List String) : Json :=
  arr (ss.map str)

/-- A value that may be missing. -/
def ofOption {α : Type} (f : α → Json) : Option α → Json
  | some a => f a
  | none => null

/-- A natural number. -/
def ofNat (n : Nat) : Json :=
  int n

end Json

end JobWeave
