import JobWeave.Document.Json
import JobWeave.Text.Quoted

/-!
# Indented JSON text

Every field and element stands on a line of its own, two spaces further in than
what holds it.  Characters that mean something in markup are written by their
code, so the text can stand inside a page.
-/

namespace JobWeave.Json

/-- How one character of a text is written between the quotes. -/
def escape (c : Char) : List Char :=
  match c with
  | '"' => ['\\', '"']
  | '\\' => ['\\', '\\']
  | '\n' => ['\\', 'n']
  | '\r' => ['\\', 'r']
  | '\t' => ['\\', 't']
  | c =>
    if c.toNat = 8 then ['\\', 'b']
    else if c.toNat = 12 then ['\\', 'f']
    else if c.toNat < 32 || c == '<' || c == '>' || c == '&' ||
        c.toNat = 0x2028 || c.toNat = 0x2029 then
      '\\' :: 'u' :: Text.hexDigits 4 c.toNat
    else [c]

/-- A text in quotes. -/
def quoted (s : String) : String :=
  String.ofList ('"' :: s.toList.flatMap escape ++ ['"'])

/-- A new line at a depth. -/
def freshLine (depth : Nat) : String :=
  "\n" ++ String.ofList (List.replicate (2 * depth) ' ')

/-- Parts between brackets, each on a line of its own. -/
def bracketed (left right : String) (depth : Nat) (parts : List String) :
    String :=
  if parts.isEmpty then left ++ right
  else
    left ++ ",".intercalate (parts.map fun p => freshLine (depth + 1) ++ p) ++
      freshLine depth ++ right

mutual

/-- A value at a depth. -/
def indentedAt (depth : Nat) : Json → String
  | null => "null"
  | bool b => if b then "true" else "false"
  | int n => toString n
  | str s => quoted s
  | arr xs => bracketed "[" "]" depth (elementsAt (depth + 1) xs)
  | obj fs => bracketed "\x7b" "\x7d" depth (fieldsAt (depth + 1) fs)

/-- The elements of an array. -/
def elementsAt (depth : Nat) : List Json → List String
  | [] => []
  | x :: xs => indentedAt depth x :: elementsAt depth xs

/-- The fields of an object. -/
def fieldsAt (depth : Nat) : List (String × Json) → List String
  | [] => []
  | (k, v) :: fs =>
    (quoted k ++ ": " ++ indentedAt depth v) :: fieldsAt depth fs

end

/-- A value as indented text, with a line break at the end. -/
def indented (j : Json) : String :=
  j.indentedAt 0 ++ "\n"

end JobWeave.Json
