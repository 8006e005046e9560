import JobWeave.Command.Toml.Scalar

/-!
# Values and entries of TOML

A document is a sequence of entries: headers of tables, and keys with their
values.  `entries?` reads them without regard to what earlier entries define.
-/

namespace JobWeave.Toml

/-- The keys that lead to something, from the root of the document. -/
abbrev Path := List String

/-- A value as it is written. -/
inductive Value where
  | scalar (s : Scalar)
  /-- values between brackets -/
  | list (vs : List Value)
  /-- keys with their values between braces -/
  | fields (fs : List (Path × Value))
  deriving Inhabited

/-- The value is an array. -/
def Value.isList : Value → Bool
  | .list _ => true
  | _ => false

/-- An entry of a document. -/
inductive Entry where
  /-- the header of a table -/
  | table (path : Path)
  /-- the header of one more table in an array of tables -/
  | element (path : Path)
  /-- a key with its value -/
  | field (key : Path) (v : Value)
  deriving Inhabited

/-- A value that is a text. -/
def textValue (r : Option (String × List Char)) : Option (Value × List Char) :=
  r.map fun (s, rest) => (.scalar (.text s), rest)

mutual

/-- A value, with a bound on the depth and length of what it holds. -/
def value : Nat → Reader Value
  | 0 => fun _ => none
  | n + 1 => fun cs =>
    match cs with
    | '"' :: '"' :: '"' :: cs => textValue (multiline '"' cs)
    | '\'' :: '\'' :: '\'' :: cs => textValue (multiline '\'' cs)
    | '"' :: cs => textValue (basic (cs.length + 1) [] cs)
    | '\'' :: cs => textValue (literal cs)
    | '[' :: cs => do
      let (vs, cs) ← elements n cs
      return (.list vs, cs)
    | '\x7b' :: cs => do
      let (fs, cs) ← fields n cs
      return (.fields fs, cs)
    | cs => (scalar cs).map fun (s, rest) => (.scalar s, rest)

/-- The elements of an array up to the bracket that closes it. -/
def elements : Nat → Reader (List Value)
  | 0 => fun _ => none
  | n + 1 => fun cs =>
    match skipLines cs.length cs with
    | ']' :: cs => some ([], cs)
    | cs => do
      let (v, cs) ← value n cs
      match skipLines cs.length cs with
      | ',' :: cs => do
        let (vs, cs) ← elements n cs
        return (v :: vs, cs)
      | ']' :: cs => return ([v], cs)
      | _ => none

/-- The fields of a table in a line, up to the brace that closes it. -/
def fields : Nat → Reader (List (Path × Value))
  | 0 => fun _ => none
  | n + 1 => fun cs =>
    match skipLines cs.length cs with
    | '\x7d' :: cs => some ([], cs)
    | cs => do
      let (k, cs) ← key (cs.length + 1) cs
      match cs with
      | '=' :: cs => do
        let (v, cs) ← value n (skipBlank cs)
        match skipLines cs.length cs with
        | ',' :: cs => do
          let (fs, cs) ← fields n cs
          return ((k, v) :: fs, cs)
        | '\x7d' :: cs => return ([(k, v)], cs)
        | _ => none
      | _ => none

end

/-- One entry. -/
def entry : Reader Entry
  | '[' :: '[' :: cs => do
    let (path, cs) ← key (cs.length + 1) cs
    match cs with
    | ']' :: ']' :: cs => return (.element path, cs)
    | _ => none
  | '[' :: cs => do
    let (path, cs) ← key (cs.length + 1) cs
    match cs with
    | ']' :: cs => return (.table path, cs)
    | _ => none
  | cs => do
    let (k, cs) ← key (cs.length + 1) cs
    match cs with
    | '=' :: cs => do
      let (v, cs) ← value (cs.length + 1) (skipBlank cs)
      return (.field k v, cs)
    | _ => none

/-- Entries, each with the end of its line, with a bound on their number. -/
def entriesOf : Nat → List Char → Option (List Entry)
  | 0, _ => none
  | n + 1, cs =>
    match skipLines (cs.length + 1) cs with
    | [] => some []
    | cs => do
      let (e, cs) ← entry cs
      return e :: (← entriesOf n (← endLine cs))

/-- The entries of a document, which may begin with a byte order mark. -/
def entries? (s : String) : Option (List Entry) :=
  let cs :=
    match s.toList with
    | c :: cs => if c.toNat = 0xfeff then cs else c :: cs
    | [] => []
  if isClean cs then entriesOf (cs.length + 1) cs else none

end JobWeave.Toml
