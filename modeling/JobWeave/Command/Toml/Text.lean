import JobWeave.Text.Numeral

/-!
# Texts and keys of TOML

What stands between the values of a document, and how texts and keys are
written.  Readers take the text as a list of characters and give what they read
with the rest of the text, or nothing when it is not written so.

* `skipBlank`, `skipLines` and `endLine` pass over blanks, comments and breaks;
* `basic`, `literal` and `multiline` read texts behind the quotes that open
  them;
* `key` reads a key of parts with points between them.
-/

namespace JobWeave.Toml

/-- A reader. -/
abbrev Reader (α : Type) := List Char → Option (α × List Char)

/-! ## Blanks -/

/-- Spaces and tabs. -/
def isBlank (c : Char) : Bool :=
  c == ' ' || c == '\t'

/-- Skips spaces and tabs. -/
def skipBlank (cs : List Char) : List Char :=
  cs.dropWhile isBlank

/-- Skips a comment up to the end of its line. -/
def skipComment : List Char → List Char
  | '#' :: cs => cs.dropWhile (· != '\n')
  | cs => cs

/-- Skips blanks, line breaks and comments, with a bound on their number. -/
def skipLines : Nat → List Char → List Char
  | 0, cs => cs
  | n + 1, cs =>
    match skipComment (skipBlank cs) with
    | '\n' :: rest | '\r' :: '\n' :: rest => skipLines n rest
    | rest => rest

/-- The rest of a line holds nothing but blanks and a comment. -/
def endLine (cs : List Char) : Option (List Char) :=
  match skipComment (skipBlank cs) with
  | [] => some []
  | '\n' :: rest | '\r' :: '\n' :: rest => some rest
  | _ => none

/-- The character may not stand in a text. -/
def isControl (c : Char) : Bool :=
  (c.toNat < 32 && c != '\t') || c.toNat = 127

/-- No character of the document is refused wherever it stands. -/
def isClean : List Char → Bool
  | '\r' :: '\n' :: cs => isClean cs
  | '\n' :: cs => isClean cs
  | c :: cs => !isControl c && isClean cs
  | [] => true

/-! ## Texts -/

/-- The value of some hexadecimal digits. -/
def hexValue? (cs : List Char) : Option Nat :=
  if cs.all (Numeral.isDigitOf 16) then
    some (cs.foldl (fun n c => 16 * n + (Numeral.digit? c).getD 0) 0)
  else none

/-- The character that a code stands for. -/
def charOf? (n : Nat) : Option Char :=
  if n.isValidChar then some (Char.ofNat n) else none

/-- An escape behind its backslash. -/
def escaped : Reader Char
  | 'b' :: cs => some (Char.ofNat 8, cs)
  | 't' :: cs => some ('\t', cs)
  | 'n' :: cs => some ('\n', cs)
  | 'f' :: cs => some (Char.ofNat 12, cs)
  | 'r' :: cs => some ('\r', cs)
  | 'e' :: cs => some (Char.ofNat 27, cs)
  | '"' :: cs => some ('"', cs)
  | '\\' :: cs => some ('\\', cs)
  | c :: cs =>
    let width :=
      if c == 'x' then 2 else if c == 'u' then 4 else if c == 'U' then 8 else 0
    if width = 0 || cs.length < width then none
    else do
      let ch ← charOf? (← hexValue? (cs.take width))
      return (ch, cs.drop width)
  | [] => none

/-- A text in double quotes, behind the first of them. -/
def basic : Nat → List Char → Reader String
  | 0, _ => fun _ => none
  | n + 1, seen => fun
    | '"' :: cs => some (String.ofList seen.reverse, cs)
    | '\\' :: cs => do
      let (c, cs) ← escaped cs
      basic n (c :: seen) cs
    | c :: cs => if isControl c then none else basic n (c :: seen) cs
    | [] => none

/-- A text in single quotes, behind the first of them. -/
def literal (cs : List Char) : Option (String × List Char) :=
  let body := cs.takeWhile fun c => c != '\'' && !isControl c
  match cs.drop body.length with
  | '\'' :: rest => some (String.ofList body, rest)
  | _ => none

/-! ## Texts over several lines -/

/-- The last characters, the latest first, are five quotes or more.  Right
behind a backslash there may be five. -/
def tooMany (quote : Char) (seen : List Char) : Bool :=
  let count := (seen.takeWhile (· == quote)).length
  5 < count || (count = 5 && !(quote == '"' && seen[5]? == some '\\'))

/-- The written form of a text up to the three quotes that close it.  Of more
than three quotes the last ones close it. -/
def enclosed (quote : Char) (seen : List Char) : List Char →
    Option (List Char × List Char)
  | a :: b :: cs =>
    if a == '\\' && quote == '"' then enclosed quote (b :: a :: seen) cs
    else
      match cs with
      | c :: rest =>
        if a == quote && b == quote && c == quote then
          if rest.head? == some quote then
            if tooMany quote (c :: b :: a :: seen) then none
            else enclosed quote (a :: seen) (b :: c :: rest)
          else some (seen.reverse, rest)
        else enclosed quote (a :: seen) (b :: c :: rest)
      | [] => none
  | _ => none
termination_by cs => cs.length

/-- Drops the line break right behind the quotes that open a text. -/
def dropBreak : List Char → List Char
  | '\n' :: cs | '\r' :: '\n' :: cs => cs
  | cs => cs

/-- Behind a backslash at the end of a line all blanks and breaks are
skipped. -/
def joinLines (cs : List Char) : Option (List Char) :=
  let isGap := fun (c : Char) => isBlank c || c == '\n' || c == '\r'
  if (cs.takeWhile isGap).contains '\n' then some (cs.dropWhile isGap) else none

/-- The text of a written form with escapes, with a bound on its length. -/
def unescape : Nat → List Char → Option (List Char)
  | 0, _ => none
  | _, [] => some []
  | n + 1, '\\' :: cs =>
    match joinLines cs with
    | some rest => unescape n rest
    | none => do
      let (c, rest) ← escaped cs
      return c :: (← unescape n rest)
  | n + 1, c :: cs => (unescape n cs).map (c :: ·)

/-- A text over several lines, behind the quotes that open it. -/
def multiline (quote : Char) (cs : List Char) :
    Option (String × List Char) := do
  let (body, rest) ← enclosed quote [] cs
  let body := dropBreak body
  let text ← if quote == '"' then unescape (body.length + 1) body else some body
  return (String.ofList text, rest)

/-! ## Keys -/

/-- The character may stand in a bare key. -/
def isBare (c : Char) : Bool :=
  c.isAlphanum || c == '_' || c == '-'

/-- One part of a key. -/
def keyPart : Reader String
  | '"' :: cs => basic (cs.length + 1) [] cs
  | '\'' :: cs => literal cs
  | cs =>
    let part := cs.takeWhile isBare
    if part.isEmpty then none
    else some (String.ofList part, cs.drop part.length)

/-- A key of parts with points between them, with a bound on their number. -/
def key : Nat → Reader (List String)
  | 0 => fun _ => none
  | n + 1 => fun cs => do
    let (part, cs) ← keyPart (skipBlank cs)
    match skipBlank cs with
    | '.' :: cs => do
      let (parts, cs) ← key n cs
      return (part :: parts, cs)
    | cs => return ([part], cs)

end JobWeave.Toml
