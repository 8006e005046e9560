/-!
# Records of fields

A record is a line of fields with commas between them.  A field in double quotes
may hold commas, line breaks and quotes, which are doubled.  `Record.read` gives
the fields of the first record of a text; empty lines before it are skipped, and
lines behind it are not looked at.  A fault tells where the record is broken, in
lines and bytes.
-/

namespace JobWeave.Record

/-- Why there is no record. -/
inductive Fault where
  /-- the text has no line that is not empty -/
  | missing
  /-- a quote stands in a field without quotes -/
  | bareQuote (start line column : Nat)
  /-- a quote is missing, or stands in a field with quotes -/
  | strayQuote (start line column : Nat)
  deriving DecidableEq, Repr, Inhabited

/-- Where a record is broken; a record of several lines tells where it
starts. -/
def Fault.place (start line column : Nat) : String :=
  (if start = line then "" else "record on line " ++ toString start ++ "; ") ++
    "parse error on line " ++ toString line ++ ", column " ++ toString
      column ++ ": "

/-- The wording of a fault. -/
def Fault.text : Fault → String
  | missing => "EOF"
  | bareQuote start line column =>
    place start line column ++ "bare \" in non-quoted field"
  | strayQuote start line column =>
    place start line column ++ "extraneous or missing \" in quoted-field"

/-- Where the next character of a record stands. -/
inductive Within where
  /-- at the start of a field -/
  | start
  /-- in a field without quotes -/
  | bare
  /-- in a field with quotes -/
  | quoted
  /-- behind a quote in such a field -/
  | closed
  deriving DecidableEq, Repr, Inhabited

/-- How far a record has been read. -/
structure Reading where
  /-- the line that the record starts in -/
  start : Nat
  /-- the line of the next character -/
  line : Nat
  /-- the column of the next character -/
  column : Nat := 1
  /-- the fields, the last one first -/
  fields : List String := []
  /-- the characters of the next field, the last one first -/
  field : List Char := []
  /-- where the next character stands -/
  within : Within := .start

namespace Reading

/-- Passes over a character. -/
def pass (r : Reading) (c : Char) : Reading :=
  { r with column := r.column + c.utf8Size }

/-- Puts a character into the field. -/
def put (r : Reading) (c : Char) (within : Within) : Reading :=
  { r.pass c with field := c :: r.field, within }

/-- Ends a field. -/
def endField (r : Reading) : Reading :=
  { r with fields := String.ofList r.field.reverse :: r.fields, field := [],
           within := .start }

/-- The fields of a record that ends here. -/
def finish (r : Reading) : List String :=
  r.endField.fields.reverse

/-- Goes on with the next line unless the text ends. -/
def nextLine (r : Reading) (rest : List Char) : Reading :=
  if rest.isEmpty then r else { r with line := r.line + 1, column := 1 }

end Reading

/-- Reads the rest of a record. -/
def readFrom : List Char → Reading → Except Fault (List String)
  | [], r =>
    if r.within = .quoted then .error (.strayQuote r.start r.line r.column)
    else .ok r.finish
  | c :: cs, r =>
    if r.within = .quoted then
      if c = '"' then readFrom cs { r.pass c with within := .closed }
      else
        let r := r.put c .quoted
        readFrom cs (if c = '\n' then r.nextLine cs else r)
    else if c = ',' then readFrom cs (r.pass c).endField
    else if c = '\n' then .ok r.finish
    else
      match r.within with
      | .start =>
        if c = '"' then readFrom cs { r.pass c with within := .quoted }
        else readFrom cs (r.put c .bare)
      | .closed =>
        if c = '"' then readFrom cs (r.put c .quoted)
        else .error (.strayQuote r.start r.line (r.column - 1))
      | _ =>
        if c = '"' then .error (.bareQuote r.start r.line r.column)
        else readFrom cs (r.put c .bare)

/-- The characters of a text with one kind of line break, and without a carriage
return at the end. -/
def plainLines (s : String) : List Char :=
  let cs := (s.replace "\r\n" "\n").toList
  if cs.getLast? = some '\r' then cs.dropLast else cs

/-- The fields of the first record. -/
def read (s : String) : Except Fault (List String) :=
  let cs := plainLines s
  let rest := cs.dropWhile (· = '\n')
  let line := cs.length - rest.length + 1
  if rest.isEmpty then .error .missing
  else readFrom rest { start := line, line }

end JobWeave.Record
