/-!
# Diagnostics

A diagnostic tells the author of a module about a rule that the code breaks: a
code, a message, the method and the place in its source document.
-/

namespace JobWeave

/-- The short name of a rule. -/
structure Code where
  /-- the name as it is printed -/
  text : String
  deriving DecidableEq, Repr, Inhabited

/-- Codes that stand for a defect of the pass itself, not of the code under
it. -/
def Code.isInternal (c : Code) : Bool :=
  c.text.startsWith "DCICE"

/-- How serious a diagnostic is. -/
inductive Severity where
  | error
  | warning
  deriving DecidableEq, Repr, Inhabited

/-- The word that is printed for a severity. -/
def Severity.text : Severity → String
  | .error => "error"
  | .warning => "warning"

/-- A position in a source document. -/
structure Location where
  /-- the document, empty when the position is not known -/
  file : String := ""
  /-- the line -/
  line : Int := 0
  /-- the column -/
  column : Int := 0
  deriving DecidableEq, Repr, Inhabited

namespace Location

/-- The location names a document. -/
def isKnown (l : Location) : Bool :=
  l.file != ""

/-- The location as compilers print it, or nothing when it is not known. -/
def text (l : Location) : String :=
  if l.isKnown then
    l.file ++ "(" ++ toString l.line ++ "," ++ toString l.column ++ ")"
  else ""

end Location

/-- One reported problem. -/
structure Diagnostic where
  /-- the rule, with an empty text for failures that no rule describes -/
  code : Code := ⟨""⟩
  /-- what is wrong -/
  message : String
  /-- the method it was found in -/
  method : String := ""
  /-- where in the source -/
  location : Location := {}
  /-- how serious it is -/
  severity : Severity := .error
  deriving DecidableEq, Repr, Inhabited

/-- The diagnostic on one line: location, severity, code, message. -/
def Diagnostic.text (d : Diagnostic) : String :=
  (if d.location.isKnown then d.location.text ++ ": " else "") ++
    d.severity.text ++
    (if d.code.text != "" then " " ++ d.code.text else "") ++
    ": " ++ d.message

end JobWeave
