import JobWeave.Document.Cbor
import JobWeave.Document.Indented
import JobWeave.Document.Yaml
import JobWeave.Pass.Report
import JobWeave.Text.Screen
import JobWeave.Failure

/-!
# Reports on files

The outcome for each input file, and the formats it is written in: text for
people, and JSON, YAML or CBOR with the same fields for programs.  Fields
without a value are left out.
-/

namespace JobWeave

/-- The outcome for one input file. -/
structure FileReport where
  /-- the file -/
  file : String
  /-- where the module was written to, or empty -/
  output : String := ""
  /-- what the pass did -/
  result : Option Report := none
  /-- why there is no result, or empty -/
  error : String := ""
  deriving DecidableEq, Repr, Inhabited

namespace FileReport

/-- The file has no result or its report has errors. -/
def failed (r : FileReport) : Bool :=
  r.error != "" || (r.result.map (·.hasErrors)).getD false

/-! ## Documents -/

/-- A field that is left out when it is empty. -/
def textField (name value : String) : List (String × Json) :=
  if value = "" then [] else [(name, .str value)]

/-- A field that is left out when it is zero. -/
def intField (name : String) (value : Int) : List (String × Json) :=
  if value = 0 then [] else [(name, .int value)]

/-- A list that is left out when it is empty. -/
def listField {α : Type} (name : String) (f : α → Json) (xs : List α) :
    List (String × Json) :=
  if xs.isEmpty then [] else [(name, .arr (xs.map f))]

/-- A job. -/
def job (j : JobEntry) : Json :=
  .obj ([("system", .str j.system), ("method", .str j.method),
    ("struct", .str j.struct), ("kind", .str j.kind), ("mode", .str j.mode),
    ("burst", .bool j.burst)] ++
    (if j.closureAsStruct then [("closure_as_struct", .bool true)] else []))

/-- A diagnostic. -/
def diagnostic (severity : Severity → Json) (d : Diagnostic) : Json :=
  .obj ([("location", .obj (textField "file" d.location.file ++
      intField "line" d.location.line ++ intField "column"
        d.location.column))] ++
    textField "code" d.code.text ++ [("message", .str d.message)] ++
    textField "method" d.method ++ [("severity", severity d.severity)])

/-- A report. -/
def report (severity : Severity → Json) (r : Report) : Json :=
  .obj ([("module", .str r.module), ("systems", .int r.systems)] ++
    listField "jobs" job r.jobs ++
    listField "diagnostics" (diagnostic severity) r.diagnostics)

/-- The outcome for a file. -/
def document (severity : Severity → Json) (r : FileReport) : Json :=
  .obj ([("file", .str r.file)] ++ textField "output" r.output ++
    (r.result.map fun s => ("result", report severity s)).toList ++
    textField "error" r.error)

/-! ## Text -/

/-- Makes the lines of a text equally wide. -/
def squared (lines : List String) : String :=
  let width := (lines.map Text.Screen.width).foldl max 0
  "\n".intercalate (lines.map fun l =>
    l ++ String.ofList (List.replicate (width - Text.Screen.width l) ' '))

/-- The lines of a text that is styled: tabs are four spaces. -/
def styledLines (s : String) : List String :=
  ((s.replace "\t" "    ").replace "\r\n" "\n").splitOn "\n"

/-- A styled piece of text. -/
def styled (s : String) : String :=
  squared (styledLines s)

/-- A title with a space on each side. -/
def title (s : String) : String :=
  squared ((styledLines s).map fun l => " " ++ l ++ " ")

/-- How a job runs. -/
def modeText (j : JobEntry) : String :=
  j.kind ++ "." ++ j.mode ++ (if j.burst then " burst" else "") ++
    (if j.closureAsStruct then " struct-closure" else "")

/-- What the pass did, line by line. -/
def resultText (r : Report) : String :=
  "  " ++ toString r.systems ++ " systems, " ++ toString r.jobs.length ++
    " jobs\n" ++ String.join (r.jobs.map fun j =>
      "  " ++ styled j.struct ++ " " ++ j.system ++ "." ++ j.method ++ " " ++
        styled (modeText j) ++ "\n") ++
    String.join (r.diagnostics.map fun d => "  " ++ styled d.text ++ "\n")

/-- The outcome for a file.  A file without an error has a result. -/
def text (r : FileReport) : Outcome String := do
  if r.error != "" then
    return title r.file ++ "\n" ++ styled ("  " ++ r.error) ++ "\n\n"
  let result ← Outcome.need r.result
  let wrote := if r.output = "" then ""
    else styled ("  wrote " ++ r.output) ++ "\n"
  return title r.file ++ "\n" ++ resultText result ++ wrote ++ "\n"

/-! ## Formats -/

/-- The number of a severity. -/
def severityNumber : Severity → Json
  | .error => .int 0
  | .warning => .int 1

/-- Reports in a format. -/
def render (format : String) (rs : List FileReport) : Outcome (List UInt8) := do
  let named := fun (s : Severity) => Json.str s.text
  match format with
  | "json" => return (Json.arr (rs.map (document named))).indented.toUTF8.toList
  | "yaml" => return (Json.arr (rs.map (document named))).yaml.toUTF8.toList
  | "cbor" => return (Json.arr (rs.map (document severityNumber))).cbor
  | "text" => return (String.join (← rs.mapM text)).toUTF8.toList
  | other =>
    Outcome.fail (.detailed
      (.invalidInput .config ("unknown output format " ++ Text.quote other)))

end FileReport

end JobWeave
