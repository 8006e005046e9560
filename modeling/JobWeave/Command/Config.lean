import JobWeave.Command.Toml
import JobWeave.Pass.Run
import JobWeave.Text.Caseless

/-!
# Configuration

The settings of a run: defaults, what a file says over them, and what the
command line says over that.  A file that is no document, or gives a setting a
value of another type, is refused as a whole.
-/

namespace JobWeave

/-- The settings of a run. -/
structure Config where
  /-- changed code is validated -/
  verify : Bool := true
  /-- a copy of every changed method is kept -/
  keepUnprocessed : Bool := false
  /-- the most chains in one method -/
  maxChains : Int := Settings.defaultMaxChains
  /-- closures stay classes -/
  noStructs : Bool := false
  /-- the format of the report -/
  format : String := "text"
  /-- when output is coloured -/
  color : String := "auto"
  /-- where modules are written to; empty means in place -/
  directory : String := ""
  /-- the least level that is logged -/
  level : String := "warn"
  deriving DecidableEq, Repr, Inhabited

namespace Config

/-- The file that is read when none is named. -/
def defaultFile : String := "lambdajobs.toml"

/-- The settings of the pass. -/
def settings (c : Config) : Settings :=
  { maxChains := c.maxChains, verify := c.verify,
    keepUnprocessed := c.keepUnprocessed,
    noStructs := c.noStructs }

/-! ## Reading -/

/-- A truth value. -/
def flag? : Toml.Node → Option Bool
  | .leaf (.flag b) => some b
  | _ => none

/-- An integer. -/
def int? : Toml.Node → Option Int
  | .leaf (.int n) => some n
  | _ => none

/-- A text. -/
def text? : Toml.Node → Option String
  | .leaf (.text s) => some s
  | _ => none

/-- A group of settings. -/
def group? : Toml.Node → Option Toml.Table
  | .table t => some t
  | _ => none

/-- What is done with the value of a key; other keys are passed over. -/
abbrev Setter := String × (Toml.Node → Config → Option Config)

/-- Puts the values of a table over the settings, each with the setter of its
name, whatever the case of its letters. -/
def apply (setters : List Setter) (t : Toml.Table) (c : Config) :
    Option Config :=
  t.foldlM (fun c (name, n) =>
    match setters.find? fun s => Text.isSameName s.1 name with
    | some (_, set) => set n c
    | none => some c) c

/-- The settings of the pass. -/
def passSetters : List Setter :=
  [("verify", fun n c => (flag? n).map fun b => { c with verify := b }),
   ("keep-original", fun n c => (flag? n).map
     fun b => { c with keepUnprocessed := b }),
   ("max-chains", fun n c => (int? n).map fun i => { c with maxChains := i }),
   ("no-closure-structs", fun n c => (flag? n).map
     fun b => { c with noStructs := b })]

/-- The settings of what is printed and written. -/
def outputSetters : List Setter :=
  [("format", fun n c => (text? n).map fun s => { c with format := s }),
   ("color", fun n c => (text? n).map fun s => { c with color := s }),
   ("out", fun n c => (text? n).map fun s => { c with directory := s })]

/-- The settings of what is logged. -/
def logSetters : List Setter :=
  [("level", fun n c => (text? n).map fun s => { c with level := s })]

/-- All settings, in their groups. -/
def groupSetters : List Setter :=
  [("pass", fun n c => do apply passSetters (← group? n) c),
   ("output", fun n c => do apply outputSetters (← group? n) c),
   ("log", fun n c => do apply logSetters (← group? n) c)]

/-- The settings of a document over the defaults. -/
def ofTable? (t : Toml.Table) : Option Config :=
  apply groupSetters t {}

/-! ## Checking -/

/-- The formats of a report. -/
def formats : List String := ["text", "json", "yaml", "cbor"]

/-- When output is coloured. -/
def colors : List String := ["auto", "always", "never"]

/-- The names of the log levels; an empty name is a level too. -/
def levels : List String :=
  ["", "debug", "info", "warn", "warning", "error", "dpanic", "panic", "fatal"]

/-- A failure to be told to whoever wrote the settings. -/
def refused {α : Type} (detail : String) : Except Failure α :=
  .error (.detailed (.invalidInput .config detail))

/-- Checks that every setting has a value that means something. -/
def validate (c : Config) : Except Failure Unit := do
  if !formats.contains c.format then
    refused ("unknown output format " ++ Text.quote c.format)
  if !colors.contains c.color then
    refused ("unknown color mode " ++ Text.quote c.color)
  if c.maxChains < 0 then refused "max-chains must not be negative"
  if !levels.contains (Text.lowered c.level) then
    .error (.caused
      { phase := .config, kind := .invalidInput, detail := "log level" }
      (.plain ("unrecognized level: " ++ Text.quote c.level)))

/-- A file that is not there. -/
def missingFile (phase : Phase) (path : String) : Failure :=
  .caused { phase, kind := .notFound, detail := "read " ++ path }
    (.plain ("open " ++ path ++ ": no such file or directory"))

/-- The settings in the text of a file. -/
def ofText (path text : String) : Except Failure Config := do
  match (Toml.parse? text).bind ofTable? with
  | none => .error (.caused
      { phase := .config, kind := .invalidData, detail := "parse " ++ path }
      (.plain "toml: malformed document"))
  | some c => do
    c.validate
    return c

/-- The settings in a file.  A file that is named must be there; the default one
need not. -/
def load (path : String) (read : String → Option (List UInt8)) :
    Except Failure Config :=
  let file := if path = "" then defaultFile else path
  match read file with
  | some data => ofText file (String.fromUTF8? ⟨data.toArray⟩ |>.getD "\x00")
  | none => if path = "" then .ok {} else .error (missingFile .config file)

end Config

end JobWeave
