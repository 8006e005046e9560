import JobWeave.Diagnostic.Basic

/-!
# Failures

Three ways in which an operation ends without a result.

* A `Failure` is an answer: malformed bytes, a broken rule, a missing member.
  Its text is `Failure.message`, and `note?`, `parse?` and `details?` look for
  the outermost failure of one sort in a chain of causes.
* A fault is a state that the operation has no answer for, such as a reference
  without the type it is about.  Some faults carry a text.
* `Stop` is either; operations that can fault live in `Except Stop`.
-/

namespace JobWeave

/-- The step of the pass that failed. -/
inductive Phase where
  | load
  | config
  | decode
  | validate
  | analyze
  | synthesize
  | splice
  | encode
  /-- a step this library does not know -/
  | other (name : String)
  deriving DecidableEq, Repr, Inhabited

/-- The printed name of a phase. -/
def Phase.name : Phase → String
  | load => "load"
  | config => "config"
  | decode => "decode"
  | validate => "validate"
  | analyze => "analyze"
  | synthesize => "synthesize"
  | splice => "rewrite"
  | encode => "encode"
  | other s => s

/-- What sort of failure it is. -/
inductive Kind where
  | invalidData
  | invalidInput
  | notFound
  | outOfBounds
  | overflow
  | stackImbalance
  | internal
  /-- a sort this library does not know -/
  | other (name : String)
  deriving DecidableEq, Repr, Inhabited

/-- The printed name of a kind. -/
def Kind.name : Kind → String
  | invalidData => "invalid_data"
  | invalidInput => "invalid_input"
  | notFound => "not_found"
  | outOfBounds => "out_of_bounds"
  | overflow => "overflow"
  | stackImbalance => "stack_imbalance"
  | internal => "internal"
  | other s => s

/-- A failure of the pass or of its input: which step, what sort, and where. -/
structure Details where
  /-- the step that failed -/
  phase : Phase
  /-- the sort of failure -/
  kind : Kind
  /-- the place of the failing item inside the module, outermost first -/
  path : List String := []
  /-- the type or method it concerns -/
  member : String := ""
  /-- what is wrong -/
  detail : String := ""
  deriving DecidableEq, Repr, Inhabited

namespace Details

/-- The non-empty parts in order: phase and kind, path, member, detail. -/
def text (d : Details) : String :=
  d.phase.name ++ " " ++ d.kind.name ++
    (if d.path.isEmpty then "" else " at " ++ "/".intercalate d.path) ++
    (if d.member = "" then "" else " in " ++ d.member) ++
    (if d.detail = "" then "" else ": " ++ d.detail)

/-- A member that does not resolve. -/
def notFound (phase : Phase) (member : String) : Details :=
  { phase, kind := .notFound, member, detail := "not found" }

/-- An index past the end of a table. -/
def outOfBounds (phase : Phase) (path : List String) (index length : Int) :
    Details :=
  { phase, kind := .outOfBounds, path,
    detail := "index " ++ toString index ++ " out of range [0," ++
      toString length ++ ")" }

/-- A value too large for what it counts. -/
def overflow (phase : Phase) (path : List String) (value target : String) :
    Details :=
  { phase, kind := .overflow, path,
    detail := value ++ " exceeds " ++ target ++ " limit" }

/-- Malformed content of a module. -/
def invalidData (phase : Phase) (path : List String) (detail : String) :
    Details :=
  { phase, kind := .invalidData, path, detail }

/-- A bad argument of the caller. -/
def invalidInput (phase : Phase) (detail : String) : Details :=
  { phase, kind := .invalidInput, detail }

/-- A broken invariant of the pass itself. -/
def internal (phase : Phase) (detail : String) : Details :=
  { phase, kind := .internal, detail }

end Details

/-- An operation's answer when it has no result. -/
inductive Failure where
  /-- a text and nothing more -/
  | plain (text : String)
  /-- the bytes end too early -/
  | truncated
  /-- an integer does not fit its width -/
  | tooWide
  /-- the bytes are not a module -/
  | badMagic
  /-- the module has another format version -/
  | badVersion
  /-- a rule that the code breaks -/
  | note (diagnostic : Diagnostic)
  /-- a failure with step and sort -/
  | detailed (details : Details)
  /-- a failure with step and sort that another one caused -/
  | caused (details : Details) (cause : Failure)
  /-- a failure while reading one part of a module, at a byte position -/
  | parsing (part : String) (position : Nat) (cause : Failure)
  /-- a text put in front of another failure -/
  | context (text : String) (cause : Failure)
  deriving DecidableEq, Repr, Inhabited

namespace Failure

/-- The text of a failure. -/
def message : Failure → String
  | plain s => s
  | truncated => "unexpected EOF"
  | tooWide => "leb128: overflow"
  | badMagic => "invalid module magic number"
  | badVersion => "invalid module version"
  | note d => d.text
  | detailed d => d.text
  | caused d c => d.text ++ ": " ++ c.message
  | parsing part p c =>
    "il: " ++ (if part = "" then "" else part ++ " ") ++
      "at position " ++ toString p ++ ": " ++ c.message
  | context s c => s ++ ": " ++ c.message

/-- The failure directly underneath, if there is one. -/
def cause? : Failure → Option Failure
  | caused _ c | parsing _ _ c | context _ c => some c
  | _ => none

/-- The outermost diagnostic. -/
def note? : Failure → Option Diagnostic
  | note d => some d
  | caused _ c | parsing _ _ c | context _ c => c.note?
  | _ => none

/-- The outermost reading failure: the part and the position. -/
def parse? : Failure → Option (String × Nat)
  | parsing part p _ => some (part, p)
  | caused _ c | context _ c => c.parse?
  | _ => none

/-- The outermost failure with step and sort. -/
def details? : Failure → Option Details
  | detailed d | caused d _ => some d
  | parsing _ _ c | context _ c => c.details?
  | _ => none

/-- Some failure of the chain satisfies the test. -/
def any (p : Failure → Bool) : Failure → Bool
  | f@(caused _ c) | f@(parsing _ _ c) | f@(context _ c) => p f || c.any p
  | f => p f

/-- The chain holds a failure of the given step and sort; a missing step or
sort stands for any. -/
def isOf (phase : Option Phase) (kind : Option Kind) (f : Failure) : Bool :=
  f.any fun
    | detailed d | caused d _ =>
      (phase.isNone || phase == some d.phase) &&
        (kind.isNone || kind == some d.kind)
    | _ => false

end Failure

/-- Why an operation has no result. -/
inductive Stop where
  /-- a failure is the answer -/
  | failed (f : Failure)
  /-- there is no answer: a reference is missing or an index is out of range -/
  | fault (text : Option String)
  deriving DecidableEq, Repr, Inhabited

/-- A computation that may stop. -/
abbrev Outcome := Except Stop

namespace Outcome

/-- Stops with a failure. -/
def fail {α : Type} (f : Failure) : Outcome α :=
  .error (.failed f)

/-- Stops at a missing reference or a bad index. -/
def fault {α : Type} : Outcome α :=
  .error (.fault none)

/-- A value that has to be there. -/
def need {α : Type} : Option α → Outcome α
  | some a => .ok a
  | none => fault

end Outcome

end JobWeave
