import JobWeave.Command.Task

/-!
# Help

The texts that explain the program and its tasks: what a task does, how it is
called, and its flags in columns.
-/

namespace JobWeave

namespace Flag

/-- What stands in the left column for a flag. -/
def column (f : Flag) : String :=
  (match f.letter with
    | some c => "  -" ++ c.toString ++ ", --"
    | none => "      --") ++ f.name ++ f.kind.placeholder

/-- What stands in the right column for a flag. -/
def explained (f : Flag) : String :=
  match f.initial with
  | some v => f.about ++ " (default " ++ v ++ ")"
  | none => f.about

/-- Flags under a heading, one to a line, in two columns. -/
def section_ (heading : String) (fs : List Flag) : String :=
  let width := (fs.map (·.column.length)).foldl max 0
  "\n\n" ++ heading ++ ":" ++ String.join (fs.map fun f =>
    "\n" ++ f.column ++
      String.ofList (List.replicate (width - f.column.length + 3) ' ') ++
        f.explained)

end Flag

namespace Task

/-- Tasks under a heading, one to a line. -/
def list (tasks : List (String × String)) : String :=
  "\n\nAvailable Commands:" ++ String.join (tasks.map fun (name, summary) =>
    "\n  " ++ name ++ String.ofList (List.replicate (12 - name.length) ' ') ++
      summary)

/-- Where to read more about the tasks below another one. -/
def pointer (path : String) : String :=
  "\n\nUse \"" ++ path ++
    " [command] --help\" for more information about a command."

/-- The help of a task. -/
def helpText (t : Task) : String :=
  let flags := Flag.section_ "Flags" t.flags ++ Flag.section_ "Global Flags"
    Flag.shared
  (if t.description = "" then t.summary else t.description) ++
    "\n\nUsage:\n  " ++ t.path ++ (if !t.parts.isEmpty then " [command]" ++
      list t.parts ++ flags ++ pointer t.path else t.operands ++
        (if t.tellsFlags then " [flags]" else "") ++ flags) ++ "\n"

/-- The help of the program. -/
def programHelp : String :=
  let tasks := (all ++ auxiliary).mergeSort fun a b => a.name ≤ b.name
  let flags := (Flag.help program :: Flag.shared).mergeSort
    fun a b => a.name ≤ b.name
  "Rewrite lambda jobs into job structs\n\nUsage:\n  " ++ program ++
    " [command]" ++ list (tasks.map fun t => (t.name, t.summary)) ++
      Flag.section_ "Flags" flags ++
    pointer program ++ "\n"

end Task

end JobWeave
