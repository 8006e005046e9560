import JobWeave.Failure
import JobWeave.Sample.Scenario
import JobWeave.Text.Caseless
import JobWeave.Text.Numeral
import JobWeave.Text.Record

/-!
# Tasks and their flags

What can be written on a command line: the tasks, the flags of each and the
flags that all of them share, with the words that describe them.
-/

namespace JobWeave

/-- What a flag takes. -/
inductive FlagKind where
  /-- a truth value, true unless one is given -/
  | switch
  /-- an integer -/
  | number
  /-- a text -/
  | text
  /-- texts with commas between them, and more with each use -/
  | texts
  deriving DecidableEq, Repr, Inhabited

/-- What the help calls the value of a flag. -/
def FlagKind.placeholder : FlagKind → String
  | switch => ""
  | number => " int"
  | text => " string"
  | texts => " strings"

/-- A flag. -/
structure Flag where
  /-- the name behind two dashes -/
  name : String
  /-- the letter behind one dash -/
  letter : Option Char := none
  /-- what it takes -/
  kind : FlagKind
  /-- what it does -/
  about : String
  /-- what it is when it is not given, if that is worth telling -/
  initial : Option String := none
  deriving DecidableEq, Repr, Inhabited

namespace Flag

/-- The flag as messages show it. -/
def shown (f : Flag) : String :=
  match f.letter with
  | some c => "-" ++ c.toString ++ ", --" ++ f.name
  | none => "--" ++ f.name

/-- The flags of every task, ordered by name. -/
def shared : List Flag :=
  [{ name := "color", kind := .text, initial := some "\"auto\"",
     about := "colour: auto, always or never" },
   { name := "config", kind := .text,
     about := "config file (default ./lambdajobs.toml when present)" },
   { name := "format", kind := .text, initial := some "\"text\"",
     about := "report format: text, json, yaml or cbor" },
   { name := "keep-original", kind := .switch,
     about := "keep a $Unprocessed copy of rewritten methods" },
   { name := "log-level", kind := .text, initial := some "\"warn\"",
     about := "log level" },
   { name := "max-chains", kind := .number,
     about := "maximum lambda jobs per method" },
   { name := "no-closure-structs", kind := .switch,
     about := "keep closures as classes" },
   { name := "verbose", letter := some 'v', kind := .switch,
     about := "log at debug level" },
   { name := "verify", kind := .switch, initial := some "true",
     about := "validate rewritten methods" }]

/-- The flag that asks for help on a task. -/
def help (task : String) : Flag :=
  { name := "help", letter := some 'h', kind := .switch,
    about := "help for " ++ task }

/-- The flag that opens a browser for the results. -/
def interactive : Flag :=
  { name := "interactive", letter := some 'i', kind := .switch,
    about := "browse the results" }

/-! ## Values -/

/-- A truth value. -/
def readSwitch? (s : String) : Option Bool :=
  if ["1", "t", "T", "TRUE", "true", "True"].contains s then some true
  else if ["0", "f", "F", "FALSE", "false", "False"].contains s then some false
  else none

/-- The texts of a flag that takes several. -/
def readTexts (s : String) : Except Record.Fault (List String) :=
  if s = "" then .ok [] else Record.read s

/-- Checks that a value is of the kind that the flag takes. -/
def check (f : Flag) (value : String) : Except Failure Unit :=
  let invalid := fun (why : String) => Except.error (Failure.plain
    ("invalid argument " ++ Text.quote value ++ " for " ++ Text.quote f.shown ++
      " flag: " ++ why))
  let unread := fun (reader why : String) =>
    invalid ("strconv." ++ reader ++ ": parsing " ++ Text.quote value ++
      ": " ++ why)
  match f.kind with
  | .switch =>
    if (readSwitch? value).isSome then .ok ()
    else unread "ParseBool" Numeral.Fault.malformed.text
  | .number =>
    match Numeral.integer value.toList with
    | .ok _ => .ok ()
    | .error fault => unread "ParseInt" fault.text
  | .texts =>
    match readTexts value with
    | .ok _ => .ok ()
    | .error fault => invalid fault.text
  | .text => .ok ()

end Flag

/-- How many arguments a task takes. -/
inductive Arity where
  /-- as many as there are -/
  | any
  /-- none -/
  | none
  /-- one -/
  | one
  /-- at least one -/
  | some
  deriving DecidableEq, Repr, Inhabited

/-- Checks the arguments of the task that a path of names leads to. -/
def Arity.check (a : Arity) (path : String) (arguments : List String) :
    Except Failure Unit :=
  match a, arguments with
  | any, _ | none, [] | one, [_] | some, _ :: _ => .ok ()
  | none, argument :: _ =>
    .error (.plain ("unknown command " ++ Text.quote argument ++ " for " ++
      Text.quote path))
  | one, arguments =>
    .error (.plain ("accepts 1 arg(s), received " ++ toString arguments.length))
  | some, [] => .error (.plain "requires at least 1 arg(s), only received 0")

/-- A task. -/
structure Task where
  /-- its name -/
  name : String
  /-- the name of the task that it is a part of, if it is one -/
  whole : Option String := none
  /-- how many arguments it takes -/
  arity : Arity := .any
  /-- what may stand behind the name -/
  operands : String := ""
  /-- its usage says that flags may stand behind the name -/
  tellsFlags : Bool := true
  /-- what it does, in a line -/
  summary : String
  /-- what it does, if that takes more than a line -/
  description : String := ""
  /-- its flags, ordered by name -/
  flags : List Flag := []
  /-- the tasks below it, which it cannot do without -/
  parts : List (String × String) := []
  deriving DecidableEq, Repr, Inhabited

namespace Task

/-- The name of the program. -/
def program : String := "lambdajobs"

/-- The names that lead to a task. -/
def path (t : Task) : String :=
  " ".intercalate (program :: t.whole.toList ++ [t.name])

/-- Runs the pass on modules. -/
def process : Task :=
  { name := "process", arity := .some, operands := " module...",
    summary := "Rewrite the lambda jobs of modules",
    description :=
      "Rewrite the lambda jobs of each module. Modules are processed concurrently\n" ++
      "and must not reference one another; shared dependencies go in --ref.",
    flags :=
      [.help "process", .interactive,
       { name := "out", letter := some 'o', kind := .text, about :=
         "directory for processed modules (default rewrites in place)" },
       { name := "ref", letter := some 'r', kind := .texts,
         about := "referenced module, read only" }] }

/-- Prints the code of a module. -/
def dump : Task :=
  { name := "dump", arity := .one, operands := " module",
    summary := "Print the IL of a module",
    flags :=
      [.help "dump",
       { name := "method", letter := some 'm', kind := .text,
         about := "dump only methods whose full name contains this" }] }

/-- Lists the framework's modules or writes them. -/
def framework : Task :=
  { name := "framework", arity := .none,
    summary := "List or write the built-in framework modules",
    flags :=
      [.help "framework",
       { name := "out", letter := some 'o', kind := .text,
         about := "write encoded modules to this directory" }] }

/-- Processes the sample systems. -/
def demo : Task :=
  { name := "demo", operands := " [scenario]...",
    summary := "Process the built-in sample systems",
    description := "Process the built-in sample systems: " ++
      ", ".intercalate (Sample.scenarios.map (·.1)) ++ ".",
    flags :=
      [{ name := "dump", letter := some 'd', kind := .switch,
         about := "print the rewritten IL" },
       .help "demo", .interactive] }

/-- The tasks that do the program's work. -/
def all : List Task :=
  [process, dump, framework, demo]

/-- Explains a task. -/
def explain : Task :=
  { name := "help", operands := " [command]",
    summary := "Help about any command",
    description :=
      "Help provides help for any command in the application.\n" ++
      "Simply type " ++ program ++ " help [path to command] for full details.",
    flags := [.help "help"] }

/-- What scripts for shells have in common. -/
def forShell (shell about : String) : Task :=
  { name := shell, whole := some "completion", arity := .none,
    summary := "Generate the autocompletion script for " ++ shell,
    description := "Generate the autocompletion script for " ++ about,
    flags :=
      [.help shell,
       { name := "no-descriptions", kind := .switch,
         about := "disable completion descriptions" }] }

/-- The last words on most scripts. -/
def newShell : String :=
  "\n\nYou will need to start a new shell for this setup to take effect."

/-- Prints a script for bash. -/
def bash : Task :=
  let command := program ++ " completion bash"
  { forShell "bash" ("the bash shell.\n\n" ++
      "This script depends on the 'bash-completion' package.\n" ++
      "If it is not installed already, you can install it via your OS's package manager.\n\n" ++
      "To load completions in your current shell session:\n\n" ++
      "\tsource <(" ++ command ++ ")\n\n" ++
      "To load completions for every new session, execute once:\n\n" ++
      "#### Linux:\n\n\t" ++ command ++ " > /etc/bash_completion.d/" ++
        program ++
      "\n\n#### macOS:\n\n\t" ++ command ++
      " > $(brew --prefix)/etc/bash_completion.d/" ++ program ++ newShell) with
    tellsFlags := false }

/-- Prints a script for zsh. -/
def zsh : Task :=
  let command := program ++ " completion zsh"
  forShell "zsh" ("the zsh shell.\n\n" ++
    "If shell completion is not already enabled in your environment you will need\n" ++
    "to enable it.  You can execute the following once:\n\n" ++
    "\techo \"autoload -U compinit; compinit\" >> ~/.zshrc\n\n" ++
    "To load completions in your current shell session:\n\n" ++
    "\tsource <(" ++ command ++ ")\n\n" ++
    "To load completions for every new session, execute once:\n\n" ++
    "#### Linux:\n\n\t" ++ command ++ " > \"$\x7bfpath[1]\x7d/_" ++ program ++
    "\"\n\n#### macOS:\n\n\t" ++ command ++
    " > $(brew --prefix)/share/zsh/site-functions/_" ++ program ++ newShell)

/-- Prints a script for fish. -/
def fish : Task :=
  let command := program ++ " completion fish"
  forShell "fish" ("the fish shell.\n\n" ++
    "To load completions in your current shell session:\n\n" ++
    "\t" ++ command ++ " | source\n\n" ++
    "To load completions for every new session, execute once:\n\n" ++
    "\t" ++ command ++ " > ~/.config/fish/completions/" ++ program ++ ".fish" ++
      newShell)

/-- Prints a script for powershell. -/
def powershell : Task :=
  forShell "powershell" ("powershell.\n\n" ++
    "To load completions in your current shell session:\n\n" ++
    "\t" ++ program ++
      " completion powershell | Out-String | Invoke-Expression\n\n" ++
    "To load completions for every new session, add the output of the above command\n" ++
    "to your powershell profile.")

/-- The scripts for shells, ordered by name. -/
def scripts : List Task :=
  [bash, fish, powershell, zsh]

/-- Prints what a shell needs to complete command lines. -/
def completion : Task :=
  let script := "Generate the autocompletion script for "
  { name := "completion", summary := script ++ "the specified shell",
    description := script ++ program ++ " for the specified shell.\n" ++
      "See each sub-command's help for details on how to use the generated script.",
    flags := [.help "completion"],
    parts := scripts.map fun t => (t.name, t.summary) }

/-- The tasks that serve those who type commands. -/
def auxiliary : List Task :=
  [explain, completion]

/-- The task of a name. -/
def named? (name : String) : Option Task :=
  (all ++ auxiliary).find? (·.name == name)

/-- The part of a task of a name. -/
def part? (t : Task) (name : String) : Option Task :=
  scripts.find? fun p => p.whole == some t.name && p.name == name

/-! ## Names that are nearly right -/

/-- One more row of the table of distances: from the texts up to a byte to every
beginning of the other text. -/
def distanceRow (b : UInt8) : List UInt8 → List Nat → Nat → List Nat
  | d :: ds, corner :: above :: rest, left =>
    let here := if b == d then corner else min corner (min above left) + 1
    here :: distanceRow b ds (above :: rest) here
  | _, _, _ => []

/-- How many bytes must be put in, taken out or changed to make one text of
another. -/
def distance (s t : String) : Nat :=
  let bytes := t.toUTF8.toList
  let start := List.range (bytes.length + 1)
  let last := s.toUTF8.toList.foldl (fun row b =>
    let first := row.headD 0 + 1
    first :: distanceRow b bytes row first) start
  last.getLastD 0

/-- The tasks whose names are close to a text or begin with it, whatever the
case of its letters. -/
def similar (text : String) : List String :=
  let text := Text.lowered text
  ((all ++ auxiliary).map (·.name)).filter fun name =>
    distance text name ≤ 2 || name.startsWith text

/-- What is told of a task that is not there. -/
def unknown (text : String) : Failure :=
  let hints :=
    match similar text with
    | [] => ""
    | names => "\n\nDid you mean this?\n" ++
        String.join (names.map fun n => "\t" ++ n ++ "\n")
  .plain ("unknown command " ++ Text.quote text ++ " for " ++ Text.quote
    program ++ hints)

end Task

end JobWeave
