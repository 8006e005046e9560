import JobWeave.Command.Config
import JobWeave.Command.Help

/-!
# Command lines

A command line names a task.  Flags may stand anywhere, before or after the name
of the task; some take a value, behind an equals sign or as the next argument,
and two dashes end them.  `Request.ofArgs` reads a command line, and
`Invocation.configure` puts its flags over the settings of a file.
-/

namespace JobWeave

/-- A command line. -/
structure Invocation where
  /-- the task -/
  task : Task
  /-- the arguments that are no flags -/
  arguments : List String := []
  /-- the flags with their values in order -/
  flags : List (Flag × String) := []
  deriving Repr, Inhabited

namespace Invocation

/-! ## Reading -/

/-- The flag takes the next argument as its value.  So does one that is not
known, while the name of the task is sought. -/
def takesNext (known : List Flag) (arg : String) : Bool :=
  let isText := fun (p : Flag → Bool) => (known.find? p).all (·.kind != .switch)
  if arg.contains '=' then false
  else
    match arg.toList with
    | '-' :: '-' :: name => isText (·.name == String.ofList name)
    | ['-', c] => c.toNat < 128 && isText (·.letter == some c)
    | _ => false

/-- Takes the name of the task out of the arguments.  Empty arguments are passed
over. -/
def splitTask : List String → Option (String × List String)
  | [] => none
  | "--" :: _ => none
  | a :: rest =>
    if a = "" || a.startsWith "-" then
      match takesNext Flag.shared a, rest with
      | true, v :: rest => (splitTask rest).map fun (t, as) => (t, a :: v :: as)
      | _, rest => (splitTask rest).map fun (t, as) => (t, a :: as)
    else some (a, rest)

/-- The task that the arguments name, or a part of it if they name one, with the
other arguments. -/
def findTask (args : List String) :
    Except Failure (Option (Task × List String)) :=
  match splitTask args with
  | none => .ok none
  | some (name, rest) =>
    match Task.named? name with
    | none => .error (Task.unknown name)
    | some task =>
      let part := (splitTask rest).bind fun (name, rest) =>
        (task.part? name).map fun p => (p, rest)
      .ok (some (part.getD (task, rest)))

/-- Adds a flag with its value. -/
def addFlag (i : Invocation) (f : Flag) (value : String) :
    Except Failure Invocation := do
  f.check value
  return { i with flags := i.flags ++ [(f, value)] }

/-- A letter between quotes as messages about flags show it.  Letters beyond
ASCII are shown by the first byte of their code. -/
def letterText (c : Char) : String :=
  let shown := if c.toNat < 128 then c else Char.ofNat 0xc3
  String.ofList ('\'' :: Text.Quoted.escapeIn '\'' false shown ++ ['\''])

/-- The flags behind one dash.  A letter that takes a value takes the rest, or
else the next argument.  What is meant for tests is passed over. -/
def readLetters (known : List Flag) (next : Option String) :
    List Char → Invocation → Except Failure (Invocation × Bool)
  | [], i => .ok (i, false)
  | c :: cs, i =>
    let place := letterText c ++ " in -" ++ String.ofList (c :: cs)
    if "test.".toList.isPrefixOf (c :: cs) then .ok (i, false)
    else
      match known.find? (·.letter == some c) with
      | none => .error (.plain ("unknown shorthand flag: " ++ place))
      | some f =>
        match cs with
        | '=' :: v :: value => do
          return (← i.addFlag f (String.ofList (v :: value)), false)
        | cs =>
          if f.kind == .switch then do
            readLetters known next cs (← i.addFlag f "true")
          else if !cs.isEmpty then do
            return (← i.addFlag f (String.ofList cs), false)
          else
            match next with
            | some v => do return (← i.addFlag f v, true)
            | none => .error (.plain ("flag needs an argument: " ++ place))

/-- A flag behind two dashes, and whether it takes the next argument. -/
def readLong (known : List Flag) (body : String) (next : Option String)
    (i : Invocation) : Except Failure (Invocation × Bool) :=
  let name := (body.splitOn "=").headD ""
  match known.find? (·.name == name) with
  | none =>
    if name = "" || name.startsWith "-" then
      .error (.plain ("bad flag syntax: --" ++ body))
    else .error (.plain ("unknown flag: --" ++ name))
  | some f =>
    if body.contains '=' then do
      return (← i.addFlag f (body.drop (name.length + 1)).toString, false)
    else if f.kind == .switch then do return (← i.addFlag f "true", false)
    else
      match next with
      | some v => do return (← i.addFlag f v, true)
      | none => .error (.plain ("flag needs an argument: --" ++ name))

/-- Reads the flags among the arguments. -/
def readFlags (known : List Flag) : List String → Invocation →
    Except Failure Invocation
  | [], i => .ok i
  | a :: rest, i =>
    if a == "--" then .ok { i with arguments := i.arguments ++ rest }
    else if a == "-" || !a.startsWith "-" then
      readFlags known rest { i with arguments := i.arguments ++ [a] }
    else
      let read :=
        if a.startsWith "--" then readLong known (a.drop 2).toString
          rest.head? i
        else readLetters known rest.head? (a.toList.drop 1) i
      match read, rest with
      | .error f, _ => .error f
      | .ok (i, true), _ :: rest => readFlags known rest i
      | .ok (i, _), rest => readFlags known rest i
termination_by args => args.length

/-- The last value of a flag. -/
def value? (i : Invocation) (name : String) : Option String :=
  (i.flags.reverse.find? (·.1.name == name)).map (·.2)

/-- A switch, off unless it is given. -/
def isOn (i : Invocation) (name : String) : Bool :=
  ((i.value? name).bind Flag.readSwitch?).getD false

end Invocation

/-- What a command line asks for. -/
inductive Request where
  /-- to do a task -/
  | perform (i : Invocation)
  /-- to explain something -/
  | explain (text : String)

namespace Request

/-- Reads a command line that names no task. -/
def ofFlags (args : List String) : Except Failure Request := do
  let _ ← Invocation.readFlags (Flag.help Task.program :: Flag.shared) args
    { task := default }
  return explain Task.programHelp

/-- Reads the flags of a task.  Help comes before everything else that is asked,
and is all that a task with tasks below it can do. -/
def ofTask (task : Task) (args : List String) : Except Failure Request := do
  let i ← Invocation.readFlags (task.flags ++ Flag.shared) args { task }
  if i.isOn "help" || !task.parts.isEmpty then return explain task.helpText
  task.arity.check task.path i.arguments
  return perform i

/-- Reads a command line. -/
def ofArgs (args : List String) : Except Failure Request :=
  match Invocation.findTask args with
  | .ok (some (task, rest)) => ofTask task rest
  | .ok none => ofFlags args
  | .error f => .error f

end Request

namespace Invocation

/-! ## Flags -/

/-- The help on the task that the arguments name.  There is none on what is no
task. -/
def topic (i : Invocation) : String :=
  match findTask i.arguments with
  | .ok (some (task, _)) => task.helpText
  | .ok none => Task.programHelp
  | .error _ => ""

/-- All values of a flag that can be given more than once. -/
def values (i : Invocation) (name : String) : List String :=
  (i.flags.filter (·.1.name == name)).flatMap fun (_, v) =>
    (Flag.readTexts v).toOption.getD []

/-- The modules that are referred to. -/
def references (i : Invocation) : List String :=
  i.values "ref"

/-- The file of the settings, or empty for the default one. -/
def configFile (i : Invocation) : String :=
  (i.value? "config").getD ""

/-- The files that the task reads. -/
def files (i : Invocation) : List String :=
  (if i.configFile = "" then Config.defaultFile else i.configFile) ::
    i.references ++
    (if i.task == .process || i.task == .dump then i.arguments else [])

/-- Puts the flags over the settings. -/
def configure (i : Invocation) (c : Config) : Config :=
  let switch := fun (name : String) (old : Bool) =>
    ((i.value? name).bind Flag.readSwitch?).getD old
  { verify := switch "verify" c.verify
    keepUnprocessed := switch "keep-original" c.keepUnprocessed
    maxChains := ((i.value? "max-chains").bind fun v =>
      (Numeral.integer v.toList).toOption).getD c.maxChains
    noStructs := switch "no-closure-structs" c.noStructs
    format := (i.value? "format").getD c.format
    color := (i.value? "color").getD c.color
    directory := (i.value? "out").getD c.directory
    level := if i.isOn "verbose" then "debug"
      else (i.value? "log-level").getD c.level }

end Invocation

end JobWeave
