import JobWeave.Command.Arguments
import JobWeave.Command.FileReport
import JobWeave.Command.Path
import JobWeave.Pass.Transform
import JobWeave.Sample.Scenario
import JobWeave.Listing

/-!
# Tasks

What each task prints, which files it writes and how it ends, from a command
line and the contents of the files it reads.

* `process` runs the pass on modules, in place or into a directory; a module
  with errors is not written;
* `dump` prints the code of a module;
* `framework` lists the framework's modules or writes them;
* `demo` processes the sample systems;
* `help` explains a task;
* the scripts for shells are explained, not written.
-/

namespace JobWeave

/-- What a task printed and wrote, and why it failed. -/
structure Finished where
  /-- what it printed -/
  output : List UInt8 := []
  /-- the files it wrote -/
  written : List (String × List UInt8) := []
  /-- why it failed -/
  failure : Option Failure := none

namespace Finished

/-- The failure of a run whose report tells the rest. -/
def failedReport : Failure :=
  .plain "processing failed"

/-- Prints a text. -/
def print (f : Finished) (s : String) : Finished :=
  { f with output := f.output ++ s.toUTF8.toList }

/-- Ends with the reports in a format. -/
def report (f : Finished) (c : Config) (rs : List FileReport) :
    Outcome Finished := do
  let text ← FileReport.render c.format rs
  return { f with
    output := f.output ++ text,
    failure := if rs.any (·.failed) then some failedReport else none }

/-- A failure ends the task; what was printed before it stays. -/
def orFailure (f : Finished) : Outcome Finished → Outcome Finished
  | .error (.failed why) => .ok { f with failure := some why }
  | other => other

end Finished

/-- The contents of files. -/
abbrev Directory := String → Option (List UInt8)

namespace Directory

/-- A module that passes validation. -/
def readModule (d : Directory) (file : String) : Except Failure Module :=
  match d file with
  | none => .error (Config.missingFile .load file)
  | some data =>
    match Codec.decodeValid data with
    | .ok m => .ok m
    | .error f => .error (.caused
        { phase := .decode, kind := .invalidData, detail := file } f)

end Directory

namespace Invocation

/-- The end of encoded modules' names. -/
def moduleSuffix : String := ".ilm"

/-- One file of a run: its report and what is written. -/
def processFile (c : Config) (d : Directory) (references : List Module)
    (file : String) : Outcome (FileReport × List (String × List UInt8)) := do
  match d.readModule file with
  | .error f => return ({ file, error := f.message }, [])
  | .ok m =>
    let p ← processModule c.settings m references
    if let .error f := p.result then
      return ({ file, result := some p.report, error := f.message }, [])
    if p.report.hasErrors then return ({ file, result := some p.report }, [])
    let output :=
      if c.directory = "" then file else Path.join c.directory (Path.base file)
    return ({ file, output, result := some p.report },
      [(output, ← Codec.encode p.module)])

/-- Runs the pass on modules. -/
def process (i : Invocation) (c : Config) (d : Directory) :
    Outcome Finished := do
  match i.references.mapM d.readModule with
  | .error f => return { failure := some f }
  | .ok references =>
    let done ← i.arguments.mapM (processFile c d references)
    ({ written := done.flatMap (·.2) } : Finished).report c (done.map (·.1))

/-- The methods of a type and the types nested in it, with their full names. -/
def namedMethods (m : Module) : List (String × MethodDef) :=
  m.allTypes.flatMap fun (name, t) => t.methods.map
    fun d => (name ++ "::" ++ d.name, d)

/-- Prints the code of a module. -/
def dump (i : Invocation) (d : Directory) : Outcome Finished := do
  match d.readModule (i.arguments.headD "") with
  | .error f => return { failure := some f }
  | .ok m =>
    let start := ({} : Finished).print (FileReport.title m.name ++ "\n")
    match (i.value? "method").getD "" with
    | "" => return start.print (← Outcome.need m.listing?)
    | wanted =>
      let found := (namedMethods m).filter fun e => 1 <
        (e.1.splitOn wanted).length
      if found.isEmpty then
        return { start with
          failure := some (.detailed (.notFound .load wanted)) }
      return start.print (String.join (← found.mapM fun e =>
        Outcome.need (Listing.method? "" e.2)))

/-- Lists the framework's modules or writes them. -/
def framework (c : Config) : Outcome Finished := do
  if c.directory = "" then
    return ({} : Finished).print (String.join (Framework.modules.map fun m =>
      FileReport.title m.name ++ "\n" ++
        String.join (m.allTypes.map fun t => "  " ++ t.1 ++ "\n")))
  let written ← Framework.modules.mapM fun m => do
    return (Path.join c.directory (m.name ++ moduleSuffix), ← Codec.encode m)
  return { written }

/-- Processes sample systems, printing the code of each if that is wanted. -/
def demoOver (i : Invocation) (c : Config) :
    List String → List FileReport → Finished → Outcome Finished
  | [], reports, f => f.report c reports
  | name :: names, reports, f =>
    match (Sample.scenarios.find? (·.1 == name)).map (·.2) with
    | none =>
      let why := Failure.detailed (.notFound .load ("scenario " ++ name))
      .ok { f with failure := some why }
    | some (moduleName, act) => do
      let p ← processModule c.settings (← Sample.build moduleName act) []
      match p.result with
      | .error why => return { f with failure := some why }
      | .ok _ => do
        let text ←
          if i.isOn "dump" then Outcome.need p.module.listing? else pure ""
        demoOver i c names
          (reports ++ [{ file := name, result := some p.report }])
            (f.print text)

/-- Processes the sample systems that are named, or all of them. -/
def demo (i : Invocation) (c : Config) : Outcome Finished :=
  let names := if i.arguments.isEmpty then Sample.scenarios.map (·.1)
    else i.arguments
  demoOver i c names [] {}

/-- Runs the task of a command line. -/
def run (i : Invocation) (d : Directory) : Outcome Finished := do
  match Config.load i.configFile d with
  | .error f => return { failure := some f }
  | .ok c =>
    let c := i.configure c
    match c.validate with
    | .error f => return { failure := some f }
    | .ok _ =>
      ({} : Finished).orFailure
        (if i.task == .process then i.process c d
        else if i.task == .dump then i.dump d
        else if i.task == .framework then framework c
        else if i.task == .demo then i.demo c
        else if i.task == .explain then .ok (({} : Finished).print i.topic)
        else .ok (({} : Finished).print i.task.helpText))

end Invocation

/-- Runs a command line on the contents of files. -/
def Request.runArgs (args : List String) (d : Directory) : Outcome Finished :=
  match Request.ofArgs args with
  | .error f => .ok { failure := some f }
  | .ok (.explain text) => .ok (({} : Finished).print text)
  | .ok (.perform i) => i.run d

end JobWeave
