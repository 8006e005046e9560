import JobWeave.Command.Run

/-!
# The command line

Reads the files that a command line names, runs it, writes what it wrote and
prints what it printed.  The exit code is 1 when it failed.
-/

namespace JobWeave

/-- The contents of the files that can be read. -/
def readFiles (names : List String) : IO (List (String × List UInt8)) := do
  let found ← names.mapM fun (name : String) => do
    try
      return [(name, (← IO.FS.readBinFile name).toList)]
    catch _ => return []
  return found.flatten

/-- Writes a file and the directories on the way to it. -/
def writeFile (name : String) (data : List UInt8) : IO Unit := do
  let parent := "/".intercalate (name.splitOn "/").dropLast
  if parent != "" then IO.FS.createDirAll parent
  IO.FS.writeBinFile name ⟨data.toArray⟩

/-- The files that a command line reads. -/
def filesOf (args : List String) : List String :=
  match Request.ofArgs args with
  | .ok (.perform i) => i.files
  | _ => []

/-- Runs a command line and gives the exit code. -/
def runMain (args : List String) : IO UInt32 := do
  let files ← readFiles (filesOf args)
  match Request.runArgs args fun n => (files.find? (·.1 == n)).map (·.2) with
  | .error stop =>
    let why :=
      match stop with
      | .fault text => text.getD "unexpected fault"
      | .failed f => f.message
    IO.eprintln ("Error: " ++ why)
    return 1
  | .ok done => do
    done.written.forM fun (name, data) => writeFile name data
    (← IO.getStdout).write ⟨done.output.toArray⟩
    match done.failure with
    | none => return 0
    | some f =>
      if f != Finished.failedReport then IO.eprintln ("Error: " ++ f.message)
      return 1

end JobWeave

/-- The command line. -/
def main (args : List String) : IO UInt32 :=
  JobWeave.runMain args
