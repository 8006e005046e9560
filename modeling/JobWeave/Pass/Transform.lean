import JobWeave.Codec.Decode
import JobWeave.Codec.Encode
import JobWeave.Pass.Run

/-!
# The pass on encoded modules

`processModule` runs the pass on a module on its own, and `transform` decodes a
module, processes it and encodes the result.  A module whose report has errors
is not encoded: the bytes that were given are then still the module to ship.
-/

namespace JobWeave

/-- A module after the pass, with the report and the failure of the pass as a
whole. -/
structure Processed where
  /-- the module as the pass left it -/
  module : Module
  /-- what was done -/
  report : Report
  /-- the failure of the pass as a whole -/
  result : Except Failure Unit

/-- Runs the pass on a module with the modules it refers to and the
framework. -/
def processModule (s : Settings) (m : Module) (references : List Module) :
    Outcome Processed := do
  let (world, home?) := World.withFramework m references
  let home ← Outcome.need home?
  match Weave.process s home world with
  | .ok (report, result) w =>
    return { module := w.workspace.module home, report, result }
  | .error e _ => throw e

/-- What a run over an encoded module gave. -/
structure Transformed where
  /-- the encoded module, unless something failed -/
  output : Option (List UInt8) := none
  /-- what was done, unless the module could not be read -/
  report : Option Report := none
  /-- the failure of the run as a whole -/
  result : Except Failure Unit := .ok ()

/-- Decodes a module, processes it and encodes it again. -/
def transform (s : Settings) (data : List UInt8) (references : List Module) :
    Outcome Transformed := do
  match Codec.decodeValid data with
  | .error f =>
    return { result := .error (.caused
      { phase := .decode, kind := .invalidData, detail := "decode module" } f) }
  | .ok m =>
    let p ← processModule s m references
    if let .error f := p.result then
      return { report := some p.report, result := .error f }
    if p.report.hasErrors then return { report := some p.report }
    match Codec.encode p.module with
    | .ok out => return { output := some out, report := some p.report }
    | .error (.failed f) =>
      return { report := some p.report, result := .error (.caused
        { phase := .encode, kind := .internal, detail := "encode module" } f) }
    | .error e => throw e

end JobWeave
