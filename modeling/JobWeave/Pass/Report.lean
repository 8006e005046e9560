import JobWeave.Diagnostic.Basic

/-!
# Reports

What the pass did to a module: the jobs it made and the diagnostics it raised,
in the order of the module's systems, methods and chains.
-/

namespace JobWeave

/-- A chain that was replaced. -/
structure JobEntry where
  /-- the system -/
  system : String
  /-- the method -/
  method : String
  /-- the job's struct -/
  struct : String
  /-- the shape of the job -/
  kind : String
  /-- how it is executed -/
  mode : String
  /-- it is compiled natively -/
  burst : Bool
  /-- its closure became a value type -/
  closureAsStruct : Bool := false
  deriving DecidableEq, Repr, Inhabited

/-- The outcome of a pass over a module. -/
structure Report where
  /-- the module's name -/
  module : String
  /-- the number of component systems -/
  systems : Int := 0
  /-- the replaced chains -/
  jobs : List JobEntry := []
  /-- the diagnostics -/
  diagnostics : List Diagnostic := []
  deriving DecidableEq, Repr, Inhabited

namespace Report

/-- The diagnostics that are errors. -/
def errors (r : Report) : List Diagnostic :=
  r.diagnostics.filter (·.severity == .error)

/-- Some diagnostic is an error. -/
def hasErrors (r : Report) : Bool :=
  r.diagnostics.any (·.severity == .error)

/-- The first error. -/
def firstError? (r : Report) : Option Diagnostic :=
  r.errors.head?

end Report

end JobWeave
