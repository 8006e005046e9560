import JobWeave.Workspace.Weave
import JobWeave.Framework.Library

/-!
# Worlds to start from

A world over some modules resolves against them in order, the framework's
modules coming last.
-/

namespace JobWeave.World

/-- A world whose universe is exactly the given modules. -/
def ofModules (ms : List Module) : World × List ModuleId :=
  let (workspace, ids) := ({} : Workspace).loadAll ms
  ({ workspace, resolver := .ofModules workspace ids }, ids)

/-- A world over a module, the modules it refers to, and the framework. -/
def withFramework (m : Module) (references : List Module) :
    World × Option ModuleId :=
  let (w, ids) := ofModules (m :: references ++ Framework.modules)
  (w, ids.head?)

/-- The framework alone. -/
def framework : World :=
  (ofModules Framework.modules).1

end JobWeave.World
