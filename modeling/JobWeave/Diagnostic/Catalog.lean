import JobWeave.Diagnostic.Basic
import JobWeave.Text.Template
import JobWeave.Body.Argument

/-!
# The catalog of diagnostics

Every code has a message template.  Codes that the catalog does not know show
their first argument.  Messages of internal codes ask for a report.

* `Catalog.entries` lists the codes with their templates in ascending order;
* `Diagnostic.ofCode` fills a template.
-/

namespace JobWeave

namespace Code

def dc0001 : Code := ⟨"DC0001"⟩
def dc0002 : Code := ⟨"DC0002"⟩
def dc0003 : Code := ⟨"DC0003"⟩
def dc0004 : Code := ⟨"DC0004"⟩
def dc0005 : Code := ⟨"DC0005"⟩
def dc0006 : Code := ⟨"DC0006"⟩
def dc0007 : Code := ⟨"DC0007"⟩
def dc0008 : Code := ⟨"DC0008"⟩
def dc0009 : Code := ⟨"DC0009"⟩
def dc0010 : Code := ⟨"DC0010"⟩
def dc0011 : Code := ⟨"DC0011"⟩
def dc0012 : Code := ⟨"DC0012"⟩
def dc0013 : Code := ⟨"DC0013"⟩
def dc0014 : Code := ⟨"DC0014"⟩
def dc0015 : Code := ⟨"DC0015"⟩
def dc0016 : Code := ⟨"DC0016"⟩
def dc0017 : Code := ⟨"DC0017"⟩
def dc0018 : Code := ⟨"DC0018"⟩
def dc0019 : Code := ⟨"DC0019"⟩
def dc0020 : Code := ⟨"DC0020"⟩
def dc0021 : Code := ⟨"DC0021"⟩
def dc0023 : Code := ⟨"DC0023"⟩
def dc0024 : Code := ⟨"DC0024"⟩
def dc0025 : Code := ⟨"DC0025"⟩
def dc0026 : Code := ⟨"DC0026"⟩
def dc0027 : Code := ⟨"DC0027"⟩
def dc0028 : Code := ⟨"DC0028"⟩
def dc0029 : Code := ⟨"DC0029"⟩
def dc0031 : Code := ⟨"DC0031"⟩
def dc0032 : Code := ⟨"DC0032"⟩
def dc0033 : Code := ⟨"DC0033"⟩
def dc0034 : Code := ⟨"DC0034"⟩
def dc0035 : Code := ⟨"DC0035"⟩
def dc0036 : Code := ⟨"DC0036"⟩
def dc0037 : Code := ⟨"DC0037"⟩
def dc0038 : Code := ⟨"DC0038"⟩
def dc0043 : Code := ⟨"DC0043"⟩
def dc0044 : Code := ⟨"DC0044"⟩
def dc0045 : Code := ⟨"DC0045"⟩
def dc0046 : Code := ⟨"DC0046"⟩
def dc0047 : Code := ⟨"DC0047"⟩
def dcice001 : Code := ⟨"DCICE001"⟩
def dcice002 : Code := ⟨"DCICE002"⟩
def dcice003 : Code := ⟨"DCICE003"⟩
def dcice004 : Code := ⟨"DCICE004"⟩
def dcice005 : Code := ⟨"DCICE005"⟩
def dcice006 : Code := ⟨"DCICE006"⟩
def dcice007 : Code := ⟨"DCICE007"⟩
def dcice008 : Code := ⟨"DCICE008"⟩

end Code

namespace Catalog

/-- The codes and their templates, in ascending order. -/
def entries : List (Code × String) := [
  (.dc0001,
    "Entities.ForEach Lambda expression uses field '%v'. Either assign the " ++
    "field to a local outside of the lambda expression and use that " ++
    "instead, or use .WithoutBurst() and .Run()"),
  (.dc0002,
    "Entities.ForEach Lambda expression invokes '%v' on a %v which is a " ++
    "reference type. This is only allowed with .WithoutBurst() and .Run()."),
  (.dc0003, "The name '%v' is already used in this system."),
  (.dc0004,
    "Entities.ForEach Lambda expression captures a non-value type '%v'. " ++
    "This is only allowed with .WithoutBurst() and .Run()"),
  (.dc0005,
    "Entities.ForEach Lambda expression parameter '%v' with type %v is not " ++
    "supported"),
  (.dc0006, "Scheduling an Entities query requires a .ForEach invocation"),
  (.dc0007,
    "Unexpected code structure in Entities/Job invocation. Make sure the " ++
    "chain ends in .Schedule(), .ScheduleParallel() or .Run()."),
  (.dc0008, "The argument to %v needs to be a literal value."),
  (.dc0009, "%v is only allowed to be called once."),
  (.dc0010,
    "The Entities.ForEach statement contains dynamic code that cannot be " ++
    "statically analyzed."),
  (.dc0011,
    "Every Entities.ForEach statement needs to end with a .Schedule(), " ++
    ".ScheduleParallel() or .Run() invocation."),
  (.dc0012,
    "Entities.%v is called with an invalid argument. You can only use " ++
    "captured local variables as arguments."),
  (.dc0013,
    "Entities.ForEach Lambda expression writes to captured variable '%v'. " ++
    "This is only supported when you use .Run()."),
  (.dc0014,
    "Entities.ForEach Lambda expression parameter '%v' is not a supported " ++
    "parameter. Supported parameter names are %v"),
  (.dc0015,
    "Entities.ForEach will never run because it both requires and excludes " ++
    "%v"),
  (.dc0016, "Entities.ForEach lists both WithAny and WithNone %v"),
  (.dc0017, "Scheduling a Job requires a .WithCode invocation"),
  (.dc0018, "Scheduling a Chunks query requires a .ForEach invocation"),
  (.dc0019,
    "Entities.ForEach uses ISharedComponentData %v. This is only supported " ++
    "when using .WithoutBurst() and .Run()"),
  (.dc0020,
    "ISharedComponentData %v is passed by reference to Entities.ForEach. " ++
    "Please pass it by value or with in."),
  (.dc0021,
    "parameter '%v' has type %v. This type is not a IComponentData / " ++
    "ISharedComponentData and is therefore not a supported parameter type " ++
    "for Entities.ForEach."),
  (.dc0023,
    "Entities.ForEach uses managed IComponentData %v. This is only " ++
    "supported when using .WithoutBurst() and .Run()."),
  (.dc0024,
    "Entities.ForEach uses managed IComponentData %v by ref. To get write " ++
    "access, receive it without the ref modifier."),
  (.dc0025, "%v"),
  (.dc0026, "%v"),
  (.dc0027,
    "Entities.ForEach Lambda expression makes a structural change. Use an " ++
    "EntityCommandBuffer to make structural changes or add a " ++
    ".WithStructuralChanges invocation to the Entities.ForEach to allow " ++
    "for structural changes."),
  (.dc0028,
    "Entities.ForEach Lambda expression makes a structural change, which " ++
    "is only allowed with .Run()."),
  (.dc0029,
    "Entities.ForEach Lambda expression has a nested Entities.ForEach " ++
    "Lambda expression. Only a single Entities.ForEach Lambda expression " ++
    "is currently supported."),
  (.dc0031,
    "Entities.WithStoreEntityQueryInField must be passed a field of the " ++
    "containing system."),
  (.dc0032,
    "Entities.ForEach is used in system %v which has [ExecuteAlways]. This " ++
    "is not supported and the job will run only when the system updates " ++
    "normally."),
  (.dc0033,
    "parameter '%v' has type %v. This type is an IBufferElementData and " ++
    "has to be received as DynamicBuffer<%[2]v>."),
  (.dc0034,
    "Entities.WithReadOnly is called with an argument %v of unsupported " ++
    "type %v. It can only be called with an argument that is marked with " ++
    "[NativeContainerAttribute] or a type that has a field marked with " ++
    "[NativeContainerAttribute]."),
  (.dc0035,
    "Entities.WithDeallocateOnJobCompletion is called with an argument %v " ++
    "of unsupported type %v. It can only be called with an argument that " ++
    "is marked with " ++
    "[NativeContainerSupportsDeallocateOnJobCompletionAttribute] or a type " ++
    "that has a field marked with it."),
  (.dc0036,
    "Entities.WithNativeDisableContainerSafetyRestriction is called with " ++
    "an argument %v of unsupported type %v. It can only be called with an " ++
    "argument that is marked with [NativeContainerAttribute] or a type " ++
    "that has a field marked with [NativeContainerAttribute]."),
  (.dc0037,
    "Entities.WithNativeDisableParallelForRestriction is called with an " ++
    "argument %v of unsupported type %v. It can only be called with an " ++
    "argument that is marked with [NativeContainerAttribute] or a type " ++
    "that has a field marked with [NativeContainerAttribute]."),
  (.dc0038,
    "Entities.%v is called with an argument %v. Only captured local " ++
    "variables can be used with this modifier, not fields of user types."),
  (.dc0043,
    "The name '%v' passed to WithName is invalid. Names may contain only " ++
    "letters, digits and underscores, may not start with a digit and may " ++
    "not contain double underscores."),
  (.dc0044,
    "Entities.ForEach can only be used with an inline lambda. Calling it " ++
    "with a delegate stored in a variable, field or returned from a method " ++
    "is not supported."),
  (.dc0045,
    "Entities.ForEach calls %v with an argument that depends on branching " ++
    "code. Only a single straight-line expression is supported as an " ++
    "argument."),
  (.dc0046,
    "Entities.ForEach uses %v with write access for type %v, which is also " ++
    "a parameter of the lambda. Access the component through the parameter " ++
    "instead."),
  (.dc0047,
    "Entities.ForEach uses %v for type %v, which is also a parameter of " ++
    "the lambda taken by ref. Receive the parameter with in or by value " ++
    "instead."),
  (.dcice001,
    "Entities.ForEach Lambda expression uses something from its outer " ++
    "class. This is not supported."),
  (.dcice002,
    "Unable to find ldftn and newobj pair that creates the delegate for " ++
    "the invocation of %v."),
  (.dcice003, "Could not find the parameter %v of %v in the job struct."),
  (.dcice004, "Unexpected operand type %v while cloning the lambda body."),
  (.dcice005, "Could not resolve %v."),
  (.dcice006,
    "The constructor of display class %v is not followed by a store to a " ++
    "local variable."),
  (.dcice007,
    "Could not find the captured variable that corresponds to the argument " ++
    "of %v."),
  (.dcice008, "Replacing %v changed the stack effect from %d to %d.")]

/-- The template of a code. -/
def template? (c : Code) : Option String :=
  (entries.find? (·.1 == c)).map (·.2)

/-- What messages of internal codes end with. -/
def internalSuffix : String :=
  " Seeing this error indicates a bug in the lambda job post-processor. " ++
    "Please file a bug report."

/-- The message of a code.  A template without places takes no arguments. -/
def message (c : Code) (args : List Text.Arg) : String :=
  let t := (template? c).getD "%v"
  let filled := if t.contains '%' then Text.Template.fill t args else t
  if c.isInternal then filled ++ internalSuffix else filled

/-- One code only warns. -/
def severity (c : Code) : Severity :=
  if c = .dc0032 then .warning else .error

end Catalog

/-- The source position of an instruction, or of the body's first visible
sequence point. -/
def Location.inBody (b : Option Body) (l : Option Label) : Location :=
  match b.bind (·.visiblePoint? l) with
  | some p => { file := p.document, line := p.line, column := p.column }
  | none => {}

/-- The diagnostic of a code. -/
def Diagnostic.ofCode (c : Code) (method : String) (location : Location)
    (args : List Text.Arg) : Diagnostic :=
  { code := c, message := Catalog.message c args, method, location,
    severity := Catalog.severity c }

/-- The diagnostic of a failure that no code describes.  `name` is how the
message calls the method. -/
def Diagnostic.unexpected (name method : String) (location : Location)
    (cause : String) : Diagnostic :=
  { method, location,
    message :=
      "Unexpected error while post-processing " ++ name ++
        ". Please report this error.\n" ++ cause }

end JobWeave
