import MulticoreTasks.App.Core

/-!
# What can be wrong with an application

* `Diagnostic`    : a finding of one stage; all findings of all stages are reported together;
* `Inconsistency` : a contradiction between the outputs of the stages and the application; the first
  in a fixed order is reported, and only when no stage found anything;
* `Rejection`     : the answer to an application that is not accepted.

Each kind has one function `message` that words it.
-/

namespace MulticoreTasks

/-- A finding of one stage. -/
inductive Diagnostic where
  | unusedResource (resource : ResourceName)
  /-- Two accessors at one priority on different cores: neither can lock the other out. -/
  | crossCoreConflict (resource : ResourceName) (priority : Priority)
      (first : TaskName) (firstCore : Core) (second : TaskName) (secondCore : Core)
  | capacityZero (task sender : TaskName)
  | conflictingCapacity (task : TaskName) (core : Core) (first second : UInt8)
  | priorityOutOfRange (task : TaskName) (priority max : Priority)
  deriving DecidableEq, Repr

/-- The wording of a finding. -/
def Diagnostic.message : Diagnostic → String
  | unusedResource resource => s!"resource `{resource}` is never accessed"
  | crossCoreConflict resource priority first firstCore second secondCore =>
    s!"resource `{resource}` is accessed at priority {priority} " ++
      s!"by `{first}` ({firstCore.label}) and `{second}` ({secondCore.label}) " ++
      "but is not declared transferable"
  | capacityZero task sender => s!"`{sender}` spawns `{task}` with capacity 0"
  | conflictingCapacity task core first second =>
    s!"`{task}` is spawned from {core.label} with capacities {first} and {second}"
  | priorityOutOfRange task priority max =>
    s!"`{task}` uses priority {priority}, outside 1..={max}"

/-- A contradiction between the outputs of the stages and the application. -/
inductive Inconsistency where
  | unknownTask (task : TaskName) (receiver sender : Core)
  | misroutedTask (task : TaskName) (core : Core) (priority : Priority)
      (actualCore : Core) (actualPriority : Priority)
  | ceilingMismatch (resource : ResourceName)
  /-- The part of the analysis called `entity` names a core that the application does not have. -/
  | unknownCore (core : Core) (entity : String)
  | unknownAccessor (resource : ResourceName) (task : TaskName)
  | ceilingBelowAccessor (resource : ResourceName) (ceiling : Priority)
      (task : TaskName) (priority : Priority)
  | unknownResource (task : TaskName) (resource : ResourceName)
  deriving DecidableEq, Repr

/-- The wording of a contradiction. -/
def Inconsistency.message : Inconsistency → String
  | unknownTask task receiver sender =>
    s!"channel to {receiver.label} from {sender.label} references unknown task `{task}`"
  | misroutedTask task core priority actualCore actualPriority =>
    s!"task `{task}` runs on {actualCore.label} at priority {actualPriority} " ++
      s!"but is routed to {core.label} at priority {priority}"
  | ceilingMismatch resource => s!"ceiling of `{resource}` does not match its ownership"
  | unknownCore core entity => s!"{entity} references undeclared {core.label}"
  | unknownAccessor resource task =>
    s!"`{resource}` is accessed by `{task}`, which is not a declared task"
  | ceilingBelowAccessor resource ceiling task priority =>
    s!"ceiling {ceiling} of `{resource}` is below `{task}` at priority {priority}"
  | unknownResource task resource => s!"task `{task}` accesses undeclared resource `{resource}`"

/-- Why an application is not accepted. -/
inductive Rejection where
  | diagnostics (findings : List Diagnostic)
  | inconsistent (fault : Inconsistency)
  deriving DecidableEq, Repr

namespace Rejection

/-- The wording of a rejection: how many findings there are, or the contradiction itself. -/
def message : Rejection → String
  | diagnostics findings => s!"analysis found {findings.length} problem(s)"
  | inconsistent fault => fault.message

/-- The findings behind a rejection; a contradiction has none. -/
def findings : Rejection → List Diagnostic
  | diagnostics findings => findings
  | inconsistent _ => []

end Rejection

end MulticoreTasks
