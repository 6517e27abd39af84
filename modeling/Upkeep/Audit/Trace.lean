import Upkeep.Audit.Event

/-!
# Trace lines

Reports as records for a diagnostic log: a level, a message and named fields. A duration is a number
of milliseconds modulo `2 ^ 64`, and details are one line of JSON.
-/

namespace Upkeep

/-- The weight of a record. -/
inductive TraceLevel where
  | info | warn | error
  deriving DecidableEq

def TraceLevel.name : TraceLevel → String
  | .info => "INFO"
  | .warn => "WARN"
  | .error => "ERROR"

/-- A record of a diagnostic log. -/
structure TraceLine where
  level : TraceLevel
  operation : String
  message : String
  stage : Option String := none
  status : Option StepStatus := none
  kind : Option String := none
  details : Option Json := none
  millis : Option UInt64 := none

/-- The record of a report. Checkpoints and rollbacks are recorded as steps. -/
def Report.trace (operation : String) (r : Report) : TraceLine :=
  match r with
  | .timed stage status message d =>
    { level := .info, operation, message, stage := some stage, status := some status,
      millis := some d.millisWord }
  | .error kind message details =>
    { level := .error, operation, message, kind := some kind, details }
  | .warning message details => { level := .warn, operation, message, details }
  | .step stage status message =>
    { level := .info, operation, message, stage := some stage, status := some status }
  | .checkpoint name _ =>
    { level := .info, operation, message := "checkpoint created",
      stage := some ("checkpoint_" ++ name), status := some .completed }
  | .rollback name reason =>
    { level := .info, operation, message := reason, stage := some ("rollback_" ++ name),
      status := some .started }

def TraceLine.toJson (l : TraceLine) : Json :=
  .obj ([("level", .str l.level.name), ("operation_id", .str l.operation),
      ("message", .str l.message)] ++
    EventBody.optionalField "stage" (l.stage.map .str) ++
    EventBody.optionalField "status" (l.status.map fun s => .str s.name) ++
    EventBody.optionalField "kind" (l.kind.map .str) ++
    EventBody.optionalField "details" (l.details.map fun d => .str d.print) ++
    EventBody.optionalField "duration_ms" (l.millis.map .ofWord))

end Upkeep
