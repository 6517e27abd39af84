import Upkeep.Json.Printer
import Upkeep.Operation.Priority
import Upkeep.Time.Rfc3339

/-!
# Audit events

What happens to an operation is reported step by step, and a report becomes an event of the audit
trail. An event as JSON is one object: the time, the operation, the name of the variant, and the
variant's own fields, of which those without a value are left out.
-/

namespace Upkeep

/-- How far a step is. -/
inductive StepStatus where
  | started | completed | failed | warning
  deriving DecidableEq, Inhabited

namespace StepStatus

def all : List StepStatus := [started, completed, failed, warning]

def name : StepStatus → String
  | started => "started"
  | completed => "completed"
  | failed => "failed"
  | warning => "warning"

def ofName? (s : String) : Option StepStatus := all.find? (·.name = s)

end StepStatus

/-- What is told to a sink. -/
inductive Report where
  | step (stage : String) (status : StepStatus) (message : String)
  | timed (stage : String) (status : StepStatus) (message : String) (duration : Duration)
  | error (kind message : String) (details : Option Json)
  | warning (message : String) (details : Option Json)
  | checkpoint (name : String) (state : Json)
  | rollback (checkpoint reason : String)

/-- What an event says. -/
inductive EventBody where
  | step (stage : String) (status : StepStatus) (details : Option String)
    (seconds : Option Binary64)
  | error (kind message : String) (context : Option Json)
  | warning (message : String) (context : Option Json)
  | checkpoint (name : String) (state : Json)
  | rollback (checkpoint reason : String)

/-- An entry of the audit trail. -/
structure Event where
  time : Timestamp
  operation : String
  body : EventBody

/-! ## From reports to events -/

/-- An empty message is no detail. -/
def detail? (message : String) : Option String := if message.isEmpty then none else some message

/-- The event of a report, with all that the report says. -/
def Report.record : Report → EventBody
  | .step stage status message => .step stage status (detail? message) none
  | .timed stage status message d => .step stage status (detail? message) (some d.centiseconds)
  | .error kind message details => .error kind message details
  | .warning message details => .warning message details
  | .checkpoint name state => .checkpoint name state
  | .rollback name reason => .rollback name reason

/-- The report in terms of steps, errors and warnings alone: durations and states are lost. -/
def Report.simplify : Report → Report
  | .timed stage status message _ => .step stage status message
  | .checkpoint name _ => .step ("checkpoint_" ++ name) .completed "checkpoint created"
  | .rollback name reason => .step ("rollback_" ++ name) .started reason
  | r => r

namespace EventBody

/-! ## Events as JSON -/

def variant : EventBody → String
  | step .. => "step"
  | error .. => "error"
  | warning .. => "warning"
  | checkpoint .. => "checkpoint"
  | rollback .. => "rollback"

/-- A field that is left out if it has no value. -/
def optionalField (key : String) (v : Option Json) : List (String × Json) :=
  (v.map (key, ·)).toList

def fields : EventBody → List (String × Json)
  | step stage status details seconds =>
    [("step", .str stage), ("status", .str status.name)] ++
      optionalField "details" (details.map .str) ++
      optionalField "duration_seconds" (seconds.map .ofReal)
  | error kind message context =>
    [("error_type", .str kind), ("error_message", .str message)] ++
      optionalField "context" context
  | warning message context =>
    ("warning_message", .str message) :: optionalField "context" context
  | checkpoint name state => [("checkpoint_name", .str name), ("state", state)]
  | rollback name reason => [("from_checkpoint", .str name), ("reason", .str reason)]

end EventBody

namespace Event

/-- The event without its time. -/
def untimedFields (e : Event) : List (String × Json) :=
  ("operation_id", .str e.operation) :: ("event", .str e.body.variant) :: e.body.fields

def toJson (e : Event) : Json := .obj (("timestamp", .str e.time.print) :: e.untimedFields)

/-- The line of an event in a journal, without its end. -/
def line (e : Event) : List Char := e.toJson.render

end Event

end Upkeep
