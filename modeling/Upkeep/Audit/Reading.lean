import Upkeep.Audit.Event
import Upkeep.Json.Tree

/-!
# Reading audit events

An event may have its fields in any order and fields of other names. The fields that belong to it
may not be repeated, and an optional field may be null. The variant is given by its name or by its
number in the order of the variants.
-/

namespace Upkeep

open Json (Tree)

namespace Event

/-- The variants in order. -/
def variants : List String := ["step", "error", "warning", "checkpoint", "rollback"]

/-- The name of a variant that is given by name or number. -/
def variant? (t : Tree) : Option String :=
  match t with
  | .text _ => do
    let s ← t.str?
    if s ∈ variants then some s else none
  | _ => do variants[← t.natBelow? variants.length]?

/-- A status: its name, or an object with the name over null or an empty object. -/
def status? (t : Tree) : Option StepStatus :=
  match t with
  | .obj [(k, .obj [])] => do StepStatus.ofName? (← Tree.string? k)
  | _ => do StepStatus.ofName? (← t.alternative?)

/-- A field that may be missing or null. -/
def nullable? {α : Type} (read : Tree → Option α) (fs : List (String × Tree)) (key : String) :
    Option (Option α) :=
  match Tree.optional? fs key with
  | none => none
  | some none => some none
  | some (some .null) => some none
  | some (some t) => some <$> read t

def text? (fs : List (String × Tree)) (key : String) : Option String := do
  (← Tree.required? fs key).str?

/-- The fields of a variant. -/
def body? (fs : List (String × Tree)) (variant : String) : Option EventBody :=
  match variant with
  | "step" => do
    return .step (← text? fs "step") (← status? (← Tree.required? fs "status"))
      (← nullable? Tree.str? fs "details") (← nullable? Tree.real? fs "duration_seconds")
  | "error" => do
    return .error (← text? fs "error_type") (← text? fs "error_message")
      (← nullable? Tree.value? fs "context")
  | "warning" => do
    return .warning (← text? fs "warning_message") (← nullable? Tree.value? fs "context")
  | "checkpoint" => do
    return .checkpoint (← text? fs "checkpoint_name") (← (← Tree.required? fs "state").value?)
  | "rollback" => do
    return .rollback (← text? fs "from_checkpoint") (← text? fs "reason")
  | _ => none

/-- The event of a document. All of the document must denote a value, also the fields that are
passed over. -/
def ofTree? (t : Tree) : Option Event := do
  if Tree.maxDepth < t.depth then none
  let _ ← t.value?
  let fs ← t.fields?
  let time ← Timestamp.read? (← text? fs "timestamp")
  let operation ← text? fs "operation_id"
  let body ← body? fs (← variant? (← Tree.required? fs "event"))
  return { time, operation, body }

/-- The event on a line of a journal. -/
def ofLine? (line : String) : Option Event := do ofTree? (← Tree.parse line)

end Event

end Upkeep
