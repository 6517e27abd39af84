import Upkeep.Audit.Event

/-!
# Audit trails

The events of an operation kept in memory, in the order in which they were reported.
-/

namespace Upkeep

/-- Events in order. -/
abbrev Trail := List Event

namespace Trail

/-- What is reported to a sink in memory is added to its trail. -/
def record (operation : String) (t : Trail) (told : Timestamp × Report) : Trail :=
  t ++ [⟨told.1, operation, told.2.record⟩]

/-- The trail of a sink in memory. -/
def ofReports (operation : String) (told : List (Timestamp × Report)) : Trail :=
  told.foldl (record operation) []

/-- The kinds of the errors. -/
def errorKinds (t : Trail) : List String :=
  t.filterMap fun e => match e.body with
    | .error kind _ _ => some kind
    | _ => none

/-- The texts of the warnings. -/
def warnings (t : Trail) : List String :=
  t.filterMap fun e => match e.body with
    | .warning message _ => some message
    | _ => none

/-- Some step of a stage reached a status. -/
def hasStep (t : Trail) (stage : String) (status : StepStatus) : Bool :=
  t.any fun e => match e.body with
    | .step stage' status' _ _ => stage' = stage && status' = status
    | _ => false

end Trail

end Upkeep
