import Upkeep.Audit.Event
import Upkeep.Operation.Id
import Upkeep.Transaction.Step

/-!
# Transactions

Steps that are executed in order and undone in reverse. Executing stops at the first step that comes
too late and, unless told to go on, at the first that fails. Rolling back undoes every step that has
an effect, the latest first, whatever fails on the way; rolling back to a checkpoint does so only
for the steps from the checkpoint on.

Every call takes the world and gives the world after it, with the reports for the sink.
-/

namespace Upkeep

inductive TransactionState where
  | pending | executing | completed | failed | rollingBack | rolledBack | rollbackFailed
  deriving DecidableEq, Inhabited

namespace TransactionState

def all : List TransactionState :=
  [pending, executing, completed, failed, rollingBack, rolledBack, rollbackFailed]

def name : TransactionState → String
  | pending => "pending"
  | executing => "executing"
  | completed => "completed"
  | failed => "failed"
  | rollingBack => "rolling_back"
  | rolledBack => "rolled_back"
  | rollbackFailed => "rollback_failed"

def ofName? (s : String) : Option TransactionState := all.find? (·.name = s)

/-- Some call is under way. -/
def isActive : TransactionState → Bool
  | executing | rollingBack => true
  | _ => false

end TransactionState

/-- What is wrong in a transaction. -/
inductive TransactionFault where
  | unknownCheckpoint (name : String)
  | timedOut (timeout : Duration)
  | stepFailed (step message : String)
  | rollbackFailed (step message : String)

def TransactionFault.message : TransactionFault → String
  | .unknownCheckpoint name => "Checkpoint '" ++ name ++ "' not found"
  | .timedOut timeout => "Transaction timed out after " ++ toString timeout.secs ++ "s"
  | .stepFailed step message => "Step '" ++ step ++ "' failed: " ++ message
  | .rollbackFailed step message => "Rollback failed for step '" ++ step ++ "': " ++ message

/-- A transaction on a world `σ`. -/
structure Transaction (σ : Type) where
  operation : OperationId
  timeout : Duration
  /-- The time of its creation. -/
  startedAt : Nat
  steps : List (TransactionStep σ) := []
  /-- The checkpoints with the positions that they mark, in the order of their creation. -/
  checkpoints : List (String × Nat) := []
  /-- The position of the step that was reached last. -/
  current : Nat := 0
  state : TransactionState := .pending

/-- What a call gives: a value, the transaction and the world after it, and its reports. -/
structure Called (σ α : Type) where
  value : α
  transaction : Transaction σ
  world : σ
  reports : List Report

namespace Transaction

variable {σ : Type}

def defaultTimeout : Duration := .ofSecs 3600

/-! ## Building -/

/-- A new transaction, and its first report. -/
def create [Clock σ] (operation : OperationId) (timeout : Duration) (w : σ) :
    Transaction σ × List Report :=
  ({ operation, timeout, startedAt := Clock.now w },
    [.step "transaction_initiated" .started
      ("Transaction initialized with " ++ toString timeout.secs ++ "s timeout")])

/-- Adds a step at the end. -/
def push (t : Transaction σ) (s : TransactionStep σ) : Transaction σ × List Report :=
  ({ t with steps := t.steps ++ [s] },
    [.step "step_added" .completed ("Added step '" ++ s.name ++ "': " ++ s.description)])

/-- The name of the next step, if it is given none. -/
def defaultName (t : Transaction σ) (kind : String) : String :=
  kind ++ "_" ++ toString (t.steps.length + 1)

def addStep (t : Transaction σ) (name? : Option String) (description : String)
    (action inverse : Action σ) : Transaction σ × List Report :=
  t.push { name := name?.getD (t.defaultName "step"), description, action, inverse }

/-- Adds a step that only checks, so that there is nothing to undo. -/
def addValidation (t : Transaction σ) (name? : Option String) (description : String)
    (action : Action σ) : Transaction σ × List Report :=
  t.push { name := name?.getD (t.defaultName "validation"), description, action,
           inverse := TransactionStep.noAction }

/-! ## Executing -/

/-- The time since the creation of the transaction. -/
def elapsed [Clock σ] (t : Transaction σ) (w : σ) : Nat := Clock.now w - t.startedAt

/-- What executing some steps gives: the steps and the world after it, the reports, the position of
the last step reached, and whether there was no stop. -/
structure Execution (σ : Type) where
  steps : List (TransactionStep σ)
  world : σ
  reports : List Report
  last : Option Nat := none
  isDone : Bool := true

/-- The reports of a step that ran. -/
def stepReports (s : TransactionStep σ) (fault? : Option String) (time : Option Duration) :
    List Report :=
  [.step s.name .started s.description,
    match fault? with
    | none => .timed s.name .completed s.description (time.getD .zero)
    | some e => .error "step_execution_error" (TransactionFault.stepFailed s.name e).message
      (some (.ofFields [("step", .str s.name)]))]

/-- The report of a step that comes too late. -/
def timeoutReport (timeout : Duration) (elapsed : Nat) (s : TransactionStep σ) : Report :=
  .error "timeout" (TransactionFault.timedOut timeout).message (some (.ofFields [
    ("elapsed_seconds", .ofReal (Duration.ofNanos elapsed).seconds),
    ("timeout_seconds", .ofNat timeout.secs), ("step", .str s.name)]))

/-- Executes the steps from a position on. -/
def executeSteps [Clock σ] (timeout : Duration) (startedAt : Nat) (continueOnError : Bool) :
    Nat → List (TransactionStep σ) → σ → Execution σ
  | _, [], w => { steps := [], world := w, reports := [] }
  | i, s :: r, w =>
    let elapsed := Clock.now w - startedAt
    if timeout.nanos < elapsed then
      { steps := s :: r, world := w, reports := [timeoutReport timeout elapsed s],
        last := some i, isDone := false }
    else
      let (fault?, s', w') := s.run w
      let told := stepReports s fault? s'.executionTime
      if fault?.isSome && !continueOnError then
        { steps := s' :: r, world := w', reports := told, last := some i, isDone := false }
      else
        let rest := executeSteps timeout startedAt continueOnError (i + 1) r w'
        { rest with
          steps := s' :: rest.steps, reports := told ++ rest.reports, last := rest.last <|> some i }

/-- Executes all steps as if none had ever run. -/
def execute [Clock σ] (t : Transaction σ) (continueOnError : Bool) (w : σ) : Called σ Bool :=
  let count := toString t.steps.length
  let run := executeSteps t.timeout t.startedAt continueOnError 0 (t.steps.map (·.reset)) w
  let first := Report.step "transaction_execution" .started
    ("Starting execution of " ++ count ++ " steps")
  let last := if run.isDone then
      [Report.step "transaction_execution" .completed
        ("All " ++ count ++ " steps completed successfully")]
    else []
  { value := run.isDone
    transaction := { t with
      steps := run.steps, current := run.last.getD t.current,
      state := if run.isDone then .completed else .failed }
    world := run.world
    reports := first :: run.reports ++ last }

/-! ## Rolling back -/

/-- What undoing some steps gives, and whether nothing failed. -/
structure Sweep (σ : Type) where
  steps : List (TransactionStep σ)
  world : σ
  reports : List Report
  isClean : Bool

/-- Undoes the steps that have an effect, the last one first. What is told of each is said by
`tell`, from the step and what went wrong. -/
def undoSteps (tell : TransactionStep σ → Option String → List Report) :
    List (TransactionStep σ) → σ → Sweep σ
  | [], w => ⟨[], w, [], true⟩
  | s :: r, w =>
    let later := undoSteps tell r w
    if s.isEligible then
      let (fault?, s', w') := s.undo later.world
      ⟨s' :: later.steps, w', later.reports ++ tell s fault?, later.isClean && fault?.isNone⟩
    else { later with steps := s :: later.steps }

/-- The reports of a step that is undone. -/
def undoReports (s : TransactionStep σ) (fault? : Option String) : List Report :=
  let stage := s.name ++ "_rollback"
  [.step stage .started ("Rolling back: " ++ s.description),
    match fault? with
    | none => .step stage .completed ("Successfully rolled back: " ++ s.description)
    | some e => .error "rollback_error" (TransactionFault.rollbackFailed s.name e).message
      (some (.ofFields [("step", .str s.name)]))]

/-- Undoes all steps that have an effect. -/
def rollback (t : Transaction σ) (reason : String) (w : σ) : Called σ Bool :=
  let sweep := undoSteps undoReports t.steps w
  let first := Report.step "transaction_rollback" .started ("Rolling back due to: " ++ reason)
  let last := if sweep.isClean then
      Report.step "transaction_rollback" .completed "All steps rolled back successfully"
    else .step "transaction_rollback" .failed "Some rollback steps failed"
  { value := sweep.isClean
    transaction := { t with
      steps := sweep.steps, state := if sweep.isClean then .rolledBack else .rollbackFailed }
    world := sweep.world
    reports := first :: sweep.reports ++ [last] }

/-! ## Checkpoints -/

/-- The names of the steps before a position that have completed. -/
def completedBefore (t : Transaction σ) (i : Nat) : List String :=
  ((t.steps.take i).filter (·.isCompleted)).map (·.name)

/-- The names of the steps from a position on. -/
def pendingFrom (t : Transaction σ) (i : Nat) : List String := (t.steps.drop i).map (·.name)

/-- Marks a position, in place of an earlier one of the same name. -/
def mark (name : String) (i : Nat) (cs : List (String × Nat)) : List (String × Nat) :=
  if cs.any (·.1 = name) then cs.map fun c => if c.1 = name then (name, i) else c
  else cs ++ [(name, i)]

/-- The state that a checkpoint reports. -/
def snapshot (t : Transaction σ) : Json :=
  .ofFields [
    ("step_index", .ofNat t.current),
    ("completed_steps", .arr ((t.completedBefore t.current).map .str)),
    ("pending_steps", .arr ((t.pendingFrom t.current).map .str)),
    ("transaction_status", .str t.state.name)]

/-- Marks the step that was reached last. -/
def createCheckpoint (t : Transaction σ) (name : String) : Transaction σ × List Report :=
  ({ t with checkpoints := mark name t.current t.checkpoints }, [.checkpoint name t.snapshot])

/-- The position that a checkpoint marks. -/
def checkpointIndex (t : Transaction σ) (name : String) : Except TransactionFault Nat :=
  match t.checkpoints.lookup name with
  | some i => .ok i
  | none => .error (.unknownCheckpoint name)

/-- The reports of a step that is undone on the way to a checkpoint: only a failure is told. -/
def checkpointUndoReports (checkpoint : String) (s : TransactionStep σ) (fault? : Option String) :
    List Report :=
  (fault?.map fun e => Report.error "checkpoint_rollback_error"
    (TransactionFault.rollbackFailed s.name e).message
    (some (.ofFields [("step", .str s.name), ("checkpoint", .str checkpoint)]))).toList

/-- Undoes the steps from a checkpoint on that have an effect. -/
def rollbackTo (t : Transaction σ) (name : String) (reason? : Option String) (w : σ) :
    Called σ Bool :=
  match t.checkpointIndex name with
  | .error e => ⟨false, t, w, [.error "checkpoint_not_found" e.message none]⟩
  | .ok i =>
    let sweep := undoSteps (checkpointUndoReports name) (t.steps.drop i) w
    { value := sweep.isClean
      transaction := { t with steps := t.steps.take i ++ sweep.steps }
      world := sweep.world
      reports := .rollback name (reason?.getD ("Rollback to checkpoint '" ++ name ++ "'")) ::
        sweep.reports }

/-! ## Views -/

/-- What a transaction reports about itself. -/
structure Status where
  operation : OperationId
  state : TransactionState
  totalSteps : Nat
  completedSteps : Nat
  failedSteps : Nat
  currentIndex : Nat
  checkpoints : List String

def status (t : Transaction σ) : Status where
  operation := t.operation
  state := t.state
  totalSteps := t.steps.length
  completedSteps := t.steps.countP (·.isCompleted)
  failedSteps := t.steps.countP (·.error.isSome)
  currentIndex := t.current
  checkpoints := t.checkpoints.map (·.1)

end Transaction

end Upkeep
