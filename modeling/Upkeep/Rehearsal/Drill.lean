import Upkeep.Coordinator.Caller
import Upkeep.Coordinator.Status
import Upkeep.Coordinator.Worker
import Upkeep.Rehearsal.Transactions

/-!
# Drills

A drill runs a coordinator on one fixed schedule out of all that are possible. A free worker takes
the head of the queue at once and then waits to be let on to its admission, first come, first
served. Callbacks that have a gate wait before it until it is opened. Between the commands of a
drill every worker goes on until it can go no further.
-/

namespace Upkeep.Rehearsal

/-- The kind of report after which a sink breaks down. -/
inductive SinkTrigger where
  | warning | execution | completed | error
  deriving DecidableEq

/-- What a rehearsed callback does. -/
inductive Part where
  | cue (c : Cue)
  /-- Carries out the commands on a transaction and executes it; if that fails, rolls it back. -/
  | transaction (commands : List Command)

/-- The work of a rehearsed operation. -/
structure Job where
  tag : String
  hasGate : Bool := false
  part : Part := .cue (.finish .success)
  trigger? : Option SinkTrigger := none

/-- A coordinator on its schedule. -/
structure Drill where
  coordinator : Coordinator Job
  /-- Another keeper over the same lock directory. -/
  outsider : LockKeeper
  memory : UInt64
  world : World := {}
  start : Timestamp
  /-- The workers that wait for admission, the first to be let on first. -/
  waiting : List Nat := []
  /-- The tags of the gates that have been opened. -/
  opened : List String := []

namespace Drill

/-- The time on the drill's clock. -/
def now (d : Drill) : Timestamp := d.start.advance d.world.now

/-- The time that a step takes. -/
def stepNanos : Nat := 1000

def tick (d : Drill) : Drill :=
  { d with world := { d.world with now := d.world.now + stepNanos } }

/-! ## What the world brings -/

/-- Plays the part of an operation. -/
def playPart (op : Submitted Job) (w : World) : Outcome × List Report × World :=
  match op.work.job.part with
  | .cue c =>
    let (o, w) := w.play c
    (o, [], w)
  | .transaction commands =>
    let (t, first) := Transaction.create op.id Transaction.defaultTimeout w
    let (p, w, built) := (Player.mk op.work.ticket t).performAll w commands
    let run := p.transaction.execute false w
    if run.value then (.success, first ++ built ++ run.reports, run.world)
    else
      let back := run.transaction.rollback "step failed" run.world
      (.failure ["transaction " ++ op.id.text ++ " rolled back"],
        first ++ built ++ run.reports ++ back.reports, back.world)

/-- The kind of report that a worker is about to make. -/
def trigger? : Phase Job → Option (Submitted Job × SinkTrigger)
  | .warning op _ | .conflicted op => some (op, .warning)
  | .starting op _ => some (op, .execution)
  | .dropping op _ => some (op, .error)
  | .reporting op _ o =>
    some (op, match Verdict.ofOutcome o with
      | .completed => .completed
      | .failed => .error)
  | _ => none

/-- The sink breaks down after the report that a worker is about to make. -/
def sinkFails (phase : Phase Job) : Bool :=
  match trigger? phase with
  | some (op, t) => op.work.job.trigger? = some t
  | none => false

/-- What the world brings to the step of a worker in a phase, and the world after it. -/
def surroundings (d : Drill) (phase : Phase Job) : Surroundings × World :=
  let env : Surroundings := { reading := d.memory, now := d.now, sinkFails := sinkFails phase }
  match phase with
  | .running op _ =>
    let (outcome, reports, w) := playPart op d.world
    ({ env with outcome, reports, now := d.start.advance w.now }, w)
  | _ => (env, d.world)

/-! ## The schedule -/

/-- The gate at which a worker stands, if it is still shut. -/
def gate? (d : Drill) : Phase Job → Option String
  | .running op _ =>
    let job := op.work.job
    if job.hasGate && !d.opened.contains job.tag then some job.tag else none
  | _ => none

/-- The worker can go on by itself. -/
def canMove (d : Drill) (phase : Phase Job) : Bool :=
  match phase with
  | .idle | .ready => !d.coordinator.queue.isEmpty || d.coordinator.isStopping
  | .admitting _ | .stopped => false
  | _ => (d.gate? phase).isNone

/-- A worker makes a step; if it comes to wait for admission, it goes to the end of the line. -/
def step (d : Drill) (w : Nat) : Drill :=
  match d.coordinator.workers[w]? with
  | none => d
  | some phase =>
    let d := d.tick
    let (env, world) := d.surroundings phase
    let c := d.coordinator.work env w
    let waiting := match c.workers[w]? with
      | some (.admitting _) => d.waiting ++ [w]
      | _ => d.waiting
    { d with coordinator := c, world, waiting }

/-- Lets workers go on, up to a number of steps. -/
def run (d : Drill) : Nat → Drill
  | 0 => d
  | n + 1 =>
    match d.coordinator.workers.findIdx? d.canMove with
    | none => d
    | some w => run (d.step w) n

/-- How many paths a worker still has to deal with, at most. -/
def pathCount : Phase Job → Nat
  | .admitting op | .weighing op | .probing op _ | .entering op | .starting op _
  | .running op _ | .reporting op _ _ => op.paths.length
  | .releasing _ locks _ => locks.length
  | _ => 0

/-- More steps than all workers together can make before each has to wait: at most two rounds each,
and two for each path. -/
def stepBound (d : Drill) : Nat :=
  d.coordinator.workers.foldl (fun n p => n + 64 + 4 * pathCount p) 0

/-- Lets every worker go on until it can go no further. -/
def settle (d : Drill) : Drill := d.run d.stepBound

/-! ## Commands -/

/-- A new drill, with all its workers waiting for work. -/
def begin (c : Coordinator Job) (memory : UInt64) (start : Timestamp) : Drill :=
  { coordinator := c, outsider := { c.keeper with held := [] }, memory, start : Drill }.settle

/-- A caller's turn: its call, its report, and what the workers make of it. -/
def call (d : Drill) (f : Coordinator Job → Bool × Coordinator Job) : Bool × Drill :=
  let d := d.tick
  let (b, c) := f d.coordinator
  (b, { d with coordinator := c.settle 0 }.settle)

def submit (d : Drill) (r : SubmitRequest Job) : Bool × Drill :=
  d.call fun c => c.submit r d.now

def cancel (d : Drill) (id : String) : Bool × Drill := d.call fun c => c.cancel id

/-- Lets waiting workers on, one after the other, and counts them. -/
def admitWorkers (d : Drill) : Nat → Nat × Drill
  | 0 => (0, d)
  | n + 1 =>
    match d.waiting with
    | [] => (0, d)
    | w :: rest =>
      let (k, d) := ({ d with waiting := rest }.step w).settle.admitWorkers n
      (k + 1, d)

/-- The tags of the callbacks that wait before a gate. -/
def gated (d : Drill) : List String :=
  (d.coordinator.workers.filterMap d.gate?).mergeSort (· ≤ ·)

/-- Opens a gate, and says whether a callback waited there. -/
def openGate (d : Drill) (tag : String) : Bool × Drill :=
  if d.gated.contains tag then (true, { d with opened := tag :: d.opened }.settle) else (false, d)

/-- Raises the stop flag and shuts the queue. -/
def shutdown (d : Drill) : Drill :=
  { d with coordinator := d.coordinator.raiseStop.shutQueue }.settle

/-- Time passes. -/
def sleep (d : Drill) (millis : Nat) : Drill := { d with world := d.world.sleep millis }

/-- The other keeper does something. -/
def outside {α : Type} (d : Drill) (f : LockKeeper → Files → α × Files × LockKeeper) : α × Drill :=
  let (a, files, keeper) := f d.outsider d.coordinator.files
  (a, { d with coordinator := { d.coordinator with files }, outsider := keeper })

/-- Somebody changes the files, and the drill goes on if that fails. -/
def disturb (d : Drill) (f : Files → Files × Files.Result Unit) : Bool × Drill :=
  let (files, result) := f d.coordinator.files
  (result.isOk, { d with coordinator := { d.coordinator with files } })

end Drill

end Upkeep.Rehearsal
