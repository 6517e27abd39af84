import Upkeep.Rehearsal.World

/-!
# Rehearsed transactions

Commands to a transaction whose actions are scripts, and the stage on which several transactions
are registered.
-/

namespace Upkeep.Rehearsal

/-- A command to a transaction. -/
inductive Command where
  | addStep (name? : Option String) (description : String) (run undo : Script)
  | addValidation (name? : Option String) (description : String) (run : Script)
  | execute (continueOnError : Bool)
  | rollback (reason : String)
  | checkpoint (name : String)
  | checkpointIndex (name : String)
  | rollbackTo (name : String) (reason? : Option String)
  | details
  | timeout
  | sleep (millis : Nat)

/-- What a command answers. -/
inductive Answer where
  | none
  | name (s : String)
  | success (b : Bool)
  | index (i : Nat)
  | fault (f : TransactionFault)
  | details (steps : List (TransactionStep World))
  | duration (d : Duration)

/-- A transaction on the stage. -/
structure Player where
  handle : Nat
  transaction : Transaction World

namespace Player

/-- The position that the next step will have. -/
def position (p : Player) : Nat := p.transaction.steps.length

/-- The action of the next step that plays a script. -/
def action (p : Player) (verb : String) (script : Script) : Action World :=
  let label := verb ++ " " ++ toString p.position
  script.action (toString p.handle ++ " " ++ label) label

/-- The name of the step added last. -/
def lastName (t : Transaction World) : Answer :=
  match t.steps.getLast? with
  | some s => .name s.name
  | none => .none

/-- Marks the transaction as used by someone, or as free. -/
def announce (p : Player) (isLocked : Bool) (w : World) : World :=
  w.setStanding p.handle ⟨p.transaction.state, p.transaction.startedAt, isLocked⟩

/-- Calls the transaction while it is locked. -/
def call (p : Player) (f : Transaction World → World → Called World Bool) (w : World) :
    Answer × Player × World × List Report :=
  let c := f p.transaction (p.announce true w)
  let p := { p with transaction := c.transaction }
  (.success c.value, p, p.announce false c.world, c.reports)

/-- The time that passes before an execution. -/
def executeDelay : Nat := 1

/-- Carries out a command. -/
def perform (p : Player) (w : World) : Command → Answer × Player × World × List Report
  | .addStep name? description run undo =>
    let (t, rs) := p.transaction.addStep name? description (p.action "run" run)
      (p.action "undo" undo)
    (lastName t, { p with transaction := t }, w, rs)
  | .addValidation name? description run =>
    let (t, rs) := p.transaction.addValidation name? description (p.action "check" run)
    (lastName t, { p with transaction := t }, w, rs)
  | .execute continueOnError =>
    p.call (·.execute continueOnError) (w.sleep executeDelay)
  | .rollback reason => p.call (·.rollback reason) w
  | .checkpoint name =>
    let (t, rs) := p.transaction.createCheckpoint name
    (.none, { p with transaction := t }, w, rs)
  | .checkpointIndex name =>
    (match p.transaction.checkpointIndex name with
      | .ok i => .index i
      | .error f => .fault f, p, w, [])
  | .rollbackTo name reason? => p.call (·.rollbackTo name reason?) w
  | .details => (.details p.transaction.steps, p, w, [])
  | .timeout => (.duration p.transaction.timeout, p, w, [])
  | .sleep millis => (.none, p, w.sleep millis, [])

/-- Carries out commands in order, and gathers the reports. -/
def performAll (p : Player) (w : World) (commands : List Command) :
    Player × World × List Report :=
  commands.foldl (fun (p, w, rs) c =>
    let (_, p, w, more) := p.perform w c
    (p, w, rs ++ more)) (p, w, [])

end Player

/-- The world with the latest transaction of each operation, whether registered or not. -/
structure Stage where
  world : World := {}
  players : List (OperationId × Player) := []
  nextHandle : Nat := 0

namespace Stage

/-- Makes a transaction and registers it; says whether it replaced another. -/
def create (s : Stage) (i : OperationId) (timeout? : Option Duration) :
    Bool × Transaction World × List Report × Stage :=
  let timeout := timeout?.getD s.world.registry.defaultTimeout
  let (t, rs) := Transaction.create i timeout s.world
  let p : Player := ⟨s.nextHandle, t⟩
  let replaced := (s.world.registry.get? i.text).isSome
  let w := p.announce false { s.world with registry := s.world.registry.insert i p.handle }
  let players := (i, p) :: s.players.filter (·.1 != i)
  (replaced, t, rs, { world := w, players, nextHandle := s.nextHandle + 1 })

def player? (s : Stage) (operation : String) : Option Player :=
  (s.players.find? (·.1.text = operation)).map (·.2)

/-- The registered transaction of an operation is the one made last. -/
def isLatest (s : Stage) (operation : String) (handle : Nat) : Bool :=
  ((s.player? operation).map (·.handle)) = some handle

/-- Carries out a command on the latest transaction of an operation. -/
def perform (s : Stage) (operation : String) (c : Command) :
    Option (Answer × List Report × Stage) :=
  match s.players.find? (·.1.text = operation) with
  | none => none
  | some (i, p) =>
    let (a, p, w, rs) := p.perform s.world c
    some (a, rs, { s with world := w, players := (i, p) :: s.players.filter (·.1 != i) })

/-- Drops the transaction of an operation from the registry. -/
def complete (s : Stage) (operation : String) : Bool × Stage :=
  let (found, registry) := s.world.registry.complete operation
  (found, { s with world := { s.world with registry } })

/-- Sweeps the registry. -/
def sweep (s : Stage) (maxAge : Duration) : Nat × Stage :=
  let (n, world) := s.world.sweep maxAge
  (n, { s with world })

/-- Sweeps the registry while someone uses the transaction with a handle. -/
def sweepWhileLocked (s : Stage) (handle? : Option Nat) (maxAge : Duration) : Nat × Stage :=
  match handle? with
  | none => s.sweep maxAge
  | some h =>
    let free := s.world.standing h
    let (n, s) := { s with world := s.world.setStanding h { free with isLocked := true } }.sweep
      maxAge
    (n, { s with world := s.world.setStanding h free })

end Stage

end Upkeep.Rehearsal
