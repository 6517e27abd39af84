import Upkeep.Transaction.Registry

/-!
# The rehearsal world

A rehearsal plays actions from scripts instead of doing real work. Its world has a clock that moves
only when someone sleeps, a record of the actions played, and the registry, so that an action can
sweep it.
-/

namespace Upkeep.Rehearsal

/-- How much longer a sleep lasts than it has to. -/
def oversleep : Nat := 100000

/-- What a scripted action does when it is played. -/
inductive Cue where
  | finish (outcome : Outcome)
  | sleep (millis : Nat)
  /-- Sweeps the registry, and fails if anything was removed. -/
  | sweep (maxAge : Duration)

/-- The cues of an action, one for each time it is played; the last one repeats. -/
abbrev Script := List Cue

/-- The world of a rehearsal. -/
structure World where
  now : Nat := 0
  /-- The actions played, the latest last. -/
  calls : List String := []
  /-- How often each action has been played. -/
  played : List (String × Nat) := []
  registry : Registry := {}
  standings : List (Nat × Standing) := []

instance : Clock World := ⟨World.now⟩

namespace World

def sleep (w : World) (millis : Nat) : World :=
  { w with now := w.now + millis * nanosPerMilli + oversleep }

/-- What can be seen of the transaction with a handle. -/
def standing (w : World) (handle : Nat) : Standing :=
  (w.standings.lookup handle).getD ⟨.pending, 0, false⟩

def setStanding (w : World) (handle : Nat) (s : Standing) : World :=
  { w with standings := (handle, s) :: w.standings.filter (·.1 != handle) }

/-- The time that passes before a sweep. -/
def sweepDelay : Nat := 2

/-- Sweeps the registry a moment from now. -/
def sweep (w : World) (maxAge : Duration) : Nat × World :=
  let w := w.sleep sweepDelay
  let (removed, registry) := w.registry.sweep w.now w.standing maxAge
  (removed, { w with registry })

/-- Plays a cue. -/
def play (w : World) : Cue → Outcome × World
  | .finish o => (o, w)
  | .sleep millis => (.success, w.sleep millis)
  | .sweep maxAge =>
    let (removed, w) := w.sweep maxAge
    (if removed = 0 then .success else .failure ["sweep removed " ++ toString removed], w)

end World

/-- The action that plays a script. It is recorded under `label`, and `key` tells it from all other
actions. -/
def Script.action (script : Script) (key label : String) : Action World := fun w =>
  let count := (w.played.lookup key).getD 0
  let w := { w with
    calls := w.calls ++ [label]
    played := (key, count + 1) :: w.played.filter (·.1 != key) }
  match script[min count (script.length - 1)]? with
  | none => (.success, w)
  | some cue => w.play cue

end Upkeep.Rehearsal
