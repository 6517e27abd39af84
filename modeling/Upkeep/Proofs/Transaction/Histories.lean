import Upkeep.Proofs.Transaction.Steps

/-!
# The history of a transaction

**Incidents.** What happens to the steps of a transaction: a call to execute begins, the action of a
step is invoked, the inverse of a step is invoked. To record them, the actions of a transaction are
replaced by ones that note their invocation in the world (`Transaction.recorded`), and the calls are
made as before; apart from the notes they do what they did (`exists_execute_recorded`,
`exists_rollback_recorded`, `exists_rollbackTo_recorded`).

**Strokes.** A `Stroke` is what one incident does to the steps, with what is sure beforehand: a
step that is run has nothing to undo, and one that is undone has. The notes of a call are strokes
that lead from the steps before it to the steps after it.

**Sessions.** A transaction, its world and its history, and any calls one after the other. A call
adds a step, or it takes strokes (`after_cases`); a sweep misses no step that has something to undo
(`Sweeps.exists_undone`).
-/

namespace Upkeep

open TransactionStep

variable {σ : Type}

/-- What happens to the steps of a transaction. -/
inductive Incident where
  /-- A call to execute begins. -/
  | begun
  /-- The action of a step was invoked. -/
  | ran (i : Nat) (outcome : Outcome)
  /-- The inverse action of a step was invoked. -/
  | undone (i : Nat) (outcome : Outcome)
  deriving DecidableEq

/-! ## Recording -/

/-- A world with what was noted in it. -/
structure Recorded (σ : Type) where
  world : σ
  notes : List Incident

instance [Clock σ] : Clock (Recorded σ) := ⟨fun w => Clock.now w.world⟩

/-- The action, with a note of its outcome. -/
def Action.noting (note : Outcome → Incident) (action : Action σ) : Action (Recorded σ) := fun w =>
  ((action w.world).1, ⟨(action w.world).2, w.notes ++ [note (action w.world).1]⟩)

namespace TransactionStep

/-- The step at a position, with actions that note their invocation. -/
def recorded (i : Nat) (s : TransactionStep σ) : TransactionStep (Recorded σ) where
  name := s.name
  description := s.description
  action := Action.noting (.ran i) s.action
  inverse := Action.noting (.undone i) s.inverse
  isCompleted := s.isCompleted
  isUndone := s.isUndone
  error := s.error
  executionTime := s.executionTime

theorem run_recorded [Clock σ] (i : Nat) (s : TransactionStep σ) (w : σ) (notes : List Incident) :
    (s.recorded i).run ⟨w, notes⟩ =
      ((s.run w).1, (s.run w).2.1.recorded i,
        ⟨(s.run w).2.2, notes ++ [.ran i (s.action w).1]⟩) := by
  rw [run_eq, run_eq]
  rfl

theorem undo_recorded (i : Nat) (s : TransactionStep σ) (w : σ) (notes : List Incident) :
    (s.recorded i).undo ⟨w, notes⟩ =
      ((s.undo w).1, (s.undo w).2.1.recorded i,
        ⟨(s.undo w).2.2, notes ++ [.undone i (s.inverse w).1]⟩) := by
  rw [undo_eq, undo_eq]
  rfl

/-- The steps from a position on, with actions that note their invocation. -/
def recordedFrom (i : Nat) : List (TransactionStep σ) → List (TransactionStep (Recorded σ))
  | [] => []
  | s :: r => s.recorded i :: recordedFrom (i + 1) r

theorem length_recordedFrom (i : Nat) (ss : List (TransactionStep σ)) :
    (recordedFrom i ss).length = ss.length := by
  induction ss generalizing i with
  | nil => rfl
  | cons s r ih => exact congrArg (· + 1) (ih (i + 1))

theorem map_reset_recordedFrom (i : Nat) (ss : List (TransactionStep σ)) :
    (recordedFrom i ss).map (·.reset) = recordedFrom i (ss.map (·.reset)) := by
  induction ss generalizing i with
  | nil => rfl
  | cons s r ih => exact congrArg (s.reset.recorded i :: ·) (ih (i + 1))

theorem take_recordedFrom (k i : Nat) (ss : List (TransactionStep σ)) :
    (recordedFrom i ss).take k = recordedFrom i (ss.take k) := by
  induction ss generalizing k i with
  | nil =>
    rw [List.take_nil]
    exact List.take_nil
  | cons s r ih =>
    cases k with
    | zero => rfl
    | succ k => exact congrArg (s.recorded i :: ·) (ih k (i + 1))

theorem drop_recordedFrom (k i : Nat) (ss : List (TransactionStep σ)) :
    (recordedFrom i ss).drop k = recordedFrom (i + (ss.take k).length) (ss.drop k) := by
  induction ss generalizing k i with
  | nil =>
    rw [List.drop_nil]
    exact List.drop_nil
  | cons s r ih =>
    cases k with
    | zero => rfl
    | succ k =>
      rw [List.take_succ_cons, List.length_cons, ← Nat.add_assoc, Nat.add_right_comm]
      exact ih k (i + 1)

theorem recordedFrom_append (i : Nat) (ss ss' : List (TransactionStep σ)) :
    recordedFrom i (ss ++ ss') = recordedFrom i ss ++ recordedFrom (i + ss.length) ss' := by
  induction ss generalizing i with
  | nil => rfl
  | cons s r ih =>
    rw [List.cons_append, recordedFrom, ih, List.length_cons, ← Nat.add_assoc, Nat.add_right_comm]
    rfl

end TransactionStep

namespace Transaction

/-- The transaction, with actions that note their invocation. -/
def recorded (t : Transaction σ) : Transaction (Recorded σ) where
  operation := t.operation
  timeout := t.timeout
  startedAt := t.startedAt
  steps := recordedFrom 0 t.steps
  checkpoints := t.checkpoints
  current := t.current
  state := t.state

theorem checkpointIndex_recorded (t : Transaction σ) (name : String) :
    t.recorded.checkpointIndex name = t.checkpointIndex name := rfl

end Transaction

/-- What a call gives if its world has notes. -/
def Called.recorded {α : Type} (r : Called σ α) (notes : List Incident) :
    Called (Recorded σ) α :=
  ⟨r.value, r.transaction.recorded, ⟨r.world, notes⟩, r.reports⟩

/-! ## Strokes -/

variable [Clock σ]

/-- What an incident does to the steps. -/
inductive Stroke :
    List (TransactionStep σ) → Incident → List (TransactionStep σ) → Prop
  | begin (ss : List (TransactionStep σ)) : Stroke ss .begun (ss.map (·.reset))
  | run {ss : List (TransactionStep σ)} {i : Nat} {s : TransactionStep σ}
      (hi : ss[i]? = some s) (hs : s.isEligible = false) (w : σ) :
      Stroke ss (.ran i (s.action w).1) (ss.set i (s.run w).2.1)
  | undo {ss : List (TransactionStep σ)} {i : Nat} {s : TransactionStep σ}
      (hi : ss[i]? = some s) (hs : s.isEligible) (w : σ) :
      Stroke ss (.undone i (s.inverse w).1) (ss.set i (s.undo w).2.1)

/-- What some incidents do to the steps, one after the other. -/
inductive Strokes :
    List (TransactionStep σ) → List Incident → List (TransactionStep σ) → Prop
  | nil (ss : List (TransactionStep σ)) : Strokes ss [] ss
  | cons {ss ss' ss'' : List (TransactionStep σ)} {e : Incident} {es : List Incident}
      (first : Stroke ss e ss') (rest : Strokes ss' es ss'') : Strokes ss (e :: es) ss''

theorem Strokes.append {ss ss' ss'' : List (TransactionStep σ)} {es es' : List Incident}
    (h : Strokes ss es ss') (h' : Strokes ss' es' ss'') : Strokes ss (es ++ es') ss'' := by
  induction h with
  | nil ss => exact h'
  | cons first rest ih => exact .cons first (ih h')

theorem Stroke.run_behind (before after : List (TransactionStep σ))
    {s : TransactionStep σ} (hs : s.isEligible = false) (w : σ) :
    Stroke (before ++ s :: after) (.ran before.length (s.action w).1)
      (before ++ (s.run w).2.1 :: after) := by
  have hi : (before ++ s :: after)[before.length]? = some s := by simp
  have h := Stroke.run hi hs w
  rwa [List.set_append_right _ _ (Nat.le_refl _), Nat.sub_self, List.set_cons_zero] at h

theorem Stroke.undo_behind (before after : List (TransactionStep σ)) {s : TransactionStep σ}
    (hs : s.isEligible) (w : σ) :
    Stroke (before ++ s :: after) (.undone before.length (s.inverse w).1)
      (before ++ (s.undo w).2.1 :: after) := by
  have hi : (before ++ s :: after)[before.length]? = some s := by simp
  have h := Stroke.undo hi hs w
  rwa [List.set_append_right _ _ (Nat.le_refl _), Nat.sub_self, List.set_cons_zero] at h

namespace Transaction

/-- Executing steps that make notes is executing the steps, and the notes are the strokes taken. -/
theorem exists_executeSteps_recorded (timeout : Duration) (startedAt : Nat)
    (continueOnError : Bool) (before : List (TransactionStep σ)) {ss : List (TransactionStep σ)}
    (hss : ∀ s ∈ ss, s.isEligible = false) (w : σ) :
    let run := executeSteps timeout startedAt continueOnError before.length ss w
    ∃ es,
      (∀ notes, executeSteps timeout startedAt continueOnError before.length
          (recordedFrom before.length ss) ⟨w, notes⟩ =
        ⟨recordedFrom before.length run.steps, ⟨run.world, notes ++ es⟩, run.reports, run.last,
          run.isDone⟩) ∧
      Strokes (before ++ ss) es (before ++ run.steps) := by
  induction ss generalizing before w with
  | nil => exact ⟨[], fun notes => by rw [List.append_nil]; rfl, .nil _⟩
  | cons s r ih =>
    obtain ⟨hs, hr⟩ := List.forall_mem_cons.1 hss
    have hran := Stroke.run_behind before r hs w
    have hlength : (before ++ [(s.run w).2.1]).length = before.length + 1 := List.length_append
    obtain ⟨es, hrest, hstrokes⟩ := ih (before ++ [(s.run w).2.1]) hr (s.run w).2.2
    rw [← List.append_cons, ← List.append_cons, hlength] at hstrokes
    rw [hlength] at hrest
    by_cases hlate : timeout.nanos < Clock.now w - startedAt
    · rw [executeSteps_late hlate]
      refine ⟨[], fun notes => ?_, .nil _⟩
      have hlate' : timeout.nanos < Clock.now (⟨w, notes⟩ : Recorded σ) - startedAt := hlate
      rw [List.append_nil, recordedFrom, executeSteps_late hlate']
      rfl
    have hlate' (notes : List Incident) :
      ¬timeout.nanos < Clock.now (⟨w, notes⟩ : Recorded σ) - startedAt := hlate
    by_cases hstop : (s.run w).1.isSome && !continueOnError
    · rw [executeSteps_stopped hlate hstop]
      refine ⟨[.ran before.length (s.action w).1], fun notes => ?_, .cons hran (.nil _)⟩
      have hstop' : ((s.recorded before.length).run ⟨w, notes⟩).1.isSome && !continueOnError := by
        rwa [run_recorded]
      rw [recordedFrom, executeSteps_stopped (hlate' notes) hstop', run_recorded]
      rfl
    · rw [executeSteps_passed hlate hstop]
      refine ⟨.ran before.length (s.action w).1 :: es, fun notes => ?_, .cons hran hstrokes⟩
      have hstop' :
          ¬(((s.recorded before.length).run ⟨w, notes⟩).1.isSome && !continueOnError) := by
        rwa [run_recorded]
      rw [recordedFrom, executeSteps_passed (hlate' notes) hstop', run_recorded, hrest,
        List.append_assoc]
      rfl

/-- Sweeping steps that make notes is sweeping the steps, and the notes are the strokes taken; every
step that has something to undo is noted. -/
theorem exists_undoSteps_recorded (tell : TransactionStep σ → Option String → List Report)
    (tell' : TransactionStep (Recorded σ) → Option String → List Report)
    (htell : ∀ i s fault?, tell' (s.recorded i) fault? = tell s fault?)
    (before ss : List (TransactionStep σ)) (w : σ) :
    let sweep := undoSteps tell ss w
    ∃ es,
      (∀ notes, undoSteps tell' (recordedFrom before.length ss) ⟨w, notes⟩ =
        ⟨recordedFrom before.length sweep.steps, ⟨sweep.world, notes ++ es⟩, sweep.reports,
          sweep.isClean⟩) ∧
      Strokes (before ++ ss) es (before ++ sweep.steps) ∧
      ∀ j s, ss[j]? = some s → s.isEligible → ∃ o, .undone (before.length + j) o ∈ es := by
  induction ss generalizing before w with
  | nil =>
    exact ⟨[], fun notes => by rw [List.append_nil]; rfl, .nil _,
      fun j s hj => absurd hj (by simp)⟩
  | cons s r ih =>
    have hlength : (before ++ [s]).length = before.length + 1 := List.length_append
    obtain ⟨es, hlater, hstrokes, hnoted⟩ := ih (before ++ [s]) w
    rw [← List.append_cons, ← List.append_cons] at hstrokes
    rw [hlength] at hlater hnoted
    have hnext (j : Nat) (st : TransactionStep σ) (hj : r[j]? = some st) (hst : st.isEligible) :
        ∃ o, .undone (before.length + (j + 1)) o ∈ es := by
      rw [← Nat.add_assoc, Nat.add_right_comm]
      exact hnoted j st hj hst
    by_cases hs : s.isEligible
    · have hundone := Stroke.undo_behind before (undoSteps tell r w).steps hs
        (undoSteps tell r w).world
      have hs' : (s.recorded before.length).isEligible := hs
      rw [undoSteps_of_isEligible hs]
      refine ⟨es ++ [.undone before.length (s.inverse (undoSteps tell r w).world).1],
        fun notes => ?_, hstrokes.append (.cons hundone (.nil _)), fun j st hj hst => ?_⟩
      · rw [recordedFrom, undoSteps_of_isEligible hs', hlater, undo_recorded, htell,
          ← List.append_assoc]
        rfl
      · cases j with
        | zero => exact ⟨_, List.mem_append_right _ List.mem_cons_self⟩
        | succ j =>
          obtain ⟨o, ho⟩ := hnext j st hj hst
          exact ⟨o, List.mem_append_left _ ho⟩
    · rw [Bool.not_eq_true] at hs
      have hs' : (s.recorded before.length).isEligible = false := hs
      rw [undoSteps_of_not_isEligible hs]
      refine ⟨es, fun notes => ?_, hstrokes, fun j st hj hst => ?_⟩
      · rw [recordedFrom, undoSteps_of_not_isEligible hs', hlater]
        rfl
      · cases j with
        | zero => exact absurd (Option.some.inj hj ▸ hst) (Bool.eq_false_iff.1 hs)
        | succ j => exact hnext j st hj hst

/-- A call to execute does with notes what it does without, and the notes are strokes from the steps
as if none had ever run. -/
theorem exists_execute_recorded (t : Transaction σ) (continueOnError : Bool) (w : σ) :
    ∃ es,
      (∀ notes, t.recorded.execute continueOnError ⟨w, notes⟩ =
        (t.execute continueOnError w).recorded (notes ++ es)) ∧
      Strokes (t.steps.map (·.reset)) es (t.execute continueOnError w).transaction.steps := by
  have hfresh : ∀ s ∈ t.steps.map (·.reset), s.isEligible = false :=
    List.forall_mem_map.2 fun s _ => isEligible_reset s
  obtain ⟨es, hnotes, hstrokes⟩ :=
    exists_executeSteps_recorded t.timeout t.startedAt continueOnError [] hfresh w
  refine ⟨es, fun notes => ?_, hstrokes⟩
  have hsteps : t.recorded.steps.map (·.reset) = recordedFrom 0 (t.steps.map (·.reset)) :=
    map_reset_recordedFrom 0 t.steps
  have hcount : t.recorded.steps.length = t.steps.length := length_recordedFrom 0 t.steps
  have hrun : executeSteps t.recorded.timeout t.recorded.startedAt continueOnError 0
      (t.recorded.steps.map (·.reset)) ⟨w, notes⟩ = _ := hsteps ▸ hnotes notes
  rw [execute, hrun, hcount]
  rfl

theorem exists_rollback_recorded (t : Transaction σ) (reason : String) (w : σ) :
    ∃ es,
      (∀ notes, t.recorded.rollback reason ⟨w, notes⟩ =
        (t.rollback reason w).recorded (notes ++ es)) ∧
      Strokes t.steps es (t.rollback reason w).transaction.steps ∧
      ∀ i s, t.steps[i]? = some s → s.isEligible → ∃ o, .undone i o ∈ es := by
  obtain ⟨es, hnotes, hstrokes, hnoted⟩ :=
    exists_undoSteps_recorded undoReports undoReports (fun _ _ _ => rfl) [] t.steps w
  refine ⟨es, fun notes => ?_, hstrokes, fun i s hi hs => ?_⟩
  · have hsweep : undoSteps undoReports t.recorded.steps ⟨w, notes⟩ = _ := hnotes notes
    rw [rollback, hsweep]
    rfl
  · obtain ⟨o, ho⟩ := hnoted i s hi hs
    rw [List.length_nil, Nat.zero_add] at ho
    exact ⟨o, ho⟩

theorem exists_rollbackTo_recorded (t : Transaction σ) (name : String) (reason? : Option String)
    (w : σ) :
    ∃ es,
      (∀ notes, t.recorded.rollbackTo name reason? ⟨w, notes⟩ =
        (t.rollbackTo name reason? w).recorded (notes ++ es)) ∧
      Strokes t.steps es (t.rollbackTo name reason? w).transaction.steps ∧
      ∀ k, t.checkpointIndex name = .ok k →
        ∀ i s, k ≤ i → t.steps[i]? = some s → s.isEligible → ∃ o, .undone i o ∈ es := by
  cases hindex : t.checkpointIndex name with
  | error e =>
    refine ⟨[], fun notes => ?_, ?_, fun k hk => absurd hk (by simp)⟩
    · rw [rollbackTo, rollbackTo, checkpointIndex_recorded, hindex, List.append_nil]
      rfl
    · rw [rollbackTo, hindex]
      exact .nil _
  | ok k =>
    obtain ⟨es, hnotes, hstrokes, hnoted⟩ :=
      exists_undoSteps_recorded (checkpointUndoReports name) (checkpointUndoReports name)
        (fun _ _ _ => rfl) (t.steps.take k) (t.steps.drop k) w
    rw [List.take_append_drop] at hstrokes
    refine ⟨es, fun notes => ?_, ?_, fun k' hk' i s hle hi hs => ?_⟩
    · have hdrop : t.recorded.steps.drop k =
          recordedFrom (t.steps.take k).length (t.steps.drop k) := by
        rw [recorded, drop_recordedFrom, Nat.zero_add]
      have htake : t.recorded.steps.take k = recordedFrom 0 (t.steps.take k) :=
        take_recordedFrom k 0 t.steps
      have hsweep :
          undoSteps (checkpointUndoReports name) (t.recorded.steps.drop k) ⟨w, notes⟩ = _ :=
        hdrop ▸ hnotes notes
      rw [rollbackTo, rollbackTo, checkpointIndex_recorded, hindex]
      dsimp only
      rw [hsweep, htake]
      simp only [Called.recorded, recorded, recordedFrom_append, Nat.zero_add]
    · rw [rollbackTo, hindex]
      exact hstrokes
    · obtain rfl : k = k' := Except.ok.inj hk'
      have hlt : i < t.steps.length := (List.getElem?_eq_some_iff.1 hi).1
      have hlength : (t.steps.take k).length = k :=
        List.length_take_of_le (Nat.le_of_lt (Nat.lt_of_le_of_lt hle hlt))
      have hi' : (t.steps.drop k)[i - k]? = some s := by
        rwa [List.getElem?_drop, Nat.add_sub_cancel' hle]
      obtain ⟨o, ho⟩ := hnoted (i - k) s hi' hs
      rw [hlength, Nat.add_sub_cancel' hle] at ho
      exact ⟨o, ho⟩

/-! ## Sessions -/

/-- A call on a transaction. Between calls the world may change. -/
inductive Call (σ : Type) where
  | addStep (name? : Option String) (description : String) (action inverse : Action σ)
  | addValidation (name? : Option String) (description : String) (action : Action σ)
  | execute (continueOnError : Bool)
  | rollback (reason : String)
  | createCheckpoint (name : String)
  | rollbackTo (name : String) (reason? : Option String)
  | meanwhile (change : σ → σ)

/-- The transaction and the world after a call. -/
def after (t : Transaction σ) (w : σ) : Call σ → Transaction σ × σ
  | .addStep name? description action inverse =>
    ((t.addStep name? description action inverse).1, w)
  | .addValidation name? description action => ((t.addValidation name? description action).1, w)
  | .execute continueOnError =>
    ((t.execute continueOnError w).transaction, (t.execute continueOnError w).world)
  | .rollback reason => ((t.rollback reason w).transaction, (t.rollback reason w).world)
  | .createCheckpoint name => ((t.createCheckpoint name).1, w)
  | .rollbackTo name reason? =>
    ((t.rollbackTo name reason? w).transaction, (t.rollbackTo name reason? w).world)
  | .meanwhile change => (t, change w)

/-- What happens to the steps in a call. -/
def incidents (t : Transaction σ) (w : σ) : Call σ → List Incident
  | .execute continueOnError =>
    .begun :: (t.recorded.execute continueOnError ⟨w, []⟩).world.notes
  | .rollback reason => (t.recorded.rollback reason ⟨w, []⟩).world.notes
  | .rollbackTo name reason? => (t.recorded.rollbackTo name reason? ⟨w, []⟩).world.notes
  | .addStep .. | .addValidation .. | .createCheckpoint .. | .meanwhile .. => []

/-- A call sweeps the step at a position. -/
def Sweeps (t : Transaction σ) (i : Nat) : Call σ → Prop
  | .rollback _ => True
  | .rollbackTo name _ => ∃ k, t.checkpointIndex name = .ok k ∧ k ≤ i
  | _ => False

/-- A call adds a step, or it takes strokes, if any. -/
theorem after_cases (t : Transaction σ) (w : σ) (c : Call σ) :
    (t.incidents w c = [] ∧
      ∃ s, s.isEligible = false ∧ (t.after w c).1.steps = t.steps ++ [s]) ∨
    Strokes t.steps (t.incidents w c) (t.after w c).1.steps := by
  cases c with
  | addStep name? description action inverse => exact .inl ⟨rfl, _, rfl, rfl⟩
  | addValidation name? description action => exact .inl ⟨rfl, _, rfl, rfl⟩
  | execute continueOnError =>
    obtain ⟨es, hnotes, hstrokes⟩ := t.exists_execute_recorded continueOnError w
    rw [incidents, hnotes]
    exact .inr (.cons (.begin t.steps) hstrokes)
  | rollback reason =>
    obtain ⟨es, hnotes, hstrokes, -⟩ := t.exists_rollback_recorded reason w
    rw [incidents, hnotes]
    exact .inr hstrokes
  | createCheckpoint name => exact .inr (.nil _)
  | rollbackTo name reason? =>
    obtain ⟨es, hnotes, hstrokes, -⟩ := t.exists_rollbackTo_recorded name reason? w
    rw [incidents, hnotes]
    exact .inr hstrokes
  | meanwhile change => exact .inr (.nil _)

/-- In a call that sweeps a step that has something to undo, its inverse action is invoked. -/
theorem Sweeps.exists_undone {t : Transaction σ} {i : Nat} {c : Call σ}
    (h : t.Sweeps i c) {s : TransactionStep σ} (hi : t.steps[i]? = some s) (hs : s.isEligible)
    (w : σ) : ∃ o, .undone i o ∈ t.incidents w c := by
  cases c with
  | rollback reason =>
    obtain ⟨es, hnotes, -, hnoted⟩ := t.exists_rollback_recorded reason w
    rw [incidents, hnotes]
    exact hnoted i s hi hs
  | rollbackTo name reason? =>
    obtain ⟨es, hnotes, -, hnoted⟩ := t.exists_rollbackTo_recorded name reason? w
    obtain ⟨k, hk, hle⟩ := h
    rw [incidents, hnotes]
    exact hnoted k hk i s hle hi hs
  | _ => exact h.elim

/-- A transaction in its world, with its history. -/
structure Session (σ : Type) where
  transaction : Transaction σ
  world : σ
  history : List Incident := []

namespace Session

/-- A new transaction. -/
def new (operation : OperationId) (timeout : Duration) (w : σ) : Session σ where
  transaction := (create operation timeout w).1
  world := w

/-- The session after a call. -/
def call (s : Session σ) (c : Call σ) : Session σ where
  transaction := (s.transaction.after s.world c).1
  world := (s.transaction.after s.world c).2
  history := s.history ++ s.transaction.incidents s.world c

/-- The session after some calls. -/
def run (s : Session σ) (cs : List (Call σ)) : Session σ := cs.foldl call s

theorem run_append (s : Session σ) (cs cs' : List (Call σ)) :
    s.run (cs ++ cs') = (s.run cs).run cs' := List.foldl_append

end Session

end Transaction

end Upkeep
