import Upkeep.Transaction.Basic

/-!
# What the steps of a transaction go through

One run and one undoing of a step, each in a single equation (`run_eq`, `undo_eq`), and the two
walks over the steps, unfolded at their first step. A step that ran is to be undone exactly if its
action succeeded; a sweep that nothing spoiled leaves no step to be undone.
-/

namespace Upkeep

namespace TransactionStep

variable {σ : Type}

theorem fault?_eq_none_iff {o : Outcome} : fault? o = none ↔ o = .success := by
  cases o <;> simp [fault?, Outcome.fault?]

@[simp] theorem isEligible_reset (s : TransactionStep σ) : s.reset.isEligible = false := rfl

theorem run_eq [Clock σ] (s : TransactionStep σ) (w : σ) :
    s.run w =
      (fault? (s.action w).1,
        { s.reset with
          isCompleted := (fault? (s.action w).1).isNone
          error := fault? (s.action w).1
          executionTime := some (.ofNanos (Clock.now (s.action w).2 - Clock.now w)) },
        (s.action w).2) := by
  unfold run
  dsimp only
  cases fault? (s.action w).1 <;> rfl

theorem undo_eq (s : TransactionStep σ) (w : σ) :
    s.undo w =
      (fault? (s.inverse w).1,
        { s with isUndone := s.isUndone || (fault? (s.inverse w).1).isNone },
        (s.inverse w).2) := by
  unfold undo
  dsimp only
  cases fault? (s.inverse w).1
  · rw [Option.isNone_none, Bool.or_true]
  · rw [Option.isNone_some, Bool.or_false]

theorem fault_undo (s : TransactionStep σ) (w : σ) : (s.undo w).1 = fault? (s.inverse w).1 := by
  rw [undo_eq]

/-- A step that ran is to be undone exactly if its action succeeded. -/
theorem isEligible_run [Clock σ] (s : TransactionStep σ) (w : σ) :
    (s.run w).2.1.isEligible ↔ (s.action w).1 = .success := by
  rw [run_eq, isEligible, reset, Bool.not_false, Bool.and_true, Option.isNone_iff_eq_none,
    fault?_eq_none_iff]

/-- A step whose undoing was tried is still to be undone exactly if its inverse action failed. -/
theorem isEligible_undo {s : TransactionStep σ} (h : s.isEligible) (w : σ) :
    (s.undo w).2.1.isEligible ↔ (s.inverse w).1 ≠ .success := by
  obtain ⟨hdone, hundone⟩ := Bool.and_eq_true_iff.1 h
  rw [Bool.not_eq_true'] at hundone
  rw [undo_eq, isEligible, hdone, hundone, Bool.true_and, Bool.false_or, Bool.not_eq_true',
    Option.isNone_eq_false_iff, Option.isSome_iff_ne_none, ne_eq, fault?_eq_none_iff]

end TransactionStep

namespace Transaction

open TransactionStep

variable {σ : Type}

section Execution

variable [Clock σ] {timeout : Duration} {startedAt : Nat} {continueOnError : Bool} {i : Nat}
  {s : TransactionStep σ} {r : List (TransactionStep σ)} {w : σ}

theorem executeSteps_late (hlate : timeout.nanos < Clock.now w - startedAt) :
    executeSteps timeout startedAt continueOnError i (s :: r) w =
      ⟨s :: r, w, [timeoutReport timeout (Clock.now w - startedAt) s], some i, false⟩ :=
  if_pos hlate

theorem executeSteps_stopped (hlate : ¬timeout.nanos < Clock.now w - startedAt)
    (hstop : (s.run w).1.isSome && !continueOnError) :
    executeSteps timeout startedAt continueOnError i (s :: r) w =
      ⟨(s.run w).2.1 :: r, (s.run w).2.2,
        stepReports s (s.run w).1 (s.run w).2.1.executionTime, some i, false⟩ :=
  (if_neg hlate).trans (if_pos hstop)

theorem executeSteps_passed (hlate : ¬timeout.nanos < Clock.now w - startedAt)
    (hstop : ¬((s.run w).1.isSome && !continueOnError)) :
    executeSteps timeout startedAt continueOnError i (s :: r) w =
      ⟨(s.run w).2.1 ::
          (executeSteps timeout startedAt continueOnError (i + 1) r (s.run w).2.2).steps,
        (executeSteps timeout startedAt continueOnError (i + 1) r (s.run w).2.2).world,
        stepReports s (s.run w).1 (s.run w).2.1.executionTime ++
          (executeSteps timeout startedAt continueOnError (i + 1) r (s.run w).2.2).reports,
        (executeSteps timeout startedAt continueOnError (i + 1) r (s.run w).2.2).last <|> some i,
        (executeSteps timeout startedAt continueOnError (i + 1) r (s.run w).2.2).isDone⟩ :=
  (if_neg hlate).trans (if_neg hstop)

end Execution

section Sweep

variable {tell : TransactionStep σ → Option String → List Report} {s : TransactionStep σ}

theorem undoSteps_of_isEligible (hs : s.isEligible) (r : List (TransactionStep σ)) (w : σ) :
    undoSteps tell (s :: r) w =
      ⟨(s.undo (undoSteps tell r w).world).2.1 :: (undoSteps tell r w).steps,
        (s.undo (undoSteps tell r w).world).2.2,
        (undoSteps tell r w).reports ++ tell s (s.undo (undoSteps tell r w).world).1,
        (undoSteps tell r w).isClean && (s.undo (undoSteps tell r w).world).1.isNone⟩ :=
  if_pos hs

theorem undoSteps_of_not_isEligible (hs : s.isEligible = false) (r : List (TransactionStep σ))
    (w : σ) :
    undoSteps tell (s :: r) w =
      ⟨s :: (undoSteps tell r w).steps, (undoSteps tell r w).world, (undoSteps tell r w).reports,
        (undoSteps tell r w).isClean⟩ :=
  if_neg (Bool.eq_false_iff.1 hs)

/-- Where there is nothing to undo, a sweep does nothing. -/
theorem undoSteps_eq_self {ss : List (TransactionStep σ)} (h : ∀ s ∈ ss, s.isEligible = false)
    (w : σ) : undoSteps tell ss w = ⟨ss, w, [], true⟩ := by
  induction ss with
  | nil => rfl
  | cons s r ih =>
    obtain ⟨hs, hr⟩ := List.forall_mem_cons.1 h
    rw [undoSteps_of_not_isEligible hs, ih hr]

/-- A sweep that nothing spoiled leaves nothing to undo. -/
theorem not_isEligible_of_isClean {ss : List (TransactionStep σ)} {w : σ}
    (h : (undoSteps tell ss w).isClean) :
    ∀ s ∈ (undoSteps tell ss w).steps, s.isEligible = false := by
  induction ss with
  | nil => exact fun s hs => absurd hs List.not_mem_nil
  | cons s r ih =>
    by_cases hs : s.isEligible
    · rw [undoSteps_of_isEligible hs] at h ⊢
      obtain ⟨hlater, hfault⟩ := Bool.and_eq_true_iff.1 h
      rw [fault_undo, Option.isNone_iff_eq_none, fault?_eq_none_iff] at hfault
      refine List.forall_mem_cons.2 ⟨Bool.eq_false_iff.2 fun hleft => ?_, ih hlater⟩
      exact (isEligible_undo hs _).1 hleft hfault
    · have hs' := Bool.eq_false_iff.2 hs
      rw [undoSteps_of_not_isEligible hs'] at h ⊢
      exact List.forall_mem_cons.2 ⟨hs', ih h⟩

end Sweep

end Transaction

end Upkeep
