import Upkeep.Proofs.Transaction.Steps

/-!
# Rolling back what was executed

**Compensation.** What matters of a world is given by a view of it: the view may leave out a clock,
or whatever else decides how an action ends. A step compensates under a view if a failing run leaves
the view as it was and if, wherever the view is the one after a successful run, the inverse action
works and brings back the view before it.

**Reverting.** Steps revert a world to another if sweeping them from it works throughout and gives
the view of the other (`Reverts`). Steps of which none is to be undone revert a world to itself; a
step that has just run is put before steps that revert to the world after its run, and the whole
then reverts to the world before it (`Reverts.ran`). So executing leaves steps that revert the world
after it to the world before it, wherever it stopped (`reverts_executeSteps`), and a rollback
restores the view (`rollback_execute`).
-/

namespace Upkeep

variable {σ τ : Type}

/-- A failing run of the step leaves the view of the world as it was, and the inverse action takes a
successful run back. -/
structure TransactionStep.Compensates (view : σ → τ) (s : TransactionStep σ) : Prop where
  fails : ∀ w, (s.action w).1 ≠ .success → view (s.action w).2 = view w
  restores : ∀ w v, (s.action w).1 = .success → view v = view (s.action w).2 →
    (s.inverse v).1 = .success ∧ view (s.inverse v).2 = view w

variable {view : σ → τ}

theorem TransactionStep.Compensates.reset {s : TransactionStep σ} (h : s.Compensates view) :
    s.reset.Compensates view := ⟨h.fails, h.restores⟩

namespace Transaction

open TransactionStep

/-- Sweeping the steps where the view is that of `v` works throughout and gives the view of `w`. -/
def Reverts (view : σ → τ) (ss : List (TransactionStep σ)) (v w : σ) : Prop :=
  ∀ tell v', view v' = view v →
    (undoSteps tell ss v').isClean ∧ view (undoSteps tell ss v').world = view w

theorem Reverts.of_forall_not_isEligible {ss : List (TransactionStep σ)}
    (h : ∀ s ∈ ss, s.isEligible = false) (w : σ) : Reverts view ss w w := by
  intro tell v' hv'
  rw [undoSteps_eq_self h]
  exact ⟨rfl, hv'⟩

theorem Reverts.ran [Clock σ] {s : TransactionStep σ} (hs : s.Compensates view)
    {r : List (TransactionStep σ)} {v w : σ} (hr : Reverts view r v (s.run w).2.2) :
    Reverts view ((s.run w).2.1 :: r) v w := by
  intro tell v' hv'
  obtain ⟨hclean, hlater⟩ := hr tell v' hv'
  have hworld : view (undoSteps tell r v').world = view (s.action w).2 := by
    rw [hlater, run_eq]
  by_cases hok : (s.action w).1 = .success
  · obtain ⟨hworks, hback⟩ := hs.restores w _ hok hworld
    have hran : (s.run w).2.1.isEligible := (s.isEligible_run w).2 hok
    rw [undoSteps_of_isEligible hran, undo_eq, run_eq]
    refine ⟨Bool.and_eq_true_iff.2 ⟨hclean, ?_⟩, hback⟩
    exact Option.isNone_iff_eq_none.2 (fault?_eq_none_iff.2 hworks)
  · have hran : (s.run w).2.1.isEligible = false :=
      Bool.eq_false_iff.2 fun hran => hok ((s.isEligible_run w).1 hran)
    rw [undoSteps_of_not_isEligible hran]
    exact ⟨hclean, hworld.trans (hs.fails w hok)⟩

/-- Executing steps of which none is to be undone leaves steps that revert what it did to the world,
wherever it stopped. -/
theorem reverts_executeSteps [Clock σ] (timeout : Duration) (startedAt : Nat)
    (continueOnError : Bool) (i : Nat) {ss : List (TransactionStep σ)}
    (hss : ∀ s ∈ ss, s.Compensates view) (hfresh : ∀ s ∈ ss, s.isEligible = false) (w : σ) :
    let run := executeSteps timeout startedAt continueOnError i ss w
    Reverts view run.steps run.world w := by
  induction ss generalizing i w with
  | nil => exact .of_forall_not_isEligible hfresh w
  | cons s r ih =>
    obtain ⟨hs, hr⟩ := List.forall_mem_cons.1 hss
    have hrest := (List.forall_mem_cons.1 hfresh).2
    by_cases hlate : timeout.nanos < Clock.now w - startedAt
    · rw [executeSteps_late hlate]
      exact .of_forall_not_isEligible hfresh w
    by_cases hstop : (s.run w).1.isSome && !continueOnError
    · rw [executeSteps_stopped hlate hstop]
      exact (Reverts.of_forall_not_isEligible hrest _).ran hs
    · rw [executeSteps_passed hlate hstop]
      exact (ih (i + 1) hr hrest (s.run w).2.2).ran hs

/-- A rollback after an execution works, leaves nothing to undo and restores the world, whatever
failed and whether the execution came to its end. -/
theorem rollback_execute [Clock σ] {t : Transaction σ} (h : ∀ s ∈ t.steps, s.Compensates view)
    (continueOnError : Bool) (w : σ) {v : σ}
    (hv : view v = view (t.execute continueOnError w).world) (reason : String) :
    let back := (t.execute continueOnError w).transaction.rollback reason v
    back.value = true ∧ back.transaction.state = .rolledBack ∧
      (∀ s ∈ back.transaction.steps, s.isEligible = false) ∧ view back.world = view w := by
  have hreset : ∀ s ∈ t.steps.map (·.reset), s.Compensates view :=
    List.forall_mem_map.2 fun s hs => (h s hs).reset
  have hfresh : ∀ s ∈ t.steps.map (·.reset), s.isEligible = false :=
    List.forall_mem_map.2 fun s _ => isEligible_reset s
  obtain ⟨hclean, hworld⟩ :=
    reverts_executeSteps t.timeout t.startedAt continueOnError 0 hreset hfresh w undoReports v hv
  exact ⟨hclean, if_pos hclean, not_isEligible_of_isClean hclean, hworld⟩

end Transaction

/-! ## A shelf -/

/-- A shelf with a clock. -/
structure Shelf where
  items : List Nat := []
  now : Nat := 0

namespace Shelf

instance : Clock Shelf := ⟨now⟩

/-- Puts an item on top, which takes some time. -/
def put (item time : Nat) : Action Shelf :=
  fun w => (.success, { items := item :: w.items, now := w.now + time })

/-- Takes the topmost item away. -/
def take : Action Shelf := fun w => (.success, { items := w.items.tail, now := w.now + 1 })

/-- Breaks down, which takes some time too. -/
def stumble : Action Shelf := fun w => (.breakdown none, { w with now := w.now + 1 })

/-- Puts three items on the shelf with a stumble between, and a fourth if there is time. -/
def filling : Transaction Shelf where
  operation := ⟨"filling", by decide, by decide⟩
  timeout := .ofNanos 10
  startedAt := 0
  steps := [
    { name := "a", description := "put 1", action := put 1 1, inverse := take },
    { name := "b", description := "stumble", action := stumble, inverse := stumble },
    { name := "c", description := "put 2", action := put 2 1, inverse := take },
    { name := "d", description := "put 3", action := put 3 9, inverse := take },
    { name := "e", description := "put 4", action := put 4 1, inverse := take }]

theorem compensates_put {s : TransactionStep Shelf} {item time : Nat}
    (hs : s.action = put item time) (hinverse : s.inverse = take) : s.Compensates items where
  fails := fun w h => absurd (by rw [hs]; rfl) h
  restores := fun w v _ hv => by
    rw [hs] at hv
    rw [hinverse]
    exact ⟨rfl, congrArg List.tail hv⟩

theorem compensates_stumble {s : TransactionStep Shelf} (hs : s.action = stumble) :
    s.Compensates items where
  fails := fun w _ => by rw [hs]; rfl
  restores := fun w v h => by
    rw [hs] at h
    exact absurd h Outcome.noConfusion

theorem compensates_filling : ∀ s ∈ filling.steps, s.Compensates items := by
  simp only [filling, List.forall_mem_cons]
  exact ⟨compensates_put rfl rfl, compensates_stumble rfl, compensates_put rfl rfl,
    compensates_put rfl rfl, compensates_put rfl rfl, List.forall_mem_nil _⟩

end Shelf

/-- Time runs out after the third item; a rollback in a later world takes all three away. -/
theorem Transaction.rollback_execute_filling :
    let done := Shelf.filling.execute true { items := [7] }
    let later : Shelf := { done.world with now := 100 }
    let back := done.transaction.rollback "too late" later
    done.value = false ∧ done.world.items = [3, 2, 1, 7] ∧
      back.value = true ∧ back.transaction.state = .rolledBack ∧
      (∀ s ∈ back.transaction.steps, s.isEligible = false) ∧ back.world.items = [7] := by
  intro done later back
  have hlater : later.items = done.world.items := rfl
  exact ⟨by decide, by decide,
    rollback_execute Shelf.compensates_filling true { items := [7] } hlater "too late"⟩

end Upkeep
