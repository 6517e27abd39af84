import Upkeep.Proofs.Transaction.Histories

/-!
# What holds of a transaction after every call

**Steps.** The record of a step is coherent if it tells of one outcome at most: what was undone had
completed, nothing both completed and failed, and the time is noted of what did either
(`TransactionStep.Coherent`). Every stroke leaves coherent steps, as many as before
(`Strokes.coherent`, `Strokes.length_eq`).

**Checkpoints.** The creations of checkpoints are listed with the position that was current at each
(`created`). Marking a name anew changes its position and nothing else, so the checkpoints are the
names of that list, each once and in the order of their first creation, with their latest positions.

**Transactions.** All this, and that no call leaves the transaction amid its work or with anything
to undo where it says that all was undone, is one invariant (`Coherent`). Every call keeps it
(`Coherent.call`), and so it holds at the end of every session (`Session.coherent_calls`).
-/

namespace Upkeep

variable {σ : Type}

/-! ## Steps -/

namespace TransactionStep

/-- The record of a step tells of one outcome at most. -/
structure Coherent (s : TransactionStep σ) : Prop where
  completed_of_undone : s.isUndone → s.isCompleted
  error_of_completed : s.isCompleted → s.error = none
  timed_iff : s.executionTime.isSome ↔ s.isCompleted ∨ s.error.isSome

theorem coherent_reset (s : TransactionStep σ) : s.reset.Coherent := ⟨id, nofun, by simp [reset]⟩

theorem coherent_run [Clock σ] (s : TransactionStep σ) (w : σ) : (s.run w).2.1.Coherent := by
  rw [run_eq]
  cases fault? (s.action w).1 with
  | none => exact ⟨nofun, fun _ => rfl, by simp⟩
  | some e => exact ⟨nofun, nofun, by simp⟩

theorem Coherent.undo {s : TransactionStep σ} (h : s.Coherent) (hs : s.isEligible) (w : σ) :
    (s.undo w).2.1.Coherent := by
  have hcompleted : s.isCompleted := (Bool.and_eq_true_iff.1 hs).1
  rw [undo_eq]
  exact ⟨fun _ => hcompleted, h.error_of_completed, h.timed_iff⟩

end TransactionStep

open TransactionStep

section Strokes

variable [Clock σ] {ss ss' : List (TransactionStep σ)} {e : Incident} {es : List Incident}

theorem Stroke.coherent (h : Stroke ss e ss') (hss : ∀ s ∈ ss, s.Coherent) :
    ∀ s ∈ ss', s.Coherent := by
  cases h with
  | begin => exact List.forall_mem_map.2 fun s _ => coherent_reset s
  | run hi hs w =>
    intro s hmem
    rcases List.mem_or_eq_of_mem_set hmem with hmem | rfl
    · exact hss s hmem
    · exact coherent_run _ w
  | undo hi hs w =>
    intro s hmem
    rcases List.mem_or_eq_of_mem_set hmem with hmem | rfl
    · exact hss s hmem
    · exact (hss _ (List.mem_of_getElem? hi)).undo hs w

theorem Strokes.coherent (h : Strokes ss es ss') (hss : ∀ s ∈ ss, s.Coherent) :
    ∀ s ∈ ss', s.Coherent := by
  induction h with
  | nil ss => exact hss
  | cons first rest ih => exact ih (first.coherent hss)

theorem Strokes.length_eq (h : Strokes ss es ss') : ss'.length = ss.length := by
  induction h with
  | nil ss => rfl
  | cons first rest ih =>
    rw [ih]
    cases first with
    | begin => exact List.length_map _
    | run hi hs w => exact List.length_set
    | undo hi hs w => exact List.length_set

end Strokes

namespace Transaction

/-! ## Checkpoints -/

theorem map_fst_mark (name : String) (i : Nat) (cs : List (String × Nat)) :
    (mark name i cs).map Prod.fst =
      if name ∈ cs.map Prod.fst then cs.map Prod.fst else cs.map Prod.fst ++ [name] := by
  have hany : cs.any (·.1 = name) ↔ name ∈ cs.map Prod.fst := by simp
  unfold mark
  by_cases hname : name ∈ cs.map Prod.fst
  · rw [if_pos (hany.2 hname), if_pos hname, List.map_map]
    refine List.map_congr_left fun c _ => ?_
    by_cases hc : c.1 = name <;> simp [hc]
  · rw [if_neg (mt hany.1 hname), if_neg hname, List.map_append]
    rfl

/-- After a name was marked, it has the new position and all others have their old ones. -/
theorem mem_mark {name : String} {i : Nat} {cs : List (String × Nat)} {c : String × Nat}
    (h : c ∈ mark name i cs) : c = (name, i) ∨ c ∈ cs ∧ c.1 ≠ name := by
  unfold mark at h
  split at h
  · obtain ⟨c', hc', rfl⟩ := List.mem_map.1 h
    by_cases hname : c'.1 = name
    · exact .inl (if_pos hname)
    · rw [if_neg hname]
      exact .inr ⟨hc', hname⟩
  · rename_i hany
    rcases List.mem_append.1 h with hmem | hlast
    · exact .inr ⟨hmem, fun hname => hany (List.any_eq_true.2 ⟨c, hmem, by simp [hname]⟩)⟩
    · exact .inl (List.mem_singleton.1 hlast)

/-- The checkpoints are those of a list of creations: each name once, in the order of the first
creations, with its latest position. -/
structure Records (made cs : List (String × Nat)) : Prop where
  distinct : (cs.map Prod.fst).Nodup
  names : cs.map Prod.fst = (made.map Prod.fst).eraseDups
  latest : ∀ c ∈ cs, made.reverse.lookup c.1 = some c.2

theorem records_nil : Records [] [] := ⟨List.nodup_nil, rfl, nofun⟩

theorem Records.mark {made cs : List (String × Nat)} (h : Records made cs) (name : String)
    (i : Nat) : Records (made ++ [(name, i)]) (mark name i cs) where
  distinct := by
    rw [map_fst_mark]
    split
    · exact h.distinct
    · rename_i hname
      refine List.nodup_append.2 ⟨h.distinct, by simp, fun a ha b hb heq => hname ?_⟩
      rwa [← List.mem_singleton.1 hb, ← heq]
  names := by
    have hmem : name ∈ cs.map Prod.fst ↔ name ∈ made.map Prod.fst := by
      rw [h.names, List.mem_eraseDups]
    rw [map_fst_mark, List.map_append, List.eraseDups_append, ← h.names]
    by_cases hname : name ∈ made.map Prod.fst
    · rw [if_pos (hmem.2 hname)]
      simp [List.removeAll, hname]
    · rw [if_neg (mt hmem.1 hname)]
      simp [List.removeAll, hname, List.eraseDups_cons]
  latest c hc := by
    rw [List.reverse_append, List.reverse_singleton, List.singleton_append]
    rcases mem_mark hc with rfl | ⟨hmem, hname⟩
    · exact List.lookup_cons_self
    · rw [List.lookup_cons, beq_eq_false_iff_ne.2 hname]
      exact h.latest c hmem

/-! ## Calls -/

section Calls

variable [Clock σ] {t : Transaction σ} {w : σ}

/-- The position reached last is one of the steps executed, and if none was, there are none. -/
theorem last_executeSteps (timeout : Duration) (startedAt : Nat) (continueOnError : Bool) (i : Nat)
    (ss : List (TransactionStep σ)) (w : σ) :
    (executeSteps timeout startedAt continueOnError i ss w).last.getD 0 < i + ss.length ∨
      (executeSteps timeout startedAt continueOnError i ss w).last = none ∧ ss = [] := by
  induction ss generalizing i w with
  | nil => exact .inr ⟨rfl, rfl⟩
  | cons s r ih =>
    rw [List.length_cons]
    by_cases hlate : timeout.nanos < Clock.now w - startedAt
    · rw [executeSteps_late hlate, Option.getD_some]
      exact .inl (by omega)
    by_cases hstop : (s.run w).1.isSome && !continueOnError
    · rw [executeSteps_stopped hlate hstop, Option.getD_some]
      exact .inl (by omega)
    · rw [executeSteps_passed hlate hstop]
      rcases ih (i + 1) (s.run w).2.2 with hlt | ⟨hnone, -⟩
      · dsimp only
        cases hlast : (executeSteps timeout startedAt continueOnError (i + 1) r
            (s.run w).2.2).last with
        | none => exact .inl (by simp)
        | some j =>
          rw [hlast, Option.getD_some] at hlt
          have hsum : i + (r.length + 1) = i + 1 + r.length := by omega
          exact .inl (hsum ▸ hlt)
      · dsimp only
        rw [hnone]
        exact .inl (by simp)

theorem current_execute (continueOnError : Bool) (h : t.current = 0 ∨ t.current < t.steps.length) :
    (t.execute continueOnError w).transaction.current = 0 ∨
      (t.execute continueOnError w).transaction.current < t.steps.length := by
  have hlast := last_executeSteps t.timeout t.startedAt continueOnError 0 (t.steps.map (·.reset)) w
  rw [List.length_map, Nat.zero_add] at hlast
  show Option.getD _ _ = 0 ∨ Option.getD _ _ < _
  cases hrun : (executeSteps t.timeout t.startedAt continueOnError 0 (t.steps.map (·.reset))
      w).last with
  | none => exact h
  | some j =>
    rw [hrun] at hlast
    rcases hlast with hlt | ⟨hnone, -⟩
    · exact .inr hlt
    · exact absurd hnone (Option.some_ne_none j)

omit [Clock σ] in
/-- Where nothing is to be undone, nothing is after a rollback to a checkpoint. -/
theorem not_isEligible_rollbackTo (name : String) (reason? : Option String)
    (h : ∀ s ∈ t.steps, s.isEligible = false) :
    ∀ s ∈ (t.rollbackTo name reason? w).transaction.steps, s.isEligible = false := by
  unfold rollbackTo
  split
  · exact h
  · rename_i k _
    dsimp only
    rw [undoSteps_eq_self fun s hs => h s (List.mem_of_mem_drop hs), List.take_append_drop]
    exact h

end Calls

/-! ## Transactions -/

/-- What holds of a transaction in which some checkpoints were created. -/
structure Coherent (made : List (String × Nat)) (t : Transaction σ) : Prop where
  /-- No call is under way. -/
  settled : t.state ≠ .executing ∧ t.state ≠ .rollingBack
  steps : ∀ s ∈ t.steps, s.Coherent
  current : t.current = 0 ∨ t.current < t.steps.length
  checkpoints : Records made t.checkpoints
  /-- Where all was rolled back, nothing is to be undone. -/
  nothingLeft : t.state = .rolledBack → ∀ s ∈ t.steps, s.isEligible = false

/-- The checkpoint that a call creates, with the position that is current. -/
def created (t : Transaction σ) : Call σ → List (String × Nat)
  | .createCheckpoint name => [(name, t.current)]
  | .addStep .. | .addValidation .. | .execute .. | .rollback .. | .rollbackTo .. | .meanwhile .. =>
    []

theorem Coherent.push {made : List (String × Nat)} {t : Transaction σ} (h : t.Coherent made)
    {s : TransactionStep σ} (hs : s.Coherent) (hfresh : s.isEligible = false) :
    (t.push s).1.Coherent made where
  settled := h.settled
  steps := List.forall_mem_append.2 ⟨h.steps, List.forall_mem_singleton.2 hs⟩
  current := by
    show t.current = 0 ∨ t.current < (t.steps ++ [s]).length
    rw [List.length_append]
    exact h.current.imp_right Nat.lt_succ_of_lt
  checkpoints := h.checkpoints
  nothingLeft hstate :=
    List.forall_mem_append.2 ⟨h.nothingLeft hstate, List.forall_mem_singleton.2 hfresh⟩

section Calls

variable [Clock σ] {made : List (String × Nat)} {t : Transaction σ}

theorem Coherent.execute (h : t.Coherent made) (continueOnError : Bool) (w : σ) :
    (t.execute continueOnError w).transaction.Coherent made := by
  obtain ⟨es, -, hstrokes⟩ := t.exists_execute_recorded continueOnError w
  have hlength := hstrokes.length_eq
  rw [List.length_map] at hlength
  exact {
    settled := by
      show ite _ _ _ ≠ _ ∧ ite _ _ _ ≠ _
      split <;> exact ⟨nofun, nofun⟩
    steps := hstrokes.coherent (List.forall_mem_map.2 fun s _ => coherent_reset s)
    current := by
      rw [hlength]
      exact current_execute continueOnError h.current
    checkpoints := h.checkpoints
    nothingLeft := by
      show ite _ _ _ = _ → _
      split <;> nofun }

theorem Coherent.rollback (h : t.Coherent made) (reason : String) (w : σ) :
    (t.rollback reason w).transaction.Coherent made := by
  obtain ⟨es, -, hstrokes, -⟩ := t.exists_rollback_recorded reason w
  exact {
    settled := by
      show ite _ _ _ ≠ _ ∧ ite _ _ _ ≠ _
      split <;> exact ⟨nofun, nofun⟩
    steps := hstrokes.coherent h.steps
    current := hstrokes.length_eq ▸ h.current
    checkpoints := h.checkpoints
    nothingLeft := by
      show ite _ _ _ = _ → _
      split
      · rename_i hclean
        exact fun _ => not_isEligible_of_isClean hclean
      · nofun }

/-- Only the steps are changed, whether there is such a checkpoint or not. -/
theorem Coherent.rollbackTo (h : t.Coherent made) (name : String) (reason? : Option String)
    (w : σ) :
    (t.rollbackTo name reason? w).transaction.Coherent made := by
  obtain ⟨es, -, hstrokes, -⟩ := t.exists_rollbackTo_recorded name reason? w
  obtain ⟨ss, hss⟩ : ∃ ss, (t.rollbackTo name reason? w).transaction = { t with steps := ss } := by
    unfold Transaction.rollbackTo
    split
    · exact ⟨t.steps, rfl⟩
    · exact ⟨_, rfl⟩
  have hleft := not_isEligible_rollbackTo (t := t) (w := w) name reason?
  rw [hss] at hstrokes hleft ⊢
  exact {
    settled := h.settled
    steps := hstrokes.coherent h.steps
    current := hstrokes.length_eq ▸ h.current
    checkpoints := h.checkpoints
    nothingLeft := fun hstate => hleft (h.nothingLeft hstate) }

theorem Coherent.call (h : t.Coherent made) (w : σ) (c : Call σ) :
    (t.after w c).1.Coherent (made ++ t.created c) := by
  cases c with
  | addStep name? description action inverse =>
    rw [created, List.append_nil]
    exact h.push ⟨nofun, nofun, by simp⟩ rfl
  | addValidation name? description action =>
    rw [created, List.append_nil]
    exact h.push ⟨nofun, nofun, by simp⟩ rfl
  | execute continueOnError =>
    rw [created, List.append_nil]
    exact h.execute continueOnError w
  | rollback reason =>
    rw [created, List.append_nil]
    exact h.rollback reason w
  | createCheckpoint name =>
    exact { h with checkpoints := h.checkpoints.mark name t.current }
  | rollbackTo name reason? =>
    rw [created, List.append_nil]
    exact h.rollbackTo name reason? w
  | meanwhile change =>
    rw [created, List.append_nil]
    exact h

end Calls

/-- Completed and failed steps are different steps. -/
theorem Coherent.status_le {made : List (String × Nat)} {t : Transaction σ} (h : t.Coherent made) :
    t.status.completedSteps + t.status.failedSteps ≤ t.status.totalSteps := by
  have hfailed : t.steps.countP (·.error.isSome) ≤
      t.steps.countP fun s => decide ¬s.isCompleted = true := by
    refine List.countP_mono_left fun s hs herror => decide_eq_true fun hcompleted => ?_
    rw [(h.steps s hs).error_of_completed hcompleted] at herror
    exact Bool.false_ne_true herror
  have htotal := List.length_eq_countP_add_countP (fun s : TransactionStep σ => s.isCompleted)
    (l := t.steps)
  show t.steps.countP _ + t.steps.countP _ ≤ t.steps.length
  omega

/-! ## Sessions -/

namespace Session

/-- The checkpoints that some calls create, each with the position that is current then. -/
def created [Clock σ] (s : Session σ) : List (Call σ) → List (String × Nat)
  | [] => []
  | c :: cs => s.transaction.created c ++ created (s.call c) cs

variable [Clock σ]

theorem coherent_run_of_coherent {s : Session σ} {made : List (String × Nat)}
    (h : s.transaction.Coherent made) (cs : List (Call σ)) :
    (s.run cs).transaction.Coherent (made ++ s.created cs) := by
  induction cs generalizing s made with
  | nil =>
    rw [created, List.append_nil]
    exact h
  | cons c cs ih =>
    rw [created, ← List.append_assoc]
    exact ih (h.call s.world c)

/-- Whatever is done with a transaction, it is coherent after every call, and its status tells what
it has come to. -/
theorem coherent_calls (operation : OperationId) (timeout : Duration) (w : σ) (cs : List (Call σ)) :
    let s := new operation timeout w
    let t := (s.run cs).transaction
    t.Coherent (s.created cs) ∧
      t.status = {
        operation := t.operation
        state := t.state
        totalSteps := t.steps.length
        completedSteps := (t.steps.filter (·.isCompleted)).length
        failedSteps := (t.steps.filter (·.error.isSome)).length
        currentIndex := t.current
        checkpoints := ((s.created cs).map Prod.fst).eraseDups } ∧
      t.status.completedSteps + t.status.failedSteps ≤ t.status.totalSteps := by
  intro s t
  have hnew : s.transaction.Coherent [] :=
    ⟨⟨nofun, nofun⟩, nofun, .inl rfl, records_nil, nofun⟩
  have hrun : t.Coherent (s.created cs) := coherent_run_of_coherent hnew cs
  refine ⟨hrun, ?_, hrun.status_le⟩
  rw [← hrun.checkpoints.names, ← List.countP_eq_length_filter, ← List.countP_eq_length_filter]
  rfl

end Session

end Transaction

end Upkeep
