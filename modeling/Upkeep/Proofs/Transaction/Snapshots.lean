import Mathlib.Data.List.Induction
import Upkeep.Json.Access
import Upkeep.Proofs.Transaction.Coherence
import Upkeep.Proofs.Transaction.Execution
import Upkeep.Proofs.Transaction.Sweeps
import Upkeep.Proofs.Transaction.Undoing

/-!
# What a checkpoint tells of the steps

**Snapshots.** Creating a checkpoint reports the names of the steps that have completed and of those
that are pending, divided at the current position (`snapshot`). That is the truth if no step from
there on has completed (`Truthful`, `truthful_iff`).

**The current position.** An execution that stops leaves it at the stop, and no step from there on
has completed. One that comes to its end leaves it at the last step, whatever became of that
(`execute_cases`). No other call moves it, or completes a step (`after_of_not_execute`).

**Sessions.** So, by induction on the calls from the last one back, no step behind the current one
has ever completed, and the current one has exactly if the latest execution went through: it came to
its end, and its last step succeeded (`Located`, `Session.located_run`). Exactly then a snapshot is
wrong, for it names the current step as pending (`Session.snapshot_run`, `exists_not_truthful`).
-/

namespace Upkeep

open TransactionStep

namespace Transaction

variable {σ : Type}

/-! ## Snapshots -/

theorem createCheckpoint_snd (t : Transaction σ) (name : String) :
    (t.createCheckpoint name).2 = [.checkpoint name t.snapshot] := rfl

/-- The names that a snapshot gives under a key. -/
def namesUnder (key : String) (state : Json) : List String :=
  ((state.get? key).elim [] Json.items).filterMap Json.str?

/-- The steps that have completed are named as completed, and none of them as pending. -/
def Truthful (ss : List (TransactionStep σ)) (state : Json) : Prop :=
  ∀ s ∈ ss, s.isCompleted →
    s.name ∈ namesUnder "completed_steps" state ∧ s.name ∉ namesUnder "pending_steps" state

theorem filterMap_str? (names : List String) :
    (names.map Json.str).filterMap Json.str? = names := by
  rw [List.filterMap_map]
  exact List.filterMap_some

theorem namesUnder_completed (t : Transaction σ) :
    namesUnder "completed_steps" t.snapshot = t.completedBefore t.current :=
  filterMap_str? (t.completedBefore t.current)

theorem namesUnder_pending (t : Transaction σ) :
    namesUnder "pending_steps" t.snapshot = t.pendingFrom t.current :=
  filterMap_str? (t.pendingFrom t.current)

/-- The step at a position has completed. -/
def HasCompleted (ss : List (TransactionStep σ)) (i : Nat) : Prop :=
  ∃ s, ss[i]? = some s ∧ s.isCompleted

/-- No step behind the current one has completed. -/
def NoneBehind (t : Transaction σ) : Prop := ∀ i, t.current < i → ¬HasCompleted t.steps i

section Snapshots

variable {t : Transaction σ}

theorem completedBefore_current (h : t.NoneBehind) :
    t.completedBefore t.current =
      ((t.steps.eraseIdx t.current).filter (·.isCompleted)).map (·.name) := by
  have hbehind : (t.steps.drop (t.current + 1)).filter (·.isCompleted) = [] := by
    rw [List.filter_eq_nil_iff]
    intro s hs hcompleted
    obtain ⟨i, hi⟩ := List.getElem?_of_mem hs
    rw [List.getElem?_drop] at hi
    exact h (t.current + 1 + i) (by omega) ⟨s, hi, hcompleted⟩
  rw [completedBefore, List.eraseIdx_eq_take_drop_succ, List.filter_append, hbehind,
    List.append_nil]

/-- If the names of the steps are distinct, a snapshot is wrong exactly if the current step has
completed. -/
theorem truthful_iff (h : t.NoneBehind) (hnames : (t.steps.map (·.name)).Nodup) :
    Truthful t.steps t.snapshot ↔ ¬HasCompleted t.steps t.current := by
  rw [Truthful, namesUnder_completed, namesUnder_pending]
  constructor
  · rintro htruth ⟨s, hs, hcompleted⟩
    refine (htruth s (List.mem_of_getElem? hs) hcompleted).2 (List.mem_map_of_mem ?_)
    refine List.mem_of_getElem? (i := 0) ?_
    rwa [List.getElem?_drop]
  · intro hcurrent s hs hcompleted
    obtain ⟨i, hi⟩ := List.getElem?_of_mem hs
    have hlt : i < t.current := by
      rcases Nat.lt_trichotomy i t.current with hlt | rfl | hgt
      · exact hlt
      · exact absurd ⟨s, hi, hcompleted⟩ hcurrent
      · exact absurd ⟨s, hi, hcompleted⟩ (h i hgt)
    have hbefore : s ∈ t.steps.take t.current := by
      refine List.mem_of_getElem? (i := i) ?_
      rwa [List.getElem?_take_of_lt hlt]
    refine ⟨List.mem_map_of_mem (List.mem_filter.2 ⟨hbefore, hcompleted⟩), ?_⟩
    -- A pending step has another position, and so another name.
    rw [← List.take_append_drop t.current t.steps, List.map_append, List.nodup_append] at hnames
    intro hpending
    exact hnames.2.2 s.name (List.mem_map_of_mem hbefore) s.name hpending rfl

end Snapshots

/-! ## What the calls do to the current position -/

section Steps

variable {ss : List (TransactionStep σ)} {i : Nat}

theorem hasCompleted_concat {s : TransactionStep σ} (hs : s.isCompleted = false) :
    HasCompleted (ss ++ [s]) i ↔ HasCompleted ss i := by
  constructor
  · rintro ⟨st, hi, hcompleted⟩
    rw [List.getElem?_append] at hi
    split at hi
    · exact ⟨st, hi, hcompleted⟩
    · rw [List.mem_singleton.1 (List.mem_of_getElem? hi), hs] at hcompleted
      exact absurd hcompleted Bool.false_ne_true
  · rintro ⟨st, hi, hcompleted⟩
    have hlt := (List.getElem?_eq_some_iff.1 hi).1
    exact ⟨st, (List.getElem?_append_left hlt).trans hi, hcompleted⟩

theorem hasCompleted_mapIdx_undoneIf {undone : Nat → Bool} :
    HasCompleted (ss.mapIdx fun j s => s.undoneIf (undone j)) i ↔ HasCompleted ss i := by
  simp only [HasCompleted, List.getElem?_mapIdx, Option.map_eq_some_iff]
  constructor
  · rintro ⟨_, ⟨s, hi, rfl⟩, hcompleted⟩
    exact ⟨s, hi, hcompleted⟩
  · rintro ⟨s, hi, hcompleted⟩
    exact ⟨_, ⟨s, hi, rfl⟩, hcompleted⟩

theorem not_hasCompleted_nil : ¬HasCompleted ([] : List (TransactionStep σ)) i := by
  rintro ⟨s, hi, -⟩
  simp at hi

end Steps

section Executions

/-- A walk that does not stop attempts all steps; one that stops does so at a step, and attempts
from there on only that step, and only if it is a failure. -/
theorem attempted_cases (stop? : Encounter σ → Option Stop) (es : List (Encounter σ)) :
    (stopped? stop? es = none ∧ halt stop? es = es.length) ∨
      ∃ e why, stopped? stop? es = some (e, why) ∧ stop? e = some why ∧
        halt stop? es < es.length ∧
        (attempted stop? es).drop (halt stop? es) = if why = .failed then [e] else [] := by
  induction es with
  | nil => exact .inl ⟨rfl, rfl⟩
  | cons e es ih =>
    cases hstop : stop? e with
    | some why =>
      obtain ⟨hhalt, hstopped, hattempted⟩ := halts_of_some es hstop
      rw [hhalt, hstopped, hattempted]
      exact .inr ⟨e, why, rfl, hstop, Nat.zero_lt_succ _, rfl⟩
    | none =>
      obtain ⟨hhalt, hstopped, hattempted⟩ := halts_of_none es hstop
      rw [hhalt, hstopped, hattempted, List.drop_succ_cons]
      rcases ih with ⟨hnone, hlength⟩ | ⟨e', why, hsome, hwhy, hlt, hdrop⟩
      · exact .inl ⟨hnone, congrArg (· + 1) hlength⟩
      · exact .inr ⟨e', why, hsome, hwhy, Nat.succ_lt_succ hlt, hdrop⟩

theorem length_encounters (ss : List (TransactionStep σ)) (w : σ) :
    (encounters ss w).length = ss.length := by
  induction ss generalizing w with
  | nil => rfl
  | cons s r ih => exact congrArg (· + 1) (ih _)

variable [Clock σ] {t : Transaction σ} {continueOnError : Bool} {w : σ}

theorem outcome_ne_of_stopAt? {e : Encounter σ} (h : t.stopAt? continueOnError e = some .failed) :
    e.outcome ≠ .success := by
  unfold stopAt? at h
  split at h
  · cases h
  · split at h
    · rename_i hfails
      exact hfails.1
    · cases h

theorem steps_execute : (t.execute continueOnError w).transaction.steps =
    (t.attempts continueOnError w).map (·.ran) ++
      (t.steps.drop (t.attempts continueOnError w).length).map (·.reset) := by
  rw [execute, t.executeSteps_eq continueOnError 0 t.steps]
  rfl

theorem value_execute :
    (t.execute continueOnError w).value = (t.stop? continueOnError w).isNone := by
  rw [execute, t.executeSteps_eq continueOnError 0 t.steps]
  rfl

theorem current_execute_of_ne_nil (h : t.steps ≠ []) :
    (t.execute continueOnError w).transaction.current =
      min (t.haltAt continueOnError w) (t.steps.length - 1) := by
  rw [execute, t.executeSteps_eq continueOnError 0 t.steps]
  dsimp only
  rw [if_neg h, Option.getD_some, Nat.zero_add]
  rfl

theorem hasCompleted_execute {i : Nat} :
    HasCompleted (t.execute continueOnError w).transaction.steps i ↔
      ∃ e, (t.attempts continueOnError w)[i]? = some e ∧ e.outcome = .success := by
  have hran (e : Encounter σ) : e.ran.isCompleted ↔ e.outcome = .success := by
    rw [← fault?_eq_none_iff]
    exact Option.isNone_iff_eq_none
  rw [HasCompleted, steps_execute]
  constructor
  · rintro ⟨s, hi, hcompleted⟩
    rw [List.getElem?_append] at hi
    split at hi
    · rw [List.getElem?_map] at hi
      obtain ⟨e, he, rfl⟩ := Option.map_eq_some_iff.1 hi
      exact ⟨e, he, (hran e).1 hcompleted⟩
    · obtain ⟨s', -, rfl⟩ := List.mem_map.1 (List.mem_of_getElem? hi)
      exact absurd hcompleted Bool.false_ne_true
  · rintro ⟨e, he, hsuccess⟩
    refine ⟨e.ran, ?_, (hran e).2 hsuccess⟩
    rw [List.getElem?_append_left, List.getElem?_map, he]
    · rfl
    · rw [List.length_map]
      exact (List.getElem?_eq_some_iff.1 he).1

theorem length_steps_execute :
    (t.execute continueOnError w).transaction.steps.length = t.steps.length := by
  obtain ⟨es, -, hstrokes⟩ := t.exists_execute_recorded continueOnError w
  rw [hstrokes.length_eq, List.length_map]

/-- From the stop on at most its own step was attempted, and then it has failed. -/
theorem not_hasCompleted_of_stop {e : Encounter σ} {why : Stop}
    (hwhy : t.stopAt? continueOnError e = some why)
    (hdrop : (t.attempts continueOnError w).drop (t.haltAt continueOnError w) =
      if why = .failed then [e] else [])
    {i : Nat} (hi : t.haltAt continueOnError w ≤ i) :
    ¬HasCompleted (t.execute continueOnError w).transaction.steps i := by
  intro hcompleted
  obtain ⟨e', he', hsuccess⟩ := hasCompleted_execute.1 hcompleted
  have hmem : e' ∈ (t.attempts continueOnError w).drop (t.haltAt continueOnError w) := by
    refine List.mem_of_getElem? (i := i - t.haltAt continueOnError w) ?_
    rwa [List.getElem?_drop, Nat.add_sub_cancel' hi]
  rw [hdrop] at hmem
  split at hmem
  · rename_i hfailed
    rw [List.mem_singleton.1 hmem] at hsuccess
    exact outcome_ne_of_stopAt? (hfailed ▸ hwhy) hsuccess
  · cases hmem

/-- An execution either comes to its end at the last step, if there is any, or it stops, and then it
has completed no step from the current one on. -/
theorem execute_cases (t : Transaction σ) (continueOnError : Bool) (w : σ) :
    let r := t.execute continueOnError w
    (r.value = true ∧ (t.steps = [] ∨ r.transaction.current = t.steps.length - 1)) ∨
      (r.value = false ∧ ∀ i, r.transaction.current ≤ i → ¬HasCompleted r.transaction.steps i) := by
  intro r
  rcases attempted_cases (t.stopAt? continueOnError) (encounters t.steps w) with
    ⟨hnone, hhalt⟩ | ⟨e, why, hsome, hwhy, hlt, hdrop⟩
  · have hdone : r.value = true := by rw [value_execute, stop?, hnone, Option.isNone_none]
    refine .inl ⟨hdone, ?_⟩
    by_cases hnil : t.steps = []
    · exact .inl hnil
    · right
      rw [current_execute_of_ne_nil hnil, haltAt, hhalt, length_encounters]
      omega
  · have hstopped : r.value = false := by rw [value_execute, stop?, hsome, Option.isNone_some]
    refine .inr ⟨hstopped, fun i hi => not_hasCompleted_of_stop hwhy hdrop ?_⟩
    rw [length_encounters] at hlt
    have hnil : t.steps ≠ [] := List.ne_nil_of_length_pos (by omega)
    rw [current_execute_of_ne_nil hnil] at hi
    exact Nat.le_trans (Nat.le_of_eq (Nat.min_eq_left (Nat.le_sub_one_of_lt hlt)).symm) hi

/-- An execution comes to its end, and the last step succeeds. -/
def GoesThrough (t : Transaction σ) (continueOnError : Bool) (w : σ) : Prop :=
  let r := t.execute continueOnError w
  r.value = true ∧ HasCompleted r.transaction.steps (r.transaction.steps.length - 1)

end Executions

/-! ## Sessions -/

/-- No step behind the current one has completed, and that one has completed on a condition. -/
structure Located (t : Transaction σ) (condition : Prop) : Prop where
  noneBehind : t.NoneBehind
  current_iff : HasCompleted t.steps t.current ↔ condition

/-- What creating a checkpoint tells, and on what condition that is wrong. -/
structure Checkpointed (t : Transaction σ) (name : String) (condition : Prop) : Prop where
  reported : (t.createCheckpoint name).2 = [.checkpoint name t.snapshot]
  /-- As completed are named the steps that are, but never the current one. -/
  completed : namesUnder "completed_steps" t.snapshot =
    ((t.steps.eraseIdx t.current).filter (·.isCompleted)).map (·.name)
  /-- As pending are named the steps from the current one on, of which no other has completed. -/
  pending : namesUnder "pending_steps" t.snapshot = (t.steps.drop t.current).map (·.name)
  located : t.Located condition
  truthful_iff : (t.steps.map (·.name)).Nodup →
    (Truthful t.steps t.snapshot ↔ ¬condition)

section Calls

variable [Clock σ] {t : Transaction σ} {w : σ}

theorem located_execute (continueOnError : Bool) :
    (t.execute continueOnError w).transaction.Located (t.GoesThrough continueOnError w) := by
  have hbound {i : Nat} (h : HasCompleted (t.execute continueOnError w).transaction.steps i) :
      i < t.steps.length := by
    obtain ⟨s, hi, -⟩ := h
    rw [← length_steps_execute]
    exact (List.getElem?_eq_some_iff.1 hi).1
  rcases t.execute_cases continueOnError w with ⟨hvalue, hnil | hcurrent⟩ | ⟨hvalue, hnone⟩
  · have hnone (i : Nat) : ¬HasCompleted (t.execute continueOnError w).transaction.steps i := by
      intro hcompleted
      have hlt := hbound hcompleted
      rw [hnil, List.length_nil] at hlt
      exact absurd hlt (Nat.not_lt_zero i)
    exact ⟨fun i _ => hnone i, iff_of_false (hnone _) fun h => hnone _ h.2⟩
  · constructor
    · intro i hi hcompleted
      have hlt := hbound hcompleted
      omega
    · rw [hcurrent, GoesThrough, length_steps_execute]
      exact (and_iff_right hvalue).symm
  · constructor
    · exact fun i hi => hnone i (Nat.le_of_lt hi)
    · refine iff_of_false (hnone _ (Nat.le_refl _)) fun h => ?_
      exact Bool.false_ne_true (hvalue.symm.trans h.1)

/-- Only executing moves the current position or completes a step. -/
theorem after_of_not_execute (t : Transaction σ) (w : σ) {c : Call σ}
    (hc : ∀ b, c ≠ .execute b) :
    (t.after w c).1.current = t.current ∧
      ∀ i, HasCompleted (t.after w c).1.steps i ↔ HasCompleted t.steps i := by
  cases c with
  | addStep name? description action inverse => exact ⟨rfl, fun i => hasCompleted_concat rfl⟩
  | addValidation name? description action => exact ⟨rfl, fun i => hasCompleted_concat rfl⟩
  | execute b => exact absurd rfl (hc b)
  | rollback reason =>
    refine ⟨rfl, fun i => ?_⟩
    show HasCompleted (undoSteps undoReports t.steps w).steps i ↔ _
    rw [undoSteps_eq undoReports 0]
    exact hasCompleted_mapIdx_undoneIf
  | createCheckpoint name => exact ⟨rfl, fun i => Iff.rfl⟩
  | rollbackTo name reason? =>
    cases h : t.checkpoints.lookup name with
    | none =>
      rw [after, rollbackTo_of_none h]
      exact ⟨rfl, fun i => Iff.rfl⟩
    | some k =>
      refine ⟨by rw [after, rollbackTo_of_some h], fun i => ?_⟩
      rw [after, steps_rollbackTo h]
      exact hasCompleted_mapIdx_undoneIf
  | meanwhile change => exact ⟨rfl, fun i => Iff.rfl⟩

theorem Located.after_of_not_execute {condition : Prop} (h : t.Located condition) {c : Call σ}
    (hc : ∀ b, c ≠ .execute b) : (t.after w c).1.Located condition := by
  obtain ⟨hcurrent, hsame⟩ := t.after_of_not_execute w hc
  constructor
  · intro i hi
    rw [hcurrent] at hi
    rw [hsame]
    exact h.noneBehind i hi
  · rw [hcurrent, hsame]
    exact h.current_iff

end Calls

namespace Session

variable [Clock σ]

/-- Some of the calls is one to execute, and the latest of these comes to its end with a last step
that succeeds. -/
def WentThrough (s : Session σ) (cs : List (Call σ)) : Prop :=
  ∃ before b after, cs = before ++ .execute b :: after ∧ (∀ b', .execute b' ∉ after) ∧
    (s.run before).transaction.GoesThrough b (s.run before).world

theorem wentThrough_concat_execute {s : Session σ} {cs : List (Call σ)} {b : Bool} :
    s.WentThrough (cs ++ [.execute b]) ↔
      (s.run cs).transaction.GoesThrough b (s.run cs).world := by
  constructor
  · rintro ⟨before, b', after, hsplit, hlatest, hthrough⟩
    rcases concat_eq_append_cons_iff.1 hsplit with ⟨rfl, hsame, -⟩ | ⟨after', rfl, -⟩
    · rw [Call.execute.inj hsame]
      exact hthrough
    · exact absurd (List.mem_append_right _ (List.mem_singleton.2 rfl)) (hlatest b)
  · intro hthrough
    exact ⟨cs, b, [], rfl, fun _ => List.not_mem_nil, hthrough⟩

theorem wentThrough_concat_of_not_execute {s : Session σ} {cs : List (Call σ)} {c : Call σ}
    (hc : ∀ b, c ≠ .execute b) : s.WentThrough (cs ++ [c]) ↔ s.WentThrough cs := by
  constructor
  · rintro ⟨before, b, after, hsplit, hlatest, hthrough⟩
    rcases concat_eq_append_cons_iff.1 hsplit with ⟨-, hlast, -⟩ | ⟨after', rfl, rfl⟩
    · exact absurd hlast (hc b)
    · refine ⟨before, b, after', rfl, fun b' hmem => ?_, hthrough⟩
      exact hlatest b' (List.mem_append_left _ hmem)
  · rintro ⟨before, b, after, rfl, hlatest, hthrough⟩
    refine ⟨before, b, after ++ [c], by rw [List.append_assoc, List.cons_append], ?_, hthrough⟩
    intro b' hmem
    rcases List.mem_append.1 hmem with hafter | hlast
    · exact hlatest b' hafter
    · exact hc b' (List.mem_singleton.1 hlast).symm

/-- In every session the current position is where the latest execution has left it. -/
theorem located_run (operation : OperationId) (timeout : Duration) (w : σ) (cs : List (Call σ)) :
    ((new operation timeout w).run cs).transaction.Located
      ((new operation timeout w).WentThrough cs) := by
  induction cs using List.reverseRecOn with
  | nil =>
    refine ⟨fun i _ => not_hasCompleted_nil, iff_of_false not_hasCompleted_nil ?_⟩
    rintro ⟨before, b, after, hsplit, -⟩
    simp at hsplit
  | append_singleton cs c ih =>
    have hrun : (new operation timeout w).run (cs ++ [c]) =
        ((new operation timeout w).run cs).call c := run_append _ cs [c]
    rw [hrun]
    by_cases hc : ∀ b, c ≠ .execute b
    · rw [wentThrough_concat_of_not_execute hc]
      exact ih.after_of_not_execute hc
    · obtain ⟨b, hb⟩ := not_forall.1 hc
      rw [not_not.1 hb, wentThrough_concat_execute]
      exact located_execute b

/-- A checkpoint tells the truth exactly if the latest execution has not gone through. -/
theorem snapshot_run (operation : OperationId) (timeout : Duration) (w : σ) (cs : List (Call σ))
    (name : String) :
    Checkpointed ((new operation timeout w).run cs).transaction name
      ((new operation timeout w).WentThrough cs) := by
  have hlocated := located_run operation timeout w cs
  constructor
  case reported => exact createCheckpoint_snd _ name
  case completed =>
    rw [namesUnder_completed]
    exact completedBefore_current hlocated.noneBehind
  case pending => exact namesUnder_pending _
  case located => exact hlocated
  case truthful_iff =>
    intro hnames
    rw [truthful_iff hlocated.noneBehind hnames, hlocated.current_iff]

end Session

/-- Two steps have run; a checkpoint names the second one as pending. -/
theorem exists_not_truthful :
    let t := (Script.session [] [.execute false]).transaction
    (∀ s ∈ t.steps, s.isCompleted) ∧ (t.steps.map (·.name)).Nodup ∧
      (t.createCheckpoint "done").2 = [.checkpoint "done" t.snapshot] ∧
      namesUnder "completed_steps" t.snapshot = ["step_1"] ∧
      namesUnder "pending_steps" t.snapshot = ["step_2"] ∧ ¬Truthful t.steps t.snapshot := by
  intro t
  have hall : ∀ s ∈ t.steps, s.isCompleted := by decide
  have hpending : namesUnder "pending_steps" t.snapshot = ["step_2"] := by
    rw [namesUnder_pending]
    decide
  have hcompleted : namesUnder "completed_steps" t.snapshot = ["step_1"] := by
    rw [namesUnder_completed]
    decide
  refine ⟨hall, by decide, rfl, hcompleted, hpending, ?_⟩
  intro htruth
  have hsecond : ∃ s ∈ t.steps, s.name = "step_2" := by decide
  obtain ⟨s, hs, hname⟩ := hsecond
  refine (htruth s hs (hall s hs)).2 ?_
  rw [hpending, hname]
  exact List.mem_singleton.2 rfl

end Transaction

end Upkeep
