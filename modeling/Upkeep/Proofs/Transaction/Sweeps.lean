import Mathlib.Data.List.Nodup
import Upkeep.Proofs.Transaction.Histories

/-!
# A sweep from its beginning to its end

**Undoings.** A sweep undoes the steps that have an effect, the last one first, each in the world
that the inverse actions before it have made (`undoings`). Nothing that fails on the way changes
which step comes next.

**Sweeps.** So a sweep is told by its undoings: what it reports, which world it leaves, which steps
it marks as undone, and whether all went well. `undoSteps_eq` says this, by induction on the steps
with one case for a step that is undone and one for a step that is left alone; `incidents_rollback`
and `incidents_rollbackTo_of_some` say that no other action is invoked.

**Checkpoints.** A rollback to a checkpoint is a sweep over the steps from its position on. It
leaves alone the steps before, and of the others all but the marks; a step is still to be undone
afterwards exactly if its undoing was tried and failed (`rolledBackTo_rollbackTo`).
-/

namespace Upkeep

open TransactionStep

variable {σ : Type}

/-- A step with its position, and the world in which its inverse action is invoked. -/
structure Undoing (σ : Type) where
  position : Nat
  step : TransactionStep σ
  world : σ

namespace Undoing

/-- How the inverse action ends. -/
def outcome (u : Undoing σ) : Outcome := (u.step.inverse u.world).1

/-- What is wrong with the outcome, if anything. -/
def fault? (u : Undoing σ) : Option String := TransactionStep.fault? u.outcome

def incident (u : Undoing σ) : Incident := .undone u.position u.outcome

end Undoing

/-- The step, marked as undone if it was undone just now. -/
def TransactionStep.undoneIf (s : TransactionStep σ) (isUndone : Bool) : TransactionStep σ :=
  { s with isUndone := s.isUndone || isUndone }

@[simp] theorem TransactionStep.undoneIf_false (s : TransactionStep σ) :
    s.undoneIf false = s := by
  simp [undoneIf]

namespace Transaction

/-! ## Undoings -/

/-- The steps that have an effect, the last one first, with their positions from `k` on. -/
def effects (k : Nat) (ss : List (TransactionStep σ)) : List (TransactionStep σ × Nat) :=
  ((ss.zipIdx k).filter (·.1.isEligible)).reverse

/-- The world that the inverse actions of some steps make, one after the other. -/
def worldUndone (ps : List (TransactionStep σ × Nat)) (w : σ) : σ :=
  ps.foldl (fun w p => (p.1.inverse w).2) w

/-- Some steps are undone, each in the world that the inverse actions before it have made. -/
def undoEach : List (TransactionStep σ × Nat) → σ → List (Undoing σ)
  | [], _ => []
  | (s, i) :: ps, w => ⟨i, s, w⟩ :: undoEach ps (s.inverse w).2

/-- The undoings of a sweep over steps whose positions count from `k`. -/
def undoings (k : Nat) (ss : List (TransactionStep σ)) (w : σ) : List (Undoing σ) :=
  undoEach (effects k ss) w

/-- One of the undoings is that of the step at a position, and works. -/
def undoes (us : List (Undoing σ)) (i : Nat) : Bool :=
  us.any fun u => u.position == i && u.fault?.isNone

section Undoings

variable {s : TransactionStep σ} {r : List (TransactionStep σ)}

theorem effects_cons_of_isEligible (hs : s.isEligible) (k : Nat) (r : List (TransactionStep σ)) :
    effects k (s :: r) = effects (k + 1) r ++ [(s, k)] := by
  simp [effects, List.zipIdx_cons, hs]

theorem effects_cons_of_not_isEligible (hs : s.isEligible = false) (k : Nat)
    (r : List (TransactionStep σ)) : effects k (s :: r) = effects (k + 1) r := by
  simp [effects, List.zipIdx_cons, hs]

theorem undoings_eq_nil {ss : List (TransactionStep σ)} (h : ∀ s ∈ ss, s.isEligible = false)
    (k : Nat) (w : σ) : undoings k ss w = [] := by
  have hnone : effects k ss = [] := by
    rw [effects, List.reverse_eq_nil_iff, List.filter_eq_nil_iff]
    intro p hp
    rw [h p.1 (List.fst_mem_of_mem_zipIdx hp)]
    exact Bool.false_ne_true
  rw [undoings, hnone, undoEach]

theorem undoEach_append (ps qs : List (TransactionStep σ × Nat)) (w : σ) :
    undoEach (ps ++ qs) w = undoEach ps w ++ undoEach qs (worldUndone ps w) := by
  induction ps generalizing w with
  | nil => rfl
  | cons p ps ih => exact congrArg (⟨p.2, p.1, w⟩ :: ·) (ih _)

theorem worldUndone_concat (ps : List (TransactionStep σ × Nat)) (s : TransactionStep σ) (i : Nat)
    (w : σ) : worldUndone (ps ++ [(s, i)]) w = (s.inverse (worldUndone ps w)).2 := by
  rw [worldUndone, List.foldl_append]
  rfl

theorem map_undoEach (ps : List (TransactionStep σ × Nat)) (w : σ) :
    (undoEach ps w).map (fun u => (u.step, u.position)) = ps := by
  induction ps generalizing w with
  | nil => rfl
  | cons p ps ih => exact congrArg (p :: ·) (ih _)

theorem mem_effects {k i : Nat} {ss : List (TransactionStep σ)} :
    (s, i) ∈ effects k ss ↔ k ≤ i ∧ ss[i - k]? = some s ∧ s.isEligible := by
  rw [effects, List.mem_reverse, List.mem_filter, List.mk_mem_zipIdx_iff_le_and_getElem?_sub,
    and_assoc]

/-- The positions of what is undone go down. -/
theorem pairwise_effects (k : Nat) (ss : List (TransactionStep σ)) :
    ((effects k ss).map Prod.snd).Pairwise (· > ·) := by
  have hpositions : ((ss.zipIdx k).map Prod.snd).Pairwise (· < ·) := by
    rw [List.zipIdx_map_snd]
    exact List.pairwise_lt_range'
  have hsome : (((ss.zipIdx k).filter (·.1.isEligible)).map Prod.snd).Pairwise (· < ·) :=
    hpositions.sublist (List.filter_sublist.map Prod.snd)
  rw [effects, List.map_reverse, List.pairwise_reverse]
  exact hsome

/-- Each undoing is that of a step that has an effect, and each of these is undone. -/
theorem exists_mem_undoings_iff {k i : Nat} {ss : List (TransactionStep σ)} {w : σ} :
    (∃ u ∈ undoings k ss w, u.step = s ∧ u.position = i) ↔
      k ≤ i ∧ ss[i - k]? = some s ∧ s.isEligible := by
  have hmem : (s, i) ∈ (undoings k ss w).map (fun u => (u.step, u.position)) ↔
      (s, i) ∈ effects k ss := by
    rw [undoings, map_undoEach]
  rw [← mem_effects, ← hmem, List.mem_map]
  simp only [Prod.mk.injEq]

theorem le_position {k : Nat} {ss : List (TransactionStep σ)} {w : σ} {u : Undoing σ}
    (hu : u ∈ undoings k ss w) : k ≤ u.position :=
  (exists_mem_undoings_iff.1 ⟨u, hu, rfl, rfl⟩).1

theorem undoes_append (us vs : List (Undoing σ)) (i : Nat) :
    undoes (us ++ vs) i = (undoes us i || undoes vs i) := List.any_append

theorem undoes_singleton (u : Undoing σ) (i : Nat) :
    undoes [u] i = (u.position == i && u.fault?.isNone) := by
  rw [undoes, List.any_cons, List.any_nil, Bool.or_false]

/-- Nothing is undone at a position before the first one. -/
theorem undoes_of_lt {k i : Nat} (h : i < k) (ss : List (TransactionStep σ)) (w : σ) :
    undoes (undoings k ss w) i = false := by
  rw [undoes, List.any_eq_false]
  intro u hu hundone
  have hle := le_position hu
  simp only [Bool.and_eq_true, beq_iff_eq] at hundone
  omega

end Undoings

/-! ## Sweeps -/

/-- A sweep is told by its undoings. -/
theorem undoSteps_eq (tell : TransactionStep σ → Option String → List Report) (k : Nat)
    (ss : List (TransactionStep σ)) (w : σ) :
    undoSteps tell ss w = {
      steps := ss.mapIdx fun j s => s.undoneIf (undoes (undoings k ss w) (k + j))
      world := worldUndone (effects k ss) w
      reports := (undoings k ss w).flatMap fun u => tell u.step u.fault?
      isClean := (undoings k ss w).all (·.fault?.isNone) } := by
  induction ss generalizing k with
  | nil => rfl
  | cons s r ih =>
    have hfirst : undoes (undoings (k + 1) r w) k = false := undoes_of_lt (Nat.lt_succ_self k) r w
    by_cases hs : s.isEligible
    · let u : Undoing σ := ⟨k, s, worldUndone (effects (k + 1) r) w⟩
      have hundoings : undoings k (s :: r) w = undoings (k + 1) r w ++ [u] := by
        rw [undoings, effects_cons_of_isEligible hs, undoEach_append]
        rfl
      have hself : undoes (undoings k (s :: r) w) k = u.fault?.isNone := by
        rw [hundoings, undoes_append, hfirst, undoes_singleton, beq_self_eq_true, Bool.true_and,
          Bool.false_or]
      -- The first step has another position than any of the rest, so its undoing marks none.
      have hrest (j : Nat) : undoes (undoings k (s :: r) w) (k + (j + 1)) =
          undoes (undoings (k + 1) r w) (k + 1 + j) := by
        have hne : (u.position == k + (j + 1)) = false := beq_eq_false_iff_ne.2 (by simp [u])
        rw [hundoings, undoes_append, undoes_singleton, hne, Bool.false_and, Bool.or_false,
          Nat.add_right_comm, Nat.add_assoc]
      rw [undoSteps_of_isEligible hs, ih (k + 1), undo_eq, List.mapIdx_cons]
      simp only [Nat.add_zero, hself, hrest]
      rw [hundoings, effects_cons_of_isEligible hs, worldUndone_concat, List.flatMap_append,
        List.all_append, List.flatMap_singleton, List.all_cons, List.all_nil, Bool.and_true]
      rfl
    · rw [Bool.not_eq_true] at hs
      have hundoings : undoings k (s :: r) w = undoings (k + 1) r w := by
        rw [undoings, effects_cons_of_not_isEligible hs]
        rfl
      have hrest (j : Nat) : undoes (undoings k (s :: r) w) (k + (j + 1)) =
          undoes (undoings (k + 1) r w) (k + 1 + j) := by
        rw [hundoings, Nat.add_right_comm, Nat.add_assoc]
      rw [undoSteps_of_not_isEligible hs, ih (k + 1), List.mapIdx_cons]
      simp only [Nat.add_zero, hrest]
      rw [hundoings, effects_cons_of_not_isEligible hs, hfirst, undoneIf_false]

/-! ## What is invoked -/

section Notes

theorem effects_recordedFrom (k : Nat) (ss : List (TransactionStep σ)) :
    effects k (recordedFrom k ss) = (effects k ss).map fun p => (p.1.recorded p.2, p.2) := by
  induction ss generalizing k with
  | nil => rfl
  | cons s r ih =>
    by_cases hs : s.isEligible
    · have hs' : (s.recorded k).isEligible := hs
      rw [recordedFrom, effects_cons_of_isEligible hs', ih, effects_cons_of_isEligible hs,
        List.map_append]
      rfl
    · rw [Bool.not_eq_true] at hs
      have hs' : (s.recorded k).isEligible = false := hs
      rw [recordedFrom, effects_cons_of_not_isEligible hs', ih, effects_cons_of_not_isEligible hs]

theorem worldUndone_recorded (ps : List (TransactionStep σ × Nat)) (w : σ)
    (notes : List Incident) :
    worldUndone (ps.map fun p => (p.1.recorded p.2, p.2)) ⟨w, notes⟩ =
      ⟨worldUndone ps w, notes ++ (undoEach ps w).map (·.incident)⟩ := by
  induction ps generalizing w notes with
  | nil => exact congrArg (Recorded.mk w) (List.append_nil notes).symm
  | cons p ps ih =>
    rw [List.map_cons, worldUndone, List.foldl_cons]
    refine (ih _ _).trans ?_
    rw [List.append_assoc]
    rfl

/-- The notes of a sweep are its undoings. -/
theorem world_undoSteps_recordedFrom
    (tell : TransactionStep (Recorded σ) → Option String → List Report) (k : Nat)
    (ss : List (TransactionStep σ)) (w : σ) :
    (undoSteps tell (recordedFrom k ss) ⟨w, []⟩).world =
      ⟨worldUndone (effects k ss) w, (undoings k ss w).map (·.incident)⟩ := by
  rw [undoSteps_eq tell k, effects_recordedFrom, worldUndone_recorded, List.nil_append]
  rfl

theorem drop_recordedFrom_zero (k : Nat) (ss : List (TransactionStep σ)) :
    (recordedFrom 0 ss).drop k = recordedFrom k (ss.drop k) := by
  rw [drop_recordedFrom, Nat.zero_add]
  rcases Nat.le_total k ss.length with hle | hle
  · rw [List.length_take_of_le hle]
  · rw [List.drop_of_length_le hle]
    rfl

end Notes

variable {t : Transaction σ} {name : String}

theorem checkpointIndex_eq_ok {k : Nat} (h : t.checkpoints.lookup name = some k) :
    t.checkpointIndex name = .ok k := by
  rw [checkpointIndex, h]

theorem rollbackTo_of_none (h : t.checkpoints.lookup name = none) (reason? : Option String)
    (w : σ) :
    t.rollbackTo name reason? w = ⟨false, t, w,
      [.error "checkpoint_not_found" ("Checkpoint '" ++ name ++ "' not found") none]⟩ := by
  have hindex : t.checkpointIndex name = .error (.unknownCheckpoint name) := by
    rw [checkpointIndex, h]
  rw [rollbackTo, hindex]
  rfl

theorem rollbackTo_of_some {k : Nat} (h : t.checkpoints.lookup name = some k)
    (reason? : Option String) (w : σ) :
    t.rollbackTo name reason? w =
      let sweep := undoSteps (checkpointUndoReports name) (t.steps.drop k) w
      { value := sweep.isClean
        transaction := { t with steps := t.steps.take k ++ sweep.steps }
        world := sweep.world
        reports := .rollback name (reason?.getD ("Rollback to checkpoint '" ++ name ++ "'")) ::
          sweep.reports } := by
  rw [rollbackTo, checkpointIndex_eq_ok h]

variable [Clock σ]

theorem incidents_rollback (t : Transaction σ) (reason : String) (w : σ) :
    t.incidents w (.rollback reason) = (undoings 0 t.steps w).map (·.incident) := by
  show (undoSteps undoReports (recordedFrom 0 t.steps) ⟨w, []⟩).world.notes = _
  rw [world_undoSteps_recordedFrom]

theorem incidents_rollbackTo_of_none (h : t.checkpoints.lookup name = none)
    (reason? : Option String) (w : σ) : t.incidents w (.rollbackTo name reason?) = [] := by
  have h' : t.recorded.checkpoints.lookup name = none := h
  rw [incidents, rollbackTo_of_none h']

theorem incidents_rollbackTo_of_some {k : Nat} (h : t.checkpoints.lookup name = some k)
    (reason? : Option String) (w : σ) :
    t.incidents w (.rollbackTo name reason?) =
      (undoings k (t.steps.drop k) w).map (·.incident) := by
  have h' : t.recorded.checkpoints.lookup name = some k := h
  rw [incidents, rollbackTo_of_some h']
  show (undoSteps _ ((recordedFrom 0 t.steps).drop k) ⟨w, []⟩).world.notes = _
  rw [drop_recordedFrom_zero, world_undoSteps_recordedFrom]

/-! ## Rolling back to a checkpoint -/

/-- The undoings of the steps from a position on. -/
def undoingsFrom (t : Transaction σ) (k : Nat) (w : σ) : List (Undoing σ) :=
  undoings k (t.steps.drop k) w

/-- What a rollback to a checkpoint at the position `k` does and gives. -/
structure RolledBackTo (t : Transaction σ) (name : String) (reason? : Option String) (w : σ)
    (k : Nat) (r : Called σ Bool) : Prop where
  /-- Nothing is invoked but the inverse actions of the steps undone. -/
  invoked : t.incidents w (.rollbackTo name reason?) = (t.undoingsFrom k w).map (·.incident)
  /-- These are the steps from the checkpoint on that have an effect, whatever fails on the way. -/
  reached : ∀ i s, (∃ u ∈ t.undoingsFrom k w, u.step = s ∧ u.position = i) ↔
    k ≤ i ∧ t.steps[i]? = some s ∧ s.isEligible
  /-- Each of them is undone once, the last one first. -/
  descending : ((t.undoingsFrom k w).map (·.position)).Pairwise (· > ·)
  world : r.world = worldUndone (effects k (t.steps.drop k)) w
  before : r.transaction.steps.take k = t.steps.take k
  /-- The steps remember what they did, but that those whose undoing worked are marked. -/
  marks : r.transaction.steps =
    t.steps.mapIdx fun i s => s.undoneIf (undoes (t.undoingsFrom k w) i)
  /-- A step from the checkpoint on has still an effect exactly if its undoing failed. -/
  isEligible_iff : ∀ i s, k ≤ i → r.transaction.steps[i]? = some s →
    (s.isEligible ↔ ∃ u ∈ t.undoingsFrom k w, u.position = i ∧ u.outcome ≠ .success)
  /-- The rest of the transaction is left alone. -/
  frame : r.transaction = { t with steps := r.transaction.steps }
  answer : r.value = true ↔ ∀ u ∈ t.undoingsFrom k w, u.outcome = .success
  /-- Reported are the rollback and the undoings that failed. -/
  reports : r.reports =
    .rollback name (reason?.getD ("Rollback to checkpoint '" ++ name ++ "'")) ::
      (t.undoingsFrom k w).flatMap fun u =>
        match TransactionStep.fault? u.outcome with
        | none => []
        | some text => [.error "checkpoint_rollback_error"
            ("Rollback failed for step '" ++ u.step.name ++ "': " ++ text)
            (some (.ofFields [("step", .str u.step.name), ("checkpoint", .str name)]))]

/-- A list of which only the part from a position on may change. -/
theorem take_append_mapIdx_drop {α : Type} (l : List α) (k : Nat) {f : Nat → α → α}
    (h : ∀ i < k, ∀ a, f i a = a) :
    l.take k ++ (l.drop k).mapIdx (fun j => f (k + j)) = l.mapIdx f := by
  induction l generalizing k f with
  | nil => simp
  | cons a l ih =>
    cases k with
    | zero => simp
    | succ k =>
      have hrest := ih k (f := fun i => f (i + 1)) fun i hi => h (i + 1) (Nat.succ_lt_succ hi)
      rw [List.take_succ_cons, List.drop_succ_cons, List.cons_append, List.mapIdx_cons,
        h 0 (Nat.zero_lt_succ k), ← hrest]
      simp only [Nat.add_right_comm]

omit [Clock σ] in
theorem isEligible_undoneIf (s : TransactionStep σ) (isUndone : Bool) :
    (s.undoneIf isUndone).isEligible ↔ s.isEligible ∧ isUndone = false := by
  cases isUndone <;> simp [undoneIf, isEligible]

omit [Clock σ] in
theorem pairwise_positions (k : Nat) (ss : List (TransactionStep σ)) (w : σ) :
    ((undoings k ss w).map (·.position)).Pairwise (· > ·) := by
  have hpairs : ((undoings k ss w).map fun u => (u.step, u.position)) = effects k ss :=
    map_undoEach (effects k ss) w
  have hpositions : (undoings k ss w).map (·.position) = (effects k ss).map Prod.snd := by
    rw [← hpairs, List.map_map]
    rfl
  rw [hpositions]
  exact pairwise_effects k ss

omit [Clock σ] in
/-- No step is undone twice, so a step whose undoing failed is not marked. -/
theorem undoes_eq_false_iff {k : Nat} {ss : List (TransactionStep σ)} {w : σ} {u : Undoing σ}
    (hu : u ∈ undoings k ss w) :
    undoes (undoings k ss w) u.position = false ↔ u.outcome ≠ .success := by
  have hnodup : ((undoings k ss w).map (·.position)).Nodup :=
    (pairwise_positions k ss w).imp fun hlt => Nat.ne_of_gt hlt
  have hundoes : undoes (undoings k ss w) u.position ↔ u.outcome = .success := by
    simp only [undoes, List.any_eq_true, Bool.and_eq_true, beq_iff_eq, Option.isNone_iff_eq_none,
      Undoing.fault?, fault?_eq_none_iff]
    constructor
    · rintro ⟨v, hv, hposition, hworks⟩
      rwa [← List.inj_on_of_nodup_map hnodup hv hu hposition]
    · intro hworks
      exact ⟨u, hu, rfl, hworks⟩
  rw [ne_eq, ← hundoes, Bool.not_eq_true]

omit [Clock σ] in
theorem all_fault?_isNone {us : List (Undoing σ)} :
    us.all (·.fault?.isNone) = true ↔ ∀ u ∈ us, u.outcome = .success := by
  simp only [List.all_eq_true, Option.isNone_iff_eq_none, Undoing.fault?, fault?_eq_none_iff]

section Checkpoints

variable {t : Transaction σ} {name : String} {k : Nat} {reason? : Option String} {w : σ}

omit [Clock σ] in
theorem undoneIf_of_lt {i : Nat} (hi : i < k) (s : TransactionStep σ) :
    s.undoneIf (undoes (t.undoingsFrom k w) i) = s := by
  rw [undoingsFrom, undoes_of_lt hi, undoneIf_false]

omit [Clock σ] in
theorem mem_undoingsFrom_iff {i : Nat} {s : TransactionStep σ} :
    (∃ u ∈ t.undoingsFrom k w, u.step = s ∧ u.position = i) ↔
      k ≤ i ∧ t.steps[i]? = some s ∧ s.isEligible := by
  rw [undoingsFrom, exists_mem_undoings_iff, List.getElem?_drop]
  refine and_congr_right fun hle => ?_
  rw [Nat.add_sub_cancel' hle]

omit [Clock σ] in
/-- All that a rollback to a checkpoint changes is told by the undoings since. -/
theorem steps_rollbackTo (h : t.checkpoints.lookup name = some k) :
    (t.rollbackTo name reason? w).transaction.steps =
      t.steps.mapIdx fun i s => s.undoneIf (undoes (t.undoingsFrom k w) i) := by
  rw [rollbackTo_of_some h, undoSteps_eq _ k]
  exact take_append_mapIdx_drop t.steps k fun i hi s => undoneIf_of_lt hi s

omit [Clock σ] in
theorem value_rollbackTo_iff (h : t.checkpoints.lookup name = some k) :
    (t.rollbackTo name reason? w).value = true ↔
      ∀ u ∈ t.undoingsFrom k w, u.outcome = .success := by
  rw [rollbackTo_of_some h, undoSteps_eq _ k]
  exact all_fault?_isNone

end Checkpoints

/-- A rollback to a checkpoint undoes what was done since, as far as that works, and nothing else;
where there is no such checkpoint it does nothing. -/
theorem rolledBackTo_rollbackTo (t : Transaction σ) (name : String) (reason? : Option String)
    (w : σ) :
    match t.checkpoints.lookup name with
    | none =>
      t.incidents w (.rollbackTo name reason?) = [] ∧
        t.rollbackTo name reason? w = ⟨false, t, w,
          [.error "checkpoint_not_found" ("Checkpoint '" ++ name ++ "' not found") none]⟩
    | some k => t.RolledBackTo name reason? w k (t.rollbackTo name reason? w) := by
  cases h : t.checkpoints.lookup name with
  | none => exact ⟨incidents_rollbackTo_of_none h reason? w, rollbackTo_of_none h reason? w⟩
  | some k =>
    have hcall := rollbackTo_of_some h reason? w
    have hsweep := undoSteps_eq (checkpointUndoReports name) k (t.steps.drop k) w
    constructor
    case invoked => exact incidents_rollbackTo_of_some h reason? w
    case reached => exact fun i s => mem_undoingsFrom_iff
    case descending => exact pairwise_positions k (t.steps.drop k) w
    case world => rw [hcall, hsweep]
    case before =>
      refine List.ext_getElem? fun i => ?_
      rw [List.getElem?_take, List.getElem?_take]
      by_cases hi : i < k
      · rw [if_pos hi, if_pos hi, steps_rollbackTo h, List.getElem?_mapIdx]
        simp only [undoneIf_of_lt hi, Option.map_id']
      · rw [if_neg hi, if_neg hi]
    case marks => exact steps_rollbackTo h
    case isEligible_iff =>
      intro i s' hle hi
      rw [steps_rollbackTo h, List.getElem?_mapIdx] at hi
      obtain ⟨s, hs, rfl⟩ := Option.map_eq_some_iff.1 hi
      rw [isEligible_undoneIf]
      constructor
      · rintro ⟨heligible, hunmarked⟩
        obtain ⟨u, hu, -, rfl⟩ := mem_undoingsFrom_iff.2 ⟨hle, hs, heligible⟩
        exact ⟨u, hu, rfl, (undoes_eq_false_iff hu).1 hunmarked⟩
      · rintro ⟨u, hu, rfl, hfailed⟩
        obtain ⟨-, hstep, heligible⟩ := mem_undoingsFrom_iff.1 ⟨u, hu, rfl, rfl⟩
        obtain rfl : u.step = s := Option.some.inj (hstep.symm.trans hs)
        exact ⟨heligible, (undoes_eq_false_iff hu).2 hfailed⟩
    case frame => rw [hcall]
    case answer => exact value_rollbackTo_iff h
    case reports =>
      rw [hcall, hsweep]
      refine congrArg (_ :: ·) (List.flatMap_congr fun u _ => ?_)
      rw [checkpointUndoReports, Undoing.fault?]
      cases TransactionStep.fault? u.outcome <;> rfl

end Transaction

end Upkeep
