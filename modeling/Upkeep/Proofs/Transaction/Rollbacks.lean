import Upkeep.Proofs.Transaction.Sweeps
import Upkeep.Proofs.Transaction.Undoing

/-!
# Rollbacks one after the other

**Resuming.** A sweep that works throughout leaves nothing to undo of its steps. A sweep over more
steps that comes after it therefore only undoes the others, from the world that the first one has
made: together they do what the longer sweep does alone (`undoSteps_resumed`). This holds for
actions on any world, and so for those that note their invocation, which makes the same actions in
the same order of it (`incidents_rollbackTo_rollbackTo`, `incidents_rollbackTo_rollback`).

**Sessions.** A session is a transaction with its world and the history of what was invoked. If the
undoings since a checkpoint work, rolling back to it first makes no difference to the session that
a rollback to an earlier checkpoint leaves, nor to that of a rollback of everything, and what was
rolled back can be rolled back again without any effect (`Session.nested_rollbacks`).
-/

namespace Upkeep

open TransactionStep

namespace Transaction

variable {σ : Type}

/-! ## Sweeps one after the other -/

section Sweeps

variable {tell tell' : TransactionStep σ → Option String → List Report}

theorem undoSteps_append (tell : TransactionStep σ → Option String → List Report)
    (ss rs : List (TransactionStep σ)) (w : σ) :
    undoSteps tell (ss ++ rs) w =
      let later := undoSteps tell rs w
      let first := undoSteps tell ss later.world
      ⟨first.steps ++ later.steps, first.world, later.reports ++ first.reports,
        later.isClean && first.isClean⟩ := by
  induction ss with
  | nil => simp [undoSteps]
  | cons s ss ih =>
    by_cases hs : s.isEligible
    · rw [List.cons_append, undoSteps_of_isEligible hs, ih]
      dsimp only
      rw [undoSteps_of_isEligible hs, List.append_assoc, Bool.and_assoc]
      rfl
    · rw [Bool.not_eq_true] at hs
      rw [List.cons_append, undoSteps_of_not_isEligible hs, ih]
      dsimp only
      rw [undoSteps_of_not_isEligible hs]
      rfl

/-- What is told of the steps makes no difference to them. -/
theorem undoSteps_tell (tell tell' : TransactionStep σ → Option String → List Report)
    (ss : List (TransactionStep σ)) (w : σ) :
    (undoSteps tell ss w).steps = (undoSteps tell' ss w).steps ∧
      (undoSteps tell ss w).world = (undoSteps tell' ss w).world ∧
      (undoSteps tell ss w).isClean = (undoSteps tell' ss w).isClean := by
  rw [undoSteps_eq tell 0, undoSteps_eq tell' 0]
  exact ⟨rfl, rfl, rfl⟩

/-- A sweep that resumes one that worked does with it what it does alone. -/
theorem undoSteps_resumed {rs : List (TransactionStep σ)} {w : σ}
    (h : (undoSteps tell rs w).isClean) (ss : List (TransactionStep σ)) :
    let back := undoSteps tell rs w
    let again := undoSteps tell' (ss ++ back.steps) back.world
    let once := undoSteps tell' (ss ++ rs) w
    again.steps = once.steps ∧ again.world = once.world ∧ again.isClean = once.isClean := by
  intro back again once
  obtain ⟨hsteps, hworld, hclean⟩ := undoSteps_tell tell' tell rs w
  have hback : undoSteps tell' back.steps back.world = ⟨back.steps, back.world, [], true⟩ :=
    undoSteps_eq_self (not_isEligible_of_isClean h) back.world
  have hagain : again = _ := undoSteps_append tell' ss back.steps back.world
  have honce : once = _ := undoSteps_append tell' ss rs w
  rw [hagain, honce, hback]
  simp only [hsteps, hworld, hclean, h, Bool.true_and]
  exact ⟨rfl, rfl, rfl⟩

end Sweeps

section Parts

variable {α : Type} {l r : List α} {i j : Nat}

theorem take_take_append (hij : i ≤ j) (hr : j ≤ l.length ∨ r = []) :
    (l.take j ++ r).take i = l.take i := by
  rcases hr with hj | rfl
  · have hlength : i ≤ (l.take j).length := by
      rw [List.length_take_of_le hj]
      exact hij
    rw [List.take_append_of_le_length hlength, List.take_take, Nat.min_eq_left hij]
  · rw [List.append_nil, List.take_take, Nat.min_eq_left hij]

theorem drop_take_append (hij : i ≤ j) (hr : j ≤ l.length ∨ r = []) :
    (l.take j ++ r).drop i = (l.take j).drop i ++ r := by
  rcases hr with hj | rfl
  · have hlength : i ≤ (l.take j).length := by
      rw [List.length_take_of_le hj]
      exact hij
    rw [List.drop_append_of_le_length hlength]
  · rw [List.append_nil, List.append_nil]

theorem drop_eq_append (hij : i ≤ j) (l : List α) : l.drop i = (l.take j).drop i ++ l.drop j := by
  have hr : j ≤ l.length ∨ l.drop j = [] :=
    (Nat.le_total j l.length).imp_right List.drop_of_length_le
  rw [← drop_take_append hij hr, List.take_append_drop]

end Parts

/-! ## Calls one after the other -/

section Calls

variable {t : Transaction σ} {a b : String} {i j : Nat} {rb : Option String} {w : σ}

/-- After a rollback to a checkpoint that worked, a sweep from an earlier position on does with it
what it does alone. -/
theorem undoSteps_rollbackTo (hb : t.checkpoints.lookup b = some j) (hij : i ≤ j)
    (hworks : (t.rollbackTo b rb w).value = true)
    (tell : TransactionStep σ → Option String → List Report) :
    let back := t.rollbackTo b rb w
    let again := undoSteps tell (back.transaction.steps.drop i) back.world
    let once := undoSteps tell (t.steps.drop i) w
    back.transaction.steps.take i = t.steps.take i ∧
      again.steps = once.steps ∧ again.world = once.world ∧ again.isClean = once.isClean := by
  let sweep := undoSteps (checkpointUndoReports b) (t.steps.drop j) w
  have hback : t.rollbackTo b rb w = _ := rollbackTo_of_some hb rb w
  have hclean : sweep.isClean := by
    rwa [hback] at hworks
  have hswept : j ≤ t.steps.length ∨ sweep.steps = [] := by
    refine (Nat.le_total j t.steps.length).imp_right fun hle => ?_
    show (undoSteps _ (t.steps.drop j) w).steps = []
    rw [List.drop_of_length_le hle, undoSteps]
  rw [hback]
  show (t.steps.take j ++ sweep.steps).take i = t.steps.take i ∧
    (undoSteps tell ((t.steps.take j ++ sweep.steps).drop i) sweep.world).steps = _ ∧
    (undoSteps tell ((t.steps.take j ++ sweep.steps).drop i) sweep.world).world = _ ∧
    (undoSteps tell ((t.steps.take j ++ sweep.steps).drop i) sweep.world).isClean = _
  rw [drop_take_append hij hswept, drop_eq_append hij t.steps]
  exact ⟨take_take_append hij hswept, undoSteps_resumed hclean _⟩

/-- Rolling back to a checkpoint and then to an earlier one is rolling back to the earlier one. -/
theorem rollbackTo_rollbackTo (ha : t.checkpoints.lookup a = some i)
    (hb : t.checkpoints.lookup b = some j) (hij : i ≤ j)
    (hworks : (t.rollbackTo b rb w).value = true) (ra : Option String) :
    let back := t.rollbackTo b rb w
    let again := back.transaction.rollbackTo a ra back.world
    let once := t.rollbackTo a ra w
    again.transaction = once.transaction ∧ again.world = once.world := by
  intro back again once
  have hback : back = _ := rollbackTo_of_some hb rb w
  have ha' : back.transaction.checkpoints.lookup a = some i := by
    rw [hback]
    exact ha
  obtain ⟨hbefore, hsteps, hworld, -⟩ :=
    undoSteps_rollbackTo hb hij hworks (checkpointUndoReports a)
  have hagain : again = _ := rollbackTo_of_some ha' ra back.world
  have honce : once = _ := rollbackTo_of_some ha ra w
  rw [hagain, honce]
  dsimp only
  rw [hbefore, hsteps]
  refine ⟨?_, hworld⟩
  rw [hback]

theorem rollback_rollbackTo (hb : t.checkpoints.lookup b = some j)
    (hworks : (t.rollbackTo b rb w).value = true) (reason : String) :
    let back := t.rollbackTo b rb w
    let again := back.transaction.rollback reason back.world
    let once := t.rollback reason w
    again.transaction = once.transaction ∧ again.world = once.world := by
  intro back again once
  have hback : back = _ := rollbackTo_of_some hb rb w
  obtain ⟨-, hsteps, hworld, hclean⟩ :=
    undoSteps_rollbackTo hb (Nat.zero_le j) hworks undoReports
  rw [List.drop_zero, List.drop_zero] at hsteps hworld hclean
  refine ⟨?_, hworld⟩
  show { back.transaction with
    steps := (undoSteps undoReports back.transaction.steps back.world).steps
    state := if (undoSteps undoReports back.transaction.steps back.world).isClean then .rolledBack
      else .rollbackFailed } = once.transaction
  rw [hsteps, hclean, hback]
  rfl

end Calls

/-! ## What is invoked -/

section Recorded

variable [Clock σ]

theorem rollbackTo_recorded (t : Transaction σ) (name : String) (reason? : Option String) (w : σ)
    (notes : List Incident) :
    t.recorded.rollbackTo name reason? ⟨w, notes⟩ =
      (t.rollbackTo name reason? w).recorded
        (notes ++ t.incidents w (.rollbackTo name reason?)) := by
  obtain ⟨es, hnotes, -⟩ := t.exists_rollbackTo_recorded name reason? w
  have hes : t.incidents w (.rollbackTo name reason?) = es := by
    rw [incidents, hnotes]
    rfl
  rw [hnotes, hes]

theorem rollback_recorded (t : Transaction σ) (reason : String) (w : σ) (notes : List Incident) :
    t.recorded.rollback reason ⟨w, notes⟩ =
      (t.rollback reason w).recorded (notes ++ t.incidents w (.rollback reason)) := by
  obtain ⟨es, hnotes, -⟩ := t.exists_rollback_recorded reason w
  have hes : t.incidents w (.rollback reason) = es := by
    rw [incidents, hnotes]
    rfl
  rw [hnotes, hes]

variable {t : Transaction σ} {a b : String} {i j : Nat} {rb : Option String} {w : σ}

/-- The same actions are invoked in the same order: both ways are the same for actions that make
notes. -/
theorem incidents_rollbackTo_rollbackTo (ha : t.checkpoints.lookup a = some i)
    (hb : t.checkpoints.lookup b = some j) (hij : i ≤ j)
    (hworks : (t.rollbackTo b rb w).value = true) (ra : Option String) :
    let back := t.rollbackTo b rb w
    t.incidents w (.rollbackTo b rb) ++
        back.transaction.incidents back.world (.rollbackTo a ra) =
      t.incidents w (.rollbackTo a ra) := by
  have hworks' : (t.recorded.rollbackTo b rb ⟨w, []⟩).value = true := by
    rw [rollbackTo_recorded]
    exact hworks
  have ha' : t.recorded.checkpoints.lookup a = some i := ha
  have hb' : t.recorded.checkpoints.lookup b = some j := hb
  have hsame := (rollbackTo_rollbackTo ha' hb' hij hworks' ra).2
  rw [rollbackTo_recorded, rollbackTo_recorded t a] at hsame
  dsimp only [Called.recorded] at hsame
  rw [rollbackTo_recorded] at hsame
  exact congrArg Recorded.notes hsame

theorem incidents_rollbackTo_rollback (hb : t.checkpoints.lookup b = some j)
    (hworks : (t.rollbackTo b rb w).value = true) (reason : String) :
    let back := t.rollbackTo b rb w
    t.incidents w (.rollbackTo b rb) ++ back.transaction.incidents back.world (.rollback reason) =
      t.incidents w (.rollback reason) := by
  have hworks' : (t.recorded.rollbackTo b rb ⟨w, []⟩).value = true := by
    rw [rollbackTo_recorded]
    exact hworks
  have hb' : t.recorded.checkpoints.lookup b = some j := hb
  have hsame := (rollback_rollbackTo hb' hworks' reason).2
  rw [rollbackTo_recorded, rollback_recorded t] at hsame
  dsimp only [Called.recorded] at hsame
  rw [rollback_recorded] at hsame
  exact congrArg Recorded.notes hsame

end Recorded

/-! ## Sessions -/

namespace Session

theorem forall_undone_iff {us : List (Undoing σ)} :
    (∀ i o, Incident.undone i o ∈ us.map (·.incident) → o = .success) ↔
      ∀ u ∈ us, u.outcome = .success := by
  simp only [List.mem_map, Undoing.incident, Incident.undone.injEq]
  constructor
  · intro h u hu
    exact h u.position u.outcome ⟨u, hu, rfl, rfl⟩
  · rintro h i o ⟨u, hu, -, rfl⟩
    exact h u hu

variable [Clock σ]

/-- All inverse actions that a call invokes succeed. -/
def Works (s : Session σ) (c : Call σ) : Prop :=
  ∀ i o, .undone i o ∈ s.transaction.incidents s.world c → o = .success

/-- Making some calls once more changes nothing, and invokes no action. -/
def Repeats (s : Session σ) (cs : List (Call σ)) : Prop := s.run (cs ++ cs) = s.run cs

variable {s : Session σ} {a b : String} {i j : Nat} {ra rb : Option String} {reason : String}

theorem works_rollbackTo_iff (hb : s.transaction.checkpoints.lookup b = some j) :
    s.Works (.rollbackTo b rb) ↔ (s.transaction.rollbackTo b rb s.world).value = true := by
  rw [Works, incidents_rollbackTo_of_some hb, value_rollbackTo_iff hb]
  exact forall_undone_iff

theorem works_rollback_iff :
    s.Works (.rollback reason) ↔ (s.transaction.rollback reason s.world).value = true := by
  rw [Works, incidents_rollback, forall_undone_iff, rollback, undoSteps_eq undoReports 0]
  exact all_fault?_isNone.symm

/-! ### Where nothing is left to undo -/

/-- A rollback to a checkpoint since which nothing is left to undo changes nothing. -/
theorem call_rollbackTo_of_idle
    (h : ∀ k, s.transaction.checkpoints.lookup a = some k →
      ∀ st ∈ s.transaction.steps.drop k, st.isEligible = false) :
    s.call (.rollbackTo a ra) = s := by
  obtain ⟨t, w, history⟩ := s
  rw [call, after]
  cases ha : t.checkpoints.lookup a with
  | none =>
    rw [rollbackTo_of_none ha, incidents_rollbackTo_of_none ha, List.append_nil]
  | some k =>
    have hnone : ∀ st ∈ t.steps.drop k, st.isEligible = false := h k ha
    rw [rollbackTo_of_some ha, incidents_rollbackTo_of_some ha, undoings_eq_nil hnone,
      undoSteps_eq_self hnone]
    dsimp only
    rw [List.take_append_drop, List.map_nil, List.append_nil]

theorem call_rollback_of_idle (h : ∀ st ∈ s.transaction.steps, st.isEligible = false)
    (hstate : s.transaction.state = .rolledBack) : s.call (.rollback reason) = s := by
  obtain ⟨t, w, history⟩ := s
  rw [call, after, incidents_rollback, undoings_eq_nil h, rollback, undoSteps_eq_self h]
  dsimp only
  rw [List.map_nil, List.append_nil, if_pos rfl, ← hstate]

theorem idle_rollbackTo (ha : s.transaction.checkpoints.lookup a = some i)
    (hworks : s.Works (.rollbackTo a ra)) :
    ∀ st ∈ (s.call (.rollbackTo a ra)).transaction.steps.drop i, st.isEligible = false := by
  obtain ⟨t, w, history⟩ := s
  rw [works_rollbackTo_iff ha] at hworks
  rw [call, after]
  rw [rollbackTo_of_some ha] at hworks ⊢
  have hclean := not_isEligible_of_isClean hworks
  intro st hst
  dsimp only at hst
  rw [List.drop_append, List.drop_of_length_le (List.length_take_le i t.steps),
    List.nil_append] at hst
  exact hclean st (List.mem_of_mem_drop hst)

theorem idle_rollback (hworks : s.Works (.rollback reason)) :
    ∀ st ∈ (s.call (.rollback reason)).transaction.steps, st.isEligible = false :=
  not_isEligible_of_isClean (works_rollback_iff.1 hworks)

theorem checkpoints_call_rollbackTo :
    (s.call (.rollbackTo a ra)).transaction.checkpoints = s.transaction.checkpoints := by
  show (s.transaction.rollbackTo a ra s.world).transaction.checkpoints = _
  cases ha : s.transaction.checkpoints.lookup a with
  | none => rw [rollbackTo_of_none ha]
  | some k => rw [rollbackTo_of_some ha]

/-! ### Nested rollbacks -/

/-- Rollbacks that work compose: from a checkpoint and then from an earlier one, or then of
everything, is the later of the two alone, for the transaction, its world and the actions that are
invoked; and no rollback has any effect when it is made once more. -/
theorem nested_rollbacks (s : Session σ) {a b : String} {i j : Nat}
    (ha : s.transaction.checkpoints.lookup a = some i)
    (hb : s.transaction.checkpoints.lookup b = some j) (hij : i ≤ j) (ra rb : Option String)
    (reason : String) (hworks : s.Works (.rollbackTo b rb)) :
    s.run [.rollbackTo b rb, .rollbackTo a ra] = s.run [.rollbackTo a ra] ∧
      s.run [.rollbackTo b rb, .rollback reason] = s.run [.rollback reason] ∧
      s.Repeats [.rollbackTo b rb] ∧
      (s.Works (.rollbackTo a ra) →
        s.Repeats [.rollbackTo a ra] ∧ s.Repeats [.rollbackTo b rb, .rollbackTo a ra]) ∧
      (s.Works (.rollback reason) →
        s.Repeats [.rollback reason] ∧ s.Repeats [.rollbackTo b rb, .rollback reason]) := by
  have hclean := (works_rollbackTo_iff hb).1 hworks
  have hto : s.run [.rollbackTo b rb, .rollbackTo a ra] = s.run [.rollbackTo a ra] := by
    obtain ⟨htransaction, hworld⟩ := rollbackTo_rollbackTo ha hb hij hclean ra
    have hinvoked := incidents_rollbackTo_rollbackTo ha hb hij hclean ra
    simp only [run, List.foldl_cons, List.foldl_nil, call, after]
    rw [htransaction, hworld, List.append_assoc, hinvoked]
  have hall : s.run [.rollbackTo b rb, .rollback reason] = s.run [.rollback reason] := by
    obtain ⟨htransaction, hworld⟩ := rollback_rollbackTo hb hclean reason
    have hinvoked := incidents_rollbackTo_rollback hb hclean reason
    simp only [run, List.foldl_cons, List.foldl_nil, call, after]
    rw [htransaction, hworld, List.append_assoc, hinvoked]
  -- Nothing is left to undo after a rollback that works, so later checkpoints find nothing either.
  have hidle {c d : String} {k l : Nat} {r r' : Option String}
      (hc : s.transaction.checkpoints.lookup c = some k)
      (hd : s.transaction.checkpoints.lookup d = some l) (hkl : k ≤ l)
      (hcworks : s.Works (.rollbackTo c r)) :
      (s.call (.rollbackTo c r)).call (.rollbackTo d r') = s.call (.rollbackTo c r) := by
    refine call_rollbackTo_of_idle fun m hm st hst => ?_
    rw [checkpoints_call_rollbackTo, hd] at hm
    obtain rfl := Option.some.inj hm
    refine idle_rollbackTo hc hcworks st ?_
    rw [← Nat.add_sub_cancel' hkl, ← List.drop_drop] at hst
    exact List.mem_of_mem_drop hst
  refine ⟨hto, hall, hidle hb hb (Nat.le_refl j) hworks, fun haworks => ⟨?_, ?_⟩,
    fun hallworks => ⟨?_, ?_⟩⟩
  · exact hidle ha ha (Nat.le_refl i) haworks
  · rw [Repeats, run_append, hto]
    show ((s.call (.rollbackTo a ra)).call (.rollbackTo b rb)).call (.rollbackTo a ra) = _
    rw [hidle ha hb hij haworks]
    exact hidle ha ha (Nat.le_refl i) haworks
  · exact call_rollback_of_idle (idle_rollback hallworks)
      (if_pos (works_rollback_iff.1 hallworks))
  · rw [Repeats, run_append, hall]
    show ((s.call (.rollback reason)).call (.rollbackTo b rb)).call (.rollback reason) = _
    have hnone := idle_rollback hallworks
    rw [call_rollbackTo_of_idle fun k _ st hst => hnone st (List.mem_of_mem_drop hst)]
    exact call_rollback_of_idle hnone (if_pos (works_rollback_iff.1 hallworks))

/-- Two steps have run; the checkpoint "late" is at the second and "early" at the first. -/
theorem nested_rollbacks_both :
    let s := Script.session [] [.createCheckpoint "early", .execute false, .createCheckpoint "late"]
    let late : Call Script := .rollbackTo "late" none
    let early : Call Script := .rollbackTo "early" none
    (s.transaction.checkpoints = [("early", 0), ("late", 1)] ∧ s.Works late ∧ s.Works early) ∧
      (s.run [late, early]).history = s.history ++ [.undone 1 .success, .undone 0 .success] ∧
      s.run [late, early] = s.run [early] ∧ s.Repeats [late, early] := by
  intro s late early
  have hlate : s.transaction.checkpoints.lookup "late" = some 1 := by decide
  have hearly : s.transaction.checkpoints.lookup "early" = some 0 := by decide
  have hworks : s.Works late := (works_rollbackTo_iff hlate).2 (by decide)
  have hworks' : s.Works early := (works_rollbackTo_iff hearly).2 (by decide)
  obtain ⟨hto, -, -, hrepeats, -⟩ :=
    nested_rollbacks s hearly hlate (Nat.zero_le 1) none none "stop" hworks
  exact ⟨⟨by decide, hworks, hworks'⟩, by decide, hto, (hrepeats hworks').2⟩

end Session

end Transaction

end Upkeep
