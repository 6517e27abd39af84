import Upkeep.Proofs.Coordinator.Conservation

/-!
# What is queued when the stop flag is raised

A worker looks at the stop flag and dequeues in two steps of its own, and a queue that is shut still
hands out what is in it. A worker between the two (`Scene.ready`) therefore takes an operation
although the flag has been raised meanwhile, and calls it as any other.

**Workers.** Once the flag is up no worker gets there any more, so that those who were there take
one operation each at most (`taken_of_isStopping`). Any of them takes the head of the queue whenever
its turn comes (`deed_of_ready`).

**Operations.** What is called was in hand before, or is dequeued first (`mem_taken_of_mem_called`).
So of the operations that are queued when the flag is raised only those are called that such a
worker takes, and all are left alone exactly if there is no such worker (`queued_after_raiseStop`).
There may be one (`exists_called_after_raiseStop`).
-/

namespace Upkeep

variable {ω : Type}

/-- The worker is about to dequeue. -/
def Phase.isReady : Phase ω → Bool
  | ready => true
  | _ => false

namespace Deed

/-- The worker that dequeues, and the number of the operation. -/
def taken? : Deed ω → Option (Nat × Nat)
  | take w op => some (w, op.ticket)
  | _ => none

/-- The number of the operation that is called. -/
def called? : Deed ω → Option Nat
  | call _ ticket => some ticket
  | _ => none

end Deed

/-! ## Operations in hand -/

/-- The number of the operation in hand, as long as it may still be called. -/
def Stance.pending : Stance ω → List Nat
  | considering op | locking op _ | returning op | starting op => [op.ticket]
  | _ => []

namespace Stride

variable {w : Nat} {d : Deed ω} {b b' : Books ω} {st st' : Stance ω}

theorem pending (h : Stride w d b st b' st') :
    ∃ lost, (b'.queue.tickets ++ st'.pending ++ lost).Perm (b.queue.tickets ++ st.pending) := by
  have hsame {q : List Nat} {x : List Nat} : (q ++ x ++ []).Perm (q ++ x) := by
    rw [List.append_nil]
  have hlost {q : List Nat} {x : List Nat} : (q ++ [] ++ x).Perm (q ++ x) := by
    rw [List.append_nil]
  cases h with
  | @take _ op q h =>
    have hqueue : b.queue.tickets = op.ticket :: q.tickets :=
      congrArg (List.map _) (Queue.entries_of_dequeue? h)
    refine ⟨[], hsame.trans ?_⟩
    show (q.tickets ++ [op.ticket]).Perm (b.queue.tickets ++ [])
    rw [hqueue, List.append_nil]
    exact List.perm_append_singleton op.ticket q.tickets
  | @putBack _ op q h =>
    have hqueue : q.tickets.Perm (op.ticket :: b.queue.tickets) :=
      (Queue.entries_of_enqueue h).map _
    refine ⟨[], hsame.trans ?_⟩
    show (q.tickets ++ []).Perm (b.queue.tickets ++ [op.ticket])
    rw [List.append_nil]
    exact hqueue.trans (List.perm_append_singleton op.ticket _).symm
  | lose _ op => exact ⟨[op.ticket], hlost⟩
  | call _ op now => exact ⟨[op.ticket], hlost⟩
  | abandon op h =>
    rcases h with rfl | rfl <;> exact ⟨[op.ticket], hlost⟩
  | breakOff op h =>
    rcases h with rfl | rfl
    · exact ⟨[op.ticket], hlost⟩
    · exact ⟨[], hsame⟩
  | _ => exact ⟨[], hsame⟩

/-- A worker gets an operation in hand by dequeuing it. -/
theorem mem_pending (h : Stride w d b st b' st') {t : Nat} (ht : t ∈ st'.pending) :
    t ∈ st.pending ∨ d.taken? = some (w, t) := by
  cases h with
  | @take _ op q h =>
    obtain rfl := List.mem_singleton.1 ht
    exact .inr rfl
  | call | decide | leave | finish | drop | putBack | lose | abandon | breakOff => cases ht
  | _ => exact .inl ht

theorem called_pending (h : Stride w d b st b' st') {t : Nat} (ht : d.called? = some t) :
    t ∈ st.pending := by
  cases h with
  | call _ op now => exact List.mem_singleton.2 (Option.some.inj ht).symm
  | _ => cases ht

end Stride

namespace Floor

variable {f f' : Floor ω} {d : Deed ω}

/-- The numbers of the operations in hand that may still be called. -/
def pending (f : Floor ω) : List Nat := f.gather Stance.pending

/-- No operation is queued and in hand at once, and later ones get other numbers. -/
structure Numbered (f : Floor ω) : Prop where
  nodup : (f.books.queue.tickets ++ f.pending).Nodup
  lt : ∀ t ∈ f.books.queue.tickets ++ f.pending, t < f.submissions

theorem Step.numbered (hstep : f.Step d f') (h : f.Numbered) : f'.Numbered := by
  cases hstep with
  | idle => exact h
  | shut => exact ⟨h.nodup, h.lt⟩
  | refuse => exact ⟨h.nodup, fun t ht => Nat.lt_succ_of_lt (h.lt t ht)⟩
  | @accept sub op q hticket hop hok =>
    have hqueue : q.tickets.Perm (f.submissions :: f.books.queue.tickets) := by
      have htickets : q.tickets.Perm (op.ticket :: f.books.queue.tickets) :=
        (Queue.entries_of_enqueue hok).map _
      rwa [Operation.ticket, hop.work, hticket] at htickets
    have hall := hqueue.append_right f.pending
    refine ⟨hall.nodup_iff.2 (List.nodup_cons.2 ⟨fun hmem => ?_, h.nodup⟩), fun t ht => ?_⟩
    · exact Nat.lt_irrefl _ (h.lt _ hmem)
    · rcases List.mem_cons.1 (hall.mem_iff.1 ht) with rfl | ht
      · exact Nat.lt_succ_self _
      · exact Nat.lt_succ_of_lt (h.lt t ht)
  | @cancel i op q hok =>
    have hqueue : f.books.queue.tickets.Perm (op.ticket :: q.tickets) :=
      (Queue.entries_of_remove? hok).map _
    have hall := hqueue.append_right f.pending
    refine ⟨(List.nodup_cons.1 (hall.nodup_iff.1 h.nodup)).2, fun t ht => ?_⟩
    exact h.lt t (hall.mem_iff.2 (List.mem_cons_of_mem _ ht))
  | @work w _ b st hw hstride =>
    obtain ⟨lost, hlost⟩ := hstride.pending
    rw [← List.append_nil (f.books.queue.tickets ++ _)] at hlost
    have hall := f.exchange hw (g := Stance.pending) b hlost
    rw [List.append_nil] at hall
    refine ⟨(List.nodup_append.1 (hall.nodup_iff.2 h.nodup)).1, fun t ht => ?_⟩
    exact h.lt t (hall.mem_iff.1 (List.mem_append_left _ ht))

theorem Step.mem_pending (hstep : f.Step d f') {t : Nat} (ht : t ∈ f'.pending) :
    t ∈ f.pending ∨ ∃ w, d.taken? = some (w, t) := by
  cases hstep with
  | @work w _ b st hw hstride =>
    obtain ⟨v, hv, hin⟩ := mem_gather.1 ht
    by_cases hvw : v = w
    · subst hvw
      rw [f.stance_stride_self] at hin
      rcases hstride.mem_pending hin with hold | htaken
      · exact .inl (mem_gather.2 ⟨v, hv, hold⟩)
      · exact .inr ⟨v, htaken⟩
    · rw [f.stance_stride_of_ne hvw] at hin
      exact .inl (mem_gather.2 ⟨v, hv, hin⟩)
  | _ => exact .inl ht

theorem Step.called_pending (hstep : f.Step d f') {t : Nat} (ht : d.called? = some t) :
    t ∈ f.pending := by
  cases hstep with
  | @work w _ b st hw hstride => exact mem_gather.2 ⟨w, hw, hstride.called_pending ht⟩
  | _ => cases ht

end Floor

/-! ## Workers that are about to dequeue -/

namespace Coordinator

variable {c : Coordinator ω}

theorem taken?_deed {env : Surroundings} {v w t : Nat} {phase : Phase ω}
    (h : (c.deed env w phase).taken? = some (v, t)) :
    phase = .ready ∧ v = w ∧ ∃ rest, c.queue.tickets = t :: rest := by
  cases phase with
  | ready =>
    simp only [deed] at h
    cases hcall : c.queue.dequeue? with
    | none =>
      rw [hcall] at h
      cases h
    | some taken =>
      rw [hcall] at h
      cases h
      exact ⟨rfl, rfl, _, congrArg (List.map _) (Queue.entries_of_dequeue? hcall)⟩
  | requeueing op =>
    simp only [deed] at h
    split at h <;> cases h
  | warning | dropping | conflicted | starting | reporting =>
    simp only [deed] at h
    split at h <;> cases h
  | _ => cases h

theorem isReady_advance (h : c.isStopping = true) (env : Surroundings) (phase : Phase ω) :
    (c.advance env phase).1.isReady = false := by
  cases phase with
  | idle =>
    simp only [advance, h]
    rfl
  | probing op paths =>
    cases paths with
    | nil => rfl
    | cons p rest =>
      simp only [advance]
      split <;> rfl
  | entering op =>
    rcases start_cases c op env.now with ⟨locks, files, keeper, -, hstart⟩ | ⟨files, hstart⟩ <;>
      · simp only [advance, hstart]
        rfl
  | releasing id locks verdict => cases locks <;> rfl
  | ready | admitting | weighing | requeueing | warning | dropping | conflicted | starting =>
    simp only [advance]
    split <;> rfl
  | _ => rfl

end Coordinator

namespace Scene

variable {s : Scene ω} {w : Nat} {ms : List (Move ω)}

/-- The workers that have found the stop flag down and have not dequeued since. -/
def ready (s : Scene ω) : List Nat :=
  (List.range s.coordinator.workers.length).filter fun w =>
    s.coordinator.workers[w]?.any Phase.isReady

/-- Who dequeues what in some moves. -/
def taken (s : Scene ω) (ms : List (Move ω)) : List (Nat × Nat) :=
  (s.deeds ms).filterMap Deed.taken?

/-- What is called in some moves. -/
def called (s : Scene ω) (ms : List (Move ω)) : List Nat := (s.deeds ms).filterMap Deed.called?

theorem mem_ready : w ∈ s.ready ↔ s.coordinator.workers[w]? = some .ready := by
  have hready (phase : Phase ω) : phase.isReady = true ↔ phase = .ready := by
    cases phase <;> simp [Phase.isReady]
  simp only [ready, List.mem_filter, List.mem_range, Option.any_eq_true, hready, exists_eq_right]
  exact and_iff_right_of_imp fun h => (List.getElem?_eq_some_iff.1 h).1

theorem mem_taken_cons {m : Move ω} {w t : Nat} : (w, t) ∈ s.taken (m :: ms) ↔
    (s.deed m).taken? = some (w, t) ∨ (w, t) ∈ (s.move m).taken ms := by
  simp [taken, deeds, eq_comm]

theorem mem_called_cons {m : Move ω} {t : Nat} : t ∈ s.called (m :: ms) ↔
    (s.deed m).called? = some t ∨ t ∈ (s.move m).called ms := by
  simp [called, deeds, eq_comm]

theorem taken?_deed {m : Move ω} {w t : Nat} (h : (s.deed m).taken? = some (w, t)) :
    (∃ env, m = .turn (.work w env)) ∧ w ∈ s.ready ∧
      ∃ rest, s.coordinator.queue.tickets = t :: rest := by
  cases m with
  | begin => cases h
  | proceed => cases h
  | turn turn =>
    cases turn with
    | work v env =>
      rw [deed] at h
      split at h
      · rename_i phase _ hw
        obtain ⟨rfl, rfl, hhead⟩ := Coordinator.taken?_deed h
        exact ⟨⟨env, rfl⟩, mem_ready.2 hw, hhead⟩
      · cases h
    | submit r now =>
      rw [deed] at h
      split at h <;> cases h
    | cancel id =>
      rw [deed] at h
      split at h
      · cases h
      · split at h <;> cases h
    | _ => cases h

theorem waits_eq_false (h : s.Accounted) {phase : Phase ω}
    (hw : s.coordinator.workers[w]? = some phase) (hfree : phase.isGuarded = false) :
    s.waits w = false := by
  rw [waits, hw]
  split
  · rename_i l phase hl hphase
    cases hphase
    have hne : l.worker ≠ w := by
      rintro rfl
      rw [(h.locking l hl).1] at hw
      cases hw
      cases hfree
    simp [hne, hfree]
  · rfl

/-- A worker that is about to dequeue takes the head of the queue in its turn. -/
theorem deed_of_ready (h : s.Accounted) (hw : w ∈ s.ready) {t : Nat} {rest : List Nat}
    (hhead : s.coordinator.queue.tickets = t :: rest) (env : Surroundings) :
    (s.deed (.turn (.work w env))).taken? = some (w, t) := by
  have hw := mem_ready.1 hw
  obtain ⟨op, entries, hentries, rfl, -⟩ := List.map_eq_cons_iff.1 hhead
  rw [deed, waits_eq_false h hw rfl, hw]
  simp only [Coordinator.deed, Queue.dequeue?, hentries]
  rfl

/-! ## After the flag has been raised -/

theorem isStopping_move (h : s.coordinator.isStopping = true) (m : Move ω) :
    (s.move m).coordinator.isStopping = true := by
  cases m with
  | begin w now =>
    rw [move, begin]
    split <;> exact h
  | proceed =>
    rw [move, proceed]
    split
    · exact h
    · unfold advance
      split
      · exact h
      · split
        · exact h
        · split <;> exact h
      · exact h
      · exact h
  | turn turn =>
    cases turn with
    | work w env =>
      rw [move, happen]
      split
      · exact h
      · cases hw : s.coordinator.workers[w]? with
        | none => rwa [Coordinator.work_of_none hw]
        | some phase =>
          rw [Coordinator.work_eq hw]
          exact (s.coordinator.advance_frame env phase).2.2.2.trans h
    | submit r now =>
      show (s.coordinator.submit r now).2.isStopping = true
      unfold Coordinator.submit
      split
      · exact h
      · dsimp only
        split <;> exact h
    | cancel id =>
      show (s.coordinator.cancel id).2.isStopping = true
      unfold Coordinator.cancel
      split
      · exact h
      · split <;> exact h
    | settle k =>
      show (s.coordinator.settle k).isStopping = true
      unfold Coordinator.settle
      split <;> exact h
    | raiseStop => rfl
    | shutQueue => exact h
    | disturb files => exact h

/-- Going on with the locks leads nobody to the queue. -/
theorem ready_proceed (hw : s.proceed.coordinator.workers[w]? = some .ready) :
    s.coordinator.workers[w]? = some .ready := by
  have hset {c : Coordinator ω} {v : Nat} {phase : Phase ω} (hphase : phase.isReady = false)
      (hw : (c.setPhase v phase).workers[w]? = some .ready) : c.workers[w]? = some .ready := by
    rw [Coordinator.setPhase, List.getElem?_set] at hw
    split at hw
    · split at hw
      · cases hw
        cases hphase
      · cases hw
    · exact hw
  rw [proceed] at hw
  split at hw
  · exact hw
  · unfold advance at hw
    split at hw
    · exact hset rfl hw
    · split at hw
      · exact hw
      · split at hw <;> exact hw
    · exact hset rfl hw
    · exact hw

/-- While the flag is up, a step does not lead its worker to the queue. -/
theorem ready_work (h : s.coordinator.isStopping = true) {v : Nat} {env : Surroundings}
    (hw : (s.coordinator.work env v).workers[w]? = some .ready) :
    s.coordinator.workers[w]? = some .ready ∧ v ≠ w := by
  cases hv : s.coordinator.workers[v]? with
  | none =>
    rw [Coordinator.work_of_none hv] at hw
    refine ⟨hw, ?_⟩
    rintro rfl
    cases hv.symm.trans hw
  | some phase =>
    rw [Coordinator.work_eq hv, Coordinator.setPhase,
      (s.coordinator.advance_frame env phase).1] at hw
    by_cases hvw : v = w
    · subst hvw
      rw [List.getElem?_set_self (List.getElem?_eq_some_iff.1 hv).1] at hw
      have hready := Coordinator.isReady_advance h env phase
      rw [Option.some.inj hw] at hready
      cases hready
    · rw [List.getElem?_set_ne hvw] at hw
      exact ⟨hw, hvw⟩

/-- While the flag is up, who is about to dequeue has been so before, and has not dequeued. -/
theorem ready_move (h : s.coordinator.isStopping = true) {m : Move ω}
    (hw : w ∈ (s.move m).ready) : w ∈ s.ready ∧ ∀ t, (s.deed m).taken? ≠ some (w, t) := by
  rw [mem_ready] at hw ⊢
  cases m with
  | begin v now =>
    refine ⟨?_, by simp [deed, Deed.taken?]⟩
    rw [move, begin] at hw
    split at hw <;> exact hw
  | proceed => exact ⟨ready_proceed hw, by simp [deed, Deed.taken?]⟩
  | turn turn =>
    have hother (hworkers : (s.move (.turn turn)).coordinator.workers = s.coordinator.workers)
        (hnot : ∀ env, turn ≠ .work w env) : s.coordinator.workers[w]? = some .ready ∧
          ∀ t, (s.deed (.turn turn)).taken? ≠ some (w, t) := by
      refine ⟨hworkers ▸ hw, fun t ht => ?_⟩
      obtain ⟨⟨env, heq⟩, -⟩ := taken?_deed ht
      exact hnot env (Move.turn.inj heq)
    cases turn with
    | work v env =>
      rw [move, happen] at hw
      split at hw
      · rename_i hwaits
        refine ⟨hw, fun t ht => ?_⟩
        rw [deed, hwaits] at ht
        cases ht
      · obtain ⟨hready, hvw⟩ := ready_work h hw
        refine ⟨hready, fun t ht => ?_⟩
        obtain ⟨⟨env', heq⟩, -⟩ := taken?_deed ht
        cases heq
        exact hvw rfl
    | submit r now => exact hother (s.coordinator.submit_frame r now).2.2 (by simp)
    | cancel id => exact hother (s.coordinator.cancel_frame id).2.2 (by simp)
    | settle k => exact hother (s.coordinator.settle_frame k).2.2 (by simp)
    | raiseStop | shutQueue | disturb => exact hother rfl (by simp)

/-- Once the flag is up, those who were about to dequeue do so once each, and no others do. -/
theorem taken_of_isStopping (h : s.coordinator.isStopping = true) (ms : List (Move ω)) :
    ((s.taken ms).map Prod.fst).Nodup ∧ ∀ e ∈ s.taken ms, e.1 ∈ s.ready := by
  induction ms generalizing s with
  | nil => exact ⟨.nil, nofun⟩
  | cons m ms ih =>
    obtain ⟨hnodup, hready⟩ := ih (isStopping_move h m)
    have hback (e : Nat × Nat) (he : e ∈ (s.move m).taken ms) :=
      ready_move h (hready e he)
    cases htaken : (s.deed m).taken? with
    | none =>
      have hsame : s.taken (m :: ms) = (s.move m).taken ms :=
        List.filterMap_cons_none htaken
      rw [hsame]
      exact ⟨hnodup, fun e he => (hback e he).1⟩
    | some e =>
      have hcons : s.taken (m :: ms) = e :: (s.move m).taken ms :=
        List.filterMap_cons_some htaken
      rw [hcons, List.map_cons, List.nodup_cons, List.forall_mem_cons]
      refine ⟨⟨fun hmem => ?_, hnodup⟩, (taken?_deed htaken).2.1, fun e he => (hback e he).1⟩
      obtain ⟨e', he', heq⟩ := List.mem_map.1 hmem
      exact (hback e' he').2 e.2 (by rw [htaken, heq])

theorem mem_taken_of_mem_called (h : s.Accounted) {t : Nat} (hnot : t ∉ s.floor.pending)
    (ht : t ∈ s.called ms) : t ∈ (s.taken ms).map Prod.snd := by
  induction ms generalizing s with
  | nil => cases ht
  | cons m ms ih =>
    have hstep := step_move h m
    have hcalled : t ∈ (s.move m).called ms :=
      (mem_called_cons.1 ht).resolve_left fun hcall => hnot (hstep.called_pending hcall)
    by_cases hpending : t ∈ (s.move m).floor.pending
    · obtain ⟨w, htaken⟩ := (hstep.mem_pending hpending).resolve_left hnot
      exact List.mem_map.2 ⟨(w, t), mem_taken_cons.2 (.inl htaken), rfl⟩
    · have haccounted := accounted_move h m
      obtain ⟨e, he, rfl⟩ := List.mem_map.1 (ih haccounted hpending hcalled)
      exact List.mem_map.2 ⟨e, mem_taken_cons.2 (.inr he), rfl⟩

theorem numbered_run {config : CoordinatorConfig} {fs : Files} {c : Coordinator ω}
    (h : Coordinator.create config fs = .ok c) (ms : List (Move ω)) :
    (run { coordinator := c } ms).floor.Numbered := by
  refine floor_run (fun f d f' hnumbered _ hstep => hstep.numbered hnumbered) (accounted_create h)
    (goes_true _ ms) ?_
  rw [floor_create h]
  have hnone : Floor.pending (ω := ω) ⟨config, ⟨{ capacity := config.queueCapacity.toNat }, [], {}⟩,
      config.maxConcurrent.toNat, fun _ => .free, 0⟩ = [] := Floor.gather_eq_nil fun _ => rfl
  constructor
  case nodup =>
    rw [hnone]
    exact .nil
  case lt =>
    rw [hnone]
    exact nofun

/-! ## What is queued when the flag is raised -/

/-- The moves after the flag has been raised. -/
def raised (ms : List (Move ω)) : List (Move ω) := .turn .raiseStop :: ms

/-- After the flag has been raised, each worker that was about to dequeue takes one operation at
most, and of those that were queued nothing else is called. In all continuations they are left alone
exactly if there was no such worker. -/
theorem queued_after_raiseStop {config : CoordinatorConfig} {fs : Files} {c : Coordinator ω}
    (h : Coordinator.create config fs = .ok c) (before : List (Move ω))
    (hs : run { coordinator := c } before = s) :
    (∀ after, (s.taken (raised after)).length ≤ s.ready.length ∧
      ∀ t ∈ s.coordinator.queue.tickets, t ∈ s.called (raised after) →
        ∃ w ∈ s.ready, (w, t) ∈ s.taken (raised after)) ∧
    ((∀ after, ∀ t ∈ s.coordinator.queue.tickets, ∀ w, (w, t) ∉ s.taken (raised after)) ↔
      s.ready = [] ∨ s.coordinator.queue.tickets = []) := by
  have haccounted : s.Accounted := hs ▸ accounted_run (accounted_create h) before
  have hnumbered : s.floor.Numbered := hs ▸ numbered_run h before
  have hraised : (s.happen .raiseStop).Accounted := accounted_happen haccounted .raiseStop
  have htaken (after : List (Move ω)) : ((s.taken (raised after)).map Prod.fst).Nodup ∧
      ∀ e ∈ s.taken (raised after), e.1 ∈ s.ready :=
    taken_of_isStopping (rfl : (s.happen .raiseStop).coordinator.isStopping = true) after
  constructor
  · intro after
    obtain ⟨hnodup, hready⟩ := htaken after
    constructor
    · have hsubset : (s.taken (raised after)).map Prod.fst ⊆ s.ready := by
        intro w hw
        obtain ⟨e, he, rfl⟩ := List.mem_map.1 hw
        exact hready e he
      rw [← List.length_map Prod.fst]
      exact (List.subperm_of_subset hnodup hsubset).length_le
    · intro t hqueued hcalled
      have hafter : t ∈ (s.happen .raiseStop).called after := hcalled
      have hnot : t ∉ s.floor.pending := fun hpending =>
        (List.nodup_append.1 hnumbered.nodup).2.2 t hqueued t hpending rfl
      obtain ⟨⟨w, _⟩, hin, rfl⟩ := List.mem_map.1 (mem_taken_of_mem_called hraised hnot hafter)
      exact ⟨w, hready _ hin, hin⟩
  · constructor
    · intro halone
      by_contra hboth
      rw [not_or] at hboth
      obtain ⟨w, hw⟩ := List.exists_mem_of_ne_nil _ hboth.1
      obtain ⟨t, rest, hhead⟩ := List.exists_cons_of_ne_nil hboth.2
      have htake : ((s.happen .raiseStop).deed (.turn (.work w {}))).taken? = some (w, t) :=
        deed_of_ready hraised hw hhead {}
      exact halone [.turn (.work w {})] t (hhead ▸ List.mem_cons_self) w
        (mem_taken_cons.2 (.inr (mem_taken_cons.2 (.inl htake))))
    · intro hnone after t hqueued w hin
      rcases hnone with hready | hempty
      · have hw := (htaken after).2 _ hin
        rw [hready] at hw
        cases hw
      · rw [hempty] at hqueued
        cases hqueued

/-- One operation is submitted, and a worker finds the flag down. -/
def lookingIn : List (Move Unit) :=
  [.turn (.submit { id := "a", job := () } default), .turn (.work 0 {})]

/-- The queue is shut, and the worker goes on. -/
def goingOn : List (Move Unit) :=
  .turn .shutQueue :: List.replicate 7 (.turn (.work 0 { reading := 1099511627776 }))

theorem queued_after_raiseStop_goingOn : ∃ c : Coordinator Unit,
    Coordinator.create {} {} = .ok c ∧
      (run { coordinator := c } lookingIn).ready = [0] ∧
      (run { coordinator := c } lookingIn).coordinator.queue.tickets = [0] ∧
      (run { coordinator := c } lookingIn).called (raised goingOn) = [0] ∧
      ((run { coordinator := c } lookingIn).taken (raised goingOn)).length ≤ 1 ∧
      ¬ ∀ after, ∀ t ∈ (run { coordinator := c } lookingIn).coordinator.queue.tickets,
        ∀ w, (w, t) ∉ (run { coordinator := c } lookingIn).taken (raised after) := by
  have h : ((Coordinator.create {} {}).toOption.map fun c : Coordinator Unit =>
      ((run { coordinator := c } lookingIn).ready,
        (run { coordinator := c } lookingIn).coordinator.queue.tickets,
        (run { coordinator := c } lookingIn).called (raised goingOn))) = some ([0], [0], [0]) := by
    decide +kernel
  obtain ⟨c, hc, h⟩ := exists_of_create h
  obtain ⟨hready, hrest⟩ := Prod.mk.inj h
  obtain ⟨htickets, hcalled⟩ := Prod.mk.inj hrest
  obtain ⟨hall, hiff⟩ := queued_after_raiseStop hc lookingIn rfl
  have hlength := (hall goingOn).1
  rw [hready] at hlength
  refine ⟨c, hc, hready, htickets, hcalled, hlength, ?_⟩
  rw [hiff, hready, htickets]
  simp

/-- An operation is called that was queued when the flag was raised, and the queue was shut then. -/
theorem exists_called_after_raiseStop : ¬ ∀ (config : CoordinatorConfig) (fs : Files)
    (c : Coordinator Unit), Coordinator.create config fs = .ok c →
      ∀ before after, ∀ t ∈ (run { coordinator := c } before).coordinator.queue.tickets,
        t ∉ (run { coordinator := c } before).called (raised (.turn .shutQueue :: after)) := by
  intro hnever
  have h : ((Coordinator.create {} {}).toOption.map fun c : Coordinator Unit =>
      (decide (0 ∈ (run { coordinator := c } lookingIn).coordinator.queue.tickets),
        decide (0 ∈ (run { coordinator := c } lookingIn).called (raised goingOn)))) =
      some (true, true) := by
    decide +kernel
  obtain ⟨c, hc, h⟩ := exists_of_create h
  obtain ⟨hqueued, hcalled⟩ := Prod.mk.inj h
  exact hnever {} {} c hc lookingIn _ 0 (of_decide_eq_true hqueued) (of_decide_eq_true hcalled)

end Scene

end Upkeep
