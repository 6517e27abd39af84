import Upkeep.Proofs.Coordinator.Stopping

/-!
# The order of reports

A caller puts an operation into the queue first and reports afterwards that it is queued. In between
the operation can be dequeued or cancelled, and whoever does that reports on it as well.

**Reports.** Workers report on what they have in hand, and callers on what they have submitted or
cancelled; each move has one `Voice` (`voice_move`).

**Order.** As long as nothing leaves the queue whose caller has still to report that it is queued
(`Scene.Timely`), that report comes before all others on the same operation (`prompt_run`). Once
something leaves the queue earlier, somebody else may report on it next (`mayReport_of_removed`).
So the order is kept exactly as long as callers are in time (`queuedFirst_of_timely`), and nothing
makes them be (`exists_not_queuedFirst`).
-/

namespace Upkeep

variable {ω : Type}

/-- The report that an operation is queued. -/
def Report.isQueued : Report → Bool
  | step "queued" .completed _ => true
  | _ => false

theorem Rejection.isQueued_report (why : Rejection) (available : UInt64) :
    (why.report available).isQueued = false := by
  cases why <;> rfl

namespace Deed

/-- The number of an operation that is taken in. -/
def accepted? : Deed ω → Option Nat
  | accept sub => some sub.ticket
  | _ => none

/-- The number of an operation that leaves the queue. -/
def removed? : Deed ω → Option Nat
  | take _ op | cancel op => some op.ticket
  | _ => none

end Deed

/-- What leaves the queue has been in it. -/
theorem Floor.Step.mem_queue {f f' : Floor ω} {d : Deed ω} (h : f.Step d f') {t : Nat}
    (ht : d.removed? = some t) : t ∈ f.books.queue.tickets := by
  cases h with
  | cancel hcall =>
    cases ht
    exact List.mem_map_of_mem ((Queue.entries_of_remove? hcall).mem_iff.2 List.mem_cons_self)
  | @work w _ b st hw hstride =>
    generalize f.stance w = stance at hstride
    cases hstride with
    | take hcall =>
      cases ht
      rw [Queue.tickets, Queue.entries_of_dequeue? hcall]
      exact List.mem_cons_self
    | _ => cases ht
  | _ => cases ht

/-- The operation that a worker may report on. -/
def Phase.op? : Phase ω → Option (Submitted ω)
  | admitting op | weighing op | probing op _ | warning op _ | rejecting op _ | requeueing op
  | dropping op _ | entering op | conflicted op | starting op _ | running op _
  | reporting op _ _ => some op
  | idle | ready | losing | releasing .. | leaving .. | finishing | stopped => none

/-- The number of the operation that a caller has still to report as queued. -/
def Telling.owed? : Telling ω → Option Nat
  | accepted op => some op.ticket
  | refused .. | cancelled _ => none

/-! ## What a worker reports -/

/-- Some entries have been added, on an operation in hand, and no caller has anything else to
report. -/
structure Coordinator.Adds (c c' : Coordinator ω) (op? : Option (Submitted ω)) : Prop where
  telling : c'.telling = c.telling
  audit : ∃ es, c'.audit = c.audit ++ es ∧ ∀ e ∈ es, ∃ op, op? = some op ∧ e.work = op.work

namespace Coordinator

variable {c c' : Coordinator ω} {op? : Option (Submitted ω)} {op : Submitted ω}

theorem adds_of_frame (htelling : c'.telling = c.telling) (haudit : c'.audit = c.audit) :
    c.Adds c' op? := ⟨htelling, [], by rw [haudit, List.append_nil], nofun⟩

theorem adds_tell (c : Coordinator ω) (op : Submitted ω) (r : Report) :
    c.Adds (c.tell op r) (some op) := by
  refine ⟨rfl, _, rfl, fun e he => ⟨op, rfl, ?_⟩⟩
  rw [List.mem_singleton.1 he]

theorem adds_tellAll (c : Coordinator ω) (op : Submitted ω) (rs : List Report) :
    c.Adds (rs.foldl (·.tell op) c) (some op) := by
  induction rs generalizing c with
  | nil => exact adds_of_frame rfl rfl
  | cons r rs ih =>
    obtain ⟨htelling, es, haudit, hes⟩ := ih (c.tell op r)
    refine ⟨htelling, ⟨op.work, op.id.text, r⟩ :: es, ?_, ?_⟩
    · rw [List.foldl_cons, haudit]
      simp [tell]
    · rw [List.forall_mem_cons]
      exact ⟨⟨op, rfl, rfl⟩, hes⟩

/-- A worker reports on what it has in hand. -/
theorem adds_advance (c : Coordinator ω) (env : Surroundings) (phase : Phase ω) :
    c.Adds (c.advance env phase).2 phase.op? := by
  cases phase with
  | ready | requeueing =>
    simp only [advance]
    split <;> exact adds_of_frame rfl rfl
  | admitting | weighing =>
    simp only [advance]
    split <;> exact adds_of_frame rfl rfl
  | probing op paths => cases paths <;> exact adds_of_frame rfl rfl
  | releasing id locks verdict => cases locks <;> exact adds_of_frame rfl rfl
  | entering op =>
    rcases start_cases c op env.now with ⟨locks, files, keeper, -, hstart⟩ | ⟨files, hstart⟩ <;>
      · simp only [advance, hstart]
        exact adds_of_frame rfl rfl
  | warning | dropping | conflicted | starting | reporting => exact adds_tell c _ _
  | running op locks => exact adds_tellAll c op env.reports
  | _ => exact adds_of_frame rfl rfl

theorem op?_advance (c : Coordinator ω) (env : Surroundings) (w : Nat) (phase : Phase ω)
    (h : (c.advance env phase).1.op? = some op) :
    phase.op?.map Operation.ticket = some op.ticket ∨
      (c.deed env w phase).removed? = some op.ticket := by
  cases phase with
  | idle =>
    simp only [advance] at h
    split at h <;> cases h
  | ready =>
    simp only [advance, deed] at h ⊢
    cases hcall : c.queue.dequeue? with
    | none =>
      rw [hcall] at h
      cases h
    | some taken =>
      rw [hcall] at h
      cases h
      exact .inr rfl
  | admitting | weighing =>
    simp only [advance] at h
    split at h <;>
      · cases h
        exact .inl rfl
  | probing op' paths =>
    cases paths with
    | nil =>
      cases h
      exact .inl rfl
    | cons p rest =>
      simp only [advance] at h
      split at h <;>
        · cases h
          exact .inl rfl
  | rejecting op' why =>
    cases h
    exact .inl rfl
  | requeueing op' =>
    simp only [advance] at h
    split at h
    · cases h
    · rename_i why back hback
      cases h
      rw [show op = op' from Queue.enqueue_eq_error hback]
      exact .inl rfl
  | entering op' =>
    rcases start_cases c op' env.now with ⟨locks, files, keeper, -, hstart⟩ | ⟨files, hstart⟩ <;>
      · simp only [advance, hstart] at h
        cases h
        exact .inl rfl
  | warning | conflicted | starting =>
    simp only [advance] at h
    split at h <;> cases h
    exact .inl rfl
  | dropping =>
    simp only [advance] at h
    split at h <;> cases h
  | running op' locks =>
    cases h
    exact .inl rfl
  | releasing id locks verdict => cases locks <;> cases h
  | _ => cases h

/-- A caller has to report whether its operation was taken in, unless the identifier was not even
one. -/
theorem telling_submit (c : Coordinator ω) (r : SubmitRequest ω) (now : Timestamp) :
    (∃ op : Submitted ω, op.ticket = c.submissions ∧ (c.submit r now).1 = true ∧
      (c.submit r now).2.telling = c.telling ++ [.accepted op] ∧
      (c.submit r now).2.audit = c.audit) ∨
    (∃ (op : Submitted ω) (why : Queue.Refusal), op.ticket = c.submissions ∧
      (c.submit r now).1 = false ∧ (c.submit r now).2.telling = c.telling ++ [.refused op why] ∧
      (c.submit r now).2.audit = c.audit) ∨
    ∃ e : AuditEntry ω, e.work.ticket = c.submissions ∧ (c.submit r now).1 = false ∧
      (c.submit r now).2.telling = c.telling ∧ (c.submit r now).2.audit = c.audit ++ [e] := by
  unfold submit
  cases OperationId.ofString r.id with
  | error e => exact .inr (.inr ⟨_, rfl, rfl, rfl, rfl⟩)
  | ok id =>
    dsimp only
    split
    · exact .inl ⟨_, rfl, rfl, rfl, rfl⟩
    · rename_i why back hback
      have hop := Queue.enqueue_eq_error hback
      exact .inr (.inl ⟨back, why, by rw [hop]; rfl, rfl, rfl, rfl⟩)

theorem removed?_deed {env : Surroundings} {w t : Nat} {phase : Phase ω}
    (h : (c.deed env w phase).removed? = some t) :
    ∃ op q, phase = .ready ∧ c.queue.dequeue? = some (op, q) ∧ op.ticket = t := by
  cases phase with
  | ready =>
    simp only [deed] at h
    cases hcall : c.queue.dequeue? with
    | none =>
      rw [hcall] at h
      cases h
    | some taken =>
      obtain ⟨op, q⟩ := taken
      rw [hcall] at h
      exact ⟨op, q, rfl, rfl, Option.some.inj h⟩
  | requeueing | warning | dropping | conflicted | starting | reporting =>
    simp only [deed] at h
    split at h <;> cases h
  | _ => cases h

end Coordinator

namespace Scene

variable {s s' : Scene ω} {m : Move ω} {ms : List (Move ω)} {d : Deed ω} {t : Nat}

/-! ## What a move reports -/

/-- A worker has the operation of a number in hand. -/
def InHand (s : Scene ω) (t : Nat) : Prop :=
  ∃ (w : Nat) (phase : Phase ω), s.coordinator.workers[w]? = some phase ∧
    phase.op?.map Operation.ticket = some t

/-- The numbers of the operations that callers have still to report as queued. -/
def owed (s : Scene ω) : List Nat := s.coordinator.telling.filterMap Telling.owed?

/-- The entries that a move adds, what callers have still to report after it, and how many requests
are submitted in it. -/
structure Adds (s : Scene ω) (d : Deed ω) (s' : Scene ω) (es : List (AuditEntry ω))
    (telling : List (Telling ω)) (n : Nat) : Prop where
  audit : s'.coordinator.audit = s.coordinator.audit ++ es
  telling : s'.coordinator.telling = telling
  submissions : s'.coordinator.submissions = s.coordinator.submissions + n
  hand : ∀ t, s'.InHand t → s.InHand t ∨ d.removed? = some t

/-- Who reports in a move, or has to report after it. -/
inductive Voice (s : Scene ω) (d : Deed ω) (s' : Scene ω) : Prop where
  /-- A worker reports on what it has in hand, if anybody does. -/
  | worker (es : List (AuditEntry ω)) (mem : ∀ e ∈ es, s.InHand e.work.ticket)
      (accepted : d.accepted? = none) (adds : s.Adds d s' es s.coordinator.telling 0)
  | accept (op : Submitted ω) (ticket : op.ticket = s.coordinator.submissions)
      (accepted : d.accepted? = some op.ticket)
      (adds : s.Adds d s' [] (s.coordinator.telling ++ [.accepted op]) 1)
  | refuse (op : Submitted ω) (why : Queue.Refusal) (ticket : op.ticket = s.coordinator.submissions)
      (accepted : d.accepted? = none)
      (adds : s.Adds d s' [] (s.coordinator.telling ++ [.refused op why]) 1)
  /-- A request without a valid identifier is reported at once. -/
  | invalid (e : AuditEntry ω) (ticket : e.work.ticket = s.coordinator.submissions)
      (accepted : d.accepted? = none) (adds : s.Adds d s' [e] s.coordinator.telling 1)
  | cancel (op : Submitted ω) (removed : d.removed? = some op.ticket)
      (accepted : d.accepted? = none)
      (adds : s.Adds d s' [] (s.coordinator.telling ++ [.cancelled op]) 0)
  | settle (k : Nat) (u : Telling ω) (owes : s.coordinator.telling[k]? = some u)
      (quiet : d = .quiet)
      (adds : s.Adds d s' [⟨u.operation.work, u.operation.id.text, u.report s.coordinator.queue⟩]
        (s.coordinator.telling.eraseIdx k) 0)

theorem inHand_of_workers (h : s'.coordinator.workers = s.coordinator.workers)
    (ht : s'.InHand t) : s.InHand t := by
  unfold InHand at *
  rwa [h] at ht

theorem accepted?_deed (c : Coordinator ω) (env : Surroundings) (w : Nat) (phase : Phase ω) :
    (c.deed env w phase).accepted? = none := by
  cases phase with
  | ready | requeueing | warning | dropping | conflicted | starting | reporting =>
    simp only [Coordinator.deed]
    split <;> rfl
  | _ => rfl

theorem voice_idle (h : d.accepted? = none) : s.Voice d s :=
  .worker [] (List.forall_mem_nil _) h ⟨by simp, rfl, rfl, fun _ => .inl⟩

theorem voice_work (s : Scene ω) (w : Nat) (env : Surroundings) :
    s.Voice (s.deed (.turn (.work w env))) (s.happen (.work w env)) := by
  rw [happen, deed]
  cases hwaits : s.waits w with
  | true => exact voice_idle rfl
  | false =>
    rw [if_neg Bool.false_ne_true]
    cases hw : s.coordinator.workers[w]? with
    | none =>
      rw [Coordinator.work_of_none hw]
      exact voice_idle rfl
    | some phase =>
      obtain ⟨htelling, es, haudit, hes⟩ := s.coordinator.adds_advance env phase
      obtain ⟨hworkers, hsubmissions, -⟩ := s.coordinator.advance_frame env phase
      rw [Coordinator.work_eq hw]
      refine .worker es (fun e he => ?_) (accepted?_deed _ _ _ _)
        ⟨haudit, htelling, hsubmissions, fun t ht => ?_⟩
      · obtain ⟨op, hop, hwork⟩ := hes e he
        refine ⟨w, phase, hw, ?_⟩
        rw [hop, hwork]
        rfl
      · obtain ⟨v, phase', hv, ht⟩ := ht
        by_cases hvw : w = v
        · subst hvw
          have hself : phase' = (s.coordinator.advance env phase).1 := by
            simp only [Coordinator.setPhase, hworkers] at hv
            rw [List.getElem?_set_self (List.getElem?_eq_some_iff.1 hw).1] at hv
            exact (Option.some.inj hv).symm
          subst hself
          obtain ⟨op, hop, rfl⟩ := Option.map_eq_some_iff.1 ht
          refine (s.coordinator.op?_advance env w phase hop).imp_left fun hold => ?_
          exact ⟨w, phase, hw, hold⟩
        · simp only [Coordinator.setPhase, hworkers] at hv
          rw [List.getElem?_set_ne hvw] at hv
          exact .inl ⟨v, phase', hv, ht⟩

theorem voice_submit (s : Scene ω) (r : SubmitRequest ω) (now : Timestamp) :
    s.Voice (s.deed (.turn (.submit r now))) (s.happen (.submit r now)) := by
  obtain ⟨hsubmissions, -⟩ := s.coordinator.submissions_submit r now
  have hadds {es : List (AuditEntry ω)} {telling : List (Telling ω)} {d : Deed ω}
      (haudit : (s.coordinator.submit r now).2.audit = s.coordinator.audit ++ es)
      (htelling : (s.coordinator.submit r now).2.telling = telling) :
      s.Adds d { s with coordinator := (s.coordinator.submit r now).2 } es telling 1 :=
    ⟨haudit, htelling, hsubmissions, fun t ht =>
      .inl (inHand_of_workers (s.coordinator.submit_frame r now).2.2 ht)⟩
  show s.Voice _ { s with coordinator := (s.coordinator.submit r now).2 }
  rw [deed]
  rcases s.coordinator.telling_submit r now with ⟨op, hop, hyes, htelling, haudit⟩ |
    ⟨op, why, hop, hno, htelling, haudit⟩ | ⟨e, he, hno, htelling, haudit⟩
  · rw [if_pos hyes]
    exact .accept op hop (congrArg some hop.symm) (hadds (by simpa using haudit) htelling)
  · rw [if_neg (Bool.not_eq_true _ ▸ hno)]
    exact .refuse op why hop rfl (hadds (by simpa using haudit) htelling)
  · rw [if_neg (Bool.not_eq_true _ ▸ hno)]
    exact .invalid e he rfl (hadds haudit htelling)

theorem voice_cancel (s : Scene ω) (id : String) :
    s.Voice (s.deed (.turn (.cancel id))) (s.happen (.cancel id)) := by
  show s.Voice _ { s with coordinator := (s.coordinator.cancel id).2 }
  rw [deed]
  unfold Coordinator.cancel
  cases OperationId.ofString id with
  | error e => exact voice_idle rfl
  | ok i =>
    dsimp only
    cases s.coordinator.queue.remove? i with
    | none => exact voice_idle rfl
    | some taken =>
      exact .cancel taken.1 rfl rfl ⟨(List.append_nil _).symm, rfl, rfl, fun _ => .inl⟩

theorem voice_settle (s : Scene ω) (k : Nat) : s.Voice .quiet (s.happen (.settle k)) := by
  show s.Voice _ { s with coordinator := s.coordinator.settle k }
  unfold Coordinator.settle
  cases hk : s.coordinator.telling[k]? with
  | none => exact voice_idle rfl
  | some u => exact .settle k u hk rfl ⟨rfl, rfl, rfl, fun _ => .inl⟩

theorem voice_proceed (h : s.Accounted) : s.Voice .quiet s.proceed := by
  -- The operation of the worker with the mutex stays in its hands.
  have hset {l : Locking ω} (hl : s.locking? = some l) {c : Coordinator ω} {phase : Phase ω}
      (hworkers : c.workers = s.coordinator.workers)
      (hphase : phase.op?.map Operation.ticket = some l.op.ticket) (t : Nat)
      (ht : InHand { coordinator := c.setPhase l.worker phase } t) :
      s.InHand t ∨ (Deed.quiet : Deed ω).removed? = some t := by
    obtain ⟨v, phase', hv, ht⟩ := ht
    obtain ⟨hat, -⟩ := h.locking l hl
    simp only [Coordinator.setPhase, hworkers] at hv
    by_cases hvw : l.worker = v
    · subst hvw
      rw [List.getElem?_set_self (List.getElem?_eq_some_iff.1 hat).1] at hv
      obtain rfl := Option.some.inj hv
      exact .inl ⟨l.worker, _, hat, hphase.symm.trans ht⟩
    · rw [List.getElem?_set_ne hvw] at hv
      exact .inl ⟨v, phase', hv, ht⟩
  have hworker {s' : Scene ω} (haudit : s'.coordinator.audit = s.coordinator.audit)
      (htelling : s'.coordinator.telling = s.coordinator.telling)
      (hsubmissions : s'.coordinator.submissions = s.coordinator.submissions)
      (hhand : ∀ t, s'.InHand t → s.InHand t ∨ (Deed.quiet : Deed ω).removed? = some t) :
      s.Voice .quiet s' :=
    .worker [] (List.forall_mem_nil _) rfl ⟨by simpa using haudit, htelling, hsubmissions, hhand⟩
  unfold proceed
  split
  · exact voice_idle rfl
  · rename_i l hl
    unfold advance
    split
    · exact hworker rfl rfl rfl (hset hl rfl rfl)
    · split
      · exact hworker rfl rfl rfl fun _ => .inl
      · split <;> exact hworker rfl rfl rfl fun _ => .inl
    · exact hworker rfl rfl rfl (hset hl rfl rfl)
    · exact hworker rfl rfl rfl fun _ => .inl

/-- Who reports in a move. -/
theorem voice_move (h : s.Accounted) (m : Move ω) : s.Voice (s.deed m) (s.move m) := by
  cases m with
  | begin w now =>
    show s.Voice .quiet (s.begin w now)
    unfold begin
    split
    · exact .worker [] (List.forall_mem_nil _) rfl
        ⟨by simp [Coordinator.enter], rfl, rfl, fun _ => .inl⟩
    · exact voice_idle rfl
  | proceed => exact voice_proceed h
  | turn turn =>
    cases turn with
    | work w env => exact voice_work s w env
    | submit r now => exact voice_submit s r now
    | cancel id => exact voice_cancel s id
    | settle k => exact voice_settle s k
    | raiseStop | shutQueue | disturb =>
      exact .worker [] (List.forall_mem_nil _) rfl
        ⟨(List.append_nil _).symm, rfl, rfl, fun _ => .inl⟩

/-! ## The order of reports -/

/-- The numbers of the submissions that are taken in in some moves. -/
def accepted (s : Scene ω) (ms : List (Move ω)) : List Nat :=
  (s.deeds ms).filterMap Deed.accepted?

/-- Each entry on one of these submissions is that it is queued, or comes after such an entry. -/
def QueuedFirst (s : Scene ω) (ts : List Nat) : Prop :=
  ∀ before e after, s.coordinator.audit = before ++ e :: after → e.work.ticket ∈ ts →
    e.report.isQueued ∨ ∃ e' ∈ before, e'.work.ticket = e.work.ticket ∧ e'.report.isQueued

/-- Nothing leaves the queue that a caller has still to report as queued. -/
def Heeds (s : Scene ω) (d : Deed ω) : Prop := ∀ t ∈ d.removed?, t ∉ s.owed

/-- At no time anything leaves the queue that a caller has still to report as queued. -/
def Timely (s : Scene ω) : List (Move ω) → Prop
  | [] => True
  | m :: ms => s.Heeds (s.deed m) ∧ (s.move m).Timely ms

instance decidableHeeds (s : Scene ω) (d : Deed ω) : Decidable (s.Heeds d) :=
  inferInstanceAs (Decidable (∀ t ∈ d.removed?, t ∉ s.owed))

instance decidableTimely (s : Scene ω) : (ms : List (Move ω)) → Decidable (s.Timely ms)
  | [] => .isTrue trivial
  | m :: ms =>
    have : Decidable ((s.move m).Timely ms) := decidableTimely (s.move m) ms
    inferInstanceAs (Decidable (s.Heeds (s.deed m) ∧ (s.move m).Timely ms))

/-- Somebody else than its submitter may report on an operation, or somebody has. -/
def Known (s : Scene ω) (t : Nat) : Prop :=
  s.InHand t ∨ (∃ u ∈ s.coordinator.telling, u.owed? = none ∧ u.operation.ticket = t) ∨
    ∃ e ∈ s.coordinator.audit, e.work.ticket = t

/-- What a move may make known: a ticket that is known already, or one, at most a new one, that no
caller has to report as queued. -/
def Allowed (s : Scene ω) (n t : Nat) : Prop :=
  s.Known t ∨ t ∉ s.owed ∧ t < s.coordinator.submissions + n

/-- What is taken in is unknown to all others until it is reported as queued. -/
structure Prompt (s : Scene ω) (ts : List Nat) : Prop where
  lt : ∀ t, t ∈ ts ∨ s.Known t → t < s.coordinator.submissions
  owed : ∀ t ∈ s.owed, t ∈ ts ∧ ¬ s.Known t
  nodup : s.owed.Nodup
  heard : ∀ t ∈ ts, t ∉ s.owed →
    ∃ e ∈ s.coordinator.audit, e.work.ticket = t ∧ e.report.isQueued
  first : s.QueuedFirst ts

variable {ts : List Nat} {es : List (AuditEntry ω)} {telling : List (Telling ω)} {n : Nat}

theorem Adds.known (h : s.Adds d s' es telling n) (ht : s'.Known t) :
    s.InHand t ∨ d.removed? = some t ∨
      (∃ u ∈ telling, u.owed? = none ∧ u.operation.ticket = t) ∨
        (∃ e ∈ s.coordinator.audit, e.work.ticket = t) ∨ ∃ e ∈ es, e.work.ticket = t := by
  rcases ht with hhand | htelling | ⟨e, he, hticket⟩
  · exact (h.hand t hhand).imp_right .inl
  · rw [h.telling] at htelling
    exact .inr (.inr (.inl htelling))
  · rw [h.audit, List.mem_append] at he
    rcases he with he | he
    · exact .inr (.inr (.inr (.inl ⟨e, he, hticket⟩)))
    · exact .inr (.inr (.inr (.inr ⟨e, he, hticket⟩)))

theorem QueuedFirst.append (h : s.QueuedFirst ts)
    (haudit : s'.coordinator.audit = s.coordinator.audit ++ es)
    (hes : ∀ e ∈ es, e.work.ticket ∈ ts → e.report.isQueued ∨
      ∃ e' ∈ s.coordinator.audit, e'.work.ticket = e.work.ticket ∧ e'.report.isQueued) :
    s'.QueuedFirst ts := by
  intro before e after hsplit hticket
  rw [haudit] at hsplit
  rcases List.append_eq_append_iff.1 hsplit with ⟨mid, rfl, hmid⟩ | ⟨mid, hmid, hrest⟩
  · have he : e ∈ es := hmid ▸ List.mem_append_right _ List.mem_cons_self
    refine (hes e he hticket).imp_right fun ⟨e', he', hsame⟩ => ?_
    exact ⟨e', List.mem_append_left _ he', hsame⟩
  · cases mid with
    | nil =>
      have he : e ∈ es := by
        rw [List.nil_append] at hrest
        exact hrest ▸ List.mem_cons_self
      rw [List.append_nil] at hmid
      exact hmid ▸ hes e he hticket
    | cons e₁ mid =>
      obtain ⟨rfl, -⟩ := List.cons.inj hrest
      exact h before e mid hmid hticket

namespace Prompt

/-- A move that leaves alone what callers have to report as queued: whatever it makes known is known
already, or is not for them to report. -/
theorem other (h : s.Prompt ts) (hheeds : s.Heeds d)
    (hremoved : ∀ t ∈ d.removed?, t < s.coordinator.submissions) (adds : s.Adds d s' es telling n)
    (howed : s'.owed.Perm s.owed)
    (htelling : ∀ u ∈ telling, u.owed? = none → s.Allowed n u.operation.ticket)
    (hes : ∀ e ∈ es, s.Allowed n e.work.ticket) : s'.Prompt ts := by
  have hknown (t : Nat) (ht : s'.Known t) : s.Allowed n t := by
    rcases adds.known ht with hhand | hgone | ⟨u, hu, hown, rfl⟩ | hold | ⟨e, he, rfl⟩
    · exact .inl (.inl hhand)
    · exact .inr ⟨hheeds t hgone, Nat.lt_add_right n (hremoved t hgone)⟩
    · exact htelling u hu hown
    · exact .inl (.inr (.inr hold))
    · exact hes e he
  have hnot (t : Nat) (ht : s.Allowed n t) : t ∉ s.owed := fun howes =>
    ht.elim (h.owed t howes).2 fun hnew => hnew.1 howes
  constructor
  case lt =>
    intro t ht
    rw [adds.submissions]
    rcases ht with ht | ht
    · exact Nat.lt_add_right n (h.lt t (.inl ht))
    · rcases hknown t ht with hold | ⟨-, hlt⟩
      · exact Nat.lt_add_right n (h.lt t (.inr hold))
      · exact hlt
  case owed =>
    intro t ht
    rw [howed.mem_iff] at ht
    exact ⟨(h.owed t ht).1, fun hnew => hnot t (hknown t hnew) ht⟩
  case nodup => exact howed.nodup_iff.2 h.nodup
  case heard =>
    intro t ht hnow
    rw [howed.mem_iff] at hnow
    obtain ⟨e, he, hqueued⟩ := h.heard t ht hnow
    exact ⟨e, adds.audit ▸ List.mem_append_left _ he, hqueued⟩
  case first =>
    refine h.first.append adds.audit fun e he hticket => .inr ?_
    exact h.heard _ hticket (hnot _ (hes e he))

theorem accept (h : s.Prompt ts) (hheeds : s.Heeds d)
    (hremoved : ∀ t ∈ d.removed?, t < s.coordinator.submissions) {op : Submitted ω}
    (hticket : op.ticket = s.coordinator.submissions)
    (adds : s.Adds d s' [] (s.coordinator.telling ++ [.accepted op]) 1) :
    s'.Prompt (ts ++ [op.ticket]) := by
  have howed : s'.owed = s.owed ++ [op.ticket] := by
    rw [Scene.owed, adds.telling, List.filterMap_append]
    rfl
  have haudit : s'.coordinator.audit = s.coordinator.audit :=
    adds.audit.trans (List.append_nil _)
  have hknown (t : Nat) (ht : s'.Known t) : s.Known t ∨ d.removed? = some t := by
    rcases adds.known ht with hhand | hgone | ⟨u, hu, hown, hticket⟩ | hold | ⟨e, he, -⟩
    · exact .inl (.inl hhand)
    · exact .inr hgone
    · rcases List.mem_append.1 hu with hu | hu
      · exact .inl (.inr (.inl ⟨u, hu, hown, hticket⟩))
      · rw [List.mem_singleton.1 hu] at hown
        cases hown
    · exact .inl (.inr (.inr hold))
    · cases he
  have hlt (t : Nat) (ht : s'.Known t) : t < s.coordinator.submissions :=
    (hknown t ht).elim (fun hold => h.lt t (.inr hold)) (hremoved t)
  constructor
  case lt =>
    intro t ht
    rw [adds.submissions]
    rcases ht with ht | ht
    · rcases List.mem_append.1 ht with ht | ht
      · exact Nat.lt_succ_of_lt (h.lt t (.inl ht))
      · rw [List.mem_singleton.1 ht, hticket]
        exact Nat.lt_succ_self _
    · exact Nat.lt_succ_of_lt (hlt t ht)
  case owed =>
    intro t ht
    rw [howed, List.mem_append] at ht
    rcases ht with ht | ht
    · refine ⟨List.mem_append_left _ (h.owed t ht).1, fun hnew => ?_⟩
      exact (hknown t hnew).elim (h.owed t ht).2 fun hgone => hheeds t hgone ht
    · refine ⟨List.mem_append_right _ ht, fun hnew => ?_⟩
      have hbefore := hlt t hnew
      rw [List.mem_singleton.1 ht, hticket] at hbefore
      exact Nat.lt_irrefl _ hbefore
  case nodup =>
    rw [howed]
    refine List.nodup_append.2 ⟨h.nodup, List.nodup_singleton _, fun t ht t' ht' heq => ?_⟩
    have hbefore := h.lt t (.inl (h.owed t ht).1)
    rw [heq, List.mem_singleton.1 ht', hticket] at hbefore
    exact Nat.lt_irrefl _ hbefore
  case heard =>
    intro t ht hnot
    rw [howed, List.mem_append, not_or] at hnot
    rw [haudit]
    exact h.heard t ((List.mem_append.1 ht).resolve_right hnot.2) hnot.1
  case first =>
    intro before e after hsplit ht
    rw [haudit] at hsplit
    rcases List.mem_append.1 ht with ht | ht
    · exact h.first before e after hsplit ht
    · have hin : e ∈ s.coordinator.audit :=
        hsplit ▸ List.mem_append_right _ List.mem_cons_self
      have hbefore := h.lt e.work.ticket (.inr (.inr (.inr ⟨e, hin, rfl⟩)))
      rw [List.mem_singleton.1 ht, hticket] at hbefore
      exact absurd hbefore (Nat.lt_irrefl _)

/-- A caller reports that its operation is queued. -/
theorem settle (h : s.Prompt ts) {op : Submitted ω} {e : AuditEntry ω}
    (howed : s.owed.Perm (op.ticket :: s'.owed)) (hticket : e.work.ticket = op.ticket)
    (hqueued : e.report.isQueued)
    (hsubset : ∀ u ∈ s'.coordinator.telling, u ∈ s.coordinator.telling)
    (haudit : s'.coordinator.audit = s.coordinator.audit ++ [e])
    (hsubmissions : s'.coordinator.submissions = s.coordinator.submissions)
    (hhand : ∀ t, s'.InHand t → s.InHand t) : s'.Prompt ts := by
  have hnodup := List.nodup_cons.1 (howed.nodup_iff.1 h.nodup)
  have hin : op.ticket ∈ ts := (h.owed _ (howed.mem_iff.2 List.mem_cons_self)).1
  have hknown (t : Nat) (ht : s'.Known t) : s.Known t ∨ t = op.ticket := by
    rcases ht with ht | ⟨u, hu, hown⟩ | ⟨e', he', rfl⟩
    · exact .inl (.inl (hhand t ht))
    · exact .inl (.inr (.inl ⟨u, hsubset u hu, hown⟩))
    · rw [haudit, List.mem_append, List.mem_singleton] at he'
      rcases he' with he' | rfl
      · exact .inl (.inr (.inr ⟨e', he', rfl⟩))
      · exact .inr hticket
  constructor
  case lt =>
    intro t ht
    rw [hsubmissions]
    rcases ht with ht | ht
    · exact h.lt t (.inl ht)
    · rcases hknown t ht with hold | rfl
      · exact h.lt t (.inr hold)
      · exact h.lt _ (.inl hin)
  case owed =>
    intro t ht
    have hold := h.owed t (howed.mem_iff.2 (List.mem_cons_of_mem _ ht))
    refine ⟨hold.1, fun hnew => ?_⟩
    rcases hknown t hnew with hknown | rfl
    · exact hold.2 hknown
    · exact hnodup.1 ht
  case nodup => exact hnodup.2
  case heard =>
    intro t ht hnot
    rw [haudit]
    by_cases heq : t = op.ticket
    · exact ⟨e, List.mem_append_right _ List.mem_cons_self, hticket.trans heq.symm, hqueued⟩
    · have hbefore : t ∉ s.owed := by
        rw [howed.mem_iff, List.mem_cons, not_or]
        exact ⟨heq, hnot⟩
      obtain ⟨e', he', hsame⟩ := h.heard t ht hbefore
      exact ⟨e', List.mem_append_left _ he', hsame⟩
  case first =>
    refine h.first.append haudit fun e' he' _ => .inl ?_
    rwa [List.mem_singleton.1 he']

theorem step (h : s.Prompt ts) (hheeds : s.Heeds d)
    (hremoved : ∀ t ∈ d.removed?, t < s.coordinator.submissions) (hvoice : s.Voice d s') :
    s'.Prompt (ts ++ d.accepted?.toList) := by
  have hnew {t : Nat} (ht : t = s.coordinator.submissions) : s.Allowed 1 t := by
    refine .inr ⟨fun howes => ?_, ht ▸ Nat.lt_succ_self _⟩
    exact Nat.ne_of_lt (h.lt t (.inl (h.owed t howes).1)) ht
  have hold (n : Nat) (u : Telling ω) (hu : u ∈ s.coordinator.telling) (hother : u.owed? = none) :
      s.Allowed n u.operation.ticket := .inl (.inr (.inl ⟨u, hu, hother, rfl⟩))
  have hpromise {n : Nat} (u : Telling ω) (hother : u.owed? = none)
      (hu : s.Allowed n u.operation.ticket)
      (adds : s.Adds d s' [] (s.coordinator.telling ++ [u]) n) : s'.Prompt ts := by
    have howed : s'.owed = s.owed := by
      rw [Scene.owed, adds.telling, List.filterMap_append, List.filterMap_cons_none hother]
      exact List.append_nil _
    refine h.other hheeds hremoved adds (.of_eq howed) (fun u' hu' hother' => ?_)
      (List.forall_mem_nil _)
    rcases List.mem_append.1 hu' with hu' | hu'
    · exact hold n u' hu' hother'
    · rwa [List.mem_singleton.1 hu']
  cases hvoice with
  | worker es mem accepted adds =>
    rw [accepted, Option.toList_none, List.append_nil]
    exact h.other hheeds hremoved adds (.of_eq (congrArg (List.filterMap _) adds.telling))
      (hold 0) fun e he => .inl (.inl (mem e he))
  | accept op ticket accepted adds =>
    rw [accepted]
    exact h.accept hheeds hremoved ticket adds
  | refuse op why ticket accepted adds =>
    rw [accepted, Option.toList_none, List.append_nil]
    exact hpromise (.refused op why) rfl (hnew ticket) adds
  | invalid e ticket accepted adds =>
    rw [accepted, Option.toList_none, List.append_nil]
    refine h.other hheeds hremoved adds (.of_eq (congrArg (List.filterMap _) adds.telling))
      (hold 1) fun e' he' => ?_
    rw [List.mem_singleton.1 he']
    exact hnew ticket
  | cancel op removed accepted adds =>
    rw [accepted, Option.toList_none, List.append_nil]
    exact hpromise (.cancelled op) rfl (.inr ⟨hheeds _ removed, hremoved _ removed⟩) adds
  | settle k u owes quiet adds =>
    subst quiet
    rw [show (Deed.quiet : Deed ω).accepted?.toList = [] from rfl, List.append_nil]
    obtain ⟨hk, hu⟩ := List.getElem?_eq_some_iff.1 owes
    have hperm : (u :: s'.coordinator.telling).Perm s.coordinator.telling := by
      rw [adds.telling, ← hu]
      exact List.getElem_cons_eraseIdx_perm hk
    have howed := hperm.filterMap Telling.owed?
    have hsubset (v : Telling ω) (hv : v ∈ s'.coordinator.telling) : v ∈ s.coordinator.telling :=
      hperm.mem_iff.1 (List.mem_cons_of_mem _ hv)
    have hlate (hother : u.owed? = none) : s'.Prompt ts := by
      rw [List.filterMap_cons_none hother] at howed
      refine h.other hheeds hremoved adds howed (fun v hv => ?_) fun e he => ?_
      · exact hold 0 v (hsubset v (adds.telling ▸ hv))
      · rw [List.mem_singleton.1 he]
        exact hold 0 u (hperm.mem_iff.1 List.mem_cons_self) hother
    cases u with
    | accepted op =>
      have hhand (t : Nat) (ht : s'.InHand t) : s.InHand t := by
        rcases adds.hand t ht with hhand | hgone
        · exact hhand
        · cases hgone
      exact h.settle howed.symm rfl rfl hsubset adds.audit adds.submissions hhand
    | refused op why => exact hlate rfl
    | cancelled op => exact hlate rfl

end Prompt

/-! ## Runs -/

theorem prompt_run (h : s.Accounted) (hnumbered : s.floor.Numbered) (hprompt : s.Prompt ts)
    (htimely : s.Timely ms) : (s.run ms).Prompt (ts ++ s.accepted ms) := by
  induction ms generalizing s ts with
  | nil =>
    rw [show s.accepted [] = [] from rfl, List.append_nil]
    exact hprompt
  | cons m ms ih =>
    obtain ⟨hheeds, htimely⟩ := htimely
    have haccounted := accounted_move h m
    have hremoved (t : Nat) (ht : t ∈ (s.deed m).removed?) : t < s.coordinator.submissions :=
      hnumbered.lt t (List.mem_append_left _ ((step_move h m).mem_queue ht))
    have hafter := hprompt.step hheeds hremoved (voice_move h m)
    have hcons : s.accepted (m :: ms) =
        (s.deed m).accepted?.toList ++ (s.move m).accepted ms := by
      cases htaken : (s.deed m).accepted? with
      | none => exact List.filterMap_cons_none htaken
      | some t => exact List.filterMap_cons_some htaken
    rw [hcons, ← List.append_assoc]
    exact ih haccounted ((step_move h m).numbered hnumbered) hafter htimely

theorem prompt_create {config : CoordinatorConfig} {fs : Files} {c : Coordinator ω}
    (h : Coordinator.create config fs = .ok c) : Prompt { coordinator := c } [] := by
  obtain ⟨haudit, htelling, hidle⟩ : c.audit = [] ∧ c.telling = [] ∧
      ∀ phase ∈ c.workers, phase = .idle := by
    unfold Coordinator.create at h
    split at h
    · cases h
    · dsimp only at h
      split at h
      · cases h
      · cases h
        exact ⟨rfl, rfl, fun phase hphase => List.eq_of_mem_replicate hphase⟩
  have hunknown (t : Nat) : ¬ Known { coordinator := c } t := by
    rintro (⟨w, phase, hw, ht⟩ | ⟨u, hu, -⟩ | ⟨e, he, -⟩)
    · rw [hidle phase (List.mem_of_getElem? hw)] at ht
      cases ht
    · rw [htelling] at hu
      cases hu
    · rw [haudit] at he
      cases he
  have howed : owed { coordinator := c } = [] := by rw [owed, htelling, List.filterMap_nil]
  constructor
  case lt => exact fun t ht => ht.elim nofun fun hknown => absurd hknown (hunknown t)
  case owed =>
    rw [howed]
    exact nofun
  case nodup => exact howed ▸ .nil
  case heard => exact nofun
  case first =>
    intro before e after hsplit
    rw [haudit] at hsplit
    cases before <;> cases hsplit

/-! ## Reports that come too early -/

theorem move_work (h : s.Accounted) {w : Nat} {phase : Phase ω}
    (hw : s.coordinator.workers[w]? = some phase) (hfree : phase.isGuarded = false)
    (env : Surroundings) : s.move (.turn (.work w env)) = { s with
      coordinator := (s.coordinator.advance env phase).2.setPhase w
        (s.coordinator.advance env phase).1 } := by
  rw [move, happen, waits_eq_false h hw hfree, if_neg Bool.false_ne_true,
    Coordinator.work_eq hw]

theorem phase_move_work (h : s.Accounted) {w : Nat} {phase : Phase ω}
    (hw : s.coordinator.workers[w]? = some phase) (hfree : phase.isGuarded = false)
    (env : Surroundings) : (s.move (.turn (.work w env))).coordinator.workers[w]? =
      some (s.coordinator.advance env phase).1 := by
  rw [move_work h hw hfree]
  simp only [Coordinator.setPhase, (s.coordinator.advance_frame env phase).1]
  exact List.getElem?_set_self (List.getElem?_eq_some_iff.1 hw).1

/-- It may come to the next report being this one. -/
def MayReport (s : Scene ω) (op : Submitted ω) (r : Report) : Prop :=
  ∃ after : List (Move ω), (s.run after).coordinator.audit =
    s.coordinator.audit ++ [⟨op.work, op.id.text, r⟩]

theorem mayReport_of_move {op : Submitted ω} {r : Report}
    (haudit : (s.move m).coordinator.audit = s.coordinator.audit)
    (h : (s.move m).MayReport op r) : s.MayReport op r := by
  obtain ⟨after, hafter⟩ := h
  exact ⟨m :: after, hafter.trans (by rw [haudit])⟩

theorem mayReport_of_warning (h : s.Accounted) {w : Nat} {op : Submitted ω} {why : Rejection}
    (hw : s.coordinator.workers[w]? = some (.warning op why)) : s.MayReport op (why.report 0) := by
  refine ⟨[.turn (.work w {})], ?_⟩
  show (s.move (.turn (.work w {}))).coordinator.audit = _
  rw [move_work h hw rfl]
  rfl

theorem atHeadroom?_zero (monitor : MemoryMonitor) (mb : UInt64) :
    Rejection.atHeadroom? monitor mb 0 = some (.noHeadroom mb) := by
  have hnot : monitor.allows 0 mb = false := by
    rw [MemoryMonitor.allows, Bool.and_eq_false_iff]
    by_cases hzero : Memory.ofMb mb = 0
    · right
      rw [hzero]
      exact decide_eq_false (UInt64.not_lt_zero)
    · left
      exact decide_eq_false fun hle => hzero (UInt64.le_zero_iff.1 hle)
  rw [Rejection.atHeadroom?, hnot]
  rfl

theorem mayReport_of_weighing (h : s.Accounted) {w : Nat} {op : Submitted ω}
    (hw : s.coordinator.workers[w]? = some (.weighing op)) :
    ∃ why : Rejection, s.MayReport op (why.report 0) := by
  have haccounted := accounted_move h (.turn (.work w {}))
  have hmove := move_work h hw rfl {}
  have hphase := phase_move_work h hw rfl {}
  simp only [Coordinator.advance, atHeadroom?_zero] at hmove hphase
  refine ⟨_, mayReport_of_move ?_ (mayReport_of_warning haccounted hphase)⟩
  rw [hmove]
  rfl

/-- An operation that has been dequeued may be rejected next, since memory may be short. -/
theorem mayReport_of_admitting (h : s.Accounted) {w : Nat} {op : Submitted ω}
    (hw : s.coordinator.workers[w]? = some (.admitting op)) :
    ∃ why : Rejection, s.MayReport op (why.report 0) := by
  have haccounted := accounted_move h (.turn (.work w {}))
  have hmove := move_work h hw rfl {}
  have hphase := phase_move_work h hw rfl {}
  have haudit : (s.move (.turn (.work w {}))).coordinator.audit = s.coordinator.audit := by
    rw [hmove]
    simp only [Coordinator.advance]
    split <;> rfl
  simp only [Coordinator.advance] at hphase
  split at hphase
  · exact ⟨_, mayReport_of_move haudit (mayReport_of_warning haccounted hphase)⟩
  · obtain ⟨why, hwhy⟩ := mayReport_of_weighing haccounted hphase
    exact ⟨why, mayReport_of_move haudit hwhy⟩

theorem mayReport_of_cancel {id : String}
    (hgone : (s.deed (.turn (.cancel id))).removed? = some t) :
    ∃ op : Submitted ω, op.ticket = t ∧
      s.MayReport op (.step "cancelled" .completed "Operation cancelled") := by
  have hmove : s.move (.turn (.cancel id)) =
      { s with coordinator := (s.coordinator.cancel id).2 } := rfl
  rw [deed] at hgone
  unfold Coordinator.cancel at hmove
  cases hid : OperationId.ofString id with
  | error e =>
    rw [hid] at hgone
    cases hgone
  | ok i =>
    rw [hid] at hgone hmove
    dsimp only at hgone hmove
    cases hcall : s.coordinator.queue.remove? i with
    | none =>
      rw [hcall] at hgone
      cases hgone
    | some taken =>
      obtain ⟨op, q⟩ := taken
      rw [hcall] at hgone hmove
      refine ⟨op, Option.some.inj hgone, mayReport_of_move (m := .turn (.cancel id)) ?_ ?_⟩
      · rw [hmove]
      · refine ⟨[.turn (.settle s.coordinator.telling.length)], ?_⟩
        rw [hmove]
        show (Coordinator.settle _ _).audit = _
        unfold Coordinator.settle
        rw [List.getElem?_concat_length]
        rfl

/-- When an operation leaves the queue, somebody else may report on it next. -/
theorem mayReport_of_removed (h : s.Accounted) (hgone : (s.deed m).removed? = some t) :
    ∃ (op : Submitted ω) (r : Report), op.ticket = t ∧ r.isQueued = false ∧ s.MayReport op r := by
  cases m with
  | begin => cases hgone
  | proceed => cases hgone
  | turn turn =>
    cases turn with
    | work w env =>
      have hafter := accounted_move h (.turn (.work w env))
      rw [deed] at hgone
      split at hgone
      · rename_i phase _ hw
        obtain ⟨op, q, rfl, hcall, rfl⟩ := Coordinator.removed?_deed hgone
        have hmove := move_work h hw rfl env
        have hphase := phase_move_work h hw rfl env
        simp only [Coordinator.advance, hcall] at hmove hphase
        obtain ⟨why, hwhy⟩ := mayReport_of_admitting hafter hphase
        refine ⟨op, _, rfl, why.isQueued_report 0, mayReport_of_move ?_ hwhy⟩
        rw [hmove]
        rfl
      · cases hgone
    | submit r now =>
      rw [deed] at hgone
      split at hgone <;> cases hgone
    | cancel id =>
      obtain ⟨op, rfl, hreport⟩ := mayReport_of_cancel hgone
      exact ⟨op, _, rfl, rfl, hreport⟩
    | _ => cases hgone

/-! ## Every run -/

/-- In a run in which nothing leaves the queue before its caller has reported that it is queued,
this is the first report on each operation that is taken in. Where the next move is that something
leaves the queue earlier, something else may be the first report on it. -/
theorem queuedFirst_of_timely {config : CoordinatorConfig} {fs : Files} {c : Coordinator ω}
    (h : Coordinator.create config fs = .ok c) (htimely : Timely { coordinator := c } ms)
    (hs : run { coordinator := c } ms = s) :
    s.QueuedFirst (accepted { coordinator := c } ms) ∧
      ∀ m, ¬ s.Heeds (s.deed m) →
        ∃ after, ¬ (s.run after).QueuedFirst (accepted { coordinator := c } ms) := by
  have haccounted : s.Accounted := hs ▸ accounted_run (accounted_create h) ms
  have hprompt : s.Prompt (accepted { coordinator := c } ms) := by
    rw [← hs]
    exact prompt_run (accounted_create h) (numbered_run h []) (prompt_create h) htimely
  refine ⟨hprompt.first, fun m hearly => ?_⟩
  unfold Heeds at hearly
  push Not at hearly
  obtain ⟨t, hgone, howed⟩ := hearly
  obtain ⟨op, r, rfl, hother, after, hafter⟩ := mayReport_of_removed haccounted hgone
  obtain ⟨hin, hunknown⟩ := hprompt.owed op.ticket howed
  refine ⟨after, fun hfirst => ?_⟩
  rcases hfirst _ _ [] hafter hin with hqueued | ⟨e, he, hticket, -⟩
  · rw [hother] at hqueued
    cases hqueued
  · exact hunknown (.inr (.inr ⟨e, he, hticket⟩))

/-- Two operations are submitted. The first is reported as queued and started, and a second worker
is about to dequeue the other. -/
def overtaking : List (Move Unit) :=
  [.turn (.submit { id := "a", job := () } default), .turn (.settle 0),
    .turn (.submit { id := "b", job := () } default)] ++
  List.replicate 7 (.turn (.work 0 { reading := 1099511627776 })) ++ [.turn (.work 1 {})]

theorem queuedFirst_of_timely_overtaking : ∃ c : Coordinator Unit,
    Coordinator.create {} {} = .ok c ∧ Timely { coordinator := c } overtaking ∧
      accepted { coordinator := c } overtaking = [0, 1] ∧
      (run { coordinator := c } overtaking).coordinator.audit.map
        (fun e => (e.work.ticket, e.report.isQueued)) = [(0, true), (0, false)] ∧
      (run { coordinator := c } overtaking).QueuedFirst [0, 1] ∧
      ∃ after, ¬ ((run { coordinator := c } overtaking).run after).QueuedFirst [0, 1] := by
  have h : ((Coordinator.create {} {}).toOption.map fun c : Coordinator Unit =>
      (decide (Timely { coordinator := c } overtaking),
        decide ((run { coordinator := c } overtaking).Heeds
          ((run { coordinator := c } overtaking).deed (.turn (.work 1 {})))),
        accepted { coordinator := c } overtaking,
        (run { coordinator := c } overtaking).coordinator.audit.map
          (fun e => (e.work.ticket, e.report.isQueued)))) =
      some (true, false, [0, 1], [(0, true), (0, false)]) := by
    decide +kernel
  obtain ⟨c, hc, h⟩ := exists_of_create h
  simp only [Prod.mk.injEq, decide_eq_true_eq, decide_eq_false_iff_not] at h
  obtain ⟨htimely, hearly, haccepted, haudit⟩ := h
  obtain ⟨hfirst, hafter⟩ := queuedFirst_of_timely hc htimely rfl
  rw [haccepted] at hfirst hafter
  exact ⟨c, hc, htimely, haccepted, haudit, hfirst, hafter _ hearly⟩

/-- It may be reported that an operation has started, and not yet that it is queued. -/
theorem exists_not_queuedFirst : ¬ ∀ (config : CoordinatorConfig) (fs : Files)
    (c : Coordinator Unit), Coordinator.create config fs = .ok c → ∀ ms,
      (run { coordinator := c } ms).QueuedFirst (accepted { coordinator := c } ms) := by
  intro halways
  have h : ((Coordinator.create {} {}).toOption.map fun c : Coordinator Unit =>
      let ms := (.turn (.submit { id := "a", job := () } default)) ::
        List.replicate 7 (.turn (.work 0 { reading := 1099511627776 }))
      (accepted { coordinator := c } ms, (run { coordinator := c } ms).coordinator.audit.map
        (fun e => (e.work.ticket, e.report.isQueued)))) = some ([0], [(0, false)]) := by
    decide +kernel
  obtain ⟨c, hc, h⟩ := exists_of_create h
  obtain ⟨haccepted, haudit⟩ := Prod.mk.inj h
  obtain ⟨e, hsingle, he⟩ := List.map_eq_singleton_iff.1 haudit
  obtain ⟨hticket, hother⟩ := Prod.mk.inj he
  have hin : e.work.ticket ∈ [0] := List.mem_singleton.2 hticket
  rcases halways {} {} c hc _ [] e [] hsingle (haccepted ▸ hin) with hqueued | ⟨e', he', -⟩
  · rw [hother] at hqueued
    cases hqueued
  · cases he'

end Scene

end Upkeep
