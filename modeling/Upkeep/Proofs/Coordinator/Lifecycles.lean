import Upkeep.Proofs.Coordinator.Stages

/-!
# What is reported of an operation's life

**Posts.** An operation that is not over is in the queue, with a worker, or with the caller that
cancels it (`Coordinator.roll`). Each move is a step of that roll (`roll_move`): whoever has an
operation hands it over as it is, or takes it through one passage. So the reports on an operation
are those of one life, although several workers and a caller make them.

**Rejections that are missed.** If the sink breaks down with the report of a rejection, the worker
gives up the operation and does not come to count it (`Scene.misses`). Apart from these, the
warnings are what the counters say whenever no worker has an operation in hand (`chronicled_run`);
with these they are not (`exists_warnings_ne_counted`).
-/

namespace Upkeep

variable {ω : Type}

/-! ## The roll of a coordinator -/

namespace Phase

/-- How far the operation in a worker's hands is. -/
def stage : Phase ω → Stage
  | rejecting .. => .rejected
  | conflicted _ => .conflicted
  | running .. | reporting .. => .underway
  | _ => .waiting

def post? (phase : Phase ω) : Option (Post ω) := phase.op?.map fun op => (op.bare, phase.stage)

/-- The sink breaks down with the report of a rejection. -/
def misses (env : Surroundings) : Phase ω → Bool
  | warning .. => env.sinkFails
  | _ => false

end Phase

namespace Telling

def post? : Telling ω → Option (Post ω)
  | cancelled op => some (op.bare, .waiting)
  | accepted _ | refused .. => none

/-- The number of the request that a caller has still to report as refused. -/
def refused? : Telling ω → Option Nat
  | refused op _ => some op.ticket
  | accepted _ | cancelled _ => none

end Telling

/-- How often it was counted that an operation may not start. -/
def Metrics.delays (m : Metrics) : Nat := m.memoryThrottles + m.resourceConflicts

theorem Metrics.delays_reject (m : Metrics) (why : Rejection) :
    (m.reject why).delays = m.delays + 1 := by
  unfold reject
  split
  · exact Nat.add_right_comm _ 1 m.resourceConflicts
  · rfl

theorem Metrics.delays_finish (m : Metrics) (verdict : Option Verdict) :
    (m.finish verdict).delays = m.delays := by
  match verdict with
  | some .completed | some .failed | none => rfl

theorem perm_filterMap_set {α β : Type} {f : α → Option β} {l : List α} {i : Nat} {a : α}
    (h : l[i]? = some a) : ∃ others, (l.filterMap f).Perm ((f a).toList ++ others) ∧
      ∀ b, ((l.set i b).filterMap f).Perm ((f b).toList ++ others) := by
  obtain ⟨hi, -⟩ := List.getElem?_eq_some_iff.1 h
  have hset (b : α) : ((l.set i b).filterMap f).Perm
      ((f b).toList ++ ((l.take i).filterMap f ++ (l.drop (i + 1)).filterMap f)) := by
    rw [List.set_eq_take_append_cons_drop, if_pos hi, List.filterMap_append]
    cases hb : f b with
    | none =>
      rw [List.filterMap_cons_none hb]
      exact .refl _
    | some x =>
      rw [List.filterMap_cons_some hb]
      exact List.perm_middle
  refine ⟨_, ?_, hset⟩
  have hself := hset a
  rwa [set_of_getElem?_eq_some h] at hself

theorem filterMap_eraseIdx_of_none {α β : Type} {f : α → Option β} {l : List α} {k : Nat} {a : α}
    (h : l[k]? = some a) (hf : f a = none) : (l.eraseIdx k).filterMap f = l.filterMap f := by
  obtain ⟨hk, -⟩ := List.getElem?_eq_some_iff.1 h
  have hl : l.filterMap f = (l.set k a).filterMap f := by rw [set_of_getElem?_eq_some h]
  rw [hl, List.eraseIdx_eq_take_drop_succ, List.set_eq_take_append_cons_drop, if_pos hk,
    List.filterMap_append, List.filterMap_append, List.filterMap_cons_none hf]

namespace Coordinator

variable {c c' : Coordinator ω} {phase phase' : Phase ω}

/-- The roll of a coordinator, of which only these posts outside the queue are told. -/
def rollOf (c : Coordinator ω) (posts : List (Post ω)) : Roll ω where
  posts := c.queue.entries.map (fun op => (op.bare, .waiting)) ++ posts
  owed := c.telling.filterMap Telling.owed?
  refused := c.telling.filterMap Telling.refused?
  delays := c.metrics.delays
  submissions := c.submissions
  audit := c.audit

/-- Every operation that is not over is queued, with a worker, or with a caller that cancels it. -/
def roll (c : Coordinator ω) : Roll ω :=
  c.rollOf (c.workers.filterMap Phase.post? ++ c.telling.filterMap Telling.post?)

/-- A worker takes the operation in its hands through a passage. -/
theorem shift_of_passage {op : Submitted ω} {st : Stage} {told : List Report} {counted : Nat}
    {missed : Bool} {next : Option Stage} (h : Passage op st told counted missed next)
    (hqueue : c'.queue = c.queue) (htelling : c'.telling = c.telling)
    (hdelays : c'.metrics.delays = c.metrics.delays + counted)
    (hsubmissions : c'.submissions = c.submissions)
    (haudit : c'.audit = c.audit ++ told.map (AuditEntry.mk op.work op.id.text)) :
    (c.rollOf [(op, st)]).Shift missed (c'.rollOf (next.toList.map (op, ·))) := by
  have hroll : c'.rollOf (next.toList.map (op, ·)) = { c.rollOf [(op, st)] with
      posts := c.queue.entries.map (fun op => (op.bare, .waiting)) ++ next.toList.map (op, ·)
      delays := c.metrics.delays + counted
      audit := c.audit ++ told.map (AuditEntry.mk op.work op.id.text) } := by
    rw [rollOf, hqueue, htelling, hdelays, hsubmissions, haudit]
    rfl
  rw [hroll]
  exact .pass h List.perm_append_comm List.perm_append_comm

/-- The operations in the queue and in a worker's hands are the same as before. -/
theorem shift_of_perm {posts posts' : List (Post ω)}
    (h : (c'.rollOf posts').posts.Perm (c.rollOf posts).posts) (htelling : c'.telling = c.telling)
    (hdelays : c'.metrics.delays = c.metrics.delays) (hsubmissions : c'.submissions = c.submissions)
    (haudit : c'.audit = c.audit) : (c.rollOf posts).Shift false (c'.rollOf posts') := by
  have hroll : c'.rollOf posts' = { c.rollOf posts with posts := (c'.rollOf posts').posts } := by
    rw [rollOf, htelling, hdelays, hsubmissions, haudit]
    rfl
  rw [hroll]
  exact .rest h

theorem shift_rest (c : Coordinator ω) (posts : List (Post ω)) :
    (c.rollOf posts).Shift false (c.rollOf posts) := shift_of_perm (.refl _) rfl rfl rfl rfl

/-- A step of a worker takes the operation in its hands through a passage, if any, unless the
callback reports. -/
theorem shift_advance (c : Coordinator ω) {env : Surroundings} (h : env.reports = [])
    (phase : Phase ω) : (c.rollOf phase.post?.toList).Shift (phase.misses env)
      ((c.advance env phase).2.rollOf (c.advance env phase).1.post?.toList) := by
  cases phase with
  | idle =>
    simp only [advance]
    split <;> exact c.shift_rest _
  | ready =>
    simp only [advance]
    cases hcall : c.queue.dequeue? with
    | none => exact c.shift_rest _
    | some taken =>
      obtain ⟨op, q⟩ := taken
      refine shift_of_perm ?_ rfl rfl rfl rfl
      simp only [rollOf, Queue.entries_of_dequeue? hcall]
      rw [List.map_cons]
      exact (List.perm_append_singleton ..).trans (.of_eq (List.append_nil _).symm)
  | admitting | weighing =>
    simp only [advance]
    split <;> exact c.shift_rest _
  | probing op paths =>
    cases paths with
    | nil => exact c.shift_rest _
    | cons p rest =>
      simp only [advance]
      split <;> exact c.shift_rest _
  | warning op why =>
    simp only [advance]
    rw [Phase.misses]
    cases env.sinkFails with
    | false => exact shift_of_passage (.reject why env.reading) rfl rfl rfl rfl rfl
    | true => exact shift_of_passage (.abandon why env.reading) rfl rfl rfl rfl rfl
  | rejecting op why =>
    exact shift_of_passage .countRejection rfl rfl (c.metrics.delays_reject why) rfl
      (List.append_nil _).symm
  | requeueing op =>
    simp only [advance]
    cases hcall : c.queue.enqueue op with
    | ok q =>
      refine shift_of_perm ?_ rfl rfl rfl rfl
      refine (((Queue.entries_of_enqueue hcall).map _).append_right _).trans ?_
      exact .trans (.of_eq (List.append_nil _)) (List.perm_append_singleton ..).symm
    | error back =>
      obtain rfl : back.2 = op := Queue.enqueue_eq_error hcall
      exact c.shift_rest _
  | dropping op why =>
    simp only [advance]
    split <;> exact shift_of_passage (.drop why) rfl rfl rfl rfl rfl
  | losing => exact c.shift_rest _
  | entering op =>
    rcases start_cases c op env.now with ⟨locks, files, keeper, -, hstart⟩ | ⟨files, hstart⟩
    · simp only [advance, hstart]
      exact shift_of_perm (.refl _) rfl rfl rfl rfl
    · simp only [advance, hstart]
      exact shift_of_passage .countConflict rfl rfl rfl rfl (List.append_nil _).symm
  | conflicted op =>
    simp only [advance]
    split
    · exact shift_of_passage (.conflict none (by simp)) rfl rfl rfl rfl rfl
    · exact shift_of_passage (.conflict (some .waiting) (by simp)) rfl rfl rfl rfl rfl
  | starting op locks =>
    simp only [advance]
    split
    · exact shift_of_passage (.start none (by simp)) rfl rfl rfl rfl rfl
    · exact shift_of_passage (.start (some .underway) (by simp)) rfl rfl rfl rfl rfl
  | running op locks =>
    simp only [advance, h]
    exact c.shift_rest _
  | reporting op locks outcome =>
    exact shift_of_passage (.finish op outcome rfl) rfl rfl rfl rfl rfl
  | releasing id locks verdict => cases locks <;> exact c.shift_rest _
  | leaving id verdict =>
    exact shift_of_perm (.refl _) rfl (c.metrics.delays_finish verdict) rfl rfl
  | finishing | stopped => exact c.shift_rest _

/-- What a worker does with the operation in its hands is all that happens. -/
theorem shift_setPhase {w : Nat} {missed : Bool} (hw : c.workers[w]? = some phase)
    (hworkers : c'.workers = c.workers) (htelling : c'.telling = c.telling)
    (h : (c.rollOf phase.post?.toList).Shift missed (c'.rollOf phase'.post?.toList)) :
    c.roll.Shift missed (c'.setPhase w phase').roll := by
  obtain ⟨others, hold, hnew⟩ := perm_filterMap_set (f := Phase.post?) hw
  have hbeside {q x all : List (Post ω)} (hall : all.Perm (x ++ others)) :
      (q ++ (all ++ c.telling.filterMap Telling.post?)).Perm
        (q ++ x ++ (others ++ c.telling.filterMap Telling.post?)) := by
    rw [List.append_assoc, ← List.append_assoc x]
    exact (hall.append_right _).append_left q
  refine h.beside (hbeside hold) ?_
  show (_ ++ ((c'.workers.set w phase').filterMap Phase.post? ++ c'.telling.filterMap _)).Perm _
  rw [hworkers, htelling]
  exact hbeside (hnew phase')

/-- A request has no valid identifier, is taken in, or is refused. -/
theorem submit_outcomes (c : Coordinator ω) (r : SubmitRequest ω) (now : Timestamp) :
    (∃ e : AuditEntry ω, e.work.ticket = c.submissions ∧ e.report.isQueued = false ∧
      c.submit r now =
        (false, { c with submissions := c.submissions + 1, audit := c.audit ++ [e] })) ∨
    (∃ op q, Submission.Describes ⟨c.submissions, r, now⟩ op ∧ c.queue.enqueue op = .ok q ∧
      c.submit r now = (true, { c with
        submissions := c.submissions + 1, queue := q, telling := c.telling ++ [.accepted op] })) ∨
    ∃ (op : Submitted ω) (why : Queue.Refusal), op.ticket = c.submissions ∧
      c.submit r now = (false, { c with
        submissions := c.submissions + 1, telling := c.telling ++ [.refused op why] }) := by
  unfold submit
  cases hid : OperationId.ofString r.id with
  | error e => exact .inl ⟨_, rfl, rfl, rfl⟩
  | ok id =>
    right
    dsimp only
    split
    · rename_i q hok
      have htext := OperationId.text_of_ofString hid
      exact .inl ⟨_, q, ⟨htext, rfl, rfl, rfl, rfl, rfl, rfl, rfl, rfl⟩, hok, rfl⟩
    · rename_i why back hback
      exact .inr ⟨back, why, by rw [Queue.enqueue_eq_error hback]; rfl, rfl⟩

theorem roll_submit (c : Coordinator ω) (r : SubmitRequest ω) (now : Timestamp) :
    c.roll.Step (if (c.submit r now).1 then some ⟨c.submissions, r, now⟩ else none) false
      (c.submit r now).2.roll := by
  rcases c.submit_outcomes r now with ⟨e, hticket, he, hsubmit⟩ | ⟨op, q, hop, hok, hsubmit⟩ |
    ⟨op, why, hticket, hsubmit⟩
  · rw [hsubmit]
    exact .invalid hticket he
  · have hticket : op.ticket = c.submissions := by rw [Operation.ticket, hop.work]
    have hroll : (c.submit r now).2.roll = { c.roll with
        posts := (c.submit r now).2.roll.posts
        owed := c.roll.owed ++ [c.submissions]
        submissions := c.submissions + 1 } := by
      rw [hsubmit, ← hticket]
      simp [roll, rollOf, Telling.owed?, Telling.refused?, hticket]
    rw [hroll, hsubmit]
    refine .accept rfl hop ?_
    have hentries := (Queue.entries_of_enqueue hok).map fun op => (op.bare, Stage.waiting)
    simp only [roll, rollOf, List.filterMap_append]
    rw [List.map_cons, hop.bare] at hentries
    exact (hentries.append_right _).trans (.of_eq (by simp [Telling.post?]))
  · have hroll : (c.submit r now).2.roll = { c.roll with
        refused := c.roll.refused ++ [c.submissions], submissions := c.submissions + 1 } := by
      rw [hsubmit, ← hticket]
      simp [roll, rollOf, Telling.owed?, Telling.refused?, Telling.post?, hticket]
    rw [hroll, hsubmit]
    exact .refuse

theorem roll_cancel (c : Coordinator ω) (id : String) :
    c.roll.Step none false (c.cancel id).2.roll := by
  unfold cancel
  cases OperationId.ofString id with
  | error e => exact .shift (c.shift_rest _)
  | ok i =>
    dsimp only
    cases hcall : c.queue.remove? i with
    | none => exact .shift (c.shift_rest _)
    | some taken =>
      obtain ⟨op, q⟩ := taken
      have hentries := (Queue.entries_of_remove? hcall).map fun op => (op.bare, Stage.waiting)
      have hroll : roll { c with queue := q, telling := c.telling ++ [.cancelled op] } =
          { c.roll with
            posts := q.entries.map (fun op => (op.bare, .waiting)) ++
              (c.workers.filterMap Phase.post? ++
                (c.telling.filterMap Telling.post? ++ [(op.bare, .waiting)])) } := by
        simp [roll, rollOf, Telling.owed?, Telling.refused?, Telling.post?]
      rw [hroll]
      refine .shift (.rest (.trans ?_ (hentries.append_right _).symm))
      simp only [← List.append_assoc]
      exact List.perm_append_singleton ..

/-- A caller that owes a report makes it. -/
theorem roll_settle (c : Coordinator ω) (k : Nat) : c.roll.Step none false (c.settle k).roll := by
  unfold settle
  cases hk : c.telling[k]? with
  | none => exact .shift (c.shift_rest _)
  | some u =>
    obtain ⟨hlt, hu⟩ := List.getElem?_eq_some_iff.1 hk
    have hperm {β : Type} (f : Telling ω → Option β) :
        (c.telling.filterMap f).Perm ((u :: c.telling.eraseIdx k).filterMap f) :=
      (hu ▸ (List.getElem_cons_eraseIdx_perm hlt).symm).filterMap f
    have hsame {β : Type} {f : Telling ω → Option β} (hf : f u = none) :
        (c.telling.eraseIdx k).filterMap f = c.telling.filterMap f :=
      filterMap_eraseIdx_of_none hk hf
    cases u with
    | accepted op =>
      have hroll (r : Report) : roll (tell { c with telling := c.telling.eraseIdx k } op r) =
          { c.roll with
            owed := (c.telling.eraseIdx k).filterMap Telling.owed?
            audit := c.audit ++ [⟨op.work, op.id.text, r⟩] } := by
        simp only [roll, rollOf, tell, hsame (f := Telling.post?) rfl,
          hsame (f := Telling.refused?) rfl]
      exact hroll _ ▸ .tellQueued (hperm Telling.owed?) rfl
    | refused op why =>
      have hroll (r : Report) : roll (tell { c with telling := c.telling.eraseIdx k } op r) =
          { c.roll with
            refused := (c.telling.eraseIdx k).filterMap Telling.refused?
            audit := c.audit ++ [⟨op.work, op.id.text, r⟩] } := by
        simp only [roll, rollOf, tell, hsame (f := Telling.post?) rfl,
          hsame (f := Telling.owed?) rfl]
      exact hroll _ ▸ .tellRefused (hperm Telling.refused?) rfl
    | cancelled op =>
      have hroll : roll (tell { c with telling := c.telling.eraseIdx k } op cancelReport) =
          { c.roll with
            posts := (roll { c with telling := c.telling.eraseIdx k }).posts
            audit := c.audit ++ [cancelReport].map (AuditEntry.mk op.work op.id.text) } := by
        simp only [roll, rollOf, tell, hsame (f := Telling.owed?) rfl,
          hsame (f := Telling.refused?) rfl]
        rfl
      have hposts : c.roll.posts.Perm ((op.bare, .waiting) ::
          (roll { c with telling := c.telling.eraseIdx k }).posts) := by
        simp only [roll, rollOf, ← List.append_assoc]
        exact ((hperm Telling.post?).append_left _).trans List.perm_middle
      have hpass : Passage op.bare .waiting [cancelReport] 0 false none := .cancel
      exact hroll ▸ .shift (.pass hpass hposts (.refl _))

end Coordinator

/-! ## Runs -/

/-- The submission that is taken in. -/
def Deed.submission? : Deed ω → Option (Submission ω)
  | accept sub => some sub
  | _ => none

/-- Callbacks do not report to the sinks of their operations. -/
def Move.isSilent : Move ω → Bool
  | turn (.work _ env) => env.reports.isEmpty
  | _ => true

theorem Coordinator.submission?_deed (c : Coordinator ω) (env : Surroundings) (w : Nat)
    (phase : Phase ω) : (c.deed env w phase).submission? = none := by
  cases phase with
  | ready | requeueing | warning | dropping | conflicted | starting | reporting =>
    simp only [Coordinator.deed]
    split <;> rfl
  | _ => rfl

namespace Scene

variable {s : Scene ω} {m : Move ω} {ms : List (Move ω)} {subs : List (Submission ω)} {n : Nat}

/-- The submissions that are taken in in some moves. -/
def submitted (s : Scene ω) (ms : List (Move ω)) : List (Submission ω) :=
  (s.deeds ms).filterMap Deed.submission?

/-- A worker reports a rejection and does not come to count it. -/
def misses (s : Scene ω) : Move ω → Bool
  | .turn (.work w env) => s.coordinator.workers[w]?.any (·.misses env)
  | _ => false

/-- How many rejections are reported and not counted in some moves. -/
def missed (s : Scene ω) : List (Move ω) → Nat
  | [] => 0
  | m :: ms => (s.misses m).toNat + (s.move m).missed ms

theorem roll_work (h : s.Accounted) {w : Nat} {env : Surroundings} (hsilent : env.reports = []) :
    s.coordinator.roll.Step none (s.misses (.turn (.work w env)))
      (s.happen (.work w env)).coordinator.roll := by
  rw [happen, misses]
  cases hw : s.coordinator.workers[w]? with
  | none =>
    rw [Coordinator.work_of_none hw, ite_self]
    exact .shift (s.coordinator.shift_rest _)
  | some phase =>
    cases hwaits : s.waits w with
    | true =>
      -- A worker that is about to report a rejection does not have to wait.
      have hguarded : phase.misses env = false := by
        cases phase with
        | warning => cases (waits_eq_false h hw rfl).symm.trans hwaits
        | _ => rfl
      rw [if_pos rfl, Option.any_some, hguarded]
      exact .shift (s.coordinator.shift_rest _)
    | false =>
      obtain ⟨hworkers, -⟩ := s.coordinator.advance_frame env phase
      obtain ⟨htelling, -⟩ := s.coordinator.adds_advance env phase
      rw [if_neg Bool.false_ne_true, Coordinator.work_eq hw]
      exact .shift (Coordinator.shift_setPhase hw hworkers htelling
        (s.coordinator.shift_advance hsilent phase))

theorem roll_begin (s : Scene ω) (w : Nat) (now : Timestamp) :
    s.coordinator.roll.Step none false (s.begin w now).coordinator.roll := by
  unfold begin
  split <;> exact .shift (s.coordinator.shift_rest _)

theorem roll_proceed (h : s.Accounted) :
    s.coordinator.roll.Step none false s.proceed.coordinator.roll := by
  unfold proceed
  split
  · exact .shift (s.coordinator.shift_rest _)
  · rename_i l hl
    obtain ⟨hat, -⟩ := h.locking l hl
    unfold advance
    split
    · exact .shift (Coordinator.shift_setPhase hat rfl rfl
        (Coordinator.shift_of_perm (.refl _) rfl rfl rfl rfl))
    · split
      · exact .shift (s.coordinator.shift_rest _)
      · split <;> exact .shift (s.coordinator.shift_rest _)
    · exact .shift (Coordinator.shift_setPhase hat rfl rfl
        (Coordinator.shift_of_passage .countConflict rfl rfl rfl rfl (List.append_nil _).symm))
    · exact .shift (s.coordinator.shift_rest _)

theorem roll_move (h : s.Accounted) (hsilent : m.isSilent) :
    s.coordinator.roll.Step (s.deed m).submission? (s.misses m) (s.move m).coordinator.roll := by
  cases m with
  | begin w now => exact s.roll_begin w now
  | proceed => exact roll_proceed h
  | turn turn =>
    cases turn with
    | work w env =>
      have hnone : (s.deed (.turn (.work w env))).submission? = none := by
        rw [deed]
        split
        · exact s.coordinator.submission?_deed ..
        · rfl
      rw [hnone]
      exact roll_work h (List.isEmpty_iff.1 hsilent)
    | submit r now =>
      have hsub := s.coordinator.roll_submit r now
      rw [deed]
      split <;> rename_i hyes
      · rwa [if_pos hyes] at hsub
      · rwa [if_neg hyes] at hsub
    | cancel id =>
      have hnone : (s.deed (.turn (.cancel id))).submission? = none := by
        rw [deed]
        split
        · rfl
        · split <;> rfl
      rw [hnone]
      exact s.coordinator.roll_cancel id
    | settle k => exact s.coordinator.roll_settle k
    | raiseStop | shutQueue | disturb => exact .shift (s.coordinator.shift_rest _)

theorem kept_run (h : s.Accounted) (hsilent : ∀ m ∈ ms, m.isSilent)
    (hkept : s.coordinator.roll.Kept subs n) :
    (s.run ms).coordinator.roll.Kept (subs ++ s.submitted ms) (n + s.missed ms) := by
  induction ms generalizing s subs n with
  | nil =>
    rw [show s.submitted [] = [] from rfl, List.append_nil]
    exact hkept
  | cons m ms ih =>
    obtain ⟨hm, hsilent⟩ := List.forall_mem_cons.1 hsilent
    have hcons : s.submitted (m :: ms) =
        (s.deed m).submission?.toList ++ (s.move m).submitted ms := by
      cases hsub : (s.deed m).submission? with
      | none => exact List.filterMap_cons_none hsub
      | some sub => exact List.filterMap_cons_some hsub
    rw [hcons, missed, ← List.append_assoc, ← Nat.add_assoc]
    exact ih (accounted_move h m) hsilent (hkept.step (roll_move h hm))

theorem kept_create {config : CoordinatorConfig} {fs : Files} {c : Coordinator ω}
    (h : Coordinator.create config fs = .ok c) : c.roll.Kept [] 0 := by
  obtain ⟨hqueue, htelling, hmetrics, haudit, hidle⟩ : c.queue.entries = [] ∧ c.telling = [] ∧
      c.metrics = {} ∧ c.audit = [] ∧ ∀ phase ∈ c.workers, phase = .idle := by
    unfold Coordinator.create at h
    split at h
    · cases h
    · dsimp only at h
      split at h
      · cases h
      · cases h
        exact ⟨rfl, rfl, rfl, rfl, fun phase hphase => List.eq_of_mem_replicate hphase⟩
  have hhands : c.workers.filterMap Phase.post? = [] :=
    List.filterMap_eq_nil_iff.2 fun phase hphase => hidle phase hphase ▸ rfl
  have hroll : c.roll = ⟨[], [], [], 0, c.submissions, []⟩ := by
    rw [Coordinator.roll, Coordinator.rollOf, hqueue, htelling, hmetrics, haudit, hhands]
    rfl
  rw [hroll]
  constructor
  case numbered | apart => exact .nil
  case queued => exact .nil
  case warnings => rfl
  case lt | life => exact fun sub hsub => by cases hsub
  case heard | refused | posted => exact List.forall_mem_nil _

/-- As long as no sink breaks down, no rejection is missed. -/
theorem missed_of_sinksHold (h : ∀ m ∈ ms, m.sinksHold) : s.missed ms = 0 := by
  induction ms generalizing s with
  | nil => rfl
  | cons m ms ih =>
    obtain ⟨hm, hms⟩ := List.forall_mem_cons.1 h
    have hnone : s.misses m = false := by
      match m with
      | .turn (.work w env) =>
        have hholds : env.sinkFails = false := by simpa [Move.sinksHold] using hm
        show s.coordinator.workers[w]?.any (·.misses env) = false
        cases s.coordinator.workers[w]? with
        | none => rfl
        | some phase =>
          cases phase with
          | warning op why => exact hholds
          | _ => rfl
      | .turn (.submit ..) | .turn (.cancel _) | .turn (.settle _) | .turn .raiseStop
      | .turn .shutQueue | .turn (.disturb _) | .begin .. | .proceed => rfl
    rw [missed, hnone, ih hms]
    rfl

/-! ## Every run -/

/-- The sinks of the operations that were taken in have received what their lives are made of. -/
structure Chronicled (s : Scene ω) (subs : List (Submission ω)) (missed : Nat) : Prop where
  /-- Apart from the report that an operation is queued, the reports on it are those of a life. -/
  life : ∀ sub ∈ subs, ∃ op, sub.Describes op ∧ Life op (courseOf s.coordinator.audit sub.ticket)
  queued : ∀ sub ∈ subs, (reportsOn s.coordinator.audit sub.ticket).countP Report.isQueued ≤ 1
  /-- When no worker has an operation in hand, the warnings are those that are counted, and those
  that are missed. -/
  warnings : (∀ t, ¬ s.InHand t) → warningsOn s.coordinator.audit (subs.map (·.ticket)) =
    s.coordinator.metrics.memoryThrottles + s.coordinator.metrics.resourceConflicts + missed

theorem count_stage_of_rest (hrest : ∀ t, ¬ s.InHand t) (st : Stage) (hst : st ≠ .waiting) :
    (s.coordinator.roll.posts.map Prod.snd).count st = 0 := by
  have hhands : s.coordinator.workers.filterMap Phase.post? = [] := by
    refine List.filterMap_eq_nil_iff.2 fun phase hphase => ?_
    obtain ⟨w, hw⟩ := List.mem_iff_getElem?.1 hphase
    cases hop : phase.op? with
    | none => rw [Phase.post?, hop, Option.map_none]
    | some op => exact absurd ⟨w, phase, hw, by rw [hop, Option.map_some]⟩ (hrest op.ticket)
  refine List.count_eq_zero_of_not_mem fun hin => ?_
  obtain ⟨p, hp, rfl⟩ := List.mem_map.1 hin
  rw [Coordinator.roll, Coordinator.rollOf, hhands, List.nil_append] at hp
  rcases List.mem_append.1 hp with hp | hp
  · obtain ⟨op, -, rfl⟩ := List.mem_map.1 hp
    exact hst rfl
  · obtain ⟨u, -, hu⟩ := List.mem_filterMap.1 hp
    cases u with
    | cancelled op => exact hst (Option.some.inj hu ▸ rfl)
    | accepted | refused => cases hu

theorem chronicled (h : s.coordinator.roll.Kept subs n) : s.Chronicled subs n := by
  constructor
  case life =>
    intro sub hsub
    obtain ⟨op, hop, hlife, -⟩ := h.life sub hsub
    exact ⟨op, hop, hlife⟩
  case queued =>
    intro sub hsub
    have hcount := h.queued.count_eq sub.ticket
    have hone := List.nodup_iff_count_le_one.1 h.numbered sub.ticket
    rw [List.count_append] at hcount
    rw [countP_reportsOn]
    exact Nat.le_of_add_right_le (Nat.le_trans (Nat.le_of_eq hcount) hone)
  case warnings =>
    intro hrest
    have hwarnings := h.warnings
    rwa [count_stage_of_rest hrest .conflicted (by decide),
      count_stage_of_rest hrest .rejected (by decide)] at hwarnings

/-- Whatever happens to a new coordinator whose callbacks do not report: the reports on each
operation that was taken in are those of one life, and the warnings are what is counted, apart from
the rejections that are missed. -/
theorem chronicled_run {config : CoordinatorConfig} {fs : Files} {c : Coordinator ω}
    (h : Coordinator.create config fs = .ok c) (hsilent : ∀ m ∈ ms, m.isSilent) :
    (run { coordinator := c } ms).Chronicled (submitted { coordinator := c } ms)
      (missed { coordinator := c } ms) := by
  have hkept := kept_run (s := { coordinator := c }) (accounted_create h) hsilent (kept_create h)
  rw [List.nil_append, Nat.zero_add] at hkept
  exact chronicled hkept

/-- Two operations are submitted. The first is rejected, as there is no memory, and called later.
The second is rejected as well, and its sink breaks down with the report of it. -/
def givingUp : List (Move Unit) :=
  let submit (i : String) : List (Move Unit) :=
    [.turn (.submit { id := i, job := () } default), .turn (.settle 0)]
  let work (n : Nat) (reading : UInt64) : List (Move Unit) :=
    List.replicate n (.turn (.work 0 { reading }))
  submit "a" ++ work 7 0 ++ work 12 1099511627776 ++ submit "b" ++ work 3 0 ++
    [.turn (.work 0 { sinkFails := true }), .turn (.work 0 {})]

theorem chronicled_givingUp : ∃ c : Coordinator Unit, Coordinator.create {} {} = .ok c ∧
    (∀ m ∈ givingUp, m.isSilent) ∧
    (run { coordinator := c } givingUp).coordinator.audit.map
      (fun e => (e.work.ticket, e.report.isQueued, e.report.isWarning)) =
        [(0, true, false), (0, false, true), (0, false, false), (0, false, false),
          (1, true, false), (1, false, true)] ∧
    (submitted { coordinator := c } givingUp).map (·.ticket) = [0, 1] ∧
    missed { coordinator := c } givingUp = 1 ∧
    (run { coordinator := c } givingUp).Chronicled (submitted { coordinator := c } givingUp) 1 := by
  have h : ((Coordinator.create {} {}).toOption.map fun c : Coordinator Unit =>
      ((run { coordinator := c } givingUp).coordinator.audit.map
        (fun e => (e.work.ticket, e.report.isQueued, e.report.isWarning)),
        (submitted { coordinator := c } givingUp).map (·.ticket),
        missed { coordinator := c } givingUp)) =
      some ([(0, true, false), (0, false, true), (0, false, false), (0, false, false),
        (1, true, false), (1, false, true)], [0, 1], 1) := by
    decide +kernel
  have hsilent : ∀ m ∈ givingUp, m.isSilent := by decide +kernel
  obtain ⟨c, hc, h⟩ := exists_of_create h
  obtain ⟨haudit, hrest⟩ := Prod.mk.inj h
  obtain ⟨hsubmitted, hmissed⟩ := Prod.mk.inj hrest
  have hchronicled := chronicled_run hc hsilent
  rw [hmissed] at hchronicled
  exact ⟨c, hc, hsilent, haudit, hsubmitted, hmissed, hchronicled⟩

theorem not_inHand (h : ∀ phase ∈ s.coordinator.workers, phase.op?.isNone) (t : Nat) :
    ¬ s.InHand t := by
  rintro ⟨w, phase, hw, ht⟩
  rw [Option.isNone_iff_eq_none.1 (h phase (List.mem_of_getElem? hw))] at ht
  cases ht

/-- There may be more warnings than are counted although no worker has an operation in hand. -/
theorem exists_warnings_ne_counted : ¬ ∀ (config : CoordinatorConfig) (fs : Files)
    (c : Coordinator Unit), Coordinator.create config fs = .ok c → ∀ ms : List (Move Unit),
      (∀ m ∈ ms, m.isSilent) → (∀ t, ¬ (run { coordinator := c } ms).InHand t) →
        warningsOn (run { coordinator := c } ms).coordinator.audit
            ((submitted { coordinator := c } ms).map (·.ticket)) =
          (run { coordinator := c } ms).coordinator.metrics.memoryThrottles +
            (run { coordinator := c } ms).coordinator.metrics.resourceConflicts := by
  intro halways
  have h : ((Coordinator.create {} {}).toOption.map fun c : Coordinator Unit =>
      (decide (∀ phase ∈ (run { coordinator := c } givingUp).coordinator.workers,
          phase.op?.isNone),
        warningsOn (run { coordinator := c } givingUp).coordinator.audit
          ((submitted { coordinator := c } givingUp).map (·.ticket)),
        (run { coordinator := c } givingUp).coordinator.metrics.memoryThrottles +
          (run { coordinator := c } givingUp).coordinator.metrics.resourceConflicts)) =
      some (true, 2, 1) := by
    decide +kernel
  obtain ⟨c, hc, h⟩ := exists_of_create h
  obtain ⟨hrest, hcounts⟩ := Prod.mk.inj h
  obtain ⟨hwarnings, hcounted⟩ := Prod.mk.inj hcounts
  have hsilent : ∀ m ∈ givingUp, m.isSilent := by decide +kernel
  have hsame := halways {} {} c hc givingUp hsilent (not_inHand (of_decide_eq_true hrest))
  rw [hwarnings, hcounted] at hsame
  cases hsame

end Scene

end Upkeep
