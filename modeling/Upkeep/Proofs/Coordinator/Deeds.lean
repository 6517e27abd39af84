import Mathlib.Logic.Function.Basic
import Upkeep.Proofs.Coordinator.Custody
import Upkeep.Proofs.Queue.Entries

/-!
# What is done to operations

**Stances.** Of a worker that has an operation in hand it matters here what has been decided about
the operation, not which step comes next (`Stance`). The `Books` are what the coordinator keeps:
the queue, the running operations and the counters.

**Strides.** One step of a worker is one `Stride`: it changes the worker's stance and the books
together, and does a `Deed` to the operation, or nothing that matters. `stride_advance` says this
of all phases at once.

**Floors.** A `Floor` is the books together with the stances of all workers. A move in a scene is
one `Step` of its floor (`step_move`): a stride of one worker, or a caller that submits, cancels or
shuts. What every step keeps, every run keeps (`floor_run`), also together with a record of the
deeds (`record_run`).
-/

namespace Upkeep

variable {ω : Type}

/-! ## Stances and books -/

/-- How it stands between a worker and the operation that it has in hand. -/
inductive Stance (ω : Type) where
  /-- There is none. -/
  | free
  /-- It is not decided whether the operation starts now. -/
  | considering (op : Submitted ω)
  /-- The operation is entered as started then, and its locks are being taken. -/
  | locking (op : Submitted ω) (now : Timestamp)
  /-- The operation may not start now, and has to go back. -/
  | returning (op : Submitted ω)
  /-- The operation could not go back, and is lost. -/
  | losing
  /-- The operation has started, and its callback has not been called. -/
  | starting (op : Submitted ω)
  /-- The callback has been called. -/
  | called (op : Submitted ω)
  /-- It is decided how the operation counts. -/
  | ending (id : OperationId) (verdict : Option Verdict)
  /-- There is none any more, but the queue has not been told. -/
  | finishing

def Phase.stance : Phase ω → Stance ω
  | idle | ready | stopped => .free
  | admitting op | weighing op | probing op _ | warning op _ | rejecting op _ | entering op =>
    .considering op
  | requeueing op | dropping op _ | conflicted op => .returning op
  | losing => .losing
  | starting op _ | running op _ => .starting op
  | reporting op _ _ => .called op
  | releasing id _ verdict | leaving id verdict => .ending id verdict
  | finishing => .finishing

/-- What a coordinator keeps of its operations. -/
structure Books (ω : Type) where
  queue : Queue (Assignment ω)
  running : List (OperationId × Summary)
  metrics : Metrics

namespace Books

def enter (b : Books ω) (op : Submitted ω) : Books ω :=
  { b with running := (op.id, op.summary) :: b.running.filter (·.1 != op.id) }

def leave (b : Books ω) (i : OperationId) : Books ω :=
  { b with running := b.running.filter (·.1 != i) }

def count (b : Books ω) (f : Metrics → Metrics) : Books ω := { b with metrics := f b.metrics }

end Books

def Metrics.start (m : Metrics) : Metrics := { m with started := m.started + 1 }

def Metrics.conflict (m : Metrics) : Metrics :=
  { m with resourceConflicts := m.resourceConflicts + 1 }

def Metrics.drop (m : Metrics) : Metrics := { m with dropped := m.dropped + 1 }

theorem Metrics.reject_frame (m : Metrics) (why : Rejection) :
    (m.reject why).started = m.started ∧ (m.reject why).completed = m.completed ∧
      (m.reject why).failed = m.failed ∧ (m.reject why).dropped = m.dropped := by
  unfold reject
  split <;> exact ⟨rfl, rfl, rfl, rfl⟩

/-! ## Deeds and strides -/

/-- A request that was submitted, with the number of the submission. -/
structure Submission (ω : Type) where
  ticket : Nat
  request : SubmitRequest ω
  time : Timestamp

/-- An operation has all that it was submitted with, and has not been started. -/
structure Submission.Describes (sub : Submission ω) (op : Submitted ω) : Prop where
  id : op.id.text = sub.request.id
  kind : op.kind = sub.request.kind
  priority : op.priority = sub.request.priority
  requirement : op.requirement = sub.request.requirement
  paths : op.paths = sub.request.paths
  created : op.created = sub.time
  started : op.started = none
  completed : op.completed = none
  work : op.work = ⟨sub.ticket, sub.request.job⟩

/-- What somebody does to an operation. -/
inductive Deed (ω : Type) where
  /-- Nothing, or nothing that moves it. -/
  | quiet
  | accept (sub : Submission ω)
  | cancel (op : Submitted ω)
  /-- A worker dequeues it. -/
  | take (w : Nat) (op : Submitted ω)
  | putBack (w : Nat)
  | drop (w : Nat)
  /-- A worker calls the callback of a submission. -/
  | call (w : Nat) (ticket : Nat)
  | leave (w : Nat) (verdict : Option Verdict)
  /-- Its sink breaks down under a worker. -/
  | breakdown (w : Nat)

/-- A step of the worker `w`: what it does, and the books and the stance before and after. -/
inductive Stride (w : Nat) : Deed ω → Books ω → Stance ω → Books ω → Stance ω → Prop
  | rest (b : Books ω) (st : Stance ω) : Stride w .quiet b st b st
  | take {b : Books ω} {op : Submitted ω} {q : Queue (Assignment ω)}
      (h : b.queue.dequeue? = some (op, q)) :
      Stride w (.take w op) b .free { b with queue := q } (.considering op)
  | reject (b : Books ω) (op : Submitted ω) (why : Rejection) :
      Stride w .quiet b (.considering op) (b.count (·.reject why)) (.returning op)
  | putBack {b : Books ω} {op : Submitted ω} {q : Queue (Assignment ω)}
      (h : b.queue.enqueue op = .ok q) :
      Stride w (.putBack w) b (.returning op) { b with queue := q } .finishing
  | lose (b : Books ω) (op : Submitted ω) : Stride w .quiet b (.returning op) b .losing
  | drop (b : Books ω) : Stride w (.drop w) b .losing (b.count Metrics.drop) .finishing
  | enter (b : Books ω) (op : Submitted ω) (now : Timestamp) :
      Stride w .quiet b (.considering op) (b.enter { op with started := some now })
        (.locking op now)
  | start (b : Books ω) (op : Submitted ω) (now : Timestamp) :
      Stride w .quiet b (.locking op now) (b.count Metrics.start)
        (.starting { op with started := some now })
  | conflict (b : Books ω) (op : Submitted ω) (now : Timestamp) :
      Stride w .quiet b (.locking op now) ((b.leave op.id).count Metrics.conflict)
        (.returning op)
  /-- Nobody interrupts a worker that takes its locks. -/
  | startAtOnce (b : Books ω) (op : Submitted ω) (now : Timestamp) :
      Stride w .quiet b (.considering op)
        ((b.enter { op with started := some now }).count Metrics.start)
        (.starting { op with started := some now })
  | conflictAtOnce (b : Books ω) (op : Submitted ω) (now : Timestamp) :
      Stride w .quiet b (.considering op)
        (((b.enter { op with started := some now }).leave op.id).count Metrics.conflict)
        (.returning op)
  | call (b : Books ω) (op : Submitted ω) (now : Timestamp) :
      Stride w (.call w op.work.ticket) b (.starting op) b
        (.called { op with completed := some now })
  | decide (b : Books ω) (op : Submitted ω) (verdict : Verdict) :
      Stride w .quiet b (.called op) b (.ending op.id (some verdict))
  | leave (b : Books ω) (id : OperationId) (verdict : Option Verdict) :
      Stride w (.leave w verdict) b (.ending id verdict)
        ((b.leave id).count (·.finish verdict)) .finishing
  | finish (b : Books ω) :
      Stride w .quiet b .finishing { b with queue := b.queue.taskDone } .free
  /-- The operation is given up before it starts. -/
  | abandon {b : Books ω} {st : Stance ω} (op : Submitted ω)
      (h : st = .considering op ∨ st = .returning op) : Stride w (.breakdown w) b st b .finishing
  /-- The operation is given up after it has started. -/
  | breakOff {b : Books ω} {st : Stance ω} (op : Submitted ω)
      (h : st = .starting op ∨ st = .called op) :
      Stride w (.breakdown w) b st b (.ending op.id none)

theorem OperationId.text_of_ofString {text : String} {i : OperationId}
    (h : OperationId.ofString text = .ok i) : i.text = text := by
  unfold OperationId.ofString at h
  split at h
  · split at h
    · rw [← Except.ok.inj h]
    · cases h
  · cases h

namespace Coordinator

def books (c : Coordinator ω) : Books ω := ⟨c.queue, c.running, c.metrics⟩

/-- What the step of a worker in a phase does. -/
def deed (c : Coordinator ω) (env : Surroundings) (w : Nat) : Phase ω → Deed ω
  | .ready =>
    match c.queue.dequeue? with
    | some (op, _) => .take w op
    | none => .quiet
  | .requeueing op =>
    match c.queue.enqueue op with
    | .ok _ => .putBack w
    | .error _ => .quiet
  | .losing => .drop w
  | .running op _ => .call w op.work.ticket
  | .leaving _ verdict => .leave w verdict
  | .warning .. | .dropping .. | .conflicted _ | .starting .. | .reporting .. =>
    if env.sinkFails then .breakdown w else .quiet
  | _ => .quiet

theorem books_tellAll (c : Coordinator ω) (op : Submitted ω) (rs : List Report) :
    (rs.foldl (·.tell op) c).books = c.books := by
  induction rs generalizing c with
  | nil => rfl
  | cons r rs ih => exact ih (c.tell op r)

/-- A worker that starts an operation enters it and starts it, or has a conflict. -/
theorem stride_start (c : Coordinator ω) (w : Nat) (op : Submitted ω) (now : Timestamp) :
    Stride w .quiet c.books (.considering op) (c.start op now).2.books
      (c.start op now).1.stance := by
  rcases start_cases c op now with ⟨locks, files, keeper, -, hstart⟩ | ⟨files, hstart⟩
  · rw [hstart]
    exact .startAtOnce c.books op now
  · rw [hstart]
    exact .conflictAtOnce c.books op now

theorem stride_advance (c : Coordinator ω) (env : Surroundings) (w : Nat) (phase : Phase ω) :
    Stride w (c.deed env w phase) c.books phase.stance (c.advance env phase).2.books
      (c.advance env phase).1.stance := by
  cases phase with
  | idle =>
    simp only [advance]
    split <;> exact .rest _ _
  | ready =>
    simp only [advance, deed]
    cases hcall : c.queue.dequeue? with
    | none => exact .rest _ _
    | some taken => exact .take hcall
  | admitting op =>
    simp only [advance]
    cases Rejection.atPressure? c.monitor op.priority env.reading <;> exact .rest _ _
  | weighing op =>
    simp only [advance]
    cases Rejection.atHeadroom? c.monitor op.requirement.memoryMb env.reading <;> exact .rest _ _
  | probing op paths =>
    cases paths with
    | nil => exact .rest _ _
    | cons p rest =>
      simp only [advance]
      split <;> exact .rest _ _
  | warning op why =>
    simp only [advance, deed]
    split
    · exact .abandon op (.inl rfl)
    · exact .rest _ _
  | rejecting op why => exact .reject c.books op why
  | requeueing op =>
    simp only [advance, deed]
    cases hcall : c.queue.enqueue op with
    | ok q => exact .putBack hcall
    | error back =>
      obtain rfl : back.2 = op := Queue.enqueue_eq_error hcall
      exact .rest _ _
  | dropping op why =>
    simp only [advance, deed]
    split
    · exact .abandon op (.inr rfl)
    · exact .lose c.books op
  | losing => exact .drop c.books
  | entering op => exact stride_start c w op env.now
  | conflicted op =>
    simp only [advance, deed]
    split
    · exact .abandon op (.inr rfl)
    · exact .rest _ _
  | starting op locks =>
    simp only [advance, deed]
    split
    · exact .breakOff op (.inl rfl)
    · exact .rest _ _
  | running op locks =>
    simp only [advance, books_tellAll]
    exact .call c.books op env.now
  | reporting op locks outcome =>
    simp only [advance, deed]
    split
    · exact .breakOff op (.inr rfl)
    · exact .decide c.books op _
  | releasing id locks verdict => cases locks <;> exact .rest _ _
  | leaving id verdict => exact .leave c.books id verdict
  | finishing => exact .finish c.books
  | stopped => exact .rest _ _

theorem advance_frame (c : Coordinator ω) (env : Surroundings) (phase : Phase ω) :
    (c.advance env phase).2.workers = c.workers ∧
      (c.advance env phase).2.submissions = c.submissions ∧
      (c.advance env phase).2.config = c.config ∧
      (c.advance env phase).2.isStopping = c.isStopping := by
  cases phase with
  | ready =>
    simp only [advance]
    split <;> exact ⟨rfl, rfl, rfl, rfl⟩
  | probing op paths => cases paths <;> exact ⟨rfl, rfl, rfl, rfl⟩
  | requeueing op =>
    simp only [advance]
    split <;> exact ⟨rfl, rfl, rfl, rfl⟩
  | entering op =>
    rcases start_cases c op env.now with ⟨locks, files, keeper, -, hstart⟩ | ⟨files, hstart⟩ <;>
      · simp only [advance, hstart]
        exact ⟨rfl, rfl, rfl, rfl⟩
  | running op locks =>
    simp only [advance]
    induction env.reports generalizing c with
    | nil => exact ⟨rfl, rfl, rfl, rfl⟩
    | cons r rs ih => exact ih (c.tell op r)
  | releasing id locks verdict => cases locks <;> exact ⟨rfl, rfl, rfl, rfl⟩
  | admitting op =>
    simp only [advance]
    split <;> exact ⟨rfl, rfl, rfl, rfl⟩
  | weighing op =>
    simp only [advance]
    split <;> exact ⟨rfl, rfl, rfl, rfl⟩
  | _ => exact ⟨rfl, rfl, rfl, rfl⟩

/-- A request that is taken in becomes an operation in the queue; any other leaves the books. -/
theorem submit_cases (c : Coordinator ω) (r : SubmitRequest ω) (now : Timestamp) :
    (∃ op q, Submission.Describes ⟨c.submissions, r, now⟩ op ∧ c.queue.enqueue op = .ok q ∧
      (c.submit r now).1 = true ∧ (c.submit r now).2.books = { c.books with queue := q }) ∨
    (c.submit r now).1 = false ∧ (c.submit r now).2.books = c.books := by
  unfold submit
  cases hid : OperationId.ofString r.id with
  | error e => exact .inr ⟨rfl, rfl⟩
  | ok id =>
    dsimp only
    split
    · rename_i q hok
      have htext := OperationId.text_of_ofString hid
      exact .inl ⟨_, q, ⟨htext, rfl, rfl, rfl, rfl, rfl, rfl, rfl, rfl⟩, hok, rfl, rfl⟩
    · exact .inr ⟨rfl, rfl⟩

theorem submissions_submit (c : Coordinator ω) (r : SubmitRequest ω) (now : Timestamp) :
    (c.submit r now).2.submissions = c.submissions + 1 ∧
      (c.submit r now).2.config = c.config := by
  unfold submit
  split
  · exact ⟨rfl, rfl⟩
  · dsimp only
    split <;> exact ⟨rfl, rfl⟩

end Coordinator

/-! ## Floors and steps -/

/-- What one of many gives up to the rest or takes from it is exchanged for all of them. -/
theorem perm_exchange {β : Type} [DecidableEq β] {n w : Nat} (hw : w < n) {f g : Nat → List β}
    (h : ∀ v, v ≠ w → f v = g v) {x x' y y' : List β}
    (hown : (y ++ f w ++ y').Perm (x ++ g w ++ x')) :
    (y ++ (List.range n).flatMap f ++ y').Perm (x ++ (List.range n).flatMap g ++ x') := by
  rw [List.perm_iff_count] at hown ⊢
  intro a
  have hone := hown a
  have hall := (perm_flatMap_range hw h).count_eq a
  simp only [List.count_append] at hone hall ⊢
  omega

/-- The books, and how each worker stands. -/
structure Floor (ω : Type) where
  config : CoordinatorConfig
  books : Books ω
  /-- How many workers there are. -/
  size : Nat
  stance : Nat → Stance ω
  submissions : Nat

namespace Floor

/-- The floor after a worker's stride. -/
def stride (f : Floor ω) (w : Nat) (b : Books ω) (st : Stance ω) : Floor ω :=
  { f with books := b, stance := Function.update f.stance w st }

theorem stance_stride_self (f : Floor ω) (w : Nat) (b : Books ω) (st : Stance ω) :
    (f.stride w b st).stance w = st := by
  simp only [stride, Function.update_self]

theorem stance_stride_of_ne (f : Floor ω) {v w : Nat} (h : v ≠ w) (b : Books ω) (st : Stance ω) :
    (f.stride w b st).stance v = f.stance v := by
  simp only [stride, Function.update_of_ne h]

/-- What the stances of all workers contribute. -/
def gather {β : Type} (f : Floor ω) (g : Stance ω → List β) : List β :=
  (List.range f.size).flatMap fun w => g (f.stance w)

theorem gather_eq_nil {β : Type} {f : Floor ω} {g : Stance ω → List β}
    (h : ∀ w, g (f.stance w) = []) : f.gather g = [] :=
  List.flatMap_eq_nil_iff.2 fun w _ => h w

/-- A stride exchanges what one worker contributes. -/
theorem gather_stride {β : Type} (f : Floor ω) {w : Nat} (hw : w < f.size)
    (g : Stance ω → List β) (b : Books ω) (st : Stance ω) :
    ((f.stride w b st).gather g ++ g (f.stance w)).Perm (f.gather g ++ g st) := by
  have h := perm_flatMap_range hw (f := fun v => g ((f.stride w b st).stance v))
    (g := fun v => g (f.stance v)) fun v hv => congrArg g (f.stance_stride_of_ne hv b st)
  rwa [f.stance_stride_self] at h

/-- What a worker gives up or takes from the rest in a stride is exchanged for all workers. -/
theorem exchange {β : Type} [DecidableEq β] (f : Floor ω) {w : Nat} (hw : w < f.size)
    {g : Stance ω → List β} (b : Books ω) {st : Stance ω} {x x' y y' : List β}
    (h : (y ++ g st ++ y').Perm (x ++ g (f.stance w) ++ x')) :
    (y ++ (f.stride w b st).gather g ++ y').Perm (x ++ f.gather g ++ x') := by
  refine perm_exchange hw (f := fun v => g ((f.stride w b st).stance v))
    (g := fun v => g (f.stance v)) (fun v hv => congrArg g (f.stance_stride_of_ne hv b st)) ?_
  rwa [f.stance_stride_self]

theorem mem_gather {β : Type} {f : Floor ω} {g : Stance ω → List β} {x : β} :
    x ∈ f.gather g ↔ ∃ w < f.size, x ∈ g (f.stance w) := by
  simp [gather]

/-- Workers that contribute the same to a list without repetitions are the same. -/
theorem eq_of_nodup_gather {β : Type} {f : Floor ω} {g : Stance ω → List β}
    (h : (f.gather g).Nodup) {v w : Nat} {x : β} (hv : v < f.size) (hw : w < f.size)
    (hxv : x ∈ g (f.stance v)) (hxw : x ∈ g (f.stance w)) : v = w := by
  have hpairwise := (List.nodup_flatMap.1 h).2
  have hsymm : Std.Symm (Function.onFun List.Disjoint fun w => g (f.stance w)) :=
    ⟨fun _ _ hd _ hv hw => hd hw hv⟩
  by_contra hne
  exact hpairwise.forall (List.mem_range.2 hv) (List.mem_range.2 hw) hne hxv hxw

/-- One turn, with what it does. -/
inductive Step (f : Floor ω) : Deed ω → Floor ω → Prop
  | idle : Step f .quiet f
  | refuse : Step f .quiet { f with submissions := f.submissions + 1 }
  | accept {sub : Submission ω} {op : Submitted ω} {q : Queue (Assignment ω)}
      (hticket : sub.ticket = f.submissions) (hop : sub.Describes op)
      (h : f.books.queue.enqueue op = .ok q) :
      Step f (.accept sub)
        { f with books := { f.books with queue := q }, submissions := f.submissions + 1 }
  | cancel {i : OperationId} {op : Submitted ω} {q : Queue (Assignment ω)}
      (h : f.books.queue.remove? i = some (op, q)) :
      Step f (.cancel op) { f with books := { f.books with queue := q } }
  | shut : Step f .quiet { f with books := { f.books with queue := f.books.queue.shut } }
  | work {w : Nat} {d : Deed ω} {b : Books ω} {st : Stance ω} (hw : w < f.size)
      (h : Stride w d f.books (f.stance w) b st) : Step f d (f.stride w b st)

end Floor

namespace Scene

variable {s t : Scene ω} {w : Nat}

/-- How a worker stands. -/
def stance (s : Scene ω) (w : Nat) : Stance ω :=
  match s.lockingOf? w with
  | some l => .locking l.op l.now
  | none => (s.coordinator.workers[w]?.map Phase.stance).getD .free

def floor (s : Scene ω) : Floor ω :=
  ⟨s.coordinator.config, s.coordinator.books, s.coordinator.workers.length, s.stance,
    s.coordinator.submissions⟩

/-- What a move does. -/
def deed (s : Scene ω) : Move ω → Deed ω
  | .turn (.work w env) =>
    match s.waits w, s.coordinator.workers[w]? with
    | false, some phase => s.coordinator.deed env w phase
    | _, _ => .quiet
  | .turn (.submit r now) =>
    if (s.coordinator.submit r now).1 then .accept ⟨s.coordinator.submissions, r, now⟩ else .quiet
  | .turn (.cancel id) =>
    match OperationId.ofString id with
    | .error _ => .quiet
    | .ok i =>
      match s.coordinator.queue.remove? i with
      | none => .quiet
      | some (op, _) => .cancel op
  | _ => .quiet

/-- What each of some moves does. -/
def deeds (s : Scene ω) : List (Move ω) → List (Deed ω)
  | [] => []
  | m :: ms => s.deed m :: (s.move m).deeds ms

theorem stance_of_locking {l : Locking ω} (h : s.locking? = some l) :
    s.stance l.worker = .locking l.op l.now := by
  rw [stance, lockingOf?_eq_some_iff.2 ⟨h, rfl⟩]

theorem stance_of_phase {phase : Phase ω} (hfree : s.lockingOf? w = none)
    (hw : s.coordinator.workers[w]? = some phase) : s.stance w = phase.stance := by
  rw [stance, hfree, hw]
  rfl

/-- The floor of a scene in which one worker has gone on. -/
theorem floor_eq_stride {phase : Phase ω}
    (hset : t.coordinator.workers = s.coordinator.workers.set w phase)
    (hother : ∀ v, v ≠ w → t.lockingOf? v = s.lockingOf? v)
    (hframe : t.coordinator.submissions = s.coordinator.submissions ∧
      t.coordinator.config = s.coordinator.config) :
    t.floor = s.floor.stride w t.coordinator.books (t.stance w) := by
  have hstance : t.stance = Function.update s.floor.stance w (t.stance w) := by
    refine Function.eq_update_iff.2 ⟨rfl, fun v hv => ?_⟩
    show t.stance v = s.stance v
    rw [stance, stance, hother v hv, hset, List.getElem?_set_ne hv.symm]
  rw [Floor.stride, ← hstance, floor, hset, List.length_set, hframe.1, hframe.2]
  rfl

/-- A worker's stride is a step of the floor. -/
theorem step_of_stride {phase phase' : Phase ω} {d : Deed ω}
    (hw : s.coordinator.workers[w]? = some phase)
    (hset : t.coordinator.workers = s.coordinator.workers.set w phase')
    (hother : ∀ v, v ≠ w → t.lockingOf? v = s.lockingOf? v)
    (hframe : t.coordinator.submissions = s.coordinator.submissions ∧
      t.coordinator.config = s.coordinator.config)
    (h : Stride w d s.coordinator.books (s.stance w) t.coordinator.books (t.stance w)) :
    s.floor.Step d t.floor := by
  rw [floor_eq_stride hset hother hframe]
  exact .work (List.getElem?_eq_some_iff.1 hw).1 h

theorem step_work (s : Scene ω) (w : Nat) (env : Surroundings) :
    s.floor.Step (s.deed (.turn (.work w env))) (s.happen (.work w env)).floor := by
  rw [happen, deed]
  cases hwaits : s.waits w with
  | true => exact .idle
  | false =>
    rw [if_neg Bool.false_ne_true]
    cases hw : s.coordinator.workers[w]? with
    | none =>
      rw [Coordinator.work_of_none hw]
      exact .idle
    | some phase =>
      have hfree := lockingOf?_of_not_waits hw (by rw [hwaits]; exact Bool.false_ne_true)
      obtain ⟨hworkers, hsubmissions, hconfig, -⟩ := s.coordinator.advance_frame env phase
      have hset : (s.coordinator.work env w).workers =
          s.coordinator.workers.set w (s.coordinator.advance env phase).1 := by
        rw [Coordinator.work_eq hw, Coordinator.setPhase, hworkers]
      have hself : (s.coordinator.work env w).workers[w]? =
          some (s.coordinator.advance env phase).1 := by
        rw [hset, List.getElem?_set_self (List.getElem?_eq_some_iff.1 hw).1]
      have hbooks : (s.coordinator.work env w).books =
          (s.coordinator.advance env phase).2.books := by
        rw [Coordinator.work_eq hw]
        rfl
      refine step_of_stride (t := { s with coordinator := s.coordinator.work env w }) hw hset
        (fun _ _ => rfl) ?_ ?_
      · rw [Coordinator.work_eq hw]
        exact ⟨hsubmissions, hconfig⟩
      · rw [stance_of_phase hfree hw, hbooks,
          stance_of_phase (s := { s with coordinator := s.coordinator.work env w }) hfree hself]
        exact s.coordinator.stride_advance env w phase

/-- A step that leaves the workers and the mutex alone. -/
theorem floor_of_frame {c : Coordinator ω} (hworkers : c.workers = s.coordinator.workers)
    (hconfig : c.config = s.coordinator.config) :
    floor { s with coordinator := c } =
      { s.floor with books := c.books, submissions := c.submissions } := by
  have hstance : stance { s with coordinator := c } = s.stance := by
    funext v
    simp only [stance, lockingOf?, hworkers]
  rw [floor, hstance, hworkers, hconfig]
  rfl

theorem step_submit (s : Scene ω) (r : SubmitRequest ω) (now : Timestamp) :
    s.floor.Step (s.deed (.turn (.submit r now))) (s.happen (.submit r now)).floor := by
  obtain ⟨-, -, hworkers⟩ := s.coordinator.submit_frame r now
  obtain ⟨hsubmissions, hconfig⟩ := s.coordinator.submissions_submit r now
  show s.floor.Step _ (floor { s with coordinator := (s.coordinator.submit r now).2 })
  rw [floor_of_frame hworkers hconfig, hsubmissions, deed]
  rcases s.coordinator.submit_cases r now with ⟨op, q, hop, hok, hyes, hbooks⟩ | ⟨hno, hbooks⟩
  · rw [if_pos hyes, hbooks]
    exact .accept rfl hop hok
  · rw [if_neg (by rw [hno]; exact Bool.false_ne_true), hbooks]
    exact .refuse

theorem step_cancel (s : Scene ω) (id : String) :
    s.floor.Step (s.deed (.turn (.cancel id))) (s.happen (.cancel id)).floor := by
  show s.floor.Step (s.deed (.turn (.cancel id)))
    (floor { s with coordinator := (s.coordinator.cancel id).2 })
  rw [deed, Coordinator.cancel]
  cases OperationId.ofString id with
  | error e => exact .idle
  | ok i =>
    dsimp only
    cases hcall : s.coordinator.queue.remove? i with
    | none => exact .idle
    | some taken =>
      obtain ⟨op, q⟩ := taken
      exact .cancel hcall

theorem step_begin (s : Scene ω) (w : Nat) (now : Timestamp) :
    s.floor.Step .quiet (s.begin w now).floor := by
  unfold begin
  split
  · rename_i op hnone hw
    let l : Locking ω := ⟨w, op, now, .onward [] op.paths⟩
    have hfree (v : Nat) : s.lockingOf? v = none := by rw [lockingOf?, hnone, Option.filter_none]
    have hstance : stance ⟨s.coordinator.enter l.begun, some l⟩ w = .locking op now :=
      stance_of_locking (s := ⟨s.coordinator.enter l.begun, some l⟩) rfl
    refine step_of_stride (t := ⟨s.coordinator.enter l.begun, some l⟩) hw
      (set_of_getElem?_eq_some hw).symm ?_ ⟨rfl, rfl⟩ ?_
    · intro v hv
      rw [hfree v, lockingOf?_of_ne (l := l) rfl hv]
    · rw [hstance, stance_of_phase (hfree w) hw]
      exact .enter s.coordinator.books op now
  · exact .idle

/-- The worker with the mutex goes on to other locks. -/
theorem step_retake {l : Locking ω} (hl : s.locking? = some l) {c : Coordinator ω} {t : Taking}
    (hbooks : c.books = s.coordinator.books) (hworkers : c.workers = s.coordinator.workers)
    (hframe : c.submissions = s.coordinator.submissions ∧ c.config = s.coordinator.config) :
    s.floor.Step .quiet (floor ⟨c, some { l with taking := t }⟩) := by
  have hstance : stance ⟨c, some { l with taking := t }⟩ = s.stance := by
    funext v
    by_cases hv : v = l.worker
    · subst hv
      rw [stance_of_locking hl]
      exact stance_of_locking (l := { l with taking := t }) rfl
    · rw [stance, stance, lockingOf?_of_ne hl hv,
        lockingOf?_of_ne (l := { l with taking := t }) rfl hv]
      simp only [hworkers]
  have hsame : floor ⟨c, some { l with taking := t }⟩ = s.floor := by
    rw [floor, floor, hstance, hbooks, hworkers, hframe.1, hframe.2]
  rw [hsame]
  exact .idle

/-- The worker with the mutex lets it go. -/
theorem step_letGo (h : s.Accounted) {l : Locking ω} (hl : s.locking? = some l)
    {c : Coordinator ω} {phase : Phase ω} (hworkers : c.workers = s.coordinator.workers)
    (hframe : c.submissions = s.coordinator.submissions ∧ c.config = s.coordinator.config)
    (hstride : Stride l.worker .quiet s.coordinator.books (.locking l.op l.now) c.books
      phase.stance) :
    s.floor.Step .quiet (floor { coordinator := c.setPhase l.worker phase }) := by
  obtain ⟨hat, -⟩ := h.locking l hl
  have hset : (c.setPhase l.worker phase).workers =
      s.coordinator.workers.set l.worker phase := by
    rw [Coordinator.setPhase, hworkers]
  have hself : (c.setPhase l.worker phase).workers[l.worker]? = some phase := by
    rw [hset, List.getElem?_set_self (List.getElem?_eq_some_iff.1 hat).1]
  refine step_of_stride (t := { coordinator := c.setPhase l.worker phase }) hat hset ?_ hframe ?_
  · intro v hv
    rw [lockingOf?_of_ne hl hv]
    rfl
  · rw [stance_of_locking hl,
      stance_of_phase (s := { coordinator := c.setPhase l.worker phase }) rfl hself]
    exact hstride

theorem step_proceed (h : s.Accounted) : s.floor.Step .quiet s.proceed.floor := by
  unfold proceed
  split
  · exact .idle
  · rename_i l hl
    unfold advance
    split
    · exact step_letGo h hl rfl ⟨rfl, rfl⟩ (.start s.coordinator.books l.op l.now)
    · split
      · exact step_retake hl rfl rfl ⟨rfl, rfl⟩
      · split <;> exact step_retake hl rfl rfl ⟨rfl, rfl⟩
    · exact step_letGo h hl rfl ⟨rfl, rfl⟩ (.conflict s.coordinator.books l.op l.now)
    · exact step_retake hl rfl rfl ⟨rfl, rfl⟩

theorem step_move (h : s.Accounted) (m : Move ω) : s.floor.Step (s.deed m) (s.move m).floor := by
  cases m with
  | begin w now => exact step_begin s w now
  | proceed => exact step_proceed h
  | turn t =>
    cases t with
    | work w env => exact step_work s w env
    | submit r now => exact step_submit s r now
    | cancel id => exact step_cancel s id
    | settle k =>
      have hframe := s.coordinator.settle_frame k
      have hbooks : (s.coordinator.settle k).books = s.coordinator.books ∧
          (s.coordinator.settle k).submissions = s.coordinator.submissions ∧
          (s.coordinator.settle k).config = s.coordinator.config := by
        unfold Coordinator.settle
        split <;> exact ⟨rfl, rfl, rfl⟩
      show s.floor.Step .quiet (floor { s with coordinator := s.coordinator.settle k })
      rw [floor_of_frame hframe.2.2 hbooks.2.2, hbooks.1, hbooks.2.1]
      exact .idle
    | raiseStop => exact .idle
    | shutQueue => exact .shut
    | disturb files => exact .idle

/-! ## Runs -/

/-- Each of some moves finds a floor on which what it does is admitted. -/
def Goes (ok : Floor ω → Deed ω → Prop) (s : Scene ω) : List (Move ω) → Prop
  | [] => True
  | m :: ms => ok s.floor (s.deed m) ∧ Goes ok (s.move m) ms

instance decidableGoes {ok : Floor ω → Deed ω → Prop} [∀ f d, Decidable (ok f d)] (s : Scene ω) :
    (ms : List (Move ω)) → Decidable (s.Goes ok ms)
  | [] => .isTrue trivial
  | m :: ms =>
    have : Decidable ((s.move m).Goes ok ms) := decidableGoes (s.move m) ms
    inferInstanceAs (Decidable (ok s.floor (s.deed m) ∧ (s.move m).Goes ok ms))

/-- What every admitted step keeps of the floor and a record of the deeds, every run keeps. -/
theorem record_run {γ : Type} (note : γ → Deed ω → γ) {P : Floor ω → γ → Prop}
    {ok : Floor ω → Deed ω → Prop}
    (hstep : ∀ f g d f', P f g → ok f d → f.Step d f' → P f' (note g d))
    {ms : List (Move ω)} (g : γ) (h : s.Accounted) (hgoes : s.Goes ok ms) (hp : P s.floor g) :
    P (s.run ms).floor ((s.deeds ms).foldl note g) := by
  induction ms generalizing s g with
  | nil => exact hp
  | cons m ms ih =>
    have haccounted := accounted_move h m
    exact ih _ haccounted hgoes.2 (hstep _ _ _ _ hp hgoes.1 (step_move h m))

theorem floor_run {P : Floor ω → Prop} {ok : Floor ω → Deed ω → Prop}
    (hstep : ∀ f d f', P f → ok f d → f.Step d f' → P f') {ms : List (Move ω)}
    (h : s.Accounted) (hgoes : s.Goes ok ms) (hp : P s.floor) : P (s.run ms).floor :=
  record_run (fun _ _ => ()) (P := fun f _ => P f) (fun f _ d f' => hstep f d f') () h hgoes hp

theorem goes_true (s : Scene ω) (ms : List (Move ω)) : s.Goes (fun _ _ => True) ms := by
  induction ms generalizing s with
  | nil => trivial
  | cons m ms ih => exact ⟨trivial, ih (s.move m)⟩

end Scene

/-- The sink of an operation breaks down. -/
def Deed.isBreakdown : Deed ω → Bool
  | breakdown _ => true
  | _ => false

/-- No sink breaks down in a move. -/
def Move.sinksHold : Move ω → Bool
  | turn (.work _ env) => !env.sinkFails
  | _ => true

namespace Scene

theorem exists_of_create {α : Type} {config : CoordinatorConfig} {fs : Files}
    {g : Coordinator ω → α} {a : α}
    (h : (Coordinator.create config fs).toOption.map g = some a) :
    ∃ c, Coordinator.create config fs = .ok c ∧ g c = a := by
  cases hc : (Coordinator.create config fs : Except CoordinatorFault (Coordinator ω)) with
  | error fault =>
    rw [hc] at h
    cases h
  | ok c =>
    rw [hc] at h
    exact ⟨c, rfl, Option.some.inj h⟩

theorem floor_create {config : CoordinatorConfig} {fs : Files} {c : Coordinator ω}
    (h : Coordinator.create config fs = .ok c) : floor { coordinator := c } =
      { config
        books := ⟨{ capacity := config.queueCapacity.toNat }, [], {}⟩
        size := config.maxConcurrent.toNat
        stance := fun _ => .free
        submissions := 0 } := by
  unfold Coordinator.create at h
  split at h
  · cases h
  · dsimp only at h
    split at h
    · cases h
    · cases h
      have hstance (n : Nat) :
          (fun w : Nat => ((List.replicate n (Phase.idle : Phase ω))[w]?.map Phase.stance).getD
            .free) = fun _ => .free := by
        funext w
        rw [List.getElem?_replicate]
        split <;> rfl
      rw [floor, List.length_replicate]
      exact congrArg (Floor.mk config ⟨{ capacity := config.queueCapacity.toNat }, [], {}⟩
        config.maxConcurrent.toNat · 0) (hstance _)

end Scene

end Upkeep
