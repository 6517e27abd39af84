import Mathlib.Data.List.Range
import Upkeep.Proofs.Queue.Entries
import Upkeep.Queue.Waiting

/-!
# Takers that wait

Any number of takers wait at one queue. They wake up for a reason or for none, at once or late, and
in between others take what they woke up for, operations come and are removed, time passes, and the
queue is shut.

**Attendance.** A taker comes in two steps: first it finds out until when it will wait, and later
it looks at the queue, as it does whenever it wakes (`Hall.come_eq`). An `Attendance` is a hall with
a record of the takers that have come, each of which has its place in the record as its ticket, and
of the operations that went into the queue or were removed from it.

**Answers.** A taker gets an answer when it wakes and need not wait, or when its deadline has
passed. The answer is the head of the queue as it is then, and nothing only for a reason
(`Answered`). All other moves leave those that wait alone (`course`).

**Runs.** From the steps it follows by induction that each taker waits or has one answer, that each
operation is given to one taker at most, and that nobody gives up for another reason than those
(`orderly_run`).
-/

namespace Upkeep.Queue

variable {ω : Type}

namespace Hall

/-- A taker comes and finds out until when it will wait. -/
def arrive (h : Hall ω) (ticket : Nat) (wait : Duration) : Hall ω :=
  { h with waiting := h.waiting ++ [⟨ticket, h.deadline? wait⟩] }

/-- A taker that comes looks at the queue at once if nobody interrupts it. -/
theorem come_eq (h : Hall ω) (ticket : Nat) (wait : Duration) :
    h.come ticket wait = (h.arrive ticket wait).wake ticket := by
  have hany : (h.arrive ticket wait).waiting.any (·.ticket = ticket) = true := by
    simp [arrive]
  have hready : (h.arrive ticket wait).isReady = h.isReady := rfl
  rw [come, wake, hany, hready, Bool.true_and]
  split
  · have hwaiting : (h.arrive ticket wait).waiting.filter (·.ticket != ticket) =
        h.waiting.filter (·.ticket != ticket) := by
      simp [arrive]
    unfold serve
    rw [hwaiting]
    rfl
  · rfl

theorem serve_eq (h : Hall ω) (ticket : Nat) : ∃ q : Queue ω,
    q.entries = h.queue.entries.tail ∧ h.serve ticket = { h with
      queue := q
      waiting := h.waiting.filter (·.ticket != ticket)
      answers := h.answers ++ [(ticket, h.queue.entries.head?)] } := by
  unfold serve
  cases hd : h.queue.dequeue? with
  | none =>
    have hempty := dequeue?_eq_none_iff.1 hd
    exact ⟨h.queue, by rw [hempty]; rfl, by rw [hempty]; rfl⟩
  | some taken =>
    obtain ⟨op, q⟩ := taken
    have hentries := entries_of_dequeue? hd
    exact ⟨q, by rw [hentries]; rfl, by rw [hentries]; rfl⟩

end Hall

/-! ## Attendance -/

/-- When a taker came, and for how long it would wait. -/
structure Taker where
  since : Nat
  wait : Duration
  deriving DecidableEq

/-- When the taker gives up. A wait that is too long has no end. -/
def Taker.deadline? (t : Taker) : Option Nat :=
  if t.since + t.wait.nanos < Hall.longestWait then some (t.since + t.wait.nanos) else none

/-- What happens in a hall. -/
inductive HallMove (ω : Type) where
  | arrive (wait : Duration)
  /-- A taker wakes up, for whatever reason. -/
  | wake (ticket : Nat)
  /-- A taker notices that its deadline has passed. -/
  | expire (ticket : Nat)
  | enqueue (op : Operation ω)
  | remove (i : OperationId)
  | taskDone
  | shut
  | pass (nanos : Nat)

/-- A hall, with those who have come, the latest last, and the operations that the queue has taken
in and those that were removed. -/
structure Attendance (ω : Type) where
  hall : Hall ω
  takers : List Taker := []
  accepted : List (Operation ω) := []
  removed : List (Operation ω) := []

namespace Attendance

/-- Nobody has come yet. -/
def start (capacity : Nat) : Attendance ω := { hall := { queue := { capacity } } }

/-- The attendance after a move. -/
def step (s : Attendance ω) : HallMove ω → Attendance ω
  | .arrive wait =>
    { s with
      hall := s.hall.arrive s.takers.length wait, takers := s.takers ++ [⟨s.hall.now, wait⟩] }
  | .wake ticket => { s with hall := s.hall.wake ticket }
  | .expire ticket => { s with hall := s.hall.expire ticket }
  | .enqueue op =>
    match s.hall.queue.enqueue op with
    | .ok q => { s with hall := { s.hall with queue := q }, accepted := s.accepted ++ [op] }
    | .error _ => s
  | .remove i =>
    match s.hall.queue.remove? i with
    | some (op, q) => { s with hall := { s.hall with queue := q }, removed := s.removed ++ [op] }
    | none => s
  | .taskDone => { s with hall := { s.hall with queue := s.hall.queue.taskDone } }
  | .shut => { s with hall := { s.hall with queue := s.hall.queue.shut } }
  | .pass nanos => { s with hall := s.hall.pass nanos }

/-- The attendance after some moves. -/
def run (s : Attendance ω) (ms : List (HallMove ω)) : Attendance ω := ms.foldl step s

theorem run_append (s : Attendance ω) (ms ms' : List (HallMove ω)) :
    s.run (ms ++ ms') = (s.run ms).run ms' :=
  List.foldl_append

/-- The tickets of those who wait. -/
def tickets (s : Attendance ω) : List Nat := s.hall.waiting.map (·.ticket)

/-- The operations that were given to takers. -/
def returned (s : Attendance ω) : List (Operation ω) := s.hall.answers.filterMap (·.2)

/-- The deadline of a taker has passed. -/
def Due (s : Attendance ω) (t : Nat) : Prop :=
  ∃ taker d, s.takers[t]? = some taker ∧ taker.deadline? = some d ∧ d ≤ s.hall.now

/-! ## What a move does -/

/-- In a move a taker gets its answer. -/
structure Answered (s : Attendance ω) (m : HallMove ω) (t : Nat) (a : Option (Operation ω)) :
    Prop where
  acts : m = .wake t ∨ m = .expire t
  waited : t ∈ s.tickets
  /-- The answer is the head of the queue, or nothing if the queue is empty. -/
  head : a = s.hall.queue.entries.head?
  reason : a = none → s.hall.queue.isShut = true ∨ s.Due t
  tail : (s.step m).hall.queue.entries = s.hall.queue.entries.tail
  waiting : (s.step m).hall.waiting = s.hall.waiting.filter (·.ticket != t)
  answers : (s.step m).hall.answers = s.hall.answers ++ [(t, a)]
  record : (s.step m).takers = s.takers ∧ (s.step m).accepted = s.accepted ∧
    (s.step m).removed = s.removed

/-- In a move nobody comes and nobody gets an answer. At most one operation goes into the queue or
is removed. -/
structure Rests (s : Attendance ω) (m : HallMove ω) : Prop where
  waiting : (s.step m).hall.waiting = s.hall.waiting
  answers : (s.step m).hall.answers = s.hall.answers
  takers : (s.step m).takers = s.takers
  operations : ∃ new gone : List (Operation ω), (s.step m).accepted = s.accepted ++ new ∧
    (s.step m).removed = s.removed ++ gone ∧
      ((s.step m).hall.queue.entries ++ gone).Perm (s.hall.queue.entries ++ new)

theorem rests_of_entries {s : Attendance ω} {m : HallMove ω} {queue : Queue ω} {now : Nat}
    (hstep : s.step m = { s with hall := { s.hall with queue, now } })
    (hentries : queue.entries = s.hall.queue.entries) : s.Rests m := by
  refine ⟨by rw [hstep], by rw [hstep], by rw [hstep], [], [], ?_, ?_, ?_⟩
  · rw [hstep, List.append_nil]
  · rw [hstep, List.append_nil]
  · rw [hstep, List.append_nil, List.append_nil]
    exact .of_eq hentries

/-- What holds at all times: who has come waits with the right deadline or has one answer, and the
operations that the queue took in are in it or have come out once. -/
structure Sound (s : Attendance ω) : Prop where
  tickets : (s.tickets ++ s.hall.answers.map (·.1)).Perm (List.range s.takers.length)
  deadline : ∀ w ∈ s.hall.waiting, ∃ taker,
    s.takers[w.ticket]? = some taker ∧ w.deadline = taker.deadline?
  operations : (s.returned ++ s.removed ++ s.hall.queue.entries).Perm s.accepted

theorem answered_of_serve {s : Attendance ω} {m : HallMove ω} {t : Nat}
    (hm : m = .wake t ∨ m = .expire t) (hstep : s.step m = { s with hall := s.hall.serve t })
    (hwaits : t ∈ s.tickets)
    (hreason : s.hall.queue.entries = [] → s.hall.queue.isShut = true ∨ s.Due t) :
    s.Answered m t s.hall.queue.entries.head? := by
  obtain ⟨q, htail, hserve⟩ := s.hall.serve_eq t
  rw [hserve] at hstep
  constructor
  case acts => exact hm
  case waited => exact hwaits
  case head => rfl
  case reason => exact fun hnone => hreason (List.head?_eq_none_iff.1 hnone)
  case tail => rw [hstep]; exact htail
  case waiting => rw [hstep]
  case answers => rw [hstep]
  case record => rw [hstep]; exact ⟨rfl, rfl, rfl⟩

/-- What a move comes to. -/
inductive Course (s : Attendance ω) (m : HallMove ω) : Prop
  | arrive (wait : Duration) (h : m = .arrive wait)
  | answer (t : Nat) (a : Option (Operation ω)) (h : s.Answered m t a)
  | rest (h : s.Rests m)

theorem answered_of_wake {s : Attendance ω} {t : Nat} (hwaits : t ∈ s.tickets)
    (hready : s.hall.isReady = true) : s.Answered (.wake t) t s.hall.queue.entries.head? := by
  have hany : s.hall.waiting.any (·.ticket = t) = true := by
    obtain ⟨w, hw, ht⟩ := List.mem_map.1 hwaits
    exact List.any_eq_true.2 ⟨w, hw, decide_eq_true ht⟩
  refine answered_of_serve (.inl rfl) ?_ hwaits fun hempty => .inl ?_
  · rw [step, Hall.wake, hany, hready, Bool.and_true, if_pos rfl]
  · simpa [Hall.isReady, hempty] using hready

theorem course_wake (s : Attendance ω) (t : Nat) : s.Course (.wake t) := by
  by_cases h : (s.hall.waiting.any (·.ticket = t) && s.hall.isReady) = true
  · obtain ⟨hany, hready⟩ := Bool.and_eq_true_iff.1 h
    have hwaits : t ∈ s.tickets := by
      obtain ⟨w, hw, ht⟩ := List.any_eq_true.1 hany
      exact List.mem_map.2 ⟨w, hw, of_decide_eq_true ht⟩
    exact .answer t _ (answered_of_wake hwaits hready)
  · exact .rest (rests_of_entries (by rw [step, Hall.wake, if_neg h]) rfl)

theorem course_expire {s : Attendance ω} (hs : s.Sound) (t : Nat) : s.Course (.expire t) := by
  by_cases h : s.hall.waiting.any
      (fun w => w.ticket = t && w.deadline.any (· ≤ s.hall.now)) = true
  · obtain ⟨w, hw, hboth⟩ := List.any_eq_true.1 h
    obtain ⟨ht, hpassed⟩ := Bool.and_eq_true_iff.1 hboth
    obtain rfl : w.ticket = t := of_decide_eq_true ht
    obtain ⟨taker, htaker, hdeadline⟩ := hs.deadline w hw
    have hdue : s.Due w.ticket := by
      cases hd : w.deadline with
      | none =>
        rw [hd] at hpassed
        cases hpassed
      | some d =>
        rw [hd] at hpassed
        exact ⟨taker, d, htaker, hdeadline.symm.trans hd, of_decide_eq_true hpassed⟩
    have hwaits : w.ticket ∈ s.tickets := List.mem_map_of_mem hw
    exact .answer w.ticket _ (answered_of_serve (.inr rfl)
      (by rw [step, Hall.expire, if_pos h]) hwaits fun _ => .inr hdue)
  · exact .rest (rests_of_entries (by rw [step, Hall.expire, if_neg h]) rfl)

/-- A taker comes, or one that waits gets an answer, or all that wait go on waiting. -/
theorem course {s : Attendance ω} (hs : s.Sound) (m : HallMove ω) : s.Course m := by
  cases m with
  | arrive wait => exact .arrive wait rfl
  | wake t => exact course_wake s t
  | expire t => exact course_expire hs t
  | enqueue op =>
    refine .rest ?_
    cases hq : s.hall.queue.enqueue op with
    | ok q =>
      have hstep : s.step (.enqueue op) =
          { s with hall := { s.hall with queue := q }, accepted := s.accepted ++ [op] } := by
        rw [step, hq]
      refine ⟨by rw [hstep], by rw [hstep], by rw [hstep], [op], [], by rw [hstep], ?_, ?_⟩
      · rw [hstep, List.append_nil]
      · rw [hstep, List.append_nil]
        exact (entries_of_enqueue hq).trans (List.perm_append_singleton op _).symm
    | error back => exact rests_of_entries (by rw [step, hq]) rfl
  | remove i =>
    refine .rest ?_
    cases hq : s.hall.queue.remove? i with
    | some taken =>
      obtain ⟨op, q⟩ := taken
      have hstep : s.step (.remove i) =
          { s with hall := { s.hall with queue := q }, removed := s.removed ++ [op] } := by
        rw [step, hq]
      refine ⟨by rw [hstep], by rw [hstep], by rw [hstep], [], [op], ?_, by rw [hstep], ?_⟩
      · rw [hstep, List.append_nil]
      · rw [hstep, List.append_nil]
        exact (List.perm_append_singleton op _).trans (entries_of_remove? hq).symm
    | none => exact rests_of_entries (by rw [step, hq]) rfl
  | taskDone => exact .rest (rests_of_entries rfl rfl)
  | shut => exact .rest (rests_of_entries rfl rfl)
  | pass nanos => exact .rest (rests_of_entries rfl rfl)

/-! ## What holds at all times -/

/-- A taker that has come keeps its place in the record. -/
theorem takers_prefix_step {s : Attendance ω} (hs : s.Sound) (m : HallMove ω) :
    s.takers <+: (s.step m).takers := by
  cases course hs m with
  | arrive wait h =>
    subst h
    exact List.prefix_append _ _
  | answer t a h => exact h.record.1 ▸ List.prefix_rfl
  | rest h => exact h.takers ▸ List.prefix_rfl

theorem Answered.sound {s : Attendance ω} {m : HallMove ω} {t : Nat} {a : Option (Operation ω)}
    (h : s.Answered m t a) (hs : s.Sound) : (s.step m).Sound := by
  obtain ⟨htakers, haccepted, hremoved⟩ := h.record
  constructor
  case tickets =>
    have hnodup : s.tickets.Nodup :=
      (List.nodup_append.1 (hs.tickets.nodup_iff.2 List.nodup_range)).1
    have hleft : (s.step m).tickets = s.tickets.erase t := by
      rw [hnodup.erase_eq_filter, tickets, tickets, h.waiting, List.filter_map]
      rfl
    rw [hleft, h.answers, htakers, List.map_append]
    -- The ticket goes from those who wait to those who have an answer.
    refine .trans ?_ hs.tickets
    rw [← List.append_assoc]
    refine (List.perm_append_singleton t _).trans ?_
    exact (List.perm_cons_erase h.waited).symm.append_right (s.hall.answers.map (·.1))
  case deadline =>
    rw [h.waiting, htakers]
    exact fun w hw => hs.deadline w (List.mem_of_mem_filter hw)
  case operations =>
    have hreturned : (s.step m).returned = s.returned ++ a.toList := by
      rw [returned, h.answers, List.filterMap_append]
      cases a <;> rfl
    rw [hreturned, h.tail, haccepted, hremoved, h.head]
    refine .trans ?_ hs.operations
    cases s.hall.queue.entries with
    | nil => exact .of_eq (by simp)
    | cons op rest =>
      have hmiddle : (op :: (s.removed ++ rest)).Perm (s.removed ++ op :: rest) :=
        List.perm_middle.symm
      show (s.returned ++ [op] ++ s.removed ++ rest).Perm (s.returned ++ s.removed ++ op :: rest)
      rw [List.append_assoc, List.append_assoc, List.append_assoc]
      exact hmiddle.append_left s.returned

theorem Rests.sound {s : Attendance ω} {m : HallMove ω} (h : s.Rests m) (hs : s.Sound) :
    (s.step m).Sound := by
  constructor
  case tickets =>
    rw [tickets, h.waiting, h.answers, h.takers]
    exact hs.tickets
  case deadline =>
    rw [h.waiting, h.takers]
    exact hs.deadline
  case operations =>
    obtain ⟨new, gone, haccepted, hremoved, hentries⟩ := h.operations
    have hsame : (s.step m).returned = s.returned := by rw [returned, h.answers, returned]
    rw [hsame, haccepted, hremoved]
    calc (s.returned ++ (s.removed ++ gone) ++ (s.step m).hall.queue.entries)
        = s.returned ++ s.removed ++ (gone ++ (s.step m).hall.queue.entries) := by
          simp only [List.append_assoc]
      _ |>.Perm (s.returned ++ s.removed ++ ((s.step m).hall.queue.entries ++ gone)) :=
          List.perm_append_comm.append_left _
      _ |>.Perm (s.returned ++ s.removed ++ (s.hall.queue.entries ++ new)) :=
          hentries.append_left _
      _ = s.returned ++ s.removed ++ s.hall.queue.entries ++ new := by
          simp only [List.append_assoc]
      _ |>.Perm (s.accepted ++ new) := hs.operations.append_right new

theorem sound_arrive {s : Attendance ω} (hs : s.Sound) (wait : Duration) :
    (s.step (.arrive wait)).Sound := by
  constructor
  case tickets =>
    have htickets : (s.step (.arrive wait)).tickets = s.tickets ++ [s.takers.length] := by
      simp [tickets, step, Hall.arrive]
    have hlength : (s.step (.arrive wait)).takers.length = s.takers.length + 1 := by simp [step]
    rw [htickets, hlength, List.range_succ, List.append_assoc]
    refine .trans ?_ (hs.tickets.append_right [s.takers.length])
    rw [List.append_assoc]
    exact List.perm_append_comm.append_left s.tickets
  case deadline =>
    intro w hw
    show ∃ taker, (s.takers ++ [_])[w.ticket]? = some taker ∧ _
    rcases List.mem_append.1 hw with hold | hnew
    · obtain ⟨taker, htaker, hdeadline⟩ := hs.deadline w hold
      have hlt := (List.getElem?_eq_some_iff.1 htaker).1
      exact ⟨taker, by rw [List.getElem?_append_left hlt]; exact htaker, hdeadline⟩
    · obtain rfl := List.mem_singleton.1 hnew
      exact ⟨⟨s.hall.now, wait⟩, List.getElem?_concat_length, rfl⟩
  case operations => exact hs.operations

theorem sound_step {s : Attendance ω} (hs : s.Sound) (m : HallMove ω) : (s.step m).Sound := by
  cases course hs m with
  | arrive wait h => exact h ▸ sound_arrive hs wait
  | answer t a h => exact h.sound hs
  | rest h => exact h.sound hs

theorem sound_start (capacity : Nat) : (start capacity : Attendance ω).Sound where
  tickets := .nil
  deadline _ hw := nomatch hw
  operations := .nil

theorem sound_run {s : Attendance ω} (hs : s.Sound) (ms : List (HallMove ω)) :
    (s.run ms).Sound := by
  induction ms generalizing s with
  | nil => exact hs
  | cons m ms ih => exact ih (sound_step hs m)

/-! ## Runs -/

theorem takers_prefix_run {s : Attendance ω} (hs : s.Sound) (ms : List (HallMove ω)) :
    s.takers <+: (s.run ms).takers := by
  induction ms generalizing s with
  | nil => exact List.prefix_rfl
  | cons m ms ih => exact (takers_prefix_step hs m).trans (ih (sound_step hs m))

/-- Every answer of a run has been given in one of its moves. -/
theorem exists_answered {s : Attendance ω} (hs : s.Sound) {ms : List (HallMove ω)} {t : Nat}
    {a : Option (Operation ω)} (h : (t, a) ∈ (s.run ms).hall.answers) :
    (t, a) ∈ s.hall.answers ∨
      ∃ before m after, ms = before ++ m :: after ∧ (s.run before).Answered m t a := by
  induction ms generalizing s with
  | nil => exact .inl h
  | cons m ms ih =>
    rcases ih (sound_step hs m) h with hfirst | ⟨before, m', after, rfl, hlater⟩
    · cases course hs m with
      | arrive wait hm =>
        subst hm
        exact .inl hfirst
      | answer t' a' hnow =>
        rw [hnow.answers, List.mem_append, List.mem_singleton] at hfirst
        rcases hfirst with hold | heq
        · exact .inl hold
        · obtain ⟨rfl, rfl⟩ := Prod.mk.inj heq
          exact .inr ⟨[], m, ms, rfl, hnow⟩
      | rest hrest => exact .inl (hrest.answers ▸ hfirst)
    · exact .inr ⟨m :: before, m', after, rfl, hlater⟩

theorem goesOn {s : Attendance ω} (hs : s.Sound) (m : HallMove ω) {w : Waiter}
    (hw : w ∈ s.hall.waiting) :
    w ∈ (s.step m).hall.waiting ∨ ∃ a, s.Answered m w.ticket a := by
  cases course hs m with
  | arrive wait h =>
    subst h
    exact .inl (List.mem_append_left _ hw)
  | answer t a h =>
    by_cases ht : w.ticket = t
    · exact .inr ⟨a, ht ▸ h⟩
    · refine .inl ?_
      rw [h.waiting]
      exact List.mem_filter.2 ⟨hw, bne_iff_ne.2 ht⟩
  | rest h => exact .inl (h.waiting ▸ hw)

/-- A taker that finds the queue empty and not shut goes on waiting. -/
theorem step_wake_of_empty {s : Attendance ω} (t : Nat) (hempty : s.hall.queue.entries = [])
    (hshut : s.hall.queue.isShut = false) : s.step (.wake t) = s := by
  have hready : s.hall.isReady = false := by simp [Hall.isReady, hempty, hshut]
  rw [step, Hall.wake, hready, Bool.and_false, if_neg Bool.false_ne_true]

/-- If all operations are different, each was given to one taker. -/
theorem eq_of_answers {s : Attendance ω} (hs : s.Sound) (hnodup : s.accepted.Nodup) {t t' : Nat}
    {op : Operation ω} (h : (t, some op) ∈ s.hall.answers) (h' : (t', some op) ∈ s.hall.answers) :
    t = t' := by
  have hreturned : s.returned.Nodup := by
    have hall := hs.operations.nodup_iff.2 hnodup
    rw [List.append_assoc] at hall
    exact (List.nodup_append.1 hall).1
  have hpairwise := List.pairwise_filterMap.1 hreturned
  have hsymm : Std.Symm fun (e e' : Nat × Option (Operation ω)) =>
      ∀ op, e.2 = some op → ∀ op', e'.2 = some op' → op ≠ op' :=
    ⟨fun _ _ hne op hop op' hop' => (hne op' hop' op hop).symm⟩
  by_contra hne
  have hdistinct : (t, some op) ≠ (t', some op) := fun heq => hne (Prod.mk.inj heq).1
  exact hpairwise.forall h h' hdistinct op rfl op rfl rfl

/-- What can be relied on after some moves, when `run` tells what comes of moves. -/
structure Orderly (run : List (HallMove ω) → Attendance ω) (ms : List (HallMove ω)) : Prop where
  /-- An answer is the head of the queue at the move in which it is given. It is nothing only if the
  queue is empty then, and shut or the taker's deadline has passed. -/
  answered : ∀ t a, (t, a) ∈ (run ms).hall.answers →
    ∃ before m after, ms = before ++ m :: after ∧ (run before).Answered m t a
  /-- Who waits without a deadline gives up only once the queue has been shut. -/
  patient : ∀ t taker, (run ms).takers[t]? = some taker → taker.deadline? = none →
    (t, none) ∈ (run ms).hall.answers → ∃ before m after, ms = before ++ m :: after ∧
      (run before).Answered m t none ∧ (run before).hall.queue.isShut = true
  /-- Each taker that has come waits or has one answer. -/
  tickets : ((run ms).tickets ++ (run ms).hall.answers.map (·.1)).Perm
    (List.range (run ms).takers.length)
  /-- Each operation that was taken in is in the queue, was removed, or was given to one taker. -/
  operations : ((run ms).returned ++ (run ms).removed ++ (run ms).hall.queue.entries).Perm
    (run ms).accepted
  own : (run ms).accepted.Nodup → ∀ t t' op, (t, some op) ∈ (run ms).hall.answers →
    (t', some op) ∈ (run ms).hall.answers → t = t'
  /-- Whatever comes next, who waits goes on waiting or gets an answer. -/
  goesOn : ∀ m, ∀ w ∈ (run ms).hall.waiting,
    w ∈ ((run ms).step m).hall.waiting ∨ ∃ a, (run ms).Answered m w.ticket a
  /-- Who wakes up and need not wait gets an answer. -/
  woken : ∀ t ∈ (run ms).tickets, (run ms).hall.isReady = true →
    ∃ a, (run ms).Answered (.wake t) t a
  /-- Who wakes up for an operation that somebody else has taken goes back to waiting. -/
  inVain : ∀ t, (run ms).hall.queue.entries = [] → (run ms).hall.queue.isShut = false →
    (run ms).step (.wake t) = run ms

/-- However long the takers would wait and whatever happens in a hall, it happens in order. -/
theorem orderly_run (capacity : Nat) (ms : List (HallMove ω)) :
    Orderly (start capacity).run ms := by
  have hs (ms : List (HallMove ω)) : ((start capacity).run ms).Sound :=
    sound_run (sound_start capacity) ms
  have hanswered (t : Nat) (a : Option (Operation ω))
      (h : (t, a) ∈ ((start capacity).run ms).hall.answers) : ∃ before m after,
        ms = before ++ m :: after ∧ ((start capacity).run before).Answered m t a :=
    (exists_answered (sound_start capacity) h).resolve_left fun hnone => nomatch hnone
  constructor
  case answered => exact hanswered
  case patient =>
    intro t taker htaker hnone h
    obtain ⟨before, m, after, rfl, hans⟩ := hanswered t none h
    refine ⟨before, m, after, rfl, hans, (hans.reason rfl).resolve_right ?_⟩
    rintro ⟨taker', d, htaker', hd, -⟩
    obtain ⟨later, hlater⟩ := takers_prefix_run (hs before) (m :: after)
    have hlt := (List.getElem?_eq_some_iff.1 htaker').1
    rw [run_append, ← hlater, List.getElem?_append_left hlt, htaker'] at htaker
    obtain rfl := Option.some.inj htaker
    cases hnone.symm.trans hd
  case tickets => exact (hs ms).tickets
  case operations => exact (hs ms).operations
  case own => exact fun hnodup t t' op => eq_of_answers (hs ms) hnodup
  case goesOn => exact fun m w hw => goesOn (hs ms) m hw
  case woken => exact fun t hwaits hready => ⟨_, answered_of_wake hwaits hready⟩
  case inVain => exact fun t => step_wake_of_empty t

/-- Two takers wait for one operation. The first gets it, and the second wakes up in vain. -/
example :
    let op : Operation Unit := { id := ⟨"a", by decide, by decide⟩, created := default, work := () }
    let s := (start 1).run [.arrive (.ofSecs 1), .arrive (.ofSecs 1), .wake 0, .enqueue op, .wake 0,
      .wake 1]
    s.hall.answers.map (·.1) = [0] ∧ s.returned.map (·.id) = [op.id] ∧ s.tickets = [1] := by
  decide +kernel

end Attendance

end Upkeep.Queue
