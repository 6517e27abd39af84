import Mathlib.Algebra.GroupWithZero.Nat
import Mathlib.Data.List.Perm.Basic
import Upkeep.Proofs.Queue.Order

/-!
# What a queue tells, and what becomes of operations

**Views.** A queue keeps the identifiers of its entries a second time, and answers questions from
one or the other. All that it tells is true of its entries (`Truthful`): what it contains, how many
entries of each priority it has and for how long the oldest has waited, what comes next, and why an
operation is refused, which is the first reason that applies (`refusal?_eq`).

**Accounts.** Along a run it is noted which operations were taken in, dequeued and removed
(`accepted`, `dequeued`, `removed`). One call makes one `Change`, which moves at most one operation
(`Change.entries`), so what was taken in is what is queued and what came out (`moved_run`). Once a
queue is shut nothing is taken in, and the rest comes out in its order (`shut_run`).
`accountable_run` says all this of every run from an empty queue.
-/

namespace Upkeep

namespace Queue

variable {ω : Type} {q : Queue ω} {op : Operation ω}

/-! ## Refusals -/

/-- The reasons to refuse an operation, the first one first. -/
def Refusal.all : List Refusal := [.shutDown, .duplicate, .full]

/-- A reason speaks against an operation. -/
def Refusal.applies (q : Queue ω) (op : Operation ω) : Refusal → Bool
  | .shutDown => q.isShut
  | .duplicate => op.id ∈ q.ids
  | .full => q.capacity ≤ q.size

theorem refusal?_eq (h : q.WellFormed) (op : Operation ω) :
    q.refusal? op = Refusal.all.find? (·.applies q op) := by
  have hknown : op.id ∈ q.known ↔ op.id ∈ q.ids := h.known.mem_iff
  unfold refusal?
  by_cases hshut : q.isShut
  · simp [Refusal.all, Refusal.applies, hshut]
  by_cases hin : op.id ∈ q.ids
  · simp [Refusal.all, Refusal.applies, hshut, hknown, hin]
  by_cases hfull : q.capacity ≤ q.entries.length
  · simp [Refusal.all, Refusal.applies, size, hshut, hknown, hin, hfull]
  · simp [Refusal.all, Refusal.applies, size, hshut, hknown, hin, hfull]

/-! ## Bands -/

/-- The priorities, sorted by name. -/
def byName : List Priority := [.critical, .high, .low, .normal]

theorem bands_eq (q : Queue ω) :
    q.bands = (byName.filter fun p => q.bandSize p ≠ 0).map fun p => (p.name, q.bandSize p) := by
  have hlist (ps : List Priority) :
      (ps.filterMap fun p => if q.bandSize p = 0 then none else some (p.name, q.bandSize p)) =
        (ps.filter fun p => q.bandSize p ≠ 0).map fun p => (p.name, q.bandSize p) := by
    induction ps with
    | nil => rfl
    | cons p r ih => by_cases hp : q.bandSize p = 0 <;> simp [hp, ih]
  exact hlist byName

theorem mem_bands {name : String} {n : Nat} : (name, n) ∈ q.bands ↔
    ∃ p : Priority, p.name = name ∧ q.bandSize p = n ∧ n ≠ 0 := by
  have hall (p : Priority) : p ∈ byName := by cases p <;> decide
  rw [bands_eq, List.mem_map]
  constructor
  · rintro ⟨p, hp, heq⟩
    obtain ⟨rfl, rfl⟩ := Prod.mk.inj heq
    exact ⟨p, rfl, rfl, of_decide_eq_true (List.mem_filter.1 hp).2⟩
  · rintro ⟨p, rfl, rfl, hn⟩
    exact ⟨p, List.mem_filter.2 ⟨hall p, decide_eq_true hn⟩, rfl⟩

/-- Bands are told once each, sorted by name. -/
theorem pairwise_bands (q : Queue ω) : (q.bands.map Prod.fst).Pairwise (· < ·) := by
  have hsorted : (byName.map Priority.name).Pairwise (· < ·) := by decide
  have hnames : q.bands.map Prod.fst =
      (byName.filter fun p => q.bandSize p ≠ 0).map Priority.name := by
    rw [bands_eq, List.map_map]
    rfl
  rw [hnames]
  exact hsorted.sublist (List.filter_sublist.map _)

theorem sum_bandSize (q : Queue ω) : (byName.map q.bandSize).sum = q.size := by
  have hlist (es : List (Operation ω)) :
      (byName.map fun p => es.countP (·.priority = p)).sum = es.length := by
    induction es with
    | nil => rfl
    | cons e r ih =>
      rw [List.length_cons, ← ih]
      cases hp : e.priority <;> simp [byName, hp] <;> omega
  exact hlist q.entries

theorem sum_bands (q : Queue ω) : (q.bands.map Prod.snd).sum = q.size := by
  have hlist (ps : List Priority) :
      ((ps.filter fun p => q.bandSize p ≠ 0).map q.bandSize).sum = (ps.map q.bandSize).sum := by
    induction ps with
    | nil => rfl
    | cons p r ih => by_cases hp : q.bandSize p = 0 <;> simpa [hp] using ih
  rw [← sum_bandSize, ← hlist, bands_eq, List.map_map]
  rfl

/-! ## Ages -/

theorem foldl_oldest (now : Timestamp) (es : List (Operation ω)) (d : Duration) :
    let oldest := es.foldl (fun d op =>
      if d < op.created.elapsedTo now then op.created.elapsedTo now else d) d
    ¬oldest < d ∧ (∀ op ∈ es, ¬oldest < op.created.elapsedTo now) ∧
      (oldest = d ∨ ∃ op ∈ es, oldest = op.created.elapsedTo now) := by
  induction es generalizing d with
  | nil => exact ⟨Nat.lt_irrefl _, List.forall_mem_nil _, .inl rfl⟩
  | cons e r ih =>
    intro oldest
    obtain ⟨hfirst, hrest, hsome⟩ :=
      ih (if d < e.created.elapsedTo now then e.created.elapsedTo now else d)
    change ¬oldest < _ at hfirst
    change ∀ op ∈ r, ¬oldest < _ at hrest
    change oldest = _ ∨ ∃ op ∈ r, oldest = _ at hsome
    split at hfirst
    · rename_i hlt
      rw [if_pos hlt] at hsome
      refine ⟨fun h => hfirst (Nat.lt_trans h hlt), List.forall_mem_cons.2 ⟨hfirst, hrest⟩, .inr ?_⟩
      rcases hsome with hown | ⟨op, hop, hage⟩
      · exact ⟨e, List.mem_cons_self, hown⟩
      · exact ⟨op, List.mem_cons_of_mem e hop, hage⟩
    · rename_i hle
      rw [if_neg hle] at hsome
      refine ⟨hfirst, List.forall_mem_cons.2 ⟨fun h => ?_, hrest⟩, hsome.imp_right ?_⟩
      · exact hfirst (Nat.lt_of_lt_of_le h (Nat.le_of_not_lt hle))
      · rintro ⟨op, hop, hage⟩
        exact ⟨op, List.mem_cons_of_mem e hop, hage⟩

/-- Nothing has waited longer than the oldest, which is an entry unless there is none. -/
theorem oldestAge_spec (q : Queue ω) (now : Timestamp) :
    (∀ op ∈ q.entries, ¬q.oldestAge now < op.created.elapsedTo now) ∧
      if q.entries = [] then q.oldestAge now = .zero
      else ∃ op ∈ q.entries, q.oldestAge now = op.created.elapsedTo now := by
  obtain ⟨-, hall, hsome⟩ := foldl_oldest now q.entries .zero
  refine ⟨hall, ?_⟩
  by_cases hnil : q.entries = []
  · rw [if_pos hnil, oldestAge, hnil]
    rfl
  rw [if_neg hnil]
  rcases hsome with hzero | hsome
  · -- No entry has waited at all, so each of them is an oldest one.
    obtain ⟨op, hop⟩ := List.exists_mem_of_ne_nil _ hnil
    have hage : (op.created.elapsedTo now).nanos = 0 := by
      have hle := Nat.le_of_not_lt (hall op hop)
      rw [hzero] at hle
      exact Nat.le_zero.1 hle
    refine ⟨op, hop, hzero.trans ?_⟩
    rw [Duration.zero, Duration.mk.injEq, hage]
  · exact hsome

/-! ## What a queue tells -/

/-- What a queue tells is true of its entries. -/
structure Truthful (capacity : Nat) (q : Queue ω) : Prop where
  /-- The identifiers are kept twice, and are the same. -/
  known : q.known.Perm q.ids
  distinct : q.ids.Nodup
  size_le : q.size ≤ capacity
  contains : ∀ i, q.contains i = true ↔ ∃ op ∈ q.entries, op.id = i
  ids : q.ids = q.entries.map (·.id)
  size : q.size = q.entries.length
  peek : q.peek? = q.dequeue?.map (·.1.summary)
  bandSize : ∀ p, q.bandSize p = (q.entries.filter (·.priority = p)).length
  info : ∀ now, q.info now = ⟨q.entries.length, capacity, q.bands, q.oldestAge now⟩
  /-- Each priority that some entry has is told once, with the number of these entries. -/
  bands : (q.bands.map Prod.fst).Pairwise (· < ·) ∧ (∀ name n, (name, n) ∈ q.bands ↔
    ∃ p : Priority, p.name = name ∧ q.bandSize p = n ∧ n ≠ 0) ∧
      (q.bands.map Prod.snd).sum = q.size
  oldest : ∀ now, (∀ op ∈ q.entries, ¬q.oldestAge now < op.created.elapsedTo now) ∧
    if q.entries = [] then q.oldestAge now = .zero
    else ∃ op ∈ q.entries, q.oldestAge now = op.created.elapsedTo now
  taken : ∀ op, (∃ q', q.enqueue op = .ok q') ↔
    q.isShut = false ∧ op.id ∉ q.ids ∧ q.size < capacity
  /-- A refused operation is given back with the first reason that applies. -/
  refused : ∀ op why back, q.enqueue op = .error (why, back) ↔
    back = op ∧ Refusal.all.find? (·.applies q op) = some why

theorem WellFormed.truthful (h : q.WellFormed) : q.Truthful q.capacity := by
  constructor
  case known => exact h.known
  case distinct => exact h.nodup
  case size_le => exact h.size_le
  case contains =>
    intro i
    rw [Queue.contains, decide_eq_true_iff, h.known.mem_iff, Queue.ids, List.mem_map]
  case ids => rfl
  case size => rfl
  case peek =>
    unfold peek? Queue.dequeue?
    cases q.entries <;> rfl
  case bandSize => exact fun p => List.countP_eq_length_filter
  case info => exact fun now => rfl
  case bands => exact ⟨pairwise_bands q, fun name n => mem_bands, sum_bands q⟩
  case oldest => exact oldestAge_spec q
  case taken =>
    intro op
    rw [exists_enqueue_iff, refusal?_eq_none_iff, h.known.mem_iff]
    rfl
  case refused =>
    intro op why back
    rw [← refusal?_eq h]
    rcases q.enqueue_cases op with ⟨hnone, hok⟩ | ⟨why', hwhy, herror⟩
    · simp [hnone, hok]
    · simp [hwhy, herror, and_comm, eq_comm]

/-! ## What becomes of operations -/

/-- What a call does to a queue, with the operation that it takes in, dequeues or removes. -/
inductive Change (q : Queue ω) :
    Option (Operation ω) → Option (Operation ω) → Option (Operation ω) → Queue ω → Prop
  | accept {op : Operation ω} {q' : Queue ω} (h : q.enqueue op = .ok q') :
      Change q (some op) none none q'
  | dequeue {op : Operation ω} {q' : Queue ω} (h : q.dequeue? = some (op, q')) :
      Change q none (some op) none q'
  | remove {i : OperationId} {op : Operation ω} {q' : Queue ω} (h : q.remove? i = some (op, q')) :
      Change q none none (some op) q'
  | keep : Change q none none none q
  | taskDone : Change q none none none q.taskDone
  | shut : Change q none none none q.shut

namespace Change

variable {q' : Queue ω} {accepted dequeued removed : Option (Operation ω)}

/-- A call moves at most one operation, into the queue or out of it. -/
theorem entries (h : q.Change accepted dequeued removed q') :
    (q'.entries ++ dequeued.toList ++ removed.toList).Perm (q.entries ++ accepted.toList) := by
  cases h with
  | @accept op _ h =>
    show (q'.entries ++ [] ++ []).Perm (q.entries ++ [op])
    rw [List.append_nil, List.append_nil]
    exact (entries_of_enqueue h).trans (List.perm_append_singleton op _).symm
  | @dequeue op _ h =>
    show (q'.entries ++ [op] ++ []).Perm (q.entries ++ [])
    rw [entries_of_dequeue? h, List.append_nil, List.append_nil]
    exact List.perm_append_singleton op _
  | @remove i op _ h =>
    show (q'.entries ++ [] ++ [op]).Perm (q.entries ++ [])
    rw [List.append_nil, List.append_nil]
    exact (List.perm_append_singleton op _).trans (entries_of_remove? h).symm
  | keep | taskDone | shut => exact .of_eq (List.append_nil _)

theorem capacity (h : q.Change accepted dequeued removed q') : q'.capacity = q.capacity := by
  cases h with
  | accept h =>
    obtain ⟨-, rfl⟩ := enqueue_eq_ok h
    rfl
  | dequeue h =>
    obtain ⟨_, -, rfl⟩ := dequeue?_eq_some h
    rfl
  | remove h =>
    obtain ⟨-, _, _, -, rfl⟩ := remove?_eq_some h
    rfl
  | keep | taskDone | shut => rfl

/-- A queue that is shut stays so, takes nothing in, and gives out its entries in their order. -/
theorem ofShut (h : q.Change accepted dequeued removed q') (hshut : q.isShut = true) :
    q'.isShut = true ∧ accepted = none ∧ (dequeued.toList ++ q'.entries).Sublist q.entries := by
  cases h with
  | accept h =>
    rw [Queue.enqueue, refusal?, if_pos hshut] at h
    cases h
  | dequeue h =>
    obtain ⟨rest, hentries, rfl⟩ := dequeue?_eq_some h
    refine ⟨hshut, rfl, ?_⟩
    rw [hentries]
    exact .refl _
  | remove h =>
    obtain ⟨-, before, after, hentries, rfl⟩ := remove?_eq_some h
    refine ⟨hshut, rfl, ?_⟩
    rw [hentries]
    exact (List.sublist_cons_self _ _).append_left before
  | keep | taskDone => exact ⟨hshut, rfl, .refl _⟩
  | shut => exact ⟨rfl, rfl, .refl _⟩

end Change

namespace Line

variable {s : Line ω} {c : Call ω}

/-- The operation that a call offers to the queue. -/
def offered? (s : Line ω) : Call ω → Option (Operation ω)
  | .enqueue op => some op
  | .requeue k => s.hand[k]?
  | .dequeue | .remove _ | .taskDone | .shut => none

/-- The operation that a call brings into the queue. -/
def accepted? (s : Line ω) (c : Call ω) : Option (Operation ω) :=
  (s.offered? c).filter fun op => (s.queue.enqueue op).isOk

def dequeued? (s : Line ω) : Call ω → Option (Operation ω)
  | .dequeue => s.queue.dequeue?.map (·.1)
  | .enqueue _ | .requeue _ | .remove _ | .taskDone | .shut => none

def removed? (s : Line ω) : Call ω → Option (Operation ω)
  | .remove i => (s.queue.remove? i).map (·.1)
  | .enqueue _ | .dequeue | .requeue _ | .taskDone | .shut => none

/-- What some calls move, one after the other. -/
def moved (which : Line ω → Call ω → Option (Operation ω)) (s : Line ω) :
    List (Call ω) → List (Operation ω)
  | [] => []
  | c :: cs => (which s c).toList ++ moved which (s.call c) cs

def accepted : Line ω → List (Call ω) → List (Operation ω) := moved accepted?

def dequeued : Line ω → List (Call ω) → List (Operation ω) := moved dequeued?

def removed : Line ω → List (Call ω) → List (Operation ω) := moved removed?

theorem queue_offer (s : Line ω) (op : Operation ω) :
    (s.offer op).queue = ((s.queue.enqueue op).toOption).getD s.queue := by
  unfold offer
  cases s.queue.enqueue op <;> rfl

theorem queue_call_of_offered? (h : s.offered? c = some op) :
    (s.call c).queue = ((s.queue.enqueue op).toOption).getD s.queue := by
  cases c with
  | enqueue op' =>
    cases h
    exact s.queue_offer op
  | requeue k =>
    rw [Line.call, show s.hand[k]? = some op from h]
    exact queue_offer { s with hand := s.hand.eraseIdx k } op
  | _ => cases h

theorem queue_call_of_refused (hop : s.offered? c = some op) (h : s.accepted? c = none) :
    (s.call c).queue = s.queue := by
  rw [queue_call_of_offered? hop]
  rw [accepted?, hop, Option.filter_some] at h
  cases hcall : s.queue.enqueue op with
  | ok q =>
    rw [hcall] at h
    cases h
  | error e => rfl

theorem change_call (s : Line ω) (c : Call ω) :
    s.queue.Change (s.accepted? c) (s.dequeued? c) (s.removed? c) (s.call c).queue := by
  have hoffer {op : Operation ω} (hop : s.offered? c = some op) :
      s.queue.Change (s.accepted? c) none none (s.call c).queue := by
    rw [queue_call_of_offered? hop, accepted?, hop, Option.filter_some]
    cases hcall : s.queue.enqueue op with
    | ok q => exact .accept hcall
    | error e => exact .keep
  cases c with
  | enqueue op => exact hoffer rfl
  | dequeue =>
    rw [Line.call, dequeued?]
    cases hcall : s.queue.dequeue? with
    | none => exact .keep
    | some taken => exact .dequeue hcall
  | requeue k =>
    cases hk : s.hand[k]? with
    | none =>
      rw [Line.call, accepted?, offered?, hk]
      exact .keep
    | some op => exact hoffer hk
  | remove i =>
    rw [Line.call, removed?]
    cases hcall : s.queue.remove? i with
    | none => exact .keep
    | some taken => exact .remove hcall
  | taskDone => exact .taskDone
  | shut => exact .shut

/-- What two moves bring in and out, one after the other. -/
theorem perm_moves {α : Type} {now next last out out' gone gone' new new' : List α}
    (h : (next ++ out ++ gone).Perm (now ++ new))
    (h' : (last ++ out' ++ gone').Perm (next ++ new')) :
    (last ++ (out ++ out') ++ (gone ++ gone')).Perm (now ++ (new ++ new')) := by
  classical
  rw [List.perm_iff_count] at h h' ⊢
  intro a
  have hfirst := h a
  have hrest := h' a
  simp only [List.count_append] at hfirst hrest ⊢
  omega

/-- What was queued or taken in is queued, or was dequeued or removed. -/
theorem moved_run (s : Line ω) (cs : List (Call ω)) :
    ((s.run cs).queue.entries ++ s.dequeued cs ++ s.removed cs).Perm
      (s.queue.entries ++ s.accepted cs) := by
  induction cs generalizing s with
  | nil =>
    show (s.queue.entries ++ [] ++ []).Perm (s.queue.entries ++ [])
    rw [List.append_nil, List.append_nil]
  | cons c cs ih => exact perm_moves (s.change_call c).entries (ih (s.call c))

/-! ## A queue that is shut -/

theorem shut_run (h : s.queue.isShut = true) (cs : List (Call ω)) :
    s.accepted cs = [] ∧ (s.dequeued cs ++ (s.run cs).queue.entries).Sublist s.queue.entries := by
  induction cs generalizing s with
  | nil => exact ⟨rfl, .refl _⟩
  | cons c cs ih =>
    obtain ⟨hshut, hnone, hfirst⟩ := (s.change_call c).ofShut h
    obtain ⟨hnothing, hrest⟩ := ih hshut
    constructor
    · show (s.accepted? c).toList ++ (s.call c).accepted cs = []
      rw [hnone, hnothing]
      rfl
    · show ((s.dequeued? c).toList ++ (s.call c).dequeued cs ++
        ((s.call c).run cs).queue.entries).Sublist _
      rw [List.append_assoc]
      exact (hrest.append_left _).trans hfirst

/-! ## Runs -/

/-- What comes of a run from an empty queue. -/
structure Accountable (capacity : Nat) (cs : List (Call ω)) (s : Line ω) : Prop where
  truthful : s.queue.Truthful capacity
  /-- A call that offers an operation in vain leaves the queue alone. -/
  unchanged : ∀ c op, s.offered? c = some op → s.accepted? c = none →
    (s.call c).queue = s.queue
  /-- What was taken in is queued, or was dequeued or removed. -/
  conserved : (accepted { queue := { capacity } } cs).Perm
    (s.queue.entries ++ dequeued { queue := { capacity } } cs ++
      removed { queue := { capacity } } cs)
  /-- Emptying the queue gives what is left, in its order. -/
  drained : s.queue.drain = s.queue.entries
  /-- Once the queue is shut, nothing is taken in any more, and what was left is still there or came
  out, in its order. -/
  afterShut : s.queue.isShut = true → ∀ cs', s.accepted cs' = [] ∧
    (s.dequeued cs' ++ (s.run cs').queue.entries).Sublist s.queue.entries ∧
    s.queue.entries.Perm ((s.run cs').queue.entries ++ s.dequeued cs' ++ s.removed cs')

theorem capacity_run (s : Line ω) (cs : List (Call ω)) :
    (s.run cs).queue.capacity = s.queue.capacity := by
  induction cs generalizing s with
  | nil => rfl
  | cons c cs ih => exact (ih (s.call c)).trans (s.change_call c).capacity

/-- Whatever is done to a queue, what it tells is true of its entries, and no operation is lost or
doubled. -/
theorem accountable_run (capacity : Nat) (cs : List (Call ω)) :
    Accountable capacity cs (run { queue := { capacity } } cs) := by
  have hwellFormed := (sorted_run (sorted_empty capacity) cs).wellFormed
  have hcapacity : (run { queue := { capacity } } cs).queue.capacity = capacity :=
    capacity_run { queue := { capacity } } cs
  constructor
  case truthful =>
    have htruthful := hwellFormed.truthful
    rwa [hcapacity] at htruthful
  case unchanged => exact fun c op => queue_call_of_refused
  case conserved => exact (moved_run { queue := { capacity } } cs).symm
  case drained => exact drain_eq _
  case afterShut =>
    intro hshut cs'
    obtain ⟨hnothing, horder⟩ := shut_run hshut cs'
    have hmoved := (run { queue := { capacity } } cs).moved_run cs'
    rw [hnothing, List.append_nil] at hmoved
    exact ⟨hnothing, horder, hmoved.symm⟩

end Line

end Queue

end Upkeep
