import Mathlib.Data.List.Pairwise
import Upkeep.Proofs.Queue.Entries

/-!
# The order of a queue

**Lines.** A `Line` is a queue with a record of what came to it and has not left, in the order of
arrival, and with what its users have taken out and may put back. Each operation that is taken in
gets the next number, whether it is new or comes back.

**The order.** One arrival stands before another if it is more urgent, or as urgent and earlier
(`Arrival.Before`). In every line that calls can lead to, the queue is the record sorted by that
order (`sorted_run`): a newcomer finds its place without disturbing the others (`exists_placed`),
and one that leaves takes only itself away (`Sorted.takeOut`).

**What follows.** `inOrder_run` reads off what a user sees: the list of identifiers, the next
operation, who is taken in and where, a removal, and that emptying the queue gives the stable sort
of the record by urgency.
-/

namespace Upkeep

theorem Priority.eq_of_not_lt {a b : Priority} (hab : ¬a < b) (hba : ¬b < a) : a = b := by
  cases a <;> cases b <;> first | rfl | exact absurd (by decide) hab | exact absurd (by decide) hba

theorem Priority.not_lt_of_lt {a b : Priority} (h : a < b) : ¬b < a := Nat.lt_asymm h

namespace Queue

variable {ω : Type}

/-- An operation that was taken in, with the number of its arrival. -/
structure Arrival (ω : Type) where
  number : Nat
  op : Operation ω

/-- One arrival is served before another. -/
def Arrival.Before (a b : Arrival ω) : Prop :=
  b.op.priority < a.op.priority ∨ a.op.priority = b.op.priority ∧ a.number < b.number

theorem Arrival.Before.asymm {a b : Arrival ω} (hab : a.Before b) (hba : b.Before a) : False := by
  rcases hab with hlt | ⟨hsame, hlt⟩ <;> rcases hba with hlt' | ⟨hsame', hlt'⟩
  · exact Nat.lt_asymm hlt hlt'
  · exact Nat.lt_irrefl _ (hsame' ▸ hlt)
  · exact Nat.lt_irrefl _ (hsame ▸ hlt')
  · exact Nat.lt_asymm hlt hlt'

/-- What is done to a queue. -/
inductive Call (ω : Type) where
  | enqueue (op : Operation ω)
  | dequeue
  /-- Puts back one of the operations that were taken out. -/
  | requeue (k : Nat)
  | remove (i : OperationId)
  | taskDone
  | shut

/-- A queue, and a record of its arrivals. -/
structure Line (ω : Type) where
  queue : Queue ω
  /-- How many operations have been taken in. -/
  arrivals : Nat := 0
  /-- What has come and not left, the earliest first. -/
  live : List (Arrival ω) := []
  /-- What was taken out and not put back. -/
  hand : List (Operation ω) := []

/-- Takes out operations until there are none. -/
def drain (q : Queue ω) : List (Operation ω) :=
  match _ : q.dequeue? with
  | none => []
  | some (op, q') => op :: q'.drain
termination_by q.entries.length
decreasing_by
  rename_i h
  obtain ⟨rest, hentries, rfl⟩ := dequeue?_eq_some h
  rw [hentries]
  exact Nat.lt_succ_self _

theorem drain_eq (q : Queue ω) : q.drain = q.entries := by
  fun_induction drain q with
  | case1 q h => exact (dequeue?_eq_none_iff.1 h).symm
  | case2 q op q' h ih =>
    obtain ⟨rest, hentries, rfl⟩ := dequeue?_eq_some h
    rw [ih, hentries]

/-- An operation may come out before another. -/
def mayPrecede (a b : Operation ω) : Bool := !(a.priority < b.priority)

theorem mayPrecede_iff {a b : Operation ω} : mayPrecede a b ↔ ¬a.priority < b.priority := by
  simp [mayPrecede]

theorem mayPrecede_trans {a b c : Operation ω} (hab : mayPrecede a b) (hbc : mayPrecede b c) :
    mayPrecede a c := by
  rw [mayPrecede_iff] at hab hbc ⊢
  exact fun hac => hbc (Nat.lt_of_le_of_lt (Nat.le_of_not_lt hab) hac)

theorem mayPrecede_total (a b : Operation ω) : mayPrecede a b || mayPrecede b a := by
  rw [Bool.or_eq_true, mayPrecede_iff, mayPrecede_iff, ← not_and_or]
  exact fun h => Nat.lt_asymm h.1 h.2

/-- Among more urgent operations and the rest, a newcomer is placed between the two. -/
theorem place_eq_filter {l : List (Operation ω)} (h : l.Pairwise (mayPrecede · ·))
    (op : Operation ω) :
    place op l = l.filter (mayPrecede · op) ++ op :: l.filter (!mayPrecede · op) := by
  induction l with
  | nil => rfl
  | cons e r ih =>
    obtain ⟨her, hr⟩ := List.pairwise_cons.1 h
    rw [place]
    by_cases hlt : e.priority < op.priority
    · have hnone : ∀ b ∈ e :: r, mayPrecede b op = false := by
        intro b hb
        rw [Bool.eq_false_iff, ne_eq, mayPrecede_iff, not_not]
        rcases List.mem_cons.1 hb with rfl | hbr
        · exact hlt
        · exact Nat.lt_of_le_of_lt (Nat.le_of_not_lt (mayPrecede_iff.1 (her b hbr))) hlt
      rw [if_pos hlt, List.filter_eq_nil_iff.2 fun b hb => by simp [hnone b hb],
        List.filter_eq_self.2 fun b hb => by simp [hnone b hb], List.nil_append]
    · have hmay : mayPrecede e op = true := mayPrecede_iff.2 hlt
      rw [if_neg hlt, ih hr, List.filter_cons, if_pos hmay, List.cons_append, List.filter_cons,
        if_neg (by simp [hmay])]

namespace Line

/-- An operation is offered to the queue. -/
def offer (s : Line ω) (op : Operation ω) : Line ω :=
  match s.queue.enqueue op with
  | .ok queue =>
    { s with queue, arrivals := s.arrivals + 1, live := s.live ++ [⟨s.arrivals, op⟩] }
  | .error _ => s

/-- An operation, if any, has been taken out of the queue. -/
def takeOut (s : Line ω) : Option (Operation ω × Queue ω) → Line ω
  | none => s
  | some (op, queue) =>
    { s with queue, live := s.live.eraseP (·.op.id = op.id), hand := s.hand ++ [op] }

/-- The line after a call. -/
def call (s : Line ω) : Call ω → Line ω
  | .enqueue op => s.offer op
  | .dequeue => s.takeOut s.queue.dequeue?
  | .requeue k =>
    match s.hand[k]? with
    | none => s
    | some op => { s with hand := s.hand.eraseIdx k }.offer op
  | .remove i => s.takeOut (s.queue.remove? i)
  | .taskDone => { s with queue := s.queue.taskDone }
  | .shut => { s with queue := s.queue.shut }

/-- The line after some calls. -/
def run (s : Line ω) (cs : List (Call ω)) : Line ω := cs.foldl call s

/-! ## The queue is the record, sorted -/

/-- The queue is the record of arrivals, sorted. -/
structure Sorted (s : Line ω) : Prop where
  wellFormed : s.queue.WellFormed
  sorted : ∃ as : List (Arrival ω),
    as.Perm s.live ∧ as.Pairwise Arrival.Before ∧ as.map (·.op) = s.queue.entries
  numbered : s.live.Pairwise (·.number < ·.number)
  recent : ∀ a ∈ s.live, a.number < s.arrivals

/-- A newcomer finds its place among sorted arrivals. -/
theorem exists_placed {as : List (Arrival ω)} (has : as.Pairwise Arrival.Before) {new : Arrival ω}
    (hnew : ∀ a ∈ as, a.number < new.number) :
    ∃ as' : List (Arrival ω), as'.Perm (new :: as) ∧ as'.Pairwise Arrival.Before ∧
      as'.map (·.op) = place new.op (as.map (·.op)) := by
  induction as with
  | nil => exact ⟨[new], .refl _, List.pairwise_singleton _ _, rfl⟩
  | cons a r ih =>
    obtain ⟨har, hr⟩ := List.pairwise_cons.1 has
    rw [List.map_cons, place]
    by_cases hlt : a.op.priority < new.op.priority
    · refine ⟨new :: a :: r, .refl _, List.pairwise_cons.2 ⟨fun b hb => .inl ?_, has⟩, ?_⟩
      · rcases List.mem_cons.1 hb with rfl | hbr
        · exact hlt
        · rcases har b hbr with hbelow | ⟨hsame, -⟩
          · exact Nat.lt_trans hbelow hlt
          · rwa [← hsame]
      · rw [if_pos hlt]
        rfl
    · obtain ⟨r', hperm, hr', hmap⟩ := ih hr fun b hb => hnew b (List.mem_cons_of_mem a hb)
      refine ⟨a :: r', (hperm.cons a).trans (.swap new a r),
        List.pairwise_cons.2 ⟨fun b hb => ?_, hr'⟩, ?_⟩
      · rcases List.mem_cons.1 (hperm.mem_iff.1 hb) with rfl | hbr
        · by_cases hgt : b.op.priority < a.op.priority
          · exact .inl hgt
          · exact .inr ⟨Priority.eq_of_not_lt hlt hgt, hnew a List.mem_cons_self⟩
        · exact har b hbr
      · rw [if_neg hlt, List.map_cons, hmap]

variable {s : Line ω}

theorem Sorted.perm (h : s.Sorted) : (s.live.map (·.op)).Perm s.queue.entries := by
  obtain ⟨as, hperm, -, hmap⟩ := h.sorted
  exact hmap ▸ (hperm.map (·.op)).symm

/-- The arrivals of a record bear distinct identifiers. -/
theorem Sorted.nodup (h : s.Sorted) : (s.live.map (·.op.id)).Nodup := by
  have hids : (s.live.map (·.op.id)).Perm s.queue.ids := by
    have := h.perm.map Operation.id
    rwa [List.map_map] at this
  exact hids.nodup_iff.2 h.wellFormed.nodup

theorem Sorted.offer (h : s.Sorted) (op : Operation ω) : (s.offer op).Sorted := by
  unfold Line.offer
  split
  · rename_i queue hok
    obtain ⟨as, hperm, hbefore, hmap⟩ := h.sorted
    have hnew : ∀ a ∈ as, a.number < (⟨s.arrivals, op⟩ : Arrival ω).number :=
      fun a ha => h.recent a (hperm.mem_iff.1 ha)
    obtain ⟨as', hperm', hbefore', hmap'⟩ := exists_placed hbefore hnew
    constructor
    case wellFormed => exact h.wellFormed.enqueue hok
    case sorted =>
      refine ⟨as', ?_, hbefore', ?_⟩
      · exact (hperm'.trans (hperm.cons _)).trans (List.perm_append_singleton _ _).symm
      · obtain ⟨-, rfl⟩ := enqueue_eq_ok hok
        rw [hmap', hmap]
    case numbered =>
      refine List.pairwise_append.2 ⟨h.numbered, List.pairwise_singleton _ _, ?_⟩
      intro a ha b hb
      rw [List.mem_singleton.1 hb]
      exact h.recent a ha
    case recent =>
      intro a ha
      rcases List.mem_append.1 ha with hold | hnew
      · exact Nat.lt_succ_of_lt (h.recent a hold)
      · rw [List.mem_singleton.1 hnew]
        exact Nat.lt_succ_self _
  · exact h

/-- An entry leaves the queue, and its arrival the record. -/
theorem Sorted.takeOut (h : s.Sorted) {op : Operation ω} {queue : Queue ω}
    {before after : List (Operation ω)} (hqueue : queue.WellFormed)
    (hentries : s.queue.entries = before ++ op :: after)
    (hleft : queue.entries = before ++ after) : (s.takeOut (some (op, queue))).Sorted := by
  obtain ⟨as, hperm, hbefore, hmap⟩ := h.sorted
  obtain ⟨as₁, as', rfl, hmap₁, hmap'⟩ := List.map_eq_append_iff.1 (hmap.trans hentries)
  obtain ⟨a, as₂, rfl, rfl, hmap₂⟩ := List.map_eq_cons_iff.1 hmap'
  have hsublist : (s.live.eraseP (·.op.id = a.op.id)).Sublist s.live := List.eraseP_sublist
  constructor
  case wellFormed => exact hqueue
  case sorted =>
    refine ⟨as₁ ++ as₂, ?_, ?_, ?_⟩
    · have hdistinct : s.live.Pairwise fun b c =>
          decide (b.op.id = a.op.id) → decide (c.op.id = a.op.id) → False := by
        refine (List.pairwise_map.1 h.nodup).imp fun hne hb hc => hne ?_
        rw [of_decide_eq_true hb, of_decide_eq_true hc]
      have herase := (hperm.symm.trans List.perm_middle).eraseP _ hdistinct
      rw [List.eraseP_cons, decide_eq_true rfl, cond_true] at herase
      exact herase.symm
    · exact hbefore.sublist ((List.sublist_cons_self a as₂).append_left as₁)
    · rw [List.map_append, hmap₁, hmap₂]
      exact hleft.symm
  case numbered => exact h.numbered.sublist hsublist
  case recent => exact fun b hb => h.recent b (hsublist.subset hb)

theorem Sorted.call (h : s.Sorted) (c : Call ω) : (s.call c).Sorted := by
  cases c with
  | enqueue op => exact h.offer op
  | dequeue =>
    rw [Line.call]
    cases hcall : s.queue.dequeue? with
    | none => exact h
    | some taken =>
      obtain ⟨rest, hentries, hqueue⟩ := dequeue?_eq_some hcall
      have hsplit : s.queue.entries = [] ++ taken.1 :: rest := hentries
      exact h.takeOut (h.wellFormed.dequeue? hcall) hsplit (by rw [hqueue]; rfl)
  | requeue k =>
    rw [Line.call]
    split
    · exact h
    · exact Sorted.offer (s := { s with hand := s.hand.eraseIdx k })
        ⟨h.wellFormed, h.sorted, h.numbered, h.recent⟩ _
  | remove i =>
    rw [Line.call]
    cases hcall : s.queue.remove? i with
    | none => exact h
    | some taken =>
      obtain ⟨-, before, after, hentries, hqueue⟩ := remove?_eq_some hcall
      exact h.takeOut (h.wellFormed.remove? hcall) hentries (by rw [hqueue])
  | taskDone => exact ⟨h.wellFormed.taskDone, h.sorted, h.numbered, h.recent⟩
  | shut => exact ⟨h.wellFormed.shut, h.sorted, h.numbered, h.recent⟩

theorem sorted_run (h : s.Sorted) (cs : List (Call ω)) : (s.run cs).Sorted := by
  induction cs generalizing s with
  | nil => exact h
  | cons c cs ih => exact ih (h.call c)

theorem sorted_empty (capacity : Nat) : Sorted { queue := { capacity } : Line ω } where
  wellFormed := .empty capacity
  sorted := ⟨[], .refl _, .nil, rfl⟩
  numbered := .nil
  recent := fun _ ha => absurd ha List.not_mem_nil

/-! ## What a user sees -/

/-- The operation of one arrival may come out before that of another. -/
def urgency (a b : Arrival ω) : Bool := mayPrecede a.op b.op

/-- A record, sorted by urgency alone. -/
def byUrgency (as : List (Arrival ω)) : List (Arrival ω) := as.mergeSort urgency

theorem urgency_trans (a b c : Arrival ω) (hab : urgency a b) (hbc : urgency b c) : urgency a c :=
  mayPrecede_trans hab hbc

theorem urgency_total (a b : Arrival ω) : urgency a b || urgency b a := mayPrecede_total a.op b.op

theorem map_byUrgency (as : List (Arrival ω)) :
    (byUrgency as).map (·.op) = (as.map (·.op)).mergeSort mayPrecede :=
  List.map_mergeSort fun _ _ _ _ => rfl

/-- Sorting by urgency keeps the order among operations of one priority. -/
theorem filter_byUrgency (as : List (Arrival ω)) (p : Priority) :
    (byUrgency as).filter (·.op.priority = p) = as.filter (·.op.priority = p) := by
  have hband : (as.filter (·.op.priority = p)).Pairwise (urgency · ·) := by
    refine List.pairwise_of_forall_mem_list fun a ha b hb => mayPrecede_iff.2 ?_
    have hap : a.op.priority = p := of_decide_eq_true (List.mem_filter.1 ha).2
    have hbp : b.op.priority = p := of_decide_eq_true (List.mem_filter.1 hb).2
    rw [hap, hbp]
    exact Nat.lt_irrefl _
  have hsublist : (as.filter (·.op.priority = p)).Sublist (byUrgency as) :=
    List.sublist_mergeSort urgency_trans urgency_total hband List.filter_sublist
  have hfilter := hsublist.filter (·.op.priority = p)
  rw [List.filter_filter] at hfilter
  simp only [Bool.and_self] at hfilter
  refine (hfilter.eq_of_length ?_).symm
  exact ((List.mergeSort_perm as _).filter _).length_eq.symm

/-- Sorted by urgency, a record is in the order of service. -/
theorem before_byUrgency {as : List (Arrival ω)} (h : as.Pairwise (·.number < ·.number)) :
    (byUrgency as).Pairwise Arrival.Before := by
  refine List.pairwise_iff_forall_sublist.2 fun {a b} hab => ?_
  have hle : urgency a b :=
    List.pairwise_iff_forall_sublist.1 (List.pairwise_mergeSort urgency_trans urgency_total as) hab
  by_cases hlt : b.op.priority < a.op.priority
  · exact .inl hlt
  · have hsame := Priority.eq_of_not_lt (mayPrecede_iff.1 hle) hlt
    -- Both are in one band, which the sort has left as it was.
    have hband := hab.filter (·.op.priority = b.op.priority)
    rw [filter_byUrgency, List.filter_eq_self.2 (by simp [hsame])] at hband
    exact .inr ⟨hsame, List.pairwise_iff_forall_sublist.1 h (hband.trans List.filter_sublist)⟩

/-- The queue is the record, sorted by urgency. -/
theorem Sorted.entries_eq (h : s.Sorted) : s.queue.entries = (byUrgency s.live).map (·.op) := by
  obtain ⟨as, hperm, hbefore, hmap⟩ := h.sorted
  have hsame : as = byUrgency s.live := by
    refine List.Perm.eq_of_pairwise (fun a b _ _ hab hba => (hab.asymm hba).elim) hbefore
      (before_byUrgency h.numbered) (hperm.trans (List.mergeSort_perm _ _).symm)
  rw [← hmap, hsame]

/-- What a user sees of a line. -/
structure InOrder (s : Line ω) : Prop where
  /-- The numbers of arrival are distinct, and those to come are greater. -/
  numbers : s.live.Pairwise (·.number < ·.number) ∧ ∀ a ∈ s.live, a.number < s.arrivals
  distinct : (s.live.map (·.op.id)).Nodup
  /-- The identifiers stand by priority and then by arrival. -/
  ids : ∃ as : List (Arrival ω), as.Perm s.live ∧ as.Pairwise Arrival.Before ∧
    s.queue.ids = as.map (·.op.id)
  /-- Nothing comes out only if nothing is there. -/
  nothing : s.queue.dequeue? = none ↔ s.live = []
  /-- What comes out stands before everything else. -/
  next : ∀ op queue, s.queue.dequeue? = some (op, queue) → ∃ a ∈ s.live, a.op = op ∧
    (∀ b ∈ s.live, ¬op.priority < b.op.priority) ∧
      ∀ b ∈ s.live, b.op.priority = op.priority → a.number ≤ b.number
  /-- An operation is taken in unless the queue is shut, has its identifier, or is full. -/
  taken : ∀ op, (∃ queue, s.queue.enqueue op = .ok queue) ↔
    s.queue.isShut = false ∧ op.id ∉ s.queue.ids ∧ s.queue.size < s.queue.capacity
  /-- Whoever is taken in, for the first time or again, stands behind those that may precede it. -/
  newcomer : ∀ op queue, s.queue.enqueue op = .ok queue → queue.entries =
    s.queue.entries.filter (mayPrecede · op) ++ op :: s.queue.entries.filter (!mayPrecede · op)
  /-- Whoever is removed leaves the rest as it stands. -/
  removed : ∀ i op queue, s.queue.remove? i = some (op, queue) → op.id = i ∧
    ∃ before after, s.queue.entries = before ++ op :: after ∧ queue.entries = before ++ after
  absent : ∀ i, s.queue.remove? i = none ↔ i ∉ s.queue.ids
  /-- Emptying the queue is a stable sort of the record. -/
  drained : s.queue.drain = (s.live.map (·.op)).mergeSort mayPrecede

theorem Sorted.inOrder (h : s.Sorted) : s.InOrder := by
  obtain ⟨as, hperm, hbefore, hmap⟩ := h.sorted
  have hentries : s.queue.entries.Pairwise (mayPrecede · ·) := by
    rw [← hmap, List.pairwise_map]
    refine hbefore.imp fun {a b} hab => mayPrecede_iff.2 ?_
    rcases hab with hlt | ⟨hsame, -⟩
    · exact Priority.not_lt_of_lt hlt
    · exact hsame ▸ Nat.lt_irrefl _
  constructor
  case numbers => exact ⟨h.numbered, h.recent⟩
  case distinct => exact h.nodup
  case ids =>
    refine ⟨as, hperm, hbefore, ?_⟩
    rw [Queue.ids, ← hmap, List.map_map]
    rfl
  case nothing =>
    rw [dequeue?_eq_none_iff, ← hmap, List.map_eq_nil_iff]
    exact ⟨fun hnil => (hnil ▸ hperm).nil_eq.symm, fun hnil => (hnil ▸ hperm).eq_nil⟩
  case next =>
    intro op queue hsome
    obtain ⟨rest, hcons, -⟩ := dequeue?_eq_some hsome
    obtain ⟨a, r, rfl, rfl, -⟩ := List.map_eq_cons_iff.1 (hmap.trans hcons)
    have hothers := (List.pairwise_cons.1 hbefore).1
    refine ⟨a, hperm.mem_iff.1 List.mem_cons_self, rfl, fun b hb => ?_, fun b hb hsame => ?_⟩
    · rcases List.mem_cons.1 (hperm.mem_iff.2 hb) with rfl | hbr
      · exact Nat.lt_irrefl _
      · rcases hothers b hbr with hlt | ⟨hsame, -⟩
        · exact Priority.not_lt_of_lt hlt
        · exact hsame ▸ Nat.lt_irrefl _
    · rcases List.mem_cons.1 (hperm.mem_iff.2 hb) with rfl | hbr
      · exact Nat.le_refl _
      · rcases hothers b hbr with hlt | ⟨-, hlt⟩
        · exact absurd (hsame ▸ hlt) (Nat.lt_irrefl _)
        · exact Nat.le_of_lt hlt
  case taken =>
    intro op
    rw [exists_enqueue_iff, refusal?_eq_none_iff, h.wellFormed.known.mem_iff]
    rfl
  case newcomer =>
    intro op queue hok
    obtain ⟨-, rfl⟩ := enqueue_eq_ok hok
    exact place_eq_filter hentries op
  case removed =>
    intro i op queue hsome
    obtain ⟨hid, before, after, hsplit, rfl⟩ := remove?_eq_some hsome
    exact ⟨hid, before, after, hsplit, rfl⟩
  case absent => exact fun i => remove?_eq_none_iff
  case drained => rw [drain_eq, h.entries_eq, map_byUrgency]

/-- Whatever is done to a queue, it serves the more urgent first and then the earlier. -/
theorem inOrder_run (capacity : Nat) (cs : List (Call ω)) :
    (run { queue := { capacity } } cs).InOrder :=
  (sorted_run (sorted_empty capacity) cs).inOrder

end Line

end Queue

end Upkeep
