import Mathlib.Data.List.Nodup
import Mathlib.Data.List.Perm.Basic
import Upkeep.Queue.Basic

/-!
# The entries of a queue

What each call does to the entries of a queue: a newcomer stands among the others without changing
their order, the next operation is the head, and a removed one leaves the rest as it stands.

A queue knows the identifiers of its entries, and no two entries share one (`Queue.WellFormed`).
Every call keeps that.
-/

namespace Upkeep

namespace Queue

variable {ω : Type} {q q' : Queue ω} {op : Operation ω}

/-! ## Calls -/

theorem place_perm (op : Operation ω) (l : List (Operation ω)) : (place op l).Perm (op :: l) := by
  induction l with
  | nil => exact .refl _
  | cons e r ih =>
    rw [place]
    split
    · exact .refl _
    · exact (ih.cons e).trans (.swap op e r)

/-- A queue takes an operation in, or gives it back for a reason. -/
theorem enqueue_cases (q : Queue ω) (op : Operation ω) :
    (q.refusal? op = none ∧ q.enqueue op =
      .ok { q with entries := place op q.entries, known := op.id :: q.known }) ∨
    ∃ why, q.refusal? op = some why ∧ q.enqueue op = .error (why, op) := by
  unfold enqueue
  cases h : q.refusal? op with
  | none => exact .inl ⟨rfl, rfl⟩
  | some why => exact .inr ⟨why, rfl, rfl⟩

theorem enqueue_eq_ok (h : q.enqueue op = .ok q') :
    q.refusal? op = none ∧
      q' = { q with entries := place op q.entries, known := op.id :: q.known } := by
  rcases q.enqueue_cases op with ⟨hnone, hok⟩ | ⟨why, -, herror⟩
  · exact ⟨hnone, (Except.ok.inj (hok.symm.trans h)).symm⟩
  · cases herror.symm.trans h

theorem exists_enqueue_iff : (∃ q', q.enqueue op = .ok q') ↔ q.refusal? op = none := by
  constructor
  · rintro ⟨q', hok⟩
    exact (enqueue_eq_ok hok).1
  · intro hnone
    rcases q.enqueue_cases op with ⟨-, hok⟩ | ⟨why, hwhy, -⟩
    · exact ⟨_, hok⟩
    · cases hnone.symm.trans hwhy

theorem enqueue_eq_error {why : Refusal} {op' : Operation ω}
    (h : q.enqueue op = .error (why, op')) : op' = op := by
  rcases q.enqueue_cases op with ⟨-, hok⟩ | ⟨why', -, herror⟩
  · cases hok.symm.trans h
  · exact (Prod.mk.inj (Except.error.inj (herror.symm.trans h))).2.symm

/-- An operation is refused only by a queue that is shut, knows its identifier, or is full. -/
theorem refusal?_eq_none_iff : q.refusal? op = none ↔
    q.isShut = false ∧ op.id ∉ q.known ∧ q.entries.length < q.capacity := by
  unfold refusal?
  split
  · rename_i hshut
    simp [hshut]
  · split
    · rename_i hknown
      simp [hknown]
    · rename_i hshut hknown
      rw [← Nat.not_le]
      split <;> rename_i hfull <;> simp [hshut, hknown, hfull]

theorem dequeue?_eq_none_iff : q.dequeue? = none ↔ q.entries = [] := by
  unfold dequeue?
  cases q.entries <;> simp

theorem dequeue?_eq_some (h : q.dequeue? = some (op, q')) :
    ∃ rest, q.entries = op :: rest ∧ q' = { q with
      entries := rest, known := q.known.erase op.id, checkedOut := q.checkedOut + 1 } := by
  unfold dequeue? at h
  split at h
  · cases h
  · rename_i rest hentries
    cases h
    exact ⟨rest, hentries, rfl⟩

theorem remove?_eq_none_iff {i : OperationId} : q.remove? i = none ↔ i ∉ q.ids := by
  have hfind : q.remove? i = none ↔ q.entries.find? (·.id = i) = none := by
    unfold remove?
    split <;> simp_all
  rw [hfind, List.find?_eq_none, ids, List.mem_map]
  simp

theorem remove?_eq_some {i : OperationId} (h : q.remove? i = some (op, q')) :
    op.id = i ∧ ∃ before after, q.entries = before ++ op :: after ∧ q' = { q with
      entries := before ++ after, known := q.known.erase i } := by
  unfold remove? at h
  split at h
  · cases h
  · rename_i found hfind
    cases h
    obtain ⟨hid, before, after, hentries, hbefore⟩ := List.find?_eq_some_iff_append.1 hfind
    refine ⟨of_decide_eq_true hid, before, after, hentries, ?_⟩
    have herase : q.entries.eraseP (·.id = i) = before ++ after := by
      rw [hentries, List.eraseP_append_right _ fun e he => by simpa using hbefore e he,
        List.eraseP_cons, hid, cond_true]
    rw [herase]

/-! ## What comes and goes -/

theorem entries_of_enqueue (h : q.enqueue op = .ok q') : q'.entries.Perm (op :: q.entries) := by
  obtain ⟨-, rfl⟩ := enqueue_eq_ok h
  exact place_perm op q.entries

theorem entries_of_dequeue? (h : q.dequeue? = some (op, q')) : q.entries = op :: q'.entries := by
  obtain ⟨rest, hentries, rfl⟩ := dequeue?_eq_some h
  exact hentries

theorem entries_of_remove? {i : OperationId} (h : q.remove? i = some (op, q')) :
    q.entries.Perm (op :: q'.entries) := by
  obtain ⟨-, before, after, hentries, rfl⟩ := remove?_eq_some h
  rw [hentries]
  exact List.perm_middle

/-! ## Identifiers -/

theorem ids_of_enqueue (h : q.enqueue op = .ok q') : q'.ids.Perm (op.id :: q.ids) :=
  (entries_of_enqueue h).map Operation.id

theorem ids_of_dequeue? (h : q.dequeue? = some (op, q')) : q.ids = op.id :: q'.ids :=
  congrArg (List.map Operation.id) (entries_of_dequeue? h)

theorem ids_of_remove? {i : OperationId} (h : q.remove? i = some (op, q')) :
    q.ids.Perm (op.id :: q'.ids) :=
  (entries_of_remove? h).map Operation.id

/-- A queue knows its entries, which have distinct identifiers and do not exceed its capacity. -/
structure WellFormed (q : Queue ω) : Prop where
  known : q.known.Perm q.ids
  nodup : q.ids.Nodup
  size_le : q.size ≤ q.capacity

theorem WellFormed.empty (capacity : Nat) : WellFormed ({ capacity } : Queue ω) :=
  ⟨.nil, .nil, Nat.zero_le _⟩

/-- An operation that is taken in bears a new identifier. -/
theorem WellFormed.not_mem_ids (h : q.WellFormed) (hnone : q.refusal? op = none) :
    op.id ∉ q.ids := by
  rw [← h.known.mem_iff]
  exact (refusal?_eq_none_iff.1 hnone).2.1

theorem WellFormed.enqueue (h : q.WellFormed) (hok : q.enqueue op = .ok q') : q'.WellFormed := by
  obtain ⟨hnone, rfl⟩ := enqueue_eq_ok hok
  have hids : ((place op q.entries).map (·.id)).Perm (op.id :: q.ids) :=
    (place_perm op q.entries).map _
  constructor
  case known => exact (h.known.cons op.id).trans hids.symm
  case nodup => exact hids.nodup_iff.2 (List.nodup_cons.2 ⟨h.not_mem_ids hnone, h.nodup⟩)
  case size_le =>
    have hlt := (refusal?_eq_none_iff.1 hnone).2.2
    show (place op q.entries).length ≤ q.capacity
    rw [(place_perm op q.entries).length_eq, List.length_cons]
    exact hlt

/-- A queue without one of its entries, and without its identifier among the known ones. -/
theorem WellFormed.without (h : q.WellFormed) {before after : List (Operation ω)}
    (hentries : q.entries = before ++ op :: after) (n : Nat) :
    WellFormed { q with
      entries := before ++ after, known := q.known.erase op.id, checkedOut := n } := by
  have hids : q.ids.Perm (op.id :: (before ++ after).map (·.id)) := by
    rw [ids, hentries]
    exact List.perm_middle.map Operation.id
  constructor
  case known =>
    show (q.known.erase op.id).Perm ((before ++ after).map (·.id))
    have := (h.known.trans hids).erase op.id
    rwa [List.erase_cons_head] at this
  case nodup => exact (List.nodup_cons.1 (hids.nodup_iff.1 h.nodup)).2
  case size_le =>
    have hle : q.entries.length ≤ q.capacity := h.size_le
    rw [hentries, List.length_append, List.length_cons] at hle
    show (before ++ after).length ≤ q.capacity
    rw [List.length_append]
    omega

theorem WellFormed.dequeue? (h : q.WellFormed) (hsome : q.dequeue? = some (op, q')) :
    q'.WellFormed := by
  obtain ⟨rest, hentries, rfl⟩ := dequeue?_eq_some hsome
  have hsplit : q.entries = [] ++ op :: rest := hentries
  exact h.without hsplit _

theorem WellFormed.remove? (h : q.WellFormed) {i : OperationId}
    (hsome : q.remove? i = some (op, q')) : q'.WellFormed := by
  obtain ⟨rfl, before, after, hentries, rfl⟩ := remove?_eq_some hsome
  exact h.without hentries _

theorem WellFormed.taskDone (h : q.WellFormed) : q.taskDone.WellFormed :=
  ⟨h.known, h.nodup, h.size_le⟩

theorem WellFormed.shut (h : q.WellFormed) : q.shut.WellFormed := ⟨h.known, h.nodup, h.size_le⟩

end Queue

end Upkeep
