import Mathlib.Data.List.Flatten
import Upkeep.Coordinator.Status
import Upkeep.Proofs.Coordinator.Deeds

/-!
# The running operations

**Entries.** A worker enters its operation among the running ones before it takes the locks, and
removes the entry when it leaves the operation or has a conflict. Entries are kept by identifier,
so they can only be told apart as long as the operations in hand can.

**Distinct identifiers.** The queue refuses an identifier that is queued, but not one that a worker
has in hand. In a run in which nothing is taken in under such an identifier (`Scene.FreshIds`), all
unfinished operations have distinct identifiers, and the entries are exactly those of the operations
that have started and not ended (`Floor.Distinct`). No other run has that: every operation has its
own entry all the time exactly in these runs (`ownEntries_iff_freshIds`). Otherwise two callbacks
may share one entry (`exists_shared_entry`).
-/

namespace Upkeep

variable {ω : Type}

namespace Stance

/-- The identifier of the operation in hand. -/
def id? : Stance ω → Option OperationId
  | considering op | locking op _ | returning op | starting op | called op => some op.id
  | ending id _ => some id
  | free | losing | finishing => none

/-- The identifier of the operation in hand, once it is entered among the running ones. -/
def begun? : Stance ω → Option OperationId
  | locking op _ | starting op | called op => some op.id
  | ending id _ => some id
  | free | considering _ | returning _ | losing | finishing => none

/-- An entry is the one that the operation in hand was entered with. -/
def Entered : Stance ω → OperationId × Summary → Prop
  | locking op now, e => e = (op.id, { op with started := some now }.summary)
  | starting op, e => e = (op.id, op.summary)
  | called op, e => e.1 = op.id ∧ { e.2 with completed := op.completed } = op.summary
  | ending id _, e => e.1 = id
  | _, _ => False

theorem id?_of_begun? {st : Stance ω} {i : OperationId} (h : st.begun? = some i) :
    st.id? = some i := by
  cases st <;> first | exact h | cases h

theorem begun?_of_entered {st : Stance ω} {e : OperationId × Summary} (h : st.Entered e) :
    st.begun? = some e.1 := by
  cases st with
  | locking op now => rw [show e = _ from h, begun?]
  | starting op => rw [show e = _ from h, begun?]
  | called op => exact congrArg some h.1.symm
  | ending id verdict => exact congrArg some (show e.1 = id from h).symm
  | _ => exact h.elim

end Stance

namespace Books

/-- The identifiers of the running operations. -/
def keys (b : Books ω) : List OperationId := b.running.map (·.1)

theorem keys_leave (b : Books ω) (i : OperationId) : (b.leave i).keys = b.keys.filter (· != i) := by
  rw [keys, keys, leave, List.filter_map]
  rfl

theorem keys_leave_of_not_mem {b : Books ω} {i : OperationId} (h : i ∉ b.keys) :
    (b.leave i).keys = b.keys := by
  rw [keys_leave, List.filter_eq_self]
  intro j hj
  rw [bne_iff_ne]
  rintro rfl
  exact h hj

theorem perm_keys_leave {b : Books ω} {i : OperationId} (hnodup : b.keys.Nodup)
    (h : i ∈ b.keys) : (i :: (b.leave i).keys).Perm b.keys := by
  rw [keys_leave, ← hnodup.erase_eq_filter]
  exact (List.perm_cons_erase h).symm

theorem keys_enter (b : Books ω) (op : Submitted ω) :
    (b.enter op).keys = op.id :: (b.leave op.id).keys := rfl

theorem keys_leave_enter (b : Books ω) (op : Submitted ω) :
    ((b.enter op).leave op.id).keys = (b.leave op.id).keys := by
  rw [keys_leave, keys_enter, keys_leave]
  simp

end Books

/-! ## What a stride does to identifiers and entries -/

namespace Stride

variable {w : Nat} {d : Deed ω} {b b' : Books ω} {st st' : Stance ω}

theorem ids (h : Stride w d b st b' st') :
    ∃ lost, (b'.queue.ids ++ st'.id?.toList ++ lost).Perm (b.queue.ids ++ st.id?.toList) := by
  cases h with
  | take h =>
    refine ⟨[], ?_⟩
    rw [Queue.ids_of_dequeue? h, List.append_nil]
    exact (List.perm_append_singleton _ _).trans (.of_eq (List.append_nil _).symm)
  | putBack h =>
    refine ⟨[], ?_⟩
    show ((_ ++ []) ++ []).Perm _
    rw [List.append_nil, List.append_nil]
    exact (Queue.ids_of_enqueue h).trans (List.perm_append_singleton _ _).symm
  | lose _ op => exact ⟨[op.id], .of_eq (by rw [List.append_assoc]; rfl)⟩
  | leave _ id verdict => exact ⟨[id], .of_eq (by rw [List.append_assoc]; rfl)⟩
  | abandon op h =>
    refine ⟨[op.id], .of_eq ?_⟩
    rcases h with rfl | rfl <;> rw [List.append_assoc] <;> rfl
  | breakOff op h =>
    refine ⟨[], .of_eq ?_⟩
    rcases h with rfl | rfl <;> rw [List.append_nil] <;> rfl
  | _ => exact ⟨[], .of_eq (List.append_nil _)⟩

theorem wellFormed (h : Stride w d b st b' st') (hq : b.queue.WellFormed) :
    b'.queue.WellFormed := by
  cases h with
  | take h => exact hq.dequeue? h
  | putBack h => exact hq.enqueue h
  | finish => exact hq.taskDone
  | _ => exact hq

/-- An operation that is not entered under its identifier is entered, or one that is leaves. -/
theorem keys (h : Stride w d b st b' st') (hnodup : b.keys.Nodup)
    (hbegun : ∀ i, st.begun? = some i → i ∈ b.keys)
    (hnew : ∀ i, st.id? = some i → st.begun? = none → i ∉ b.keys) :
    (b'.keys ++ st.begun?.toList).Perm (b.keys ++ st'.begun?.toList) := by
  cases h with
  | enter _ op now =>
    have hkeys := Books.keys_leave_of_not_mem (hnew op.id rfl rfl)
    rw [Books.keys_enter, hkeys]
    exact (.trans (.of_eq (List.append_nil _)) (List.perm_append_singleton _ _).symm)
  | startAtOnce _ op now =>
    have hkeys := Books.keys_leave_of_not_mem (hnew op.id rfl rfl)
    show ((b.enter { op with started := some now }).keys ++ []).Perm _
    rw [Books.keys_enter, hkeys]
    exact (.trans (.of_eq (List.append_nil _)) (List.perm_append_singleton _ _).symm)
  | conflictAtOnce _ op now =>
    have hkeys := Books.keys_leave_of_not_mem (hnew op.id rfl rfl)
    show (((b.enter { op with started := some now }).leave op.id).keys ++ []).Perm (b.keys ++ [])
    rw [Books.keys_leave_enter b { op with started := some now }, hkeys]
  | conflict _ op now =>
    exact (List.perm_append_singleton _ _).trans ((Books.perm_keys_leave hnodup
      (hbegun op.id rfl)).trans (.of_eq (List.append_nil _).symm))
  | leave _ id verdict =>
    exact (List.perm_append_singleton _ _).trans ((Books.perm_keys_leave hnodup
      (hbegun id rfl)).trans (.of_eq (List.append_nil _).symm))
  | breakOff op h => rcases h with rfl | rfl <;> exact .refl _
  | abandon op h => rcases h with rfl | rfl <;> exact .refl _
  | _ => exact .refl _

theorem mem_running (h : Stride w d b st b' st') {e : OperationId × Summary}
    (he : e ∈ b.running) (hother : st.id? ≠ some e.1) : e ∈ b'.running := by
  have hleave {i : OperationId} (hi : some i ≠ some e.1) : e ∈ (b.leave i).running := by
    refine List.mem_filter.2 ⟨he, bne_iff_ne.2 fun heq => hi (congrArg some heq.symm)⟩
  cases h with
  | enter _ op now => exact List.mem_cons_of_mem _ (hleave hother)
  | startAtOnce _ op now => exact List.mem_cons_of_mem _ (hleave hother)
  | conflictAtOnce _ op now =>
    refine List.mem_filter.2 ⟨List.mem_cons_of_mem _ (hleave hother), bne_iff_ne.2 ?_⟩
    exact fun heq => hother (congrArg some heq.symm)
  | conflict _ op now => exact hleave hother
  | leave _ id verdict => exact hleave hother
  | _ => exact he

/-- The entry of an operation stays until the operation leaves or has a conflict. -/
theorem entered (h : Stride w d b st b' st')
    (hentered : st.begun?.isSome → ∃ e ∈ b.running, st.Entered e)
    (hbegun : st'.begun?.isSome) : ∃ e ∈ b'.running, st'.Entered e := by
  cases h with
  | rest => exact hentered hbegun
  | enter _ op now => exact ⟨_, List.mem_cons_self, rfl⟩
  | startAtOnce _ op now => exact ⟨_, List.mem_cons_self, rfl⟩
  | start _ op now =>
    obtain ⟨e, he, hentry⟩ := hentered rfl
    exact ⟨e, he, hentry⟩
  | call _ op now =>
    obtain ⟨e, he, rfl⟩ := hentered rfl
    exact ⟨_, he, rfl, rfl⟩
  | decide _ op verdict =>
    obtain ⟨e, he, hentry⟩ := hentered rfl
    exact ⟨e, he, hentry.1⟩
  | breakOff op h =>
    rcases h with rfl | rfl
    · obtain ⟨e, he, rfl⟩ := hentered rfl
      exact ⟨_, he, rfl⟩
    · obtain ⟨e, he, hentry⟩ := hentered rfl
      exact ⟨e, he, hentry.1⟩
  | _ => cases hbegun

/-- An entry that appears is that of the operation that the worker was about to start. -/
theorem enters (h : Stride w d b st b' st') {e : OperationId × Summary} (he : e ∈ b'.running)
    (hnew : e ∉ b.running) : ∃ op now, st = .considering op ∧
      e = (op.id, { op with started := some now }.summary) ∧ st'.Entered e := by
  cases h with
  | enter _ op now =>
    rcases List.mem_cons.1 he with rfl | he
    · exact ⟨op, now, rfl, rfl, rfl⟩
    · exact absurd (List.mem_of_mem_filter he) hnew
  | startAtOnce _ op now =>
    rcases List.mem_cons.1 he with rfl | he
    · exact ⟨op, now, rfl, rfl, rfl⟩
    · exact absurd (List.mem_of_mem_filter he) hnew
  | conflictAtOnce _ op now =>
    obtain ⟨he, hne⟩ := List.mem_filter.1 he
    rcases List.mem_cons.1 he with rfl | he
    · exact absurd rfl (bne_iff_ne.1 hne)
    · exact absurd (List.mem_of_mem_filter he) hnew
  | conflict _ op now => exact absurd (List.mem_of_mem_filter he) hnew
  | leave _ id verdict => exact absurd (List.mem_of_mem_filter he) hnew
  | _ => exact absurd he hnew

/-- An entry that disappears was that of the worker's own operation, which it leaves or for which it
has a conflict, or it has the identifier of an operation that is not entered. -/
theorem leaves (h : Stride w d b st b' st') {e : OperationId × Summary} (he : e ∈ b.running)
    (hgone : e ∉ b'.running) :
    (∃ verdict, st = .ending e.1 verdict ∧ st' = .finishing) ∨
    (∃ op now, st = .locking op now ∧ op.id = e.1 ∧ st' = .returning op) ∨
    st.id? = some e.1 ∧ st.begun? = none := by
  have hid : st.id? = some e.1 := by
    by_contra hother
    exact hgone (h.mem_running he hother)
  cases h with
  | enter _ op now => exact .inr (.inr ⟨hid, rfl⟩)
  | startAtOnce _ op now => exact .inr (.inr ⟨hid, rfl⟩)
  | conflictAtOnce _ op now => exact .inr (.inr ⟨hid, rfl⟩)
  | conflict _ op now => exact .inr (.inl ⟨op, now, rfl, Option.some.inj hid, rfl⟩)
  | leave _ id verdict =>
    obtain rfl : id = e.1 := Option.some.inj hid
    exact .inl ⟨verdict, rfl, rfl⟩
  | _ => exact absurd he hgone

end Stride

/-! ## Distinct identifiers -/

namespace Floor

variable {f f' : Floor ω} {d : Deed ω}

/-- The identifiers of the operations in hand. -/
def inHand (f : Floor ω) : List OperationId := f.gather (·.id?.toList)

/-- The identifiers of the operations in hand that are entered among the running ones. -/
def begun (f : Floor ω) : List OperationId := f.gather (·.begun?.toList)

/-- Nothing is taken in under the identifier of an operation in hand. -/
def Fresh (f : Floor ω) : Deed ω → Prop
  | .accept sub => ∀ i ∈ f.inHand, i.text ≠ sub.request.id
  | _ => True

instance (f : Floor ω) : (d : Deed ω) → Decidable (f.Fresh d)
  | .accept sub => inferInstanceAs (Decidable (∀ i ∈ f.inHand, i.text ≠ sub.request.id))
  | .quiet | .cancel _ | .take .. | .putBack _ | .drop _ | .call .. | .leave .. | .breakdown _ =>
    .isTrue trivial

/-- All unfinished operations have distinct identifiers, and the entries are those of the operations
that have started and have not ended. -/
structure Distinct (f : Floor ω) : Prop where
  queue : f.books.queue.WellFormed
  nodup : (f.books.queue.ids ++ f.inHand).Nodup
  keys : f.books.keys.Perm f.begun
  entered : ∀ w < f.size, (f.stance w).begun?.isSome →
    ∃ e ∈ f.books.running, (f.stance w).Entered e

theorem mem_begun {i : OperationId} :
    i ∈ f.begun ↔ ∃ w < f.size, (f.stance w).begun? = some i := by
  simp [begun, mem_gather]

theorem begun_sublist_inHand (f : Floor ω) : f.begun.Sublist f.inHand := by
  refine List.Sublist.flatMap_right _ fun w _ => ?_
  show (f.stance w).begun?.toList.Sublist (f.stance w).id?.toList
  cases h : (f.stance w).begun? with
  | none => exact List.nil_sublist _
  | some i => rw [Stance.id?_of_begun? h]

namespace Distinct

/-- The operations in hand have distinct identifiers. -/
theorem eq_of_id? (h : f.Distinct) {v w : Nat} {i : OperationId} (hv : v < f.size)
    (hw : w < f.size) (hiv : (f.stance v).id? = some i) (hiw : (f.stance w).id? = some i) :
    v = w :=
  eq_of_nodup_gather (g := (·.id?.toList)) (List.nodup_append.1 h.nodup).2.1 hv hw
    (Option.mem_toList.2 hiv) (Option.mem_toList.2 hiw)

theorem nodup_keys (h : f.Distinct) : f.books.keys.Nodup :=
  h.keys.nodup_iff.2 (f.begun_sublist_inHand.nodup (List.nodup_append.1 h.nodup).2.1)

/-- An operation that is not entered bears no identifier of a running one. -/
theorem not_mem_keys (h : f.Distinct) {w : Nat} {i : OperationId} (hw : w < f.size)
    (hi : (f.stance w).id? = some i) (hnone : (f.stance w).begun? = none) : i ∉ f.books.keys := by
  intro hkey
  obtain ⟨v, hv, hbegun⟩ := mem_begun.1 (h.keys.mem_iff.1 hkey)
  obtain rfl : v = w := h.eq_of_id? hv hw (Stance.id?_of_begun? hbegun) hi
  rw [hnone] at hbegun
  cases hbegun

/-- The entry of an operation's identifier is that of the operation. -/
theorem entered_of_mem (h : f.Distinct) {w : Nat} (hw : w < f.size) {e : OperationId × Summary}
    (he : e ∈ f.books.running) (hbegun : (f.stance w).begun? = some e.1) :
    (f.stance w).Entered e := by
  obtain ⟨e', he', hentered⟩ := h.entered w hw (by rw [hbegun]; rfl)
  have hsame : e'.1 = e.1 :=
    Option.some.inj ((Stance.begun?_of_entered hentered).symm.trans hbegun)
  rwa [List.inj_on_of_nodup_map h.nodup_keys he' he hsame] at hentered

theorem exists_entered (h : f.Distinct) {e : OperationId × Summary} (he : e ∈ f.books.running) :
    ∃ w < f.size, (f.stance w).Entered e := by
  have hkey : e.1 ∈ f.books.keys := List.mem_map_of_mem he
  obtain ⟨w, hw, hbegun⟩ := mem_begun.1 (h.keys.mem_iff.1 hkey)
  exact ⟨w, hw, h.entered_of_mem hw he hbegun⟩

theorem stride (h : f.Distinct) {w : Nat} (hw : w < f.size) {b : Books ω} {st : Stance ω}
    (hstride : Stride w d f.books (f.stance w) b st) : (f.stride w b st).Distinct := by
  obtain ⟨lost, hids⟩ := hstride.ids
  constructor
  case queue => exact hstride.wellFormed h.queue
  case nodup =>
    rw [← List.append_nil (f.books.queue.ids ++ _)] at hids
    have hall := f.exchange hw (g := (·.id?.toList)) b hids
    rw [List.append_nil] at hall
    exact (List.nodup_append.1 (hall.nodup_iff.2 h.nodup)).1
  case keys =>
    have hkeys := hstride.keys h.nodup_keys
      (fun i hi => h.keys.mem_iff.2 (mem_begun.2 ⟨w, hw, hi⟩))
      fun i hi hnone => h.not_mem_keys hw hi hnone
    have hbegun := f.gather_stride hw (·.begun?.toList) b st
    have hold := h.keys
    rw [begun] at hold
    show b.keys.Perm ((f.stride w b st).gather (·.begun?.toList))
    rw [List.perm_iff_count] at hkeys hbegun hold ⊢
    intro a
    have hkeys := hkeys a
    have hbegun := hbegun a
    have hold := hold a
    simp only [List.count_append] at hkeys hbegun
    omega
  case entered =>
    intro v hv hsome
    by_cases hvw : v = w
    · subst hvw
      rw [f.stance_stride_self] at hsome ⊢
      exact hstride.entered (h.entered v hw) hsome
    · rw [f.stance_stride_of_ne hvw] at hsome ⊢
      obtain ⟨e, he, hentered⟩ := h.entered v hv hsome
      refine ⟨e, hstride.mem_running he fun hi => hvw ?_, hentered⟩
      have hbegun := Stance.begun?_of_entered hentered
      exact h.eq_of_id? hv hw (Stance.id?_of_begun? hbegun) hi

end Distinct

/-- A step that takes in nothing under an identifier in hand keeps the identifiers distinct. -/
theorem Step.distinct (hstep : f.Step d f') (hfresh : f.Fresh d) (h : f.Distinct) :
    f'.Distinct := by
  cases hstep with
  | idle => exact h
  | refuse => exact ⟨h.queue, h.nodup, h.keys, h.entered⟩
  | @accept sub op q hticket hop hok =>
    have hids : q.ids.Perm (op.id :: f.books.queue.ids) := Queue.ids_of_enqueue hok
    have hnew : op.id ∉ f.books.queue.ids ++ f.inHand := by
      rw [List.mem_append]
      rintro (hqueued | hhand)
      · exact h.queue.not_mem_ids (Queue.enqueue_eq_ok hok).1 hqueued
      · exact hfresh op.id hhand hop.id
    refine ⟨h.queue.enqueue hok, ?_, h.keys, h.entered⟩
    exact (hids.append_right f.inHand).nodup_iff.2 (List.nodup_cons.2 ⟨hnew, h.nodup⟩)
  | @cancel i op q hok =>
    have hids : f.books.queue.ids.Perm (op.id :: q.ids) := Queue.ids_of_remove? hok
    refine ⟨h.queue.remove? hok, ?_, h.keys, h.entered⟩
    exact (List.nodup_cons.1 ((hids.append_right f.inHand).nodup_iff.1 h.nodup)).2
  | shut => exact ⟨h.queue.shut, h.nodup, h.keys, h.entered⟩
  | work hw hstride => exact h.stride hw hstride

/-- What is taken in under an identifier in hand shares it. -/
theorem Step.fresh (hstep : f.Step d f') (h : (f'.books.queue.ids ++ f'.inHand).Nodup) :
    f.Fresh d := by
  cases hstep with
  | @accept sub op q hticket hop hok =>
    intro i hi htext
    have hids : q.ids.Perm (op.id :: f.books.queue.ids) := Queue.ids_of_enqueue hok
    have hqueued : op.id ∈ q.ids := hids.mem_iff.2 List.mem_cons_self
    have hsame : op.id = i := by
      rw [OperationId.mk.injEq]
      exact hop.id.trans htext.symm
    exact (List.nodup_append.1 h).2.2 op.id hqueued i hi hsame
  | @work w _ _ _ hw hstride =>
    generalize f.stance w = st at hstride
    cases hstride <;> trivial
  | _ => trivial

theorem Step.enters (hstep : f.Step d f') {e : OperationId × Summary}
    (he : e ∈ f'.books.running) (hnew : e ∉ f.books.running) :
    ∃ w op now, f.stance w = .considering op ∧
      e = (op.id, { op with started := some now }.summary) ∧ (f'.stance w).Entered e := by
  cases hstep with
  | @work w _ b st hw hstride =>
    obtain ⟨op, now, hstance, hentry, hentered⟩ := hstride.enters he hnew
    refine ⟨w, op, now, hstance, hentry, ?_⟩
    rwa [f.stance_stride_self]
  | _ => exact absurd he hnew

theorem Step.leaves (hstep : f.Step d f') (h : f.Distinct) {e : OperationId × Summary}
    (he : e ∈ f.books.running) (hgone : e ∉ f'.books.running) :
    ∃ w, (f.stance w).Entered e ∧
      ((∃ verdict, f.stance w = .ending e.1 verdict ∧ f'.stance w = .finishing) ∨
        ∃ op now, f.stance w = .locking op now ∧ f'.stance w = .returning op) := by
  cases hstep with
  | @work w _ b st hw hstride =>
    have hself := f.stance_stride_self w b st
    rcases hstride.leaves he hgone with
      ⟨verdict, hstance, hafter⟩ | ⟨op, now, hstance, hid, hafter⟩ | ⟨hid, hnone⟩
    · have hbegun : (f.stance w).begun? = some e.1 := by
        rw [hstance]
        rfl
      exact ⟨w, h.entered_of_mem hw he hbegun, .inl ⟨verdict, hstance, hself.trans hafter⟩⟩
    · have hbegun : (f.stance w).begun? = some e.1 := by
        rw [hstance]
        exact congrArg some hid
      exact ⟨w, h.entered_of_mem hw he hbegun, .inr ⟨op, now, hstance, hself.trans hafter⟩⟩
    · exact absurd (List.mem_map_of_mem he) (h.not_mem_keys hw hid hnone)
  | _ => exact absurd he hgone

end Floor

/-! ## Entries of operations -/

/-- The callback is being called. -/
def Phase.isCalling : Phase ω → Bool
  | running .. => true
  | _ => false

theorem Coordinator.runningOperations_status (c : Coordinator ω) (reading : UInt64)
    (now : Timestamp) : (c.status reading now).runningOperations = c.running.length := rfl

namespace Scene

variable {s : Scene ω} {ms : List (Move ω)}

/-- Nothing is taken in under the identifier of an operation that a worker has in hand. -/
def FreshIds (s : Scene ω) (ms : List (Move ω)) : Prop := s.Goes Floor.Fresh ms

instance (s : Scene ω) (ms : List (Move ω)) : Decidable (s.FreshIds ms) :=
  inferInstanceAs (Decidable (s.Goes _ ms))

/-- Every operation that has started and not ended has its own entry, and unfinished operations have
distinct identifiers. -/
structure OwnEntries (s : Scene ω) : Prop where
  entered : ∀ w, (s.stance w).begun?.isSome → ∃ e ∈ s.coordinator.running, (s.stance w).Entered e
  own : ∀ e ∈ s.coordinator.running, ∃! w, (s.stance w).Entered e
  /-- Those in the queue and those in hand. -/
  unfinished : (s.coordinator.queue.ids ++ s.floor.inHand).Nodup
  callbacks : ∀ reading now, s.coordinator.workers.countP Phase.isCalling ≤
    (s.coordinator.status reading now).runningOperations
  /-- Whatever comes next, an entry appears when its operation starts. -/
  enters : ∀ m, ∀ e ∈ (s.move m).coordinator.running, e ∉ s.coordinator.running →
    ∃ w op now, s.stance w = .considering op ∧
      e = (op.id, { op with started := some now }.summary) ∧ ((s.move m).stance w).Entered e
  /-- Whatever comes next, an entry disappears when its operation ends or has a conflict. -/
  leaves : ∀ m, ∀ e ∈ s.coordinator.running, e ∉ (s.move m).coordinator.running →
    ∃ w, (s.stance w).Entered e ∧
      ((∃ verdict, s.stance w = .ending e.1 verdict ∧ (s.move m).stance w = .finishing) ∨
        ∃ op now, s.stance w = .locking op now ∧ (s.move m).stance w = .returning op)

theorem stance_of_le (h : s.Accounted) {w : Nat} (hw : s.coordinator.workers.length ≤ w) :
    s.stance w = .free := by
  have hnone : s.coordinator.workers[w]? = none := List.getElem?_eq_none hw
  have hfree : s.lockingOf? w = none := by
    rw [Option.eq_none_iff_forall_ne_some]
    intro l hl
    obtain ⟨hlocking, rfl⟩ := lockingOf?_eq_some_iff.1 hl
    rw [(h.locking l hlocking).1] at hnone
    cases hnone
  rw [stance, hfree, hnone]
  rfl

theorem lt_of_begun? (h : s.Accounted) {w : Nat} {i : OperationId}
    (hi : (s.stance w).begun? = some i) : w < s.floor.size := by
  by_contra hle
  rw [stance_of_le h (Nat.le_of_not_lt hle)] at hi
  cases hi

theorem begun?_of_isCalling (h : s.Accounted) {w : Nat} {phase : Phase ω}
    (hw : s.coordinator.workers[w]? = some phase) (hcalling : phase.isCalling) :
    (s.stance w).begun?.isSome := by
  have hfree : s.lockingOf? w = none := by
    rw [Option.eq_none_iff_forall_ne_some]
    intro l hl
    obtain ⟨hlocking, rfl⟩ := lockingOf?_eq_some_iff.1 hl
    obtain rfl := Option.some.inj (hw.symm.trans (h.locking l hlocking).1)
    cases hcalling
  rw [stance_of_phase hfree hw]
  cases phase <;> first | rfl | cases hcalling

theorem countP_le_flatMap {α β : Type} {p : α → Bool} {l : List α} {g : Nat → List β}
    (h : ∀ (i : Nat) (a : α), l[i]? = some a → p a → g i ≠ []) :
    l.countP p ≤ ((List.range l.length).flatMap g).length := by
  induction l generalizing g with
  | nil => exact Nat.zero_le _
  | cons a l ih =>
    have hrest : l.countP p ≤ ((List.range l.length).flatMap fun i => g (i + 1)).length :=
      ih fun i b hb hp => h (i + 1) b hb hp
    have hhead : (if p a then 1 else 0) ≤ (g 0).length := by
      split
      · rename_i hp
        exact List.length_pos_of_ne_nil (h 0 a rfl hp)
      · exact Nat.zero_le _
    rw [List.length_cons, List.range_succ_eq_map, List.flatMap_cons, List.length_append,
      List.flatMap_map, List.countP_cons, Nat.add_comm]
    exact Nat.add_le_add hhead hrest

theorem ownEntries (h : s.Accounted) (hd : s.floor.Distinct) : s.OwnEntries := by
  constructor
  case entered =>
    intro w hw
    obtain ⟨i, hi⟩ := Option.isSome_iff_exists.1 hw
    exact hd.entered w (lt_of_begun? h hi) hw
  case own =>
    intro e he
    obtain ⟨w, hw, hentered⟩ := hd.exists_entered he
    refine ⟨w, hentered, fun v hv => ?_⟩
    have hbegun := Stance.begun?_of_entered hv
    exact hd.eq_of_id? (lt_of_begun? h hbegun) hw (Stance.id?_of_begun? hbegun)
      (Stance.id?_of_begun? (Stance.begun?_of_entered hentered))
  case unfinished => exact hd.nodup
  case callbacks =>
    intro reading now
    have hlen : s.coordinator.running.length = s.floor.begun.length := by
      rw [← hd.keys.length_eq, Books.keys, List.length_map]
      rfl
    rw [Coordinator.runningOperations_status, hlen]
    refine countP_le_flatMap fun w phase hw hcalling => ?_
    obtain ⟨i, hi⟩ := Option.isSome_iff_exists.1 (begun?_of_isCalling h hw hcalling)
    show (s.stance w).begun?.toList ≠ []
    rw [hi]
    exact List.cons_ne_nil _ _
  case enters => exact fun m e he hnew => (step_move h m).enters he hnew
  case leaves => exact fun m e he hgone => (step_move h m).leaves hd he hgone

theorem distinct_run {config : CoordinatorConfig} {fs : Files} {c : Coordinator ω}
    (h : Coordinator.create config fs = .ok c) (hfresh : FreshIds { coordinator := c } ms) :
    (run { coordinator := c } ms).floor.Distinct := by
  refine floor_run (fun f d f' hd hfresh hstep => hstep.distinct hfresh hd) (accounted_create h)
    hfresh ?_
  rw [floor_create h]
  constructor
  case queue => exact .empty _
  case nodup =>
    rw [Floor.inHand, Floor.gather_eq_nil fun _ => rfl]
    exact .nil
  case keys =>
    rw [Floor.begun, Floor.gather_eq_nil fun _ => rfl]
    exact .nil
  case entered => exact fun _ _ => nofun

theorem freshIds_take (h : s.FreshIds ms) (n : Nat) : s.FreshIds (ms.take n) := by
  induction ms generalizing s n with
  | nil =>
    rw [List.take_nil]
    trivial
  | cons m ms ih =>
    cases n with
    | zero => trivial
    | succ n => exact ⟨h.1, ih h.2 n⟩

/-- Whenever an operation is taken in under the identifier of one in hand, both share it. -/
theorem freshIds_of_ownEntries (h : s.Accounted) (hown : ∀ n, (s.run (ms.take n)).OwnEntries) :
    s.FreshIds ms := by
  induction ms generalizing s with
  | nil => trivial
  | cons m ms ih =>
    have haccounted := accounted_move h m
    have hunfinished : ((s.move m).floor.books.queue.ids ++ (s.move m).floor.inHand).Nodup :=
      (hown 1).unfinished
    exact ⟨(step_move h m).fresh hunfinished, ih haccounted fun n => hown (n + 1)⟩

/-- All operations of a run have their own entries exactly if none is taken in under the identifier
of another that a worker has in hand. -/
theorem ownEntries_iff_freshIds {config : CoordinatorConfig} {fs : Files} {c : Coordinator ω}
    (h : Coordinator.create config fs = .ok c) (ms : List (Move ω)) :
    (∀ n, (run { coordinator := c } (ms.take n)).OwnEntries) ↔
      FreshIds { coordinator := c } ms := by
  constructor
  · exact freshIds_of_ownEntries (accounted_create h)
  · intro hfresh n
    exact ownEntries (accounted_run (accounted_create h) _)
      (distinct_run h (freshIds_take hfresh n))

/-- Two operations are submitted one after the other, and each is called by a worker. -/
def callingTwo (i j : String) : List (Move Unit) :=
  let env : Surroundings := { reading := 1099511627776 }
  .turn (.submit { id := i, job := () } default) :: List.replicate 7 (.turn (.work 0 env)) ++
    .turn (.submit { id := j, job := () } default) :: List.replicate 7 (.turn (.work 1 env))

theorem ownEntries_callingTwo : ∃ c : Coordinator Unit, Coordinator.create {} {} = .ok c ∧
    (run { coordinator := c } (callingTwo "a" "b")).coordinator.workers.countP Phase.isCalling = 2 ∧
      ∀ n, (run { coordinator := c } ((callingTwo "a" "b").take n)).OwnEntries := by
  have h : ((Coordinator.create {} {}).toOption.map fun c : Coordinator Unit =>
      ((run { coordinator := c } (callingTwo "a" "b")).coordinator.workers.countP Phase.isCalling,
        decide (FreshIds { coordinator := c } (callingTwo "a" "b")))) = some (2, true) := by
    decide +kernel
  obtain ⟨c, hc, h⟩ := exists_of_create h
  obtain ⟨hcalling, hfresh⟩ := Prod.mk.inj h
  exact ⟨c, hc, hcalling, (ownEntries_iff_freshIds hc _).2 (of_decide_eq_true hfresh)⟩

/-- Two operations of the same identifier are called at once, and share one entry. -/
theorem exists_shared_entry : ∃ c : Coordinator Unit, Coordinator.create {} {} = .ok c ∧
    (run { coordinator := c } (callingTwo "a" "a")).coordinator.workers.countP Phase.isCalling = 2 ∧
      (∀ reading now, ((run { coordinator := c } (callingTwo "a" "a")).coordinator.status reading
        now).runningOperations = 1) ∧
      ¬ (run { coordinator := c } (callingTwo "a" "a")).OwnEntries := by
  have h : ((Coordinator.create {} {}).toOption.map fun c : Coordinator Unit =>
      ((run { coordinator := c } (callingTwo "a" "a")).coordinator.workers.countP Phase.isCalling,
        (run { coordinator := c } (callingTwo "a" "a")).coordinator.running.length)) =
      some (2, 1) := by
    decide +kernel
  obtain ⟨c, hc, h⟩ := exists_of_create h
  obtain ⟨hcalling, hrunning⟩ := Prod.mk.inj h
  have hone (reading : UInt64) (now : Timestamp) : ((run { coordinator := c }
      (callingTwo "a" "a")).coordinator.status reading now).runningOperations = 1 := by
    rw [Coordinator.runningOperations_status, hrunning]
  refine ⟨c, hc, hcalling, hone, fun hown => ?_⟩
  have hle := hown.callbacks 0 default
  rw [hcalling, hone] at hle
  exact absurd hle (by decide)

end Scene

end Upkeep
