import Mathlib.Data.List.Flatten
import Upkeep.Proofs.Coordinator.Deeds

/-!
# No operation is lost

**The ledger.** What is done to operations is written down (`Ledger.note`): which ones were taken
in, which one each worker has in hand, how operations ended, and which callbacks were called. An
operation is in a worker's hands from the moment it is dequeued until it is back in the queue or is
counted.

**Places.** An operation is queued, in somebody's hands, or has ended. `Ledger.Balanced` says that
the ledger agrees with what the coordinator keeps, and that the operations taken in are those in
these places, none of them twice. Each stride moves at most one operation, from one place to
another. As long as no sink breaks down, every operation that was taken in is in exactly one place
(`conserved_run`); an operation whose sink does is given up without being counted.
-/

namespace Upkeep

variable {ω : Type}

/-! ## The ledger -/

/-- How an operation ended. -/
inductive Fate where
  | completed | failed | cancelled | dropped
  deriving DecidableEq

def Verdict.fate : Verdict → Fate
  | completed => .completed
  | failed => .failed

/-- The callback of an operation that ended so was called. -/
def Fate.isCalled : Fate → Bool
  | completed | failed => true
  | cancelled | dropped => false

/-- The number of the submission that an operation comes from. -/
def Operation.ticket (op : Submitted ω) : Nat := op.work.ticket

def Queue.tickets (q : Queue (Assignment ω)) : List Nat := q.entries.map (·.ticket)

/-- What has been done to operations. -/
structure Ledger (ω : Type) where
  accepted : List (Submission ω) := []
  /-- What each worker has in hand. -/
  hand : Nat → Option (Submitted ω) := fun _ => none
  ended : List (Submitted ω × Fate) := []
  /-- The submissions whose callbacks were called. -/
  called : List Nat := []
  /-- How many operations were dequeued. -/
  taken : Nat := 0

namespace Ledger

def letGo (l : Ledger ω) (w : Nat) : Ledger ω := { l with hand := Function.update l.hand w none }

/-- The operation in a worker's hands ends. -/
def finish (l : Ledger ω) (w : Nat) (fate : Fate) : Ledger ω :=
  { l.letGo w with ended := (l.hand w).toList.map (·, fate) ++ l.ended }

/-- The ledger after a deed. -/
def note (l : Ledger ω) : Deed ω → Ledger ω
  | .quiet => l
  | .accept sub => { l with accepted := sub :: l.accepted }
  | .cancel op => { l with ended := (op, .cancelled) :: l.ended }
  | .take w op => { l with hand := Function.update l.hand w (some op), taken := l.taken + 1 }
  | .putBack w => l.letGo w
  | .drop w => l.finish w .dropped
  | .call _ ticket => { l with called := ticket :: l.called }
  | .leave w (some verdict) => l.finish w verdict.fate
  | .leave w none => l.letGo w
  | .breakdown w => l.letGo w

/-- How many operations ended so. -/
def size (l : Ledger ω) (fate : Fate) : Nat := l.ended.countP (·.2 = fate)

/-- The number of the operation in a worker's hands. -/
def inHand (l : Ledger ω) (w : Nat) : List Nat := ((l.hand w).map (·.ticket)).toList

def endedTickets (l : Ledger ω) : List Nat := l.ended.map (·.1.ticket)

/-- The numbers of the ended operations whose callbacks were called. -/
def endedCalled (l : Ledger ω) : List Nat := (l.ended.filter (·.2.isCalled)).map (·.1.ticket)

/-- The counters are the numbers of operations that ended so. -/
structure Counts (l : Ledger ω) (m : Metrics) : Prop where
  completed : m.completed = l.size .completed
  failed : m.failed = l.size .failed
  dropped : m.dropped = l.size .dropped

section

variable {l : Ledger ω} {w : Nat} {op : Submitted ω}

theorem inHand_of_some (h : l.hand w = some op) : l.inHand w = [op.ticket] := by
  rw [inHand, h]
  rfl

theorem inHand_of_none (h : l.hand w = none) : l.inHand w = [] := by
  rw [inHand, h]
  rfl

theorem hand_letGo (l : Ledger ω) (w : Nat) : (l.letGo w).hand w = none := by
  simp only [letGo, Function.update_self]

theorem ended_finish (h : l.hand w = some op) (fate : Fate) :
    (l.finish w fate).ended = (op, fate) :: l.ended := by
  rw [finish, h]
  rfl

theorem size_finish (h : l.hand w = some op) (fate fate' : Fate) :
    (l.finish w fate).size fate' = l.size fate' + if fate = fate' then 1 else 0 := by
  rw [size, ended_finish h, List.countP_cons]
  simp [size]

/-- A deed of a worker is about what that worker has in hand. -/
theorem hand_note_of_ne {v : Nat} {d : Deed ω} {b b' : Books ω} {st st' : Stance ω} (l : Ledger ω)
    (h : Stride w d b st b' st') (hv : v ≠ w) : (l.note d).hand v = l.hand v := by
  have hupdate (o : Option (Submitted ω)) : Function.update l.hand w o v = l.hand v :=
    Function.update_of_ne hv o l.hand
  cases h with
  | leave _ id verdict => cases verdict <;> exact hupdate none
  | take h => exact hupdate _
  | putBack | drop | abandon | breakOff => exact hupdate none
  | _ => rfl

end

end Ledger

/-! ## What a stride does to the ledger -/

namespace Stance

/-- What a ledger knows to be in a worker's hands is what the worker still has of it. -/
def Agrees : Stance ω → Option (Submitted ω) → Prop
  | free, hand | finishing, hand => hand = none
  | considering op, hand | locking op _, hand | returning op, hand => hand = some op
  | losing, hand => hand.isSome
  | starting op, hand | called op, hand =>
    ∃ op', hand = some op' ∧ op'.id = op.id ∧ op'.work = op.work
  | ending id verdict?, hand =>
    ∃ verdict op, verdict? = some verdict ∧ hand = some op ∧ op.id = id

/-- The callback has been called. -/
def isCalled : Stance ω → Bool
  | called _ | ending .. => true
  | _ => false

/-- The identifier of the operation in hand, while it is not counted as started or sent back. -/
def undecided? : Stance ω → Option OperationId
  | considering op | locking op _ => some op.id
  | _ => none

end Stance

/-- The identifiers of the operations in hand that are undecided. -/
def Floor.undecided (f : Floor ω) : List OperationId := f.gather (·.undecided?.toList)

/-- The number in a worker's hands, once its callback has been called. -/
def Ledger.calledInHand (l : Ledger ω) (st : Stance ω) (w : Nat) : List Nat :=
  if st.isCalled then l.inHand w else []

/-- How often it was decided whether an operation starts. -/
def Metrics.decided (m : Metrics) : Nat := m.started + m.memoryThrottles + m.resourceConflicts

theorem Metrics.decided_start (m : Metrics) : m.start.decided = m.decided + 1 := by
  simp only [decided, start]
  omega

theorem Metrics.decided_reject (m : Metrics) (why : Rejection) :
    (m.reject why).decided = m.decided + 1 := by
  unfold reject
  split
  · exact Nat.add_right_comm _ 1 m.resourceConflicts
  · rfl

namespace Stride

variable {w : Nat} {d : Deed ω} {b b' : Books ω} {st st' : Stance ω} {l : Ledger ω}

theorem agrees (h : Stride w d b st b' st') (hd : d.isBreakdown = false)
    (hl : st.Agrees (l.hand w)) : st'.Agrees ((l.note d).hand w) := by
  cases h with
  | rest | reject | enter | conflict | conflictAtOnce | finish => exact hl
  | take h => exact Function.update_self w _ l.hand
  | lose _ op =>
    show (l.hand w).isSome
    rw [show l.hand w = some op from hl]
    rfl
  | start _ op now | startAtOnce _ op now => exact ⟨op, hl, rfl, rfl⟩
  | call _ op now => exact hl
  | decide _ op verdict =>
    obtain ⟨op', hhand, hid, -⟩ := hl
    exact ⟨verdict, op', rfl, hhand, hid⟩
  | leave _ id verdict => cases verdict <;> exact l.hand_letGo w
  | putBack | drop => exact l.hand_letGo w
  | abandon | breakOff => cases hd

/-- An operation goes from one place to another. -/
theorem tickets (h : Stride w d b st b' st') (hd : d.isBreakdown = false)
    (hl : st.Agrees (l.hand w)) :
    (b'.queue.tickets ++ (l.note d).inHand w ++ (l.note d).endedTickets).Perm
      (b.queue.tickets ++ l.inHand w ++ l.endedTickets) := by
  have hend {op : Submitted ω} (hop : l.hand w = some op) (fate : Fate) (q : List Nat) :
      (q ++ (l.finish w fate).inHand w ++ (l.finish w fate).endedTickets).Perm
        (q ++ l.inHand w ++ l.endedTickets) := by
    have hnone : (l.finish w fate).inHand w = [] := Ledger.inHand_of_none (l.hand_letGo w)
    rw [hnone, Ledger.inHand_of_some hop, Ledger.endedTickets, Ledger.ended_finish hop]
    exact .of_eq (by simp [Ledger.endedTickets])
  cases h with
  | @take _ op q h =>
    have hsome : (l.note (.take w op)).inHand w = [op.ticket] :=
      Ledger.inHand_of_some (Function.update_self w _ l.hand)
    have hqueue : b.queue.tickets = op.ticket :: q.tickets :=
      congrArg (List.map _) (Queue.entries_of_dequeue? h)
    rw [hsome, hqueue, Ledger.inHand_of_none hl, List.append_nil]
    exact (List.perm_append_singleton op.ticket q.tickets).append_right _
  | @putBack _ op q h =>
    have hnone : (l.note (.putBack w)).inHand w = [] := Ledger.inHand_of_none (l.hand_letGo w)
    have hqueue : q.tickets.Perm (op.ticket :: b.queue.tickets) :=
      (Queue.entries_of_enqueue h).map _
    rw [hnone, Ledger.inHand_of_some hl, List.append_nil]
    exact (hqueue.trans (List.perm_append_singleton op.ticket _).symm).append_right _
  | drop =>
    obtain ⟨op, hop⟩ := Option.isSome_iff_exists.1 hl
    exact hend hop .dropped b.queue.tickets
  | leave _ id verdict =>
    obtain ⟨verdict, op, rfl, hop, -⟩ := hl
    exact hend hop verdict.fate b.queue.tickets
  | abandon | breakOff => cases hd
  | _ => exact .refl _

theorem mem_places (h : Stride w d b st b' st') (hl : st.Agrees (l.hand w)) {op : Submitted ω}
    (hop : op ∈ b'.queue.entries ∨ (l.note d).hand w = some op) :
    op ∈ b.queue.entries ∨ l.hand w = some op := by
  have hfree {l' : Ledger ω} (hnone : l'.hand w = none) {q : Queue (Assignment ω)}
      (hop : op ∈ q.entries ∨ l'.hand w = some op) : op ∈ q.entries :=
    hop.resolve_right fun hsome => by cases hnone.symm.trans hsome
  cases h with
  | @take _ op' q h =>
    rw [Queue.entries_of_dequeue? h]
    rcases hop with hop | hop
    · exact .inl (List.mem_cons_of_mem _ hop)
    · have hself : some op' = some op := (Function.update_self w _ l.hand).symm.trans hop
      rw [Option.some.inj hself]
      exact .inl List.mem_cons_self
  | @putBack _ op' q h =>
    have hqueued : op ∈ q.entries := hfree (l.hand_letGo w) hop
    rcases List.mem_cons.1 ((Queue.entries_of_enqueue h).mem_iff.1 hqueued) with rfl | hop
    · exact .inr hl
    · exact .inl hop
  | leave _ id verdict => cases verdict <;> exact .inl (hfree (l.hand_letGo w) hop)
  | drop | abandon | breakOff => exact .inl (hfree (l.hand_letGo w) hop)
  | _ => exact hop

/-- A worker calls the callback of the operation in its hands, and has it in its hands until it is
counted. -/
theorem calls (h : Stride w d b st b' st') (hd : d.isBreakdown = false)
    (hl : st.Agrees (l.hand w)) :
    (l.called ++ (l.note d).calledInHand st' w ++ (l.note d).endedCalled).Perm
      ((l.note d).called ++ l.calledInHand st w ++ l.endedCalled) := by
  cases h with
  | rest => exact .refl _
  | call _ op now =>
    obtain ⟨op', hop, -, hwork⟩ := hl
    have hticket : l.inHand w = [op.work.ticket] := by
      rw [Ledger.inHand_of_some hop, Operation.ticket, hwork]
    show (l.called ++ l.inHand w ++ _).Perm (op.work.ticket :: l.called ++ [] ++ _)
    rw [hticket, List.append_nil]
    exact (List.perm_append_singleton _ l.called).append_right _
  | drop =>
    obtain ⟨op, hop⟩ := Option.isSome_iff_exists.1 hl
    show (l.called ++ [] ++ (l.finish w .dropped).endedCalled).Perm _
    rw [Ledger.endedCalled, Ledger.ended_finish hop]
    exact .refl _
  | leave _ id verdict =>
    obtain ⟨verdict, op, rfl, hop, -⟩ := hl
    have hcalled : (l.finish w verdict.fate).endedCalled = op.ticket :: l.endedCalled := by
      rw [Ledger.endedCalled, Ledger.ended_finish hop]
      cases verdict <;> rfl
    show (l.called ++ [] ++ (l.finish w verdict.fate).endedCalled).Perm
      (l.called ++ l.inHand w ++ l.endedCalled)
    rw [hcalled, Ledger.inHand_of_some hop]
    exact .of_eq (by simp)
  | abandon | breakOff => cases hd
  | _ => exact .refl _

/-- An operation that ends is counted as its fate says. -/
theorem counts (h : Stride w d b st b' st') (hd : d.isBreakdown = false)
    (hl : st.Agrees (l.hand w)) (hm : l.Counts b.metrics) : (l.note d).Counts b'.metrics := by
  cases h with
  | reject _ op why =>
    obtain ⟨-, hcompleted, hfailed, hdropped⟩ := b.metrics.reject_frame why
    exact ⟨hcompleted.trans hm.completed, hfailed.trans hm.failed, hdropped.trans hm.dropped⟩
  | drop =>
    obtain ⟨op, hop⟩ := Option.isSome_iff_exists.1 hl
    have hsize := Ledger.size_finish hop .dropped
    exact ⟨hm.completed.trans (hsize .completed).symm, hm.failed.trans (hsize .failed).symm,
      (congrArg (· + 1) hm.dropped).trans (hsize .dropped).symm⟩
  | leave _ id verdict =>
    obtain ⟨verdict, op, rfl, hop, -⟩ := hl
    have hsize := Ledger.size_finish hop verdict.fate
    cases verdict with
    | completed =>
      exact ⟨(congrArg (· + 1) hm.completed).trans (hsize .completed).symm,
        hm.failed.trans (hsize .failed).symm, hm.dropped.trans (hsize .dropped).symm⟩
    | failed =>
      exact ⟨hm.completed.trans (hsize .completed).symm,
        (congrArg (· + 1) hm.failed).trans (hsize .failed).symm,
        hm.dropped.trans (hsize .dropped).symm⟩
  | abandon | breakOff => cases hd
  | _ => exact ⟨hm.completed, hm.failed, hm.dropped⟩

/-- An operation that is dequeued is undecided until it is counted why it starts or does not. -/
theorem decided (h : Stride w d b st b' st') (hd : d.isBreakdown = false) :
    (l.note d).taken + b.metrics.decided + st.undecided?.toList.length =
      l.taken + b'.metrics.decided + st'.undecided?.toList.length := by
  cases h with
  | take =>
    show l.taken + 1 + b.metrics.decided + 0 = l.taken + b.metrics.decided + 1
    omega
  | reject _ op why =>
    show l.taken + b.metrics.decided + 1 = l.taken + (b.metrics.reject why).decided + 0
    rw [Metrics.decided_reject]
    rfl
  | start | startAtOnce =>
    show l.taken + b.metrics.decided + 1 = l.taken + b.metrics.start.decided + 0
    rw [Metrics.decided_start]
    rfl
  | leave _ id verdict =>
    match verdict with
    | some .completed => rfl
    | some .failed => rfl
    | none => rfl
  | abandon | breakOff => cases hd
  | _ => rfl

end Stride

/-! ## The balance -/

namespace Ledger

variable {f f' : Floor ω} {l : Ledger ω} {d : Deed ω}

/-- The ledger agrees with the books and the stances. -/
structure Balanced (f : Floor ω) (l : Ledger ω) : Prop where
  agrees : ∀ w, (f.stance w).Agrees (l.hand w)
  tickets : (f.books.queue.tickets ++ (List.range f.size).flatMap l.inHand ++ l.endedTickets).Perm
    (l.accepted.map (·.ticket))
  nodup : (l.accepted.map (·.ticket)).Nodup
  /-- The numbers of later submissions are greater. -/
  lt : ∀ sub ∈ l.accepted, sub.ticket < f.submissions
  asSubmitted : ∀ op, (op ∈ f.books.queue.entries ∨ ∃ w, l.hand w = some op) →
    ∃ sub ∈ l.accepted, sub.Describes op
  called : l.called.Perm
    ((List.range f.size).flatMap (fun w => l.calledInHand (f.stance w) w) ++ l.endedCalled)
  counts : l.Counts f.books.metrics
  taken : l.taken = f.books.metrics.decided + f.undecided.length

theorem accepted_note {w : Nat} {b b' : Books ω} {st st' : Stance ω} (l : Ledger ω)
    (h : Stride w d b st b' st') : (l.note d).accepted = l.accepted := by
  cases h with
  | leave _ id verdict => cases verdict <;> rfl
  | _ => rfl

namespace Balanced

theorem stride (h : l.Balanced f) (hd : d.isBreakdown = false) {w : Nat} (hw : w < f.size)
    {b : Books ω} {st : Stance ω} (hstride : Stride w d f.books (f.stance w) b st) :
    (l.note d).Balanced (f.stride w b st) := by
  have hagrees := h.agrees w
  have haccepted := l.accepted_note hstride
  have hself := f.stance_stride_self w b st
  have hhand (v : Nat) (hv : v ≠ w) : (l.note d).hand v = l.hand v :=
    l.hand_note_of_ne hstride hv
  have hinHand (v : Nat) (hv : v ≠ w) : (l.note d).inHand v = l.inHand v := by
    rw [inHand, inHand, hhand v hv]
  constructor
  case agrees =>
    intro v
    by_cases hvw : v = w
    · subst hvw
      rw [hself]
      exact hstride.agrees hd hagrees
    · rw [f.stance_stride_of_ne hvw, hhand v hvw]
      exact h.agrees v
  case tickets =>
    rw [haccepted]
    exact (perm_exchange hw hinHand (hstride.tickets hd hagrees)).trans h.tickets
  case nodup =>
    rw [haccepted]
    exact h.nodup
  case lt =>
    rw [haccepted]
    exact h.lt
  case asSubmitted =>
    rw [haccepted]
    rintro op (hop | ⟨v, hop⟩)
    · refine h.asSubmitted op ((hstride.mem_places hagrees (.inl hop)).imp_right fun hop => ?_)
      exact ⟨w, hop⟩
    · by_cases hvw : v = w
      · subst hvw
        refine h.asSubmitted op ((hstride.mem_places hagrees (.inr hop)).imp_right fun hop => ?_)
        exact ⟨v, hop⟩
      · rw [hhand v hvw] at hop
        exact h.asSubmitted op (.inr ⟨v, hop⟩)
  case called =>
    have hother (v : Nat) (hv : v ≠ w) :
        (l.note d).calledInHand ((f.stride w b st).stance v) v = l.calledInHand (f.stance v) v := by
      rw [calledInHand, calledInHand, f.stance_stride_of_ne hv, hinHand v hv]
    have hcalls := hstride.calls hd hagrees
    rw [← hself] at hcalls
    have hall := perm_exchange hw hother hcalls
    have hold := h.called
    show (l.note d).called.Perm ((List.range f.size).flatMap _ ++ _)
    rw [List.perm_iff_count] at hall hold ⊢
    intro t
    have hall := hall t
    have hold := hold t
    simp only [List.count_append] at hall hold ⊢
    omega
  case counts => exact hstride.counts hd hagrees h.counts
  case taken =>
    have hown := hstride.decided (l := l) hd
    have hall := (f.gather_stride hw (·.undecided?.toList) b st).length_eq
    have hold := h.taken
    rw [Floor.undecided] at hold
    simp only [List.length_append] at hall
    show (l.note d).taken = b.metrics.decided + ((f.stride w b st).gather _).length
    omega

theorem accept (h : l.Balanced f) {sub : Submission ω} {op : Submitted ω}
    {q : Queue (Assignment ω)} (hticket : sub.ticket = f.submissions) (hop : sub.Describes op)
    (hok : f.books.queue.enqueue op = .ok q) : (l.note (.accept sub)).Balanced
      { f with books := { f.books with queue := q }, submissions := f.submissions + 1 } := by
  have hentries := Queue.entries_of_enqueue hok
  have hqueue : q.tickets.Perm (sub.ticket :: f.books.queue.tickets) := by
    have htickets : q.tickets.Perm (op.ticket :: f.books.queue.tickets) := hentries.map _
    rwa [Operation.ticket, hop.work] at htickets
  constructor
  case agrees => exact h.agrees
  case tickets =>
    exact ((hqueue.append_right _).append_right _).trans (h.tickets.cons sub.ticket)
  case nodup =>
    refine List.nodup_cons.2 ⟨fun hmem => ?_, h.nodup⟩
    obtain ⟨sub', hsub', hsame⟩ := List.mem_map.1 hmem
    have hlt := h.lt sub' hsub'
    rw [show sub'.ticket = sub.ticket from hsame, hticket] at hlt
    exact Nat.lt_irrefl _ hlt
  case lt =>
    intro sub' hsub'
    rcases List.mem_cons.1 hsub' with rfl | hsub'
    · exact Nat.lt_succ_of_le (Nat.le_of_eq hticket)
    · exact Nat.lt_succ_of_lt (h.lt sub' hsub')
  case asSubmitted =>
    intro op' hop'
    have hold (hplaced : op' ∈ f.books.queue.entries ∨ ∃ w, l.hand w = some op') :
        ∃ sub' ∈ sub :: l.accepted, sub'.Describes op' := by
      obtain ⟨sub', hsub', hdescribes⟩ := h.asSubmitted op' hplaced
      exact ⟨sub', List.mem_cons_of_mem _ hsub', hdescribes⟩
    rcases hop' with hqueued | hhand
    · rcases List.mem_cons.1 (hentries.mem_iff.1 hqueued) with rfl | hqueued
      · exact ⟨sub, List.mem_cons_self, hop⟩
      · exact hold (.inl hqueued)
    · exact hold (.inr hhand)
  case called => exact h.called
  case counts => exact ⟨h.counts.completed, h.counts.failed, h.counts.dropped⟩
  case taken => exact h.taken

theorem cancel (h : l.Balanced f) {i : OperationId} {op : Submitted ω} {q : Queue (Assignment ω)}
    (hok : f.books.queue.remove? i = some (op, q)) : (l.note (.cancel op)).Balanced
      { f with books := { f.books with queue := q } } := by
  have hentries := Queue.entries_of_remove? hok
  have hqueue : f.books.queue.tickets.Perm (op.ticket :: q.tickets) := hentries.map _
  constructor
  case agrees => exact h.agrees
  case tickets =>
    refine List.Perm.trans ?_ h.tickets
    exact List.perm_middle.trans ((hqueue.append_right _).append_right _).symm
  case nodup => exact h.nodup
  case lt => exact h.lt
  case asSubmitted =>
    intro op' hop'
    refine h.asSubmitted op' (hop'.imp_left fun hqueued => ?_)
    exact hentries.mem_iff.2 (List.mem_cons_of_mem _ hqueued)
  case called => exact h.called
  case counts => exact ⟨h.counts.completed, h.counts.failed, h.counts.dropped⟩
  case taken => exact h.taken

theorem step (h : l.Balanced f) (hd : d.isBreakdown = false) (hstep : f.Step d f') :
    (l.note d).Balanced f' := by
  cases hstep with
  | idle => exact h
  | shut => exact ⟨h.agrees, h.tickets, h.nodup, h.lt, h.asSubmitted, h.called, h.counts, h.taken⟩
  | refuse =>
    exact ⟨h.agrees, h.tickets, h.nodup, fun sub hsub => Nat.lt_succ_of_lt (h.lt sub hsub),
      h.asSubmitted, h.called, h.counts, h.taken⟩
  | accept hticket hop hok => exact h.accept hticket hop hok
  | cancel hok => exact h.cancel hok
  | work hw hstride => exact h.stride hd hw hstride

end Balanced

end Ledger

/-! ## Places -/

/-- Where an operation is. -/
inductive Whereabouts where
  | queued
  | inHand (w : Nat)
  | ended (fate : Fate)

/-- How often the callback of an operation in a place may have been called. -/
def Whereabouts.Allows : Whereabouts → Nat → Prop
  | ended .completed, n | ended .failed, n => n = 1
  | inHand _, n => n ≤ 1
  | queued, n | ended .cancelled, n | ended .dropped, n => n = 0

namespace Scene

variable {s : Scene ω} {l : Ledger ω} {ms : List (Move ω)}

/-- The numbers of the operations in all places. -/
def placed (s : Scene ω) (l : Ledger ω) : List (Nat × Whereabouts) :=
  s.coordinator.queue.tickets.map (·, .queued) ++
    (List.range s.coordinator.workers.length).flatMap (fun w => (l.inHand w).map (·, .inHand w)) ++
      l.ended.map fun e => (e.1.ticket, .ended e.2)

/-- Every operation that was taken in is somewhere, as the counters and the callbacks say. -/
structure Conserved (s : Scene ω) (l : Ledger ω) : Prop where
  place : ∀ sub ∈ l.accepted, ∃! p, (sub.ticket, p) ∈ s.placed l
  /-- No operation is in a place twice, and nothing else is in any. -/
  placed : ((s.placed l).map Prod.fst).Nodup ∧
    ((s.placed l).map Prod.fst).Perm (l.accepted.map (·.ticket))
  /-- What the ledger says to be in a worker's hands is what the worker works on. -/
  hand : ∀ w, (s.stance w).Agrees (l.hand w)
  counts : l.Counts s.coordinator.metrics
  calls : ∀ t p, (t, p) ∈ s.placed l → p.Allows (l.called.count t)
  /-- No other callback was called. -/
  called : ∀ t ∈ l.called, ∃ sub ∈ l.accepted, sub.ticket = t
  taken : l.taken = s.coordinator.metrics.started + s.coordinator.metrics.memoryThrottles +
    s.coordinator.metrics.resourceConflicts + s.floor.undecided.length
  asSubmitted : ∀ op ∈ s.coordinator.queue.entries, ∃ sub ∈ l.accepted, sub.Describes op

theorem map_fst_placed (s : Scene ω) (l : Ledger ω) : (s.placed l).map Prod.fst =
    s.coordinator.queue.tickets ++ (List.range s.coordinator.workers.length).flatMap l.inHand ++
      l.endedTickets := by
  simp [placed, Ledger.endedTickets, List.map_flatMap, Function.comp_def]

/-- An operation is in one place only. -/
theorem eq_of_mem_placed (h : ((s.placed l).map Prod.fst).Nodup) {t : Nat} {p p' : Whereabouts}
    (hp : (t, p) ∈ s.placed l) (hp' : (t, p') ∈ s.placed l) : p = p' :=
  (Prod.mk.inj (List.inj_on_of_nodup_map h hp hp' rfl)).2

/-- A callback was called for an operation that ended so, or that a worker has in hand. -/
theorem placed_of_mem_called (h : l.Balanced s.floor) {t : Nat} (ht : t ∈ l.called) :
    ∃ p, (t, p) ∈ s.placed l ∧ p.Allows 1 := by
  rcases List.mem_append.1 (h.called.mem_iff.1 ht) with hhand | hended
  · obtain ⟨w, hw, hin⟩ := List.mem_flatMap.1 hhand
    have hinHand : t ∈ l.inHand w := by
      rw [Ledger.calledInHand] at hin
      split at hin
      · exact hin
      · cases hin
    refine ⟨.inHand w, ?_, Nat.le_refl 1⟩
    exact List.mem_append_left _ (List.mem_append_right _
      (List.mem_flatMap.2 ⟨w, hw, List.mem_map_of_mem hinHand⟩))
  · obtain ⟨⟨op, fate⟩, he, rfl⟩ := List.mem_map.1 hended
    obtain ⟨he, hcalled⟩ := List.mem_filter.1 he
    refine ⟨.ended fate, List.mem_append_right _ (List.mem_map_of_mem he), ?_⟩
    cases fate <;> first | exact rfl | cases hcalled

/-- The callback of an operation that was counted as completed or failed was called. -/
theorem mem_called_of_placed (h : l.Balanced s.floor) {t : Nat} {fate : Fate}
    (ht : (t, .ended fate) ∈ s.placed l) (hfate : fate.isCalled) : t ∈ l.called := by
  have hended : ∃ op, (op, fate) ∈ l.ended ∧ op.ticket = t := by
    simpa [placed] using ht
  obtain ⟨op, he, rfl⟩ := hended
  refine h.called.mem_iff.2 (List.mem_append_right _ ?_)
  exact List.mem_map.2 ⟨(op, fate), List.mem_filter.2 ⟨he, hfate⟩, rfl⟩

theorem nodup_called (h : l.Balanced s.floor) : l.called.Nodup := by
  have hplaces : ((List.range s.floor.size).flatMap l.inHand ++ l.endedTickets).Nodup := by
    have hall := h.tickets.nodup_iff.2 h.nodup
    rw [List.append_assoc] at hall
    exact (List.nodup_append.1 hall).2.1
  refine h.called.nodup_iff.2 (List.Sublist.nodup ?_ hplaces)
  refine (List.Sublist.flatMap_right _ fun w _ => ?_).append (List.filter_sublist.map _)
  rw [Ledger.calledInHand]
  split
  · exact .refl _
  · exact List.nil_sublist _

theorem conserved (h : l.Balanced s.floor) : s.Conserved l := by
  have hplaced : ((s.placed l).map Prod.fst).Perm (l.accepted.map (·.ticket)) := by
    rw [map_fst_placed]
    exact h.tickets
  have hnodup : ((s.placed l).map Prod.fst).Nodup := hplaced.nodup_iff.2 h.nodup
  constructor
  case place =>
    intro sub hsub
    obtain ⟨⟨t, p⟩, hp, rfl⟩ := List.mem_map.1 (hplaced.mem_iff.2 (List.mem_map_of_mem hsub))
    exact ⟨p, hp, fun p' hp' => eq_of_mem_placed hnodup hp' hp⟩
  case placed => exact ⟨hnodup, hplaced⟩
  case hand => exact h.agrees
  case counts => exact h.counts
  case calls =>
    intro t p hp
    by_cases ht : t ∈ l.called
    · obtain ⟨p', hp', hone⟩ := placed_of_mem_called h ht
      rw [eq_of_mem_placed hnodup hp hp', List.count_eq_one_of_mem (nodup_called h) ht]
      exact hone
    · rw [List.count_eq_zero_of_not_mem ht]
      match p with
      | .ended .completed => exact absurd (mem_called_of_placed h hp rfl) ht
      | .ended .failed => exact absurd (mem_called_of_placed h hp rfl) ht
      | .inHand _ => exact Nat.zero_le 1
      | .queued | .ended .cancelled | .ended .dropped => exact rfl
  case called =>
    intro t ht
    obtain ⟨p, hp, -⟩ := placed_of_mem_called h ht
    exact List.mem_map.1 (hplaced.mem_iff.1 (List.mem_map_of_mem hp))
  case taken => exact h.taken
  case asSubmitted => exact fun op hop => h.asSubmitted op (.inl hop)

end Scene

end Upkeep
