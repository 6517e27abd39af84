import Mathlib.Data.List.Nodup
import Mathlib.Data.List.Pairwise
import Mathlib.Data.List.Perm.Basic
import Upkeep.Proofs.Coordinator.Runs
import Upkeep.Proofs.Locks.Table

/-!
# Who has which lock

**Custody.** A worker has in custody what it has locked for its operation and not yet given back
(`Scene.custody`). While it is taking its locks that is what it has so far, and from then on the
locks written in its phase.

**The account.** In every scene the table is the disjoint union of what the workers have in custody,
an operation between its locking and its release has all of its paths in custody, and every entry
among the running operations is served by a worker (`Scene.Accounted`). One step of a worker passes
custody on exactly as it changes the table (`Passes`, `passes_advance`).

**What follows.** `locksOwned_run` reads the account in every scene that a new coordinator can come
to: distinct workers never have a path in custody at once, and when no worker has an operation in
hand there is no lock and no entry left.
-/

namespace Upkeep

/-- Replacing what one index contributes exchanges its contribution. -/
theorem perm_flatMap_range {β : Type} {n i : Nat} (hi : i < n) {f g : Nat → List β}
    (h : ∀ j, j ≠ i → f j = g j) :
    ((List.range n).flatMap f ++ g i).Perm ((List.range n).flatMap g ++ f i) := by
  have hrange : (List.range n).Perm (i :: (List.range n).erase i) :=
    List.perm_cons_erase (List.mem_range.2 hi)
  have hrest : ((List.range n).erase i).flatMap f = ((List.range n).erase i).flatMap g := by
    refine List.flatMap_congr fun j hj => h j ?_
    rintro rfl
    exact List.nodup_range.not_mem_erase hj
  have hf := hrange.flatMap_right f
  have hg := hrange.flatMap_right g
  rw [List.flatMap_cons] at hf hg
  rw [hrest] at hf
  refine (hf.append_right (g i)).trans (.trans ?_ (hg.append_right (f i)).symm)
  rw [List.append_assoc]
  exact List.perm_append_comm.trans (List.perm_append_comm.append_right _)

theorem set_of_getElem?_eq_some {α : Type} {l : List α} {i : Nat} {a : α} (h : l[i]? = some a) :
    l.set i a = l := by
  obtain ⟨hlt, heq⟩ := List.getElem?_eq_some_iff.1 h
  rw [← heq, List.set_getElem_self]

theorem perm_erase_cons {l : List String} {r : String} (h : r ∈ l) (rest : List String) :
    (l.erase r ++ r :: rest).Perm (l ++ rest) :=
  List.perm_middle.trans ((List.perm_cons_erase h).symm.append_right rest)

/-! ## Phases -/

namespace Phase

variable {ω : Type}

/-- The locks written in a phase, which are taken and not given back. -/
def locks : Phase ω → List String
  | starting _ locks | running _ locks | reporting _ locks _ | releasing _ locks _ => locks
  | _ => []

/-- The operation that is between its locking and its release. -/
def locked? : Phase ω → Option (Submitted ω)
  | starting op _ | running op _ | reporting op _ _ => some op
  | _ => none

/-- The identifier whose entry among the running operations a worker answers for. -/
def served? : Phase ω → Option OperationId
  | entering op | starting op _ | running op _ | reporting op _ _ => some op.id
  | releasing id _ _ | leaving id _ => some id
  | _ => none

/-- A worker has an operation in hand. -/
def isAtWork : Phase ω → Bool
  | idle | ready | finishing | stopped => false
  | _ => true

theorem locks_of_not_isAtWork {phase : Phase ω} (h : phase.isAtWork = false) :
    phase.locks = [] := by
  cases phase <;> simp_all [isAtWork, locks]

theorem served?_of_not_isAtWork {phase : Phase ω} (h : phase.isAtWork = false) :
    phase.served? = none := by
  cases phase <;> simp_all [isAtWork, served?]

/-- An operation that is locked has its paths among the locks. -/
def Covers (phase : Phase ω) : Prop :=
  ∀ op, phase.locked? = some op → ∀ p, p ∈ op.paths ↔ p ∈ phase.locks

theorem covers_of_locked?_eq_none {phase : Phase ω} (h : phase.locked? = none) :
    phase.Covers := by
  intro op hop
  rw [h] at hop
  cases hop

end Phase

/-! ## One step of a worker -/

namespace Coordinator

variable {ω : Type}

/-- A step from one phase to another passes custody on as it changes the table, and leaves no entry
among the running operations that nobody answers for. -/
structure Passes (c : Coordinator ω) (phase : Phase ω) (c' : Coordinator ω) (phase' : Phase ω) :
    Prop where
  workers : c'.workers = c.workers
  names : (c'.keeper.names ++ phase.locks).Perm (c.keeper.names ++ phase'.locks)
  nodup : c'.keeper.names.Nodup
  covers : phase.Covers → phase'.Covers
  running : ∀ e ∈ c'.running,
    phase'.served? = some e.1 ∨ e ∈ c.running ∧ phase.served? ≠ some e.1

theorem Passes.quiet {c c' : Coordinator ω} {phase phase' : Phase ω}
    (hnodup : c.keeper.names.Nodup) (hworkers : c'.workers = c.workers)
    (hkeeper : c'.keeper = c.keeper) (hrunning : c'.running = c.running)
    (hlocks : phase'.locks = phase.locks) (hcovers : phase.Covers → phase'.Covers)
    (hserved : phase.served? = none ∨ phase'.served? = phase.served?) :
    Passes c phase c' phase' where
  workers := hworkers
  names := by rw [hkeeper, hlocks]
  nodup := by rwa [hkeeper]
  covers := hcovers
  running := by
    rw [hrunning]
    intro e he
    rcases hserved with hnone | hsame
    · exact .inr ⟨he, by simp [hnone]⟩
    · by_cases h : phase.served? = some e.1
      · exact .inl (hsame.trans h)
      · exact .inr ⟨he, h⟩

theorem Passes.unlocked {c c' : Coordinator ω} {phase phase' : Phase ω}
    (hnodup : c.keeper.names.Nodup)
    (hframe : c'.keeper = c.keeper ∧ c'.running = c.running ∧ c'.workers = c.workers)
    (h : phase.locks = [] ∧ phase.served? = none)
    (h' : phase'.locks = [] ∧ phase'.locked? = none) : Passes c phase c' phase' := by
  obtain ⟨hkeeper, hrunning, hworkers⟩ := hframe
  exact .quiet hnodup hworkers hkeeper hrunning (h'.1.trans h.1.symm)
    (fun _ => Phase.covers_of_locked?_eq_none h'.2) (.inl h.2)

theorem tellAll_frame (c : Coordinator ω) (op : Submitted ω) (rs : List Report) :
    (rs.foldl (·.tell op) c).keeper = c.keeper ∧ (rs.foldl (·.tell op) c).running = c.running ∧
      (rs.foldl (·.tell op) c).workers = c.workers := by
  induction rs generalizing c with
  | nil => exact ⟨rfl, rfl, rfl⟩
  | cons r rs ih => exact ih (c.tell op r)

theorem own_or_other (i : OperationId) {e : OperationId × Summary}
    {l : List (OperationId × Summary)} (h : e ∈ l) :
    some i = some e.1 ∨ e ∈ l ∧ some i ≠ some e.1 := by
  by_cases hi : some i = some e.1
  · exact .inl hi
  · exact .inr ⟨h, hi⟩

theorem mem_enter {c : Coordinator ω} {op : Submitted ω} {e : OperationId × Summary}
    (h : e ∈ (c.enter op).running) :
    some op.id = some e.1 ∨ e ∈ c.running ∧ some op.id ≠ some e.1 := by
  rcases List.mem_cons.1 h with rfl | hold
  · exact .inl rfl
  · exact own_or_other op.id (List.mem_filter.1 hold).1

theorem mem_leave {c : Coordinator ω} {i : OperationId} {e : OperationId × Summary} :
    e ∈ (c.leave i).running ↔ e ∈ c.running ∧ some i ≠ some e.1 := by
  rw [leave, List.mem_filter, bne_iff_ne, ne_eq, ne_eq, Option.some_inj, eq_comm]

/-- A worker that starts an operation gets all its locks, or the table is as it was. -/
theorem start_cases (c : Coordinator ω) (op : Submitted ω) (now : Timestamp) :
    (∃ locks files keeper,
      c.keeper.acquireAll c.files op.paths = (some locks, files, keeper) ∧
      c.start op now = (.starting { op with started := some now } locks,
        { c.enter { op with started := some now } with files, keeper }.count
          fun m => { m with started := m.started + 1 })) ∨
    ∃ files, c.start op now = (.conflicted op,
      ({ c.enter { op with started := some now } with files }.leave op.id).count
        fun m => { m with resourceConflicts := m.resourceConflicts + 1 }) := by
  unfold start
  have hkeeper : (c.enter { op with started := some now }).keeper = c.keeper := rfl
  have hfiles : (c.enter { op with started := some now }).files = c.files := rfl
  simp only [hkeeper, hfiles]
  cases hl : c.keeper.acquireAll c.files op.paths with
  | mk o fk =>
    cases o with
    | some locks => exact .inl ⟨locks, fk.1, fk.2, rfl, rfl⟩
    | none =>
      have hsame : fk.2 = c.keeper := LockKeeper.acquireAll_none hl
      exact .inr ⟨fk.1, by simp only [hsame]⟩

/-- An operation is entered and gets all its locks, or neither. -/
theorem passes_start {c : Coordinator ω} (hnodup : c.keeper.names.Nodup) (op : Submitted ω)
    (now : Timestamp) : Passes c (.entering op) (c.start op now).2 (c.start op now).1 := by
  rcases start_cases c op now with ⟨locks, files, keeper, hl, hstart⟩ | ⟨files, hstart⟩
  · obtain ⟨hlocks, hnew, hnames⟩ := LockKeeper.acquireAll_some hl
    have hperm : keeper.names.Perm (c.keeper.names ++ locks) := by
      rw [hnames]
      exact List.perm_append_comm.trans (locks.reverse_perm.append_left _)
    rw [hstart]
    constructor
    case workers => rfl
    case names =>
      show (keeper.names ++ []).Perm (c.keeper.names ++ locks)
      rwa [List.append_nil]
    case nodup =>
      show keeper.names.Nodup
      rw [hperm.nodup_iff, List.nodup_append]
      refine ⟨hnodup, hlocks ▸ LockKeeper.nodup_eraseDups op.paths, ?_⟩
      rintro r hr q hq rfl
      exact hnew r hq hr
    case covers =>
      rintro - begun hbegun p
      obtain rfl := Option.some.inj hbegun
      simp only [Phase.locks, hlocks, List.mem_eraseDups]
    case running => exact fun e he => mem_enter he
  · rw [hstart]
    constructor
    case workers => rfl
    case names => exact .refl _
    case nodup => exact hnodup
    case covers => exact fun _ => Phase.covers_of_locked?_eq_none rfl
    case running =>
      intro e he
      obtain ⟨hmem, hne⟩ := mem_leave.1 he
      exact .inr ((mem_enter hmem).resolve_left hne)

theorem passes_release {c : Coordinator ω} (hnodup : c.keeper.names.Nodup) (id : OperationId)
    {r : String} (rest : List String) (verdict : Option Verdict) (hr : r ∈ c.keeper.names) :
    Passes c (.releasing id (r :: rest) verdict)
      { c with files := (c.keeper.release c.files r).1, keeper := (c.keeper.release c.files r).2 }
      (.releasing id rest verdict) := by
  have hnames := LockKeeper.names_release c.files hnodup r
  constructor
  case workers => rfl
  case names =>
    rw [hnames]
    exact perm_erase_cons hr rest
  case nodup =>
    rw [hnames]
    exact hnodup.erase r
  case covers => exact fun _ => Phase.covers_of_locked?_eq_none rfl
  case running => exact fun e he => own_or_other id he

theorem passes_leave {c : Coordinator ω} (hnodup : c.keeper.names.Nodup) (id : OperationId)
    (verdict : Option Verdict) :
    Passes c (.leaving id verdict) ((c.leave id).count (·.finish verdict)) .finishing := by
  constructor
  case workers => rfl
  case names => exact .refl _
  case nodup => exact hnodup
  case covers => exact fun _ => Phase.covers_of_locked?_eq_none rfl
  case running => exact fun e he => .inr (mem_leave.1 he)

/-- What a step of a worker does to the table and to the running operations. -/
theorem passes_advance {c : Coordinator ω} (env : Surroundings) {phase : Phase ω}
    (hnodup : c.keeper.names.Nodup) (hlocks : ∀ r ∈ phase.locks, r ∈ c.keeper.names) :
    Passes c phase (c.advance env phase).2 (c.advance env phase).1 := by
  cases phase with
  | idle =>
    simp only [advance]
    split <;> exact .unlocked hnodup ⟨rfl, rfl, rfl⟩ ⟨rfl, rfl⟩ ⟨rfl, rfl⟩
  | ready =>
    simp only [advance]
    split <;> exact .unlocked hnodup ⟨rfl, rfl, rfl⟩ ⟨rfl, rfl⟩ ⟨rfl, rfl⟩
  | admitting op =>
    simp only [advance]
    cases Rejection.atPressure? c.monitor op.priority env.reading with
    | some why => exact .unlocked hnodup ⟨rfl, rfl, rfl⟩ ⟨rfl, rfl⟩ ⟨rfl, rfl⟩
    | none => exact .unlocked hnodup ⟨rfl, rfl, rfl⟩ ⟨rfl, rfl⟩ ⟨rfl, rfl⟩
  | weighing op =>
    simp only [advance]
    cases Rejection.atHeadroom? c.monitor op.requirement.memoryMb env.reading with
    | some why => exact .unlocked hnodup ⟨rfl, rfl, rfl⟩ ⟨rfl, rfl⟩ ⟨rfl, rfl⟩
    | none => exact .unlocked hnodup ⟨rfl, rfl, rfl⟩ ⟨rfl, rfl⟩ ⟨rfl, rfl⟩
  | probing op paths =>
    cases paths with
    | nil => exact .unlocked hnodup ⟨rfl, rfl, rfl⟩ ⟨rfl, rfl⟩ ⟨rfl, rfl⟩
    | cons p rest =>
      simp only [advance]
      split <;> exact .unlocked hnodup ⟨rfl, rfl, rfl⟩ ⟨rfl, rfl⟩ ⟨rfl, rfl⟩
  | warning op why =>
    simp only [advance]
    split <;> exact .unlocked hnodup ⟨rfl, rfl, rfl⟩ ⟨rfl, rfl⟩ ⟨rfl, rfl⟩
  | rejecting op why => exact .unlocked hnodup ⟨rfl, rfl, rfl⟩ ⟨rfl, rfl⟩ ⟨rfl, rfl⟩
  | requeueing op =>
    simp only [advance]
    split <;> exact .unlocked hnodup ⟨rfl, rfl, rfl⟩ ⟨rfl, rfl⟩ ⟨rfl, rfl⟩
  | dropping op why =>
    simp only [advance]
    split <;> exact .unlocked hnodup ⟨rfl, rfl, rfl⟩ ⟨rfl, rfl⟩ ⟨rfl, rfl⟩
  | losing => exact .unlocked hnodup ⟨rfl, rfl, rfl⟩ ⟨rfl, rfl⟩ ⟨rfl, rfl⟩
  | entering op => exact passes_start hnodup op env.now
  | conflicted op =>
    simp only [advance]
    split <;> exact .unlocked hnodup ⟨rfl, rfl, rfl⟩ ⟨rfl, rfl⟩ ⟨rfl, rfl⟩
  | starting op locks =>
    simp only [advance]
    split
    · exact .quiet hnodup rfl rfl rfl rfl (fun _ => Phase.covers_of_locked?_eq_none rfl) (.inr rfl)
    · exact .quiet hnodup rfl rfl rfl rfl id (.inr rfl)
  | running op locks =>
    obtain ⟨hkeeper, hrunning, hworkers⟩ := tellAll_frame c op env.reports
    refine .quiet hnodup hworkers hkeeper hrunning rfl ?_ (.inr rfl)
    -- The operation differs in the time of its end alone.
    intro hcovers done hdone
    obtain rfl := Option.some.inj hdone
    exact hcovers op rfl
  | reporting op locks outcome =>
    exact .quiet hnodup rfl rfl rfl rfl (fun _ => Phase.covers_of_locked?_eq_none rfl) (.inr rfl)
  | releasing id locks verdict =>
    cases locks with
    | nil =>
      exact .quiet hnodup rfl rfl rfl rfl (fun _ => Phase.covers_of_locked?_eq_none rfl) (.inr rfl)
    | cons r rest => exact passes_release hnodup id rest verdict (hlocks r List.mem_cons_self)
  | leaving id verdict => exact passes_leave hnodup id verdict
  | finishing => exact .unlocked hnodup ⟨rfl, rfl, rfl⟩ ⟨rfl, rfl⟩ ⟨rfl, rfl⟩
  | stopped => exact .unlocked hnodup ⟨rfl, rfl, rfl⟩ ⟨rfl, rfl⟩ ⟨rfl, rfl⟩

end Coordinator

/-! ## The account -/

/-- Of the paths of an operation, each is taken or still to be taken, unless one has failed. -/
def Taking.Covers (paths : List String) : Taking → Prop
  | onward taken rest => ∀ p, p ∈ paths ↔ p ∈ taken ∨ p ∈ rest
  | back _ => True

namespace Scene

variable {ω : Type} {s s' : Scene ω} {w : Nat}

/-- How far a worker is in taking its locks, if it is at that. -/
def lockingOf? (s : Scene ω) (w : Nat) : Option (Locking ω) := s.locking?.filter (·.worker = w)

/-- What a worker has locked for its operation and not given back. -/
def custody (s : Scene ω) (w : Nat) : List String :=
  match s.lockingOf? w with
  | some l => l.taking.locks
  | none => (s.coordinator.workers[w]?.map Phase.locks).getD []

/-- The table, the workers and the running operations agree. -/
structure Accounted (s : Scene ω) : Prop where
  /-- The table is what the workers have in custody. -/
  names : s.coordinator.keeper.names.Perm
    ((List.range s.coordinator.workers.length).flatMap s.custody)
  nodup : s.coordinator.keeper.names.Nodup
  /-- Who takes locks does so for the operation that it has been admitted with. -/
  locking : ∀ l, s.locking? = some l →
    s.coordinator.workers[l.worker]? = some (.entering l.op) ∧ l.taking.Covers l.op.paths
  covers : ∀ (v : Nat) (phase : Phase ω), s.coordinator.workers[v]? = some phase → phase.Covers
  /-- Somebody answers for each entry. -/
  running : ∀ e ∈ s.coordinator.running, ∃ (v : Nat) (phase : Phase ω),
    s.coordinator.workers[v]? = some phase ∧ phase.served? = some e.1

theorem lockingOf?_eq_some_iff {l : Locking ω} :
    s.lockingOf? w = some l ↔ s.locking? = some l ∧ l.worker = w := by
  simp [lockingOf?, Option.filter_eq_some_iff]

/-- The worker that takes locks waits for each of them. -/
theorem lockingOf?_of_not_waits {phase : Phase ω} (hw : s.coordinator.workers[w]? = some phase)
    (hwaits : ¬ s.waits w = true) : s.lockingOf? w = none := by
  rw [Option.eq_none_iff_forall_ne_some]
  intro l hl
  obtain ⟨hlocking, hl⟩ := lockingOf?_eq_some_iff.1 hl
  exact hwaits (by simp [waits, hlocking, hw, hl])

theorem lockingOf?_of_ne {l : Locking ω} (h : s.locking? = some l) (hne : w ≠ l.worker) :
    s.lockingOf? w = none := by
  simp [lockingOf?, h, hne.symm]

theorem custody_of_locking {l : Locking ω} (h : s.locking? = some l) :
    s.custody l.worker = l.taking.locks := by
  rw [custody, lockingOf?_eq_some_iff.2 ⟨h, rfl⟩]

theorem custody_of_phase {phase : Phase ω} (hfree : s.lockingOf? w = none)
    (hw : s.coordinator.workers[w]? = some phase) : s.custody w = phase.locks := by
  rw [custody, hfree, hw]
  rfl

theorem custody_of_le (hfree : s.lockingOf? w = none)
    (hw : s.coordinator.workers.length ≤ w) : s.custody w = [] := by
  rw [custody, hfree, List.getElem?_eq_none hw]
  rfl

theorem Accounted.mem_names (h : s.Accounted) (hw : w < s.coordinator.workers.length) {r : String}
    (hr : r ∈ s.custody w) : r ∈ s.coordinator.keeper.names :=
  h.names.mem_iff.2 (List.mem_flatMap.2 ⟨w, List.mem_range.2 hw, hr⟩)

/-- The account stays in balance when one worker goes from a phase to another, and what it has in
custody changes as the table does. -/
theorem Accounted.step (h : s.Accounted) {phase phase' : Phase ω}
    (hw : s.coordinator.workers[w]? = some phase)
    (hset : s'.coordinator.workers = s.coordinator.workers.set w phase')
    (hother : ∀ v, v ≠ w → s'.lockingOf? v = s.lockingOf? v)
    (hperm : (s'.coordinator.keeper.names ++ s.custody w).Perm
      (s.coordinator.keeper.names ++ s'.custody w))
    (hnodup : s'.coordinator.keeper.names.Nodup)
    (hlocking : ∀ l, s'.locking? = some l →
      s'.coordinator.workers[l.worker]? = some (.entering l.op) ∧ l.taking.Covers l.op.paths)
    (hcovers : phase'.Covers)
    (hrunning : ∀ e ∈ s'.coordinator.running, phase'.served? = some e.1 ∨
      e ∈ s.coordinator.running ∧ phase.served? ≠ some e.1) : s'.Accounted := by
  have hlt : w < s.coordinator.workers.length := (List.getElem?_eq_some_iff.1 hw).1
  have hself : s'.coordinator.workers[w]? = some phase' := by
    rw [hset, List.getElem?_set_self hlt]
  have hrest (v : Nat) (hv : v ≠ w) :
      s'.coordinator.workers[v]? = s.coordinator.workers[v]? := by
    rw [hset, List.getElem?_set_ne hv.symm]
  have hcustody (v : Nat) (hv : v ≠ w) : s.custody v = s'.custody v := by
    rw [custody, custody, hother v hv, hrest v hv]
  constructor
  case names =>
    rw [hset, List.length_set, ← List.perm_append_right_iff (s.custody w)]
    exact hperm.trans ((h.names.append_right _).trans (perm_flatMap_range hlt hcustody))
  case nodup => exact hnodup
  case locking => exact hlocking
  case covers =>
    intro v phase₁ hv
    by_cases hvw : v = w
    · subst hvw
      obtain rfl := Option.some.inj (hself.symm.trans hv)
      exact hcovers
    · exact h.covers v phase₁ ((hrest v hvw).symm.trans hv)
  case running =>
    intro e he
    rcases hrunning e he with hserved | ⟨hold, hnot⟩
    · exact ⟨w, phase', hself, hserved⟩
    · obtain ⟨v, phase₁, hv, hserved⟩ := h.running e hold
      refine ⟨v, phase₁, (hrest v ?_).trans hv, hserved⟩
      rintro rfl
      obtain rfl := Option.some.inj (hw.symm.trans hv)
      exact hnot hserved

/-- The account stays in balance when a worker makes a step of its own. -/
theorem Accounted.pass (h : s.Accounted) {phase phase' : Phase ω} {c : Coordinator ω}
    (hw : s.coordinator.workers[w]? = some phase) (hfree : s.lockingOf? w = none)
    (hp : s.coordinator.Passes phase c phase') :
    Accounted { s with coordinator := c.setPhase w phase' } := by
  have hset : (c.setPhase w phase').workers = s.coordinator.workers.set w phase' := by
    rw [Coordinator.setPhase, hp.workers]
  have hlt : w < s.coordinator.workers.length := (List.getElem?_eq_some_iff.1 hw).1
  refine h.step hw hset (fun _ _ => rfl) ?_ hp.nodup ?_ (hp.covers (h.covers w phase hw)) hp.running
  · rw [custody_of_phase hfree hw]
    have hself : (c.setPhase w phase').workers[w]? = some phase' := by
      rw [hset, List.getElem?_set_self hlt]
    rw [custody_of_phase (s := { s with coordinator := c.setPhase w phase' }) hfree hself]
    exact hp.names
  · intro l hl
    have hne : w ≠ l.worker := by
      intro heq
      have hof := lockingOf?_eq_some_iff.2 ⟨hl, heq.symm⟩
      exact Option.some_ne_none l (hof.symm.trans hfree)
    obtain ⟨hat, hcov⟩ := h.locking l hl
    refine ⟨?_, hcov⟩
    show (c.setPhase w phase').workers[l.worker]? = _
    rw [hset, List.getElem?_set_ne hne, hat]

/-! ## Every move keeps the account -/

theorem accounted_happen (h : s.Accounted) (t : Turn ω) : (s.happen t).Accounted := by
  by_cases hwork : ∃ w env, t = .work w env
  · obtain ⟨w, env, rfl⟩ := hwork
    by_cases hwaits : s.waits w
    · rwa [happen, if_pos hwaits]
    · rw [happen, if_neg hwaits]
      cases hw : s.coordinator.workers[w]? with
      | none =>
        rw [Coordinator.work_of_none hw]
        exact h
      | some phase =>
        have hfree := lockingOf?_of_not_waits hw hwaits
        have hlt : w < s.coordinator.workers.length := (List.getElem?_eq_some_iff.1 hw).1
        have hheld : ∀ r ∈ phase.locks, r ∈ s.coordinator.keeper.names := by
          rw [← custody_of_phase hfree hw]
          exact fun r hr => h.mem_names hlt hr
        rw [Coordinator.work_eq hw]
        exact h.pass hw hfree (Coordinator.passes_advance env h.nodup hheld)
  · have hne : ∀ w env, t ≠ .work w env := fun w env ht => hwork ⟨w, env, ht⟩
    obtain ⟨hkeeper, hrunning, hworkers⟩ := s.coordinator.happen_frame hne
    rw [s.happen_of_ne_work hne]
    have hcustody (v : Nat) :
        custody { s with coordinator := s.coordinator.happen t } v = s.custody v := by
      simp only [custody, lockingOf?, hworkers]
    constructor
    case names =>
      show (s.coordinator.happen t).keeper.names.Perm _
      rw [hkeeper, funext hcustody]
      simp only [hworkers]
      exact h.names
    case nodup => simpa only [hkeeper] using h.nodup
    case locking => simpa only [hworkers] using h.locking
    case covers => simpa only [hworkers] using h.covers
    case running => simpa only [hworkers, hrunning] using h.running

theorem accounted_begin (h : s.Accounted) (w : Nat) (now : Timestamp) :
    (s.begin w now).Accounted := by
  unfold begin
  split
  · rename_i op hnone hw
    let l : Locking ω := ⟨w, op, now, .onward [] op.paths⟩
    have hfree : s.lockingOf? w = none := by rw [lockingOf?, hnone, Option.filter_none]
    have hself : s.custody w = [] := custody_of_phase hfree hw
    have hbegun : custody ⟨s.coordinator.enter l.begun, some l⟩ w = [] :=
      custody_of_locking (l := l) rfl
    have hset : s.coordinator.workers = s.coordinator.workers.set w (.entering op) :=
      (set_of_getElem?_eq_some hw).symm
    show Accounted ⟨s.coordinator.enter l.begun, some l⟩
    refine h.step hw hset ?_ (by rw [hself, hbegun]; exact .refl _) h.nodup ?_
      (Phase.covers_of_locked?_eq_none rfl) ?_
    · intro v hv
      rw [lockingOf?_of_ne (l := l) rfl hv, lockingOf?, hnone, Option.filter_none]
    · intro l' hl'
      obtain rfl := Option.some.inj hl'
      exact ⟨hw, fun p => by simp [l]⟩
    · intro e he
      have hentry : some l.begun.id = some e.1 ∨ _ := Coordinator.mem_enter he
      exact hentry
  · exact h

/-- The account stays in balance when the worker with the mutex goes on to other locks. -/
theorem Accounted.retake (h : s.Accounted) {l : Locking ω} (hl : s.locking? = some l)
    {c : Coordinator ω} {t : Taking} (hworkers : c.workers = s.coordinator.workers)
    (hrunning : c.running = s.coordinator.running)
    (hperm : (c.keeper.names ++ l.taking.locks).Perm (s.coordinator.keeper.names ++ t.locks))
    (hnodup : c.keeper.names.Nodup) (hcovers : t.Covers l.op.paths) :
    Accounted ⟨c, some { l with taking := t }⟩ := by
  obtain ⟨hat, -⟩ := h.locking l hl
  have hset : c.workers = s.coordinator.workers.set l.worker (.entering l.op) := by
    rw [hworkers, set_of_getElem?_eq_some hat]
  have hcustody : custody ⟨c, some { l with taking := t }⟩ l.worker = t.locks :=
    custody_of_locking (l := { l with taking := t }) rfl
  refine h.step hat hset ?_ ?_ hnodup ?_ (Phase.covers_of_locked?_eq_none rfl) ?_
  · intro v hv
    rw [lockingOf?_of_ne hl hv, lockingOf?_of_ne (l := { l with taking := t }) rfl hv]
  · rw [custody_of_locking hl, hcustody]
    exact hperm
  · intro l' hl'
    obtain rfl := Option.some.inj hl'
    exact ⟨by rw [hworkers]; exact hat, hcovers⟩
  · intro e he
    rw [hrunning] at he
    exact Coordinator.own_or_other l.op.id he

/-- The account stays in balance when the worker with the mutex lets it go. -/
theorem Accounted.letGo (h : s.Accounted) {l : Locking ω} (hl : s.locking? = some l)
    {c : Coordinator ω} {phase : Phase ω} (hworkers : c.workers = s.coordinator.workers)
    (hkeeper : c.keeper = s.coordinator.keeper) (hlocks : phase.locks = l.taking.locks)
    (hcovers : phase.Covers)
    (hrunning : ∀ e ∈ c.running, phase.served? = some e.1 ∨
      e ∈ s.coordinator.running ∧ some l.op.id ≠ some e.1) :
    Accounted { coordinator := c.setPhase l.worker phase } := by
  obtain ⟨hat, -⟩ := h.locking l hl
  have hset : (c.setPhase l.worker phase).workers =
      s.coordinator.workers.set l.worker phase := by
    rw [Coordinator.setPhase, hworkers]
  have hself : (c.setPhase l.worker phase).workers[l.worker]? = some phase := by
    rw [hset, List.getElem?_set_self (List.getElem?_eq_some_iff.1 hat).1]
  have hcustody : custody { coordinator := c.setPhase l.worker phase } l.worker = phase.locks :=
    custody_of_phase rfl hself
  have hnames : (c.setPhase l.worker phase).keeper.names = s.coordinator.keeper.names :=
    congrArg LockKeeper.names hkeeper
  refine h.step hat hset ?_ ?_ (hnames ▸ h.nodup) ?_ hcovers hrunning
  · intro v hv
    rw [lockingOf?_of_ne hl hv]
    rfl
  · rw [hcustody, custody_of_locking hl, hlocks, hnames]
  · intro l' hl'
    cases hl'

theorem accounted_proceed (h : s.Accounted) : s.proceed.Accounted := by
  unfold proceed
  split
  · exact h
  · rename_i l hl
    obtain ⟨hat, hcov⟩ := h.locking l hl
    unfold advance
    split
    · rename_i taken htaking
      rw [htaking] at hcov
      refine h.letGo hl rfl rfl (by rw [htaking]; rfl) ?_ ?_
      · intro begun hbegun p
        obtain rfl := Option.some.inj hbegun
        show p ∈ l.op.paths ↔ p ∈ taken
        simpa using hcov p
      · exact fun e he => Coordinator.own_or_other l.op.id he
    · rename_i taken r rest htaking
      rw [htaking] at hcov
      by_cases hr : r ∈ taken
      · rw [if_pos hr]
        refine h.retake hl rfl rfl (by rw [htaking]; exact .refl _) h.nodup fun p => ?_
        rw [hcov p, List.mem_cons]
        constructor
        · rintro (ht | rfl | hrest)
          · exact .inl ht
          · exact .inl hr
          · exact .inr hrest
        · rintro (ht | hrest)
          · exact .inl ht
          · exact .inr (.inr hrest)
      · rw [if_neg hr]
        rcases LockKeeper.acquireUnheld_cases s.coordinator.keeper s.coordinator.files r
          .exclusive with ⟨f, fs, hnot, hcall⟩ | ⟨fs, hcall⟩
        · rw [hcall]
          refine h.retake hl rfl rfl ?_ (List.nodup_cons.2 ⟨hnot, h.nodup⟩) fun p => ?_
          · rw [htaking]
            show (r :: s.coordinator.keeper.names ++ taken).Perm
              (s.coordinator.keeper.names ++ (taken ++ [r]))
            rw [← List.append_assoc]
            exact (List.perm_append_singleton _ _).symm
          · rw [hcov p]
            simp [or_assoc]
        · rw [hcall]
          exact h.retake hl rfl rfl (by rw [htaking]; exact .refl _) h.nodup trivial
    · rename_i htaking
      refine h.letGo hl rfl rfl (by rw [htaking]; rfl) (Phase.covers_of_locked?_eq_none rfl) ?_
      exact fun e he => .inr (Coordinator.mem_leave.1 he)
    · rename_i r rest htaking
      have hlt : l.worker < s.coordinator.workers.length := (List.getElem?_eq_some_iff.1 hat).1
      have hr : r ∈ s.coordinator.keeper.names := by
        refine h.mem_names hlt ?_
        rw [custody_of_locking hl, htaking]
        exact List.mem_cons_self
      have hnames := LockKeeper.names_release s.coordinator.files h.nodup r
      refine h.retake hl (c := { s.coordinator with
        files := (s.coordinator.keeper.release s.coordinator.files r).1
        keeper := (s.coordinator.keeper.release s.coordinator.files r).2 }) rfl rfl ?_ ?_ trivial
      · rw [htaking, hnames]
        exact perm_erase_cons hr rest
      · rw [hnames]
        exact h.nodup.erase r

theorem accounted_move (h : s.Accounted) (m : Move ω) : (s.move m).Accounted := by
  cases m with
  | turn t => exact accounted_happen h t
  | begin w now => exact accounted_begin h w now
  | proceed => exact accounted_proceed h

/-- In every scene that a balanced one can come to, the account is in balance. -/
theorem accounted_run (h : s.Accounted) (ms : List (Move ω)) : (s.run ms).Accounted := by
  induction ms generalizing s with
  | nil => exact h
  | cons m ms ih => exact ih (accounted_move h m)

theorem accounted_create {config : CoordinatorConfig} {fs : Files} {c : Coordinator ω}
    (h : Coordinator.create config fs = .ok c) : Accounted { coordinator := c } := by
  obtain ⟨hheld, hrunning, hidle⟩ : c.keeper.held = [] ∧ c.running = [] ∧
      ∀ phase ∈ c.workers, phase = .idle := by
    unfold Coordinator.create at h
    split at h
    · cases h
    · dsimp only at h
      split at h
      · cases h
      · rename_i keeper hkeeper
        cases h
        refine ⟨?_, rfl, fun phase hphase => (List.mem_replicate.1 hphase).2⟩
        unfold LockKeeper.create at hkeeper
        split at hkeeper
        · cases hkeeper
          rfl
        · cases hkeeper
  have hnames : c.keeper.names = [] := by rw [LockKeeper.names, hheld, List.map_nil]
  have hphase {v : Nat} {phase : Phase ω} (hv : c.workers[v]? = some phase) : phase = .idle :=
    hidle phase (List.mem_of_getElem? hv)
  have hcustody (v : Nat) : custody { coordinator := c } v = [] := by
    cases hv : c.workers[v]? with
    | none => exact custody_of_le rfl (List.getElem?_eq_none_iff.1 hv)
    | some phase =>
      rw [custody_of_phase rfl hv, hphase hv]
      rfl
  constructor
  case names =>
    show c.keeper.names.Perm _
    rw [hnames, List.flatMap_eq_nil_iff.2 fun v _ => hcustody v]
  case nodup =>
    show c.keeper.names.Nodup
    rw [hnames]
    exact .nil
  case locking =>
    intro l hl
    cases hl
  case covers =>
    intro v phase hv
    rw [hphase hv]
    exact Phase.covers_of_locked?_eq_none rfl
  case running =>
    intro e he
    have he : e ∈ c.running := he
    rw [hrunning] at he
    cases he

/-! ## Who has which lock -/

theorem Accounted.custody_of_le (h : s.Accounted) (hw : s.coordinator.workers.length ≤ w) :
    s.custody w = [] := by
  refine Scene.custody_of_le (Option.eq_none_iff_forall_ne_some.2 fun l hl => ?_) hw
  obtain ⟨hlocking, rfl⟩ := lockingOf?_eq_some_iff.1 hl
  have hlt := (List.getElem?_eq_some_iff.1 (h.locking l hlocking).1).1
  omega

/-- A worker whose operation is locked is not taking locks. -/
theorem Accounted.custody_of_locked (h : s.Accounted) {phase : Phase ω} {op : Submitted ω}
    (hw : s.coordinator.workers[w]? = some phase) (hop : phase.locked? = some op) :
    s.custody w = phase.locks := by
  refine custody_of_phase (Option.eq_none_iff_forall_ne_some.2 fun l hl => ?_) hw
  obtain ⟨hlocking, rfl⟩ := lockingOf?_eq_some_iff.1 hl
  obtain rfl := Option.some.inj (hw.symm.trans (h.locking l hlocking).1)
  cases hop

/-- Each lock is in one worker's custody. -/
structure LocksOwned (s : Scene ω) : Prop where
  /-- The table is the union of what the workers have in custody. -/
  held : s.coordinator.keeper.heldNames.Perm
    ((List.range s.coordinator.workers.length).flatMap s.custody)
  /-- The union is disjoint. -/
  disjoint : ∀ v w r, r ∈ s.custody v → r ∈ s.custody w → v = w
  nodup : ∀ w, (s.custody w).Nodup
  /-- From its locking to its release, the paths of an operation are in custody. -/
  covered : ∀ (w : Nat) (phase : Phase ω) (op : Submitted ω),
    s.coordinator.workers[w]? = some phase → phase.locked? = some op →
      ∀ p, p ∈ op.paths ↔ p ∈ s.custody w
  /-- In that time no other operation has one of the paths locked. -/
  apart : ∀ (v w : Nat) (phase phase' : Phase ω) (op op' : Submitted ω), v ≠ w →
    s.coordinator.workers[v]? = some phase → phase.locked? = some op →
      s.coordinator.workers[w]? = some phase' → phase'.locked? = some op' →
        ∀ p ∈ op.paths, p ∉ op'.paths
  /-- Without an operation in hand nothing is left. -/
  rest : (∀ phase ∈ s.coordinator.workers, phase.isAtWork = false) →
    s.coordinator.keeper.heldNames = [] ∧ s.coordinator.running = []

/-- What two workers have in custody is apart, and each has nothing twice. -/
theorem Accounted.custody_apart (h : s.Accounted) :
    (∀ v, (s.custody v).Nodup) ∧
      ∀ v w r, r ∈ s.custody v → r ∈ s.custody w → v = w := by
  have hnodup := h.names.nodup_iff.1 h.nodup
  obtain ⟨heach, hpairwise⟩ := List.nodup_flatMap.1 hnodup
  have hsymm : Std.Symm (Function.onFun List.Disjoint s.custody) := ⟨fun _ _ hd _ hv hw => hd hw hv⟩
  constructor
  · intro v
    by_cases hv : v < s.coordinator.workers.length
    · exact heach v (List.mem_range.2 hv)
    · rw [h.custody_of_le (Nat.le_of_not_lt hv)]
      exact .nil
  · intro v w r hv hw
    have hrange {u : Nat} (hu : r ∈ s.custody u) :
        u ∈ List.range s.coordinator.workers.length := by
      rw [List.mem_range]
      by_contra hle
      rw [h.custody_of_le (Nat.le_of_not_lt hle)] at hu
      cases hu
    by_contra hne
    exact hpairwise.forall (hrange hv) (hrange hw) hne hv hw

theorem Accounted.rest (h : s.Accounted)
    (hidle : ∀ phase ∈ s.coordinator.workers, phase.isAtWork = false) :
    s.coordinator.keeper.names = [] ∧ s.coordinator.running = [] := by
  have hfree (v : Nat) : s.lockingOf? v = none := by
    refine Option.eq_none_iff_forall_ne_some.2 fun l hl => ?_
    have hat := (h.locking l (lockingOf?_eq_some_iff.1 hl).1).1
    cases hidle _ (List.mem_of_getElem? hat)
  constructor
  · refine List.Perm.eq_nil (h.names.trans ?_)
    rw [List.flatMap_eq_nil_iff.2 fun v _ => ?_]
    cases hv : s.coordinator.workers[v]? with
    | none => exact Scene.custody_of_le (hfree v) (List.getElem?_eq_none_iff.1 hv)
    | some phase =>
      rw [custody_of_phase (hfree v) hv]
      exact Phase.locks_of_not_isAtWork (hidle phase (List.mem_of_getElem? hv))
  · refine List.eq_nil_iff_forall_not_mem.2 fun e he => ?_
    obtain ⟨v, phase, hv, hserved⟩ := h.running e he
    rw [Phase.served?_of_not_isAtWork (hidle phase (List.mem_of_getElem? hv))] at hserved
    cases hserved

theorem Accounted.locksOwned (h : s.Accounted) : s.LocksOwned := by
  obtain ⟨hnodup, hdisjoint⟩ := h.custody_apart
  have hcovered (w : Nat) (phase : Phase ω) (op : Submitted ω)
      (hw : s.coordinator.workers[w]? = some phase) (hop : phase.locked? = some op) (p : String) :
      p ∈ op.paths ↔ p ∈ s.custody w := by
    rw [h.custody_of_locked hw hop]
    exact h.covers w phase hw op hop p
  constructor
  case held => exact (List.mergeSort_perm _ _).trans h.names
  case disjoint => exact hdisjoint
  case nodup => exact hnodup
  case covered => exact hcovered
  case apart =>
    intro v w phase phase' op op' hne hv hop hw hop' p hp hp'
    exact hne (hdisjoint v w p ((hcovered v phase op hv hop p).1 hp)
      ((hcovered w phase' op' hw hop' p).1 hp'))
  case rest =>
    intro hidle
    obtain ⟨hnames, hrunning⟩ := h.rest hidle
    refine ⟨?_, hrunning⟩
    show s.coordinator.keeper.names.mergeSort _ = []
    rw [hnames, List.mergeSort_nil]

/-- Whatever happens to a new coordinator, each lock is in one worker's custody. -/
theorem locksOwned_run {config : CoordinatorConfig} {fs : Files} {c : Coordinator ω}
    (h : Coordinator.create config fs = .ok c) (ms : List (Move ω)) :
    (run { coordinator := c } ms).LocksOwned :=
  (accounted_run (accounted_create h) ms).locksOwned

/-- One operation is submitted, and the first worker goes as far as its locks. -/
def lockingOnePath : List (Move Unit) :=
  .turn (.submit { id := "sync", paths := ["/data/a"], job := () } default) ::
    List.replicate 6 (.turn (.work 0 { reading := 1099511627776 })) ++
      [.begin 0 default, .proceed, .proceed]

theorem locksOwned_lockingOnePath : ∃ c : Coordinator Unit, Coordinator.create {} {} = .ok c ∧
    (run { coordinator := c } lockingOnePath).custody 0 = ["/data/a"] ∧
      (run { coordinator := c } lockingOnePath).LocksOwned := by
  have h : ((Coordinator.create {} {}).toOption.map fun c : Coordinator Unit =>
      (run { coordinator := c } lockingOnePath).custody 0) = some ["/data/a"] := by
    decide +kernel
  cases hc : (Coordinator.create {} {} : Except CoordinatorFault (Coordinator Unit)) with
  | error fault =>
    rw [hc] at h
    cases h
  | ok c =>
    rw [hc] at h
    exact ⟨c, rfl, Option.some.inj h, locksOwned_run hc lockingOnePath⟩

end Scene

end Upkeep
