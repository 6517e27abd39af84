import Mathlib.Logic.Function.Iterate
import Upkeep.Coordinator.Caller
import Upkeep.Coordinator.Worker

/-!
# Runs of a coordinator

**Turns.** Workers, callers and the rest of the world take turns. `Coordinator.run` plays any list
of turns, which are the steps of `Coordinator` and changes that others make to the files.

**Scenes.** In `Coordinator.start` one step enters an operation and takes all its locks. Between two
of its locks, however, other workers may give up theirs. A `Scene` splits that step: a worker
`begin`s, and then `proceed`s by one lock at a time, or gives back one lock at a time, and others
take turns in between. What is guarded by the mutex that it holds has to wait. `begin_proceed` says
that a worker that nobody interrupts does what `start` does at once.
-/

namespace Upkeep

/-- The turn of a worker, a caller, or the rest of the world. -/
inductive Turn (ω : Type) where
  | work (w : Nat) (env : Surroundings)
  | submit (r : SubmitRequest ω) (now : Timestamp)
  | cancel (id : String)
  | settle (k : Nat)
  | raiseStop
  | shutQueue
  /-- Others leave the files like this. -/
  | disturb (fs : Files)

namespace Coordinator

variable {ω : Type}

/-- The coordinator with a worker in another phase. -/
def setPhase (c : Coordinator ω) (w : Nat) (phase : Phase ω) : Coordinator ω :=
  { c with workers := c.workers.set w phase }

/-- The coordinator after a turn. -/
def happen (c : Coordinator ω) : Turn ω → Coordinator ω
  | .work w env => c.work env w
  | .submit r now => (c.submit r now).2
  | .cancel id => (c.cancel id).2
  | .settle k => c.settle k
  | .raiseStop => c.raiseStop
  | .shutQueue => c.shutQueue
  | .disturb files => { c with files }

/-- The coordinator after some turns. -/
def run (c : Coordinator ω) (ts : List (Turn ω)) : Coordinator ω := ts.foldl happen c

theorem work_eq {c : Coordinator ω} {w : Nat} {phase : Phase ω} (h : c.workers[w]? = some phase)
    (env : Surroundings) :
    c.work env w = (c.advance env phase).2.setPhase w (c.advance env phase).1 := by
  simp only [work, h, setPhase]

theorem work_of_none {c : Coordinator ω} {w : Nat} (h : c.workers[w]? = none)
    (env : Surroundings) : c.work env w = c := by
  simp only [work, h]

/-! ## What callers leave alone -/

theorem submit_frame (c : Coordinator ω) (r : SubmitRequest ω) (now : Timestamp) :
    (c.submit r now).2.keeper = c.keeper ∧ (c.submit r now).2.running = c.running ∧
      (c.submit r now).2.workers = c.workers := by
  unfold submit
  split
  · exact ⟨rfl, rfl, rfl⟩
  · dsimp only
    split <;> exact ⟨rfl, rfl, rfl⟩

theorem cancel_frame (c : Coordinator ω) (id : String) :
    (c.cancel id).2.keeper = c.keeper ∧ (c.cancel id).2.running = c.running ∧
      (c.cancel id).2.workers = c.workers := by
  unfold cancel
  split
  · exact ⟨rfl, rfl, rfl⟩
  · split <;> exact ⟨rfl, rfl, rfl⟩

theorem settle_frame (c : Coordinator ω) (k : Nat) :
    (c.settle k).keeper = c.keeper ∧ (c.settle k).running = c.running ∧
      (c.settle k).workers = c.workers := by
  unfold settle
  split <;> exact ⟨rfl, rfl, rfl⟩

/-- A turn that is not a worker's leaves the table, the running operations and the workers alone. -/
theorem happen_frame (c : Coordinator ω) {t : Turn ω} (h : ∀ w env, t ≠ .work w env) :
    (c.happen t).keeper = c.keeper ∧ (c.happen t).running = c.running ∧
      (c.happen t).workers = c.workers := by
  cases t with
  | work w env => exact absurd rfl (h w env)
  | submit r now => exact submit_frame c r now
  | cancel id => exact cancel_frame c id
  | settle k => exact settle_frame c k
  | raiseStop => exact ⟨rfl, rfl, rfl⟩
  | shutQueue => exact ⟨rfl, rfl, rfl⟩
  | disturb files => exact ⟨rfl, rfl, rfl⟩

end Coordinator

/-! ## Scenes -/

/-- How far a worker is that takes the locks of an operation one by one. -/
inductive Taking where
  /-- These are taken, the oldest first, and those are left to take. -/
  | onward (taken rest : List String)
  /-- One could not be taken; these are still to be given back. -/
  | back (locks : List String)

/-- The locks taken and not given back. -/
def Taking.locks : Taking → List String
  | onward taken _ => taken
  | back locks => locks

/-- A worker between two of the locks of an operation. -/
structure Locking (ω : Type) where
  worker : Nat
  op : Submitted ω
  now : Timestamp
  taking : Taking

/-- The operation with the time of its start. -/
def Locking.begun {ω : Type} (l : Locking ω) : Submitted ω := { l.op with started := some l.now }

/-- The steps of a worker in this phase are taken under the mutex of the running operations. -/
def Phase.isGuarded {ω : Type} : Phase ω → Bool
  | rejecting .. | losing | entering _ | leaving .. => true
  | _ => false

/-- A coordinator, and the worker that holds the mutex of the running operations, if any. -/
structure Scene (ω : Type) where
  coordinator : Coordinator ω
  locking? : Option (Locking ω) := none

/-- What may happen in a scene. -/
inductive Move (ω : Type) where
  | turn (t : Turn ω)
  /-- A worker with an admitted operation takes the mutex and enters the operation. -/
  | begin (w : Nat) (now : Timestamp)
  /-- The worker with the mutex makes one step: it takes a lock or fails to, gives one back, or is
  through and lets the mutex go. -/
  | proceed

namespace Scene

variable {ω : Type}

/-- A worker has to wait for the mutex. -/
def waits (s : Scene ω) (w : Nat) : Bool :=
  match s.locking?, s.coordinator.workers[w]? with
  | some l, some phase => l.worker = w || phase.isGuarded
  | _, _ => false

/-- Somebody takes a turn, unless it is a worker that waits. -/
def happen (s : Scene ω) (t : Turn ω) : Scene ω :=
  match t with
  | .work w env => if s.waits w then s else { s with coordinator := s.coordinator.work env w }
  | t => { s with coordinator := s.coordinator.happen t }

/-- Only workers may have to wait. -/
theorem happen_of_ne_work (s : Scene ω) {t : Turn ω} (h : ∀ w env, t ≠ .work w env) :
    s.happen t = { s with coordinator := s.coordinator.happen t } := by
  cases t with
  | work w env => exact absurd rfl (h w env)
  | _ => rfl

/-- A worker enters its operation. -/
def begin (s : Scene ω) (w : Nat) (now : Timestamp) : Scene ω :=
  match s.locking?, s.coordinator.workers[w]? with
  | none, some (.entering op) =>
    let l : Locking ω := ⟨w, op, now, .onward [] op.paths⟩
    { coordinator := s.coordinator.enter l.begun, locking? := some l }
  | _, _ => s

/-- The worker with the mutex makes a step. -/
def advance (c : Coordinator ω) (l : Locking ω) : Scene ω :=
  match l.taking with
  | .onward taken [] =>
    { coordinator := (c.count fun m => { m with started := m.started + 1 }).setPhase l.worker
        (.starting l.begun taken) }
  | .onward taken (r :: rest) =>
    if r ∈ taken then ⟨c, some { l with taking := .onward taken rest }⟩
    else match c.keeper.acquireUnheld c.files r .exclusive with
      | (true, files, keeper) =>
        ⟨{ c with files, keeper }, some { l with taking := .onward (taken ++ [r]) rest }⟩
      | (false, files, keeper) => ⟨{ c with files, keeper }, some { l with taking := .back taken }⟩
  | .back [] =>
    { coordinator := ((c.leave l.op.id).count fun m =>
        { m with resourceConflicts := m.resourceConflicts + 1 }).setPhase l.worker
          (.conflicted l.op) }
  | .back (r :: rest) =>
    let (files, keeper) := c.keeper.release c.files r
    ⟨{ c with files, keeper }, some { l with taking := .back rest }⟩

def proceed (s : Scene ω) : Scene ω :=
  match s.locking? with
  | none => s
  | some l => advance s.coordinator l

/-- The scene after a move. -/
def move (s : Scene ω) : Move ω → Scene ω
  | .turn t => s.happen t
  | .begin w now => s.begin w now
  | .proceed => s.proceed

/-- The scene after some moves. -/
def run (s : Scene ω) (ms : List (Move ω)) : Scene ω := ms.foldl move s

/-! ## A worker that nobody interrupts -/

/-- The scene after the worker with the mutex is through, with or without its locks. -/
def through (c : Coordinator ω) (l : Locking ω) (taken : Option (List String)) : Scene ω :=
  match taken with
  | some locks => advance c { l with taking := .onward locks [] }
  | none => advance c { l with taking := .back [] }

theorem proceed_iterate_back (rs : List String) (c : Coordinator ω) (l : Locking ω) :
    ∃ n, proceed^[n] ⟨c, some { l with taking := .back rs }⟩ =
      through { c with
        files := (rs.foldl (fun (fs, k) r => k.release fs r) (c.files, c.keeper)).1
        keeper := (rs.foldl (fun (fs, k) r => k.release fs r) (c.files, c.keeper)).2 } l none := by
  induction rs generalizing c with
  | nil => exact ⟨1, rfl⟩
  | cons r rest ih =>
    obtain ⟨n, hn⟩ := ih { c with
      files := (c.keeper.release c.files r).1, keeper := (c.keeper.release c.files r).2 }
    exact ⟨n + 1, hn⟩

theorem proceed_iterate_onward (rest taken : List String) (c : Coordinator ω) (l : Locking ω)
    {o : Option (List String)} {fs : Files} {k : LockKeeper}
    (h : LockKeeper.acquireAll.go c.keeper c.files taken.reverse rest = (o, fs, k)) :
    ∃ n, proceed^[n] ⟨c, some { l with taking := .onward taken rest }⟩ =
      through { c with files := fs, keeper := k } l o := by
  induction rest generalizing taken c with
  | nil =>
    rw [LockKeeper.acquireAll.go, List.reverse_reverse] at h
    cases h
    exact ⟨1, rfl⟩
  | cons r rest ih =>
    rw [LockKeeper.acquireAll.go] at h
    by_cases hr : r ∈ taken
    · rw [if_pos (List.mem_reverse.2 hr)] at h
      obtain ⟨n, hn⟩ := ih taken c h
      refine ⟨n + 1, ?_⟩
      rw [Function.iterate_succ_apply, ← hn]
      simp only [proceed, advance, if_pos hr]
    · rw [if_neg (mt List.mem_reverse.1 hr)] at h
      cases hl : c.keeper.acquireUnheld c.files r .exclusive with
      | mk done fk =>
        rw [hl] at h
        cases done with
        | true =>
          have hgo :
              LockKeeper.acquireAll.go fk.2 fk.1 (taken ++ [r]).reverse rest = (o, fs, k) := by
            rwa [List.reverse_append]
          obtain ⟨n, hn⟩ := ih (taken ++ [r]) { c with files := fk.1, keeper := fk.2 } hgo
          refine ⟨n + 1, ?_⟩
          rw [Function.iterate_succ_apply, ← hn]
          simp only [proceed, advance, if_neg hr, hl]
        | false =>
          dsimp only at h
          rw [List.reverse_reverse] at h
          cases h
          obtain ⟨n, hn⟩ :=
            proceed_iterate_back taken { c with files := fk.1, keeper := fk.2 } l
          refine ⟨n + 1, ?_⟩
          rw [Function.iterate_succ_apply, ← hn]
          simp only [proceed, advance, if_neg hr, hl]

/-- A worker that nobody interrupts enters an operation and takes its locks as `start` does. -/
theorem begin_proceed {c : Coordinator ω} {w : Nat} {op : Submitted ω}
    (h : c.workers[w]? = some (.entering op)) (env : Surroundings) :
    ∃ n, proceed^[n] (begin { coordinator := c } w env.now) =
      { coordinator := c.work env w } := by
  have hwork := Coordinator.work_eq h env
  simp only [Coordinator.advance, Coordinator.start] at hwork
  cases hl : (c.enter { op with started := some env.now }).keeper.acquireAll
      (c.enter { op with started := some env.now }).files op.paths with
  | mk o fk =>
    obtain ⟨n, hn⟩ := proceed_iterate_onward op.paths []
      (c.enter { op with started := some env.now }) ⟨w, op, env.now, .onward [] []⟩ hl
    refine ⟨n, ?_⟩
    simp only [begin, h]
    refine hn.trans ?_
    rw [hwork, hl]
    cases o with
    | some locks => rfl
    | none => rfl

end Scene

end Upkeep
