import Mathlib.Data.List.Induction
import Upkeep.Coordinator.Vigil
import Upkeep.Proofs.Coordinator.Deeds

/-!
# Idle means idle

**The count.** A worker is out from the moment at which it dequeues an operation until it tells the
queue that it is done with it (`Phase.isOut`); on the way it may put the operation back. The queue
counts the workers that are out (`Floor.Counted`): every stride changes the count as it changes the
worker, and the queue is told only by workers that are out, so the count never falls short.

**The answer.** A caller waits while everything goes on (`Watch`). It is told that the coordinator
is idle only after a look at the queue in which it found nothing queued and nobody out. At that
moment no worker has an operation in hand, and therefore nothing is running either
(`idle_of_isDrained`), whatever has happened since the look at the running operations
(`watched_run`).
-/

namespace Upkeep

variable {ω : Type}

/-! ## Workers that are out -/

/-- The worker has dequeued an operation and has not told the queue that it is done with it. -/
def Phase.isOut : Phase ω → Bool
  | idle | ready | stopped => false
  | _ => true

namespace Stance

/-- An entry for a worker that is out. -/
def out : Stance ω → List Unit
  | free => []
  | _ => [()]

end Stance

theorem Phase.length_out (phase : Phase ω) :
    phase.stance.out.length = if phase.isOut then 1 else 0 := by
  cases phase <;> rfl

theorem Phase.isAtWork_of_not_isOut {phase : Phase ω} (h : phase.isOut = false) :
    phase.isAtWork = false := by
  cases phase <;> first | rfl | cases h

/-- A stride takes a worker out or brings it back as it changes the count, which has to be positive
where it is lowered. -/
theorem Stride.checkedOut {w : Nat} {d : Deed ω} {b b' : Books ω} {st st' : Stance ω}
    (h : Stride w d b st b' st') (hpos : st = .finishing → 0 < b.queue.checkedOut) :
    b'.queue.checkedOut + st.out.length = b.queue.checkedOut + st'.out.length := by
  cases h with
  | take h =>
    obtain ⟨rest, -, rfl⟩ := Queue.dequeue?_eq_some h
    rfl
  | putBack h =>
    obtain ⟨-, rfl⟩ := Queue.enqueue_eq_ok h
    rfl
  | finish => exact Nat.sub_add_cancel (hpos rfl)
  | abandon op h => rcases h with rfl | rfl <;> rfl
  | breakOff op h => rcases h with rfl | rfl <;> rfl
  | _ => rfl

namespace Floor

variable {f f' : Floor ω} {d : Deed ω}

/-- The queue counts the workers that are out. -/
def Counted (f : Floor ω) : Prop := f.books.queue.checkedOut = (f.gather Stance.out).length

theorem Counted.pos (h : f.Counted) {w : Nat} (hw : w < f.size) (hout : f.stance w ≠ .free) :
    0 < f.books.queue.checkedOut := by
  rw [h]
  refine List.length_pos_of_mem (a := ()) (mem_gather.2 ⟨w, hw, ?_⟩)
  cases hst : f.stance w with
  | free => exact absurd hst hout
  | _ => exact List.mem_cons_self

theorem Counted.step (h : f.Counted) (hstep : f.Step d f') : f'.Counted := by
  cases hstep with
  | idle => exact h
  | refuse => exact h
  | accept _ _ hok =>
    obtain ⟨-, rfl⟩ := Queue.enqueue_eq_ok hok
    exact h
  | cancel hok =>
    obtain ⟨-, before, after, -, rfl⟩ := Queue.remove?_eq_some hok
    exact h
  | shut => exact h
  | @work w _ b st hw hstride =>
    have hown := hstride.checkedOut fun hfinishing => h.pos hw (by rw [hfinishing]; simp)
    have hall := (f.gather_stride hw Stance.out b st).length_eq
    rw [List.length_append, List.length_append, ← h] at hall
    show b.queue.checkedOut = _
    omega

end Floor

theorem length_flatMap_range {α β : Type} {p : α → Bool} {l : List α} {g : Nat → List β}
    (h : ∀ (i : Nat) (a : α), l[i]? = some a → (g i).length = if p a then 1 else 0) :
    ((List.range l.length).flatMap g).length = l.countP p := by
  induction l generalizing g with
  | nil => rfl
  | cons a l ih =>
    have hrest : ((List.range l.length).flatMap fun i => g (i + 1)).length = l.countP p :=
      ih fun i b hb => h (i + 1) b hb
    rw [List.length_cons, List.range_succ_eq_map, List.flatMap_cons, List.length_append,
      List.flatMap_map, List.countP_cons, Nat.add_comm, h 0 a rfl]
    exact congrArg (· + _) hrest

/-! ## An idle coordinator -/

namespace Scene

variable {s : Scene ω}

/-- No operation is queued, in a worker's hands, or running. -/
structure Idle (s : Scene ω) : Prop where
  queued : s.coordinator.queue.entries = []
  inHand : ∀ phase ∈ s.coordinator.workers, phase.isOut = false
  running : s.coordinator.running = []

theorem length_out_stance (h : s.Accounted) {w : Nat} {phase : Phase ω}
    (hw : s.coordinator.workers[w]? = some phase) :
    (s.stance w).out.length = if phase.isOut then 1 else 0 := by
  cases hlocking : s.lockingOf? w with
  | none => rw [stance_of_phase hlocking hw, phase.length_out]
  | some l =>
    obtain ⟨hl, rfl⟩ := lockingOf?_eq_some_iff.1 hlocking
    have hphase : phase = .entering l.op :=
      Option.some.inj (hw.symm.trans (h.locking l hl).1)
    rw [stance_of_locking hl, hphase]
    rfl

theorem checkedOut_eq (h : s.Accounted) (hcounted : s.floor.Counted) :
    s.coordinator.queue.checkedOut = s.coordinator.workers.countP Phase.isOut :=
  hcounted.trans (length_flatMap_range fun _ _ hw => length_out_stance h hw)

theorem idle_of_isDrained (h : s.Accounted) (hcounted : s.floor.Counted)
    (hdrained : s.coordinator.queue.isDrained) : s.Idle := by
  obtain ⟨hempty, hzero⟩ := Bool.and_eq_true_iff.1 hdrained
  have hnone : s.coordinator.workers.countP Phase.isOut = 0 :=
    (checkedOut_eq h hcounted).symm.trans (of_decide_eq_true hzero)
  have hinHand : ∀ phase ∈ s.coordinator.workers, phase.isOut = false := fun phase hphase =>
    Bool.eq_false_iff.2 (List.countP_eq_zero.1 hnone phase hphase)
  exact ⟨List.isEmpty_iff.1 hempty, hinHand,
    (h.rest fun phase hphase => Phase.isAtWork_of_not_isOut (hinHand phase hphase)).2⟩

theorem counted_run {config : CoordinatorConfig} {fs : Files} {c : Coordinator ω}
    (h : Coordinator.create config fs = .ok c) (ms : List (Move ω)) :
    (run { coordinator := c } ms).floor.Counted := by
  refine floor_run (fun f d f' hf _ hstep => hf.step hstep) (accounted_create h)
    (goes_true _ ms) ?_
  rw [floor_create h, Floor.Counted, Floor.gather_eq_nil fun _ => rfl]
  rfl

end Scene

/-! ## A caller that waits -/

namespace Coordinator

/-- A caller that nobody interrupts between its two looks learns whether the coordinator is idle. -/
theorem watch_watch_iff (c : Coordinator ω) (now now' : Nat) (deadline? : Option Nat) :
    (c.watch now' (c.watch now { deadline? })).vigil = .answered true ↔ c.isIdle := by
  simp only [watch, isIdle, Bool.and_eq_true]
  cases c.running.isEmpty with
  | true => cases c.queue.isDrained <;> simp
  | false =>
    simp only [Bool.false_eq_true, if_false, false_and, iff_false]
    split
    · exact Vigil.noConfusion
    · split <;> simp

/-- Only a look at the queue that finds it drained tells a caller that the coordinator is idle. -/
theorem of_watch_answered {c : Coordinator ω} {now : Nat} {wait : Wait}
    (h : (c.watch now wait).vigil = .answered true) :
    wait.vigil = .answered true ∨ wait.vigil = .checking ∧ c.queue.isDrained := by
  obtain ⟨deadline?, vigil⟩ := wait
  cases vigil with
  | looking =>
    simp only [watch] at h
    split at h <;> cases h
  | checking =>
    simp only [watch] at h
    split at h
    · rename_i hdrained
      exact .inr ⟨rfl, hdrained⟩
    · cases h
  | pausing =>
    simp only [watch] at h
    split at h
    · cases h
    · split at h <;> cases h
  | sleeping nanos => cases h
  | answered isIdle => exact .inl h

end Coordinator

/-- A scene, and a caller that may be waiting. -/
structure Watch (ω : Type) where
  scene : Scene ω
  wait? : Option Wait := none

/-- What may happen while a caller waits. -/
inductive Glance (ω : Type) where
  | other (m : Move ω)
  /-- The caller begins to wait. -/
  | begin (now : Nat) (timeout? : Option Duration)
  /-- The caller makes a step. -/
  | look (now : Nat)

/-- What happens to the coordinator. -/
def Glance.move? : Glance ω → Option (Move ω)
  | other m => some m
  | begin .. | look _ => none

namespace Watch

variable {s : Watch ω}

/-- The caller is at a point of its call. -/
def IsAt (s : Watch ω) (vigil : Vigil) : Prop := s.wait?.map (·.vigil) = some vigil

instance (s : Watch ω) (vigil : Vigil) : Decidable (s.IsAt vigil) :=
  inferInstanceAs (Decidable (_ = _))

/-- The caller makes a step, unless it wants the mutex that a worker holds. -/
def look (s : Watch ω) (now : Nat) : Watch ω :=
  if s.IsAt .looking ∧ s.scene.locking?.isSome then s
  else { s with wait? := s.wait?.map (s.scene.coordinator.watch now) }

def glance (s : Watch ω) : Glance ω → Watch ω
  | .other m => { s with scene := s.scene.move m }
  | .begin now timeout? => { s with wait? := some (.begin now timeout?) }
  | .look now => s.look now

def run (s : Watch ω) (gs : List (Glance ω)) : Watch ω := gs.foldl glance s

theorem run_concat (s : Watch ω) (gs : List (Glance ω)) (g : Glance ω) :
    s.run (gs ++ [g]) = (s.run gs).glance g := List.foldl_concat _ _ _ _

theorem scene_look (s : Watch ω) (now : Nat) : (s.look now).scene = s.scene := by
  unfold look
  split <;> rfl

theorem scene_run (s : Watch ω) (gs : List (Glance ω)) :
    (s.run gs).scene = s.scene.run (gs.filterMap Glance.move?) := by
  induction gs generalizing s with
  | nil => rfl
  | cons g gs ih =>
    refine (ih (s.glance g)).trans ?_
    cases g with
    | other m => rfl
    | begin now timeout? => rfl
    | look now => exact congrArg (Scene.run · _) (s.scene_look now)

theorem of_look_answered {now : Nat} (h : (s.look now).IsAt (.answered true)) :
    s.IsAt (.answered true) ∨ s.IsAt .checking ∧ s.scene.coordinator.queue.isDrained := by
  unfold look at h
  split at h
  · exact .inl h
  · obtain ⟨wait', hwait', hvigil⟩ := Option.map_eq_some_iff.1 h
    obtain ⟨wait, hwait, rfl⟩ := Option.map_eq_some_iff.1 hwait'
    unfold IsAt
    rw [hwait]
    rcases Coordinator.of_watch_answered hvigil with hsame | ⟨hchecking, hdrained⟩
    · exact .inl (congrArg some hsame)
    · exact .inr ⟨congrArg some hchecking, hdrained⟩

/-- After the first of some steps, the caller looked at the queue and found it drained, and it has
not begun to wait anew since. -/
def DrainedAfter (s : Watch ω) (gs first : List (Glance ω)) : Prop :=
  ∃ now rest, gs = first ++ .look now :: rest ∧ (∀ now timeout?, .begin now timeout? ∉ rest) ∧
    (s.run first).IsAt .checking ∧ (s.run first).scene.coordinator.queue.isDrained

theorem DrainedAfter.isDrained {gs first : List (Glance ω)} (h : s.DrainedAfter gs first) :
    (s.run first).scene.coordinator.queue.isDrained := by
  obtain ⟨now, rest, -, -, -, hdrained⟩ := h
  exact hdrained

theorem DrainedAfter.concat {gs first : List (Glance ω)} (h : s.DrainedAfter gs first)
    {g : Glance ω} (hg : ∀ now timeout?, .begin now timeout? ≠ g) :
    s.DrainedAfter (gs ++ [g]) first := by
  obtain ⟨now, rest, rfl, hbegin, hcheck⟩ := h
  refine ⟨now, rest ++ [g], List.append_assoc _ _ _, fun now timeout? hmem => ?_, hcheck⟩
  rcases List.mem_append.1 hmem with hold | hlast
  · exact hbegin now timeout? hold
  · exact hg now timeout? (List.mem_singleton.1 hlast)

/-- A caller that was told that the coordinator is idle has found the queue drained. -/
theorem exists_drainedAfter {gs : List (Glance ω)} (hnew : s.wait? = none)
    (h : (s.run gs).IsAt (.answered true)) : ∃ first, s.DrainedAfter gs first := by
  induction gs using List.reverseRecOn with
  | nil =>
    rw [IsAt, run, List.foldl_nil, hnew] at h
    cases h
  | append_singleton gs g ih =>
    rw [run_concat] at h
    cases g with
    | other m =>
      obtain ⟨first, hfirst⟩ := ih h
      exact ⟨first, hfirst.concat fun _ _ => nofun⟩
    | begin now timeout? => cases h
    | look now =>
      rcases of_look_answered h with hearlier | ⟨hchecking, hdrained⟩
      · obtain ⟨first, hfirst⟩ := ih hearlier
        exact ⟨first, hfirst.concat fun _ _ => nofun⟩
      · exact ⟨gs, now, [], rfl, fun _ _ => List.not_mem_nil, hchecking, hdrained⟩

/-- What holds of a coordinator at which a caller waits. -/
structure Watched (s : Watch ω) (gs : List (Glance ω)) : Prop where
  /-- The queue counts the workers that are out. -/
  counted : (s.run gs).scene.coordinator.queue.checkedOut =
    (s.run gs).scene.coordinator.workers.countP Phase.isOut
  /-- When a worker tells the queue that it is done, the count goes down. -/
  lowered : ∀ w : Nat, (s.run gs).scene.coordinator.workers[w]? = some .finishing →
    (s.run gs).scene.coordinator.queue.taskDone.checkedOut + 1 =
      (s.run gs).scene.coordinator.queue.checkedOut
  /-- If the caller was told that the coordinator is idle, then it was when the caller looked at the
  queue. -/
  idle : (s.run gs).IsAt (.answered true) →
    ∃ first, s.DrainedAfter gs first ∧ (s.run first).scene.Idle

/-- Whatever happens to a new coordinator, who waits for it to be idle is told the truth. -/
theorem watched_run {config : CoordinatorConfig} {fs : Files} {c : Coordinator ω}
    (h : Coordinator.create config fs = .ok c) (gs : List (Glance ω)) :
    Watched { scene := { coordinator := c } } gs := by
  have hall (gs : List (Glance ω)) :
      (run { scene := { coordinator := c } } gs).scene.Accounted ∧
        (run { scene := { coordinator := c } } gs).scene.floor.Counted := by
    rw [scene_run]
    exact ⟨Scene.accounted_run (Scene.accounted_create h) _, Scene.counted_run h _⟩
  obtain ⟨haccounted, hcounted⟩ := hall gs
  have hcount := Scene.checkedOut_eq haccounted hcounted
  constructor
  case counted => exact hcount
  case lowered =>
    intro w hw
    refine Nat.sub_add_cancel ?_
    rw [hcount, Nat.succ_le_iff, List.countP_pos_iff]
    exact ⟨_, List.mem_of_getElem? hw, rfl⟩
  case idle =>
    intro hanswered
    obtain ⟨first, hfirst⟩ := exists_drainedAfter rfl hanswered
    obtain ⟨haccounted, hcounted⟩ := hall first
    exact ⟨first, hfirst, Scene.idle_of_isDrained haccounted hcounted hfirst.isDrained⟩

/-- A caller waits while a worker has dequeued an operation and has not started it. -/
def waitingEarly : List (Glance Unit) :=
  [.begin 0 none,
    .other (.turn (.submit { id := "sync", paths := ["/data/a"], job := () } default)),
    .other (.turn (.work 0 { reading := 1099511627776 })),
    .other (.turn (.work 0 { reading := 1099511627776 })), .look 0, .look 0]

/-- The caller sleeps until the worker is done with the operation, and looks again. -/
def waitingOn : List (Glance Unit) :=
  waitingEarly ++ [.look 0, .look 0] ++
    List.replicate 12 (.other (.turn (.work 0 { reading := 1099511627776 }))) ++ [.look 0, .look 0]

/-- At first nothing is queued and nothing is running, and yet the caller goes on waiting. -/
theorem watched_waitingOn : ∃ c : Coordinator Unit, Coordinator.create {} {} = .ok c ∧
    ((run { scene := { coordinator := c } } waitingEarly).scene.coordinator.queue.entries.isEmpty ∧
      (run { scene := { coordinator := c } } waitingEarly).scene.coordinator.running.isEmpty ∧
      (run { scene := { coordinator := c } } waitingEarly).IsAt .pausing) ∧
    (run { scene := { coordinator := c } } waitingOn).IsAt (.answered true) ∧
    Watched { scene := { coordinator := c } } waitingOn := by
  have h : ((Coordinator.create {} {}).toOption.map fun c : Coordinator Unit =>
      let early := run { scene := { coordinator := c } } waitingEarly
      (early.scene.coordinator.queue.entries.isEmpty, early.scene.coordinator.running.isEmpty,
        early.wait?.map (·.vigil), (run { scene := { coordinator := c } } waitingOn).wait?.map
          (·.vigil))) = some (true, true, some .pausing, some (.answered true)) := by
    decide +kernel
  obtain ⟨c, hc, heq⟩ := Scene.exists_of_create h
  obtain ⟨hqueue, hrunning, hpausing, hanswered⟩ := by simpa only [Prod.mk.injEq] using heq
  exact ⟨c, hc, ⟨hqueue, hrunning, hpausing⟩, hanswered, watched_run hc waitingOn⟩

end Watch

end Upkeep
