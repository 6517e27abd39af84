import Mathlib.Data.List.Perm.Subperm
import Upkeep.Proofs.Coordinator.Snapshots
import Upkeep.Proofs.Memory.Thresholds

/-!
# What the running operations require

A snapshot adds up what the running operations have declared that they need. These are words that
callers have chosen, added without a check.

**Requirements.** An operation is entered after it has been weighed against a reading, and no
reading is as large as `2 ^ 64` bytes. So what the entries require is small, and so is what an
operation requires that has been weighed and not yet entered (`Scene.Weighed`).

**Entries.** An identifier has one entry, and a worker answers for each of them, so there are no
more entries than workers (`Scene.length_running_le`).

**The sum.** With at most `2 ^ 20` workers the sum fits in a word at every addition, in whatever
order the entries are visited (`Scene.usage_run`).
-/

namespace Upkeep

variable {ω : Type}

/-! ## Sums of words -/

/-- The sum of two words, if a word can hold it. -/
def Memory.add? (a b : UInt64) : Option UInt64 :=
  if a.toNat + b.toNat < UInt64.size then some (a + b) else none

/-- In megabytes, no reading of memory is as large as this. -/
def mostMb : Nat := 2 ^ 44

/-- What some entries require, in unbounded numbers. -/
def exactMb (es : List (OperationId × Summary)) : Nat :=
  (es.map (·.2.requirement.memoryMb.toNat)).sum

/-- What some entries require, added up one by one; there is no result if an addition overflows. -/
def checkedMb? (es : List (OperationId × Summary)) : Option UInt64 :=
  es.foldlM (fun n e => Memory.add? n e.2.requirement.memoryMb) 0

theorem foldlM_add?_of_lt (es : List (OperationId × Summary)) :
    ∀ {n : UInt64}, n.toNat + exactMb es < UInt64.size →
      ∃ m : UInt64, es.foldlM (fun n e => Memory.add? n e.2.requirement.memoryMb) n = some m ∧
        m.toNat = n.toNat + exactMb es := by
  induction es with
  | nil => exact fun _ => ⟨_, rfl, rfl⟩
  | cons e es ih =>
    intro n h
    rw [exactMb, List.map_cons, List.sum_cons, ← exactMb] at h
    have hone : n.toNat + e.2.requirement.memoryMb.toNat < UInt64.size := by omega
    have hnext : (n + e.2.requirement.memoryMb).toNat =
        n.toNat + e.2.requirement.memoryMb.toNat := by
      rw [UInt64.toNat_add]
      exact Nat.mod_eq_of_lt hone
    obtain ⟨m, hm, hexact⟩ := ih (n := n + e.2.requirement.memoryMb) (by omega)
    refine ⟨m, ?_, ?_⟩
    · rw [List.foldlM_cons, Memory.add?, if_pos hone]
      exact hm
    · rw [hexact, hnext, exactMb, exactMb, List.map_cons, List.sum_cons, Nat.add_assoc]

theorem foldl_add_of_foldlM {es : List (OperationId × Summary)} {n m : UInt64}
    (h : es.foldlM (fun n e => Memory.add? n e.2.requirement.memoryMb) n = some m) :
    es.foldl (fun n e => n + e.2.requirement.memoryMb) n = m := by
  induction es generalizing n with
  | nil => exact Option.some.inj h
  | cons e es ih =>
    rw [List.foldlM_cons, Memory.add?] at h
    split at h
    · exact ih h
    · cases h

theorem exactMb_perm {es es' : List (OperationId × Summary)} (h : es.Perm es') :
    exactMb es = exactMb es' :=
  (h.map _).sum_eq

namespace Coordinator

theorem memoryMb_usage (c : Coordinator ω) :
    c.usage.memoryMb = c.running.foldl (fun n e => n + e.2.requirement.memoryMb) 0 :=
  (List.foldl_hom ResourceUsage.memoryMb fun _ _ => rfl).symm

/-- The requirement for memory in a snapshot is what the running operations require together. -/
structure AddsUpExactly (c : Coordinator ω) : Prop where
  /-- No addition overflows, in whatever order the entries are visited. -/
  checked : ∀ (es : List (OperationId × Summary)), es.Perm c.running →
    ∀ reading now, checkedMb? es = some (c.status reading now).usage.memoryMb
  exact : ∀ reading now, (c.status reading now).usage.memoryMb.toNat = exactMb c.running

theorem addsUpExactly_of_lt {c : Coordinator ω}
    (hlight : ∀ e ∈ c.running, e.2.requirement.memoryMb.toNat < mostMb)
    (hfew : c.running.length ≤ 2 ^ 20) : AddsUpExactly c := by
  have hsum : exactMb c.running < UInt64.size := by
    have hle : exactMb c.running ≤ c.running.length * (mostMb - 1) := by
      have hcard := List.sum_le_card_nsmul (c.running.map (·.2.requirement.memoryMb.toNat))
        (mostMb - 1) fun n hn => by
          obtain ⟨e, he, rfl⟩ := List.mem_map.1 hn
          exact Nat.le_pred_of_lt (hlight e he)
      rwa [List.length_map] at hcard
    calc exactMb c.running ≤ c.running.length * (mostMb - 1) := hle
      _ ≤ 2 ^ 20 * (mostMb - 1) := Nat.mul_le_mul_right _ hfew
      _ < UInt64.size := by decide
  have hchecked (es : List (OperationId × Summary)) (hes : es.Perm c.running) :
      ∃ n : UInt64, checkedMb? es = some n ∧ n.toNat = exactMb c.running := by
    obtain ⟨n, hn, hexact⟩ := foldlM_add?_of_lt es (n := 0)
      (by rw [exactMb_perm hes]; simpa using hsum)
    exact ⟨n, hn, by rw [hexact, exactMb_perm hes]; simp⟩
  obtain ⟨sum, hsum, hexact⟩ := hchecked c.running (.refl _)
  have husage : c.usage.memoryMb = sum := by
    rw [c.memoryMb_usage]
    exact foldl_add_of_foldlM hsum
  refine ⟨fun es hes reading now => ?_, fun reading now => ?_⟩
  · obtain ⟨n, hn, hexact'⟩ := hchecked es hes
    show checkedMb? es = some c.usage.memoryMb
    rw [hn, husage, UInt64.toNat_inj.1 (hexact'.trans hexact.symm)]
  · show c.usage.memoryMb.toNat = _
    rw [husage, hexact]

/-! ## What a step of a worker does to requirements -/

/-- An operation that has been weighed and found light enough is light. -/
theorem lt_mostMb_of_atHeadroom? {m : MemoryMonitor} {mb reading : UInt64}
    (h : Rejection.atHeadroom? m mb reading = none) : mb.toNat < mostMb := by
  have hallows : m.allows reading mb = true := by
    unfold Rejection.atHeadroom? at h
    split at h
    · assumption
    · cases h
  rw [MemoryMonitor.allows_iff_lt] at hallows
  have hreading := reading.toNat_lt_size
  unfold UInt64.size at hreading
  unfold mostMb
  omega

end Coordinator

/-- The operation that a worker has weighed and not yet entered. -/
def Phase.weighed? : Phase ω → Option (Submitted ω)
  | probing op _ | entering op => some op
  | _ => none

namespace Coordinator

/-- What has been weighed after a step was weighed before it, or is weighed in it. -/
theorem weighed?_advance {c : Coordinator ω} {env : Surroundings} {phase : Phase ω}
    {op : Submitted ω} (h : (c.advance env phase).1.weighed? = some op) :
    phase.weighed? = some op ∨
      Rejection.atHeadroom? c.monitor op.requirement.memoryMb env.reading = none := by
  cases phase with
  | weighing op' =>
    simp only [advance] at h
    cases hw : Rejection.atHeadroom? c.monitor op'.requirement.memoryMb env.reading with
    | some why =>
      rw [hw] at h
      cases h
    | none =>
      rw [hw] at h
      obtain rfl := Option.some.inj h
      exact .inr hw
  | probing op' paths =>
    cases paths with
    | nil => exact .inl h
    | cons p rest =>
      simp only [advance] at h
      split at h
      · cases h
      · exact .inl h
  | entering op' =>
    rcases start_cases c op' env.now with ⟨locks, files, keeper, -, hstart⟩ | ⟨files, hstart⟩
    · simp only [advance, hstart] at h
      cases h
    · simp only [advance, hstart] at h
      cases h
  | idle | ready | admitting op' | warning op' why | requeueing op' | dropping op' why
  | conflicted op' | starting op' locks =>
    simp only [advance] at h
    split at h <;> cases h
  | releasing id locks verdict => cases locks <;> cases h
  | _ => cases h

/-- An entry was there before an operation was entered, or is that of the operation. -/
theorem requirement_enter {c : Coordinator ω} {op : Submitted ω} {e : OperationId × Summary}
    (h : e ∈ (c.enter op).running) : e ∈ c.running ∨ e.2.requirement = op.requirement := by
  rcases List.mem_cons.1 h with rfl | hold
  · exact .inr rfl
  · exact .inl (List.mem_of_mem_filter hold)

/-- An entry was there before a step, or is that of the operation that the worker has weighed. -/
theorem running_advance {c : Coordinator ω} {env : Surroundings} {phase : Phase ω}
    {e : OperationId × Summary} (h : e ∈ (c.advance env phase).2.running) :
    e ∈ c.running ∨ ∃ op, phase.weighed? = some op ∧ e.2.requirement = op.requirement := by
  cases phase with
  | entering op =>
    have hentered : e ∈ (c.enter { op with started := some env.now }).running := by
      rcases start_cases c op env.now with ⟨locks, files, keeper, -, hstart⟩ | ⟨files, hstart⟩
      · simp only [advance, hstart] at h
        exact h
      · simp only [advance, hstart] at h
        exact (mem_leave.1 h).1
    rcases requirement_enter hentered with hold | hnew
    · exact .inl hold
    · exact .inr ⟨op, rfl, hnew⟩
  | leaving id verdict => exact .inl (mem_leave.1 h).1
  | running op locks =>
    obtain ⟨-, hrunning, -⟩ := tellAll_frame c op env.reports
    exact .inl (hrunning ▸ h)
  | probing op paths => cases paths <;> exact .inl h
  | releasing id locks verdict => cases locks <;> exact .inl h
  | ready | admitting op | weighing op | requeueing op =>
    simp only [advance] at h
    split at h <;> exact .inl h
  | _ => exact .inl h

end Coordinator

/-! ## Requirements in a run -/

namespace Scene

variable {s : Scene ω}

/-- Operations that have been weighed and operations that are entered are light. -/
structure Weighed (s : Scene ω) : Prop where
  admitted : ∀ (w : Nat) (phase : Phase ω) (op : Submitted ω),
    s.coordinator.workers[w]? = some phase → phase.weighed? = some op →
      op.requirement.memoryMb.toNat < mostMb
  running : ∀ e ∈ s.coordinator.running, e.2.requirement.memoryMb.toNat < mostMb

/-- One worker goes on to a phase in which it has weighed nothing. -/
theorem Weighed.setPhase (h : s.Weighed) {c : Coordinator ω} {l? : Option (Locking ω)} {w : Nat}
    {phase : Phase ω} (hworkers : c.workers = s.coordinator.workers)
    (hphase : ∀ op, phase.weighed? = some op → op.requirement.memoryMb.toNat < mostMb)
    (hrunning : ∀ e ∈ c.running, e.2.requirement.memoryMb.toNat < mostMb) :
    Weighed ⟨c.setPhase w phase, l?⟩ := by
  refine ⟨fun v phase' op hv hop => ?_, hrunning⟩
  have hset : (s.coordinator.workers.set w phase)[v]? = some phase' := hworkers ▸ hv
  rw [List.getElem?_set] at hset
  split at hset
  · split at hset
    · obtain rfl := Option.some.inj hset
      exact hphase op hop
    · cases hset
  · exact h.admitted v phase' op hset hop

theorem weighed_happen (h : s.Weighed) (t : Turn ω) : (s.happen t).Weighed := by
  by_cases hwork : ∃ w env, t = .work w env
  · obtain ⟨w, env, rfl⟩ := hwork
    rw [happen]
    split
    · exact h
    · cases hw : s.coordinator.workers[w]? with
      | none =>
        rw [Coordinator.work_of_none hw]
        exact h
      | some phase =>
        rw [Coordinator.work_eq hw]
        refine h.setPhase (s.coordinator.advance_frame env phase).1 (fun op hop => ?_) ?_
        · rcases Coordinator.weighed?_advance hop with hbefore | hnow
          · exact h.admitted w phase op hw hbefore
          · exact Coordinator.lt_mostMb_of_atHeadroom? hnow
        · intro e he
          rcases Coordinator.running_advance he with hold | ⟨op, hop, hsame⟩
          · exact h.running e hold
          · rw [hsame]
            exact h.admitted w phase op hw hop
  · have hne : ∀ w env, t ≠ .work w env := fun w env ht => hwork ⟨w, env, ht⟩
    obtain ⟨-, hrunning, hworkers⟩ := s.coordinator.happen_frame hne
    rw [s.happen_of_ne_work hne]
    exact ⟨by rw [hworkers]; exact h.admitted, by rw [hrunning]; exact h.running⟩

theorem weighed_begin (h : s.Weighed) (w : Nat) (now : Timestamp) : (s.begin w now).Weighed := by
  unfold begin
  split
  · rename_i op hnone hw
    refine ⟨h.admitted, fun e he => ?_⟩
    rcases Coordinator.requirement_enter he with hold | hnew
    · exact h.running e hold
    · rw [hnew]
      exact h.admitted w _ op hw rfl
  · exact h

theorem weighed_proceed (h : s.Weighed) : s.proceed.Weighed := by
  unfold proceed
  split
  · exact h
  · unfold advance
    split
    · exact h.setPhase rfl (fun _ hop => nomatch hop) h.running
    · split
      · exact ⟨h.admitted, h.running⟩
      · split <;> exact ⟨h.admitted, h.running⟩
    · refine h.setPhase rfl (fun _ hop => nomatch hop) fun e he => ?_
      exact h.running e (Coordinator.mem_leave.1 he).1
    · exact ⟨h.admitted, h.running⟩

theorem weighed_run (h : s.Weighed) (ms : List (Move ω)) : (s.run ms).Weighed := by
  induction ms generalizing s with
  | nil => exact h
  | cons m ms ih =>
    refine ih ?_
    cases m with
    | turn t => exact weighed_happen h t
    | begin w now => exact weighed_begin h w now
    | proceed => exact weighed_proceed h

theorem weighed_create {config : CoordinatorConfig} {fs : Files} {c : Coordinator ω}
    (h : Coordinator.create config fs = .ok c) : Weighed { coordinator := c } := by
  have hfloor := floor_create h
  constructor
  case admitted =>
    intro w phase op hw hop
    have hfree : phase.stance = .free := by
      rw [← stance_of_phase (s := { coordinator := c }) rfl hw]
      exact congrFun (congrArg Floor.stance hfloor) w
    cases phase with
    | probing op' paths => cases hfree
    | entering op' => cases hfree
    | _ => cases hop
  case running =>
    have hnone : c.running = [] := congrArg (·.books.running) hfloor
    intro e he
    rw [show ({ coordinator := c } : Scene ω).coordinator.running = [] from hnone] at he
    cases he

end Scene

/-! ## The number of entries -/

theorem Stride.nodup_keys {w : Nat} {d : Deed ω} {b b' : Books ω} {st st' : Stance ω}
    (h : Stride w d b st b' st') (hnodup : b.keys.Nodup) : b'.keys.Nodup := by
  have hleave (i : OperationId) : (b.leave i).keys.Nodup := by
    rw [Books.keys_leave]
    exact hnodup.filter _
  have henter (op : Submitted ω) : (b.enter op).keys.Nodup := by
    rw [Books.keys_enter, Books.keys_leave]
    exact List.nodup_cons.2 ⟨by simp, hnodup.filter _⟩
  cases h with
  | enter _ op now => exact henter { op with started := some now }
  | startAtOnce _ op now => exact henter { op with started := some now }
  | conflictAtOnce _ op now =>
    show ((b.enter { op with started := some now }).leave op.id).keys.Nodup
    rw [Books.keys_leave]
    exact (henter { op with started := some now }).filter _
  | conflict _ op now => exact hleave op.id
  | leave _ id verdict => exact hleave id
  | _ => exact hnodup

theorem Floor.Step.nodup_keys {f f' : Floor ω} {d : Deed ω} (hstep : f.Step d f')
    (h : f.books.keys.Nodup) : f'.books.keys.Nodup := by
  cases hstep with
  | work hw hstride => exact hstride.nodup_keys h
  | _ => exact h

namespace Scene

variable {s : Scene ω}

theorem length_running_le (h : s.Accounted) (hnodup : s.floor.books.keys.Nodup) :
    s.coordinator.running.length ≤ s.coordinator.workers.length := by
  have hserved : s.floor.books.keys ⊆ s.coordinator.workers.filterMap Phase.served? := by
    intro i hi
    obtain ⟨e, he, rfl⟩ := List.mem_map.1 hi
    obtain ⟨w, phase, hw, hphase⟩ := h.running e he
    exact List.mem_filterMap.2 ⟨phase, List.mem_of_getElem? hw, hphase⟩
  calc s.coordinator.running.length = s.floor.books.keys.length := (List.length_map _).symm
    _ ≤ (s.coordinator.workers.filterMap Phase.served?).length :=
      (List.subperm_of_subset hnodup hserved).length_le
    _ ≤ s.coordinator.workers.length := List.length_filterMap_le _ _

/-- Whatever callers submit, whatever memory is read and whatever the thresholds are: an entry
requires less than `2 ^ 44` megabytes, there are no more entries than workers, and with at most
`2 ^ 20` workers every snapshot adds up exactly. -/
theorem usage_run {config : CoordinatorConfig} {fs : Files} {c : Coordinator ω}
    (h : Coordinator.create config fs = .ok c) (monitor : MemoryMonitor) (ms : List (Move ω)) :
    let c' := (run { coordinator := { c with monitor } } ms).coordinator
    (∀ e ∈ c'.running, e.2.requirement.memoryMb.toNat < 2 ^ 44) ∧
      c'.running.length ≤ config.maxConcurrent.toNat ∧
      (config.maxConcurrent.toNat ≤ 2 ^ 20 → c'.AddsUpExactly) := by
  intro c'
  have haccounted : Accounted { coordinator := { c with monitor } } :=
    { accounted_create h with }
  obtain ⟨hnodup, hsize⟩ : (run { coordinator := { c with monitor } } ms).floor.books.keys.Nodup ∧
      (run { coordinator := { c with monitor } } ms).floor.size = config.maxConcurrent.toNat := by
    refine floor_run (P := fun f => f.books.keys.Nodup ∧ f.size = config.maxConcurrent.toNat)
      (fun f d f' hf _ hstep => ⟨hstep.nodup_keys hf.1, hstep.size_eq.1.trans hf.2⟩) haccounted
      (goes_true _ ms) ?_
    show (floor { coordinator := c }).books.keys.Nodup ∧
      (floor { coordinator := c }).size = config.maxConcurrent.toNat
    rw [floor_create h]
    exact ⟨.nil, rfl⟩
  have hstart : Weighed { coordinator := { c with monitor } } := { weighed_create h with }
  have hweighed := weighed_run hstart ms
  have hlength : c'.running.length ≤ config.maxConcurrent.toNat :=
    hsize ▸ length_running_le (accounted_run haccounted ms) hnodup
  exact ⟨hweighed.running, hlength, fun hfew =>
    Coordinator.addsUpExactly_of_lt hweighed.running (Nat.le_trans hlength hfew)⟩

/-- Two operations are called, each of which requires half of the greatest reading. -/
def callingHeavy : List (Move Unit) :=
  let requirement : Requirement := { memoryMb := 8796093022208 }
  let env : Surroundings := { reading := 18446744073709551615 }
  .turn (.submit { id := "a", requirement, job := () } default) ::
      List.replicate 7 (.turn (.work 0 env)) ++
    .turn (.submit { id := "b", requirement, job := () } default) ::
      List.replicate 7 (.turn (.work 1 env))

theorem usage_callingHeavy : ∃ c : Coordinator Unit, Coordinator.create {} {} = .ok c ∧
    ∀ reading now, ((run { coordinator := { c with monitor := ⟨0, 0⟩ } }
      callingHeavy).coordinator.status reading now).usage.memoryMb.toNat = 2 ^ 44 := by
  have h : ((Coordinator.create {} {}).toOption.map fun c : Coordinator Unit =>
      exactMb (run { coordinator := { c with monitor := ⟨0, 0⟩ } }
        callingHeavy).coordinator.running) = some (2 ^ 44) := by
    decide +kernel
  obtain ⟨c, hc, hexact⟩ := exists_of_create h
  refine ⟨c, hc, fun reading now => ?_⟩
  rw [((usage_run hc ⟨0, 0⟩ callingHeavy).2.2 (by decide)).exact reading now, hexact]

end Scene

end Upkeep
