import Upkeep.Proofs.Locks.Keepers

/-!
# Shared and exclusive locks

**Modes.** A file that a keeper has open carries the lock that it got when the resource was taken,
in the mode asked for then, until the keeper gives the resource up (`modeOf?_run`). Asking again for
a resource that is held changes nothing, in whatever mode.

**Exclusion.** A name that is removed while somebody else still holds the file leaves that holder
behind with an inode that no path leads to, and the next keeper finds a new file. As long as each
resource is given up by the last that holds its file (`Lone`), all files that are held stand at
their names (`Anchored`), and whoever takes a resource is alone with it, or shares it
(`lawful_of_lone`). A call that leaves a holder behind breaks this (`LeavesHolder`).
-/

namespace Upkeep.Keepers

open Files

variable {s : Keepers} {c : KeeperCall} {m m' : Nat} {r : String} {mode : LockMode}

/-! ## Modes -/

theorem modeOf?_eq_some_iff (h : s.Sound) :
    s.modeOf? m r = some mode ↔
      ∃ f, s.fileOf? m r = some f ∧ ⟨f, mode⟩ ∈ s.files.locks := by
  unfold modeOf?
  cases hf : s.fileOf? m r with
  | none => simp
  | some f =>
    rw [Option.bind_some, Option.map_eq_some_iff]
    constructor
    · rintro ⟨l, hl, rfl⟩
      have hholder : l.holder = f := by simpa using List.find?_some hl
      refine ⟨f, rfl, ?_⟩
      rw [← hholder]
      exact List.mem_of_find?_eq_some hl
    · rintro ⟨f', hf', hlock⟩
      obtain rfl := Option.some.inj hf'
      have hsome : (s.files.locks.find? (·.holder = f)).isSome := by
        rw [List.find?_isSome]
        exact ⟨_, hlock, by simp⟩
      obtain ⟨l, hl⟩ := Option.isSome_iff_exists.1 hsome
      have hholder : l.holder = f := by simpa using List.find?_some hl
      have heq := h.files.one_lock l (List.mem_of_find?_eq_some hl) _ hlock hholder
      exact ⟨l, hl, by rw [heq]⟩

theorem modeOf?_eq_none_iff (h : s.Sound) : s.modeOf? m r = none ↔ s.fileOf? m r = none := by
  constructor
  · intro hnone
    cases hf : s.fileOf? m r with
    | none => rfl
    | some f =>
      obtain ⟨mode, hlock⟩ := h.locked m r f hf
      have hsome := (modeOf?_eq_some_iff h).2 ⟨f, hf, hlock⟩
      rw [hnone] at hsome
      cases hsome
  · intro hf
    rw [modeOf?, hf, Option.bind_none]

theorem modeOf?_after (h : s.Sound) (hkept : c.givesUp m r = false)
    (hmode : s.modeOf? m r = some mode) : (s.after c).modeOf? m r = some mode := by
  obtain ⟨f, hf, hlock⟩ := (modeOf?_eq_some_iff h).1 hmode
  refine (modeOf?_eq_some_iff (sound_after h c)).2 ⟨f, ?_⟩
  have he := effect_call h c
  unfold after
  generalize s.call c = a at he ⊢
  cases he with
  | grow files same told => exact ⟨(same m r).trans hf, files.locks ▸ hlock⟩
  | take asks new opens locks table =>
    obtain ⟨-, hfiles, -⟩ := opens.tryLock? h.files locks
    constructor
    · rw [table, if_neg]
      · exact hf
      · rintro ⟨rfl, rfl⟩
        rw [new] at hf
        cases hf
    · rw [hfiles]
      exact mem_locks_withLock.2 (.inr (opens.locks ▸ hlock))
  | giveUp es asks keeper gone files table =>
    constructor
    · rw [table, hkept]
      exact hf
    · rw [files, LockKeeper.mem_locks_letGoEach]
      exact ⟨hlock, h.kept gone hf hkept⟩

/-- Whoever is told that he has a resource has a lock in the mode that he asked for, or the lock
that he had. -/
theorem modeOf?_of_told (h : s.Sound) (hc : c.asks? = some (m, r, mode))
    (htold : (s.call c).1 = true) :
    (s.after c).modeOf? m r = some ((s.modeOf? m r).getD mode) := by
  have he := effect_call h c
  have hafter := sound_after h c
  unfold after at hafter ⊢
  generalize s.call c = a at he hafter htold ⊢
  cases he with
  | grow files same told =>
    have hheld := told m r mode hc htold
    rw [ne_eq, ← modeOf?_eq_none_iff h, ← ne_eq, Option.ne_none_iff_exists'] at hheld
    obtain ⟨mode', hmode⟩ := hheld
    obtain ⟨f, hf, hlock⟩ := (modeOf?_eq_some_iff h).1 hmode
    rw [hmode]
    exact (modeOf?_eq_some_iff hafter).2 ⟨f, (same m r).trans hf, files.locks ▸ hlock⟩
  | take asks new opens locks table =>
    obtain ⟨-, hfiles, -⟩ := opens.tryLock? h.files locks
    cases hc.symm.trans asks
    rw [(modeOf?_eq_none_iff h).2 new]
    refine (modeOf?_eq_some_iff hafter).2 ⟨_, (table m r).trans (if_pos ⟨rfl, rfl⟩), ?_⟩
    rw [hfiles]
    exact mem_locks_withLock.2 (.inl rfl)
  | giveUp es asks keeper gone files table =>
    rw [hc] at asks
    cases asks

theorem modeOf?_run_kept (h : s.Sound) {cs : List KeeperCall}
    (hkept : ∀ c ∈ cs, c.givesUp m r = false) (hmode : s.modeOf? m r = some mode) :
    (s.run cs).modeOf? m r = some mode := by
  induction cs generalizing s with
  | nil => exact hmode
  | cons c cs ih =>
    obtain ⟨hc, hcs⟩ := List.forall_mem_cons.1 hkept
    exact ih (sound_after h c) hcs (modeOf?_after h hc hmode)

/-- Until a keeper gives a resource up, its file carries the lock in the mode in which the resource
was taken. -/
theorem modeOf?_run {files : Files} (hw : files.WellFormed) (directory : FilePath)
    (before : List KeeperCall) (hc : c.asks? = some (m, r, mode))
    (htold : (((start directory files).run before).call c).1 = true) {later : List KeeperCall}
    (hkept : ∀ c ∈ later, c.givesUp m r = false) :
    ((((start directory files).run before).after c).run later).modeOf? m r =
      some ((((start directory files).run before).modeOf? m r).getD mode) := by
  have hs := sound_run (sound_start hw directory) before
  exact modeOf?_run_kept (sound_after hs c) hkept (modeOf?_of_told hs hc htold)

/-- Two keepers share a resource, after which the first asks for it alone, and gets the answer that
it has it. -/
def sharing : List KeeperCall :=
  [.create 0, .create 1, .acquire 0 "/data/a" .shared, .acquire 1 "/data/a" .shared]

theorem modeOf?_run_sharing :
    (((start (.ofString "/locks") {}).run sharing).call (.acquire 0 "/data/a" .exclusive)).1 =
        true ∧
      ((((start (.ofString "/locks") {}).run sharing).after
        (.acquire 0 "/data/a" .exclusive)).run [.check 1 "/data/a"]).modeOf? 0 "/data/a" =
          some ((((start (.ofString "/locks") {}).run sharing).modeOf? 0 "/data/a").getD
            .exclusive) := by
  have htold : (((start (.ofString "/locks") {}).run sharing).call
      (.acquire 0 "/data/a" .exclusive)).1 = true := by
    decide +kernel
  exact ⟨htold, modeOf?_run wellFormed_empty _ sharing rfl htold (by decide)⟩

/-- The answer is no promise of a lock as strong as what was asked for. -/
theorem exists_told_exclusive_shared : ¬ ∀ (files : Files), files.WellFormed →
    ∀ (directory : FilePath) (before : List KeeperCall) (m : Nat) (r : String) (mode : LockMode),
      (((start directory files).run before).call (.acquire m r mode)).1 = true →
        ∀ later : List KeeperCall, (∀ c ∈ later, c.givesUp m r = false) →
          ∃ mode', ((((start directory files).run before).after (.acquire m r mode)).run
            later).modeOf? m r = some mode' ∧ (mode = .exclusive → mode' = .exclusive) := by
  intro h
  have htold : (((start (.ofString "/locks") {}).run sharing).call
      (.acquire 0 "/data/a" .exclusive)).1 = true := by
    decide +kernel
  have hshared : (((start (.ofString "/locks") {}).run sharing).after
      (.acquire 0 "/data/a" .exclusive)).modeOf? 0 "/data/a" = some .shared := by
    decide +kernel
  obtain ⟨mode, hmode, hstrong⟩ := h {} wellFormed_empty (.ofString "/locks") sharing 0 "/data/a"
    .exclusive htold [] (by simp)
  obtain rfl := Option.some.inj (hmode.symm.trans hshared)
  cases hstrong rfl

/-! ## Exclusion -/

/-- The lock file of each resource that is held is the one that stands at its name. -/
def Anchored (s : Keepers) : Prop :=
  ∀ m r f, s.fileOf? m r = some f → s.files.inode (s.path r) = .ok f.inode

/-- What a call gives up is held by nobody who goes on holding it: no file that is kept has the
inode of one that is let go. -/
def Lone (s : Keepers) (c : KeeperCall) : Prop :=
  ∀ m r f m' r' f', c.givesUp m r = true → s.fileOf? m r = some f →
    c.givesUp m' r' = false → s.fileOf? m' r' = some f' → f'.inode ≠ f.inode

/-- Each of some calls is lone in its turn. -/
def LoneRun (s : Keepers) : List KeeperCall → Prop
  | [] => True
  | c :: cs => s.Lone c ∧ LoneRun (s.after c) cs

/-- A call that newly takes a resource takes it from nobody: after an exclusive taking no other
keeper has the resource, and after a shared one no other has it exclusively. -/
def Lawful (s : Keepers) (c : KeeperCall) : Prop :=
  ∀ m r mode, c.asks? = some (m, r, mode) → s.fileOf? m r = none → (s.call c).1 = true →
    ∀ m', m' ≠ m → (mode = .exclusive → (s.after c).fileOf? m' r = none) ∧
      (mode = .shared → (s.after c).modeOf? m' r ≠ some .exclusive)

theorem path_after (s : Keepers) (c : KeeperCall) (r : String) :
    (s.after c).path r = s.path r := by
  rw [path, path, directory_after]

theorem anchored_after (h : s.Sound) (ha : s.Anchored) (hlone : s.Lone c) :
    (s.after c).Anchored := by
  intro m r f
  rw [path_after]
  have he := effect_call h c
  unfold after
  generalize s.call c = a at he ⊢
  intro hf
  cases he with
  | grow files same told =>
    exact inode_of_keeps files.keeps (ha m r f ((same m r).symm.trans hf))
  | @take m₁ r₁ mode₁ f₁ fs s' asks new opens locks table =>
    obtain ⟨-, hfiles, -⟩ := opens.tryLock? h.files locks
    have hnodes : s'.files.nodes = fs.nodes := by
      rw [hfiles]
      rfl
    refine (inode_congr hnodes _ _).2 ?_
    rw [table] at hf
    split at hf
    · rename_i heq
      obtain rfl := Option.some.inj hf
      rw [heq.2]
      exact opens.leads
    · exact inode_of_keeps opens.keeps (ha m r f hf)
  | @giveUp m₁ k s' es asks keeper gone files table =>
    rw [table] at hf
    split at hf
    · cases hf
    · rename_i hkept
      show s'.files.inode _ = _
      -- The name of a file that is let go leads to that file, which is not the one that is kept.
      have hthere (e) (he : e ∈ es) : s.files.inode (k.path e.1) = .ok e.2.inode := by
        rw [h.toAligned.path keeper]
        exact ha m₁ e.1 e.2 ((gone m₁ e).1 ⟨he, rfl⟩).2
      have hleads := ha m r f hf
      rw [files, ← h.toAligned.path keeper r]
      rw [← h.toAligned.path keeper r] at hleads
      refine LockKeeper.inode_letGoEach (fun e he => clearable_of_inode (hthere e he))
        (fun e he heq => ?_) hleads
      obtain ⟨hgives, hfile⟩ := (gone m₁ e).1 ⟨he, rfl⟩
      rw [hthere e he] at heq
      exact hlone m₁ e.1 e.2 m r f hgives hfile (by simpa using hkept) hf (by simpa using heq.symm)

theorem anchored_run (h : s.Sound) (ha : s.Anchored) {cs : List KeeperCall}
    (hlone : s.LoneRun cs) : (s.run cs).Anchored := by
  induction cs generalizing s with
  | nil => exact ha
  | cons c cs ih => exact ih (sound_after h c) (anchored_after h ha hlone.1) hlone.2

/-- Whoever takes a resource whose holders have the file that stands at its name is compatible with
them. -/
theorem lawful_of_anchored (h : s.Sound) (ha : s.Anchored) (c : KeeperCall) : s.Lawful c := by
  intro m r mode hc hnew htold m' hm
  have he := effect_call h c
  have hafter := sound_after h c
  unfold after at hafter ⊢
  generalize s.call c = a at he hafter htold ⊢
  cases he with
  | grow files same told => exact absurd hnew (told m r mode hc htold)
  | giveUp es asks keeper gone files table =>
    rw [hc] at asks
    cases asks
  | @take m₁ r₁ mode₁ f fs s' asks new opens locks table =>
    cases hc.symm.trans asks
    obtain ⟨hfree, hfiles, -⟩ := opens.tryLock? h.files locks
    have hsame : s'.fileOf? m' r = s.fileOf? m' r :=
      (table m' r).trans (if_neg fun heq => hm heq.1)
    -- Another holder's file is the one that was opened, and its lock was not in the way.
    have hcompatible {f' : OpenFile} {mode' : LockMode} (hf' : s.fileOf? m' r = some f')
        (hlock : ⟨f', mode'⟩ ∈ s.files.locks) : mode' = .shared ∧ mode = .shared := by
      have hthere := inode_of_keeps opens.keeps (ha m' r f' hf')
      rw [opens.leads] at hthere
      exact hfree _ hlock (by simpa using hthere.symm)
    constructor
    · rintro rfl
      show s'.fileOf? m' r = none
      rw [hsame]
      cases hf' : s.fileOf? m' r with
      | none => rfl
      | some f' =>
        obtain ⟨mode', hlock⟩ := h.locked m' r f' hf'
        cases (hcompatible hf' hlock).2
    · rintro rfl hmode
      obtain ⟨f', hf', hlock⟩ := (modeOf?_eq_some_iff hafter).1 hmode
      have hf' : s.fileOf? m' r = some f' := hsame.symm.trans hf'
      have hlock : _ ∈ s'.files.locks := hlock
      rw [hfiles, mem_locks_withLock] at hlock
      rcases hlock with heq | hold
      · cases heq
      · cases (hcompatible hf' (opens.locks ▸ hold)).1

/-! ## Holders that are left behind -/

/-- A call gives a resource up, and another keeper goes on having it. -/
def LeavesHolder (s : Keepers) (c : KeeperCall) (r : String) : Prop :=
  ∃ m m', c.givesUp m r = true ∧ s.fileOf? m r ≠ none ∧
    c.givesUp m' r = false ∧ s.fileOf? m' r ≠ none

theorem fileOf?_after_of_givesUp (s : Keepers) (h : c.givesUp m r = true) :
    (s.after c).fileOf? m r = none := by
  cases c with
  | release m' r' =>
    obtain ⟨rfl, rfl⟩ : m = m' ∧ r = r' := by simpa [KeeperCall.givesUp] using h
    simp only [after, call, ask]
    cases hk : s.keeper? m with
    | none => rw [fileOf?, hk, Option.bind_none]
    | some k =>
      have hnot : r ∉ (k.without r).names := by simp
      rw [fileOf?_put, if_pos rfl, LockKeeper.release_snd, Option.bind_some,
        LockKeeper.lookup_eq_none_iff]
      exact hnot
  | releaseAll m' =>
    obtain rfl : m = m' := by simpa [KeeperCall.givesUp] using h
    simp only [after, call, ask]
    cases hk : s.keeper? m with
    | none => rw [fileOf?, hk, Option.bind_none]
    | some k =>
      rw [fileOf?_put, if_pos rfl]
      rfl
  | drop m' =>
    obtain rfl : m = m' := by simpa [KeeperCall.givesUp] using h
    simp only [after, call]
    cases hk : s.keeper? m with
    | none => rw [fileOf?, hk, Option.bind_none]
    | some k => rw [fileOf?_put, if_pos rfl, Option.bind_none]
  | _ => cases h

theorem vacant_after (h : s.Sound) (ha : s.Anchored) (hgives : c.givesUp m r = true)
    (hf : s.fileOf? m r ≠ none) : (s.after c).files.Vacant (s.path r) := by
  obtain ⟨f, hf⟩ := Option.ne_none_iff_exists'.1 hf
  have hnone := fileOf?_after_of_givesUp s hgives
  have he := effect_call h c
  unfold after at hnone ⊢
  generalize s.call c = a at he hnone ⊢
  cases he with
  | grow files same told =>
    have hsome := (same m r).trans hf
    rw [hnone] at hsome
    cases hsome
  | take asks new opens locks table =>
    rw [table] at hnone
    split at hnone
    · cases hnone
    · rw [hf] at hnone
      cases hnone
  | @giveUp m₁ k s' es asks keeper gone files table =>
    obtain ⟨hmem, -⟩ := (gone m (r, f)).2 ⟨hgives, hf⟩
    show s'.files.Vacant (s.path r)
    rw [← h.toAligned.path keeper r, files]
    refine LockKeeper.vacant_letGoEach (e := (r, f)) hmem fun e he => ?_
    rw [h.toAligned.path keeper]
    exact clearable_of_inode (ha m₁ e.1 e.2 ((gone m₁ e).1 ⟨he, rfl⟩).2)

/-- A keeper gets a resource exclusively whose name is vacant, whoever else has it. -/
theorem acquire_of_vacant (h : s.Sound) {k : LockKeeper} (hk : s.keeper? m = some k)
    (hnew : s.fileOf? m r = none) (hvacant : s.files.Vacant (s.path r)) :
    (s.call (.acquire m r .exclusive)).1 = true := by
  have hr : r ∉ k.names := by
    rw [← LockKeeper.lookup_eq_none_iff, ← fileOf?_of_keeper hk]
    exact hnew
  have hpath := h.toAligned.path hk r
  obtain ⟨fs, hopen⟩ := openOrCreate_of_vacant hvacant
  have hopens := opens_of_openOrCreate hopen
  -- No lock stands in the way, since the inode is new.
  have hlock : fs.tryLock? ⟨s.files.nextHandle, s.files.nextInode⟩ .exclusive =
      some (fs.withLock ⟨s.files.nextHandle, s.files.nextInode⟩ .exclusive) := by
    refine (tryLock?_eq_some_iff (hopens.ne_holder h.files)).2 ⟨fun l hl hinode => ?_, rfl⟩
    rw [hopens.locks] at hl
    exact absurd hinode (Nat.ne_of_lt (h.files.locked_lt l hl))
  simp only [call, ask, hk, LockKeeper.acquire_eq, if_neg hr, LockKeeper.take, hpath, hopen, hlock]

/-- If a holder is left behind, whoever takes the resource then takes it from that holder. -/
theorem not_lawful_of_leavesHolder (h : s.Sound) (ha : s.Anchored) (hleaves : s.LeavesHolder c r)
    (hkeeper : (s.after c).keeper? m ≠ none) (hnew : (s.after c).fileOf? m r = none) :
    ¬ (s.after c).Lawful (.acquire m r .exclusive) := by
  intro hlawful
  obtain ⟨m₁, m', hgives, hf₁, hkept, hf'⟩ := hleaves
  have hafter := sound_after h c
  -- The holder still has its file, and the lock on it.
  rw [ne_eq, ← modeOf?_eq_none_iff h, ← ne_eq, Option.ne_none_iff_exists'] at hf'
  obtain ⟨mode, hmode⟩ := hf'
  have hmode₁ := modeOf?_after h hkept hmode
  have hmode₂ := modeOf?_after hafter (c := .acquire m r .exclusive) rfl hmode₁
  have hm : m' ≠ m := by
    rintro rfl
    rw [(modeOf?_eq_none_iff hafter).2 hnew] at hmode₁
    cases hmode₁
  -- The other keeper does not find that file.
  obtain ⟨k, hk⟩ := Option.ne_none_iff_exists'.1 hkeeper
  have hvacant := vacant_after h ha hgives hf₁
  rw [← path_after s c r] at hvacant
  have htold := acquire_of_vacant hafter hk hnew hvacant
  have hnone := (hlawful m r .exclusive rfl hnew htold m' hm).1 rfl
  rw [(modeOf?_eq_none_iff (sound_after hafter _)).2 hnone] at hmode₂
  cases hmode₂

/-- As long as each release is lone, every taking is lawful; once a holder is left behind, the next
exclusive taking of the resource is not. -/
theorem lawful_of_lone {files : Files} (hw : files.WellFormed) (directory : FilePath)
    {before : List KeeperCall} (hlone : (start directory files).LoneRun before) :
    (∀ c, ((start directory files).run before).Lawful c) ∧
      ∀ c m r, ((start directory files).run before).LeavesHolder c r →
        (((start directory files).run before).after c).keeper? m ≠ none →
          (((start directory files).run before).after c).fileOf? m r = none →
            ¬ (((start directory files).run before).after c).Lawful (.acquire m r .exclusive) := by
  have hs := sound_run (sound_start hw directory) before
  have ha := anchored_run (sound_start hw directory) (fun _ _ _ hf => nomatch hf) hlone
  exact ⟨lawful_of_anchored hs ha, fun _ _ _ => not_lawful_of_leavesHolder hs ha⟩

theorem lone_of_givesUp_eq_false (s : Keepers) (h : ∀ m r, c.givesUp m r = false) :
    s.Lone c := by
  intro m r f m' r' f' hgives
  rw [h] at hgives
  cases hgives

theorem lawful_of_lone_sharing :
    (start (.ofString "/locks") {}).LoneRun sharing ∧
      (∀ c, ((start (.ofString "/locks") {}).run sharing).Lawful c) ∧
        ¬ (((start (.ofString "/locks") {}).run sharing).after (.release 0 "/data/a")).Lawful
          (.acquire 0 "/data/a" .exclusive) := by
  have hlone : (start (.ofString "/locks") {}).LoneRun sharing := by
    refine ⟨?_, ?_, ?_, ?_, trivial⟩
    all_goals exact lone_of_givesUp_eq_false _ fun _ _ => rfl
  have hleaves : ((start (.ofString "/locks") {}).run sharing).LeavesHolder
      (.release 0 "/data/a") "/data/a" :=
    ⟨0, 1, by decide, by decide +kernel, by decide, by decide +kernel⟩
  obtain ⟨hlawful, hbroken⟩ := lawful_of_lone wellFormed_empty (.ofString "/locks") hlone
  have hthere : ((((start (.ofString "/locks") {}).run sharing).after
      (.release 0 "/data/a")).keeper? 0).isSome := by
    decide +kernel
  have hnew : (((start (.ofString "/locks") {}).run sharing).after
      (.release 0 "/data/a")).fileOf? 0 "/data/a" = none :=
    fileOf?_after_of_givesUp _ (by decide)
  exact ⟨hlone, hlawful,
    hbroken _ 0 "/data/a" hleaves (Option.ne_none_iff_isSome.2 hthere) hnew⟩

/-- Two keepers share a resource; one gives it up and takes it for itself alone, and the other still
has it. -/
theorem exists_not_lawful : ¬ ∀ (files : Files), files.WellFormed →
    ∀ (directory : FilePath) (before : List KeeperCall) (c : KeeperCall),
      ((start directory files).run before).Lawful c := by
  intro h
  have hlawful := h {} wellFormed_empty (.ofString "/locks")
    (sharing ++ [.release 0 "/data/a"]) (.acquire 0 "/data/a" .exclusive)
  have hnone := (hlawful 0 "/data/a" .exclusive rfl (by decide +kernel) (by decide +kernel) 1
    (by decide)).1 rfl
  have hsome : (((start (.ofString "/locks") {}).run (sharing ++ [.release 0 "/data/a"])).after
      (.acquire 0 "/data/a" .exclusive)).fileOf? 1 "/data/a" ≠ none := by
    decide +kernel
  exact hsome hnone

end Upkeep.Keepers
