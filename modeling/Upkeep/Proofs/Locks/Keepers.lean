import Upkeep.Proofs.Locks.Table

/-!
# Keepers over one directory

Any number of keepers share a directory and the files in it, which nobody else touches. Each call of
one of them takes effect at once. `Keepers.run` plays any list of calls, from `Keepers.start` on,
where there is no keeper yet.

**What a call does.** It lets the files grow and leaves the tables alone, or it takes one resource,
or it gives some up (`Effect`, `effect_call`). Everything about runs is proved by these three cases.

**What always holds.** The file that a keeper has open for a resource carries a lock, and no file is
held twice (`Sound`, `sound_run`).
-/

namespace Upkeep

open Files

/-- Keepers by number, the directory of their lock files, and the files. -/
structure Keepers where
  directory : FilePath
  files : Files
  keeper? : Nat → Option LockKeeper

/-- A call of a keeper. -/
inductive KeeperCall where
  | create (m : Nat)
  | acquire (m : Nat) (r : String) (mode : LockMode)
  | acquireUnheld (m : Nat) (r : String) (mode : LockMode)
  | release (m : Nat) (r : String)
  | releaseAll (m : Nat)
  | drop (m : Nat)
  | check (m : Nat) (r : String)
  deriving DecidableEq

namespace KeeperCall

/-- The resource that a call asks for, the keeper that asks, and the mode. -/
def asks? : KeeperCall → Option (Nat × String × LockMode)
  | acquire m r mode | acquireUnheld m r mode => some (m, r, mode)
  | _ => none

/-- A call makes a keeper give up a resource, if it holds it. -/
def givesUp (c : KeeperCall) (m : Nat) (r : String) : Bool :=
  match c with
  | release m' r' => m = m' && r = r'
  | releaseAll m' | drop m' => m = m'
  | _ => false

end KeeperCall

namespace Keepers

/-- No keepers yet over a directory. -/
def start (directory : FilePath) (files : Files) : Keepers := ⟨directory, files, fun _ => none⟩

/-- The files and one keeper after a call. -/
def put (s : Keepers) (m : Nat) (files : Files) (k? : Option LockKeeper) : Keepers :=
  { s with files, keeper? := fun n => if n = m then k? else s.keeper? n }

/-- A keeper does something; nothing happens if there is none. -/
def ask (s : Keepers) (m : Nat) (f : LockKeeper → Bool × Files × LockKeeper) : Bool × Keepers :=
  match s.keeper? m with
  | none => (false, s)
  | some k => ((f k).1, s.put m (f k).2.1 (some (f k).2.2))

/-- The answer of a call, and the state after it. -/
def call (s : Keepers) : KeeperCall → Bool × Keepers
  | .create m =>
    match s.keeper? m with
    | some _ => (false, s)
    | none =>
      match LockKeeper.create s.files s.directory with
      | (files, .ok k) => (true, s.put m files (some k))
      | (files, .error _) => (false, s.put m files none)
  | .acquire m r mode => s.ask m fun k => k.acquire s.files r mode
  | .acquireUnheld m r mode => s.ask m fun k => k.acquireUnheld s.files r mode
  | .release m r => s.ask m fun k => (true, k.release s.files r)
  | .releaseAll m => s.ask m fun k => (true, k.releaseAll s.files)
  | .drop m =>
    match s.keeper? m with
    | none => (false, s)
    | some k => (true, s.put m (k.releaseAll s.files).1 none)
  | .check m r => s.ask m fun k => ((k.probe s.files r).1, (k.probe s.files r).2, k)

/-- The state after a call. -/
def after (s : Keepers) (c : KeeperCall) : Keepers := (s.call c).2

/-- The state after some calls. -/
def run (s : Keepers) (cs : List KeeperCall) : Keepers := cs.foldl after s

/-! ## What keepers hold -/

/-- The lock file of a resource. -/
def path (s : Keepers) (r : String) : FilePath := s.directory ++ [.name (lockFileName r)]

/-- The file that a keeper has open for a resource that it holds. -/
def fileOf? (s : Keepers) (m : Nat) (r : String) : Option OpenFile :=
  (s.keeper? m).bind fun k => k.held.lookup r

/-- The mode of the lock that this file carries. -/
def modeOf? (s : Keepers) (m : Nat) (r : String) : Option LockMode :=
  (s.fileOf? m r).bind fun f => (s.files.locks.find? (·.holder = f)).map (·.mode)

/-- All keepers are over the directory, and have no resource twice. -/
structure Aligned (s : Keepers) : Prop where
  directory : ∀ m k, s.keeper? m = some k → k.directory = s.directory
  fileName : ∀ m k, s.keeper? m = some k → k.fileName = lockFileName
  nodup : ∀ m k, s.keeper? m = some k → k.names.Nodup

/-- Each file that is held carries a lock and is held once. -/
structure Sound (s : Keepers) : Prop extends Aligned s where
  files : s.files.WellFormed
  locked : ∀ m r f, s.fileOf? m r = some f → ∃ mode, ⟨f, mode⟩ ∈ s.files.locks
  own : ∀ m r m' r' f, s.fileOf? m r = some f → s.fileOf? m' r' = some f → m = m' ∧ r = r'

/-- What a call does, with its answer and the state after it. -/
inductive Effect (s : Keepers) (c : KeeperCall) : Bool × Keepers → Prop where
  /-- The tables stay. Only those who ask for what they hold are told that they have it. -/
  | grow {b : Bool} {s' : Keepers} (files : Grows s.files s'.files)
      (same : ∀ m r, s'.fileOf? m r = s.fileOf? m r)
      (told : ∀ m r mode, c.asks? = some (m, r, mode) → b = true → s.fileOf? m r ≠ none) :
      Effect s c (b, s')
  /-- A resource is taken that its keeper did not hold. -/
  | take {m : Nat} {r : String} {mode : LockMode} {f : OpenFile} {fs : Files} {s' : Keepers}
      (asks : c.asks? = some (m, r, mode)) (new : s.fileOf? m r = none)
      (opens : Opens s.files (s.path r) f fs) (locks : fs.tryLock? f mode = some s'.files)
      (table : ∀ m' r', s'.fileOf? m' r' =
        if m' = m ∧ r' = r then some f else s.fileOf? m' r') : Effect s c (true, s')
  /-- The resources are given up that the call is about. -/
  | giveUp {m : Nat} {k : LockKeeper} {s' : Keepers} (es : List (String × OpenFile))
      (asks : c.asks? = none) (keeper : s.keeper? m = some k)
      (gone : ∀ m' e, e ∈ es ∧ m' = m ↔ c.givesUp m' e.1 ∧ s.fileOf? m' e.1 = some e.2)
      (files : s'.files = k.letGoEach s.files es)
      (table : ∀ m' r, s'.fileOf? m' r = if c.givesUp m' r then none else s.fileOf? m' r) :
      Effect s c (true, s')

/-! ## Every call has one of these effects -/

variable {s : Keepers} {c : KeeperCall} {m : Nat} {r : String} {k : LockKeeper}

theorem fileOf?_of_keeper (hk : s.keeper? m = some k) (r : String) :
    s.fileOf? m r = k.held.lookup r := by
  rw [fileOf?, hk, Option.bind_some]

theorem fileOf?_put (s : Keepers) (m : Nat) (files : Files) (k? : Option LockKeeper) (m' : Nat)
    (r : String) : (s.put m files k?).fileOf? m' r =
      if m' = m then k?.bind (·.held.lookup r) else s.fileOf? m' r := by
  simp only [fileOf?, put]
  split
  · rfl
  · rfl

theorem fileOf?_put_same {k? : Option LockKeeper} (hk : s.keeper? m = k?) (files : Files)
    (m' : Nat) (r : String) : (s.put m files k?).fileOf? m' r = s.fileOf? m' r := by
  rw [fileOf?_put]
  split
  · rename_i heq
    rw [fileOf?, heq, hk]
  · rfl

theorem Aligned.path (h : s.Aligned) (hk : s.keeper? m = some k) (r : String) :
    k.path r = s.path r := by
  rw [LockKeeper.path, h.directory m k hk, h.fileName m k hk]
  rfl

/-- A keeper that does not hold a resource takes it or lets the files grow. -/
theorem effect_take (h : s.Aligned) {mode : LockMode} (hasks : c.asks? = some (m, r, mode))
    (hk : s.keeper? m = some k) (hnew : r ∉ k.names) :
    Effect s c ((k.take s.files r mode).1,
      s.put m (k.take s.files r mode).2.1 (some (k.take s.files r mode).2.2)) := by
  rcases LockKeeper.take_cases k s.files r mode with
    ⟨f, fs, fs', hopens, hlock, htake⟩ | ⟨fs, hgrows, htake⟩
  · rw [htake]
    rw [h.path hk] at hopens
    have hnone : s.fileOf? m r = none := by
      rw [fileOf?_of_keeper hk, LockKeeper.lookup_eq_none_iff]
      exact hnew
    refine .take hasks hnone hopens hlock fun m' r' => ?_
    rw [fileOf?_put]
    by_cases hm : m' = m
    · subst hm
      by_cases hr : r' = r
      · simp [LockKeeper.enter, hr]
      · have hne : (r' == r) = false := by simp [hr]
        simp [LockKeeper.enter, hr, List.lookup_cons, hne, fileOf?_of_keeper hk]
    · simp [hm]
  · rw [htake]
    refine .grow hgrows (fileOf?_put_same hk fs) fun _ _ _ _ htold => ?_
    cases htold

/-- All files of a keeper are let go, and it stays with an empty table or not at all. -/
theorem effect_releaseAll (h : s.Aligned) (hk : s.keeper? m = some k) {k? : Option LockKeeper}
    (hk? : ∀ r, k?.bind (·.held.lookup r) = none) (hasks : c.asks? = none)
    (hc : ∀ m' r, c.givesUp m' r = decide (m' = m)) :
    Effect s c (true, s.put m (k.releaseAll s.files).1 k?) := by
  refine .giveUp k.held hasks hk (fun m' e => ?_) rfl fun m' r => ?_
  · rw [hc, decide_eq_true_iff]
    constructor
    · rintro ⟨he, rfl⟩
      refine ⟨rfl, ?_⟩
      rw [fileOf?_of_keeper hk, Association.lookup_eq_some_iff_mem (h.nodup m' k hk)]
      exact he
    · rintro ⟨rfl, he⟩
      rw [fileOf?_of_keeper hk, Association.lookup_eq_some_iff_mem (h.nodup m' k hk)] at he
      exact ⟨he, rfl⟩
  · rw [fileOf?_put, hc]
    by_cases hm : m' = m
    · simp [hm, hk?]
    · simp [hm]

/-- One file is let go, if the resource is held. -/
theorem effect_release (hk : s.keeper? m = some k) :
    Effect s (.release m r) (true, s.put m (k.release s.files r).1
      (some (k.release s.files r).2)) := by
  cases hl : k.held.lookup r with
  | none =>
    rw [LockKeeper.release_of_not_mem (LockKeeper.lookup_eq_none_iff.1 hl)]
    exact .grow (.refl _) (fileOf?_put_same hk s.files) fun _ _ _ hasks => nomatch hasks
  | some f =>
    rw [LockKeeper.release_of_lookup hl]
    refine .giveUp [(r, f)] rfl hk (fun m' e => ?_) rfl fun m' r' => ?_
    · simp only [KeeperCall.givesUp, List.mem_singleton, Bool.and_eq_true, decide_eq_true_iff]
      constructor
      · rintro ⟨rfl, rfl⟩
        exact ⟨⟨rfl, rfl⟩, (fileOf?_of_keeper hk r).trans hl⟩
      · rintro ⟨⟨rfl, hr⟩, he⟩
        rw [hr, fileOf?_of_keeper hk, hl] at he
        exact ⟨Prod.ext hr (Option.some.inj he).symm, rfl⟩
    · rw [fileOf?_put]
      by_cases hm : m' = m
      · subst hm
        by_cases hr : r' = r
        · simp [KeeperCall.givesUp, LockKeeper.without, hr]
        · simp [KeeperCall.givesUp, LockKeeper.without, hr, fileOf?_of_keeper hk]
      · simp [KeeperCall.givesUp, hm]

theorem effect_none (s : Keepers) (c : KeeperCall) : Effect s c (false, s) :=
  .grow (.refl _) (fun _ _ => rfl) fun _ _ _ _ htold => nomatch htold

theorem effect_ask {f : LockKeeper → Bool × Files × LockKeeper}
    (h : ∀ k, s.keeper? m = some k → Effect s c ((f k).1, s.put m (f k).2.1 (some (f k).2.2))) :
    Effect s c (s.ask m f) := by
  unfold ask
  cases hk : s.keeper? m with
  | none => exact effect_none s c
  | some k => exact h k hk

theorem effect_create (s : Keepers) (m : Nat) : Effect s (.create m) (s.call (.create m)) := by
  cases hk : s.keeper? m with
  | some k =>
    simp only [call, hk]
    exact effect_none s _
  | none =>
    have hgrows := grows_makeDirectories s.files s.directory
    simp only [call, hk, LockKeeper.create]
    cases hmade : s.files.makeDirectories s.directory with
    | mk files result =>
      rw [hmade] at hgrows
      cases result with
      | ok _ =>
        refine .grow hgrows (fun m' r => ?_) fun _ _ _ hasks => nomatch hasks
        rw [fileOf?_put]
        split
        · rename_i heq
          rw [fileOf?, heq, hk]
          rfl
        · rfl
      | error fault =>
        exact .grow hgrows (fileOf?_put_same hk files) fun _ _ _ hasks => nomatch hasks

theorem effect_call (h : s.Sound) (c : KeeperCall) : Effect s c (s.call c) := by
  have ha := h.toAligned
  cases c with
  | create m => exact effect_create s m
  | acquire m r mode =>
    refine effect_ask fun k hk => ?_
    rw [LockKeeper.acquire_eq]
    by_cases hr : r ∈ k.names
    · rw [if_pos hr]
      refine .grow (.refl _) (fileOf?_put_same hk s.files) fun m' r' mode' hasks _ hnone => ?_
      cases hasks
      rw [fileOf?_of_keeper hk, LockKeeper.lookup_eq_none_iff] at hnone
      exact hnone hr
    · rw [if_neg hr]
      exact effect_take ha rfl hk hr
  | acquireUnheld m r mode =>
    refine effect_ask fun k hk => ?_
    rw [LockKeeper.acquireUnheld_eq]
    by_cases hr : r ∈ k.names
    · rw [if_pos hr]
      exact .grow (.refl _) (fileOf?_put_same hk s.files) fun _ _ _ _ htold => nomatch htold
    · rw [if_neg hr]
      exact effect_take ha rfl hk hr
  | release m r => exact effect_ask fun k hk => effect_release hk
  | releaseAll m =>
    refine effect_ask fun k hk => effect_releaseAll ha hk (fun _ => rfl) rfl fun m' _ => ?_
    simp [KeeperCall.givesUp, eq_comm]
  | drop m =>
    simp only [call]
    cases hk : s.keeper? m with
    | none => exact effect_none s _
    | some k =>
      refine effect_releaseAll ha hk (fun _ => rfl) rfl fun m' _ => ?_
      simp [KeeperCall.givesUp, eq_comm]
  | check m r =>
    refine effect_ask fun k hk => ?_
    exact .grow (LockKeeper.grows_probe h.files r) (fileOf?_put_same hk _)
      fun _ _ _ hasks => nomatch hasks

/-! ## What always holds -/

theorem directory_after (s : Keepers) (c : KeeperCall) :
    (s.after c).directory = s.directory := by
  have hask (m : Nat) (f : LockKeeper → Bool × Files × LockKeeper) :
      (s.ask m f).2.directory = s.directory := by
    unfold ask
    split <;> rfl
  cases c with
  | create m =>
    simp only [after, call]
    split
    · rfl
    · split <;> rfl
  | drop m =>
    simp only [after, call]
    split <;> rfl
  | _ => exact hask _ _

theorem aligned_put (h : s.Aligned) {k? : Option LockKeeper} (files : Files)
    (hk? : ∀ k, k? = some k →
      k.directory = s.directory ∧ k.fileName = lockFileName ∧ k.names.Nodup) :
    (s.put m files k?).Aligned := by
  have hcases {m' : Nat} {k : LockKeeper} (hk : (s.put m files k?).keeper? m' = some k) :
      k.directory = s.directory ∧ k.fileName = lockFileName ∧ k.names.Nodup := by
    simp only [put] at hk
    split at hk
    · exact hk? k hk
    · exact ⟨h.directory m' k hk, h.fileName m' k hk, h.nodup m' k hk⟩
  exact ⟨fun _ _ hk => (hcases hk).1, fun _ _ hk => (hcases hk).2.1, fun _ _ hk => (hcases hk).2.2⟩

/-- What a keeper does leaves it over its directory, with no resource twice. -/
theorem aligned_ask (h : s.Aligned) {f : LockKeeper → Bool × Files × LockKeeper}
    (hf : ∀ k, k.names.Nodup → (f k).2.2.directory = k.directory ∧
      (f k).2.2.fileName = k.fileName ∧ (f k).2.2.names.Nodup) : (s.ask m f).2.Aligned := by
  unfold ask
  cases hk : s.keeper? m with
  | none => exact h
  | some k =>
    obtain ⟨hdirectory, hfileName, hnodup⟩ := hf k (h.nodup m k hk)
    refine aligned_put h _ fun k' hk' => ?_
    obtain rfl := Option.some.inj hk'
    exact ⟨hdirectory.trans (h.directory m k hk), hfileName.trans (h.fileName m k hk), hnodup⟩

/-- Taking a resource that is not held keeps a keeper as it is, but for the entry. -/
theorem take_frame (k : LockKeeper) (fs : Files) {r : String} (mode : LockMode) (hr : r ∉ k.names)
    (hnodup : k.names.Nodup) : (k.take fs r mode).2.2.directory = k.directory ∧
      (k.take fs r mode).2.2.fileName = k.fileName ∧ (k.take fs r mode).2.2.names.Nodup := by
  rcases LockKeeper.take_cases k fs r mode with ⟨f, fs₁, fs₂, -, -, htake⟩ | ⟨fs₁, -, htake⟩
  · rw [htake]
    exact ⟨rfl, rfl, List.nodup_cons.2 ⟨hr, hnodup⟩⟩
  · rw [htake]
    exact ⟨rfl, rfl, hnodup⟩

theorem aligned_after (h : s.Aligned) (c : KeeperCall) : (s.after c).Aligned := by
  cases c with
  | create m =>
    simp only [after, call]
    cases hk : s.keeper? m with
    | some k => exact h
    | none =>
      simp only [LockKeeper.create]
      cases s.files.makeDirectories s.directory with
      | mk files result =>
        cases result with
        | ok _ =>
          refine aligned_put h files fun k' hk' => ?_
          obtain rfl := Option.some.inj hk'
          exact ⟨rfl, rfl, .nil⟩
        | error fault => exact aligned_put h files fun k' hk' => nomatch hk'
  | acquire m r mode =>
    refine aligned_ask h fun k hnodup => ?_
    rw [LockKeeper.acquire_eq]
    by_cases hr : r ∈ k.names
    · rw [if_pos hr]
      exact ⟨rfl, rfl, hnodup⟩
    · rw [if_neg hr]
      exact take_frame k s.files mode hr hnodup
  | acquireUnheld m r mode =>
    refine aligned_ask h fun k hnodup => ?_
    rw [LockKeeper.acquireUnheld_eq]
    by_cases hr : r ∈ k.names
    · rw [if_pos hr]
      exact ⟨rfl, rfl, hnodup⟩
    · rw [if_neg hr]
      exact take_frame k s.files mode hr hnodup
  | release m r =>
    refine aligned_ask h fun k hnodup => ?_
    dsimp only
    rw [LockKeeper.release_snd]
    exact ⟨rfl, rfl, by rw [LockKeeper.names_without]; exact hnodup.filter _⟩
  | releaseAll m => exact aligned_ask h fun k _ => ⟨rfl, rfl, .nil⟩
  | drop m =>
    simp only [after, call]
    cases hk : s.keeper? m with
    | none => exact h
    | some k => exact aligned_put h _ fun k' hk' => nomatch hk'
  | check m r => exact aligned_ask h fun k hnodup => ⟨rfl, rfl, hnodup⟩

/-- A file that has just been opened is nobody's. -/
theorem Sound.opened_ne (h : s.Sound) {p : FilePath} {f : OpenFile} {fs : Files}
    (hopens : Opens s.files p f fs) {m' : Nat} {r' : String} : s.fileOf? m' r' ≠ some f := by
  intro hf
  obtain ⟨mode, hlock⟩ := h.locked m' r' f hf
  exact hopens.ne_holder h.files _ (hopens.locks ▸ hlock) rfl

/-- What is kept when others are given up is none of their files. -/
theorem Sound.kept (h : s.Sound) {es : List (String × OpenFile)}
    (gone : ∀ m' e, e ∈ es ∧ m' = m ↔ c.givesUp m' e.1 ∧ s.fileOf? m' e.1 = some e.2) {m' : Nat}
    {r' : String} {f : OpenFile} (hf : s.fileOf? m' r' = some f)
    (hkept : c.givesUp m' r' = false) : f ∉ es.map (·.2) := by
  intro hmem
  obtain ⟨e, he, rfl⟩ := List.mem_map.1 hmem
  obtain ⟨hgives, hfile⟩ := (gone m e).1 ⟨he, rfl⟩
  obtain ⟨rfl, hr⟩ := h.own m e.1 m' r' e.2 hfile hf
  rw [hr, hkept] at hgives
  cases hgives

theorem Effect.sound (h : s.Sound) {a : Bool × Keepers} (ha : a.2.Aligned) (he : Effect s c a) :
    a.2.Sound := by
  cases he with
  | grow files same told =>
    refine ⟨ha, files.wellFormed h.files, fun m r f hf => ?_, fun m r m' r' f hf hf' => ?_⟩
    · rw [files.locks]
      exact h.locked m r f ((same m r).symm.trans hf)
    · exact h.own m r m' r' f ((same m r).symm.trans hf) ((same m' r').symm.trans hf')
  | @take m r mode f fs s' asks new opens locks table =>
    obtain ⟨-, hfiles, hw⟩ := opens.tryLock? h.files locks
    refine ⟨ha, hw, fun m' r' f' hf => ?_, fun m₁ r₁ m₂ r₂ f' hf₁ hf₂ => ?_⟩
    · rw [hfiles]
      rw [table] at hf
      split at hf
      · obtain rfl := Option.some.inj hf
        exact ⟨mode, mem_locks_withLock.2 (.inl rfl)⟩
      · obtain ⟨mode', hlock⟩ := h.locked m' r' f' hf
        exact ⟨mode', mem_locks_withLock.2 (.inr (opens.locks ▸ hlock))⟩
    · rw [table] at hf₁ hf₂
      split at hf₁
      · rename_i heq₁
        obtain rfl := Option.some.inj hf₁
        split at hf₂
        · rename_i heq₂
          exact ⟨heq₁.1.trans heq₂.1.symm, heq₁.2.trans heq₂.2.symm⟩
        · exact absurd hf₂ (h.opened_ne opens)
      · split at hf₂
        · obtain rfl := Option.some.inj hf₂
          exact absurd hf₁ (h.opened_ne opens)
        · exact h.own m₁ r₁ m₂ r₂ f' hf₁ hf₂
  | @giveUp m k s' es asks keeper gone files table =>
    have hold {m' : Nat} {r' : String} {f : OpenFile} (hf : s'.fileOf? m' r' = some f) :
        c.givesUp m' r' = false ∧ s.fileOf? m' r' = some f := by
      rw [table] at hf
      split at hf
      · cases hf
      · rename_i hkept
        exact ⟨by simpa using hkept, hf⟩
    refine ⟨ha, ?_, fun m' r' f hf => ?_, fun m₁ r₁ m₂ r₂ f hf₁ hf₂ => ?_⟩
    · show s'.files.WellFormed
      rw [files]
      exact LockKeeper.wellFormed_letGoEach h.files es
    · obtain ⟨hkept, hf⟩ := hold hf
      obtain ⟨mode, hlock⟩ := h.locked m' r' f hf
      refine ⟨mode, ?_⟩
      show _ ∈ s'.files.locks
      rw [files, LockKeeper.mem_locks_letGoEach]
      exact ⟨hlock, h.kept gone hf hkept⟩
    · exact h.own m₁ r₁ m₂ r₂ f (hold hf₁).2 (hold hf₂).2

theorem sound_after (h : s.Sound) (c : KeeperCall) : (s.after c).Sound :=
  (effect_call h c).sound h (aligned_after h.toAligned c)

theorem sound_run (h : s.Sound) (cs : List KeeperCall) : (s.run cs).Sound := by
  induction cs generalizing s with
  | nil => exact h
  | cons c cs ih => exact ih (sound_after h c)

theorem sound_start {files : Files} (h : files.WellFormed) (directory : FilePath) :
    (start directory files).Sound where
  directory _ _ hk := nomatch hk
  fileName _ _ hk := nomatch hk
  nodup _ _ hk := nomatch hk
  files := h
  locked _ _ _ hf := nomatch hf
  own _ _ _ _ _ hf := nomatch hf

end Keepers

end Upkeep
