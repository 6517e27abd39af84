import Upkeep.Proofs.Locks.Table

/-!
# Calls of keepers that overlap

Any number of keepers over one directory take and give up resources, always exclusively, and each
step on the files or on a table may come between two steps of another call.

**Steps.** To take a resource, a keeper opens its file, locks it, and records it in the table; its
table is locked meanwhile, so that it is at one resource at a time. To give one up, the entry is
removed, then the file is unlocked, and then its name is unlinked; any number of these may be under
way. `take_uninterrupted` and `giveUp_uninterrupted` say that steps without others in between are
the calls of `LockKeeper`.

**What always holds.** No file is open twice, each keeper is over the directory, and what it thinks
it has locked is locked (`Sound`, `sound_run`).
-/

namespace Upkeep

open Files

/-- A keeper with the calls that are under way. -/
structure Party where
  keeper : LockKeeper
  /-- The file is open. -/
  opened? : Option (String × OpenFile) := none
  /-- The file is locked as well. -/
  locked? : Option (String × OpenFile) := none
  /-- These are out of the table and still locked. -/
  removed : List (String × OpenFile) := []
  /-- The files of these are closed, and their names still there. -/
  unlinking : List String := []

/-- One step of a keeper. -/
inductive PartyStep where
  | opening (m : Nat) (r : String)
  | locking (m : Nat)
  | recording (m : Nat)
  | removing (m : Nat) (r : String)
  | removingAll (m : Nat)
  | unlocking (m : Nat) (r : String) (f : OpenFile)
  | unlinking (m : Nat) (r : String)
  deriving DecidableEq

/-- Keepers by number, the directory of their lock files, and the files. -/
structure Crowd where
  directory : FilePath
  files : Files
  party : Nat → Party

namespace Party

/-- A keeper is at taking a resource, and its table is locked. -/
def isTaking (p : Party) : Bool := p.opened?.isSome || p.locked?.isSome

/-- The files that a keeper has locked, with their resources. -/
def carried (p : Party) : List (String × OpenFile) := p.keeper.held ++ p.locked?.toList ++ p.removed

/-- The files that a keeper has open. -/
def hands (p : Party) : List OpenFile := (p.carried ++ p.opened?.toList).map (·.2)

end Party

namespace Crowd

/-- Keepers that have nothing yet. -/
def start (directory : FilePath) (files : Files) : Crowd :=
  ⟨directory, files, fun _ => { keeper := { directory } }⟩

/-- The files and one keeper after a step. -/
def put (s : Crowd) (m : Nat) (files : Files) (p : Party) : Crowd :=
  { s with files, party := fun n => if n = m then p else s.party n }

/-- The lock file of a resource. -/
def path (s : Crowd) (r : String) : FilePath := s.directory ++ [.name (lockFileName r)]

/-- The state after a step; a step that is not the next one of its keeper does nothing. -/
def step (s : Crowd) : PartyStep → Crowd
  | .opening m r =>
    let p := s.party m
    if p.isTaking || p.keeper.isHeld r then s
    else match s.files.openOrCreate (p.keeper.path r) with
      | .error _ => s
      | .ok (f, files) => s.put m files { p with opened? := some (r, f) }
  | .locking m =>
    let p := s.party m
    match p.opened? with
    | none => s
    | some (r, f) =>
      match s.files.tryLock? f .exclusive with
      | none => s.put m s.files { p with opened? := none }
      | some files => s.put m files { p with opened? := none, locked? := some (r, f) }
  | .recording m =>
    let p := s.party m
    match p.locked? with
    | none => s
    | some (r, f) => s.put m s.files { p with keeper := p.keeper.enter r f, locked? := none }
  | .removing m r =>
    let p := s.party m
    if p.isTaking then s
    else match p.keeper.held.lookup r with
      | none => s
      | some f => s.put m s.files
          { p with keeper := p.keeper.without r, removed := (r, f) :: p.removed }
  | .removingAll m =>
    let p := s.party m
    if p.isTaking then s
    else s.put m s.files
      { p with keeper := { p.keeper with held := [] }, removed := p.keeper.held ++ p.removed }
  | .unlocking m r f =>
    let p := s.party m
    if (r, f) ∈ p.removed then
      s.put m (s.files.unlock f)
        { p with removed := p.removed.erase (r, f), unlinking := r :: p.unlinking }
    else s
  | .unlinking m r =>
    let p := s.party m
    if r ∈ p.unlinking then
      s.put m (s.files.attempt (s.files.unlink (p.keeper.path r))).1
        { p with unlinking := p.unlinking.erase r }
    else s

/-- The state after some steps. -/
def run (s : Crowd) (ts : List PartyStep) : Crowd := ts.foldl step s

theorem run_append (s : Crowd) (ts us : List PartyStep) : s.run (ts ++ us) = (s.run ts).run us :=
  List.foldl_append

variable {s : Crowd} {m m' : Nat} {r : String} {f : OpenFile}

@[simp] theorem party_put (s : Crowd) (m : Nat) (files : Files) (p : Party) (n : Nat) :
    (s.put m files p).party n = if n = m then p else s.party n := rfl

@[simp] theorem files_put (s : Crowd) (m : Nat) (files : Files) (p : Party) :
    (s.put m files p).files = files := rfl

@[simp] theorem put_put (s : Crowd) (m : Nat) (files files' : Files) (p p' : Party) :
    (s.put m files p).put m files' p' = s.put m files' p' := by
  simp only [put, mk.injEq, true_and]
  funext n
  split <;> rfl

/-! ## Calls that nobody interrupts -/

/-- The steps of a call that takes a resource. -/
def taking (m : Nat) (r : String) : List PartyStep := [.opening m r, .locking m, .recording m]

/-- The steps of a call that gives a resource up. -/
def givingUp (m : Nat) (r : String) (f : OpenFile) : List PartyStep :=
  [.removing m r, .unlocking m r f, .unlinking m r]

/-- The opening, the locking and the recording of a file, all of which succeed. -/
theorem run_taking (hfree : (s.party m).isTaking = false) (hr : r ∉ (s.party m).keeper.names)
    {fs fs' : Files} (hopen : s.files.openOrCreate ((s.party m).keeper.path r) = .ok (f, fs))
    (hlock : fs.tryLock? f .exclusive = some fs') :
    s.run (taking m r) =
      s.put m fs' { s.party m with keeper := (s.party m).keeper.enter r f } := by
  have hnone : (s.party m).opened? = none ∧ (s.party m).locked? = none := by
    simpa [Party.isTaking] using hfree
  have hheld := LockKeeper.isHeld_eq_false_iff.2 hr
  simp only [run, taking, List.foldl_cons, List.foldl_nil, step, hfree, hheld, hopen, Bool.or_self,
    Bool.false_eq_true, if_false, party_put, if_true, files_put, hlock, put_put, hnone]

theorem put_self (s : Crowd) (m : Nat) : s.put m s.files (s.party m) = s := by
  obtain ⟨directory, files, party⟩ := s
  simp only [put, mk.injEq, true_and]
  funext n
  split
  · rename_i heq
    rw [heq]
  · rfl

/-- A call that takes a resource, if nobody interrupts it. -/
theorem take_uninterrupted (hfree : (s.party m).isTaking = false) (r : String) :
    s.run (taking m r) = s.put m ((s.party m).keeper.acquire s.files r .exclusive).2.1
      { s.party m with keeper := ((s.party m).keeper.acquire s.files r .exclusive).2.2 } := by
  have hnone : (s.party m).opened? = none ∧ (s.party m).locked? = none := by
    simpa [Party.isTaking] using hfree
  -- If the first step does nothing, the other two have nothing to do.
  have hstay (h : s.step (.opening m r) = s) : s.run (taking m r) = s := by
    simp only [run, taking, List.foldl_cons, List.foldl_nil, h]
    simp only [step, hnone]
  rw [LockKeeper.acquire_eq]
  by_cases hr : r ∈ (s.party m).keeper.names
  · rw [if_pos hr]
    have hheld := LockKeeper.isHeld_iff.2 hr
    refine (hstay ?_).trans (put_self s m).symm
    simp only [step, hheld, Bool.or_true, if_true]
  · rw [if_neg hr]
    have hheld := LockKeeper.isHeld_eq_false_iff.2 hr
    unfold LockKeeper.take
    cases hopen : s.files.openOrCreate ((s.party m).keeper.path r) with
    | error fault =>
      refine (hstay ?_).trans (put_self s m).symm
      simp only [step, hfree, hheld, hopen, Bool.or_self, Bool.false_eq_true, if_false]
    | ok opened =>
      obtain ⟨f, fs⟩ := opened
      cases hlock : fs.tryLock? f .exclusive with
      | some fs' =>
        simp only [hlock]
        exact run_taking hfree hr hopen hlock
      | none =>
        simp only [run, taking, List.foldl_cons, List.foldl_nil, step, hfree, hheld, hopen,
          Bool.or_self, Bool.false_eq_true, if_false, party_put, if_true, files_put, hlock,
          put_put, hnone]

/-- A call that gives a resource up, if nobody interrupts it. -/
theorem giveUp_uninterrupted (hfree : (s.party m).isTaking = false)
    (hf : (s.party m).keeper.held.lookup r = some f) :
    s.run (givingUp m r f) = s.put m ((s.party m).keeper.release s.files r).1
      { s.party m with keeper := ((s.party m).keeper.release s.files r).2 } := by
  rw [LockKeeper.release_of_lookup hf, LockKeeper.letGo_eq]
  simp [run, givingUp, step, hfree, hf, LockKeeper.without, LockKeeper.path]

/-! ## What always holds -/

/-- No file is open twice, and the next handle is new. -/
structure Owned (s : Crowd) : Prop where
  handle_lt : ∀ m, ∀ f ∈ (s.party m).hands, f.handle < s.files.nextHandle
  nodup : ∀ m, (s.party m).hands.Nodup
  apart : ∀ m m' f, f ∈ (s.party m).hands → f ∈ (s.party m').hands → m = m'

/-- A keeper is over the directory, and has locked what it thinks it has locked. -/
structure Fits (p : Party) (directory : FilePath) (files : Files) : Prop where
  directory : p.keeper.directory = directory
  fileName : p.keeper.fileName = lockFileName
  names : p.keeper.names.Nodup
  /-- A keeper is at one resource at a time. -/
  single : p.opened? = none ∨ p.locked? = none
  /-- What a keeper is at is not in its table. -/
  new : ∀ e, p.opened? = some e ∨ p.locked? = some e → e.1 ∉ p.keeper.names
  opened : ∀ e, p.opened? = some e →
    (∀ l ∈ files.locks, l.holder ≠ e.2) ∧ e.2.inode < files.nextInode
  locked : ∀ e ∈ p.carried, ⟨e.2, .exclusive⟩ ∈ files.locks

structure Sound (s : Crowd) : Prop where
  files : s.files.WellFormed
  owned : s.Owned
  fits : ∀ m, Fits (s.party m) s.directory s.files

theorem mem_hands_of_carried {p : Party} {e : String × OpenFile} (h : e ∈ p.carried) :
    e.2 ∈ p.hands :=
  List.mem_map.2 ⟨e, List.mem_append_left _ h, rfl⟩

theorem mem_hands_of_opened {p : Party} {e : String × OpenFile} (h : p.opened? = some e) :
    e.2 ∈ p.hands :=
  List.mem_map.2 ⟨e, List.mem_append_right _ (by simp [h]), rfl⟩

/-- Keepers that have no other files open than before. -/
theorem Owned.put (h : s.Owned) {files : Files} {p : Party}
    (hle : s.files.nextHandle ≤ files.nextHandle) (hsub : ∀ f ∈ p.hands, f ∈ (s.party m).hands)
    (hnodup : p.hands.Nodup) : (s.put m files p).Owned := by
  have hmem {n : Nat} {f : OpenFile} (hf : f ∈ ((s.put m files p).party n).hands) :
      f ∈ (s.party n).hands := by
    rw [party_put] at hf
    split at hf
    · rename_i heq
      rw [heq]
      exact hsub f hf
    · exact hf
  constructor
  · exact fun n f hf => Nat.lt_of_lt_of_le (h.handle_lt n f (hmem hf)) hle
  · intro n
    rw [party_put]
    split
    · exact hnodup
    · exact h.nodup n
  · exact fun n n' f hf hf' => h.apart n n' f (hmem hf) (hmem hf')

/-- A keeper that opens a file with a new handle. -/
theorem Owned.put_new (h : s.Owned) {files : Files} {p : Party}
    (hperm : p.hands.Perm (f :: (s.party m).hands)) (hf : f.handle = s.files.nextHandle)
    (hlt : s.files.nextHandle < files.nextHandle) : (s.put m files p).Owned := by
  have hnew (n : Nat) : f ∉ (s.party n).hands := by
    intro hmem
    have := h.handle_lt n f hmem
    omega
  have hmem {n : Nat} {g : OpenFile} (hg : g ∈ ((s.put m files p).party n).hands) :
      n = m ∧ g = f ∨ g ∈ (s.party n).hands := by
    rw [party_put] at hg
    split at hg
    · rename_i heq
      rw [hperm.mem_iff, List.mem_cons] at hg
      rcases hg with hg | hg
      · exact .inl ⟨heq, hg⟩
      · rw [heq]
        exact .inr hg
    · exact .inr hg
  constructor
  · intro n g hg
    rcases hmem hg with ⟨-, rfl⟩ | hg
    · rw [files_put, hf]
      exact hlt
    · exact Nat.lt_trans (h.handle_lt n g hg) hlt
  · intro n
    rw [party_put]
    split
    · exact hperm.nodup_iff.2 (List.nodup_cons.2 ⟨hnew m, h.nodup m⟩)
    · exact h.nodup n
  · intro n n' g hg hg'
    rcases hmem hg with ⟨hn, rfl⟩ | hg
    · rcases hmem hg' with ⟨hn', -⟩ | hg'
      · exact hn.trans hn'.symm
      · exact absurd hg' (hnew n')
    · rcases hmem hg' with ⟨-, rfl⟩ | hg'
      · exact absurd hg (hnew n)
      · exact h.apart n n' g hg hg'

/-- A step of one keeper, which changes no locks but its own. -/
theorem Sound.put (h : s.Sound) {files : Files} {p : Party} (hw : files.WellFormed)
    (howned : (s.put m files p).Owned) (hfits : Fits p s.directory files)
    (hkept : ∀ l ∈ s.files.locks, l.holder ∉ (s.party m).hands → l ∈ files.locks)
    (hadded : ∀ l ∈ files.locks, l ∈ s.files.locks ∨ l.holder ∈ (s.party m).hands)
    (hinode : s.files.nextInode ≤ files.nextInode) : (s.put m files p).Sound := by
  refine ⟨hw, howned, fun n => ?_⟩
  rw [party_put]
  split
  · exact hfits
  · rename_i hn
    -- What another keeper has open is not in the hands of this one.
    have hforeign {g : OpenFile} (hg : g ∈ (s.party n).hands) : g ∉ (s.party m).hands :=
      fun hmem => hn (h.owned.apart n m g hg hmem)
    refine { h.fits n with opened := fun e he => ?_, locked := fun e he => ?_ }
    · obtain ⟨hnone, hlt⟩ := (h.fits n).opened e he
      refine ⟨fun l hl heq => ?_, Nat.lt_of_lt_of_le hlt hinode⟩
      rcases hadded l hl with hold | hmine
      · exact hnone l hold heq
      · exact hforeign (mem_hands_of_opened he) (heq ▸ hmine)
    · exact hkept _ ((h.fits n).locked e he) (hforeign (mem_hands_of_carried he))

/-- A step of one keeper that does not touch the files. -/
theorem Sound.put_party (h : s.Sound) {p : Party} (hsub : ∀ f ∈ p.hands, f ∈ (s.party m).hands)
    (hnodup : p.hands.Nodup) (hfits : Fits p s.directory s.files) :
    (s.put m s.files p).Sound :=
  h.put h.files (h.owned.put (Nat.le_refl _) hsub hnodup) hfits (fun _ hl _ => hl)
    (fun _ hl => .inl hl) (Nat.le_refl _)

/-- A step of one keeper by which its files change roles. -/
theorem Sound.put_perm (h : s.Sound) {p : Party} (hperm : p.hands.Perm (s.party m).hands)
    (hfits : Fits p s.directory s.files) : (s.put m s.files p).Sound :=
  h.put_party (fun _ hf => hperm.mem_iff.1 hf) (hperm.nodup_iff.2 (h.owned.nodup m)) hfits

/-! ## Every step keeps what always holds -/

theorem isTaking_eq_false_iff {p : Party} :
    p.isTaking = false ↔ p.opened? = none ∧ p.locked? = none := by
  simp [Party.isTaking]

theorem sound_opening (h : s.Sound) (m : Nat) (r : String) : (s.step (.opening m r)).Sound := by
  simp only [step]
  split
  · exact h
  · rename_i hfree
    rw [Bool.or_eq_true, not_or, Bool.not_eq_true, Bool.not_eq_true, isTaking_eq_false_iff,
      LockKeeper.isHeld_eq_false_iff] at hfree
    obtain ⟨⟨hopened, hlocked⟩, hr⟩ := hfree
    split
    · exact h
    · rename_i f fs hopen
      have hopens := opens_of_openOrCreate hopen
      have hw := hopens.wellFormed h.files
      have hfits := h.fits m
      have hlt : s.files.nextHandle < fs.nextHandle := by
        rw [hopens.nextHandle]
        exact Nat.lt_succ_self _
      have hperm : (Party.hands { s.party m with opened? := some (r, f) }).Perm
          (f :: (s.party m).hands) := by
        simp only [Party.hands, Party.carried, hopened, Option.toList_none, Option.toList_some,
          List.append_nil, List.map_append, List.map_cons, List.map_nil]
        exact List.perm_append_singleton _ _
      refine h.put hw (h.owned.put_new hperm hopens.handle hlt) ?_
        (fun l hl _ => hopens.locks ▸ hl) (fun l hl => .inl (hopens.locks ▸ hl))
        hopens.nextInode_le
      refine { hfits with single := .inr hlocked, new := ?_, opened := ?_, locked := ?_ }
      · rintro e (he | he)
        · obtain rfl := Option.some.inj he
          exact hr
        · exact hfits.new e (.inr he)
      · intro e he
        obtain rfl := Option.some.inj he
        exact ⟨hopens.ne_holder h.files, hw.lt_of_inode hopens.leads⟩
      · exact fun e he => hopens.locks ▸ hfits.locked e he

theorem sound_locking (h : s.Sound) (m : Nat) : (s.step (.locking m)).Sound := by
  have hfits := h.fits m
  simp only [step]
  split
  · exact h
  · rename_i r f hopened
    have hlocked : (s.party m).locked? = none := by
      rcases hfits.single with hnone | hnone
      · rw [hopened] at hnone
        cases hnone
      · exact hnone
    obtain ⟨hfresh, hlt⟩ := hfits.opened (r, f) hopened
    split
    · -- Somebody has locked the file; it is closed again.
      have hsublist : (Party.hands { s.party m with opened? := none }).Sublist
          (s.party m).hands := by
        simp only [Party.hands, Party.carried, Option.toList_none, List.append_nil]
        exact (List.sublist_append_left _ _).map _
      refine h.put_party (fun _ hf => hsublist.subset hf) (hsublist.nodup (h.owned.nodup m)) ?_
      refine { hfits with single := .inl rfl, new := ?_, opened := ?_ }
      · rintro e (he | he)
        · cases he
        · exact hfits.new e (.inr he)
      · exact fun e he => nomatch he
    · rename_i files hlock
      obtain ⟨hfree, rfl⟩ := (tryLock?_eq_some_iff hfresh).1 hlock
      have hmem : f ∈ (s.party m).hands := mem_hands_of_opened hopened
      have hw := h.files.withLock (h.owned.handle_lt m f hmem) hlt hfresh hfree
      have hperm : (Party.hands { s.party m with opened? := none, locked? := some (r, f) }).Perm
          (s.party m).hands := by
        simp only [Party.hands, Party.carried, hopened, hlocked, Option.toList_none,
          Option.toList_some, List.append_nil, List.append_assoc]
        exact (List.perm_append_comm.append_left _).map _
      refine h.put hw (h.owned.put (Nat.le_refl _) (fun _ hg => hperm.mem_iff.1 hg)
        (hperm.nodup_iff.2 (h.owned.nodup m))) ?_ (fun l hl _ => mem_locks_withLock.2 (.inr hl))
        ?_ (Nat.le_refl _)
      · refine { hfits with single := .inl rfl, new := ?_, opened := ?_, locked := ?_ }
        · rintro e (he | he)
          · cases he
          · obtain rfl := Option.some.inj he
            exact hfits.new _ (.inl hopened)
        · exact fun e he => nomatch he
        · intro e he
          simp only [Party.carried, Option.toList_some, List.mem_append, List.mem_singleton] at he
          rw [mem_locks_withLock]
          rcases he with (he | rfl) | he
          · exact .inr (hfits.locked e (by simp [Party.carried, he]))
          · exact .inl rfl
          · exact .inr (hfits.locked e (by simp [Party.carried, he]))
      · intro l hl
        rcases mem_locks_withLock.1 hl with rfl | hl
        · exact .inr hmem
        · exact .inl hl

theorem sound_recording (h : s.Sound) (m : Nat) : (s.step (.recording m)).Sound := by
  have hfits := h.fits m
  simp only [step]
  split
  · exact h
  · rename_i r f hlocked
    have hopened : (s.party m).opened? = none := by
      rcases hfits.single with hnone | hnone
      · exact hnone
      · rw [hlocked] at hnone
        cases hnone
    refine h.put_perm ?_ ?_
    · simp only [Party.hands, Party.carried, hlocked, LockKeeper.enter, Option.toList_none,
        Option.toList_some, List.append_nil, List.append_assoc]
      exact List.perm_middle.symm.map _
    · refine { hfits with
        names := List.nodup_cons.2 ⟨hfits.new (r, f) (.inr hlocked), hfits.names⟩
        single := .inl hopened, new := ?_, locked := ?_ }
      · rintro e (he | he)
        · rw [hopened] at he
          cases he
        · cases he
      · intro e he
        refine hfits.locked e ?_
        simp only [Party.carried, LockKeeper.enter, hlocked, Option.toList_none,
          Option.toList_some, List.mem_append, List.mem_cons, List.not_mem_nil] at he ⊢
        tauto

theorem sound_removing (h : s.Sound) (m : Nat) (r : String) : (s.step (.removing m r)).Sound := by
  have hfits := h.fits m
  simp only [step]
  split
  · exact h
  · rename_i hfree
    obtain ⟨hopened, hlocked⟩ := isTaking_eq_false_iff.1 (Bool.eq_false_iff.2 hfree)
    split
    · exact h
    · rename_i f hf
      have hheld := LockKeeper.perm_without hfits.names hf
      refine h.put_perm ?_ ?_
      · refine (List.Perm.append_right _ ?_).map _
        exact (List.perm_middle.trans (((hheld.append_right _).append_right _).symm))
      · refine { hfits with names := ?_, new := ?_, locked := ?_ }
        · rw [LockKeeper.names_without]
          exact hfits.names.filter _
        · rintro e (he | he)
          · rw [hopened] at he
            cases he
          · rw [hlocked] at he
            cases he
        · intro e he
          refine hfits.locked e ?_
          simp only [Party.carried, List.mem_append, hheld.mem_iff, List.mem_cons] at he ⊢
          tauto

theorem sound_removingAll (h : s.Sound) (m : Nat) : (s.step (.removingAll m)).Sound := by
  have hfits := h.fits m
  simp only [step]
  split
  · exact h
  · rename_i hfree
    obtain ⟨hopened, hlocked⟩ := isTaking_eq_false_iff.1 (Bool.eq_false_iff.2 hfree)
    refine h.put_perm ?_ ?_
    · simp only [Party.hands, Party.carried, hlocked, Option.toList_none, List.append_nil,
        List.nil_append]
      exact .refl _
    · refine { hfits with names := .nil, new := fun _ _ he => (nomatch he), locked := ?_ }
      intro e he
      refine hfits.locked e ?_
      simp only [Party.carried, List.mem_append, List.not_mem_nil] at he ⊢
      tauto

theorem sound_unlocking (h : s.Sound) (m : Nat) (r : String) (f : OpenFile) :
    (s.step (.unlocking m r f)).Sound := by
  have hfits := h.fits m
  simp only [step]
  split
  · rename_i hmem
    have hremoved := List.perm_cons_erase hmem
    have hperm : (s.party m).hands.Perm (f :: Party.hands { s.party m with
        removed := (s.party m).removed.erase (r, f)
        unlinking := r :: (s.party m).unlinking }) :=
      (((hremoved.append_left _).trans List.perm_middle).append_right _).map _
    obtain ⟨hnot, hnodup⟩ := List.nodup_cons.1 (hperm.nodup_iff.1 (h.owned.nodup m))
    have hf : f ∈ (s.party m).hands := hperm.mem_iff.2 List.mem_cons_self
    refine h.put (h.files.unlock f) (h.owned.put (Nat.le_refl _)
      (fun _ hg => hperm.mem_iff.2 (List.mem_cons_of_mem _ hg)) hnodup) ?_ (fun l hl hl' => ?_)
      (fun l hl => .inl (mem_locks_unlock.1 hl).1) (Nat.le_refl _)
    · refine { hfits with opened := fun e he => ?_, locked := fun e he => ?_ }
      · obtain ⟨hnone, hlt⟩ := hfits.opened e he
        exact ⟨fun l hl => hnone l (mem_locks_unlock.1 hl).1, hlt⟩
      · -- The lock that is given up is not that of another file.
        have hne : e.2 ≠ f := by
          rintro rfl
          exact hnot (mem_hands_of_carried he)
        refine mem_locks_unlock.2 ⟨hfits.locked e ?_, hne⟩
        simp only [Party.carried, List.mem_append] at he ⊢
        rcases he with he | he
        · exact .inl he
        · exact .inr (List.mem_of_mem_erase he)
    · exact mem_locks_unlock.2 ⟨hl, fun heq => hl' (heq ▸ hf)⟩
  · exact h

theorem attempt_unlink_frame {fs : Files} (hw : fs.WellFormed) (p : FilePath) :
    (fs.attempt (fs.unlink p)).1.WellFormed ∧
      (fs.attempt (fs.unlink p)).1.locks = fs.locks ∧
        (fs.attempt (fs.unlink p)).1.nextInode = fs.nextInode ∧
          (fs.attempt (fs.unlink p)).1.nextHandle = fs.nextHandle := by
  rcases attempt_unlink_cases fs p with h | h
  · rw [h]
    exact ⟨hw, rfl, rfl, rfl⟩
  · exact ⟨hw.of_unlink h, locks_of_unlink h⟩

theorem sound_unlinking (h : s.Sound) (m : Nat) (r : String) :
    (s.step (.unlinking m r)).Sound := by
  have hfits := h.fits m
  simp only [step]
  split
  · obtain ⟨hw, hlocks, hinode, hhandle⟩ :=
      attempt_unlink_frame h.files ((s.party m).keeper.path r)
    refine h.put hw (h.owned.put (Nat.le_of_eq hhandle.symm) (fun _ hf => hf) (h.owned.nodup m)) ?_
      (fun l hl _ => hlocks ▸ hl) (fun l hl => .inl (hlocks ▸ hl)) (Nat.le_of_eq hinode.symm)
    refine { hfits with opened := fun e he => ?_, locked := fun e he => ?_ }
    · rw [hlocks, hinode]
      exact hfits.opened e he
    · rw [hlocks]
      exact hfits.locked e he
  · exact h

theorem sound_step (h : s.Sound) (t : PartyStep) : (s.step t).Sound := by
  cases t with
  | opening m r => exact sound_opening h m r
  | locking m => exact sound_locking h m
  | recording m => exact sound_recording h m
  | removing m r => exact sound_removing h m r
  | removingAll m => exact sound_removingAll h m
  | unlocking m r f => exact sound_unlocking h m r f
  | unlinking m r => exact sound_unlinking h m r

theorem sound_start {files : Files} (h : files.WellFormed) (directory : FilePath) :
    (start directory files).Sound where
  files := h
  owned := ⟨fun _ _ hf => (nomatch hf), fun _ => .nil, fun _ _ _ hf => (nomatch hf)⟩
  fits _ := {
    directory := rfl
    fileName := rfl
    names := .nil
    single := .inl rfl
    new := fun _ _ he => (nomatch he)
    opened := fun _ he => (nomatch he)
    locked := fun _ he => (nomatch he) }

theorem sound_run (h : s.Sound) (ts : List PartyStep) : (s.run ts).Sound := by
  induction ts generalizing s with
  | nil => exact h
  | cons t ts ih => exact ih (sound_step h t)

end Crowd

end Upkeep
