import Upkeep.Proofs.Files.Resolution

/-!
# Open files and their locks

`WellFormed` says what holds of the files at all times: inodes and handles have been given out, an
open file carries one lock at most, and no exclusive lock stands beside another lock of the same
inode. A file that is opened has a handle of its own, so its lock is its own as well.

A change that adds entries and leaves the locks alone is said to *grow* the files (`Grows`). Opening
a file and making directories are changes of this kind.
-/

namespace Upkeep.Files

/-! ## Files as they can be -/

/-- What holds of the files at all times. -/
structure WellFormed (fs : Files) : Prop where
  inode_lt : ∀ q i, fs.node? q = some (.file i) → i < fs.nextInode
  handle_lt : ∀ l ∈ fs.locks, l.holder.handle < fs.nextHandle
  locked_lt : ∀ l ∈ fs.locks, l.holder.inode < fs.nextInode
  one_lock : ∀ l ∈ fs.locks, ∀ l' ∈ fs.locks, l.holder = l'.holder → l = l'
  compatible : ∀ l ∈ fs.locks, ∀ l' ∈ fs.locks, l.holder.inode = l'.holder.inode →
    l = l' ∨ l.mode = .shared ∧ l'.mode = .shared

/-- Without locks nothing is asked but that the inodes have been given out. -/
theorem wellFormed_of_unlocked {fs : Files} (hlocks : fs.locks = [])
    (h : ∀ e ∈ fs.nodes, ∀ i, e.2 = .file i → i < fs.nextInode) : fs.WellFormed := by
  have none (l : FileLock) : l ∉ fs.locks := hlocks ▸ List.not_mem_nil
  refine ⟨fun q i hn => ?_, fun l hl => absurd hl (none l), fun l hl => absurd hl (none l),
    fun l hl => absurd hl (none l), fun l hl => absurd hl (none l)⟩
  unfold node? at hn
  split at hn
  · cases hn
  · exact h _ (Association.mem_of_lookup hn) i rfl

theorem wellFormed_empty : ({} : Files).WellFormed := wellFormed_of_unlocked rfl nofun

theorem WellFormed.lt_of_inode {fs : Files} (hw : fs.WellFormed) {p : FilePath} {i : Nat}
    (h : fs.inode p = .ok i) : i < fs.nextInode := by
  obtain ⟨-, -, e, n, -, hc⟩ := inode_eq_ok_iff.1 h
  exact hw.inode_lt _ i (child?_eq_some_iff.1 hc).2

/-! ## Growth -/

/-- Entries are added, and the locks stay as they are. -/
structure Grows (fs fs' : Files) : Prop where
  locks : fs'.locks = fs.locks
  keeps : Keeps fs fs'
  nextInode_le : fs.nextInode ≤ fs'.nextInode
  wellFormed : fs.WellFormed → fs'.WellFormed

theorem Grows.refl (fs : Files) : Grows fs fs := ⟨rfl, .refl fs, Nat.le_refl _, id⟩

theorem Grows.trans {fs₁ fs₂ fs₃ : Files} (h : Grows fs₁ fs₂) (h' : Grows fs₂ fs₃) :
    Grows fs₁ fs₃ where
  locks := h'.locks.trans h.locks
  keeps := h.keeps.trans h'.keeps
  nextInode_le := Nat.le_trans h.nextInode_le h'.nextInode_le
  wellFormed hw := h'.wellFormed (h.wellFormed hw)

theorem grows_nextHandle (fs : Files) : Grows fs { fs with nextHandle := fs.nextHandle + 1 } where
  locks := rfl
  keeps := .refl fs
  nextInode_le := Nat.le_refl _
  wellFormed hw := { hw with handle_lt := fun l hl => Nat.lt_succ_of_lt (hw.handle_lt l hl) }

theorem grows_withNewFile {fs : Files} {d : Place} {n : String}
    (h : fs.node? (d ++ [n]) = none) : Grows fs (fs.withNewFile (d ++ [n])) where
  locks := rfl
  keeps := keeps_withNewFile h
  nextInode_le := Nat.le_succ _
  wellFormed hw := {
    hw with
    inode_lt := by
      intro q i hq
      rw [node?_withNewFile] at hq
      show i < fs.nextInode + 1
      split at hq
      · obtain rfl : fs.nextInode = i := by simpa using hq
        omega
      · exact Nat.lt_succ_of_lt (hw.inode_lt q i hq)
    locked_lt := fun l hl => Nat.lt_succ_of_lt (hw.locked_lt l hl) }

theorem grows_setDirectory {fs : Files} {d : Place} {n : String}
    (h : fs.node? (d ++ [n]) = none) : Grows fs (fs.setNode (d ++ [n]) .directory) where
  locks := rfl
  keeps := keeps_setNode h
  nextInode_le := Nat.le_refl _
  wellFormed hw := {
    hw with
    inode_lt := by
      intro q i hq
      rw [node?_setNode] at hq
      split at hq
      · cases hq
      · exact hw.inode_lt q i hq }

theorem grows_of_makeDirectory {fs fs' : Files} {p : FilePath}
    (h : fs.makeDirectory p = .ok fs') : Grows fs fs' := by
  unfold makeDirectory at h
  cases hl : fs.locate p with
  | error fault => rw [hl] at h; cases h
  | ok dest =>
    cases dest with
    | here d => rw [hl] at h; cases h
    | entry d n slash =>
      cases hc : fs.child? d n with
      | error fault => simp [hl, hc, bind, Except.bind] at h
      | ok node? =>
        cases node? with
        | some node => simp [hl, hc, bind, Except.bind] at h
        | none =>
          simp [hl, hc, bind, Except.bind] at h
          exact h ▸ grows_setDirectory (child?_eq_none_iff.1 hc).2

theorem grows_of_ensureDirectory {fs fs' : Files} {p : FilePath}
    (h : fs.ensureDirectory p = .ok fs') : Grows fs fs' := by
  unfold ensureDirectory at h
  split at h
  · split at h
    · cases h; exact .refl fs
    · cases h
  · exact grows_of_makeDirectory h

theorem grows_attempt_ensureDirectory (fs : Files) (p : FilePath) :
    Grows fs (fs.attempt (fs.ensureDirectory p)).1 := by
  unfold attempt
  cases h : fs.ensureDirectory p with
  | error fault => exact .refl fs
  | ok fs' => exact grows_of_ensureDirectory h

theorem grows_ensureFirst (fs : Files) (ps : List FilePath) : Grows fs (fs.ensureFirst ps).1 := by
  induction ps generalizing fs with
  | nil => exact .refl fs
  | cons p above ih =>
    unfold ensureFirst
    split
    · have hgrow := ih fs
      split
      · rename_i fs' heq
        rw [heq] at hgrow
        exact hgrow.trans (grows_attempt_ensureDirectory fs' p)
      · exact hgrow
    · exact grows_attempt_ensureDirectory fs p

/-- Making directories takes nothing away, also when it fails on the way. -/
theorem grows_makeDirectories (fs : Files) (p : FilePath) : Grows fs (fs.makeDirectories p).1 :=
  grows_ensureFirst fs (p :: p.ancestors)

/-! ## Opening -/

/-- A path has been opened: the open file has a handle of its own, and the path leads to its
inode. -/
structure Opens (fs : Files) (p : FilePath) (f : OpenFile) (fs' : Files) : Prop
    extends Grows fs fs' where
  handle : f.handle = fs.nextHandle
  nextHandle : fs'.nextHandle = fs.nextHandle + 1
  leads : fs'.inode p = .ok f.inode
  /-- No other path comes to lead to an inode that was there. -/
  newly : ∀ q i, i < fs.nextInode → fs'.inode q = .ok i → fs.inode q = .ok i
  back : KeepsWays fs' fs

theorem inode_nextHandle (fs : Files) (k : Nat) (p : FilePath) (i : Nat) :
    ({ fs with nextHandle := k } : Files).inode p = .ok i ↔ fs.inode p = .ok i := by
  have hnodes : ({ fs with nextHandle := k } : Files).nodes = fs.nodes := rfl
  exact inode_congr hnodes p i

theorem keepsWays_nextHandle (fs : Files) (k : Nat) :
    KeepsWays { fs with nextHandle := k } fs :=
  have hsame : Keeps { fs with nextHandle := k } fs := fun _ _ h => h
  hsame.ways

theorem opens_of_openExisting {fs fs' : Files} {p : FilePath} {f : OpenFile}
    (h : fs.openExisting p = .ok (f, fs')) : Opens fs p f fs' := by
  unfold openExisting at h
  cases hi : fs.inode p with
  | error fault => rw [hi] at h; cases h
  | ok i =>
    rw [hi] at h
    cases h
    exact {
      grows_nextHandle fs with
      handle := rfl
      nextHandle := rfl
      leads := (inode_nextHandle _ _ p i).2 hi
      newly := fun q j _ hq => (inode_nextHandle _ _ q j).1 hq
      back := keepsWays_nextHandle fs _ }

theorem opens_of_openOrCreate {fs fs' : Files} {p : FilePath} {f : OpenFile}
    (h : fs.openOrCreate p = .ok (f, fs')) : Opens fs p f fs' := by
  unfold openOrCreate at h
  cases hi : fs.inodeOrNew p with
  | error fault => rw [hi] at h; cases h
  | ok r =>
    obtain ⟨i, fs₁⟩ := r
    rw [hi] at h
    cases h
    obtain ⟨hleads, rfl | ⟨d, n, hnone, rfl, rfl⟩⟩ := inodeOrNew_eq_ok hi
    · exact {
        grows_nextHandle fs₁ with
        handle := rfl
        nextHandle := rfl
        leads := (inode_nextHandle _ _ p i).2 hleads
        newly := fun q j _ hq => (inode_nextHandle _ _ q j).1 hq
        back := keepsWays_nextHandle fs₁ _ }
    · exact {
        (grows_withNewFile hnone).trans (grows_nextHandle _) with
        handle := rfl
        nextHandle := rfl
        leads := (inode_nextHandle _ _ p _).2 hleads
        newly := fun q j hj hq =>
          inode_withNewFile ((inode_nextHandle _ _ q j).1 hq) (Nat.ne_of_lt hj)
        back := (keepsWays_nextHandle _ _).trans (keepsWays_of_withNewFile fs d n) }

/-- A file that is there is opened. -/
theorem openOrCreate_of_inode {fs : Files} {p : FilePath} {i : Nat} (h : fs.inode p = .ok i) :
    fs.openOrCreate p =
      .ok (⟨fs.nextHandle, i⟩, { fs with nextHandle := fs.nextHandle + 1 }) := by
  rw [openOrCreate, inodeOrNew_of_inode h]
  rfl

/-- At a vacant path a new file is made. -/
theorem openOrCreate_of_vacant {fs : Files} {p : FilePath} (h : fs.Vacant p) :
    ∃ fs', fs.openOrCreate p = .ok (⟨fs.nextHandle, fs.nextInode⟩, fs') := by
  obtain ⟨d, n, hl, hsize, hnone⟩ := h
  rw [openOrCreate, inodeOrNew_of_missing hl (child?_eq_none_iff.2 ⟨hsize, hnone⟩)]
  exact ⟨_, rfl⟩

/-- An open file that was just opened carries no lock. -/
theorem Opens.ne_holder {fs fs' : Files} {p : FilePath} {f : OpenFile} (h : Opens fs p f fs')
    (hw : fs.WellFormed) : ∀ l ∈ fs'.locks, l.holder ≠ f := by
  intro l hl heq
  rw [h.locks] at hl
  have := hw.handle_lt l hl
  rw [heq, h.handle] at this
  omega

/-! ## Locks -/

/-- The files with one more lock. -/
def withLock (fs : Files) (f : OpenFile) (mode : LockMode) : Files :=
  { fs with locks := ⟨f, mode⟩ :: fs.locks }

/-- An open file without a lock gets one if all locks of its inode are shared like its own. -/
theorem tryLock?_eq_some_iff {fs fs' : Files} {f : OpenFile} {mode : LockMode}
    (hf : ∀ l ∈ fs.locks, l.holder ≠ f) :
    fs.tryLock? f mode = some fs' ↔
      (∀ l ∈ fs.locks, l.holder.inode = f.inode → l.mode = .shared ∧ mode = .shared) ∧
        fs' = fs.withLock f mode := by
  have hfilter : fs.locks.filter (·.holder != f) = fs.locks :=
    List.filter_eq_self.2 fun l hl => by simpa using hf l hl
  have hblocks : fs.locks.any (FileLock.blocks · f mode) = false ↔
      ∀ l ∈ fs.locks, l.holder.inode = f.inode → l.mode = .shared ∧ mode = .shared := by
    rw [List.any_eq_false]
    refine forall₂_congr fun l hl => ?_
    have hne : (l.holder != f) = true := by simpa using hf l hl
    rcases l with ⟨holder, _ | _⟩ <;> cases mode <;> simp [FileLock.blocks, hne]
  unfold tryLock?
  rw [hfilter]
  cases hb : fs.locks.any (FileLock.blocks · f mode) with
  | true =>
    have : ¬ _ := (not_congr hblocks).1 (by simp [hb])
    simp only [this, if_true, false_and, reduceCtorEq]
  | false =>
    simp only [Bool.false_eq_true, if_false, Option.some.injEq]
    exact ⟨fun h => ⟨hblocks.1 hb, h.symm⟩, fun h => h.2.symm⟩

@[simp] theorem mem_locks_withLock {fs : Files} {f : OpenFile} {mode : LockMode} {l : FileLock} :
    l ∈ (fs.withLock f mode).locks ↔ l = ⟨f, mode⟩ ∨ l ∈ fs.locks :=
  List.mem_cons

@[simp] theorem mem_locks_unlock {fs : Files} {f : OpenFile} {l : FileLock} :
    l ∈ (fs.unlock f).locks ↔ l ∈ fs.locks ∧ l.holder ≠ f := by
  simp [unlock]

/-- A lock that is given up at once was the only one of its open file. -/
theorem unlock_withLock {fs : Files} {f : OpenFile} {mode : LockMode}
    (hf : ∀ l ∈ fs.locks, l.holder ≠ f) : (fs.withLock f mode).unlock f = fs := by
  have hfilter : fs.locks.filter (·.holder != f) = fs.locks :=
    List.filter_eq_self.2 fun l hl => by simpa using hf l hl
  simp [withLock, unlock, hfilter]

theorem WellFormed.withLock {fs : Files} (hw : fs.WellFormed) {f : OpenFile} {mode : LockMode}
    (hhandle : f.handle < fs.nextHandle) (hinode : f.inode < fs.nextInode)
    (hf : ∀ l ∈ fs.locks, l.holder ≠ f)
    (hfree : ∀ l ∈ fs.locks, l.holder.inode = f.inode → l.mode = .shared ∧ mode = .shared) :
    (fs.withLock f mode).WellFormed where
  inode_lt := hw.inode_lt
  handle_lt l hl := by
    rcases mem_locks_withLock.1 hl with rfl | hl
    · exact hhandle
    · exact hw.handle_lt l hl
  locked_lt l hl := by
    rcases mem_locks_withLock.1 hl with rfl | hl
    · exact hinode
    · exact hw.locked_lt l hl
  one_lock l hl l' hl' heq := by
    rcases mem_locks_withLock.1 hl with rfl | hl <;> rcases mem_locks_withLock.1 hl' with rfl | hl'
    · rfl
    · exact absurd heq.symm (hf l' hl')
    · exact absurd heq (hf l hl)
    · exact hw.one_lock l hl l' hl' heq
  compatible l hl l' hl' heq := by
    rcases mem_locks_withLock.1 hl with rfl | hl <;> rcases mem_locks_withLock.1 hl' with rfl | hl'
    · exact .inl rfl
    · exact .inr (hfree l' hl' heq.symm).symm
    · exact .inr (hfree l hl heq)
    · exact hw.compatible l hl l' hl' heq

/-- Fewer locks and fewer entries are as good. -/
theorem WellFormed.of_le {fs fs' : Files} (hw : fs.WellFormed) (hkeeps : Keeps fs' fs)
    (hlocks : ∀ l ∈ fs'.locks, l ∈ fs.locks) (hinode : fs'.nextInode = fs.nextInode)
    (hhandle : fs'.nextHandle = fs.nextHandle) : fs'.WellFormed where
  inode_lt q i hq := hinode ▸ hw.inode_lt q i (hkeeps q _ hq)
  handle_lt l hl := hhandle ▸ hw.handle_lt l (hlocks l hl)
  locked_lt l hl := hinode ▸ hw.locked_lt l (hlocks l hl)
  one_lock l hl l' hl' := hw.one_lock l (hlocks l hl) l' (hlocks l' hl')
  compatible l hl l' hl' := hw.compatible l (hlocks l hl) l' (hlocks l' hl')

theorem WellFormed.unlock {fs : Files} (hw : fs.WellFormed) (f : OpenFile) :
    (fs.unlock f).WellFormed :=
  hw.of_le (fun _ _ h => h) (fun _ hl => (mem_locks_unlock.1 hl).1) rfl rfl

/-- What a lock on a file that has just been opened does. -/
theorem Opens.tryLock? {fs fs₁ fs₂ : Files} {p : FilePath} {f : OpenFile} {mode : LockMode}
    (h : Opens fs p f fs₁) (hw : fs.WellFormed) (hlock : fs₁.tryLock? f mode = some fs₂) :
    (∀ l ∈ fs.locks, l.holder.inode = f.inode → l.mode = .shared ∧ mode = .shared) ∧
      fs₂ = fs₁.withLock f mode ∧ fs₂.WellFormed := by
  obtain ⟨hfree, rfl⟩ := (tryLock?_eq_some_iff (h.ne_holder hw)).1 hlock
  have hw₁ := h.wellFormed hw
  have hhandle : f.handle < fs₁.nextHandle := by
    rw [h.handle, h.nextHandle]
    exact Nat.lt_succ_self _
  exact ⟨h.locks ▸ hfree, rfl,
    hw₁.withLock hhandle (hw₁.lt_of_inode h.leads) (h.ne_holder hw) hfree⟩

theorem locks_of_unlink {fs fs' : Files} {p : FilePath} (h : fs.unlink p = .ok fs') :
    fs'.locks = fs.locks ∧ fs'.nextInode = fs.nextInode ∧ fs'.nextHandle = fs.nextHandle := by
  obtain ⟨d, n, node, -, -, -, rfl⟩ := unlink_eq_ok h
  exact ⟨rfl, rfl, rfl⟩

theorem WellFormed.of_unlink {fs fs' : Files} (hw : fs.WellFormed) {p : FilePath}
    (h : fs.unlink p = .ok fs') : fs'.WellFormed := by
  obtain ⟨hlocks, hinode, hhandle⟩ := locks_of_unlink h
  exact hw.of_le (keeps_of_unlink h) (fun l hl => hlocks ▸ hl) hinode hhandle

end Upkeep.Files
