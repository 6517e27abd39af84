import Upkeep.Proofs.Locks.Table

/-!
# What a probe finds out

A probe opens the lock file of a resource, locks it, and lets it go at once. It answers whether the
keeper holds the resource or anybody has the file locked; that there is no file counts as free, and
that it cannot be opened for any other reason as locked (`isLocked_iff`). The files stay as they
are, but that a handle may have been used up (`files_probe`). Later probes do not notice that
(`isLocked_withHandles`).
-/

namespace Upkeep

namespace Files

/-- The files when more handles have been given out. -/
def withHandles (fs : Files) (h : Nat) : Files := { fs with nextHandle := h }

variable {fs : Files} {h : Nat} {p : FilePath}

theorem resolve_withHandles (fs : Files) (h : Nat) (p : FilePath) :
    (fs.withHandles h).resolve p = fs.resolve p := by
  have hnodes : (fs.withHandles h).nodes = fs.nodes := rfl
  simp only [resolve, resolveFrom_congr hnodes]

theorem inode_withHandles (fs : Files) (h : Nat) (p : FilePath) :
    (fs.withHandles h).inode p = fs.inode p := by
  simp only [inode, status, resolve_withHandles]
  rfl

theorem WellFormed.withHandles (hw : fs.WellFormed) (hle : fs.nextHandle ≤ h) :
    (fs.withHandles h).WellFormed :=
  { hw with handle_lt := fun l hl => Nat.lt_of_lt_of_le (hw.handle_lt l hl) hle }

theorem openExisting_of_error {fault : FileFault} (h : fs.inode p = .error fault) :
    fs.openExisting p = .error fault := by
  rw [openExisting, h]
  rfl

theorem openExisting_of_inode {i : Nat} (h : fs.inode p = .ok i) :
    fs.openExisting p = .ok (⟨fs.nextHandle, i⟩, fs.withHandles (fs.nextHandle + 1)) := by
  rw [openExisting, h]
  rfl

end Files

namespace LockKeeper

open Files

variable {fs : Files} {k : LockKeeper} {r : String}

theorem probe_of_inode (hw : fs.WellFormed) (hr : r ∉ k.names) {i : Nat}
    (hi : fs.inode (k.path r) = .ok i) :
    k.probe fs r = (fs.locks.any (·.holder.inode = i), fs.withHandles (fs.nextHandle + 1)) := by
  have hopen := openExisting_of_inode hi
  have hnone := (opens_of_openExisting hopen).ne_holder hw
  rw [probe, if_neg (by rwa [isHeld_iff]), hopen]
  dsimp only
  by_cases hlocked : ∃ l ∈ fs.locks, l.holder.inode = i
  · have hrefused : (fs.withHandles (fs.nextHandle + 1)).tryLock? ⟨fs.nextHandle, i⟩ .exclusive =
        none := by
      rw [Option.eq_none_iff_forall_ne_some]
      intro fs' htry
      obtain ⟨l, hl, hinode⟩ := hlocked
      cases (((tryLock?_eq_some_iff hnone).1 htry).1 l hl hinode).2
    rw [hrefused, List.any_eq_true.2 (by simpa using hlocked)]
  · have htaken : (fs.withHandles (fs.nextHandle + 1)).tryLock? ⟨fs.nextHandle, i⟩ .exclusive =
        some _ := (tryLock?_eq_some_iff hnone).2
      ⟨fun l hl hinode => absurd ⟨l, hl, hinode⟩ hlocked, rfl⟩
    rw [htaken]
    dsimp only
    rw [unlock_withLock hnone, List.any_eq_false.2 (by simpa using hlocked)]

theorem probe_of_error (hr : r ∉ k.names) {fault : FileFault}
    (hfault : fs.inode (k.path r) = .error fault) :
    k.probe fs r = (fault != .notFound, fs) := by
  rw [probe, if_neg (by rwa [isHeld_iff]), openExisting_of_error hfault]
  cases fault <;> rfl

theorem probe_of_held (hr : r ∈ k.names) : k.probe fs r = (true, fs) := by
  rw [probe, if_pos (isHeld_iff.2 hr)]

/-- A resource is locked if it is held, or its file is there and somebody has it locked, or the file
cannot be opened although something is there. -/
theorem isLocked_iff (hw : fs.WellFormed) :
    k.isLocked fs r = true ↔ r ∈ k.names ∨
      match fs.inode (k.path r) with
      | .ok i => ∃ l ∈ fs.locks, l.holder.inode = i
      | .error fault => fault ≠ .notFound := by
  rw [isLocked]
  by_cases hr : r ∈ k.names
  · rw [probe_of_held hr]
    exact iff_of_true rfl (.inl hr)
  cases hi : fs.inode (k.path r) with
  | ok i =>
    rw [probe_of_inode hw hr hi]
    simp [hr]
  | error fault =>
    rw [probe_of_error hr hi]
    simp [hr]

/-- A probe uses up a handle at most. -/
theorem files_probe (hw : fs.WellFormed) (k : LockKeeper) (r : String) :
    ∃ h, fs.nextHandle ≤ h ∧ (k.probe fs r).2 = fs.withHandles h := by
  by_cases hr : r ∈ k.names
  · rw [probe_of_held hr]
    exact ⟨fs.nextHandle, Nat.le_refl _, rfl⟩
  cases hi : fs.inode (k.path r) with
  | ok i =>
    rw [probe_of_inode hw hr hi]
    exact ⟨fs.nextHandle + 1, Nat.le_succ _, rfl⟩
  | error fault =>
    rw [probe_of_error hr hi]
    exact ⟨fs.nextHandle, Nat.le_refl _, rfl⟩

/-- Handles that others have used up make no difference to a probe. -/
theorem isLocked_withHandles (hw : fs.WellFormed) {h : Nat} (hle : fs.nextHandle ≤ h)
    (k : LockKeeper) (r : String) : k.isLocked (fs.withHandles h) r = k.isLocked fs r := by
  rw [Bool.eq_iff_iff, isLocked_iff hw, isLocked_iff (hw.withHandles hle), inode_withHandles]
  rfl

end LockKeeper

end Upkeep
