import Upkeep.Proofs.Locks.Keepers
import Upkeep.Proofs.Locks.Probes

/-!
# Probes and acquisitions agree

A probe opens a lock file that is there, and an acquisition makes it if need be. The two fail in
different ways, and read their failures differently: a probe takes a missing file for a free one.

**Where nothing can stand.** A path is *barred* if it is missing and cannot be made, because a
directory is missing on the way to it, links followed (`Files.Barred`). At any other path a missing
file is made (`inodeOrNew_of_notFound`), and a path that cannot be opened for another reason cannot
be opened for making it either (`inodeOrNew_of_fault`).

**Agreement.** An acquisition succeeds exactly where a probe finds the resource free, barred paths
apart (`acquireUnheld_exclusive_iff`), and neither notices that there has been a probe before
(`check_agrees`).
-/

namespace Upkeep

namespace Files

variable {fs : Files} {p q : FilePath} {d : Place} {n : String}

/-! ## Where a file can stand -/

/-- The way to a path, links followed, ends before a place where a file could stand: a directory on
it is missing, or the place itself is to be a directory and is missing. -/
def Barred (fs : Files) (p : FilePath) : Prop :=
  fs.resolve p = .error .notFound ∨
    ∃ d n, fs.resolve p = .ok (.entry d n true) ∧ fs.child? d n = .ok none

theorem standing_of_resolve {slash : Bool} (h : fs.resolve p = .ok (.entry d n slash)) :
    fs.child? d n = .ok none ∨ ∃ i, fs.child? d n = .ok (some (.file i)) := by
  obtain ⟨-, l, hway⟩ := resolve_eq_ok_iff.1 h
  exact hway.standing

theorem inode_of_resolve_error {fault : FileFault} (h : fs.resolve p = .error fault) :
    fs.inode p = .error fault := by
  simp [inode, status, h, bind, Except.bind]

theorem inode_of_resolve_missing {slash : Bool} (h : fs.resolve p = .ok (.entry d n slash))
    (hc : fs.child? d n = .ok none) : fs.inode p = .error .notFound := by
  simp [inode, status, h, hc, bind, Except.bind]

theorem Barred.inode (h : fs.Barred p) : fs.inode p = .error .notFound := by
  rcases h with hr | ⟨d, n, hr, hc⟩
  · exact inode_of_resolve_error hr
  · exact inode_of_resolve_missing hr hc

theorem resolve_of_walk_error {fault : FileFault}
    (htext : textFault? (FilePath.text (q ++ [.name n])) = none)
    (h : fs.walk q = .error fault) : fs.resolve (q ++ [.name n]) = .error fault := by
  unfold walk at h
  rw [resolve, htext, resolveFrom_append (by simp)]
  cases hq : fs.resolveFrom maxLinks [] q with
  | error fault' =>
    rw [hq] at h
    cases h
    rfl
  | ok x =>
    rw [hq] at h
    replace h : fs.enter x.1 = .error fault := h
    simp [h, bind, Except.bind]

theorem inodeOrNew_eq_resolve (fs : Files) (q : FilePath) (n : String) :
    fs.inodeOrNew (q ++ [.name n]) = fs.resolve (q ++ [.name n]) >>= fs.standingOrNew := by
  cases htext : textFault? (FilePath.text (q ++ [.name n])) with
  | some fault => simp [inodeOrNew, locate, resolve, htext, bind, Except.bind]
  | none =>
    cases hw : fs.walk q with
    | ok d => exact inodeOrNew_of_locate (locate_name htext hw)
    | error fault =>
      rw [resolve_of_walk_error htext hw]
      simp [inodeOrNew, locate, htext, unslashed_name, hw, bind, Except.bind]

theorem not_barred_of_resolve {result : Result Destination} (h : fs.resolve p = result)
    (hfound : result ≠ .error .notFound) (hplace : ∀ d n, result ≠ .ok (.entry d n true)) :
    ¬ fs.Barred p := by
  subst h
  rintro (hfault | ⟨d, n, hslash, -⟩)
  · exact hfound hfault
  · exact hplace d n hslash

/-- Where no file is, one is made, unless the path is barred. -/
theorem inodeOrNew_of_notFound (h : fs.inode (q ++ [.name n]) = .error .notFound) :
    (fs.Barred (q ++ [.name n]) ∧ ∃ fault, fs.inodeOrNew (q ++ [.name n]) = .error fault) ∨
      ¬ fs.Barred (q ++ [.name n]) ∧
        ∃ r, fs.inodeOrNew (q ++ [.name n]) = .ok (fs.nextInode, fs.withNewFile r) := by
  rw [inodeOrNew_eq_resolve]
  rcases hr : fs.resolve (q ++ [.name n]) with fault | ⟨d, m, slash⟩ | d <;> rw [hr]
  · rw [inode_of_resolve_error hr] at h
    obtain rfl : fault = .notFound := Except.error.inj h
    exact .inl ⟨.inl hr, .notFound, rfl⟩
  · rcases standing_of_resolve hr with hc | ⟨i, hc⟩
    · cases slash with
      | true => exact .inl ⟨.inr ⟨d, m, hr, hc⟩, .isDirectory, rfl⟩
      | false =>
        refine .inr ⟨not_barred_of_resolve hr (by simp) (by simp), d ++ [m], ?_⟩
        simp [standingOrNew, hc, bind, Except.bind]
    · cases slash <;> simp [inode, status, hr, hc, bind, Except.bind] at h
  · simp [inode, status, hr, bind, Except.bind] at h

theorem inodeOrNew_of_fault {fault : FileFault} (h : fs.inode (q ++ [.name n]) = .error fault)
    (hfault : fault ≠ .notFound) : ∃ fault, fs.inodeOrNew (q ++ [.name n]) = .error fault := by
  rw [inodeOrNew_eq_resolve]
  rcases hr : fs.resolve (q ++ [.name n]) with fault | ⟨d, m, _ | _⟩ | d <;> rw [hr]
  · exact ⟨fault, rfl⟩
  · rcases standing_of_resolve hr with hc | ⟨i, hc⟩
    · rw [inode_of_resolve_missing hr hc] at h
      exact absurd (Except.error.inj h).symm hfault
    · simp [inode, status, hr, hc, bind, Except.bind] at h
  · exact ⟨.isDirectory, rfl⟩
  · exact ⟨.isDirectory, rfl⟩

theorem barred_of_walk (htext : textFault? (FilePath.text (q ++ [.name n])) = none)
    (h : fs.walk q = .error .notFound) : fs.Barred (q ++ [.name n]) :=
  .inl (resolve_of_walk_error htext h)

/-- A link bars a path if a directory is missing on the way of its target. -/
theorem barred_of_link {l : Nat} {target : FilePath}
    (htext : textFault? (FilePath.text (q ++ [.name n])) = none)
    (hq : fs.Leads maxLinks [] q (l + 1) (.here d))
    (hc : fs.child? d n = .ok (some (.link target)))
    (ht : fs.resolveFrom l (base d target) target = .error .notFound) :
    fs.Barred (q ++ [.name n]) := by
  refine .inl ?_
  rw [resolve, htext, resolveFrom_append (by simp), hq.resolveFrom]
  simp [enter, resolveFrom_link hc, ht, bind, Except.bind]

theorem eq_of_child? {fault : FileFault} (h : fs.child? d n = .error fault) :
    fault = .nameTooLong := by
  unfold child? at h
  split at h
  · exact (Except.error.inj h).symm
  · cases h

/-- A path is not barred if its directory is there, through whatever links, and its name is no
link. -/
theorem not_barred_of_entry (hl : fs.locate p = .ok (.entry d n false))
    (hc : ∀ target, fs.child? d n ≠ .ok (some (.link target))) : ¬ fs.Barred p := by
  obtain ⟨q, rfl, htext, hwalk⟩ := exists_of_locate hl
  obtain ⟨l, hq⟩ := walk_eq_ok_iff.1 hwalk
  have hresolve : fs.resolve (q ++ [.name n]) =
      (fs.resolveFrom l d [.name n] >>= fun x => .ok x.1) := by
    rw [resolve, htext, resolveFrom_append (by simp), hq.resolveFrom]
    rfl
  cases h : fs.child? d n with
  | error fault =>
    obtain rfl := eq_of_child? h
    rw [resolveFrom_fault h] at hresolve
    exact not_barred_of_resolve hresolve (by simp [bind, Except.bind]) (by simp [bind, Except.bind])
  | ok node? =>
    rcases node? with _ | (i | _ | target)
    · exact not_barred_of_resolve (resolve_of_locate hl (.inl h)) (by simp) (by simp)
    · exact not_barred_of_resolve (resolve_of_locate hl (.inr ⟨i, h⟩)) (by simp) (by simp)
    · rw [resolveFrom_directory h, resolveFrom_nil] at hresolve
      exact not_barred_of_resolve hresolve (by simp [bind, Except.bind])
        (by simp [bind, Except.bind])
    · exact absurd h (hc target)

theorem barred_withHandles (h : Nat) (p : FilePath) :
    (fs.withHandles h).Barred p ↔ fs.Barred p := by
  have hchild : (fs.withHandles h).child? = fs.child? := rfl
  rw [Barred, Barred, resolve_withHandles, hchild]

theorem openOrCreate_of_error {fault : FileFault} (h : fs.inodeOrNew p = .error fault) :
    fs.openOrCreate p = .error fault := by
  rw [openOrCreate, h]
  rfl

theorem openOrCreate_of_inodeOrNew {i : Nat} {fs' : Files} (h : fs.inodeOrNew p = .ok (i, fs')) :
    fs.openOrCreate p = .ok (⟨fs'.nextHandle, i⟩, fs'.withHandles (fs'.nextHandle + 1)) := by
  rw [openOrCreate, h]
  rfl

/-- At a barred path no file can be opened and none can be made; at all others one of the two can
be done, or there is something in the way that is no file. -/
theorem barred_iff : fs.Barred (q ++ [.name n]) ↔
    fs.openExisting (q ++ [.name n]) = .error .notFound ∧
      ∃ fault, fs.openOrCreate (q ++ [.name n]) = .error fault := by
  constructor
  · intro h
    refine ⟨openExisting_of_error h.inode, ?_⟩
    rcases inodeOrNew_of_notFound h.inode with ⟨-, fault, hnew⟩ | ⟨hfree, -⟩
    · exact ⟨fault, openOrCreate_of_error hnew⟩
    · exact absurd h hfree
  · rintro ⟨hmissing, fault, hfault⟩
    have hi : fs.inode (q ++ [.name n]) = .error .notFound := by
      cases hi : fs.inode (q ++ [.name n]) with
      | ok i =>
        rw [openExisting_of_inode hi] at hmissing
        cases hmissing
      | error fault =>
        rw [openExisting_of_error hi] at hmissing
        rw [Except.error.inj hmissing]
    rcases inodeOrNew_of_notFound hi with ⟨hbarred, -⟩ | ⟨-, place, hnew⟩
    · exact hbarred
    · rw [openOrCreate_of_inodeOrNew hnew] at hfault
      cases hfault

end Files

namespace LockKeeper

open Files

variable {fs : Files} {k : LockKeeper} {r : String}

/-! ## What an acquisition answers -/

theorem take_of_error {mode : LockMode} {fault : FileFault}
    (h : fs.openOrCreate (k.path r) = .error fault) : (k.take fs r mode).1 = false := by
  rw [take, h]

theorem take_exclusive_of_opened (hw : fs.WellFormed) {f : OpenFile} {fs₁ : Files}
    (h : fs.openOrCreate (k.path r) = .ok (f, fs₁)) :
    (k.take fs r .exclusive).1 = true ↔ ∀ l ∈ fs.locks, l.holder.inode ≠ f.inode := by
  have hopens := opens_of_openOrCreate h
  have hlock (fs₂ : Files) : fs₁.tryLock? f .exclusive = some fs₂ ↔ _ :=
    tryLock?_eq_some_iff (hopens.ne_holder hw)
  rw [hopens.locks] at hlock
  rw [take, h]
  dsimp only
  cases ht : fs₁.tryLock? f .exclusive with
  | none =>
    refine iff_of_false Bool.false_ne_true fun hfree => ?_
    have hsome := (hlock _).2 ⟨fun l hl heq => absurd heq (hfree l hl), rfl⟩
    rw [ht] at hsome
    cases hsome
  | some fs₂ =>
    refine iff_of_true rfl fun l hl heq => ?_
    cases (((hlock fs₂).1 ht).1 l hl heq).2

/-- What a probe finds free is taken, unless its path is barred, and nothing else is. -/
theorem acquireUnheld_exclusive_iff (hw : fs.WellFormed) :
    (k.acquireUnheld fs r .exclusive).1 = true ↔
      k.isLocked fs r = false ∧ ¬ fs.Barred (k.path r) := by
  rw [← Bool.not_eq_true, isLocked_iff hw, acquireUnheld_eq]
  by_cases hr : r ∈ k.names
  · rw [if_pos hr]
    exact iff_of_false Bool.false_ne_true fun h => h.1 (.inl hr)
  rw [if_neg hr]
  simp only [hr, false_or]
  cases hi : fs.inode (k.path r) with
  | ok i =>
    have hfree : ¬ fs.Barred (k.path r) := fun hbarred => by
      rw [hbarred.inode] at hi
      cases hi
    rw [take_exclusive_of_opened hw (openOrCreate_of_inode hi)]
    simp [hfree]
  | error fault =>
    by_cases hfault : fault = .notFound
    · subst hfault
      rcases inodeOrNew_of_notFound hi with ⟨hbarred, fault, hnew⟩ | ⟨hfree, q, hnew⟩
      · rw [take_of_error (openOrCreate_of_error hnew)]
        exact iff_of_false Bool.false_ne_true fun h => h.2 hbarred
      · -- Nobody has locked a file that has just been made.
        rw [take_exclusive_of_opened hw (openOrCreate_of_inodeOrNew hnew)]
        refine iff_of_true (fun l hl heq => ?_) ⟨fun h => h rfl, hfree⟩
        exact absurd heq (Nat.ne_of_lt (hw.locked_lt l hl))
    · obtain ⟨fault', hnew⟩ := inodeOrNew_of_fault hi hfault
      rw [take_of_error (openOrCreate_of_error hnew)]
      exact iff_of_false Bool.false_ne_true fun h => h.1 hfault

/-- Without the directory of the lock files a resource is free and cannot be taken. -/
example : let k : LockKeeper := { directory := .ofString "/locks" }
    (k.probe {} "/data/a").1 = false ∧ (k.acquireUnheld {} "/data/a" .exclusive).1 = false := by
  decide +kernel

/-- Handles that a probe has used up make no difference to an acquisition. -/
theorem acquireUnheld_withHandles (hw : fs.WellFormed) {h : Nat} (hle : fs.nextHandle ≤ h) :
    (k.acquireUnheld (fs.withHandles h) r .exclusive).1 =
      (k.acquireUnheld fs r .exclusive).1 := by
  rw [Bool.eq_iff_iff, acquireUnheld_exclusive_iff hw,
    acquireUnheld_exclusive_iff (hw.withHandles hle), isLocked_withHandles hw hle,
    barred_withHandles]

end LockKeeper

namespace Keepers

open LockKeeper

/-- What a probe of a resource has to do with the acquisition that its keeper may try next. -/
structure Agreement (s : Keepers) (m : Nat) (k : LockKeeper) (r : String) : Prop where
  refused : (s.call (.check m r)).1 = true → (s.call (.acquireUnheld m r .exclusive)).1 = false
  taken : (s.call (.check m r)).1 = false →
    ((s.call (.acquireUnheld m r .exclusive)).1 = true ↔ ¬ s.files.Barred (k.path r))
  barred : s.files.Barred (k.path r) ↔ s.files.openExisting (k.path r) = .error .notFound ∧
    ∃ fault, s.files.openOrCreate (k.path r) = .error fault
  tables : (s.after (.check m r)).keeper? = s.keeper?
  /-- The entries, the bytes, and everybody's locks stay. -/
  files : ∃ h, s.files.nextHandle ≤ h ∧ (s.after (.check m r)).files = s.files.withHandles h
  /-- The probe has not made a difference to the acquisition. -/
  afterwards : ((s.after (.check m r)).call (.acquireUnheld m r .exclusive)).1 =
    (s.call (.acquireUnheld m r .exclusive)).1

/-- Whoever holds what, also by files that have no name any more, and whatever stands at the path:
a probe tells whether the acquisition succeeds, unless the path is barred, and changes nothing. -/
theorem check_agrees {s : Keepers} (hw : s.files.WellFormed) {m : Nat} {k : LockKeeper}
    (hk : s.keeper? m = some k) (r : String) : Agreement s m k r := by
  have hcheck : s.call (.check m r) =
      (k.isLocked s.files r, s.put m (k.probe s.files r).2 (some k)) := by
    simp only [call, ask, hk]
    rfl
  have hacquire : (s.call (.acquireUnheld m r .exclusive)).1 =
      (k.acquireUnheld s.files r .exclusive).1 := by
    simp only [call, ask, hk]
  have hafter : ((s.after (.check m r)).call (.acquireUnheld m r .exclusive)).1 =
      (k.acquireUnheld (k.probe s.files r).2 r .exclusive).1 := by
    rw [after, hcheck]
    simp [call, ask, put]
  have htaken := acquireUnheld_exclusive_iff (k := k) (r := r) hw
  obtain ⟨h, hle, hprobe⟩ := files_probe hw k r
  refine ⟨fun hlocked => ?_, fun hfree => ?_, Files.barred_iff, ?_, ⟨h, hle, ?_⟩, ?_⟩
  · rw [hcheck] at hlocked
    rw [hacquire, ← Bool.not_eq_true, htaken]
    exact fun hfree => Bool.false_ne_true (hfree.1.symm.trans hlocked)
  · rw [hcheck] at hfree
    rw [hacquire, htaken]
    exact and_iff_right hfree
  · rw [after, hcheck]
    funext m'
    show (if m' = m then some k else s.keeper? m') = s.keeper? m'
    split
    · rename_i heq
      rw [heq, hk]
    · rfl
  · rw [after, hcheck]
    exact hprobe
  · rw [hafter, hacquire, hprobe]
    exact acquireUnheld_withHandles hw hle

/-- A directory for lock files that a link leads to. In it there is a link to a missing place under
the name of one lock file. -/
def linkedRoom : Files where
  nodes := [(["data"], .directory), (["locks"], .link (.ofString "/data")),
    (["data", lockFileName "/data/c"], .link (.ofString "gone/c"))]

/-- Through a link to the directory keeper 0 shares a resource, which keeper 1 finds locked and does
not get for itself. Another one is free and can be taken. The third looks free as well, but cannot
be taken, since a directory is missing behind the link at its path. -/
theorem check_agrees_of_links :
    let s := (start (.ofString "/locks") linkedRoom).run
      [.create 0, .create 1, .acquire 0 "/data/a" .shared]
    s.files.WellFormed ∧ ∃ k, s.keeper? 1 = some k ∧
      ((s.call (.check 1 "/data/a")).1 = true ∧
        (s.call (.acquireUnheld 1 "/data/a" .exclusive)).1 = false) ∧
      ((s.call (.check 1 "/data/b")).1 = false ∧
        (s.call (.acquireUnheld 1 "/data/b" .exclusive)).1 = true ∧
        ¬ s.files.Barred (k.path "/data/b")) ∧
      ((s.call (.check 1 "/data/c")).1 = false ∧
        (s.call (.acquireUnheld 1 "/data/c" .exclusive)).1 = false ∧
        s.files.Barred (k.path "/data/c")) := by
  intro s
  have hroom : linkedRoom.WellFormed := Files.wellFormed_of_unlocked rfl (by simp [linkedRoom])
  have hw : s.files.WellFormed := (sound_run (sound_start hroom _) _).files
  have hsome : (s.keeper? 1).isSome = true := by decide +kernel
  obtain ⟨k, hk⟩ := Option.isSome_iff_exists.1 hsome
  have hshared : (s.call (.check 1 "/data/a")).1 = true := by decide +kernel
  have hfree : (s.call (.check 1 "/data/b")).1 = false := by decide +kernel
  have htaken : (s.call (.acquireUnheld 1 "/data/b" .exclusive)).1 = true := by decide +kernel
  have hmissing : (s.call (.check 1 "/data/c")).1 = false := by decide +kernel
  have hrefused : (s.call (.acquireUnheld 1 "/data/c" .exclusive)).1 = false := by decide +kernel
  refine ⟨hw, k, hk, ⟨hshared, (check_agrees hw hk "/data/a").refused hshared⟩,
    ⟨hfree, htaken, ((check_agrees hw hk "/data/b").taken hfree).1 htaken⟩,
    hmissing, hrefused, ?_⟩
  by_contra hbarred
  have htaken' := ((check_agrees hw hk "/data/c").taken hmissing).2 hbarred
  exact Bool.false_ne_true (hrefused.symm.trans htaken')

end Keepers

end Upkeep
