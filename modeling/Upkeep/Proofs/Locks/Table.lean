import Upkeep.Locks.Keeper
import Upkeep.Proofs.Files.OpenFiles

/-!
# What the calls of a keeper do

One lemma for each call of `LockKeeper` says all that it does to the table and to the files.

**Taking.** A call that succeeds opens the lock file, locks it, and enters it (`take_cases`). One
that fails leaves the table alone, and grows the files at most.

**Letting go.** Files that are let go lose their locks, and their names are removed, whatever these
stand for by then. Nobody else's lock changes (`mem_locks_letGoEach`), and a path that leads to the
inode of somebody else goes on doing so as long as none of the names led there
(`inode_letGoEach`).

**Taking several.** All resources are taken, each once, or the table is as it was
(`acquireAll_some`, `acquireAll_none`).
-/

namespace Upkeep.LockKeeper

open Files

/-! ## The table -/

/-- The resources in the table. -/
def names (k : LockKeeper) : List String := k.held.map (·.1)

theorem isHeld_iff {k : LockKeeper} {r : String} : k.isHeld r = true ↔ r ∈ k.names := by
  rw [isHeld, List.lookup_isSome_iff]
  simp only [names, List.mem_map]
  constructor
  · rintro ⟨e, he, heq⟩
    exact ⟨e, he, (beq_iff_eq.1 heq).symm⟩
  · rintro ⟨e, he, rfl⟩
    exact ⟨e, he, beq_iff_eq.2 rfl⟩

theorem isHeld_eq_false_iff {k : LockKeeper} {r : String} :
    k.isHeld r = false ↔ r ∉ k.names := by
  rw [← isHeld_iff, Bool.not_eq_true]

theorem lookup_eq_none_iff {k : LockKeeper} {r : String} :
    k.held.lookup r = none ↔ r ∉ k.names := by
  rw [← isHeld_eq_false_iff, isHeld, Option.isSome_eq_false_iff, Option.isNone_iff_eq_none]

/-- The keeper without an entry. -/
def without (k : LockKeeper) (r : String) : LockKeeper :=
  { k with held := k.held.filter (·.1 != r) }

@[simp] theorem names_without (k : LockKeeper) (r : String) :
    (k.without r).names = k.names.filter (· != r) := by
  simp only [names, without, List.filter_map]
  rfl

theorem without_eq_self {k : LockKeeper} {r : String} (h : r ∉ k.names) : k.without r = k := by
  have hfilter : k.held.filter (·.1 != r) = k.held := by
    refine List.filter_eq_self.2 fun e he => ?_
    rw [bne_iff_ne]
    rintro rfl
    exact h (List.mem_map.2 ⟨e, he, rfl⟩)
  rw [without, hfilter]

/-- A table is an entry and the table without it. -/
theorem perm_without {k : LockKeeper} {r : String} {f : OpenFile} (hnodup : k.names.Nodup)
    (h : k.held.lookup r = some f) : k.held.Perm ((r, f) :: (k.without r).held) := by
  obtain ⟨directory, fileName, held⟩ := k
  simp only [names, without] at hnodup h ⊢
  induction held with
  | nil => cases h
  | cons e held ih =>
    obtain ⟨q, g⟩ := e
    obtain ⟨hnot, hnodup⟩ := List.nodup_cons.1 hnodup
    by_cases hq : q = r
    · subst hq
      obtain rfl : g = f := by simpa using h
      have hfilter : held.filter (·.1 != q) = held := by
        refine List.filter_eq_self.2 fun e he => ?_
        rw [bne_iff_ne]
        exact fun heq => hnot (List.mem_map.2 ⟨e, he, heq⟩)
      rw [List.filter_cons_of_neg (by simp), hfilter]
    · have hne : (r == q) = false := by simp [Ne.symm hq]
      rw [List.lookup_cons, hne] at h
      rw [List.filter_cons_of_pos (by simpa using hq)]
      exact ((ih hnodup h).cons _).trans (.swap _ _ _)

/-! ## Taking a lock -/

/-- The keeper with one more entry. -/
def enter (k : LockKeeper) (r : String) (f : OpenFile) : LockKeeper :=
  { k with held := (r, f) :: k.held }

@[simp] theorem names_enter (k : LockKeeper) (r : String) (f : OpenFile) :
    (k.enter r f).names = r :: k.names := rfl

/-- A lock is taken on the file that was opened, or the files grow at most. -/
theorem take_cases (k : LockKeeper) (fs : Files) (r : String) (mode : LockMode) :
    (∃ f fs₁ fs₂, Opens fs (k.path r) f fs₁ ∧ fs₁.tryLock? f mode = some fs₂ ∧
      k.take fs r mode = (true, fs₂, k.enter r f)) ∨
    ∃ fs', Grows fs fs' ∧ k.take fs r mode = (false, fs', k) := by
  unfold take
  cases ho : fs.openOrCreate (k.path r) with
  | error fault => exact .inr ⟨fs, .refl fs, rfl⟩
  | ok opened =>
    obtain ⟨f, fs₁⟩ := opened
    have hopens := opens_of_openOrCreate ho
    cases hl : fs₁.tryLock? f mode with
    | none => exact .inr ⟨fs₁, hopens.toGrows, by simp only [hl]⟩
    | some fs₂ => exact .inl ⟨f, fs₁, fs₂, hopens, hl, by simp only [hl]; rfl⟩

theorem acquireUnheld_eq {k : LockKeeper} {fs : Files} {r : String} {mode : LockMode} :
    k.acquireUnheld fs r mode = if r ∈ k.names then (false, fs, k) else k.take fs r mode := by
  unfold acquireUnheld
  by_cases h : r ∈ k.names
  · rw [if_pos h, if_pos (isHeld_iff.2 h)]
  · rw [if_neg h, if_neg (by rwa [isHeld_iff])]

theorem acquire_eq {k : LockKeeper} {fs : Files} {r : String} {mode : LockMode} :
    k.acquire fs r mode = if r ∈ k.names then (true, fs, k) else k.take fs r mode := by
  unfold acquire
  by_cases h : r ∈ k.names
  · rw [if_pos h, if_pos (isHeld_iff.2 h)]
  · rw [if_neg h, if_neg (by rwa [isHeld_iff])]

/-- A resource that is not held is entered, or the table stays as it is. -/
theorem acquireUnheld_cases (k : LockKeeper) (fs : Files) (r : String) (mode : LockMode) :
    (∃ f fs', r ∉ k.names ∧ k.acquireUnheld fs r mode = (true, fs', k.enter r f)) ∨
      ∃ fs', k.acquireUnheld fs r mode = (false, fs', k) := by
  rw [acquireUnheld_eq]
  split
  · exact .inr ⟨fs, rfl⟩
  · rename_i hnot
    rcases take_cases k fs r mode with ⟨f, fs₁, fs₂, -, -, h⟩ | ⟨fs', -, h⟩
    · exact .inl ⟨f, fs₂, hnot, h⟩
    · exact .inr ⟨fs', h⟩

/-- Looking whether a resource is locked grows the files at most. -/
theorem grows_probe {k : LockKeeper} {fs : Files} (hw : fs.WellFormed) (r : String) :
    Grows fs (k.probe fs r).2 := by
  unfold probe
  split
  · exact .refl fs
  · split
    · exact .refl fs
    · exact .refl fs
    · rename_i f fs₁ ho
      have hopens := opens_of_openExisting ho
      have hfresh := hopens.ne_holder hw
      split
      · exact hopens.toGrows
      · rename_i fs₂ hl
        obtain ⟨-, rfl⟩ := (tryLock?_eq_some_iff hfresh).1 hl
        -- The probe's own lock is the only one that it gives up.
        rw [unlock_withLock hfresh]
        exact hopens.toGrows

/-! ## Letting go -/

theorem letGo_eq (fs : Files) (p : FilePath) (f : OpenFile) :
    letGo fs p f = ((fs.unlock f).attempt ((fs.unlock f).unlink p)).1 := by
  simp only [letGo, attempt]
  cases (fs.unlock f).unlink p with
  | error fault => rfl
  | ok fs' => rfl

theorem letGo_cases (fs : Files) (p : FilePath) (f : OpenFile) :
    letGo fs p f = fs.unlock f ∨ (fs.unlock f).unlink p = .ok (letGo fs p f) := by
  rw [letGo_eq]
  exact attempt_unlink_cases _ p

/-- A file that is let go has no lock any more, and all other locks stay. -/
theorem locks_letGo (fs : Files) (p : FilePath) (f : OpenFile) :
    (letGo fs p f).locks = fs.locks.filter (·.holder != f) := by
  rcases letGo_cases fs p f with h | h
  · rw [h]
    rfl
  · rw [(locks_of_unlink h).1]
    rfl

theorem mem_locks_letGo {fs : Files} {p : FilePath} {f : OpenFile} {l : FileLock} :
    l ∈ (letGo fs p f).locks ↔ l ∈ fs.locks ∧ l.holder ≠ f := by
  rw [locks_letGo, List.mem_filter, bne_iff_ne]

theorem keeps_letGo (fs : Files) (p : FilePath) (f : OpenFile) : Keeps (letGo fs p f) fs := by
  have hunlock : Keeps (fs.unlock f) fs := fun _ _ h => h
  rcases letGo_cases fs p f with h | h
  · rwa [h]
  · exact (keeps_of_unlink h).trans hunlock

theorem clearable_unlock {fs : Files} {p : FilePath} (h : fs.Clearable p) (f : OpenFile) :
    (fs.unlock f).Clearable p :=
  have hsame : Keeps fs (fs.unlock f) := fun _ _ h => h
  have hback : Keeps (fs.unlock f) fs := fun _ _ h => h
  h.of_keeps hsame.ways hback.ways

theorem keepsWays_letGo {fs : Files} {p : FilePath} (h : fs.Clearable p) (f : OpenFile) :
    KeepsWays fs (letGo fs p f) := by
  have hunlock : Keeps fs (fs.unlock f) := fun _ _ h => h
  rcases letGo_cases fs p f with hstay | hgone
  · rw [hstay]
    exact hunlock.ways
  · exact hunlock.ways.trans (keepsWays_of_unlink hgone (clearable_unlock h f))

/-- What can be cleared can still be cleared after another name is gone. -/
theorem clearable_letGo {fs : Files} {p q : FilePath} (hq : fs.Clearable q) (hp : fs.Clearable p)
    (f : OpenFile) : (letGo fs p f).Clearable q :=
  hq.of_keeps (keepsWays_letGo hp f) (keeps_letGo fs p f).ways

theorem counts_letGo (fs : Files) (p : FilePath) (f : OpenFile) :
    (letGo fs p f).nextInode = fs.nextInode ∧ (letGo fs p f).nextHandle = fs.nextHandle := by
  rcases letGo_cases fs p f with h | h
  · rw [h]
    exact ⟨rfl, rfl⟩
  · exact (locks_of_unlink h).2

theorem inode_letGo {k : LockKeeper} {fs : Files} {a b : String} {f : OpenFile} {i : Nat}
    (hclear : fs.Clearable (k.path a)) (ha : fs.inode (k.path a) ≠ .ok i)
    (hb : fs.inode (k.path b) = .ok i) : (letGo fs (k.path a) f).inode (k.path b) = .ok i := by
  have hnodes : (fs.unlock f).nodes = fs.nodes := rfl
  have hunlock (q : FilePath) : (fs.unlock f).inode q = .ok i ↔ fs.inode q = .ok i :=
    inode_congr hnodes q i
  rcases letGo_cases fs (k.path a) f with h | h
  · rw [h, hunlock]
    exact hb
  · exact inode_of_unlink h (clearable_unlock hclear f) (mt (hunlock _).1 ha) ((hunlock _).2 hb)

theorem vacant_letGo {fs : Files} {p : FilePath} (h : fs.Clearable p) (f : OpenFile) :
    (letGo fs p f).Vacant p := by
  rw [letGo_eq]
  exact vacant_attempt_unlink (clearable_unlock h f)

theorem locks_letGoEach (k : LockKeeper) (fs : Files) (es : List (String × OpenFile)) :
    (k.letGoEach fs es).locks = fs.locks.filter fun l => l.holder ∉ es.map (·.2) := by
  unfold letGoEach
  induction es generalizing fs with
  | nil => simp
  | cons e es ih =>
    rw [List.foldl_cons, ih, locks_letGo, List.filter_filter]
    refine List.filter_congr fun l _ => Bool.eq_iff_iff.2 ?_
    simp [and_comm]

theorem mem_locks_letGoEach {k : LockKeeper} {fs : Files} {es : List (String × OpenFile)}
    {l : FileLock} :
    l ∈ (k.letGoEach fs es).locks ↔ l ∈ fs.locks ∧ l.holder ∉ es.map (·.2) := by
  rw [locks_letGoEach, List.mem_filter, decide_eq_true_iff]

theorem keeps_letGoEach (k : LockKeeper) (fs : Files) (es : List (String × OpenFile)) :
    Keeps (k.letGoEach fs es) fs := by
  unfold letGoEach
  induction es generalizing fs with
  | nil => exact .refl fs
  | cons e es ih => exact (ih _).trans (keeps_letGo fs (k.path e.1) e.2)

theorem counts_letGoEach (k : LockKeeper) (fs : Files) (es : List (String × OpenFile)) :
    (k.letGoEach fs es).nextInode = fs.nextInode ∧
      (k.letGoEach fs es).nextHandle = fs.nextHandle := by
  unfold letGoEach
  induction es generalizing fs with
  | nil => exact ⟨rfl, rfl⟩
  | cons e es ih =>
    obtain ⟨hinode, hhandle⟩ := counts_letGo fs (k.path e.1) e.2
    rw [List.foldl_cons, (ih _).1, (ih _).2]
    exact ⟨hinode, hhandle⟩

theorem wellFormed_letGoEach {k : LockKeeper} {fs : Files} (hw : fs.WellFormed)
    (es : List (String × OpenFile)) : (k.letGoEach fs es).WellFormed :=
  hw.of_le (keeps_letGoEach k fs es) (fun _ hl => (mem_locks_letGoEach.1 hl).1)
    (counts_letGoEach k fs es).1 (counts_letGoEach k fs es).2

/-- A path goes on leading to an inode while paths are let go that do not lead there. -/
theorem inode_letGoEach {k : LockKeeper} {fs : Files} {es : List (String × OpenFile)}
    {b : String} {i : Nat} (hclear : ∀ e ∈ es, fs.Clearable (k.path e.1))
    (hes : ∀ e ∈ es, fs.inode (k.path e.1) ≠ .ok i) (hb : fs.inode (k.path b) = .ok i) :
    (k.letGoEach fs es).inode (k.path b) = .ok i := by
  unfold letGoEach
  induction es generalizing fs with
  | nil => exact hb
  | cons e es ih =>
    obtain ⟨he, hclear⟩ := List.forall_mem_cons.1 hclear
    obtain ⟨hne, hes⟩ := List.forall_mem_cons.1 hes
    refine ih (fun e' he' => clearable_letGo (hclear e' he') he e.2) (fun e' he' => ?_)
      (inode_letGo he hne hb)
    exact mt (inode_of_keeps (keeps_letGo fs (k.path e.1) e.2)) (hes e' he')

theorem vacant_letGoEach_of_vacant {k : LockKeeper} {fs : Files} {p : FilePath} (h : fs.Vacant p)
    {es : List (String × OpenFile)} (hclear : ∀ e ∈ es, fs.Clearable (k.path e.1)) :
    (k.letGoEach fs es).Vacant p := by
  unfold letGoEach
  induction es generalizing fs with
  | nil => exact h
  | cons e es ih =>
    obtain ⟨he, hclear⟩ := List.forall_mem_cons.1 hclear
    exact ih (h.of_keeps (keepsWays_letGo he e.2) (keeps_letGo fs (k.path e.1) e.2))
      fun e' he' => clearable_letGo (hclear e' he') he e.2

/-- The names of files that are let go are vacant in the end, whatever goes before and after. -/
theorem vacant_letGoEach {k : LockKeeper} {fs : Files} {es : List (String × OpenFile)}
    {e : String × OpenFile} (he : e ∈ es) (hclear : ∀ e ∈ es, fs.Clearable (k.path e.1)) :
    (k.letGoEach fs es).Vacant (k.path e.1) := by
  induction es generalizing fs with
  | nil => cases he
  | cons e' es ih =>
    obtain ⟨hfirst, hclear⟩ := List.forall_mem_cons.1 hclear
    have hrest : ∀ e ∈ es, (letGo fs (k.path e'.1) e'.2).Clearable (k.path e.1) :=
      fun e he => clearable_letGo (hclear e he) hfirst e'.2
    rcases List.mem_cons.1 he with rfl | he
    · exact vacant_letGoEach_of_vacant (vacant_letGo hfirst e.2) hrest
    · exact ih he hrest

/-! ## Giving up a resource -/

theorem release_of_not_mem {k : LockKeeper} {r : String} (h : r ∉ k.names) (fs : Files) :
    k.release fs r = (fs, k) := by
  rw [release, lookup_eq_none_iff.2 h]

theorem release_of_lookup {k : LockKeeper} {r : String} {f : OpenFile}
    (h : k.held.lookup r = some f) (fs : Files) :
    k.release fs r = (letGo fs (k.path r) f, k.without r) := by
  rw [release, h]
  rfl

theorem release_snd (k : LockKeeper) (fs : Files) (r : String) :
    (k.release fs r).2 = k.without r := by
  cases h : k.held.lookup r with
  | none =>
    have hnot := lookup_eq_none_iff.1 h
    rw [release_of_not_mem hnot, without_eq_self hnot]
  | some f => rw [release_of_lookup h]

theorem names_release {k : LockKeeper} (fs : Files) (h : k.names.Nodup) (r : String) :
    (k.release fs r).2.names = k.names.erase r := by
  rw [release_snd, names_without, h.erase_eq_filter]

/-! ## Taking several locks -/

/-- The keeper with several more entries. -/
def enterAll (k : LockKeeper) (es : List (String × OpenFile)) : LockKeeper :=
  { k with held := es ++ k.held }

theorem names_enterAll (k : LockKeeper) (es : List (String × OpenFile)) :
    (k.enterAll es).names = es.map (·.1) ++ k.names := by
  simp [names, enterAll]

theorem foldl_without (rs : List String) (k : LockKeeper) :
    rs.foldl without k = { k with held := k.held.filter fun e => e.1 ∉ rs } := by
  induction rs generalizing k with
  | nil => simp
  | cons r rs ih =>
    rw [List.foldl_cons, ih]
    simp only [without, List.filter_filter, LockKeeper.mk.injEq, true_and]
    refine List.filter_congr fun e _ => ?_
    by_cases h : e.1 = r <;> simp [h]

/-- Giving up resources one after the other takes them out of the table. -/
theorem foldl_release_snd (rs : List String) (fs : Files) (k : LockKeeper) :
    (rs.foldl (fun (s : Files × LockKeeper) r => s.2.release s.1 r) (fs, k)).2 =
      rs.foldl without k := by
  induction rs generalizing fs k with
  | nil => rfl
  | cons r rs ih =>
    rw [List.foldl_cons, List.foldl_cons, ← release_snd k fs r]
    exact ih _ _

/-- Giving up what has been entered brings the table back. -/
theorem foldl_without_enterAll {k : LockKeeper} {es : List (String × OpenFile)}
    (h : ∀ e ∈ es, e.1 ∉ k.names) (rs : List String) (hrs : ∀ r, r ∈ rs ↔ r ∈ es.map (·.1)) :
    rs.foldl without (k.enterAll es) = k := by
  have hes : es.filter (fun e => e.1 ∉ rs) = [] := by
    refine List.filter_eq_nil_iff.2 fun e he => ?_
    simpa [hrs] using ⟨e.2, he⟩
  have hk : k.held.filter (fun e => e.1 ∉ rs) = k.held := by
    refine List.filter_eq_self.2 fun e he => ?_
    have hnot : e.1 ∉ rs := by
      rw [hrs]
      intro hmem
      obtain ⟨e', he', heq⟩ := List.mem_map.1 hmem
      exact h e' he' (heq ▸ List.mem_map.2 ⟨e, he, rfl⟩)
    simpa using hnot
  rw [foldl_without]
  simp only [enterAll, List.filter_append, hes, hk, List.nil_append]

/-- After the locks of `es`, all further resources are taken, each once, or all is undone. -/
theorem acquireAll_go {k : LockKeeper} {rest : List String} :
    ∀ {fs fs' : Files} {es : List (String × OpenFile)} {o : Option (List String)}
      {k' : LockKeeper}, (∀ e ∈ es, e.1 ∉ k.names) →
      acquireAll.go (k.enterAll es) fs (es.map (·.1)) rest = (o, fs', k') →
      (o = none ∧ k' = k) ∨
        ∃ es', o = some (es'.map (·.1)).reverse ∧ k' = k.enterAll es' ∧
          (∀ e ∈ es', e.1 ∉ k.names) ∧
          (es'.map (·.1)).reverse =
            (es.map (·.1)).reverse ++ (rest.filter (· ∉ es.map (·.1))).eraseDups := by
  induction rest with
  | nil =>
    intro fs fs' es o k' hes hgo
    rw [acquireAll.go] at hgo
    cases hgo
    exact .inr ⟨es, rfl, rfl, hes, by simp⟩
  | cons r rest ih =>
    intro fs fs' es o k' hes hgo
    rw [acquireAll.go] at hgo
    split at hgo
    · rename_i hmem
      rcases ih hes hgo with hnone | ⟨es', ho, hk', hes', heq⟩
      · exact .inl hnone
      · exact .inr ⟨es', ho, hk', hes', by rw [heq, List.filter_cons_of_neg (by simpa using hmem)]⟩
    · rename_i hmem
      rcases acquireUnheld_cases (k.enterAll es) fs r .exclusive with
        ⟨f, fs₁, hnot, htake⟩ | ⟨fs₁, htake⟩
      · rw [htake] at hgo
        have hr : r ∉ k.names := by
          rw [names_enterAll, List.mem_append, not_or] at hnot
          exact hnot.2
        have hes₁ : ∀ e ∈ (r, f) :: es, e.1 ∉ k.names := List.forall_mem_cons.2 ⟨hr, hes⟩
        rcases ih hes₁ hgo with hnone | ⟨es', ho, hk', hes', heq⟩
        · exact .inl hnone
        · refine .inr ⟨es', ho, hk', hes', ?_⟩
          -- Those left to take are neither `r` nor taken before.
          have hrest : rest.filter (· ∉ ((r, f) :: es).map (·.1)) =
              (rest.filter (· ∉ es.map (·.1))).filter (fun q => !q == r) := by
            rw [List.filter_filter]
            refine List.filter_congr fun q _ => Bool.eq_iff_iff.2 ?_
            simp [not_or]
          rw [heq, List.filter_cons_of_pos (by simpa using hmem), List.eraseDups_cons, hrest]
          simp
      · rw [htake] at hgo
        cases hgo
        refine .inl ⟨rfl, ?_⟩
        rw [foldl_release_snd]
        exact foldl_without_enterAll hes _ fun q => List.mem_reverse

theorem nodup_eraseDups (rs : List String) : rs.eraseDups.Nodup := by
  induction h : rs.length using Nat.strongRecOn generalizing rs with
  | ind n ih =>
    cases rs with
    | nil => simp
    | cons r rs =>
      have hlen : (rs.filter fun q => !q == r).length < n := by
        rw [← h]
        exact Nat.lt_succ_of_le (List.length_filter_le _ _)
      rw [List.eraseDups_cons, List.nodup_cons]
      exact ⟨by simp, ih _ hlen _ rfl⟩

/-- If the locks are taken, then each resource once, none of which was held before. -/
theorem acquireAll_some {k k' : LockKeeper} {fs fs' : Files} {rs l : List String}
    (h : k.acquireAll fs rs = (some l, fs', k')) :
    l = rs.eraseDups ∧ (∀ r ∈ l, r ∉ k.names) ∧ k'.names = l.reverse ++ k.names := by
  have hnil : ∀ e ∈ ([] : List (String × OpenFile)), e.1 ∉ k.names := by simp
  rcases acquireAll_go hnil h with ⟨hnone, -⟩ | ⟨es, ho, rfl, hes, heq⟩
  · cases hnone
  · obtain rfl := Option.some.inj ho
    refine ⟨by simpa using heq, fun r hr => ?_, by rw [names_enterAll, List.reverse_reverse]⟩
    obtain ⟨e, he, rfl⟩ := List.mem_map.1 (List.mem_reverse.1 hr)
    exact hes e he

/-- If the locks are not taken, the table is as it was. -/
theorem acquireAll_none {k k' : LockKeeper} {fs fs' : Files} {rs : List String}
    (h : k.acquireAll fs rs = (none, fs', k')) : k' = k := by
  have hnil : ∀ e ∈ ([] : List (String × OpenFile)), e.1 ∉ k.names := by simp
  rcases acquireAll_go hnil h with ⟨-, hk⟩ | ⟨es, ho, -⟩
  · exact hk
  · cases ho

end Upkeep.LockKeeper
