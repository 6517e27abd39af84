import Mathlib.Data.String.Basic
import Upkeep.Proofs.Files.Directories
import Upkeep.Proofs.Locks.Keepers

/-!
# The files behind the locks

Keepers that take locks exclusively only share one directory that nobody else touches. `LockRoom`
says what this directory is like: it is there, and what stands in it under the name of a lock file
is a plain file, one for each name. `Kept` says what holds at all times, given which open file each
keeper has for which resource. Which resource has which file name does not matter; several may share
one.

A resource is taken if nobody holds one with the same file name (`take_of_free`), and not otherwise
(`take_of_taken`). Files that are let go lose their locks and their names, in whatever order
(`letGoEach`). A probe tells which of the two it is and leaves all as it was (`probe`).
-/

namespace Upkeep

open Files

/-! ## The names of the lock files -/

theorem plain_digitChar {n : Nat} (h : n < 16) :
    n.digitChar.utf8Size = 1 ∧ n.digitChar ≠ '\x00' := by
  revert n
  decide

theorem plain_hex (b : Bytes) : ∀ c ∈ (Sha256.hex b).toList, c.utf8Size = 1 ∧ c ≠ '\x00' := by
  intro c hc
  simp only [Sha256.hex, String.toList_ofList, List.mem_flatMap, List.mem_cons, List.not_mem_nil,
    or_false] at hc
  obtain ⟨x, -, rfl | rfl⟩ := hc
  · exact plain_digitChar (Nat.div_lt_of_lt_mul x.toNat_lt)
  · exact plain_digitChar (Nat.mod_lt _ (by decide))

theorem utf8Len_of_plain {cs : List Char} (h : ∀ c ∈ cs, c.utf8Size = 1) :
    String.utf8Len cs = cs.length := by
  induction cs with
  | nil => rfl
  | cons c cs ih =>
    obtain ⟨hc, hcs⟩ := List.forall_mem_cons.1 h
    rw [String.utf8Len_cons, ih hcs, hc, List.length_cons]

theorem lockFileName_fits (r : String) :
    (lockFileName r).utf8ByteSize ≤ 21 ∧ '\x00' ∉ (lockFileName r).toList := by
  have hplain (c : Char) (hc : c ∈ (Sha256.hex (Sha256.digest (Text.encode r))).toList.take 16) :
      c.utf8Size = 1 ∧ c ≠ '\x00' := plain_hex _ c (List.mem_of_mem_take hc)
  constructor
  · rw [lockFileName, String.utf8ByteSize_append, String.utf8ByteSize_ofList,
      utf8Len_of_plain fun c hc => (hplain c hc).1]
    have hlength := List.length_take_le 16 (Sha256.hex (Sha256.digest (Text.encode r))).toList
    have hsuffix : ".lock".utf8ByteSize = 5 := by decide
    omega
  · rw [lockFileName, String.toList_append, String.toList_ofList, List.mem_append, not_or]
    exact ⟨fun hc => (hplain _ hc).2 rfl, by decide⟩

/-- Below a path that is not too long, the names of all lock files can be looked up. -/
theorem lookup_lockFileName {directory : FilePath} (hne : directory ≠ [])
    (hnul : '\x00' ∉ directory.text.toList)
    (hsize : directory.text.utf8ByteSize + 22 ≤ Files.maxPath) (r : String) :
    Files.textFault? (FilePath.text (directory ++ [.name (lockFileName r)])) = none ∧
      (lockFileName r).utf8ByteSize ≤ Files.maxName := by
  obtain ⟨hshort, hplain⟩ := lockFileName_fits r
  have htext : FilePath.text (directory ++ [.name (lockFileName r)]) =
      directory.text ++ "/" ++ lockFileName r := by
    rw [FilePath.text, List.map_append, String.intercalate_append_of_ne_nil (by simpa using hne)
      (by simp)]
    simp [FilePath.text, Segment.text]
  refine ⟨?_, hshort.trans (by decide)⟩
  rw [Files.textFault?, htext, if_neg, if_neg]
  · have hslash : "/".utf8ByteSize = 1 := by decide
    rw [String.utf8ByteSize_append, String.utf8ByteSize_append, hslash]
    omega
  · simp [hnul, hplain]

/-! ## The directory of the lock files -/

/-- A directory that is there, with plain files under the names of lock files, if anything.
Different names are those of different files. -/
structure LockRoom (name : String → String) (directory : FilePath) (place : Place) (fs : Files) :
    Prop where
  walk : fs.walk directory = .ok place
  text : textFault? directory.text = none
  names : ∀ r, textFault? (FilePath.text (directory ++ [.name (name r)])) = none ∧
    (name r).utf8ByteSize ≤ maxName
  plain : ∀ r node, fs.node? (place ++ [name r]) = some node → ∃ i, node = .file i
  apart : ∀ r r' i, fs.node? (place ++ [name r]) = some (.file i) →
    fs.node? (place ++ [name r']) = some (.file i) → name r = name r'

/-- Whoever holds a resource has its lock file open, with the exclusive lock on it, and no others
have locks on lock files. -/
structure Kept (name : String → String) (directory : FilePath) (place : Place) (fs : Files)
    (fileOf : Nat → String → Option OpenFile) : Prop extends
    LockRoom name directory place fs where
  files : fs.WellFormed
  locked : ∀ m r f, fileOf m r = some f →
    fs.node? (place ++ [name r]) = some (.file f.inode) ∧ ⟨f, .exclusive⟩ ∈ fs.locks
  holder : ∀ l ∈ fs.locks, ∀ r, fs.node? (place ++ [name r]) = some (.file l.holder.inode) →
    ∃ m r', fileOf m r' = some l.holder
  own : ∀ m r m' r' f, fileOf m r = some f → fileOf m' r' = some f → m = m' ∧ r = r'

section

variable {name : String → String} {directory : FilePath} {place : Place} {fs fs' : Files}
  {fileOf : Nat → String → Option OpenFile} {k : LockKeeper} {m m' : Nat} {r r' : String}

theorem LockRoom.locate (h : LockRoom name directory place fs) (r : String) :
    fs.locate (directory ++ [.name (name r)]) = .ok (.entry place (name r) false) :=
  locate_name (h.names r).1 h.walk

theorem LockRoom.node?_cases (h : LockRoom name directory place fs) (r : String) :
    fs.node? (place ++ [name r]) = none ∨ ∃ i, fs.node? (place ++ [name r]) = some (.file i) := by
  cases hn : fs.node? (place ++ [name r]) with
  | none => exact .inl rfl
  | some node =>
    obtain ⟨i, rfl⟩ := h.plain r node hn
    exact .inr ⟨i, rfl⟩

theorem LockRoom.pathExists_iff (h : LockRoom name directory place fs) (r : String) :
    fs.pathExists (directory ++ [.name (name r)]) = true ↔ fs.node? (place ++ [name r]) ≠ none := by
  rcases h.node?_cases r with hn | ⟨i, hn⟩
  · simp [pathExists, status_of_missing (h.locate r) (h.names r).2 hn, hn, Except.isOk,
      Except.toBool]
  · simp [pathExists_of_file (h.locate r) (h.names r).2 hn, hn]

theorem LockRoom.of_keeps (h : LockRoom name directory place fs) (ways : KeepsWays fs fs')
    (plain : ∀ r node, fs'.node? (place ++ [name r]) = some node → ∃ i, node = .file i)
    (apart : ∀ r r' i, fs'.node? (place ++ [name r]) = some (.file i) →
      fs'.node? (place ++ [name r']) = some (.file i) → name r = name r') :
    LockRoom name directory place fs' :=
  ⟨walk_of_keeps ways h.walk, h.text, h.names, plain, apart⟩

/-- A plain file under the name of a lock file, found under no other such name. -/
theorem LockRoom.withEntry (h : LockRoom name directory place fs) {i : Nat}
    (ways : KeepsWays fs fs')
    (hentry : ∀ r', fs'.node? (place ++ [name r']) =
      if name r' = name r then some (.file i) else fs.node? (place ++ [name r']))
    (hapart : ∀ r', fs.node? (place ++ [name r']) = some (.file i) → name r' = name r) :
    LockRoom name directory place fs' := by
  refine h.of_keeps ways (fun r' node hn => ?_) fun r₁ r₂ j hn₁ hn₂ => ?_
  · rw [hentry] at hn
    split at hn
    · exact ⟨_, (Option.some.inj hn).symm⟩
    · exact h.plain r' node hn
  · rw [hentry] at hn₁ hn₂
    split at hn₁ <;> split at hn₂
    · rename_i h₁ h₂
      exact h₁.trans h₂.symm
    · rename_i h₁ h₂
      obtain rfl : i = j := by simpa using hn₁
      exact h₁.trans (hapart r₂ hn₂).symm
    · rename_i h₁ h₂
      obtain rfl : i = j := by simpa using hn₂
      exact (hapart r₁ hn₁).trans h₂.symm
    · exact h.apart r₁ r₂ j hn₁ hn₂

namespace Kept

theorem eq_of_name (h : Kept name directory place fs fileOf) {f f' : OpenFile}
    (hf : fileOf m r = some f) (hf' : fileOf m' r' = some f') (hname : name r = name r') :
    m = m' ∧ r = r' := by
  obtain ⟨hn, hlock⟩ := h.locked m r f hf
  obtain ⟨hn', hlock'⟩ := h.locked m' r' f' hf'
  rw [hname, hn'] at hn
  have hinode : f.inode = f'.inode := by simpa using hn.symm
  rcases h.files.compatible _ hlock _ hlock' hinode with heq | ⟨hshared, -⟩
  · obtain rfl : f = f' := congrArg FileLock.holder heq
    exact h.own m r m' r' f hf hf'
  · cases hshared

/-- A lock file carries a lock exactly if somebody holds a resource of its name. -/
theorem exists_lock_iff (h : Kept name directory place fs fileOf) {i : Nat}
    (hn : fs.node? (place ++ [name r]) = some (.file i)) :
    (∃ l ∈ fs.locks, l.holder.inode = i) ↔ ∃ m r', fileOf m r' ≠ none ∧ name r' = name r := by
  constructor
  · rintro ⟨l, hl, rfl⟩
    obtain ⟨m, r', hf⟩ := h.holder l hl r hn
    exact ⟨m, r', by simp [hf], h.apart r' r _ (h.locked m r' _ hf).1 hn⟩
  · rintro ⟨m, r', hf, hname⟩
    obtain ⟨f, hf⟩ := Option.ne_none_iff_exists'.1 hf
    obtain ⟨hn', hlock⟩ := h.locked m r' f hf
    rw [hname, hn] at hn'
    exact ⟨_, hlock, by simpa using hn'.symm⟩

theorem nextHandle (h : Kept name directory place fs fileOf) :
    Kept name directory place { fs with nextHandle := fs.nextHandle + 1 } fileOf where
  toLockRoom :=
    have hsame : Keeps fs { fs with nextHandle := fs.nextHandle + 1 } := fun _ _ hq => hq
    h.toLockRoom.of_keeps hsame.ways h.plain h.apart
  files := (grows_nextHandle fs).wellFormed h.files
  locked := h.locked
  holder := h.holder
  own := h.own

theorem exists_file (h : Kept name directory place fs fileOf)
    (htaken : ∃ m r', fileOf m r' ≠ none ∧ name r' = name r) :
    ∃ i, fs.node? (place ++ [name r]) = some (.file i) := by
  obtain ⟨m, r', hf, hname⟩ := htaken
  obtain ⟨f, hf⟩ := Option.ne_none_iff_exists'.1 hf
  exact ⟨f.inode, hname ▸ (h.locked m r' f hf).1⟩

theorem tryLock?_of_taken (h : Kept name directory place fs fileOf) {p : FilePath} {f : OpenFile}
    (hopens : Opens fs p f fs') (hn : fs.node? (place ++ [name r]) = some (.file f.inode))
    (htaken : ∃ m r', fileOf m r' ≠ none ∧ name r' = name r) :
    fs'.tryLock? f .exclusive = none := by
  obtain ⟨l, hl, hinode⟩ := (h.exists_lock_iff hn).2 htaken
  rw [Option.eq_none_iff_forall_ne_some]
  intro fs₂ hfs₂
  have hall := ((tryLock?_eq_some_iff (hopens.ne_holder h.files)).1 hfs₂).1
  cases (hall l (hopens.locks ▸ hl) hinode).2

theorem take_of_taken (h : Kept name directory place fs fileOf)
    (hpath : k.path r = directory ++ [.name (name r)])
    (htaken : ∃ m r', fileOf m r' ≠ none ∧ name r' = name r) :
    k.take fs r .exclusive = (false, { fs with nextHandle := fs.nextHandle + 1 }, k) := by
  obtain ⟨i, hn⟩ := h.exists_file htaken
  have hopen := openOrCreate_of_inode (inode_of_file (h.locate r) (h.names r).2 hn)
  have hlock := h.tryLock?_of_taken (opens_of_openOrCreate hopen) hn htaken
  simp only [LockKeeper.take, hpath, hopen, hlock]

/-- A lock file that nobody holds is opened or made, and carries no lock. -/
theorem opens_of_free (h : Kept name directory place fs fileOf)
    (hfree : ∀ m r', fileOf m r' ≠ none → name r' ≠ name r) :
    ∃ f fs', fs.openOrCreate (directory ++ [.name (name r)]) = .ok (f, fs') ∧
      (∀ q, fs'.node? q = if q = place ++ [name r] then some (.file f.inode) else fs.node? q) ∧
      (∀ l ∈ fs.locks, l.holder.inode ≠ f.inode) ∧
      ∀ r', fs.node? (place ++ [name r']) = some (.file f.inode) → name r' = name r := by
  have hl := h.locate r
  have hsize := (h.names r).2
  rcases h.node?_cases r with hn | ⟨i, hn⟩
  · refine ⟨_, _, openOrCreate_of_missing hl hsize hn, fun q => ?_, fun l hl' => ?_,
      fun r' hr' => ?_⟩
    · exact node?_withNewFile fs place (name r) q
    · exact Nat.ne_of_lt (h.files.locked_lt l hl')
    · exact absurd (h.files.inode_lt _ _ hr') (Nat.lt_irrefl _)
  · refine ⟨_, _, openOrCreate_of_inode (inode_of_file hl hsize hn), fun q => ?_, ?_,
      fun r' hr' => ?_⟩
    · split
      · rename_i hq
        exact hq ▸ hn
      · rfl
    · intro l hl' hinode
      obtain ⟨m, r', hf, hname⟩ := (h.exists_lock_iff hn).1 ⟨l, hl', hinode⟩
      exact hfree m r' hf hname
    · exact h.apart r' r i hr' hn

theorem withLock (h : Kept name directory place fs fileOf) {p : FilePath} {f : OpenFile}
    (hopens : Opens fs p f fs') (hfree : ∀ m r', fileOf m r' ≠ none → name r' ≠ name r)
    (hentry : ∀ r', fs'.node? (place ++ [name r']) =
      if name r' = name r then some (.file f.inode) else fs.node? (place ++ [name r']))
    (hfresh : ∀ l ∈ fs.locks, l.holder.inode ≠ f.inode)
    (hapart : ∀ r', fs.node? (place ++ [name r']) = some (.file f.inode) → name r' = name r)
    (hlock : fs'.tryLock? f .exclusive = some (fs'.withLock f .exclusive)) (m : Nat) :
    Kept name directory place (fs'.withLock f .exclusive)
      (fun m' r' => if m' = m ∧ r' = r then some f else fileOf m' r') := by
  have hother {m' : Nat} {r' : String} {f' : OpenFile} (hf' : fileOf m' r' = some f') :
      fs'.node? (place ++ [name r']) = some (.file f'.inode) ∧ ⟨f', .exclusive⟩ ∈ fs'.locks := by
    obtain ⟨hn, hlock'⟩ := h.locked m' r' f' hf'
    rw [hentry, if_neg (hfree m' r' (by simp [hf'])), hopens.locks]
    exact ⟨hn, hlock'⟩
  have hkeeps : Keeps fs (fs'.withLock f .exclusive) := hopens.keeps
  constructor
  case toLockRoom => exact h.toLockRoom.withEntry hkeeps.ways hentry hapart
  case files => exact (hopens.tryLock? h.files hlock).2.2
  case locked =>
    intro m' r' f' hf'
    split at hf'
    · rename_i heq
      obtain rfl := Option.some.inj hf'
      refine ⟨?_, mem_locks_withLock.2 (.inl rfl)⟩
      rw [heq.2]
      exact (hentry r).trans (if_pos rfl)
    · exact ⟨(hother hf').1, mem_locks_withLock.2 (.inr (hother hf').2)⟩
  case holder =>
    intro l hl r' hn
    replace hn := (hentry r').symm.trans hn
    rcases mem_locks_withLock.1 hl with rfl | hl
    · exact ⟨m, r, if_pos ⟨rfl, rfl⟩⟩
    · rw [hopens.locks] at hl
      split at hn
      · exact absurd (by simpa using hn.symm) (hfresh l hl)
      · obtain ⟨m', r₁, hf'⟩ := h.holder l hl r' hn
        refine ⟨m', r₁, ?_⟩
        rw [if_neg]
        · exact hf'
        · rintro ⟨-, rfl⟩
          exact hfree m' r₁ (by simp [hf']) rfl
  case own =>
    intro m₁ r₁ m₂ r₂ f' hf₁ hf₂
    have hne {m' : Nat} {r' : String} : fileOf m' r' ≠ some f := fun hf' =>
      hopens.ne_holder h.files _ (hother hf').2 rfl
    split at hf₁ <;> split at hf₂
    · rename_i h₁ h₂
      exact ⟨h₁.1.trans h₂.1.symm, h₁.2.trans h₂.2.symm⟩
    · obtain rfl := Option.some.inj hf₁
      exact absurd hf₂ hne
    · obtain rfl := Option.some.inj hf₂
      exact absurd hf₁ hne
    · exact h.own m₁ r₁ m₂ r₂ f' hf₁ hf₂

/-- A resource is taken whose lock file nobody holds. -/
theorem take_of_free (h : Kept name directory place fs fileOf)
    (hpath : k.path r = directory ++ [.name (name r)]) (m : Nat)
    (hfree : ∀ m r', fileOf m r' ≠ none → name r' ≠ name r) :
    ∃ f fs', k.take fs r .exclusive = (true, fs', k.enter r f) ∧
      Kept name directory place fs'
        (fun m' r' => if m' = m ∧ r' = r then some f else fileOf m' r') ∧
      ∀ r', fs'.node? (place ++ [name r']) ≠ none ↔
        name r' = name r ∨ fs.node? (place ++ [name r']) ≠ none := by
  obtain ⟨f, fs₁, hopen, hnode, hfresh, hapart⟩ := h.opens_of_free hfree
  have hopens := opens_of_openOrCreate hopen
  have hentry (r' : String) : fs₁.node? (place ++ [name r']) =
      if name r' = name r then some (.file f.inode) else fs.node? (place ++ [name r']) := by
    rw [hnode]
    simp
  have hlock : fs₁.tryLock? f .exclusive = some (fs₁.withLock f .exclusive) := by
    refine (tryLock?_eq_some_iff (hopens.ne_holder h.files)).2 ⟨fun l hl hinode => ?_, rfl⟩
    exact absurd hinode (hfresh l (hopens.locks ▸ hl))
  refine ⟨f, fs₁.withLock f .exclusive, ?_,
    h.withLock hopens hfree hentry hfresh hapart hlock m, fun r' => ?_⟩
  · simp only [LockKeeper.take, hpath, hopen, hlock]
    rfl
  · show fs₁.node? (place ++ [name r']) ≠ none ↔ _
    rw [hentry]
    split <;> simp [*]

/-- A file that is let go loses its lock and its name. -/
theorem letGo (h : Kept name directory place fs fileOf) {f : OpenFile}
    (hf : fileOf m r = some f) :
    Kept name directory place (LockKeeper.letGo fs (directory ++ [.name (name r)]) f)
        (fun m' r' => if m' = m ∧ r' = r then none else fileOf m' r') ∧
      ∀ r', (LockKeeper.letGo fs (directory ++ [.name (name r)]) f).node? (place ++ [name r']) =
        if name r' = name r then none else fs.node? (place ++ [name r']) := by
  obtain ⟨hn, hlock⟩ := h.locked m r f hf
  have hsame : Keeps fs (fs.unlock f) := fun _ _ hq => hq
  have hunlink : (fs.unlock f).unlink (directory ++ [.name (name r)]) =
      .ok ((fs.unlock f).eraseNode (place ++ [name r])) :=
    unlink_of_file (locate_of_keeps hsame.ways (h.locate r)) (h.names r).2 hn
  have hclear := clearable_of_inode (inode_of_file (h.locate r) (h.names r).2 hn)
  have hletGo : LockKeeper.letGo fs (directory ++ [.name (name r)]) f =
      (fs.unlock f).eraseNode (place ++ [name r]) := by
    rw [LockKeeper.letGo, hunlink]
  have hentry (r' : String) :
      (LockKeeper.letGo fs (directory ++ [.name (name r)]) f).node? (place ++ [name r']) =
        if name r' = name r then none else fs.node? (place ++ [name r']) := by
    rw [hletGo, node?_eraseNode]
    simp only [List.append_cancel_left_eq, List.cons.injEq, and_true]
    rfl
  have hold {m' : Nat} {r' : String} {f' : OpenFile}
      (hf' : (if m' = m ∧ r' = r then none else fileOf m' r') = some f') :
      name r' ≠ name r ∧ f' ≠ f ∧ fileOf m' r' = some f' := by
    split at hf'
    · cases hf'
    · rename_i hne
      refine ⟨fun hname => hne (h.eq_of_name hf' hf hname), ?_, hf'⟩
      rintro rfl
      exact hne (h.own m' r' m r f' hf' hf)
  refine ⟨⟨?_, ?_, fun m' r' f' hf' => ?_, fun l hl r' hn' => ?_, fun m₁ r₁ m₂ r₂ f' hf₁ hf₂ => ?_⟩,
    hentry⟩
  · refine h.toLockRoom.of_keeps (LockKeeper.keepsWays_letGo hclear f) (fun r' node hn' => ?_)
      fun r₁ r₂ i hn₁ hn₂ => ?_
    · rw [hentry] at hn'
      split at hn'
      · cases hn'
      · exact h.plain r' node hn'
    · rw [hentry] at hn₁ hn₂
      split at hn₁
      · cases hn₁
      · split at hn₂
        · cases hn₂
        · exact h.apart r₁ r₂ i hn₁ hn₂
  · rw [hletGo]
    exact (h.files.unlock f).of_unlink hunlink
  · obtain ⟨hname, hne, hf'⟩ := hold hf'
    obtain ⟨hn', hlock'⟩ := h.locked m' r' f' hf'
    rw [hentry, if_neg hname, LockKeeper.mem_locks_letGo]
    exact ⟨hn', hlock', hne⟩
  · obtain ⟨hl, hne⟩ := LockKeeper.mem_locks_letGo.1 hl
    rw [hentry] at hn'
    split at hn'
    · cases hn'
    · obtain ⟨m', r₁, hf'⟩ := h.holder l hl r' hn'
      refine ⟨m', r₁, ?_⟩
      rw [if_neg]
      · exact hf'
      · rintro ⟨rfl, rfl⟩
        exact hne (Option.some.inj (hf'.symm.trans hf))
  · exact h.own m₁ r₁ m₂ r₂ f' (hold hf₁).2.2 (hold hf₂).2.2

theorem letGoEach (h : Kept name directory place fs fileOf)
    (hpath : ∀ r, k.path r = directory ++ [.name (name r)]) {es : List (String × OpenFile)}
    (hes : ∀ e ∈ es, fileOf m e.1 = some e.2) (hnodup : (es.map (·.1)).Nodup) :
    Kept name directory place (k.letGoEach fs es)
        (fun m' r => if m' = m ∧ r ∈ es.map (·.1) then none else fileOf m' r) ∧
      ∀ r, (k.letGoEach fs es).node? (place ++ [name r]) ≠ none ↔
        fs.node? (place ++ [name r]) ≠ none ∧ ∀ e ∈ es, name e.1 ≠ name r := by
  induction es generalizing fs fileOf with
  | nil => exact ⟨by simpa [LockKeeper.letGoEach] using h, by simp [LockKeeper.letGoEach]⟩
  | cons e es ih =>
    obtain ⟨he, hes⟩ := List.forall_mem_cons.1 hes
    obtain ⟨hnot, hnodup⟩ := List.nodup_cons.1 hnodup
    obtain ⟨hkept, hentry⟩ := h.letGo he
    rw [← hpath] at hkept hentry
    obtain ⟨hkept, hentries⟩ := ih hkept (fun e' he' => by
      rw [if_neg]
      · exact hes e' he'
      · exact fun heq => hnot (List.mem_map.2 ⟨e', he', heq.2⟩)) hnodup
    refine ⟨?_, fun r => ?_⟩
    · have htable : (fun m' r => if m' = m ∧ r ∈ (e :: es).map (·.1) then none else fileOf m' r) =
          fun m' r => if m' = m ∧ r ∈ es.map (·.1) then none
            else if m' = m ∧ r = e.1 then none else fileOf m' r := by
        funext m' r
        by_cases hm : m' = m
        · by_cases hr : r = e.1
          · simp [hm, hr]
          · simp only [List.map_cons, List.mem_cons, hr, false_or, and_false, if_false]
        · simp [hm]
      rw [htable]
      exact hkept
    · refine (hentries r).trans ?_
      rw [hentry, List.forall_mem_cons]
      by_cases hname : name r = name e.1
      · simp [hname]
      · simp [hname, Ne.symm hname]

theorem probe (h : Kept name directory place fs fileOf)
    (hpath : k.path r = directory ++ [.name (name r)])
    (hheld : r ∈ k.names → ∃ m, fileOf m r ≠ none) :
    ((k.probe fs r).1 = true ↔ ∃ m r', fileOf m r' ≠ none ∧ name r' = name r) ∧
      Kept name directory place (k.probe fs r).2 fileOf ∧
        ∀ q, (k.probe fs r).2.node? q = fs.node? q := by
  by_cases hr : r ∈ k.names
  · obtain ⟨m, hf⟩ := hheld hr
    rw [LockKeeper.probe, if_pos (LockKeeper.isHeld_iff.2 hr)]
    exact ⟨iff_of_true rfl ⟨m, r, hf, rfl⟩, h, fun _ => rfl⟩
  rw [LockKeeper.probe, if_neg (by rwa [LockKeeper.isHeld_iff]), hpath]
  rcases h.node?_cases r with hn | ⟨i, hn⟩
  · rw [openExisting_of_missing (h.locate r) (h.names r).2 hn]
    refine ⟨iff_of_false Bool.false_ne_true fun htaken => ?_, h, fun _ => rfl⟩
    obtain ⟨i, hi⟩ := h.exists_file htaken
    rw [hn] at hi
    cases hi
  · have hopen : fs.openExisting (directory ++ [.name (name r)]) =
        .ok (⟨fs.nextHandle, i⟩, { fs with nextHandle := fs.nextHandle + 1 }) := by
      rw [openExisting, inode_of_file (h.locate r) (h.names r).2 hn]
      rfl
    have hopens := opens_of_openExisting hopen
    have hnone := hopens.ne_holder h.files
    rw [hopen]
    dsimp only
    by_cases htaken : ∃ m r', fileOf m r' ≠ none ∧ name r' = name r
    · rw [h.tryLock?_of_taken hopens hn htaken]
      exact ⟨iff_of_true rfl htaken, h.nextHandle, fun _ => rfl⟩
    · rw [(tryLock?_eq_some_iff hnone).2
        ⟨fun l hl hinode => absurd ((h.exists_lock_iff hn).1 ⟨l, hl, hinode⟩) htaken, rfl⟩]
      dsimp only
      rw [unlock_withLock hnone]
      exact ⟨iff_of_false Bool.false_ne_true htaken, h.nextHandle, fun _ => rfl⟩

end Kept

end

end Upkeep
