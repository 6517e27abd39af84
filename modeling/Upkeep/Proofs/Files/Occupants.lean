import Upkeep.Proofs.Files.Directories
import Upkeep.Proofs.Files.OpenFiles

/-!
# What stands at a path

`occupant` tells whether nothing, a directory or a file with some bytes stands at a path. In a tree
without links it depends on the directories on the way and on one entry (`status_eq_ok_iff`), so
that a change elsewhere is not seen there (`occupant_congr`).

**Directories.** Making directories on the way to a path makes none at the path itself, provided
that the path goes up at most within directories that are there (`spares_of_makeDirectory`). So
nothing is seen of it at the path, at no moment (`Spares.status`).

**Files.** Writing to one name of a directory is not seen at another name (`occupant_of_write`),
and what is moved to a path stands there then as it was (`occupant_of_rename`).
-/

namespace Upkeep

/-- What stands at a path: nothing, a directory, or a file with its bytes. -/
inductive Occupant where
  | nothing | directory
  | file (bytes : Bytes)
  deriving DecidableEq

/-- The names of a path. -/
def FilePath.names (p : FilePath) : Place :=
  p.filterMap fun part => match part with
    | .name n => some n
    | _ => none

namespace Files

def occupant (fs : Files) (p : FilePath) : Occupant :=
  match fs.status p with
  | .ok .directory => .directory
  | .ok (.file i) => .file (fs.bytes i)
  | _ => .nothing

/-- There are no symbolic links. -/
def LinkFree (fs : Files) : Prop := ∀ q target, fs.node? q ≠ some (.link target)

/-- The entries are a tree without links: each stands in a directory, and the inodes of files have
been given out. -/
structure IsTree (fs : Files) : Prop where
  parent : ∀ d n node, fs.node? (d ++ [n]) = some node → fs.node? d = some .directory
  linkFree : fs.LinkFree
  inode_lt : ∀ q i, fs.node? q = some (.file i) → i < fs.nextInode

variable {fs fs' : Files} {p q : FilePath} {d x : Place} {n : String} {node : FileNode} {i : Nat}

/-! ## Paths of entries -/

/-- Without links, the way is the same however many links may be followed. -/
theorem LinkFree.leads_iff {k l : Nat} {dest : Destination} (hlink : fs.LinkFree) :
    fs.Leads k d p l dest ↔ l = k ∧ fs.Leads 0 d p 0 dest := by
  constructor
  · intro h
    induction h with
    | here k d => exact ⟨rfl, .here 0 d⟩
    | idle hidle _ ih => exact ⟨ih.1, .idle hidle ih.2⟩
    | up _ ih => exact ⟨ih.1, .up ih.2⟩
    | directory hc _ ih => exact ⟨ih.1, .directory hc ih.2⟩
    | link hc => exact absurd (child?_eq_some_iff.1 hc).2 (hlink _ _)
    | file hc hblank => exact ⟨rfl, .file hc hblank⟩
    | missing hc hblank => exact ⟨rfl, .missing hc hblank⟩
  · rintro ⟨rfl, h⟩
    simpa using h.add l

theorem LinkFree.walk_iff (hlink : fs.LinkFree) :
    fs.walk p = .ok d ↔ fs.Leads 0 [] p 0 (.here d) := by
  simp [walk_eq_ok_iff, hlink.leads_iff (k := maxLinks)]

theorem LinkFree.leads_name_iff (hlink : fs.LinkFree) {k l : Nat} {x : Place} :
    fs.Leads k d [.name n] l (.here x) ↔
      l = k ∧ fs.child? d n = .ok (some .directory) ∧ x = d ++ [n] := by
  constructor
  · intro h
    cases h with
    | idle hidle => cases hidle
    | directory hc h =>
      cases h
      exact ⟨rfl, hc, rfl⟩
    | link hc => exact absurd (child?_eq_some_iff.1 hc).2 (hlink _ _)
  · rintro ⟨rfl, hc, rfl⟩
    exact .directory hc (.here _ _)

theorem LinkFree.walk_concat_iff (hlink : fs.LinkFree) :
    fs.walk (q ++ [.name n]) = .ok x ↔
      ∃ d, fs.walk q = .ok d ∧ fs.child? d n = .ok (some .directory) ∧ x = d ++ [n] := by
  simp only [hlink.walk_iff, leads_append_here_iff, hlink.leads_name_iff]
  constructor
  · rintro ⟨l, d, hq, rfl, hc, rfl⟩
    exact ⟨d, hq, hc, rfl⟩
  · rintro ⟨d, hq, hc, rfl⟩
    exact ⟨0, d, hq, rfl, hc, rfl⟩

theorem status_eq_file_iff : fs.status p = .ok (.file i) ↔ fs.inode p = .ok i := by
  unfold inode
  rcases fs.status p with fault | (j | _ | target) <;> simp [bind, Except.bind]

theorem status_ne_link (fs : Files) (p : FilePath) (target : FilePath) :
    fs.status p ≠ .ok (.link target) := by
  unfold status
  rcases fs.resolve p with fault | ⟨d, n, slash⟩ | d
  · simp [bind, Except.bind]
  · cases hc : fs.child? d n with
    | error fault => simp [hc, bind, Except.bind]
    | ok node? => rcases node? with _ | (i | _ | target) <;> cases slash <;>
        simp [hc, bind, Except.bind]
  · simp [bind, Except.bind]

/-- Without links, a path that leads to a file is located at its entry. -/
theorem exists_locate_of_file (hlink : fs.LinkFree) (h : fs.status p = .ok (.file i)) :
    ∃ q d n, p = q ++ [.name n] ∧ fs.locate p = .ok (.entry d n false) ∧
      fs.walk q = .ok d ∧ fs.child? d n = .ok (some (.file i)) := by
  obtain ⟨q, d, n, l, hp, hl, hq, m, e, a, hlast, hc⟩ :=
    exists_locate_of_inode (status_eq_file_iff.1 h)
  refine ⟨q, d, n, hp, hl, walk_eq_ok_iff.2 ⟨l, hq⟩, ?_⟩
  cases hlast with
  | idle hidle => cases hidle
  | directory _ h => cases h
  | link hc => exact absurd (child?_eq_some_iff.1 hc).2 (hlink _ _)
  | file hc => exact hc
  | missing hc' => cases hc.symm.trans hc'

/-- What stands at a path that ends with a name, and with idle parts perhaps, is what the directory
before has under that name. Idle parts are for directories only. -/
theorem status_eq_ok_iff (hlink : fs.LinkFree)
    (hp : p.trimmed = q ++ [.name n]) :
    fs.status p = .ok node ↔ textFault? p.text = none ∧ n.utf8ByteSize ≤ maxName ∧
      (∃ d, fs.walk q = .ok d ∧ fs.node? (d ++ [n]) = some node) ∧
      (node = .directory ∨ p = q ++ [.name n]) := by
  cases node with
  | directory =>
    simp only [← isDirectory_iff, isDirectory_iff_walk, ← walk_trimmed_iff (p := p), hp,
      hlink.walk_concat_iff, child?_eq_some_iff, true_or, and_true]
    constructor
    · rintro ⟨htext, _, d, hd, ⟨hsize, hn⟩, -⟩
      exact ⟨htext, hsize, d, hd, hn⟩
    · rintro ⟨htext, hsize, d, hd, hn⟩
      exact ⟨htext, _, d, hd, ⟨hsize, hn⟩, rfl⟩
  | file i =>
    simp only [reduceCtorEq, false_or]
    constructor
    · intro h
      obtain ⟨q', d, n', rfl, hl, hd, hc⟩ := exists_locate_of_file hlink h
      rw [trimmed_name, List.append_singleton_inj] at hp
      obtain ⟨rfl, hn⟩ := hp
      cases hn
      obtain ⟨hsize, hn⟩ := child?_eq_some_iff.1 hc
      exact ⟨(locate_name_iff.1 hl).1, hsize, ⟨d, hd, hn⟩, rfl⟩
    · rintro ⟨htext, hsize, ⟨d, hd, hn⟩, rfl⟩
      exact status_of_file (locate_name htext hd) hsize hn
  | link target =>
    refine iff_of_false (status_ne_link fs p target) ?_
    rintro ⟨-, -, ⟨d, -, hn⟩, -⟩
    exact hlink _ _ hn

theorem occupant_eq_file_iff {b : Bytes} :
    fs.occupant p = .file b ↔ ∃ i, fs.status p = .ok (.file i) ∧ b = fs.bytes i := by
  unfold occupant
  rcases fs.status p with fault | (i | _ | target) <;> simp [eq_comm]

theorem status_congr (hlink : fs.LinkFree) (hlink' : fs'.LinkFree)
    (hp : p.trimmed = q ++ [.name n])
    (hentry : ∀ node, (∃ d, fs.walk q = .ok d ∧ fs.node? (d ++ [n]) = some node) ↔
      ∃ d, fs'.walk q = .ok d ∧ fs'.node? (d ++ [n]) = some node) (node : FileNode) :
    fs.status p = .ok node ↔ fs'.status p = .ok node := by
  rw [status_eq_ok_iff hlink hp, status_eq_ok_iff hlink' hp, hentry]

theorem occupant_congr (hstatus : ∀ node, fs.status p = .ok node ↔ fs'.status p = .ok node)
    (hbytes : ∀ i, fs.status p = .ok (.file i) → fs'.bytes i = fs.bytes i) :
    fs'.occupant p = fs.occupant p := by
  unfold occupant
  cases h : fs.status p with
  | ok node =>
    rw [(hstatus node).1 h]
    cases node with
    | file i => exact congrArg Occupant.file (hbytes i h)
    | directory | link target => rfl
  | error fault =>
    cases h' : fs'.status p with
    | ok node => rw [(hstatus node).2 h'] at h; cases h
    | error fault => rfl

/-! ## Trees -/

theorem isTree_empty : IsTree {} where
  parent d n node h := by simp [node?] at h
  linkFree q target h := by
    unfold node? at h
    split at h <;> cases h
  inode_lt q i h := by
    unfold node? at h
    split at h <;> cases h

theorem node?_root (fs : Files) : fs.node? [] = some .directory := if_pos rfl

theorem IsTree.node?_of_append (h : fs.IsTree) {e : Place} (hnode : fs.node? (d ++ e) = some node)
    (hdir : node = .directory) : fs.node? d = some .directory := by
  subst hdir
  induction e using List.reverseRecOn with
  | nil => simpa using hnode
  | append_singleton e m ih =>
    rw [← List.append_assoc] at hnode
    exact ih (h.parent _ _ _ hnode)

theorem IsTree.node?_of_leads (h : fs.IsTree) {k l : Nat} {d' : Place}
    (hd : fs.node? d = some .directory) (hw : fs.Leads k d q l (.here d')) :
    fs.node? d' = some .directory := by
  generalize hdest : Destination.here d' = dest at hw
  induction hw with
  | here =>
    cases hdest
    exact hd
  | idle _ _ ih => exact ih hd hdest
  | @up k l d _ _ _ ih =>
    refine ih ?_ hdest
    rcases List.eq_nil_or_concat' d with rfl | ⟨d, m, rfl⟩
    · exact hd
    · rw [List.dropLast_concat]
      exact h.parent _ _ _ hd
  | directory hc _ ih => exact ih (child?_eq_some_iff.1 hc).2 hdest
  | link hc => exact absurd (child?_eq_some_iff.1 hc).2 (h.linkFree _ _)
  | file | missing => cases hdest

theorem IsTree.node?_of_walk (h : fs.IsTree) (hw : fs.walk q = .ok d) :
    fs.node? d = some .directory := by
  obtain ⟨l, hl⟩ := walk_eq_ok_iff.1 hw
  exact h.node?_of_leads (node?_root fs) hl

theorem IsTree.setNode (h : fs.IsTree) (hd : fs.node? d = some .directory)
    (hnew : fs.node? (d ++ [n]) = none) :
    (fs.setNode (d ++ [n]) .directory).IsTree where
  parent d' m node hnode := by
    have habove : fs.node? d' = some .directory := by
      rw [node?_setNode] at hnode
      split_ifs at hnode with hplace
      · rw [(List.append_inj' hplace rfl).1]
        exact hd
      · exact h.parent _ _ _ hnode
    exact keeps_setNode hnew _ _ habove
  linkFree q target := by
    rw [node?_setNode]
    split_ifs
    · exact nofun
    · exact h.linkFree q target
  inode_lt q i hnode := by
    rw [node?_setNode] at hnode
    split_ifs at hnode
    · cases hnode
    · exact h.inode_lt q i hnode

/-! ## Making directories -/

theorem LinkFree.eq_of_leads (hlink : fs.LinkFree) {k l : Nat} {d' : Place} (hup : .up ∉ q)
    (hw : fs.Leads k d q l (.here d')) : d' = d ++ q.names := by
  generalize hdest : Destination.here d' = dest at hw
  induction hw with
  | here =>
    cases hdest
    exact (List.append_nil _).symm
  | @idle _ _ _ _ _ part hidle _ ih =>
    rw [ih (fun h => hup (List.mem_cons_of_mem _ h)) hdest]
    cases part with
    | blank | dot => rfl
    | up | name n => cases hidle
  | up => exact absurd List.mem_cons_self hup
  | directory _ _ ih =>
    rw [ih (fun h => hup (List.mem_cons_of_mem _ h)) hdest, List.append_assoc]
    rfl
  | link hc => exact absurd (child?_eq_some_iff.1 hc).2 (hlink _ _)
  | file | missing => cases hdest

/-- A path that never goes up leads to every directory that it leads to among other files. -/
theorem IsTree.leads (h : fs.IsTree) (hlink : fs'.LinkFree) {k l : Nat} {d' : Place}
    (hup : .up ∉ q) (hw : fs'.Leads k d q l (.here d')) (hd' : fs.node? d' = some .directory) :
    fs.Leads k d q l (.here d') := by
  generalize hdest : Destination.here d' = dest at hw
  induction hw with
  | here k d => exact .here k d
  | idle hidle _ ih => exact .idle hidle (ih (fun h => hup (List.mem_cons_of_mem _ h)) hdest)
  | up => exact absurd List.mem_cons_self hup
  | @directory _ _ d n q _ hc hw ih =>
    have hup' : .up ∉ q := fun h => hup (List.mem_cons_of_mem _ h)
    subst hdest
    have hnode : fs.node? (d ++ [n]) = some .directory := by
      rw [hlink.eq_of_leads hup' hw] at hd'
      exact h.node?_of_append hd' rfl
    exact .directory (child?_eq_some_iff.2 ⟨(child?_eq_some_iff.1 hc).1, hnode⟩) (ih hup' rfl)
  | link hc => exact absurd (child?_eq_some_iff.1 hc).2 (hlink _ _)
  | file | missing => cases hdest

theorem makeDirectory_eq_ok (h : fs.makeDirectory p = .ok fs') :
    ∃ d n slash, fs.locate p = .ok (.entry d n slash) ∧ fs.node? (d ++ [n]) = none ∧
      fs' = fs.setNode (d ++ [n]) .directory := by
  unfold makeDirectory at h
  cases hl : fs.locate p with
  | error fault => simp [hl, bind, Except.bind] at h
  | ok dest =>
    cases dest with
    | here d => simp [hl, bind, Except.bind] at h
    | entry d n slash =>
      cases hc : fs.child? d n with
      | error fault => simp [hl, hc, bind, Except.bind] at h
      | ok node? =>
        cases node? with
        | some node => simp [hl, hc, bind, Except.bind] at h
        | none =>
          refine ⟨d, n, slash, rfl, (child?_eq_none_iff.1 hc).2, ?_⟩
          simpa [hl, hc, bind, Except.bind, eq_comm] using h

/-! ### Moments -/

/-- The files after each step of making the first of some directories. -/
def ensureMoments (fs : Files) : List FilePath → List Files
  | [] => [fs]
  | p :: above =>
    match fs.ensureDirectory p with
    | .error .notFound =>
      fs.ensureMoments above ++
        match fs.ensureFirst above with
        | (fs, .ok ()) => [(fs.attempt (fs.ensureDirectory p)).1]
        | _ => []
    | r => [(fs.attempt r).1]

theorem getLast?_ensureMoments (fs : Files) (ps : List FilePath) :
    (fs.ensureMoments ps).getLast? = some (fs.ensureFirst ps).1 := by
  induction ps generalizing fs with
  | nil => rfl
  | cons p above ih =>
    rw [ensureMoments, ensureFirst]
    cases hensure : fs.ensureDirectory p with
    | ok fs₁ => rfl
    | error fault =>
      cases fault with
      | notFound =>
        show List.getLast? (_ ++ _) = _
        rw [List.getLast?_append, ih]
        rcases fs.ensureFirst above with ⟨fs₁, _ | _⟩ <;> rfl
      | _ => rfl

/-- What making any one of the directories keeps holds at every moment. -/
theorem of_mem_ensureMoments {R : Files → Prop} {ps : List FilePath} (h : R fs)
    (hstep : ∀ p ∈ ps, ∀ fs fs', R fs → fs.makeDirectory p = .ok fs' → R fs') :
    ∀ fs' ∈ fs.ensureMoments ps, R fs' := by
  have hensure (fs : Files) (p : FilePath) (hp : p ∈ ps) (h : R fs) :
      R (fs.attempt (fs.ensureDirectory p)).1 := by
    unfold ensureDirectory
    cases hmake : fs.makeDirectory p with
    | ok fs₁ => exact hstep p hp fs fs₁ h hmake
    | error fault =>
      cases fault with
      | alreadyExists =>
        show R (fs.attempt (if fs.isDirectory p then .ok fs else _)).1
        split_ifs <;> exact h
      | _ => exact h
  clear hstep
  induction ps with
  | nil => exact List.forall_mem_singleton.2 h
  | cons p above ih =>
    have ih := ih fun fs p hp => hensure fs p (List.mem_cons_of_mem _ hp)
    intro fs' hfs'
    rw [ensureMoments] at hfs'
    split at hfs'
    · rcases List.mem_append.1 hfs' with hmem | hmem
      · exact ih fs' hmem
      · split at hmem
        · rename_i fs₁ hfirst
          have hlast := getLast?_ensureMoments fs above
          rw [hfirst] at hlast
          rw [List.mem_singleton.1 hmem]
          exact hensure fs₁ p List.mem_cons_self (ih fs₁ (List.mem_of_getLast? hlast))
        · cases hmem
    · rw [List.mem_singleton.1 hfs']
      exact hensure fs p List.mem_cons_self h

theorem IsTree.of_makeDirectory (h : fs.IsTree) (hmake : fs.makeDirectory p = .ok fs') :
    fs'.IsTree := by
  obtain ⟨d, n, slash, hl, hnew, rfl⟩ := makeDirectory_eq_ok hmake
  exact h.setNode (h.node?_of_walk (locate_eq_entry_iff.1 hl).2.2.1) hnew

theorem IsTree.of_makeDirectories (h : fs.IsTree) (p : FilePath) :
    (fs.makeDirectories p).1.IsTree :=
  of_mem_ensureMoments h (fun _ _ _ _ => IsTree.of_makeDirectory) _
    (List.mem_of_getLast? (getLast?_ensureMoments fs _))

/-! ### Directories made elsewhere -/

/-- Directories are made, but none at a place. -/
structure Spares (x : Place) (fs fs' : Files) : Prop where
  keeps : Keeps fs fs'
  node? : fs'.node? x = fs.node? x
  contents : fs'.contents = fs.contents

theorem Spares.refl (x : Place) (fs : Files) : Spares x fs fs := ⟨.refl fs, rfl, rfl⟩

theorem Spares.trans {fs₁ fs₂ fs₃ : Files} (h : Spares x fs₁ fs₂) (h' : Spares x fs₂ fs₃) :
    Spares x fs₁ fs₃ :=
  ⟨h.keeps.trans h'.keeps, h'.node?.trans h.node?, h'.contents.trans h.contents⟩

variable {a b : FilePath}

/-- A name that is free in its directory is not on a path that can be walked. -/
theorem LinkFree.not_prefix_of_walk (hlink : fs.LinkFree) {u : FilePath} {d' : Place} {m : String}
    (ha : fs.walk a = .ok d) (hu : fs.walk u = .ok d') (hnew : fs.node? (d' ++ [m]) = none) :
    ¬ u ++ [.name m] <+: a := by
  rintro ⟨e, rfl⟩
  obtain ⟨k, ha⟩ := walk_eq_ok_iff.1 ha
  obtain ⟨l, x, hx, -⟩ := leads_append_here_iff.1 ha
  obtain ⟨d₂, hd₂, hc, -⟩ := hlink.walk_concat_iff.1 (walk_eq_ok_iff.2 ⟨l, hx⟩)
  rw [hu] at hd₂
  cases hd₂
  rw [(child?_eq_some_iff.1 hc).2] at hnew
  cases hnew

/-- Behind a directory that a path leads to the names are added that come after. -/
theorem LinkFree.eq_of_walk_append (hlink : fs.LinkFree) {b : FilePath} {d' : Place}
    (ha : fs.walk a = .ok d) (hup : .up ∉ b) (hw : fs.walk (a ++ b) = .ok d') :
    d' = d ++ b.names ∧ fs.Leads 0 d b 0 (.here d') := by
  obtain ⟨l, e, hae, hb⟩ := leads_append_here_iff.1 (hlink.walk_iff.1 hw)
  obtain ⟨rfl, -⟩ := hlink.leads_iff.1 hae
  obtain rfl : e = d := by
    have heq := ((hlink.walk_iff.1 ha).unique hae).1
    cases heq
    rfl
  exact ⟨hlink.eq_of_leads hup hb, hb⟩

/-- Names that go down from a directory lead to a place below each place on the way. -/
theorem LinkFree.place_ne_of_prefix (hlink : fs.LinkFree) {u : FilePath} {d' : Place} {m : String}
    (ha : fs.walk a = .ok d) (hup : .up ∉ b) (hu : fs.walk u = .ok d')
    (hon : u ++ [.name m] <+: a ++ b) (hmissing : ¬ u ++ [.name m] <+: a) :
    d' ++ [m] ≠ d ++ b.names ++ [n] := by
  obtain ⟨b', hb'⟩ : a <+: u ++ [.name m] :=
    (List.prefix_or_prefix_of_prefix hon (List.prefix_append a b)).resolve_left hmissing
  rcases List.eq_nil_or_concat' b' with rfl | ⟨b', part, rfl⟩
  · rw [List.append_nil] at hb'
    exact absurd (hb' ▸ List.prefix_rfl) hmissing
  · rw [← List.append_assoc] at hb'
    obtain ⟨rfl, hpart⟩ := List.append_inj' hb' rfl
    cases hpart
    obtain ⟨e, rfl⟩ : b' ++ [.name m] <+: b := by
      rwa [List.append_assoc, List.prefix_append_right_inj] at hon
    rw [List.append_assoc, List.mem_append, not_or] at hup
    rw [(hlink.eq_of_walk_append ha hup.1 hu).1]
    intro heq
    have hlength := congrArg List.length heq
    simp only [FilePath.names, List.filterMap_append, List.filterMap_cons, List.filterMap_nil,
      List.length_append, List.length_cons, List.length_nil] at hlength
    omega

/-- If a path goes up at most within directories that are there, then making directories on its way
does not make one where it leads. -/
theorem LinkFree.spares_of_makeDirectory (hlink : fs.LinkFree) (ha : fs.walk a = .ok d)
    (hup : .up ∉ b) {r : FilePath} (hr : r <+: a ++ b) (h : fs.makeDirectory r = .ok fs') :
    Spares (d ++ b.names ++ [n]) fs fs' := by
  obtain ⟨d', m, slash, hl, hnew, rfl⟩ := makeDirectory_eq_ok h
  obtain ⟨-, hlast, hw, -⟩ := locate_eq_entry_iff.1 hl
  have hsplit : r.unslashed.dropLast ++ [.name m] = r.unslashed :=
    List.dropLast_append_getLast? _ hlast
  have hprefix : r.unslashed.dropLast ++ [.name m] <+: a ++ b := by
    rw [hsplit]
    exact (List.rdropWhile_prefix _ r).trans hr
  have hplace : d' ++ [m] ≠ d ++ b.names ++ [n] :=
    hlink.place_ne_of_prefix ha hup hw hprefix (hlink.not_prefix_of_walk ha hw hnew)
  exact ⟨keeps_setNode hnew, by rw [node?_setNode, if_neg (Ne.symm hplace)], rfl⟩

theorem IsTree.spares_of_mem_ensureMoments (htree : fs.IsTree) (ha : fs.walk a = .ok d)
    (hup : .up ∉ b) {rs : List FilePath} (hrs : ∀ r ∈ rs, r <+: a ++ b)
    (h : fs' ∈ fs.ensureMoments rs) : Spares (d ++ b.names ++ [n]) fs fs' := by
  suffices h : Spares (d ++ b.names ++ [n]) fs fs' ∧ fs'.IsTree from h.1
  refine of_mem_ensureMoments (R := fun fs' => Spares (d ++ b.names ++ [n]) fs fs' ∧ fs'.IsTree)
    ⟨Spares.refl _ fs, htree⟩ (fun r hr fs₁ fs₂ h₁ hmake => ?_) fs' h
  have ha₁ : fs₁.walk a = .ok d := walk_of_keeps h₁.1.keeps.ways ha
  exact ⟨h₁.1.trans (h₁.2.linkFree.spares_of_makeDirectory ha₁ hup (hrs r hr) hmake),
    h₁.2.of_makeDirectory hmake⟩

/-- Directories that are made elsewhere are not seen at a path that goes up at most within
directories that were there before. -/
theorem Spares.status (h : Spares (d ++ b.names ++ [n]) fs fs') (htree : fs.IsTree)
    (htree' : fs'.IsTree) (ha : fs.walk a = .ok d) (hup : .up ∉ b)
    (hp : p.trimmed = a ++ b ++ [.name n]) (node : FileNode) :
    fs.status p = .ok node ↔ fs'.status p = .ok node := by
  refine status_congr htree.linkFree htree'.linkFree hp (fun node => ⟨?_, ?_⟩) node
  · rintro ⟨d', hw, hnode⟩
    exact ⟨d', walk_of_keeps h.keeps.ways hw, h.keeps _ _ hnode⟩
  · rintro ⟨d', hw, hnode⟩
    have ha' : fs'.walk a = .ok d := walk_of_keeps h.keeps.ways ha
    obtain ⟨hplace, hb⟩ := htree'.linkFree.eq_of_walk_append ha' hup hw
    have hnode' : fs.node? (d' ++ [n]) = some node := by
      rw [hplace, ← h.node?, ← hplace]
      exact hnode
    have hb' := htree.leads htree'.linkFree hup hb (htree.parent _ _ _ hnode')
    refine ⟨d', htree.linkFree.walk_iff.2 ?_, hnode'⟩
    exact leads_append_here_iff.2 ⟨0, d, htree.linkFree.walk_iff.1 ha, hb'⟩

/-! ## Writing -/

theorem exists_inodeOrNew_of_write {b : Bytes} (h : fs.write p b = .ok fs') :
    ∃ r, fs.inodeOrNew p = .ok r ∧ r.2.setBytes r.1 b = fs' := by
  rw [write] at h
  cases hnew : fs.inodeOrNew p with
  | error fault => rw [hnew] at h; cases h
  | ok r => exact ⟨r, rfl, by simpa [hnew, bind, Except.bind, pure, Except.pure] using h⟩

/-- Without links, writing is to the very place that the path is located at. -/
theorem write_eq_ok (hlink : fs.LinkFree) {b : Bytes}
    (h : fs.write p b = .ok fs') :
    ∃ d n i, fs.locate p = .ok (.entry d n false) ∧ n.utf8ByteSize ≤ maxName ∧
      (fs.node? (d ++ [n]) = some (.file i) ∧ fs' = fs.setBytes i b ∨
        fs.node? (d ++ [n]) = none ∧ i = fs.nextInode ∧
          fs' = (fs.withNewFile (d ++ [n])).setBytes i b) := by
  obtain ⟨⟨i, fs₁⟩, hnew, rfl⟩ := exists_inodeOrNew_of_write h
  obtain ⟨d, n, dest, hl, ⟨k, l, hlast⟩, hnew⟩ := inodeOrNew_cases hnew
  refine ⟨d, n, i, hl, hlast.size_le, ?_⟩
  cases hlast with
  | idle hidle => cases hidle
  | directory _ h =>
    cases h
    cases hnew
  | link hc => exact absurd (child?_eq_some_iff.1 hc).2 (hlink _ _)
  | file hc =>
    simp [standingOrNew, hc, bind, Except.bind] at hnew
    obtain ⟨rfl, rfl⟩ := hnew
    exact .inl ⟨(child?_eq_some_iff.1 hc).2, rfl⟩
  | missing hc =>
    simp [standingOrNew, hc, bind, Except.bind] at hnew
    obtain ⟨rfl, rfl⟩ := hnew
    exact .inr ⟨(child?_eq_none_iff.1 hc).2, rfl, rfl⟩

theorem bytes_setBytes (fs : Files) (i j : Nat) (b : Bytes) :
    (fs.setBytes i b).bytes j = if j = i then b else fs.bytes j := by
  unfold bytes setBytes
  by_cases h : j = i
  · simp [h]
  · have hbeq : (j == i) = false := by simpa using h
    simp [h, hbeq, List.lookup_cons]

theorem walk_withNewFile_iff {d' : Place} (hnew : fs.node? (d ++ [n]) = none) :
    (fs.withNewFile (d ++ [n])).walk q = .ok d' ↔ fs.walk q = .ok d' :=
  ⟨walk_of_keeps (keepsWays_of_withNewFile fs d n), walk_of_keeps (keeps_withNewFile hnew).ways⟩

theorem keeps_setBytes (fs : Files) (i : Nat) (b : Bytes) : Keeps fs (fs.setBytes i b) :=
  fun _ _ h => h

theorem walk_setBytes_iff {b : Bytes} : (fs.setBytes i b).walk q = .ok d ↔ fs.walk q = .ok d :=
  have hback : Keeps (fs.setBytes i b) fs := fun _ _ h => h
  ⟨walk_of_keeps hback.ways, walk_of_keeps (keeps_setBytes fs i b).ways⟩

theorem IsTree.withNewFile (h : fs.IsTree) (hd : fs.node? d = some .directory)
    (hnew : fs.node? (d ++ [n]) = none) : (fs.withNewFile (d ++ [n])).IsTree where
  parent d' m node hnode := by
    have habove : fs.node? d' = some .directory := by
      rw [node?_withNewFile] at hnode
      split_ifs at hnode with hplace
      · rw [(List.append_inj' hplace rfl).1]
        exact hd
      · exact h.parent _ _ _ hnode
    exact keeps_withNewFile hnew _ _ habove
  linkFree q target := by
    rw [node?_withNewFile]
    split_ifs
    · exact nofun
    · exact h.linkFree q target
  inode_lt q i hnode := by
    rw [node?_withNewFile] at hnode
    split_ifs at hnode
    · cases hnode
      exact Nat.lt_succ_self _
    · exact Nat.lt_succ_of_lt (h.inode_lt q i hnode)

/-- After writing, the path leads to a file with the bytes written: the one that it led to before,
or a new one. The bytes of others are as they were. -/
theorem status_self_of_write (htree : fs.IsTree) {b : Bytes} (h : fs.write p b = .ok fs') :
    fs'.IsTree ∧ ∃ i, fs'.status p = .ok (.file i) ∧ fs'.bytes i = b ∧
      (fs.status p = .ok (.file i) ∨ i = fs.nextInode) ∧
      ∀ j, j ≠ i → fs'.bytes j = fs.bytes j := by
  obtain ⟨d, n, i, hl, hsize, hcase⟩ := write_eq_ok htree.linkFree h
  have hbytes (fs : Files) : (fs.setBytes i b).bytes i = b ∧
      ∀ j, j ≠ i → (fs.setBytes i b).bytes j = fs.bytes j :=
    ⟨by rw [bytes_setBytes, if_pos rfl], fun j hj => by rw [bytes_setBytes, if_neg hj]⟩
  rcases hcase with ⟨hnode, rfl⟩ | ⟨hnew, rfl, rfl⟩
  · have hl' := locate_of_keeps (keeps_setBytes fs i b).ways hl
    exact ⟨⟨htree.parent, htree.linkFree, htree.inode_lt⟩, i, status_of_file hl' hsize hnode,
      (hbytes fs).1, .inl (status_of_file hl hsize hnode), (hbytes fs).2⟩
  · have hdir : fs.node? d = some .directory :=
      htree.node?_of_walk (locate_eq_entry_iff.1 hl).2.2.1
    have hmade := htree.withNewFile hdir hnew
    have hkept := (keeps_withNewFile hnew).trans (keeps_setBytes _ fs.nextInode b)
    have hl' := locate_of_keeps hkept.ways hl
    have hnode : (fs.withNewFile (d ++ [n])).node? (d ++ [n]) = some (.file fs.nextInode) := by
      rw [node?_withNewFile, if_pos rfl]
    exact ⟨⟨hmade.parent, hmade.linkFree, hmade.inode_lt⟩, fs.nextInode,
      status_of_file hl' hsize hnode, (hbytes _).1, .inr rfl, (hbytes _).2⟩

theorem occupant_self_of_write (htree : fs.IsTree) {b : Bytes} (h : fs.write p b = .ok fs') :
    fs'.occupant p = .file b := by
  obtain ⟨-, i, hstatus, hbytes, -⟩ := status_self_of_write htree h
  rw [occupant, hstatus]
  exact congrArg Occupant.file hbytes

theorem status_of_write (htree : fs.IsTree) {m : String} {b : Bytes}
    (h : fs.write (q ++ [.name m]) b = .ok fs') (hp : p.trimmed = q ++ [.name n]) (hne : m ≠ n)
    (node : FileNode) : fs.status p = .ok node ↔ fs'.status p = .ok node := by
  have htree' := (status_self_of_write htree h).1
  obtain ⟨d, m', i, hl, -, hcase⟩ := write_eq_ok htree.linkFree h
  obtain ⟨-, rfl, -⟩ := locate_name_iff.1 hl
  refine status_congr htree.linkFree htree'.linkFree hp (fun node => ?_) node
  rcases hcase with ⟨-, rfl⟩ | ⟨hnew, -, rfl⟩
  · simp only [walk_setBytes_iff]
    exact Iff.rfl
  · have hentry (d' : Place) : (fs.withNewFile (d ++ [m'])).node? (d' ++ [n]) =
        fs.node? (d' ++ [n]) := by
      rw [node?_withNewFile, if_neg]
      intro heq
      exact hne (List.append_singleton_inj.1 heq).2.symm
    simp only [walk_setBytes_iff, walk_withNewFile_iff hnew, ← hentry]
    exact Iff.rfl

/-- Two paths do not lead to the same file. -/
def Apart (fs : Files) (t p : FilePath) : Prop :=
  ∀ i, fs.status t = .ok (.file i) → fs.status p ≠ .ok (.file i)

/-- Writing to one name of a directory is not seen at another, unless they are names of one
file. -/
theorem occupant_of_write (htree : fs.IsTree) {m : String} {b : Bytes}
    (h : fs.write (q ++ [.name m]) b = .ok fs') (hp : p.trimmed = q ++ [.name n]) (hne : m ≠ n)
    (hapart : fs.Apart (q ++ [.name m]) p) :
    fs'.occupant p = fs.occupant p ∧ fs'.Apart (q ++ [.name m]) p := by
  obtain ⟨-, i, hfile, -, hi, hbytes⟩ := status_self_of_write htree h
  have hother : fs.status p ≠ .ok (.file i) := by
    rcases hi with hi | rfl
    · exact hapart i hi
    · intro hp'
      obtain ⟨-, -, ⟨d, -, hnode⟩, -⟩ := (status_eq_ok_iff htree.linkFree hp).1 hp'
      exact Nat.lt_irrefl _ (htree.inode_lt _ _ hnode)
  refine ⟨occupant_congr (status_of_write htree h hp hne) fun j hj => hbytes j ?_, ?_⟩
  · rintro rfl
    exact hother hj
  · intro j hj
    rw [hfile] at hj
    cases hj
    exact fun hp' => hother ((status_of_write htree h hp hne _).2 hp')

/-! ## Moving -/

theorem rename_eq_ok (hlink : fs.LinkFree) {t : FilePath}
    (h : fs.rename t p = .ok fs') :
    ∃ d m d' n i, fs.locate t = .ok (.entry d m false) ∧
      fs.locate p = .ok (.entry d' n false) ∧ n.utf8ByteSize ≤ maxName ∧
      fs.node? (d ++ [m]) = some (.file i) ∧ fs.node? (d' ++ [n]) ≠ some .directory ∧
      fs' = if d ++ [m] = d' ++ [n] then fs
        else (fs.eraseNode (d ++ [m])).setNode (d' ++ [n]) (.file i) := by
  unfold rename at h
  cases hl : fs.locate t with
  | error fault => simp [hl, bind, Except.bind] at h
  | ok dest =>
    cases hl' : fs.locate p with
    | error fault => simp [hl, hl', bind, Except.bind] at h
    | ok dest' =>
      rcases dest with ⟨d, m, s⟩ | d
      · rcases dest' with ⟨d', n, s'⟩ | d'
        · cases hc : fs.child? d m with
          | error fault => simp [hl, hl', hc, bind, Except.bind] at h
          | ok node? =>
            cases hc' : fs.child? d' n with
            | error fault => simp [hl, hl', hc, hc', bind, Except.bind] at h
            | ok old =>
              have hold : n.utf8ByteSize ≤ maxName ∧ fs.node? (d' ++ [n]) = old := by
                cases old with
                | none => exact child?_eq_none_iff.1 hc'
                | some node => exact child?_eq_some_iff.1 hc'
              rcases node? with _ | (i | _ | target)
              · simp [hl, hl', hc, hc', bind, Except.bind] at h
              · simp only [hl, hl', hc, hc', bind, Except.bind] at h
                split_ifs at h with hslash hdir hsame <;> cases h <;>
                  simp only [Bool.or_eq_true, not_or, Bool.not_eq_true] at hslash <;>
                  obtain ⟨rfl, rfl⟩ := hslash
                · exact ⟨d, m, d', n, i, rfl, rfl, hold.1, (child?_eq_some_iff.1 hc).2,
                    hold.2 ▸ hdir, (if_pos hsame).symm⟩
                · exact ⟨d, m, d', n, i, rfl, rfl, hold.1, (child?_eq_some_iff.1 hc).2,
                    hold.2 ▸ hdir, (if_neg hsame).symm⟩
              · simp [hl, hl', hc, hc', bind, Except.bind] at h
              · exact absurd (child?_eq_some_iff.1 hc).2 (hlink _ _)
        · simp [hl, hl', bind, Except.bind] at h
      · simp [hl, hl', bind, Except.bind] at h

theorem occupant_of_entry (hl : fs.locate p = .ok (.entry d n false))
    (hsize : n.utf8ByteSize ≤ maxName) (hnode : fs.node? (d ++ [n]) = some (.file i)) :
    fs.occupant p = .file (fs.bytes i) := by
  rw [occupant, status_of_file hl hsize hnode]

theorem LinkFree.not_enterable (hlink : fs.LinkFree)
    (hnot : fs.node? (d ++ [n]) ≠ some .directory) : ¬ fs.Enterable d n := by
  rintro ⟨k, l, e, h⟩
  obtain ⟨-, hc, -⟩ := hlink.leads_name_iff.1 (leads_of_resolveFrom h)
  exact hnot (child?_eq_some_iff.1 hc).2

/-- A file that is moved takes no other way with it than those by the entry in whose place it
comes. -/
theorem keepsWays_moved {m : String} (hfile : fs.node? (d ++ [m]) = some (.file i)) (d' : Place)
    (n : String) : KeepsWays (fs.eraseNode (d' ++ [n]))
      ((fs.eraseNode (d ++ [m])).setNode (d' ++ [n]) (.file i)) := by
  refine keepsWays_of_kept fun x k node hn henter => ?_
  rw [node?_eraseNode] at hn
  split at hn
  · cases hn
  · rename_i hne
    rw [node?_setNode, if_neg hne, node?_eraseNode, if_neg]
    · exact hn
    · intro heq
      obtain ⟨rfl, rfl⟩ := List.append_singleton_inj.1 heq
      refine not_enterable_of_file (i := i) ?_ henter
      rw [node?_eraseNode, if_neg hne, hfile]

theorem occupant_of_rename (htree : fs.IsTree) {t : FilePath} {b : Bytes}
    (ht : fs.occupant t = .file b) (h : fs.rename t p = .ok fs') : fs'.occupant p = .file b := by
  obtain ⟨d, m, d', n, i, hl, hl', hsize, hnode, hnot, rfl⟩ := rename_eq_ok htree.linkFree h
  obtain rfl : b = fs.bytes i := by
    obtain ⟨j, hstatus, hb⟩ := occupant_eq_file_iff.1 ht
    obtain ⟨_, _, _, -, hl₁, -, hc⟩ := exists_locate_of_file htree.linkFree hstatus
    rw [hl] at hl₁
    cases hl₁
    rw [(child?_eq_some_iff.1 hc).2] at hnode
    cases hnode
    exact hb
  split_ifs with hsame
  · rw [hsame] at hnode
    exact occupant_of_entry hl' hsize hnode
  · have hmoved : ((fs.eraseNode (d ++ [m])).setNode (d' ++ [n]) (.file i)).node? (d' ++ [n]) =
        some (.file i) := by
      rw [node?_setNode, if_pos rfl]
    have hways := (keepsWays_eraseNode (htree.linkFree.not_enterable hnot)).trans
      (keepsWays_moved hnode d' n)
    exact occupant_of_entry (locate_of_keeps hways hl') hsize hmoved

/-! ## Replacing -/

/-- A file with some bytes stands at an entry, and all else is as it was, but for the bytes of what
was there. -/
structure Written (fs : Files) (d : Place) (m : String) (b : Bytes) (fs' : Files) : Prop where
  ways : KeepsWays fs fs'
  file : ∃ i, fs'.node? (d ++ [m]) = some (.file i) ∧ fs'.bytes i = b
  others : ∀ x, x ≠ d ++ [m] → fs'.node? x = fs.node? x

variable {m : String}

/-- In a directory that a path leads to a file can be written, if neither a directory nor a link
is in its place. -/
theorem exists_written (hl : fs.locate p = .ok (.entry d m false))
    (hsize : m.utf8ByteSize ≤ maxName)
    (hentry : ∀ node, fs.node? (d ++ [m]) = some node → ∃ i, node = .file i) (b : Bytes) :
    ∃ fs', fs.write p b = .ok fs' ∧ Written fs d m b fs' := by
  have hbytes (fs : Files) (i : Nat) : (fs.setBytes i b).bytes i = b := by
    rw [bytes_setBytes, if_pos rfl]
  cases hn : fs.node? (d ++ [m]) with
  | none =>
    have hnew := inodeOrNew_of_missing hl (child?_eq_none_iff.2 ⟨hsize, hn⟩)
    refine ⟨(fs.withNewFile (d ++ [m])).setBytes fs.nextInode b, ?_, ?_⟩
    · simp [write, hnew, bind, Except.bind, pure, Except.pure]
    · refine ⟨((keeps_withNewFile hn).trans (keeps_setBytes _ _ b)).ways,
        ⟨fs.nextInode, ?_, hbytes _ _⟩, fun x hx => ?_⟩
      · exact (node?_withNewFile fs d m _).trans (if_pos rfl)
      · exact (node?_withNewFile fs d m x).trans (if_neg hx)
  | some node =>
    obtain ⟨i, rfl⟩ := hentry node hn
    have hold := inodeOrNew_of_inode (inode_of_file hl hsize hn)
    refine ⟨fs.setBytes i b, ?_, ?_⟩
    · simp [write, hold, bind, Except.bind, pure, Except.pure]
    · exact ⟨(keeps_setBytes fs i b).ways, ⟨i, hn, hbytes fs i⟩, fun _ _ => rfl⟩

/-- The ways that do without an entry stay as well, since none of them comes by the file. -/
theorem Written.ways_eraseNode {b : Bytes} (h : Written fs d m b fs')
    (hentry : ∀ node, fs.node? (d ++ [m]) = some node → ∃ i, node = .file i) (d' : Place)
    (n : String) : KeepsWays (fs.eraseNode (d' ++ [n])) (fs'.eraseNode (d' ++ [n])) := by
  refine keepsWays_of_kept fun x k node hn henter => ?_
  have hnode := hn
  rw [node?_eraseNode] at hn ⊢
  split at hn
  · cases hn
  · rename_i hne
    rw [if_neg hne, h.others]
    · exact hn
    · intro heq
      obtain ⟨i, rfl⟩ := hentry node (heq ▸ hn)
      exact not_enterable_of_file hnode henter

/-- A file can be moved to another name of its directory, where no directory stands and the path
does without what does, and stands there then. -/
theorem exists_moved {b : Bytes} (hfile : fs.node? (d ++ [m]) = some (.file i))
    (hbytes : fs.bytes i = b) (hne : m ≠ n) {t : FilePath}
    (ht : fs.locate t = .ok (.entry d m false)) (hsize : m.utf8ByteSize ≤ maxName)
    (hp : fs.locate p = .ok (.entry d n false)) (hsize' : n.utf8ByteSize ≤ maxName)
    (hold : fs.node? (d ++ [n]) ≠ some .directory)
    (hstay : (fs.eraseNode (d ++ [n])).locate p = .ok (.entry d n false)) :
    ∃ fs', fs.rename t p = .ok fs' ∧ fs'.occupant p = .file b := by
  have hc : fs.child? d m = .ok (some (.file i)) := child?_eq_some_iff.2 ⟨hsize, hfile⟩
  have hc' : fs.child? d n = .ok (fs.node? (d ++ [n])) := if_neg (Nat.not_lt.2 hsize')
  have hother : d ++ [m] ≠ d ++ [n] := fun h => hne (List.append_singleton_inj.1 h).2
  refine ⟨(fs.eraseNode (d ++ [m])).setNode (d ++ [n]) (.file i), ?_, ?_⟩
  · simp only [rename, ht, hp, hc, hc', bind, Except.bind]
    rw [if_neg (by decide), if_neg hold, if_neg hother]
  · have hmoved : ((fs.eraseNode (d ++ [m])).setNode (d ++ [n]) (.file i)).node? (d ++ [n]) =
        some (.file i) := by
      rw [node?_setNode, if_pos rfl]
    rw [← hbytes]
    exact occupant_of_entry (locate_of_keeps (keepsWays_moved hfile d n) hstay) hsize' hmoved

end Files

end Upkeep
