import Upkeep.Proofs.Association
import Upkeep.Proofs.Files.Ways

/-!
# Where paths lead when entries come and go

A path that leads to a plain file goes on leading there when entries are added (`inode_of_keeps`).
When a path is unlinked, the other paths of its directory go on leading to the files that it does
not lead to itself (`inode_of_unlink`): the way to the directory stays if the entry is no link that
can be entered (`Clearable`), and in the directory both paths have the same number of links left.

A file is made where nothing is (`inodeOrNew_of_missing`). It can be entered from nowhere, so no
other path comes to lead anywhere that it did not (`inode_withNewFile`).
-/

namespace Upkeep.Files

variable {fs fs' : Files} {k l : Nat} {d : Place} {n : String} {p q : FilePath} {i : Nat}

/-! ## Entries that are added -/

/-- Every entry of the first files is one of the second. -/
def Keeps (fs fs' : Files) : Prop := ∀ q n, fs.node? q = some n → fs'.node? q = some n

theorem Keeps.refl (fs : Files) : Keeps fs fs := fun _ _ h => h

theorem Keeps.trans {fs₁ fs₂ fs₃ : Files} (h : Keeps fs₁ fs₂) (h' : Keeps fs₂ fs₃) :
    Keeps fs₁ fs₃ :=
  fun q n hq => h' q n (h q n hq)

theorem Keeps.ways (h : Keeps fs fs') : KeepsWays fs fs' :=
  keepsWays_of_kept fun d n node hn _ => h (d ++ [n]) node hn

/-- A path goes on leading to a file if the entries stay that lead there. -/
theorem inode_of_kept (hp : fs.inode p = .ok i)
    (kept : ∀ d n node, fs.node? (d ++ [n]) = some node →
      (fs.Enterable d n ∨ ∃ k l e a, fs.Leads k d [.name n] l (.entry e a false) ∧
        fs.child? e a = .ok (some (.file i))) → fs'.node? (d ++ [n]) = some node) :
    fs'.inode p = .ok i := by
  rw [inode_eq_ok_iff] at hp ⊢
  obtain ⟨htext, l, e, a, hway, hc⟩ := hp
  have hc' : fs'.child? e a = .ok (some (.file i)) := by
    obtain ⟨hsize, hn⟩ := child?_eq_some_iff.1 hc
    exact child?_eq_some_iff.2 ⟨hsize, kept e a _ hn (.inr ⟨0, 0, e, a, .file hc nofun, hc⟩)⟩
  refine ⟨htext, l, e, a, hway.of_kept ?_ fun d n node j _ hn hon => kept d n node hn ?_, hc'⟩
  · rintro _ _ _ ⟨⟩
    exact ⟨rfl, i, hc'⟩
  · exact hon.imp_right fun ⟨l', h⟩ => ⟨j, l', e, a, h, hc⟩

theorem inode_of_keeps (h : Keeps fs fs') (hp : fs.inode p = .ok i) : fs'.inode p = .ok i :=
  inode_of_kept hp fun d n node hn _ => h (d ++ [n]) node hn

theorem node?_congr (h : fs.nodes = fs'.nodes) : fs.node? = fs'.node? := by
  funext q
  unfold node?
  rw [h]

/-- Where a path leads depends on the entries alone. -/
theorem resolveFrom_congr (h : fs.nodes = fs'.nodes) : fs.resolveFrom = fs'.resolveFrom := by
  have hchild : fs.child? = fs'.child? := by
    funext d n
    rw [child?, child?, node?_congr h]
  have hadvance : fs.advance = fs'.advance := by
    funext jump k d p
    induction p generalizing d with
    | nil => rfl
    | cons part p ih => cases part <;> simp only [advance, ih, hchild]
  funext k
  induction k with
  | zero => rw [resolveFrom, resolveFrom, hadvance]
  | succ k ih => rw [resolveFrom, resolveFrom, hadvance, ih]

theorem inode_congr (h : fs.nodes = fs'.nodes) (p : FilePath) (i : Nat) :
    fs.inode p = .ok i ↔ fs'.inode p = .ok i := by
  have hnode := node?_congr h
  exact ⟨inode_of_keeps fun q n hq => hnode ▸ hq, inode_of_keeps fun q n hq => hnode ▸ hq⟩

theorem node?_setNode (fs : Files) (d : Place) (n : String) (node : FileNode) (q : Place) :
    (fs.setNode (d ++ [n]) node).node? q = if q = d ++ [n] then some node else fs.node? q := by
  unfold node? setNode
  by_cases hroot : q = []
  · have : ¬ [] = d ++ [n] := by simp
    simp [hroot]
  · by_cases hq : q = d ++ [n]
    · simp [hq]
    · have hne : (q == d ++ [n]) = false := by simp [hq]
      simp [hroot, hq, List.lookup_cons, hne]

theorem node?_eraseNode (fs : Files) (d : Place) (n : String) (q : Place) :
    (fs.eraseNode (d ++ [n])).node? q = if q = d ++ [n] then none else fs.node? q := by
  unfold node? eraseNode
  by_cases hroot : q = []
  · simp [hroot]
  · simp [hroot]

theorem keeps_setNode {node : FileNode} (h : fs.node? (d ++ [n]) = none) :
    Keeps fs (fs.setNode (d ++ [n]) node) := by
  intro q m hq
  rw [node?_setNode]
  split
  · rename_i heq
    rw [heq, h] at hq
    cases hq
  · exact hq

/-! ## Entries that are removed -/

theorem keeps_eraseNode (fs : Files) (d : Place) (n : String) :
    Keeps (fs.eraseNode (d ++ [n])) fs := by
  intro q node hq
  rw [node?_eraseNode] at hq
  split at hq
  · cases hq
  · exact hq

/-- The ways stay when an entry is removed that cannot be entered. -/
theorem keepsWays_eraseNode (h : ¬ fs.Enterable d n) :
    KeepsWays fs (fs.eraseNode (d ++ [n])) := by
  refine keepsWays_of_kept fun d' n' node hn henter => ?_
  rw [node?_eraseNode, if_neg]
  · exact hn
  · intro heq
    obtain ⟨rfl, rfl⟩ := List.append_singleton_inj.1 heq
    exact h henter

theorem unlink_eq_ok (h : fs.unlink p = .ok fs') :
    ∃ d n node, fs.locate p = .ok (.entry d n false) ∧ fs.node? (d ++ [n]) = some node ∧
      node ≠ .directory ∧ fs' = fs.eraseNode (d ++ [n]) := by
  unfold unlink at h
  cases hl : fs.locate p with
  | error fault => rw [hl] at h; cases h
  | ok dest =>
    cases dest with
    | here d => rw [hl] at h; cases h
    | entry d n slash =>
      cases hc : fs.child? d n with
      | error fault => simp [hl, hc, bind, Except.bind] at h
      | ok node? =>
        rcases node? with _ | (i | _ | target)
        · simp [hl, hc, bind, Except.bind] at h
        · cases slash <;> simp [hl, hc, bind, Except.bind] at h
          exact ⟨d, n, _, rfl, (child?_eq_some_iff.1 hc).2, by simp, h.symm⟩
        · simp [hl, hc, bind, Except.bind] at h
        · cases slash <;> simp [hl, hc, bind, Except.bind] at h
          exact ⟨d, n, _, rfl, (child?_eq_some_iff.1 hc).2, by simp, h.symm⟩

theorem keeps_of_unlink (h : fs.unlink p = .ok fs') : Keeps fs' fs := by
  obtain ⟨d, n, node, -, -, -, rfl⟩ := unlink_eq_ok h
  exact keeps_eraseNode fs d n

theorem unlink_of_inode (h : fs.inode p = .ok i) :
    ∃ d n, fs.locate p = .ok (.entry d n false) ∧ n.utf8ByteSize ≤ maxName ∧
      fs.unlink p = .ok (fs.eraseNode (d ++ [n])) := by
  obtain ⟨q, d, n, l, rfl, hl, -, m, e, a, hlast, hc⟩ := exists_locate_of_inode h
  refine ⟨d, n, hl, ?_⟩
  cases hlast with
  | idle hidle => cases hidle
  | directory _ h => cases h
  | link hc | file hc _ =>
    exact ⟨(child?_eq_some_iff.1 hc).1, by simp [unlink, hl, hc, bind, Except.bind]⟩
  | missing hc' _ => cases hc.symm.trans hc'

/-! ## Vacant names -/

/-- Nothing stands at a path, and the directory that it would stand in is there. -/
def Vacant (fs : Files) (p : FilePath) : Prop :=
  ∃ d n, fs.locate p = .ok (.entry d n false) ∧ n.utf8ByteSize ≤ maxName ∧
    fs.node? (d ++ [n]) = none

/-- Unlinking leaves a path vacant: neither a directory nor a link to one stands there, if anything
does. -/
def Clearable (fs : Files) (p : FilePath) : Prop :=
  ∃ d n, fs.locate p = .ok (.entry d n false) ∧ n.utf8ByteSize ≤ maxName ∧ ¬ fs.Enterable d n

theorem clearable_of_inode (h : fs.inode p = .ok i) : fs.Clearable p := by
  obtain ⟨q, d, n, l, rfl, hl, -, m, e, a, hlast, -⟩ := exists_locate_of_inode h
  obtain ⟨d', n', hl', hsize, -⟩ := unlink_of_inode h
  rw [hl] at hl'
  cases hl'
  exact ⟨d, n, hl, hsize, hlast.not_enterable⟩

theorem Vacant.of_keeps (h : fs.Vacant p) (ways : KeepsWays fs fs') (kept : Keeps fs' fs) :
    fs'.Vacant p := by
  obtain ⟨d, n, hl, hsize, hnone⟩ := h
  have hnone' : fs'.node? (d ++ [n]) = none := by
    cases hn : fs'.node? (d ++ [n]) with
    | none => rfl
    | some node =>
      rw [kept _ _ hn] at hnone
      cases hnone
  exact ⟨d, n, locate_of_keeps ways hl, hsize, hnone'⟩

theorem Clearable.of_keeps (h : fs.Clearable p) (ways : KeepsWays fs fs')
    (back : KeepsWays fs' fs) : fs'.Clearable p := by
  obtain ⟨d, n, hl, hsize, hnot⟩ := h
  exact ⟨d, n, locate_of_keeps ways hl, hsize, mt back.enterable hnot⟩

/-- The ways stay when a path is unlinked where no directory is, nor a link to one. -/
theorem keepsWays_of_unlink (h : fs.unlink p = .ok fs') (hp : fs.Clearable p) :
    KeepsWays fs fs' := by
  obtain ⟨d, n, node, hl, -, -, rfl⟩ := unlink_eq_ok h
  obtain ⟨d', n', hl', -, hnot⟩ := hp
  rw [hl] at hl'
  cases hl'
  exact keepsWays_eraseNode hnot

/-- A path goes on leading to a file when another path of the same directory is unlinked that does
not lead there. -/
theorem inode_of_unlink {a b : String} (h : fs.unlink (q ++ [.name a]) = .ok fs')
    (hclear : fs.Clearable (q ++ [.name a])) (ha : fs.inode (q ++ [.name a]) ≠ .ok i)
    (hb : fs.inode (q ++ [.name b]) = .ok i) : fs'.inode (q ++ [.name b]) = .ok i := by
  have hways := keepsWays_of_unlink h hclear
  obtain ⟨d, n, node, hl, -, -, rfl⟩ := unlink_eq_ok h
  obtain ⟨_, _, hl', -, hnot⟩ := hclear
  rw [hl] at hl'
  cases hl'
  obtain ⟨htext, rfl, hwalk, -⟩ := locate_name_iff.1 hl
  obtain ⟨htext', m, e, x, hway, hc⟩ := inode_eq_ok_iff.1 hb
  obtain ⟨l, d', hq, hlast⟩ := (leads_append_iff (by simp)).1 hway
  obtain rfl : d' = d := by
    have := walk_eq_ok_iff.2 ⟨l, hq⟩
    rw [hwalk] at this
    cases this
    rfl
  -- With the links that are left in the directory the removed entry does not lead to the file.
  have kept {d₁ n₁ node j} (hj : j ≤ l) (hn : fs.node? (d₁ ++ [n₁]) = some node)
      (hon : fs.Enterable d₁ n₁ ∨ ∃ m, fs.Leads j d₁ [.name n₁] m (.entry e x false)) :
      (fs.eraseNode (d' ++ [n])).node? (d₁ ++ [n₁]) = some node := by
    rw [node?_eraseNode, if_neg]
    · exact hn
    · intro heq
      obtain ⟨rfl, rfl⟩ := List.append_singleton_inj.1 heq
      rcases hon with henter | ⟨m', hm'⟩
      · exact hnot henter
      · have hall := hm'.add (l - j)
        rw [Nat.add_sub_cancel' hj] at hall
        have hother := (leads_append_iff (by simp)).2 ⟨l, _, hq, hall⟩
        exact ha (inode_eq_ok_iff.2 ⟨htext, _, e, x, hother, hc⟩)
  have hc' : (fs.eraseNode (d' ++ [n])).child? e x = .ok (some (.file i)) := by
    obtain ⟨hsize, hn⟩ := child?_eq_some_iff.1 hc
    exact child?_eq_some_iff.2 ⟨hsize, kept (Nat.le_refl l) hn (.inr ⟨l, .file hc nofun⟩)⟩
  have hlast' : (fs.eraseNode (d' ++ [n])).Leads l d' [.name b] m (.entry e x false) := by
    refine hlast.of_kept ?_ fun d₁ n₁ node j hj => kept hj
    rintro _ _ _ ⟨⟩
    exact ⟨rfl, i, hc'⟩
  have hway' := (leads_append_iff (by simp)).2 ⟨l, d', hways _ _ _ _ _ hq, hlast'⟩
  exact inode_eq_ok_iff.2 ⟨htext', m, e, x, hway', hc'⟩

theorem attempt_unlink_cases (fs : Files) (p : FilePath) :
    (fs.attempt (fs.unlink p)).1 = fs ∨ fs.unlink p = .ok (fs.attempt (fs.unlink p)).1 := by
  unfold attempt
  cases h : fs.unlink p with
  | error fault => exact .inl rfl
  | ok fs' => exact .inr rfl

theorem vacant_attempt_unlink (h : fs.Clearable p) :
    Vacant (fs.attempt (fs.unlink p)).1 p := by
  have hclear := h
  obtain ⟨d, n, hl, hsize, hnot⟩ := h
  cases hn : fs.node? (d ++ [n]) with
  | none =>
    have hc : fs.child? d n = .ok none := child?_eq_none_iff.2 ⟨hsize, hn⟩
    have hstay : (fs.attempt (fs.unlink p)).1 = fs := by
      simp [attempt, unlink, hl, hc, bind, Except.bind]
    rw [hstay]
    exact ⟨d, n, hl, hsize, hn⟩
  | some node =>
    have hc : fs.child? d n = .ok (some node) := child?_eq_some_iff.2 ⟨hsize, hn⟩
    have hunlink : fs.unlink p = .ok (fs.eraseNode (d ++ [n])) := by
      cases node with
      | directory => exact absurd (enterable_of_directory hc) hnot
      | file i => simp [unlink, hl, hc, bind, Except.bind]
      | link target => simp [unlink, hl, hc, bind, Except.bind]
    rw [hunlink]
    refine ⟨d, n, locate_of_keeps (keepsWays_of_unlink hunlink hclear) hl, hsize, ?_⟩
    show (fs.eraseNode (d ++ [n])).node? (d ++ [n]) = none
    rw [node?_eraseNode, if_pos rfl]

/-! ## Files that are made -/

/-- At the end of a way there is a file or nothing, if there is no directory. -/
theorem Leads.standing {a : String} {slash : Bool} (h : fs.Leads k d p l (.entry e a slash)) :
    fs.child? e a = .ok none ∨ ∃ i, fs.child? e a = .ok (some (.file i)) := by
  generalize hdest : Destination.entry e a slash = dest at h
  induction h with
  | here => cases hdest
  | idle _ _ ih | up _ ih | directory _ _ ih | link _ _ ih => exact ih hdest
  | file hc _ =>
    cases hdest
    exact .inr ⟨_, hc⟩
  | missing hc _ =>
    cases hdest
    exact .inl hc

theorem resolve_of_locate (hl : fs.locate p = .ok (.entry d n false))
    (hc : fs.child? d n = .ok none ∨ ∃ i, fs.child? d n = .ok (some (.file i))) :
    fs.resolve p = .ok (.entry d n false) := by
  obtain ⟨q, rfl, htext, hwalk⟩ := exists_of_locate hl
  obtain ⟨l, hq⟩ := walk_eq_ok_iff.1 hwalk
  have hlast : fs.Leads l d [.name n] l (.entry d n false) := by
    rcases hc with hc | ⟨i, hc⟩
    · exact .missing hc nofun
    · exact .file hc nofun
  exact resolve_eq_ok_iff.2 ⟨htext, l, (leads_append_iff (by simp)).2 ⟨l, d, hq, hlast⟩⟩

/-- Behind the directory that a path is located in, its name is followed. -/
theorem leads_of_locate (hl : fs.locate p = .ok (.entry d n false)) {dest : Destination}
    (hr : fs.resolve p = .ok dest) : ∃ k l, fs.Leads k d [.name n] l dest := by
  obtain ⟨q, rfl, -, hwalk⟩ := exists_of_locate hl
  obtain ⟨-, m, hway⟩ := resolve_eq_ok_iff.1 hr
  obtain ⟨l, e, hq, hlast⟩ := (leads_append_iff (by simp)).1 hway
  rw [walk_eq_ok_iff.2 ⟨l, hq⟩] at hwalk
  cases hwalk
  exact ⟨l, m, hlast⟩

/-- The files with a new empty file at a place. -/
def withNewFile (fs : Files) (q : Place) : Files :=
  { fs.setNode q (.file fs.nextInode) with nextInode := fs.nextInode + 1 }

theorem node?_withNewFile (fs : Files) (d : Place) (n : String) (q : Place) :
    (fs.withNewFile (d ++ [n])).node? q =
      if q = d ++ [n] then some (.file fs.nextInode) else fs.node? q :=
  node?_setNode fs d n _ q

theorem keeps_withNewFile (h : fs.node? (d ++ [n]) = none) :
    Keeps fs (fs.withNewFile (d ++ [n])) := by
  intro q node hq
  rw [node?_withNewFile]
  split
  · rename_i heq
    rw [heq, h] at hq
    cases hq
  · exact hq

theorem child?_withNewFile (hsize : n.utf8ByteSize ≤ maxName) :
    (fs.withNewFile (d ++ [n])).child? d n = .ok (some (.file fs.nextInode)) :=
  child?_eq_some_iff.2 ⟨hsize, by rw [node?_withNewFile, if_pos rfl]⟩

theorem node?_withNewFile_cases {node : FileNode} {q : Place}
    (h : (fs.withNewFile (d ++ [n])).node? q = some node) :
    fs.node? q = some node ∨ q = d ++ [n] ∧ node = .file fs.nextInode := by
  rw [node?_withNewFile] at h
  split_ifs at h with hq
  · exact .inr ⟨hq, (Option.some.inj h).symm⟩
  · exact .inl h

/-- A new file cannot be entered, so there are no new ways. -/
theorem keepsWays_of_withNewFile (fs : Files) (d : Place) (n : String) :
    KeepsWays (fs.withNewFile (d ++ [n])) fs := by
  refine keepsWays_of_kept fun d' n' node hn henter => ?_
  rcases node?_withNewFile_cases hn with hold | ⟨-, rfl⟩
  · exact hold
  · exact absurd henter (not_enterable_of_file hn)

/-- What a path leads to after a file was made is new, or the path led to it before. -/
theorem inode_withNewFile (h : (fs.withNewFile (d ++ [n])).inode q = .ok i)
    (hi : i ≠ fs.nextInode) : fs.inode q = .ok i := by
  refine inode_of_kept h fun d' n' node hn hon => ?_
  rcases node?_withNewFile_cases hn with hold | ⟨-, rfl⟩
  · exact hold
  · rcases hon with henter | ⟨k, l, e, a, hway, hc⟩
    · exact absurd henter (not_enterable_of_file hn)
    · obtain ⟨hdest, hc'⟩ := hway.of_file hn
      cases hdest
      cases hc.symm.trans hc'
      exact absurd rfl hi

/-- The inode of the plain file at the end of a way; the file is made if nothing is there. -/
def standingOrNew (fs : Files) : Destination → Result (Nat × Files)
  | .here _ | .entry _ _ true => .error .isDirectory
  | .entry d n false => do
    match ← fs.child? d n with
    | some (.file i) => .ok (i, fs)
    | _ => .ok (fs.nextInode, fs.withNewFile (d ++ [n]))

theorem inodeOrNew_of_locate (hl : fs.locate p = .ok (.entry d n false)) :
    fs.inodeOrNew p = fs.resolve p >>= fs.standingOrNew := by
  unfold inodeOrNew
  rw [hl]
  show (fs.resolve p >>= _) = fs.resolve p >>= _
  congr 1

theorem inodeOrNew_of_missing (hl : fs.locate p = .ok (.entry d n false))
    (hc : fs.child? d n = .ok none) :
    fs.inodeOrNew p = .ok (fs.nextInode, fs.withNewFile (d ++ [n])) := by
  rw [inodeOrNew_of_locate hl, resolve_of_locate hl (.inl hc)]
  simp [standingOrNew, hc, bind, Except.bind]

theorem inodeOrNew_of_inode (h : fs.inode p = .ok i) : fs.inodeOrNew p = .ok (i, fs) := by
  obtain ⟨q, d, n, l, -, hl, -⟩ := exists_locate_of_inode h
  obtain ⟨htext, l, e, a, hway, hc⟩ := inode_eq_ok_iff.1 h
  rw [inodeOrNew_of_locate hl, resolve_eq_ok_iff.2 ⟨htext, l, hway⟩]
  simp [standingOrNew, hc, bind, Except.bind]

theorem exists_locate_of_inodeOrNew {r : Nat × Files} (h : fs.inodeOrNew p = .ok r) :
    ∃ d n, fs.locate p = .ok (.entry d n false) := by
  unfold inodeOrNew at h
  rcases hl : fs.locate p with fault | ⟨d, n, _ | _⟩ | d
  · rw [hl] at h; cases h
  · exact ⟨d, n, rfl⟩
  · rw [hl] at h; cases h
  · rw [hl] at h; cases h

/-- Opening or making a file goes on from the entry that the path is located at. -/
theorem inodeOrNew_cases {r : Nat × Files} (h : fs.inodeOrNew p = .ok r) :
    ∃ d n dest, fs.locate p = .ok (.entry d n false) ∧ (∃ k l, fs.Leads k d [.name n] l dest) ∧
      fs.standingOrNew dest = .ok r := by
  obtain ⟨d, n, hl⟩ := exists_locate_of_inodeOrNew h
  rw [inodeOrNew_of_locate hl] at h
  cases hr : fs.resolve p with
  | error fault => rw [hr] at h; cases h
  | ok dest => exact ⟨d, n, dest, hl, leads_of_locate hl hr, by rwa [hr] at h⟩

/-- Opening or making a file finds the inode that the path leads to then. -/
theorem inodeOrNew_eq_ok (h : fs.inodeOrNew p = .ok (i, fs')) :
    fs'.inode p = .ok i ∧ (fs' = fs ∨
      ∃ d n, fs.node? (d ++ [n]) = none ∧ i = fs.nextInode ∧ fs' = fs.withNewFile (d ++ [n])) := by
  obtain ⟨d₀, n₀, hl⟩ := exists_locate_of_inodeOrNew h
  rw [inodeOrNew_of_locate hl] at h
  rcases hr : fs.resolve p with fault | ⟨d, n, _ | _⟩ | d
  · rw [hr] at h; cases h
  · obtain ⟨htext, l, hway⟩ := resolve_eq_ok_iff.1 hr
    rcases hway.standing with hc | ⟨j, hc⟩
    · simp [hr, standingOrNew, hc, bind, Except.bind] at h
      obtain ⟨rfl, rfl⟩ := h
      obtain ⟨hsize, hnone⟩ := child?_eq_none_iff.1 hc
      have hkeeps := keeps_withNewFile hnone
      have hc' : (fs.withNewFile (d ++ [n])).child? d n = .ok (some (.file fs.nextInode)) :=
        child?_withNewFile hsize
      have hway' : (fs.withNewFile (d ++ [n])).Leads maxLinks [] p l (.entry d n false) := by
        refine hway.of_kept ?_ fun d' n' node _ _ hn _ => hkeeps _ _ hn
        rintro _ _ _ ⟨⟩
        exact ⟨rfl, _, hc'⟩
      exact ⟨inode_eq_ok_iff.2 ⟨htext, l, d, n, hway', hc'⟩, .inr ⟨d, n, hnone, rfl, rfl⟩⟩
    · simp [hr, standingOrNew, hc, bind, Except.bind] at h
      obtain ⟨rfl, rfl⟩ := h
      exact ⟨inode_eq_ok_iff.2 ⟨htext, l, d, n, hway, hc⟩, .inl rfl⟩
  · rw [hr] at h; cases h
  · rw [hr] at h; cases h

end Upkeep.Files
