import Mathlib.Data.List.DropRight
import Upkeep.Proofs.Files.Resolution

/-!
# Directories that are there

A path leads to a directory if it can be walked (`isDirectory_iff_walk`), and making the directories
on such a path changes nothing (`makeDirectories_of_isDirectory`). So it is with the directories
above a file that is there (`isDirectory_parent`). What can be done at the path of an entry that is
no link depends on the entry alone.
-/

namespace Upkeep.Files

variable {fs : Files} {p : FilePath} {d : Place} {n : String} {i : Nat}

/-! ## Directories -/

theorem leads_of_idle {q : FilePath} (h : ∀ part ∈ q, part.isIdle = true) (k : Nat) (d : Place) :
    fs.Leads k d q k (.here d) := by
  induction q with
  | nil => exact .here k d
  | cons part q ih =>
    obtain ⟨hpart, hq⟩ := List.forall_mem_cons.1 h
    exact .idle hpart (ih hq)

theorem walk_append_idle {q : FilePath} (h : ∀ part ∈ q, part.isIdle = true) :
    fs.walk (p ++ q) = .ok d ↔ fs.walk p = .ok d := by
  simp only [walk_eq_ok_iff, leads_append_here_iff]
  constructor
  · rintro ⟨m, l, e, hp, hq⟩
    cases ((leads_of_idle h l e).unique hq).1
    exact ⟨l, hp⟩
  · rintro ⟨l, hp⟩
    exact ⟨l, l, d, hp, leads_of_idle h l d⟩

/-- Idle parts at the end of a path lead nowhere. -/
theorem walk_rdropWhile_iff {idle : Segment → Bool}
    (hidle : ∀ part, idle part = true → part.isIdle) :
    fs.walk (p.rdropWhile idle) = .ok d ↔ fs.walk p = .ok d := by
  have hend (part : Segment) (hpart : part ∈ p.rtakeWhile idle) : part.isIdle = true :=
    hidle part (List.mem_rtakeWhile_imp hpart)
  conv_rhs => rw [← List.rdropWhile_append_rtakeWhile (p := idle) (l := p)]
  exact (walk_append_idle hend).symm

theorem walk_unslashed_iff : fs.walk p.unslashed = .ok d ↔ fs.walk p = .ok d := by
  refine walk_rdropWhile_iff fun part hpart => ?_
  rw [of_decide_eq_true hpart]
  rfl

theorem walk_trimmed_iff : fs.walk p.trimmed = .ok d ↔ fs.walk p = .ok d :=
  walk_rdropWhile_iff fun _ h => h

theorem trimmed_name {q : FilePath} : FilePath.trimmed (q ++ [.name n]) = q ++ [.name n] := by
  simp [FilePath.trimmed, Segment.isIdle]

theorem parent_eq_trimmed {q : FilePath} (hp : p.trimmed = q ++ [.name n]) :
    p.parent = q.trimmed := by
  rw [FilePath.parent, hp, List.dropLast_concat]

theorem isDirectory_iff : fs.isDirectory p = true ↔ fs.status p = .ok .directory := by
  unfold isDirectory
  rcases fs.status p with fault | (i | _ | target) <;> simp

theorem status_eq_directory_iff :
    fs.status p = .ok .directory ↔ ∃ d, fs.resolve p = .ok (.here d) := by
  unfold status
  rcases fs.resolve p with fault | ⟨d, n, slash⟩ | d
  · simp [bind, Except.bind]
  · cases hc : fs.child? d n with
    | error fault => simp [hc, bind, Except.bind]
    | ok node? => rcases node? with _ | (i | _ | target) <;> cases slash <;>
        simp [hc, bind, Except.bind]
  · simp [bind, Except.bind]

/-- A path leads to a directory if it can be walked. -/
theorem isDirectory_iff_walk :
    fs.isDirectory p = true ↔ textFault? p.text = none ∧ ∃ d, fs.walk p = .ok d := by
  rw [isDirectory_iff, status_eq_directory_iff]
  simp only [resolve_eq_ok_iff, walk_eq_ok_iff, exists_and_left]

/-- The last name of a path that can be walked is that of a directory or of a link to one. -/
theorem exists_child?_of_walk {q : FilePath} (h : fs.walk (q ++ [.name n]) = .ok d) :
    ∃ d' node, fs.walk q = .ok d' ∧ fs.child? d' n = .ok (some node) := by
  obtain ⟨m, h⟩ := walk_eq_ok_iff.1 h
  obtain ⟨l, d', hq, hlast⟩ := leads_append_here_iff.1 h
  have hd' : fs.walk q = .ok d' := walk_eq_ok_iff.2 ⟨l, hq⟩
  cases hlast with
  | idle hidle => cases hidle
  | directory hc | link hc => exact ⟨d', _, hd', hc⟩

/-- Where a directory is, none is made. -/
theorem makeDirectories_of_isDirectory (h : fs.isDirectory p = true) :
    fs.makeDirectories p = (fs, .ok ()) := by
  obtain ⟨htext, e, hwalk⟩ := isDirectory_iff_walk.1 h
  have hmake : fs.makeDirectory p = .error .alreadyExists := by
    rw [makeDirectory, locate, htext]
    dsimp only
    split
    · rename_i n hlast
      have hsplit : p.unslashed.dropLast ++ [.name n] = p.unslashed :=
        List.dropLast_append_getLast? _ hlast
      have hunslashed : fs.walk p.unslashed = .ok e := walk_unslashed_iff.2 hwalk
      rw [← hsplit] at hunslashed
      obtain ⟨d, node, hd, hc⟩ := exists_child?_of_walk hunslashed
      simp [hd, hc, bind, Except.bind, pure, Except.pure]
    · rw [hwalk]
      rfl
  have hensure : fs.ensureDirectory p = .ok fs := by
    rw [ensureDirectory, hmake]
    exact if_pos h
  rw [makeDirectories, ensureFirst, hensure]
  rfl

/-! ## The directory of a file -/

theorem exists_text_append (q r : FilePath) : ∃ s, FilePath.text (q ++ r) = q.text ++ s := by
  unfold FilePath.text
  rw [List.map_append]
  by_cases hq : q.map Segment.text = []
  · exact ⟨String.intercalate "/" (r.map Segment.text), by simp [hq]⟩
  · by_cases hr : r.map Segment.text = []
    · exact ⟨"", by simp [hr]⟩
    · rw [String.intercalate_append_of_ne_nil hq hr, String.append_assoc]
      exact ⟨_, rfl⟩

/-- What a path begins with is no longer than the path. -/
theorem textFault?_of_append {q r : FilePath} (h : textFault? (FilePath.text (q ++ r)) = none) :
    textFault? q.text = none := by
  obtain ⟨s, hs⟩ := exists_text_append q r
  rw [hs] at h
  unfold textFault? at h ⊢
  split at h
  · cases h
  · rename_i hnul
    split at h
    · cases h
    · rename_i hlong
      rw [String.toList_append, List.mem_append, not_or] at hnul
      rw [String.utf8ByteSize_append] at hlong
      rw [if_neg hnul.1, if_neg (by omega)]

/-- The directory of an entry that a path leads to is there. -/
theorem isDirectory_parent (hl : fs.locate p = .ok (.entry d n false)) :
    fs.isDirectory p.parent = true := by
  obtain ⟨q, rfl, htext, hq⟩ := exists_of_locate hl
  obtain ⟨r, hr⟩ : FilePath.trimmed q <+: q := List.rdropWhile_prefix _ q
  have hprefix : textFault? (FilePath.text (FilePath.trimmed q ++ r)) = none :=
    hr.symm ▸ textFault?_of_append htext
  rw [parent_eq_trimmed trimmed_name]
  exact isDirectory_iff_walk.2 ⟨textFault?_of_append hprefix, d, walk_trimmed_iff.2 hq⟩

/-! ## Entries of a directory -/

variable (hl : fs.locate p = .ok (.entry d n false)) (hsize : n.utf8ByteSize ≤ maxName)

include hl hsize

theorem status_of_file (hn : fs.node? (d ++ [n]) = some (.file i)) :
    fs.status p = .ok (.file i) := by
  have hc : fs.child? d n = .ok (some (.file i)) := child?_eq_some_iff.2 ⟨hsize, hn⟩
  simp [status, resolve_of_locate hl (.inr ⟨i, hc⟩), hc, bind, Except.bind]

theorem inode_of_file (hn : fs.node? (d ++ [n]) = some (.file i)) : fs.inode p = .ok i := by
  simp [inode, status_of_file hl hsize hn, bind, Except.bind]

theorem pathExists_of_file (hn : fs.node? (d ++ [n]) = some (.file i)) :
    fs.pathExists p = true := by
  rw [pathExists, status_of_file hl hsize hn]
  rfl

theorem status_of_missing (hn : fs.node? (d ++ [n]) = none) : fs.status p = .error .notFound := by
  have hc : fs.child? d n = .ok none := child?_eq_none_iff.2 ⟨hsize, hn⟩
  simp [status, resolve_of_locate hl (.inl hc), hc, bind, Except.bind]

theorem openExisting_of_missing (hn : fs.node? (d ++ [n]) = none) :
    fs.openExisting p = .error .notFound := by
  simp [openExisting, inode, status_of_missing hl hsize hn, bind, Except.bind]

theorem openOrCreate_of_missing (hn : fs.node? (d ++ [n]) = none) :
    fs.openOrCreate p = .ok (⟨fs.nextHandle, fs.nextInode⟩,
      { fs.withNewFile (d ++ [n]) with nextHandle := fs.nextHandle + 1 }) := by
  rw [openOrCreate, inodeOrNew_of_missing hl (child?_eq_none_iff.2 ⟨hsize, hn⟩)]
  rfl

theorem unlink_of_file (hn : fs.node? (d ++ [n]) = some (.file i)) :
    fs.unlink p = .ok (fs.eraseNode (d ++ [n])) := by
  have hc : fs.child? d n = .ok (some (.file i)) := child?_eq_some_iff.2 ⟨hsize, hn⟩
  simp [unlink, hl, hc, bind, Except.bind]

end Upkeep.Files
