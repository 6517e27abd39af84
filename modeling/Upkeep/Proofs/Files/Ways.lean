import Mathlib.Data.List.Basic
import Upkeep.Files.Basic

/-!
# The ways of paths

`Leads` is the way of a path as a relation: one case for each kind of part, and one for a link,
behind which the way goes on with the target and then with the rest of the path. A path can be taken
apart anywhere (`resolveFrom_append`, `leads_append_iff`): what goes on from a place is a way of its
own, for which the links are left that have not been followed before.

**Kept ways.** A way stays if the entries stay that it comes by (`Leads.of_kept`). These are of two
kinds. Some can be entered: they are directories, or links that lead to one (`Enterable`). The
others lead to the end of the way by themselves. Files in which the entries of the first kind stay
keep the ways (`KeepsWays`), and a path is located there where it was (`locate_of_keeps`).
-/

namespace Upkeep.Files

/-! ## Ways -/

/-- A path leads from a directory to its end, and so many links may be followed before and after. -/
inductive Leads (fs : Files) : Nat → Place → FilePath → Nat → Destination → Prop where
  | here (k : Nat) (d : Place) : Leads fs k d [] k (.here d)
  | idle {k l d p dest} {part : Segment} (hidle : part.isIdle = true)
      (h : Leads fs k d p l dest) : Leads fs k d (part :: p) l dest
  | up {k l d p dest} (h : Leads fs k d.dropLast p l dest) : Leads fs k d (.up :: p) l dest
  | directory {k l d n p dest} (hc : fs.child? d n = .ok (some .directory))
      (h : Leads fs k (d ++ [n]) p l dest) : Leads fs k d (.name n :: p) l dest
  | link {k l d n p dest target} (hc : fs.child? d n = .ok (some (.link target)))
      (h : Leads fs k (base d target) (target ++ p) l dest) :
      Leads fs (k + 1) d (.name n :: p) l dest
  | file {k d n p i} (hc : fs.child? d n = .ok (some (.file i)))
      (hblank : ∀ part ∈ p, part = .blank) :
      Leads fs k d (.name n :: p) k (.entry d n (p ≠ []))
  | missing {k d n p} (hc : fs.child? d n = .ok none) (hblank : ∀ part ∈ p, part = .blank) :
      Leads fs k d (.name n :: p) k (.entry d n (p ≠ []))

variable {fs fs' : Files} {k l m : Nat} {d e : Place} {n : String} {p q r : FilePath}
  {dest : Destination} {i : Nat}

theorem child?_eq_some_iff {node : FileNode} :
    fs.child? d n = .ok (some node) ↔
      n.utf8ByteSize ≤ maxName ∧ fs.node? (d ++ [n]) = some node := by
  unfold child?
  split
  · simp; omega
  · simp; omega

theorem child?_eq_none_iff :
    fs.child? d n = .ok none ↔ n.utf8ByteSize ≤ maxName ∧ fs.node? (d ++ [n]) = none := by
  unfold child?
  split
  · simp; omega
  · simp; omega

theorem resolveFrom_nil (fs : Files) (k : Nat) (d : Place) :
    fs.resolveFrom k d [] = .ok (.here d, k) := by
  cases k <;> rfl

theorem resolveFrom_idle {part : Segment} (hidle : part.isIdle = true) :
    fs.resolveFrom k d (part :: p) = fs.resolveFrom k d p := by
  cases part with
  | blank | dot => cases k <;> rfl
  | up | name n => cases hidle

theorem resolveFrom_up : fs.resolveFrom k d (.up :: p) = fs.resolveFrom k d.dropLast p := by
  cases k <;> rfl

theorem resolveFrom_directory (hc : fs.child? d n = .ok (some .directory)) :
    fs.resolveFrom k d (.name n :: p) = fs.resolveFrom k (d ++ [n]) p := by
  cases k <;> simp [resolveFrom, advance, hc, bind, Except.bind]

theorem resolveFrom_link {target : FilePath} (hc : fs.child? d n = .ok (some (.link target))) :
    fs.resolveFrom (k + 1) d (.name n :: p) =
      fs.resolveFrom k (base d target) (target ++ p) := by
  simp [resolveFrom, advance, hc, bind, Except.bind]

theorem resolveFrom_link_zero {target : FilePath}
    (hc : fs.child? d n = .ok (some (.link target))) :
    fs.resolveFrom 0 d (.name n :: p) = .error .tooManyLinks := by
  simp [resolveFrom, advance, hc, bind, Except.bind]

theorem resolveFrom_file (hc : fs.child? d n = .ok (some (.file i))) :
    fs.resolveFrom k d (.name n :: p) =
      if ∀ part ∈ p, part = .blank then .ok (.entry d n (p ≠ []), k)
      else .error .notDirectory := by
  cases k <;> simp [resolveFrom, advance, hc, bind, Except.bind]

theorem resolveFrom_missing (hc : fs.child? d n = .ok none) :
    fs.resolveFrom k d (.name n :: p) =
      if ∀ part ∈ p, part = .blank then .ok (.entry d n (p ≠ []), k)
      else .error .notFound := by
  cases k <;> simp [resolveFrom, advance, hc, bind, Except.bind]

theorem resolveFrom_fault {fault : FileFault} (hc : fs.child? d n = .error fault) :
    fs.resolveFrom k d (.name n :: p) = .error fault := by
  cases k <;> simp [resolveFrom, advance, hc, bind, Except.bind]

theorem leads_of_resolveFrom (h : fs.resolveFrom k d p = .ok (dest, l)) :
    fs.Leads k d p l dest := by
  induction k using Nat.strongRecOn generalizing d p with
  | ind k ihLinks =>
    induction p generalizing d with
    | nil =>
      rw [resolveFrom_nil] at h
      cases h
      exact .here _ _
    | cons part p ih =>
      cases part with
      | blank | dot => exact .idle rfl (ih (by rwa [resolveFrom_idle rfl] at h))
      | up => exact .up (ih (by rwa [resolveFrom_up] at h))
      | name n =>
        cases hc : fs.child? d n with
        | error fault =>
          rw [resolveFrom_fault hc] at h
          cases h
        | ok node? =>
          rcases node? with _ | (i | _ | target)
          · rw [resolveFrom_missing hc] at h
            split_ifs at h with hblank
            cases h
            exact .missing hc hblank
          · rw [resolveFrom_file hc] at h
            split_ifs at h with hblank
            cases h
            exact .file hc hblank
          · exact .directory hc (ih (by rwa [resolveFrom_directory hc] at h))
          · cases k with
            | zero =>
              rw [resolveFrom_link_zero hc] at h
              cases h
            | succ k =>
              rw [resolveFrom_link hc] at h
              exact .link hc (ihLinks k (Nat.lt_succ_self k) h)

theorem Leads.resolveFrom (h : fs.Leads k d p l dest) : fs.resolveFrom k d p = .ok (dest, l) := by
  induction h with
  | here k d => exact resolveFrom_nil fs k d
  | idle hidle _ ih => rw [resolveFrom_idle hidle, ih]
  | up _ ih => rw [resolveFrom_up, ih]
  | directory hc _ ih => rw [resolveFrom_directory hc, ih]
  | link hc _ ih => rw [resolveFrom_link hc, ih]
  | file hc hblank => rw [resolveFrom_file hc, if_pos hblank]
  | missing hc hblank => rw [resolveFrom_missing hc, if_pos hblank]

theorem leads_iff : fs.Leads k d p l dest ↔ fs.resolveFrom k d p = .ok (dest, l) :=
  ⟨Leads.resolveFrom, leads_of_resolveFrom⟩

theorem Leads.unique {dest' : Destination} (h : fs.Leads k d p l dest)
    (h' : fs.Leads k d p m dest') : dest' = dest ∧ m = l := by
  have heq := h'.resolveFrom
  rw [h.resolveFrom] at heq
  cases heq
  exact ⟨rfl, rfl⟩

theorem Leads.size_le (h : fs.Leads k d [.name n] l dest) : n.utf8ByteSize ≤ maxName := by
  cases h with
  | idle hidle => cases hidle
  | directory hc | link hc | file hc => exact (child?_eq_some_iff.1 hc).1
  | missing hc => exact (child?_eq_none_iff.1 hc).1

/-- More links may be followed than there are. -/
theorem Leads.add (h : fs.Leads k d p l dest) (j : Nat) : fs.Leads (k + j) d p (l + j) dest := by
  induction h with
  | here k d => exact .here _ d
  | idle hidle _ ih => exact .idle hidle ih
  | up _ ih => exact .up ih
  | directory hc _ ih => exact .directory hc ih
  | @link k l d n p dest target hc _ ih =>
    rw [Nat.add_right_comm]
    exact .link hc ih
  | file hc hblank => exact .file hc hblank
  | missing hc hblank => exact .missing hc hblank

/-! ## Paths taken apart -/

/-- What goes on from a place is followed from there, with the links that may still be followed. -/
theorem resolveFrom_append (hr : ¬ ∀ part ∈ r, part = .blank) :
    fs.resolveFrom k d (q ++ r) =
      fs.resolveFrom k d q >>= fun x => fs.enter x.1 >>= fun e => fs.resolveFrom x.2 e r := by
  have hrest (q : FilePath) : ¬ ∀ part ∈ q ++ r, part = .blank :=
    fun h => hr fun part hpart => h part (List.mem_append_right q hpart)
  induction k using Nat.strongRecOn generalizing d q with
  | ind k ihLinks =>
    induction q generalizing d with
    | nil => simp [resolveFrom_nil, enter, bind, Except.bind]
    | cons part q ih =>
      cases part with
      | blank | dot => rw [List.cons_append, resolveFrom_idle rfl, resolveFrom_idle rfl, ih]
      | up => rw [List.cons_append, resolveFrom_up, resolveFrom_up, ih]
      | name n =>
        rw [List.cons_append]
        cases hc : fs.child? d n with
        | error fault =>
          rw [resolveFrom_fault hc, resolveFrom_fault hc]
          rfl
        | ok node? =>
          rcases node? with _ | (i | _ | target)
          · rw [resolveFrom_missing hc, resolveFrom_missing hc, if_neg (hrest q)]
            split_ifs <;> simp [enter, hc, bind, Except.bind]
          · rw [resolveFrom_file hc, resolveFrom_file hc, if_neg (hrest q)]
            split_ifs <;> simp [enter, hc, bind, Except.bind]
          · rw [resolveFrom_directory hc, resolveFrom_directory hc, ih]
          · cases k with
            | zero =>
              rw [resolveFrom_link_zero hc, resolveFrom_link_zero hc]
              rfl
            | succ k =>
              rw [resolveFrom_link hc, resolveFrom_link hc, ← List.append_assoc,
                ihLinks k (Nat.lt_succ_self k)]

theorem Leads.enter_eq_ok_iff (h : fs.Leads k d p l dest) :
    fs.enter dest = .ok e ↔ dest = .here e := by
  induction h with
  | here k d => simp [enter]
  | idle _ _ ih | up _ ih | directory _ _ ih | link _ _ ih => exact ih
  | file hc _ | missing hc _ => simp [enter, hc, bind, Except.bind]

theorem leads_append_iff (hr : ¬ ∀ part ∈ r, part = .blank) :
    fs.Leads k d (q ++ r) m dest ↔
      ∃ l e, fs.Leads k d q l (.here e) ∧ fs.Leads l e r m dest := by
  simp only [leads_iff, resolveFrom_append hr]
  cases hq : fs.resolveFrom k d q with
  | error fault => simp [bind, Except.bind]
  | ok x =>
    obtain ⟨dest₁, l⟩ := x
    have henter (e : Place) := (leads_of_resolveFrom hq).enter_eq_ok_iff (e := e)
    cases he : fs.enter dest₁ with
    | error fault =>
      have hne (e : Place) : dest₁ ≠ .here e := fun h => by
        rw [(henter e).2 h] at he
        cases he
      simp [he, hne, bind, Except.bind]
    | ok e =>
      obtain rfl := (henter e).1 he
      simp [he, bind, Except.bind]

/-- A point at the end of a path says that a directory is there. -/
theorem leads_dot_iff :
    fs.Leads k d (q ++ [.dot]) l dest ↔ ∃ e, dest = .here e ∧ fs.Leads k d q l (.here e) := by
  have hdot (k : Nat) (d : Place) :
      fs.Leads k d [.dot] l dest ↔ k = l ∧ dest = .here d := by
    rw [leads_iff, resolveFrom_idle rfl, resolveFrom_nil]
    simp [eq_comm, and_comm]
  rw [leads_append_iff (by simp)]
  simp only [hdot]
  constructor
  · rintro ⟨_, e, h, rfl, rfl⟩
    exact ⟨e, rfl, h⟩
  · rintro ⟨e, rfl, h⟩
    exact ⟨l, e, h, rfl, rfl⟩

/-- On the way to a directory a path can be taken apart anywhere. -/
theorem leads_append_here_iff :
    fs.Leads k d (q ++ r) m (.here e) ↔
      ∃ l d', fs.Leads k d q l (.here d') ∧ fs.Leads l d' r m (.here e) := by
  have hdot {k d} {p : FilePath} {m} :
      fs.Leads k d p m (.here e) ↔ fs.Leads k d (p ++ [.dot]) m (.here e) := by
    rw [leads_dot_iff]
    simp
  rw [hdot, List.append_assoc, leads_append_iff (by simp)]
  simp only [← hdot]

/-- A path that leads to a name ends with one. -/
theorem Leads.getLast? (h : fs.Leads k d p l (.entry e n false)) :
    ∃ m, p.getLast? = some (.name m) := by
  generalize hdest : Destination.entry e n false = dest at h
  induction h with
  | here => cases hdest
  | idle _ _ ih | up _ ih | directory _ _ ih =>
    obtain ⟨m, hm⟩ := ih hdest
    exact ⟨m, by simp [List.getLast?_cons, hm]⟩
  | @link k l d n p dest target _ _ ih =>
    obtain ⟨m, hm⟩ := ih hdest
    rcases List.eq_nil_or_concat p with rfl | ⟨p, part, rfl⟩
    · exact ⟨n, rfl⟩
    · exact ⟨m, by simpa [List.getLast?_cons] using hm⟩
  | @file _ _ n p _ _ _ | @missing _ _ n p _ _ =>
    obtain ⟨-, -, rfl⟩ : _ ∧ _ ∧ p = [] := by simpa using hdest
    exact ⟨n, rfl⟩

/-! ## Where a path is located, and what it leads to -/

theorem walk_eq_ok_iff : fs.walk p = .ok d ↔ ∃ l, fs.Leads maxLinks [] p l (.here d) := by
  unfold walk
  cases h : fs.resolveFrom maxLinks [] p with
  | error fault => simp [leads_iff, h, bind, Except.bind]
  | ok x =>
    have hway := leads_of_resolveFrom h
    show fs.enter x.1 = .ok d ↔ _
    rw [hway.enter_eq_ok_iff]
    constructor
    · intro hx
      exact ⟨x.2, hx ▸ hway⟩
    · rintro ⟨l, hl⟩
      exact (hway.unique hl).1.symm

theorem resolve_eq_ok_iff :
    fs.resolve p = .ok dest ↔
      textFault? p.text = none ∧ ∃ l, fs.Leads maxLinks [] p l dest := by
  unfold resolve
  cases textFault? p.text with
  | some fault => simp
  | none =>
    cases h : fs.resolveFrom maxLinks [] p with
    | error fault => simp [leads_iff, h, bind, Except.bind]
    | ok x => simp [leads_iff, h, bind, Except.bind, pure, Except.pure, Prod.ext_iff]

/-- The way to an entry goes through the directory that the path names before it. -/
theorem locate_eq_entry_iff {slash : Bool} :
    fs.locate p = .ok (.entry d n slash) ↔
      textFault? p.text = none ∧ p.unslashed.getLast? = some (.name n) ∧
        fs.walk p.unslashed.dropLast = .ok d ∧ slash = decide (p.getLast? = some .blank) := by
  unfold locate
  cases textFault? p.text with
  | some fault => simp
  | none =>
    dsimp only
    split
    · rename_i m hlast
      rw [hlast]
      cases fs.walk p.unslashed.dropLast with
      | error fault => simp [bind, Except.bind]
      | ok d' =>
        simp [bind, Except.bind, pure, Except.pure, eq_comm]
        tauto
    · rename_i hlast
      have hnot : p.unslashed.getLast? ≠ some (.name n) := hlast n
      cases fs.walk p <;> simp [hnot]

theorem unslashed_name : FilePath.unslashed (q ++ [.name n]) = q ++ [.name n] := by
  simp [FilePath.unslashed]

/-- A name in a directory that is there leads to the entry of that name. -/
theorem locate_name_iff {slash : Bool} {a : String} :
    fs.locate (q ++ [.name n]) = .ok (.entry d a slash) ↔
      textFault? (FilePath.text (q ++ [.name n])) = none ∧ a = n ∧ fs.walk q = .ok d ∧
        slash = false := by
  rw [locate_eq_entry_iff, unslashed_name]
  simp [eq_comm]

theorem locate_name (htext : textFault? (FilePath.text (q ++ [.name n])) = none)
    (h : fs.walk q = .ok d) : fs.locate (q ++ [.name n]) = .ok (.entry d n false) :=
  locate_name_iff.2 ⟨htext, rfl, h, rfl⟩

/-- A path without a slash at its end that is located at an entry ends with the name of it. -/
theorem exists_of_locate (hl : fs.locate p = .ok (.entry d n false)) :
    ∃ q, p = q ++ [.name n] ∧ textFault? p.text = none ∧ fs.walk q = .ok d := by
  obtain ⟨htext, hlast, hwalk, hslash⟩ := locate_eq_entry_iff.1 hl
  rcases List.eq_nil_or_concat p with rfl | ⟨q, part, rfl⟩
  · cases hlast
  · have hpart : part ≠ .blank := by simpa using hslash
    have hunslashed : FilePath.unslashed (q ++ [part]) = q ++ [part] := by
      simp [FilePath.unslashed, hpart]
    simp only [List.concat_eq_append, hunslashed, List.getLast?_concat, List.dropLast_concat]
      at hlast hwalk htext ⊢
    cases hlast
    exact ⟨q, rfl, htext, hwalk⟩

/-- A path leads to a plain file if it leads to its name. -/
theorem inode_eq_ok_iff :
    fs.inode p = .ok i ↔ textFault? p.text = none ∧
      ∃ l e n, fs.Leads maxLinks [] p l (.entry e n false) ∧
        fs.child? e n = .ok (some (.file i)) := by
  unfold inode status
  cases hr : fs.resolve p with
  | error fault =>
    refine iff_of_false (by simp [bind, Except.bind]) ?_
    rintro ⟨htext, l, e, n, h, -⟩
    rw [resolve_eq_ok_iff.2 ⟨htext, l, h⟩] at hr
    cases hr
  | ok dest =>
    obtain ⟨htext, l, hway⟩ := resolve_eq_ok_iff.1 hr
    have hdest {l' e n} (h : fs.Leads maxLinks [] p l' (.entry e n false)) :
        dest = .entry e n false := (h.unique hway).1
    rcases dest with ⟨e, n, slash⟩ | e
    · constructor
      · intro h
        cases hc : fs.child? e n with
        | error fault => simp [hc, bind, Except.bind] at h
        | ok node? =>
          rcases node? with _ | (j | _ | target) <;> cases slash <;>
            simp [hc, bind, Except.bind] at h
          exact ⟨htext, l, e, n, hway, h ▸ hc⟩
      · rintro ⟨-, l', e', n', h, hc⟩
        cases hdest h
        simp [hc, bind, Except.bind]
    · refine iff_of_false (by simp [bind, Except.bind]) ?_
      rintro ⟨-, l', e', n', h, -⟩
      cases hdest h

theorem exists_locate_of_inode (h : fs.inode p = .ok i) :
    ∃ q d n l, p = q ++ [.name n] ∧ fs.locate p = .ok (.entry d n false) ∧
      fs.Leads maxLinks [] q l (.here d) ∧
      ∃ m e a, fs.Leads l d [.name n] m (.entry e a false) ∧
        fs.child? e a = .ok (some (.file i)) := by
  obtain ⟨htext, m, e, a, hway, hc⟩ := inode_eq_ok_iff.1 h
  obtain ⟨n, hn⟩ := hway.getLast?
  obtain ⟨q, rfl⟩ : ∃ q, p = q ++ [.name n] :=
    ⟨p.dropLast, (List.dropLast_append_getLast? _ hn).symm⟩
  obtain ⟨l, d, hq, hlast⟩ := (leads_append_iff (by simp)).1 hway
  exact ⟨q, d, n, l, rfl, locate_name htext (walk_eq_ok_iff.2 ⟨l, hq⟩), hq, m, e, a, hlast, hc⟩

/-! ## Ways that are kept -/

/-- A directory stands in a directory under a name, or a link that leads to one, through however
many links. -/
def Enterable (fs : Files) (d : Place) (n : String) : Prop :=
  ∃ k l e, fs.resolveFrom k d [.name n] = .ok (.here e, l)

theorem enterable_of_leads (h : fs.Leads k d [.name n] l (.here e)) : fs.Enterable d n :=
  ⟨k, l, e, h.resolveFrom⟩

theorem enterable_of_directory (hc : fs.child? d n = .ok (some .directory)) : fs.Enterable d n :=
  enterable_of_leads (k := 0) (.directory hc (.here 0 _))

theorem Leads.of_file (h : fs.Leads k d [.name n] l dest)
    (hn : fs.node? (d ++ [n]) = some (.file i)) :
    dest = .entry d n false ∧ fs.child? d n = .ok (some (.file i)) := by
  cases h with
  | idle hidle => cases hidle
  | directory hc | link hc => cases hn.symm.trans (child?_eq_some_iff.1 hc).2
  | missing hc => cases hn.symm.trans (child?_eq_none_iff.1 hc).2
  | file hc => exact ⟨rfl, child?_eq_some_iff.2 ⟨(child?_eq_some_iff.1 hc).1, hn⟩⟩

theorem not_enterable_of_file (hn : fs.node? (d ++ [n]) = some (.file i)) :
    ¬ fs.Enterable d n := by
  rintro ⟨k, l, e, h⟩
  cases ((leads_of_resolveFrom h).of_file hn).1

/-- An entry that leads to a name leads to no directory, whatever links may be followed. -/
theorem Leads.not_enterable {a : String} {slash : Bool}
    (h : fs.Leads k d [.name n] l (.entry e a slash)) : ¬ fs.Enterable d n := by
  rintro ⟨k', l', e', h'⟩
  have hadd := h.add k'
  rw [Nat.add_comm k k'] at hadd
  cases (hadd.unique ((leads_of_resolveFrom h').add k)).1

/-- A link on the way can be entered, unless it is at the end. -/
theorem Leads.enterable_or {target : FilePath} (hc : fs.child? d n = .ok (some (.link target)))
    (h : fs.Leads k (base d target) (target ++ p) l dest)
    (hend : ∀ e a slash, dest = .entry e a slash → slash = false) :
    fs.Enterable d n ∨ fs.Leads (k + 1) d [.name n] l dest := by
  have henter {l' e'} (h' : fs.Leads k (base d target) target l' (.here e')) :
      fs.Enterable d n :=
    enterable_of_leads (.link hc (by rwa [List.append_nil]))
  cases dest with
  | here e =>
    obtain ⟨l', e', h', -⟩ := leads_append_here_iff.1 h
    exact .inl (henter h')
  | entry e a slash =>
    obtain rfl := hend e a slash rfl
    by_cases hblank : ∀ part ∈ p, part = .blank
    · have hnil : p = [] := by
        obtain ⟨m, hm⟩ := h.getLast?
        rcases List.eq_nil_or_concat p with rfl | ⟨p, part, rfl⟩
        · rfl
        · have hpart : part = .name m := by simpa using hm
          cases (hblank part (by simp)).symm.trans hpart
      exact .inr (.link hc (by rwa [hnil] at h))
    · obtain ⟨l', e', h', -⟩ := (leads_append_iff hblank).1 h
      exact .inl (henter h')

/-- A way to a directory or a file stays if the entries stay that it comes by: those that can be
entered, and those that lead to its end by themselves. -/
theorem Leads.of_kept (h : fs.Leads k d p l dest)
    (hend : ∀ e a slash, dest = .entry e a slash →
      slash = false ∧ ∃ i, fs'.child? e a = .ok (some (.file i)))
    (kept : ∀ d n node j, j ≤ k → fs.node? (d ++ [n]) = some node →
      fs.Enterable d n ∨ (∃ l, fs.Leads j d [.name n] l dest) → fs'.node? (d ++ [n]) = some node) :
    fs'.Leads k d p l dest := by
  have child {d n node j} (hj : j ≤ k) (hc : fs.child? d n = .ok (some node))
      (hon : fs.Enterable d n ∨ ∃ l, fs.Leads j d [.name n] l dest) :
      fs'.child? d n = .ok (some node) := by
    rw [child?_eq_some_iff] at hc ⊢
    exact ⟨hc.1, kept d n node j hj hc.2 hon⟩
  clear kept
  induction h with
  | here k d => exact .here k d
  | idle hidle _ ih => exact .idle hidle (ih hend child)
  | up _ ih => exact .up (ih hend child)
  | directory hc _ ih =>
    exact .directory (child (Nat.le_refl _) hc (.inl (enterable_of_directory hc))) (ih hend child)
  | link hc h ih =>
    refine .link (child (Nat.le_refl _) hc ?_) (ih hend fun hj => child (Nat.le_succ_of_le hj))
    exact (h.enterable_or hc fun e a slash hdest => (hend e a slash hdest).1).imp_right (⟨_, ·⟩)
  | @file k d n p _ hc _ | @missing k d n p hc _ =>
    obtain ⟨hslash, i, hc'⟩ := hend _ _ _ rfl
    obtain rfl : p = [] := by simpa using hslash
    exact .file hc' nofun

/-- Every way to a directory in the first files is one in the second. -/
def KeepsWays (fs fs' : Files) : Prop :=
  ∀ k d p l e, fs.Leads k d p l (.here e) → fs'.Leads k d p l (.here e)

theorem KeepsWays.refl (fs : Files) : KeepsWays fs fs := fun _ _ _ _ _ h => h

theorem KeepsWays.trans {fs₁ fs₂ fs₃ : Files} (h : KeepsWays fs₁ fs₂) (h' : KeepsWays fs₂ fs₃) :
    KeepsWays fs₁ fs₃ :=
  fun k d p l e hw => h' k d p l e (h k d p l e hw)

theorem keepsWays_of_kept (kept : ∀ d n node, fs.node? (d ++ [n]) = some node →
    fs.Enterable d n → fs'.node? (d ++ [n]) = some node) : KeepsWays fs fs' := by
  intro k d p l e h
  refine h.of_kept nofun fun d n node j _ hn hon => kept d n node hn ?_
  rcases hon with henter | ⟨l, h⟩
  · exact henter
  · exact enterable_of_leads h

theorem KeepsWays.enterable (h : KeepsWays fs fs') (he : fs.Enterable d n) :
    fs'.Enterable d n := by
  obtain ⟨k, l, e, hr⟩ := he
  exact enterable_of_leads (h _ _ _ _ _ (leads_of_resolveFrom hr))

theorem walk_of_keeps (h : KeepsWays fs fs') (hw : fs.walk p = .ok d) : fs'.walk p = .ok d := by
  rw [walk_eq_ok_iff] at hw ⊢
  obtain ⟨l, hl⟩ := hw
  exact ⟨l, h _ _ _ _ _ hl⟩

theorem locate_of_keeps (h : KeepsWays fs fs') (hl : fs.locate p = .ok dest) :
    fs'.locate p = .ok dest := by
  unfold locate at hl ⊢
  split at hl
  · cases hl
  · split at hl
    · rename_i n _
      cases hw : fs.walk p.unslashed.dropLast with
      | error fault => rw [hw] at hl; cases hl
      | ok d => rw [walk_of_keeps h hw]; rwa [hw] at hl
    · cases hw : fs.walk p with
      | error fault => rw [hw] at hl; cases hl
      | ok d => rw [walk_of_keeps h hw]; rwa [hw] at hl

end Upkeep.Files
