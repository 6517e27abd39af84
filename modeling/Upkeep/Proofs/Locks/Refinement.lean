import Mathlib.Data.List.Nodup
import Upkeep.Proofs.Locks.Lockfiles

/-!
# Lock files as one table

Keepers that take locks exclusively only, over one directory that nobody else touches, act as if
there were one table of who holds what. `LockTable.serve` answers each call from this table:
a resource is free if nobody holds one with the same file name, and a lock file stands if somebody
holds it, or if it was there from the start and has not been given up since.

One call of a keeper and one line of the table go together (`Mirrors.serve`), so all calls do
(`Mirrors.serveAll`), and the answers of the keepers are those of the table (`refines_serveAll`).
-/

namespace Upkeep

open Files

/-- A call of a keeper that takes locks exclusively only. Where it gives up several resources, it
does so in the order of their ranks. -/
inductive LockCall where
  | create (m : Nat)
  | acquire (m : Nat) (r : String)
  | acquireUnheld (m : Nat) (r : String)
  | check (m : Nat) (r : String)
  | release (m : Nat) (r : String)
  | releaseAll (m : Nat) (rank : String → Nat)
  | drop (m : Nat) (rank : String → Nat)

/-! ## The table -/

/-- Who is there, who holds what, and which files have been given up, by their names. -/
structure LockTable where
  keepers : List Nat := []
  held : List (Nat × String) := []
  released : List String := []

namespace LockTable

variable (name : String → String)

/-- Somebody holds a resource with a file name. -/
def isTaken (t : LockTable) (f : String) : Bool := t.held.any (name ·.2 = f)

/-- A lock file is there, for the names of those that were there from the start. -/
def Stands (stale : String → Prop) (t : LockTable) (f : String) : Prop :=
  t.isTaken name f ∨ stale f ∧ f ∉ t.released

def take (t : LockTable) (m : Nat) (r : String) : Bool × LockTable :=
  if t.isTaken name (name r) then (false, t) else (true, { t with held := (m, r) :: t.held })

def giveUp (t : LockTable) (which : Nat × String → Bool) : LockTable :=
  { t with
    held := t.held.filter fun e => !which e
    released := (t.held.filter which).map (name ·.2) ++ t.released }

/-- The answer of a call and the table after it. Keepers that are not there do nothing. -/
def serve (t : LockTable) : LockCall → Bool × LockTable
  | .create m => if m ∈ t.keepers then (false, t) else (true, { t with keepers := m :: t.keepers })
  | .acquire m r =>
    if m ∉ t.keepers then (false, t)
    else if (m, r) ∈ t.held then (true, t) else t.take name m r
  | .acquireUnheld m r => if m ∉ t.keepers then (false, t) else t.take name m r
  | .check m r => (m ∈ t.keepers && t.isTaken name (name r), t)
  | .release m r => if m ∉ t.keepers then (false, t) else (true, t.giveUp name (· = (m, r)))
  | .releaseAll m _ => if m ∉ t.keepers then (false, t) else (true, t.giveUp name (·.1 = m))
  | .drop m _ =>
    if m ∉ t.keepers then (false, t)
    else (true, { t.giveUp name (·.1 = m) with keepers := t.keepers.filter (· != m) })

/-- The table after some calls. -/
def serveAll (t : LockTable) (cs : List LockCall) : LockTable :=
  cs.foldl (fun t c => (t.serve name c).2) t

/-- The answers of some calls. -/
def answers (t : LockTable) : List LockCall → List Bool
  | [] => []
  | c :: cs => (t.serve name c).1 :: (t.serve name c).2.answers cs

theorem isTaken_iff {t : LockTable} {f : String} :
    t.isTaken name f ↔ ∃ m r, (m, r) ∈ t.held ∧ name r = f := by
  simp [isTaken]

theorem take_fst (t : LockTable) (m : Nat) (r : String) :
    (t.take name m r).1 = !t.isTaken name (name r) := by
  unfold take
  split <;> simp [*]

theorem mem_held_giveUp {t : LockTable} {which : Nat × String → Bool} {e : Nat × String} :
    e ∈ (t.giveUp name which).held ↔ e ∈ t.held ∧ which e = false := by
  simp [giveUp]

theorem stands_take {stale : String → Prop} {t : LockTable} {m : Nat} {r f : String} :
    ({ t with held := (m, r) :: t.held } : LockTable).Stands name stale f ↔
      name r = f ∨ t.Stands name stale f := by
  simp [Stands, isTaken, or_assoc]

/-- The files that go are those of what is given up, if nobody else holds something with these
names. -/
theorem stands_giveUp {stale : String → Prop} {t : LockTable} {which : Nat × String → Bool}
    {f : String} (hlone : ∀ e ∈ t.held, ∀ e' ∈ t.held, name e.2 = name e'.2 → e = e') :
    (t.giveUp name which).Stands name stale f ↔
      t.Stands name stale f ∧ ∀ e ∈ t.held, which e → name e.2 ≠ f := by
  have htaken : (t.giveUp name which).isTaken name f ↔
      t.isTaken name f ∧ ∀ e ∈ t.held, which e → name e.2 ≠ f := by
    simp only [isTaken, List.any_eq_true, mem_held_giveUp, decide_eq_true_iff]
    constructor
    · rintro ⟨e, ⟨he, hkept⟩, rfl⟩
      refine ⟨⟨e, he, rfl⟩, fun e' he' hgone heq => ?_⟩
      rw [hlone e' he' e he heq, hkept] at hgone
      cases hgone
    · rintro ⟨⟨e, he, rfl⟩, hnone⟩
      exact ⟨e, ⟨he, Bool.eq_false_iff.2 fun hgone => hnone e he hgone rfl⟩, rfl⟩
  have hreleased : f ∉ (t.giveUp name which).released ↔
      f ∉ t.released ∧ ∀ e ∈ t.held, which e → name e.2 ≠ f := by
    simp only [giveUp, List.mem_append, List.mem_map, List.mem_filter]
    grind
  rw [Stands, htaken, hreleased, Stands]
  tauto

theorem giveUp_eq_self {t : LockTable} {which : Nat × String → Bool}
    (h : ∀ e ∈ t.held, which e = false) : t.giveUp name which = t := by
  have hkept : t.held.filter (fun e => !which e) = t.held :=
    List.filter_eq_self.2 fun e he => by rw [h e he]; rfl
  have hgone : t.held.filter which = [] :=
    List.filter_eq_nil_iff.2 fun e he => by rw [h e he]; exact Bool.false_ne_true
  rw [giveUp, hkept, hgone]
  rfl

end LockTable

/-! ## Keepers that serve calls -/

namespace LockKeeper

/-- The open files in the order of the ranks of their resources. -/
def ranked (k : LockKeeper) (rank : String → Nat) : List (String × OpenFile) :=
  k.held.mergeSort fun e e' => rank e.1 ≤ rank e'.1

/-- Gives up everything in some order. -/
def releaseRanked (k : LockKeeper) (fs : Files) (rank : String → Nat) : Files × LockKeeper :=
  (k.letGoEach fs (k.ranked rank), { k with held := [] })

/-- Giving up everything in the order of the table is one of these orders. -/
theorem releaseRanked_const (k : LockKeeper) (fs : Files) (n : Nat) :
    k.releaseRanked fs (fun _ => n) = k.releaseAll fs := by
  have hsorted : k.held.mergeSort (fun _ _ => decide (n ≤ n)) = k.held := by
    refine List.mergeSort_of_pairwise (List.pairwise_iff_forall_sublist.2 fun _ => ?_)
    exact decide_eq_true (Nat.le_refl n)
  rw [releaseRanked, ranked, hsorted, releaseAll]

end LockKeeper

namespace Keepers

variable (name : String → String)

/-- The answer of a call, and the keepers after it. The lock files are named by `name`. -/
def serve (s : Keepers) : LockCall → Bool × Keepers
  | .create m =>
    match s.keeper? m with
    | some _ => (false, s)
    | none =>
      match LockKeeper.create s.files s.directory with
      | (files, .ok k) => (true, s.put m files (some { k with fileName := name }))
      | (files, .error _) => (false, s.put m files none)
  | .acquire m r => s.ask m fun k => k.acquire s.files r .exclusive
  | .acquireUnheld m r => s.ask m fun k => k.acquireUnheld s.files r .exclusive
  | .check m r => s.ask m fun k => ((k.probe s.files r).1, (k.probe s.files r).2, k)
  | .release m r => s.ask m fun k => (true, k.release s.files r)
  | .releaseAll m rank => s.ask m fun k => (true, k.releaseRanked s.files rank)
  | .drop m rank =>
    match s.keeper? m with
    | none => (false, s)
    | some k => (true, s.put m (k.releaseRanked s.files rank).1 none)

/-- The keepers after some calls. -/
def serveAll (s : Keepers) (cs : List LockCall) : Keepers :=
  cs.foldl (fun s c => (s.serve name c).2) s

/-- The answers of some calls. -/
def answers (s : Keepers) : List LockCall → List Bool
  | [] => []
  | c :: cs => (s.serve name c).1 :: (s.serve name c).2.answers cs

end Keepers

/-! ## What the table says about keepers -/

namespace Keepers

variable {name : String → String} {s : Keepers}

/-- Somebody holds a resource with the file name of this one. -/
def Taken (s : Keepers) (name : String → String) (r : String) : Prop :=
  ∃ m r', s.fileOf? m r' ≠ none ∧ name r' = name r

/-- What keepers answer, and which lock files there are, goes by who holds what. The lock files
named by `stale` were there from the start. -/
structure ActsAs (name : String → String) (directory : FilePath) (stale : String → Prop)
    (s : Keepers) (t : LockTable) : Prop where
  keepers : ∀ m, s.keeper? m ≠ none ↔ m ∈ t.keepers
  held : ∀ m r, s.fileOf? m r ≠ none ↔ (m, r) ∈ t.held
  acquire : ∀ m r, s.keeper? m ≠ none →
    ((s.serve name (.acquire m r)).1 ↔ s.fileOf? m r ≠ none ∨ ¬ s.Taken name r)
  acquireUnheld : ∀ m r, s.keeper? m ≠ none →
    ((s.serve name (.acquireUnheld m r)).1 ↔ ¬ s.Taken name r)
  check : ∀ m r, s.keeper? m ≠ none → ((s.serve name (.check m r)).1 ↔ s.Taken name r)
  release : ∀ m r, s.fileOf? m r = none → (s.serve name (.release m r)).2 = s
  file : ∀ r, s.files.pathExists (directory ++ [.name (name r)]) ↔
    s.Taken name r ∨ stale (name r) ∧ name r ∉ t.released

/-- What is not held is given up without a trace. -/
theorem serve_release_of_fileOf?_eq_none {m : Nat} {r : String} (h : s.fileOf? m r = none) :
    (s.serve name (.release m r)).2 = s := by
  simp only [serve, ask]
  cases hk : s.keeper? m with
  | none => rfl
  | some k =>
    rw [fileOf?_of_keeper hk, LockKeeper.lookup_eq_none_iff] at h
    dsimp only
    rw [LockKeeper.release_of_not_mem h]
    obtain ⟨directory, files, keeper?⟩ := s
    simp only [put, mk.injEq, true_and]
    funext n
    split
    · rename_i hn
      exact hn ▸ hk.symm
    · rfl

end Keepers

/-! ## One call -/

/-- The keepers, their locks and the lock files are as the table says. The lock files named by
`stale` were there from the start. -/
structure Mirrors (name : String → String) (directory : FilePath) (place : Place)
    (stale : String → Prop) (s : Keepers) (t : LockTable) : Prop where
  sameDirectory : s.directory = directory
  kept : Kept name directory place s.files s.fileOf?
  keeper : ∀ m k, s.keeper? m = some k →
    k.directory = directory ∧ k.fileName = name ∧ k.names.Nodup
  keepers : ∀ m, s.keeper? m ≠ none ↔ m ∈ t.keepers
  held : ∀ m r, s.fileOf? m r ≠ none ↔ (m, r) ∈ t.held
  stands : ∀ r, s.files.node? (place ++ [name r]) ≠ none ↔ t.Stands name stale (name r)

namespace Mirrors

open Keepers

variable {name : String → String} {directory : FilePath} {place : Place} {stale : String → Prop}
  {s : Keepers} {t : LockTable} {k : LockKeeper} {m : Nat} {r : String}

theorem keeper?_eq_none_iff (h : Mirrors name directory place stale s t) :
    s.keeper? m = none ↔ m ∉ t.keepers :=
  not_iff_not.1 (by simpa using h.keepers m)

theorem path (h : Mirrors name directory place stale s t) (hk : s.keeper? m = some k)
    (r : String) : k.path r = directory ++ [.name (name r)] := by
  obtain ⟨hdirectory, hfileName, -⟩ := h.keeper m k hk
  rw [LockKeeper.path, hdirectory, hfileName]

theorem mem_names_iff (h : Mirrors name directory place stale s t) (hk : s.keeper? m = some k) :
    r ∈ k.names ↔ (m, r) ∈ t.held := by
  rw [← h.held, fileOf?_of_keeper hk, ne_eq, LockKeeper.lookup_eq_none_iff, not_not]

theorem isTaken_iff (h : Mirrors name directory place stale s t) (r : String) :
    t.isTaken name (name r) ↔ ∃ m r', s.fileOf? m r' ≠ none ∧ name r' = name r := by
  simp only [LockTable.isTaken_iff, h.held]

theorem eq_of_name (h : Mirrors name directory place stale s t) (e : Nat × String)
    (he : e ∈ t.held) (e' : Nat × String) (he' : e' ∈ t.held) (hname : name e.2 = name e'.2) :
    e = e' := by
  obtain ⟨f, hf⟩ := Option.ne_none_iff_exists'.1 ((h.held e.1 e.2).2 he)
  obtain ⟨f', hf'⟩ := Option.ne_none_iff_exists'.1 ((h.held e'.1 e'.2).2 he')
  obtain ⟨hm, hr⟩ := h.kept.eq_of_name hf hf' hname
  exact Prod.ext hm hr

/-- What one keeper asks for is asked of the table. -/
theorem ask (h : Mirrors name directory place stale s t)
    {f : LockKeeper → Bool × Files × LockKeeper} {a : Bool × LockTable}
    (hf : ∀ k, s.keeper? m = some k → (f k).1 = a.1 ∧
      Mirrors name directory place stale (s.put m (f k).2.1 (some (f k).2.2)) a.2) :
    (s.ask m f).1 = (if m ∉ t.keepers then (false, t) else a).1 ∧
      Mirrors name directory place stale (s.ask m f).2
        (if m ∉ t.keepers then (false, t) else a).2 := by
  unfold Keepers.ask
  cases hk : s.keeper? m with
  | none =>
    rw [if_pos (h.keeper?_eq_none_iff.1 hk)]
    exact ⟨rfl, h⟩
  | some k =>
    rw [if_neg (not_not.2 ((h.keepers m).1 (by simp [hk])))]
    exact hf k hk

theorem keepers_put (h : Mirrors name directory place stale s t) (hk : s.keeper? m = some k)
    (files : Files) (k' : LockKeeper) (m' : Nat) :
    (s.put m files (some k')).keeper? m' ≠ none ↔ m' ∈ t.keepers := by
  rw [← h.keepers]
  by_cases hm : m' = m
  · simp [put, hm, hk]
  · simp [put, hm]

theorem keeper_put (h : Mirrors name directory place stale s t) {k? : Option LockKeeper}
    (hk? : ∀ k', k? = some k' → k'.directory = directory ∧ k'.fileName = name ∧ k'.names.Nodup)
    (files : Files) (m' : Nat) (k' : LockKeeper) (hk' : (s.put m files k?).keeper? m' = some k') :
    k'.directory = directory ∧ k'.fileName = name ∧ k'.names.Nodup := by
  simp only [put] at hk'
  split at hk'
  · exact hk? k' hk'
  · exact h.keeper m' k' hk'

/-- Files that look the same to all keepers are the same to the table. -/
theorem put_files (h : Mirrors name directory place stale s t) (hk : s.keeper? m = some k)
    {files : Files} (hkept : Kept name directory place files s.fileOf?)
    (hnode : ∀ r, files.node? (place ++ [name r]) = s.files.node? (place ++ [name r])) :
    Mirrors name directory place stale (s.put m files (some k)) t where
  sameDirectory := h.sameDirectory
  kept := by
    have hsame : (s.put m files (some k)).fileOf? = s.fileOf? :=
      funext fun m' => funext fun r => fileOf?_put_same hk files m' r
    rw [hsame]
    exact hkept
  keeper := h.keeper_put (fun k' hk' => h.keeper m k' (hk.trans hk')) files
  keepers := h.keepers_put hk files k
  held m' r := by rw [fileOf?_put_same hk, h.held]
  stands r := (not_congr (by rw [← hnode r]; rfl)).trans (h.stands r)

theorem put_same (h : Mirrors name directory place stale s t) (hk : s.keeper? m = some k) :
    Mirrors name directory place stale (s.put m s.files (some k)) t :=
  h.put_files hk h.kept fun _ => rfl

theorem take (h : Mirrors name directory place stale s t) (hk : s.keeper? m = some k)
    (hr : r ∉ k.names) : (k.take s.files r .exclusive).1 = (t.take name m r).1 ∧
      Mirrors name directory place stale (s.put m (k.take s.files r .exclusive).2.1
        (some (k.take s.files r .exclusive).2.2)) (t.take name m r).2 := by
  unfold LockTable.take
  by_cases htaken : t.isTaken name (name r)
  · rw [h.kept.take_of_taken (h.path hk r) ((h.isTaken_iff r).1 htaken), if_pos htaken]
    exact ⟨rfl, h.put_files hk h.kept.nextHandle fun _ => rfl⟩
  · obtain ⟨f, fs, htake, hkept, hnode⟩ := h.kept.take_of_free (h.path hk r) m fun m' r' hf hname =>
      htaken ((h.isTaken_iff r).2 ⟨m', r', hf, hname⟩)
    have htable : (s.put m fs (some (k.enter r f))).fileOf? =
        fun m' r' => if m' = m ∧ r' = r then some f else s.fileOf? m' r' := by
      funext m' r'
      rw [fileOf?_put]
      by_cases hm : m' = m
      · subst hm
        by_cases hr' : r' = r
        · simp [LockKeeper.enter, hr']
        · have hne : (r' == r) = false := by simp [hr']
          simp [LockKeeper.enter, hr', List.lookup_cons, hne, fileOf?_of_keeper hk]
      · simp [hm]
    rw [htake, if_neg htaken]
    refine ⟨rfl, h.sameDirectory, htable ▸ hkept, ?_, h.keepers_put hk fs _, fun m' r' => ?_,
      fun r' => ?_⟩
    · refine h.keeper_put (fun k' hk' => ?_) fs
      obtain rfl := Option.some.inj hk'
      obtain ⟨hdirectory, hfileName, hnodup⟩ := h.keeper m k hk
      exact ⟨hdirectory, hfileName, List.nodup_cons.2 ⟨hr, hnodup⟩⟩
    · rw [htable, List.mem_cons, ← h.held, Prod.mk.injEq]
      by_cases heq : m' = m ∧ r' = r <;> simp [heq]
    · rw [LockTable.stands_take, ← h.stands, eq_comm]
      exact hnode r'

/-- Resources of one keeper are given up as the table says, in whatever order. -/
theorem giveUp (h : Mirrors name directory place stale s t) (hk : s.keeper? m = some k)
    {es : List (String × OpenFile)} {k? : Option LockKeeper} {which : Nat × String → Bool}
    {keepers : List Nat} (hes : es.Nodup) (hmem : ∀ e ∈ es, e ∈ k.held)
    (hwhich : ∀ m' r, (m', r) ∈ t.held → (which (m', r) ↔ m' = m ∧ r ∈ es.map (·.1)))
    (hlookup : ∀ r, k?.bind (·.held.lookup r) =
      if r ∈ es.map (·.1) then none else k.held.lookup r)
    (hk? : ∀ k', k? = some k' → k'.directory = k.directory ∧ k'.fileName = k.fileName ∧
      k'.names.Nodup)
    (hkeepers : ∀ m', (s.put m s.files k?).keeper? m' ≠ none ↔ m' ∈ keepers) :
    Mirrors name directory place stale (s.put m (k.letGoEach s.files es) k?)
      { t.giveUp name which with keepers } := by
  obtain ⟨hdirectory, hfileName, hnodup⟩ := h.keeper m k hk
  have hheld (e : String × OpenFile) (he : e ∈ es) : s.fileOf? m e.1 = some e.2 := by
    rw [fileOf?_of_keeper hk, Association.lookup_eq_some_iff_mem hnodup]
    exact hmem e he
  have hkeys : (es.map (·.1)).Nodup := by
    refine List.Nodup.map_on (fun e he e' he' heq => Prod.ext heq ?_) hes
    have hfile := hheld e he
    rw [heq, hheld e' he'] at hfile
    exact (Option.some.inj hfile).symm
  have htable : (s.put m (k.letGoEach s.files es) k?).fileOf? =
      fun m' r => if m' = m ∧ r ∈ es.map (·.1) then none else s.fileOf? m' r := by
    funext m' r
    rw [fileOf?_put, hlookup]
    by_cases hm : m' = m
    · subst hm
      by_cases hr : r ∈ es.map (·.1)
      · rw [if_pos rfl, if_pos hr, if_pos ⟨rfl, hr⟩]
      · rw [if_pos rfl, if_neg hr, if_neg fun hgone => hr hgone.2, fileOf?_of_keeper hk]
    · rw [if_neg hm, if_neg fun hgone => hm hgone.1]
  obtain ⟨hkept, hnode⟩ := h.kept.letGoEach (h.path hk) hheld hkeys
  refine ⟨h.sameDirectory, htable ▸ hkept, ?_, hkeepers, fun m' r => ?_, fun r => ?_⟩
  · refine h.keeper_put (fun k' hk' => ?_) _
    obtain ⟨hdirectory', hfileName', hnodup'⟩ := hk? k' hk'
    exact ⟨hdirectory'.trans hdirectory, hfileName'.trans hfileName, hnodup'⟩
  · rw [htable]
    dsimp only
    refine Iff.trans ?_ (LockTable.mem_held_giveUp name).symm
    by_cases hgone : m' = m ∧ r ∈ es.map (·.1)
    · rw [if_pos hgone]
      exact iff_of_false (fun hnone => hnone rfl) fun hstays =>
        Bool.eq_false_iff.1 hstays.2 ((hwhich m' r hstays.1).2 hgone)
    · rw [if_neg hgone, h.held]
      refine (and_iff_left_of_imp fun hheld => ?_).symm
      exact Bool.eq_false_iff.2 (mt (hwhich m' r hheld).1 hgone)
  · refine (hnode r).trans ((and_congr (h.stands r) ?_).trans
      (LockTable.stands_giveUp name h.eq_of_name).symm)
    constructor
    · rintro hnone ⟨m', r'⟩ hheld hgone
      obtain ⟨-, hr'⟩ := (hwhich m' r' hheld).1 hgone
      obtain ⟨e, he, rfl⟩ := List.mem_map.1 hr'
      exact hnone e he
    · intro hnone e he
      have hin : (m, e.1) ∈ t.held := (h.held m e.1).1 (by simp [hheld e he])
      exact hnone (m, e.1) hin ((hwhich m e.1 hin).2 ⟨rfl, List.mem_map_of_mem he⟩)

theorem create (h : Mirrors name directory place stale s t) :
    (s.serve name (.create m)).1 = (t.serve name (.create m)).1 ∧
      Mirrors name directory place stale (s.serve name (.create m)).2
        (t.serve name (.create m)).2 := by
  simp only [Keepers.serve, LockTable.serve]
  cases hk : s.keeper? m with
  | some k =>
    rw [if_pos ((h.keepers m).1 (by simp [hk]))]
    exact ⟨rfl, h⟩
  | none =>
    have hthere : s.files.isDirectory s.directory = true :=
      h.sameDirectory ▸ isDirectory_iff_walk.2 ⟨h.kept.text, place, h.kept.walk⟩
    have hmade : s.files.makeDirectories s.directory = (s.files, .ok ()) :=
      makeDirectories_of_isDirectory hthere
    rw [if_neg (h.keeper?_eq_none_iff.1 hk), LockKeeper.create, hmade]
    have hsame (m' : Nat) (r : String) : (s.put m s.files
        (some ({ directory := s.directory, fileName := name } : LockKeeper))).fileOf? m' r =
        s.fileOf? m' r := by
      rw [fileOf?_put]
      split
      · rename_i hm
        rw [fileOf?, hm, hk]
        rfl
      · rfl
    refine ⟨rfl, h.sameDirectory, ?_, h.keeper_put (fun k' hk' => ?_) _, fun m' => ?_,
      fun m' r => ?_, h.stands⟩
    · have hkept := h.kept
      rwa [← funext fun m' => funext (hsame m')] at hkept
    · obtain rfl := Option.some.inj hk'
      exact ⟨h.sameDirectory, rfl, .nil⟩
    · rw [List.mem_cons, ← h.keepers]
      by_cases hm : m' = m <;> simp [put, hm]
    · rw [hsame]
      exact h.held m' r

theorem release (h : Mirrors name directory place stale s t) (hk : s.keeper? m = some k)
    (r : String) : Mirrors name directory place stale
      (s.put m (k.release s.files r).1 (some (k.release s.files r).2))
      (t.giveUp name (· = (m, r))) := by
  cases hl : k.held.lookup r with
  | none =>
    have hnot : r ∉ k.names := LockKeeper.lookup_eq_none_iff.1 hl
    rw [LockKeeper.release_of_not_mem hnot, LockTable.giveUp_eq_self name fun e he => ?_]
    · exact h.put_same hk
    · refine decide_eq_false ?_
      rintro rfl
      exact hnot ((h.mem_names_iff hk).2 he)
  | some f =>
    obtain ⟨-, -, hnodup⟩ := h.keeper m k hk
    have hone : LockKeeper.letGo s.files (k.path r) f = k.letGoEach s.files [(r, f)] := rfl
    rw [LockKeeper.release_of_lookup hl, hone]
    refine h.giveUp hk (by simp) ?_ ?_ ?_ ?_ (h.keepers_put hk s.files _)
    · exact List.forall_mem_singleton.2 (Association.mem_of_lookup hl)
    · intro m' r' _
      simp
    · intro r'
      simp [LockKeeper.without]
    · intro k' hk'
      obtain rfl := Option.some.inj hk'
      exact ⟨rfl, rfl, by rw [LockKeeper.names_without]; exact hnodup.filter _⟩

/-- A keeper gives up all, in whatever order, and stays without anything or not at all. -/
theorem releaseRanked (h : Mirrors name directory place stale s t) (hk : s.keeper? m = some k)
    (rank : String → Nat) {k? : Option LockKeeper} {keepers : List Nat}
    (hk? : ∀ k', k? = some k' → k' = { k with held := [] })
    (hkeepers : ∀ m', (s.put m s.files k?).keeper? m' ≠ none ↔ m' ∈ keepers) :
    Mirrors name directory place stale (s.put m (k.releaseRanked s.files rank).1 k?)
      { t.giveUp name (·.1 = m) with keepers } := by
  obtain ⟨-, -, hnodup⟩ := h.keeper m k hk
  have hperm : (k.ranked rank).Perm k.held := List.mergeSort_perm _ _
  have hnames (r : String) : r ∈ (k.ranked rank).map (·.1) ↔ r ∈ k.names := (hperm.map _).mem_iff
  refine h.giveUp hk (hperm.nodup_iff.2 (List.Nodup.of_map _ hnodup)) ?_ ?_ ?_ ?_ hkeepers
  · exact fun e he => hperm.mem_iff.1 he
  · intro m' r hheld
    rw [decide_eq_true_iff, hnames]
    refine (and_iff_left_of_imp ?_).symm
    rintro rfl
    exact (h.mem_names_iff hk).2 hheld
  · intro r
    have hgone : k?.bind (·.held.lookup r) = none := by
      rw [Option.bind_eq_none_iff]
      intro k' hk'
      rw [hk? k' hk']
      rfl
    rw [hgone]
    split
    · rfl
    · rename_i hnot
      exact (LockKeeper.lookup_eq_none_iff.2 fun hr => hnot ((hnames r).2 hr)).symm
  · intro k' hk'
    rw [hk? k' hk']
    exact ⟨rfl, rfl, .nil⟩

theorem serve (h : Mirrors name directory place stale s t) (c : LockCall) :
    (s.serve name c).1 = (t.serve name c).1 ∧
      Mirrors name directory place stale (s.serve name c).2 (t.serve name c).2 := by
  cases c with
  | create m => exact h.create
  | acquire m r =>
    refine h.ask fun k hk => ?_
    rw [LockKeeper.acquire_eq]
    by_cases hr : r ∈ k.names
    · rw [if_pos hr, if_pos ((h.mem_names_iff hk).1 hr)]
      exact ⟨rfl, h.put_same hk⟩
    · rw [if_neg hr, if_neg (mt (h.mem_names_iff hk).2 hr)]
      exact h.take hk hr
  | acquireUnheld m r =>
    refine h.ask fun k hk => ?_
    rw [LockKeeper.acquireUnheld_eq]
    by_cases hr : r ∈ k.names
    · have htaken : t.isTaken name (name r) :=
        (LockTable.isTaken_iff name).2 ⟨m, r, (h.mem_names_iff hk).1 hr, rfl⟩
      rw [if_pos hr, LockTable.take, if_pos htaken]
      exact ⟨rfl, h.put_same hk⟩
    · rw [if_neg hr]
      exact h.take hk hr
  | check m r =>
    simp only [Keepers.serve, Keepers.ask, LockTable.serve]
    cases hk : s.keeper? m with
    | none => simpa [h.keeper?_eq_none_iff.1 hk] using h
    | some k =>
      have hm : m ∈ t.keepers := (h.keepers m).1 (by simp [hk])
      obtain ⟨hanswer, hkept, hnode⟩ := h.kept.probe (h.path hk r) fun hr =>
        ⟨m, (h.held m r).2 ((h.mem_names_iff hk).1 hr)⟩
      refine ⟨?_, h.put_files hk hkept fun r' => hnode _⟩
      rw [decide_eq_true hm, Bool.true_and, Bool.eq_iff_iff, hanswer, h.isTaken_iff]
  | release m r => exact h.ask fun k hk => ⟨rfl, h.release hk r⟩
  | releaseAll m rank =>
    refine h.ask fun k hk => ⟨rfl, ?_⟩
    exact h.releaseRanked hk rank (fun k' hk' => (Option.some.inj hk').symm)
      (h.keepers_put hk s.files _)
  | drop m rank =>
    simp only [Keepers.serve, LockTable.serve]
    cases hk : s.keeper? m with
    | none =>
      rw [if_pos (h.keeper?_eq_none_iff.1 hk)]
      exact ⟨rfl, h⟩
    | some k =>
      rw [if_neg (not_not.2 ((h.keepers m).1 (by simp [hk])))]
      refine ⟨rfl, h.releaseRanked hk rank (by simp) fun m' => ?_⟩
      rw [List.mem_filter, ← h.keepers]
      by_cases hm : m' = m <;> simp [put, hm]

/-! ## All calls -/

theorem serveAll (h : Mirrors name directory place stale s t) (cs : List LockCall) :
    s.answers name cs = t.answers name cs ∧
      Mirrors name directory place stale (s.serveAll name cs) (t.serveAll name cs) := by
  induction cs generalizing s t with
  | nil => exact ⟨rfl, h⟩
  | cons c cs ih =>
    obtain ⟨hanswer, hafter⟩ := h.serve c
    obtain ⟨hanswers, hrun⟩ := ih hafter
    exact ⟨congrArg₂ List.cons hanswer hanswers, hrun⟩

/-- Keepers that are as the table says act as it says. -/
theorem actsAs (h : Mirrors name directory place stale s t) :
    s.ActsAs name directory stale t where
  keepers := h.keepers
  held := h.held
  acquire m r hm := by
    rw [(h.serve _).1, LockTable.serve, if_neg (not_not.2 ((h.keepers m).1 hm)), h.held]
    split
    · simp [*]
    · simp [*, LockTable.take_fst, ← Bool.not_eq_true, h.isTaken_iff, Taken]
  acquireUnheld m r hm := by
    rw [(h.serve _).1, LockTable.serve, if_neg (not_not.2 ((h.keepers m).1 hm)),
      LockTable.take_fst, Bool.not_eq_true', ← Bool.not_eq_true, h.isTaken_iff]
    rfl
  check m r hm := by
    rw [(h.serve _).1, LockTable.serve, decide_eq_true ((h.keepers m).1 hm), Bool.true_and,
      h.isTaken_iff]
    rfl
  release _ _ := serve_release_of_fileOf?_eq_none
  file r := by
    rw [h.kept.pathExists_iff, h.stands, LockTable.Stands, h.isTaken_iff]
    rfl

end Mirrors

namespace Keepers

variable {name : String → String} {directory : FilePath} {place : Place} {files : Files}

theorem mirrors_start (hw : files.WellFormed) (hroom : LockRoom name directory place files)
    (hunlocked : ∀ r, ∀ l ∈ files.locks,
      files.node? (place ++ [name r]) ≠ some (.file l.holder.inode)) :
    Mirrors name directory place (fun f => files.pathExists (directory ++ [.name f]))
      (start directory files) {} where
  sameDirectory := rfl
  kept := {
    toLockRoom := hroom
    files := hw
    locked := fun _ _ _ hf => nomatch hf
    holder := fun l hl r hn => absurd hn (hunlocked r l hl)
    own := fun _ _ _ _ _ hf => nomatch hf }
  keeper _ _ hk := nomatch hk
  keepers m := by simp [start]
  held m r := by simp [start, fileOf?]
  stands r := by
    rw [LockTable.Stands, hroom.pathExists_iff]
    simp [LockTable.isTaken, start]

/-- Keepers over one directory act as one table of who holds what, from any lock files on that
nobody has locked, and whatever the names of the lock files. -/
theorem refines_serveAll (hw : files.WellFormed) (hroom : LockRoom name directory place files)
    (hunlocked : ∀ r, ∀ l ∈ files.locks,
      files.node? (place ++ [name r]) ≠ some (.file l.holder.inode)) (cs : List LockCall) :
    (start directory files).answers name cs = ({} : LockTable).answers name cs ∧
      ((start directory files).serveAll name cs).ActsAs name directory
        (fun f => files.pathExists (directory ++ [.name f]))
        (({} : LockTable).serveAll name cs) := by
  obtain ⟨hanswers, hmirrors⟩ := (mirrors_start hw hroom hunlocked).serveAll cs
  exact ⟨hanswers, hmirrors.actsAs⟩

/-- A directory of lock files in which that of one resource has been left behind. -/
def leftBehind : Files where
  nodes := [(["locks"], .directory), (["locks", lockFileName "/data/a"], .file 0)]
  nextInode := 1

/-- Two keepers, one of which takes over the lock file that has been left behind. -/
def takingOver : List LockCall :=
  [.create 0, .create 1, .acquire 0 "/data/a", .release 1 "/data/a", .acquireUnheld 1 "/data/b",
    .releaseAll 0 String.length, .check 1 "/data/a"]

theorem refines_serveAll_takingOver :
    leftBehind.WellFormed ∧ LockRoom lockFileName [.blank, .name "locks"] ["locks"] leftBehind ∧
      (start [.blank, .name "locks"] leftBehind).answers lockFileName takingOver =
        ({} : LockTable).answers lockFileName takingOver ∧
      ((start [.blank, .name "locks"] leftBehind).serveAll lockFileName takingOver).ActsAs
        lockFileName [.blank, .name "locks"]
        (fun f => leftBehind.pathExists ([.blank, .name "locks"] ++ [.name f]))
        (({} : LockTable).serveAll lockFileName takingOver) := by
  have hnode (r : String) : leftBehind.node? (["locks"] ++ [lockFileName r]) =
      if lockFileName r = lockFileName "/data/a" then some (.file 0) else none := by
    simp only [node?, leftBehind, List.cons_append, List.nil_append, List.lookup_cons]
    by_cases h : lockFileName r = lockFileName "/data/a"
    · simp [h]
    · simp [h, beq_eq_false_iff_ne.2 h]
  have hw : leftBehind.WellFormed := by
    refine ⟨fun q i hq => ?_, nofun, nofun, nofun, nofun⟩
    simp only [node?, leftBehind, List.lookup_cons] at hq
    split at hq
    · cases hq
    · split at hq
      · cases hq
      · split at hq
        · obtain rfl : 0 = i := by simpa using hq
          exact Nat.zero_lt_one
        · cases hq
  have hroom : LockRoom lockFileName [.blank, .name "locks"] ["locks"] leftBehind := by
    refine ⟨rfl, by decide, lookup_lockFileName (by simp) (by decide) (by decide),
      fun r node hn => ?_, fun r r' i hn hn' => ?_⟩
    · rw [hnode] at hn
      split at hn
      · exact ⟨0, (Option.some.inj hn).symm⟩
      · cases hn
    · rw [hnode, Option.ite_none_right_eq_some] at hn hn'
      exact hn.1.trans hn'.1.symm
  exact ⟨hw, hroom, refines_serveAll hw hroom (fun _ _ hl => nomatch hl) takingOver⟩

end Keepers

end Upkeep
