import Mathlib.Data.List.Nodup
import Upkeep.Proofs.Locks.Table

/-!
# All locks or none

`acquireAll` takes the locks of several resources one after the other, and may find at any of them
that it cannot go on. By then it has locks of its own, and there are those that the keeper had
before.

**On the way.** The locks are those from before and one for each entry that is new, on a file that
nobody else has open (`Batch`). Each lock that is taken leaves it so (`Batch.acquireUnheld`).

**Turning back.** The new entries are let go, each by the file that it has open, so what is left is
the table and the locks from before (`Batch.undo`).

**In the end** all resources have been taken or none (`acquireAll_all_or_nothing`). Resources that
share a lock file are never taken together (`acquireAll_of_same_path`).
-/

namespace Upkeep.LockKeeper

open Files

/-- The exclusive locks that files carry which have been opened for some resources. -/
def exclusives (es : List (String × OpenFile)) : List FileLock :=
  es.map fun e => ⟨e.2, .exclusive⟩

theorem mem_exclusives {es : List (String × OpenFile)} {l : FileLock} :
    l ∈ exclusives es ↔ ∃ e ∈ es, l = ⟨e.2, .exclusive⟩ := by
  simp only [exclusives, List.mem_map, eq_comm]

/-- A keeper has taken the locks of `es`, the latest first, and nothing else has changed about the
locks since the files were `fs₀`. -/
structure Batch (k : LockKeeper) (fs₀ fs : Files) (es : List (String × OpenFile)) : Prop where
  files : fs.WellFormed
  locks : fs.locks = exclusives es ++ fs₀.locks
  new : ∀ e ∈ es, e.1 ∉ k.names
  names : (es.map (·.1)).Nodup
  /-- Nobody has had these files open before, nor has anybody else now. -/
  others : ∀ l ∈ fs₀.locks, l.holder ∉ es.map (·.2)
  own : (es.map (·.2)).Nodup
  leads : ∀ e ∈ es, fs.inode (k.path e.1) = .ok e.2.inode

namespace Batch

variable {k : LockKeeper} {fs₀ fs : Files} {es : List (String × OpenFile)}

theorem start (hw : fs₀.WellFormed) (k : LockKeeper) : Batch k fs₀ fs₀ [] where
  files := hw
  locks := rfl
  new _ he := nomatch he
  names := .nil
  others _ _ he := nomatch he
  own := .nil
  leads _ he := nomatch he

theorem grow (h : Batch k fs₀ fs es) {fs' : Files} (hgrows : Grows fs fs') :
    Batch k fs₀ fs' es :=
  { h with
    files := hgrows.wellFormed h.files
    locks := hgrows.locks.trans h.locks
    leads := fun e he => inode_of_keeps hgrows.keeps (h.leads e he) }

theorem locked (h : Batch k fs₀ fs es) {e : String × OpenFile} (he : e ∈ es) :
    ⟨e.2, .exclusive⟩ ∈ fs.locks := by
  rw [h.locks]
  exact List.mem_append_left _ (mem_exclusives.2 ⟨e, he, rfl⟩)

theorem take (h : Batch k fs₀ fs es) {r : String} {f : OpenFile} {fs₁ fs₂ : Files}
    (hr : r ∉ (k.enterAll es).names) (hopens : Opens fs (k.path r) f fs₁)
    (hlock : fs₁.tryLock? f .exclusive = some fs₂) : Batch k fs₀ fs₂ ((r, f) :: es) := by
  obtain ⟨-, rfl, hw⟩ := hopens.tryLock? h.files hlock
  rw [names_enterAll, List.mem_append, not_or] at hr
  have hfresh : ∀ l ∈ fs.locks, l.holder ≠ f := hopens.locks ▸ hopens.ne_holder h.files
  refine ⟨hw, ?_, ?_, ?_, ?_, ?_, ?_⟩
  · show _ :: fs₁.locks = _
    rw [hopens.locks, h.locks]
    rfl
  · exact List.forall_mem_cons.2 ⟨hr.2, h.new⟩
  · exact List.nodup_cons.2 ⟨hr.1, h.names⟩
  · intro l hl hmem
    rcases List.mem_cons.1 hmem with heq | hmem
    · exact hfresh l (h.locks ▸ List.mem_append_right _ hl) heq
    · exact h.others l hl hmem
  · refine List.nodup_cons.2 ⟨fun hmem => ?_, h.own⟩
    obtain ⟨e, he, heq⟩ := List.mem_map.1 hmem
    exact hfresh _ (h.locked he) heq
  · have hnodes : fs₁.nodes = (fs₁.withLock f .exclusive).nodes := rfl
    intro e he
    rw [← inode_congr hnodes]
    rcases List.mem_cons.1 he with rfl | he
    · exact hopens.leads
    · exact inode_of_keeps hopens.keeps (h.leads e he)

/-- The next resource is taken as well, or it is not and the batch stays as it is. -/
theorem acquireUnheld (h : Batch k fs₀ fs es) (r : String) :
    (∃ f fs', (k.enterAll es).acquireUnheld fs r .exclusive =
        (true, fs', k.enterAll ((r, f) :: es)) ∧ Batch k fs₀ fs' ((r, f) :: es)) ∨
      ∃ fs', (k.enterAll es).acquireUnheld fs r .exclusive = (false, fs', k.enterAll es) ∧
        Batch k fs₀ fs' es := by
  rw [acquireUnheld_eq]
  split
  · exact .inr ⟨fs, rfl, h⟩
  · rename_i hr
    rcases take_cases (k.enterAll es) fs r .exclusive with
      ⟨f, fs₁, fs₂, hopens, hlock, htake⟩ | ⟨fs', hgrows, htake⟩
    · exact .inl ⟨f, fs₂, htake, h.take hr hopens hlock⟩
    · exact .inr ⟨fs', htake, h.grow hgrows⟩

theorem lookup (h : Batch k fs₀ fs es) {e : String × OpenFile} (he : e ∈ es) :
    (k.enterAll es).held.lookup e.1 = some e.2 := by
  have hes : es.lookup e.1 = some e.2 := (Association.lookup_eq_some_iff_mem h.names).2 he
  rw [enterAll, List.lookup_append, hes, Option.some_or]

end Batch

/-- Giving up resources one after the other lets go of the files that the table has for them. -/
theorem foldl_release_fst {k : LockKeeper} {es : List (String × OpenFile)}
    (hnames : (es.map (·.1)).Nodup) (hes : ∀ e ∈ es, k.held.lookup e.1 = some e.2) (fs : Files) :
    ((es.map (·.1)).foldl (fun (s : Files × LockKeeper) r => s.2.release s.1 r) (fs, k)).1 =
      k.letGoEach fs es := by
  induction es generalizing fs k with
  | nil => rfl
  | cons e es ih =>
    obtain ⟨hnot, hnames⟩ := List.nodup_cons.1 hnames
    have hothers : ∀ e' ∈ es, (k.without e.1).held.lookup e'.1 = some e'.2 := by
      intro e' he'
      have hne : (e'.1 == e.1) = false := by
        rw [beq_eq_false_iff_ne]
        intro heq
        exact hnot (List.mem_map.2 ⟨e', he', heq⟩)
      rw [without, Association.lookup_filter_ne, hne]
      exact hes e' (List.mem_cons_of_mem _ he')
    rw [List.map_cons, List.foldl_cons, release_of_lookup (hes e List.mem_cons_self)]
    exact ih hnames hothers _

theorem Batch.undo {k : LockKeeper} {fs₀ fs : Files} {es : List (String × OpenFile)}
    (h : Batch k fs₀ fs es) :
    ∃ fs', (es.map (·.1)).reverse.foldl (fun (s : Files × LockKeeper) r => s.2.release s.1 r)
        (fs, k.enterAll es) = (fs', k) ∧ fs'.WellFormed ∧ fs'.locks = fs₀.locks := by
  have hnames : (es.reverse.map (·.1)).Nodup := by
    rw [List.map_reverse]
    exact List.nodup_reverse.2 h.names
  have hfiles := foldl_release_fst hnames (fun e he => h.lookup (List.mem_reverse.1 he)) fs
  have htable := foldl_release_snd (es.map (·.1)).reverse fs (k.enterAll es)
  rw [foldl_without_enterAll h.new _ fun r => List.mem_reverse] at htable
  rw [List.map_reverse] at hfiles
  refine ⟨(k.enterAll es).letGoEach fs es.reverse, Prod.ext hfiles htable,
    wellFormed_letGoEach h.files _, ?_⟩
  -- All locks of the batch end, and no other does.
  have hbatch : (exclusives es).filter (fun l => l.holder ∉ es.reverse.map (·.2)) = [] := by
    refine List.filter_eq_nil_iff.2 fun l hl => ?_
    obtain ⟨e, he, rfl⟩ := mem_exclusives.1 hl
    simpa using ⟨e.1, he⟩
  have hbefore : fs₀.locks.filter (fun l => l.holder ∉ es.reverse.map (·.2)) = fs₀.locks := by
    refine List.filter_eq_self.2 fun l hl => ?_
    rw [decide_eq_true_iff, List.map_reverse, List.mem_reverse]
    exact h.others l hl
  rw [locks_letGoEach, h.locks, List.filter_append, hbatch, hbefore, List.nil_append]

/-- From a batch on, all further resources are taken, or the batch is undone. -/
theorem Batch.go {k : LockKeeper} {fs₀ : Files} (rest : List String) :
    ∀ {fs : Files} {es : List (String × OpenFile)}, Batch k fs₀ fs es →
      (∃ es' fs', acquireAll.go (k.enterAll es) fs (es.map (·.1)) rest =
          (some (es'.map (·.1)).reverse, fs', k.enterAll es') ∧ Batch k fs₀ fs' es') ∨
        ∃ fs', acquireAll.go (k.enterAll es) fs (es.map (·.1)) rest = (none, fs', k) ∧
          fs'.WellFormed ∧ fs'.locks = fs₀.locks := by
  induction rest with
  | nil =>
    intro fs es h
    exact .inl ⟨es, fs, rfl, h⟩
  | cons r rest ih =>
    intro fs es h
    rw [acquireAll.go]
    split
    · exact ih h
    · rcases h.acquireUnheld r with ⟨f, fs', htake, h'⟩ | ⟨fs', htake, h'⟩
      · rw [htake]
        exact ih h'
      · obtain ⟨fs₁, hundo, hfiles⟩ := h'.undo
        rw [htake]
        exact .inr ⟨fs₁, by rw [← hundo], hfiles⟩

/-- All resources are taken, each once and each with an exclusive lock of its own, or the table and
everybody's locks are as they were. -/
theorem acquireAll_all_or_nothing {fs : Files} (hw : fs.WellFormed) (k : LockKeeper)
    (rs : List String) :
    (∃ es fs', k.acquireAll fs rs = (some rs.eraseDups, fs', k.enterAll es) ∧
        (es.map (·.1)).reverse = rs.eraseDups ∧ (∀ r ∈ rs.eraseDups, r ∉ k.names) ∧
        fs'.WellFormed ∧ fs'.locks = exclusives es ++ fs.locks) ∨
      ∃ fs', k.acquireAll fs rs = (none, fs', k) ∧ fs'.WellFormed ∧ fs'.locks = fs.locks := by
  rcases (Batch.start hw k).go rs with ⟨es, fs', hgo, hbatch⟩ | hnothing
  · obtain ⟨hl, hnew, -⟩ := acquireAll_some hgo
    rw [hl] at hgo hnew
    exact .inl ⟨es, fs', hgo, hl, hnew, hbatch.files, hbatch.locks⟩
  · exact .inr hnothing

/-- One operation has taken `/data/a`. Another one of the same keeper, which wants `/data/b` as
well, takes that and gives it up again. A third one names a free resource twice and gets it once. -/
theorem acquireAll_all_or_nothing_of_held :
    let fs₀ := (({} : Files).makeDirectories (.ofString "/locks")).1
    let taken := acquireAll { directory := .ofString "/locks" } fs₀ ["/data/a"]
    taken.2.1.WellFormed ∧
      (∃ fs', taken.2.2.acquireAll taken.2.1 ["/data/b", "/data/a"] = (none, fs', taken.2.2) ∧
        fs'.WellFormed ∧ fs'.locks = taken.2.1.locks) ∧
      ∃ f g fs', taken.2.2.acquireAll taken.2.1 ["/data/b", "/data/c", "/data/b"] =
          (some ["/data/b", "/data/c"], fs',
            taken.2.2.enterAll [("/data/c", g), ("/data/b", f)]) ∧
        fs'.WellFormed ∧
          fs'.locks = [⟨g, .exclusive⟩, ⟨f, .exclusive⟩] ++ taken.2.1.locks := by
  intro fs₀ taken
  have hw₀ : fs₀.WellFormed := (grows_makeDirectories {} _).wellFormed wellFormed_empty
  have hw : taken.2.1.WellFormed := by
    rcases acquireAll_all_or_nothing hw₀ { directory := .ofString "/locks" } ["/data/a"] with
      ⟨es, fs, heq, -, -, hw, -⟩ | ⟨fs, heq, hw, -⟩
    · exact (congrArg (·.2.1) heq).symm ▸ hw
    · exact (congrArg (·.2.1) heq).symm ▸ hw
  have hnone : (taken.2.2.acquireAll taken.2.1 ["/data/b", "/data/a"]).1 = none := by
    decide +kernel
  have hsome : (taken.2.2.acquireAll taken.2.1 ["/data/b", "/data/c", "/data/b"]).1 ≠ none := by
    decide +kernel
  refine ⟨hw, ?_, ?_⟩
  · rcases acquireAll_all_or_nothing hw taken.2.2 ["/data/b", "/data/a"] with
      ⟨es, fs, heq, -⟩ | hnothing
    · rw [heq] at hnone
      cases hnone
    · exact hnothing
  · have honce : ["/data/b", "/data/c", "/data/b"].eraseDups = ["/data/b", "/data/c"] := by decide
    rcases acquireAll_all_or_nothing hw taken.2.2 ["/data/b", "/data/c", "/data/b"] with
      ⟨es, fs, heq, hnames, -, hw', hlocks⟩ | ⟨fs, heq, -⟩
    · rw [honce] at heq hnames
      rcases es with _ | ⟨⟨r, g⟩, _ | ⟨⟨q, f⟩, _ | ⟨e, es⟩⟩⟩
      · cases hnames
      · cases hnames
      · cases hnames
        exact ⟨f, g, fs, heq, hw', hlocks⟩
      · have hlength := congrArg List.length hnames
        simp at hlength
    · rw [heq] at hsome
      exact absurd rfl hsome

theorem acquireAll_of_same_path {fs : Files} (hw : fs.WellFormed) (k : LockKeeper)
    {rs : List String} {r q : String} (hr : r ∈ rs) (hq : q ∈ rs) (hne : r ≠ q)
    (hpath : k.path r = k.path q) : (k.acquireAll fs rs).1 = none := by
  rcases (Batch.start hw k).go rs with ⟨es, fs', hgo, hbatch⟩ | ⟨fs', hgo, -⟩
  · have hl := (acquireAll_some hgo).1
    have hentry {r : String} (hr : r ∈ rs) : ∃ f, (r, f) ∈ es := by
      have hmem : r ∈ (es.map (·.1)).reverse := by
        rw [hl, List.mem_eraseDups]
        exact hr
      obtain ⟨e, he, rfl⟩ := List.mem_map.1 (List.mem_reverse.1 hmem)
      exact ⟨e.2, he⟩
    obtain ⟨f, hf⟩ := hentry hr
    obtain ⟨g, hg⟩ := hentry hq
    -- Two exclusive locks of one inode are the same lock.
    have hinode : f.inode = g.inode := by
      have hleads := hbatch.leads (r, f) hf
      rw [show k.path (r, f).1 = k.path (q, g).1 from hpath, hbatch.leads (q, g) hg] at hleads
      exact (Except.ok.inj hleads).symm
    have hsame := hbatch.files.compatible _ (hbatch.locked hf) _ (hbatch.locked hg) hinode
    rcases hsame with heq | ⟨hshared, -⟩
    · have hpair : (r, f) = (q, g) :=
        List.inj_on_of_nodup_map hbatch.own hf hg (congrArg FileLock.holder heq)
      exact absurd (congrArg Prod.fst hpair) hne
    · cases hshared
  · exact congrArg Prod.fst hgo

end Upkeep.LockKeeper
