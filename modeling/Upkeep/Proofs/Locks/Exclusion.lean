import Upkeep.Proofs.Locks.Interleaving

/-!
# Exclusion between calls that overlap

A file that is locked after its name is gone, or whose name is removed after it is locked, is one
that nobody else can find. In runs without such steps (`Timely`) all files that are locked stand at
their names (`Anchored`), and no two keepers ever have the same resource (`exclusive_of_timely`).

One late step of either kind is enough to break that: a name that is removed too late
(`overtaking`), or a file that is locked too late (`lagging`).
-/

namespace Upkeep.Crowd

open Files

variable {s : Crowd} {m m' : Nat} {r : String} {f : OpenFile}

/-! ## Timely runs -/

/-- No two keepers have the same resource in their tables. -/
def Exclusive (s : Crowd) : Prop :=
  ∀ m m' r, r ∈ (s.party m).keeper.names → r ∈ (s.party m').keeper.names → m = m'

/-- The files that are locked stand at their names, and names that are still to be removed are no
way to anywhere. -/
structure Anchored (s : Crowd) : Prop where
  leads : ∀ m, ∀ e ∈ (s.party m).carried, s.files.inode (s.path e.1) = .ok e.2.inode
  clearable : ∀ m, ∀ r ∈ (s.party m).unlinking, s.files.Clearable (s.path r)

/-- A file is locked while it stands at its name, and a name is removed while nobody has locked the
file that it leads to. -/
def Timely (s : Crowd) : PartyStep → Prop
  | .locking m => ∀ e, (s.party m).opened? = some e → s.files.tryLock? e.2 .exclusive ≠ none →
      s.files.inode (s.path e.1) = .ok e.2.inode
  | .unlinking m r => r ∈ (s.party m).unlinking → ∀ m', ∀ e ∈ (s.party m').carried,
      s.files.inode (s.path r) ≠ .ok e.2.inode
  | _ => True

/-- Each of some steps is timely in its turn. -/
def TimelyRun (s : Crowd) : List PartyStep → Prop
  | [] => True
  | t :: ts => s.Timely t ∧ TimelyRun (s.step t) ts

/-- Keepers whose files stand at their names have no resource in common: the lock on the one file
would be in the way of the other. -/
theorem exclusive_of_anchored (h : s.Sound) (ha : s.Anchored) : s.Exclusive := by
  intro m m' r hr hr'
  obtain ⟨e, he, rfl⟩ := List.mem_map.1 hr
  obtain ⟨e', he', hname⟩ := List.mem_map.1 hr'
  have hcarried : e ∈ (s.party m).carried := by simp [Party.carried, he]
  have hcarried' : e' ∈ (s.party m').carried := by simp [Party.carried, he']
  have hinode : e.2.inode = e'.2.inode := by
    have hthere := ha.leads m' e' hcarried'
    rw [hname, ha.leads m e hcarried] at hthere
    simpa using hthere
  rcases h.files.compatible _ ((h.fits m).locked e hcarried) _ ((h.fits m').locked e' hcarried')
    hinode with heq | ⟨hshared, -⟩
  · have hfile : e.2 = e'.2 := congrArg FileLock.holder heq
    exact h.owned.apart m m' e.2 (mem_hands_of_carried hcarried)
      (hfile ▸ mem_hands_of_carried hcarried')
  · cases hshared

theorem Sound.path (h : s.Sound) (m : Nat) (r : String) :
    (s.party m).keeper.path r = s.path r := by
  rw [LockKeeper.path, (h.fits m).directory, (h.fits m).fileName]
  rfl

theorem Anchored.put (ha : s.Anchored) {files : Files} {p : Party}
    (hothers : ∀ n, ∀ e ∈ (s.party n).carried, files.inode (s.path e.1) = .ok e.2.inode)
    (hp : ∀ e ∈ p.carried, e ∈ (s.party m).carried ∨ files.inode (s.path e.1) = .ok e.2.inode)
    (hclear : ∀ r, s.files.Clearable (s.path r) → files.Clearable (s.path r))
    (hnames : ∀ r ∈ p.unlinking, r ∈ (s.party m).unlinking ∨ s.files.Clearable (s.path r)) :
    (s.put m files p).Anchored := by
  constructor
  · intro n e he
    rw [party_put] at he
    split at he
    · rcases hp e he with hold | hnew
      · exact hothers m e hold
      · exact hnew
    · exact hothers n e he
  · intro n r hr
    rw [party_put] at hr
    split at hr
    · exact hclear r ((hnames r hr).elim (ha.clearable m r) id)
    · exact hclear r (ha.clearable n r hr)

/-- A step by which the entries stay, and the files of a keeper that are locked were so before or
stand at their names. -/
theorem Anchored.put_nodes (ha : s.Anchored) {files : Files} {p : Party}
    (hnodes : s.files.nodes = files.nodes)
    (hp : ∀ e ∈ p.carried, e ∈ (s.party m).carried ∨
      s.files.inode (s.path e.1) = .ok e.2.inode)
    (hnames : ∀ r ∈ p.unlinking, r ∈ (s.party m).unlinking ∨ s.files.Clearable (s.path r)) :
    (s.put m files p).Anchored := by
  have hnode := node?_congr hnodes
  have hkeeps : Keeps s.files files := fun q n hq => hnode ▸ hq
  have hback : Keeps files s.files := fun q n hq => hnode ▸ hq
  refine ha.put (fun n e he => inode_of_keeps hkeeps (ha.leads n e he)) (fun e he => ?_)
    (fun r hr => hr.of_keeps hkeeps.ways hback.ways) hnames
  exact (hp e he).imp_right (inode_of_keeps hkeeps)

theorem anchored_step (h : s.Sound) (ha : s.Anchored) {t : PartyStep} (ht : s.Timely t) :
    (s.step t).Anchored := by
  cases t with
  | opening m r =>
    simp only [step]
    split
    · exact ha
    · split
      · exact ha
      · rename_i f fs hopen
        have hopens := opens_of_openOrCreate hopen
        exact ha.put (fun n e he => inode_of_keeps hopens.keeps (ha.leads n e he))
          (fun e he => .inl he) (fun r hr => hr.of_keeps hopens.keeps.ways hopens.back)
          fun r hr => .inl hr
  | locking m =>
    simp only [step]
    split
    · exact ha
    · rename_i r f hopened
      split
      · exact ha.put_nodes rfl (fun e he => .inl he) fun r hr => .inl hr
      · rename_i files hlock
        have hthere := ht (r, f) hopened (by simp [hlock])
        have hfresh := ((h.fits m).opened (r, f) hopened).1
        obtain ⟨-, rfl⟩ := (tryLock?_eq_some_iff hfresh).1 hlock
        have hnodes : s.files.nodes = (s.files.withLock f .exclusive).nodes := rfl
        refine ha.put_nodes hnodes (fun e he => ?_) fun r hr => .inl hr
        simp only [Party.carried, Option.toList_some, List.mem_append, List.mem_singleton] at he ⊢
        rcases he with (he | rfl) | he
        · exact .inl (.inl (.inl he))
        · exact .inr hthere
        · exact .inl (.inr he)
  | recording m =>
    simp only [step]
    split
    · exact ha
    · rename_i r f hlocked
      refine ha.put_nodes rfl (fun e he => .inl ?_) fun r hr => .inl hr
      simp only [Party.carried, LockKeeper.enter, hlocked, Option.toList_none,
        Option.toList_some, List.mem_append, List.mem_cons, List.not_mem_nil] at he ⊢
      tauto
  | removing m r =>
    simp only [step]
    split
    · exact ha
    · split
      · exact ha
      · rename_i f hf
        have hheld := LockKeeper.perm_without (h.fits m).names hf
        refine ha.put_nodes rfl (fun e he => .inl ?_) fun r hr => .inl hr
        simp only [Party.carried, List.mem_append, hheld.mem_iff, List.mem_cons] at he ⊢
        tauto
  | removingAll m =>
    simp only [step]
    split
    · exact ha
    · refine ha.put_nodes rfl (fun e he => .inl ?_) fun r hr => .inl hr
      simp only [Party.carried, List.mem_append, List.not_mem_nil] at he ⊢
      tauto
  | unlocking m r f =>
    simp only [step]
    split
    · rename_i hmem
      have hnodes : s.files.nodes = (s.files.unlock f).nodes := rfl
      refine ha.put_nodes hnodes (fun e he => .inl ?_) fun r' hr' => ?_
      · simp only [Party.carried, List.mem_append] at he ⊢
        rcases he with he | he
        · exact .inl he
        · exact .inr (List.mem_of_mem_erase he)
      · rcases List.mem_cons.1 hr' with rfl | hr'
        · have hcarried : (r', f) ∈ (s.party m).carried := by simp [Party.carried, hmem]
          exact .inr (clearable_of_inode (ha.leads m (r', f) hcarried))
        · exact .inl hr'
    · exact ha
  | unlinking m r =>
    simp only [step]
    split
    · rename_i hmem
      have hclear := ht hmem
      have hgone := ha.clearable m r hmem
      rw [h.path m r]
      rcases attempt_unlink_cases s.files (s.path r) with hsame | hunlink
      · rw [hsame]
        exact ha.put_nodes rfl (fun e he => .inl he) fun r' hr' => .inl (List.mem_of_mem_erase hr')
      · have hways := keepsWays_of_unlink hunlink hgone
        have hback := (keeps_of_unlink hunlink).ways
        have hothers (n e) (he : e ∈ (s.party n).carried) :=
          inode_of_unlink (b := lockFileName e.1) hunlink hgone (hclear n e he) (ha.leads n e he)
        exact ha.put hothers (fun e he => .inl he) (fun r' hr' => hr'.of_keeps hways hback)
          fun r' hr' => .inl (List.mem_of_mem_erase hr')
    · exact ha

theorem anchored_run (h : s.Sound) (ha : s.Anchored) {ts : List PartyStep}
    (ht : s.TimelyRun ts) : (s.run ts).Anchored := by
  induction ts generalizing s with
  | nil => exact ha
  | cons t ts ih => exact ih (sound_step h t) (anchored_step h ha ht.1) ht.2

/-! ## Late steps -/

/-- While one keeper gives a resource up, another takes it after the file is unlocked, and then the
name is removed, so that a third one can take it as well. -/
def overtaking (a b c : Nat) (r : String) (f : OpenFile) : List PartyStep :=
  [.removing a r, .unlocking a r f] ++ taking b r ++ [.unlinking a r] ++ taking c r

/-- One keeper opens the file of a resource before another gives it up, and locks it after the name
is gone, so that a third one can take the resource as well. -/
def lagging (a b c : Nat) (r : String) (f : OpenFile) : List PartyStep :=
  [.opening b r] ++ givingUp a r f ++ taking c r ++ [.locking b, .recording b]

/-- A file that nobody has locked can be opened under the name of a resource. -/
def Available (s : Crowd) (r : String) (i : Nat) : Prop :=
  (∃ handle fs, s.files.openOrCreate (s.path r) = .ok (⟨handle, i⟩, fs)) ∧
    ∀ l ∈ s.files.locks, l.holder.inode ≠ i

/-- A keeper can begin to take a resource. -/
def Ready (s : Crowd) (m : Nat) (r : String) : Prop :=
  (s.party m).isTaking = false ∧ r ∉ (s.party m).keeper.names

theorem Ready.of_party {s' : Crowd} (h : s.Ready m r) (hparty : s'.party m = s.party m) :
    s'.Ready m r := by
  rwa [Ready, hparty]

theorem ready_of_held (h : s.Sound) (ha : s.Anchored)
    (hf : (s.party m).keeper.held.lookup r = some f) {among : Nat → Prop}
    (hfree : ∀ n, among n → (s.party n).isTaking = false) :
    ∀ n, among n → n ≠ m → s.Ready n r := by
  have hr : r ∈ (s.party m).keeper.names := List.mem_map.2 ⟨_, Association.mem_of_lookup hf, rfl⟩
  exact fun n hn hne => ⟨hfree n hn, fun hr' => hne (exclusive_of_anchored h ha n m r hr' hr)⟩

/-- A keeper has taken a resource. -/
structure Taken (s : Crowd) (m : Nat) (r : String) (i : Nat) (s' : Crowd) : Prop where
  names : r ∈ (s'.party m).keeper.names
  leads : s'.files.inode (s'.path r) = .ok i
  locks : ∀ l ∈ s'.files.locks, l.holder.inode = i ∨ l ∈ s.files.locks
  others : ∀ n, n ≠ m → s'.party n = s.party n

/-- A keeper has given a resource up but for the name of the file. -/
structure Unlocked (s : Crowd) (m : Nat) (r : String) (i : Nat) (s' : Crowd) : Prop where
  available : s'.Available r i
  leads : s'.files.inode (s'.path r) = .ok i
  unlinking : r ∈ (s'.party m).unlinking
  ready : s'.Ready m r
  others : ∀ n, n ≠ m → s'.party n = s.party n

/-- The name has been removed. -/
structure Unlinked (s : Crowd) (m : Nat) (r : String) (s' : Crowd) : Prop where
  available : s'.Available r s.files.nextInode
  locks : s'.files.locks = s.files.locks
  ready : s.Ready m r → s'.Ready m r
  others : ∀ n, n ≠ m → s'.party n = s.party n

theorem taken_of_available (h : s.Sound) (hready : s.Ready m r) {i : Nat} (hi : s.Available r i) :
    Taken s m r i (s.run (taking m r)) := by
  obtain ⟨⟨handle, fs, hopen⟩, hunlocked⟩ := hi
  have hopens := opens_of_openOrCreate hopen
  have hlock : fs.tryLock? ⟨handle, i⟩ .exclusive = some (fs.withLock ⟨handle, i⟩ .exclusive) := by
    refine (tryLock?_eq_some_iff (hopens.ne_holder h.files)).2 ⟨fun l hl heq => ?_, rfl⟩
    rw [hopens.locks] at hl
    exact absurd heq (hunlocked l hl)
  have hrun : s.run (taking m r) = s.put m (fs.withLock ⟨handle, i⟩ .exclusive)
      { s.party m with keeper := (s.party m).keeper.enter r ⟨handle, i⟩ } :=
    run_taking hready.1 hready.2 (by rw [h.path m r, hopen]) hlock
  rw [hrun]
  constructor
  case names => simp
  case leads =>
    have hnodes : (fs.withLock ⟨handle, i⟩ .exclusive).nodes = fs.nodes := rfl
    exact (inode_congr hnodes _ _).2 hopens.leads
  case locks =>
    intro l hl
    rcases mem_locks_withLock.1 hl with rfl | hl
    · exact .inl rfl
    · exact .inr (hopens.locks ▸ hl)
  case others => exact fun n hn => by simp [hn]

theorem unlocked_of_held (h : s.Sound) (ha : s.Anchored) (hfree : (s.party m).isTaking = false)
    (hf : (s.party m).keeper.held.lookup r = some f) :
    Unlocked s m r f.inode (s.run [.removing m r, .unlocking m r f]) := by
  have hmem : (r, f) ∈ (s.party m).carried := by
    simp [Party.carried, Association.mem_of_lookup hf]
  have hrun : s.run [.removing m r, .unlocking m r f] = s.put m (s.files.unlock f)
      { s.party m with
        keeper := (s.party m).keeper.without r, unlinking := r :: (s.party m).unlinking } := by
    simp [run, step, hfree, hf]
  have hnodes : s.files.nodes = (s.files.unlock f).nodes := rfl
  have hleads : (s.files.unlock f).inode (s.path r) = .ok f.inode :=
    (inode_congr hnodes _ _).1 (ha.leads m (r, f) hmem)
  rw [hrun]
  constructor
  case available =>
    refine ⟨⟨_, _, openOrCreate_of_inode hleads⟩, fun l hl heq => ?_⟩
    obtain ⟨hl, hne⟩ := mem_locks_unlock.1 hl
    rcases h.files.compatible l hl _ ((h.fits m).locked _ hmem) heq with hsame | ⟨-, hshared⟩
    · exact hne (congrArg FileLock.holder hsame)
    · cases hshared
  case leads => exact hleads
  case unlinking => simp
  case ready => exact ⟨by simpa [Party.isTaking] using hfree, by simp⟩
  case others => exact fun n hn => by simp [hn]

theorem unlinked_of_unlinking (h : s.Sound) (hr : r ∈ (s.party m).unlinking) {i : Nat}
    (hi : s.files.inode (s.path r) = .ok i) : Unlinked s m r (s.step (.unlinking m r)) := by
  obtain ⟨-, hlocks, hinode, -⟩ := attempt_unlink_frame h.files (s.path r)
  have hstep : s.step (.unlinking m r) = s.put m (s.files.attempt (s.files.unlink (s.path r))).1
      { s.party m with unlinking := (s.party m).unlinking.erase r } := by
    simp only [step, if_pos hr, h.path m r]
  rw [hstep]
  constructor
  case available =>
    have hvacant := vacant_attempt_unlink (clearable_of_inode hi)
    obtain ⟨fs, hopen⟩ := openOrCreate_of_vacant hvacant
    rw [hinode] at hopen
    refine ⟨⟨_, fs, hopen⟩, fun l hl => ?_⟩
    rw [files_put, hlocks] at hl
    exact Nat.ne_of_lt (h.files.locked_lt l hl)
  case locks => exact hlocks
  case ready => exact fun hready => by simpa [Ready, Party.isTaking] using hready
  case others => exact fun n hn => by simp [hn]

theorem opened_of_opening (h : s.Sound) (hready : s.Ready m r) {i : Nat}
    (hi : s.files.inode (s.path r) = .ok i) :
    (∃ g, ((s.step (.opening m r)).party m).opened? = some (r, g) ∧ g.inode = i) ∧
      ∀ n, n ≠ m → (s.step (.opening m r)).party n = s.party n := by
  obtain ⟨hfree, hr⟩ := hready
  have hheld := LockKeeper.isHeld_eq_false_iff.2 hr
  have hopen := openOrCreate_of_inode hi
  rw [← h.path m r] at hopen
  simp only [step, hfree, hheld, hopen, Bool.or_self, Bool.false_eq_true, if_false]
  exact ⟨⟨⟨s.files.nextHandle, i⟩, by simp, rfl⟩, fun n hn => by simp [hn]⟩

/-- A keeper locks and records the file that it has open, if nobody has locked it. -/
theorem run_locking_recording (h : s.Sound) (hopened : (s.party m).opened? = some (r, f))
    (hunlocked : ∀ l ∈ s.files.locks, l.holder.inode ≠ f.inode) :
    r ∈ ((s.run [.locking m, .recording m]).party m).keeper.names ∧
      ∀ n, n ≠ m → (s.run [.locking m, .recording m]).party n = s.party n := by
  have hfresh := ((h.fits m).opened (r, f) hopened).1
  have hlock : s.files.tryLock? f .exclusive = some (s.files.withLock f .exclusive) :=
    (tryLock?_eq_some_iff hfresh).2 ⟨fun l hl heq => absurd heq (hunlocked l hl), rfl⟩
  simp only [run, List.foldl_cons, List.foldl_nil, step, hopened, hlock, party_put, if_true,
    put_put]
  exact ⟨by simp, fun n hn => by simp [hn]⟩

/-- In a state without violations, in which some keeper has a resource, a late unlink leads to
two keepers that have it. -/
theorem not_exclusive_overtaking (h : s.Sound) (ha : s.Anchored) {a b c : Nat}
    (hf : (s.party a).keeper.held.lookup r = some f) (hab : b ≠ a) (hbc : c ≠ b)
    (hfree : ∀ n, n = a ∨ n = b ∨ n = c → (s.party n).isTaking = false) :
    ¬ (s.run (overtaking a b c r f)).Exclusive := by
  have hready := ready_of_held h ha hf hfree
  -- The first keeper unlocks the file, and the second takes it.
  have hunlocked := unlocked_of_held h ha (hfree a (.inl rfl)) hf
  have h₁ := sound_run h [.removing a r, .unlocking a r f]
  generalize hs₁ : s.run [.removing a r, .unlocking a r f] = s₁ at hunlocked h₁
  have hb : s₁.Ready b r := (hready b (.inr (.inl rfl)) hab).of_party (hunlocked.others b hab)
  have htaken := taken_of_available h₁ hb hunlocked.available
  have h₂ := sound_run h₁ (taking b r)
  generalize hs₂ : s₁.run (taking b r) = s₂ at htaken h₂
  -- The first keeper removes the name, and the third takes the resource.
  have hunlinking : r ∈ (s₂.party a).unlinking := by
    rw [htaken.others a hab.symm]
    exact hunlocked.unlinking
  have hunlinked := unlinked_of_unlinking h₂ hunlinking htaken.leads
  have h₃ := sound_step h₂ (.unlinking a r)
  generalize hs₃ : s₂.step (.unlinking a r) = s₃ at hunlinked h₃
  have hc : s₃.Ready c r := by
    by_cases hca : c = a
    · subst hca
      exact hunlinked.ready (hunlocked.ready.of_party (htaken.others c hbc))
    · refine (hready c (.inr (.inr rfl)) hca).of_party ?_
      rw [hunlinked.others c hca, htaken.others c hbc, hunlocked.others c hca]
  have htaken' := taken_of_available h₃ hc hunlinked.available
  have hrun : s.run (overtaking a b c r f) = s₃.run (taking c r) := by
    simp only [overtaking, run_append, hs₁, hs₂]
    rw [← hs₃]
    rfl
  rw [hrun]
  intro hexclusive
  refine hbc (hexclusive c b r htaken'.names ?_)
  rw [htaken'.others b hbc.symm, hunlinked.others b hab]
  exact htaken.names

/-- In such a state, a late lock leads to two keepers that have the resource as well. -/
theorem not_exclusive_lagging (h : s.Sound) (ha : s.Anchored) {a b c : Nat}
    (hf : (s.party a).keeper.held.lookup r = some f) (hab : b ≠ a) (hbc : c ≠ b)
    (hfree : ∀ n, n = a ∨ n = b ∨ n = c → (s.party n).isTaking = false) :
    ¬ (s.run (lagging a b c r f)).Exclusive := by
  have hready := ready_of_held h ha hf hfree
  have hmem : (r, f) ∈ (s.party a).carried := by
    simp [Party.carried, Association.mem_of_lookup hf]
  -- The second keeper opens the file, and the first gives it up altogether.
  obtain ⟨⟨g, hopened, hg⟩, hothers⟩ :=
    opened_of_opening h (hready b (.inr (.inl rfl)) hab) (ha.leads a (r, f) hmem)
  have h₁ := sound_step h (.opening b r)
  have ha₁ : (s.step (.opening b r)).Anchored := anchored_step h ha trivial
  generalize hs₁ : s.step (.opening b r) = s₁ at hopened hothers h₁ ha₁
  have hsame : s₁.party a = s.party a := hothers a hab.symm
  have hunlocked : Unlocked s₁ a r f.inode (s₁.run [.removing a r, .unlocking a r f]) :=
    unlocked_of_held h₁ ha₁ (hsame ▸ hfree a (.inl rfl)) (hsame ▸ hf)
  have h₂ := sound_run h₁ [.removing a r, .unlocking a r f]
  generalize hs₂ : s₁.run [.removing a r, .unlocking a r f] = s₂ at hunlocked h₂
  have hunlinked := unlinked_of_unlinking h₂ hunlocked.unlinking hunlocked.leads
  have h₃ := sound_step h₂ (.unlinking a r)
  generalize hs₃ : s₂.step (.unlinking a r) = s₃ at hunlinked h₃
  -- The third keeper takes the resource with a new file, and the second locks the old one.
  have hc : s₃.Ready c r := by
    by_cases hca : c = a
    · subst hca
      exact hunlinked.ready hunlocked.ready
    · refine (hready c (.inr (.inr rfl)) hca).of_party ?_
      rw [hunlinked.others c hca, hunlocked.others c hca, hothers c hbc]
  have htaken := taken_of_available h₃ hc hunlinked.available
  have h₄ := sound_run h₃ (taking c r)
  generalize hs₄ : s₃.run (taking c r) = s₄ at htaken h₄
  have hopened₂ : (s₂.party b).opened? = some (r, g) := by
    rw [hunlocked.others b hab, hopened]
  have hopened₄ : (s₄.party b).opened? = some (r, g) := by
    rw [htaken.others b hbc.symm, hunlinked.others b hab, hopened₂]
  have hfree₄ : ∀ l ∈ s₄.files.locks, l.holder.inode ≠ g.inode := by
    intro l hl
    rcases htaken.locks l hl with heq | hl
    · have hlt : g.inode < s₂.files.nextInode := ((h₂.fits b).opened (r, g) hopened₂).2
      omega
    · rw [hunlinked.locks] at hl
      rw [hg]
      exact hunlocked.available.2 l hl
  obtain ⟨hrb, hothers₅⟩ := run_locking_recording h₄ hopened₄ hfree₄
  have hrun : s.run (lagging a b c r f) = s₄.run [.locking b, .recording b] := by
    have hgiven : s₁.run (givingUp a r f) = s₃ := by
      rw [← hs₃, ← hs₂]
      rfl
    have hopening : s.run [.opening b r] = s₁ := hs₁
    simp only [lagging, run_append, hopening, hgiven, hs₄]
  rw [hrun]
  intro hexclusive
  refine hbc (hexclusive c b r ?_ hrb)
  rw [hothers₅ c hbc]
  exact htaken.names

theorem anchored_start (directory : FilePath) (files : Files) :
    (start directory files).Anchored :=
  ⟨fun _ _ he => (nomatch he), fun _ _ hr => (nomatch hr)⟩

/-- In a timely run no two keepers have the same resource. From each of its states in which a
keeper has a resource, one late step leads to two that have it. -/
theorem exclusive_of_timely {files : Files} (hw : files.WellFormed) (directory : FilePath)
    {ts : List PartyStep} (ht : (start directory files).TimelyRun ts) :
    ((start directory files).run ts).Exclusive ∧
      ∀ (a b c : Nat) (r : String) (f : OpenFile),
        (((start directory files).run ts).party a).keeper.held.lookup r = some f → b ≠ a → c ≠ b →
          (∀ n, n = a ∨ n = b ∨ n = c →
            (((start directory files).run ts).party n).isTaking = false) →
          ¬ (((start directory files).run ts).run (overtaking a b c r f)).Exclusive ∧
            ¬ (((start directory files).run ts).run (lagging a b c r f)).Exclusive := by
  have h := sound_run (sound_start hw directory) ts
  have ha := anchored_run (sound_start hw directory) (anchored_start directory files) ht
  exact ⟨exclusive_of_anchored h ha, fun a b c r f hf hab hbc hfree =>
    ⟨not_exclusive_overtaking h ha hf hab hbc hfree, not_exclusive_lagging h ha hf hab hbc hfree⟩⟩

/-- Files with nothing but a directory for locks. -/
def lockDirectory : Files := (({} : Files).makeDirectories (.ofString "/locks")).1

theorem wellFormed_lockDirectory : lockDirectory.WellFormed :=
  (grows_makeDirectories {} _).wellFormed wellFormed_empty

theorem exclusive_of_timely_taking :
    (start (.ofString "/locks") lockDirectory).TimelyRun (taking 0 "/data/a") ∧
      ((start (.ofString "/locks") lockDirectory).run (taking 0 "/data/a")).Exclusive ∧
        ¬ (((start (.ofString "/locks") lockDirectory).run (taking 0 "/data/a")).run
          (overtaking 0 1 2 "/data/a" ⟨0, 0⟩)).Exclusive ∧
        ¬ (((start (.ofString "/locks") lockDirectory).run (taking 0 "/data/a")).run
          (lagging 0 1 2 "/data/a" ⟨0, 0⟩)).Exclusive := by
  have ht : (start (.ofString "/locks") lockDirectory).TimelyRun (taking 0 "/data/a") := by
    refine ⟨trivial, fun e he _ => ?_, trivial, trivial⟩
    have hopened : (((start (.ofString "/locks") lockDirectory).step
        (.opening 0 "/data/a")).party 0).opened? = some ("/data/a", ⟨0, 0⟩) := by
      decide +kernel
    obtain rfl := Option.some.inj (he.symm.trans hopened)
    decide +kernel
  obtain ⟨hexclusive, hlate⟩ :=
    exclusive_of_timely wellFormed_lockDirectory (.ofString "/locks") ht
  refine ⟨ht, hexclusive, hlate 0 1 2 "/data/a" ⟨0, 0⟩ ?_ (by decide) (by decide) ?_⟩
  · decide +kernel
  · rintro n (rfl | rfl | rfl) <;> decide +kernel

/-- Keepers 1 and 2 come to have the resource that keeper 0 gives up. -/
theorem exists_not_exclusive : ¬ ∀ (files : Files), files.WellFormed →
    ∀ (directory : FilePath) (ts : List PartyStep), ((start directory files).run ts).Exclusive := by
  intro h
  have hexclusive := h lockDirectory wellFormed_lockDirectory (.ofString "/locks")
    (taking 0 "/data/a" ++ overtaking 0 1 2 "/data/a" ⟨0, 0⟩)
  have heq := hexclusive 1 2 "/data/a" (by decide +kernel) (by decide +kernel)
  cases heq

end Upkeep.Crowd
