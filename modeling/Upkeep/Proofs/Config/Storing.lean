import Mathlib.Data.List.Infix
import Upkeep.Proofs.Config.RoundTrip
import Upkeep.Proofs.Files.Occupants
import Upkeep.Proofs.Text.Encoding

/-!
# Storing a configuration

`moments` lists the files after every operation of storing a configuration, the last of which are
those that `store` leaves (`getLast?_moments`).

**Loading.** A configuration that has been stored is loaded again as it was (`load_store`).

**Moments.** Up to the last step nothing is seen of it at the path (`Intact`): directories are made
above the path, and texts are written to the temporary file, which has another name
(`stem_append_ne`). The last step puts the whole text there or does nothing.
-/

namespace Upkeep.Config

open Files

variable {fs fs' fs₀ : Files} {p q : FilePath} {n : String} {c : Config} {text : String}

/-! ## The temporary file -/

theorem stem_append_ne (n : String) : stem n ++ ".toml.tmp" ≠ n := by
  intro h
  have hlist : n.toList = (stem n).toList ++ ['.', 't', 'o', 'm', 'l', '.', 't', 'm', 'p'] :=
    (congrArg String.toList h).symm.trans String.toList_append
  -- the ending of the name would be that of a temporary file, which is shorter than what is put on
  have htail : n.toList.reverse.takeWhile (· != '.') = ['p', 'm', 't'] := by
    rw [hlist]
    simp
  have hlength : n.toList.length = (stem n).toList.length + 9 := by
    rw [hlist, List.length_append]
    rfl
  have hstem : (stem n).toList.length + 4 ≥ n.toList.length := by
    unfold stem
    simp only [htail]
    split_ifs
    · rw [String.toList_ofList, List.length_take]
      simp
      omega
    · omega
  omega

theorem temporary_eq (hp : p.trimmed = q ++ [.name n]) :
    temporary p = q ++ [.up] ∨ temporary p = q ++ [.name (stem n ++ ".toml.tmp")] := by
  unfold temporary
  simp only [hp, List.getLast?_concat, List.dropLast_concat]
  split_ifs
  · exact .inl rfl
  · exact .inr rfl

/-- A path that ends with two points leads to no entry. -/
theorem locate_up_ne (fs : Files) (q : FilePath) (d : Place) (n : String) (slash : Bool) :
    fs.locate (q ++ [.up]) ≠ .ok (.entry d n slash) := by
  intro hl
  have hunslashed : FilePath.unslashed (q ++ [.up]) = q ++ [.up] := by simp [FilePath.unslashed]
  obtain ⟨-, hlast, -⟩ := locate_eq_entry_iff.1 hl
  rw [hunslashed, List.getLast?_concat] at hlast
  cases hlast

/-! ## Moments -/

/-- The files after each operation of a step; a text may be written in any number of pieces. -/
def WriteStep.moments (p : FilePath) (text : String) (fs : Files) : WriteStep → List Files
  | makeParent => fs.ensureMoments (p.parent :: p.parent.ancestors)
  | fillTemporary => (Text.encode text).inits.map fun b => (fs.attempt (fs.write (temporary p) b)).1
  | s => [(s.run p text fs).1]

/-- The files after each operation of some steps, up to the first step that fails. -/
def stepMoments (p : FilePath) (text : String) (fs : Files) : List WriteStep → List Files
  | [] => []
  | s :: r => s.moments p text fs ++
    match s.run p text fs with
    | (fs, .ok ()) => stepMoments p text fs r
    | _ => []

theorem mem_stepMoments_cons {s : WriteStep} {r : List WriteStep} :
    fs' ∈ stepMoments p text fs (s :: r) ↔ fs' ∈ s.moments p text fs ∨
      ∃ fs₁, s.run p text fs = (fs₁, .ok ()) ∧ fs' ∈ stepMoments p text fs₁ r := by
  rw [stepMoments, List.mem_append]
  rcases s.run p text fs with ⟨fs₁, fault | ⟨⟩⟩ <;> simp

theorem runSteps_cons_eq_ok {s : WriteStep} {r : List WriteStep} :
    runSteps p text fs (s :: r) = (fs', .ok ()) ↔
      ∃ fs₁, s.run p text fs = (fs₁, .ok ()) ∧ runSteps p text fs₁ r = (fs', .ok ()) := by
  rw [runSteps]
  rcases s.run p text fs with ⟨fs₁, fault | ⟨⟩⟩ <;> simp

/-- The files before a configuration is stored and after each operation of storing it. -/
def moments (fs : Files) (p : FilePath) (c : Config) : List Files :=
  fs :: match c.invalid? with
    | some _ => []
    | none => stepMoments p "" fs [.makeParent] ++
      match runSteps p "" fs [.makeParent] with
      | (fs, .ok ()) =>
        match c.toToml? with
        | none => []
        | some text => stepMoments p text fs [.createTemporary, .fillTemporary, .moveIntoPlace]
      | _ => []

theorem getLast?_inits {α : Type} (l : List α) : l.inits.getLast? = some l := by
  induction l with
  | nil => rfl
  | cons a l ih => rw [List.inits_cons, List.getLast?_cons, List.getLast?_map, ih]; rfl

theorem WriteStep.getLast?_moments (s : WriteStep) :
    (s.moments p text fs).getLast? = some (s.run p text fs).1 := by
  cases s with
  | makeParent => exact getLast?_ensureMoments fs _
  | fillTemporary =>
    rw [moments, List.getLast?_map, getLast?_inits]
    rfl
  | createTemporary | moveIntoPlace => rfl

theorem getLast?_stepMoments (p : FilePath) (text : String) (fs : Files) (s : WriteStep)
    (steps : List WriteStep) :
    (stepMoments p text fs (s :: steps)).getLast? = some (runSteps p text fs (s :: steps)).1 := by
  induction steps generalizing s fs with
  | nil =>
    rw [stepMoments, runSteps, List.getLast?_append, s.getLast?_moments]
    rcases s.run p text fs with ⟨fs₁, _ | _⟩ <;> rfl
  | cons s' steps ih =>
    rw [stepMoments, runSteps, List.getLast?_append, s.getLast?_moments]
    rcases s.run p text fs with ⟨fs₁, _ | _⟩
    · rfl
    · show Option.or (List.getLast? (stepMoments p text fs₁ (s' :: steps))) _ = _
      rw [ih]
      rfl

theorem getLast?_moments (fs : Files) (p : FilePath) (c : Config) :
    (moments fs p c).getLast? = some (store fs p c).1 := by
  unfold moments store
  cases c.invalid? with
  | some why => rfl
  | none =>
    rw [List.getLast?_cons, List.getLast?_append, getLast?_stepMoments]
    rcases runSteps p "" fs [.makeParent] with ⟨fs₁, _ | _⟩
    · rfl
    · cases c.toToml? with
      | none => rfl
      | some text =>
        show some ((Option.or (List.getLast? (stepMoments p text fs₁ _)) _).getD fs) = _
        rw [getLast?_stepMoments]
        rfl

/-! ## Loading -/

theorem attempt_eq_ok {r : Files.Result Files} : fs.attempt r = (fs', .ok ()) ↔ r = .ok fs' := by
  cases r with
  | ok fs₁ => simp [attempt]
  | error fault => simp [attempt]

theorem load_of_occupant (hvalid : c.invalid? = none) (htext : c.toToml? = some text)
    (h : fs.occupant p = .file (Text.encode text)) : load fs p = .ok c := by
  obtain ⟨i, hstatus, hbytes⟩ := occupant_eq_file_iff.1 h
  have hread : fs.readText p = .ok text := by
    have hdecode : Text.decode? (fs.bytes i) = some text := by
      rw [← hbytes]
      exact Text.decode?_encode text
    simp [readText, Files.read, inode, hstatus, hdecode, bind, Except.bind, pure, Except.pure]
  rw [load, hread]
  simp only [ofToml?_toToml? htext, hvalid]

/-- When a text has been written and moved, it stands in its place. -/
theorem occupant_of_runSteps (htree : fs.IsTree)
    (h : runSteps p text fs [.createTemporary, .fillTemporary, .moveIntoPlace] = (fs', .ok ())) :
    fs'.occupant p = .file (Text.encode text) := by
  obtain ⟨fs₁, hcreate, h⟩ := runSteps_cons_eq_ok.1 h
  obtain ⟨fs₂, hfill, h⟩ := runSteps_cons_eq_ok.1 h
  obtain ⟨fs₃, hmove, h⟩ := runSteps_cons_eq_ok.1 h
  cases h
  have htree₁ : fs₁.IsTree := (status_self_of_write htree (attempt_eq_ok.1 hcreate)).1
  have htree₂ : fs₂.IsTree := (status_self_of_write htree₁ (attempt_eq_ok.1 hfill)).1
  exact occupant_of_rename htree₂ (occupant_self_of_write htree₁ (attempt_eq_ok.1 hfill))
    (attempt_eq_ok.1 hmove)

theorem store_eq_ok (h : store fs p c = (fs', .ok ())) :
    c.invalid? = none ∧ ∃ text, c.toToml? = some text ∧
      runSteps p text (fs.makeDirectories p.parent).1
        [.createTemporary, .fillTemporary, .moveIntoPlace] = (fs', .ok ()) := by
  unfold store at h
  cases hvalid : c.invalid? with
  | some why => simp [hvalid] at h
  | none =>
    rcases hmake : fs.makeDirectories p.parent with ⟨fs₁, fault | ⟨⟩⟩
    · simp [hvalid, runSteps, WriteStep.run, hmake] at h
    · cases htext : c.toToml? with
      | none => simp [hvalid, runSteps, WriteStep.run, hmake, htext] at h
      | some text =>
        refine ⟨rfl, text, rfl, ?_⟩
        simpa only [hvalid, runSteps, WriteStep.run, hmake, htext] using h

theorem load_store (htree : fs.IsTree) (h : store fs p c = (fs', .ok ())) :
    load fs' p = .ok c := by
  obtain ⟨hvalid, text, htext, hsteps⟩ := store_eq_ok h
  exact load_of_occupant hvalid htext
    (occupant_of_runSteps (htree.of_makeDirectories p.parent) hsteps)

/-! ## The path while a configuration is stored -/

/-- The path goes up at most within directories that are there. -/
def GoesUpWithin (fs : Files) (q : FilePath) : Prop :=
  ∃ a b d, q = a ++ b ∧ fs.walk a = .ok d ∧ .up ∉ b

/-- Nothing has been seen yet at the path, and the temporary file is another than the one there. -/
structure Intact (fs₀ fs : Files) (p : FilePath) : Prop where
  isTree : fs.IsTree
  occupant : fs.occupant p = fs₀.occupant p
  apart : fs.Apart (temporary p) p

theorem prefix_of_mem_ancestors (hp : p.trimmed = q ++ [.name n]) :
    ∀ r ∈ p.parent :: p.parent.ancestors, r <+: q := by
  have htrimmed (q : FilePath) : q.trimmed <+: q := List.rdropWhile_prefix _ q
  have hparent : p.parent <+: q := parent_eq_trimmed hp ▸ htrimmed q
  intro r hr
  rcases List.mem_cons.1 hr with rfl | hr
  · exact hparent
  · obtain ⟨k, -, rfl⟩ := List.mem_map.1 (List.mem_filter.1 hr).1
    exact ((List.take_prefix k _).trans (htrimmed _)).trans hparent

theorem intact_of_mem_makeParent (htree : fs.IsTree) (hp : p.trimmed = q ++ [.name n])
    (hup : GoesUpWithin fs q) (hapart : fs.Apart (temporary p) p)
    (h : fs' ∈ WriteStep.makeParent.moments p text fs) : Intact fs fs' p := by
  obtain ⟨a, b, d, rfl, ha, hb⟩ := hup
  have htree' : fs'.IsTree :=
    of_mem_ensureMoments htree (fun _ _ _ _ => IsTree.of_makeDirectory) fs' h
  have hspares (n : String) : Spares (d ++ b.names ++ [n]) fs fs' :=
    htree.spares_of_mem_ensureMoments ha hb (prefix_of_mem_ancestors hp) h
  have hstatus := (hspares n).status htree htree' ha hb hp
  refine ⟨htree', occupant_congr hstatus fun i _ => ?_, fun i hi => ?_⟩
  · rw [bytes, bytes, (hspares n).contents]
  · refine mt (hstatus _).2 (hapart i ?_)
    rcases temporary_eq hp with ht | ht
    · obtain ⟨-, d, n, -, hl, -⟩ := exists_locate_of_file htree'.linkFree hi
      exact absurd (ht ▸ hl) (locate_up_ne fs' _ d n false)
    · rw [ht] at hi ⊢
      exact ((hspares _).status htree htree' ha hb trimmed_name _).2 hi

theorem Intact.write (h : Intact fs₀ fs p) (hp : p.trimmed = q ++ [.name n]) {b : Bytes}
    (hwrite : fs.write (temporary p) b = .ok fs') : Intact fs₀ fs' p := by
  rcases temporary_eq hp with ht | ht
  · obtain ⟨d, n, -, hl, -⟩ := write_eq_ok h.isTree.linkFree hwrite
    exact absurd (ht ▸ hl) (locate_up_ne fs q d n false)
  · have hapart := h.apart
    rw [ht] at hwrite hapart
    obtain ⟨hsame, hapart'⟩ := occupant_of_write h.isTree hwrite hp (stem_append_ne n) hapart
    exact ⟨(status_self_of_write h.isTree hwrite).1, hsame.trans h.occupant, ht ▸ hapart'⟩

theorem Intact.attempt_write (h : Intact fs₀ fs p) (hp : p.trimmed = q ++ [.name n]) (b : Bytes) :
    Intact fs₀ (fs.attempt (fs.write (temporary p) b)).1 p := by
  cases hwrite : fs.write (temporary p) b with
  | ok fs₁ => exact h.write hp hwrite
  | error fault => exact h

/-- Up to the last step nothing is seen at the path, and the last step puts the whole text there or
does nothing. -/
theorem Intact.of_mem_stepMoments (h : Intact fs₀ fs p) (hp : p.trimmed = q ++ [.name n])
    (hmem : fs' ∈ stepMoments p text fs [.createTemporary, .fillTemporary, .moveIntoPlace]) :
    fs'.occupant p = fs₀.occupant p ∨
      runSteps p text fs [.createTemporary, .fillTemporary, .moveIntoPlace] = (fs', .ok ()) := by
  rcases mem_stepMoments_cons.1 hmem with hmem | ⟨fs₁, hcreate, hmem⟩
  · rw [List.mem_singleton.1 hmem]
    exact .inl (h.attempt_write hp []).occupant
  have h₁ : Intact fs₀ fs₁ p := h.write hp (attempt_eq_ok.1 hcreate)
  rcases mem_stepMoments_cons.1 hmem with hmem | ⟨fs₂, hfill, hmem⟩
  · obtain ⟨b, -, rfl⟩ := List.mem_map.1 hmem
    exact .inl (h₁.attempt_write hp b).occupant
  have h₂ : Intact fs₀ fs₂ p := h₁.write hp (attempt_eq_ok.1 hfill)
  rcases mem_stepMoments_cons.1 hmem with hmem | ⟨_, -, hmem⟩
  · rw [List.mem_singleton.1 hmem]
    cases hmove : fs₂.rename (temporary p) p with
    | error fault =>
      rw [WriteStep.run, hmove]
      exact .inl h₂.occupant
    | ok fs₃ =>
      refine .inr (runSteps_cons_eq_ok.2 ⟨fs₁, hcreate, runSteps_cons_eq_ok.2 ⟨fs₂, hfill, ?_⟩⟩)
      rw [runSteps, WriteStep.run, hmove]
      rfl
  · cases hmem

theorem occupant_of_mem_moments (htree : fs.IsTree) (hp : p.trimmed = q ++ [.name n])
    (hup : GoesUpWithin fs q) (hapart : fs.Apart (temporary p) p) (hmem : fs' ∈ moments fs p c) :
    fs'.occupant p = fs.occupant p ∨ (store fs p c).2 = .ok () ∧
      ∃ text, c.toToml? = some text ∧ fs'.occupant p = .file (Text.encode text) := by
  unfold moments at hmem
  rcases List.mem_cons.1 hmem with rfl | hmem
  · exact .inl rfl
  cases hvalid : c.invalid? with
  | some why => simp [hvalid] at hmem
  | none =>
    simp only [hvalid, List.mem_append] at hmem
    have hparent : ∀ fs' ∈ stepMoments p "" fs [.makeParent], Intact fs fs' p := by
      intro fs' hmem
      rcases mem_stepMoments_cons.1 hmem with hmem | ⟨_, -, hmem⟩
      · exact intact_of_mem_makeParent htree hp hup hapart hmem
      · cases hmem
    rcases hmem with hmem | hmem
    · exact .inl (hparent fs' hmem).occupant
    rcases hmake : runSteps p "" fs [.makeParent] with ⟨fs₁, fault | ⟨⟩⟩
    · simp [hmake] at hmem
    cases htext : c.toToml? with
    | none => simp [hmake, htext] at hmem
    | some text =>
      simp only [hmake, htext] at hmem
      have h₁ : Intact fs fs₁ p := by
        have hlast := getLast?_stepMoments p "" fs .makeParent []
        rw [hmake] at hlast
        exact hparent fs₁ (List.mem_of_getLast? hlast)
      rcases h₁.of_mem_stepMoments hp hmem with hsame | hsteps
      · exact .inl hsame
      · refine .inr ⟨?_, text, rfl, occupant_of_runSteps h₁.isTree hsteps⟩
        simp only [store, hvalid, hmake, htext, hsteps]

/-- **Atomic storing.** In a tree without links, what has been stored is loaded as it was. If the
path goes up at most within directories that are there, and the temporary file is another than the
one at the path, then storing that fails leaves at the path what stood there; and at every moment
either that stands there, or storing succeeds and the whole text of the configuration does. -/
theorem store_atomic (htree : fs.IsTree) (hp : p.trimmed = q ++ [.name n]) (c : Config) :
    ((store fs p c).2 = .ok () → load (store fs p c).1 p = .ok c) ∧
    (GoesUpWithin fs q → fs.Apart (temporary p) p →
      (∀ fault, (store fs p c).2 = .error fault →
        (store fs p c).1.occupant p = fs.occupant p) ∧
      ∀ fs' ∈ moments fs p c, fs'.occupant p = fs.occupant p ∨
        (store fs p c).2 = .ok () ∧
          ∃ text, c.toToml? = some text ∧ fs'.occupant p = .file (Text.encode text)) := by
  refine ⟨fun h => load_store htree (Prod.ext rfl h), fun hup hapart => ?_⟩
  have hmoments (fs' : Files) (hmem : fs' ∈ moments fs p c) :=
    occupant_of_mem_moments htree hp hup hapart hmem
  refine ⟨fun fault hfault => ?_, hmoments⟩
  rcases hmoments _ (List.mem_of_getLast? (getLast?_moments fs p c)) with h | ⟨hok, -⟩
  · exact h
  · rw [hfault] at hok
    cases hok

/-- A configuration with a number that the format cannot hold. -/
def oversized : Config := { coordinator := { queueCapacity := 9223372036854775808 } }

/-- A file that has the name of a configuration and that of its temporary file. -/
def twiceNamed : Files where
  nodes := [(["config.toml"], .file 0), (["config.toml.tmp"], .file 0)]
  contents := [(0, [35, 10])]
  nextInode := 1

/-- If a path goes up from a directory that is not there, the way to it may itself be made where it
leads, and stays when storing fails. If the temporary file is the one at the path, then this is
empty for a moment. -/
theorem store_not_atomic :
    (let p := FilePath.ofString "/a/../a"
     ({} : Files).occupant p = .nothing ∧
      (store {} p oversized).2 = .error (.invalid .notStorable) ∧
      (store {} p oversized).1.occupant p = .directory) ∧
    (let p := FilePath.ofString "/config.toml"
     twiceNamed.occupant p = .file [35, 10] ∧ (store twiceNamed p {}).2 = .ok () ∧
      ∃ fs' ∈ moments twiceNamed p {}, fs'.occupant p = .file []) := by
  decide +kernel

theorem store_atomic_default :
    let p : FilePath := [.blank, .name "config.toml"]
    ((store {} p {}).2 = .ok () ∧ load (store {} p {}).1 p = .ok {}) ∧
      ∀ fs' ∈ moments {} p {}, fs'.occupant p = .nothing ∨
        ∃ text, toToml? {} = some text ∧ fs'.occupant p = .file (Text.encode text) := by
  intro p
  have hok : (store {} p {}).2 = .ok () := by decide +kernel
  have hup : GoesUpWithin {} [.blank] := ⟨[.blank], [], [], rfl, rfl, List.not_mem_nil⟩
  have hapart : Apart {} (temporary p) p := by
    intro i h
    have hnothing : ({} : Files).status (temporary p) = .error .notFound := by decide +kernel
    rw [hnothing] at h
    cases h
  have hnothing : ({} : Files).occupant p = .nothing := by decide +kernel
  have hstore := store_atomic (p := p) (q := [.blank]) isTree_empty rfl {}
  refine ⟨⟨hok, hstore.1 hok⟩, fun fs' hmem => ?_⟩
  rw [← hnothing]
  exact ((hstore.2 hup hapart).2 fs' hmem).imp_right And.right

/-! ## Success -/

/-- The system takes the path: its text and its names are short enough and without zero bytes. -/
def Nameable (p : FilePath) : Prop :=
  textFault? p.text = none ∧ ∀ part ∈ p, part.text.utf8ByteSize ≤ maxName

instance (p : FilePath) : Decidable (Nameable p) := inferInstanceAs (Decidable (_ ∧ _))

/-- At a path stands a directory itself, rather than a link to one. -/
def HasDirectory (fs : Files) (p : FilePath) : Prop :=
  (∃ d, fs.locate p = .ok (.here d)) ∨
    ∃ d n slash, fs.locate p = .ok (.entry d n slash) ∧ fs.node? (d ++ [n]) = some .directory

/-- At a path stands a link. -/
def HasLink (fs : Files) (p : FilePath) : Prop :=
  ∃ d n slash target, fs.locate p = .ok (.entry d n slash) ∧
    fs.node? (d ++ [n]) = some (.link target)

/-- A path is located where it is even without what stands there: its way does not come by the
entry at its end. -/
def Detached (fs : Files) (p : FilePath) : Prop :=
  ∀ d n slash, fs.locate p = .ok (.entry d n slash) →
    (fs.eraseNode (d ++ [n])).locate p = .ok (.entry d n slash)

/-- Only a link may stand in the way to itself. -/
theorem detached_of_not_hasLink (hnot : ¬ HasDirectory fs p) (hlink : ¬ HasLink fs p) :
    Detached fs p := by
  intro d n slash hl
  refine locate_of_keeps (keepsWays_eraseNode ?_) hl
  rintro ⟨k, l, e, h⟩
  cases leads_of_resolveFrom h with
  | idle hidle => cases hidle
  | directory hc => exact hnot (.inr ⟨d, n, slash, hl, (child?_eq_some_iff.1 hc).2⟩)
  | link hc => exact hlink ⟨d, n, slash, _, hl, (child?_eq_some_iff.1 hc).2⟩

theorem exists_walk_of_parent (hp : p.trimmed = q ++ [.name n])
    (hparent : fs.isDirectory p.parent = true) : ∃ d, fs.walk q = .ok d := by
  obtain ⟨-, d, hd⟩ := isDirectory_iff_walk.1 hparent
  rw [parent_eq_trimmed hp, walk_trimmed_iff] at hd
  exact ⟨d, hd⟩

/-- The temporary file has an ending of its own, unless its path is that of a directory. -/
theorem temporary_eq_of_not_hasDirectory {d : Place} (hp : p.trimmed = q ++ [.name n])
    (hd : fs.walk q = .ok d) (htext : textFault? (temporary p).text = none)
    (hnot : ¬ HasDirectory fs (temporary p)) :
    temporary p = q ++ [.name (stem n ++ ".toml.tmp")] := by
  refine (temporary_eq hp).resolve_left fun ht => hnot (.inl ⟨d.dropLast, ?_⟩)
  have hunslashed : FilePath.unslashed (q ++ [.up]) = q ++ [.up] := by simp [FilePath.unslashed]
  have hup : fs.walk (q ++ [.up]) = .ok d.dropLast := by
    obtain ⟨l, hl⟩ := walk_eq_ok_iff.1 hd
    exact walk_eq_ok_iff.2 ⟨l, leads_append_here_iff.2 ⟨l, d, hl, .up (.here l _)⟩⟩
  rw [ht] at htext ⊢
  rw [Files.locate, htext]
  simp only [hunslashed, List.getLast?_concat, hup]
  rfl

/-- A new text is put in the place of one name of a directory by way of another name. -/
theorem exists_replaced {d : Place} {m : String} (hd : fs.walk q = .ok d) (hne : m ≠ n)
    (hname : Nameable (q ++ [.name n])) (hname' : Nameable (q ++ [.name m]))
    (hnot : ¬ HasDirectory fs (q ++ [.name n])) (hown : Detached fs (q ++ [.name n]))
    (hnot' : ¬ HasDirectory fs (q ++ [.name m])) (hlink : ¬ HasLink fs (q ++ [.name m]))
    (b : Bytes) :
    ∃ fs₁ fs₂ fs₃, fs.write (q ++ [.name m]) [] = .ok fs₁ ∧
      fs₁.write (q ++ [.name m]) b = .ok fs₂ ∧
      fs₂.rename (q ++ [.name m]) (q ++ [.name n]) = .ok fs₃ ∧
      fs₃.occupant (q ++ [.name n]) = .file b := by
  have hsize : m.utf8ByteSize ≤ maxName := hname'.2 (.name m) (by simp)
  have hsize' : n.utf8ByteSize ≤ maxName := hname.2 (.name n) (by simp)
  have hl := locate_name hname'.1 hd
  have hl' := locate_name hname.1 hd
  have hfree : ∀ node, fs.node? (d ++ [m]) = some node → ∃ i, node = .file i := by
    intro node hn
    cases node with
    | file i => exact ⟨i, rfl⟩
    | directory => exact absurd (.inr ⟨d, m, false, hl, hn⟩) hnot'
    | link target => exact absurd ⟨d, m, false, target, hl, hn⟩ hlink
  obtain ⟨fs₁, hcreate, h₁⟩ := exists_written hl hsize hfree []
  obtain ⟨i₁, hfile₁, -⟩ := h₁.file
  have hl₁ := locate_of_keeps h₁.ways hl
  have hfree₁ : ∀ node, fs₁.node? (d ++ [m]) = some node → ∃ i, node = .file i := by
    intro node hn
    rw [hfile₁] at hn
    exact ⟨i₁, (Option.some.inj hn).symm⟩
  obtain ⟨fs₂, hfill, h₂⟩ := exists_written hl₁ hsize hfree₁ b
  obtain ⟨i₂, hfile₂, hbytes⟩ := h₂.file
  have hother : d ++ [n] ≠ d ++ [m] := fun h => hne (List.append_singleton_inj.1 h).2.symm
  have hold₂ : fs₂.node? (d ++ [n]) ≠ some .directory := by
    rw [h₂.others _ hother, h₁.others _ hother]
    exact fun h => hnot (.inr ⟨d, n, false, hl', h⟩)
  have hstay₂ : (fs₂.eraseNode (d ++ [n])).locate (q ++ [.name n]) = .ok (.entry d n false) :=
    locate_of_keeps ((h₁.ways_eraseNode hfree d n).trans (h₂.ways_eraseNode hfree₁ d n))
      (hown d n false hl')
  have hways := h₁.ways.trans h₂.ways
  obtain ⟨fs₃, hmove, hthere⟩ := exists_moved hfile₂ hbytes hne (locate_of_keeps hways hl) hsize
    (locate_of_keeps hways hl') hsize' hold₂ hstay₂
  exact ⟨fs₁, fs₂, fs₃, hcreate, hfill, hmove, hthere⟩

/-- **Everything valid can be stored**, if the format can hold its numbers, in a directory that is
there, where no directory is in the way, no link in the place of the temporary file, and none at the
path that the path itself goes through. -/
theorem exists_store_eq_ok (hvalid : c.invalid? = none)
    (hnumbers : ∀ k ∈ c.numbers, k.toNat < 2 ^ 63) (hp : p = q ++ [.name n])
    (hparent : fs.isDirectory p.parent = true) (hnot : ¬ HasDirectory fs p)
    (hown : Detached fs p) (hnot' : ¬ HasDirectory fs (temporary p))
    (hlink : ¬ HasLink fs (temporary p)) (hname : Nameable p) (hname' : Nameable (temporary p)) :
    ∃ fs', store fs p c = (fs', .ok ()) ∧ load fs' p = .ok c := by
  have hq : p.trimmed = q ++ [.name n] := hp ▸ trimmed_name
  obtain ⟨text, htext⟩ := Option.isSome_iff_exists.1 (isSome_toToml?.2 hnumbers)
  obtain ⟨d, hd⟩ := exists_walk_of_parent hq hparent
  have ht := temporary_eq_of_not_hasDirectory hq hd hname'.1 hnot'
  obtain ⟨fs₁, fs₂, fs₃, hcreate, hfill, hmove, hthere⟩ := exists_replaced hd (stem_append_ne n)
    (hp ▸ hname) (ht ▸ hname') (hp ▸ hnot) (hp ▸ hown) (ht ▸ hnot') (ht ▸ hlink)
    (Text.encode text)
  have hstore : store fs p c = (fs₃, .ok ()) := by
    rw [← ht] at hcreate hfill
    rw [← ht, ← hp] at hmove
    simp only [store, hvalid, htext, runSteps, WriteStep.run,
      makeDirectories_of_isDirectory hparent, hcreate, hfill, hmove, attempt]
  exact ⟨fs₃, hstore, load_of_occupant hvalid htext (hp ▸ hthere)⟩

/-- Files where the temporary name of a configuration is that of a link to the configuration. -/
def linkedBack : Files where
  nodes := [(["config.toml.tmp"], .link [.blank, .name "config.toml"])]

/-- A chain of links from one name to the next, the last of which leads to a directory. -/
def chained : Files where
  nodes := (["directory"], .directory) :: (["21"], .link [.blank, .name "directory"]) ::
    (List.range 21).map fun k => ([toString k], .link [.blank, .name (toString (k + 1))])

/-- Nothing is stored under a name that is too long once it has the ending of a temporary file. -/
theorem store_ne_ok_of_long (hp : p.trimmed = q ++ [.name n])
    (hlong : maxName < (stem n ++ ".toml.tmp").utf8ByteSize) : (store fs p c).2 ≠ .ok () := by
  intro h
  obtain ⟨-, text, -, hsteps⟩ := store_eq_ok (Prod.ext rfl h)
  obtain ⟨fs₁, hcreate, -⟩ := runSteps_cons_eq_ok.1 hsteps
  obtain ⟨r, hnew, -⟩ := exists_inodeOrNew_of_write (attempt_eq_ok.1 hcreate)
  obtain ⟨d, m, dest, hl, ⟨k, l, hlast⟩, -⟩ := inodeOrNew_cases hnew
  rcases temporary_eq hp with ht | ht
  · exact locate_up_ne _ q d m false (ht ▸ hl)
  · rw [ht] at hl
    have hsize := hlast.size_le
    rw [(locate_name_iff.1 hl).2.1] at hsize
    omega

/-- Storing fails for a number that the format cannot hold, a path with a slash at its end, and a
name that leaves no room for the ending of a temporary file. Through a link in the place of the
temporary file it does something else, and a link at the path is replaced even if the path goes
through it, which may be more links than can be followed. -/
theorem store_not_total :
    let p := FilePath.ofString "/config.toml"
    (oversized.invalid? = none ∧ (store {} p oversized).2 = .error (.invalid .notStorable)) ∧
    (let p := FilePath.ofString "/config.toml/"
     (store {} p {}).2 = .error (.unwritable p .notDirectory)) ∧
    (store {} [.blank, .name (String.ofList (List.replicate 250 'a'))] {}).2 ≠ .ok () ∧
    ((store linkedBack p {}).2 = .ok () ∧
      load (store linkedBack p {}).1 p = .error (.unreadable p .tooManyLinks)) ∧
    (let p := FilePath.ofString "/0/../0"
     chained.isDirectory p = false ∧ (store chained p {}).2 = .ok () ∧
      load (store chained p {}).1 p = .error (.unreadable p .notDirectory)) := by
  have hstem (k : Nat) : stem (String.ofList (List.replicate k 'a')) =
      String.ofList (List.replicate k 'a') := by
    simp [stem]
  have hsize (k : Nat) : (String.ofList (List.replicate k 'a')).utf8ByteSize = k := by
    induction k with
    | zero => rfl
    | succ k ih =>
      rw [List.replicate_succ, String.ofList_cons, String.utf8ByteSize_append, ih, Nat.add_comm]
      rfl
  refine ⟨by decide +kernel, by decide +kernel, ?_, by decide +kernel, by decide +kernel⟩
  refine store_ne_ok_of_long (q := [.blank]) rfl ?_
  rw [hstem, String.utf8ByteSize_append, hsize]
  decide

/-- Files with a linked directory, and in it a link to another file at the path of the
configuration. -/
def linkedAround : Files where
  nodes := [(["conf"], .link [.name "etc"]), (["etc"], .directory),
    (["etc", "config.toml"], .link [.name "old.toml"]), (["etc", "old.toml"], .file 0)]
  nextInode := 1

theorem exists_store_eq_ok_linkedAround :
    let p := FilePath.ofString "/conf/config.toml"
    ∃ fs', store linkedAround p {} = (fs', .ok ()) ∧ load fs' p = .ok {} := by
  intro p
  have hall : ({} : Config).numbers.all fun k => k.toNat < 2 ^ 63 := by decide +kernel
  have hnumbers : ∀ k ∈ ({} : Config).numbers, k.toNat < 2 ^ 63 := by
    simpa using hall
  have hlocate : linkedAround.locate p = .ok (.entry ["etc"] "config.toml" false) := by
    decide +kernel
  have hlocate' : linkedAround.locate (temporary p) =
      .ok (.entry ["etc"] "config.toml.tmp" false) := by
    decide +kernel
  have hnot : ¬ HasDirectory linkedAround p := by
    have hlink : linkedAround.node? ["etc", "config.toml"] = some (.link [.name "old.toml"]) := by
      decide +kernel
    simp [HasDirectory, hlocate, hlink]
  have hown : Detached linkedAround p := by
    have hstay : (linkedAround.eraseNode ["etc", "config.toml"]).locate p =
        .ok (.entry ["etc"] "config.toml" false) := by
      decide +kernel
    intro d n slash hl
    rw [hlocate] at hl
    cases hl
    exact hstay
  have hnone : linkedAround.node? ["etc", "config.toml.tmp"] = none := by decide +kernel
  have hnot' : ¬ HasDirectory linkedAround (temporary p) := by
    simp [HasDirectory, hlocate', hnone]
  have hlink : ¬ HasLink linkedAround (temporary p) := by
    simp [HasLink, hlocate', hnone]
  exact exists_store_eq_ok (q := [.blank, .name "conf"]) (by decide) hnumbers rfl
    (by decide +kernel) hnot hown hnot' hlink (by decide +kernel) (by decide +kernel)

end Upkeep.Config
