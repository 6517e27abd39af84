import Upkeep.Audit.Trail
import Upkeep.Proofs.Audit.Journals

/-!
# What sinks record

Several sinks may write to one file. Each call adds the event that it reports, if any
(`perform_eq`), so all calls together add theirs in order (`run_spec`), and a file that was empty is
read back as what was reported, whichever sinks did so (`read_run`). A sink that keeps its events in
memory has the same to say as one that writes them to a file, since both record a report alike.

What can be reported is limited only by what JSON can carry (`Report.IsStorable`): details that are
null are read as none, and containers can be nested only so deep. The only numbers with a fraction
are durations, of which it is assumed that they survive being printed.
-/

namespace Upkeep

open Json (Tree)

/-! ## Reports that can be stored -/

/-- What a report hands over to a file is read back from there. The line is a container itself. -/
def Report.IsStorable : Report → Prop
  | .step .. | .rollback .. => True
  | .timed _ _ _ d => (Json.Number.real d.centiseconds).Survives
  | .error _ _ details | .warning _ details =>
    ∀ v ∈ details, v ≠ .null ∧ v.isPlain = true ∧ v.depth + 1 ≤ Tree.maxDepth
  | .checkpoint _ state => state.isPlain = true ∧ state.depth + 1 ≤ Tree.maxDepth

namespace Event

variable {r : Report}

theorem fitsField_record (h : r.IsStorable) : ∀ f ∈ r.record.fields, FitsField f := by
  have hcontext {details : Option Json} (h : ∀ v ∈ details, v ≠ .null ∧ v.isPlain = true ∧
      v.depth + 1 ≤ Tree.maxDepth) : ∀ f ∈ EventBody.optionalField "context" details, FitsField f :=
    fitsField_context fun v hv =>
      ⟨Json.legible_of_isPlain v (h v hv).2.1, (h v hv).1, (h v hv).2.2⟩
  cases r with
  | step stage status message => exact fitsField_step (by simp)
  | timed stage status message d =>
    refine fitsField_step fun x hx => ?_
    rw [← Option.some.inj hx]
    exact Json.legible_num h
  | error kind message details =>
    simp only [Report.record, EventBody.fields, List.forall_mem_append]
    exact ⟨by simp [fitsField_str], hcontext h⟩
  | warning message details =>
    exact List.forall_mem_cons.2 ⟨fitsField_str _ message, hcontext h⟩
  | checkpoint name state =>
    have hstate : FitsField ("state", state) := ⟨Json.legible_of_isPlain state h.1, h.2, by simp⟩
    simp [Report.record, EventBody.fields, fitsField_str, hstate]
  | rollback name reason => simp [Report.record, EventBody.fields, fitsField_str]

theorem isReadable_record {now : Timestamp} (hnow : now.IsProper) (operation : String)
    (h : r.IsStorable) : IsReadable ⟨now, operation, r.record⟩ :=
  isReadable_of_fitsField hnow (fitsField_record h)

end Event

/-! ## Sinks and their calls -/

/-- What a call reports, and when, is read back from a file. -/
def JournalCall.IsStorable {ι : Type} : JournalCall ι → Prop
  | .opening _ => True
  | .reporting _ now r => now.IsProper ∧ r.IsStorable

theorem Trail.bodies_ofReports (operation : String) (told : List (Timestamp × Report)) :
    (Trail.ofReports operation told).map (·.body) = told.map (·.2.record) := by
  suffices hrun : ∀ t : Trail, (told.foldl (Trail.record operation) t).map (·.body) =
      t.map (·.body) ++ told.map (·.2.record) from hrun []
  induction told with
  | nil => simp
  | cons r told ih => simp [ih, Trail.record]

namespace JournalCall

variable {ι : Type} (sinks : ι → JournalSink)

/-- What is to be recorded of a call, and through which sink. -/
def recorded? : JournalCall ι → Option (ι × Event)
  | .opening _ => none
  | .reporting k now r => some (k, ⟨now, (sinks k).operation, r.record⟩)

/-- What is to be recorded of some calls, in order. -/
def recorded (calls : List (JournalCall ι)) : List (ι × Event) :=
  calls.filterMap (recorded? sinks)

/-- What is reported to one of the sinks. -/
def reportsTo [DecidableEq ι] (k : ι) (calls : List (JournalCall ι)) : List Report :=
  calls.filterMap fun
    | .opening _ => none
    | .reporting k' _ r => if k' = k then some r else none

variable {sinks} {fs : Files} {i : Nat} {c : JournalCall ι} {calls : List (JournalCall ι)}

theorem perform_eq (h : ∀ k, fs.inode (sinks k).path = .ok i) :
    perform sinks fs c =
      Journal.extended fs i ((recorded? sinks c).toList.flatMap fun r => Journal.entry r.2) := by
  cases c with
  | opening k => rw [perform, Journal.create_eq (h k)]; rfl
  | reporting k now r =>
    rw [perform, Journal.appendEvent_eq _ (h k), recorded?, Option.toList_some,
      List.flatMap_singleton]

/-- Calls leave every file where it is, and add their events to the one that they are about. -/
theorem run_spec (calls : List (JournalCall ι)) (h : ∀ k, fs.inode (sinks k).path = .ok i) :
    (∀ p j, fs.inode p = .ok j → (run sinks fs calls).inode p = .ok j) ∧
      (run sinks fs calls).bytes i =
        fs.bytes i ++ (recorded sinks calls).flatMap fun r => Journal.entry r.2 := by
  induction calls generalizing fs with
  | nil => exact ⟨fun p j hp => hp, by simp [run, recorded]⟩
  | cons c calls ih =>
    have hrun : run sinks fs (c :: calls) = run sinks (perform sinks fs c) calls := rfl
    rw [hrun, perform_eq h]
    obtain ⟨hpaths, hbytes⟩ := ih fun k => Journal.inode_extended _ (h k) i
    refine ⟨fun p j hp => hpaths p j (Journal.inode_extended _ hp i), ?_⟩
    rw [hbytes, Journal.bytes_extended]
    cases hc : recorded? sinks c <;> simp [recorded, hc]

theorem isReadable_of_mem_recorded {r : ι × Event}
    (hcalls : ∀ c ∈ calls, c.IsStorable) (hr : r ∈ recorded sinks calls) : r.2.IsReadable := by
  obtain ⟨c, hc, hcr⟩ := List.mem_filterMap.1 hr
  cases c with
  | opening k => cases hcr
  | reporting k now report =>
    obtain ⟨hnow, hreport⟩ := hcalls _ hc
    cases hcr
    exact Event.isReadable_record hnow _ hreport

theorem bodies_recorded [DecidableEq ι] (k : ι) :
    ((recorded sinks calls).filter (·.1 = k)).map (·.2.body) =
      (reportsTo k calls).map Report.record := by
  induction calls with
  | nil => rfl
  | cons c calls ih =>
    cases c with
    | opening k' => exact ih
    | reporting k' now r =>
      by_cases hk : k' = k <;> simpa [recorded, recorded?, reportsTo, hk] using ih

/-- Whatever several sinks with one file are told is read back from it, in order and in full. Each
of them has recorded the same as a sink in memory that is told the same. -/
theorem read_run [DecidableEq ι] (hpaths : ∀ k, fs.inode (sinks k).path = .ok i)
    (hempty : fs.bytes i = []) (hcalls : ∀ c ∈ calls, c.IsStorable) :
    (∀ p, fs.inode p = .ok i → Journal.read (run sinks fs calls) p =
      .ok ((recorded sinks calls).map Prod.snd)) ∧
    ∀ k operation told, told.map Prod.snd = reportsTo k calls →
      ((recorded sinks calls).filter (·.1 = k)).map (·.2.body) =
        (Trail.ofReports operation told).map (·.body) := by
  obtain ⟨hinode, hbytes⟩ := run_spec calls hpaths
  constructor
  · intro p hp
    have hreadable : ∀ e ∈ (recorded sinks calls).map Prod.snd, e.IsReadable := by
      intro e he
      obtain ⟨r, hr, rfl⟩ := List.mem_map.1 he
      exact isReadable_of_mem_recorded hcalls hr
    rw [Journal.read_eq (hinode p i hp), hbytes, hempty, List.nil_append,
      ← Journal.events_entries hreadable, List.flatMap_map]
  · intro k operation told htold
    rw [bodies_recorded, Trail.bodies_ofReports, ← htold, List.map_map]
    rfl

/-- Two operations write to one file, one of them with line ends of its own. -/
theorem read_run_two :
    let sinks : Bool → JournalSink
      | false => ⟨"first\n", [.name "log"]⟩
      | true => ⟨"second", [.dot, .name "log"]⟩
    let fs : Files := { nodes := [(["log"], .file 0)], nextInode := 1 }
    let now : Timestamp := { seconds := 0, nanos := 0 }
    let calls : List (JournalCall Bool) :=
      [.opening false, .reporting false now (.timed "copy" .started "\x7b\n" (.ofMillis 1500)),
        .opening true, .reporting true now (.error "io" "\"" (some (.arr [.null]))),
        .reporting false now (.checkpoint "é" .null)]
    (Journal.read (run sinks fs calls) [.name "log"] = .ok
      [⟨now, "first\n", .step "copy" .started (some "\x7b\n")
          (some (Duration.centiseconds (.ofMillis 1500)))⟩,
        ⟨now, "second", .error "io" "\"" (some (.arr [.null]))⟩,
        ⟨now, "first\n", .checkpoint "é" .null⟩]) ∧
    ((recorded sinks calls).filter (·.1 = true)).map (·.2.body) =
      (Trail.ofReports "memory" [(now, .error "io" "\"" (some (.arr [.null])))]).map (·.body) := by
  intro sinks fs now calls
  have hpaths : ∀ k, fs.inode (sinks k).path = .ok 0 := by
    intro k
    cases k <;> decide +kernel
  have hnow : now.IsProper := ⟨by decide, by decide, by decide, by decide⟩
  have hduration : (Json.Number.real (Duration.centiseconds (.ofMillis 1500))).Survives := by
    decide +kernel
  have hcalls : ∀ c ∈ calls, c.IsStorable := by
    simp [calls, IsStorable, Report.IsStorable, hnow, hduration, Json.isPlain, Json.arePlain,
      Json.depth, Json.depthItems, Tree.maxDepth]
  obtain ⟨hread, htrail⟩ := read_run hpaths rfl hcalls
  exact ⟨hread _ (hpaths false), htrail true "memory" _ rfl⟩

end JournalCall

end Upkeep
