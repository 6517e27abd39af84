import Mathlib.Data.List.Forall2
import Upkeep.Proofs.Audit.Sinks

/-!
# What makes a journal unreadable

A sink writes whatever it is told, and a reader refuses what is nested too deep, with it the whole
file. Nothing else is refused.

**Lines.** A line within the limit is read as an event that says the same (`exists_ofLine?_line`),
whatever values it carries. Numbers may change in them and null details are read as none, so it is
the very event only under the conditions of `Event.IsReadable`.

**Journals.** If all that is reported is within the limit, the journal has one event for each
report. Otherwise it has none at all, not even for the other reports (`read_run_of_depth`).
-/

namespace Upkeep

open Json (Tree written)

/-! ## What an event says apart from values -/

/-- The body without durations, details and states. -/
def EventBody.outline : EventBody → EventBody
  | .step stage status details _ => .step stage status details none
  | .error kind message _ => .error kind message none
  | .warning message _ => .warning message none
  | .checkpoint name _ => .checkpoint name .null
  | .rollback name reason => .rollback name reason

/-- The event without durations, details and states. -/
def Event.outline (e : Event) : Event := { e with body := e.body.outline }

/-- An event is read as one that says the same, and as itself if its values allow that. -/
structure Event.ReadsAs (e e' : Event) : Prop where
  outline : e'.outline = e.outline
  same (h : e.IsReadable) : e' = e

namespace Event

variable {e : Event} {fs : List (String × Json)} {key : String}

theorem map_outline_of_forall₂ {es es' : List Event} (h : List.Forall₂ ReadsAs es es') :
    es'.map outline = es.map outline := by
  induction h with
  | nil => rfl
  | cons h _ ih => rw [List.map_cons, List.map_cons, h.outline, ih]

/-! ## Lines -/

/-- A field that may be left out is read if its value is, or is null. -/
theorem exists_nullable? {α : Type} {read : Tree → Option α} (v? : Option Json)
    (h : fs.filter (·.1 = key) = EventBody.optionalField key v?)
    (hread : ∀ v ∈ v?, v.document = .null ∨ (read v.document).isSome = true) :
    ∃ a?, nullable? read (written fs) key = some a? := by
  cases v? with
  | none => exact ⟨none, by rw [nullable?, Json.optional?_written_nil h]⟩
  | some v =>
    have hv := hread v rfl
    rw [nullable?, Json.optional?_written h]
    generalize v.document = t at hv
    cases t with
    | null => exact ⟨none, rfl⟩
    | _ =>
      rcases hv with hnull | hsome
      · cases hnull
      · obtain ⟨a, ha⟩ := Option.isSome_iff_exists.1 hsome
        exact ⟨some a, congrArg (Option.map some) ha⟩

theorem exists_context? (context : Option Json)
    (h : e.fields.filter (·.1 = "context") = EventBody.optionalField "context" context) :
    ∃ context', nullable? Tree.value? (written e.fields) "context" = some context' :=
  exists_nullable? context h fun v _ => .inr (Json.isRead v).value

/-- A number that is printed is read as a number, or was printed as null. -/
theorem real?_document_cases (x : Binary64) :
    Json.document (.ofReal x) = .null ∨ (Json.document (.ofReal x)).real?.isSome = true := by
  rcases Json.parse_num (.real x) with ⟨m, hparse, hm⟩ | hparse
  · refine .inr ?_
    obtain ⟨n, hn⟩ := Option.isSome_iff_exists.1 hm
    rw [show Json.document (.ofReal x) = .num m from Json.document_of_parse hparse, Tree.real?, hn]
    cases n <;> rfl
  · exact .inl (Json.document_of_parse hparse)

theorem exists_body? (e : Event) :
    ∃ b, body? (written e.fields) e.body.variant = some b ∧ b.outline = e.body.outline := by
  cases he : e.body with
  | step stage status details seconds =>
    have hseconds : ∃ seconds', nullable? Tree.real? (written e.fields) "duration_seconds" =
        some seconds' := by
      refine exists_nullable? (seconds.map .ofReal) ?_ fun v hv => ?_
      · simp [filter_fields, he, EventBody.fields]
      · obtain ⟨x, -, rfl⟩ := Option.map_eq_some_iff.1 hv
        exact real?_document_cases x
    obtain ⟨seconds', hseconds⟩ := hseconds
    exact ⟨_, body?_step he hseconds, rfl⟩
  | error kind message context =>
    obtain ⟨context', hcontext⟩ := exists_context? (e := e) context (by
      simp [filter_fields, he, EventBody.fields])
    exact ⟨_, body?_error he hcontext, rfl⟩
  | warning message context =>
    obtain ⟨context', hcontext⟩ := exists_context? (e := e) context (by
      simp [filter_fields, he, EventBody.fields])
    exact ⟨_, body?_warning he hcontext, rfl⟩
  | checkpoint name state =>
    obtain ⟨state', hstate⟩ := Option.isSome_iff_exists.1 (Json.isRead state).value
    exact ⟨_, body?_checkpoint he hstate, rfl⟩
  | rollback name reason => exact ⟨_, body?_rollback he, rfl⟩

/-- A line within the limit is read as an event that says the same. -/
theorem exists_ofLine?_line (htime : e.time.IsProper) (hdepth : e.toJson.depth ≤ Tree.maxDepth) :
    ∃ e', ofLine? (String.ofList e.line) = some e' ∧ e.ReadsAs e' := by
  obtain ⟨b, hbody, houtline⟩ := exists_body? e
  have hline := ofLine?_of_body? htime hdepth hbody
  refine ⟨⟨e.time, e.operation, b⟩, hline, ?_, fun h => ?_⟩
  · rw [outline, outline, houtline]
  · exact Option.some.inj (hline.symm.trans (ofLine?_line h))

end Event

/-! ## Journals -/

namespace Journal

variable {es : List Event}

theorem exists_events_entries
    (h : ∀ e ∈ es, e.time.IsProper ∧ e.toJson.depth ≤ Tree.maxDepth) :
    ∃ es', events (es.flatMap entry) = .ok es' ∧ List.Forall₂ Event.ReadsAs es es' := by
  rw [events, byteLines_entries]
  induction es with
  | nil => exact ⟨[], rfl, .nil⟩
  | cons e es ih =>
    obtain ⟨⟨htime, hdepth⟩, hes⟩ := List.forall_mem_cons.1 h
    obtain ⟨e', he', hreads⟩ := Event.exists_ofLine?_line htime hdepth
    obtain ⟨es', hes', hall⟩ := ih hes
    refine ⟨e' :: es', ?_, .cons hreads hall⟩
    rw [List.map_cons, readLines, readLine_lineBytes, he', hes']
    rfl

/-- One line that is nested too deep makes all of the file unreadable. -/
theorem events_entries_of_deep {e : Event} (he : e ∈ es) (hdeep : Tree.maxDepth < e.toJson.depth) :
    events (es.flatMap entry) = .error .notAnEvent := by
  rw [events, byteLines_entries]
  induction es with
  | nil => cases he
  | cons e' es ih =>
    rw [List.map_cons, readLines, readLine_lineBytes]
    rcases List.mem_cons.1 he with rfl | he
    · rw [Event.ofLine?_of_deep hdeep]
      rfl
    · -- What comes before is read, or it is no event either.
      rw [ih he]
      cases Event.ofLine? (String.ofList e'.line) <;> rfl

end Journal

/-! ## Reports -/

/-- How deep the values are nested that a report hands over. -/
def Report.depth : Report → Nat
  | .step .. | .timed .. | .rollback .. => 0
  | .error _ _ details | .warning _ details => details.elim 0 Json.depth
  | .checkpoint _ state => state.depth

namespace Json

theorem depthFields_append (fs gs : List (String × Json)) :
    depthFields (fs ++ gs) = max (depthFields fs) (depthFields gs) := by
  induction fs with
  | nil => exact (Nat.zero_max _).symm
  | cons f fs ih => rw [List.cons_append, depthFields, depthFields, ih, Nat.max_assoc]

theorem depthFields_optionalField (key : String) (v : Option Json) :
    depthFields (EventBody.optionalField key v) = v.elim 0 depth := by
  cases v with
  | none => rfl
  | some v => exact Nat.max_zero _

/-- Null in arrays, one in another. -/
def nested : Nat → Json
  | 0 => .null
  | n + 1 => .arr [nested n]

theorem depth_nested (n : Nat) : (nested n).depth = n := by
  induction n with
  | zero => rfl
  | succ n ih => rw [nested, depth, depthItems, ih, depthItems, Nat.max_zero]

end Json

theorem Report.depthFields_record (r : Report) : Json.depthFields r.record.fields = r.depth := by
  have hflat (key : String) (v : Option Json) (hv : ∀ a ∈ v, a.depth = 0) :
      Json.depthFields (EventBody.optionalField key v) = 0 := by
    rw [Json.depthFields_optionalField]
    cases v with
    | none => rfl
    | some a => exact hv a rfl
  cases r with
  | step stage status message =>
    simp [record, EventBody.fields, Json.depthFields_append, Json.depthFields, Json.depth, depth,
      hflat]
  | timed stage status message d =>
    simp [record, EventBody.fields, Json.depthFields_append, Json.depthFields, Json.depth, depth,
      hflat, Json.ofReal]
  | error kind message details =>
    simp [record, EventBody.fields, Json.depthFields_optionalField, Json.depthFields, Json.depth,
      depth]
  | warning message details =>
    simp [record, EventBody.fields, Json.depthFields_optionalField, Json.depthFields, Json.depth,
      depth]
  | checkpoint name state =>
    simp [record, EventBody.fields, Json.depthFields, Json.depth, depth]
  | rollback name reason =>
    simp [record, EventBody.fields, Json.depthFields, Json.depth, depth]

theorem Report.depth_toJson (now : Timestamp) (operation : String) (r : Report) :
    (Event.mk now operation r.record).toJson.depth = r.depth + 1 := by
  simp [Event.toJson, Event.untimedFields, Json.depth, Json.depthFields, depthFields_record]

namespace JournalCall

variable {ι : Type} {sinks : ι → JournalSink} {fs : Files} {i : Nat} {c : JournalCall ι}
  {calls : List (JournalCall ι)} {p : FilePath}

/-- The time of a report exists. -/
def IsTimed : JournalCall ι → Prop
  | .opening _ => True
  | .reporting _ now _ => now.IsProper

/-- How deep the values are nested that a call hands over. -/
def depth : JournalCall ι → Nat
  | .opening _ => 0
  | .reporting _ _ r => r.depth

theorem read_run_eq (hpaths : ∀ k, fs.inode (sinks k).path = .ok i) (hempty : fs.bytes i = [])
    (hp : fs.inode p = .ok i) (calls : List (JournalCall ι)) :
    Journal.read (run sinks fs calls) p =
      Journal.events (((recorded sinks calls).map Prod.snd).flatMap Journal.entry) := by
  obtain ⟨hinode, hbytes⟩ := run_spec calls hpaths
  rw [Journal.read_eq (hinode p i hp), hbytes, hempty, List.nil_append, List.flatMap_map]

theorem exists_read_run_eq_ok (hpaths : ∀ k, fs.inode (sinks k).path = .ok i)
    (hempty : fs.bytes i = []) (hp : fs.inode p = .ok i) (htimed : ∀ c ∈ calls, c.IsTimed)
    (hdepth : ∀ c ∈ calls, c.depth < Tree.maxDepth) :
    ∃ es, Journal.read (run sinks fs calls) p = .ok es ∧
      List.Forall₂ Event.ReadsAs ((recorded sinks calls).map Prod.snd) es := by
  rw [read_run_eq hpaths hempty hp]
  refine Journal.exists_events_entries fun e he => ?_
  obtain ⟨r, hr, rfl⟩ := List.mem_map.1 he
  obtain ⟨c, hc, hrecorded⟩ := List.mem_filterMap.1 hr
  cases c with
  | opening k => cases hrecorded
  | reporting k now report =>
    cases hrecorded
    refine ⟨htimed _ hc, ?_⟩
    rw [Report.depth_toJson]
    exact hdepth _ hc

theorem read_run_eq_error (hpaths : ∀ k, fs.inode (sinks k).path = .ok i)
    (hempty : fs.bytes i = []) (hp : fs.inode p = .ok i) (hc : c ∈ calls)
    (hdeep : Tree.maxDepth ≤ c.depth) :
    Journal.read (run sinks fs calls) p = .error .notAnEvent := by
  rw [read_run_eq hpaths hempty hp]
  cases c with
  | opening k => cases hdeep
  | reporting k now report =>
    have hrecorded : (k, ⟨now, (sinks k).operation, report.record⟩) ∈ recorded sinks calls :=
      List.mem_filterMap.2 ⟨_, hc, rfl⟩
    refine Journal.events_entries_of_deep (List.mem_map_of_mem hrecorded) ?_
    rw [Report.depth_toJson]
    exact Nat.lt_succ_of_le hdeep

/-- **A journal is read exactly if nothing in it is nested too deep.** Then it has one event for
each report, with the same to say; otherwise not even the other events are read. -/
theorem read_run_of_depth (hpaths : ∀ k, fs.inode (sinks k).path = .ok i)
    (hempty : fs.bytes i = []) (hp : fs.inode p = .ok i) (htimed : ∀ c ∈ calls, c.IsTimed) :
    ((∀ c ∈ calls, c.depth < Tree.maxDepth) →
      ∃ es, Journal.read (run sinks fs calls) p = .ok es ∧
        List.Forall₂ Event.ReadsAs ((recorded sinks calls).map Prod.snd) es) ∧
    ∀ c ∈ calls, Tree.maxDepth ≤ c.depth →
      Journal.read (run sinks fs calls) p = .error .notAnEvent :=
  ⟨exists_read_run_eq_ok hpaths hempty hp htimed,
    fun _ hc hdeep => read_run_eq_error hpaths hempty hp hc hdeep⟩

/-- A checkpoint in as many containers as a document may have: the line is one more, and nothing of
the journal is read. -/
theorem not_read_run_nested :
    let sinks : Unit → JournalSink := fun _ => ⟨"x", [.name "log"]⟩
    let fs : Files := { nodes := [(["log"], .file 0)], nextInode := 1 }
    let now : Timestamp := { seconds := 0, nanos := 0 }
    let calls : List (JournalCall Unit) :=
      [.opening (), .reporting () now (.step "copy" .started ""),
        .reporting () now (.checkpoint "deep" (.nested 127)),
        .reporting () now (.step "copy" .completed "")]
    (∀ k, fs.inode (sinks k).path = .ok 0) ∧ fs.bytes 0 = [] ∧ (∀ c ∈ calls, c.IsTimed) ∧
      ¬ ∃ es, Journal.read (run sinks fs calls) [.name "log"] = .ok es := by
  intro sinks fs now calls
  have hpaths : ∀ k, fs.inode (sinks k).path = .ok 0 := by
    intro k
    decide +kernel
  have hnow : now.IsProper := ⟨by decide, by decide, by decide, by decide⟩
  have hmem : .reporting () now (.checkpoint "deep" (.nested 127)) ∈ calls := by simp [calls]
  have hdeep : Tree.maxDepth ≤ (Json.nested 127).depth := Nat.le_of_eq (Json.depth_nested 127).symm
  refine ⟨hpaths, rfl, by simp [calls, IsTimed, hnow], fun ⟨es, hread⟩ => ?_⟩
  rw [read_run_eq_error hpaths rfl (hpaths ()) hmem hdeep] at hread
  cases hread

/-- The largest number, infinity, null details and a key given twice are no obstacle, but one more
container is. -/
theorem read_run_of_depth_both :
    let sinks : Unit → JournalSink := fun _ => ⟨"x", [.name "log"]⟩
    let fs : Files := { nodes := [(["log"], .file 0)], nextInode := 1 }
    let now : Timestamp := { seconds := 0, nanos := 0 }
    let numbers : Json := .obj
      [("k", .ofReal ⟨0x7FEFFFFFFFFFFFFF⟩), ("k", .ofReal ⟨0x7FF0000000000000⟩)]
    let calls (n : Nat) : List (JournalCall Unit) :=
      [.opening (), .reporting () now (.error "io" "full" (some numbers)),
        .reporting () now (.warning "low" (some .null)),
        .reporting () now (.checkpoint "deep" (.nested n))]
    (∃ es, Journal.read (run sinks fs (calls 126)) [.name "log"] = .ok es ∧
      es.map Event.outline = [⟨now, "x", .error "io" "full" none⟩, ⟨now, "x", .warning "low" none⟩,
        ⟨now, "x", .checkpoint "deep" .null⟩]) ∧
    Journal.read (run sinks fs (calls 127)) [.name "log"] = .error .notAnEvent := by
  intro sinks fs now numbers calls
  have hpaths : ∀ k, fs.inode (sinks k).path = .ok 0 := by
    intro k
    decide +kernel
  have hnow : now.IsProper := ⟨by decide, by decide, by decide, by decide⟩
  have htimed (n : Nat) : ∀ c ∈ calls n, c.IsTimed := by simp [calls, IsTimed, hnow]
  have hnumbers : numbers.depth = 1 := rfl
  have hdepth : ∀ c ∈ calls 126, c.depth < Tree.maxDepth := by
    simp [calls, depth, Report.depth, Json.depth_nested, hnumbers, Tree.maxDepth, Json.depth]
  have hmem : .reporting () now (.checkpoint "deep" (.nested 127)) ∈ calls 127 := by simp [calls]
  have hdeep : Tree.maxDepth ≤ (Json.nested 127).depth := Nat.le_of_eq (Json.depth_nested 127).symm
  obtain ⟨es, hread, hes⟩ := (read_run_of_depth hpaths rfl (hpaths ()) (htimed 126)).1 hdepth
  refine ⟨⟨es, hread, Event.map_outline_of_forall₂ hes⟩, ?_⟩
  exact (read_run_of_depth hpaths rfl (hpaths ()) (htimed 127)).2 _ hmem hdeep

end JournalCall

end Upkeep
