import Upkeep.Proofs.Audit.Journals
import Upkeep.Proofs.Json.Canonical
import Upkeep.Proofs.Json.Literals

/-!
# Journals written again

A journal may have its fields in any order among others, offsets in its timestamps, null for what
has no value, blank lines and either line end. What is read from it has one form only.

**Events.** Whatever a line looks like, its event can be written: its time exists, and the values
in it are canonical and no deeper than the line (`isReadable_of_ofTree?`). So the events that were
read are read again from the lines that a sink writes for them, if their numbers survive that
(`read_foldl_append`).

**Seams.** A line feed between two files separates what each of them says (`events_append`). What
was the last line of the first file now has an end, which at most takes a carriage return from it.
-/

namespace Upkeep

open Json (Tree)

/-! ## Fields of a document -/

namespace Json

variable {t : Tree} {fs : List (String × Tree)} {f : String × Tree} {key : String}

theorem depth_le_of_mapM {fields : List (List Piece × Tree)}
    (h : fields.mapM (fun (k, t) => (·, t) <$> Tree.string? k) = some fs) (hf : f ∈ fs) :
    f.2.depth ≤ Tree.depthFields fields := by
  induction fields generalizing fs with
  | nil =>
    cases h
    cases hf
  | cons g fields ih =>
    obtain ⟨k, t⟩ := g
    rw [List.mapM_cons] at h
    obtain ⟨g, hg, h⟩ := Option.bind_eq_some_iff.1 h
    obtain ⟨gs, hgs, h⟩ := Option.bind_eq_some_iff.1 h
    obtain ⟨s, -, rfl⟩ := Option.map_eq_some_iff.1 hg
    cases h
    rcases List.mem_cons.1 hf with rfl | hf
    · exact Nat.le_max_left _ _
    · exact Nat.le_trans (ih hgs hf) (Nat.le_max_right _ _)

theorem depth_lt_of_fields? (h : t.fields? = some fs) (hf : f ∈ fs) : f.2.depth < t.depth := by
  cases t with
  | obj fields => exact Nat.lt_succ_of_le (depth_le_of_mapM h hf)
  | _ => cases h

theorem mem_of_required? (h : Tree.required? fs key = some t) : (key, t) ∈ fs := by
  rw [Tree.required?] at h
  split at h
  · rename_i k _ hfilter
    cases h
    obtain ⟨hmem, hkey⟩ := List.mem_filter.1 (hfilter ▸ List.mem_singleton_self (k, t))
    rwa [← of_decide_eq_true hkey]
  · cases h

theorem mem_of_optional? (h : Tree.optional? fs key = some (some t)) : (key, t) ∈ fs := by
  rw [Tree.optional?] at h
  split at h
  · cases h
  · rename_i k _ hfilter
    cases h
    obtain ⟨hmem, hkey⟩ := List.mem_filter.1 (hfilter ▸ List.mem_singleton_self (k, t))
    rwa [← of_decide_eq_true hkey]
  · cases h

theorem eq_null_of_value? (h : t.value? = some .null) : t = .null := by
  cases t with
  | null => rfl
  | bool b => cases h
  | num n | text ps =>
    obtain ⟨_, -, heq⟩ := Option.map_eq_some_iff.1 h
    cases heq
  | arr items | obj fields =>
    rw [Tree.value?] at h
    obtain ⟨_, -, heq⟩ := Option.map_eq_some_iff.1 h
    cases heq

end Json

namespace Event

variable {t : Tree} {fs : List (String × Tree)} {key : String} {e : Event} {v : Json}

theorem exists_of_nullable? {α : Type} {read : Tree → Option α} {a : α}
    (h : nullable? read fs key = some (some a)) :
    ∃ t, (key, t) ∈ fs ∧ t ≠ .null ∧ read t = some a := by
  rw [nullable?] at h
  split at h
  · cases h
  · cases h
  · cases h
  · rename_i t hnull hoptional
    obtain ⟨a, ha, heq⟩ := Option.map_eq_some_iff.1 h
    cases heq
    exact ⟨t, Json.mem_of_optional? hoptional, fun heq => hnull (heq ▸ rfl), ha⟩

/-! ## Events -/

/-- Every binary64 number in the event is read back from its text. -/
def RealsSurvive (e : Event) : Prop := ∀ f ∈ e.body.fields, f.2.RealsSurvive

/-- What a field denotes can be written, but a context that is null is left out. -/
theorem fitsField_of_value? (h : t.value? = some v) (hdepth : t.depth + 1 ≤ Tree.maxDepth)
    (hreals : v.RealsSurvive) (hnull : key = "context" → t ≠ .null) : FitsField (key, v) := by
  obtain ⟨hcanonical, hle⟩ := Json.value?_spec t h
  refine ⟨hcanonical.legible hreals, Nat.le_trans (Nat.succ_le_succ hle) hdepth, fun heq => ?_⟩
  obtain ⟨hkey, rfl⟩ := Prod.mk.inj heq
  exact hnull hkey (Json.eq_null_of_value? h)

theorem fitsField_of_nullable? {context : Option Json}
    (h : nullable? Tree.value? fs "context" = some context)
    (hdepth : ∀ f ∈ fs, f.2.depth + 1 ≤ Tree.maxDepth)
    (hreals : ∀ f ∈ EventBody.optionalField "context" context, f.2.RealsSurvive) :
    ∀ f ∈ EventBody.optionalField "context" context, FitsField f := by
  refine fitsField_optionalField fun v hv => ?_
  cases hv
  obtain ⟨t, hmem, hnull, hvalue⟩ := exists_of_nullable? h
  exact fitsField_of_value? hvalue (hdepth _ hmem) (hreals _ List.mem_cons_self) fun _ => hnull

theorem fitsField_of_body? {variant : String} {b : EventBody} (h : body? fs variant = some b)
    (hdepth : ∀ f ∈ fs, f.2.depth + 1 ≤ Tree.maxDepth)
    (hreals : ∀ f ∈ b.fields, f.2.RealsSurvive) : ∀ f ∈ b.fields, FitsField f := by
  unfold body? at h
  -- Texts always fit. What has to be shown is about the number of a step, the context of an error
  -- or a warning, and the state of a checkpoint.
  split at h
  · obtain ⟨stage, -, h⟩ := Option.bind_eq_some_iff.1 h
    obtain ⟨st, -, h⟩ := Option.bind_eq_some_iff.1 h
    obtain ⟨status, -, h⟩ := Option.bind_eq_some_iff.1 h
    obtain ⟨details, -, h⟩ := Option.bind_eq_some_iff.1 h
    obtain ⟨seconds, -, h⟩ := Option.bind_eq_some_iff.1 h
    cases h
    refine fitsField_step fun x hx => ?_
    have hsurvives := hreals ("duration_seconds", .ofReal x) (by
      simp [EventBody.fields, EventBody.optionalField, Option.mem_def.1 hx])
    cases hsurvives with
    | real hx => exact Json.legible_num hx
  · obtain ⟨kind, -, h⟩ := Option.bind_eq_some_iff.1 h
    obtain ⟨message, -, h⟩ := Option.bind_eq_some_iff.1 h
    obtain ⟨context, hcontext, h⟩ := Option.bind_eq_some_iff.1 h
    cases h
    rw [EventBody.fields, List.forall_mem_append] at hreals ⊢
    exact ⟨by simp [fitsField_str], fitsField_of_nullable? hcontext hdepth hreals.2⟩
  · obtain ⟨message, -, h⟩ := Option.bind_eq_some_iff.1 h
    obtain ⟨context, hcontext, h⟩ := Option.bind_eq_some_iff.1 h
    cases h
    rw [EventBody.fields, List.forall_mem_cons] at hreals ⊢
    exact ⟨fitsField_str _ message, fitsField_of_nullable? hcontext hdepth hreals.2⟩
  · obtain ⟨name, -, h⟩ := Option.bind_eq_some_iff.1 h
    obtain ⟨t, ht, h⟩ := Option.bind_eq_some_iff.1 h
    obtain ⟨state, hstate, h⟩ := Option.bind_eq_some_iff.1 h
    cases h
    have hfits : FitsField ("state", state) :=
      fitsField_of_value? hstate (hdepth _ (Json.mem_of_required? ht))
        (hreals ("state", state) (by simp [EventBody.fields])) (by simp)
    simp [EventBody.fields, fitsField_str, hfits]
  · obtain ⟨name, -, h⟩ := Option.bind_eq_some_iff.1 h
    obtain ⟨reason, -, h⟩ := Option.bind_eq_some_iff.1 h
    cases h
    simp [EventBody.fields, fitsField_str]
  · cases h

/-- The event of a document can be written so that it is read again. -/
theorem isReadable_of_ofTree? (h : ofTree? t = some e) (hreals : e.RealsSurvive) :
    e.IsReadable := by
  rw [ofTree?] at h
  obtain ⟨hdepth, h⟩ := Option.ite_none_left_eq_some.1 h
  obtain ⟨v, -, h⟩ := Option.bind_eq_some_iff.1 h
  obtain ⟨fs, hfields, h⟩ := Option.bind_eq_some_iff.1 h
  obtain ⟨text, -, h⟩ := Option.bind_eq_some_iff.1 h
  obtain ⟨time, htime, h⟩ := Option.bind_eq_some_iff.1 h
  obtain ⟨operation, -, h⟩ := Option.bind_eq_some_iff.1 h
  obtain ⟨name, -, h⟩ := Option.bind_eq_some_iff.1 h
  obtain ⟨variant, -, h⟩ := Option.bind_eq_some_iff.1 h
  obtain ⟨body, hbody, h⟩ := Option.bind_eq_some_iff.1 h
  cases h
  refine isReadable_of_fitsField (Timestamp.isProper_of_read? htime)
    (fitsField_of_body? hbody (fun f hf => ?_) hreals)
  exact Nat.le_trans (Json.depth_lt_of_fields? hfields hf) (Nat.not_lt.1 hdepth)

end Event

/-! ## Lines -/

namespace Journal

variable {fs : Files} {p : FilePath} {i : Nat} {es : List Event} {contents line : Bytes} {e : Event}

theorem exists_ofLine?_of_readLine (h : readLine line = .ok (some e)) :
    ∃ s, Event.ofLine? s = some e := by
  rw [readLine] at h
  split at h
  · cases h
  · rename_i s _
    split at h
    · cases h
    · split at h
      · cases h
        exact ⟨s, ‹_›⟩
      · cases h

theorem exists_ofLine?_of_readLines {ls : List Bytes} (h : readLines ls = .ok es) (he : e ∈ es) :
    ∃ s, Event.ofLine? s = some e := by
  induction ls generalizing es with
  | nil =>
    cases h
    cases he
  | cons line ls ih =>
    rw [readLines] at h
    cases hline : readLine line with
    | error fault =>
      rw [hline] at h
      cases h
    | ok e? =>
      cases hrest : readLines ls with
      | error fault =>
        rw [hline, hrest] at h
        cases h
      | ok rest =>
        rw [hline, hrest] at h
        cases h
        rcases List.mem_append.1 he with hfirst | he
        · rw [Option.mem_toList.1 hfirst] at hline
          exact exists_ofLine?_of_readLine hline
        · exact ih hrest he

/-- What is read from a journal can be written so that it is read again. -/
theorem isReadable_of_events (h : events contents = .ok es) (he : e ∈ es)
    (hreals : e.RealsSurvive) : e.IsReadable := by
  obtain ⟨s, hs⟩ := exists_ofLine?_of_readLines h he
  obtain ⟨t, -, ht⟩ := Option.bind_eq_some_iff.1 hs
  exact Event.isReadable_of_ofTree? ht hreals

/-! ## Seams -/

theorem readLines_append (ls ms : List Bytes) :
    readLines (ls ++ ms) = do return (← readLines ls) ++ (← readLines ms) := by
  induction ls with
  | nil =>
    rw [List.nil_append]
    cases readLines ms <;> rfl
  | cons line ls ih =>
    rw [List.cons_append, readLines, readLines, ih]
    cases readLine line with
    | error fault => rfl
    | ok e? =>
      cases readLines ls with
      | error fault => rfl
      | ok es =>
        cases readLines ms with
        | error fault => rfl
        | ok es' => exact congrArg Except.ok (List.append_assoc _ _ _).symm

/-- A carriage return at the end of a line says nothing. -/
theorem readLine_concat_return (line : Bytes) : readLine (line ++ [13]) = readLine line := by
  rw [readLine, readLine, Text.decode?_concat_return]
  cases Text.decode? line with
  | none => rfl
  | some s =>
    have hblank : isBlankLine (s ++ "\r") = isBlankLine s := by
      rw [isBlankLine, String.toList_append, List.all_append]
      exact Bool.and_true _
    have hevent : Event.ofLine? (s ++ "\r") = Event.ofLine? s := by
      -- The carriage return is white space behind the last token.
      have hscan : Json.Token.scan (s ++ "\r").toList = Json.Token.scan s.toList := by
        rw [String.toList_append]
        exact Json.scanFrom_concat trivial (by decide)
      rw [Event.ofLine?, Tree.parse, hscan]
      rfl
    simp only [Option.map_some, hblank, hevent]

theorem readLine_dropReturn (line : Bytes) :
    readLine (Text.dropReturn 13 line) = readLine line :=
  Text.apply_dropReturn readLine_concat_return line

theorem readLines_dropReturn (ls : List Bytes) :
    readLines (ls.map (Text.dropReturn 13)) = readLines ls := by
  induction ls with
  | nil => rfl
  | cons line ls ih => rw [List.map_cons, readLines, readLines, readLine_dropReturn, ih]

/-- The events of a file are those of the runs between its line feeds, whatever its line ends, and
whether or not there is one after the last of them. -/
theorem events_eq (contents : Bytes) :
    events contents =
      readLines ((Text.breakAt 10 contents).1 ++ [(Text.breakAt 10 contents).2]) := by
  have hlast (last : Bytes) :
      readLines (if last.isEmpty then [] else [last]) = readLines [last] := by
    cases last <;> rfl
  rw [events, Text.byteLines, Text.linesOf, readLines_append, readLines_dropReturn, hlast,
    ← readLines_append]

/-- **A line feed separates two journals.** -/
theorem events_append (a b : Bytes) :
    events (a ++ 10 :: b) = do return (← events a) ++ (← events b) := by
  rw [events_eq, events_eq, events_eq, Text.breakAt_append, ← readLines_append, List.append_assoc,
    List.append_assoc]
  rfl

/-! ## Files -/

theorem foldl_append_spec (h : fs.inode p = .ok i) (es : List Event) :
    (es.foldl (append · p ·) fs).inode p = .ok i ∧
      (es.foldl (append · p ·) fs).bytes i = fs.bytes i ++ es.flatMap entry := by
  induction es generalizing fs with
  | nil => exact ⟨h, (List.append_nil _).symm⟩
  | cons e es ih =>
    rw [List.foldl_cons, appendEvent_eq e h]
    obtain ⟨hinode, hbytes⟩ := ih (inode_extended (entry e) h i)
    refine ⟨hinode, ?_⟩
    rw [hbytes, bytes_extended, List.append_assoc, List.flatMap_cons]

theorem read_of_read {contents : Bytes} (h : fs.read p = .ok contents) :
    read fs p = events contents := by
  rw [read, h]
  rfl

/-- The events that were read from one file are read from another that they were written to. -/
theorem read_foldl_append {fs' : Files} {q : FilePath} (hread : read fs p = .ok es)
    (hreals : ∀ e ∈ es, e.RealsSurvive) (hq : fs'.inode q = .ok i)
    (hempty : fs'.bytes i = []) : read (es.foldl (append · q ·) fs') q = .ok es := by
  have hevents : ∃ contents, events contents = .ok es := by
    rw [read] at hread
    cases hcontents : fs.read p with
    | error fault =>
      rw [hcontents] at hread
      cases hread
    | ok contents =>
      rw [hcontents] at hread
      exact ⟨contents, hread⟩
  obtain ⟨contents, hevents⟩ := hevents
  obtain ⟨hinode, hbytes⟩ := foldl_append_spec hq es
  rw [read_eq hinode, hbytes, hempty, List.nil_append]
  exact events_entries fun e he => isReadable_of_events hevents he (hreals e he)

/-- **Reading normalises a journal once.** Whatever form a journal has, the events that are read
from it are read again from an empty file to which they were written, if their binary64 numbers
survive that. A line feed separates two contents: the events are those of the one and then those of
the other, and the first fault of either is the fault of both. -/
theorem reading_normalises :
    (∀ (fs : Files) (p : FilePath) (es : List Event), read fs p = .ok es →
      (∀ e ∈ es, e.RealsSurvive) →
      ∀ (fs' : Files) (q : FilePath) (i : Nat), fs'.inode q = .ok i → fs'.bytes i = [] →
        read (es.foldl (append · q ·) fs') q = .ok es) ∧
    ∀ (fs₁ fs₂ fs : Files) (p₁ p₂ p : FilePath) (a b : Bytes),
      fs₁.read p₁ = .ok a → fs₂.read p₂ = .ok b → fs.read p = .ok (a ++ 10 :: b) →
        read fs p = do return (← read fs₁ p₁) ++ (← read fs₂ p₂) := by
  refine ⟨fun fs p es hread hreals fs' q i => read_foldl_append hread hreals, ?_⟩
  intro fs₁ fs₂ fs p₁ p₂ p a b ha hb h
  rw [read_of_read ha, read_of_read hb, read_of_read h, events_append]

theorem events_encode {s : String} (hs : '\n' ∉ s.toList) (hblank : isBlankLine s = false)
    (h : Event.ofLine? s = some e) : events (Text.encode s) = .ok [e] := by
  have hfeed : 10 ∉ Text.encode s := by
    rw [← String.ofList_toList (s := s), Text.mem_encode_iff]
    exact hs
  have hline : readLine (Text.encode s) = .ok (some e) := by
    rw [readLine, Text.decode?_encode]
    simp only [hblank, h, Bool.false_eq_true, if_false]
  rw [events_eq, Text.breakAt_of_not_mem hfeed, List.nil_append, readLines, hline]
  rfl

/-- A line that no sink writes: its fields are in another order, one is unknown and one is null, the
time has an offset, and a carriage return ends it. -/
def strayLine : String :=
  "\x7b\"warning_message\":\"w\",\"extra\":[],\"context\":null,\"event\":\"warning\"," ++
    "\"operation_id\":\"o\",\"timestamp\":\"1970-01-01T02:00:00+02:00\"\x7d\r"

theorem ofLine?_strayLine :
    Event.ofLine? strayLine = some ⟨⟨0, 0⟩, "o", .warning "w" none⟩ := by
  have hscan : Json.Token.scan strayLine.toList = some
      [.openObject, .text (Json.pieces "warning_message"), .colon, .text (Json.pieces "w"), .comma,
        .text (Json.pieces "extra"), .colon, .openArray, .closeArray, .comma,
        .text (Json.pieces "context"), .colon, .null, .comma,
        .text (Json.pieces "event"), .colon, .text (Json.pieces "warning"), .comma,
        .text (Json.pieces "operation_id"), .colon, .text (Json.pieces "o"), .comma,
        .text (Json.pieces "timestamp"), .colon,
        .text (Json.pieces "1970-01-01T02:00:00+02:00"), .closeObject] := by decide +kernel
  have hparse : Tree.parse strayLine = some (.obj
      [(Json.pieces "warning_message", .text (Json.pieces "w")), (Json.pieces "extra", .arr []),
        (Json.pieces "context", .null), (Json.pieces "event", .text (Json.pieces "warning")),
        (Json.pieces "operation_id", .text (Json.pieces "o")),
        (Json.pieces "timestamp", .text (Json.pieces "1970-01-01T02:00:00+02:00"))]) := by
    rw [Tree.parse, hscan]
    rfl
  have htime : Timestamp.read? "1970-01-01T02:00:00+02:00" = some ⟨0, 0⟩ := by decide +kernel
  simp only [Event.ofLine?, hparse, Option.bind_eq_bind, Option.bind_some]
  rw [Event.ofTree?, if_neg (by decide)]
  simp [Tree.value?, Tree.values?, Tree.fieldValues?, Tree.fields?, Tree.required?, Tree.optional?,
    Tree.str?, Json.string?_pieces, Event.text?, Event.variant?, Event.variants, Event.body?,
    Event.nullable?, htime]

/-- Two files, a third with what is in both and a line feed between, and an empty one. -/
def twoFiles (a b : Bytes) : Files where
  nodes := [(["first"], .file 0), (["second"], .file 1), (["both"], .file 2), (["new"], .file 3)]
  contents := [(0, a), (1, b), (2, a ++ 10 :: b)]
  nextInode := 4

/-- The stray line is read together with one that a sink has written behind a blank line, and what
was read is read again. -/
theorem reading_normalises_two :
    let stray : Event := ⟨⟨0, 0⟩, "o", .warning "w" none⟩
    let written : Event := ⟨⟨0, 0⟩, "o", .checkpoint "c" (.ofReal ⟨0x4004000000000000⟩)⟩
    let fs := twoFiles (Text.encode strayLine) (10 :: entry written)
    read fs [.name "both"] = .ok [stray, written] ∧
      read ([stray, written].foldl (append · [.name "new"] ·) fs) [.name "new"] =
        .ok [stray, written] := by
  intro stray written fs
  have hfiles (a b : Bytes) : (twoFiles a b).read [.name "first"] = .ok a ∧
      (twoFiles a b).read [.name "second"] = .ok b ∧
      (twoFiles a b).read [.name "both"] = .ok (a ++ 10 :: b) ∧
      (twoFiles a b).inode [.name "new"] = .ok 3 ∧ (twoFiles a b).bytes 3 = [] :=
    ⟨rfl, rfl, rfl, rfl, rfl⟩
  obtain ⟨hfirst, hsecond, hboth, hinode, hempty⟩ :=
    hfiles (Text.encode strayLine) (10 :: entry written)
  have hsurvives : (Json.Number.real ⟨0x4004000000000000⟩).Survives := by decide +kernel
  have hwritten : written.IsReadable := by
    refine Event.isReadable_of_fitsField ⟨by decide, by decide, by decide, by decide⟩ ?_
    refine List.forall_mem_cons.2 ⟨Event.fitsField_str _ _, List.forall_mem_singleton.2 ?_⟩
    exact ⟨Json.legible_num hsurvives, by decide, by simp⟩
  have hread : read fs [.name "both"] = .ok [stray, written] := by
    rw [reading_normalises.2 fs fs fs _ _ _ _ _ hfirst hsecond hboth, read_of_read hfirst,
      read_of_read hsecond, events_encode (by decide +kernel) (by decide +kernel) ofLine?_strayLine]
    have hblank : events (10 :: entry written) = events (entry written) :=
      (events_append [] _).trans (by cases events (entry written) <;> rfl)
    have hentry : events (entry written) = .ok [written] := by
      rw [← events_entries (List.forall_mem_singleton.2 hwritten), List.flatMap_singleton]
    rw [hblank, hentry]
    rfl
  refine ⟨hread, reading_normalises.1 fs _ _ hread ?_ fs _ 3 hinode hempty⟩
  refine List.forall_mem_cons.2 ⟨?_, List.forall_mem_singleton.2 ?_⟩
  · exact List.forall_mem_singleton.2 (.str _)
  · exact List.forall_mem_cons.2 ⟨.str _, List.forall_mem_singleton.2 (.real hsurvives)⟩

end Journal

end Upkeep
