import Upkeep.Audit.Reading
import Upkeep.Proofs.Json.Values
import Upkeep.Proofs.Time.Rfc3339

/-!
# Events as lines

A line is one document, and its fields are read by their keys (`ofLine?_of_body?`). So an event is
read back from its line as itself (`ofLine?_line`) if the value of each field is read back
(`Json.Legible`) and what may be left out is not null. All that it needs besides is that no value is
too deep (`ofLine?_of_deep`).
-/

namespace Upkeep

open Json (Tree)

/-! ## Fields by their keys -/

namespace Json

variable {fields : List (String × Json)} {key : String} {v : Json}

/-- The fields of a document as they are written. -/
def written (fields : List (String × Json)) : List (String × Tree) :=
  fields.map fun f => (f.1, f.2.document)

theorem fields?_document (fields : List (String × Json)) :
    (document (.obj fields)).fields? = some (written fields) := by
  rw [document, Tree.fields?]
  induction fields with
  | nil => rfl
  | cons f fields ih =>
    obtain ⟨k, v⟩ := f
    rw [fieldDocuments, List.mapM_cons, ih]
    simp only [string?_pieces]
    rfl

theorem filter_written : (written fields).filter (·.1 = key) =
    written (fields.filter (·.1 = key)) := by
  rw [written, List.filter_map]
  rfl

theorem required?_written (h : fields.filter (·.1 = key) = [(key, v)]) :
    Tree.required? (written fields) key = some v.document := by
  rw [Tree.required?, filter_written, h]
  rfl

theorem optional?_written (h : fields.filter (·.1 = key) = [(key, v)]) :
    Tree.optional? (written fields) key = some (some v.document) := by
  rw [Tree.optional?, filter_written, h]
  rfl

theorem optional?_written_nil (h : fields.filter (·.1 = key) = []) :
    Tree.optional? (written fields) key = some none := by
  rw [Tree.optional?, filter_written, h]
  rfl

end Json

@[simp] theorem EventBody.filter_optionalField (k key : String) (v : Option Json) :
    (optionalField k v).filter (·.1 = key) = if k = key then optionalField k v else [] := by
  cases v with
  | none => exact (ite_self _).symm
  | some v =>
    by_cases h : k = key <;> simp [optionalField, h]

namespace Event

open Json (written)

variable {fs : List (String × Json)} {key : String}

theorem text?_written {s : String} (h : fs.filter (·.1 = key) = [(key, .str s)]) :
    text? (written fs) key = some s := by
  rw [text?, Json.required?_written h]
  exact Json.string?_pieces s

/-- A field that may be left out is read whether it is there or not, unless it is null. -/
theorem nullable?_written {α : Type} {read : Tree → Option α} {f : α → Json} {a? : Option α}
    (h : fs.filter (·.1 = key) = EventBody.optionalField key (a?.map f))
    (hread : ∀ a, a? = some a → (f a).Legible ∧ f a ≠ .null ∧
      read (f a).document = some a) : nullable? read (written fs) key = some a? := by
  cases a? with
  | none => rw [nullable?, Json.optional?_written_nil h]
  | some a =>
    obtain ⟨hlegible, hnull, ha⟩ := hread a rfl
    have hdocument : (f a).document ≠ .null := by
      intro heq
      have hvalue := hlegible.value
      rw [heq] at hvalue
      exact hnull (Option.some.inj hvalue).symm
    rw [nullable?, Json.optional?_written h]
    generalize (f a).document = t at ha hdocument
    cases t with
    | null => exact absurd rfl hdocument
    | _ => exact congrArg (Option.map some) ha

theorem status?_document (st : StepStatus) :
    status? (Json.document (.str st.name)) = some st := by
  have hname : status? (Json.document (.str st.name)) =
      (Tree.string? (Json.pieces st.name)).bind StepStatus.ofName? := rfl
  rw [hname, Json.string?_pieces]
  cases st <;> rfl

theorem variant?_document (b : EventBody) :
    variant? (Json.document (.str b.variant)) = some b.variant := by
  have hmem : b.variant ∈ variants := by cases b <;> simp [EventBody.variant, variants]
  rw [Json.document, variant?, Tree.str?, Json.string?_pieces]
  exact if_pos hmem

theorem real?_document {x : Binary64} (h : Json.Legible (.ofReal x)) :
    (Json.document (.ofReal x)).real? = some x := by
  obtain ⟨m, hm⟩ := Json.exists_num_of_value? h.value
  have hvalue := h.value
  rw [hm, Tree.value?] at hvalue
  obtain ⟨n, hn, hx⟩ := Option.map_eq_some_iff.1 hvalue
  cases hx
  rw [hm, Tree.real?, hn]

/-! ## Whole events -/

/-- All fields of an event. -/
def fields (e : Event) : List (String × Json) :=
  ("timestamp", .str e.time.print) :: e.untimedFields

/-- The event can be read back: its time exists, and so do its values, to no forbidden depth. A
context that is there is not null. -/
structure IsReadable (e : Event) : Prop where
  time : e.time.IsProper
  legible : ∀ f ∈ e.body.fields, f.2.Legible
  context : ("context", Json.null) ∉ e.body.fields
  depth : e.toJson.depth ≤ Tree.maxDepth

/-- The fields of a variant are those of its body. -/
theorem filter_fields {e : Event} (h : key ∉ ["timestamp", "operation_id", "event"]) :
    e.fields.filter (·.1 = key) = e.body.fields.filter (·.1 = key) := by
  simp only [List.mem_cons, List.not_mem_nil, or_false, not_or] at h
  simp [Event.fields, untimedFields, Ne.symm h.1, Ne.symm h.2.1, Ne.symm h.2.2]

section Bodies

variable {e : Event}

theorem body?_step {stage : String} {status : StepStatus} {details : Option String}
    {seconds seconds' : Option Binary64} (he : e.body = .step stage status details seconds)
    (hseconds : nullable? Tree.real? (written e.fields) "duration_seconds" = some seconds') :
    body? (written e.fields) "step" = some (.step stage status details seconds') := by
  have hstage : text? (written e.fields) "step" = some stage := by
    refine text?_written ?_
    simp [filter_fields, he, EventBody.fields]
  have hstatus : Tree.required? (written e.fields) "status" =
      some (Json.document (.str status.name)) := by
    refine Json.required?_written ?_
    simp [filter_fields, he, EventBody.fields]
  have hdetails : nullable? Tree.str? (written e.fields) "details" = some details := by
    refine nullable?_written (f := Json.str) ?_ fun a _ => ?_
    · simp [filter_fields, he, EventBody.fields]
    · exact ⟨Json.legible_str a, by simp, Json.string?_pieces a⟩
  simp [body?, hstage, hstatus, status?_document, hdetails, hseconds]

theorem body?_error {kind message : String} {context context' : Option Json}
    (he : e.body = .error kind message context)
    (hcontext : nullable? Tree.value? (written e.fields) "context" = some context') :
    body? (written e.fields) "error" = some (.error kind message context') := by
  have hkind : text? (written e.fields) "error_type" = some kind := by
    refine text?_written ?_
    simp [filter_fields, he, EventBody.fields]
  have hmessage : text? (written e.fields) "error_message" = some message := by
    refine text?_written ?_
    simp [filter_fields, he, EventBody.fields]
  simp [body?, hkind, hmessage, hcontext]

theorem body?_warning {message : String} {context context' : Option Json}
    (he : e.body = .warning message context)
    (hcontext : nullable? Tree.value? (written e.fields) "context" = some context') :
    body? (written e.fields) "warning" = some (.warning message context') := by
  have hmessage : text? (written e.fields) "warning_message" = some message := by
    refine text?_written ?_
    simp [filter_fields, he, EventBody.fields]
  simp [body?, hmessage, hcontext]

theorem body?_checkpoint {name : String} {state state' : Json}
    (he : e.body = .checkpoint name state) (h : state.document.value? = some state') :
    body? (written e.fields) "checkpoint" = some (.checkpoint name state') := by
  have hname : text? (written e.fields) "checkpoint_name" = some name := by
    refine text?_written ?_
    simp [filter_fields, he, EventBody.fields]
  have hstate : Tree.required? (written e.fields) "state" = some state.document := by
    refine Json.required?_written ?_
    simp [filter_fields, he, EventBody.fields]
  simp [body?, hname, hstate, h]

theorem body?_rollback {checkpoint reason : String} (he : e.body = .rollback checkpoint reason) :
    body? (written e.fields) "rollback" = some (.rollback checkpoint reason) := by
  have hcheckpoint : text? (written e.fields) "from_checkpoint" = some checkpoint := by
    refine text?_written ?_
    simp [filter_fields, he, EventBody.fields]
  have hreason : text? (written e.fields) "reason" = some reason := by
    refine text?_written ?_
    simp [filter_fields, he, EventBody.fields]
  simp [body?, hcheckpoint, hreason]

theorem context?_written {context : Option Json}
    (hcontext : e.fields.filter (·.1 = "context") = EventBody.optionalField "context" context)
    (h : ∀ v, context = some v → v.Legible ∧ v ≠ .null) :
    nullable? Tree.value? (written e.fields) "context" = some context := by
  refine nullable?_written (f := id) ?_ fun v hv => ⟨(h v hv).1, (h v hv).2, (h v hv).1.value⟩
  rw [Option.map_id]
  exact hcontext

/-- The body of an event is read by its variant. -/
theorem body?_written (h : e.IsReadable) :
    body? (written e.fields) e.body.variant = some e.body := by
  have hlegible := h.legible
  have hcontext (v : Json) (hv : ("context", v) ∈ e.body.fields) : v.Legible ∧ v ≠ .null :=
    ⟨hlegible _ hv, fun hnull => h.context (hnull ▸ hv)⟩
  cases he : e.body with
  | step stage status details seconds =>
    refine body?_step he (nullable?_written (f := Json.ofReal) ?_ fun x hx => ?_)
    · simp [filter_fields, he, EventBody.fields]
    · have hreal : Json.Legible (.ofReal x) := hlegible ("duration_seconds", .ofReal x) (by
        simp [he, EventBody.fields, EventBody.optionalField, hx])
      exact ⟨hreal, by simp [Json.ofReal], real?_document hreal⟩
  | error kind message context =>
    refine body?_error he (context?_written ?_ fun v hv => hcontext v ?_)
    · simp [filter_fields, he, EventBody.fields]
    · simp [he, EventBody.fields, EventBody.optionalField, hv]
  | warning message context =>
    refine body?_warning he (context?_written ?_ fun v hv => hcontext v ?_)
    · simp [filter_fields, he, EventBody.fields]
    · simp [he, EventBody.fields, EventBody.optionalField, hv]
  | checkpoint name state =>
    refine body?_checkpoint he (hlegible ("state", state) ?_).value
    simp [he, EventBody.fields]
  | rollback checkpoint reason => exact body?_rollback he

end Bodies

/-- No body has a field with the name of one that all events have. -/
theorem filter_fields_eq_nil {b : EventBody} {key : String}
    (h : key ∈ ["timestamp", "operation_id", "event"]) : b.fields.filter (·.1 = key) = [] := by
  simp only [List.mem_cons, List.not_mem_nil, or_false] at h
  rcases h with rfl | rfl | rfl <;> cases b <;>
    simp [EventBody.fields, EventBody.filter_optionalField]

theorem parse_line (e : Event) :
    Tree.parse (String.ofList e.line) = some (Json.document (.obj e.fields)) :=
  (Json.isRead e.toJson).parse

theorem depth_document_fields (e : Event) :
    (Json.document (.obj e.fields)).depth = e.toJson.depth := (Json.isRead e.toJson).depth

/-- A line is the event whose body its fields are read as. -/
theorem ofLine?_of_body? {e : Event} {b : EventBody} (htime : e.time.IsProper)
    (hdepth : e.toJson.depth ≤ Tree.maxDepth)
    (hbody : body? (written e.fields) e.body.variant = some b) :
    ofLine? (String.ofList e.line) = some ⟨e.time, e.operation, b⟩ := by
  have hnotDeep : ¬ Tree.maxDepth < (Json.document (.obj e.fields)).depth := by
    rw [depth_document_fields]
    exact Nat.not_lt.2 hdepth
  obtain ⟨v, hvalue⟩ := Option.isSome_iff_exists.1 (Json.isRead e.toJson).value
  have hvalue : (Json.document (.obj e.fields)).value? = some v := hvalue
  have htimestamp : text? (written e.fields) "timestamp" = some e.time.print := by
    refine text?_written ?_
    simp [fields, untimedFields, filter_fields_eq_nil]
  have hoperation : text? (written e.fields) "operation_id" = some e.operation := by
    refine text?_written ?_
    simp [fields, untimedFields, filter_fields_eq_nil]
  have hvariant : Tree.required? (written e.fields) "event" =
      some (Json.document (.str e.body.variant)) := by
    refine Json.required?_written ?_
    simp [fields, untimedFields, filter_fields_eq_nil]
  rw [ofLine?, parse_line]
  show ofTree? _ = _
  simp [ofTree?, hnotDeep, hvalue, Json.fields?_document, htimestamp, Timestamp.read?_print htime,
    hoperation, hvariant, variant?_document, hbody]

/-- What is nested too deep is no event. -/
theorem ofLine?_of_deep {e : Event} (h : Tree.maxDepth < e.toJson.depth) :
    ofLine? (String.ofList e.line) = none := by
  rw [ofLine?, parse_line]
  show ofTree? _ = _
  rw [ofTree?, depth_document_fields, if_pos h]
  rfl

/-- An event is read back from its line. -/
theorem ofLine?_line {e : Event} (h : e.IsReadable) :
    ofLine? (String.ofList e.line) = some e :=
  ofLine?_of_body? h.time h.depth (body?_written h)

/-! ## Fields that are read back -/

/-- What can stand in a field of a line that is read back. -/
def FitsField (f : String × Json) : Prop :=
  f.2.Legible ∧ f.2.depth + 1 ≤ Tree.maxDepth ∧ f ≠ ("context", .null)

theorem fitsField_str (key s : String) : FitsField (key, .str s) :=
  ⟨Json.legible_str s, Nat.le_of_ble_eq_true rfl, by simp⟩

theorem fitsField_optionalField {key : String} {v : Option Json}
    (h : ∀ a ∈ v, FitsField (key, a)) : ∀ f ∈ EventBody.optionalField key v, FitsField f := by
  cases v with
  | none => exact List.forall_mem_nil _
  | some a => exact List.forall_mem_singleton.2 (h a rfl)

theorem fitsField_context {v : Option Json}
    (h : ∀ a ∈ v, a.Legible ∧ a ≠ .null ∧ a.depth + 1 ≤ Tree.maxDepth) :
    ∀ f ∈ EventBody.optionalField "context" v, FitsField f := by
  refine fitsField_optionalField fun a ha => ?_
  obtain ⟨hlegible, hnull, hdepth⟩ := h a ha
  exact ⟨hlegible, hdepth, by simp [hnull]⟩

theorem fitsField_step {stage : String} {status : StepStatus} {details : Option String}
    {seconds : Option Binary64} (h : ∀ x ∈ seconds, Json.Legible (.ofReal x)) :
    ∀ f ∈ (EventBody.step stage status details seconds).fields, FitsField f := by
  have hdetails : ∀ f ∈ EventBody.optionalField "details" (details.map .str), FitsField f := by
    refine fitsField_optionalField fun a ha => ?_
    obtain ⟨s, -, rfl⟩ := Option.map_eq_some_iff.1 ha
    exact fitsField_str _ s
  have hseconds : ∀ f ∈ EventBody.optionalField "duration_seconds" (seconds.map .ofReal),
      FitsField f := by
    refine fitsField_optionalField fun a ha => ?_
    obtain ⟨x, hx, rfl⟩ := Option.map_eq_some_iff.1 ha
    exact ⟨h x hx, Nat.le_of_ble_eq_true rfl, by simp⟩
  simp only [EventBody.fields, List.forall_mem_append]
  exact ⟨⟨by simp [fitsField_str], hdetails⟩, hseconds⟩

/-- An event is read back if each field of its body is. -/
theorem isReadable_of_fitsField {e : Event} (htime : e.time.IsProper)
    (h : ∀ f ∈ e.body.fields, FitsField f) : e.IsReadable where
  time := htime
  legible f hf := (h f hf).1
  context hf := (h _ hf).2.2 rfl
  depth := by
    refine Nat.succ_le_succ (Json.depthFields_le (k := 126) ?_)
    refine List.forall_mem_cons.2 ⟨Nat.zero_le _, List.forall_mem_cons.2 ⟨Nat.zero_le _,
      List.forall_mem_cons.2 ⟨Nat.zero_le _, fun f hf => ?_⟩⟩⟩
    exact Nat.le_of_succ_le_succ (h f hf).2.1

end Event

end Upkeep
