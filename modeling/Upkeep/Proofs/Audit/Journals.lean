import Upkeep.Audit.Journal
import Upkeep.Proofs.Audit.Lines
import Upkeep.Proofs.Files.Directories
import Upkeep.Proofs.Json.OneLine
import Upkeep.Proofs.Text.Encoding

/-!
# Journals read back

Adding an event to a journal adds its bytes to those of the file (`appendEvent_eq`), wherever the
path leads, and bytes of this form are read back as the very events (`events_entries`): none of them
goes over the end of its line, and each line gives its event.
-/

namespace Upkeep

namespace Journal

variable {e : Event} {es : List Event} {fs : Files} {p : FilePath} {i : Nat}

/-! ## Lines -/

/-- The bytes of an event without the end of its line. -/
def lineBytes (e : Event) : Bytes := Text.encode (String.ofList e.line)

theorem entry_eq (e : Event) : entry e = lineBytes e ++ [10] := by
  rw [entry, lineBytes, Text.encode_ofList, Text.encode_ofList, List.flatMap_append]
  rfl

theorem exists_line (e : Event) : ∃ s, e.line = '\x7b' :: s ++ ['\x7d'] := by
  obtain ⟨s, hs⟩ := Json.exists_renderFields e.fields
  exact ⟨s, congrArg (List.cons '\x7b') hs⟩

/-- A line holds no line feed, and no carriage return ends it. -/
theorem lineBytes_spec (e : Event) :
    10 ∉ lineBytes e ∧ (lineBytes e).getLast? ≠ some 13 := by
  constructor
  · rw [lineBytes, Text.mem_encode_iff]
    exact Json.lineFeed_not_mem_render e.toJson
  · obtain ⟨s, hs⟩ := exists_line e
    have hlast : lineBytes e = ('\x7b' :: s).flatMap String.utf8EncodeChar ++ [125] := by
      rw [lineBytes, Text.encode_ofList, hs, List.flatMap_append]
      rfl
    rw [hlast, List.getLast?_concat]
    decide

theorem readLine_lineBytes (e : Event) :
    readLine (lineBytes e) =
      (Event.ofLine? (String.ofList e.line)).elim (.error .notAnEvent) fun e' => .ok (some e') := by
  have hblank : isBlankLine (String.ofList e.line) = false := by
    obtain ⟨s, hs⟩ := exists_line e
    rw [isBlankLine, String.toList_ofList, hs]
    rfl
  rw [readLine, lineBytes, Text.decode?_encode]
  dsimp only
  rw [hblank, if_neg Bool.false_ne_true]
  cases Event.ofLine? (String.ofList e.line) <;> rfl

/-- The lines of a journal are those of its events. -/
theorem byteLines_entries (es : List Event) :
    Text.byteLines (es.flatMap entry) = es.map lineBytes := by
  have hentries : es.flatMap entry = (es.map lineBytes).flatMap (· ++ [10]) := by
    rw [List.flatMap_map]
    exact congrArg (es.flatMap ·) (funext entry_eq)
  rw [hentries]
  refine Text.linesOf_flatMap fun l hl => ?_
  obtain ⟨e, -, rfl⟩ := List.mem_map.1 hl
  exact lineBytes_spec e

/-- The events that have been appended are those that are read. -/
theorem events_entries (h : ∀ e ∈ es, e.IsReadable) : events (es.flatMap entry) = .ok es := by
  rw [events, byteLines_entries]
  induction es with
  | nil => rfl
  | cons e es ih =>
    obtain ⟨he, hes⟩ := List.forall_mem_cons.1 h
    rw [List.map_cons, readLines, readLine_lineBytes, Event.ofLine?_line he, ih hes]
    rfl

/-! ## Files -/

/-- The files after some bytes were added to an inode. -/
def extended (fs : Files) (i : Nat) (b : Bytes) : Files := fs.setBytes i (fs.bytes i ++ b)

theorem bytes_extended (fs : Files) (i : Nat) (b : Bytes) :
    (extended fs i b).bytes i = fs.bytes i ++ b := by
  simp [extended, Files.setBytes, Files.bytes]

theorem inode_extended (b : Bytes) (h : fs.inode p = .ok i) (j : Nat) :
    (extended fs j b).inode p = .ok i := by
  have hnodes : fs.nodes = (extended fs j b).nodes := rfl
  exact (Files.inode_congr hnodes p i).1 h

theorem append_eq (b : Bytes) (h : fs.inode p = .ok i) :
    fs.append p b = .ok (extended fs i b) := by
  rw [Files.append, Files.inodeOrNew_of_inode h]
  rfl

theorem create_eq (h : fs.inode p = .ok i) : create fs p = (extended fs i [], .ok ()) := by
  obtain ⟨d, n, hl, -, -⟩ := Files.unlink_of_inode h
  rw [create, Files.makeDirectories_of_isDirectory (Files.isDirectory_parent hl)]
  dsimp only
  rw [append_eq [] h]
  rfl

theorem appendEvent_eq (e : Event) (h : fs.inode p = .ok i) :
    append fs p e = extended fs i (entry e) := by
  rw [append, append_eq (entry e) h]

theorem read_eq (h : fs.inode p = .ok i) : read fs p = events (fs.bytes i) := by
  rw [read, Files.read, h]
  rfl

end Journal

end Upkeep
