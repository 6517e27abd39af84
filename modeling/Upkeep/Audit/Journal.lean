import Upkeep.Audit.Reading
import Upkeep.Files.Basic
import Upkeep.Text.Blank
import Upkeep.Text.Lines

/-!
# Journals

A journal is a file with one event a line. Whoever has it open adds whole lines at its end. Reading
it takes every line that is not blank; one line that is no event makes the whole file unreadable.
-/

namespace Upkeep

/-- Why a journal cannot be read or opened. -/
inductive JournalFault where
  | file (fault : FileFault)
  | notAnEvent
  deriving DecidableEq

/-- The text of a fault. A line that is no event has no message of its own. -/
def JournalFault.message? : JournalFault → Option String
  | .file fault => some ("sink i/o error: " ++ fault.message)
  | .notAnEvent => none

namespace Journal

/-- The bytes of an event with the end of its line. -/
def entry (e : Event) : Bytes := Text.encode (String.ofList (e.line ++ ['\n']))

def isBlankLine (line : String) : Bool := line.toList.all Text.isBlank

/-- The event on a line, or none on a blank line. -/
def readLine (line : Bytes) : Except JournalFault (Option Event) :=
  match Text.decode? line with
  | none => .error (.file .notText)
  | some s =>
    if isBlankLine s then .ok none
    else match Event.ofLine? s with
      | some e => .ok (some e)
      | none => .error .notAnEvent

/-- The events on some lines, up to the first fault. -/
def readLines : List Bytes → Except JournalFault (List Event)
  | [] => .ok []
  | line :: rest => do
    let e? ← readLine line
    return e?.toList ++ (← readLines rest)

/-- The events of a journal's bytes. -/
def events (contents : Bytes) : Except JournalFault (List Event) :=
  readLines (Text.byteLines contents)

/-- The events of a file. -/
def read (fs : Files) (p : FilePath) : Except JournalFault (List Event) := do
  events (← (fs.read p).mapError .file)

/-- Makes a journal, with the directories on the way to it, or opens one that is there. -/
def create (fs : Files) (p : FilePath) : Files × Except JournalFault Unit :=
  let (fs, result) :=
    match fs.makeDirectories p.parent with
    | (fs, .ok ()) => fs.attempt (fs.append p [])
    | failed => failed
  (fs, result.mapError .file)

/-- Adds an event. A failure to write is not the caller's concern. -/
def append (fs : Files) (p : FilePath) (e : Event) : Files :=
  match fs.append p (entry e) with
  | .ok fs => fs
  | .error _ => fs

end Journal

/-! ## Sinks -/

/-- A sink that adds the events of an operation to a file. -/
structure JournalSink where
  operation : String
  path : FilePath

/-- A call of one of several sinks. -/
inductive JournalCall (ι : Type) where
  /-- A sink opens its file, which is made if nothing is there. -/
  | opening (sink : ι)
  | reporting (sink : ι) (now : Timestamp) (report : Report)

namespace JournalCall

variable {ι : Type} (sinks : ι → JournalSink)

/-- The files after a call. -/
def perform (fs : Files) : JournalCall ι → Files
  | .opening k => (Journal.create fs (sinks k).path).1
  | .reporting k now r => Journal.append fs (sinks k).path ⟨now, (sinks k).operation, r.record⟩

/-- The files after some calls. -/
def run (fs : Files) (calls : List (JournalCall ι)) : Files := calls.foldl (perform sinks) fs

end JournalCall

end Upkeep
