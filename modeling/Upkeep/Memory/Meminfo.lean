import Upkeep.Memory.Monitor
import Upkeep.Text.Blank
import Upkeep.Text.Bytes
import Upkeep.Text.Lines
import Upkeep.Text.Number

/-!
# The system's memory report

The report has one quantity a line, a name and a number of kilobytes. Only the first line of the
available memory counts, even if its number cannot be read.
-/

namespace Upkeep.Meminfo

def label : List Char := "MemAvailable:".toList

def bytesPerKb : UInt64 := 1024

/-- The number of bytes on the first line with the label. -/
def available? (report : List Char) : Option UInt64 := do
  let line ← (Text.lines report).find? (label.isPrefixOf ·)
  let kb ← Text.word? (← (Text.words line)[1]?)
  return Memory.saturatingMul kb bytesPerKb

/-- The available memory by a file, if there is one; zero if the file does not tell. -/
def reading (file : Option Bytes) : UInt64 :=
  ((file.bind Text.decode?).bind fun s => available? s.toList).getD 0

end Upkeep.Meminfo
