import Upkeep.Text.Lines

/-!
# Paths

A path is a text taken apart at its slashes. It keeps every part, also those that do not lead
anywhere, so that it is shown as it was written. What stands above a path can be read off in two
ways: by its text alone, as here, or by following it through the directories that there are.
-/

namespace Upkeep

/-- What stands between the slashes of a path. -/
inductive Segment where
  /-- Nothing, as between two slashes. -/
  | blank
  /-- One point, which stands for the directory reached so far. -/
  | dot
  /-- Two points, which stand for the directory above. -/
  | up
  | name (n : String)
  deriving DecidableEq

namespace Segment

def ofString (s : String) : Segment :=
  match s with
  | "" => .blank
  | "." => .dot
  | ".." => .up
  | n => .name n

def text : Segment → String
  | .blank => ""
  | .dot => "."
  | .up => ".."
  | .name n => n

/-- A part that leads nowhere. -/
def isIdle (s : Segment) : Bool := s = .blank || s = .dot

end Segment

/-- The parts of a path, which starts from the root. -/
abbrev FilePath := List Segment

namespace FilePath

/-- The path that a text with slashes spells. -/
def ofString (s : String) : FilePath :=
  let (parts, last) := Text.breakAt '/' s.toList
  (parts ++ [last]).map fun part => Segment.ofString (String.ofList part)

/-- The text of a path. -/
def text (p : FilePath) : String := String.intercalate "/" (p.map Segment.text)

/-- A path without the slashes at its end. -/
def unslashed (p : FilePath) : FilePath := (p.reverse.dropWhile (· = .blank)).reverse

/-- A path without the idle parts at its end. -/
def trimmed (p : FilePath) : FilePath := (p.reverse.dropWhile Segment.isIdle).reverse

/-- The paths above a path by its text, the longest first. -/
def ancestors (p : FilePath) : List FilePath :=
  let t := p.trimmed
  ((List.range t.length).reverse.map t.take).filter fun q => trimmed q = q

/-- The path of the directory that holds the entry of a path, by its text. -/
def parent (p : FilePath) : FilePath := trimmed p.trimmed.dropLast

end FilePath

end Upkeep
