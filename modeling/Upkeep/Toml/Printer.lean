import Upkeep.Toml.Value

/-!
# Printing TOML

Sections of integers and texts, one setting a line. A text is spelled in the first of these ways
that can hold it without an escape: between double quotes, single quotes, triple double quotes,
triple single quotes. If none can, it has escapes, and triple quotes if it has several lines. A tab
is written as an escape wherever there are escapes at all.
-/

namespace Upkeep.Toml

/-- What decides the spelling of a text. -/
structure Traits where
  /-- The longest run of single quotes. -/
  singles : Nat
  /-- The longest run of double quotes. -/
  doubles : Nat
  backslash : Bool
  /-- Some control character other than tab and line feed. -/
  control : Bool
  feed : Bool

/-- The longest run of a character. -/
def longestRun (c : Char) (s : List Char) : Nat :=
  (s.foldl (fun (best, run) d =>
    let run := if d = c then run + 1 else 0
    (max best run, run)) (0, 0)).1

def traits (s : List Char) : Traits where
  singles := longestRun '\'' s
  doubles := longestRun '"' s
  backslash := s.contains '\\'
  control := s.any fun c => (c.toNat < 0x20 && c != '\t' && c != '\n') || c.toNat = 0x7F
  feed := s.contains '\n'

/-- The ways to spell a text. -/
inductive Style where
  | basic | literal | longBasic | longLiteral
  deriving DecidableEq

/-- The way in which a text is spelled. -/
def Traits.style (t : Traits) : Style :=
  if !t.control && !t.backslash && t.doubles = 0 && !t.feed then .basic
  else if !t.control && t.singles = 0 && !t.feed then .literal
  else if !t.control && !t.backslash && t.doubles ≤ 2 then .longBasic
  else if !t.control && t.singles ≤ 2 then .longLiteral
  else if t.feed then .longBasic
  else .basic

/-- The last four digits of a number in base sixteen, in upper case. -/
def codeDigits (n : Nat) : List Char :=
  [3, 2, 1, 0].map fun i => (Nat.digitChar (n / Nat.pow 16 i % 16)).toUpper

/-- A character in a text with escapes. -/
def escape (long : Bool) (c : Char) : List Char :=
  match c with
  | '\x08' => ['\\', 'b']
  | '\t' => ['\\', 't']
  | '\n' => if long then ['\n'] else ['\\', 'n']
  | '\x0c' => ['\\', 'f']
  | '\r' => ['\\', 'r']
  | '\\' => ['\\', '\\']
  | _ => if c.toNat < 0x20 || c.toNat = 0x7F then ['\\', 'u'] ++ codeDigits c.toNat else [c]

/-- The characters of a text with escapes. Of a run of double quotes, `room` may stand without an
escape; `run` of them came just before. -/
def escaped (long : Bool) (room run : Nat) : List Char → List Char
  | [] => []
  | '"' :: r =>
    if run < room then '"' :: escaped long room (run + 1) r
    else '\\' :: '"' :: escaped long room 0 r
  | c :: r => escape long c ++ escaped long room 0 r

/-- A text in its quotes. A long text that has line feeds begins on a line of its own. -/
def textChars (s : String) : List Char :=
  let cs := s.toList
  let t := traits cs
  let first := if t.feed then ['\n'] else []
  match t.style with
  | .basic => '"' :: escaped false 0 0 cs ++ ['"']
  | .literal => '\'' :: cs ++ ['\'']
  | .longBasic => ['"', '"', '"'] ++ first ++ escaped true 2 0 cs ++ ['"', '"', '"']
  | .longLiteral => ['\'', '\'', '\''] ++ first ++ cs ++ ['\'', '\'', '\'']

/-- A number or a text. -/
def entryChars : UInt64 ⊕ String → List Char
  | .inl n => Nat.toDigits 10 n.toNat
  | .inr s => textChars s

def lineChars (key : String) (v : UInt64 ⊕ String) : List Char :=
  key.toList ++ [' ', '=', ' '] ++ entryChars v ++ ['\n']

def sectionChars (name : String) (entries : List (String × (UInt64 ⊕ String))) : List Char :=
  '[' :: name.toList ++ [']', '\n'] ++ entries.flatMap fun (k, v) => lineChars k v

/-- Sections, with an empty line between them. -/
def documentChars (sections : List (String × List (String × (UInt64 ⊕ String)))) : List Char :=
  ['\n'].intercalate (sections.map fun (name, es) => sectionChars name es)

/-- A number that the format can hold. -/
def isStorable : UInt64 ⊕ String → Bool
  | .inl n => n.toNat < integerBound
  | .inr _ => true

/-- The document of some sections, unless a number in it is too large for the format. -/
def print? (sections : List (String × List (String × (UInt64 ⊕ String)))) : Option String :=
  if sections.all fun (_, es) => es.all fun (_, v) => isStorable v then
    some (String.ofList (documentChars sections))
  else none

end Upkeep.Toml
