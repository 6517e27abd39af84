/-!
# TOML texts

The four spellings of a text: between single or triple quotes, and with or without escapes. Each
reader takes what follows the opening quotes and gives the text and what follows the closing ones.
-/

namespace Upkeep.Toml

/-- A character that may stand for itself in a text or a comment. -/
def isPlain (c : Char) : Bool := c = '\t' || (0x20 ≤ c.toNat && c.toNat != 0x7F)

def isSpace (c : Char) : Bool := c = ' ' || c = '\t'

/-- A digit in base sixteen, in either case. -/
def hexDigit? (c : Char) : Option Nat :=
  if '0' ≤ c && c ≤ '9' then some (c.toNat - '0'.toNat)
  else if 'a' ≤ c && c ≤ 'f' then some (c.toNat - 'a'.toNat + 10)
  else if 'A' ≤ c && c ≤ 'F' then some (c.toNat - 'A'.toNat + 10)
  else none

/-- The character with a code in base sixteen. -/
def coded? (digits : List Char) : Option Char := do
  let n ← digits.foldlM (fun n c => (16 * n + ·) <$> hexDigit? c) 0
  if n < 0xD800 ∨ (0xE000 ≤ n ∧ n < 0x110000) then some (Char.ofNat n) else none

/-- The character that a one-letter escape names. -/
def named? (c : Char) : Option Char :=
  match c with
  | 'b' => some '\x08'
  | 't' => some '\t'
  | 'n' => some '\n'
  | 'f' => some '\x0c'
  | 'r' => some '\r'
  | '"' => some '"'
  | '\\' => some '\\'
  | _ => none

/-- A text and what follows it. -/
abbrev Read := Option (List Char × List Char)

/-- Puts a character in front of a text. -/
def Read.cons (c : Option Char) (r : Read) : Read := do
  let (s, rest) ← r
  return ((← c) :: s, rest)

/-- A text on one line, with escapes. -/
def readBasic : List Char → Read
  | '"' :: r => some ([], r)
  | '\\' :: 'u' :: a :: b :: c :: d :: r => Read.cons (coded? [a, b, c, d]) (readBasic r)
  | '\\' :: 'U' :: a :: b :: c :: d :: e :: f :: g :: h :: r =>
    Read.cons (coded? [a, b, c, d, e, f, g, h]) (readBasic r)
  | '\\' :: e :: r => Read.cons (named? e) (readBasic r)
  | c :: r => if isPlain c then Read.cons (some c) (readBasic r) else none
  | [] => none

/-- A text on one line, without escapes. -/
def readLiteral : List Char → Read
  | '\'' :: r => some ([], r)
  | c :: r => if isPlain c then Read.cons (some c) (readLiteral r) else none
  | [] => none

/-- Where the reader of a long text is: in the text, after a backslash at the end of a line, or in
the blank lines after it. -/
inductive Place where
  | text | lineEnd | blankLines
  deriving DecidableEq

/-- A text on several lines, with escapes. A backslash at the end of a line joins it to the next
line that is not blank. Up to two quotes may stand before the closing ones. -/
def readLongBasic : Place → List Char → Read
  | .lineEnd, '\n' :: r => readLongBasic .blankLines r
  | .lineEnd, '\r' :: '\n' :: r => readLongBasic .blankLines r
  | .lineEnd, c :: r => if isSpace c then readLongBasic .lineEnd r else none
  | .blankLines, '\n' :: r => readLongBasic .blankLines r
  | .blankLines, '\r' :: '\n' :: r => readLongBasic .blankLines r
  | .blankLines, ' ' :: r => readLongBasic .blankLines r
  | .blankLines, '\t' :: r => readLongBasic .blankLines r
  | _, '"' :: '"' :: '"' :: '"' :: '"' :: r => some (['"', '"'], r)
  | _, '"' :: '"' :: '"' :: '"' :: r => some (['"'], r)
  | _, '"' :: '"' :: '"' :: r => some ([], r)
  | _, '\\' :: 'u' :: a :: b :: c :: d :: r =>
    Read.cons (coded? [a, b, c, d]) (readLongBasic .text r)
  | _, '\\' :: 'U' :: a :: b :: c :: d :: e :: f :: g :: h :: r =>
    Read.cons (coded? [a, b, c, d, e, f, g, h]) (readLongBasic .text r)
  | _, '\\' :: '\n' :: r => readLongBasic .blankLines r
  | _, '\\' :: '\r' :: '\n' :: r => readLongBasic .blankLines r
  | _, '\\' :: e :: r =>
    if isSpace e then readLongBasic .lineEnd r else Read.cons (named? e) (readLongBasic .text r)
  | _, '\n' :: r => Read.cons (some '\n') (readLongBasic .text r)
  | _, '\r' :: '\n' :: r => Read.cons (some '\n') (readLongBasic .text r)
  | _, c :: r => if isPlain c then Read.cons (some c) (readLongBasic .text r) else none
  | _, [] => none

/-- A text on several lines, without escapes. -/
def readLongLiteral : List Char → Read
  | '\'' :: '\'' :: '\'' :: '\'' :: '\'' :: r => some (['\'', '\''], r)
  | '\'' :: '\'' :: '\'' :: '\'' :: r => some (['\''], r)
  | '\'' :: '\'' :: '\'' :: r => some ([], r)
  | '\n' :: r => Read.cons (some '\n') (readLongLiteral r)
  | '\r' :: '\n' :: r => Read.cons (some '\n') (readLongLiteral r)
  | c :: r => if isPlain c then Read.cons (some c) (readLongLiteral r) else none
  | [] => none

/-- A line feed just after the opening quotes of a long text does not count. -/
def dropFirstFeed : List Char → List Char
  | '\n' :: r => r
  | '\r' :: '\n' :: r => r
  | s => s

/-- A text, if one begins here. -/
def readText : List Char → Read
  | '"' :: '"' :: '"' :: r => readLongBasic .text (dropFirstFeed r)
  | '"' :: r => readBasic r
  | '\'' :: '\'' :: '\'' :: r => readLongLiteral (dropFirstFeed r)
  | '\'' :: r => readLiteral r
  | _ => none

end Upkeep.Toml
