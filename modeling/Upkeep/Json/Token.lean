/-!
# JSON tokens

The lexical layer of JSON. `Token.scan` is an automaton that takes one character at a time, so that
scanning a concatenation is scanning its parts in turn. Numbers keep their digits and texts keep
their escapes: what they denote is decided where a value is asked for, since a text that is only
skipped may hold escapes that denote nothing.
-/

namespace Upkeep.Json

/-- A number as it is spelled: the digits before the point, after it, and after the mark `e`. -/
structure Numeral where
  negative : Bool := false
  whole : List Nat := []
  fraction : List Nat := []
  exponentNegative : Bool := false
  exponent : List Nat := []
  deriving DecidableEq, Inhabited

/-- A part of a spelled text: a character, or a UTF-16 unit given by its code. -/
inductive Piece where
  | char (c : Char)
  | unit (code : Nat)
  deriving DecidableEq

inductive Token where
  | openArray | closeArray | openObject | closeObject | comma | colon
  | null
  | bool (b : Bool)
  | number (n : Numeral)
  | text (pieces : List Piece)
  deriving DecidableEq

namespace Token

/-- How far a number has been read. -/
inductive Stage where
  | sign | zero | whole | point | fraction | mark | markSign | exponent
  deriving DecidableEq

/-- What the scanner is in the middle of. The digits and pieces so far are in reverse. -/
inductive Mode where
  | between
  | word (rest : List Char) (token : Token)
  | number (stage : Stage) (n : Numeral)
  | text (pieces : List Piece)
  | escape (pieces : List Piece)
  | code (pieces : List Piece) (value missing : Nat)

/-- White space between tokens. -/
def isSpace (c : Char) : Bool := c = ' ' || c = '\n' || c = '\t' || c = '\r'

/-- The value of a decimal digit. -/
def decimal? (c : Char) : Option Nat :=
  if '0' ≤ c && c ≤ '9' then some (c.toNat - '0'.toNat) else none

/-- The value of a digit in base sixteen, in either case. -/
def hex? (c : Char) : Option Nat :=
  if '0' ≤ c && c ≤ '9' then some (c.toNat - '0'.toNat)
  else if 'a' ≤ c && c ≤ 'f' then some (c.toNat - 'a'.toNat + 10)
  else if 'A' ≤ c && c ≤ 'F' then some (c.toNat - 'A'.toNat + 10)
  else none

/-- A finished number, its digits put in order. -/
def ofDigits (n : Numeral) : Token :=
  .number { n with
    whole := n.whole.reverse, fraction := n.fraction.reverse, exponent := n.exponent.reverse }

/-- The first character of a token. -/
def start (c : Char) : Option (List Token × Mode) :=
  match c with
  | '[' => some ([.openArray], .between)
  | ']' => some ([.closeArray], .between)
  | '\x7b' => some ([.openObject], .between)
  | '\x7d' => some ([.closeObject], .between)
  | ',' => some ([.comma], .between)
  | ':' => some ([.colon], .between)
  | '"' => some ([], .text [])
  | '-' => some ([], .number .sign { negative := true })
  | 'n' => some ([], .word ['u', 'l', 'l'] .null)
  | 't' => some ([], .word ['r', 'u', 'e'] (.bool true))
  | 'f' => some ([], .word ['a', 'l', 's', 'e'] (.bool false))
  | _ =>
    if isSpace c then some ([], .between)
    else match decimal? c with
      | some 0 => some ([], .number .zero { whole := [0] })
      | some d => some ([], .number .whole { whole := [d] })
      | none => none

/-- The next character of a number, or the end of the number and the start of what follows. -/
def numberStep (stage : Stage) (n : Numeral) (c : Char) : Option (List Token × Mode) :=
  let finish := (start c).map fun (ts, m) => (ofDigits n :: ts, m)
  let isMark := c = 'e' || c = 'E'
  match stage, decimal? c with
  | .sign, some 0 => some ([], .number .zero { n with whole := [0] })
  | .sign, some d => some ([], .number .whole { n with whole := [d] })
  | .sign, none => none
  | .zero, _ =>
    if c = '.' then some ([], .number .point n)
    else if isMark then some ([], .number .mark n)
    else finish
  | .whole, some d => some ([], .number .whole { n with whole := d :: n.whole })
  | .whole, none =>
    if c = '.' then some ([], .number .point n)
    else if isMark then some ([], .number .mark n)
    else finish
  | .point, some d => some ([], .number .fraction { n with fraction := [d] })
  | .point, none => none
  | .fraction, some d => some ([], .number .fraction { n with fraction := d :: n.fraction })
  | .fraction, none => if isMark then some ([], .number .mark n) else finish
  | .mark, some d => some ([], .number .exponent { n with exponent := [d] })
  | .mark, none =>
    if c = '+' then some ([], .number .markSign n)
    else if c = '-' then some ([], .number .markSign { n with exponentNegative := true })
    else none
  | .markSign, some d => some ([], .number .exponent { n with exponent := [d] })
  | .markSign, none => none
  | .exponent, some d => some ([], .number .exponent { n with exponent := d :: n.exponent })
  | .exponent, none => finish

/-- The character that a one-letter escape names. -/
def named? (c : Char) : Option Char :=
  match c with
  | '"' => some '"'
  | '\\' => some '\\'
  | '/' => some '/'
  | 'b' => some '\x08'
  | 'f' => some '\x0c'
  | 'n' => some '\n'
  | 'r' => some '\r'
  | 't' => some '\t'
  | _ => none

/-- The next character: the tokens that it completes, and the mode after it. -/
def step : Mode → Char → Option (List Token × Mode)
  | .between, c => start c
  | .word [] _, _ => none
  | .word [d] t, c => if c = d then some ([t], .between) else none
  | .word (d :: ds) t, c => if c = d then some ([], .word ds t) else none
  | .number stage n, c => numberStep stage n c
  | .text ps, c =>
    if c = '"' then some ([.text ps.reverse], .between)
    else if c = '\\' then some ([], .escape ps)
    else if c.toNat < 0x20 then none
    else some ([], .text (.char c :: ps))
  | .escape ps, c =>
    if c = 'u' then some ([], .code ps 0 4)
    else (named? c).map fun d => ([], .text (.char d :: ps))
  | .code ps v missing, c =>
    (hex? c).map fun d =>
      ([], if missing ≤ 1 then .text (.unit (16 * v + d) :: ps)
        else .code ps (16 * v + d) (missing - 1))

/-- The end of the text. -/
def finish : Mode → Option (List Token)
  | .between => some []
  | .number stage n =>
    match stage with
    | .zero | .whole | .fraction | .exponent => some [ofDigits n]
    | _ => none
  | _ => none

/-- The tokens of a text, read from a mode on. -/
def scanFrom (m : Mode) : List Char → Option (List Token)
  | [] => finish m
  | c :: r => do
    let (ts, m') ← step m c
    return ts ++ (← scanFrom m' r)

/-- The tokens of a text. -/
def scan (s : List Char) : Option (List Token) := scanFrom .between s

end Token

end Upkeep.Json
