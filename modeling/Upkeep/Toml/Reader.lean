import Upkeep.Binary64
import Upkeep.Toml.DateTime
import Upkeep.Toml.Text
import Upkeep.Toml.Value

/-!
# Reading TOML

The part of TOML that settings are written in: sections of one level, dotted and quoted keys, texts,
integers, truth values, floats, dates and times, arrays and inline tables. Nested sections and
arrays of sections hold no settings and are refused. What is nested too deep is refused as well.
-/

namespace Upkeep.Toml

def skipSpace (s : List Char) : List Char := s.dropWhile isSpace

/-- The rest after a comment, if one begins here. -/
def skipComment : List Char → List Char
  | '#' :: r => r.dropWhile isPlain
  | s => s

/-- What follows the end of a line, before which there may be a comment. -/
def lineEnd? (s : List Char) : Option (List Char) :=
  match skipComment (skipSpace s) with
  | [] => some []
  | '\n' :: r => some r
  | '\r' :: '\n' :: r => some r
  | _ => none

/-- Skips spaces, line ends and comments between the items of an array. -/
def skipLines? (inComment : Bool) : List Char → Option (List Char)
  | [] => some []
  | '\n' :: r => skipLines? false r
  | '\r' :: '\n' :: r => skipLines? false r
  | c :: r =>
    if inComment then if isPlain c then skipLines? true r else none
    else if isSpace c then skipLines? false r
    else if c = '#' then skipLines? true r
    else some (c :: r)

/-! ## Keys -/

def isBareKey (c : Char) : Bool := c.isAlphanum || c = '_' || c = '-'

/-- One part of a key. -/
def keyPart? (s : List Char) : Option (String × List Char) :=
  match s with
  | '"' :: r => (readBasic r).map fun (k, r) => (String.ofList k, r)
  | '\'' :: r => (readLiteral r).map fun (k, r) => (String.ofList k, r)
  | _ =>
    let k := s.takeWhile isBareKey
    if k.isEmpty then none else some (String.ofList k, s.drop k.length)

/-- The parts of a dotted key, at most so many, and what follows the key and spaces. -/
def keyParts? : Nat → List Char → Option (List String × List Char)
  | 0, _ => none
  | n + 1, s => do
    let (k, r) ← keyPart? s
    match skipSpace r with
    | '.' :: r =>
      let (ks, r) ← keyParts? n (skipSpace r)
      return (k :: ks, r)
    | r => return ([k], r)

/-- How many parts a key may have, and how many arrays and inline tables may be open at once. -/
def maxDepth : Nat := 79

/-- A key, and what follows it and spaces. -/
def key? (s : List Char) : Option (List String × List Char) := keyParts? maxDepth s

/-! ## Numbers -/

/-- The value of digits in a base, with single underscores between them. -/
def digits? (base : Nat) (n : Nat) : List Char → Option Nat
  | [] => none
  | [c] => do
    let d ← hexDigit? c
    if d < base then some (base * n + d) else none
  | c :: '_' :: r => do
    let d ← hexDigit? c
    if d < base then digits? base (base * n + d) r else none
  | c :: r => do
    let d ← hexDigit? c
    if d < base then digits? base (base * n + d) r else none

/-- Decimal digits without a zero in front. -/
def decimal? (s : List Char) : Option Nat :=
  match s with
  | '0' :: _ :: _ => none
  | _ => digits? 10 0 s

/-- A sign and what follows it. -/
def unsigned (s : List Char) : Bool × List Char :=
  match s with
  | '+' :: r => (false, r)
  | '-' :: r => (true, r)
  | _ => (false, s)

def integer? (s : List Char) : Option Int := do
  let i : Int ← match s with
    | '0' :: 'x' :: r => Int.ofNat <$> digits? 16 0 r
    | '0' :: 'o' :: r => Int.ofNat <$> digits? 8 0 r
    | '0' :: 'b' :: r => Int.ofNat <$> digits? 2 0 r
    | _ => do
      let (negative, r) := unsigned s
      let n ← decimal? r
      pure (if negative then -(n : Int) else n)
  if FitsInteger i then some i else none

/-- A decimal number with a fraction, an exponent or both: its digits, and the power of ten by which
they are scaled. -/
structure Decimal where
  negative : Bool
  digits : List Char
  exponent : Int

/-- A digit of a number, or what separates digits. -/
def isDigit (c : Char) : Bool := c.isDigit || c = '_'

/-- The value of an exponent, which is zero if there is none. -/
def exponent? (s : List Char) : Option Int :=
  match s with
  | [] => some 0
  | e :: r =>
    if e = 'e' || e = 'E' then
      let (negative, r) := unsigned r
      (digits? 10 0 r).map fun n => if negative then -(n : Int) else n
    else none

def Decimal.read? (s : List Char) : Option Decimal := do
  let (negative, r) := unsigned s
  let whole := r.takeWhile isDigit
  let _ ← decimal? whole
  match r.drop whole.length with
  | [] => none
  | '.' :: f =>
    let fraction := f.takeWhile isDigit
    let _ ← digits? 10 0 fraction
    let e ← exponent? (f.drop fraction.length)
    let places := fraction.filter (· != '_')
    return ⟨negative, whole.filter (· != '_') ++ places, e - places.length⟩
  | s => return ⟨negative, whole.filter (· != '_'), ← exponent? s⟩

/-- The nearest binary64 number is infinite. Below `10 ^ 308` none is, and from `10 ^ 309` on all
are. -/
def Decimal.isInfinite (d : Decimal) : Bool :=
  let digits := d.digits.dropWhile (· = '0')
  let places : Int := digits.length + d.exponent
  if digits.isEmpty || places ≤ 308 then false
  else if 310 ≤ places then true
  else
    let n := (digits? 10 0 digits).getD 0
    !(Binary64.ofRatio false (n * Nat.pow 10 d.exponent.toNat)
      (Nat.pow 10 (-d.exponent).toNat)).isFinite

/-- Whether a word spells a float: a decimal number or a name. A number that is too large for the
format is refused, but not one that is too small. -/
def isFloat (s : List Char) : Bool :=
  let r := (unsigned s).2
  r = ['i', 'n', 'f'] || r = ['n', 'a', 'n'] ||
    match Decimal.read? s with
    | some d => d.negative || !d.isInfinite
    | none => false

/-- A value that is a single word. -/
def word? (s : List Char) : Option (Value × List Char) :=
  let w := s.takeWhile fun c => c.isAlphanum || c = '_' || c = '+' || c = '-' || c = '.'
  let rest := s.drop w.length
  if w = ['t', 'r', 'u', 'e'] then some (.boolean true, rest)
  else if w = ['f', 'a', 'l', 's', 'e'] then some (.boolean false, rest)
  else match integer? w with
    | some i => some (.integer i, rest)
    | none => if isFloat w then some (.float (String.ofList w), rest) else none

/-! ## Values -/

/-- A value that is neither a text nor holds others. -/
def plainValue? (s : List Char) : Option (Value × List Char) :=
  match dateTime? s with
  | some r => some (.dateTime (String.ofList (s.take (s.length - r.length))), r)
  | none => word? s

mutual

/-- A value, and what follows it. There is `room` for so many arrays and inline tables in one
another. -/
def value? : Nat → Nat → List Char → Option (Value × List Char)
  | 0, _, _ => none
  | n + 1, room, s =>
    match s, room with
    | '"' :: _, _ | '\'' :: _, _ => (readText s).map fun (t, r) => (.string (String.ofList t), r)
    | '[' :: r, room + 1 => (items? n room r).map fun (vs, r) => (.array vs, r)
    | '\x7b' :: r, room + 1 =>
      match skipSpace r with
      | '\x7d' :: r => some (.table false [], r)
      | r => (fields? n room [] r).map fun (fs, r) => (.table false fs, r)
    | _, _ => plainValue? s

/-- The items of an array up to its end. -/
def items? : Nat → Nat → List Char → Option (List Value × List Char)
  | 0, _, _ => none
  | n + 1, room, s => do
    match ← skipLines? false s with
    | ']' :: r => return ([], r)
    | s =>
      let (v, r) ← value? n room s
      match ← skipLines? false r with
      | ',' :: r =>
        let (vs, r) ← items? n room r
        return (v :: vs, r)
      | ']' :: r => return ([v], r)
      | _ => none

/-- The fields of an inline table up to its end. -/
def fields? : Nat → Nat → Fields → List Char → Option (Fields × List Char)
  | 0, _, _, _ => none
  | n + 1, room, fs, s => do
    let (path, r) ← key? s
    match r with
    | '=' :: r =>
      let (v, r) ← value? n room (skipSpace r)
      let fs ← Fields.insert? v path fs
      match skipSpace r with
      | ',' :: r => fields? n room fs (skipSpace r)
      | '\x7d' :: r => return (fs, r)
      | _ => none
    | _ => none

end

/-! ## Documents -/

/-- Adds a value to the open section, or to the document itself before any section. -/
def insertInto? (section? : Option String) (path : List String) (v : Value) (doc : Fields) :
    Option Fields :=
  match section? with
  | none => Fields.insert? v path doc
  | some name =>
    match doc.lookup name with
    | some (.table o fs) => do
      return Fields.replace doc name (.table o (← Fields.insert? v path fs))
    | _ => none

/-- The lines of a document, after those that gave `doc`. -/
def lines? : Nat → Fields → Option String → List Char → Option Fields
  | 0, _, _, _ => none
  | n + 1, doc, section?, s =>
    match skipSpace s with
    | [] => some doc
    | '#' :: r => do lines? n doc section? (← lineEnd? ('#' :: r))
    | '\n' :: r => lines? n doc section? r
    | '\r' :: '\n' :: r => lines? n doc section? r
    | '[' :: r => do
      let (path, r) ← key? (skipSpace r)
      match path, r with
      | [name], ']' :: r =>
        if (doc.lookup name).isSome then none
        else lines? n (doc ++ [(name, .table false [])]) (some name) (← lineEnd? r)
      | _, _ => none
    | s => do
      let (path, r) ← key? s
      match r with
      | '=' :: r =>
        let (v, r) ← value? (2 * r.length + 2) maxDepth (skipSpace r)
        lines? n (← insertInto? section? path v doc) section? (← lineEnd? r)
      | _ => none

/-- The fields of a document. A byte-order mark in front does not count. -/
def parse? (text : String) : Option Fields :=
  let s := match text.toList with
    | '\ufeff' :: r => r
    | s => s
  lines? (s.length + 1) [] none s

end Upkeep.Toml
