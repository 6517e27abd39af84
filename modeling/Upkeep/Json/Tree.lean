import Upkeep.Json.Numeral

/-!
# JSON documents

A document as it is written: fields in their order, with every repetition, and texts and numbers in
their spelling. `Tree.parse` is an automaton over tokens that keeps the open containers on a stack.
`Tree.value?` is the value of a document, and the other readers below take it apart without losing
what a value forgets.
-/

namespace Upkeep.Json

inductive Tree where
  | null
  | bool (b : Bool)
  | num (n : Numeral)
  | text (pieces : List Piece)
  | arr (items : List Tree)
  | obj (fields : List (List Piece × Tree))
  deriving Inhabited

namespace Tree

/-! ## Reading tokens -/

/-- An open container with its parts so far, the newest first. -/
inductive Frame where
  | arr (items : List Tree)
  | obj (fields : List (List Piece × Tree)) (key : List Piece)

/-- What may come next. -/
inductive Await where
  | value
  | item
  | firstKey
  | key (fields : List (List Piece × Tree))
  | colon (fields : List (List Piece × Tree)) (key : List Piece)
  | after (t : Tree)

/-- A document in the making: the open containers, the innermost first. -/
structure Partial where
  stack : List Frame := []
  await : Await := .value

/-- A token that begins a value. -/
def begin? (stack : List Frame) : Token → Option Partial
  | .null => some ⟨stack, .after .null⟩
  | .bool b => some ⟨stack, .after (.bool b)⟩
  | .number n => some ⟨stack, .after (.num n)⟩
  | .text ps => some ⟨stack, .after (.text ps)⟩
  | .openArray => some ⟨stack, .item⟩
  | .openObject => some ⟨stack, .firstKey⟩
  | _ => none

/-- The next token. -/
def push (p : Partial) (t : Token) : Option Partial :=
  match p.await, t with
  | .value, t => begin? p.stack t
  | .item, .closeArray => some ⟨p.stack, .after (.arr [])⟩
  | .item, t => begin? (.arr [] :: p.stack) t
  | .firstKey, .closeObject => some ⟨p.stack, .after (.obj [])⟩
  | .firstKey, .text k => some ⟨p.stack, .colon [] k⟩
  | .firstKey, _ => none
  | .key fs, .text k => some ⟨p.stack, .colon fs k⟩
  | .key _, _ => none
  | .colon fs k, .colon => some ⟨.obj fs k :: p.stack, .value⟩
  | .colon _ _, _ => none
  | .after v, t =>
    match p.stack, t with
    | .arr vs :: r, .comma => some ⟨.arr (v :: vs) :: r, .value⟩
    | .arr vs :: r, .closeArray => some ⟨r, .after (.arr (v :: vs).reverse)⟩
    | .obj fs k :: r, .comma => some ⟨r, .key ((k, v) :: fs)⟩
    | .obj fs k :: r, .closeObject => some ⟨r, .after (.obj ((k, v) :: fs).reverse)⟩
    | _, _ => none

/-- The document, if all containers are closed. -/
def Partial.done? : Partial → Option Tree
  | ⟨[], .after v⟩ => some v
  | _ => none

/-- The document that tokens spell. -/
def build (ts : List Token) : Option Tree := do (← ts.foldlM push {}).done?

/-- The document that a text spells. -/
def parse (s : String) : Option Tree := do build (← Token.scan s.toList)

/-! ## Reading documents -/

/-- The text that pieces spell. Units of UTF-16 must form whole characters. -/
def spelled? : List Piece → Option (List Char)
  | [] => some []
  | .char c :: r => (c :: ·) <$> spelled? r
  | .unit hi :: .unit lo :: r =>
    if 0xD800 ≤ hi && hi < 0xDC00 then
      if 0xDC00 ≤ lo && lo < 0xE000 then
        (Char.ofNat (0x10000 + 0x400 * (hi - 0xD800) + (lo - 0xDC00)) :: ·) <$> spelled? r
      else none
    else if 0xDC00 ≤ hi && hi < 0xE000 then none
    else (Char.ofNat hi :: ·) <$> spelled? (.unit lo :: r)
  | .unit u :: r =>
    if 0xD800 ≤ u && u < 0xE000 then none else (Char.ofNat u :: ·) <$> spelled? r

def string? (ps : List Piece) : Option String := String.ofList <$> spelled? ps

mutual

/-- The value of a document, unless a text or a number in it denotes nothing. -/
def value? : Tree → Option Json
  | .null => some .null
  | .bool b => some (.bool b)
  | .num n => .num <$> n.number?
  | .text ps => .str <$> string? ps
  | .arr items => .arr <$> values? items
  | .obj fields => Json.ofFields <$> fieldValues? fields

/-- The values of the items of an array. -/
def values? : List Tree → Option (List Json)
  | [] => some []
  | t :: r => do return (← value? t) :: (← values? r)

/-- The keys and values of the fields of an object. -/
def fieldValues? : List (List Piece × Tree) → Option (List (String × Json))
  | [] => some []
  | (k, t) :: r => do return (← string? k, ← value? t) :: (← fieldValues? r)

end

mutual

/-- How many containers are open at the deepest place. -/
def depth : Tree → Nat
  | .arr items => depthList items + 1
  | .obj fields => depthFields fields + 1
  | _ => 0

def depthList : List Tree → Nat
  | [] => 0
  | t :: r => max (depth t) (depthList r)

def depthFields : List (List Piece × Tree) → Nat
  | [] => 0
  | (_, t) :: r => max (depth t) (depthFields r)

end

/-- The deepest nesting that a value may have. -/
def maxDepth : Nat := 127

/-- A text. -/
def str? : Tree → Option String
  | .text ps => string? ps
  | _ => none

/-- A truth value. -/
def bool? : Tree → Option Bool
  | .bool b => some b
  | _ => none

/-- A natural number below a bound. -/
def natBelow? (bound : Nat) : Tree → Option Nat
  | .num n =>
    match n.number? with
    | some (.whole i _) => if 0 ≤ i ∧ i.toNat < bound then some i.toNat else none
    | _ => none
  | _ => none

/-- An unsigned number of 64 bits. -/
def word? (t : Tree) : Option UInt64 := (t.natBelow? UInt64.size).map UInt64.ofNat

/-- A number, whole or not, as a binary64 number. -/
def real? : Tree → Option Binary64
  | .num n =>
    match n.number? with
    | some (.whole i _) => some (.ofInt i)
    | some (.real x) => some x
    | none => none
  | _ => none

/-- The fields of an object, in order and with repetitions. -/
def fields? : Tree → Option (List (String × Tree))
  | .obj fields => fields.mapM fun (k, t) => (·, t) <$> string? k
  | _ => none

/-- The items of an array. -/
def items? : Tree → Option (List Tree)
  | .arr items => some items
  | _ => none

/-- The name of an alternative without content: the bare name, or the name as the only key over
null. -/
def alternative? : Tree → Option String
  | .text ps => string? ps
  | .obj [(k, .null)] => string? k
  | _ => none

/-- The only field with a key; none and two are both refused. -/
def required? (fields : List (String × Tree)) (key : String) : Option Tree :=
  match fields.filter (·.1 = key) with
  | [(_, t)] => some t
  | _ => none

/-- The only field with a key, if there is one; two are refused. -/
def optional? (fields : List (String × Tree)) (key : String) : Option (Option Tree) :=
  match fields.filter (·.1 = key) with
  | [] => some none
  | [(_, t)] => some (some t)
  | _ => none

end Tree

end Upkeep.Json
