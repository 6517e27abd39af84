import Upkeep.Binary64.Shortest
import Upkeep.Json.Value

/-!
# Printed JSON

Values on one line without spaces. A text escapes only what it must. A binary64 number has the
shortest digits that read back, and always a point or an exponent, so that it stays apart from the
whole numbers; infinities and NaN print as null.
-/

namespace Upkeep.Json

/-- How binary64 numbers are laid out: with a point for the exponents between the bounds, else with
the mark `e` and a sign. -/
structure RealLayout where
  least : Int
  greatest : Int

/-- Numbers from `10 ^ -5` up to below `10 ^ 16` are written with a point. -/
def realLayout : RealLayout := ⟨-5, 15⟩

def digitChars (n : Nat) : List Char := Nat.toDigits 10 n

/-- Digits with a point after the first `k + 1` of them, for the value `d.ddd * 10 ^ k`. -/
def positional (ds : List Char) (k : Int) : List Char :=
  if k < 0 then '0' :: '.' :: (List.replicate ((-k).toNat - 1) '0' ++ ds)
  else
    let whole := k.toNat + 1
    let front := ds.take whole
    let back := ds.drop whole
    front ++ List.replicate (whole - front.length) '0' ++
      '.' :: (if back.isEmpty then ['0'] else back)

/-- Digits with a point after the first and a signed exponent. -/
def scientific (ds : List Char) (k : Int) : List Char :=
  let mantissa := match ds with
    | [] => []
    | [d] => [d]
    | d :: r => d :: '.' :: r
  mantissa ++ 'e' :: (if k < 0 then '-' else '+') :: digitChars k.natAbs

/-- The text of a finite number. -/
def realChars (x : Binary64) : List Char :=
  let sign := if x.isNegative then ['-'] else []
  if x.isZero then sign ++ ['0', '.', '0']
  else
    let d := x.shortest
    let ds := digitChars d.digits
    let k := d.exponent + (ds.length - 1)
    sign ++ if realLayout.least ≤ k ∧ k ≤ realLayout.greatest then positional ds k
      else scientific ds k

def Number.render : Number → List Char
  | .whole i _ => if i < 0 then '-' :: digitChars i.natAbs else digitChars i.natAbs
  | .real x => if x.isFinite then realChars x else ['n', 'u', 'l', 'l']

/-- A digit in base sixteen, in lower case. -/
def hexChar (n : Nat) : Char := Nat.digitChar (n % 16)

/-- A character of a text. -/
def escapeChar (c : Char) : List Char :=
  match c with
  | '"' => ['\\', '"']
  | '\\' => ['\\', '\\']
  | '\x08' => ['\\', 'b']
  | '\x0c' => ['\\', 'f']
  | '\n' => ['\\', 'n']
  | '\r' => ['\\', 'r']
  | '\t' => ['\\', 't']
  | _ =>
    if c.toNat < 0x20 then ['\\', 'u', '0', '0', hexChar (c.toNat / 16), hexChar c.toNat] else [c]

def renderString (s : String) : List Char := '"' :: s.toList.flatMap escapeChar ++ ['"']

mutual

/-- The text of a value. -/
def render : Json → List Char
  | .null => ['n', 'u', 'l', 'l']
  | .bool true => ['t', 'r', 'u', 'e']
  | .bool false => ['f', 'a', 'l', 's', 'e']
  | .num n => n.render
  | .str s => renderString s
  | .arr items => '[' :: renderItems items
  | .obj fields => '\x7b' :: renderFields fields

/-- The items of an array and the bracket that closes it. -/
def renderItems : List Json → List Char
  | [] => [']']
  | [v] => render v ++ [']']
  | v :: w :: r => render v ++ ',' :: renderItems (w :: r)

/-- The fields of an object and the brace that closes it. -/
def renderFields : List (String × Json) → List Char
  | [] => ['\x7d']
  | [(k, v)] => renderString k ++ ':' :: render v ++ ['\x7d']
  | (k, v) :: f :: r => renderString k ++ ':' :: render v ++ ',' :: renderFields (f :: r)

end

/-- The text of a value, as a string. -/
def print (j : Json) : String := String.ofList j.render

end Upkeep.Json
