import Upkeep.Json.Value

/-!
# Access to JSON values
-/

namespace Upkeep.Json

def str? : Json → Option String
  | .str s => some s
  | _ => none

def bool? : Json → Option Bool
  | .bool b => some b
  | _ => none

/-- A whole number that is not negative. -/
def nat? : Json → Option Nat
  | .num (.whole i _) => if 0 ≤ i then some i.toNat else none
  | _ => none

/-- A number as a binary64 number. -/
def real? : Json → Option Binary64
  | .num (.whole i _) => some (.ofInt i)
  | .num (.real x) => some x
  | _ => none

/-- The items of an array; other values have none. -/
def items : Json → List Json
  | .arr xs => xs
  | _ => []

def isNull : Json → Bool
  | .null => true
  | _ => false

/-- The value of a field, unless it is missing or null. -/
def given? (j : Json) (key : String) : Option Json :=
  match j.get? key with
  | some v => if v.isNull then none else some v
  | none => none

end Upkeep.Json
