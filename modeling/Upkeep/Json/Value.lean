import Upkeep.Binary64

/-!
# JSON values

A whole number stays whole if it fits a signed or an unsigned word of 64 bits; every other number
is a binary64 number. The fields of an object keep the order they are given in; free-form objects
are made by `Json.ofFields`, which sorts them by key and keeps each key once.
-/

namespace Upkeep

namespace Json

/-- The whole numbers that are kept exactly: those of a signed or an unsigned word. -/
def FitsWord (i : Int) : Prop := -9223372036854775808 ≤ i ∧ i < 18446744073709551616

instance (i : Int) : Decidable (FitsWord i) := inferInstanceAs (Decidable (_ ∧ _))

inductive Number where
  | whole (i : Int) (fits : FitsWord i)
  | real (x : Binary64)
  deriving DecidableEq

end Json

/-- A JSON value. -/
inductive Json where
  | null
  | bool (b : Bool)
  | num (n : Json.Number)
  | str (s : String)
  | arr (items : List Json)
  | obj (fields : List (String × Json))
  deriving Inhabited

namespace Json

/-- A number of 64 bits. -/
def ofWord (n : UInt64) : Json :=
  .num (.whole n.toNat ⟨by omega, by have := n.toNat_lt; omega⟩)

/-- A whole number, kept exactly if it fits. -/
def ofInt (i : Int) : Json :=
  .num (if h : FitsWord i then .whole i h else .real (.ofInt i))

def ofNat (n : Nat) : Json := ofInt n

def ofReal (x : Binary64) : Json := .num (.real x)

/-- Puts a field into a sorted list of fields; the newer of two values of a key stays. -/
def insertField (k : String) (v : Json) : List (String × Json) → List (String × Json)
  | [] => [(k, v)]
  | (k', v') :: r =>
    if k < k' then (k, v) :: (k', v') :: r
    else if k = k' then (k, v) :: r
    else (k', v') :: insertField k v r

/-- The object with the given fields, of which the last of a key counts. -/
def ofFields (fields : List (String × Json)) : Json :=
  .obj (fields.foldl (fun acc (k, v) => insertField k v acc) [])

/-- The value of a field of an object. -/
def get? (j : Json) (key : String) : Option Json :=
  match j with
  | .obj fields => fields.lookup key
  | _ => none

end Json

end Upkeep
