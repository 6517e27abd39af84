/-!
# TOML values

The values of a TOML document that settings can be made of. A table remembers whether its keys may
still be extended by dotted keys.
-/

namespace Upkeep.Toml

inductive Value where
  | integer (i : Int)
  | string (s : String)
  | boolean (b : Bool)
  | float (spelling : String)
  | dateTime (spelling : String)
  | array (items : List Value)
  /-- A table; an open one was made by a dotted key. -/
  | table (isOpen : Bool) (fields : List (String × Value))
  deriving Inhabited

abbrev Fields := List (String × Value)

/-- The integers of the format are words of 64 bits with a sign, which are below `2 ^ 63`. -/
def integerBound : Nat := 9223372036854775808

/-- An integer of the format. -/
def FitsInteger (i : Int) : Prop := -integerBound ≤ i ∧ i < integerBound

instance (i : Int) : Decidable (FitsInteger i) := inferInstanceAs (Decidable (_ ∧ _))

/-- Puts a value in place of the one with a key. -/
def Fields.replace (fs : Fields) (key : String) (v : Value) : Fields :=
  fs.map fun (k, w) => if k = key then (k, v) else (k, w)

/-- Adds a value under a dotted key. Nothing is ever given twice, and only tables that dotted keys
have made are extended by them. -/
def Fields.insert? (v : Value) : List String → Fields → Option Fields
  | [], _ => none
  | [k], fs => if (fs.lookup k).isSome then none else some (fs ++ [(k, v)])
  | k :: ks, fs =>
    match fs.lookup k with
    | none => do return fs ++ [(k, .table true (← insert? v ks []))]
    | some (.table true sub) => do return fs.replace k (.table true (← insert? v ks sub))
    | some _ => none

end Upkeep.Toml
