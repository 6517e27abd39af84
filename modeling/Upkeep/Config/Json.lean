import Upkeep.Config.Fields
import Upkeep.Json.Tree

/-!
# Configuration as JSON
-/

namespace Upkeep

namespace ConfigTree

mutual

/-- A JSON document as a configuration text. -/
def ofJson : Json.Tree → ConfigTree
  | .num n =>
    match n.number? with
    | some (.whole i _) => .int i
    | _ => .other
  | .text ps => ((Json.Tree.string? ps).map ConfigTree.text).getD .other
  | .arr items => .list (ofItems items)
  | .obj fields => ofFields fields
  | _ => .other

def ofItems : List Json.Tree → List ConfigTree
  | [] => []
  | t :: r => ofJson t :: ofItems r

/-- The fields of an object, unless a key is no text. -/
def ofFields (fields : List (List Json.Piece × Json.Tree)) : ConfigTree :=
  ((fieldList fields).map ConfigTree.table).getD .other

def fieldList : List (List Json.Piece × Json.Tree) → Option (List (String × ConfigTree))
  | [] => some []
  | (k, t) :: r => do return (← Json.Tree.string? k, ofJson t) :: (← fieldList r)

end

end ConfigTree

namespace Config

/-- The configuration that a JSON text gives. A section given as a list has no surplus values. -/
def ofJson? (s : String) : Option Config := do ofTree? false (.ofJson (← Json.Tree.parse s))

/-- Entries as a JSON object. -/
def entriesToJson (es : List (String × (UInt64 ⊕ String))) : Json :=
  .obj (es.map fun (k, v) => (k, match v with
    | .inl n => .ofWord n
    | .inr s => .str s))

def toJson (c : Config) : Json := .obj (c.entries.map fun (k, es) => (k, entriesToJson es))

end Config

end Upkeep
