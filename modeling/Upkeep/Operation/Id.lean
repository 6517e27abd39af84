import Upkeep.Json.Tree
import Upkeep.Text.Blank
import Upkeep.Text.Quoted

/-!
# Operation identifiers

A caller names each operation by a text that has something to show and no control characters. The
text is kept as it is.
-/

namespace Upkeep

/-- Some character is not blank. -/
def HasInk (s : String) : Prop := s.toList.any fun c => !Text.isBlank c

/-- No character is a control character. -/
def HasNoControl (s : String) : Prop := s.toList.all fun c => !Text.isControl c

instance (s : String) : Decidable (HasInk s) := inferInstanceAs (Decidable (_ = true))

instance (s : String) : Decidable (HasNoControl s) := inferInstanceAs (Decidable (_ = true))

/-- The name of an operation. -/
structure OperationId where
  text : String
  hasInk : HasInk text
  hasNoControl : HasNoControl text
  deriving DecidableEq

/-- Why a text names no operation. -/
inductive IdError where
  | blank
  | control (text : String)
  deriving DecidableEq

def IdError.message : IdError → String
  | .blank => "invalid operation id: operation id cannot be empty"
  | .control s =>
    "invalid operation id: operation id cannot contain control characters: " ++ Text.quote s

namespace OperationId

/-- The identifier with a text. A blank text is refused as such, whatever blanks it has. -/
def ofString (s : String) : Except IdError OperationId :=
  if ink : HasInk s then
    if clean : HasNoControl s then .ok ⟨s, ink, clean⟩ else .error (.control s)
  else .error .blank

/-- The order of the texts. -/
def before (a b : OperationId) : Bool := a.text < b.text

def toJson (i : OperationId) : Json := .str i.text

/-- Reads a JSON text as an identifier. -/
def ofTree? (t : Json.Tree) : Option OperationId := do
  (ofString (← t.str?)).toOption

/-- The identifier that a document gives. -/
def decode? (text : String) : Option OperationId := (Json.Tree.parse text).bind ofTree?

end OperationId

end Upkeep
