import Upkeep.Json.Tree

/-!
# Priorities and kinds of operations
-/

namespace Upkeep

/-- How urgent an operation is. -/
inductive Priority where
  | low | normal | high | critical
  deriving DecidableEq, Inhabited

namespace Priority

/-- All priorities, the least urgent first. -/
def all : List Priority := [low, normal, high, critical]

def rank : Priority → Nat
  | low => 0
  | normal => 1
  | high => 2
  | critical => 3

def name : Priority → String
  | low => "LOW"
  | normal => "NORMAL"
  | high => "HIGH"
  | critical => "CRITICAL"

def ofName? (s : String) : Option Priority := all.find? (·.name = s)

def ofTree? (t : Json.Tree) : Option Priority := do ofName? (← t.alternative?)

end Priority

instance : LT Priority := ⟨fun a b => a.rank < b.rank⟩

instance (a b : Priority) : Decidable (a < b) := inferInstanceAs (Decidable (a.rank < b.rank))

/-- What an operation does. -/
inductive OperationKind where
  | sync | scrub | backup
  deriving DecidableEq, Inhabited

namespace OperationKind

def all : List OperationKind := [sync, scrub, backup]

def name : OperationKind → String
  | sync => "sync"
  | scrub => "scrub"
  | backup => "backup"

def ofName? (s : String) : Option OperationKind := all.find? (·.name = s)

def ofTree? (t : Json.Tree) : Option OperationKind := do ofName? (← t.alternative?)

end OperationKind

end Upkeep
