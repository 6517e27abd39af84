/-!
# Outcomes of callbacks

A callback succeeds, fails with a chain of causes, or breaks down. Whoever runs it says what to call
a breakdown.
-/

namespace Upkeep

/-- How a callback ended. -/
inductive Outcome where
  | success
  /-- A failure with its causes, the outermost first. -/
  | failure (causes : List String)
  /-- A breakdown, with its message if it left a readable one. -/
  | breakdown (message : Option String)
  deriving DecidableEq, Inhabited

namespace Outcome

/-- What is wrong, if anything; `runner` names what broke down. -/
def fault? (runner : String) : Outcome → Option String
  | success => none
  | failure causes => some (String.intercalate ": " causes)
  | breakdown message => some (runner ++ " panicked: " ++ message.getD "unknown panic payload")

end Outcome

end Upkeep
