/-!
# Lines

A line ends at a line feed, and a carriage return just before that feed belongs to the line end.
What follows the last feed is a line only if it is not empty, and is kept as it stands.

The symbols may be characters or bytes: a line feed is one byte of its own in UTF-8, so a file may
be split before it is decoded.
-/

namespace Upkeep.Text

variable {α : Type} [DecidableEq α]

/-- The runs before each `lf`, and what follows the last one. -/
def breakAt (lf : α) : List α → List (List α) × List α
  | [] => ([], [])
  | x :: r =>
    match breakAt lf r with
    | (ls, rest) =>
      if x = lf then ([] :: ls, rest)
      else match ls with
        | [] => ([], x :: rest)
        | l :: ls => ((x :: l) :: ls, rest)

/-- Drops one `cr` from the end. -/
def dropReturn (cr : α) (l : List α) : List α :=
  if l.getLast? = some cr then l.dropLast else l

/-- The lines of a text, for its line feed and carriage return. -/
def linesOf (lf cr : α) (s : List α) : List (List α) :=
  let (ls, rest) := breakAt lf s
  ls.map (dropReturn cr) ++ if rest.isEmpty then [] else [rest]

/-- The lines of a text of characters. -/
def lines (s : List Char) : List (List Char) := linesOf '\n' '\r' s

/-- The lines of a file of bytes. -/
def byteLines (s : List UInt8) : List (List UInt8) := linesOf 10 13 s

theorem breakAt_append (lf : α) (a b : List α) :
    breakAt lf (a ++ lf :: b) =
      ((breakAt lf a).1 ++ (breakAt lf a).2 :: (breakAt lf b).1, (breakAt lf b).2) := by
  induction a with
  | nil => simp [breakAt]
  | cons x a ih =>
    simp only [List.cons_append, breakAt, ih]
    rcases breakAt lf a with ⟨ls, rest⟩
    by_cases hx : x = lf
    · simp [hx]
    · cases ls <;> simp [hx]

end Upkeep.Text
