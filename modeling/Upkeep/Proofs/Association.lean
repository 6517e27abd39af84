import Mathlib.Data.List.Basic

/-!
# Association lists

Tables are lists of pairs, from which entries are removed by their keys.
-/

namespace Upkeep.Association

variable {α β : Type} [BEq α] [LawfulBEq α]

theorem lookup_filter (keep : α → Bool) (l : List (α × β)) (a : α) :
    (l.filter fun e => keep e.1).lookup a = if keep a then l.lookup a else none := by
  induction l with
  | nil => simp
  | cons e l ih =>
    obtain ⟨b, v⟩ := e
    by_cases hab : a = b
    · subst hab
      cases hk : keep a with
      | true => simp [hk]
      | false => simpa [hk] using ih
    · have hne : (a == b) = false := by simp [hab]
      cases hk : keep b with
      | true => simpa [hk, List.lookup_cons, hne] using ih
      | false => simpa [hk, List.lookup_cons, hne] using ih

@[simp] theorem lookup_filter_ne (l : List (α × β)) (a b : α) :
    (l.filter (·.1 != a)).lookup b = if b == a then none else l.lookup b := by
  rw [lookup_filter (· != a)]
  cases h : b == a <;> simp [bne, h]

theorem mem_of_lookup {l : List (α × β)} {a : α} {b : β} (h : l.lookup a = some b) :
    (a, b) ∈ l := by
  obtain ⟨l₁, l₂, rfl, -⟩ := List.lookup_eq_some_iff.1 h
  simp

/-- With distinct keys, what is found under a key is what was entered under it. -/
theorem lookup_eq_some_iff_mem {l : List (α × β)} (h : (l.map (·.1)).Nodup) {a : α} {b : β} :
    l.lookup a = some b ↔ (a, b) ∈ l := by
  constructor
  · exact mem_of_lookup
  · induction l with
    | nil => simp
    | cons e l ih =>
      obtain ⟨c, v⟩ := e
      rw [List.map_cons, List.nodup_cons] at h
      intro hmem
      rcases List.mem_cons.1 hmem with heq | hl
      · cases heq
        simp
      · have hne : (a == c) = false := by
          rw [beq_eq_false_iff_ne]
          rintro rfl
          exact h.1 (List.mem_map.2 ⟨(a, b), hl, rfl⟩)
        rw [List.lookup_cons, hne]
        exact ih h.2 hl

end Upkeep.Association
