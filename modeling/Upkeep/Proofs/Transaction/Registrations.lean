import Mathlib.Data.String.Basic
import Upkeep.Proofs.Association
import Upkeep.Transaction.Registry

/-!
# The registry as a finite map

The registry is read as the map from operations to handles that `get?` gives. No operation has two
entries, and nothing that is done to the registry changes that (`HasDistinctIds`). So registering
puts one value into the map (`get?_insert`), completing takes one out (`get?_complete`), and a sweep
takes out the stalled ones and counts them (`get?_sweep`, `fst_sweep`). The sorted identifiers are
the keys (`mem_ids_iff`, `pairwise_ids`).
-/

namespace Upkeep

theorem OperationId.text_inj {i j : OperationId} : i.text = j.text ↔ i = j := by
  refine ⟨fun h => ?_, congrArg text⟩
  cases i
  cases j
  cases h
  rfl

namespace Registry

variable {r : Registry} {i j : OperationId} {h : Nat} {text : String} {now : Nat}
  {standing : Nat → Standing} {maxAge : Duration}

/-- No operation has two entries. -/
def HasDistinctIds (r : Registry) : Prop := (r.entries.map Prod.fst).Nodup

/-! ## Looking up -/

theorem get?_text (r : Registry) (i : OperationId) : r.get? i.text = r.entries.lookup i := by
  rw [get?]
  induction r.entries with
  | nil => rfl
  | cons e es ih =>
    obtain ⟨j, h⟩ := e
    by_cases hij : i = j
    · subst hij
      simp
    · have htext : j.text ≠ i.text := fun heq => hij (OperationId.text_inj.1 heq.symm)
      have hne : (i == j) = false := by simp [hij]
      rw [List.find?_cons_of_neg (by simpa using htext), ih, List.lookup_cons, hne]

theorem get?_eq_some_iff (hr : r.HasDistinctIds) : r.get? i.text = some h ↔ (i, h) ∈ r.entries := by
  rw [get?_text, Association.lookup_eq_some_iff_mem hr]

/-- A text under which something is found is that of an operation. -/
theorem get?_eq_some_iff_exists :
    r.get? text = some h ↔ ∃ i : OperationId, i.text = text ∧ r.get? i.text = some h := by
  constructor
  · intro hget
    obtain ⟨e, he, rfl⟩ := Option.map_eq_some_iff.1 hget
    have htext : e.1.text = text := by simpa using List.find?_some he
    exact ⟨e.1, htext, htext ▸ hget⟩
  · rintro ⟨i, rfl, hget⟩
    exact hget

/-! ## Changes -/

theorem hasDistinctIds_filter (hr : r.HasDistinctIds) (keep : OperationId × Nat → Bool) :
    HasDistinctIds { r with entries := r.entries.filter keep } :=
  hr.sublist (List.filter_sublist.map Prod.fst)

theorem hasDistinctIds_insert (hr : r.HasDistinctIds) (i : OperationId) (h : Nat) :
    (r.insert i h).HasDistinctIds := by
  refine List.nodup_cons.2 ⟨?_, hasDistinctIds_filter hr _⟩
  simp

theorem get?_insert (r : Registry) (i j : OperationId) (h : Nat) :
    (r.insert i h).get? j.text = if j = i then some h else r.get? j.text := by
  rw [get?_text, get?_text, insert, List.lookup_cons]
  by_cases hij : j = i
  · simp [hij]
  · have hne : (j == i) = false := by simp [hij]
    simp [hne, hij]

theorem get?_complete (r : Registry) (text : String) (i : OperationId) :
    (r.complete text).2.get? i.text = if i.text = text then none else r.get? i.text := by
  have hlookup := Association.lookup_filter (fun i => i.text != text) r.entries i
  rw [get?_text, get?_text, complete, hlookup]
  by_cases h : i.text = text <;> simp [h]

theorem hasDistinctIds_sweep (hr : r.HasDistinctIds) :
    (r.sweep now standing maxAge).2.HasDistinctIds := hasDistinctIds_filter hr _

theorem get?_sweep (hr : r.HasDistinctIds) :
    (r.sweep now standing maxAge).2.get? i.text = some h ↔
      r.get? i.text = some h ∧ isStalled now maxAge (standing h) = false := by
  rw [get?_eq_some_iff (hasDistinctIds_sweep hr), get?_eq_some_iff hr, sweep, List.mem_filter,
    Bool.not_eq_true']

/-- A sweep depends only on which transactions are stalled. -/
theorem sweep_congr {standing' : Nat → Standing}
    (h : ∀ e ∈ r.entries,
      isStalled now maxAge (standing e.2) = isStalled now maxAge (standing' e.2)) :
    r.sweep now standing maxAge = r.sweep now standing' maxAge := by
  have hkept : (r.entries.filter fun e => !isStalled now maxAge (standing e.2)) =
      r.entries.filter fun e => !isStalled now maxAge (standing' e.2) :=
    List.filter_congr fun e he => congrArg _ (h e he)
  rw [sweep, sweep, hkept]

/-- A sweep that finds nothing stalled changes nothing. -/
theorem sweep_eq_self (h : ∀ e ∈ r.entries, isStalled now maxAge (standing e.2) = false) :
    r.sweep now standing maxAge = (0, r) := by
  have hkept : (r.entries.filter fun e => !isStalled now maxAge (standing e.2)) = r.entries :=
    List.filter_eq_self.2 fun e he => by rw [h e he]; rfl
  rw [sweep, hkept, Nat.sub_self]

/-! ## Views -/

theorem ids_perm (r : Registry) : r.ids.Perm (r.entries.map Prod.fst) := List.mergeSort_perm _ _

theorem mem_ids_iff (hr : r.HasDistinctIds) : i ∈ r.ids ↔ (r.get? i.text).isSome := by
  rw [(ids_perm r).mem_iff, List.mem_map, Option.isSome_iff_exists]
  simp [get?_eq_some_iff hr]

theorem count_eq (r : Registry) : r.count = r.ids.length := by
  rw [(ids_perm r).length_eq, List.length_map, count]

/-- The identifiers are in the order of their texts, each once. -/
theorem pairwise_ids (hr : r.HasDistinctIds) : r.ids.Pairwise (·.text < ·.text) := by
  have hsorted : r.ids.Pairwise (fun a b => a.text ≤ b.text) := by
    have hmerge : r.ids.Pairwise fun a b => decide (a.text ≤ b.text) = true :=
      List.pairwise_mergeSort
        (fun a b c hab hbc => by simpa using le_trans (by simpa using hab) (by simpa using hbc))
        (fun a b => by simpa using le_total a.text b.text) _
    exact hmerge.imp fun h => by simpa using h
  have hdistinct : r.ids.Pairwise (· ≠ ·) := (ids_perm r).nodup_iff.2 hr
  exact (hsorted.and hdistinct).imp fun ⟨hle, hne⟩ =>
    lt_of_le_of_ne hle fun heq => hne (OperationId.text_inj.1 heq)

/-- A sweep counts the operations that it takes out. -/
theorem fst_sweep (hr : r.HasDistinctIds) :
    (r.sweep now standing maxAge).1 =
      r.ids.countP fun i => ((r.sweep now standing maxAge).2.get? i.text).isNone := by
  have hkept : r.entries.length = r.entries.countP (fun e => isStalled now maxAge (standing e.2)) +
      (r.entries.filter fun e => !isStalled now maxAge (standing e.2)).length := by
    rw [← List.countP_eq_length_filter]
    simpa using r.entries.length_eq_countP_add_countP fun e => isStalled now maxAge (standing e.2)
  have hremoved : (r.sweep now standing maxAge).1 =
      r.entries.countP fun e => isStalled now maxAge (standing e.2) :=
    (congrArg (· - _) hkept).trans (Nat.add_sub_cancel _ _)
  rw [hremoved, (ids_perm r).countP_eq, List.countP_map]
  refine List.countP_congr fun e he => ?_
  have hget : r.get? e.1.text = some e.2 := (get?_eq_some_iff hr).2 he
  rw [Function.comp_apply, Option.isNone_iff_eq_none, Option.eq_none_iff_forall_ne_some]
  constructor
  · intro hstalled h heq
    obtain ⟨hh, hidle⟩ := (get?_sweep hr).1 heq
    rw [hget] at hh
    rw [← Option.some.inj hh, hstalled] at hidle
    cases hidle
  · intro hnone
    by_contra hidle
    exact hnone e.2 ((get?_sweep hr).2 ⟨hget, Bool.not_eq_true _ ▸ hidle⟩)

end Registry

end Upkeep
