import Upkeep.Operation.Id
import Upkeep.Proofs.Json.Literals
import Upkeep.Proofs.Json.RoundTrip

/-!
# Identifiers and their spellings

A text is an identifier exactly if something in it shows and nothing in it controls, and it is kept
as it is. A document is an identifier exactly if it is a literal, in whatever spelling, of such a
text: reading a document lets nothing in that the text itself would not (`accepts_exactly`).
-/

namespace Upkeep.OperationId

open Json (Tree IsTextDocument)

variable {s text : String} {i : OperationId}

theorem ofString_eq_ok_iff : ofString s = .ok i ↔ i.text = s := by
  constructor
  · intro h
    unfold ofString at h
    split at h
    · split at h <;> cases h
      rfl
    · cases h
  · rintro rfl
    rw [ofString, dif_pos i.hasInk, dif_pos i.hasNoControl]

theorem exists_ofString_iff (s : String) : (∃ i, ofString s = .ok i) ↔
    (∃ c ∈ s.toList, Text.isBlank c = false) ∧ ∀ c ∈ s.toList, Text.isControl c = false := by
  have hink : HasInk s ↔ ∃ c ∈ s.toList, Text.isBlank c = false := by
    simp [HasInk]
  have hclean : HasNoControl s ↔ ∀ c ∈ s.toList, Text.isControl c = false := by
    simp [HasNoControl]
  rw [← hink, ← hclean]
  constructor
  · rintro ⟨i, hi⟩
    obtain rfl := ofString_eq_ok_iff.1 hi
    exact ⟨i.hasInk, i.hasNoControl⟩
  · rintro ⟨ink, clean⟩
    exact ⟨⟨s, ink, clean⟩, ofString_eq_ok_iff.2 rfl⟩

/-- A document is an identifier if it is a text that is one. -/
theorem decode?_eq_some_iff :
    decode? text = some i ↔ ∃ s, IsTextDocument text s ∧ ofString s = .ok i := by
  have hread (t : Tree) : ofTree? t = some i ↔ ∃ s, t.str? = some s ∧ ofString s = .ok i := by
    rw [ofTree?, Option.bind_eq_bind, Option.bind_eq_some_iff]
    refine exists_congr fun s => and_congr_right fun _ => ?_
    cases ofString s <;> simp [Except.toOption]
  simp only [decode?, Option.bind_eq_some_iff, hread, ← Json.parse_str_iff]
  constructor
  · rintro ⟨t, ht, s, hs, hi⟩
    exact ⟨s, ⟨t, ht, hs⟩, hi⟩
  · rintro ⟨s, ⟨t, ht, hs⟩, hi⟩
    exact ⟨t, ht, s, hs, hi⟩

theorem decode?_print (i : OperationId) : decode? i.toJson.print = some i := by
  have hparse : Tree.parse i.toJson.print = some (.text (Json.pieces i.text)) :=
    (Json.legible_str i.text).parse
  rw [decode?_eq_some_iff]
  refine ⟨i.text, Json.parse_str_iff.1 ?_, ofString_eq_ok_iff.2 rfl⟩
  rw [hparse]
  exact Json.string?_pieces i.text

/-- **Which texts are identifiers, and which documents.** -/
theorem accepts_exactly :
    (∀ s, (∃ i, ofString s = .ok i) ↔
      (∃ c ∈ s.toList, Text.isBlank c = false) ∧ ∀ c ∈ s.toList, Text.isControl c = false) ∧
    (∀ s i, ofString s = .ok i ↔ i.text = s) ∧
    (∀ i : OperationId, decode? i.toJson.print = some i) ∧
    ∀ text i, decode? text = some i ↔ ∃ s, IsTextDocument text s ∧ ofString s = .ok i :=
  ⟨exists_ofString_iff, fun _ _ => ofString_eq_ok_iff, decode?_print,
    fun _ _ => decode?_eq_some_iff⟩

/-- Characters that stand for themselves, or are given by a letter, a code or a pair of codes. -/
example : (decode? " \"a\\/\\u00e9\\ud83d\\uDE00\"\n").map (·.text) = some "a/é😀" := by decide

end Upkeep.OperationId
