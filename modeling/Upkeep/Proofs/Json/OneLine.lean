import Upkeep.Json.Printer
import Upkeep.Proofs.Text.Digits

/-!
# Printed values are on one line

No printed value has a line feed in it (`lineFeed_not_mem_render`): texts escape it, and nothing
else has one.
-/

namespace Upkeep.Json

theorem lineFeed_not_mem_digitChars (n : Nat) : '\n' ∉ digitChars n := fun h =>
  absurd (Text.isDigit_of_mem_toDigits h) (by decide)

theorem lineFeed_not_mem_positional {ds : List Char} (h : '\n' ∉ ds) (k : Int) :
    '\n' ∉ positional ds k := by
  have hfront : '\n' ∉ ds.take (k.toNat + 1) := fun hmem => h (List.mem_of_mem_take hmem)
  have hback : '\n' ∉ ds.drop (k.toNat + 1) := fun hmem => h (List.mem_of_mem_drop hmem)
  unfold positional
  split
  · simp [h]
  · dsimp only
    split <;> simp [hfront, hback]

theorem lineFeed_not_mem_scientific {ds : List Char} (h : '\n' ∉ ds) (k : Int) :
    '\n' ∉ scientific ds k := by
  have hexponent : '\n' ∉ digitChars k.natAbs := lineFeed_not_mem_digitChars _
  unfold scientific
  split <;> split <;> simp_all

theorem lineFeed_not_mem_number (n : Number) : '\n' ∉ n.render := by
  cases n with
  | whole i fits =>
    have hdigits := lineFeed_not_mem_digitChars i.natAbs
    rw [Number.render]
    split <;> simp [hdigits]
  | real x =>
    have hdigits := lineFeed_not_mem_digitChars x.shortest.digits
    rw [Number.render]
    split
    · unfold realChars
      dsimp only
      split
      · split <;> decide
      · refine fun hmem => (List.mem_append.1 hmem).elim ?_ ?_
        · split <;> decide
        · split
          · exact lineFeed_not_mem_positional hdigits _
          · exact lineFeed_not_mem_scientific hdigits _
    · decide

theorem lineFeed_not_mem_escapeChar (c : Char) : '\n' ∉ escapeChar c := by
  have hhex (n : Nat) : hexChar n ≠ '\n' := Nat.digitChar_ne _ (by decide)
  unfold escapeChar
  split
  · decide
  · decide
  · decide
  · decide
  · decide
  · decide
  · decide
  · rename_i hfeed _ _
    split
    · simp [Ne.symm (hhex _)]
    · exact fun hmem => hfeed (List.mem_singleton.1 hmem).symm

theorem lineFeed_not_mem_renderString (s : String) : '\n' ∉ renderString s := by
  simp [renderString, lineFeed_not_mem_escapeChar]

mutual

theorem lineFeed_not_mem_render : (v : Json) → '\n' ∉ v.render
  | .null => by decide
  | .bool true => by decide
  | .bool false => by decide
  | .num n => lineFeed_not_mem_number n
  | .str s => lineFeed_not_mem_renderString s
  | .arr items => by simp [render, lineFeed_not_mem_renderItems items]
  | .obj fields => by simp [render, lineFeed_not_mem_renderFields fields]

theorem lineFeed_not_mem_renderItems : (items : List Json) → '\n' ∉ renderItems items
  | [] => by decide
  | [v] => by simp [renderItems, lineFeed_not_mem_render v]
  | v :: w :: r => by
    simp [renderItems, lineFeed_not_mem_render v, lineFeed_not_mem_renderItems (w :: r)]

theorem lineFeed_not_mem_renderFields : (fields : List (String × Json)) → '\n' ∉ renderFields fields
  | [] => by decide
  | [(k, v)] => by
    simp [renderFields, lineFeed_not_mem_renderString k, lineFeed_not_mem_render v]
  | (k, v) :: f :: r => by
    simp [renderFields, lineFeed_not_mem_renderString k, lineFeed_not_mem_render v,
      lineFeed_not_mem_renderFields (f :: r)]

end

/-- An object is closed at its end. -/
theorem exists_renderFields (fields : List (String × Json)) :
    ∃ s, renderFields fields = s ++ ['\x7d'] := by
  induction fields with
  | nil => exact ⟨[], rfl⟩
  | cons f fields ih =>
    obtain ⟨k, v⟩ := f
    cases fields with
    | nil => exact ⟨_, rfl⟩
    | cons f' fields =>
      obtain ⟨s, hs⟩ := ih
      refine ⟨renderString k ++ ':' :: v.render ++ ',' :: s, ?_⟩
      rw [renderFields, hs]
      simp only [List.append_assoc, List.cons_append]

end Upkeep.Json
