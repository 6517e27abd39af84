import Upkeep.Memory.Meminfo
import Upkeep.Proofs.Memory.Thresholds
import Upkeep.Proofs.Text.Words

/-!
# What a memory report tells

**Lines.** A line tells a number of kilobytes if its second word is a decimal number below `2 ^ 64`
(`Tells`), as it is on a line that has the label, blanks and the number (`tells_of_spells`). The
bytes are as many as a word of 64 bits can hold at most (`told?_words_iff`).

**Reports.** Of the lines of a report, the first with the label tells the available memory
(`available?_eq_some_iff`), with any lines around it and line ends of either kind. If it tells
nothing, the report does not, and no later line is looked at (`available?_eq_none_iff`). What is not
told counts as nothing available: then memory is scarce, and no requirement is allowed
(`told_by_first_line`).
-/

namespace Upkeep.Meminfo

open Text (Joined IsWord AllBlank EndsWord IsSecondWord Spells)

variable {ls : List (List Char)} {report line gap number rest : List Char} {n : Nat} {b : UInt64}

/-! ## Lines -/

/-- The first of the lines that starts with the label. -/
def IsFirst (ls : List (List Char)) (line : List Char) : Prop :=
  ∃ before after, ls = before ++ line :: after ∧ label <+: line ∧ ∀ l ∈ before, ¬label <+: l

theorem find?_eq_some_iff : ls.find? (label.isPrefixOf ·) = some line ↔ IsFirst ls line := by
  simp only [List.find?_eq_some_iff_append, IsFirst, List.isPrefixOf_iff_prefix,
    Bool.not_eq_true', ← Bool.not_eq_true]
  constructor
  · rintro ⟨hline, before, after, hls, hbefore⟩
    exact ⟨before, after, hls, hline, hbefore⟩
  · rintro ⟨before, after, hls, hline, hbefore⟩
    exact ⟨hline, before, after, hls, hbefore⟩

theorem isPrefixOf_concat_return (l : List Char) :
    label.isPrefixOf (l ++ ['\r']) = label.isPrefixOf l := by
  have hlabel : label ≠ l ++ ['\r'] := fun heq => by
    have hlast := congrArg List.getLast? heq
    rw [List.getLast?_concat] at hlast
    exact absurd hlast (by decide)
  rw [Bool.eq_iff_iff, List.isPrefixOf_iff_prefix, List.isPrefixOf_iff_prefix,
    List.prefix_concat_iff]
  exact or_iff_right hlabel

/-- The number of bytes that the words of a line tell. -/
def told? (ws : List (List Char)) : Option UInt64 := do
  let kb ← Text.word? (← ws[1]?)
  return Memory.saturatingMul kb bytesPerKb

theorem available?_eq (report : List Char) : available? report =
    (((Text.lines report).find? (label.isPrefixOf ·)).map Text.words).bind told? := by
  rw [Option.bind_map]
  rfl

/-- The second word of the line is a number of kilobytes that fits into a word of 64 bits. -/
def Tells (line : List Char) (n : Nat) : Prop :=
  ∃ word, IsSecondWord line word ∧ Spells word n ∧ n < 2 ^ 64

/-- A line with the label, some blanks, a number and nothing that goes on with it tells the
number. -/
theorem tells_of_spells (hne : gap ≠ []) (hgap : AllBlank gap) (hnumber : Spells number n)
    (hlt : n < 2 ^ 64) (hrest : EndsWord rest) :
    Tells (label ++ (gap ++ (number ++ rest))) n := by
  have hlabel : IsWord label := by decide
  have hlead : AllBlank [] := List.forall_mem_nil _
  exact ⟨number, ⟨[], label, gap, rest, rfl, hlead, hlabel, hne, hgap, hnumber.isWord, hrest⟩,
    hnumber, hlt⟩

theorem told?_words_iff : told? (Text.words line) = some b ↔
    ∃ n, Tells line n ∧ b.toNat = min (n * 1024) (2 ^ 64 - 1) := by
  constructor
  · intro h
    obtain ⟨word, hword, h⟩ := Option.bind_eq_some_iff.1 h
    obtain ⟨kb, hkb, h⟩ := Option.bind_eq_some_iff.1 h
    cases h
    exact ⟨kb.toNat, ⟨word, Text.getElem?_words_iff.1 hword, Text.word?_eq_some_iff.1 hkb,
      kb.toNat_lt⟩, Memory.toNat_saturatingMul kb bytesPerKb⟩
  · rintro ⟨n, ⟨word, hword, hspells, hlt⟩, hb⟩
    have hn : (UInt64.ofNat n).toNat = n := UInt64.toNat_ofNat_of_lt' hlt
    have hkb : Text.word? word = some (UInt64.ofNat n) :=
      Text.word?_eq_some_iff.2 (hn.symm ▸ hspells)
    have hproduct : Memory.saturatingMul (UInt64.ofNat n) bytesPerKb = b := by
      rw [← UInt64.toNat_inj, Memory.toNat_saturatingMul, hn, hb]
      rfl
    exact Option.bind_eq_some_iff.2 ⟨word, Text.getElem?_words_iff.2 hword,
      Option.bind_eq_some_iff.2 ⟨_, hkb, congrArg some hproduct⟩⟩

/-! ## Whole reports -/

section Report

variable (hls : ∀ l ∈ ls, '\n' ∉ l) (h : Joined ls report)

include hls h

theorem available?_eq_some_iff : available? report = some b ↔
    ∃ line n, IsFirst ls line ∧ Tells line n ∧ b.toNat = min (n * 1024) (2 ^ 64 - 1) := by
  have hfirst : ((Text.lines report).find? (label.isPrefixOf ·)).map Text.words =
      (ls.find? (label.isPrefixOf ·)).map Text.words :=
    Text.find?_lines rfl isPrefixOf_concat_return (Text.words_concat rfl) h hls
  rw [available?_eq, hfirst, Option.bind_map, Option.bind_eq_some_iff]
  simp only [Function.comp_apply, find?_eq_some_iff, told?_words_iff, exists_and_left]

theorem exists_available? (hfirst : IsFirst ls line) (htells : Tells line n) :
    ∃ b, available? report = some b ∧ b.toNat = min (n * 1024) (2 ^ 64 - 1) := by
  have hfits : min (n * 1024) (2 ^ 64 - 1) < UInt64.size :=
    Nat.lt_of_le_of_lt (Nat.min_le_right _ _) (by decide)
  have hb := UInt64.toNat_ofNat_of_lt' hfits
  exact ⟨_, (available?_eq_some_iff hls h).2 ⟨line, n, hfirst, htells, hb⟩, hb⟩

/-- If that line tells nothing, or there is none, no other line is looked at. -/
theorem available?_eq_none_iff :
    available? report = none ↔ ¬∃ line n, IsFirst ls line ∧ Tells line n := by
  constructor
  · rintro hnone ⟨line, n, hfirst, htells⟩
    obtain ⟨b, hb, -⟩ := exists_available? hls h hfirst htells
    rw [hnone] at hb
    cases hb
  · intro hnone
    rw [Option.eq_none_iff_forall_ne_some]
    intro b hb
    obtain ⟨line, n, hfirst, htells, -⟩ := (available?_eq_some_iff hls h).1 hb
    exact hnone ⟨line, n, hfirst, htells⟩

end Report

theorem reading_encode (s : List Char) :
    reading (some (Text.encode (String.ofList s))) = (available? s).getD 0 := by
  rw [reading, Option.bind_some, Text.decode?_encode, Option.bind_some, String.toList_ofList]

/-- **The first line with the label counts, and no other.** If blanks and a number that fits into a
word of 64 bits follow the label, so many kilobytes are available, or as many bytes as such a word
can hold. If the second word is none or no such number, or there is no line with the label, nothing
is told: then memory is scarce and no requirement is allowed. -/
theorem told_by_first_line (hls : ∀ l ∈ ls, '\n' ∉ l) (h : Joined ls report) :
    let file := some (Text.encode (String.ofList report))
    (∀ gap number rest n, IsFirst ls (label ++ (gap ++ (number ++ rest))) → gap ≠ [] →
        AllBlank gap → Spells number n → n < 2 ^ 64 → EndsWord rest →
      ∃ b, available? report = some b ∧ reading file = b ∧
        b.toNat = min (n * 1024) (2 ^ 64 - 1)) ∧
    ((¬∃ line n, IsFirst ls line ∧ Tells line n) →
      available? report = none ∧ reading file = 0 ∧ ∀ warningMb criticalMb : UInt64,
        let m := MemoryMonitor.ofMb warningMb criticalMb
        (0 < criticalMb → m.pressure (reading file) = .critical) ∧
          ∀ requiredMb, m.allows (reading file) requiredMb = false) := by
  intro file
  have hreading : reading file = (available? report).getD 0 := reading_encode report
  refine ⟨fun gap number rest n hfirst hne hgap hnumber hlt hrest => ?_, fun hnone => ?_⟩
  · obtain ⟨b, htold, hb⟩ :=
      exists_available? hls h hfirst (tells_of_spells hne hgap hnumber hlt hrest)
    rw [htold] at hreading
    exact ⟨b, htold, hreading, hb⟩
  · have htold := (available?_eq_none_iff hls h).2 hnone
    rw [htold] at hreading
    refine ⟨htold, hreading, fun warningMb criticalMb => ?_⟩
    rw [hreading]
    exact ⟨MemoryMonitor.pressure_zero warningMb, MemoryMonitor.allows_zero _⟩

/-- A number with a sign, zeros and a unit is told, whatever is told later. Where the first line
tells nothing, nothing is. -/
theorem told_by_first_line_two :
    let total := "MemTotal: 9 kB".toList
    let told := label ++ (['\t'] ++ ("+0012".toList ++ " kB".toList))
    let lots := "MemAvailable: lots kB".toList
    let late := "MemAvailable: 7 kB".toList
    let telling := total ++ '\r' :: '\n' :: (told ++ '\n' :: late)
    let silent := lots ++ '\n' :: late
    ((∀ l ∈ [total, told, late], '\n' ∉ l) ∧ Joined [total, told, late] telling ∧
      ∃ b, available? telling = some b ∧ b.toNat = 12288) ∧
    (∀ l ∈ [lots, late], '\n' ∉ l) ∧ Joined [lots, late] silent ∧ available? silent = none ∧
      (MemoryMonitor.ofMb 512 256).pressure (reading (some (Text.encode (String.ofList silent)))) =
        .critical := by
  intro total told lots late telling silent
  have htelling : Joined [total, told, late] telling := .returnFeed _ (.feed _ (.last _))
  have hsilent : Joined [lots, late] silent := .feed _ (.last _)
  have htellingFree : ∀ l ∈ [total, told, late], '\n' ∉ l := by decide
  have hsilentFree : ∀ l ∈ [lots, late], '\n' ∉ l := by decide
  have hfirst : IsFirst [total, told, late] told := find?_eq_some_iff.1 (by decide)
  have hnumber : Spells "+0012".toList 12 :=
    ⟨"0012".toList, .inr rfl, by decide, List.all_eq_true.1 (by decide), by decide⟩
  have hnone := (available?_eq_none_iff hsilentFree hsilent).1 (by decide)
  obtain ⟨b, hb, -, hkb⟩ := (told_by_first_line htellingFree htelling).1 ['\t'] _ " kB".toList 12
    hfirst (by decide) (by decide) hnumber (by decide) (by decide)
  obtain ⟨htold, -, hscarce⟩ := (told_by_first_line hsilentFree hsilent).2 hnone
  exact ⟨⟨htellingFree, htelling, b, hb, hkb⟩, hsilentFree, hsilent, htold,
    (hscarce 512 256).1 (by decide)⟩

end Upkeep.Meminfo
