import Mathlib.Data.List.TakeWhile
import Upkeep.Proofs.Text.Digits
import Upkeep.Proofs.Text.Encoding
import Upkeep.Text.Blank

/-!
# Joined lines and their words

**Lines.** `Joined` is a text that was put together of lines, with a line end of either kind between
any two of them. The text is read as those lines, but for an empty last line and for a carriage
return at the end of a line, which may pass for a part of its line end. Where these two do not
matter, a line is found in the text as it is among the lines (`find?_lines`).

**Words.** A text that is not all blank is made up of blanks, a word and a rest that does not go on
with the word, and its words are that word and those of the rest (`words_eq_cons_iff`). Twice over,
this says which word of a text is the second (`getElem?_words_iff`).
-/

namespace Upkeep.Text

variable {c : Char} {s t gap w rest : List Char} {ws : List (List Char)}

/-! ## Lines -/

/-- The text is the lines one after the other, with a line feed, or a carriage return and a line
feed, between any two of them. -/
inductive Joined : List (List Char) → List Char → Prop
  | nil : Joined [] []
  | last (l : List Char) : Joined [l] l
  | feed (l : List Char) {m : List Char} {ls : List (List Char)} {s : List Char} :
      Joined (m :: ls) s → Joined (l :: m :: ls) (l ++ '\n' :: s)
  | returnFeed (l : List Char) {m : List Char} {ls : List (List Char)} {s : List Char} :
      Joined (m :: ls) s → Joined (l :: m :: ls) (l ++ '\r' :: '\n' :: s)

theorem lines_append_returnFeed (h : '\n' ∉ s) : lines (s ++ '\r' :: '\n' :: t) = s :: lines t := by
  have hs : '\n' ∉ s ++ ['\r'] := by simp [h]
  have htext : s ++ '\r' :: '\n' :: t = (s ++ ['\r']) ++ '\n' :: t := by simp
  have hdrop : dropReturn '\r' (s ++ ['\r']) = s := by simp [dropReturn]
  rw [lines, htext, linesOf_append hs, hdrop]
  rfl

/-- The first line of a kind is the same in a text as among the lines that were joined to it, up to
a carriage return at its end. -/
theorem find?_lines {β : Type} {p : List Char → Bool} {f : List Char → β} (hnil : p [] = false)
    (hp : ∀ l, p (l ++ ['\r']) = p l) (hf : ∀ l, f (l ++ ['\r']) = f l) {ls : List (List Char)}
    (h : Joined ls s) (hls : ∀ l ∈ ls, '\n' ∉ l) :
    ((lines s).find? p).map f = (ls.find? p).map f := by
  induction h with
  | nil => rfl
  | last l =>
    rw [lines, linesOf_of_not_mem (hls l List.mem_cons_self)]
    cases l with
    | nil => simp [hnil]
    | cons c r => rfl
  | feed l _ ih =>
    obtain ⟨hl, hls⟩ := List.forall_mem_cons.1 hls
    -- The line may end with a carriage return of its own, which the line feed then takes from it.
    rw [lines, linesOf_append hl, List.find?_cons, List.find?_cons, apply_dropReturn hp]
    cases p l with
    | true => exact congrArg some (apply_dropReturn hf l)
    | false => exact ih hls
  | returnFeed l _ ih =>
    obtain ⟨hl, hls⟩ := List.forall_mem_cons.1 hls
    rw [lines_append_returnFeed hl, List.find?_cons, List.find?_cons]
    cases p l with
    | true => rfl
    | false => exact ih hls

/-! ## Words -/

/-- A run of characters of which none is blank. -/
structure IsWord (w : List Char) : Prop where
  ne_nil : w ≠ []
  inked : ∀ c ∈ w, isBlank c = false

def AllBlank (s : List Char) : Prop := ∀ c ∈ s, isBlank c = true

/-- No word goes on with the text: it is empty or starts with a blank. -/
def EndsWord (s : List Char) : Prop := ∀ c ∈ s.head?, isBlank c = true

instance : DecidablePred IsWord := fun w =>
  decidable_of_iff (w ≠ [] ∧ w.all (!isBlank ·) = true)
    ⟨fun h => ⟨h.1, by simpa using h.2⟩, fun h => ⟨h.1, by simpa using h.2⟩⟩

instance : DecidablePred AllBlank := fun s =>
  decidable_of_iff (s.all isBlank = true) List.all_eq_true

instance : DecidablePred EndsWord := fun s =>
  decidable_of_iff (s.head?.all isBlank = true) (by cases s <;> simp [EndsWord])

theorem words_append_of_allBlank (h : AllBlank gap) (s : List Char) :
    words (gap ++ s) = words s := by
  induction gap with
  | nil => rfl
  | cons c gap ih =>
    obtain ⟨hc, hgap⟩ := List.forall_mem_cons.1 h
    rw [List.cons_append, words, if_pos hc, ih hgap]

theorem words_append_of_isWord (hw : IsWord w) (hrest : EndsWord rest) :
    words (w ++ rest) = w :: words rest := by
  obtain ⟨hne, hinked⟩ := hw
  induction w with
  | nil => exact absurd rfl hne
  | cons c w ih =>
    obtain ⟨hc, hw⟩ := List.forall_mem_cons.1 hinked
    rw [List.cons_append, words, if_neg (Bool.eq_false_iff.1 hc)]
    -- Whether the word goes on after `c` is told by the character that follows.
    cases w with
    | nil =>
      have hlast : (rest.head?.map isBlank).getD true = true := by
        cases hhead : rest.head? with
        | none => rfl
        | some d => exact hrest d hhead
      rw [List.nil_append, if_pos hlast]
    | cons d w =>
      have hmore : ((d :: w ++ rest).head?.map isBlank).getD true = false :=
        hw d List.mem_cons_self
      rw [if_neg (Bool.eq_false_iff.1 hmore), ih (List.cons_ne_nil d w) hw]

theorem words_of_allBlank (h : AllBlank s) : words s = [] := by
  rw [← List.append_nil s, words_append_of_allBlank h]
  rfl

/-- What is not blank at the start of a text, and the rest. -/
theorem exists_endsWord (s : List Char) :
    ∃ w rest, s = w ++ rest ∧ (∀ c ∈ w, isBlank c = false) ∧ EndsWord rest := by
  refine ⟨s.takeWhile (!isBlank ·), s.dropWhile (!isBlank ·),
    List.takeWhile_append_dropWhile.symm, fun c hc => ?_, fun c hc => ?_⟩
  · simpa using List.mem_takeWhile_imp hc
  · have hhead := List.head?_dropWhile_not (!isBlank ·) s
    rw [Option.mem_def.1 hc] at hhead
    simpa using hhead

/-- A text that is not all blank starts with a word, after some blanks. -/
theorem exists_isWord (h : ¬AllBlank s) : ∃ gap w rest,
    s = gap ++ (w ++ rest) ∧ AllBlank gap ∧ IsWord w ∧ EndsWord rest := by
  have hs : s = s.takeWhile isBlank ++ s.dropWhile isBlank :=
    List.takeWhile_append_dropWhile.symm
  cases hdrop : s.dropWhile isBlank with
  | nil => exact absurd (List.dropWhile_eq_nil_iff.1 hdrop) h
  | cons c t =>
    have hc : isBlank c = false := by
      have hhead := List.head?_dropWhile_not isBlank s
      rwa [hdrop] at hhead
    obtain ⟨w, rest, rfl, hw, hrest⟩ := exists_endsWord t
    rw [hdrop] at hs
    exact ⟨_, c :: w, rest, hs, fun c => List.mem_takeWhile_imp,
      ⟨List.cons_ne_nil c w, List.forall_mem_cons.2 ⟨hc, hw⟩⟩, hrest⟩

theorem words_append (hgap : AllBlank gap) (hw : IsWord w) (hrest : EndsWord rest) :
    words (gap ++ (w ++ rest)) = w :: words rest := by
  rw [words_append_of_allBlank hgap, words_append_of_isWord hw hrest]

/-- The first word of a text, and those of the rest. -/
theorem words_eq_cons_iff : words s = w :: ws ↔ ∃ gap rest,
    s = gap ++ (w ++ rest) ∧ AllBlank gap ∧ IsWord w ∧ EndsWord rest ∧ words rest = ws := by
  constructor
  · intro h
    have hinked : ¬AllBlank s := fun hblank => by
      rw [words_of_allBlank hblank] at h
      cases h
    obtain ⟨gap, w', rest, rfl, hgap, hw, hrest⟩ := exists_isWord hinked
    rw [words_append hgap hw hrest] at h
    obtain ⟨rfl, hws⟩ := List.cons.inj h
    exact ⟨gap, rest, rfl, hgap, hw, hrest, hws⟩
  · rintro ⟨gap, rest, rfl, hgap, hw, hrest, rfl⟩
    exact words_append hgap hw hrest

/-- A blank at the end of a text belongs to no word. -/
theorem words_concat (hc : isBlank c = true) (s : List Char) : words (s ++ [c]) = words s := by
  have hlast : AllBlank [c] := List.forall_mem_singleton.2 hc
  induction s with
  | nil => exact words_of_allBlank hlast
  | cons d s ih =>
    have hhead : (((s ++ [c]).head?).map isBlank).getD true = (s.head?.map isBlank).getD true := by
      cases s with
      | nil => exact hc
      | cons e s => rfl
    rw [List.cons_append, words, words, hhead, ih]

/-! ## Numbers -/

theorem isBlank_of_isDigit (h : c.isDigit = true) : isBlank c = false := by
  rw [Char.isDigit, Bool.and_eq_true, decide_eq_true_eq, decide_eq_true_eq] at h
  obtain ⟨hlow, hhigh⟩ : 48 ≤ c.toNat ∧ c.toNat ≤ 57 := h
  simp only [isBlank, Bool.or_eq_false_iff, Bool.and_eq_false_iff, decide_eq_false_iff_not,
    beq_eq_false_iff_ne]
  omega

theorem Spells.isWord {n : Nat} (h : Spells s n) : IsWord s := by
  obtain ⟨ds, hs, hne, hdigits, -⟩ := h
  have hinked : ∀ c ∈ ds, isBlank c = false := fun c hc => isBlank_of_isDigit (hdigits c hc)
  rcases hs with rfl | rfl
  · exact ⟨hne, hinked⟩
  · exact ⟨List.cons_ne_nil _ _, List.forall_mem_cons.2 ⟨rfl, hinked⟩⟩

/-! ## The second word -/

/-- The second word of a text: there are blanks in front of it and a word in front of these. -/
def IsSecondWord (s w : List Char) : Prop :=
  ∃ lead first gap rest, s = lead ++ (first ++ (gap ++ (w ++ rest))) ∧ AllBlank lead ∧
    IsWord first ∧ gap ≠ [] ∧ AllBlank gap ∧ IsWord w ∧ EndsWord rest

theorem endsWord_append (hne : gap ≠ []) (hgap : AllBlank gap) (s : List Char) :
    EndsWord (gap ++ s) := by
  intro d hd
  obtain ⟨c, t, rfl⟩ := List.exists_cons_of_ne_nil hne
  cases hd
  exact hgap _ List.mem_cons_self

theorem IsWord.not_endsWord (hw : IsWord w) (rest : List Char) : ¬EndsWord (w ++ rest) := by
  intro hends
  obtain ⟨c, t, rfl⟩ := List.exists_cons_of_ne_nil hw.ne_nil
  exact absurd (hends c rfl) (Bool.eq_false_iff.1 (hw.inked c List.mem_cons_self))

theorem getElem?_words_iff : (words s)[1]? = some w ↔ IsSecondWord s w := by
  constructor
  · intro h
    obtain ⟨first, ws, hs⟩ : ∃ first ws, words s = first :: w :: ws := by
      match hs : words s with
      | [] | [_] =>
        rw [hs] at h
        cases h
      | first :: second :: ws =>
        rw [hs] at h
        cases h
        exact ⟨first, ws, rfl⟩
    obtain ⟨lead, t, rfl, hlead, hfirst, hends, ht⟩ := words_eq_cons_iff.1 hs
    obtain ⟨gap, rest, rfl, hgap, hw, hrest, -⟩ := words_eq_cons_iff.1 ht
    have hne : gap ≠ [] := by
      rintro rfl
      exact hw.not_endsWord rest hends
    exact ⟨lead, first, gap, rest, rfl, hlead, hfirst, hne, hgap, hw, hrest⟩
  · rintro ⟨lead, first, gap, rest, rfl, hlead, hfirst, hne, hgap, hw, hrest⟩
    rw [words_append hlead hfirst (endsWord_append hne hgap _), words_append hgap hw hrest]
    rfl

end Upkeep.Text
