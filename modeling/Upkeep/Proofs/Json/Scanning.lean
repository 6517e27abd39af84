import Mathlib.Tactic.IntervalCases
import Upkeep.Json.Printer
import Upkeep.Json.Tree
import Upkeep.Proofs.Text.Digits

/-!
# Scanning parts of a text

Scanning a text is scanning its parts in turn, each from the mode that the one before has led to.
`Takes` says what a part completes and where it leads.

**Ends.** What is scanned on its own is scanned alike with a mark after it (`takes_mark`), since no
token that could go on goes on with a mark.

**Texts.** A printed text is scanned as the pieces it is escaped by, and they spell it
(`spelled?_pieces`).

**Numbers.** Digits are put to a part of the numeral one by one (`Collects.takes`), and every number
begins with its sign and the digits before the point (`takes_signed`).
-/

namespace Upkeep.Json

namespace Token

/-- From one mode to another some characters complete some tokens. -/
inductive Takes : Mode → List Char → List Token → Mode → Prop where
  | nil (m : Mode) : Takes m [] [] m
  | cons {m m' m'' : Mode} {c : Char} {s : List Char} {ts us : List Token}
      (first : step m c = some (ts, m')) (rest : Takes m' s us m'') :
      Takes m (c :: s) (ts ++ us) m''

variable {m m' m'' : Mode} {c : Char} {s s' : List Char} {ts us : List Token} {t : Token}

theorem Takes.append (h : Takes m s ts m') (h' : Takes m' s' us m'') :
    Takes m (s ++ s') (ts ++ us) m'' := by
  induction h with
  | nil => exact h'
  | cons first _ ih =>
    rw [List.append_assoc]
    exact .cons first (ih h')

theorem takes_char (h : step m c = some (ts, m')) : Takes m [c] ts m' := by
  rw [← List.append_nil ts]
  exact .cons h (.nil m')

theorem takes_silent (h : step m c = some ([], m')) (rest : Takes m' s us m'') :
    Takes m (c :: s) us m'' := .cons h rest

theorem takes_token (h : step m c = some ([t], m')) (rest : Takes m' s us m'') :
    Takes m (c :: s) (t :: us) m'' := .cons h rest

theorem Takes.scanFrom (h : Takes m s ts m') : scanFrom m s = (finish m').map (ts ++ ·) := by
  induction h with
  | nil m => simp [Token.scanFrom]
  | cons first _ ih => simp [Token.scanFrom, first, ih, Option.map_eq_bind, Option.bind_assoc]

theorem exists_takes_of_scanFrom (h : scanFrom m s = some ts) :
    ∃ us vs m', Takes m s us m' ∧ finish m' = some vs ∧ ts = us ++ vs := by
  induction s generalizing m ts with
  | nil => exact ⟨[], ts, m, .nil m, h, rfl⟩
  | cons c s ih =>
    simp only [scanFrom, Option.bind_eq_bind, Option.bind_eq_some_iff] at h
    obtain ⟨⟨first, m'⟩, hstep, rest, hrest, hts⟩ := h
    obtain ⟨us, vs, m'', htakes, hfinish, rfl⟩ := ih hrest
    refine ⟨first ++ us, vs, m'', .cons hstep htakes, hfinish, ?_⟩
    rw [List.append_assoc]
    exact (Option.some.inj hts).symm

/-! ## The ends of tokens -/

/-- A character that is a token of its own and belongs to no other. -/
def mark? : Char → Option Token
  | ',' => some .comma
  | ':' => some .colon
  | ']' => some .closeArray
  | '\x7d' => some .closeObject
  | _ => none

/-- What may end may be followed by a mark. -/
theorem step_mark (hfinish : finish m = some ts) (hmark : mark? c = some t) :
    step m c = some (ts ++ [t], .between) := by
  have hnumber {stage : Stage} {n : Numeral} (h : finish (.number stage n) = some ts)
      (hstart : start c = some ([t], .between)) (hdigit : decimal? c = none) (hpoint : c ≠ '.')
      (he : c ≠ 'e') (hE : c ≠ 'E') : numberStep stage n c = some (ts ++ [t], .between) := by
    cases stage <;> simp_all [finish, numberStep] <;> exact h ▸ rfl
  unfold mark? at hmark
  split at hmark <;> cases hmark <;>
    · cases m with
      | between =>
        cases hfinish
        rfl
      | number stage n => exact hnumber hfinish rfl rfl (by decide) (by decide) (by decide)
      | _ => cases hfinish

theorem takes_mark (h : scan s = some ts) (hmark : mark? c = some t) :
    Takes .between (s ++ [c]) (ts ++ [t]) .between := by
  obtain ⟨us, vs, m, htakes, hfinish, rfl⟩ := exists_takes_of_scanFrom h
  rw [List.append_assoc]
  exact htakes.append (takes_char (step_mark hfinish hmark))

end Token

/-! ## Texts -/

/-- The piece that a character is written as. -/
def piece (c : Char) : Piece :=
  if c.toNat < 0x20 && c ∉ ['\x08', '\x0c', '\n', '\r', '\t'] then .unit c.toNat else .char c

/-- The pieces that a text is written as. -/
def pieces (s : String) : List Piece := s.toList.map piece

open Token

theorem hex?_hexChar (n : Nat) : hex? (hexChar n) = some (n % 16) := by
  have hall : ∀ k < 16, hex? (Nat.digitChar k) = some k := by decide
  exact hall (n % 16) (Nat.mod_lt n (by decide))

theorem takes_escapeChar (ps : List Piece) (c : Char) :
    Takes (.text ps) (escapeChar c) [] (.text (piece c :: ps)) := by
  have hnamed {d : Char} (hstep : step (.escape ps) d = some ([], .text (.char c :: ps))) :
      Takes (.text ps) ['\\', d] [] (.text (.char c :: ps)) :=
    takes_silent rfl (takes_char hstep)
  unfold escapeChar
  split
  · exact hnamed rfl
  · exact hnamed rfl
  · exact hnamed rfl
  · exact hnamed rfl
  · exact hnamed rfl
  · exact hnamed rfl
  · exact hnamed rfl
  · rename_i hquote hslash h08 h0c hn hr ht
    have hcode {ps : List Piece} {v k n : Nat} :
        step (.code ps v (k + 2)) (hexChar n) = some ([], .code ps (16 * v + n % 16) (k + 1)) := by
      simp [step, hex?_hexChar]
    split
    · rename_i hlt
      have hpiece : piece c = .unit c.toNat := by
        simp only [piece, hlt, decide_true, Bool.true_and]
        simp only [List.mem_cons, List.not_mem_nil, or_false, not_or]
        rw [if_pos (decide_eq_true ⟨h08, h0c, hn, hr, ht⟩)]
      have hlast : step (.code ps (16 * (16 * (16 * 0 + 0) + 0) + c.toNat / 16 % 16) 1)
          (hexChar c.toNat) = some ([], .text (.unit c.toNat :: ps)) := by
        have hvalue : 16 * (c.toNat / 16 % 16) + c.toNat % 16 = c.toNat := by omega
        simp [step, hex?_hexChar, hvalue]
      rw [hpiece]
      exact takes_silent rfl <| takes_silent rfl <| takes_silent rfl <| takes_silent rfl <|
        takes_silent hcode (takes_char hlast)
    · rename_i hge
      have hpiece : piece c = .char c := by simp [piece, hge]
      have hstep : step (.text ps) c = some ([], .text (.char c :: ps)) := by
        simp only [step]
        rw [if_neg hquote, if_neg hslash, if_neg hge]
      rw [hpiece]
      exact takes_char hstep

theorem takes_text (ps : List Piece) (s : List Char) :
    Takes (.text ps) (s.flatMap escapeChar) [] (.text ((s.map piece).reverse ++ ps)) := by
  induction s generalizing ps with
  | nil => exact .nil _
  | cons c s ih =>
    have hall := (takes_escapeChar ps c).append (ih (piece c :: ps))
    simpa using hall

theorem takes_renderString (s : String) :
    Takes .between (renderString s) [.text (pieces s)] .between := by
  have hopen : Takes .between ['"'] [] (.text []) := takes_char rfl
  have hclose : Takes (.text ((s.toList.map piece).reverse ++ [])) ['"'] [.text (pieces s)]
      .between := by
    refine takes_char ?_
    simp [step, pieces]
  exact (hopen.append (takes_text [] s.toList)).append hclose

/-- A unit that is no surrogate is a character of its own. -/
theorem spelled?_unit {u : Nat} (h : u.isValidChar) (ps : List Piece) :
    Tree.spelled? (.unit u :: ps) = (Char.ofNat u :: ·) <$> Tree.spelled? ps := by
  have hhigh : ¬ (0xD800 ≤ u ∧ u < 0xDC00) := by unfold Nat.isValidChar at h; omega
  have hlow : ¬ (0xDC00 ≤ u ∧ u < 0xE000) := by unfold Nat.isValidChar at h; omega
  have hany : ¬ (0xD800 ≤ u ∧ u < 0xE000) := by unfold Nat.isValidChar at h; omega
  cases ps with
  | nil => simp [Tree.spelled?, hany]
  | cons q ps =>
    cases q with
    | char c => simp [Tree.spelled?, hany]
    | unit v => simp [Tree.spelled?, hhigh, hlow]

/-- The pieces of a text spell it. -/
theorem spelled?_pieces (s : List Char) : Tree.spelled? (s.map piece) = some s := by
  induction s with
  | nil => rfl
  | cons c s ih =>
    rw [List.map_cons, piece]
    split
    · rename_i hunit
      have hlt : c.toNat < 0x20 := of_decide_eq_true (Bool.and_eq_true _ _ ▸ hunit).1
      rw [spelled?_unit (.inl (by omega)), ih, Char.ofNat_toNat]
      rfl
    · rw [Tree.spelled?, ih]
      rfl

theorem string?_pieces (s : String) : Tree.string? (pieces s) = some s := by
  rw [Tree.string?, pieces, spelled?_pieces]
  simp

/-! ## Digits -/

/-- The values of digits. -/
def digitsOf (s : List Char) : List Nat := s.map fun c => c.toNat - '0'.toNat

/-- The values of the digits of a number. -/
def digitValues (n : Nat) : List Nat := digitsOf (Nat.toDigits 10 n)

theorem ofDigits_digitValues (n : Nat) : Numeral.ofDigits (digitValues n) = n := by
  rw [Numeral.ofDigits, digitValues, digitsOf, List.foldl_map, ← Nat.ofDigitChars_eq_foldl,
    Nat.ofDigitChars_ten_toDigits]

/-- At a stage digits are put to the others of a part of the numeral, the newest first. -/
structure Collects (stage : Stage) (put : Numeral → List Nat → Numeral) : Prop where
  nil (n : Numeral) : put n [] = n
  append (n : Numeral) (d : Nat) (ds : List Nat) : put (put n [d]) ds = put n (ds ++ [d])
  push (n : Numeral) (c : Char) (d : Nat) (h : decimal? c = some d) :
    numberStep stage n c = some ([], .number stage (put n [d]))

theorem collects_whole : Collects .whole fun n ds => { n with whole := ds ++ n.whole } where
  nil _ := rfl
  append n d ds := by simp
  push n c d h := by simp only [numberStep, h]; rfl

theorem collects_fraction :
    Collects .fraction fun n ds => { n with fraction := ds ++ n.fraction } where
  nil _ := rfl
  append n d ds := by simp
  push n c d h := by simp only [numberStep, h]; rfl

theorem collects_exponent :
    Collects .exponent fun n ds => { n with exponent := ds ++ n.exponent } where
  nil _ := rfl
  append n d ds := by simp
  push n c d h := by simp only [numberStep, h]; rfl

section Digits

variable {m : Mode} {stage : Stage} {put : Numeral → List Nat → Numeral} {n : Numeral} {c : Char}
  {s : List Char}

theorem Collects.takes (hput : Collects stage put) (h : ∀ c ∈ s, c.isDigit = true) (n : Numeral) :
    Takes (.number stage n) s [] (.number stage (put n (digitsOf s).reverse)) := by
  induction s generalizing n with
  | nil =>
    show Takes _ _ _ (.number stage (put n []))
    rw [hput.nil]
    exact .nil _
  | cons c s ih =>
    obtain ⟨hc, hs⟩ := List.forall_mem_cons.1 h
    have hrest := ih hs (put n [c.toNat - '0'.toNat])
    rw [hput.append, ← List.reverse_cons] at hrest
    exact takes_silent (hput.push n c _ (Text.digit?_of_isDigit hc)) hrest

/-- The first digit may be collected otherwise than those after it. -/
theorem Collects.takes_cons (hput : Collects stage put)
    (hfirst : step m c = some ([], .number stage (put n [c.toNat - '0'.toNat])))
    (h : ∀ c ∈ s, c.isDigit = true) :
    Takes m (c :: s) [] (.number stage (put n (digitsOf (c :: s)).reverse)) := by
  have hall : (digitsOf (c :: s)).reverse = (digitsOf s).reverse ++ [c.toNat - '0'.toNat] := by
    simp [digitsOf]
  rw [hall, ← hput.append]
  exact takes_silent hfirst (hput.takes h _)

end Digits

/-- The digits before the point: a zero, or digits that do not begin with one. -/
def IsWhole (s : List Char) : Prop :=
  s = ['0'] ∨ ∃ k r, s = Nat.digitChar k :: r ∧ 0 < k ∧ k < 10 ∧ ∀ c ∈ r, c.isDigit = true

theorem isWhole_toDigits (n : Nat) : IsWhole (Nat.toDigits 10 n) := by
  by_cases hzero : n = 0
  · exact .inl (hzero ▸ rfl)
  · obtain ⟨k, r, hdigits, hpos, hlt⟩ := Text.toDigits_eq_cons hzero
    refine .inr ⟨k, r, hdigits, hpos, hlt, fun c hc => ?_⟩
    exact Text.isDigit_of_mem_toDigits (hdigits ▸ List.mem_cons_of_mem _ hc)

/-- The digits before the point are scanned where a number begins. -/
theorem takes_whole {m : Mode} {q : Numeral} {s : List Char}
    (hbegin : ∀ k < 10, step m (Nat.digitChar k) =
      some ([], .number (if k = 0 then .zero else .whole) { q with whole := [k] }))
    (hs : IsWhole s) :
    ∃ stage, Takes m s [] (.number stage { q with whole := (digitsOf s).reverse }) ∧
      (stage = .zero ∨ stage = .whole) := by
  rcases hs with rfl | ⟨k, r, rfl, hpos, hlt, hr⟩
  · exact ⟨.zero, takes_char (hbegin 0 (by decide)), .inl rfl⟩
  · have hfirst : step m (Nat.digitChar k) = some ([], .number .whole
        { q with whole := [(Nat.digitChar k).toNat - '0'.toNat] }) := by
      have hvalue : (Nat.digitChar k).toNat - '0'.toNat = k :=
        Nat.toNat_digitChar_sub_48_of_lt_ten hlt
      rw [hbegin k hlt, if_neg (Nat.pos_iff_ne_zero.1 hpos), hvalue]
    have htakes := collects_whole.takes_cons (n := { q with whole := [] }) hfirst hr
    exact ⟨.whole, by simpa only [List.append_nil] using htakes, .inr rfl⟩

/-- A number begins with its sign and the digits before the point. -/
theorem takes_signed (neg : Bool) {s : List Char} (hs : IsWhole s) :
    ∃ stage, Takes .between ((if neg then ['-'] else []) ++ s) []
        (.number stage { negative := neg, whole := (digitsOf s).reverse }) ∧
      (stage = .zero ∨ stage = .whole) := by
  cases neg with
  | true =>
    obtain ⟨stage, htakes, hstage⟩ := takes_whole (m := .number .sign { negative := true })
      (q := { negative := true }) (fun k hk => by interval_cases k <;> rfl) hs
    exact ⟨stage, takes_silent rfl htakes, hstage⟩
  | false =>
    exact takes_whole (m := .between) (q := {}) (fun k hk => by interval_cases k <;> rfl) hs

/-! ## Whole numbers -/

/-- The digits of a whole number. -/
def wholeNumeral (i : Int) : Numeral := { negative := i < 0, whole := digitValues i.natAbs }

theorem number?_wholeNumeral {i : Int} (fits : FitsWord i) :
    (wholeNumeral i).number? = some (.whole i fits) := by
  have hvalue : (if (wholeNumeral i).negative
      then -(Numeral.ofDigits (wholeNumeral i).whole : Int)
      else Numeral.ofDigits (wholeNumeral i).whole) = i := by
    simp only [wholeNumeral, ofDigits_digitValues, decide_eq_true_eq]
    split <;> omega
  have hzero : ¬ ((wholeNumeral i).negative = true ∧ i = 0) := by
    simp only [wholeNumeral, decide_eq_true_eq]
    omega
  simp only [Numeral.number?, hvalue]
  rw [dif_pos ⟨rfl, rfl, fits, hzero⟩]

/-- A printed whole number is one token. -/
theorem scan_renderWhole (i : Int) (fits : FitsWord i) :
    scan (Number.render (.whole i fits)) = some [.number (wholeNumeral i)] := by
  have hrender : Number.render (.whole i fits) =
      (if decide (i < 0) then ['-'] else []) ++ Nat.toDigits 10 i.natAbs := by
    rw [Number.render, digitChars]
    by_cases hneg : i < 0 <;> simp [hneg]
  obtain ⟨stage, htakes, hstage⟩ := takes_signed (i < 0) (isWhole_toDigits i.natAbs)
  rw [scan, hrender, htakes.scanFrom]
  rcases hstage with rfl | rfl <;> simp [finish, ofDigits, wholeNumeral, digitValues]

end Upkeep.Json
