import Mathlib.Data.List.Forall2
import Upkeep.Proofs.Json.Documents

/-!
# String literals

A text may be spelled in many ways: each character stands for itself, has an escape of one letter,
or is given by its code, which for the characters beyond the first plane is a pair of surrogates.
`Writes` is this grammar, and what is read as a text is exactly a literal of the grammar between
white space (`parse_str_iff`).

**Scanning.** The scanner keeps a code apart from the character that it stands for, so a literal is
first matched with its pieces (`scanFrom_text`), and pieces with characters afterwards
(`exists_writes_of_spelled?`).

**White space.** Before and after a literal it gives no token (`isSpace_of_scanFrom`), and one more
character of it at the end of any document changes nothing (`scanFrom_concat`).

**Nothing else.** What begins with another token is no text, and after a text there is nothing more
(`build_eq_text_iff`).
-/

namespace Upkeep.Json

open Token

/-! ## The grammar -/

/-- A digit in base sixteen, in either case. -/
def IsHexDigit (c : Char) (v : Nat) : Prop :=
  v < 16 ∧ (c = Nat.digitChar v ∨ c = (Nat.digitChar v).toUpper)

/-- Four digits in base sixteen. -/
inductive IsCode : List Char → Nat → Prop where
  | mk {c₁ c₂ c₃ c₄ : Char} {d₁ d₂ d₃ d₄ : Nat} (h₁ : IsHexDigit c₁ d₁) (h₂ : IsHexDigit c₂ d₂)
      (h₃ : IsHexDigit c₃ d₃) (h₄ : IsHexDigit c₄ d₄) :
      IsCode [c₁, c₂, c₃, c₄] (16 * (16 * (16 * d₁ + d₂) + d₃) + d₄)

/-- The escapes of one letter. -/
def escapes : List (Char × Char) :=
  [('"', '"'), ('\\', '\\'), ('/', '/'), ('b', '\x08'), ('f', '\x0c'), ('n', '\n'), ('r', '\r'),
    ('t', '\t')]

/-- What stands inside a literal for one character of the text. -/
inductive Writes : List Char → Char → Prop where
  | plain {c : Char} (quote : c ≠ '"') (slash : c ≠ '\\') (printed : 0x20 ≤ c.toNat) :
      Writes [c] c
  | named {e c : Char} (h : (e, c) ∈ escapes) : Writes ['\\', e] c
  | code {ds : List Char} {c : Char} (h : IsCode ds c.toNat) : Writes ('\\' :: 'u' :: ds) c
  | pair {ds es : List Char} {hi lo : Nat} {c : Char} (high : IsCode ds hi) (low : IsCode es lo)
      (le_high : 0xD800 ≤ hi) (high_lt : hi < 0xDC00) (le_low : 0xDC00 ≤ lo) (low_lt : lo < 0xE000)
      (h : c.toNat = 0x10000 + 0x400 * (hi - 0xD800) + (lo - 0xDC00)) :
      Writes ('\\' :: 'u' :: ds ++ '\\' :: 'u' :: es) c

/-- A literal: between quotes there is what stands for the characters of the text, in order. -/
def IsLiteral (s : List Char) (v : String) : Prop :=
  ∃ parts, List.Forall₂ Writes parts v.toList ∧ s = '"' :: parts.flatten ++ ['"']

/-- Only white space. -/
def IsSpace (s : List Char) : Prop := ∀ c ∈ s, c ∈ [' ', '\n', '\t', '\r']

/-- A literal between white space. -/
def IsTextDocument (s v : String) : Prop :=
  ∃ before literal after, IsSpace before ∧ IsLiteral literal v ∧ IsSpace after ∧
    s.toList = before ++ literal ++ after

/-! ## Pieces -/

/-- What stands inside a literal for one piece. -/
inductive WritesPiece : List Char → Piece → Prop where
  | plain {c : Char} (quote : c ≠ '"') (slash : c ≠ '\\') (printed : 0x20 ≤ c.toNat) :
      WritesPiece [c] (.char c)
  | named {e c : Char} (h : (e, c) ∈ escapes) : WritesPiece ['\\', e] (.char c)
  | code {ds : List Char} {n : Nat} (h : IsCode ds n) : WritesPiece ('\\' :: 'u' :: ds) (.unit n)

variable {m : Mode} {c e : Char} {s r ds : List Char} {n v : Nat} {ts us : List Token}
  {ps : List Piece} {parts : List (List Char)}

theorem toNat_lt_of_hex? (h : hex? c = some v) : c.toNat < 128 := by
  have hle {d : Char} (hd : d.toNat < 128) (hc : c ≤ d) : c.toNat < 128 := by
    rw [Char.le_def, UInt32.le_iff_toNat_le] at hc
    exact Nat.lt_of_le_of_lt hc hd
  unfold hex? at h
  simp only [Bool.and_eq_true, decide_eq_true_eq] at h
  split at h
  · rename_i hc
    exact hle (by decide) hc.2
  · split at h
    · rename_i hc
      exact hle (by decide) hc.2
    · split at h
      · rename_i hc
        exact hle (by decide) hc.2
      · cases h

theorem hex?_eq_some_iff : hex? c = some v ↔ IsHexDigit c v := by
  constructor
  · intro h
    have hall : ∀ k < 128, (hex? (Char.ofNat k)).all fun v =>
        v < 16 && (Char.ofNat k = Nat.digitChar v || Char.ofNat k = (Nat.digitChar v).toUpper) := by
      decide
    have hdigit := hall c.toNat (toNat_lt_of_hex? h)
    rw [Char.ofNat_toNat, h] at hdigit
    simpa [IsHexDigit] using hdigit
  · rintro ⟨hv, h⟩
    have hall : ∀ k < 16, hex? (Nat.digitChar k) = some k ∧
        hex? (Nat.digitChar k).toUpper = some k := by decide
    rcases h with rfl | rfl
    · exact (hall v hv).1
    · exact (hall v hv).2

theorem named?_eq_some_iff {d : Char} : named? e = some d ↔ (e, d) ∈ escapes := by
  constructor
  · intro h
    unfold named? at h
    split at h <;> cases h <;> simp [escapes]
  · intro h
    simp only [escapes, List.mem_cons, Prod.mk.injEq, List.not_mem_nil, or_false] at h
    rcases h with h | h | h | h | h | h | h | h <;> obtain ⟨rfl, rfl⟩ := h <;> rfl

/-! ## Scanning a literal -/

theorem scanFrom_cons_eq_some_iff : scanFrom m (c :: s) = some ts ↔
    ∃ us m' vs, step m c = some (us, m') ∧ scanFrom m' s = some vs ∧ ts = us ++ vs := by
  simp only [scanFrom, Option.bind_eq_bind, Option.bind_eq_some_iff, Option.pure_def,
    Option.some.injEq, Prod.exists]
  constructor
  · rintro ⟨us, m', hstep, vs, hrest, rfl⟩
    exact ⟨us, m', vs, hstep, hrest, rfl⟩
  · rintro ⟨us, m', vs, hstep, hrest, rfl⟩
    exact ⟨us, m', hstep, vs, hrest, rfl⟩

theorem scanFrom_digit (h : scanFrom (.code ps v n) s = some ts) :
    ∃ c d r, s = c :: r ∧ IsHexDigit c d ∧
      scanFrom (if n ≤ 1 then .text (.unit (16 * v + d) :: ps) else .code ps (16 * v + d) (n - 1)) r
        = some ts := by
  cases s with
  | nil => cases h
  | cons c s =>
    obtain ⟨us, m', vs, hstep, hrest, rfl⟩ := scanFrom_cons_eq_some_iff.1 h
    obtain ⟨d, hd, hmode⟩ := Option.map_eq_some_iff.1 hstep
    cases hmode
    exact ⟨c, d, s, rfl, hex?_eq_some_iff.1 hd, hrest⟩

theorem scanFrom_code (h : scanFrom (.code ps 0 4) s = some ts) :
    ∃ ds u r, s = ds ++ r ∧ IsCode ds u ∧ scanFrom (.text (.unit u :: ps)) r = some ts := by
  obtain ⟨c₁, d₁, r, rfl, h₁, h⟩ := scanFrom_digit h
  obtain ⟨c₂, d₂, r, rfl, h₂, h⟩ := scanFrom_digit h
  obtain ⟨c₃, d₃, r, rfl, h₃, h⟩ := scanFrom_digit h
  obtain ⟨c₄, d₄, r, rfl, h₄, h⟩ := scanFrom_digit h
  rw [Nat.mul_zero, Nat.zero_add] at h
  exact ⟨[c₁, c₂, c₃, c₄], _, r, rfl, .mk h₁ h₂ h₃ h₄, h⟩

theorem takes_digit (ps : List Piece) (v n : Nat) {d : Nat} (h : IsHexDigit c d) :
    Takes (.code ps v n) [c] []
      (if n ≤ 1 then .text (.unit (16 * v + d) :: ps) else .code ps (16 * v + d) (n - 1)) := by
  refine takes_char ?_
  rw [step, hex?_eq_some_iff.2 h]
  rfl

theorem takes_code (h : IsCode ds n) : Takes (.code ps 0 4) ds [] (.text (.unit n :: ps)) := by
  obtain ⟨h₁, h₂, h₃, h₄⟩ := h
  have htakes := (takes_digit ps 0 4 h₁).append
    ((takes_digit ps _ 3 h₂).append ((takes_digit ps _ 2 h₃).append (takes_digit ps _ 1 h₄)))
  rw [Nat.mul_zero, Nat.zero_add] at htakes
  exact htakes

/-- What stands for a piece is scanned as this piece. -/
theorem WritesPiece.takes {p : Piece} (h : WritesPiece s p) (ps : List Piece) :
    Takes (.text ps) s [] (.text (p :: ps)) := by
  cases h with
  | plain quote slash printed =>
    refine takes_char ?_
    rw [step, if_neg quote, if_neg slash, if_neg (Nat.not_lt.2 printed)]
  | named h =>
    have hne : ∀ p ∈ escapes, p.1 ≠ 'u' := by decide
    refine takes_silent rfl (takes_char ?_)
    rw [step, if_neg (hne _ h), named?_eq_some_iff.2 h]
    rfl
  | code h => exact takes_silent rfl (takes_silent rfl (takes_code h))

theorem takes_pieces (h : List.Forall₂ WritesPiece parts ps) (before : List Piece) :
    Takes (.text before) parts.flatten [] (.text (ps.reverse ++ before)) := by
  induction h generalizing before with
  | nil => exact .nil _
  | cons hpart _ ih =>
    rw [List.reverse_cons, List.append_assoc]
    exact (hpart.takes before).append (ih _)

/-- A literal goes on with the quote that ends it, or with a piece. -/
theorem scanFrom_text_cases (h : scanFrom (.text ps) s = some ts) :
    (∃ r us, s = '"' :: r ∧ scanFrom .between r = some us ∧ ts = .text ps.reverse :: us) ∨
      ∃ part p r, WritesPiece part p ∧ part ≠ [] ∧ s = part ++ r ∧
        scanFrom (.text (p :: ps)) r = some ts := by
  cases s with
  | nil => cases h
  | cons c s =>
    obtain ⟨us, m', vs, hstep, hrest, rfl⟩ := scanFrom_cons_eq_some_iff.1 h
    rw [step] at hstep
    split at hstep
    · rename_i hquote
      cases hstep
      exact .inl ⟨s, vs, congrArg (· :: s) hquote, hrest, rfl⟩
    · rename_i hquote
      right
      split at hstep
      · rename_i hslash
        cases hstep
        subst hslash
        cases s with
        | nil => cases hrest
        | cons e s =>
          obtain ⟨us, m'', ws, hescape, hlater, rfl⟩ := scanFrom_cons_eq_some_iff.1 hrest
          rw [step] at hescape
          split at hescape
          · rename_i hcode
            cases hescape
            subst hcode
            obtain ⟨ds, u, r, rfl, hds, hscan⟩ := scanFrom_code hlater
            exact ⟨_, _, r, .code hds, List.cons_ne_nil _ _, rfl, hscan⟩
          · obtain ⟨d, hd, hmode⟩ := Option.map_eq_some_iff.1 hescape
            cases hmode
            exact ⟨_, _, s, .named (named?_eq_some_iff.1 hd), List.cons_ne_nil _ _, rfl, hlater⟩
      · rename_i hslash
        split at hstep
        · cases hstep
        · rename_i hprinted
          cases hstep
          exact ⟨[c], .char c, s, .plain hquote hslash (Nat.not_lt.1 hprinted),
            List.cons_ne_nil _ _, rfl, hrest⟩

/-- Inside a literal there are pieces up to the quote that ends it. -/
theorem scanFrom_text (h : scanFrom (.text ps) s = some ts) :
    ∃ parts qs r us, List.Forall₂ WritesPiece parts qs ∧ s = parts.flatten ++ '"' :: r ∧
      scanFrom .between r = some us ∧ ts = .text (ps.reverse ++ qs) :: us := by
  induction hlength : s.length using Nat.strong_induction_on generalizing s ps with
  | _ k ih =>
    rcases scanFrom_text_cases h with ⟨r, us, rfl, hrest, rfl⟩ | ⟨part, p, r, hp, hne, rfl, hrest⟩
    · exact ⟨[], [], r, us, .nil, rfl, hrest, by rw [List.append_nil]⟩
    · have hlt : r.length < k := by
        have hpos := List.length_pos_iff.2 hne
        rw [← hlength, List.length_append]
        omega
      obtain ⟨parts, qs, r', us, hparts, rfl, hus, rfl⟩ := ih _ hlt hrest rfl
      refine ⟨part :: parts, p :: qs, r', us, .cons hp hparts, ?_, hus, ?_⟩
      · rw [List.flatten_cons, List.append_assoc]
      · rw [List.reverse_cons, List.append_assoc, List.singleton_append]

/-! ## Pieces and characters -/

theorem IsCode.lt (h : IsCode ds n) : n < 0x10000 := by
  obtain ⟨⟨h₁, -⟩, ⟨h₂, -⟩, ⟨h₃, -⟩, ⟨h₄, -⟩⟩ := h
  omega

theorem toNat_ofNat (h : n.isValidChar) : (Char.ofNat n).toNat = n := by
  rw [Char.ofNat, dif_pos h]
  rfl

/-- What stands for pieces stands for the characters that they spell. -/
theorem exists_writes_of_spelled? {t : List Char} (h : List.Forall₂ WritesPiece parts ps)
    (hspelled : Tree.spelled? ps = some t) :
    ∃ parts', List.Forall₂ Writes parts' t ∧ parts'.flatten = parts.flatten := by
  have hone {part : List Char} {c : Char} {qs : List Piece} {parts : List (List Char)}
      {t : List Char} (hpart : Writes part c)
      (hqs : ∀ {t}, Tree.spelled? qs = some t →
        ∃ parts', List.Forall₂ Writes parts' t ∧ parts'.flatten = parts.flatten)
      (hspelled : (c :: ·) <$> Tree.spelled? qs = some t) :
      ∃ parts', List.Forall₂ Writes parts' t ∧ parts'.flatten = (part :: parts).flatten := by
    obtain ⟨t, ht, rfl⟩ := Option.map_eq_some_iff.1 hspelled
    obtain ⟨parts', hparts, hflatten⟩ := hqs ht
    exact ⟨part :: parts', .cons hpart hparts, by
      rw [List.flatten_cons, List.flatten_cons, hflatten]⟩
  have hunit {ds : List Char} {u : Nat} (hds : IsCode ds u) (hu : u.isValidChar) :
      Writes ('\\' :: 'u' :: ds) (Char.ofNat u) := .code (by rwa [toNat_ofNat hu])
  fun_induction Tree.spelled? ps generalizing parts t with
  | case1 =>
    cases h
    cases hspelled
    exact ⟨[], .nil, rfl⟩
  | case2 c ps ih =>
    obtain ⟨part, parts, hpart, hparts, rfl⟩ := List.forall₂_cons_right_iff.1 h
    refine hone ?_ (ih hparts) hspelled
    cases hpart with
    | plain quote slash printed => exact .plain quote slash printed
    | named h => exact .named h
  | case3 hi lo ps hhigh hlow ih =>
    obtain ⟨_, rest, high, hrest, rfl⟩ := List.forall₂_cons_right_iff.1 h
    obtain ⟨_, parts, low, hparts, rfl⟩ := List.forall₂_cons_right_iff.1 hrest
    cases high with
    | code high =>
      cases low with
      | code low =>
        simp only [Bool.and_eq_true, decide_eq_true_eq] at hhigh hlow
        have hchar := toNat_ofNat (n := 0x10000 + 0x400 * (hi - 0xD800) + (lo - 0xDC00))
          (.inr (by omega))
        have hpair := Writes.pair high low hhigh.1 hhigh.2 hlow.1 hlow.2 hchar
        obtain ⟨parts', hwrites, hflatten⟩ := hone hpair (ih hparts) hspelled
        refine ⟨parts', hwrites, ?_⟩
        rw [hflatten, List.flatten_cons, List.flatten_cons, List.flatten_cons, List.append_assoc]
  | case4 | case5 | case7 => cases hspelled
  | case6 hi lo ps hhigh hlow ih =>
    obtain ⟨_, parts, high, hparts, rfl⟩ := List.forall₂_cons_right_iff.1 h
    cases high with
    | code high =>
      have hlt := high.lt
      simp only [Bool.and_eq_true, decide_eq_true_eq] at hhigh hlow
      have hvalid : hi.isValidChar := by unfold Nat.isValidChar; omega
      exact hone (hunit high hvalid) (ih hparts) hspelled
  | case8 u ps hsingle hsurrogate ih =>
    obtain ⟨_, parts, hu, hparts, rfl⟩ := List.forall₂_cons_right_iff.1 h
    cases hu with
    | code hu =>
      have hlt := hu.lt
      simp only [Bool.and_eq_true, decide_eq_true_eq] at hsurrogate
      have hvalid : u.isValidChar := by unfold Nat.isValidChar; omega
      exact hone (hunit hu hvalid) (ih hparts) hspelled

/-- What stands for characters stands for pieces that spell them. -/
theorem exists_writesPiece_of_writes {t : List Char} (h : List.Forall₂ Writes parts t) :
    ∃ parts' ps, List.Forall₂ WritesPiece parts' ps ∧ parts'.flatten = parts.flatten ∧
      Tree.spelled? ps = some t := by
  induction h with
  | nil => exact ⟨[], [], .nil, rfl, rfl⟩
  | @cons part c parts t hpart _ ih =>
    obtain ⟨parts', ps, hpieces, hflatten, hspelled⟩ := ih
    cases hpart with
    | plain quote slash printed =>
      refine ⟨_ :: parts', _ :: ps, .cons (.plain quote slash printed) hpieces, ?_, ?_⟩
      · rw [List.flatten_cons, List.flatten_cons, hflatten]
      · rw [Tree.spelled?, hspelled]
        rfl
    | named h =>
      refine ⟨_ :: parts', _ :: ps, .cons (.named h) hpieces, ?_, ?_⟩
      · rw [List.flatten_cons, List.flatten_cons, hflatten]
      · rw [Tree.spelled?, hspelled]
        rfl
    | code h =>
      refine ⟨_ :: parts', _ :: ps, .cons (.code h) hpieces, ?_, ?_⟩
      · rw [List.flatten_cons, List.flatten_cons, hflatten]
      · have hc : c.toNat.isValidChar := c.valid
        rw [spelled?_unit hc, hspelled, Char.ofNat_toNat]
        rfl
    | @pair ds es hi lo _ high low le_high high_lt le_low low_lt h =>
      refine ⟨_ :: _ :: parts', _ :: _ :: ps, .cons (.code high) (.cons (.code low) hpieces), ?_,
        ?_⟩
      · simp [hflatten]
      · rw [Tree.spelled?, hspelled, ← h, Char.ofNat_toNat]
        simp [le_high, high_lt, le_low, low_lt]

/-! ## Between white space -/

theorem start_of_isSpace (h : c ∈ [' ', '\n', '\t', '\r']) : start c = some ([], .between) := by
  simp only [List.mem_cons, List.not_mem_nil, or_false] at h
  rcases h with rfl | rfl | rfl | rfl <;> rfl

theorem takes_space (h : IsSpace s) : Takes .between s [] .between := by
  induction s with
  | nil => exact .nil _
  | cons c s ih =>
    obtain ⟨hc, hs⟩ := List.forall_mem_cons.1 h
    exact takes_silent (start_of_isSpace hc) (ih hs)

/-- A number goes on, or is ended by the start of what follows. -/
def GoesOn (k : Numeral) (c : Char) (us : List Token) (m : Mode) : Prop :=
  (us = [] ∧ ∃ stage k, m = .number stage k) ∨ ∃ ws, us = ofDigits k :: ws ∧ start c = some (ws, m)

theorem goesOn_of_numberStep {stage : Stage} {k : Numeral}
    (h : numberStep stage k c = some (us, m)) : GoesOn k c us m := by
  have hon {stage : Stage} {k' : Numeral} (h : some ([], .number stage k') = some (us, m)) :
      GoesOn k c us m := by
    cases h
    exact .inl ⟨rfl, _, _, rfl⟩
  have hend (h : (start c).map (fun p => (ofDigits k :: p.1, p.2)) = some (us, m)) :
      GoesOn k c us m := by
    obtain ⟨p, hp, heq⟩ := Option.map_eq_some_iff.1 h
    cases heq
    exact .inr ⟨_, rfl, hp⟩
  have hmark {t? : Option (List Token × Mode)} {isMark : Bool} {k' : Numeral}
      (h : (if isMark then some ([], .number .mark k') else t?) = some (us, m))
      (hend : t? = some (us, m) → GoesOn k c us m) : GoesOn k c us m := by
    split at h
    · exact hon h
    · exact hend h
  unfold numberStep at h
  split at h
  case h_3 | h_8 | h_14 => cases h
  case h_1 | h_2 | h_5 | h_7 | h_9 | h_11 | h_13 | h_15 => exact hon h
  case h_4 | h_6 =>
    split at h
    · exact hon h
    · exact hmark h hend
  case h_10 => exact hmark h hend
  case h_12 =>
    split at h
    · exact hon h
    · split at h
      · exact hon h
      · cases h
  case h_16 => exact hend h

theorem scanFrom_number {stage : Stage} {k : Numeral} (h : scanFrom (.number stage k) s = some ts) :
    ∃ k' us, ts = .number k' :: us := by
  induction s generalizing stage k ts with
  | nil =>
    cases stage <;> cases h <;> exact ⟨_, _, rfl⟩
  | cons c s ih =>
    obtain ⟨us, m', vs, hstep, hrest, rfl⟩ := scanFrom_cons_eq_some_iff.1 h
    rcases goesOn_of_numberStep hstep with ⟨rfl, stage, k, rfl⟩ | ⟨ws, rfl, -⟩
    · exact ih hrest
    · exact ⟨_, _, rfl⟩

theorem scanFrom_word {w : List Char} {t : Token} (h : scanFrom (.word w t) s = some ts) :
    ∃ us, ts = t :: us := by
  induction s generalizing w ts with
  | nil => cases h
  | cons c s ih =>
    obtain ⟨us, m', vs, hstep, hrest, rfl⟩ := scanFrom_cons_eq_some_iff.1 h
    cases w with
    | nil => cases hstep
    | cons d w =>
      cases w with
      | nil =>
        rw [step] at hstep
        split at hstep <;> cases hstep
        exact ⟨_, rfl⟩
      | cons d' w =>
        simp only [step] at hstep
        split at hstep <;> cases hstep
        exact ih hrest

/-- No word that has begun goes on with white space. -/
def Closed : Mode → Prop
  | .word w _ => ∀ c ∈ w, c ∉ [' ', '\n', '\t', '\r']
  | _ => True

theorem closed_of_start (h : start c = some (us, m)) : Closed m := by
  unfold start at h
  split at h
  case h_9 | h_10 | h_11 =>
    cases h
    simp [Closed]
  case h_12 =>
    split at h
    · cases h
      trivial
    · split at h <;> cases h <;> trivial
  all_goals
    cases h
    trivial

theorem closed_of_step (hm : Closed m) (h : step m c = some (us, m')) : Closed m' := by
  cases m with
  | between => exact closed_of_start h
  | word w t =>
    cases w with
    | nil => cases h
    | cons d w =>
      cases w with
      | nil =>
        rw [step] at h
        split at h <;> cases h
        trivial
      | cons d' w =>
        simp only [step] at h
        split at h <;> cases h
        exact fun c hc => hm c (List.mem_cons_of_mem _ hc)
  | number stage k =>
    rcases goesOn_of_numberStep h with ⟨-, stage, k, rfl⟩ | ⟨ws, -, hstart⟩
    · trivial
    · exact closed_of_start hstart
  | text ps =>
    rw [step] at h
    split at h
    · cases h
      trivial
    · split at h
      · cases h
        trivial
      · split at h <;> cases h
        trivial
  | escape ps =>
    rw [step] at h
    split at h
    · cases h
      trivial
    · obtain ⟨d, -, heq⟩ := Option.map_eq_some_iff.1 h
      cases heq
      trivial
  | code ps v n =>
    obtain ⟨d, -, heq⟩ := Option.map_eq_some_iff.1 h
    rw [← (Prod.mk.inj heq).2]
    split <;> trivial

theorem scanFrom_space (hm : Closed m) (hc : c ∈ [' ', '\n', '\t', '\r']) :
    scanFrom m [c] = finish m := by
  cases m with
  | word w t =>
    cases w with
    | nil => rfl
    | cons d w =>
      have hne : c ≠ d := fun heq => hm d List.mem_cons_self (heq ▸ hc)
      cases w <;> simp [scanFrom, step, hne, finish]
  | number stage k =>
    simp only [List.mem_cons, List.not_mem_nil, or_false] at hc
    rcases hc with rfl | rfl | rfl | rfl <;> cases stage <;> rfl
  | _ =>
    simp only [List.mem_cons, List.not_mem_nil, or_false] at hc
    rcases hc with rfl | rfl | rfl | rfl <;> rfl

/-- White space at the end changes nothing. -/
theorem scanFrom_concat (hm : Closed m) (hc : c ∈ [' ', '\n', '\t', '\r']) :
    scanFrom m (s ++ [c]) = scanFrom m s := by
  induction s generalizing m with
  | nil => exact scanFrom_space hm hc
  | cons d s ih =>
    rw [List.cons_append, scanFrom, scanFrom]
    cases hstep : step m d with
    | none => rfl
    | some p => simp [ih (closed_of_step hm hstep)]

/-- Between tokens there is white space, the quote that begins a literal, or another token. -/
theorem scanFrom_between_cons (h : scanFrom .between (c :: s) = some ts) :
    (c ∈ [' ', '\n', '\t', '\r'] ∧ scanFrom .between s = some ts) ∨
      (c = '"' ∧ scanFrom (.text []) s = some ts) ∨
      ∃ t us, ts = t :: us ∧ ∀ ps, t ≠ .text ps := by
  obtain ⟨us, m', vs, hstep, hrest, rfl⟩ := scanFrom_cons_eq_some_iff.1 h
  have hstart : start c = some (us, m') := hstep
  have hnumber {stage : Stage} {k : Numeral} {ws : List Token}
      (h : scanFrom (.number stage k) s = some ws) :
      ∃ t us, [] ++ ws = t :: us ∧ ∀ ps, t ≠ .text ps := by
    obtain ⟨k', us, rfl⟩ := scanFrom_number h
    exact ⟨_, us, rfl, nofun⟩
  have hword {w : List Char} {t : Token} {ws : List Token}
      (h : scanFrom (.word w t) s = some ws) (ht : ∀ ps, t ≠ .text ps) :
      ∃ t us, [] ++ ws = t :: us ∧ ∀ ps, t ≠ .text ps := by
    obtain ⟨us, rfl⟩ := scanFrom_word h
    exact ⟨t, us, rfl, ht⟩
  unfold start at hstart
  split at hstart
  case h_1 | h_2 | h_3 | h_4 | h_5 | h_6 =>
    cases hstart
    exact .inr (.inr ⟨_, vs, rfl, nofun⟩)
  case h_7 =>
    cases hstart
    exact .inr (.inl ⟨rfl, hrest⟩)
  case h_8 =>
    cases hstart
    exact .inr (.inr (hnumber hrest))
  case h_9 | h_10 | h_11 =>
    cases hstart
    exact .inr (.inr (hword hrest nofun))
  case h_12 =>
    split at hstart
    · rename_i hspace
      cases hstart
      exact .inl ⟨by simpa [isSpace, or_assoc] using hspace, hrest⟩
    · split at hstart <;> cases hstart
      · exact .inr (.inr (hnumber hrest))
      · exact .inr (.inr (hnumber hrest))

theorem isSpace_of_scanFrom (h : scanFrom .between s = some []) : IsSpace s := by
  induction s with
  | nil => exact List.forall_mem_nil _
  | cons c s ih =>
    rcases scanFrom_between_cons h with ⟨hc, hs⟩ | ⟨-, hs⟩ | ⟨t, us, hts, -⟩
    · exact List.forall_mem_cons.2 ⟨hc, ih hs⟩
    · obtain ⟨_, _, _, _, -, -, -, hts⟩ := scanFrom_text hs
      cases hts
    · cases hts

/-- What gives a text first begins with white space and the quote. -/
theorem exists_of_scanFrom_text (h : scanFrom .between s = some (.text ps :: us)) :
    ∃ before r, IsSpace before ∧ s = before ++ '"' :: r ∧
      scanFrom (.text []) r = some (.text ps :: us) := by
  induction s with
  | nil => cases h
  | cons c s ih =>
    rcases scanFrom_between_cons h with ⟨hc, hs⟩ | ⟨rfl, hs⟩ | ⟨t, us, hts, ht⟩
    · obtain ⟨before, r, hbefore, rfl, hr⟩ := ih hs
      exact ⟨c :: before, r, List.forall_mem_cons.2 ⟨hc, hbefore⟩, rfl, hr⟩
    · exact ⟨[], s, List.forall_mem_nil _, rfl, hs⟩
    · cases hts
      exact absurd rfl (ht ps)

/-- One text is scanned from pieces between quotes, and white space around them. -/
theorem scan_eq_text_iff : scan s = some [.text ps] ↔
    ∃ before parts after, IsSpace before ∧ IsSpace after ∧ List.Forall₂ WritesPiece parts ps ∧
      s = before ++ ('"' :: parts.flatten ++ ['"']) ++ after := by
  constructor
  · intro h
    obtain ⟨before, r, hbefore, rfl, hr⟩ := exists_of_scanFrom_text h
    obtain ⟨parts, qs, after, us, hparts, rfl, hafter, heq⟩ := scanFrom_text hr
    cases heq
    exact ⟨before, parts, after, hbefore, isSpace_of_scanFrom hafter, hparts, by simp⟩
  · rintro ⟨before, parts, after, hbefore, hafter, hparts, rfl⟩
    have hclose : Takes (.text (ps.reverse ++ [])) ['"'] [.text ps] .between :=
      takes_char (by simp [step])
    have hliteral : Takes .between ('"' :: parts.flatten ++ ['"']) [.text ps] .between :=
      takes_silent rfl ((takes_pieces hparts []).append hclose)
    rw [scan, (((takes_space hbefore).append hliteral).append (takes_space hafter)).scanFrom]
    rfl

/-! ## Documents that are texts -/

namespace Tree

variable {p p' : Partial} {t : Token}

/-- A value has begun that is no text. -/
def Partial.IsOther : Partial → Prop
  | ⟨[], .value⟩ => False
  | ⟨[], .after (.text _)⟩ => False
  | _ => True

theorem isOther_of_begin? {stack : List Frame} {frame : Frame}
    (h : begin? (frame :: stack) t = some p) : p.IsOther := by
  cases t <;> cases h <;> trivial

theorem isOther_of_push (hp : p.IsOther) (h : push p t = some p') : p'.IsOther := by
  obtain ⟨stack, await⟩ := p
  cases await with
  | value =>
    cases stack with
    | nil => exact hp.elim
    | cons frame stack => exact isOther_of_begin? h
  | item =>
    have hbegin (h : begin? (.arr [] :: stack) t = some p') := isOther_of_begin? h
    cases t with
    | closeArray =>
      cases h
      cases stack <;> trivial
    | _ => exact hbegin h
  | firstKey | key | colon =>
    cases t <;> cases h <;> cases stack <;> trivial
  | after v =>
    cases stack with
    | nil => cases h
    | cons frame stack => cases frame <;> cases t <;> cases h <;> cases stack <;> trivial

theorem isOther_of_builds (hp : p.IsOther) (h : Builds p ts p') : p'.IsOther := by
  induction ts generalizing p with
  | nil =>
    cases h
    exact hp
  | cons t ts ih =>
    unfold Builds at h
    rw [List.foldlM_cons, Option.bind_eq_bind, Option.bind_eq_some_iff] at h
    obtain ⟨q, hpush, hrest⟩ := h
    exact ih (isOther_of_push hp hpush) hrest

theorem build_eq_text_iff : build ts = some (.text ps) ↔ ts = [.text ps] := by
  constructor
  · intro h
    have hbuilds := build_eq_some_iff.1 h
    cases ts with
    | nil => cases hbuilds
    | cons t ts =>
      unfold Builds at hbuilds
      rw [List.foldlM_cons, Option.bind_eq_bind, Option.bind_eq_some_iff] at hbuilds
      obtain ⟨q, hpush, hrest⟩ := hbuilds
      have hother (hq : q.IsOther) : t :: ts = [.text ps] := (isOther_of_builds hq hrest).elim
      cases t with
      | text qs =>
        cases hpush
        cases ts with
        | nil =>
          cases hrest
          rfl
        | cons t ts => cases hrest
      | null | bool b | number k | openArray | openObject =>
        cases hpush
        exact hother trivial
      | closeArray | closeObject | comma | colon => cases hpush
  · rintro rfl
    rfl

end Tree

/-- **Texts.** A document is read as a text exactly if it is a literal of the text between white
space. -/
theorem parse_str_iff {s v : String} :
    (Tree.parse s).bind Tree.str? = some v ↔ IsTextDocument s v := by
  have hstring (ps : List Piece) :
      Tree.string? ps = some v ↔ Tree.spelled? ps = some v.toList := by
    constructor
    · intro h
      obtain ⟨t, ht, rfl⟩ := Option.map_eq_some_iff.1 h
      rw [ht, String.toList_ofList]
    · intro h
      rw [Tree.string?, h]
      exact congrArg some String.ofList_toList
  have hparse (ps : List Piece) :
      Tree.parse s = some (.text ps) ↔ Token.scan s.toList = some [.text ps] := by
    rw [Tree.parse, Option.bind_eq_bind, Option.bind_eq_some_iff]
    simp only [Tree.build_eq_text_iff, exists_eq_right]
  rw [Option.bind_eq_some_iff]
  constructor
  · rintro ⟨t, ht, hstr⟩
    obtain ⟨ps, rfl⟩ : ∃ ps, t = .text ps := by
      cases t with
      | text ps => exact ⟨ps, rfl⟩
      | _ => cases hstr
    obtain ⟨before, parts, after, hbefore, hafter, hparts, hs⟩ :=
      scan_eq_text_iff.1 ((hparse ps).1 ht)
    obtain ⟨parts', hwrites, hflatten⟩ := exists_writes_of_spelled? hparts ((hstring ps).1 hstr)
    exact ⟨before, _, after, hbefore, ⟨parts', hwrites, rfl⟩, hafter, hflatten ▸ hs⟩
  · rintro ⟨before, literal, after, hbefore, ⟨parts, hparts, rfl⟩, hafter, hs⟩
    obtain ⟨parts', ps, hpieces, hflatten, hspelled⟩ := exists_writesPiece_of_writes hparts
    refine ⟨.text ps, (hparse ps).2 (scan_eq_text_iff.2 ?_), (hstring ps).2 hspelled⟩
    exact ⟨before, parts', after, hbefore, hafter, hpieces, hflatten ▸ hs⟩

end Upkeep.Json
