import Mathlib.Data.List.Infix
import Upkeep.Toml.Printer
import Upkeep.Toml.Text

/-!
# Printed texts

Every text is read as it is printed, whichever of the four spellings it gets
(`readText_textChars`).

**Escapes.** Both readers of texts with escapes treat plain characters and escapes alike
(`ReadsEscapes`), so that each reads every character but the quote as it is escaped
(`ReadsEscapes.escape`).

**Runs of quotes.** A long text may hold up to two quotes in a row. Within the text they stand for
themselves, but at its end they are read together with the closing ones. So both readers of long
texts are followed quote by quote: a quote is read alone unless two more come after it, and that is
so at the end only.
-/

namespace Upkeep.Toml

variable {c d : Char} {s r rest : List Char} {n run : Nat} {long : Bool}

/-! ## Runs -/

/-- What `longestRun` keeps: the longest run so far and the one that has not ended. -/
private def runStep (c : Char) (st : Nat × Nat) (d : Char) : Nat × Nat :=
  let run := if d = c then st.2 + 1 else 0
  (max st.1 run, run)

private theorem longestRun_eq : longestRun c s = (s.foldl (runStep c) (0, 0)).1 := rfl

private theorem le_foldl_runStep (st : Nat × Nat) : st.1 ≤ (s.foldl (runStep c) st).1 := by
  induction s generalizing st with
  | nil => exact Nat.le_refl _
  | cons d s ih => exact (Nat.le_max_left _ _).trans (ih (runStep c st d))

private theorem le_foldl_replicate (st : Nat × Nat) :
    n ≤ ((List.replicate n c).foldl (runStep c) st).1 ∧
      st.2 + n = ((List.replicate n c).foldl (runStep c) st).2 := by
  induction n with
  | zero => exact ⟨Nat.zero_le _, rfl⟩
  | succ n ih =>
    obtain ⟨-, hrun⟩ := ih
    rw [List.replicate_succ', List.foldl_append]
    simp only [List.foldl_cons, List.foldl_nil, runStep, if_true, ← hrun]
    exact ⟨by omega, by omega⟩

theorem le_longestRun (h : List.replicate n c <:+: s) : n ≤ longestRun c s := by
  obtain ⟨before, after, rfl⟩ := h
  rw [longestRun_eq, List.foldl_append, List.foldl_append]
  exact (le_foldl_replicate _).1.trans (le_foldl_runStep _)

theorem not_mem_of_longestRun (h : longestRun c s = 0) : c ∉ s := by
  intro hc
  have hone : 1 ≤ longestRun c s := le_longestRun ((List.singleton_infix_iff c s).2 hc)
  omega

/-! ## Escapes -/

theorem coded?_codeDigits (h : n < 0x80) : coded? (codeDigits n) = some (Char.ofNat n) := by
  have hall : ∀ n < 0x80, coded? (codeDigits n) = some (Char.ofNat n) := by decide
  exact hall n h

theorem isPlain_of_not_control (h : ¬ (c.toNat < 0x20 ∨ c.toNat = 0x7F)) : isPlain c := by
  simp only [isPlain, Bool.or_eq_true, Bool.and_eq_true, decide_eq_true_eq, bne_iff_ne]
  omega

/-- A reader of texts, as far as plain characters and escapes go, and line feeds if it reads texts
of several lines. -/
structure ReadsEscapes (long : Bool) (read : List Char → Read) : Prop where
  plain {c : Char} {r : List Char} : isPlain c → c ≠ '"' → c ≠ '\\' →
    read (c :: r) = Read.cons (some c) (read r)
  feed {r : List Char} : long → read ('\n' :: r) = Read.cons (some '\n') (read r)
  named {c d : Char} {r : List Char} : named? c = some d →
    read ('\\' :: c :: r) = Read.cons (some d) (read r)
  coded {a b c d : Char} {r : List Char} :
    read ('\\' :: 'u' :: a :: b :: c :: d :: r) = Read.cons (coded? [a, b, c, d]) (read r)

theorem readsEscapes_basic : ReadsEscapes false readBasic where
  plain h hquote hbackslash := by simp_all [readBasic]
  feed := nofun
  named h := by
    unfold named? at h
    split at h <;> cases h <;> rfl
  coded := rfl

theorem readsEscapes_longBasic : ReadsEscapes true (readLongBasic .text) where
  plain {c r} h hquote hbackslash := by
    have hfeed : c ≠ '\n' := fun hc => absurd (hc ▸ h) (by decide)
    have hreturn : c ≠ '\r' := fun hc => absurd (hc ▸ h) (by decide)
    simp_all [readLongBasic]
  feed _ := rfl
  named h := by
    unfold named? at h
    split at h <;> cases h <;> rfl
  coded := rfl

theorem ReadsEscapes.escape {read : List Char → Read} (h : ReadsEscapes long read)
    (hc : c ≠ '"') :
    read (escape long c ++ r) = Read.cons (some c) (read r) := by
  unfold Toml.escape
  split
  case h_1 | h_2 | h_4 | h_5 | h_6 => exact h.named rfl
  case h_3 =>
    cases long with
    | false => exact h.named rfl
    | true => exact h.feed rfl
  case h_7 _ _ _ _ _ hbackslash =>
    split_ifs with hcontrol
    · have hlt : c.toNat < 0x80 := by
        simp only [Bool.or_eq_true, decide_eq_true_eq] at hcontrol
        omega
      have hcode : coded? (codeDigits c.toNat) = some c := by
        rw [coded?_codeDigits hlt, Char.ofNat_toNat]
      exact h.coded.trans (congrArg (Read.cons · (read r)) hcode)
    · simp only [Bool.or_eq_true, decide_eq_true_eq] at hcontrol
      exact h.plain (isPlain_of_not_control hcontrol) hc hbackslash

/-- What is escaped begins with a backslash; what is not begins with itself. -/
theorem head?_escape (long : Bool) (c : Char) (r : List Char) :
    (escape long c ++ r).head? = some '\\' ∨
      (escape long c ++ r).head? = some c ∧ (isPlain c ∨ c = '\n') := by
  unfold escape
  split
  case h_3 =>
    cases long with
    | false => exact .inl rfl
    | true => exact .inr ⟨rfl, .inr rfl⟩
  case h_7 =>
    split_ifs with hcontrol
    · exact .inl rfl
    · simp only [Bool.or_eq_true, decide_eq_true_eq] at hcontrol
      exact .inr ⟨rfl, .inl (isPlain_of_not_control hcontrol)⟩
  all_goals exact .inl rfl

theorem head?_escape_ne (hc : c ≠ '"') : (escape long c ++ r).head? ≠ some '"' := by
  rcases head?_escape long c r with h | ⟨h, -⟩
  · simp [h]
  · simpa [h] using hc

/-- Once no more quotes may stand for themselves, what is escaped does not begin with one. -/
theorem head?_escaped_ne {room : Nat} (hrun : room ≤ run) :
    (escaped long room run (c :: s) ++ r).head? ≠ some '"' := by
  by_cases hc : c = '"'
  · subst hc
    rw [escaped, if_neg (Nat.not_lt.2 hrun)]
    simp
  · rw [escaped.eq_3 _ _ _ _ _ hc, List.append_assoc]
    exact head?_escape_ne hc

/-- A text on one line is read as it is escaped. -/
theorem readBasic_escaped :
    readBasic (escaped false 0 run s ++ '"' :: rest) = some (s, rest) := by
  induction s generalizing run with
  | nil => rfl
  | cons c s ih =>
    by_cases hc : c = '"'
    · subst hc
      rw [escaped, if_neg (Nat.not_lt_zero run), List.cons_append, List.cons_append,
        readsEscapes_basic.named rfl, ih]
      rfl
    · rw [escaped.eq_3 _ _ _ _ _ hc, List.append_assoc, readsEscapes_basic.escape hc, ih]
      rfl

/-! ## Long texts with escapes -/

theorem readLongBasic_close (hrest : rest.head? ≠ some '"') :
    readLongBasic .text ('"' :: '"' :: '"' :: rest) = some ([], rest) := by
  match rest with
  | [] => rfl
  | c :: r => simp_all [readLongBasic]

theorem readLongBasic_quote (h : ¬ ['"', '"'] <+: r) :
    readLongBasic .text ('"' :: r) = Read.cons (some '"') (readLongBasic .text r) := by
  match r with
  | [] => rfl
  | c :: r =>
    by_cases hc : c = '"'
    · subst hc
      match r with
      | [] => rfl
      | d :: r =>
        have hd : d ≠ '"' := by simpa [eq_comm] using h
        simp_all [readLongBasic, isPlain]
    · simp_all [readLongBasic, isPlain]

theorem head?_eq_of_begins {q : List Char} (h : '"' :: q <+: r) : r.head? = some '"' := by
  obtain ⟨r, rfl⟩ := h
  rfl

/-- After a quote that stands for itself, two more come at the end of the text only. -/
theorem eq_of_quotes (h : ['"', '"'] <+: escaped true 2 (run + 1) s ++ r) :
    s = [] ∨ run = 0 ∧ s = ['"'] := by
  match s with
  | [] => exact .inl rfl
  | c :: s =>
    have hroom : run = 0 := by
      by_contra hrun
      exact head?_escaped_ne (by omega) (head?_eq_of_begins h)
    subst hroom
    have hc : c = '"' := by
      by_contra hc
      rw [escaped.eq_3 _ _ _ _ _ hc, List.append_assoc] at h
      exact head?_escape_ne hc (head?_eq_of_begins h)
    subst hc
    match s with
    | [] => exact .inr ⟨rfl, rfl⟩
    | d :: s =>
      rw [escaped, if_pos (by decide), List.cons_append] at h
      have hnext := head?_eq_of_begins (List.cons_prefix_cons.1 h).2
      exact absurd hnext (head?_escaped_ne (Nat.le_refl 2))

/-- A text on several lines is read as it is escaped. -/
theorem readLongBasic_escaped (hrest : rest.head? ≠ some '"') :
    readLongBasic .text (escaped true 2 run s ++ '"' :: '"' :: '"' :: rest) = some (s, rest) := by
  induction s generalizing run with
  | nil => exact readLongBasic_close hrest
  | cons c s ih =>
    by_cases hc : c = '"'
    · subst hc
      rw [escaped]
      split_ifs with hroom
      · rw [List.cons_append]
        by_cases hend : ['"', '"'] <+: escaped true 2 (run + 1) s ++ '"' :: '"' :: '"' :: rest
        · rcases eq_of_quotes hend with rfl | ⟨rfl, rfl⟩
          · cases rest with
            | nil => rfl
            | cons d rest => simp_all [escaped, readLongBasic]
          · rfl
        · rw [readLongBasic_quote hend, ih]
          rfl
      · rw [List.cons_append, List.cons_append, readsEscapes_longBasic.named rfl, ih]
        rfl
    · rw [escaped.eq_3 _ _ _ _ _ hc, List.append_assoc, readsEscapes_longBasic.escape hc, ih]
      rfl

/-! ## Texts without escapes -/

theorem readLiteral_append (hplain : ∀ c ∈ s, isPlain c) (hquote : '\'' ∉ s) :
    readLiteral (s ++ '\'' :: rest) = some (s, rest) := by
  induction s with
  | nil => rfl
  | cons c s ih =>
    obtain ⟨hc, hs⟩ := List.forall_mem_cons.1 hplain
    rw [List.mem_cons, not_or] at hquote
    have hother : c ≠ '\'' := Ne.symm hquote.1
    rw [List.cons_append, readLiteral.eq_2 _ _ hother, if_pos hc, ih hs hquote.2]
    rfl

theorem readLongLiteral_cons (hc : isPlain c ∨ c = '\n')
    (hquote : c = '\'' → ¬ ['\'', '\''] <+: r) :
    readLongLiteral (c :: r) = Read.cons (some c) (readLongLiteral r) := by
  rcases hc with hplain | rfl
  · have hfeed : c ≠ '\n' := fun hc => absurd (hc ▸ hplain) (by decide)
    have hreturn : c ≠ '\r' := fun hc => absurd (hc ▸ hplain) (by decide)
    have hruns (r' : List Char) (hcq : c = '\'') (hr : r = '\'' :: '\'' :: r') : False :=
      hquote hcq ⟨r', hr.symm⟩
    rw [readLongLiteral.eq_6 _ _ (fun r' h hr => hruns _ h hr) (fun r' h hr => hruns _ h hr) hruns
      hfeed fun _ h => absurd h hreturn, if_pos hplain]
  · rfl

/-- A text on several lines with no three quotes in a row is read as it is. -/
theorem readLongLiteral_append (hplain : ∀ c ∈ s, isPlain c ∨ c = '\n')
    (hruns : ¬ List.replicate 3 '\'' <:+: s) (hrest : rest.head? ≠ some '\'') :
    readLongLiteral (s ++ '\'' :: '\'' :: '\'' :: rest) = some (s, rest) := by
  induction s with
  | nil =>
    match rest with
    | [] => rfl
    | d :: rest => simp_all [readLongLiteral]
  | cons c s ih =>
    obtain ⟨hc, hs⟩ := List.forall_mem_cons.1 hplain
    have hruns' : ¬ List.replicate 3 '\'' <:+: s := fun h => hruns (List.infix_cons h)
    rw [List.cons_append]
    by_cases hend : c = '\'' ∧ ['\'', '\''] <+: s ++ '\'' :: '\'' :: '\'' :: rest
    · obtain ⟨rfl, hquotes⟩ := hend
      match s with
      | [] =>
        match rest with
        | [] => rfl
        | d :: rest => simp_all [readLongLiteral]
      | ['\''] => rfl
      | d :: e :: s =>
        exfalso
        obtain ⟨hd, hquotes⟩ := List.cons_prefix_cons.1 hquotes
        obtain ⟨he, -⟩ := List.cons_prefix_cons.1 hquotes
        subst hd he
        exact hruns ⟨[], s, rfl⟩
    · rw [readLongLiteral_cons hc fun h hquotes => hend ⟨h, hquotes⟩, ih hs hruns']
      rfl

/-! ## All spellings -/

theorem style_eq_literal {t : Traits} (h : t.style = .literal) :
    t.control = false ∧ t.singles = 0 ∧ t.feed = false := by
  unfold Traits.style at h
  split_ifs at h
  simp_all

theorem style_eq_longLiteral {t : Traits} (h : t.style = .longLiteral) :
    t.control = false ∧ t.singles ≤ 2 := by
  unfold Traits.style at h
  split_ifs at h
  simp_all

/-- Without control characters only line feeds are not plain. -/
theorem isPlain_or_eq_of_mem (h : (traits s).control = false) (hc : c ∈ s) :
    isPlain c ∨ c = '\n' := by
  have hother : ¬ ((c.toNat < 0x20 ∧ c ≠ '\t' ∧ c ≠ '\n') ∨ c.toNat = 0x7F) := by
    simpa [traits, and_assoc] using List.any_eq_false.1 h c hc
  by_cases hfeed : c = '\n'
  · exact .inr hfeed
  · refine .inl ?_
    simp only [isPlain, Bool.or_eq_true, Bool.and_eq_true, decide_eq_true_eq, bne_iff_ne]
    by_cases htab : c = '\t'
    · exact .inl htab
    · exact .inr ⟨by_contra fun hlt => hother (.inl ⟨by omega, htab, hfeed⟩),
        fun h => hother (.inr h)⟩

theorem isPlain_of_mem (hcontrol : (traits s).control = false) (hfeed : (traits s).feed = false)
    (hc : c ∈ s) : isPlain c := by
  refine (isPlain_or_eq_of_mem hcontrol hc).resolve_right ?_
  rintro rfl
  exact absurd (List.contains_iff_mem.2 hc) (Bool.eq_false_iff.1 hfeed)

/-- The line feed that a long text begins with, if it does, is the one that does not count. -/
theorem dropFirstFeed_append (h : (traits s).feed = false → ∀ c ∈ r.head?, isPlain c) :
    dropFirstFeed ((if (traits s).feed then ['\n'] else []) ++ r) = r := by
  cases hfeed : (traits s).feed with
  | true => rfl
  | false =>
    match r with
    | [] => rfl
    | c :: r =>
      have hplain : isPlain c := h hfeed c rfl
      have hnot : c ≠ '\n' := fun hc => absurd (hc ▸ hplain) (by decide)
      have hreturn : c ≠ '\r' := fun hc => absurd (hc ▸ hplain) (by decide)
      exact dropFirstFeed.eq_3 _ (fun r h => hnot (List.cons.inj h).1)
        fun r h => hreturn (List.cons.inj h).1

/-- A text without line feeds does not begin with one when it is escaped. -/
theorem isPlain_of_head?_escaped (hfeed : (traits s).feed = false) :
    ∀ c ∈ (escaped true 2 0 s ++ '"' :: r).head?, isPlain c := by
  cases s with
  | nil => simp [escaped, isPlain]
  | cons c s =>
    by_cases hc : c = '"'
    · subst hc
      simp [escaped, isPlain]
    · have hother : c ≠ '\n' := by
        rintro rfl
        exact absurd hfeed (by simp [traits])
      rw [escaped.eq_3 _ _ _ _ _ hc, List.append_assoc]
      rcases head?_escape true c (escaped true 2 0 s ++ '"' :: r) with h | ⟨h, hplain⟩
      · simp [h, isPlain]
      · simpa [h] using hplain.resolve_right hother

theorem readText_basic (h : ¬ ['"', '"'] <+: r) : readText ('"' :: r) = readBasic r :=
  readText.eq_2 _ fun r' hr => h ⟨r', hr.symm⟩

theorem readText_literal (h : ¬ ['\'', '\''] <+: r) : readText ('\'' :: r) = readLiteral r :=
  readText.eq_4 _ fun r' hr => h ⟨r', hr.symm⟩

/-- Every text is read as it is printed, up to the end of its line. -/
theorem readText_textChars (s : String) :
    readText (textChars s ++ '\n' :: rest) = some (s.toList, '\n' :: rest) := by
  generalize hcs : s.toList = cs
  rw [textChars, hcs]
  cases hstyle : (traits cs).style with
  | basic =>
    simp only [List.cons_append, List.append_assoc, List.nil_append]
    rw [readText_basic, readBasic_escaped]
    intro hquotes
    cases cs with
    | nil => simp [escaped] at hquotes
    | cons c cs => exact head?_escaped_ne (Nat.le_refl 0) (head?_eq_of_begins hquotes)
  | literal =>
    obtain ⟨hcontrol, hsingles, hfeed⟩ := style_eq_literal hstyle
    have hquote : '\'' ∉ cs := not_mem_of_longestRun hsingles
    simp only [List.cons_append, List.append_assoc, List.nil_append]
    rw [readText_literal, readLiteral_append (fun c => isPlain_of_mem hcontrol hfeed) hquote]
    intro hquotes
    cases cs with
    | nil => simp at hquotes
    | cons c cs => exact hquote (List.mem_cons.2 (.inl (List.cons_prefix_cons.1 hquotes).1))
  | longBasic =>
    have hhead (hfeed : (traits cs).feed = false) :
        ∀ c ∈ (escaped true 2 0 cs ++ '"' :: '"' :: '"' :: '\n' :: rest).head?, isPlain c :=
      isPlain_of_head?_escaped hfeed
    simp only [List.cons_append, List.append_assoc, List.nil_append]
    rw [readText, dropFirstFeed_append hhead]
    exact readLongBasic_escaped (by simp)
  | longLiteral =>
    obtain ⟨hcontrol, hsingles⟩ := style_eq_longLiteral hstyle
    have hruns : ¬ List.replicate 3 '\'' <:+: cs := by
      intro h
      exact Nat.not_le.2 (Nat.lt_succ_of_le hsingles) (le_longestRun h)
    have hhead (hfeed : (traits cs).feed = false) :
        ∀ c ∈ (cs ++ '\'' :: '\'' :: '\'' :: '\n' :: rest).head?, isPlain c := by
      cases cs with
      | nil => simp [isPlain]
      | cons c cs => simpa using isPlain_of_mem hcontrol hfeed (List.mem_cons_self ..)
    simp only [List.cons_append, List.append_assoc, List.nil_append]
    rw [readText, dropFirstFeed_append hhead]
    exact readLongLiteral_append (fun c => isPlain_or_eq_of_mem hcontrol) hruns (by simp)

end Upkeep.Toml
