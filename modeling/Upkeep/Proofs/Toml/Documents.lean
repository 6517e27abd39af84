import Upkeep.Proofs.Text.Digits
import Upkeep.Proofs.Toml.Texts
import Upkeep.Toml.Reader

/-!
# Printed documents

A document of sections is read as it is printed (`parse?_print?`), if the names of its sections and
of the settings in each are bare and distinct.

**Values.** A number is read as itself if the format can hold it. Its digits do not begin a date or
a time of day, since no sign follows any of them (`dateTime?_append`).

**Lines.** `Takes` says which lines lead from one state of a document to another. Each line that is
printed adds what it says, and so does each section.
-/

namespace Upkeep.Toml

variable {c d : Char} {s s' ds r rest : List Char} {n m room : Nat}

/-! ## Numbers -/

theorem hexDigit?_of_isDigit (h : c.isDigit) : hexDigit? c = some (c.toNat - '0'.toNat) := by
  rw [Char.isDigit, Bool.and_eq_true] at h
  rw [hexDigit?, if_pos]
  rw [Bool.and_eq_true]
  exact h

theorem sub_lt_of_isDigit (h : c.isDigit) : c.toNat - '0'.toNat < 10 := by
  have hle : c.toNat ≤ '9'.toNat := (Char.isDigit_iff_toNat.1 h).2
  have hnine : '9'.toNat = 57 := rfl
  have hzero : '0'.toNat = 48 := rfl
  omega

theorem digits?_of_isDigit (hne : ds ≠ []) (h : ∀ c ∈ ds, c.isDigit) (n : Nat) :
    digits? 10 n ds = some (Nat.ofDigitChars 10 ds n) := by
  induction ds generalizing n with
  | nil => exact absurd rfl hne
  | cons c ds ih =>
    obtain ⟨hc, hds⟩ := List.forall_mem_cons.1 h
    rw [Nat.ofDigitChars_cons]
    cases ds with
    | nil =>
      rw [digits?, hexDigit?_of_isDigit hc]
      exact if_pos (sub_lt_of_isDigit hc)
    | cons d ds =>
      have hd : d ≠ '_' := by
        rintro rfl
        exact absurd (hds '_' List.mem_cons_self) (by decide)
      rw [digits?.eq_4 _ _ _ _ (List.cons_ne_nil _ _) (fun r h => hd (List.cons.inj h).1),
        hexDigit?_of_isDigit hc]
      exact (if_pos (sub_lt_of_isDigit hc)).trans (ih (List.cons_ne_nil _ _) hds _)

theorem decimal?_toDigits (n : Nat) : decimal? (Nat.toDigits 10 n) = some n := by
  by_cases hzero : n = 0
  · subst hzero
    rfl
  · obtain ⟨k, r, hdigits, hpos, hlt⟩ := Text.toDigits_eq_cons hzero
    have hne : Nat.digitChar k ≠ '0' := by
      have hall : ∀ k < 10, 0 < k → Nat.digitChar k ≠ '0' := by decide
      exact hall k hlt hpos
    rw [hdigits, decimal?.eq_2 _ fun _ _ h => hne (List.cons.inj h).1, ← hdigits,
      digits?_of_isDigit Nat.toDigits_ne_nil (fun _ => Text.isDigit_of_mem_toDigits),
      Nat.ofDigitChars_ten_toDigits]

theorem unsigned_of_isDigit (h : ∀ c ∈ ds, c.isDigit) : unsigned ds = (false, ds) := by
  unfold unsigned
  split
  · exact absurd (h '+' List.mem_cons_self) (by decide)
  · exact absurd (h '-' List.mem_cons_self) (by decide)
  · rfl

/-- Digits are read as the number that they spell, if the format can hold it. -/
theorem integer?_of_isDigit (hdigits : ∀ c ∈ ds, c.isDigit) (hvalue : decimal? ds = some n)
    (hbound : n < integerBound) : integer? ds = some (n : Int) := by
  have hfits : FitsInteger n := ⟨by omega, by exact_mod_cast hbound⟩
  unfold integer?
  split
  · exact absurd (hdigits 'x' (by simp)) (by decide)
  · exact absurd (hdigits 'o' (by simp)) (by decide)
  · exact absurd (hdigits 'b' (by simp)) (by decide)
  · rw [unsigned_of_isDigit hdigits]
    exact Option.bind_eq_some_iff.2 ⟨n, hvalue, Option.bind_eq_some_iff.2 ⟨n, rfl, if_pos hfits⟩⟩

/-! ### No dates -/

theorem after?_append (h : ∀ c ∈ ds, c.isDigit) (hc : c.isDigit = false) (hfeed : c ≠ '\n') :
    after? c (ds ++ '\n' :: rest) = none := by
  cases ds with
  | nil => simp [after?, Ne.symm hfeed]
  | cons d ds =>
    have hd : d ≠ c := by
      rintro rfl
      exact absurd (h d List.mem_cons_self) (by simp [hc])
    simp [after?, hd]

theorem exists_of_twoDigits? (h : ∀ c ∈ ds, c.isDigit)
    (hread : twoDigits? n m (ds ++ '\n' :: rest) = some (room, r)) :
    ∃ ds', (∀ c ∈ ds', c.isDigit) ∧ r = ds' ++ '\n' :: rest := by
  have hdigit : Text.digit? '\n' = none := rfl
  match ds with
  | [] => cases rest <;> simp [twoDigits?, hdigit] at hread
  | [a] => simp [twoDigits?, hdigit] at hread
  | a :: b :: ds =>
    simp only [List.cons_append, twoDigits?, Option.bind_eq_bind, Option.bind_eq_some_iff] at hread
    obtain ⟨_, _, _, _, hread⟩ := hread
    split_ifs at hread
    cases hread
    exact ⟨ds, fun c hc => h c (by simp [hc]), rfl⟩

/-- Digits up to the end of a line do not begin a date or a time of day. -/
theorem dateTime?_append (h : ∀ c ∈ ds, c.isDigit) : dateTime? (ds ++ '\n' :: rest) = none := by
  have hdate : date? (ds ++ '\n' :: rest) = none := by
    by_contra hsome
    obtain ⟨r, hsome⟩ := Option.ne_none_iff_exists'.1 hsome
    simp only [date?, Option.bind_eq_bind, Option.bind_eq_some_iff, Prod.exists] at hsome
    obtain ⟨_, r, hcentury, _, r', hyear, r'', hsign, -⟩ := hsome
    obtain ⟨ds', h', rfl⟩ := exists_of_twoDigits? h hcentury
    obtain ⟨ds'', h'', rfl⟩ := exists_of_twoDigits? h' hyear
    rw [after?_append h'' rfl (by decide)] at hsign
    cases hsign
  have htime : timeOfDay? (ds ++ '\n' :: rest) = none := by
    by_contra hsome
    obtain ⟨r, hsome⟩ := Option.ne_none_iff_exists'.1 hsome
    simp only [timeOfDay?, Option.bind_eq_bind, Option.bind_eq_some_iff, Prod.exists] at hsome
    obtain ⟨_, r, hhour, r', hsign, -⟩ := hsome
    obtain ⟨ds', h', rfl⟩ := exists_of_twoDigits? h hhour
    rw [after?_append h' rfl (by decide)] at hsign
    cases hsign
  rw [dateTime?, hdate]
  exact htime

/-! ## Values -/

/-- A number or a text as a value of the format. -/
def Value.ofEntry : UInt64 ⊕ String → Value
  | .inl n => .integer n.toNat
  | .inr s => .string s

theorem word?_append (hdigits : ∀ c ∈ s, c.isDigit) {i : Int} (h : integer? s = some i) :
    word? (s ++ '\n' :: rest) = some (.integer i, '\n' :: rest) := by
  have htake : (s ++ '\n' :: rest).takeWhile
      (fun c => c.isAlphanum || c = '_' || c = '+' || c = '-' || c = '.') = s := by
    rw [List.takeWhile_append_of_pos, List.takeWhile_cons_of_neg (by decide), List.append_nil]
    intro c hc
    simp [Char.isAlphanum, hdigits c hc]
  have htrue : s ≠ ['t', 'r', 'u', 'e'] := by
    rintro rfl
    exact absurd (hdigits 't' (by simp)) (by decide)
  have hfalse : s ≠ ['f', 'a', 'l', 's', 'e'] := by
    rintro rfl
    exact absurd (hdigits 'f' (by simp)) (by decide)
  rw [word?, htake]
  simp [htrue, hfalse, h]

theorem exists_textChars_eq (s : String) :
    ∃ r, textChars s = '"' :: r ∨ textChars s = '\'' :: r := by
  cases hstyle : (traits s.toList).style with
  | basic | longBasic =>
    rw [textChars, hstyle]
    exact ⟨_, .inl rfl⟩
  | literal | longLiteral =>
    rw [textChars, hstyle]
    exact ⟨_, .inr rfl⟩

/-- A value is read as it is printed, if the format can hold it. -/
theorem value?_entryChars {v : UInt64 ⊕ String} (h : isStorable v) :
    value? (n + 1) room (entryChars v ++ '\n' :: rest) = some (.ofEntry v, '\n' :: rest) := by
  cases v with
  | inl k =>
    have hdigits : ∀ c ∈ Nat.toDigits 10 k.toNat, c.isDigit := fun _ =>
      Text.isDigit_of_mem_toDigits
    have hbound : k.toNat < integerBound := of_decide_eq_true h
    have hhead {q : Char} {t : List Char} (hq : q.isDigit = false) :
        Nat.toDigits 10 k.toNat ++ '\n' :: rest ≠ q :: t := by
      have hne : Nat.toDigits 10 k.toNat ≠ [] := Nat.toDigits_ne_nil
      obtain ⟨c, r, hcons⟩ := List.exists_cons_of_ne_nil hne
      have hc : c.isDigit := hdigits c (hcons ▸ List.mem_cons_self)
      rw [hcons]
      rintro ⟨⟩
      exact absurd hc (by simp [hq])
    rw [entryChars, value?.eq_6 _ _ _ (fun _ => hhead rfl) (fun _ => hhead rfl)
      (fun _ _ h _ => hhead rfl h) (fun _ _ h _ => hhead rfl h), plainValue?,
      dateTime?_append hdigits]
    exact word?_append hdigits (integer?_of_isDigit hdigits (decimal?_toDigits _) hbound)
  | inr s =>
    have hread : readText (textChars s ++ '\n' :: rest) = some (s.toList, '\n' :: rest) :=
      readText_textChars s
    rw [entryChars]
    obtain ⟨r, hr | hr⟩ := exists_textChars_eq s
    all_goals
      rw [hr, List.cons_append] at hread ⊢
      rw [value?, hread]
      simp [Value.ofEntry]

/-! ## Keys -/

/-- A key that is written without quotes. -/
def IsBare (key : String) : Prop := key.toList ≠ [] ∧ ∀ c ∈ key.toList, isBareKey c

-- The list is named for the search: all characters together are finitely many as well.
instance : DecidablePred IsBare := fun key =>
  haveI : Decidable (∀ c ∈ key.toList, isBareKey c) := List.decidableBAll _ _
  inferInstanceAs (Decidable (_ ∧ _))

theorem IsBare.exists_eq_cons {key : String} (hkey : IsBare key) :
    ∃ c r, key.toList = c :: r ∧ isBareKey c := by
  obtain ⟨c, r, hcons⟩ := List.exists_cons_of_ne_nil hkey.1
  exact ⟨c, r, hcons, hkey.2 c (hcons ▸ List.mem_cons_self)⟩

theorem IsBare.ne_of_cons {key : String} (hkey : IsBare key) (hc : isBareKey c = false) :
    key.toList ++ s ≠ c :: r := by
  obtain ⟨d, t, hcons, hd⟩ := hkey.exists_eq_cons
  rw [hcons]
  rintro ⟨⟩
  exact absurd hd (by simp [hc])

theorem isSpace_eq_false {p : Char → Bool} (hc : p c) (hspace : p ' ' = false)
    (htab : p '\t' = false) : isSpace c = false := by
  rw [Bool.eq_false_iff, isSpace]
  intro h
  rw [Bool.or_eq_true, decide_eq_true_eq, decide_eq_true_eq] at h
  rcases h with rfl | rfl <;> simp_all

theorem skipSpace_cons (hc : isSpace c = false) : skipSpace (c :: s) = c :: s :=
  List.dropWhile_cons_of_neg (by simp [hc])

theorem skipSpace_of_isBare {key : String} (hkey : IsBare key) :
    skipSpace (key.toList ++ s) = key.toList ++ s := by
  obtain ⟨c, t, hcons, hc⟩ := hkey.exists_eq_cons
  rw [hcons]
  exact skipSpace_cons (isSpace_eq_false hc rfl rfl)

theorem key?_of_isBare {key : String} (hkey : IsBare key) (hc : isBareKey c = false)
    (hrest : skipSpace (c :: rest) = d :: r) (hd : d ≠ '.') :
    key? (key.toList ++ c :: rest) = some ([key], d :: r) := by
  have htake : (key.toList ++ c :: rest).takeWhile isBareKey = key.toList := by
    rw [List.takeWhile_append_of_pos hkey.2, List.takeWhile_cons_of_neg (by simp [hc]),
      List.append_nil]
  have hpart : keyPart? (key.toList ++ c :: rest) = some (key, c :: rest) := by
    rw [keyPart?.eq_3 _ (fun _ => hkey.ne_of_cons rfl) (fun _ => hkey.ne_of_cons rfl), htake]
    simp [hkey.1]
  rw [key?, maxDepth, keyParts?, hpart]
  simp only [Option.bind_eq_bind, Option.bind_some, hrest]
  split
  · simp_all
  · rfl

/-! ## Lines -/

/-- From one document with its open section to another, some characters are lines that add what the
second has more. -/
def Takes (s : List Char) (doc doc' : Fields × Option String) : Prop :=
  ∃ k ≤ s.length, ∀ n rest, lines? (k + n) doc.1 doc.2 (s ++ rest) = lines? n doc'.1 doc'.2 rest

variable {doc doc' doc'' : Fields × Option String}

theorem Takes.nil : Takes [] doc doc := ⟨0, Nat.le_refl 0, fun n rest => by rw [Nat.zero_add]; rfl⟩

theorem Takes.append (h : Takes s doc doc') (h' : Takes s' doc' doc'') :
    Takes (s ++ s') doc doc'' := by
  obtain ⟨k, hk, h⟩ := h
  obtain ⟨k', hk', h'⟩ := h'
  refine ⟨k + k', ?_, fun n rest => ?_⟩
  · rw [List.length_append]
    exact Nat.add_le_add hk hk'
  · rw [List.append_assoc, Nat.add_assoc, h, h']

theorem takes_line (hs : s ≠ [])
    (h : ∀ n rest, lines? (n + 1) doc.1 doc.2 (s ++ rest) = lines? n doc'.1 doc'.2 rest) :
    Takes s doc doc' :=
  ⟨1, List.length_pos_iff.2 hs, fun n rest => by rw [Nat.add_comm]; exact h n rest⟩

/-- The fields of a document whose lines have all been taken. -/
theorem Takes.parse? {text : String} (h : Takes text.toList ([], none) doc)
    (hmark : text.toList.head? ≠ some '\ufeff') : parse? text = some doc.1 := by
  obtain ⟨k, hk, h⟩ := h
  have hall := h (text.toList.length + 1 - k) []
  rw [List.append_nil, Nat.add_sub_cancel' (Nat.le_succ_of_le hk)] at hall
  have hrest : text.toList.length + 1 - k = (text.toList.length - k) + 1 := by omega
  have hend : lines? (text.toList.length + 1 - k) doc.1 doc.2 [] = some doc.1 := by
    rw [hrest]
    rfl
  rw [Toml.parse?]
  split
  · simp_all
  · exact hall.trans hend

theorem takes_feed : Takes ['\n'] doc doc := takes_line (List.cons_ne_nil _ _) fun _ _ => rfl

theorem lineEnd?_feed : lineEnd? ('\n' :: r) = some r := rfl

theorem takes_header {name : String} {doc : Fields} {section? : Option String} (hname : IsBare name)
    (hnew : doc.lookup name = none) :
    Takes ('[' :: name.toList ++ [']', '\n']) (doc, section?)
      (doc ++ [(name, .table false [])], some name) := by
  refine takes_line (List.cons_ne_nil _ _) fun n rest => ?_
  have hkey : key? (name.toList ++ ']' :: '\n' :: rest) = some ([name], ']' :: '\n' :: rest) :=
    key?_of_isBare hname rfl rfl (by decide)
  simp only [List.cons_append, List.append_assoc, List.nil_append]
  rw [lines?]
  show (key? (skipSpace (name.toList ++ ']' :: '\n' :: rest)) >>= _) = _
  rw [skipSpace_of_isBare hname, hkey]
  simp [hnew, lineEnd?_feed]

theorem skipSpace_entryChars (v : UInt64 ⊕ String) :
    skipSpace (' ' :: (entryChars v ++ r)) = entryChars v ++ r := by
  have hhead : ∃ c t, entryChars v = c :: t ∧ isSpace c = false := by
    cases v with
    | inl n =>
      have hne : Nat.toDigits 10 n.toNat ≠ [] := Nat.toDigits_ne_nil
      obtain ⟨c, t, hcons⟩ := List.exists_cons_of_ne_nil hne
      have hc : c.isDigit := Text.isDigit_of_mem_toDigits (hcons ▸ List.mem_cons_self)
      exact ⟨c, t, hcons, isSpace_eq_false hc rfl rfl⟩
    | inr s =>
      obtain ⟨t, ht | ht⟩ := exists_textChars_eq s
      · exact ⟨_, t, ht, rfl⟩
      · exact ⟨_, t, ht, rfl⟩
  obtain ⟨c, t, hcons, hc⟩ := hhead
  rw [hcons, skipSpace, List.dropWhile_cons_of_pos (by decide)]
  exact skipSpace_cons hc

theorem takes_entry {key : String} {v : UInt64 ⊕ String} {doc doc' : Fields}
    {section? : Option String} (hkey : IsBare key) (hv : isStorable v)
    (hinsert : insertInto? section? [key] (.ofEntry v) doc = some doc') :
    Takes (lineChars key v) (doc, section?) (doc', section?) := by
  refine takes_line (by simp [lineChars]) fun n rest => ?_
  have hread : key? (key.toList ++ ' ' :: '=' :: ' ' :: (entryChars v ++ '\n' :: rest)) =
      some ([key], '=' :: ' ' :: (entryChars v ++ '\n' :: rest)) :=
    key?_of_isBare hkey rfl rfl (by decide)
  have hspace : skipSpace (' ' :: (entryChars v ++ '\n' :: rest)) = entryChars v ++ '\n' :: rest :=
    skipSpace_entryChars v
  simp only [lineChars, List.cons_append, List.append_assoc, List.nil_append]
  rw [lines?, skipSpace_of_isBare hkey]
  split
  · simp_all
  · exact absurd ‹_› (hkey.ne_of_cons rfl)
  · exact absurd ‹_› (hkey.ne_of_cons rfl)
  · exact absurd ‹_› (hkey.ne_of_cons rfl)
  · exact absurd ‹_› (hkey.ne_of_cons rfl)
  · rw [hread]
    simp [hspace, value?_entryChars hv, hinsert, lineEnd?_feed]

/-! ## Sections -/

/-- The keys of some entries are bare and distinct. -/
def HasBareKeys {α : Type} (entries : List (String × α)) : Prop :=
  (entries.map Prod.fst).Nodup ∧ ∀ e ∈ entries, IsBare e.1

theorem hasBareKeys_of_map {α : Type} {entries : List (String × α)} (keys : List String)
    (hkeys : entries.map Prod.fst = keys) (h : keys.Nodup ∧ ∀ key ∈ keys, IsBare key) :
    HasBareKeys entries := by
  subst hkeys
  exact ⟨h.1, List.forall_mem_map.1 h.2⟩

/-- The fields that some entries make. -/
def Fields.ofEntries (entries : List (String × (UInt64 ⊕ String))) : Fields :=
  entries.map fun (k, v) => (k, .ofEntry v)

/-- The document that some sections make. -/
def Fields.ofSections (sections : List (String × List (String × (UInt64 ⊕ String)))) : Fields :=
  sections.map fun (name, es) => (name, .table false (Fields.ofEntries es))

/-- A name that comes up once is not found after one entry either. -/
theorem lookup_append_eq_none {α : Type} {es : List (String × α)} {fs : Fields} {key : String}
    {v : Value} (hkey : key ∉ es.map Prod.fst) (hnew : ∀ e ∈ es, fs.lookup e.1 = none) :
    ∀ e ∈ es, (fs ++ [(key, v)]).lookup e.1 = none := by
  intro e he
  have hne : e.1 ≠ key := by
    rintro rfl
    exact hkey (List.mem_map_of_mem he)
  rw [List.lookup_append, hnew e he]
  simp [hne]

/-- A setting that is not yet given is added to the last section. -/
theorem insertInto?_last {doc fs : Fields} {name key : String} {v : Value}
    (hname : doc.lookup name = none) (hkey : fs.lookup key = none) :
    insertInto? (some name) [key] v (doc ++ [(name, .table false fs)]) =
      some (doc ++ [(name, .table false (fs ++ [(key, v)]))]) := by
  have hlast : List.lookup name (doc ++ [(name, Value.table false fs)]) =
      some (.table false fs) := by
    rw [List.lookup_append, hname]
    simp
  have hother (w : Value) : doc.map (fun e => if e.1 = name then (e.1, w) else e) = doc := by
    refine (List.map_congr_left fun e he => if_neg ?_).trans (List.map_id doc)
    rintro rfl
    simpa using List.lookup_eq_none_iff.1 hname e he
  simp [insertInto?, hlast, Fields.insert?, hkey, Fields.replace, hother]

theorem takes_entries {name : String} {doc fs : Fields} {es : List (String × (UInt64 ⊕ String))}
    (hname : doc.lookup name = none) (hes : HasBareKeys es) (hstorable : ∀ e ∈ es, isStorable e.2)
    (hnew : ∀ e ∈ es, fs.lookup e.1 = none) :
    Takes (es.flatMap fun (k, v) => lineChars k v) (doc ++ [(name, .table false fs)], some name)
      (doc ++ [(name, .table false (fs ++ Fields.ofEntries es))], some name) := by
  induction es generalizing fs with
  | nil => simpa [Fields.ofEntries] using Takes.nil
  | cons e es ih =>
    obtain ⟨key, v⟩ := e
    obtain ⟨hdistinct, hbare⟩ := hes
    rw [List.map_cons, List.nodup_cons] at hdistinct
    obtain ⟨hkey, hbare⟩ := List.forall_mem_cons.1 hbare
    obtain ⟨hv, hstorable⟩ := List.forall_mem_cons.1 hstorable
    obtain ⟨hfirst, hnew⟩ := List.forall_mem_cons.1 hnew
    have hline := takes_entry hkey hv (insertInto?_last hname hfirst)
    have hlines := hline.append
      (ih ⟨hdistinct.2, hbare⟩ hstorable (lookup_append_eq_none hdistinct.1 hnew))
    simpa [Fields.ofEntries] using hlines

/-- A section is taken as the table of its settings. -/
theorem takes_section {name : String} {doc : Fields} {section? : Option String}
    {es : List (String × (UInt64 ⊕ String))} (hbare : IsBare name)
    (hname : doc.lookup name = none) (hes : HasBareKeys es)
    (hstorable : ∀ e ∈ es, isStorable e.2) :
    Takes (sectionChars name es) (doc, section?)
      (doc ++ [(name, .table false (Fields.ofEntries es))], some name) :=
  (takes_header hbare hname).append (takes_entries hname hes hstorable fun _ _ => rfl)

theorem takes_documentChars {sections : List (String × List (String × (UInt64 ⊕ String)))}
    (hnames : HasBareKeys sections) (hkeys : ∀ s ∈ sections, HasBareKeys s.2)
    (hstorable : ∀ s ∈ sections, ∀ e ∈ s.2, isStorable e.2) (doc : Fields)
    (section? : Option String) (hnew : ∀ s ∈ sections, doc.lookup s.1 = none) :
    ∃ last, Takes (documentChars sections) (doc, section?)
      (doc ++ Fields.ofSections sections, last) := by
  induction sections generalizing doc section? with
  | nil => exact ⟨section?, by simpa [documentChars, Fields.ofSections] using Takes.nil⟩
  | cons s sections ih =>
    obtain ⟨name, es⟩ := s
    obtain ⟨hdistinct, hbare⟩ := hnames
    rw [List.map_cons, List.nodup_cons] at hdistinct
    obtain ⟨hname, hbare⟩ := List.forall_mem_cons.1 hbare
    obtain ⟨hes, hkeys⟩ := List.forall_mem_cons.1 hkeys
    obtain ⟨hvs, hstorable⟩ := List.forall_mem_cons.1 hstorable
    obtain ⟨hfirst, hnew⟩ := List.forall_mem_cons.1 hnew
    have hsection : Takes (sectionChars name es) (doc, section?)
        (doc ++ [(name, .table false (Fields.ofEntries es))], some name) :=
      takes_section hname hfirst hes hvs
    obtain ⟨last, hrest⟩ := ih ⟨hdistinct.2, hbare⟩ hkeys hstorable
      (doc ++ [(name, .table false (Fields.ofEntries es))]) (some name)
      (lookup_append_eq_none hdistinct.1 hnew)
    cases sections with
    | nil =>
      refine ⟨some name, ?_⟩
      simpa [documentChars, Fields.ofSections] using hsection
    | cons s sections =>
      refine ⟨last, ?_⟩
      have hall := (hsection.append takes_feed).append hrest
      simpa [documentChars, Fields.ofSections, List.intercalate_cons_cons] using hall

theorem head?_documentChars (sections : List (String × List (String × (UInt64 ⊕ String)))) :
    (documentChars sections).head? ≠ some '\ufeff' := by
  match sections with
  | [] => simp [documentChars]
  | [(name, es)] => simp [documentChars, sectionChars]
  | (name, es) :: s :: sections =>
    simp [documentChars, sectionChars, List.intercalate_cons_cons]

/-- A document is read as it is printed. -/
theorem parse?_print? {sections : List (String × List (String × (UInt64 ⊕ String)))}
    {text : String} (hnames : HasBareKeys sections) (hkeys : ∀ s ∈ sections, HasBareKeys s.2)
    (h : print? sections = some text) : parse? text = some (Fields.ofSections sections) := by
  rw [print?] at h
  split_ifs at h with hall
  cases h
  have hstorable : ∀ s ∈ sections, ∀ e ∈ s.2, isStorable e.2 := by
    simpa using hall
  obtain ⟨last, hlast⟩ := takes_documentChars hnames hkeys hstorable [] none fun _ _ => rfl
  rw [List.nil_append, ← String.toList_ofList (l := documentChars sections)] at hlast
  refine hlast.parse? ?_
  rw [String.toList_ofList]
  exact head?_documentChars sections

end Upkeep.Toml
