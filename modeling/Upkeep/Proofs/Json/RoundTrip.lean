import Upkeep.Proofs.Json.Documents

/-!
# Printed values read back

A value is *legible* if it is read back from its text as itself, to the same depth.

**Plain values.** Without binary64 numbers every value is legible whose objects have their keys in
order, once each (`legible_of_isPlain`), as free-form objects have them. Any number is legible that
survives being printed alone (`legible_num`).
-/

namespace Upkeep.Json

mutual

/-- How many containers are open at the deepest place. -/
def depth : Json → Nat
  | .arr items => depthItems items + 1
  | .obj fields => depthFields fields + 1
  | _ => 0

def depthItems : List Json → Nat
  | [] => 0
  | v :: r => max (depth v) (depthItems r)

def depthFields : List (String × Json) → Nat
  | [] => 0
  | (_, v) :: r => max (depth v) (depthFields r)

end

theorem depthItems_le {items : List Json} {k : Nat} (h : ∀ v ∈ items, v.depth ≤ k) :
    depthItems items ≤ k := by
  induction items with
  | nil => exact Nat.zero_le k
  | cons v items ih =>
    obtain ⟨hv, hitems⟩ := List.forall_mem_cons.1 h
    exact Nat.max_le.2 ⟨hv, ih hitems⟩

theorem depthFields_le {fields : List (String × Json)} {k : Nat}
    (h : ∀ f ∈ fields, f.2.depth ≤ k) : depthFields fields ≤ k := by
  induction fields with
  | nil => exact Nat.zero_le k
  | cons f fields ih =>
    obtain ⟨hf, hfields⟩ := List.forall_mem_cons.1 h
    exact Nat.max_le.2 ⟨hf, ih hfields⟩

/-- The keys are in order, once each. -/
def InOrder (fields : List (String × Json)) : Prop := (fields.map Prod.fst).Pairwise (· < ·)

instance (fields : List (String × Json)) : Decidable (InOrder fields) :=
  inferInstanceAs (Decidable (List.Pairwise _ _))

mutual

/-- All numbers are whole, and all objects have their keys in order. -/
def isPlain : Json → Bool
  | .num (.real _) => false
  | .arr items => arePlain items
  | .obj fields => decide (InOrder fields) && haveOnlyPlain fields
  | _ => true

def arePlain : List Json → Bool
  | [] => true
  | v :: r => isPlain v && arePlain r

def haveOnlyPlain : List (String × Json) → Bool
  | [] => true
  | (_, v) :: r => isPlain v && haveOnlyPlain r

end

/-- The value is read back from its text. -/
structure Legible (v : Json) : Prop where
  parse : Tree.parse v.print = some v.document
  value : v.document.value? = some v
  depth : v.document.depth = v.depth

/-! ## Texts and numbers -/

theorem legible_null : Legible .null := ⟨rfl, rfl, rfl⟩

theorem legible_bool (b : Bool) : Legible (.bool b) := by
  cases b <;> exact ⟨rfl, rfl, rfl⟩

theorem legible_str (s : String) : Legible (.str s) where
  parse := by
    refine Tree.parse_ofList_eq_some_iff.2 ⟨[.text (pieces s)], ?_, rfl⟩
    rw [Token.scan, render, (takes_renderString s).scanFrom]
    rfl
  value := by
    rw [document, Tree.value?, string?_pieces]
    rfl
  depth := rfl

/-- Only a number denotes a number. -/
theorem exists_num_of_value? {t : Tree} {n : Number} (h : t.value? = some (.num n)) :
    ∃ m, t = .num m := by
  cases t with
  | num m => exact ⟨m, rfl⟩
  | null | bool b => cases h
  | text ps =>
    rw [Tree.value?] at h
    cases hs : Tree.string? ps <;> rw [hs] at h <;> cases h
  | arr items =>
    rw [Tree.value?] at h
    cases hs : Tree.values? items <;> rw [hs] at h <;> cases h
  | obj fields =>
    rw [Tree.value?] at h
    cases hs : Tree.fieldValues? fields <;> rw [hs] at h <;> cases h

/-- The number that a text spells as a document. -/
def Tree.number? : Tree → Option Number
  | .num m => m.number?
  | _ => none

/-- The number is read back from its text. -/
def Number.Survives (n : Number) : Prop :=
  (Tree.parse (print (.num n))).bind Tree.number? = some n

instance (n : Number) : Decidable n.Survives := inferInstanceAs (Decidable (_ = _))

/-- A number that survives being printed alone is legible. -/
theorem legible_num {n : Number} (h : n.Survives) : Legible (.num n) := by
  obtain ⟨t, hparse, hnumber⟩ := Option.bind_eq_some_iff.1 h
  obtain ⟨m, rfl⟩ : ∃ m, t = .num m := by
    cases t with
    | num m => exact ⟨m, rfl⟩
    | _ => cases hnumber
  have hdocument : document (.num n) = .num m := by
    rw [document, show String.ofList n.render = print (.num n) from rfl, hparse]
    rfl
  refine ⟨hdocument ▸ hparse, ?_, hdocument ▸ rfl⟩
  rw [hdocument, Tree.value?, show m.number? = some n from hnumber]
  rfl

theorem legible_whole (i : Int) (fits : FitsWord i) : Legible (.num (.whole i fits)) := by
  refine legible_num ?_
  have hparse : Tree.parse (print (.num (.whole i fits))) = some (.num (wholeNumeral i)) :=
    Tree.parse_ofList_eq_some_iff.2 ⟨_, scan_renderWhole i fits, rfl⟩
  rw [Number.Survives, hparse]
  exact number?_wholeNumeral fits

/-! ## Arrays and objects -/

section Lists

variable {items : List Json} {fields : List (String × Json)}

theorem values?_documents (h : ∀ v ∈ items, v.Legible) :
    Tree.values? (documents items) = some items := by
  induction items with
  | nil => rfl
  | cons v items ih =>
    obtain ⟨hv, hitems⟩ := List.forall_mem_cons.1 h
    simp [documents, Tree.values?, hv.value, ih hitems]

theorem depthList_documents (h : ∀ v ∈ items, v.document.depth = v.depth) :
    Tree.depthList (documents items) = depthItems items := by
  induction items with
  | nil => rfl
  | cons v items ih =>
    obtain ⟨hv, hitems⟩ := List.forall_mem_cons.1 h
    rw [documents, Tree.depthList, depthItems, hv, ih hitems]

theorem fieldValues?_fieldDocuments (h : ∀ f ∈ fields, f.2.Legible) :
    Tree.fieldValues? (fieldDocuments fields) = some fields := by
  induction fields with
  | nil => rfl
  | cons f fields ih =>
    obtain ⟨hf, hfields⟩ := List.forall_mem_cons.1 h
    obtain ⟨k, v⟩ := f
    simp [fieldDocuments, Tree.fieldValues?, string?_pieces, hf.value, ih hfields]

theorem depthFields_fieldDocuments (h : ∀ f ∈ fields, f.2.document.depth = f.2.depth) :
    Tree.depthFields (fieldDocuments fields) = depthFields fields := by
  induction fields with
  | nil => rfl
  | cons f fields ih =>
    obtain ⟨hf, hfields⟩ := List.forall_mem_cons.1 h
    obtain ⟨k, v⟩ := f
    rw [fieldDocuments, Tree.depthFields, depthFields, hf, ih hfields]

theorem legible_arr (h : ∀ v ∈ items, v.Legible) : Legible (.arr items) where
  parse := parse_arr fun v hv => (h v hv).parse
  value := by
    rw [document, Tree.value?, values?_documents h]
    rfl
  depth := by rw [document, Tree.depth, depth, depthList_documents fun v hv => (h v hv).depth]

/-- A key after all others is put last. -/
theorem insertField_of_lt {k : String} {v : Json} (h : ∀ f ∈ fields, f.1 < k) :
    insertField k v fields = fields ++ [(k, v)] := by
  induction fields with
  | nil => rfl
  | cons f fields ih =>
    obtain ⟨hf, hfields⟩ := List.forall_mem_cons.1 h
    obtain ⟨k', v'⟩ := f
    have hlt : ¬ k < k' := String.lt_asymm hf
    have hne : k ≠ k' := fun heq => String.lt_irrefl k (heq ▸ hf)
    rw [insertField, if_neg hlt, if_neg hne, ih hfields]
    rfl

theorem foldl_insertField (before : List (String × Json)) (h : InOrder (before ++ fields)) :
    fields.foldl (fun acc f => insertField f.1 f.2 acc) before = before ++ fields := by
  induction fields generalizing before with
  | nil => exact (List.append_nil before).symm
  | cons f fields ih =>
    have hbefore (f' : String × Json) (hf' : f' ∈ before) : f'.1 < f.1 := by
      rw [InOrder, List.map_append, List.map_cons, List.pairwise_append] at h
      exact h.2.2 _ (List.mem_map_of_mem hf') _ List.mem_cons_self
    rw [List.append_cons] at h ⊢
    rw [List.foldl_cons, insertField_of_lt hbefore]
    exact ih _ h

/-- Fields in order stay as they are. -/
theorem ofFields_of_inOrder (h : InOrder fields) : ofFields fields = .obj fields :=
  congrArg obj (foldl_insertField [] h)

theorem legible_obj (h : ∀ f ∈ fields, f.2.Legible) (horder : InOrder fields) :
    Legible (.obj fields) where
  parse := parse_obj fun f hf => (h f hf).parse
  value := by
    rw [document, Tree.value?, fieldValues?_fieldDocuments h]
    exact congrArg some (ofFields_of_inOrder horder)
  depth := by
    rw [document, Tree.depth, depth, depthFields_fieldDocuments fun f hf => (h f hf).depth]

end Lists

/-! ## Plain values -/

mutual

/-- Plain values are read back. -/
theorem legible_of_isPlain : (v : Json) → v.isPlain = true → v.Legible
  | .null, _ => legible_null
  | .bool b, _ => legible_bool b
  | .num (.whole i fits), _ => legible_whole i fits
  | .str s, _ => legible_str s
  | .arr items, h => legible_arr (legible_of_arePlain items h)
  | .obj fields, h => by
    rw [isPlain, Bool.and_eq_true] at h
    exact legible_obj (legible_of_haveOnlyPlain fields h.2) (of_decide_eq_true h.1)

theorem legible_of_arePlain : (items : List Json) → arePlain items = true →
    ∀ v ∈ items, v.Legible
  | [], _ => nofun
  | v :: items, h => by
    rw [arePlain, Bool.and_eq_true] at h
    exact List.forall_mem_cons.2 ⟨legible_of_isPlain v h.1, legible_of_arePlain items h.2⟩

theorem legible_of_haveOnlyPlain : (fields : List (String × Json)) → haveOnlyPlain fields = true →
    ∀ f ∈ fields, f.2.Legible
  | [], _ => nofun
  | (k, v) :: fields, h => by
    rw [haveOnlyPlain, Bool.and_eq_true] at h
    exact List.forall_mem_cons.2 ⟨legible_of_isPlain v h.1, legible_of_haveOnlyPlain fields h.2⟩

end

end Upkeep.Json
