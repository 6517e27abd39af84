import Upkeep.Proofs.Json.Reals

/-!
# Every printed value is read

A value is read from its text, whatever its kind, its nesting and its numbers (`isRead`): the text
is that of one document, which denotes some value and is as deep as the value. It need not be the
same value. Infinities and NaN become null, other binary64 numbers may become neighbours, and an
object keeps each key once.

Only the depth is no matter of the values, since the reader has a limit and the printer has none.
-/

namespace Upkeep.Json

/-- The value is read from its text as some value, at the same depth. -/
structure IsRead (v : Json) : Prop where
  parse : Tree.parse v.print = some v.document
  value : v.document.value?.isSome = true
  depth : v.document.depth = v.depth

theorem Legible.isRead {v : Json} (h : v.Legible) : v.IsRead :=
  ⟨h.parse, Option.isSome_of_eq_some h.value, h.depth⟩

variable {items : List Json} {fields : List (String × Json)}

/-! ## Numbers -/

theorem document_of_parse {n : Number} {t : Tree} (h : Tree.parse (print (.num n)) = some t) :
    document (.num n) = t := by
  rw [document, show String.ofList n.render = print (.num n) from rfl, h, Option.getD_some]

/-- A number is printed as a numeral that denotes a number, or as null. -/
theorem parse_num (n : Number) :
    (∃ m : Numeral, Tree.parse (print (.num n)) = some (.num m) ∧ m.number?.isSome = true) ∨
      Tree.parse (print (.num n)) = some .null := by
  cases n with
  | whole i fits =>
    refine .inl ⟨wholeNumeral i, ?_, Option.isSome_of_eq_some (number?_wholeNumeral fits)⟩
    exact Tree.parse_ofList_eq_some_iff.2 ⟨_, scan_renderWhole i fits, rfl⟩
  | real x =>
    cases hfinite : x.isFinite with
    | true => exact .inl (exists_parse_real hfinite)
    | false =>
      have hprint : print (.num (.real x)) = "null" :=
        congrArg String.ofList (if_neg (by rw [hfinite]; exact Bool.false_ne_true))
      rw [hprint]
      exact .inr rfl

theorem isRead_num (n : Number) : IsRead (.num n) := by
  rcases parse_num n with ⟨m, hparse, hm⟩ | hparse
  · have hdocument := document_of_parse hparse
    refine ⟨by rw [hdocument, hparse], ?_, by rw [hdocument]; rfl⟩
    rw [hdocument, Tree.value?]
    simpa using hm
  · have hdocument := document_of_parse hparse
    exact ⟨by rw [hdocument, hparse], by rw [hdocument]; rfl, by rw [hdocument]; rfl⟩

/-! ## Arrays and objects -/

theorem isRead_arr (h : ∀ v ∈ items, v.IsRead) : IsRead (.arr items) where
  parse := parse_arr fun v hv => (h v hv).parse
  value := by
    have hvalues : (Tree.values? (documents items)).isSome = true := by
      induction items with
      | nil => rfl
      | cons v items ih =>
        obtain ⟨hv, hitems⟩ := List.forall_mem_cons.1 h
        obtain ⟨w, hw⟩ := Option.isSome_iff_exists.1 hv.value
        obtain ⟨ws, hws⟩ := Option.isSome_iff_exists.1 (ih hitems)
        simp [documents, Tree.values?, hw, hws]
    rw [document, Tree.value?]
    simpa using hvalues
  depth := by rw [document, Tree.depth, depth, depthList_documents fun v hv => (h v hv).depth]

theorem isRead_obj (h : ∀ f ∈ fields, f.2.IsRead) : IsRead (.obj fields) where
  parse := parse_obj fun f hf => (h f hf).parse
  value := by
    have hvalues : (Tree.fieldValues? (fieldDocuments fields)).isSome = true := by
      induction fields with
      | nil => rfl
      | cons f fields ih =>
        obtain ⟨hf, hfields⟩ := List.forall_mem_cons.1 h
        obtain ⟨k, v⟩ := f
        obtain ⟨w, hw⟩ := Option.isSome_iff_exists.1 hf.value
        obtain ⟨ws, hws⟩ := Option.isSome_iff_exists.1 (ih hfields)
        simp [fieldDocuments, Tree.fieldValues?, string?_pieces, hw, hws]
    rw [document, Tree.value?]
    simpa using hvalues
  depth := by
    rw [document, Tree.depth, depth, depthFields_fieldDocuments fun f hf => (h f hf).depth]

/-! ## All values -/

mutual

/-- Every value is read. -/
theorem isRead : (v : Json) → v.IsRead
  | .null => legible_null.isRead
  | .bool b => (legible_bool b).isRead
  | .num n => isRead_num n
  | .str s => (legible_str s).isRead
  | .arr items => isRead_arr (forall_isRead_items items)
  | .obj fields => isRead_obj (forall_isRead_fields fields)

theorem forall_isRead_items : (items : List Json) → ∀ v ∈ items, v.IsRead
  | [] => List.forall_mem_nil _
  | v :: items => List.forall_mem_cons.2 ⟨isRead v, forall_isRead_items items⟩

theorem forall_isRead_fields : (fields : List (String × Json)) → ∀ f ∈ fields, f.2.IsRead
  | [] => List.forall_mem_nil _
  | (_, v) :: fields => List.forall_mem_cons.2 ⟨isRead v, forall_isRead_fields fields⟩

end

end Upkeep.Json
