import Mathlib.Data.String.Basic
import Upkeep.Proofs.Json.RoundTrip

/-!
# Values of documents

A document may spell its value in many ways, with the fields of an object in any order and keys
given twice. The value has lost these differences: in each of its objects the keys are in order,
once each, and it is no deeper than the document (`value?_spec`).

So it is read back from its own text if the binary64 numbers in it are (`IsCanonical.legible`).
-/

namespace Upkeep.Json

/-- In every object the keys are in order, once each. -/
inductive IsCanonical : Json → Prop where
  | null : IsCanonical .null
  | bool (b : Bool) : IsCanonical (.bool b)
  | num (n : Number) : IsCanonical (.num n)
  | str (s : String) : IsCanonical (.str s)
  | arr {items : List Json} (h : ∀ v ∈ items, IsCanonical v) : IsCanonical (.arr items)
  | obj {fields : List (String × Json)} (order : InOrder fields)
      (h : ∀ f ∈ fields, IsCanonical f.2) : IsCanonical (.obj fields)

/-- Every binary64 number in the value is read back from its text. -/
inductive RealsSurvive : Json → Prop where
  | null : RealsSurvive .null
  | bool (b : Bool) : RealsSurvive (.bool b)
  | whole (i : Int) (fits : FitsWord i) : RealsSurvive (.num (.whole i fits))
  | real {x : Binary64} (h : (Number.real x).Survives) : RealsSurvive (.num (.real x))
  | str (s : String) : RealsSurvive (.str s)
  | arr {items : List Json} (h : ∀ v ∈ items, RealsSurvive v) : RealsSurvive (.arr items)
  | obj {fields : List (String × Json)} (h : ∀ f ∈ fields, RealsSurvive f.2) :
      RealsSurvive (.obj fields)

/-- A canonical value is read back if its binary64 numbers are. -/
theorem IsCanonical.legible {v : Json} (h : v.IsCanonical) (hreals : v.RealsSurvive) :
    v.Legible := by
  induction h with
  | null => exact legible_null
  | bool b => exact legible_bool b
  | num n =>
    cases hreals with
    | whole i fits => exact legible_whole i fits
    | real hx => exact legible_num hx
  | str s => exact legible_str s
  | arr _ ih =>
    cases hreals with
    | arr hitems => exact legible_arr fun v hv => ih v hv (hitems v hv)
  | obj order _ ih =>
    cases hreals with
    | obj hfields => exact legible_obj (fun f hf => ih f hf (hfields f hf)) order

/-! ## Fields in order -/

section Fields

variable {fields : List (String × Json)} {f : String × Json} {k : String} {v : Json}

theorem mem_insertField (h : f ∈ insertField k v fields) : f = (k, v) ∨ f ∈ fields := by
  induction fields with
  | nil => exact .inl (List.mem_singleton.1 h)
  | cons g fields ih =>
    obtain ⟨k', v'⟩ := g
    rw [insertField] at h
    split at h
    · exact List.mem_cons.1 h
    · split at h
      · exact (List.mem_cons.1 h).imp_right (List.mem_cons_of_mem _)
      · rcases List.mem_cons.1 h with rfl | hmem
        · exact .inr List.mem_cons_self
        · exact (ih hmem).imp_right (List.mem_cons_of_mem _)

theorem inOrder_cons : InOrder (f :: fields) ↔ (∀ g ∈ fields, f.1 < g.1) ∧ InOrder fields := by
  rw [InOrder, List.map_cons, List.pairwise_cons, List.forall_mem_map]
  exact Iff.rfl

theorem inOrder_insertField (h : InOrder fields) : InOrder (insertField k v fields) := by
  induction fields with
  | nil => exact List.pairwise_singleton _ _
  | cons g fields ih =>
    obtain ⟨k', v'⟩ := g
    obtain ⟨hfirst, hrest⟩ := inOrder_cons.1 h
    rw [insertField]
    split
    · rename_i hlt
      refine inOrder_cons.2 ⟨List.forall_mem_cons.2 ⟨hlt, fun f hf => ?_⟩, h⟩
      exact lt_trans hlt (hfirst f hf)
    · rename_i hnot
      split
      · rename_i heq
        exact inOrder_cons.2 ⟨fun f hf => heq ▸ hfirst f hf, hrest⟩
      · rename_i hne
        have hlt : k' < k := lt_of_le_of_ne (not_lt.1 hnot) (Ne.symm hne)
        refine inOrder_cons.2 ⟨fun f hf => ?_, ih hrest⟩
        rcases mem_insertField hf with rfl | hmem
        · exact hlt
        · exact hfirst f hmem

/-- The fields of a free-form object are in order, and each of them has been given. -/
theorem ofFields_spec (fields : List (String × Json)) :
    ∃ kept, ofFields fields = .obj kept ∧ InOrder kept ∧ ∀ f ∈ kept, f ∈ fields := by
  suffices hfold : ∀ before, InOrder before →
      InOrder (fields.foldl (fun acc f => insertField f.1 f.2 acc) before) ∧
        ∀ f ∈ fields.foldl (fun acc f => insertField f.1 f.2 acc) before,
          f ∈ before ∨ f ∈ fields by
    obtain ⟨horder, hmem⟩ := hfold [] List.Pairwise.nil
    exact ⟨_, rfl, horder, fun f hf => (hmem f hf).resolve_left List.not_mem_nil⟩
  induction fields with
  | nil => exact fun before h => ⟨h, fun f hf => .inl hf⟩
  | cons g fields ih =>
    intro before h
    obtain ⟨horder, hmem⟩ := ih (insertField g.1 g.2 before) (inOrder_insertField h)
    refine ⟨horder, fun f hf => ?_⟩
    rcases hmem f hf with hbefore | hrest
    · rcases mem_insertField hbefore with rfl | hbefore
      · exact .inr List.mem_cons_self
      · exact .inl hbefore
    · exact .inr (List.mem_cons_of_mem _ hrest)

end Fields

/-! ## Values -/

mutual

/-- The value of a document is canonical and no deeper than the document. -/
theorem value?_spec : (t : Tree) → {v : Json} → t.value? = some v →
    v.IsCanonical ∧ v.depth ≤ t.depth
  | .null, _, h => by
    cases h
    exact ⟨.null, Nat.le_refl _⟩
  | .bool b, _, h => by
    cases h
    exact ⟨.bool b, Nat.le_refl _⟩
  | .num n, _, h => by
    obtain ⟨n, -, rfl⟩ := Option.map_eq_some_iff.1 h
    exact ⟨.num n, Nat.le_refl _⟩
  | .text ps, _, h => by
    obtain ⟨s, -, rfl⟩ := Option.map_eq_some_iff.1 h
    exact ⟨.str s, Nat.le_refl _⟩
  | .arr items, _, h => by
    rw [Tree.value?] at h
    obtain ⟨vs, hvs, rfl⟩ := Option.map_eq_some_iff.1 h
    have hall := values?_spec items hvs
    exact ⟨.arr fun v hv => (hall v hv).1,
      Nat.succ_le_succ (depthItems_le fun v hv => (hall v hv).2)⟩
  | .obj fields, _, h => by
    rw [Tree.value?] at h
    obtain ⟨vs, hvs, rfl⟩ := Option.map_eq_some_iff.1 h
    have hall := fieldValues?_spec fields hvs
    obtain ⟨kept, hkept, horder, hmem⟩ := ofFields_spec vs
    rw [hkept]
    exact ⟨.obj horder fun f hf => (hall f (hmem f hf)).1,
      Nat.succ_le_succ (depthFields_le fun f hf => (hall f (hmem f hf)).2)⟩

theorem values?_spec : (items : List Tree) → {vs : List Json} → Tree.values? items = some vs →
    ∀ v ∈ vs, v.IsCanonical ∧ v.depth ≤ Tree.depthList items
  | [], _, h => by
    cases h
    exact List.forall_mem_nil _
  | t :: items, _, h => by
    simp only [Tree.values?, Option.bind_eq_bind, Option.bind_eq_some_iff, Option.pure_def,
      Option.some.injEq] at h
    obtain ⟨v, hv, vs, hvs, rfl⟩ := h
    obtain ⟨hcanonical, hdepth⟩ := value?_spec t hv
    refine List.forall_mem_cons.2 ⟨⟨hcanonical, Nat.le_trans hdepth (Nat.le_max_left _ _)⟩, ?_⟩
    intro w hw
    obtain ⟨hcanonical, hdepth⟩ := values?_spec items hvs w hw
    exact ⟨hcanonical, Nat.le_trans hdepth (Nat.le_max_right _ _)⟩

theorem fieldValues?_spec : (fields : List (List Piece × Tree)) → {vs : List (String × Json)} →
    Tree.fieldValues? fields = some vs →
    ∀ f ∈ vs, f.2.IsCanonical ∧ f.2.depth ≤ Tree.depthFields fields
  | [], _, h => by
    cases h
    exact List.forall_mem_nil _
  | (k, t) :: fields, _, h => by
    simp only [Tree.fieldValues?, Option.bind_eq_bind, Option.bind_eq_some_iff, Option.pure_def,
      Option.some.injEq] at h
    obtain ⟨key, -, v, hv, vs, hvs, rfl⟩ := h
    obtain ⟨hcanonical, hdepth⟩ := value?_spec t hv
    refine List.forall_mem_cons.2 ⟨⟨hcanonical, Nat.le_trans hdepth (Nat.le_max_left _ _)⟩, ?_⟩
    intro f hf
    obtain ⟨hcanonical, hdepth⟩ := fieldValues?_spec fields hvs f hf
    exact ⟨hcanonical, Nat.le_trans hdepth (Nat.le_max_right _ _)⟩

end

end Upkeep.Json
