import Upkeep.Proofs.Json.Scanning

/-!
# Documents of values

The printer writes a value as its document (`Json.document`).

**Building.** Tokens that build a document on their own build it inside other containers as well
(`builds_within`).

**Containers.** If the parts of an array or of an object are read back as their documents, so is the
whole (`parse_arr`, `parse_obj`).
-/

namespace Upkeep.Json

namespace Tree

/-- Tokens lead from one document in the making to another. -/
def Builds (p : Partial) (ts : List Token) (p' : Partial) : Prop := ts.foldlM push p = some p'

/-- The same document in the making, inside further containers. -/
def Partial.within (p : Partial) (outer : List Frame) : Partial := ⟨p.stack ++ outer, p.await⟩

variable {p p' p'' : Partial} {ts us : List Token} {t : Token} {tree : Tree}

theorem Builds.append (h : Builds p ts p') (h' : Builds p' us p'') : Builds p (ts ++ us) p'' := by
  unfold Builds at *
  rw [List.foldlM_append, h]
  exact h'

theorem builds_cons (h : push p t = some p') (h' : Builds p' us p'') : Builds p (t :: us) p'' := by
  unfold Builds at *
  rw [List.foldlM_cons, h]
  exact h'

theorem builds_token (h : push p t = some p') : Builds p [t] p' := builds_cons h rfl

theorem begin?_within (stack outer : List Frame) (h : begin? stack t = some p) :
    begin? (stack ++ outer) t = some (p.within outer) := by
  cases t <;> cases h <;> rfl

theorem push_within (h : push p t = some p') (outer : List Frame) :
    push (p.within outer) t = some (p'.within outer) := by
  obtain ⟨stack, await⟩ := p
  cases await with
  | value => exact begin?_within stack outer h
  | item =>
    have hbegin (h : begin? (.arr [] :: stack) t = some p') :=
      begin?_within (.arr [] :: stack) outer h
    cases t with
    | closeArray =>
      cases h
      rfl
    | _ => exact hbegin h
  | firstKey | key | colon =>
    cases t <;> cases h <;> rfl
  | after v =>
    cases stack with
    | nil => cases h
    | cons frame stack => cases frame <;> cases t <;> cases h <;> rfl

theorem Builds.within (h : Builds p ts p') (outer : List Frame) :
    Builds (p.within outer) ts (p'.within outer) := by
  induction ts generalizing p with
  | nil =>
    cases h
    rfl
  | cons t ts ih =>
    unfold Builds at h
    rw [List.foldlM_cons, Option.bind_eq_bind, Option.bind_eq_some_iff] at h
    obtain ⟨q, hpush, hrest⟩ := h
    exact builds_cons (push_within hpush outer) (ih hrest)

theorem build_eq_some_iff : build ts = some tree ↔ Builds {} ts ⟨[], .after tree⟩ := by
  unfold build Builds
  rw [Option.bind_eq_bind, Option.bind_eq_some_iff]
  constructor
  · intro h
    obtain ⟨⟨stack, await⟩, hts, hdone⟩ := h
    unfold Partial.done? at hdone
    split at hdone
    · rename_i v heq
      cases hdone
      cases heq
      exact hts
    · cases hdone
  · exact fun h => ⟨_, h, rfl⟩

/-- Tokens that build a document on their own build it inside other containers. -/
theorem builds_within (h : build ts = some tree) (outer : List Frame) :
    Builds ⟨outer, .value⟩ ts ⟨outer, .after tree⟩ := (build_eq_some_iff.1 h).within outer

/-- The first item of an array is built as any other. -/
theorem builds_item {outer : List Frame} (h : Builds ⟨.arr [] :: outer, .value⟩ ts p)
    (hnil : ts ≠ []) : Builds ⟨outer, .item⟩ ts p := by
  cases ts with
  | nil => exact absurd rfl hnil
  | cons t ts =>
    unfold Builds at *
    rw [List.foldlM_cons] at h ⊢
    cases t with
    | closeArray => cases h
    | _ => exact h

/-- The first field of an object is built as any other. -/
theorem builds_firstKey {outer : List Frame} (h : Builds ⟨outer, .key []⟩ ts p) (hnil : ts ≠ []) :
    Builds ⟨outer, .firstKey⟩ ts p := by
  cases ts with
  | nil => exact absurd rfl hnil
  | cons t ts =>
    unfold Builds at *
    rw [List.foldlM_cons] at h ⊢
    cases t with
    | text k => exact h
    | _ => cases h

theorem parse_ofList_eq_some_iff {s : List Char} :
    parse (String.ofList s) = some tree ↔
      ∃ ts, Token.scan s = some ts ∧ build ts = some tree := by
  rw [parse, String.toList_ofList, Option.bind_eq_bind, Option.bind_eq_some_iff]

end Tree

/-! ## The document of a value -/

mutual

/-- The document that a value is written as. A number is left to the reader. -/
def document : Json → Tree
  | .null => .null
  | .bool b => .bool b
  | .num n => (Tree.parse (String.ofList n.render)).getD .null
  | .str s => .text (pieces s)
  | .arr items => .arr (documents items)
  | .obj fields => .obj (fieldDocuments fields)

def documents : List Json → List Tree
  | [] => []
  | v :: r => document v :: documents r

def fieldDocuments : List (String × Json) → List (List Piece × Tree)
  | [] => []
  | (k, v) :: r => (pieces k, document v) :: fieldDocuments r

end

open Token Upkeep.Json.Tree

/-! ## Arrays and objects -/

theorem builds_renderItems (v : Json) (items : List Json)
    (h : ∀ w ∈ v :: items, Tree.parse w.print = some w.document) :
    ∃ ts, Takes .between (renderItems (v :: items)) ts .between ∧ ∀ done outer,
      Builds ⟨.arr done :: outer, .value⟩ ts
        ⟨outer, .after (.arr (done.reverse ++ documents (v :: items)))⟩ := by
  induction items generalizing v with
  | nil =>
    obtain ⟨ts, hscan, hbuild⟩ := parse_ofList_eq_some_iff.1 (h v List.mem_cons_self)
    refine ⟨ts ++ [.closeArray], takes_mark hscan rfl, fun done outer => ?_⟩
    refine (builds_within hbuild _).append (builds_token ?_)
    simp [push, documents]
  | cons w items ih =>
    obtain ⟨hv, hrest⟩ := List.forall_mem_cons.1 h
    obtain ⟨ts, hscan, hbuild⟩ := parse_ofList_eq_some_iff.1 hv
    obtain ⟨us, htakes, hbuilds⟩ := ih w hrest
    refine ⟨ts ++ [.comma] ++ us, ?_, fun done outer => ?_⟩
    · rw [renderItems, List.append_cons]
      exact (takes_mark hscan rfl).append htakes
    · have hcomma : push ⟨.arr done :: outer, .after v.document⟩ .comma =
          some ⟨.arr (v.document :: done) :: outer, .value⟩ := rfl
      have hlast := hbuilds (v.document :: done) outer
      rw [List.reverse_cons, List.append_assoc] at hlast
      exact ((builds_within hbuild _).append (builds_token hcomma)).append hlast

/-- An array is read back as its document if its items are. -/
theorem parse_arr {items : List Json}
    (h : ∀ w ∈ items, Tree.parse w.print = some w.document) :
    Tree.parse (print (.arr items)) = some (document (.arr items)) := by
  refine parse_ofList_eq_some_iff.2 ?_
  cases items with
  | nil => exact ⟨[.openArray, .closeArray], rfl, rfl⟩
  | cons v items =>
    obtain ⟨ts, htakes, hbuilds⟩ := builds_renderItems v items h
    refine ⟨.openArray :: ts, ?_, ?_⟩
    · rw [scan, render, (takes_token rfl htakes).scanFrom]
      simp [finish]
    · have hnil : ts ≠ [] := by
        rintro rfl
        cases hbuilds [] []
      exact build_eq_some_iff.2 (builds_cons rfl (builds_item (hbuilds [] []) hnil))

theorem builds_renderFields (f : String × Json) (fields : List (String × Json))
    (h : ∀ f' ∈ f :: fields, Tree.parse f'.2.print = some f'.2.document) :
    ∃ ts, Takes .between (renderFields (f :: fields)) ts .between ∧ ∀ done outer,
      Builds ⟨outer, .key done⟩ ts
        ⟨outer, .after (.obj (done.reverse ++ fieldDocuments (f :: fields)))⟩ := by
  have hkey (k : String) (s : List Char) {us : List Token} (hs : Takes .between s us .between) :
      Takes .between (renderString k ++ ':' :: s) (.text (pieces k) :: .colon :: us) .between :=
    (takes_renderString k).append (takes_token rfl hs)
  induction fields generalizing f with
  | nil =>
    obtain ⟨k, v⟩ := f
    obtain ⟨ts, hscan, hbuild⟩ := parse_ofList_eq_some_iff.1 (h _ List.mem_cons_self)
    refine ⟨.text (pieces k) :: .colon :: (ts ++ [.closeObject]), ?_, fun done outer => ?_⟩
    · rw [renderFields, List.append_assoc, List.cons_append]
      exact hkey k _ (takes_mark hscan rfl)
    · refine builds_cons rfl (builds_cons rfl ((builds_within hbuild _).append (builds_token ?_)))
      simp [push, fieldDocuments]
  | cons f' fields ih =>
    obtain ⟨k, v⟩ := f
    obtain ⟨hv, hrest⟩ := List.forall_mem_cons.1 h
    obtain ⟨ts, hscan, hbuild⟩ := parse_ofList_eq_some_iff.1 hv
    obtain ⟨us, htakes, hbuilds⟩ := ih f' hrest
    refine ⟨.text (pieces k) :: .colon :: (ts ++ [.comma] ++ us), ?_, fun done outer => ?_⟩
    · rw [renderFields, List.append_assoc, List.cons_append, List.append_cons v.render]
      exact hkey k _ ((takes_mark (c := ',') hscan rfl).append htakes)
    · have hcomma : push ⟨.obj done (pieces k) :: outer, .after v.document⟩ .comma =
          some ⟨outer, .key ((pieces k, v.document) :: done)⟩ := rfl
      have hlast := hbuilds ((pieces k, v.document) :: done) outer
      rw [List.reverse_cons, List.append_assoc] at hlast
      exact builds_cons rfl (builds_cons rfl
        (((builds_within hbuild _).append (builds_token hcomma)).append hlast))

/-- An object is read back as its document if the values of its fields are. -/
theorem parse_obj {fields : List (String × Json)}
    (h : ∀ f ∈ fields, Tree.parse f.2.print = some f.2.document) :
    Tree.parse (print (.obj fields)) = some (document (.obj fields)) := by
  refine parse_ofList_eq_some_iff.2 ?_
  cases fields with
  | nil => exact ⟨[.openObject, .closeObject], rfl, rfl⟩
  | cons f fields =>
    obtain ⟨ts, htakes, hbuilds⟩ := builds_renderFields f fields h
    refine ⟨.openObject :: ts, ?_, ?_⟩
    · rw [scan, render, (takes_token rfl htakes).scanFrom]
      simp [finish]
    · have hnil : ts ≠ [] := by
        rintro rfl
        cases hbuilds [] []
      exact build_eq_some_iff.2 (builds_cons rfl (builds_firstKey (hbuilds [] []) hnil))

end Upkeep.Json
