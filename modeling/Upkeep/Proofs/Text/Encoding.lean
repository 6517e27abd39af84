import Upkeep.Text.Bytes
import Upkeep.Text.Lines

/-!
# Encoded lines

Text is decoded as it was encoded (`decode?_encode`), and a line feed in the bytes is one in the
text (`mem_encode_iff`). So lines that are written one after the other, each with its end, are found
again one by one (`linesOf_flatMap`). A carriage return that a line loses with its end matters only
to what looks for one (`apply_dropReturn`).
-/

namespace Upkeep.Text

/-! ## UTF-8 -/

theorem toList_eq (b : ByteArray) : b.toList = b.data.toList := by
  have hloop (k i : Nat) (hk : i + k = b.size) (r : List UInt8) :
      ByteArray.toList.loop b i r = r.reverse ++ b.data.toList.drop i := by
    induction k generalizing i r with
    | zero =>
      have hend : ¬ i < b.size := by omega
      have hdrop : b.data.toList.drop i = [] := List.drop_eq_nil_of_le (Nat.not_lt.1 hend)
      rw [ByteArray.toList.loop, if_neg hend, hdrop, List.append_nil]
    | succ k ih =>
      have hlt : i < b.size := by omega
      have hget : b.get! i = b.data.toList[i] := getElem!_pos b.data i hlt
      rw [ByteArray.toList.loop, if_pos hlt, ih (i + 1) (by omega), hget,
        List.drop_eq_getElem_cons hlt, List.reverse_cons, List.append_assoc]
      rfl
  rw [ByteArray.toList, hloop b.size 0 (Nat.zero_add _)]
  rfl

theorem decode?_encode (s : String) : decode? (encode s) = some s := by
  rw [decode?, encode, toList_eq]
  exact dif_pos s.isValidUTF8

theorem encode_ofList (s : List Char) :
    encode (String.ofList s) = s.flatMap String.utf8EncodeChar := by
  rw [encode, toList_eq]
  exact List.toList_data_toByteArray

theorem encode_append (s t : String) : encode (s ++ t) = encode s ++ encode t := by
  simp [encode, toList_eq]

theorem encode_of_decode? {b : Bytes} {s : String} (h : decode? b = some s) : encode s = b := by
  obtain ⟨hvalid, heq⟩ := Option.dite_none_right_eq_some.1 h
  rw [encode, toList_eq, ← Option.some.inj heq]
  rfl

/-- No character but an ASCII character has its byte. -/
theorem mem_utf8EncodeChar_iff {c : Char} {n : Nat} (hn : n < 128) :
    UInt8.ofNat n ∈ String.utf8EncodeChar c ↔ c.toNat = n := by
  have hval : c.toNat = n ↔ c.val.toNat = n := Iff.rfl
  have hbyte (m : Nat) : UInt8.ofNat n = UInt8.ofNat m ↔ m % 256 = n := by
    rw [← UInt8.toNat_inj, UInt8.toNat_ofNat', UInt8.toNat_ofNat']
    omega
  rw [hval, String.utf8EncodeChar.eq_1]
  split
  · rw [List.mem_singleton, hbyte]
    omega
  · split
    · simp only [List.mem_cons, List.not_mem_nil, or_false, hbyte]
      omega
    · split <;>
        · simp only [List.mem_cons, List.not_mem_nil, or_false, hbyte]
          omega

theorem mem_encode_iff {s : List Char} : 10 ∈ encode (String.ofList s) ↔ '\n' ∈ s := by
  have hfeed (c : Char) : 10 ∈ String.utf8EncodeChar c ↔ c = '\n' :=
    (mem_utf8EncodeChar_iff (n := 10) (by decide)).trans (Char.toNat_inj (d := '\n'))
  simp [encode_ofList, hfeed]

/-- Only the carriage return ends with its byte. -/
theorem exists_of_encode_eq_concat {s : List Char} {b : Bytes}
    (h : encode (String.ofList s) = b ++ [13]) :
    ∃ t, s = t ++ ['\r'] ∧ encode (String.ofList t) = b := by
  rw [encode_ofList] at h
  rcases s.eq_nil_or_concat with rfl | ⟨t, c, rfl⟩
  · cases b <;> cases h
  · rw [List.concat_eq_append, List.flatMap_append, List.flatMap_singleton] at h
    have hlast : (String.utf8EncodeChar c).getLast? = some 13 := by
      have hall := congrArg List.getLast? h
      rwa [List.getLast?_append, List.getLast?_concat, Option.or_of_isSome] at hall
      exact List.getLast?_isSome.2 String.utf8EncodeChar_ne_nil
    have hc : c = '\r' := Char.toNat_inj.1
      ((mem_utf8EncodeChar_iff (n := 13) (by decide)).1 (List.mem_of_getLast? hlast))
    subst hc
    exact ⟨t, List.concat_eq_append, (encode_ofList t).trans (List.append_inj_left' h rfl)⟩

theorem decode?_concat_return (b : Bytes) : decode? (b ++ [13]) = (decode? b).map (· ++ "\r") := by
  cases h : decode? b with
  | some s =>
    have hbytes : b ++ [13] = encode (s ++ "\r") := by
      have hreturn : encode "\r" = [13] := encode_ofList ['\r']
      rw [encode_append, encode_of_decode? h, hreturn]
    rw [hbytes, decode?_encode, Option.map_some]
  | none =>
    cases h' : decode? (b ++ [13]) with
    | none => rfl
    | some s =>
      obtain ⟨t, -, rfl⟩ := exists_of_encode_eq_concat (s := s.toList) (by
        rw [String.ofList_toList, encode_of_decode? h'])
      rw [decode?_encode] at h
      cases h

/-! ## Lines -/

section Lines

variable {α : Type} [DecidableEq α] {lf cr : α}

theorem breakAt_of_not_mem {l : List α} (h : lf ∉ l) : breakAt lf l = ([], l) := by
  induction l with
  | nil => rfl
  | cons x l ih =>
    rw [List.mem_cons, not_or] at h
    obtain ⟨hx, hl⟩ := h
    simp [breakAt, ih hl, Ne.symm hx]

theorem linesOf_of_not_mem {l : List α} (h : lf ∉ l) :
    linesOf lf cr l = if l.isEmpty then [] else [l] := by
  rw [linesOf, breakAt_of_not_mem h]
  rfl

/-- The first line feed ends the first line. -/
theorem linesOf_append {l : List α} (h : lf ∉ l) (s : List α) :
    linesOf lf cr (l ++ lf :: s) = dropReturn cr l :: linesOf lf cr s := by
  rw [linesOf, linesOf, breakAt_append, breakAt_of_not_mem h]
  rfl

/-- What is the same with a carriage return at the end is the same for what is left of a line. -/
theorem apply_dropReturn {β : Type} {f : List α → β} (hf : ∀ l, f (l ++ [cr]) = f l) (l : List α) :
    f (dropReturn cr l) = f l := by
  rw [dropReturn]
  split
  · rename_i hlast
    obtain ⟨rest, rfl⟩ := List.getLast?_eq_some_iff.1 hlast
    rw [List.dropLast_concat, hf]
  · rfl

theorem breakAt_flatMap {ls : List (List α)} (h : ∀ l ∈ ls, lf ∉ l) :
    breakAt lf (ls.flatMap (· ++ [lf])) = (ls, []) := by
  induction ls with
  | nil => rfl
  | cons l ls ih =>
    obtain ⟨hl, hls⟩ := List.forall_mem_cons.1 h
    rw [List.flatMap_cons, List.append_assoc, List.singleton_append, breakAt_append,
      breakAt_of_not_mem hl, ih hls]
    rfl

/-- Lines that are written with their ends are found again, unless one ends like an end itself. -/
theorem linesOf_flatMap {ls : List (List α)} (h : ∀ l ∈ ls, lf ∉ l ∧ l.getLast? ≠ some cr) :
    linesOf lf cr (ls.flatMap (· ++ [lf])) = ls := by
  have hdrop (l : List α) (hl : l ∈ ls) : dropReturn cr l = l := if_neg (h l hl).2
  rw [linesOf, breakAt_flatMap fun l hl => (h l hl).1]
  simp [List.map_congr_left hdrop]

end Lines

end Upkeep.Text
