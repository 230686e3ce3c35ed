import Askozia.Php.Text
import Askozia.Php.Value

/-!
# The characters stored in a value

Texts taken out of a value are made of its own characters, numbers apart, so that what no
character of a configuration is will not turn up in a text made from it.
-/

namespace Askozia
namespace Php
namespace Val

mutual

/-- The characters of the strings in a value. -/
def chars : Val → List Char
  | str s => s.toList
  | arr es => charsOfEntries es
  | _ => []

/-- The characters of the strings in some entries. -/
def charsOfEntries : List (Key × Val) → List Char
  | [] => []
  | (_, v) :: r => chars v ++ charsOfEntries r

end

/-- The characters of some entries, entry by entry. Keys do not count. -/
theorem charsOfEntries_eq (es : List (Key × Val)) :
    charsOfEntries es = es.flatMap fun e => e.2.chars := by
  induction es with
  | nil => rw [charsOfEntries, List.flatMap_nil]
  | cons e r ih =>
    obtain ⟨k, v⟩ := e
    rw [charsOfEntries, ih, List.flatMap_cons]

/-- The characters of an array are those of its values. -/
@[simp] theorem chars_arr (es : List (Key × Val)) :
    (arr es).chars = es.flatMap fun e => e.2.chars := by
  rw [chars, charsOfEntries_eq]

@[simp] theorem chars_str (s : String) : (str s).chars = s.toList := by rw [chars]

@[simp] theorem chars_null : null.chars = [] := by simp [chars]

section Subset

variable {v x : Val} {k : Key}

/-- The value of an entry has no characters but those of the array. -/
theorem chars_of_mem_entries {e : Key × Val} {es : List (Key × Val)} (h : e ∈ es) :
    e.2.chars ⊆ (arr es).chars := by
  intro c hc
  rw [chars_arr]
  exact List.mem_flatMap.2 ⟨e, h, hc⟩

/-- Nor has an element of a list. -/
theorem chars_of_mem_vals (h : x ∈ v.vals) : x.chars ⊆ v.chars := by
  cases v with
  | arr es =>
    obtain ⟨e, he, rfl⟩ := List.mem_map.1 h
    exact chars_of_mem_entries he
  | _ => cases h

/-- Reading makes up no characters: the first letter of a text is one of its own. -/
theorem chars_idx : (v.idx k).chars ⊆ v.chars := by
  intro c hc
  cases v with
  | arr es =>
    rw [idx_arr] at hc
    cases hlookup : es.lookup k with
    | none =>
      rw [hlookup] at hc
      cases hc
    | some y =>
      rw [hlookup] at hc
      exact chars_of_mem_entries (mem_of_lookup hlookup) hc
  | str s =>
    rw [chars_str]
    cases k with
    | int n =>
      rw [idx, chars_str, String.toList_ofList, Option.mem_toList] at hc
      exact List.mem_of_getElem? hc
    | str f =>
      rw [idx, chars_str, String.toList_ofList, Option.mem_toList] at hc
      exact List.mem_of_mem_head? hc
  | _ => cases hc

/-- Nor does reading a field. -/
theorem chars_get {f : String} : (v.get f).chars ⊆ v.chars := chars_idx

/-- After an assignment there are those of the value before and those of what was assigned. -/
theorem chars_set : (v.set k x).chars ⊆ v.chars ++ x.chars := by
  intro c hc
  rw [set, chars_arr, List.mem_flatMap] at hc
  obtain ⟨e, he, hc⟩ := hc
  rcases mem_setEntry he with rfl | he
  · exact List.mem_append_right _ hc
  · cases v with
    | arr es => exact List.mem_append_left _ (chars_of_mem_entries he hc)
    | _ => cases he

/-- The same after appending. -/
theorem chars_push : (v.push x).chars ⊆ v.chars ++ x.chars := chars_set

/-- A list that is written has the characters of its elements. -/
theorem chars_ofList {xs : List Val} : (ofList xs).chars ⊆ xs.flatMap chars := by
  intro c hc
  rw [ofList, chars_arr, List.mem_flatMap] at hc
  obtain ⟨e, he, hc⟩ := hc
  obtain ⟨p, hp, rfl⟩ := List.mem_map.1 he
  exact List.mem_flatMap.2 ⟨p.1, List.fst_mem_of_mem_zipIdx hp, hc⟩

/-! ## Printed values -/

/-- A natural number is written in digits. -/
theorem isDigit_of_mem_toString_nat {c : Char} {n : ℕ} (h : c ∈ (toString n).toList) :
    c.isDigit = true := by
  rw [Nat.toString_eq_ofList_toDigits, String.toList_ofList] at h
  exact Nat.isDigit_of_mem_toDigits (by decide) (by decide) h

/-- It is written with at least one. -/
theorem toString_ne_nil {n : ℕ} : (toString n).toList ≠ [] := by
  rw [Nat.toString_eq_ofList_toDigits, String.toList_ofList]
  exact Nat.toDigits_ne_nil

/-- Reading the digits that a number is written in gives the number. -/
theorem digitsValue_toString (n : ℕ) : Val.digitsValue (toString n).toList = n := by
  have hdigits := Nat.ofDigitChars_ten_toDigits (n := n)
  rw [Nat.ofDigitChars_eq_foldl] at hdigits
  rw [Nat.toString_eq_ofList_toDigits, String.toList_ofList]
  exact hdigits

/-- An integer is written in digits and a minus. -/
theorem isDigit_of_mem_toString {c : Char} {n : ℤ} (h : c ∈ (toString n).toList) :
    c.isDigit = true ∨ c = '-' := by
  cases n with
  | ofNat m => exact .inl (isDigit_of_mem_toString_nat h)
  | negSucc m =>
    have hminus : (toString (Int.negSucc m)).toList = '-' :: (toString (m + 1)).toList := by
      show ("-" ++ (m + 1).repr).toList = _
      rw [String.toList_append]
      rfl
    rw [hminus, List.mem_cons] at h
    rcases h with h | h
    · exact .inr h
    · exact .inl (isDigit_of_mem_toString_nat h)

/-- A character that is no part of a number, nor of what other values are printed as. -/
theorem mem_chars_of_mem_toStr {c : Char} (hc : c ∉ "Array".toList ++ "1".toList)
    (hdigit : c.isDigit = false) (hminus : c ≠ '-') (h : c ∈ v.toStr.toList) : c ∈ v.chars := by
  cases v with
  | null => cases h
  | bool b =>
    cases b with
    | false => cases h
    | true => exact absurd (List.mem_append_right _ h) hc
  | int n =>
    rcases isDigit_of_mem_toString h with h | h
    · rw [h] at hdigit
      cases hdigit
    · exact absurd h hminus
  | str s => rwa [chars_str]
  | arr es => exact absurd (List.mem_append_left _ h) hc

end Subset

end Val
end Php
end Askozia
