import Askozia.Php.Chars

/-!
# Values without some characters

Some characters must not get into a file. A value that lacks them, in its texts and in its keys,
can be taken apart and put together, and still lacks them.
-/

namespace Askozia
namespace Php

/-- No such character is in the text. -/
def TextLacks (bad : Char → Bool) (s : String) : Prop := ∀ c ∈ s.toList, bad c = false

instance (bad : Char → Bool) (s : String) : Decidable (TextLacks bad s) :=
  inferInstanceAs (Decidable (∀ c ∈ s.toList, bad c = false))

/-- No such character is in the key. -/
def KeyLacks (bad : Char → Bool) : Key → Prop
  | .int _ => True
  | .str s => TextLacks bad s

/-- The characters that values are printed with which are no texts. -/
def Spares (bad : Char → Bool) : Prop :=
  ∀ c, bad c = true → c ∉ "Array".toList ++ "1".toList ∧ c.isDigit = false ∧ c ≠ '-'

/-- There is nothing to lack in the empty text. -/
theorem textLacks_empty (bad : Char → Bool) : TextLacks bad "" := fun _ hc => absurd hc List.not_mem_nil

/-- Joining two texts adds no characters. -/
theorem TextLacks.append {bad : Char → Bool} {s t : String} (hs : TextLacks bad s) (ht : TextLacks bad t) :
    TextLacks bad (s ++ t) := by
  intro c hc
  rw [String.toList_append, List.mem_append] at hc
  rcases hc with hc | hc
  · exact hs c hc
  · exact ht c hc

/-- The parts of a text lack what it lacks. -/
theorem TextLacks.of_append {bad : Char → Bool} {s t : String} (h : TextLacks bad (s ++ t)) :
    TextLacks bad s ∧ TextLacks bad t := by
  constructor
  · intro c hc
    apply h
    rw [String.toList_append]
    exact List.mem_append_left _ hc
  · intro c hc
    apply h
    rw [String.toList_append]
    exact List.mem_append_right _ hc

namespace Val

mutual

/-- No such character is in a text of the value, nor in a key. -/
def Lacks (bad : Char → Bool) : Val → Prop
  | str s => TextLacks bad s
  | arr es => EntriesLack bad es
  | _ => True

/-- The same for the entries of an array. -/
def EntriesLack (bad : Char → Bool) : List (Key × Val) → Prop
  | [] => True
  | (k, v) :: r => KeyLacks bad k ∧ Lacks bad v ∧ EntriesLack bad r

end

-- what a value is computed to is not needed to speak of its characters
attribute [irreducible] Lacks EntriesLack

section Lacks

variable {bad : Char → Bool} {v w : Val} {k : Key} {es : List (Key × Val)}

/-- Entries lack a character when every key and every value does. -/
theorem entriesLack_iff : EntriesLack bad es ↔ ∀ e ∈ es, KeyLacks bad e.1 ∧ e.2.Lacks bad := by
  induction es with
  | nil =>
    rw [EntriesLack]
    exact ⟨fun _ e he => absurd he List.not_mem_nil, fun _ => trivial⟩
  | cons e r ih =>
    obtain ⟨k, v⟩ := e
    rw [EntriesLack, ih, List.forall_mem_cons, and_assoc]

/-- So does an array. -/
theorem lacks_arr : (arr es).Lacks bad ↔ ∀ e ∈ es, KeyLacks bad e.1 ∧ e.2.Lacks bad := by
  rw [Lacks, entriesLack_iff]

theorem lacks_null : null.Lacks bad := by simp only [Lacks]

theorem lacks_bool (b : Bool) : (bool b).Lacks bad := by simp only [Lacks]

/-- A text lacks a character when none of its own is one. -/
theorem lacks_str {s : String} : (str s).Lacks bad ↔ TextLacks bad s := by rw [Lacks]

theorem lacks_empty : (arr []).Lacks bad := lacks_arr.2 fun _ he => absurd he List.not_mem_nil

/-- What is found in an array lacks what the array lacks. -/
theorem lacks_of_lookup (h : (arr es).Lacks bad) (hx : es.lookup k = some w) : w.Lacks bad :=
  (lacks_arr.1 h _ (mem_of_lookup hx)).2

/-- Reading under a key gives an element, a letter of a text, or nothing. -/
theorem lacks_idx (h : v.Lacks bad) (k : Key) : (v.idx k).Lacks bad := by
  cases v with
  | arr es =>
    rw [idx_arr]
    cases hx : es.lookup k with
    | none => exact lacks_null
    | some x => exact lacks_of_lookup h hx
  | str s =>
    rw [lacks_str] at h
    cases k with
    | int n =>
      rw [idx, lacks_str]
      intro c hc
      rw [String.toList_ofList, Option.mem_toList] at hc
      exact h c (List.mem_of_getElem? hc)
    | str f =>
      rw [idx, lacks_str]
      intro c hc
      rw [String.toList_ofList, Option.mem_toList] at hc
      exact h c (List.mem_of_mem_head? hc)
  | _ => exact lacks_null

/-- The elements of a list lack what the list lacks. -/
theorem lacks_of_mem_vals (h : v.Lacks bad) (hw : w ∈ v.vals) : w.Lacks bad := by
  cases v with
  | arr es =>
    obtain ⟨e, he, rfl⟩ := List.mem_map.1 hw
    exact (lacks_arr.1 h e he).2
  | _ => cases hw

/-- Assigning what lacks a character, under a key that does, to what lacks it. -/
theorem lacks_set (hv : v.Lacks bad) (hk : KeyLacks bad k) (hw : w.Lacks bad) : (v.set k w).Lacks bad := by
  rw [set, lacks_arr]
  intro e he
  rcases mem_setEntry he with rfl | he
  · exact ⟨hk, hw⟩
  · cases v with
    | arr es => exact lacks_arr.1 hv e he
    | _ => cases he

/-- A new element is put under a number, which is written in digits. -/
theorem lacks_push (hv : v.Lacks bad) (hw : w.Lacks bad) : (v.push w).Lacks bad :=
  lacks_set hv trivial hw

/-- A list that is written has numbers for keys. -/
theorem lacks_ofList {xs : List Val} (h : ∀ x ∈ xs, x.Lacks bad) : (ofList xs).Lacks bad := by
  rw [ofList, lacks_arr]
  intro e he
  obtain ⟨p, hp, rfl⟩ := List.mem_map.1 he
  exact ⟨trivial, h p.1 (List.fst_mem_of_mem_zipIdx hp)⟩

/-- A value is printed without them. -/
theorem textLacks_toStr (hbad : Spares bad) (h : v.Lacks bad) : TextLacks bad v.toStr := by
  intro c hc
  by_contra hend
  rw [Bool.not_eq_false] at hend
  obtain ⟨hword, hdigit, hminus⟩ := hbad c hend
  cases v with
  | str s =>
    rw [lacks_str.1 h c hc] at hend
    cases hend
  | arr es => exact hword (List.mem_append_left _ hc)
  | null => cases hc
  | bool b =>
    cases b with
    | false => cases hc
    | true => exact hword (List.mem_append_right _ hc)
  | int n =>
    rcases isDigit_of_mem_toString hc with hc | hc
    · rw [hc] at hdigit
      cases hdigit
    · exact hminus hc

end Lacks

end Val
end Php
end Askozia
