import Mathlib.Data.List.Basic
import Mathlib.Data.List.DropRight
import Mathlib.Data.List.TakeWhile
import Mathlib.Tactic.Common

/-!
# PHP string functions

Character-level functions on strings, by structural recursion on the characters so that
they evaluate in the kernel.
-/

namespace Askozia
namespace Php

-- `Char` is finite, and a search over all characters would be found first
/-- A property of every character of a text is decided on the text. -/
instance decidableForallChars (l : List Char) (p : Char → Prop) [DecidablePred p] :
    Decidable (∀ c ∈ l, p c) :=
  List.decidableBAll p l

/-- `strtoupper`, in the C locale. -/
def strtoupper (s : String) : String := String.ofList (s.toList.map Char.toUpper)

/-- `strtolower`, in the C locale. -/
def strtolower (s : String) : String := String.ofList (s.toList.map Char.toLower)

/-- `trim($s, $chars)`, on characters. -/
def trimChars (chars : List Char) (s : List Char) : List Char :=
  ((s.dropWhile (chars.contains ·)).reverse.dropWhile (chars.contains ·)).reverse

/-- `trim($s, $chars)`. -/
def trim (s chars : String) : String := String.ofList (trimChars chars.toList s.toList)

/-- `str_repeat($s, $n)`. -/
def strRepeat (s : String) : ℕ → String
  | 0 => ""
  | n + 1 => s ++ strRepeat s n

/-- The text `htmlspecialchars` writes for a character, with its default `ENT_COMPAT`. -/
def htmlspecialchar (c : Char) : List Char :=
  if c = '&' then "&amp;".toList
  else if c = '"' then "&quot;".toList
  else if c = '<' then "&lt;".toList
  else if c = '>' then "&gt;".toList
  else [c]

/-- `htmlspecialchars($s)`. -/
def htmlspecialchars (s : String) : String := String.ofList (s.toList.flatMap htmlspecialchar)

/-- `explode($sep, $s)`, on characters. -/
def explodeChars (sep : Char) : List Char → List (List Char)
  | [] => [[]]
  | c :: r =>
    if c = sep then [] :: explodeChars sep r
    else
      match explodeChars sep r with
      | [] => [[c]]
      | p :: ps => (c :: p) :: ps

/-- `explode($sep, $s)`. -/
def explode (sep : Char) (s : String) : List String :=
  (explodeChars sep s.toList).map String.ofList

/-- `implode($sep, $pieces)`. -/
def implode (sep : String) : List String → String
  | [] => ""
  | [p] => p
  | p :: ps => p ++ sep ++ implode sep ps

/-- `strpos($s, $needle)`, on characters. -/
def strposChars (needle : List Char) : List Char → Option ℕ
  | [] => if needle = [] then some 0 else none
  | c :: r =>
    if needle.isPrefixOf (c :: r) then some 0 else (strposChars needle r).map (· + 1)

/-- `strpos($s, $needle)`. -/
def strpos (s needle : String) : Option ℕ := strposChars needle.toList s.toList

/-- `strstr($s, $needle)` as a condition. -/
def strstr (s needle : String) : Bool := (strpos s needle).isSome

/-- The value of a base64 digit. A space stands for the plus it was before it was posted. -/
def base64Digit (c : Char) : Option ℕ :=
  if 'A' ≤ c ∧ c ≤ 'Z' then some (c.toNat - 'A'.toNat)
  else if 'a' ≤ c ∧ c ≤ 'z' then some (c.toNat - 'a'.toNat + 26)
  else if '0' ≤ c ∧ c ≤ '9' then some (c.toNat - '0'.toNat + 52)
  else if c = '+' ∨ c = ' ' then some 62
  else if c = '/' then some 63
  else none

/-- The bytes of a list of base64 digits. -/
def base64Bytes : List ℕ → List ℕ
  | a :: b :: c :: d :: r =>
    (4 * a + b / 16) :: (16 * (b % 16) + c / 4) :: (64 * (c % 4) + d) :: base64Bytes r
  | [a, b, c] => [4 * a + b / 16, 16 * (b % 16) + c / 4]
  | [a, b] => [4 * a + b / 16]
  | _ => []

/-- `base64_decode($s)`: other characters are skipped, and the first `=` ends the text. What is `false` for
an `=` after less than two digits of a group is the empty string. -/
def base64Decode (s : String) : String :=
  let code := s.toList.takeWhile fun c => c ≠ '=' ∧ c ≠ '\x00'
  let digits := code.filterMap base64Digit
  if (s.toList.drop code.length).head? = some '=' ∧ digits.length % 4 < 2 then ""
  else String.ofList ((base64Bytes digits).map Char.ofNat)

/-- `verify_is_numericint($s)`: nothing but digits, so also nothing at all. -/
def verifyIsNumericint (s : String) : Bool := s.toList.all Char.isDigit

@[simp] theorem htmlspecialchars_toList (s : String) :
    (htmlspecialchars s).toList = s.toList.flatMap htmlspecialchar := by
  rw [htmlspecialchars, String.toList_ofList]

@[simp] theorem trim_toList (s chars : String) :
    (trim s chars).toList = trimChars chars.toList s.toList := by
  rw [trim, String.toList_ofList]

section Trim

variable {chars s : List Char}

theorem trimChars_eq_rdropWhile :
    trimChars chars s = (s.dropWhile (chars.contains ·)).rdropWhile (chars.contains ·) := rfl

theorem mem_of_mem_trimChars {c : Char} (h : c ∈ trimChars chars s) : c ∈ s := by
  rw [trimChars_eq_rdropWhile] at h
  exact (List.dropWhile_sublist _).subset ((List.rdropWhile_prefix _ _).subset h)

theorem head_trimChars {c : Char} (h : (trimChars chars s).head? = some c) : c ∉ chars := by
  rw [trimChars_eq_rdropWhile] at h
  obtain ⟨r, hr⟩ := List.rdropWhile_prefix (chars.contains ·) (s.dropWhile (chars.contains ·))
  have hhead : (s.dropWhile (chars.contains ·)).head? = some c := by
    rw [← hr, List.head?_append, h]
    rfl
  have hnot := List.head?_dropWhile_not (chars.contains ·) s
  rw [hhead] at hnot
  simpa using hnot

theorem last_trimChars {c : Char} (h : (trimChars chars s).getLast? = some c) : c ∉ chars := by
  rw [trimChars, List.getLast?_reverse] at h
  have hnot := List.head?_dropWhile_not (chars.contains ·)
    (s.dropWhile (chars.contains ·)).reverse
  rw [h] at hnot
  simpa using hnot

end Trim

/-- Nothing is trimmed from a text that neither starts nor ends with a trimmed character. -/
theorem trimChars_eq_self {chars s : List Char} (hhead : ∀ c ∈ s.head?, c ∉ chars)
    (hlast : ∀ c ∈ s.getLast?, c ∉ chars) : trimChars chars s = s := by
  have hdrop : ∀ l : List Char, (∀ c ∈ l.head?, c ∉ chars) → l.dropWhile (chars.contains ·) = l := by
    intro l hl
    cases l with
    | nil => rfl
    | cons c r =>
      have hc : chars.contains c = false := by simpa using hl c rfl
      rw [List.dropWhile_cons, hc]
      rfl
  rw [trimChars, hdrop s hhead, hdrop s.reverse (by rwa [List.head?_reverse]), List.reverse_reverse]

theorem trim_eq_self {s chars : String} (hhead : ∀ c ∈ s.toList.head?, c ∉ chars.toList)
    (hlast : ∀ c ∈ s.toList.getLast?, c ∉ chars.toList) : trim s chars = s := by
  rw [trim, trimChars_eq_self hhead hlast, String.ofList_toList]

/-- Everything is trimmed from a text of trimmed characters. -/
theorem trim_eq_empty {s chars : String} (h : ∀ c ∈ s.toList, c ∈ chars.toList) :
    trim s chars = "" := by
  have hdrop : s.toList.dropWhile (chars.toList.contains ·) = [] := by
    rw [List.dropWhile_eq_nil_iff]
    intro c hc
    simpa using h c hc
  rw [trim, trimChars, hdrop]
  rfl

/-- A text that starts with a character that is not trimmed is not trimmed away. -/
theorem trim_ne_empty {s chars : String} {c : Char} {r : List Char} (hs : s.toList = c :: r)
    (hc : c ∉ chars.toList) : trim s chars ≠ "" := by
  intro h
  have hnil : trimChars chars.toList s.toList = [] := by
    rw [← trim_toList, h]
    rfl
  have hfirst : s.toList.dropWhile (chars.toList.contains ·) = c :: r := by
    rw [hs, List.dropWhile_cons, show chars.toList.contains c = false by simpa using hc]
    rfl
  rw [trimChars, hfirst, List.reverse_eq_nil_iff, List.dropWhile_eq_nil_iff] at hnil
  have hmem := hnil c (by simp)
  simp only [List.contains_iff_mem] at hmem
  exact hc hmem

/-- Folding a seven-bit character to upper case does not change its lower case. -/
theorem toLower_toUpper {c : Char} (h : c.toNat < 128) : c.toUpper.toLower = c.toLower := by
  have hall : ∀ n < 128, (Char.ofNat n).toUpper.toLower = (Char.ofNat n).toLower := by decide
  have hchar := hall c.toNat h
  rwa [Char.ofNat_toNat] at hchar

theorem strtolower_strtoupper {s : String} (h : ∀ c ∈ s.toList, c.toNat < 128) :
    strtolower (strtoupper s) = strtolower s := by
  simp only [strtolower, strtoupper, String.toList_ofList, List.map_map]
  congr 1
  exact List.map_congr_left fun c hc => toLower_toUpper (h c hc)

section Explode

theorem explodeChars_ne_nil (sep : Char) (s : List Char) : explodeChars sep s ≠ [] := by
  cases s with
  | nil => simp [explodeChars]
  | cons c r =>
    unfold explodeChars
    split_ifs with h
    · simp
    · cases explodeChars sep r <;> simp

theorem explodeChars_append (sep : Char) (s t : List Char) :
    explodeChars sep (s ++ sep :: t) = explodeChars sep s ++ explodeChars sep t := by
  induction s with
  | nil => simp [explodeChars]
  | cons c r ih =>
    rw [List.cons_append, explodeChars, explodeChars, ih]
    split_ifs with h
    · rfl
    · cases hr : explodeChars sep r with
      | nil => exact absurd hr (explodeChars_ne_nil sep r)
      | cons p ps => rfl

theorem not_mem_of_mem_explodeChars {sep : Char} {s cs : List Char} (h : cs ∈ explodeChars sep s) :
    sep ∉ cs := by
  induction s generalizing cs with
  | nil =>
    rw [explodeChars, List.mem_singleton] at h
    simp [h]
  | cons c r ih =>
    rw [explodeChars] at h
    split_ifs at h with hc
    · rcases List.mem_cons.1 h with rfl | h
      · simp
      · exact ih h
    · cases hr : explodeChars sep r with
      | nil => exact absurd hr (explodeChars_ne_nil sep r)
      | cons w ws =>
        rw [hr] at h ih
        rcases List.mem_cons.1 h with rfl | h
        · rw [List.mem_cons, not_or]
          exact ⟨Ne.symm hc, ih List.mem_cons_self⟩
        · exact ih (List.mem_cons_of_mem _ h)

theorem explodeChars_of_not_mem {sep : Char} {s : List Char} (h : sep ∉ s) :
    explodeChars sep s = [s] := by
  induction s with
  | nil => rfl
  | cons c r ih =>
    rw [List.mem_cons, not_or] at h
    rw [explodeChars, if_neg (Ne.symm h.1), ih h.2]

/-- Pieces that are joined are split again. -/
theorem explode_implode {sep : String} {c : Char} (hsep : sep.toList = [c]) {pieces : List String}
    (hne : pieces ≠ []) (h : ∀ p ∈ pieces, c ∉ p.toList) :
    explode c (implode sep pieces) = pieces := by
  induction pieces with
  | nil => exact absurd rfl hne
  | cons p r ih =>
    have hp : c ∉ p.toList := h p List.mem_cons_self
    cases r with
    | nil =>
      rw [implode, explode, explodeChars_of_not_mem hp, List.map_singleton, String.ofList_toList]
    | cons q r =>
      have hr := ih (List.cons_ne_nil q r) fun p hp => h p (List.mem_cons_of_mem _ hp)
      have hchars : (p ++ sep ++ implode sep (q :: r)).toList =
          p.toList ++ c :: (implode sep (q :: r)).toList := by
        rw [String.toList_append, String.toList_append, hsep, List.append_assoc,
          List.singleton_append]
      have hcut : explode c (p ++ sep ++ implode sep (q :: r)) =
          p :: explode c (implode sep (q :: r)) := by
        rw [explode, hchars, explodeChars_append, explodeChars_of_not_mem hp, List.map_append,
          List.map_singleton, String.ofList_toList, ← explode, List.singleton_append]
      rw [implode, hcut, hr]
      exact List.cons_ne_nil q r

end Explode

end Php
end Askozia
