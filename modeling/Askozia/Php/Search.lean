import Askozia.Php.Text
import Mathlib.Data.List.Infix

/-!
# Texts in texts

`strpos` gives the first place where a text is found. That place stays the same when more text is
appended, and when text before it is cut off.
-/

namespace Askozia
namespace Php

section Search

variable {needle s t : List Char} {n k : ℕ}

/-- The first place. -/
theorem strposChars_eq_some_iff (hne : needle ≠ []) :
    strposChars needle s = some n ↔ needle <+: s.drop n ∧ ∀ m < n, ¬ needle <+: s.drop m := by
  -- the needle is here, or its first place is that of the rest, one further
  induction s generalizing n with
  | nil =>
    rw [strposChars, if_neg hne, List.drop_nil]
    refine iff_of_false nofun ?_
    rintro ⟨h, -⟩
    exact hne (List.prefix_nil.1 h)
  | cons c r ih =>
    rw [strposChars]
    split_ifs with hhere
    · have hstart : needle <+: (c :: r).drop 0 := List.isPrefixOf_iff_prefix.1 hhere
      constructor
      · intro h
        obtain rfl := Option.some.inj h
        exact ⟨hstart, fun m hm => absurd hm (Nat.not_lt_zero m)⟩
      · rintro ⟨-, hfirst⟩
        cases n with
        | zero => rfl
        | succ n => exact absurd hstart (hfirst 0 (Nat.succ_pos n))
    · have hstart : ¬ needle <+: (c :: r).drop 0 := fun h => hhere (List.isPrefixOf_iff_prefix.2 h)
      cases n with
      | zero =>
        refine iff_of_false ?_ fun h => hstart h.1
        intro h
        obtain ⟨m, -, hm⟩ := Option.map_eq_some_iff.1 h
        cases hm
      | succ n =>
        have hmap : (strposChars needle r).map (· + 1) = some (n + 1) ↔ strposChars needle r = some n := by
          cases strposChars needle r <;> simp
        rw [hmap, ih, List.drop_succ_cons]
        constructor
        · rintro ⟨hfound, hfirst⟩
          refine ⟨hfound, ?_⟩
          intro m hm
          cases m with
          | zero => exact hstart
          | succ m => exact hfirst m (by omega)
        · rintro ⟨hfound, hfirst⟩
          exact ⟨hfound, fun m hm => hfirst (m + 1) (by omega)⟩

theorem length_le_of_strposChars (hne : needle ≠ []) (h : strposChars needle s = some n) :
    n + needle.length ≤ s.length := by
  have hlength := ((strposChars_eq_some_iff hne).1 h).1.length_le
  have hpos := List.length_pos_of_ne_nil hne
  rw [List.length_drop] at hlength
  omega

/-- More text changes nothing. -/
theorem strposChars_append_right (hne : needle ≠ []) (h : strposChars needle s = some n) :
    strposChars needle (s ++ t) = some n := by
  have hlength := length_le_of_strposChars hne h
  have hpos := List.length_pos_of_ne_nil hne
  obtain ⟨hfound, hfirst⟩ := (strposChars_eq_some_iff hne).1 h
  refine (strposChars_eq_some_iff hne).2 ⟨?_, ?_⟩
  · rw [List.drop_append_of_le_length (by omega)]
    exact hfound.trans (List.prefix_append _ _)
  · intro m hm hearlier
    rw [List.drop_append_of_le_length (by omega)] at hearlier
    apply hfirst m hm
    apply List.prefix_of_prefix_length_le hearlier (List.prefix_append _ _)
    rw [List.length_drop]
    omega

/-- Less text before it brings the place nearer. -/
theorem strposChars_drop (hne : needle ≠ []) (h : strposChars needle s = some n) (hk : k ≤ n) :
    strposChars needle (s.drop k) = some (n - k) := by
  obtain ⟨hfound, hfirst⟩ := (strposChars_eq_some_iff hne).1 h
  refine (strposChars_eq_some_iff hne).2 ⟨?_, ?_⟩
  · rw [List.drop_drop, show k + (n - k) = n by omega]
    exact hfound
  · intro m hm
    rw [List.drop_drop]
    exact hfirst (k + m) (by omega)

/-- What a text and its continuation have in common. -/
theorem strposChars_eq_of_append (hne : needle ≠ []) {m : ℕ} (h : strposChars needle s = some m)
    (hmore : strposChars needle (s ++ t) = some n) : m = n := by
  rw [strposChars_append_right hne h] at hmore
  exact Option.some.inj hmore

/-- Enough of the text is enough. -/
theorem strposChars_take (hne : needle ≠ []) (h : strposChars needle s = some n)
    (hk : n + needle.length ≤ k) : strposChars needle (s.take k) = some n := by
  have hpos := List.length_pos_of_ne_nil hne
  obtain ⟨hfound, hfirst⟩ := (strposChars_eq_some_iff hne).1 h
  refine (strposChars_eq_some_iff hne).2 ⟨?_, ?_⟩
  · rw [List.drop_take]
    exact List.prefix_take_iff.2 ⟨hfound, by omega⟩
  · intro m hm hearlier
    rw [List.drop_take] at hearlier
    exact hfirst m hm (hearlier.trans (List.take_prefix _ _))

end Search

/-! ## Characters -/

section Characters

variable {c : Char} {s a b : List Char}

theorem exists_of_strposChars {n : ℕ} (h : strposChars [c] s = some n) :
    ∃ a b, s = a ++ c :: b ∧ c ∉ a ∧ a.length = n := by
  induction s generalizing n with
  | nil => cases h
  | cons d r ih =>
    rw [strposChars] at h
    split_ifs at h with hd
    · obtain rfl := Option.some.inj h
      have hcd : c = d := by simpa using hd
      exact ⟨[], r, by rw [hcd]; rfl, List.not_mem_nil, rfl⟩
    · obtain ⟨m, hm, rfl⟩ := Option.map_eq_some_iff.1 h
      obtain ⟨a, b, rfl, ha, rfl⟩ := ih hm
      have hcd : c ≠ d := by
        rintro rfl
        exact hd (by simp)
      exact ⟨d :: a, b, rfl, by simp [hcd, ha], rfl⟩

theorem not_mem_of_strposChars (h : strposChars [c] s = none) : c ∉ s := by
  induction s with
  | nil => exact List.not_mem_nil
  | cons d r ih =>
    rw [strposChars] at h
    split_ifs at h with hd
    have hcd : c ≠ d := by
      rintro rfl
      exact hd (by simp)
    exact fun hmem => (List.mem_cons.1 hmem).elim hcd (ih (Option.map_eq_none_iff.1 h))

theorem strposChars_append (h : c ∉ a) : strposChars [c] (a ++ c :: b) = some a.length := by
  induction a with
  | nil =>
    rw [List.nil_append, strposChars, if_pos (by simp)]
    rfl
  | cons d r ih =>
    rw [List.mem_cons, not_or] at h
    rw [List.cons_append, strposChars, if_neg (by simpa using h.1), ih h.2]
    rfl

theorem strposChars_of_not_mem (h : c ∉ s) : strposChars [c] s = none := by
  cases hs : strposChars [c] s with
  | none => rfl
  | some n =>
    obtain ⟨a, b, rfl, -, -⟩ := exists_of_strposChars hs
    exact absurd (by simp) h

end Characters

end Php
end Askozia
