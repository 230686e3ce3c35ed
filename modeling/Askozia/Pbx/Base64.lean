import Askozia.Pbx.Verify

/-!
# Base 64

What is encoded has base 64 digits only, and is decoded again.
-/

namespace Askozia
namespace Pbx

open Php

/-- What holds of the digits and of the padding holds of every character of an encoded text. -/
theorem forall_mem_base64Encode {P : Char → Prop} (hdigit : ∀ n < 64, P (base64Char n)) (hpad : P '=')
    (s : String) : ∀ c ∈ (base64Encode s).toList, P c := by
  have hchar : ∀ n, P (base64Char n) := by
    intro n
    by_cases hn : n < 64
    · exact hdigit n hn
    · have hslash : base64Char n = base64Char 63 := by
        unfold base64Char
        rw [if_neg (by omega), if_neg (by omega), if_neg (by omega), if_neg (by omega)]
        rfl
      rw [hslash]
      exact hdigit 63 (by omega)
  rw [base64Encode, String.toList_ofList]
  generalize s.toList.map Char.toNat = bytes
  fun_induction base64EncodeBytes bytes with
  | case1 a b c r ih =>
    simp only [List.forall_mem_cons]
    exact ⟨hchar _, hchar _, hchar _, hchar _, ih⟩
  | case2 a b =>
    simp only [List.forall_mem_cons]
    exact ⟨hchar _, hchar _, hchar _, hpad, List.forall_mem_nil _⟩
  | case3 a =>
    simp only [List.forall_mem_cons]
    exact ⟨hchar _, hchar _, hpad, hpad, List.forall_mem_nil _⟩
  | case4 => exact List.forall_mem_nil _

theorem base64Digit_base64Char {n : ℕ} (h : n < 64) : base64Digit (base64Char n) = some n := by
  have hall : ∀ n < 64, base64Digit (base64Char n) = some n := by decide
  exact hall n h

theorem base64Char_ne {n : ℕ} (h : n < 64) : base64Char n ≠ '=' ∧ base64Char n ≠ '\x00' := by
  have hall : ∀ n < 64, base64Char n ≠ '=' ∧ base64Char n ≠ '\x00' := by decide
  exact hall n h

/-- Encoded bytes are digits that give the bytes again, and padding after two or three of a group. -/
theorem exists_digits {bytes : List ℕ} (h : ∀ b ∈ bytes, b < 256) :
    ∃ digits pad, base64EncodeBytes bytes = digits.map base64Char ++ pad ∧ (∀ n ∈ digits, n < 64) ∧
      base64Bytes digits = bytes ∧ (pad = [] ∨ (pad.head? = some '=' ∧ 2 ≤ digits.length % 4)) := by
  -- three bytes at a time; one or two are left at the end
  fun_induction base64EncodeBytes bytes with
  | case1 a b c r ih =>
    have ha : a < 256 := h a (by simp)
    have hb : b < 256 := h b (by simp)
    have hc : c < 256 := h c (by simp)
    obtain ⟨digits, pad, hencode, hsmall, hbytes, hpad⟩ := ih fun b hb => h b (by simp [hb])
    refine ⟨a / 4 :: (16 * (a % 4) + b / 16) :: (4 * (b % 16) + c / 64) :: c % 64 :: digits, pad, ?_, ?_, ?_, ?_⟩
    · rw [hencode]
      rfl
    · simp only [List.forall_mem_cons]
      exact ⟨by omega, by omega, by omega, by omega, hsmall⟩
    · rw [base64Bytes, hbytes]
      congr 1
      · omega
      congr 1
      · omega
      congr 1
      omega
    · refine hpad.imp_right fun hpad => ⟨hpad.1, ?_⟩
      simp only [List.length_cons]
      omega
  | case2 a b =>
    have ha : a < 256 := h a (by simp)
    have hb : b < 256 := h b (by simp)
    refine ⟨[a / 4, 16 * (a % 4) + b / 16, 4 * (b % 16)], ['='], rfl, ?_, ?_,
      .inr ⟨rfl, show 2 ≤ 3 % 4 by decide⟩⟩
    · simp only [List.forall_mem_cons]
      exact ⟨by omega, by omega, by omega, List.forall_mem_nil _⟩
    · rw [base64Bytes]
      congr 1
      · omega
      congr 1
      omega
  | case3 a =>
    have ha : a < 256 := h a (by simp)
    refine ⟨[a / 4, 16 * (a % 4)], ['=', '='], rfl, ?_, ?_, .inr ⟨rfl, show 2 ≤ 2 % 4 by decide⟩⟩
    · simp only [List.forall_mem_cons]
      exact ⟨by omega, by omega, List.forall_mem_nil _⟩
    · rw [base64Bytes]
      congr 1
      omega
  | case4 => exact ⟨[], [], rfl, List.forall_mem_nil _, rfl, .inl rfl⟩

/-- A text of bytes is decoded as it was encoded. -/
theorem base64Decode_encode {s : String} (h : ∀ c ∈ s.toList, c.toNat < 256) :
    base64Decode (base64Encode s) = s := by
  have hbytes : ∀ b ∈ s.toList.map Char.toNat, b < 256 := by
    intro b hb
    obtain ⟨c, hc, rfl⟩ := List.mem_map.1 hb
    exact h c hc
  obtain ⟨digits, pad, hencode, hsmall, hdecode, hpad⟩ := exists_digits hbytes
  have hcode : ∀ c ∈ digits.map base64Char, decide (c ≠ '=' ∧ c ≠ '\x00') = true := by
    intro c hc
    obtain ⟨n, hn, rfl⟩ := List.mem_map.1 hc
    exact decide_eq_true (base64Char_ne (hsmall n hn))
  -- the decoder stops at the padding
  have hstop : pad.takeWhile (fun c => decide (c ≠ '=' ∧ c ≠ '\x00')) = [] := by
    rcases hpad with rfl | ⟨hhead, -⟩
    · rfl
    · cases pad with
      | nil => rfl
      | cons c r =>
        obtain rfl := Option.some.inj hhead
        rfl
  have htake : (digits.map base64Char ++ pad).takeWhile (fun c => decide (c ≠ '=' ∧ c ≠ '\x00')) =
      digits.map base64Char := by
    rw [List.takeWhile_append_of_pos hcode, hstop, List.append_nil]
  have hdigits : (digits.map base64Char).filterMap base64Digit = digits := by
    rw [List.filterMap_map]
    conv_rhs => rw [← List.filterMap_some (l := digits)]
    exact List.filterMap_congr fun n hn => base64Digit_base64Char (hsmall n hn)
  have hgroup : ¬ (pad.head? = some '=' ∧ digits.length % 4 < 2) := by
    rintro ⟨hhead, hlt⟩
    rcases hpad with rfl | ⟨-, hle⟩
    · cases hhead
    · omega
  rw [base64Decode, base64Encode, String.toList_ofList, hencode, htake, hdigits, List.drop_left, if_neg hgroup, hdecode, List.map_map]
  have hid : s.toList.map (Char.ofNat ∘ Char.toNat) = s.toList := by
    conv_rhs => rw [← List.map_id s.toList]
    exact List.map_congr_left fun c _ => Char.ofNat_toNat c
  rw [hid, String.ofList_toList]

end Pbx
end Askozia
