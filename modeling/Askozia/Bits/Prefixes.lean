import Mathlib.Data.Nat.Bitwise
import Mathlib.Order.Interval.Set.Basic
import Mathlib.Tactic.Common

/-!
# Words that begin with the same bits

The words of a width that begin with given bits are an interval of numbers. Its ends are the word
with its other bits cleared and the word with its other bits set, and two such intervals are
disjoint unless the shorter beginning is the same in both.

Main results: `highMask_succ` (the mask, made by arithmetic shifts), `and_highMask_eq_iff`,
`agree_iff_mem_block` and `block_inter_nonempty_iff`.
-/

namespace Askozia
namespace Bits

variable {w b c : ℕ} {x y z : BitVec w}

/-- The word whose first `b` bits are set. -/
def highMask (w b : ℕ) : BitVec w := BitVec.allOnes w <<< (w - b)

/-- The first `b` bits of two words are the same. -/
def Agree (b : ℕ) (x y : BitVec w) : Prop := ∀ i < b, x.getMsbD i = y.getMsbD i

/-- The numbers from a word with its other bits cleared to the word with its other bits set. -/
def block (b : ℕ) (x : BitVec w) : Set ℕ :=
  Set.Icc (x &&& highMask w b).toNat (x ||| ~~~highMask w b).toNat

/-! ## The mask -/

theorem getMsbD_highMask (i : ℕ) : (highMask w b).getMsbD i = decide (i < b ∧ i < w) := by
  rw [highMask, BitVec.getMsbD_shiftLeft, BitVec.getMsbD_allOnes, decide_eq_decide]
  omega

@[simp] theorem highMask_zero : highMask w 0 = 0#w := by
  apply BitVec.eq_of_getMsbD_eq
  intro i hi
  rw [getMsbD_highMask]
  simp

/-- A shift that keeps the sign makes room for one more bit. -/
theorem highMask_succ : (highMask w b).sshiftRight 1 ||| BitVec.intMin w = highMask w (b + 1) := by
  apply BitVec.eq_of_getMsbD_eq
  intro i hi
  rw [BitVec.getMsbD_or, BitVec.getMsbD_sshiftRight, BitVec.getMsbD_intMin, getMsbD_highMask,
    getMsbD_highMask]
  cases i with
  | zero => simp [hi]
  | succ i =>
    have hi' : i < w := by omega
    simp [hi, hi']

/-! ## Words that agree -/

theorem Agree.symm (h : Agree b x y) : Agree b y x := fun i hi => (h i hi).symm

theorem Agree.trans (h : Agree b x y) (h' : Agree b y z) : Agree b x z :=
  fun i hi => (h i hi).trans (h' i hi)

theorem Agree.refl (x : BitVec w) : Agree b x x := fun _ _ => rfl

theorem Agree.mono (hc : c ≤ b) (h : Agree b x y) : Agree c x y :=
  fun i hi => h i (lt_of_lt_of_le hi hc)

/-- Words agree if the mask leaves the same of them. -/
theorem and_highMask_eq_iff : x &&& highMask w b = y &&& highMask w b ↔ Agree b x y := by
  constructor
  · intro h i hi
    have hbit := congrArg (fun z => BitVec.getMsbD z i) h
    by_cases hw : i < w
    · simpa [BitVec.getMsbD_and, getMsbD_highMask, hi, hw] using hbit
    · rw [BitVec.getMsbD_of_ge x i (by omega), BitVec.getMsbD_of_ge y i (by omega)]
  · intro h
    apply BitVec.eq_of_getMsbD_eq
    intro i hi
    rw [BitVec.getMsbD_and, BitVec.getMsbD_and, getMsbD_highMask]
    by_cases hb : i < b
    · rw [h i hb]
    · simp [hb]

/-- The first bits, as a number. -/
theorem agree_iff_div : Agree b x y ↔ x.toNat / 2 ^ (w - b) = y.toNat / 2 ^ (w - b) := by
  have hshift : Agree b x y ↔ x >>> (w - b) = y >>> (w - b) := by
    constructor
    · intro h
      apply BitVec.eq_of_getMsbD_eq
      intro i hi
      rw [BitVec.getMsbD_ushiftRight, BitVec.getMsbD_ushiftRight]
      by_cases hlow : i < w - b
      · simp [hlow]
      · rw [h (i - (w - b)) (by omega)]
    · intro h i hi
      have hbit := congrArg (fun z => BitVec.getMsbD z (i + (w - b))) h
      by_cases hw : i < w
      · have hlt : i + (w - b) < w := by omega
        have hlow : ¬ i + (w - b) < w - b := by omega
        simpa [BitVec.getMsbD_ushiftRight, hlt, hlow] using hbit
      · rw [BitVec.getMsbD_of_ge x i (by omega), BitVec.getMsbD_of_ge y i (by omega)]
  rw [hshift, ← BitVec.toNat_inj, BitVec.toNat_ushiftRight, BitVec.toNat_ushiftRight,
    Nat.shiftRight_eq_div_pow, Nat.shiftRight_eq_div_pow]

/-! ## Intervals -/

/-- The other bits cleared. -/
theorem toNat_and_highMask (x : BitVec w) :
    (x &&& highMask w b).toNat = x.toNat / 2 ^ (w - b) * 2 ^ (w - b) := by
  have hshift : x &&& highMask w b = x >>> (w - b) <<< (w - b) := by
    apply BitVec.eq_of_getMsbD_eq
    intro i hi
    rw [BitVec.getMsbD_and, getMsbD_highMask, BitVec.getMsbD_shiftLeft,
      BitVec.getMsbD_ushiftRight]
    by_cases hb : i < b
    · have hlt : i + (w - b) < w := by omega
      simp [hb, hi, hlt]
    · have hge : ¬ i + (w - b) < w := by omega
      simp [hb, hge]
  have hle : x.toNat / 2 ^ (w - b) * 2 ^ (w - b) < 2 ^ w :=
    lt_of_le_of_lt (Nat.div_mul_le_self _ _) x.isLt
  rw [hshift, BitVec.toNat_shiftLeft, BitVec.toNat_ushiftRight, Nat.shiftRight_eq_div_pow,
    Nat.shiftLeft_eq, Nat.mod_eq_of_lt hle]

theorem not_highMask : ~~~highMask w b = BitVec.ofNat w (2 ^ (w - b) - 1) := by
  apply BitVec.eq_of_getLsbD_eq
  intro i hi
  rw [BitVec.getLsbD_not, BitVec.getLsbD_ofNat, Nat.testBit_two_pow_sub_one, highMask,
    BitVec.getLsbD_shiftLeft, BitVec.getLsbD_allOnes]
  by_cases hlow : i < w - b
  · simp [hi, hlow]
  · have hlt : i - (w - b) < w := by omega
    simp [hi, hlow, hlt]

/-- The other bits set. -/
theorem toNat_or_not_highMask (x : BitVec w) :
    (x ||| ~~~highMask w b).toNat
      = x.toNat / 2 ^ (w - b) * 2 ^ (w - b) + (2 ^ (w - b) - 1) := by
  have hpos : 0 < 2 ^ (w - b) := Nat.two_pow_pos _
  have hpow : 2 ^ (w - b) ≤ 2 ^ w := Nat.pow_le_pow_right (by omega) (Nat.sub_le w b)
  have hnot : (~~~highMask w b).toNat = 2 ^ (w - b) - 1 := by
    rw [not_highMask, BitVec.toNat_ofNat, Nat.mod_eq_of_lt (by omega)]
  have hor : x ||| ~~~highMask w b = (x &&& highMask w b) ||| ~~~highMask w b := by
    ext i hi
    simp only [BitVec.getElem_or, BitVec.getElem_and, BitVec.getElem_not]
    cases (highMask w b)[i] <;> simp
  rw [hor, BitVec.toNat_or, toNat_and_highMask, hnot, Nat.mul_comm]
  exact (Nat.two_pow_add_eq_or_of_lt (by omega) _).symm

/-- The words that agree with a word are an interval. -/
theorem agree_iff_mem_block : Agree b y x ↔ y.toNat ∈ block b x := by
  have hpos : 0 < 2 ^ (w - b) := Nat.two_pow_pos _
  rw [agree_iff_div, block, Set.mem_Icc, toNat_and_highMask, toNat_or_not_highMask,
    Nat.div_eq_iff hpos]
  generalize x.toNat / 2 ^ (w - b) * 2 ^ (w - b) = n
  omega

theorem mem_block_self (x : BitVec w) : x.toNat ∈ block b x :=
  agree_iff_mem_block.1 (Agree.refl x)

theorem lt_of_mem_block {n : ℕ} (h : n ∈ block b x) : n < 2 ^ w :=
  lt_of_le_of_lt h.2 (x ||| ~~~highMask w b).isLt

/-- The interval of the longer beginning lies within the other one or outside of it. -/
theorem block_inter_nonempty_iff :
    (block b x ∩ block c y).Nonempty ↔ Agree (min b c) x y := by
  constructor
  · rintro ⟨n, hx, hy⟩
    have hn : (BitVec.ofNat w n).toNat = n := by
      rw [BitVec.toNat_ofNat, Nat.mod_eq_of_lt (lt_of_mem_block hx)]
    rw [← hn, ← agree_iff_mem_block] at hx hy
    exact (hx.mono (min_le_left b c)).symm.trans (hy.mono (min_le_right b c))
  · intro h
    rcases le_total b c with hbc | hbc
    · rw [min_eq_left hbc] at h
      exact ⟨y.toNat, agree_iff_mem_block.1 h.symm, mem_block_self y⟩
    · rw [min_eq_right hbc] at h
      exact ⟨x.toNat, mem_block_self x, agree_iff_mem_block.1 h⟩

end Bits
end Askozia
