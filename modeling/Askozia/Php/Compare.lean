import Askozia.Php.Chars
import Mathlib.Algebra.Order.Floor.Ring
import Mathlib.Data.Int.Log
import Mathlib.Data.Rat.Floor
import Mathlib.Data.List.Sort
import Mathlib.Data.List.TakeWhile
import Mathlib.Tactic.Linarith
import Mathlib.Tactic.Positivity

/-!
# PHP comparisons and `usort`

`==` and `<` compare strings as numbers when both look like numbers, and a string with a number
by the number it starts with. `usort` is any sorting procedure: the order of elements that
compare as equal, and what an inconsistent comparison leads to, are not specified.
-/

namespace Askozia
namespace Php

/-! ## Numbers in strings -/

/-- An optional sign. -/
def scanSign : List Char → ℤ × List Char
  | '-' :: r => (-1, r)
  | '+' :: r => (1, r)
  | r => (1, r)

/-- The exponent of a number, if there is one. -/
def scanExponent (s : List Char) : ℤ × List Char :=
  match s with
  | c :: r =>
    let (sign, r') := scanSign r
    let ds := r'.takeWhile Char.isDigit
    if (c = 'e' ∨ c = 'E') ∧ ds ≠ [] then (sign * Val.digitsValue ds, r'.dropWhile Char.isDigit)
    else (0, s)
  | [] => (0, s)

/-- Nearest integer, ties to even. -/
def roundEven (q : ℚ) : ℤ :=
  if q - ⌊q⌋ < 1 / 2 then ⌊q⌋
  else if 1 / 2 < q - ⌊q⌋ then ⌊q⌋ + 1
  else if ⌊q⌋ % 2 = 0 then ⌊q⌋ else ⌊q⌋ + 1

/-- The double nearest to a number. -/
def double (q : ℚ) : ℚ :=
  if q = 0 then 0
  else
    let ulp : ℚ := (2 : ℚ) ^ (Int.log 2 |q| - 52)
    roundEven (q / ulp) * ulp

/-- The longest number at the start of a string, as `strtod` reads it, and the rest. -/
def scanNumber (s : List Char) : Option (ℚ × List Char) :=
  let (sign, r) := scanSign (s.dropWhile Char.isWhitespace)
  let whole := r.takeWhile Char.isDigit
  let (fraction, r) :=
    match r.dropWhile Char.isDigit with
    | '.' :: r => (r.takeWhile Char.isDigit, r.dropWhile Char.isDigit)
    | r => ([], r)
  if whole = [] ∧ fraction = [] then none
  else
    let (e, r) := scanExponent r
    some (double (sign * Val.digitsValue (whole ++ fraction) * (10 : ℚ) ^ (e - fraction.length)), r)

/-- The value of a hexadecimal digit. -/
def hexDigit? (c : Char) : Option ℕ :=
  if c.isDigit then some (c.toNat - '0'.toNat)
  else if 'a' ≤ c ∧ c ≤ 'f' then some (c.toNat - 'a'.toNat + 10)
  else if 'A' ≤ c ∧ c ≤ 'F' then some (c.toNat - 'A'.toNat + 10)
  else none

/-- A hexadecimal number, `0x` in front, that fits into an integer. -/
def hexNumber? (s : List Char) : Option ℕ :=
  match s with
  | '0' :: x :: ds =>
    if (x = 'x' ∨ x = 'X') ∧ ds ≠ [] then
      (ds.mapM hexDigit?).bind fun ns =>
        let n := ns.foldl (fun n d => 16 * n + d) 0
        if n < 2 ^ 31 then some n else none
    else none
  | _ => none

/-- The value of a numeric string. -/
def number? (s : String) : Option ℚ :=
  match hexNumber? s.toList with
  | some n => some n
  | none =>
    match scanNumber s.toList with
    | some (q, []) => some q
    | _ => none

/-- A string converted to a number: the number it is or starts with, or `0`. -/
def toNumber (s : String) : ℚ :=
  match hexNumber? s.toList with
  | some n => n
  | none => ((scanNumber s.toList).map Prod.fst).getD 0

example : (number? "0x65", toNumber "0x65", number? "0x", toNumber "0x6g") = (some 101, 101, none, 0) := by
  decide +kernel

/-! ## Comparisons -/

/-- `strcmp($a, $b)`. -/
def strcmp (a b : String) : ℤ := if a < b then -1 else if a = b then 0 else 1

namespace Val

mutual

/-- `$a == $b` -/
def looseEq : Val → Val → Bool
  | null, str s => s == ""
  | str s, null => s == ""
  | null, v => !v.truthy
  | v, null => !v.truthy
  | bool a, v => a == v.truthy
  | v, bool b => v.truthy == b
  | int a, int b => a == b
  | int a, str s => (a : ℚ) == toNumber s
  | str s, int b => toNumber s == (b : ℚ)
  -- two numeric strings are compared as numbers
  | str a, str b =>
    match number? a, number? b with
    | some x, some y => x == y
    | _, _ => a == b
  | arr a, arr b => a.length == b.length && looseEqEntries a b
  | _, _ => false

/-- Every entry of the first array has an equal one in the second. -/
def looseEqEntries : List (Key × Val) → List (Key × Val) → Bool
  | [], _ => true
  | (k, v) :: r, b =>
    (match b.lookup k with
      | some w => looseEq v w
      | none => false) && looseEqEntries r b

end

/-- `$a < $b` between scalars; an array is greater than anything else. -/
def looseLt : Val → Val → Bool
  | null, str s => s != ""
  | str _, null => false
  | null, v => v.truthy
  | _, null => false
  | bool a, v => !a && v.truthy
  | v, bool b => !v.truthy && b
  | int a, int b => decide (a < b)
  | int a, str s => decide ((a : ℚ) < toNumber s)
  | str s, int b => decide (toNumber s < (b : ℚ))
  | str a, str b =>
    match number? a, number? b with
    | some x, some y => decide (x < y)
    | _, _ => decide (a < b)
  | arr a, arr b => decide (a.length < b.length)
  | arr _, _ => false
  | _, arr _ => true

theorem looseEq_self (x : String) : (str x).looseEq (str x) = true := by
  rw [looseEq]
  cases number? x with
  | none => simp
  | some q => simp

end Val

/-- `$v == "text"` -/
def is (v : Val) (text : String) : Bool := v.looseEq (.str text)

/-- `in_array($needle, $array)` -/
def inArray (needle array : Val) : Bool := array.vals.any (needle.looseEq ·)

/-! ## Whole numbers -/

theorem roundEven_intCast (n : ℤ) : roundEven n = n := by
  have hfloor : ⌊(n : ℚ)⌋ = n := Int.floor_intCast n
  unfold roundEven
  rw [hfloor, sub_self, if_pos (by norm_num)]

theorem floor_le_roundEven (q : ℚ) : ⌊q⌋ ≤ roundEven q := by
  unfold roundEven
  split_ifs <;> omega

/-- Whole numbers below `2^53` are doubles. -/
theorem double_natCast {v : ℕ} (hv : v < 2 ^ 53) : double v = v := by
  unfold double
  split_ifs with hzero
  · rw [hzero]
  · have hlog : Int.log 2 |(v : ℚ)| = Nat.log 2 v := by
      rw [Nat.abs_cast, Int.log_natCast]
    have hle : Nat.log 2 v ≤ 52 := by
      have hlt : Nat.log 2 v < 53 := Nat.log_lt_of_lt_pow (by simpa using hzero) hv
      omega
    obtain ⟨e, he⟩ := Nat.exists_eq_add_of_le hle
    have hulp : ((2 : ℚ) ^ (Int.log 2 |(v : ℚ)| - 52)) = ((2 : ℚ) ^ e)⁻¹ := by
      rw [hlog, ← zpow_natCast, ← zpow_neg]
      congr 1
      omega
    have hcast : (v : ℚ) / ((2 : ℚ) ^ e)⁻¹ = ((v * 2 ^ e : ℕ) : ℤ) := by
      push_cast
      rw [div_inv_eq_mul]
    dsimp only
    rw [hulp, hcast, roundEven_intCast]
    push_cast
    rw [mul_inv_cancel_right₀ (by positivity)]

/-- Numbers from `2^53` on stay that large. -/
theorem le_double_natCast {v : ℕ} (hv : 2 ^ 53 ≤ v) : (2 : ℚ) ^ 52 ≤ double v := by
  have hpos : v ≠ 0 := by
    rintro rfl
    exact absurd hv (by decide)
  have hlog : Int.log 2 |(v : ℚ)| = Nat.log 2 v := by
    rw [Nat.abs_cast, Int.log_natCast]
  have hle : 52 ≤ Nat.log 2 v := by
    have h53 := Nat.le_log_of_pow_le (by decide) hv
    omega
  obtain ⟨e, he⟩ := Nat.exists_eq_add_of_le hle
  -- the last place is worth `2 ^ e`, and `v` has at least 52 places above it
  have hulp : ((2 : ℚ) ^ (Int.log 2 |(v : ℚ)| - 52)) = (2 : ℚ) ^ e := by
    rw [hlog, ← zpow_natCast]
    congr 1
    omega
  have hv' : (2 : ℚ) ^ 52 * 2 ^ e ≤ v := by
    rw [← pow_add, ← he]
    exact_mod_cast Nat.pow_log_le_self 2 hpos
  have hfloor : (2 : ℤ) ^ 52 ≤ ⌊(v : ℚ) / 2 ^ e⌋ := by
    rw [Int.le_floor]
    push_cast
    rw [le_div_iff₀ (by positivity)]
    exact hv'
  have hround : ((2 : ℚ) ^ 52) ≤ roundEven ((v : ℚ) / 2 ^ e) := by
    exact_mod_cast hfloor.trans (floor_le_roundEven _)
  have hone : (1 : ℚ) ≤ 2 ^ e := one_le_pow₀ (by norm_num)
  unfold double
  rw [if_neg (by exact_mod_cast hpos)]
  dsimp only
  rw [hulp]
  calc (2 : ℚ) ^ 52 = (2 : ℚ) ^ 52 * 1 := by rw [mul_one]
    _ ≤ (roundEven ((v : ℚ) / 2 ^ e) : ℚ) * 2 ^ e := by gcongr

/-- A text that is read as a small number is that number. -/
theorem eq_of_double_eq {v n : ℕ} (hn : n < 2 ^ 52) (h : double v = n) : v = n := by
  by_cases hv : v < 2 ^ 53
  · rw [double_natCast hv] at h
    exact_mod_cast h
  · have hle := le_double_natCast (v := v) (by omega)
    rw [h] at hle
    have hle' : 2 ^ 52 ≤ n := by exact_mod_cast hle
    omega

theorem hexNumber?_of_digits {text : List Char} (h : ∀ c ∈ text, c.isDigit = true) : hexNumber? text = none := by
  unfold hexNumber?
  split
  · next x ds =>
    rw [if_neg]
    rintro ⟨rfl | rfl, -⟩
    · exact absurd (h 'x' (by simp)) (by decide)
    · exact absurd (h 'X' (by simp)) (by decide)
  · rfl

/-- A text of digits is the number it spells. -/
theorem toNumber_of_digits {text : List Char} (hne : text ≠ []) (h : ∀ c ∈ text, c.isDigit = true) :
    toNumber (String.ofList text) = double (Val.digitsValue text) := by
  have hother : ∀ c ∈ text, ∀ d : Char, d.isDigit = false → c ≠ d := by
    intro c hc d hd heq
    have hdigit := h c hc
    rw [heq, hd] at hdigit
    cases hdigit
  have hdrop : text.dropWhile Char.isWhitespace = text := by
    cases text with
    | nil => rfl
    | cons c r =>
      have hne := hother c List.mem_cons_self
      rw [List.dropWhile_cons, if_neg]
      simp [Char.isWhitespace, hne ' ' rfl, hne '\t' rfl, hne '\r' rfl, hne '\n' rfl]
  have hsign : scanSign text = (1, text) := by
    unfold scanSign
    split
    · exact absurd rfl (hother '-' List.mem_cons_self '-' rfl)
    · exact absurd rfl (hother '+' List.mem_cons_self '+' rfl)
    · rfl
  have htake : text.takeWhile Char.isDigit = text := List.takeWhile_eq_self_iff.2 h
  have hend : text.dropWhile Char.isDigit = [] := List.dropWhile_eq_nil_iff.2 h
  unfold toNumber scanNumber
  rw [String.toList_ofList, hexNumber?_of_digits h, hdrop, hsign]
  simp [htake, hend, hne, scanExponent]

/-- A number that is printed is read as a double. -/
theorem toNumber_toString (n : ℕ) : toNumber (toString n) = double n := by
  have hdigits : ∀ c ∈ (toString n).toList, c.isDigit = true := fun c hc =>
    Val.isDigit_of_mem_toString_nat hc
  have hspell := toNumber_of_digits Val.toString_ne_nil hdigits
  rwa [String.ofList_toList, Val.digitsValue_toString] at hspell

/-! ## Sorting -/

/-- A comparison that is consistent on a list: it compares ranks. -/
def Consistent {α : Type} (cmp : α → α → ℤ) (xs : List α) : Prop :=
  ∃ rank : α → ℕ, ∀ a ∈ xs, ∀ b ∈ xs,
    (cmp a b < 0 ↔ rank a < rank b) ∧ (0 < cmp a b ↔ rank b < rank a)

/-- `usort`: a sorting procedure that need not be stable. -/
structure Usort where
  run : (Val → Val → ℤ) → List Val → List Val
  perm : ∀ cmp xs, (run cmp xs).Perm xs
  sorted : ∀ cmp xs, Consistent cmp xs → (run cmp xs).Pairwise fun a b => ¬ 0 < cmp a b

/-- The list is strictly ascending for the comparison, whichever way round it is asked. -/
def Ascending {α : Type} (cmp : α → α → ℤ) (xs : List α) : Prop :=
  (∀ a ∈ xs, cmp a a = 0) ∧ xs.Pairwise fun a b => cmp a b < 0 ∧ 0 < cmp b a

section

variable {α : Type} {cmp : α → α → ℤ} {xs : List α}

instance : Decidable (Ascending cmp xs) := inferInstanceAs (Decidable (_ ∧ _))

/-- The position in an ascending list is the rank of an element. -/
theorem Ascending.idxOf [DecidableEq α] (h : Ascending cmp xs) {a b : α} (ha : a ∈ xs)
    (hb : b ∈ xs) :
    (cmp a b < 0 ↔ xs.idxOf a < xs.idxOf b) ∧ (0 < cmp a b ↔ xs.idxOf b < xs.idxOf a) := by
  have hlt : ∀ {a b : α}, a ∈ xs → b ∈ xs → xs.idxOf a < xs.idxOf b →
      cmp a b < 0 ∧ 0 < cmp b a := by
    intro a b ha hb hab
    have hp := List.pairwise_iff_getElem.1 h.2 _ _ (List.idxOf_lt_length_of_mem ha)
      (List.idxOf_lt_length_of_mem hb) hab
    simpa using hp
  rcases lt_trichotomy (xs.idxOf a) (xs.idxOf b) with hab | hab | hab
  · obtain ⟨h₁, h₂⟩ := hlt ha hb hab
    omega
  · obtain rfl : a = b := (List.idxOf_inj ha).1 hab
    have h₀ := h.1 a ha
    omega
  · obtain ⟨h₁, h₂⟩ := hlt hb ha hab
    omega

end

/-- A list that is in order stays as it is. -/
theorem Usort.run_of_ascending (u : Usort) {cmp : Val → Val → ℤ} {xs : List Val}
    (h : Ascending cmp xs) : u.run cmp xs = xs := by
  have hs := u.sorted cmp xs ⟨xs.idxOf, fun a ha b hb => h.idxOf ha hb⟩
  have hx : xs.Pairwise fun a b => ¬ 0 < cmp a b := h.2.imp fun hab => by omega
  refine (u.perm cmp xs).eq_of_pairwise (fun a b ha hb hab hba => ?_) hs hx
  have ha' : a ∈ xs := (u.perm cmp xs).subset ha
  -- neither comes after the other, so they are at one position
  rw [(h.idxOf ha' hb).2] at hab
  rw [(h.idxOf hb ha').2] at hba
  exact (List.idxOf_inj ha').1 (by omega)

section Insertion

variable {α : Type} {r s : α → α → Prop} [DecidableRel r] [DecidableRel s]

theorem orderedInsert_congr {a : α} {l : List α} (h : ∀ b ∈ l, r a b ↔ s a b) :
    l.orderedInsert r a = l.orderedInsert s a := by
  induction l with
  | nil => rfl
  | cons b l ih =>
    have hb : r a b ↔ s a b := h b List.mem_cons_self
    rw [List.orderedInsert_cons, List.orderedInsert_cons,
      ih fun c hc => h c (List.mem_cons_of_mem _ hc)]
    simp only [hb]

theorem insertionSort_congr {l : List α} (h : ∀ a ∈ l, ∀ b ∈ l, r a b ↔ s a b) :
    l.insertionSort r = l.insertionSort s := by
  induction l with
  | nil => rfl
  | cons a l ih =>
    rw [List.insertionSort_cons, List.insertionSort_cons,
      ih fun b hb c hc => h b (List.mem_cons_of_mem _ hb) c (List.mem_cons_of_mem _ hc)]
    refine orderedInsert_congr fun b hb => h a List.mem_cons_self b (List.mem_cons_of_mem _ ?_)
    exact (List.perm_insertionSort s l).subset hb

end Insertion

/-- Insertion sort is such a procedure. -/
def insertionUsort : Usort where
  run cmp xs := xs.insertionSort fun a b => cmp a b ≤ 0
  perm cmp xs := List.perm_insertionSort _ xs
  sorted cmp xs h := by
    obtain ⟨rank, hrank⟩ := h
    -- on these values the comparison is one of ranks
    have hle : ∀ a ∈ xs, ∀ b ∈ xs, cmp a b ≤ 0 ↔ rank a ≤ rank b := by
      intro a ha b hb
      have := (hrank a ha b hb).2
      omega
    rw [insertionSort_congr (s := fun a b => rank a ≤ rank b) hle]
    have : Std.Total (fun a b : Val => rank a ≤ rank b) := ⟨fun a b => Nat.le_total _ _⟩
    have : IsTrans Val (fun a b => rank a ≤ rank b) := ⟨fun a b c => Nat.le_trans⟩
    have hsorted := List.pairwise_insertionSort (fun a b => rank a ≤ rank b) xs
    refine hsorted.imp_of_mem fun {a b} ha hb hab => ?_
    have hmem : ∀ {x}, x ∈ xs.insertionSort (fun a b => rank a ≤ rank b) → x ∈ xs :=
      fun hx => (List.perm_insertionSort _ xs).subset hx
    have := (hrank a (hmem ha) b (hmem hb)).2
    omega

end Php
end Askozia
