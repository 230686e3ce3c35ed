import Mathlib.Algebra.Group.Nat.Defs
import Mathlib.Data.List.Basic
import Mathlib.Data.Int.Notation
import Mathlib.Tactic.Common

/-!
# PHP 4 values

The dynamically typed values the configuration code is written over: scalars and ordered
arrays whose keys are integers or strings. Only the operations the modelled code performs
are defined here, each with the PHP 4.4 behaviour the code relies on:

* reading an index that is not there gives `null`, reading an index of a string gives the
  character at the integer the key converts to;
* writing through an index of `null`, `false` or `""` creates an array;
* `count`, truth, string conversion and the loose comparison `==`.
-/

namespace Askozia
namespace Php

/-- An array key: PHP turns canonical decimal strings into integers before it stores them. -/
inductive Key where
  | int (n : ℤ)
  | str (s : String)
deriving DecidableEq, Repr

/-- A key printed in a string. -/
def Key.toStr : Key → String
  | .int n => toString n
  | .str s => s

/-- A PHP value. Arrays are ordered, so they are lists of entries. -/
inductive Val where
  | null
  | bool (b : Bool)
  | int (n : ℤ)
  | str (s : String)
  | arr (es : List (Key × Val))
deriving Repr, Inhabited

/-- A key as a value, as `foreach` gives it. -/
def Key.val : Key → Val
  | .int n => .int n
  | .str s => .str s

namespace Val

/-! ## Decidable equality -/

mutual

/-- Structural equality test. -/
def beq : Val → Val → Bool
  | null, null => true
  | bool a, bool b => a == b
  | int a, int b => a == b
  | str a, str b => a == b
  | arr a, arr b => beqEntries a b
  | _, _ => false

/-- Structural equality test on entry lists. -/
def beqEntries : List (Key × Val) → List (Key × Val) → Bool
  | [], [] => true
  | (k, v) :: r, (k', v') :: r' => k == k' && beq v v' && beqEntries r r'
  | _, _ => false

end

mutual

/-- Values that are found equal are equal. -/
theorem eq_of_beq : ∀ {a b : Val}, beq a b = true → a = b
  | null, b, h => by cases b <;> simp_all [beq]
  | bool _, b, h => by cases b <;> simp_all [beq]
  | int _, b, h => by cases b <;> simp_all [beq]
  | str _, b, h => by cases b <;> simp_all [beq]
  | arr es, b, h => by
    cases b with
    | arr es' =>
      have hes : es = es' := eq_of_beqEntries (by simpa [beq] using h)
      rw [hes]
    | _ => simp [beq] at h

theorem eq_of_beqEntries : ∀ {a b : List (Key × Val)}, beqEntries a b = true → a = b
  | [], b, h => by cases b <;> simp_all [beqEntries]
  | (k, v) :: r, b, h => by
    cases b with
    | nil => simp [beqEntries] at h
    | cons e r' =>
      obtain ⟨k', v'⟩ := e
      simp only [beqEntries, Bool.and_eq_true, beq_iff_eq] at h
      obtain ⟨⟨hk, hv⟩, hr⟩ := h
      rw [hk, eq_of_beq hv, eq_of_beqEntries hr]

end

mutual

/-- Every value is found equal to itself. -/
theorem beq_self : ∀ a : Val, beq a a = true
  | null => rfl
  | bool _ => by simp [beq]
  | int _ => by simp [beq]
  | str _ => by simp [beq]
  | arr es => by rw [beq]; exact beqEntries_self es

theorem beqEntries_self : ∀ es : List (Key × Val), beqEntries es es = true
  | [] => rfl
  | (k, v) :: r => by simp [beqEntries, beq_self v, beqEntries_self r]

end

instance : DecidableEq Val := fun a b =>
  if h : beq a b = true then isTrue (eq_of_beq h)
  else isFalse fun hab => h (hab ▸ beq_self a)

/-! ## Tests and conversions -/

/-- `is_array($v)`. -/
def isArray : Val → Bool
  | arr _ => true
  | _ => false

/-- `isset($v)` for a variable or element that holds `v`. -/
def isset : Val → Bool
  | null => false
  | _ => true

/-- Truth of a value in a condition: `"0"` and `""` are false. -/
def truthy : Val → Bool
  | null => false
  | bool b => b
  | int n => n != 0
  | str s => s != "" && s != "0"
  | arr es => !es.isEmpty

/-- Conversion to a string, as in `"$v"` and `.`. -/
def toStr : Val → String
  | null => ""
  | bool b => if b then "1" else ""
  | int n => toString n
  | str s => s
  | arr _ => "Array"

/-- `count($v)`: a scalar counts as one. -/
def count : Val → ℕ
  | null => 0
  | arr es => es.length
  | _ => 1

/-! ## Arrays -/

/-- The entries `foreach ($v as $k => $x)` visits; a non-array yields none. -/
def entries : Val → List (Key × Val)
  | arr es => es
  | _ => []

/-- The values `foreach ($v as $x)` visits. -/
def vals (v : Val) : List Val := v.entries.map Prod.snd

/-- `$v[$k]` read. A word used as a string offset converts to `0`. -/
def idx (k : Key) : Val → Val
  | arr es => (es.lookup k).getD null
  | str s =>
    match k with
    | .int n => str (String.ofList (s.toList[n.toNat]?).toList)
    | .str _ => str (String.ofList s.toList.head?.toList)
  | _ => null

/-- The number a list of decimal digits denotes. -/
def digitsValue (ds : List Char) : ℕ := ds.foldl (fun n c => 10 * n + (c.toNat - '0'.toNat)) 0

/-- The number a decimal numeral denotes. -/
def intValue : List Char → ℤ
  | '-' :: ds => -digitsValue ds
  | ds => digitsValue ds

/-- The key a value becomes when it is used as an index: canonical decimal strings turn into
integers if they fit, `null` into the empty string. -/
def key : Val → Key
  | null => .str ""
  | bool b => .int (if b then 1 else 0)
  | int n => .int n
  | str s =>
    if toString (intValue s.toList) = s ∧ (intValue s.toList).natAbs < 2 ^ 31 then
      .int (intValue s.toList)
    else .str s
  | arr _ => .str "Array"

/-- `$v['f']` read. -/
def get (v : Val) (f : String) : Val := v.idx (.str f)

/-- Replaces the value under `k` in place, or appends a new entry. -/
def setEntry (k : Key) (x : Val) : List (Key × Val) → List (Key × Val)
  | [] => [(k, x)]
  | (k', x') :: r => if k' = k then (k, x) :: r else (k', x') :: setEntry k x r

/-- `$v[$k] = $x`, where a non-array becomes a new array. -/
def set (v : Val) (k : Key) (x : Val) : Val := arr (setEntry k x v.entries)

/-- The integer key after the greatest one. -/
def nextIndex (es : List (Key × Val)) : ℤ :=
  es.foldl (fun n e => match e.1 with | .int i => max n (i + 1) | .str _ => n) 0

/-- `$v[] = $x`. -/
def push (v x : Val) : Val := v.set (.int (nextIndex v.entries)) x

/-- `unset($v[$k])`. -/
def unset (k : Key) : Val → Val
  | arr es => arr (es.filter fun e => e.1 != k)
  | v => v

/-- An array whose keys are `0..n-1`, as `$a[] = ...` on an empty array builds it. -/
def ofList (xs : List Val) : Val :=
  arr (xs.zipIdx.map fun p => (.int p.2, p.1))

/-- The keys of `v` are `0..n-1` in order. -/
def Contiguous (v : Val) : Prop := v = ofList v.vals

/-! ## Array updates -/

section Updates

variable {k k' : Key} {w x : Val} {es : List (Key × Val)}

/-- What was assigned is found. -/
theorem lookup_setEntry_self : (setEntry k x es).lookup k = some x := by
  induction es with
  | nil => simp [setEntry]
  | cons e r ih =>
    obtain ⟨k', y⟩ := e
    by_cases h : k' = k
    · simp [setEntry, h]
    · have hne : (k == k') = false := by simpa using fun hc => h hc.symm
      simp [setEntry, h, List.lookup_cons, hne, ih]

/-- The last assignment under a key counts. -/
theorem setEntry_setEntry : setEntry k w (setEntry k x es) = setEntry k w es := by
  induction es with
  | nil => simp [setEntry]
  | cons e r ih =>
    obtain ⟨k', y⟩ := e
    by_cases h : k' = k
    · simp [setEntry, h]
    · simp [setEntry, h, ih]

/-- Assigning what is there changes nothing. -/
theorem setEntry_of_lookup (h : es.lookup k = some x) : setEntry k x es = es := by
  induction es with
  | nil => simp at h
  | cons e r ih =>
    obtain ⟨k', y⟩ := e
    by_cases hk : k' = k
    · subst hk
      simp only [List.lookup_cons, beq_self_eq_true, Option.some.injEq] at h
      simp [setEntry, h]
    · have hne : (k == k') = false := by simpa using fun hc => hk hc.symm
      rw [List.lookup_cons, hne] at h
      simp [setEntry, hk, ih h]

/-- A key that is not there yet goes to the end. -/
theorem setEntry_of_not_mem (h : k ∉ es.map Prod.fst) : setEntry k x es = es ++ [(k, x)] := by
  induction es with
  | nil => rfl
  | cons e r ih =>
    obtain ⟨k', y⟩ := e
    simp only [List.map_cons, List.mem_cons, not_or] at h
    rw [setEntry, if_neg (Ne.symm h.1), ih h.2, List.cons_append]

/-- An assignment leaves the other keys. -/
theorem lookup_setEntry_of_ne (h : k' ≠ k) :
    (setEntry k x es).lookup k' = es.lookup k' := by
  induction es with
  | nil => simp [setEntry, h]
  | cons e r ih =>
    obtain ⟨k₁, y⟩ := e
    by_cases h₁ : k₁ = k
    · subst h₁
      have hne : (k' == k₁) = false := by simpa using h
      simp [setEntry, List.lookup_cons, hne]
    · simp [setEntry, h₁, List.lookup_cons, ih]

/-- It makes up one entry at most. -/
theorem mem_setEntry {e : Key × Val} (h : e ∈ setEntry k x es) : e = (k, x) ∨ e ∈ es := by
  induction es with
  | nil => exact .inl (List.mem_singleton.1 h)
  | cons e' r ih =>
    obtain ⟨k', y⟩ := e'
    by_cases hk : k' = k
    · rw [setEntry, if_pos hk] at h
      rcases List.mem_cons.1 h with h | h
      · exact .inl h
      · exact .inr (List.mem_cons_of_mem _ h)
    · rw [setEntry, if_neg hk] at h
      rcases List.mem_cons.1 h with h | h
      · exact .inr (h ▸ List.mem_cons_self)
      · exact (ih h).imp_right (List.mem_cons_of_mem _)

/-- A key that is there stays where it is. -/
theorem setEntry_keys_of_mem (h : k ∈ es.map Prod.fst) :
    (setEntry k x es).map Prod.fst = es.map Prod.fst := by
  induction es with
  | nil => exact absurd h List.not_mem_nil
  | cons e r ih =>
    obtain ⟨k', y⟩ := e
    by_cases hk : k' = k
    · rw [setEntry, if_pos hk, List.map_cons, List.map_cons, hk]
    · rw [List.map_cons, List.mem_cons] at h
      rw [setEntry, if_neg hk, List.map_cons, List.map_cons,
        ih (h.resolve_left fun hc => hk hc.symm)]

/-- Keys stay different. -/
theorem nodup_setEntry (h : (es.map Prod.fst).Nodup) :
    ((setEntry k x es).map Prod.fst).Nodup := by
  by_cases hk : k ∈ es.map Prod.fst
  · rwa [setEntry_keys_of_mem hk]
  · rw [setEntry_of_not_mem hk, List.map_append, List.map_singleton]
    refine List.nodup_append.2 ⟨h, by simp, fun a ha b hb hab => hk ?_⟩
    obtain rfl : b = k := List.mem_singleton.1 hb
    exact hab ▸ ha

/-- Something was assigned. -/
theorem setEntry_ne_nil : setEntry k x es ≠ [] := by
  cases es with
  | nil => simp [setEntry]
  | cons e r =>
    obtain ⟨k', y⟩ := e
    by_cases hk : k' = k <;> simp [setEntry, hk]

/-- What is found is there. -/
theorem mem_of_lookup (h : es.lookup k = some x) : (k, x) ∈ es := by
  induction es with
  | nil => simp at h
  | cons e r ih =>
    obtain ⟨k', y⟩ := e
    by_cases hk : k = k'
    · subst hk
      simp only [List.lookup_cons, beq_self_eq_true, Option.some.injEq] at h
      exact h ▸ List.mem_cons_self
    · have hne : (k == k') = false := by simpa using hk
      rw [List.lookup_cons, hne] at h
      exact List.mem_cons_of_mem _ (ih h)

/-- What is there is found, if its key occurs once. -/
theorem lookup_of_mem (hn : (es.map Prod.fst).Nodup) (h : (k, x) ∈ es) :
    es.lookup k = some x := by
  induction es with
  | nil => cases h
  | cons e r ih =>
    obtain ⟨k', y⟩ := e
    rw [List.map_cons, List.nodup_cons] at hn
    rcases List.mem_cons.1 h with h | hr
    · obtain ⟨rfl, rfl⟩ := Prod.mk.inj h
      simp
    · have hne : (k == k') = false := by
        simp only [beq_eq_false_iff_ne, ne_eq]
        rintro rfl
        exact hn.1 (List.mem_map.2 ⟨_, hr, rfl⟩)
      rw [List.lookup_cons, hne]
      exact ih hn.2 hr

/-- Under a key that does not occur nothing is found. -/
theorem lookup_eq_none (h : k ∉ es.map Prod.fst) : es.lookup k = none := by
  rw [List.lookup_eq_none_iff]
  intro p hp
  have hne : p.1 ≠ k := fun hc => h (List.mem_map.2 ⟨p, hp, hc⟩)
  simpa using fun hc => hne hc.symm

end Updates

/-! ## Keys -/

/-- A text is a key of its own, unless it is how a number is written. -/
theorem key_str_cases (s : String) :
    (∃ n : ℤ, (str s).key = .int n ∧ toString n = s) ∨ (str s).key = .str s := by
  by_cases h : toString (intValue s.toList) = s ∧ (intValue s.toList).natAbs < 2 ^ 31
  · exact .inl ⟨_, by simp only [key, if_pos h], h.1⟩
  · exact .inr (by simp only [key, if_neg h])

/-- Different strings are different keys. -/
theorem key_str_injective {s t : String} (h : (str s).key = (str t).key) : s = t := by
  rcases key_str_cases s with ⟨n, hn, rfl⟩ | hs <;> rcases key_str_cases t with ⟨m, hm, rfl⟩ | ht
  · rw [hn, hm] at h
    rw [Key.int.inj h]
  · rw [hn, ht] at h
    cases h
  · rw [hs, hm] at h
    cases h
  · rw [hs, ht] at h
    exact Key.str.inj h

/-! ## Lists -/

section Lists

@[simp] theorem idx_null (k : Key) : idx k null = null := rfl

/-- Reading from an array under a key that it does not have gives `null`. -/
theorem idx_arr (k : Key) (es : List (Key × Val)) : idx k (arr es) = (es.lookup k).getD null := rfl

/-- What was assigned is read. -/
@[simp] theorem idx_set_self (v : Val) (k : Key) (x : Val) : (v.set k x).idx k = x := by
  rw [set, idx_arr, lookup_setEntry_self]
  rfl

/-- Writing under one key of what is not a string leaves the others alone. -/
theorem idx_set_of_ne {v : Val} {k k' : Key} (x : Val) (h : k' ≠ k) (hv : ∀ s, v ≠ str s) :
    (v.set k x).idx k' = v.idx k' := by
  rw [set, idx_arr, lookup_setEntry_of_ne h]
  cases v with
  | arr es => rfl
  | str s => exact absurd rfl (hv s)
  | _ => rfl


/-- The keys of a list count from zero. -/
theorem ofList_entries (xs : List Val) :
    (ofList xs).entries = xs.zipIdx.map fun p => (.int p.2, p.1) := rfl

/-- A list has as many entries as elements. -/
theorem ofList_count (xs : List Val) : (ofList xs).count = xs.length := by
  simp [ofList, count]

/-- Its values are its elements. -/
theorem ofList_vals (xs : List Val) : (ofList xs).entries.map Prod.snd = xs := by
  rw [ofList_entries, List.map_map]
  have h : (Prod.snd ∘ fun p : Val × ℕ => ((.int p.2, p.1) : Key × Val)) = Prod.fst := rfl
  rw [h, List.zipIdx_map_fst]

/-- The next key is free. -/
theorem ofList_keys (xs : List Val) (i : ℕ) (h : xs.length ≤ i) :
    Key.int i ∉ (ofList xs).entries.map Prod.fst := by
  rw [ofList_entries, List.map_map, List.mem_map]
  rintro ⟨⟨x, j⟩, hx, hj⟩
  have hlt := List.snd_lt_of_mem_zipIdx hx
  simp only [Function.comp_apply, Key.int.injEq] at hj
  omega

/-- Appending to a list. -/
theorem ofList_append (xs : List Val) (w : Val) :
    (ofList xs).set (.int (ofList xs).count) w = .ofList (xs ++ [w]) := by
  rw [set, setEntry_of_not_mem (ofList_count xs ▸ ofList_keys xs _ (Nat.le_refl _)),
    ofList_count, ofList_entries, ofList, List.zipIdx_append]
  simp

/-- Under a number stands the element at that position. -/
theorem lookup_zipIdx (xs : List Val) (m i : ℕ) :
    ((xs.zipIdx m).map fun p => ((.int p.2, p.1) : Key × Val)).lookup (.int (m + i : ℕ)) =
      xs[i]? := by
  induction xs generalizing m i with
  | nil => rfl
  | cons x r ih =>
    cases i with
    | zero => simp
    | succ i =>
      have hne : (Key.int (m + (i + 1) : ℕ) == Key.int (m : ℕ)) = false := by
        simp only [beq_eq_false_iff_ne, ne_eq, Key.int.injEq]
        omega
      have hi : m + (i + 1) = m + 1 + i := by omega
      simp only [List.zipIdx_cons, List.map_cons, List.lookup_cons, hne]
      rw [hi, ih, List.getElem?_cons_succ]

/-- So it is read from the list. -/
theorem idx_ofList (xs : List Val) (i : ℕ) : (ofList xs).idx (.int i) = xs[i]?.getD null := by
  have h := lookup_zipIdx xs 0 i
  rw [Nat.zero_add] at h
  rw [ofList, idx_arr, h]

/-- A list has no words for keys. -/
theorem idx_ofList_str (xs : List Val) (s : String) : (ofList xs).idx (.str s) = null := by
  have h : (xs.zipIdx.map fun p => ((.int p.2, p.1) : Key × Val)).lookup (.str s) = none := by
    rw [List.lookup_eq_none_iff]
    intro p hp
    obtain ⟨q, -, rfl⟩ := List.mem_map.1 hp
    simp
  rw [ofList, idx_arr, h]
  rfl

/-- The elements of a list are those it was made of. -/
@[simp] theorem vals_ofList (xs : List Val) : (ofList xs).vals = xs := ofList_vals xs

end Lists

end Val

end Php
end Askozia
