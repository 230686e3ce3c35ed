import Mathlib.Tactic.Common

/-!
# Cells in a circle

A memory of which some cells are used as a circle: behind the last one comes the first. A queue in
it is given by the cell of its front and its length.

* `Circle.read_add`: what is read in two parts;
* `Circle.Wrote.read_append`: cells that are written behind a queue make it longer.
-/

namespace Askozia
namespace Cyclic

/-- Cells that are used as a circle: `size` of them, from `lo` on. -/
structure Circle where
  lo : ℕ
  size : ℕ
  size_pos : 0 < size

namespace Circle

variable {α : Type*} {r : Circle} {m m' : ℕ → α} {p q j k : ℕ} {xs : List α}

/-- A cell of the circle. -/
def Has (r : Circle) (p : ℕ) : Prop := r.lo ≤ p ∧ p < r.lo + r.size

/-- The cell that is some cells behind another, at most once around. -/
def after (r : Circle) (p k : ℕ) : ℕ := if p + k < r.lo + r.size then p + k else p + k - r.size

/-- How many cells behind another a cell is. -/
def gap (r : Circle) (p q : ℕ) : ℕ := if p ≤ q then q - p else q + r.size - p

/-- What some cells hold, from one on. -/
def read (r : Circle) (m : ℕ → α) (p k : ℕ) : List α := (List.range k).map fun i => m (r.after p i)

/-- Without passing the end, positions are counted on. -/
theorem after_of_lt (h : p + k < r.lo + r.size) : r.after p k = p + k := if_pos h

/-- Past the end they start again. -/
theorem after_of_le (h : r.lo + r.size ≤ p + k) : r.after p k = p + k - r.size := if_neg (by omega)

/-- The way to a later position does not pass the end. -/
theorem gap_of_le (h : p ≤ q) : r.gap p q = q - p := if_pos h

/-- The way to an earlier one does. -/
theorem gap_of_lt (h : q < p) : r.gap p q = q + r.size - p := if_neg (by omega)

/-- No step leads nowhere else. -/
@[simp] theorem after_zero (h : r.Has p) : r.after p 0 = p := if_pos h.2

/-- Every step leads to a position of the ring. -/
theorem has_after (h : r.Has p) (hk : k ≤ r.size) : r.Has (r.after p k) := by
  unfold Has after at *
  split_ifs <;> omega

/-- Two ways are one. -/
theorem after_after (h : r.Has p) (hjk : j + k ≤ r.size) : r.after (r.after p j) k = r.after p (j + k) := by
  unfold Has after at *
  split_ifs <;> omega

/-- Around the circle to a cell that comes before. -/
theorem after_after_sub (h : r.Has p) (hjk : j ≤ k) (hk : k ≤ r.size) :
    r.after (r.after p k) (r.size - k + j) = r.after p j := by
  unfold Has after at *
  split_ifs <;> omega

/-- The way between two positions is shorter than once around. -/
theorem gap_lt (hp : r.Has p) (hq : r.Has q) : r.gap p q < r.size := by
  unfold Has gap at *
  split_ifs <;> omega

/-- There is none from a position to itself. -/
theorem gap_self : r.gap p p = 0 := by simp [gap]

/-- Going the way between two positions leads from one to the other. -/
theorem after_gap (hp : r.Has p) (hq : r.Has q) : r.after p (r.gap p q) = q := by
  unfold Has after gap at *
  split_ifs <;> omega

/-- The way to where one went is the way one went. -/
theorem gap_after (hp : r.Has p) (hk : k < r.size) : r.gap p (r.after p k) = k := by
  unfold Has after gap at *
  split_ifs <;> omega

/-- The gap to a cell grows as the cell moves on, and starts anew when it comes around. -/
theorem gap_after_right (hp : r.Has p) (hq : r.Has q) (hk : k ≤ r.size) :
    r.gap p (r.after q k) = if r.gap p q + k < r.size then r.gap p q + k else r.gap p q + k - r.size := by
  unfold Has after gap at *
  split_ifs <;> omega

/-- It shrinks as its own start moves on. -/
theorem gap_after_left (hp : r.Has p) (hq : r.Has q) (hk : k ≤ r.gap p q) :
    r.gap (r.after p k) q = r.gap p q - k := by
  unfold Has after gap at *
  split_ifs at * <;> omega

/-- A start that passes the end is behind it by a round. -/
theorem gap_after_left_of_lt (hp : r.Has p) (hq : r.Has q) (hk : r.gap p q < k) (hsize : k ≤ r.size) :
    r.gap (r.after p k) q = r.size - (k - r.gap p q) := by
  unfold Has after gap at *
  split_ifs at * <;> omega

/-- As many values are read as were asked for. -/
@[simp] theorem length_read : (r.read m p k).length = k := by simp [read]

/-- None, if none were. -/
@[simp] theorem read_zero : r.read m p 0 = [] := rfl

/-- Each is the one at its position. -/
theorem getElem?_read (hj : j < k) : (r.read m p k)[j]? = some (m (r.after p j)) := by
  simp [read, hj]

/-- Reading can be done in two parts. -/
theorem read_add (h : r.Has p) (hjk : j + k ≤ r.size) :
    r.read m p (j + k) = r.read m p j ++ r.read m (r.after p j) k := by
  unfold read
  rw [List.range_add, List.map_append, List.map_map]
  congr 1
  apply List.map_congr_left
  intro i hi
  rw [Function.comp_apply, after_after h (by have := List.mem_range.1 hi; omega)]

/-- Only the positions that are read matter. -/
theorem read_congr (h : ∀ i < k, m' (r.after p i) = m (r.after p i)) : r.read m' p k = r.read m p k :=
  List.map_congr_left fun i hi => h i (List.mem_range.1 hi)

/-- The first values are those of a shorter read. -/
theorem take_read (hjk : j ≤ k) : (r.read m p k).take j = r.read m p j := by
  unfold read
  rw [← List.map_take, List.take_range, Nat.min_eq_left hjk]

/-- The others are those of a read that starts later. -/
theorem drop_read (h : r.Has p) (hjk : j + k ≤ r.size) :
    (r.read m p (j + k)).drop j = r.read m (r.after p j) k := by
  rw [read_add h hjk]
  exact List.drop_left' length_read

/-- The memory after cells have been written, the others being kept. -/
structure Wrote (r : Circle) (m m' : ℕ → α) (p : ℕ) (xs : List α) : Prop where
  written : r.read m' p xs.length = xs
  kept : ∀ k < r.size, xs.length ≤ k → m' (r.after p k) = m (r.after p k)

/-- What is written behind some positions leaves them. -/
theorem Wrote.read_front (h : r.Wrote m m' (r.after p k) xs) (hp : r.Has p)
    (hk : k + xs.length ≤ r.size) : r.read m' p k = r.read m p k := by
  apply read_congr
  intro i hi
  rw [← after_after_sub hp (Nat.le_of_lt hi) (by omega)]
  exact h.kept _ (by omega) (by omega)

/-- Cells that are written behind a queue are at its end. -/
theorem Wrote.read_append (h : r.Wrote m m' (r.after p k) xs) (hp : r.Has p)
    (hk : k + xs.length ≤ r.size) : r.read m' p (k + xs.length) = r.read m p k ++ xs := by
  rw [read_add hp hk, h.read_front hp hk, h.written]

/-- Cells that are written one part after the other. -/
theorem Wrote.append {m'' : ℕ → α} {ys : List α} (h : r.Wrote m m' p xs)
    (h' : r.Wrote m' m'' (r.after p xs.length) ys) (hp : r.Has p)
    (hlen : xs.length + ys.length ≤ r.size) : r.Wrote m m'' p (xs ++ ys) where
  written := by rw [List.length_append, h'.read_append hp hlen, h.written]
  kept k hk hle := by
    rw [List.length_append] at hle
    have hthere := h'.kept (k - xs.length) (by omega) (by omega)
    rw [after_after hp (by omega), Nat.add_sub_cancel' (by omega)] at hthere
    rw [hthere]
    exact h.kept k hk (by omega)

end Circle

/-! ## Queues -/

/-- Something is put into a queue, or some of it is fetched. -/
inductive Move (α : Type*)
  | put (xs : List α)
  | fetch (k : ℕ)

namespace Move

variable {α : Type*}

/-- What is fetched in a run of moves, and what is left in the queue. -/
def run : List α → List (Move α) → List α × List α
  | q, [] => ([], q)
  | q, .put xs :: ms => run (q ++ xs) ms
  | q, .fetch k :: ms => (q.take k ++ (run (q.drop k) ms).1, (run (q.drop k) ms).2)

/-- The queue stays shorter than `n`, and nothing is fetched that is not in it. -/
def Fits (n : ℕ) : List α → List (Move α) → Prop
  | _, [] => True
  | q, .put xs :: ms => q.length + xs.length < n ∧ Fits n (q ++ xs) ms
  | q, .fetch k :: ms => k ≤ q.length ∧ Fits n (q.drop k) ms

/-- What is left when too much is put into a circle of `n` cells: a round is lost. -/
def wrap (n : ℕ) (xs : List α) : List α := if xs.length < n then xs else xs.drop n

/-- All that is put in. -/
def puts : List (Move α) → List α
  | [] => []
  | .put xs :: ms => xs ++ puts ms
  | .fetch _ :: ms => puts ms

/-- Nothing is lost, fetched twice or out of order. -/
theorem run_append (q : List α) (ms : List (Move α)) : (run q ms).1 ++ (run q ms).2 = q ++ puts ms := by
  induction ms generalizing q with
  | nil => exact (List.append_nil q).symm
  | cons m ms ih =>
    cases m with
    | put xs =>
      show (run (q ++ xs) ms).1 ++ (run (q ++ xs) ms).2 = q ++ (xs ++ puts ms)
      rw [ih, List.append_assoc]
    | fetch k =>
      show (q.take k ++ (run (q.drop k) ms).1) ++ (run (q.drop k) ms).2 = q ++ puts ms
      rw [List.append_assoc, ih, ← List.append_assoc, List.take_append_drop]

end Move

end Cyclic
end Askozia
