import Mathlib.Data.List.Basic
import Mathlib.Data.List.Infix
import Mathlib.Tactic.Common

/-!
# Buffered streams

A stream of the C library reads ahead into a buffer. What is in the buffer stays as it was read, also if
the file is cut behind it.

* `ahead`: the bytes that will be read from a stream, which `fread` takes from the front;
* `Fresh`: the buffer has what the file has, so that a seek decides what will be read;
* `ahead_cut`: what is read from the start once the file has been cut;
* `flatten_updates`: a loop that reads up to the end of the file reads what is ahead.
-/

namespace Askozia
namespace Stdio

/-- How a C library buffers its streams. -/
structure Libc where
  /-- The size of a buffer. -/
  bufsiz : ℕ
  /-- A seek to a byte in the buffer keeps the buffer, and any other seek reads the block around the
  position. Without this, every seek drops the buffer. -/
  keeps : Bool
  bufsiz_pos : 0 < bufsiz

/-- A `FILE` that is open. The descriptor is at the end of the buffer. -/
structure File (α : Type) where
  /-- Where in the file the buffer starts. -/
  start : ℕ
  buffer : List α
  /-- How many bytes of the buffer have been read. -/
  off : ℕ

namespace File

variable {α : Type}

/-- A stream that has just been opened. -/
def opened : File α := ⟨0, [], 0⟩

/-- The position of the descriptor. -/
def next (f : File α) : ℕ := f.start + f.buffer.length

/-- `fseek(f, target, SEEK_SET)`, not beyond the end of the file. -/
def fseek (c : Libc) (file : List α) (f : File α) (target : ℕ) : File α :=
  if c.keeps then
    if f.start ≤ target ∧ target < f.next then { f with off := target - f.start }
    else
      let start := target - target % c.bufsiz
      -- at the start of a block nothing is read, and into an empty buffer only what is before the position
      let size := if f.buffer.isEmpty ∨ target % c.bufsiz = 0 then target % c.bufsiz else c.bufsiz
      ⟨start, (file.drop start).take size, target % c.bufsiz⟩
  else ⟨target, [], 0⟩

/-- `fseek(f, -back, SEEK_END)`: before the start of the file it fails. -/
def seekEnd (c : Libc) (file : List α) (f : File α) (back : ℕ) : File α :=
  if back ≤ file.length then fseek c file f (file.length - back) else f

/-- `rewind(f)` -/
def rewind (c : Libc) (file : List α) (f : File α) : File α := fseek c file f 0

/-- `fread` of `n` bytes: those that are in the buffer, whole blocks past it, and the rest from a new
buffer. -/
def fread (c : Libc) (file : List α) (f : File α) (n : ℕ) : List α × File α :=
  let buffered := f.buffer.drop f.off
  if n ≤ buffered.length then (buffered.take n, { f with off := f.off + n })
  else
    let want := n - buffered.length
    let blocks := (file.drop f.next).take (want - want % c.bufsiz)
    let buffer := (file.drop (f.next + blocks.length)).take (if want % c.bufsiz = 0 then 0 else c.bufsiz)
    (buffered ++ blocks ++ buffer.take (want % c.bufsiz),
      if buffer.length < want % c.bufsiz then ⟨f.next + blocks.length + buffer.length, [], 0⟩
      else ⟨f.next + blocks.length, buffer, want % c.bufsiz⟩)

/-- The bytes that will be read. -/
def ahead (file : List α) (f : File α) : List α := f.buffer.drop f.off ++ file.drop f.next

/-- The buffer has what the file has. -/
structure Fresh (file : List α) (f : File α) : Prop where
  off_le : f.off ≤ f.buffer.length
  start_le : f.start ≤ file.length
  buffer_prefix : f.buffer <+: file.drop f.start

section Reading

variable {c : Libc} {file : List α} {f : File α} {n back target : ℕ}

theorem ahead_opened : ahead file opened = file := rfl

theorem fresh_opened : Fresh file opened := ⟨Nat.le_refl 0, Nat.zero_le _, List.nil_prefix⟩

/-- Dropping what was taken. -/
theorem drop_length_take (l : List α) : l.drop (l.take n).length = l.drop n := by
  rw [List.length_take]
  rcases Nat.le_total n l.length with hle | hle
  · rw [Nat.min_eq_left hle]
  · rw [Nat.min_eq_right hle, List.drop_length, List.drop_eq_nil_of_le hle]

/-- A part of the bytes ahead is in the buffer, or read into it. -/
theorem ahead_buffered (l : List α) {k r : ℕ} (h : r ≤ (l.take k).length) :
    (l.take k).drop r ++ l.drop (l.take k).length = l.drop r := by
  rw [drop_length_take, ← List.drop_append_of_le_length h, List.take_append_drop]

/-- `fread` takes the bytes that are ahead. -/
theorem fread_eq : (fread c file f n).1 = (ahead file f).take n ∧
    ahead file (fread c file f n).2 = (ahead file f).drop n := by
  unfold fread ahead
  dsimp only
  by_cases hbuffered : n ≤ (f.buffer.drop f.off).length
  · rw [if_pos hbuffered, List.take_append_of_le_length hbuffered,
      List.drop_append_of_le_length hbuffered, List.drop_drop]
    exact ⟨rfl, rfl⟩
  · rw [if_neg hbuffered]
    obtain ⟨want, hn⟩ := Nat.exists_eq_add_of_le (Nat.le_of_not_le hbuffered)
    have hwant : n - (f.buffer.drop f.off).length = want := by omega
    rw [hwant, hn, List.take_length_add_append, List.drop_length_add_append]
    -- `rest` is behind the buffer, `l` behind the whole blocks, and a read of `size` bytes is enough
    set rest := file.drop f.next with hrest
    set r := want % c.bufsiz with hr
    set l := rest.drop (want - r) with hl
    have hsize : r ≤ if r = 0 then 0 else c.bufsiz := by
      split_ifs with hzero
      · exact Nat.le_of_eq hzero
      · exact Nat.le_of_lt (Nat.mod_lt _ c.bufsiz_pos)
    generalize (if r = 0 then 0 else c.bufsiz) = size at hsize
    have hsplit : want = (want - r) + r := (Nat.sub_add_cancel (Nat.mod_le _ _)).symm
    have hafter : file.drop (f.next + (rest.take (want - r)).length) = l := by
      rw [← List.drop_drop, ← hrest, drop_length_take]
    have hbehind : rest.drop want = l.drop r := by
      conv_lhs => rw [hsplit]
      exact List.drop_drop.symm
    rw [hafter, hbehind]
    constructor
    · show f.buffer.drop f.off ++ rest.take (want - r) ++ (l.take size).take r =
        f.buffer.drop f.off ++ rest.take want
      rw [List.append_assoc, List.take_take, Nat.min_eq_left hsize]
      conv_rhs => rw [hsplit, List.take_add]
    · split_ifs with hshort
      · -- the file ends here
        show [] ++ file.drop (f.next + (rest.take (want - r)).length + (l.take size).length + 0) = _
        rw [List.length_take] at hshort
        rw [List.nil_append, Nat.add_zero, ← List.drop_drop, hafter, drop_length_take,
          List.drop_eq_nil_of_le (by omega), List.drop_eq_nil_of_le (by omega)]
      · show (l.take size).drop r ++ file.drop (f.next + (rest.take (want - r)).length +
          (l.take size).length) = _
        rw [← List.drop_drop, hafter]
        exact ahead_buffered l (Nat.not_lt.1 hshort)

/-- What is read into a buffer is fresh. -/
theorem fresh_take {start size off : ℕ} (hstart : start ≤ file.length)
    (hoff : off ≤ ((file.drop start).take size).length) :
    Fresh file ⟨start, (file.drop start).take size, off⟩ :=
  ⟨hoff, hstart, List.take_prefix _ _⟩

/-- An empty buffer is fresh. -/
theorem fresh_nil {start : ℕ} (hstart : start ≤ file.length) : Fresh file ⟨start, [], 0⟩ :=
  ⟨Nat.le_refl 0, hstart, List.nil_prefix⟩

theorem Fresh.next_le (h : Fresh file f) : f.next ≤ file.length := by
  have hlength := h.buffer_prefix.length_le
  rw [List.length_drop] at hlength
  have hstart := h.start_le
  unfold next
  omega

theorem fresh_fread (h : Fresh file f) : Fresh file (fread c file f n).2 := by
  unfold fread
  dsimp only
  have hnext := h.next_le
  split_ifs with hbuffered hzero hshort hshort
  · refine ⟨?_, h.start_le, h.buffer_prefix⟩
    rw [List.length_drop] at hbuffered
    have hoff := h.off_le
    show f.off + n ≤ f.buffer.length
    omega
  all_goals
    first
      | refine fresh_nil ?_
      | refine fresh_take ?_ (Nat.not_lt.1 hshort)
    simp only [List.length_take, List.length_drop]
    omega

/-- A buffer that is fresh is read as the file would be. -/
theorem Fresh.ahead_eq (h : Fresh file f) : ahead file f = file.drop (f.start + f.off) := by
  obtain ⟨rest, hrest⟩ := h.buffer_prefix
  have hbehind : file.drop f.next = rest := by
    unfold next
    rw [← List.drop_drop, ← hrest, List.drop_left]
  unfold ahead
  rw [hbehind, ← List.drop_append_of_le_length h.off_le, hrest, List.drop_drop]

/-- A seek decides what is ahead. -/
theorem fseek_spec (h : Fresh file f) (htarget : target ≤ file.length) :
    Fresh file (fseek c file f target) ∧ ahead file (fseek c file f target) = file.drop target := by
  have hmod := Nat.mod_lt target c.bufsiz_pos
  have hle := Nat.mod_le target c.bufsiz
  have hat : ∀ f : File α, Fresh file f → f.start + f.off = target →
      Fresh file f ∧ ahead file f = file.drop target := by
    intro f hfresh hpos
    rw [hfresh.ahead_eq, hpos]
    exact ⟨hfresh, rfl⟩
  have hrefill : ∀ size, target % c.bufsiz ≤ size →
      Fresh file ⟨target - target % c.bufsiz, (file.drop (target - target % c.bufsiz)).take size,
        target % c.bufsiz⟩ := by
    intro size hsize
    refine fresh_take (by omega) ?_
    rw [List.length_take, List.length_drop]
    omega
  have hsum : target - target % c.bufsiz + target % c.bufsiz = target := Nat.sub_add_cancel hle
  unfold fseek
  split_ifs with hkeeps hin
  · refine hat _ ⟨?_, h.start_le, h.buffer_prefix⟩ ?_
    · have hnext := hin.2
      unfold next at hnext
      show target - f.start ≤ f.buffer.length
      omega
    · show f.start + (target - f.start) = target
      omega
  · exact hat _ (hrefill _ (Nat.le_refl _)) hsum
  · exact hat _ (hrefill _ (Nat.le_of_lt hmod)) hsum
  · exact hat _ (fresh_nil htarget) (Nat.add_zero _)

theorem seekEnd_spec (c : Libc) (back : ℕ) (h : Fresh file f) : Fresh file (seekEnd c file f back) ∧
    ahead file (seekEnd c file f back) =
      if back ≤ file.length then file.drop (file.length - back) else ahead file f := by
  unfold seekEnd
  split_ifs with hback
  · exact fseek_spec h (Nat.sub_le _ _)
  · exact ⟨h, rfl⟩

/-! ## A file that is cut -/

/-- A stream at the end of the file keeps the whole file if that is less than a buffer. -/
def Stale (c : Libc) (file : List α) : Prop := c.keeps = true ∧ file.length < c.bufsiz

instance : Decidable (Stale c file) := inferInstanceAs (Decidable (_ ∧ _))

/-- At the end of a file the buffer has the last block, up to the end. -/
theorem seekEnd_zero (h : Fresh file f) (hkeeps : c.keeps = true) :
    seekEnd c file f 0 = ⟨file.length - file.length % c.bufsiz,
      file.drop (file.length - file.length % c.bufsiz), file.length % c.bufsiz⟩ := by
  have hnext := h.next_le
  have hmod := Nat.mod_lt file.length c.bufsiz_pos
  have hle := Nat.mod_le file.length c.bufsiz
  have hlast : ¬ (f.start ≤ file.length ∧ file.length < f.next) := by omega
  have hall : ∀ size, file.length % c.bufsiz ≤ size →
      (file.drop (file.length - file.length % c.bufsiz)).take size =
        file.drop (file.length - file.length % c.bufsiz) := by
    intro size hsize
    apply List.take_of_length_le
    rw [List.length_drop]
    omega
  unfold seekEnd fseek
  rw [if_pos (Nat.zero_le _), Nat.sub_zero, if_pos hkeeps, if_neg hlast]
  dsimp only
  split_ifs
  · rw [hall _ (Nat.le_refl _)]
  · rw [hall _ (Nat.le_of_lt hmod)]

/-- A stream goes to the end of a file, the file is cut, and the stream goes to the start again. What it
reads there is the file as it was if the buffer still has it, and else as it is now. -/
theorem ahead_cut (h : Fresh file f) {cut : List α} (hcut : cut.length ≤ file.length) :
    ahead cut (rewind c cut (seekEnd c file f 0)) = if Stale c file then file else cut := by
  by_cases hkeeps : c.keeps = true
  · rw [seekEnd_zero h hkeeps]
    by_cases hshort : file.length < c.bufsiz
    · rw [if_pos (show Stale c file from ⟨hkeeps, hshort⟩), Nat.mod_eq_of_lt hshort, Nat.sub_self,
        List.drop_zero]
      unfold rewind fseek
      rw [if_pos hkeeps]
      by_cases hpos : 0 < file.length
      · -- the buffer has the file from its start
        rw [if_pos ⟨Nat.le_refl 0, (Nat.zero_add file.length).symm ▸ hpos⟩]
        show file.drop 0 ++ cut.drop (0 + file.length) = file
        rw [List.drop_zero, List.drop_eq_nil_of_le (by omega), List.append_nil]
      · have hnil : file = [] := List.eq_nil_of_length_eq_zero (by omega)
        have hempty : cut = [] := List.eq_nil_of_length_eq_zero (by rw [hnil] at hcut; exact Nat.le_zero.1 hcut)
        rw [hnil, hempty]
        simp [ahead]
    · have hmod := Nat.mod_lt file.length c.bufsiz_pos
      rw [if_neg fun hstale => hshort hstale.2]
      unfold rewind fseek
      rw [if_pos hkeeps, if_neg (by dsimp only; omega), Nat.zero_mod]
      simp [ahead, next]
  · rw [if_neg fun hstale => hkeeps hstale.1]
    unfold rewind fseek
    rw [if_neg hkeeps]
    rfl

end Reading

end File

/-! ## Loops to the end of the file -/

section Loop

variable {α : Type}

/-- `while (!feof(f)) update(buf, fread(buf, 1, size, f))`: what each update is called with. Only a read
that comes to the end of the file sets `feof`. -/
def updates (c : Libc) (file : List α) (size : ℕ) (hsize : 0 < size) (f : File α) : List (List α) :=
  if (f.fread c file size).1.length < size then [(f.fread c file size).1]
  else (f.fread c file size).1 :: updates c file size hsize (f.fread c file size).2
termination_by (f.ahead file).length
decreasing_by
  rename_i h
  obtain ⟨hread, hleft⟩ := @File.fread_eq _ c file f size
  rw [hread, List.length_take] at h
  rw [hleft, List.length_drop]
  omega

/-- Together the updates are what is ahead. -/
theorem flatten_updates (c : Libc) (file : List α) {size : ℕ} (hsize : 0 < size) (f : File α) :
    (updates c file size hsize f).flatten = f.ahead file := by
  fun_induction updates c file size hsize f with
  | case1 f h =>
    rw [List.flatten_singleton]
    rw [File.fread_eq.1] at h ⊢
    apply List.take_of_length_le
    rw [List.length_take] at h
    omega
  | case2 f h ih =>
    rw [List.flatten_cons, ih, File.fread_eq.1, File.fread_eq.2]
    exact List.take_append_drop _ _

end Loop

end Stdio
end Askozia
