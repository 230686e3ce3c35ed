import Mathlib.Data.List.Infix
import Mathlib.Tactic.Common

/-!
# Replacing words one after the other

A text in which some words have been marked is a list of pieces. Replacing a word everywhere in
the text replaces its marked occurrences, `replace_text`, as long as it occurs nowhere else: every
occurrence starts inside a marked one (`StartsOnlyIn`). For a list of words that is asked of every
word in the text the words before it have left, `Apart`, and then the outcome is that of replacing
all marked words at once, `replaceEach_text`.
-/

namespace Askozia
namespace Text

variable {α : Type*}

/-- A character, or a marked word. -/
inductive Piece (α : Type*) where
  | char (c : α)
  | word (w : List α)
deriving DecidableEq

/-- What a piece reads. -/
def Piece.spell : Piece α → List α
  | .char c => [c]
  | .word w => w

/-- The text of a list of pieces. -/
def text (ps : List (Piece α)) : List α := ps.flatMap Piece.spell

/-- The marked words, in order. -/
def words (ps : List (Piece α)) : List (List α) :=
  ps.filterMap fun | .char _ => none | .word w => some w

theorem text_cons (x : Piece α) (ps : List (Piece α)) : text (x :: ps) = x.spell ++ text ps :=
  List.flatMap_cons

theorem text_append (p q : List (Piece α)) : text (p ++ q) = text p ++ text q :=
  List.flatMap_append

theorem text_chars (n : List α) : text (n.map Piece.char) = n := by
  induction n with
  | nil => rfl
  | cons c r ih => rw [List.map_cons, text_cons, ih]; rfl

/-! ## Occurrences -/

/-- Every occurrence of `u` starts inside a marked one. -/
def StartsOnlyIn (u : List α) (ps : List (Piece α)) : Prop :=
  ∀ a b, text ps = a ++ u ++ b → ∃ p q, ps = p ++ .word u :: q ∧
    (text p).length ≤ a.length ∧ a.length < (text p).length + u.length

/-- What holds of a list of pieces holds of its tail. -/
theorem StartsOnlyIn.tail {u : List α} {x : Piece α} {ps : List (Piece α)}
    (h : StartsOnlyIn u (x :: ps)) : StartsOnlyIn u ps := by
  intro a b hab
  have hwhole : text (x :: ps) = (x.spell ++ a) ++ u ++ b := by
    rw [text_cons, hab, List.append_assoc, List.append_assoc, List.append_assoc]
  obtain ⟨p, q, hps, hlo, hhi⟩ := h _ _ hwhole
  rw [List.length_append] at hlo hhi
  cases p with
  | nil =>
    -- the occurrence would start behind the first piece and inside it
    rw [(List.cons.inj hps).1] at hhi
    change u.length + a.length < 0 + u.length at hhi
    omega
  | cons x' p =>
    obtain ⟨rfl, htl⟩ := List.cons.inj hps
    rw [text_cons, List.length_append] at hlo hhi
    exact ⟨p, q, htl, by omega, by omega⟩

/-- The word does not start in a piece that is not a marked occurrence of it. -/
theorem StartsOnlyIn.head {u : List α} {x : Piece α} {ps : List (Piece α)}
    (h : StartsOnlyIn u (x :: ps)) (hx : x ≠ .word u) (a b : List α) (hab : a ++ b = x.spell)
    (hb : b ≠ []) : ¬ u <+: b ++ text ps := by
  rintro ⟨t, ht⟩
  have hwhole : text (x :: ps) = a ++ u ++ t := by
    rw [text_cons, ← hab, List.append_assoc, List.append_assoc, ht]
  obtain ⟨p, q, hps, hlo, -⟩ := h _ _ hwhole
  cases p with
  | nil => exact hx (List.cons.inj hps).1
  | cons x' p =>
    obtain ⟨rfl, -⟩ := List.cons.inj hps
    rw [text_cons, List.length_append, ← hab, List.length_append] at hlo
    have hpos := List.length_pos_iff.2 hb
    omega

/-! ## Replacing -/

variable [DecidableEq α]

/-- After `k` more characters: every occurrence of `u` becomes `n`, from the left, and the search
goes on behind it. -/
def replaceFrom (u n : List α) : ℕ → List α → List α
  | _, [] => []
  | k + 1, _ :: r => replaceFrom u n k r
  | 0, c :: r =>
    if u.isPrefixOf (c :: r) then n ++ replaceFrom u n (u.length - 1) r
    else c :: replaceFrom u n 0 r

/-- Every occurrence of `u` becomes `n`. -/
def replace (u n s : List α) : List α := replaceFrom u n 0 s

/-- One replacement after the other. -/
def replaceEach (us : List (List α × List α)) (s : List α) : List α :=
  us.foldl (fun s p => replace p.1 p.2 s) s

/-- The marked occurrences of `u` become `n`, unmarked. -/
def substitute (u n : List α) (ps : List (Piece α)) : List (Piece α) :=
  ps.flatMap fun
    | .char c => [.char c]
    | .word w => if w = u then n.map .char else [.word w]

/-- All marked words that are in the list become what the list has for them. -/
def substituteAll (us : List (List α × List α)) (ps : List (Piece α)) : List (Piece α) :=
  ps.flatMap fun
    | .char c => [.char c]
    | .word w =>
      match us.lookup w with
      | some n => n.map .char
      | none => [.word w]

/-- The places where a word occurs, and the pieces around it, can be gone through. -/
theorem startsOnlyIn_iff {u : List α} {ps : List (Piece α)} :
    StartsOnlyIn u ps ↔ ∀ i < (text ps).length + 1, u.isPrefixOf ((text ps).drop i) = true →
      ∃ j < ps.length, ps[j]? = some (.word u) ∧ (text (ps.take j)).length ≤ i ∧
        i < (text (ps.take j)).length + u.length := by
  -- a place of the word is the length of the text before it
  constructor
  · intro h i hi hu
    obtain ⟨b, hb⟩ := List.isPrefixOf_iff_prefix.1 hu
    have hlen : ((text ps).take i).length = i := by
      rw [List.length_take]
      omega
    have hab : text ps = (text ps).take i ++ u ++ b := by
      rw [List.append_assoc, hb, List.take_append_drop]
    obtain ⟨p, q, hps, hlo, hhi⟩ := h _ _ hab
    have htake : ps.take p.length = p := by rw [hps, List.take_left]
    refine ⟨p.length, by rw [hps]; simp, by rw [hps]; simp, ?_⟩
    rw [htake]
    omega
  · intro h a b hab
    have hdrop : (text ps).drop a.length = u ++ b := by
      rw [hab, List.append_assoc, List.drop_left]
    have hle : a.length < (text ps).length + 1 := by
      rw [hab, List.length_append, List.length_append]
      omega
    obtain ⟨j, hj, hget, hlo, hhi⟩ := h a.length hle
      (by rw [hdrop]; exact List.isPrefixOf_iff_prefix.2 (List.prefix_append u b))
    refine ⟨ps.take j, ps.drop (j + 1), ?_, hlo, hhi⟩
    have hword : ps[j] = .word u := by
      rw [List.getElem?_eq_getElem hj] at hget
      exact Option.some.inj hget
    rw [← hword, ← List.drop_eq_getElem_cons hj, List.take_append_drop]

instance (u : List α) (ps : List (Piece α)) : Decidable (StartsOnlyIn u ps) :=
  decidable_of_iff' _ startsOnlyIn_iff

/-- Every word only starts inside its marked occurrences, in the text the words before it have
left. -/
def Apart : List (List α × List α) → List (Piece α) → Prop
  | [], _ => True
  | (u, n) :: us, ps => StartsOnlyIn u ps ∧ Apart us (substitute u n ps)

instance Apart.decidable : ∀ (us : List (List α × List α)) (ps : List (Piece α)),
    Decidable (Apart us ps)
  | [], _ => isTrue trivial
  | (u, n) :: us, ps =>
    haveI := Apart.decidable us (substitute u n ps)
    inferInstanceAs (Decidable (StartsOnlyIn u ps ∧ Apart us (substitute u n ps)))

section Step

variable {u n : List α}

theorem replaceFrom_skip (x y : List α) :
    replaceFrom u n x.length (x ++ y) = replaceFrom u n 0 y := by
  induction x with
  | nil => rfl
  | cons c r ih =>
    rw [List.length_cons, List.cons_append, replaceFrom]
    exact ih

theorem replaceFrom_occurrence (hu : u ≠ []) (y : List α) :
    replaceFrom u n 0 (u ++ y) = n ++ replaceFrom u n 0 y := by
  cases u with
  | nil => exact absurd rfl hu
  | cons c r =>
    have hpre : (c :: r).isPrefixOf (c :: (r ++ y)) = true :=
      List.isPrefixOf_iff_prefix.2 (List.prefix_append (c :: r) y)
    rw [List.cons_append, replaceFrom, if_pos hpre]
    exact congrArg _ (replaceFrom_skip r y)

/-- A stretch in which the word does not start stays. -/
theorem replaceFrom_stretch (x y : List α) (h : ∀ a b, a ++ b = x → b ≠ [] → ¬ u <+: b ++ y) :
    replaceFrom u n 0 (x ++ y) = x ++ replaceFrom u n 0 y := by
  induction x with
  | nil => rfl
  | cons c r ih =>
    have hnot : ¬ u.isPrefixOf (c :: (r ++ y)) = true := by
      rw [List.isPrefixOf_iff_prefix]
      exact h [] (c :: r) rfl (by simp)
    rw [List.cons_append, replaceFrom, if_neg hnot, ih, List.cons_append]
    intro a b hab hb
    exact h (c :: a) b (by rw [List.cons_append, hab]) hb

/-- Replacing a word replaces its marked occurrences. -/
theorem replace_text (hu : u ≠ []) {ps : List (Piece α)} (h : StartsOnlyIn u ps) :
    replace u n (text ps) = text (substitute u n ps) := by
  induction ps with
  | nil => rfl
  | cons x ps ih =>
    have htail : replaceFrom u n 0 (text ps) = text (substitute u n ps) := ih h.tail
    by_cases hx : x = .word u
    · have hsub : substitute u n (x :: ps) = n.map .char ++ substitute u n ps := by
        simp [substitute, hx]
      rw [hsub, text_append, text_chars, replace, text_cons, hx, ← htail]
      exact replaceFrom_occurrence hu _
    · have hsub : substitute u n (x :: ps) = x :: substitute u n ps := by
        cases x with
        | char c => rfl
        | word w =>
          have hw : w ≠ u := fun hc => hx (by rw [hc])
          simp [substitute, hw]
      rw [hsub, text_cons, replace, text_cons, ← htail]
      exact replaceFrom_stretch _ _ (h.head hx)

end Step

/-! ## Replacing several words -/

theorem substituteAll_chars (us : List (List α × List α)) (n : List α) :
    substituteAll us (n.map .char) = n.map .char := by
  induction n with
  | nil => rfl
  | cons c r ih => exact congrArg (Piece.char c :: ·) ih

theorem substituteAll_substitute (u n : List α) (us : List (List α × List α))
    (ps : List (Piece α)) :
    substituteAll us (substitute u n ps) = substituteAll ((u, n) :: us) ps := by
  unfold substitute
  rw [substituteAll, List.flatMap_assoc]
  refine List.flatMap_congr fun x _ => ?_
  cases x with
  | char c => rfl
  | word w =>
    by_cases hw : w = u
    · subst hw
      have hchars := substituteAll_chars us n
      unfold substituteAll at hchars
      simpa using hchars
    · have hbeq : (w == u) = false := beq_eq_false_iff_ne.2 hw
      simp [hw, List.lookup_cons, hbeq]

/-- Replacing one word after the other is replacing them all at once. -/
theorem replaceEach_text {us : List (List α × List α)} (hne : ∀ p ∈ us, p.1 ≠ [])
    {ps : List (Piece α)} (h : Apart us ps) :
    replaceEach us (text ps) = text (substituteAll us ps) := by
  induction us generalizing ps with
  | nil =>
    have hnil : substituteAll [] ps = ps := by
      induction ps with
      | nil => rfl
      | cons x r ih =>
        have hx : substituteAll [] (x :: r) = x :: substituteAll [] r := by cases x <;> rfl
        rw [hx, ih trivial]
    rw [hnil]
    rfl
  | cons p us ih =>
    obtain ⟨hfirst, hrest⟩ := h
    rw [replaceEach, List.foldl_cons, replace_text (hne p List.mem_cons_self) hfirst,
      ← substituteAll_substitute]
    exact ih (fun q hq => hne q (List.mem_cons_of_mem p hq)) hrest

end Text
end Askozia
