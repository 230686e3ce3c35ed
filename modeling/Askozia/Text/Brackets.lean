import Mathlib.Data.List.Basic
import Mathlib.Tactic.Common

/-!
# Brackets

Texts over any alphabet with some pairs of brackets, given by the closing bracket of every opening
one. A text is balanced if the grammar makes it, and it can be read from left to right with the open
brackets on a stack. Both are the same: `balanced_iff_reads`.

A bracket is wrong if it closes what is not the innermost open one: `WrongAt`. A text that is read to
its end has none, `not_wrongAt_of_reads`.
-/

namespace Askozia
namespace Text

variable {α : Type*} (closer : α → Option α)

/-- The brackets are opened and closed in pairs that do not cross. -/
inductive Balanced : List α → Prop
  | nil : Balanced []
  | other {c : α} {r : List α} : closer c = none → (∀ o, closer o ≠ some c) → Balanced r →
      Balanced (c :: r)
  | pair {o c : α} {a b : List α} : closer o = some c → Balanced a → Balanced b →
      Balanced (o :: a ++ c :: b)

/-- Reading a text with some brackets open, the innermost first, leaves others open. -/
inductive Reads : List α → List α → List α → Prop
  | nil (st : List α) : Reads [] st st
  | other {c : α} {r st st' : List α} : closer c = none → (∀ o, closer o ≠ some c) → Reads r st st' →
      Reads (c :: r) st st'
  | opening {o c : α} {r st st' : List α} : closer o = some c → Reads r (o :: st) st' →
      Reads (o :: r) st st'
  | closing {o c : α} {r st st' : List α} : closer c = none → closer o = some c → Reads r st st' →
      Reads (c :: r) (o :: st) st'

/-- After `p` comes the first closing bracket that does not match the innermost open one. -/
def WrongAt (s p : List α) : Prop :=
  ∃ c r st, s = p ++ c :: r ∧ Reads closer p [] st ∧ closer c = none ∧ (∃ o, closer o = some c) ∧
    ∀ o ∈ st.head?, closer o ≠ some c

section Reading

variable {closer} {s s' st st' st'' : List α}

theorem Reads.append (h : Reads closer s st st') (h' : Reads closer s' st' st'') :
    Reads closer (s ++ s') st st'' := by
  induction h with
  | nil st => exact h'
  | other hc ho _ ih => exact .other hc ho (ih h')
  | opening ho _ ih => exact .opening ho (ih h')
  | closing hc ho _ ih => exact .closing hc ho (ih h')

/-- What is left open is determined by the text. -/
theorem Reads.unique (h : Reads closer s st st') (h' : Reads closer s st st'') : st' = st'' := by
  induction h with
  | nil st =>
    cases h'
    rfl
  | @other c r st st' hc ho _ ih =>
    cases h' with
    | other _ _ h' => exact ih h'
    | opening hopen _ =>
      rw [hc] at hopen
      cases hopen
    | closing _ hclose _ => exact absurd hclose (ho _)
  | @opening o c r st st' ho _ ih =>
    cases h' with
    | other hc _ _ =>
      rw [ho] at hc
      cases hc
    | opening _ h' => exact ih h'
    | closing hc _ _ =>
      rw [ho] at hc
      cases hc
  | @closing o c r st st' hc ho _ ih =>
    cases h' with
    | other _ hnone _ => exact absurd ho (hnone o)
    | opening hopen _ =>
      rw [hc] at hopen
      cases hopen
    | closing _ _ h' => exact ih h'

/-- A text that is read to its end is read to every place before. -/
theorem Reads.of_append (h : Reads closer (s ++ s') st st'') :
    ∃ st', Reads closer s st st' ∧ Reads closer s' st' st'' := by
  induction s generalizing st with
  | nil => exact ⟨st, .nil st, h⟩
  | cons c r ih =>
    rw [List.cons_append] at h
    cases h with
    | other hc ho h =>
      obtain ⟨st', hr, hs'⟩ := ih h
      exact ⟨st', .other hc ho hr, hs'⟩
    | opening ho h =>
      obtain ⟨st', hr, hs'⟩ := ih h
      exact ⟨st', .opening ho hr, hs'⟩
    | closing hc ho h =>
      obtain ⟨st', hr, hs'⟩ := ih h
      exact ⟨st', .closing hc ho hr, hs'⟩

theorem not_wrongAt_of_reads (h : Reads closer s [] st) (p : List α) : ¬ WrongAt closer s p := by
  rintro ⟨c, r, st', rfl, hp, hc, ⟨o, ho⟩, hwrong⟩
  obtain ⟨st'', hp', hrest⟩ := h.of_append
  obtain rfl := hp.unique hp'
  cases hrest with
  | other _ hnone _ => exact hnone o ho
  | opening hopen _ =>
    rw [hc] at hopen
    cases hopen
  | closing _ hclose _ => exact hwrong _ rfl hclose

/-- A wrong bracket is not read over. -/
theorem WrongAt.length_le {p p' : List α} (h : WrongAt closer s p) (h' : WrongAt closer s p') :
    p'.length ≤ p.length := by
  by_contra hlt
  obtain ⟨c, r, st, hs, hp, hrest⟩ := h
  obtain ⟨c', r', st', hs', hp', -⟩ := h'
  have hprefix : p <+: p' := by
    apply List.prefix_of_prefix_length_le ⟨c :: r, hs.symm⟩ ⟨c' :: r', hs'.symm⟩
    omega
  obtain ⟨q, rfl⟩ := hprefix
  cases q with
  | nil => simp at hlt
  | cons d q =>
    rw [hs, List.append_assoc, List.append_cancel_left_eq, List.cons_append] at hs'
    obtain ⟨rfl, -⟩ := List.cons.inj hs'
    exact not_wrongAt_of_reads hp' p ⟨c, q, st, rfl, hp, hrest⟩

end Reading

/-! ## Grammar and stack -/

section Grammar

variable {closer} {s a st : List α}

theorem Balanced.append (ha : Balanced closer a) (hs : Balanced closer s) :
    Balanced closer (a ++ s) := by
  induction ha with
  | nil => exact hs
  | other hc ho _ ih => exact .other hc ho ih
  | @pair o c a b ho ha _ _ ih =>
    have hmove : (o :: a ++ c :: b) ++ s = o :: a ++ c :: (b ++ s) := by
      simp only [List.cons_append, List.append_assoc]
    rw [hmove]
    exact .pair ho ha ih

/-- A balanced text leaves open what was open. -/
theorem Balanced.reads (hclosing : ∀ o c, closer o = some c → closer c = none)
    (h : Balanced closer s) (st : List α) : Reads closer s st st := by
  induction h generalizing st with
  | nil => exact .nil st
  | other hc ho _ ih => exact .other hc ho (ih st)
  | @pair o c a b ho _ _ iha ihb =>
    have hrest : Reads closer (c :: b) (o :: st) st := .closing (hclosing o c ho) ho (ihb st)
    exact .opening ho ((iha (o :: st)).append hrest)

/-- The text closes some brackets one after the other, with balanced texts between. -/
def ClosesAll (closer : α → Option α) : List α → List α → Prop
  | [], s => Balanced closer s
  | o :: st, s => ∃ a c r, s = a ++ c :: r ∧ closer o = some c ∧ Balanced closer a ∧ ClosesAll closer st r

theorem ClosesAll.append (ha : Balanced closer a) (h : ClosesAll closer st s) :
    ClosesAll closer st (a ++ s) := by
  cases st with
  | nil => exact ha.append h
  | cons o st =>
    obtain ⟨b, c, r, rfl, ho, hb, hr⟩ := h
    exact ⟨a ++ b, c, r, by rw [List.append_assoc], ho, ha.append hb, hr⟩

/-- A text after which nothing is open closes all that was. -/
theorem Reads.closesAll (h : Reads closer s st []) : ClosesAll closer st s := by
  generalize hend : ([] : List α) = st' at h
  induction h with
  | nil st =>
    rw [← hend]
    exact .nil
  | @other c r st st' hc ho _ ih =>
    have hone : Balanced closer [c] := .other hc ho .nil
    exact (ih hend).append hone
  | @opening o c r st st' ho _ ih =>
    obtain ⟨a, d, r', rfl, hd, ha, hr⟩ := ih hend
    have hpair : Balanced closer (o :: a ++ d :: []) := .pair hd ha .nil
    have hmove : o :: (a ++ d :: r') = (o :: a ++ d :: []) ++ r' := by
      simp only [List.cons_append, List.append_assoc, List.nil_append]
    rw [hmove]
    exact hr.append hpair
  | @closing o c r st st' hc ho _ ih => exact ⟨[], c, r, rfl, ho, .nil, ih hend⟩

/-- The grammar and the stack agree. -/
theorem balanced_iff_reads (hclosing : ∀ o c, closer o = some c → closer c = none) :
    Balanced closer s ↔ Reads closer s [] [] :=
  ⟨fun h => h.reads hclosing [], fun h => h.closesAll⟩

end Grammar

end Text
end Askozia
