import Askozia.Asterisk.Dialplan
import Askozia.Php.Value

/-!
# Priorities

The steps of an extension are numbered, and `n` stands for the number after the one of the line before
it, whatever extension that line is for. So steps are in order only if an extension's lines are
written one after the other.

* `InOrder` says this of the lines of a dialplan;
* `Decides`: blocks of lines that are in order under a condition, wherever they stand, and how they
  are put together.
-/

namespace Askozia
namespace Asterisk

open Php

/-! ## Lines -/

/-- The priority of a step. -/
inductive Priority where
  | number (n : ℕ)
  | next
  /-- `hint`, or what is no priority. -/
  | none
deriving DecidableEq, Repr

/-- The priority at the start of a text, up to a comma or a label. -/
def readPriority (rest : List Char) : Priority :=
  let word := rest.takeWhile fun c => c != ',' && c != '('
  if word = ['n'] then .next
  else if word ≠ [] ∧ word.all Char.isDigit then .number (Val.digitsValue word)
  else .none

/-- What a line is in the order of steps. -/
inductive Mark where
  | step (name : String) (priority : Priority)
  /-- The line opens a context. -/
  | opening
  | neither
deriving DecidableEq, Repr

/-- What a line is. -/
def markOf (line : List Char) : Mark :=
  if (readLine line).opened.isSome then .opening
  else if "exten => ".toList.isPrefixOf line then
    match cutAt ',' (line.drop 9) with
    | some (name, rest) => .step (String.ofList name) (readPriority rest)
    | none => .neither
  else .neither

/-! ## Order -/

/-- The last line of a context that is for an extension: its name, and its number. -/
abbrev Last := Option (String × Option ℕ)

/-- The number of a step: `n` is the one after the last. -/
def Priority.numberAfter (last : Last) : Priority → Option ℕ
  | number n => some n
  | next => (last.bind Prod.snd).map (· + 1)
  | none => Option.none

/-- The last line after another one. -/
def Mark.after (last : Last) : Mark → Last
  | step name priority => some (name, priority.numberAfter last)
  | opening => none
  | neither => last

/-- A step is the first one of its extension, or it comes after the step before it; `n` goes on with
the same extension. -/
def Mark.InOrder (last : Last) : Mark → Prop
  | step _ .none => True
  | step name priority =>
    (priority = .next → last.map Prod.fst = some name) ∧
      (priority.numberAfter last = some 1 ∨
        ∃ k, last = some (name, some k) ∧ priority.numberAfter last = some (k + 1))
  | _ => True

/-- All lines are. -/
def InOrder : Last → List Mark → Prop
  | _, [] => True
  | last, mark :: r => mark.InOrder last ∧ InOrder (mark.after last) r

/-- In each context of a text, every step with the priority `n` comes right after a step of the same
extension, and the steps of every extension are numbered from one on. -/
def StepsInOrder (text : String) : Prop :=
  InOrder none ((explodeChars '\n' text.toList).map markOf)

/-! ## Blocks -/

/-- The lines are in order exactly under a condition, whatever is before them. -/
def Decides (marks : List Mark) (C : Prop) : Prop := ∀ last, InOrder last marks ↔ C

section Order

variable {last : Last} {a b : List Mark} {A B : Prop} {name : String} {priority : Priority}

theorem inOrder_append : InOrder last (a ++ b) ↔ InOrder last a ∧ InOrder (a.foldl Mark.after last) b := by
  induction a generalizing last with
  | nil => exact ⟨fun h => ⟨trivial, h⟩, And.right⟩
  | cons m r ih =>
    rw [List.cons_append, InOrder, InOrder, ih, and_assoc]
    rfl

theorem Decides.append (ha : Decides a A) (hb : Decides b B) : Decides (a ++ b) (A ∧ B) := by
  intro last
  rw [inOrder_append, ha last, hb]

theorem Decides.congr (h : Decides a A) (hiff : A ↔ B) : Decides a B := fun last => (h last).trans hiff

theorem decides_nil : Decides [] True := fun _ => Iff.rfl

/-- A line that is for no extension. -/
theorem decides_neither : Decides [.neither] True := fun _ => ⟨fun _ => trivial, fun _ => ⟨trivial, trivial⟩⟩

theorem decides_flatMap {α : Type} {xs : List α} {f : α → List Mark} {C : α → Prop}
    (h : ∀ x ∈ xs, Decides (f x) (C x)) : Decides (xs.flatMap f) (∀ x ∈ xs, C x) := by
  induction xs with
  | nil => exact decides_nil.congr ⟨fun _ x hx => absurd hx List.not_mem_nil, fun _ => trivial⟩
  | cons x r ih =>
    rw [List.flatMap_cons]
    apply ((h x List.mem_cons_self).append (ih fun y hy => h y (List.mem_cons_of_mem _ hy))).congr
    exact (List.forall_mem_cons).symm

/-- A line that is no step comes first. -/
theorem Decides.neither (h : Decides a A) : Decides (.neither :: a) A :=
  (decides_neither.append h).congr (iff_of_eq (true_and _))

/-- A hint, or what is no step. -/
theorem decides_none : Decides [.step name .none] True :=
  fun _ => ⟨fun _ => trivial, fun _ => ⟨trivial, trivial⟩⟩

/-- Further steps of an extension, with lines between them that are for none. -/
theorem inOrder_next {k : ℕ} {marks : List Mark}
    (h : ∀ m ∈ marks, m = .step name .next ∨ m = .neither) : InOrder (some (name, some k)) marks := by
  induction marks generalizing k with
  | nil => trivial
  | cons m r ih =>
    have hr : ∀ m ∈ r, m = .step name .next ∨ m = .neither := fun m hm => h m (List.mem_cons_of_mem _ hm)
    rcases h m List.mem_cons_self with rfl | rfl
    · exact ⟨⟨fun _ => rfl, .inr ⟨k, rfl, rfl⟩⟩, ih hr⟩
    · exact ⟨trivial, ih hr⟩

/-- The first step of an extension, whatever is before it. -/
theorem inOrder_first : InOrder last (.step name (.number 1) :: a) ↔ InOrder (some (name, some 1)) a := by
  rw [InOrder]
  have hfirst : (Mark.step name (.number 1)).InOrder last := ⟨fun h => Priority.noConfusion h, .inl rfl⟩
  exact and_iff_right hfirst

/-- A step with `n`. -/
theorem inOrder_cons_next {k : ℕ} {last' : String} :
    InOrder (some (last', some k)) (.step name .next :: a) ↔
      last' = name ∧ InOrder (some (name, some (k + 1))) a := by
  rw [InOrder]
  constructor
  · rintro ⟨hmark, ha⟩
    exact ⟨Option.some.inj (hmark.1 rfl), ha⟩
  · rintro ⟨rfl, ha⟩
    exact ⟨⟨fun _ => rfl, .inr ⟨k, rfl, rfl⟩⟩, ha⟩

/-- A step with the number after the last. -/
theorem inOrder_number {k : ℕ} :
    InOrder (some (name, some k)) (.step name (.number (k + 1)) :: a) ↔
      InOrder (some (name, some (k + 1))) a := by
  rw [InOrder]
  have hnumber : (Mark.step name (.number (k + 1))).InOrder (some (name, some k)) :=
    ⟨fun h => Priority.noConfusion h, .inr ⟨k, rfl, rfl⟩⟩
  exact and_iff_right hnumber

/-- Lines of another extension before them do not matter. -/
theorem inOrder_of_ne {ps : List Priority} (h : ∀ k, last ≠ some (name, k)) :
    InOrder last (ps.map (.step name)) ↔ InOrder none (ps.map (.step name)) := by
  cases ps with
  | nil => exact Iff.rfl
  | cons p r =>
    rw [List.map_cons, InOrder, InOrder]
    cases p with
    | none => exact Iff.rfl
    | number n =>
      have hmark : (Mark.step name (.number n)).InOrder last ↔
          (Mark.step name (.number n)).InOrder none := by
        simp [Mark.InOrder, Priority.numberAfter, h]
      rw [hmark]
      rfl
    | next =>
      have hnot : ∀ last', (∀ k, last' ≠ some (name, k)) → ¬ (Mark.step name .next).InOrder last' := by
        intro last' hne hmark
        have hsame := hmark.1 rfl
        rw [Option.map_eq_some_iff] at hsame
        obtain ⟨x, hx, rfl⟩ := hsame
        exact hne x.2 hx
      constructor
      · exact fun horder => absurd horder.1 (hnot last h)
      · exact fun horder => absurd horder.1 (hnot none fun _ => nofun)

/-- A whole extension: its first step, and further ones. -/
theorem decides_extension {marks : List Mark} (h : ∀ m ∈ marks, m = .step name .next ∨ m = .neither) :
    Decides (.step name (.number 1) :: marks) True := by
  intro last
  rw [inOrder_first, iff_true]
  exact inOrder_next h

end Order

/-! ## Priorities of texts -/

section Texts

variable {a b : List Char}

theorem readPriority_append (h : ∃ c ∈ a, c = ',' ∨ c = '(') : readPriority (a ++ b) = readPriority a := by
  have hword : (a ++ b).takeWhile (fun c => c != ',' && c != '(') =
      a.takeWhile (fun c => c != ',' && c != '(') := by
    obtain ⟨c, hc, hcut⟩ := h
    have hlength : (a.takeWhile fun c => c != ',' && c != '(').length ≠ a.length := by
      intro heq
      have hall := List.takeWhile_eq_self_iff.1 ((List.takeWhile_prefix _).eq_of_length heq)
      have hc := hall c hc
      rcases hcut with rfl | rfl
      · exact absurd hc (by decide)
      · exact absurd hc (by decide)
    rw [List.takeWhile_append, if_neg hlength]
  unfold readPriority
  rw [hword]

/-- A priority that starts with `n` is `n`, with a label perhaps. -/
theorem readPriority_next (hcomma : ',' ∉ a) (hpriority : isPriority a = true) (hhead : a.head? = some 'n') :
    readPriority (a ++ ',' :: b) = .next := by
  have hword : (a ++ ',' :: b).takeWhile (fun c => c != ',' && c != '(') = a.takeWhile (· != '(') := by
    clear hpriority hhead
    induction a with
    | nil => rfl
    | cons c r ih =>
      rw [List.mem_cons, not_or] at hcomma
      have hc : (c != ',') = true := bne_iff_ne.2 (Ne.symm hcomma.1)
      rw [List.cons_append, List.takeWhile_cons, List.takeWhile_cons, hc, Bool.true_and, ih hcomma.2]
  have hnumber : a.takeWhile (· != '(') = ['n'] := by
    cases a with
    | nil => cases hhead
    | cons c r =>
      obtain rfl := Option.some.inj hhead
      simp only [isPriority, Bool.and_eq_true, Bool.or_eq_true, beq_iff_eq] at hpriority
      rcases hpriority.1 with hn | hdigits
      · exact hn
      · -- no digit is `n`
        rw [List.takeWhile_cons_of_pos (by decide), List.all_cons] at hdigits
        exact absurd hdigits.2 (by simp +decide)
  unfold readPriority
  rw [hword, hnumber]
  rfl

end Texts

end Asterisk
end Askozia
