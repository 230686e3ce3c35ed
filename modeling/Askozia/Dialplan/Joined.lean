import Askozia.Dialplan.Steps

/-!
# Text that does not end its line

The message about a destination that no case is for has no line break at its end, so the line after it
goes on where it stops. `joined` makes one line of the two.

* `render_joined`: the text is the same;
* `joined_append_of_getLast`: lines after one that ends begin a line of their own;
* `mem_joined_of_telling`: no line is lost that opens or names a context, where none comes after such a
  message.
-/

namespace Askozia
namespace Dialplan

open Php Config Pbx Asterisk

/-! ## Joining lines -/

/-- The text does not end its line. -/
def Line.unending : Line → Bool
  | unended _ => true
  | _ => false

/-- A line that goes on with a text. -/
def Line.after (text : String) : Line → Line
  | unended rest => .unended (text ++ rest)
  | line => .other (text ++ line.body)

/-- The lines, where a text that does not end its line goes on with the next one. -/
def joined : List Line → List Line
  | [] => []
  | .unended text :: r =>
    match joined r with
    | [] => [.unended text]
    | line :: r => line.after text :: r
  | line :: r => line :: joined r

section Joined

variable {text : String} {line : Line} {lines a b : List Line}

theorem Line.render_of_unending (h : line.unending = false) : line.render = line.body ++ "\n" := by
  cases line with
  | exten name rest => rfl
  | context name =>
    have hend : "]\n" = "]" ++ "\n" := rfl
    rw [Line.render, hend, ← String.append_assoc]
    rfl
  | other text => rfl
  | unended text => cases h

theorem Line.render_after (text : String) (line : Line) : (line.after text).render = text ++ line.render := by
  cases hline : line.unending with
  | true =>
    cases line with
    | unended rest => rfl
    | _ => cases hline
  | false =>
    have hafter : line.after text = .other (text ++ line.body) := by
      cases line with
      | unended rest => cases hline
      | _ => rfl
    rw [hafter, Line.render, Line.render_of_unending hline, String.append_assoc]

theorem render_cons (line : Line) (lines : List Line) : render (line :: lines) = line.render ++ render lines :=
  String.join_cons

theorem joined_cons (h : line.unending = false) : joined (line :: lines) = line :: joined lines := by
  cases line with
  | unended text => cases h
  | _ => rfl

/-- The line after the text is in one line with it. -/
theorem joined_unended (h : line.unending = false) :
    joined (.unended text :: line :: lines) = .other (text ++ line.body) :: joined lines := by
  rw [joined, joined_cons h]
  cases line with
  | unended text => cases h
  | _ => rfl

theorem joined_ne_nil (h : lines ≠ []) : joined lines ≠ [] := by
  cases lines with
  | nil => exact absurd rfl h
  | cons line r =>
    cases hline : line.unending with
    | false =>
      rw [joined_cons hline]
      exact List.cons_ne_nil _ _
    | true =>
      cases line with
      | unended text =>
        rw [joined]
        split
        · exact List.cons_ne_nil _ _
        · exact List.cons_ne_nil _ _
      | _ => cases hline

/-- The text of the lines is the same. -/
theorem render_joined (lines : List Line) : render (joined lines) = render lines := by
  induction lines with
  | nil => rfl
  | cons line r ih =>
    cases hline : line.unending with
    | false => rw [joined_cons hline, render_cons, render_cons, ih]
    | true =>
      cases line with
      | unended text =>
        rw [joined, render_cons, ← ih]
        cases joined r with
        | nil => exact render_cons _ _
        | cons next r' =>
          dsimp only
          rw [render_cons, render_cons, Line.render_after, String.append_assoc]
          rfl
      | _ => cases hline

/-- Lines that end are as they were. -/
theorem joined_append (h : ∀ line ∈ a, line.unending = false) : joined (a ++ b) = a ++ joined b := by
  induction a with
  | nil => rfl
  | cons line r ih =>
    rw [List.cons_append, joined_cons (h line List.mem_cons_self),
      ih fun l hl => h l (List.mem_cons_of_mem _ hl), List.cons_append]

theorem joined_of_ended (h : ∀ line ∈ lines, line.unending = false) : joined lines = lines := by
  have hjoined := joined_append (b := []) h
  rwa [List.append_nil, joined, List.append_nil] at hjoined

/-- Where the last of the lines ends, the next ones begin a line of their own. -/
theorem joined_append_of_getLast (h : ∀ line ∈ a.getLast?, line.unending = false) :
    joined (a ++ b) = joined a ++ joined b := by
  induction a with
  | nil => rfl
  | cons line r ih =>
    have hrest : r ≠ [] → joined (r ++ b) = joined r ++ joined b := by
      intro hne
      obtain ⟨next, r', rfl⟩ := List.exists_cons_of_ne_nil hne
      rw [List.getLast?_cons_cons] at h
      exact ih h
    cases hline : line.unending with
    | false =>
      rw [List.cons_append, joined_cons hline, joined_cons hline, List.cons_append]
      cases r with
      | nil => rfl
      | cons next r' => rw [hrest (List.cons_ne_nil _ _)]
    | true =>
      -- the text goes on with a line of the list, which is not the last
      cases r with
      | nil =>
        rw [h line rfl] at hline
        cases hline
      | cons next r' =>
        cases line with
        | unended text =>
          have hjoined : joined (next :: r') ≠ [] := joined_ne_nil (List.cons_ne_nil _ _)
          obtain ⟨first, tail, hfirst⟩ := List.exists_cons_of_ne_nil hjoined
          have happend : joined (next :: r' ++ b) = first :: (tail ++ joined b) := by
            rw [hrest (List.cons_ne_nil _ _), hfirst, List.cons_append]
          have hleft : joined (.unended text :: (next :: r' ++ b)) = first.after text :: (tail ++ joined b) := by
            rw [joined, happend]
          have hright : joined (.unended text :: next :: r') = first.after text :: tail := by
            rw [joined, hfirst]
          rw [List.cons_append, hleft, hright, List.cons_append]
        | _ => cases hline

/-- A line that is made of two is none of an extension. -/
theorem exten_of_mem_joined {name rest : String} (h : .exten name rest ∈ joined lines) :
    .exten name rest ∈ lines := by
  induction lines with
  | nil => exact h
  | cons line r ih =>
    cases hline : line.unending with
    | false =>
      rw [joined_cons hline] at h
      rcases List.mem_cons.1 h with rfl | hmem
      · exact List.mem_cons_self
      · exact List.mem_cons_of_mem _ (ih hmem)
    | true =>
      cases line with
      | unended text =>
        rw [joined] at h
        cases hr : joined r with
        | nil =>
          rw [hr] at h
          cases List.mem_singleton.1 h
        | cons first tail =>
          rw [hr] at h ih
          rcases List.mem_cons.1 h with heq | hmem
          · cases first with
            | unended rest => cases heq
            | _ => cases heq
          · exact List.mem_cons_of_mem _ (ih (List.mem_cons_of_mem _ hmem))
      | _ => cases hline

/-- Lines whose last one ends all end when they are joined. -/
theorem ended_joined (h : ∀ line ∈ lines.getLast?, line.unending = false) :
    ∀ line ∈ joined lines, line.unending = false := by
  induction lines with
  | nil => exact fun line hline => absurd hline List.not_mem_nil
  | cons line r ih =>
    cases r with
    | nil =>
      have hline := h line rfl
      rw [joined_cons hline]
      exact List.forall_mem_singleton.2 hline
    | cons next r' =>
      rw [List.getLast?_cons_cons] at h
      have hrest := ih h
      cases hline : line.unending with
      | false =>
        rw [joined_cons hline]
        exact List.forall_mem_cons.2 ⟨hline, hrest⟩
      | true =>
        cases line with
        | unended text =>
          rw [joined]
          cases hr : joined (next :: r') with
          | nil => exact absurd hr (joined_ne_nil (List.cons_ne_nil _ _))
          | cons first tail =>
            rw [hr] at hrest
            obtain ⟨hfirst, htail⟩ := List.forall_mem_cons.1 hrest
            refine List.forall_mem_cons.2 ⟨?_, htail⟩
            cases first with
            | unended rest => cases hfirst
            | _ => rfl
        | _ => cases hline

/-- A part that comes after a line that ends, and ends itself, is joined by itself. -/
theorem joined_infix (hline : line.unending = false) (hlast : ∀ l ∈ a.getLast?, l.unending = false)
    (h : line :: a <:+: lines) : joined a <:+: joined lines := by
  obtain ⟨before, after, rfl⟩ := h
  refine ⟨joined (before ++ [line]), joined after, ?_⟩
  have hparts : before ++ line :: a ++ after = (before ++ [line]) ++ (a ++ after) := by
    simp only [List.append_assoc, List.cons_append, List.nil_append]
  have hbefore : ∀ l ∈ (before ++ [line]).getLast?, l.unending = false := by
    intro l hl
    rw [List.getLast?_append_of_ne_nil _ (List.cons_ne_nil _ _)] at hl
    rwa [← Option.some.inj hl]
  rw [hparts, joined_append_of_getLast hbefore, joined_append_of_getLast hlast, List.append_assoc]

end Joined

/-! ## Nothing is lost -/

/-- The line ends, and says nothing of contexts. -/
structure Line.Idle (line : Line) : Prop where
  ended : line.unending = false
  opened : line.entry.opened = none
  targets : line.entry.targets = []

/-- After a text that does not end its line there is an idle one. -/
def Spares (a b : Line) : Prop := a.unending = true → b.Idle

/-- Everywhere in the lines, and the last of them ends. -/
structure Settled (lines : List Line) : Prop where
  spares : lines.IsChain Spares
  ended : ∀ line ∈ lines.getLast?, line.unending = false

/-- The lines may come after a text that does not end its line. -/
structure Continuing (lines : List Line) : Prop where
  spares : lines.IsChain Spares
  first : ∀ line ∈ lines.head?, line.Idle

section Settled

variable {line : Line} {lines a b : List Line}

theorem spares_of_ended (h : ∀ line ∈ lines, line.unending = false) : lines.IsChain Spares := by
  induction lines with
  | nil => exact List.isChain_nil
  | cons line r ih =>
    rw [List.isChain_cons]
    refine ⟨fun next _ hline => ?_, ih fun l hl => h l (List.mem_cons_of_mem _ hl)⟩
    rw [h line List.mem_cons_self] at hline
    cases hline

theorem settled_of_ended (h : ∀ line ∈ lines, line.unending = false) : Settled lines :=
  ⟨spares_of_ended h, fun line hline => h line (List.mem_of_mem_getLast? hline)⟩

theorem settled_nil : Settled [] := settled_of_ended fun _ h => absurd h List.not_mem_nil

theorem Settled.append (ha : Settled a) (hb : Settled b) : Settled (a ++ b) := by
  constructor
  · rw [List.isChain_append]
    refine ⟨ha.spares, hb.spares, fun last hlast next _ hunended => ?_⟩
    rw [ha.ended last hlast] at hunended
    cases hunended
  · intro line hline
    rw [List.getLast?_append, Option.mem_def, Option.or_eq_some_iff] at hline
    rcases hline with hb' | ⟨-, ha'⟩
    · exact hb.ended line hb'
    · exact ha.ended line ha'

theorem settled_flatMap {α : Type} {xs : List α} {f : α → List Line} (h : ∀ x ∈ xs, Settled (f x)) :
    Settled (xs.flatMap f) := by
  induction xs with
  | nil => exact settled_nil
  | cons x r ih =>
    rw [List.flatMap_cons]
    exact (h x List.mem_cons_self).append (ih fun y hy => h y (List.mem_cons_of_mem _ hy))

theorem Continuing.append (ha : Continuing a) (hb : Continuing b) : Continuing (a ++ b) := by
  constructor
  · rw [List.isChain_append]
    exact ⟨ha.spares, hb.spares, fun _ _ next hnext _ => hb.first next hnext⟩
  · intro line hline
    rw [List.head?_append, Option.mem_def, Option.or_eq_some_iff] at hline
    rcases hline with ha' | ⟨-, hb'⟩
    · exact ha.first line ha'
    · exact hb.first line hb'

theorem continuing_flatMap {α : Type} {xs : List α} {f : α → List Line}
    (h : ∀ x ∈ xs, Continuing (f x)) : Continuing (xs.flatMap f) := by
  induction xs with
  | nil => exact ⟨List.isChain_nil, fun _ h => by cases h⟩
  | cons x r ih =>
    rw [List.flatMap_cons]
    exact (h x List.mem_cons_self).append (ih fun y hy => h y (List.mem_cons_of_mem _ hy))

/-- Lines that end, up to the last one. -/
theorem continuing_append_singleton (h : ∀ line ∈ a, line.unending = false)
    (hfirst : ∀ line ∈ a.head?, line.Idle) (hne : a ≠ []) : Continuing (a ++ [line]) := by
  constructor
  · rw [List.isChain_append]
    refine ⟨spares_of_ended h, List.isChain_singleton _, fun last hlast _ _ hunended => ?_⟩
    rw [h last (List.mem_of_mem_getLast? hlast)] at hunended
    cases hunended
  · intro first hmem
    cases a with
    | nil => exact absurd rfl hne
    | cons x r => exact hfirst first hmem

/-- What may come after anything, up to a line that ends. -/
theorem Continuing.settled (ha : Continuing a) (hb : Continuing b) (hended : Settled b) (hne : b ≠ []) :
    Settled (a ++ b) := by
  refine ⟨(ha.append hb).spares, fun line hline => ?_⟩
  rw [List.getLast?_append_of_ne_nil _ hne] at hline
  exact hended.ended line hline

theorem Settled.right (h : Settled (a ++ b)) : Settled b := by
  refine ⟨(List.isChain_append.1 h.spares).2.1, fun line hline => h.ended line ?_⟩
  rw [List.getLast?_append, hline]
  rfl

/-- Lines after settled ones do not go on with them. -/
theorem Settled.joined_append (h : Settled a) : joined (a ++ b) = joined a ++ joined b :=
  joined_append_of_getLast h.ended

theorem joined_flatMap {α : Type} {xs : List α} {f : α → List Line} (h : ∀ x ∈ xs, Settled (f x)) :
    joined (xs.flatMap f) = xs.flatMap fun x => joined (f x) := by
  induction xs with
  | nil => rfl
  | cons x r ih =>
    rw [List.flatMap_cons, List.flatMap_cons, (h x List.mem_cons_self).joined_append,
      ih fun y hy => h y (List.mem_cons_of_mem _ hy)]

/-- A line that says something of contexts is there as it was. -/
theorem mem_joined_of_telling (h : lines.IsChain Spares) (hline : line ∈ lines)
    (hended : line.unending = false) (htelling : ¬ line.Idle) : line ∈ joined lines := by
  -- the line after a text that does not end its own is idle, so it is not this one
  induction lines with
  | nil => cases hline
  | cons first r ih =>
    have hrest := ih h.tail
    cases hfirst : first.unending with
    | false =>
      rw [joined_cons hfirst]
      rcases List.mem_cons.1 hline with rfl | hmem
      · exact List.mem_cons_self
      · exact List.mem_cons_of_mem _ (hrest hmem)
    | true =>
      have hmem : line ∈ r := by
        rcases List.mem_cons.1 hline with rfl | hmem
        · rw [hended] at hfirst
          cases hfirst
        · exact hmem
      cases r with
      | nil => cases hmem
      | cons next r' =>
        have hidle : next.Idle := (List.isChain_cons_cons.1 h).1 hfirst
        have hmem' : line ∈ joined r' := by
          have hjoined := hrest hmem
          rw [joined_cons hidle.ended] at hjoined
          rcases List.mem_cons.1 hjoined with rfl | hmem'
          · exact absurd hidle htelling
          · exact hmem'
        cases first with
        | unended text =>
          rw [joined_unended hidle.ended]
          exact List.mem_cons_of_mem _ hmem'
        | _ => cases hfirst

/-- A line is there as it was, or it is made of a text that does not end its line and the line after it. -/
theorem mem_joined (h : Settled lines) (hline : line ∈ joined lines) :
    (line ∈ lines ∧ line.unending = false) ∨ ∃ text next, .unended text ∈ lines ∧ next ∈ lines ∧
      next.unending = false ∧ line = .other (text ++ next.body) := by
  obtain ⟨hspares, hended⟩ := h
  -- an unended line takes the next one with it, so the next is not joined again
  induction lines with
  | nil => cases hline
  | cons first r ih =>
    have hrest : line ∈ joined r → (line ∈ first :: r ∧ line.unending = false) ∨ ∃ text next,
        .unended text ∈ first :: r ∧ next ∈ first :: r ∧ next.unending = false ∧
          line = .other (text ++ next.body) := by
      intro hmem
      have hlast : ∀ l ∈ r.getLast?, l.unending = false := by
        intro l hl
        apply hended
        cases r with
        | nil => cases hl
        | cons x r' => rwa [List.getLast?_cons_cons]
      rcases ih hmem hspares.tail hlast with ⟨hr, hend⟩ | ⟨text, next, htext, hnext, hrest⟩
      · exact .inl ⟨List.mem_cons_of_mem _ hr, hend⟩
      · exact .inr ⟨text, next, List.mem_cons_of_mem _ htext, List.mem_cons_of_mem _ hnext, hrest⟩
    cases hfirst : first.unending with
    | false =>
      rw [joined_cons hfirst] at hline
      rcases List.mem_cons.1 hline with rfl | hmem
      · exact .inl ⟨List.mem_cons_self, hfirst⟩
      · exact hrest hmem
    | true =>
      cases first with
      | unended text =>
        cases r with
        | nil =>
          cases hended (.unended text) rfl
        | cons next r' =>
          have hidle : next.Idle := (List.isChain_cons_cons.1 hspares).1 rfl
          rw [joined_unended hidle.ended] at hline
          rcases List.mem_cons.1 hline with rfl | hmem
          · exact .inr ⟨text, next, List.mem_cons_self, List.mem_cons_of_mem _ List.mem_cons_self,
              hidle.ended, rfl⟩
          · apply hrest
            rw [joined_cons hidle.ended]
            exact List.mem_cons_of_mem _ hmem
      | _ => cases hfirst

end Settled

/-! ## A destination that no case is for -/

/-- What is written for it. -/
def unmatchedText : String := "ERROR: unmatched case in extensions_generate_extension_from_uniqid!"

/-- Nothing is made of a line that starts with it. -/
theorem readLine_unmatchedText (cs : List Char) : readLine (unmatchedText.toList ++ cs) = .unknown := by
  have hread : readLine (unmatchedText.toList ++ cs) = readSetting (unmatchedText.toList ++ cs) := rfl
  have hname : ∀ name, isSettingName (unmatchedText.toList ++ name) = false := fun name => rfl
  rw [hread, readSetting, cutAt_append_of_not_mem (by decide)]
  cases cutAt '=' cs with
  | none => rfl
  | some ab =>
    dsimp only [Option.map_some]
    rw [hname]
    rfl

end Dialplan
end Askozia
