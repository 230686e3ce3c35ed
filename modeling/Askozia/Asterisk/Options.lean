import Askozia.Php.Text

/-!
# Options of a section of an Asterisk configuration file

Lines `option=value` and `option => value` set an option, which keeps its value until it is set
again. A line `channel => ...` makes channels with the options as they are at that point. The rest
of a line after `;` is a comment.
-/

namespace Askozia
namespace Asterisk

open Php

/-! ## Reading -/

/-- Blanks around names and values. -/
def blanks : List Char := [' ', '\t', '\r']

/-- The option a line sets, and its value. -/
def assignment? (line : List Char) : Option (String × String) :=
  let code := line.takeWhile (· ≠ ';')
  match code.dropWhile (· ≠ '=') with
  | [] => none
  | _ :: value =>
    some (String.ofList (trimChars blanks (code.takeWhile (· ≠ '='))),
      String.ofList (trimChars blanks
        (match value with
        | '>' :: r => r
        | _ => value)))

/-- The options a text sets, in order. -/
def settings (text : String) : List (String × String) :=
  ((explodeChars '\n' text.toList).filterMap assignment?).filter fun s => s.1 ≠ "channel"

/-- The last value some settings give an option. -/
def lastValue (l : List (String × String)) (option : String) : Option String :=
  (l.reverse.find? fun s => s.1 = option).map Prod.snd

/-- The value an option has after a text. -/
def inEffect (text option : String) : Option String := lastValue (settings text) option

/-! ## Texts made of lines -/

section Lines

@[simp] theorem settings_empty : settings "" = [] := rfl

/-- What a text sets is what its lines set. -/
theorem settings_line (line rest : String) :
    settings (line ++ "\n" ++ rest) = settings line ++ settings rest := by
  have hnewline : "\n".toList = ['\n'] := rfl
  unfold settings
  rw [String.toList_append, String.toList_append, hnewline, List.append_assoc,
    List.singleton_append, explodeChars_append, List.filterMap_append, List.filter_append]

theorem settings_lines (lines : List String) (rest : String) :
    settings (String.join (lines.map (· ++ "\n")) ++ rest) =
      lines.flatMap settings ++ settings rest := by
  induction lines with
  | nil => simp
  | cons line r ih =>
    rw [List.map_cons, String.join_cons, List.flatMap_cons, List.append_assoc, ← ih,
      ← settings_line, String.append_assoc, String.append_assoc]

end Lines

/-! ## Last values -/

section LastValue

variable {a b : List (String × String)} {option : String}

@[simp] theorem lastValue_nil : lastValue [] option = none := rfl

theorem lastValue_append :
    lastValue (a ++ b) option = (lastValue b option).or (lastValue a option) := by
  unfold lastValue
  rw [List.reverse_append, List.find?_append]
  cases b.reverse.find? fun s => s.1 = option with
  | none => rfl
  | some s => rfl

/-- Settings of other options make no difference. -/
theorem lastValue_eq_none_iff : lastValue a option = none ↔ option ∉ a.map Prod.fst := by
  unfold lastValue
  rw [Option.map_eq_none_iff, List.find?_eq_none]
  constructor
  · intro h hmem
    obtain ⟨s, hs, rfl⟩ := List.mem_map.1 hmem
    exact h s (List.mem_reverse.2 hs) (decide_eq_true rfl)
  · intro h s hs hoption
    apply h
    rw [← of_decide_eq_true hoption]
    exact List.mem_map_of_mem (List.mem_reverse.1 hs)

/-- A later setting hides what came before: two texts differ where only the earlier one decides. -/
theorem or_eq_or_iff {α : Type} {x y y' : Option α} :
    x.or y = x.or y' ↔ (x = none → y = y') := by
  cases x with
  | none => simp
  | some v => simp

end LastValue

end Asterisk
end Askozia
