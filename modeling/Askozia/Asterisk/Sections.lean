import Askozia.Asterisk.Options
import Mathlib.Data.List.Infix

/-!
# Sections of an Asterisk configuration file

A line `[name]` begins a section, which the lines after it belong to. The loader knows more than that:
comments over several lines, escaped semicolons, directives and templates. A text with any of them is not
read here.

* `sections` is what is read from a text, if it has nothing of the kind;
* `sections_render`: a text that is put together from lines without line breaks and semicolons is read as
  these lines say.
-/

namespace Askozia
namespace Asterisk

open Php

/-- A section: its name, and the options its lines set, in order. -/
abbrev Section := String × List (String × String)

/-! ## Reading -/

/-- The name of the section a line begins. -/
def heading? (line : List Char) : Option String :=
  match trimChars blanks (line.takeWhile (· ≠ ';')) with
  | '[' :: r => if ']' ∈ r then some (String.ofList (r.takeWhile (· ≠ ']'))) else none
  | _ => none

/-- What is read from some lines: the options before the first section, and the sections. -/
def collect : List (List Char) → List (String × String) × List Section
  | [] => ([], [])
  | line :: r =>
    match heading? line with
    | some name => ([], (name, (collect r).1) :: (collect r).2)
    | none => ((assignment? line).toList ++ (collect r).1, (collect r).2)

/-- A line without its comment is a directive, a section with a template, or adds to an option. -/
def isDirective : List Char → Bool
  | '#' :: _ => true
  | '[' :: r =>
    match r.dropWhile (· ≠ ']') with
    | [] => true
    | _ :: '(' :: _ => true
    | _ => false
  | code => (code.takeWhile (· ≠ '=')).getLast? == some '+'

/-- A text is somewhere in the line. -/
def occurs (text : String) (line : List Char) : Bool := line.tails.any (text.toList.isPrefixOf ·)

/-- The line has something in it that is not read here: the start or the end of a comment over several lines,
an escaped semicolon, a control character, or a directive. -/
def isForeign (line : List Char) : Bool :=
  occurs ";--" line || occurs "--;" line || occurs "\\;" line ||
    line.any (fun c => decide (c < ' ') && !blanks.contains c) ||
    isDirective (trimChars blanks (line.takeWhile (· ≠ ';')))

/-- The sections of a text. An option before the first section is an error. -/
def sections (text : String) : Option (List Section) :=
  let lines := explodeChars '\n' text.toList
  if lines.any isForeign || !(collect lines).1.isEmpty then none else some (collect lines).2

/-- The value that is read from what follows the `=` of a line. -/
def readValue (value : String) : String :=
  let code := value.toList.takeWhile (· ≠ ';')
  String.ofList (trimChars blanks
    (match code with
    | '>' :: r => r
    | _ => code))

/-! ## Writing -/

/-- No semicolon, and no control character but blanks. -/
def isClean (c : Char) : Bool := c != ';' && (!decide (c < ' ') || blanks.contains c)

/-- A text that can be pasted into a line. -/
def clean (s : String) : Bool := s.toList.all isClean

/-- A line as a generator writes it. -/
inductive ConfLine where
  | blank
  | comment (text : String)
  | heading (name : String)
  | setting (option value : String)
  /-- A text that is pasted in as it is, which may be several lines. -/
  | raw (text : String)
deriving DecidableEq, Repr

namespace ConfLine

/-- The text of a line, without the line break that ends it. -/
def text : ConfLine → String
  | blank => ""
  | comment text => "; " ++ text
  | heading name => "[" ++ name ++ "]"
  | setting option value => option ++ "=" ++ value
  | raw text => text

/-- The options a line sets. -/
def options : ConfLine → List (String × String)
  | setting option value => [(option, readValue value)]
  | raw text => (explodeChars '\n' text.toList).filterMap assignment?
  | _ => []

/-- A line that begins no section. -/
def isBody : ConfLine → Bool
  | heading _ => false
  | _ => true

/-- The name of an option. -/
def isOptionName (option : String) : Bool :=
  !option.toList.isEmpty && option.toList.all fun c => c.isAlphanum || c == '-' || c == '_'

/-- Every text is clean, but one that is pasted in, which begins no section and has nothing foreign in it. -/
def Tidy : ConfLine → Prop
  | blank => True
  | comment text => clean text = true
  | heading name => clean name = true ∧ ']' ∉ name.toList
  | setting option value => isOptionName option = true ∧ clean value = true
  | raw text => ∀ line ∈ explodeChars '\n' text.toList, heading? line = none ∧ isForeign line = false

end ConfLine

/-- The text of some lines. -/
def renderConf (lines : List ConfLine) : String := String.join (lines.map fun line => line.text ++ "\n")

/-- What the lines say: the options before the first section, and the sections. -/
def gather : List ConfLine → List (String × String) × List Section
  | [] => ([], [])
  | .heading name :: r => ([], (name, (gather r).1) :: (gather r).2)
  | line :: r => (line.options ++ (gather r).1, (gather r).2)

/-! ## Clean texts -/

section Clean

variable {a b : String} {c : Char} {line : List Char}

/-- Two texts are clean together just if each of them is. -/
theorem clean_append : clean (a ++ b) = (clean a && clean b) := by
  rw [clean, String.toList_append, List.all_append]
  rfl

/-- A clean text has no character that means something to the loader. -/
theorem clean_eq_true : clean a = true ↔ ∀ c ∈ a.toList, isClean c = true := List.all_eq_true

/-- Such a character differs from every clean one. -/
theorem isClean_ne (h : isClean c = true) {x : Char} (hx : isClean x = false) : c ≠ x := by
  rintro rfl
  rw [hx] at h
  cases h

/-- A clean text is one line. -/
theorem newline_not_mem_of_clean (h : clean a = true) : '\n' ∉ a.toList := fun hmem =>
  isClean_ne (clean_eq_true.1 h _ hmem) (by decide) rfl

/-- It starts no comment. -/
theorem semicolon_not_mem_of_clean (h : clean a = true) : ';' ∉ a.toList := fun hmem =>
  isClean_ne (clean_eq_true.1 h _ hmem) (by decide) rfl

/-- A text with a semicolon does not occur in a line without one. -/
theorem occurs_eq_false {text : String} (htext : ';' ∈ text.toList) (h : ';' ∉ line) : occurs text line = false := by
  rw [occurs, List.any_eq_false]
  intro tail htail hprefix
  exact h (((List.mem_tails _ _).1 htail).subset ((List.isPrefixOf_iff_prefix.1 hprefix).subset htext))

/-- A clean line with no directive in it. -/
theorem isForeign_of_clean (h : ∀ c ∈ line, isClean c = true) (hcode : isDirective (trimChars blanks line) = false) :
    isForeign line = false := by
  have hsemicolon : ';' ∉ line := fun hmem => isClean_ne (h _ hmem) (by decide) rfl
  have htake : line.takeWhile (· ≠ ';') = line := by
    rw [List.takeWhile_eq_self_iff]
    intro c hc
    rw [decide_eq_true_eq]
    rintro rfl
    exact hsemicolon hc
  have hcontrol : line.any (fun c => decide (c < ' ') && !blanks.contains c) = false := by
    rw [List.any_eq_false]
    intro c hc hbad
    have hclean := h c hc
    unfold isClean at hclean
    rw [Bool.and_eq_true, Bool.not_eq_true'] at hbad
    rw [hbad.1, hbad.2] at hclean
    simp at hclean
  unfold isForeign
  rw [occurs_eq_false (by decide) hsemicolon, occurs_eq_false (by decide) hsemicolon,
    occurs_eq_false (by decide) hsemicolon, hcontrol, htake, hcode]
  rfl

/-- A comment. -/
theorem isForeign_comment (h : ∀ c ∈ line, isClean c = true) : isForeign (';' :: ' ' :: line) = false := by
  have hsemicolon : ';' ∉ ' ' :: line := by
    rw [List.mem_cons, not_or]
    exact ⟨by decide, fun hmem => isClean_ne (h _ hmem) (by decide) rfl⟩
  have hoccurs : ∀ text : String, ';' ∈ text.toList → text.toList.isPrefixOf (';' :: ' ' :: line) = false →
      occurs text (';' :: ' ' :: line) = false := by
    intro text htext hprefix
    have hrest := occurs_eq_false htext hsemicolon
    unfold occurs at hrest ⊢
    rw [List.tails_cons, List.any_cons, hprefix, hrest]
    rfl
  have hcontrol : (';' :: ' ' :: line).any (fun c => decide (c < ' ') && !blanks.contains c) = false := by
    rw [List.any_eq_false]
    intro c hc hbad
    rw [Bool.and_eq_true, Bool.not_eq_true'] at hbad
    rcases List.mem_cons.1 hc with rfl | hc
    · revert hbad
      decide
    · rcases List.mem_cons.1 hc with rfl | hc
      · revert hbad
        decide
      · have hclean := h c hc
        unfold isClean at hclean
        rw [hbad.1, hbad.2] at hclean
        simp at hclean
  unfold isForeign
  rw [hoccurs _ (by decide) rfl, hoccurs _ (by decide) rfl, hoccurs _ (by decide) rfl, hcontrol]
  rfl

end Clean

/-! ## Lines -/

section Lines

variable {a b : List (List Char)} {line : List Char} {name option value : String}

/-- A line that is no heading belongs to the section it stands in. -/
theorem collect_cons_none (h : heading? line = none) :
    collect (line :: a) = ((assignment? line).toList ++ (collect a).1, (collect a).2) := by
  rw [collect, h]

/-- A heading starts a section. -/
theorem collect_cons_some (h : heading? line = some name) :
    collect (line :: a) = ([], (name, (collect a).1) :: (collect a).2) := by
  rw [collect, h]

/-- Lines that begin no section. -/
theorem collect_append (h : ∀ line ∈ a, heading? line = none) :
    collect (a ++ b) = (a.filterMap assignment? ++ (collect b).1, (collect b).2) := by
  induction a with
  | nil => rfl
  | cons line r ih =>
    rw [List.cons_append, collect_cons_none (h line List.mem_cons_self),
      ih fun l hl => h l (List.mem_cons_of_mem _ hl), List.filterMap_cons]
    cases assignment? line with
    | none => rfl
    | some s => rfl

/-- A comment is no heading. -/
theorem heading?_comment (text : List Char) : heading? (';' :: text) = none := rfl

theorem assignment?_comment (text : List Char) : assignment? (';' :: text) = none := rfl

/-- A name in brackets is a heading. -/
theorem heading?_heading (hcomment : ';' ∉ name.toList) (hbracket : ']' ∉ name.toList) :
    heading? ('[' :: (name.toList ++ [']'])) = some name := by
  -- the reader cuts off a comment, trims the line and takes what stands before the bracket
  have hcode : ('[' :: (name.toList ++ [']'])).takeWhile (· ≠ ';') = '[' :: (name.toList ++ [']']) := by
    rw [List.takeWhile_eq_self_iff]
    intro c hc
    rw [decide_eq_true_eq]
    rintro rfl
    rcases List.mem_cons.1 hc with hc | hc
    · exact absurd hc (by decide)
    · rcases List.mem_append.1 hc with hc | hc
      · exact hcomment hc
      · exact absurd (List.mem_singleton.1 hc) (by decide)
  have htrim : trimChars blanks ('[' :: (name.toList ++ [']'])) = '[' :: (name.toList ++ [']']) := by
    apply trimChars_eq_self
    · rintro c ⟨⟩
      decide
    · intro c hc
      rw [← List.cons_append, List.getLast?_append] at hc
      obtain rfl := Option.some.inj hc
      decide
  have hname : (name.toList ++ [']']).takeWhile (· ≠ ']') = name.toList := by
    rw [List.takeWhile_append_of_pos fun c hc => by
      rw [decide_eq_true_eq]
      rintro rfl
      exact hbracket hc]
    exact List.append_nil _
  unfold heading?
  rw [hcode, htrim]
  show (if ']' ∈ name.toList ++ [']'] then some (String.ofList _) else none) = _
  rw [if_pos (List.mem_append_right _ (List.mem_singleton_self _)), hname, String.ofList_toList]

/-- The characters of the name of an option. -/
theorem optionName_spec (h : ConfLine.isOptionName option = true) :
    (∃ c r, option.toList = c :: r) ∧ ∀ c ∈ option.toList, c ≠ ';' ∧ c ≠ '=' ∧ c ≠ '[' ∧ c ≠ '\n' ∧ c ∉ blanks := by
  unfold ConfLine.isOptionName at h
  rw [Bool.and_eq_true, Bool.not_eq_true', List.isEmpty_eq_false_iff, List.all_eq_true] at h
  refine ⟨List.exists_cons_of_ne_nil h.1, fun c hc => ?_⟩
  have hchar := h.2 c hc
  refine ⟨?_, ?_, ?_, ?_, ?_⟩
  · rintro rfl
    revert hchar
    decide
  · rintro rfl
    revert hchar
    decide
  · rintro rfl
    revert hchar
    decide
  · rintro rfl
    revert hchar
    decide
  · intro hblank
    have hall : ∀ c ∈ blanks, (c.isAlphanum || c == '-' || c == '_') = false := by decide
    rw [hall c hblank] at hchar
    cases hchar

/-- A setting is one line if its value is. -/
theorem newline_not_mem_setting (h : ConfLine.isOptionName option = true) (hvalue : '\n' ∉ value.toList) :
    '\n' ∉ option.toList ++ '=' :: value.toList := by
  intro hmem
  rcases List.mem_append.1 hmem with hmem | hmem
  · exact ((optionName_spec h).2 _ hmem).2.2.2.1 rfl
  · rcases List.mem_cons.1 hmem with hmem | hmem
    · exact absurd hmem (by decide)
    · exact hvalue hmem

/-- The code of a line that sets an option. -/
theorem code_setting (h : ConfLine.isOptionName option = true) :
    (option.toList ++ '=' :: value.toList).takeWhile (· ≠ ';') =
      option.toList ++ '=' :: value.toList.takeWhile (· ≠ ';') := by
  rw [List.takeWhile_append_of_pos fun c hc => decide_eq_true ((optionName_spec h).2 c hc).1,
    List.takeWhile_cons_of_pos (by decide)]

/-- A setting is clean if its value is. -/
theorem clean_setting (h : ConfLine.isOptionName option = true) (hvalue : clean value = true) :
    ∀ c ∈ option.toList ++ '=' :: value.toList, isClean c = true := by
  have hname : ∀ c : Char, (c.isAlphanum || c == '-' || c == '_') = true → isClean c = true := by
    intro c hc
    have hcontrol : ∀ n < 32, ((Char.ofNat n).isAlphanum || Char.ofNat n == '-' || Char.ofNat n == '_') = false := by
      decide
    have hlt : ¬ c < ' ' := by
      intro hlt
      have hfalse := hcontrol c.toNat hlt
      rw [Char.ofNat_toNat, hc] at hfalse
      cases hfalse
    have hsemicolon : c ≠ ';' := by
      rintro rfl
      revert hc
      decide
    unfold isClean
    rw [decide_eq_false hlt, bne_iff_ne.2 hsemicolon]
    rfl
  unfold ConfLine.isOptionName at h
  rw [Bool.and_eq_true, List.all_eq_true] at h
  exact List.forall_mem_append.2 ⟨fun c hc => hname c (h.2 c hc),
    List.forall_mem_cons.2 ⟨by decide, clean_eq_true.1 hvalue⟩⟩

/-- What is between something at the start and something later that are no blanks is not trimmed. -/
theorem trimChars_append {a b : List Char} {x : Char} (hhead : ∀ c ∈ (a ++ [x]).head?, c ∉ blanks) (hx : x ∉ blanks) :
    ∃ v, trimChars blanks (a ++ x :: b) = a ++ x :: v := by
  have hfirst : (a ++ x :: b).dropWhile (blanks.contains ·) = a ++ x :: b := by
    cases a with
    | nil => exact List.dropWhile_cons_of_neg (by simpa using hx)
    | cons c r => exact List.dropWhile_cons_of_neg (by simpa using hhead c rfl)
  have hreverse : (a ++ x :: b).reverse = b.reverse ++ (x :: a.reverse) := by
    rw [List.reverse_append, List.reverse_cons, List.append_assoc]
    rfl
  have hkept : (x :: a.reverse).dropWhile (blanks.contains ·) = x :: a.reverse :=
    List.dropWhile_cons_of_neg (by simpa using hx)
  refine ⟨(b.reverse.dropWhile (blanks.contains ·)).reverse, ?_⟩
  unfold trimChars
  rw [hfirst, hreverse, List.dropWhile_append]
  split_ifs with hempty
  · rw [List.isEmpty_iff.1 hempty, hkept]
    simp
  · simp

/-- A line that sets an option is no directive. -/
theorem isDirective_setting (h : ConfLine.isOptionName option = true) :
    isDirective (trimChars blanks (option.toList ++ '=' :: value.toList)) = false := by
  obtain ⟨⟨c, r, hoption⟩, hall⟩ := optionName_spec h
  have hc := hall c (by rw [hoption]; exact List.mem_cons_self)
  have hadds : ∀ c ∈ option.toList, c ≠ '#' ∧ c ≠ '+' := by
    unfold ConfLine.isOptionName at h
    rw [Bool.and_eq_true, List.all_eq_true] at h
    intro x hx
    have hchar := h.2 x hx
    constructor
    · rintro rfl
      revert hchar
      decide
    · rintro rfl
      revert hchar
      decide
  -- trimming leaves the option and takes blanks from the value only
  obtain ⟨v, hv⟩ := trimChars_append (a := option.toList) (b := value.toList) (x := '=') (by rw [hoption]; rintro x ⟨⟩; exact hc.2.2.2.2)
    (by decide)
  have hname : (option.toList ++ '=' :: v).takeWhile (· ≠ '=') = option.toList := by
    rw [List.takeWhile_append_of_pos fun x hx => decide_eq_true (hall x hx).2.1,
      List.takeWhile_cons_of_neg (by decide), List.append_nil]
  rw [hv]
  unfold isDirective
  split
  -- `#include` starts with a hash, a template with a bracket, and `+=` ends the name with a plus
  · next r' heq =>
    rw [hoption] at heq
    exact absurd (List.cons.inj heq).1 (hadds c (by rw [hoption]; exact List.mem_cons_self)).1
  · next r' heq =>
    rw [hoption] at heq
    exact absurd (List.cons.inj heq).1 hc.2.2.1
  · rw [hname, beq_eq_false_iff_ne]
    intro hlast
    exact (hadds _ (List.mem_of_getLast? hlast)).2 rfl

/-- A line that begins with something else begins no section. -/
theorem heading?_of_head {c : Char} {r : List Char} (hblank : c ∉ blanks) (hbracket : c ≠ '[') :
    heading? (c :: r) = none := by
  by_cases hcomment : c = ';'
  · rw [hcomment]
    rfl
  have hcode : (c :: r).takeWhile (· ≠ ';') = c :: r.takeWhile (· ≠ ';') :=
    List.takeWhile_cons_of_pos (decide_eq_true hcomment)
  unfold heading?
  rw [hcode, trimChars, List.dropWhile_cons_of_neg (by simpa using hblank)]
  split
  · next r' heq =>
    -- the first character stays at the front
    have hfirst : (c :: r.takeWhile (· ≠ ';')).reverse.dropWhile (blanks.contains ·) <:+
        (c :: r.takeWhile (· ≠ ';')).reverse := List.dropWhile_suffix _
    have hprefix := List.reverse_prefix.2 hfirst
    rw [List.reverse_reverse, heq] at hprefix
    exact absurd (List.cons_prefix_cons.1 hprefix).1.symm hbracket
  · rfl

/-- A setting is no heading. -/
theorem heading?_setting (h : ConfLine.isOptionName option = true) :
    heading? (option.toList ++ '=' :: value.toList) = none := by
  obtain ⟨⟨c, r, hoption⟩, hall⟩ := optionName_spec h
  have hc := hall c (by rw [hoption]; exact List.mem_cons_self)
  rw [hoption]
  exact heading?_of_head hc.2.2.2.2 hc.2.2.1

/-- It is read as the option and the value it was written with. -/
theorem assignment?_setting (h : ConfLine.isOptionName option = true) :
    assignment? (option.toList ++ '=' :: value.toList) = some (option, readValue value) := by
  have hall := (optionName_spec h).2
  have hne : ∀ c ∈ option.toList, decide (c ≠ '=') = true := fun c hc => decide_eq_true (hall c hc).2.1
  have hname : trimChars blanks option.toList = option.toList := by
    apply trimChars_eq_self
    · intro c hc
      exact (hall c (List.mem_of_mem_head? hc)).2.2.2.2
    · intro c hc
      exact (hall c (List.mem_of_mem_getLast? hc)).2.2.2.2
  unfold assignment?
  dsimp only
  rw [code_setting h, List.dropWhile_append_of_pos hne, List.takeWhile_append_of_pos hne,
    List.dropWhile_cons_of_neg (by decide), List.takeWhile_cons_of_neg (by decide), List.append_nil, hname,
    String.ofList_toList]
  rfl

/-- A line that begins no section is read as the options it sets. -/
theorem collect_body {l : ConfLine} (htidy : l.Tidy) (hbody : l.isBody = true) :
    collect (explodeChars '\n' l.text.toList ++ a) = (l.options ++ (collect a).1, (collect a).2) := by
  have hone : ∀ s : List Char, '\n' ∉ s → explodeChars '\n' s = [s] := fun s hs => explodeChars_of_not_mem hs
  -- only a text that is typed in can have more than one line
  cases l with
  | blank => exact collect_cons_none rfl
  | comment t =>
    have htext : (ConfLine.comment t).text.toList = ';' :: ' ' :: t.toList := by
      rw [ConfLine.text, String.toList_append]
      rfl
    have ht : '\n' ∉ t.toList := newline_not_mem_of_clean htidy
    have hline : '\n' ∉ ';' :: ' ' :: t.toList := by simpa using ht
    rw [htext, hone _ hline]
    exact collect_cons_none (heading?_comment _)
  | heading name => cases hbody
  | setting option value =>
    have htext : (ConfLine.setting option value).text.toList = option.toList ++ '=' :: value.toList := by
      rw [ConfLine.text, String.toList_append, String.toList_append, List.append_assoc]
      rfl
    have hline := newline_not_mem_setting htidy.1 (newline_not_mem_of_clean htidy.2)
    rw [htext, hone _ hline, List.singleton_append, collect_cons_none (heading?_setting htidy.1),
      assignment?_setting htidy.1]
    rfl
  | raw t => exact collect_append fun line hline => (htidy line hline).1

/-- A heading that is written starts a section of its name. -/
theorem collect_heading (htidy : (ConfLine.heading name).Tidy) :
    collect (explodeChars '\n' (ConfLine.heading name).text.toList ++ a) =
      ([], (name, (collect a).1) :: (collect a).2) := by
  have htext : (ConfLine.heading name).text.toList = '[' :: (name.toList ++ [']']) := by
    rw [ConfLine.text, String.toList_append, String.toList_append]
    rfl
  have hline : '\n' ∉ '[' :: (name.toList ++ [']']) := by simpa using newline_not_mem_of_clean htidy.1
  rw [htext, explodeChars_of_not_mem hline]
  exact collect_cons_some (heading?_heading (semicolon_not_mem_of_clean htidy.1) htidy.2)

/-- A tidy line has nothing foreign in it. -/
theorem isForeign_tidy {l : ConfLine} (htidy : l.Tidy) :
    ∀ line ∈ explodeChars '\n' l.text.toList, isForeign line = false := by
  have hone : ∀ s : List Char, '\n' ∉ s → isForeign s = false →
      ∀ line ∈ explodeChars '\n' s, isForeign line = false := by
    intro s hs hforeign
    rw [explodeChars_of_not_mem hs]
    exact List.forall_mem_singleton.2 hforeign
  cases l with
  | blank => exact hone _ (by decide) (by decide)
  | comment t =>
    have htext : (ConfLine.comment t).text.toList = ';' :: ' ' :: t.toList := by
      rw [ConfLine.text, String.toList_append]
      rfl
    have ht : '\n' ∉ t.toList := newline_not_mem_of_clean htidy
    rw [htext]
    exact hone _ (by simpa using ht) (isForeign_comment (clean_eq_true.1 htidy))
  | heading name =>
    obtain ⟨hclean, hbracket⟩ := htidy
    have htext : (ConfLine.heading name).text.toList = '[' :: (name.toList ++ [']']) := by
      rw [ConfLine.text, String.toList_append, String.toList_append]
      rfl
    have hline : '\n' ∉ '[' :: (name.toList ++ [']']) := by simpa using newline_not_mem_of_clean hclean
    have hchars : ∀ c ∈ '[' :: (name.toList ++ [']']), isClean c = true :=
      List.forall_mem_cons.2 ⟨by decide, List.forall_mem_append.2 ⟨clean_eq_true.1 hclean,
        List.forall_mem_singleton.2 (by decide)⟩⟩
    -- nothing comes after the bracket
    have hcode : isDirective (trimChars blanks ('[' :: (name.toList ++ [']']))) = false := by
      have htrim : trimChars blanks ('[' :: (name.toList ++ [']'])) = '[' :: (name.toList ++ [']']) := by
        apply trimChars_eq_self
        · rintro c ⟨⟩
          decide
        · intro c hc
          rw [← List.cons_append, List.getLast?_append] at hc
          obtain rfl := Option.some.inj hc
          decide
      have hdrop : (name.toList ++ [']']).dropWhile (· ≠ ']') = [']'] := by
        rw [List.dropWhile_append_of_pos fun c hc => by
          rw [decide_eq_true_eq]
          rintro rfl
          exact hbracket hc]
        rfl
      rw [htrim, isDirective, hdrop]
    rw [htext]
    exact hone _ hline (isForeign_of_clean hchars hcode)
  | setting option value =>
    obtain ⟨hoption, hclean⟩ := htidy
    have htext : (ConfLine.setting option value).text.toList = option.toList ++ '=' :: value.toList := by
      rw [ConfLine.text, String.toList_append, String.toList_append, List.append_assoc]
      rfl
    have hline := newline_not_mem_setting hoption (newline_not_mem_of_clean hclean)
    rw [htext]
    exact hone _ hline (isForeign_of_clean (clean_setting hoption hclean) (isDirective_setting hoption))
  | raw t => exact fun line hline => (htidy line hline).2

end Lines

/-- A text that is put together from tidy lines is read as these lines say. -/
theorem collect_render {lines : List ConfLine} (h : ∀ line ∈ lines, line.Tidy) :
    collect (explodeChars '\n' (renderConf lines).toList) = gather lines := by
  induction lines with
  | nil => rfl
  | cons line r ih =>
    have hr := ih fun l hl => h l (List.mem_cons_of_mem _ hl)
    have htidy := h line List.mem_cons_self
    have htext : (renderConf (line :: r)).toList = line.text.toList ++ '\n' :: (renderConf r).toList := by
      unfold renderConf
      rw [List.map_cons, String.join_cons, String.toList_append, String.toList_append, List.append_assoc]
      rfl
    rw [htext, explodeChars_append]
    -- the lines after this one are collected first
    cases line with
    | heading name => rw [collect_heading htidy, hr, gather]
    | _ =>
      rw [collect_body htidy rfl, hr]
      rfl

/-- Tidy lines ask nothing of the loader that the reader does not do. -/
theorem isForeign_render {lines : List ConfLine} (h : ∀ line ∈ lines, line.Tidy) :
    (explodeChars '\n' (renderConf lines).toList).any isForeign = false := by
  induction lines with
  | nil => rfl
  | cons line r ih =>
    have htext : (renderConf (line :: r)).toList = line.text.toList ++ '\n' :: (renderConf r).toList := by
      unfold renderConf
      rw [List.map_cons, String.join_cons, String.toList_append, String.toList_append, List.append_assoc]
      rfl
    have hline : (explodeChars '\n' line.text.toList).any isForeign = false := by
      rw [List.any_eq_false]
      intro l hl
      rw [isForeign_tidy (h line List.mem_cons_self) l hl]
      exact Bool.false_ne_true
    rw [htext, explodeChars_append, List.any_append, hline, ih fun l hl => h l (List.mem_cons_of_mem _ hl)]
    rfl

/-- Nothing is set before the first section. -/
theorem sections_render {lines : List ConfLine} (h : ∀ line ∈ lines, line.Tidy) (hfirst : (gather lines).1 = []) :
    sections (renderConf lines) = some (gather lines).2 := by
  unfold sections
  dsimp only
  rw [isForeign_render h, collect_render h, hfirst]
  rfl

/-! ## Blocks of lines -/

section Blocks

variable {a b : List ConfLine}

@[simp] theorem renderConf_nil : renderConf [] = "" := rfl

/-- Every line is ended. -/
theorem renderConf_cons (line : ConfLine) : renderConf (line :: a) = line.text ++ "\n" ++ renderConf a := by
  unfold renderConf
  rw [List.map_cons, String.join_cons]

/-- Two parts of a file, one after the other. -/
theorem renderConf_append : renderConf (a ++ b) = renderConf a ++ renderConf b := by
  unfold renderConf
  rw [List.map_append, String.join_append]

/-- A line other than a heading adds its options to the section it stands in. -/
theorem gather_body {line : ConfLine} (h : line.isBody = true) :
    gather (line :: a) = (line.options ++ (gather a).1, (gather a).2) := by
  cases line with
  | heading name => cases h
  | _ => rfl

/-- So do several. -/
theorem gather_append (h : ∀ line ∈ a, line.isBody = true) :
    gather (a ++ b) = (a.flatMap ConfLine.options ++ (gather b).1, (gather b).2) := by
  induction a with
  | nil => rfl
  | cons line r ih =>
    rw [List.cons_append, gather_body (h line List.mem_cons_self),
      ih fun l hl => h l (List.mem_cons_of_mem _ hl), List.flatMap_cons, List.append_assoc]

/-- A heading takes the options of the lines below it. -/
theorem gather_heading (name : String) (h : ∀ line ∈ a, line.isBody = true) :
    gather (.heading name :: (a ++ b)) =
      ([], (name, a.flatMap ConfLine.options ++ (gather b).1) :: (gather b).2) := by
  rw [gather, gather_append h]

/-- Tidy lines that begin no section. -/
def Body (lines : List ConfLine) : Prop := ∀ line ∈ lines, line.Tidy ∧ line.isBody = true

theorem body_nil : Body [] := fun _ h => absurd h List.not_mem_nil

/-- A body is a list of tidy lines that are no headings. -/
theorem body_cons {line : ConfLine} (hline : line.Tidy) (hbody : line.isBody = true) (h : Body a) :
    Body (line :: a) := by
  intro l hl
  rcases List.mem_cons.1 hl with rfl | hl
  · exact ⟨hline, hbody⟩
  · exact h l hl

/-- Two bodies make one. -/
theorem Body.append (ha : Body a) (hb : Body b) : Body (a ++ b) := by
  intro l hl
  exact (List.mem_append.1 hl).elim (ha l) (hb l)

/-- Either of two bodies is one. -/
theorem body_ite {c : Prop} [Decidable c] (ha : c → Body a) (hb : ¬ c → Body b) : Body (if c then a else b) := by
  split_ifs with h
  · exact ha h
  · exact hb h

/-- A body for each element is one. -/
theorem body_flatMap {α : Type} {xs : List α} {f : α → List ConfLine} (h : ∀ x ∈ xs, Body (f x)) :
    Body (xs.flatMap f) := by
  intro l hl
  obtain ⟨x, hx, hl⟩ := List.mem_flatMap.1 hl
  exact h x hx l hl

/-- So is a line for each element. -/
theorem body_map {α : Type} {xs : List α} {f : α → ConfLine}
    (h : ∀ x ∈ xs, (f x).Tidy ∧ (f x).isBody = true) : Body (xs.map f) := by
  intro l hl
  obtain ⟨x, hx, rfl⟩ := List.mem_map.1 hl
  exact h x hx

/-- Tidy lines with sections of their own, after lines that set nothing. -/
structure Sectioned (lines : List ConfLine) (own : List Section) : Prop where
  tidy : ∀ line ∈ lines, line.Tidy
  gather : ∀ rest, (gather rest).1 = [] → gather (lines ++ rest) = ([], own ++ (gather rest).2)

/-- The sections of two parts of a file, one after the other. -/
theorem Sectioned.append {own own' : List Section} (ha : Sectioned a own) (hb : Sectioned b own') :
    Sectioned (a ++ b) (own ++ own') := by
  constructor
  · intro line hline
    exact (List.mem_append.1 hline).elim (ha.tidy line) (hb.tidy line)
  · intro rest hrest
    have hb' := hb.gather rest hrest
    rw [List.append_assoc, ha.gather (b ++ rest) (by rw [hb']), hb', List.append_assoc]

/-- One section after lines that set nothing. -/
theorem sectioned_of_body {before : List ConfLine} {name : String} (hbefore : Body before)
    (hnone : before.flatMap ConfLine.options = []) (hname : (ConfLine.heading name).Tidy) (h : Body a) :
    Sectioned (before ++ .heading name :: a) [(name, a.flatMap ConfLine.options)] := by
  constructor
  · intro line hline
    rcases List.mem_append.1 hline with hline | hline
    · exact (hbefore line hline).1
    · rcases List.mem_cons.1 hline with rfl | hline
      · exact hname
      · exact (h line hline).1
  · intro rest hrest
    rw [List.append_assoc, gather_append fun line hline => (hbefore line hline).2, hnone, List.cons_append,
      gather_heading name fun line hline => (h line hline).2, hrest, List.append_nil (a.flatMap _)]
    rfl

/-- The sections of a part for each element. -/
theorem sectioned_flatMap {α : Type} {xs : List α} {f : α → List ConfLine} {own : α → List Section}
    (h : ∀ x ∈ xs, Sectioned (f x) (own x)) : Sectioned (xs.flatMap f) (xs.flatMap own) := by
  induction xs with
  | nil => exact ⟨fun _ hl => absurd hl List.not_mem_nil, fun rest hrest => Prod.ext hrest rfl⟩
  | cons x r ih =>
    rw [List.flatMap_cons, List.flatMap_cons]
    exact (h x List.mem_cons_self).append (ih fun y hy => h y (List.mem_cons_of_mem _ hy))

/-- The loader reads the sections that were written. -/
theorem Sectioned.sections {lines : List ConfLine} {own : List Section} (h : Sectioned lines own) :
    Asterisk.sections (renderConf lines) = some own := by
  have hgather := h.gather [] rfl
  rw [List.append_nil] at hgather
  rw [sections_render h.tidy (by rw [hgather]), hgather]
  exact congrArg some (List.append_nil _)

end Blocks

/-! ## Values -/

/-- The lines do not set the option. -/
def Leaves (option : String) (lines : List ConfLine) : Prop :=
  ∀ line ∈ lines, option ∉ line.options.map Prod.fst

section Leaves

variable {a b : List ConfLine} {option : String}

@[simp] theorem leaves_nil : Leaves option [] := fun _ h => absurd h List.not_mem_nil

/-- Lines leave an option alone when each of them does. -/
@[simp] theorem leaves_cons {line : ConfLine} :
    Leaves option (line :: a) ↔ option ∉ line.options.map Prod.fst ∧ Leaves option a := List.forall_mem_cons

/-- Two parts leave it alone when both do. -/
@[simp] theorem leaves_append : Leaves option (a ++ b) ↔ Leaves option a ∧ Leaves option b :=
  List.forall_mem_append

/-- Either of two parts that leave it alone does. -/
theorem leaves_ite {c : Prop} [Decidable c] (ha : c → Leaves option a) (hb : ¬ c → Leaves option b) :
    Leaves option (if c then a else b) := by
  split_ifs with h
  · exact ha h
  · exact hb h

/-- So does a part for each element. -/
theorem leaves_flatMap {α : Type} {xs : List α} {f : α → List ConfLine} (h : ∀ x ∈ xs, Leaves option (f x)) :
    Leaves option (xs.flatMap f) := by
  intro l hl
  obtain ⟨x, hx, hl⟩ := List.mem_flatMap.1 hl
  exact h x hx l hl

/-- A setting sets the option it names. -/
@[simp] theorem mem_options_setting {other value : String} :
    option ∈ (ConfLine.setting other value).options.map Prod.fst ↔ option = other := List.mem_singleton

/-- An empty line sets nothing. -/
@[simp] theorem options_blank : ConfLine.blank.options = [] := rfl

/-- A comment sets nothing. -/
@[simp] theorem options_comment (text : String) : (ConfLine.comment text).options = [] := rfl

/-- An option that is left alone has no value. -/
theorem lastValue_of_leaves (h : Leaves option b) : lastValue (b.flatMap ConfLine.options) option = none := by
  rw [lastValue_eq_none_iff]
  intro hmem
  obtain ⟨s, hs, rfl⟩ := List.mem_map.1 hmem
  obtain ⟨line, hline, hs⟩ := List.mem_flatMap.1 hs
  exact h line hline (List.mem_map_of_mem hs)

/-- The option has the value it is given last. -/
theorem lastValue_setting {value : String} (h : Leaves option b) :
    lastValue ((a ++ .setting option value :: b).flatMap ConfLine.options) option = some (readValue value) := by
  have hone : lastValue (ConfLine.setting option value).options option = some (readValue value) := by
    have hfind : [(option, readValue value)].find? (fun s => s.1 = option) = some (option, readValue value) :=
      List.find?_cons_of_pos (decide_eq_true rfl)
    unfold lastValue ConfLine.options
    rw [List.reverse_singleton, hfind]
    rfl
  rw [List.flatMap_append, List.flatMap_cons, lastValue_append, lastValue_append, lastValue_of_leaves h, Option.none_or, hone,
    Option.some_or]

end Leaves

/-- A value without comments and blanks around it is read as it is. -/
theorem readValue_eq {value : String} (hcomment : ';' ∉ value.toList) (harrow : value.toList.head? ≠ some '>')
    (hhead : ∀ c ∈ value.toList.head?, c ∉ blanks) (hlast : ∀ c ∈ value.toList.getLast?, c ∉ blanks) :
    readValue value = value := by
  have hcode : value.toList.takeWhile (· ≠ ';') = value.toList := by
    rw [List.takeWhile_eq_self_iff]
    intro c hc
    rw [decide_eq_true_eq]
    rintro rfl
    exact hcomment hc
  unfold readValue
  rw [hcode]
  cases hvalue : value.toList with
  | nil => rw [← String.ofList_toList (s := value), hvalue]; rfl
  | cons c r =>
    rw [hvalue] at harrow hhead hlast
    have hmatch : (match c :: r with | '>' :: r => r | _ => c :: r) = c :: r := by
      split
      · next heq =>
        obtain ⟨rfl, -⟩ := List.cons.inj heq
        exact absurd rfl harrow
      · rfl
    dsimp only
    rw [hmatch, trimChars_eq_self hhead hlast, ← hvalue, String.ofList_toList]

end Asterisk
end Askozia
