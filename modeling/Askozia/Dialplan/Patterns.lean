import Askozia.Asterisk.Calls
import Askozia.Dialplan.Conf
import Askozia.Pbx.Verify
import Askozia.Php.Chars
import Askozia.Php.Search

/-!
# Dial patterns (`pbx.inc`, `dialplan.inc`)

`pbx_is_valid_dialpattern` checks a pattern and `dialplan_parse_pattern` takes it apart. The form says
what patterns mean: a prefix that is added and a prefix that is removed, then the digits to match, with
sets of digits in brackets.

* `dialpattern_meaning_iff`: when the number that is sent is the one the pattern stands for.
-/

namespace Askozia
namespace Dialplan

open Php Pbx Asterisk

/-! ## Reading a pattern -/

/-- A character of a pattern, or brackets with what stands between them. -/
inductive Item where
  | char (c : Char)
  | set (cs : List Char)
deriving DecidableEq, Repr

/-- The items of a pattern, with what has been read of open brackets. There are none if a bracket is
open at the end. -/
def itemsFrom : Option (List Char) → List Char → Option (List Item)
  | none, [] => some []
  | some _, [] => none
  | none, c :: r =>
    if c = '[' then itemsFrom (some []) r else (itemsFrom none r).map (.char c :: ·)
  | some cs, c :: r =>
    if c = ']' then (itemsFrom none r).map (.set cs :: ·) else itemsFrom (some (cs ++ [c])) r

/-- The items of a pattern, if its brackets are closed. -/
def items (s : List Char) : Option (List Item) := itemsFrom none s

section Items

variable {s t cs : List Char} {o : Option (List Char)} {is : List Item}

theorem itemsFrom_cons_none (c : Char) (r : List Char) : itemsFrom none (c :: r) =
    if c = '[' then itemsFrom (some []) r else (itemsFrom none r).map (.char c :: ·) := rfl

theorem itemsFrom_cons_some (cs : List Char) (c : Char) (r : List Char) :
    itemsFrom (some cs) (c :: r) =
      if c = ']' then (itemsFrom none r).map (.set cs :: ·) else itemsFrom (some (cs ++ [c])) r := rfl

theorem itemsFrom_append {a : List Item} (h : itemsFrom o s = some a) :
    itemsFrom o (s ++ t) = (items t).map (a ++ ·) := by
  induction s generalizing o a with
  | nil =>
    cases o with
    | none =>
      obtain rfl := Option.some.inj h
      show items t = (items t).map id
      rw [Option.map_id, id]
    | some cs => cases h
  | cons c r ih =>
    cases o with
    | none =>
      rw [itemsFrom_cons_none] at h
      rw [List.cons_append, itemsFrom_cons_none]
      split_ifs at h ⊢ with hc
      · exact ih h
      · obtain ⟨b, hb, rfl⟩ := Option.map_eq_some_iff.1 h
        rw [ih hb, Option.map_map]
        rfl
    | some cs =>
      rw [itemsFrom_cons_some] at h
      rw [List.cons_append, itemsFrom_cons_some]
      split_ifs at h ⊢ with hc
      · obtain ⟨b, hb, rfl⟩ := Option.map_eq_some_iff.1 h
        rw [ih hb, Option.map_map]
        rfl
      · exact ih h

theorem items_append {a : List Item} (h : items s = some a) :
    items (s ++ t) = (items t).map (a ++ ·) :=
  itemsFrom_append h

/-- Brackets that are open and get closed are an item. -/
theorem exists_set_of_open (h : itemsFrom (some cs) s = some is) : ∃ r, .set (cs ++ r) ∈ is := by
  induction s generalizing cs with
  | nil => cases h
  | cons c r ih =>
    rw [itemsFrom_cons_some] at h
    split_ifs at h with hc
    · obtain ⟨b, -, rfl⟩ := Option.map_eq_some_iff.1 h
      exact ⟨[], by rw [List.append_nil]; exact List.mem_cons_self⟩
    · obtain ⟨r', hr'⟩ := ih h
      exact ⟨c :: r', by rwa [List.append_assoc] at hr'⟩

/-- A character that is no bracket stands outside of brackets or in them. -/
theorem itemsFrom_split {c : Char} (hopen : c ≠ '[') (hclose : c ≠ ']')
    (h : itemsFrom o (s ++ c :: t) = some is) :
    (∃ a b, itemsFrom o s = some a ∧ items t = some b ∧ is = a ++ .char c :: b) ∨
      ∃ cs, .set cs ∈ is ∧ c ∈ cs := by
  -- up to the character, which is an item of its own or stands in a set that is open
  induction s generalizing o is with
  | nil =>
    rw [List.nil_append] at h
    cases o with
    | none =>
      rw [itemsFrom_cons_none, if_neg hopen] at h
      obtain ⟨b, hb, rfl⟩ := Option.map_eq_some_iff.1 h
      exact .inl ⟨[], b, rfl, hb, rfl⟩
    | some cs =>
      rw [itemsFrom_cons_some, if_neg hclose] at h
      obtain ⟨r, hr⟩ := exists_set_of_open h
      exact .inr ⟨_, hr, by simp⟩
  | cons d r ih =>
    have hcons : ∀ (i : Item) {b : List Item}, itemsFrom none (r ++ c :: t) = some b →
        (∃ a b', (itemsFrom none r).map (i :: ·) = some a ∧ items t = some b' ∧
          i :: b = a ++ .char c :: b') ∨ ∃ cs, .set cs ∈ i :: b ∧ c ∈ cs := by
      intro i b hb
      rcases ih hb with ⟨a, b', ha, hb', rfl⟩ | ⟨cs, hcs, hc⟩
      · exact .inl ⟨i :: a, b', by rw [ha]; rfl, hb', rfl⟩
      · exact .inr ⟨cs, List.mem_cons_of_mem _ hcs, hc⟩
    cases o with
    | none =>
      rw [List.cons_append, itemsFrom_cons_none] at h
      rw [itemsFrom_cons_none]
      split_ifs at h ⊢
      · exact ih h
      · obtain ⟨b, hb, rfl⟩ := Option.map_eq_some_iff.1 h
        exact hcons _ hb
    | some cs =>
      rw [List.cons_append, itemsFrom_cons_some] at h
      rw [itemsFrom_cons_some]
      split_ifs at h ⊢
      · obtain ⟨b, hb, rfl⟩ := Option.map_eq_some_iff.1 h
        exact hcons _ hb
      · exact ih h

/-- A text without brackets is read character by character. -/
theorem items_of_not_mem (h : '[' ∉ s) : items s = some (s.map .char) := by
  induction s with
  | nil => rfl
  | cons c r ih =>
    have hc : c ≠ '[' := fun hc => h (by rw [hc]; exact List.mem_cons_self)
    have hr := ih fun hr => h (List.mem_cons_of_mem _ hr)
    rw [items] at hr
    rw [items, itemsFrom_cons_none, if_neg hc, hr]
    rfl

/-- Items are no longer than their text. -/
theorem length_itemsFrom_le (h : itemsFrom o s = some is) : is.length ≤ s.length := by
  induction s generalizing o is with
  | nil =>
    cases o with
    | none =>
      obtain rfl := Option.some.inj h
      exact Nat.le_refl 0
    | some cs => cases h
  | cons c r ih =>
    cases o with
    | none =>
      rw [itemsFrom_cons_none] at h
      split_ifs at h
      · exact (ih h).trans (Nat.le_succ _)
      · obtain ⟨b, hb, rfl⟩ := Option.map_eq_some_iff.1 h
        exact Nat.succ_le_succ (ih hb)
    | some cs =>
      rw [itemsFrom_cons_some] at h
      split_ifs at h
      · obtain ⟨b, hb, rfl⟩ := Option.map_eq_some_iff.1 h
        exact Nat.succ_le_succ (ih hb)
      · exact (ih h).trans (Nat.le_succ _)

/-- They are shorter if there are brackets. -/
theorem length_items_lt (h : items s = some is) (hmem : '[' ∈ s) : is.length < s.length := by
  induction s generalizing is with
  | nil => cases hmem
  | cons c r ih =>
    rw [items, itemsFrom_cons_none] at h
    split_ifs at h with hc
    · exact Nat.lt_succ_of_le (length_itemsFrom_le h)
    · obtain ⟨b, hb, rfl⟩ := Option.map_eq_some_iff.1 h
      have hr : '[' ∈ r := (List.mem_cons.1 hmem).resolve_left fun heq => hc heq.symm
      exact Nat.succ_lt_succ (ih hb hr)

theorem char_mem_of_items {c : Char} (h : itemsFrom o s = some is) (hc : .char c ∈ is) : c ∈ s := by
  induction s generalizing o is with
  | nil =>
    cases o with
    | none =>
      obtain rfl := Option.some.inj h
      cases hc
    | some cs => cases h
  | cons d r ih =>
    cases o with
    | none =>
      rw [itemsFrom_cons_none] at h
      split_ifs at h
      · exact List.mem_cons_of_mem _ (ih h hc)
      · obtain ⟨b, hb, rfl⟩ := Option.map_eq_some_iff.1 h
        rcases List.mem_cons.1 hc with heq | hc
        · rw [Item.char.inj heq]
          exact List.mem_cons_self
        · exact List.mem_cons_of_mem _ (ih hb hc)
    | some cs =>
      rw [itemsFrom_cons_some] at h
      split_ifs at h
      · obtain ⟨b, hb, rfl⟩ := Option.map_eq_some_iff.1 h
        rcases List.mem_cons.1 hc with heq | hc
        · cases heq
        · exact List.mem_cons_of_mem _ (ih hb hc)
      · exact List.mem_cons_of_mem _ (ih h hc)

theorem isSome_itemsFrom_open (cs' : List Char) :
    (itemsFrom (some cs) s).isSome = (itemsFrom (some cs') s).isSome := by
  induction s generalizing cs cs' with
  | nil => rfl
  | cons c r ih =>
    rw [itemsFrom_cons_some, itemsFrom_cons_some]
    split_ifs
    · rw [Option.isSome_map, Option.isSome_map]
    · exact ih _

/-- A character that is no bracket does not change whether brackets are closed. -/
theorem isSome_itemsFrom_remove {c : Char} (hopen : c ≠ '[') (hclose : c ≠ ']') :
    (itemsFrom o (s ++ c :: t)).isSome = (itemsFrom o (s ++ t)).isSome := by
  induction s generalizing o with
  | nil =>
    cases o with
    | none => rw [List.nil_append, itemsFrom_cons_none, if_neg hopen, Option.isSome_map, List.nil_append]
    | some cs =>
      rw [List.nil_append, itemsFrom_cons_some, if_neg hclose, List.nil_append]
      exact isSome_itemsFrom_open _
  | cons d r ih =>
    rw [List.cons_append, List.cons_append]
    cases o with
    | none =>
      rw [itemsFrom_cons_none, itemsFrom_cons_none]
      split_ifs
      · exact ih
      · rw [Option.isSome_map, Option.isSome_map, ih]
    | some cs =>
      rw [itemsFrom_cons_some, itemsFrom_cons_some]
      split_ifs
      · rw [Option.isSome_map, Option.isSome_map, ih]
      · exact ih

end Items

/-! ## Patterns that are accepted -/

/-- The parts of a pattern: a prefix that is added, one that is removed, and what is left. -/
structure Written (p : List Char) (added removed : Option (List Char)) (rest : List Char) : Prop where
  text : p = (added.map (· ++ ['+'])).getD [] ++ (removed.map (· ++ ['|'])).getD [] ++ rest
  plus : '+' ∉ added.getD [] ∧ '+' ∉ removed.getD [] ∧ '+' ∉ rest
  pipe : '|' ∉ added.getD [] ∧ '|' ∉ removed.getD [] ∧ '|' ∉ rest

/-- What the checks on the whole pattern say. -/
structure Checked (p : List Char) (incoming : Bool) : Prop where
  allowed : pregMatchLine (fun t => !t.isEmpty &&
    t.all ((if incoming then incomingChars else outgoingChars).contains ·)) p = true
  pipes : p.count '|' ≤ 1
  pluses : p.count '+' ≤ 1
  brackets : bracketError p 0 none = none

section Accepted

variable {p : String} {incoming : Bool} {c : Char} {s a b : List Char}

/-- A pattern that is accepted passes every check. -/
theorem checked_of_accepted (h : pbxIsValidDialpattern p incoming = none) :
    Checked p.toList incoming ∧ match strposChars ['+'] p.toList with
      | some plus => hasPrefixDigits p.toList = true ∧ choppedError (p.toList.drop (plus + 1)) = none
      | none => choppedError p.toList = none := by
  obtain ⟨allowed, hallowed⟩ : ∃ x, (if incoming then incomingChars else outgoingChars) = x := ⟨_, rfl⟩
  unfold pbxIsValidDialpattern at h
  dsimp only at h
  rw [hallowed] at h
  -- the checks of the source in their order, each of which returns an error
  by_cases hchars : pregMatchLine (fun t => !t.isEmpty && t.all (allowed.contains ·)) p.toList = true
  swap
  · rw [if_pos (by simpa using hchars)] at h
    cases h
  rw [if_neg (by simpa using hchars)] at h
  by_cases hpipes : substrCount p.toList '|' > 1
  · rw [if_pos hpipes] at h
    cases h
  rw [if_neg hpipes] at h
  by_cases hpluses : substrCount p.toList '+' > 1
  · rw [if_pos hpluses] at h
    cases h
  rw [if_neg hpluses] at h
  by_cases hhyphens : substrCount p.toList '-' > 1
  · rw [if_pos hhyphens] at h
    cases h
  rw [if_neg hhyphens] at h
  cases hbrackets : bracketError p.toList 0 none with
  | some error =>
    rw [hbrackets] at h
    cases h
  | none =>
    rw [hbrackets] at h
    refine ⟨⟨by rwa [hallowed], Nat.le_of_not_lt hpipes, Nat.le_of_not_lt hpluses, hbrackets⟩, ?_⟩
    cases hplus : strposChars ['+'] p.toList with
    | none =>
      rw [hplus] at h
      exact h
    | some n =>
      rw [hplus] at h
      dsimp only at h ⊢
      split_ifs at h with hdigits
      exact ⟨by simpa using hdigits, h⟩

theorem not_mem_of_count (h : (a ++ c :: b).count c ≤ 1) : c ∉ a ∧ c ∉ b := by
  rw [List.count_append, List.count_cons_self] at h
  exact ⟨List.count_eq_zero.1 (by omega), List.count_eq_zero.1 (by omega)⟩

/-- The part that is removed has no wildcard. -/
theorem removed_of_choppedError (hcount : s.count '|' ≤ 1) (h : choppedError s = none) :
    ∃ (removed : Option (List Char)) (rest : List Char),
      s = (removed.map (· ++ ['|'])).getD [] ++ rest ∧ '|' ∉ removed.getD [] ∧ '|' ∉ rest ∧
      '.' ∉ removed.getD [] ∧ '!' ∉ removed.getD [] := by
  unfold choppedError at h
  cases hpipe : strposChars ['|'] s with
  | none => exact ⟨none, s, rfl, List.not_mem_nil, not_mem_of_strposChars hpipe, by simp⟩
  | some n =>
    obtain ⟨a, b, rfl, ha, rfl⟩ := exists_of_strposChars hpipe
    rw [hpipe] at h
    dsimp only at h
    rw [List.take_left] at h
    split_ifs at h with hdot hbang
    exact ⟨some a, b, by simp, ha, (not_mem_of_count hcount).2, by simpa using hdot, by simpa using hbang⟩

/-- The prefix that is added ends at the sign. -/
theorem digits_of_hasPrefixDigits (ha : '+' ∉ a) (h : hasPrefixDigits (a ++ '+' :: b) = true) :
    a ≠ [] ∧ ∀ c ∈ a, (c.isDigit || c == '*' || c == '#') = true := by
  unfold hasPrefixDigits at h
  dsimp only at h
  rw [Bool.and_eq_true, beq_iff_eq] at h
  obtain ⟨hne, hhead⟩ := h
  generalize hd : (a ++ '+' :: b).takeWhile (fun c => c.isDigit || c == '*' || c == '#') = d at hne hhead
  have hdigits : ∀ c ∈ d, (c.isDigit || c == '*' || c == '#') = true := by
    intro c hc
    rw [← hd] at hc
    exact List.mem_takeWhile_imp (p := fun c => c.isDigit || c == '*' || c == '#') hc
  have hplus : '+' ∉ d := fun hmem => absurd (hdigits '+' hmem) (by decide)
  -- the longest run of digits ends where the sign is
  obtain ⟨r, hr⟩ := List.head?_eq_some_iff.1 hhead
  have htext : a ++ '+' :: b = d ++ '+' :: r := by
    rw [← hr, ← hd]
    exact (List.prefix_iff_eq_append.1 (List.takeWhile_prefix _)).symm
  have hlength : a.length = d.length := by
    have hpos := strposChars_append (b := b) ha
    rw [htext, strposChars_append hplus] at hpos
    exact (Option.some.inj hpos).symm
  obtain ⟨rfl, -⟩ := List.append_inj htext hlength
  refine ⟨?_, hdigits⟩
  rintro rfl
  cases hne

/-- A pattern that is accepted is made of the parts. -/
theorem written_of_accepted (h : pbxIsValidDialpattern p incoming = none) :
    ∃ added removed rest, Written p.toList added removed rest ∧
      (∀ x ∈ added, x ≠ [] ∧ ∀ c ∈ x, (c.isDigit || c == '*' || c == '#') = true) ∧
      '.' ∉ removed.getD [] ∧ '!' ∉ removed.getD [] := by
  obtain ⟨hchecked, hparts⟩ := checked_of_accepted h
  have hpluses := hchecked.pluses
  have hpipes := hchecked.pipes
  -- a part of a text without a sign has no sign
  have hremovedMem : ∀ {removed : Option (List Char)} {rest s : List Char} {c : Char},
      s = (removed.map (· ++ ['|'])).getD [] ++ rest → c ∉ s → c ∉ removed.getD [] ∧ c ∉ rest := by
    intro removed rest s c htext hc
    rw [htext] at hc
    constructor
    · intro hmem
      cases removed with
      | none => cases hmem
      | some x =>
        apply hc
        simp only [Option.getD_some] at hmem
        simp [hmem]
    · exact fun hmem => hc (List.mem_append_right _ hmem)
  cases hplus : strposChars ['+'] p.toList with
  | none =>
    rw [hplus] at hparts
    obtain ⟨removed, rest, htext, hremoved, hrest, hwild⟩ := removed_of_choppedError hpipes hparts
    have hno := hremovedMem htext (not_mem_of_strposChars hplus)
    exact ⟨none, removed, rest, ⟨by rw [htext]; rfl, ⟨List.not_mem_nil, hno⟩,
      ⟨List.not_mem_nil, hremoved, hrest⟩⟩, by simp, hwild⟩
  | some n =>
    rw [hplus] at hparts
    obtain ⟨a, b, hab, ha, rfl⟩ := exists_of_strposChars hplus
    rw [hab] at hparts hpluses hpipes
    obtain ⟨hdigits, hchopped⟩ := hparts
    have hdrop : (a ++ '+' :: b).drop (a.length + 1) = b := by
      rw [List.drop_append, List.drop_eq_nil_of_le (Nat.le_succ _), Nat.add_sub_cancel_left]
      rfl
    rw [hdrop] at hchopped
    rw [List.count_append, List.count_cons_of_ne (by decide)] at hpipes
    obtain ⟨hne, hadded⟩ := digits_of_hasPrefixDigits ha hdigits
    obtain ⟨removed, rest, htext, hremoved, hrest, hwild⟩ := removed_of_choppedError (by omega) hchopped
    have hno := hremovedMem htext (not_mem_of_count hpluses).2
    have hpipe : '|' ∉ a := fun hmem => absurd (hadded '|' hmem) (by decide)
    refine ⟨some a, removed, rest, ⟨?_, ⟨ha, hno⟩, ⟨hpipe, hremoved, hrest⟩⟩, ?_, hwild⟩
    · rw [hab, htext]
      simp
    · rintro x hx
      obtain rfl := Option.some.inj hx
      exact ⟨hne, hadded⟩

end Accepted

/-! ## What a pattern matches -/

/-- What a piece of a pattern matches: a character of a set, one or more characters, or any number. -/
inductive Token where
  | set (cs : List Char)
  | oneOrMore
  | zeroOrMore
deriving DecidableEq, Repr

/-- The characters of a set, with its ranges. -/
def setChars : List Char → List Char
  | a :: '-' :: b :: r =>
    (List.range' a.toNat (b.toNat + 1 - a.toNat)).map Char.ofNat ++ setChars r
  | a :: r => a :: setChars r
  | [] => []

/-- What an item matches. The form does not say whether a hyphen outside of brackets stands for itself
or for nothing. -/
def Item.tokens (hyphens : Bool) : Item → List Token
  | .set cs => [.set (setChars cs)]
  | .char 'X' => [.set "0123456789".toList]
  | .char 'Z' => [.set "123456789".toList]
  | .char 'N' => [.set "23456789".toList]
  | .char '.' => [.oneOrMore]
  | .char '!' => [.zeroOrMore]
  | .char c => if c = '-' ∧ hyphens = false then [] else [.set [c]]

/-- What a pattern matches, piece by piece, if its brackets are closed. -/
def tokens (hyphens : Bool) (s : List Char) : Option (List Token) :=
  (items s).map fun is => is.flatMap (Item.tokens hyphens)

/-- A number is matched. -/
def Matches : List Token → List Char → Prop
  | [], s => s = []
  | .set cs :: ts, s => ∃ c r, s = c :: r ∧ c ∈ cs ∧ Matches ts r
  | .oneOrMore :: ts, s => ∃ a r, s = a ++ r ∧ a ≠ [] ∧ Matches ts r
  | .zeroOrMore :: ts, s => ∃ a r, s = a ++ r ∧ Matches ts r

/-- Every character stands for one digit. -/
def Plain (hyphens : Bool) (s : List Char) : Prop := '[' ∉ s ∧ (hyphens = false → '-' ∉ s)

/-- The value of a variable while an extension is executed, with `:` and how much is left out. -/
def extenValue (exten : List Char) (name : String) : List Char :=
  if name = "EXTEN" then exten
  else if "EXTEN:".toList.isPrefixOf name.toList then
    exten.drop (Val.digitsValue (name.toList.drop 6))
  else []

/-- The number that is sent for a number that was dialled. -/
def numberSent (p : String) (s : List Char) : List Char :=
  expand (extenValue s) ((parsePattern p).ins ++ (parsePattern p).exten)

section Matching

variable {hyphens : Bool} {s : List Char} {ts us : List Token}

theorem matches_append : Matches (ts ++ us) s ↔ ∃ a b, s = a ++ b ∧ Matches ts a ∧ Matches us b := by
  induction ts generalizing s with
  | nil =>
    constructor
    · exact fun h => ⟨[], s, rfl, rfl, h⟩
    · rintro ⟨a, b, rfl, rfl, h⟩
      exact h
  | cons t ts ih =>
    -- the wildcards take a word, so the split of the rest is behind it
    cases t with
    | set cs =>
      simp only [List.cons_append, Matches, ih]
      constructor
      · rintro ⟨c, r, rfl, hc, a, b, rfl, ha, hb⟩
        exact ⟨c :: a, b, rfl, ⟨c, a, rfl, hc, ha⟩, hb⟩
      · rintro ⟨_, b, rfl, ⟨c, a, rfl, hc, ha⟩, hb⟩
        exact ⟨c, a ++ b, rfl, hc, a, b, rfl, ha, hb⟩
    | oneOrMore =>
      simp only [List.cons_append, Matches, ih]
      constructor
      · rintro ⟨w, r, rfl, hw, a, b, rfl, ha, hb⟩
        exact ⟨w ++ a, b, by rw [List.append_assoc], ⟨w, a, rfl, hw, ha⟩, hb⟩
      · rintro ⟨_, b, rfl, ⟨w, a, rfl, hw, ha⟩, hb⟩
        exact ⟨w, a ++ b, by rw [List.append_assoc], hw, a, b, rfl, ha, hb⟩
    | zeroOrMore =>
      simp only [List.cons_append, Matches, ih]
      constructor
      · rintro ⟨w, r, rfl, a, b, rfl, ha, hb⟩
        exact ⟨w ++ a, b, by rw [List.append_assoc], ⟨w, a, rfl, ha⟩, hb⟩
      · rintro ⟨_, b, rfl, ⟨w, a, rfl, ha⟩, hb⟩
        exact ⟨w, a ++ b, by rw [List.append_assoc], a, b, rfl, ha, hb⟩

/-- Sets match one character each. -/
theorem length_of_matches (hts : ∀ t ∈ ts, ∃ cs, t = .set cs) (h : Matches ts s) :
    s.length = ts.length := by
  induction ts generalizing s with
  | nil =>
    rw [Matches] at h
    rw [h]
    rfl
  | cons t ts ih =>
    obtain ⟨cs, rfl⟩ := hts t List.mem_cons_self
    obtain ⟨c, r, rfl, -, hr⟩ := h
    rw [List.length_cons, List.length_cons, ih (fun t ht => hts t (List.mem_cons_of_mem _ ht)) hr]

theorem length_itemTokens (i : Item) :
    (i.tokens hyphens).length = if i = .char '-' ∧ hyphens = false then 0 else 1 := by
  unfold Item.tokens
  split
  case h_7 c _ _ _ _ _ =>
    by_cases h : c = '-' ∧ hyphens = false
    · rw [if_pos h, if_pos ⟨by rw [h.1], h.2⟩]
      rfl
    · rw [if_neg h, if_neg fun hi => h ⟨Item.char.inj hi.1, hi.2⟩]
      rfl
  all_goals simp

theorem set_of_mem_itemTokens {i : Item} {t : Token} (hdot : i ≠ .char '.') (hbang : i ≠ .char '!')
    (ht : t ∈ i.tokens hyphens) : ∃ cs, t = .set cs := by
  unfold Item.tokens at ht
  split at ht
  case h_5 => exact absurd rfl hdot
  case h_6 => exact absurd rfl hbang
  case h_7 c _ _ _ _ _ =>
    split_ifs at ht
    · cases ht
    · exact ⟨_, List.mem_singleton.1 ht⟩
  all_goals exact ⟨_, List.mem_singleton.1 ht⟩

/-- Without wildcards all pieces are sets. -/
theorem set_of_mem_tokens (h : tokens hyphens s = some ts) (hdot : '.' ∉ s) (hbang : '!' ∉ s) :
    ∀ t ∈ ts, ∃ cs, t = .set cs := by
  obtain ⟨is, his, rfl⟩ := Option.map_eq_some_iff.1 h
  intro t ht
  obtain ⟨i, hi, ht⟩ := List.mem_flatMap.1 ht
  apply set_of_mem_itemTokens _ _ ht
  · rintro rfl
    exact hdot (char_mem_of_items his hi)
  · rintro rfl
    exact hbang (char_mem_of_items his hi)

theorem length_flatMap_tokens_le (is : List Item) :
    (is.flatMap (Item.tokens hyphens)).length ≤ is.length := by
  induction is with
  | nil => exact Nat.le_refl 0
  | cons i r ih =>
    rw [List.flatMap_cons, List.length_append, List.length_cons, length_itemTokens]
    split_ifs
    · omega
    · omega

/-- There are as many pieces as characters exactly if the text is plain. -/
theorem length_tokens (h : tokens hyphens s = some ts) :
    ts.length ≤ s.length ∧ (ts.length = s.length ↔ Plain hyphens s) := by
  obtain ⟨is, his, rfl⟩ := Option.map_eq_some_iff.1 h
  have hle := @length_flatMap_tokens_le hyphens is
  have hlength := length_itemsFrom_le his
  refine ⟨hle.trans hlength, ?_⟩
  -- a set is one token for at least two characters; a character is one or none
  by_cases hopen : '[' ∈ s
  · have hlt := length_items_lt his hopen
    exact ⟨fun heq => by omega, fun hplain => absurd hopen hplain.1⟩
  · rw [items_of_not_mem hopen] at his
    obtain rfl := Option.some.inj his
    unfold Plain
    clear his h hle hlength
    induction s with
    | nil => simp
    | cons c r ih =>
      rw [List.mem_cons, not_or] at hopen
      obtain ⟨hc, hopen⟩ := hopen
      have hr := @length_flatMap_tokens_le hyphens (r.map .char)
      rw [List.length_map] at hr
      have hiff := ih hopen
      rw [List.map_cons, List.flatMap_cons, List.length_append, List.length_cons, length_itemTokens]
      simp only [Item.char.injEq, List.mem_cons, not_or]
      split_ifs with hskip
      · constructor
        · intro heq
          omega
        · exact fun h => absurd hskip.1.symm (h.2 hskip.2).1
      · have hsucc : 1 + ((r.map Item.char).flatMap (Item.tokens hyphens)).length = r.length + 1 ↔
            ((r.map Item.char).flatMap (Item.tokens hyphens)).length = r.length := by omega
        rw [hsucc, hiff]
        constructor
        · exact fun h => ⟨⟨hc, h.1⟩, fun hf => ⟨fun heq => hskip ⟨heq.symm, hf⟩, h.2 hf⟩⟩
        · exact fun h => ⟨h.1.2, fun hf => (h.2 hf).2⟩

end Matching

/-! ## The number that is sent -/

section Sent

variable {p : String} {s : List Char} {added removed : Option (List Char)} {rest : List Char}

/-- How a pattern is taken apart. -/
theorem parsePattern_written (h : Written p.toList added removed rest) :
    parsePattern p = ⟨String.ofList (removed.getD [] ++ rest), String.ofList (added.getD []),
      removed.elim (var "EXTEN") fun x => var ("EXTEN:" ++ toString x.length)⟩ := by
  -- what stands behind the plus is split at the pipe in either case
  have hafter : ∀ q : String, q.toList = (removed.map (· ++ ['|'])).getD [] ++ rest →
      (match strpos q "|" with
        | some offset => (⟨String.ofList (q.toList.filter (· != '|')), String.ofList (added.getD []),
            var ("EXTEN:" ++ toString offset)⟩ : Pattern)
        | none => ⟨q, String.ofList (added.getD []), var "EXTEN"⟩) =
      ⟨String.ofList (removed.getD [] ++ rest), String.ofList (added.getD []),
        removed.elim (var "EXTEN") fun x => var ("EXTEN:" ++ toString x.length)⟩ := by
    intro q hq
    obtain ⟨-, hremoved, hrest⟩ := h.pipe
    have hkeep : ∀ x : List Char, '|' ∉ x → x.filter (· != '|') = x := by
      intro x hx
      apply List.filter_eq_self.2
      intro c hc
      rw [bne_iff_ne]
      rintro rfl
      exact hx hc
    have hpipe : strpos q "|" = strposChars ['|'] q.toList := rfl
    cases removed with
    | none =>
      rw [hpipe, hq, strposChars_of_not_mem (by simpa using hrest)]
      simp only [Option.map_none, Option.getD_none, List.nil_append, Option.elim] at hq ⊢
      rw [← hq, String.ofList_toList]
    | some x =>
      have htext : q.toList = x ++ '|' :: rest := by rw [hq]; simp
      have hx : '|' ∉ x := hremoved
      rw [hpipe, htext, strposChars_append hx]
      simp only [List.filter_append, List.filter_cons, hkeep x hx, hkeep rest hrest]
      rfl
  have hplus : strpos p "+" = strposChars ['+'] p.toList := rfl
  unfold parsePattern
  rw [hplus]
  cases added with
  | none =>
    have htext : p.toList = (removed.map (· ++ ['|'])).getD [] ++ rest := h.text
    have hno : '+' ∉ p.toList := by
      rw [htext]
      cases removed with
      | none => simpa using h.plus.2.2
      | some x => simpa using h.plus.2
    rw [strposChars_of_not_mem hno]
    exact hafter p htext
  | some a =>
    have htext : p.toList = a ++ '+' :: ((removed.map (· ++ ['|'])).getD [] ++ rest) := by
      rw [h.text]
      simp
    have ha : '+' ∉ a := h.plus.1
    rw [htext, strposChars_append ha]
    dsimp only
    have hdrop : (a ++ '+' :: ((removed.map (· ++ ['|'])).getD [] ++ rest)).drop (a.length + 1) =
        (removed.map (· ++ ['|'])).getD [] ++ rest := by
      rw [List.drop_append, List.drop_eq_nil_of_le (Nat.le_succ _), Nat.add_sub_cancel_left]
      rfl
    rw [hdrop, List.take_left]
    exact hafter _ String.toList_ofList

theorem expand_var (value : String → List Char) {name : String} (h : '}' ∉ name.toList) :
    expand value (var name) = value name := by
  have hnil : ∀ n, expandChars value n [] = [] := by
    intro n
    cases n with
    | zero => rfl
    | succ n => rfl
  have htext : (var name).toList = '$' :: '{' :: (name.toList ++ ['}']) := by
    rw [var, String.toList_append, String.toList_append]
    rfl
  rw [expand, htext, List.length_cons, expandChars, if_pos ⟨rfl, rfl⟩, List.tail_cons, cutAt_eq h]
  dsimp only
  rw [hnil, List.append_nil, String.ofList_toList]

/-- The number that is sent has the prefix, and lacks as many digits as the removed part has
characters. -/
theorem numberSent_written (h : Written p.toList added removed rest) (hdollar : '$' ∉ added.getD []) :
    numberSent p s = added.getD [] ++ s.drop (removed.getD []).length := by
  unfold numberSent
  rw [parsePattern_written h]
  dsimp only
  rw [expand_append _ _ (by rwa [String.toList_ofList]), String.toList_ofList]
  congr 1
  cases removed with
  | none =>
    show expand (extenValue s) (var "EXTEN") = s
    rw [expand_var _ (by decide)]
    rfl
  | some x =>
    have hname : ("EXTEN:" ++ toString x.length).toList = "EXTEN:".toList ++ (toString x.length).toList :=
      String.toList_append
    have hbrace : '}' ∉ ("EXTEN:" ++ toString x.length).toList := by
      rw [hname, List.mem_append, not_or]
      exact ⟨by decide, fun hmem => absurd (Val.isDigit_of_mem_toString_nat hmem) (by decide)⟩
    have hne : "EXTEN:" ++ toString x.length ≠ "EXTEN" := by
      intro heq
      have hlength := congrArg (fun t => t.toList.length) heq
      simp at hlength
    show expand (extenValue s) (var ("EXTEN:" ++ toString x.length)) = s.drop x.length
    rw [expand_var _ hbrace, extenValue, if_neg hne, hname,
      if_pos (List.isPrefixOf_iff_prefix.2 (List.prefix_append _ _))]
    have hdrop : ("EXTEN:".toList ++ (toString x.length).toList).drop 6 = (toString x.length).toList := rfl
    rw [hdrop, Val.digitsValue_toString]

/-- The prefix that is added has no brackets. -/
theorem items_after_added (h : Written p.toList added removed rest)
    (hdigits : ∀ x ∈ added, ∀ c ∈ x, (c.isDigit || c == '*' || c == '#') = true) :
    ∃ before : List Char, items p.toList =
      (items ((removed.map (· ++ ['|'])).getD [] ++ rest)).map (before.map .char ++ ·) := by
  cases added with
  | none =>
    refine ⟨[], ?_⟩
    rw [h.text]
    exact (Option.map_id_apply (x := items _)).symm
  | some a =>
    have hopen : '[' ∉ a ++ ['+'] := by
      intro hmem
      rcases List.mem_append.1 hmem with hmem | hmem
      · exact absurd (hdigits a rfl '[' hmem) (by decide)
      · exact absurd hmem (by decide)
    have htext : p.toList = (a ++ ['+']) ++ ((removed.map (· ++ ['|'])).getD [] ++ rest) := by
      rw [h.text, List.append_assoc]
      rfl
    exact ⟨a ++ ['+'], by rw [htext, items_append (items_of_not_mem hopen)]⟩

/-- The pattern that is left has its brackets closed if the whole one has. -/
theorem isSome_items_left (h : Written p.toList added removed rest)
    (hdigits : ∀ x ∈ added, ∀ c ∈ x, (c.isDigit || c == '*' || c == '#') = true)
    (hclosed : (items p.toList).isSome = true) : (items (removed.getD [] ++ rest)).isSome = true := by
  obtain ⟨before, hbefore⟩ := items_after_added h hdigits
  rw [hbefore, Option.isSome_map] at hclosed
  cases removed with
  | none => exact hclosed
  | some x =>
    have htext : ((some x).map (· ++ ['|'])).getD [] ++ rest = x ++ '|' :: rest := by simp
    rw [htext, items, isSome_itemsFrom_remove (by decide) (by decide)] at hclosed
    exact hclosed

/-- The number that is sent is the one the pattern stands for, the added prefix and the number without
the digits that the removed part matches, exactly if every character of that part stands for one digit,
or no digit is left. -/
theorem dialpattern_meaning_iff (hyphens : Bool) {p : String}
    (haccepted : pbxIsValidDialpattern p false = none) (hclosed : (items p.toList).isSome = true) :
    ∃ added removed rest, Written p.toList added removed rest ∧
    ∃ ts, tokens hyphens (parsePattern p).pattern.toList = some ts ∧
    ∀ s, Matches ts s →
      ((∃ us vs a b, tokens hyphens (removed.getD []) = some us ∧ tokens hyphens rest = some vs ∧
          s = a ++ b ∧ Matches us a ∧ Matches vs b ∧ numberSent p s = added.getD [] ++ b) ↔
        Plain hyphens (removed.getD []) ∨
          ∃ us, tokens hyphens (removed.getD []) = some us ∧ s.length ≤ us.length) := by
  obtain ⟨added, removed, rest, hwritten, hdigits, hdot, hbang⟩ := written_of_accepted haccepted
  refine ⟨added, removed, rest, hwritten, ?_⟩
  have hleft := isSome_items_left hwritten (fun x hx => (hdigits x hx).2) hclosed
  have hpattern : (parsePattern p).pattern.toList = removed.getD [] ++ rest := by
    rw [parsePattern_written hwritten, String.toList_ofList]
  have hdollar : '$' ∉ added.getD [] := by
    cases added with
    | none => exact List.not_mem_nil
    | some a => exact fun hmem => absurd ((hdigits a rfl).2 '$' hmem) (by decide)
  obtain ⟨is, his⟩ := Option.isSome_iff_exists.1 hleft
  rw [hpattern]
  refine ⟨_, by rw [tokens, his, Option.map_some], ?_⟩
  intro s hs
  rw [numberSent_written hwritten hdollar]
  generalize removed.getD [] = removed at hdot hbang hleft his ⊢
  cases hremoved : items removed with
  | none =>
    -- a bracket is open where the removed part ends: it stands for nothing
    have hnone : tokens hyphens removed = none := by rw [tokens, hremoved, Option.map_none]
    have hopen : ¬ Plain hyphens removed := by
      intro hplain
      rw [items_of_not_mem hplain.1] at hremoved
      cases hremoved
    simp [hnone, hopen]
  | some ri =>
    rw [items_append hremoved] at his
    obtain ⟨vi, hrest, rfl⟩ := Option.map_eq_some_iff.1 his
    rw [List.flatMap_append] at hs
    obtain ⟨a, b, rfl, ha, hb⟩ := matches_append.1 hs
    have hus : tokens hyphens removed = some (ri.flatMap (Item.tokens hyphens)) := by
      rw [tokens, hremoved, Option.map_some]
    have hvs : tokens hyphens rest = some (vi.flatMap (Item.tokens hyphens)) := by
      rw [tokens, hrest, Option.map_some]
    have hsets := set_of_mem_tokens hus hdot hbang
    have hla := length_of_matches hsets ha
    obtain ⟨hle, hplain⟩ := length_tokens hus
    generalize ri.flatMap (Item.tokens hyphens) = us at hus ha hsets hla hle hplain
    constructor
    · rintro ⟨us', vs', a', b', hus', -, hsplit, ha', -, hsent⟩
      obtain rfl := Option.some.inj (hus.symm.trans hus')
      have hla' := length_of_matches hsets ha'
      have hdrop := congrArg List.length (List.append_cancel_left hsent)
      rw [hsplit, List.length_drop, List.length_append] at hdrop
      rw [← hplain]
      by_cases heq : us.length = removed.length
      · exact .inl heq
      · refine .inr ⟨us, hus, ?_⟩
        rw [hsplit, List.length_append]
        omega
    · intro h
      refine ⟨us, _, a, b, hus, hvs, rfl, ha, hb, ?_⟩
      congr 1
      rcases h with h | ⟨us', hus', hshort⟩
      · rw [← hplain.2 h, ← hla, List.drop_left]
      · obtain rfl := Option.some.inj (hus.symm.trans hus')
        rw [List.length_append, hla] at hshort
        have hempty : b = [] := List.eq_nil_of_length_eq_zero (by omega)
        rw [hempty, List.append_nil, List.drop_eq_nil_of_le (by omega)]

theorem dialpattern_meaning_prefix :
    ∃ added removed rest, Written "0+9|X.".toList added removed rest ∧
    ∃ ts, tokens true (parsePattern "0+9|X.").pattern.toList = some ts ∧
    ∀ s, Matches ts s →
      ((∃ us vs a b, tokens true (removed.getD []) = some us ∧ tokens true rest = some vs ∧
          s = a ++ b ∧ Matches us a ∧ Matches vs b ∧ numberSent "0+9|X." s = added.getD [] ++ b) ↔
        Plain true (removed.getD []) ∨
          ∃ us, tokens true (removed.getD []) = some us ∧ s.length ≤ us.length) :=
  dialpattern_meaning_iff true (by decide) (by decide)

/-- A set of two digits is removed as four. -/
theorem not_dialpattern_meaning :
    pbxIsValidDialpattern "[12]|X." false = none ∧ (items "[12]|X.".toList).isSome = true ∧
    Written "[12]|X.".toList none (some "[12]".toList) "X.".toList ∧
    ∃ ts, tokens true (parsePattern "[12]|X.").pattern.toList = some ts ∧ Matches ts "1555".toList ∧
      ¬ ∃ us vs a b, tokens true "[12]".toList = some us ∧ tokens true "X.".toList = some vs ∧
        "1555".toList = a ++ b ∧ Matches us a ∧ Matches vs b ∧ numberSent "[12]|X." "1555".toList = b := by
  refine ⟨by decide, by decide, ⟨by decide, by decide, by decide⟩,
    [.set ['1', '2'], .set "0123456789".toList, .oneOrMore], by decide, ?_, ?_⟩
  · exact ⟨'1', ['5', '5', '5'], by decide, by decide, '5', ['5', '5'], rfl, by decide, ['5', '5'], [],
      rfl, by decide, rfl⟩
  · rintro ⟨us, vs, a, b, hus, -, hsplit, ha, -, hsent⟩
    have hset : tokens true "[12]".toList = some [.set ['1', '2']] := by decide
    obtain rfl := Option.some.inj (hset.symm.trans hus)
    have hone := length_of_matches (by simp) ha
    -- four characters are cut, as many as the prefix is written with, though it stands for one digit
    have hsent' : numberSent "[12]|X." "1555".toList = [] := by decide
    have hlength := congrArg List.length hsplit
    rw [List.length_append, hone, ← hsent, hsent'] at hlength
    exact absurd hlength (by decide)

end Sent

end Dialplan
end Askozia
