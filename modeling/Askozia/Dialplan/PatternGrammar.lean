import Askozia.Dialplan.Patterns

/-!
# The language of dial patterns (`pbx.inc`)

`pbx_is_valid_dialpattern` looks at the characters, counts some of them, and goes over the brackets. It
does not look at what stands in brackets, whether they are closed at the end, or whether anything is left
to match.

* `dialpattern_wellFormed_iff`: which of the patterns that are accepted are well formed.
-/

namespace Askozia
namespace Dialplan

open Php Pbx

/-! ## Well-formed patterns -/

/-- Digits, and hyphens between digits. The first argument says whether a digit stands before. -/
def digitsAndRanges : Bool → List Char → Bool
  | _, [] => true
  | before, c :: r =>
    if c.isDigit then digitsAndRanges true r
    else c == '-' && before && r.head?.any Char.isDigit && digitsAndRanges false r

/-- The characters of `pbx_is_valid_dialpattern`. -/
def patternChars (incoming : Bool) : List Char := if incoming then incomingChars else outgoingChars

/-- A character to match, or two or more digits and ranges in brackets. -/
def Item.WellFormed (incoming : Bool) : Item → Prop
  | .char c => c ∈ patternChars incoming ∧ c ∉ "[]|+".toList
  | .set cs => 2 ≤ cs.length ∧ digitsAndRanges false cs = true

/-- A pattern of the language: a prefix to add and one to remove, for outgoing calls, and something to
match. -/
structure WellFormedPattern (incoming : Bool) (p : List Char) (added removed : Option (List Char))
    (rest : List Char) : Prop where
  written : Written p added removed rest
  outgoing : incoming = true → added = none ∧ removed = none
  digits : ∀ x ∈ added, x ≠ [] ∧ ∀ c ∈ x, (c.isDigit || c == '*' || c == '#') = true
  fixed : '.' ∉ removed.getD [] ∧ '!' ∉ removed.getD []
  nonempty : rest ≠ []
  removedItems : ∃ is, items (removed.getD []) = some is ∧ ∀ i ∈ is, i.WellFormed incoming
  restItems : ∃ is, items rest = some is ∧ ∀ i ∈ is, i.WellFormed incoming

/-- What is not checked: brackets are closed, with digits and ranges in them, and the last character is
one to match. -/
def Unchecked (p : List Char) : Prop :=
  (∃ is, items p = some is ∧ ∀ cs, .set cs ∈ is → digitsAndRanges false cs = true) ∧
    p.getLast? ≠ some '+' ∧ p.getLast? ≠ some '|' ∧ p.getLast? ≠ some '\n'

section Items

variable {s t : List Char} {o : Option (List Char)} {is : List Item}

theorem digit_of_mem_digitsAndRanges {before : Bool} {c : Char} (h : digitsAndRanges before s = true)
    (hc : c ∈ s) : c.isDigit = true ∨ c = '-' := by
  induction s generalizing before with
  | nil => cases hc
  | cons d r ih =>
    rw [digitsAndRanges] at h
    split_ifs at h with hd
    · rcases List.mem_cons.1 hc with rfl | hc
      · exact .inl hd
      · exact ih h hc
    · simp only [Bool.and_eq_true, beq_iff_eq] at h
      rcases List.mem_cons.1 hc with rfl | hc
      · exact .inr h.1.1.1
      · exact ih h.2 hc

/-- Every character is a bracket, an item, or in an item. -/
theorem mem_items_cases {c : Char} (h : itemsFrom o s = some is) (hc : c ∈ s) :
    c = '[' ∨ c = ']' ∨ .char c ∈ is ∨ ∃ cs, .set cs ∈ is ∧ c ∈ cs := by
  -- a character is a bracket, an item, or stands in a set; `o` is the set that is open
  induction s generalizing o is with
  | nil => cases hc
  | cons d r ih =>
    have hcons : ∀ {b : List Item} (i : Item), itemsFrom none r = some b → c ∈ r →
        c = '[' ∨ c = ']' ∨ .char c ∈ i :: b ∨ ∃ cs, .set cs ∈ i :: b ∧ c ∈ cs := by
      intro b i hb hc
      rcases ih hb hc with h | h | h | ⟨cs, hcs, h⟩
      · exact .inl h
      · exact .inr (.inl h)
      · exact .inr (.inr (.inl (List.mem_cons_of_mem _ h)))
      · exact .inr (.inr (.inr ⟨cs, List.mem_cons_of_mem _ hcs, h⟩))
    cases o with
    | none =>
      rw [itemsFrom_cons_none] at h
      split_ifs at h with hd
      · rcases List.mem_cons.1 hc with rfl | hc
        · exact .inl hd
        · exact ih h hc
      · obtain ⟨b, hb, rfl⟩ := Option.map_eq_some_iff.1 h
        rcases List.mem_cons.1 hc with rfl | hc
        · exact .inr (.inr (.inl List.mem_cons_self))
        · exact hcons _ hb hc
    | some cs =>
      rw [itemsFrom_cons_some] at h
      split_ifs at h with hd
      · obtain ⟨b, hb, rfl⟩ := Option.map_eq_some_iff.1 h
        rcases List.mem_cons.1 hc with rfl | hc
        · exact .inr (.inl hd)
        · exact hcons _ hb hc
      · rcases List.mem_cons.1 hc with rfl | hc
        · obtain ⟨r', hr'⟩ := exists_set_of_open h
          exact .inr (.inr (.inr ⟨_, hr', by simp⟩))
        · exact ih h hc

/-- The loop over the brackets lets pass what has no single bracket, and two characters in brackets.
Brackets that are open began where what has been read of them did. -/
theorem items_of_bracketError {k : ℕ} (h : itemsFrom o s = some is) (hk : ∀ cs ∈ o, cs.length < k)
    (herror : bracketError s k (o.map fun cs => k - cs.length - 1) = none) :
    (∀ c, .char c ∈ is → c ≠ '[' ∧ c ≠ ']') ∧ ∀ cs, .set cs ∈ is → 2 ≤ cs.length := by
  -- the check keeps the index of the open bracket, the reading what stands behind it
  induction s generalizing o is k with
  | nil =>
    cases o with
    | none =>
      obtain rfl := Option.some.inj h
      exact ⟨fun c hc => (List.not_mem_nil hc).elim, fun cs hcs => (List.not_mem_nil hcs).elim⟩
    | some cs => cases h
  | cons d r ih =>
    cases o with
    | none =>
      rw [itemsFrom_cons_none] at h
      rw [Option.map_none, bracketError] at herror
      split_ifs at h herror with hopen hclose
      · apply ih h
        · intro cs hcs
          rw [← Option.some.inj hcs]
          exact Nat.succ_pos k
        · rw [Option.map_some, List.length_nil]
          exact herror
      · obtain ⟨b, hb, rfl⟩ := Option.map_eq_some_iff.1 h
        obtain ⟨hchars, hsets⟩ := ih hb (by simp) herror
        constructor
        · intro c hc
          rcases List.mem_cons.1 hc with heq | hc
          · rw [Item.char.inj heq]
            exact ⟨hopen, hclose⟩
          · exact hchars c hc
        · intro cs hcs
          rcases List.mem_cons.1 hcs with heq | hcs
          · cases heq
          · exact hsets cs hcs
    | some cs =>
      have hlt := hk cs rfl
      rw [itemsFrom_cons_some] at h
      rw [Option.map_some, bracketError] at herror
      -- inside a set a second bracket is refused, and so is a set that is too short
      by_cases hopen : d = '['
      · rw [if_pos hopen] at herror
        cases herror
      rw [if_neg hopen] at herror
      by_cases hclose : d = ']'
      · rw [if_pos hclose] at h herror
        split_ifs at herror with hlength
        obtain ⟨b, hb, rfl⟩ := Option.map_eq_some_iff.1 h
        obtain ⟨hchars, hsets⟩ := ih hb (by simp) herror
        constructor
        · intro c hc
          rcases List.mem_cons.1 hc with heq | hc
          · cases heq
          · exact hchars c hc
        · intro cs' hcs
          rcases List.mem_cons.1 hcs with heq | hcs
          · rw [Item.set.inj heq]
            omega
          · exact hsets cs' hcs
      · rw [if_neg hclose] at h herror
        apply ih h
        · intro cs' hcs
          rw [← Option.some.inj hcs, List.length_append]
          exact Nat.succ_lt_succ hlt
        · rw [Option.map_some, List.length_append, List.length_singleton]
          have hindex : k + 1 - (cs.length + 1) - 1 = k - cs.length - 1 := by omega
          rwa [hindex]

end Items

/-! ## Patterns that are accepted -/

section Accepted

variable {incoming : Bool} {p : String} {added removed : Option (List Char)} {rest : List Char}

/-- Without a line break at the end every character is an allowed one. -/
theorem allowed_of_checked (h : Checked p.toList incoming) (hline : p.toList.getLast? ≠ some '\n') :
    p.toList ≠ [] ∧ ∀ c ∈ p.toList, c ∈ patternChars incoming := by
  have hall := h.allowed
  unfold pregMatchLine at hall
  rw [Bool.or_eq_true] at hall
  have hchars := hall.resolve_right fun hlast => hline (beq_iff_eq.1 (Bool.and_eq_true _ _ ▸ hlast).1)
  obtain ⟨hne, hall⟩ := Bool.and_eq_true_iff.1 hchars
  constructor
  · intro hnil
    rw [hnil] at hne
    cases hne
  · intro c hc
    exact List.contains_iff_mem.1 (List.all_eq_true.1 hall c hc)

/-- The items of the parts are items of the pattern. -/
theorem items_of_written {is : List Item} (h : Written p.toList added removed rest)
    (hdigits : ∀ x ∈ added, ∀ c ∈ x, (c.isDigit || c == '*' || c == '#') = true)
    (his : items p.toList = some is) (hpipe : ∀ cs, .set cs ∈ is → '|' ∉ cs) :
    ∃ ri vi, items (removed.getD []) = some ri ∧ items rest = some vi ∧ ∀ i ∈ ri ++ vi, i ∈ is := by
  obtain ⟨before, hbefore⟩ := items_after_added h hdigits
  rw [hbefore] at his
  obtain ⟨qi, hqi, rfl⟩ := Option.map_eq_some_iff.1 his
  cases removed with
  | none => exact ⟨[], qi, rfl, hqi, fun i hi => List.mem_append_right _ hi⟩
  | some x =>
    have htext : ((some x).map (· ++ ['|'])).getD [] ++ rest = x ++ '|' :: rest := by simp
    rw [htext] at hqi
    rcases itemsFrom_split (by decide) (by decide) hqi with ⟨ri, vi, hri, hvi, rfl⟩ | ⟨cs, hcs, hmem⟩
    · refine ⟨ri, vi, hri, hvi, fun i hi => List.mem_append_right _ ?_⟩
      rcases List.mem_append.1 hi with hi | hi
      · exact List.mem_append_left _ hi
      · exact List.mem_append_right _ (List.mem_cons_of_mem _ hi)
    · exact absurd hmem (hpipe cs (List.mem_append_right _ hcs))

/-- A well-formed pattern has what is not checked. -/
theorem unchecked_of_wellFormed (h : WellFormedPattern incoming p.toList added removed rest) :
    Unchecked p.toList := by
  obtain ⟨ri, hri, hrigood⟩ := h.removedItems
  obtain ⟨vi, hvi, hvigood⟩ := h.restItems
  constructor
  · obtain ⟨before, hbefore⟩ := items_after_added h.written fun x hx => (h.digits x hx).2
    -- the parts are read one by one, since `+` and `|` end no set
    have hafter : ∃ qi, items ((removed.map (· ++ ['|'])).getD [] ++ rest) = some qi ∧
        ∀ cs, .set cs ∈ qi → .set cs ∈ ri ∨ .set cs ∈ vi := by
      cases removed with
      | none => exact ⟨vi, hvi, fun cs hcs => .inr hcs⟩
      | some x =>
        have htext : ((some x).map (· ++ ['|'])).getD [] ++ rest = x ++ '|' :: rest := by simp
        have hpipe : items ('|' :: rest) = some (.char '|' :: vi) := by
          rw [items] at hvi
          rw [items, itemsFrom_cons_none, if_neg (by decide), hvi, Option.map_some]
        refine ⟨ri ++ .char '|' :: vi, ?_, ?_⟩
        · have hx : items x = some ri := hri
          rw [htext, items_append hx, hpipe, Option.map_some]
        · intro cs hcs
          simpa using hcs
    obtain ⟨qi, hqi, hsets⟩ := hafter
    refine ⟨before.map .char ++ qi, by rw [hbefore, hqi, Option.map_some], ?_⟩
    intro cs hcs
    have hcs : .set cs ∈ qi := by simpa using hcs
    rcases hsets cs hcs with hcs | hcs
    · exact (hrigood _ hcs).2
    · exact (hvigood _ hcs).2
  · have hline : '\n' ∉ rest := by
      intro hmem
      rcases mem_items_cases hvi hmem with heq | heq | hchar | ⟨cs, hcs, hmem⟩
      · cases heq
      · cases heq
      · have hallowed := (hvigood _ hchar).1
        revert hallowed
        cases incoming with
        | false => decide
        | true => decide
      · rcases digit_of_mem_digitsAndRanges (hvigood _ hcs).2 hmem with hdigit | heq
        · cases hdigit
        · cases heq
    -- the last character is one of the rest, which is not empty
    have hlast : p.toList.getLast? = rest.getLast? := by
      rw [h.written.text, List.getLast?_append_of_ne_nil _ h.nonempty]
    have hmem : ∀ c, p.toList.getLast? = some c → c ∈ rest := by
      intro c hc
      rw [hlast] at hc
      exact List.mem_of_getLast? hc
    exact ⟨fun hc => h.written.plus.2.2 (hmem _ hc), fun hc => h.written.pipe.2.2 (hmem _ hc),
      fun hc => hline (hmem _ hc)⟩

/-- A pattern that is accepted is well formed exactly if its brackets are closed, have digits and ranges
in them, and the last character is one to match. -/
theorem dialpattern_wellFormed_iff (haccepted : pbxIsValidDialpattern p incoming = none) :
    (∃ added removed rest, WellFormedPattern incoming p.toList added removed rest) ↔ Unchecked p.toList := by
  constructor
  · rintro ⟨added, removed, rest, h⟩
    exact unchecked_of_wellFormed h
  · rintro ⟨⟨is, his, hsets⟩, hplus, hpipe, hline⟩
    obtain ⟨added, removed, rest, hwritten, hdigits, hdot, hbang⟩ := written_of_accepted haccepted
    have hchecked := (checked_of_accepted haccepted).1
    obtain ⟨hne, hallowed⟩ := allowed_of_checked hchecked hline
    have hnopipe : ∀ cs, .set cs ∈ is → '|' ∉ cs := by
      intro cs hcs hmem
      rcases digit_of_mem_digitsAndRanges (hsets cs hcs) hmem with hdigit | heq
      · cases hdigit
      · cases heq
    obtain ⟨ri, vi, hri, hvi, hsub⟩ :=
      items_of_written hwritten (fun x hx => (hdigits x hx).2) his hnopipe
    obtain ⟨hchars, hlengths⟩ := items_of_bracketError (k := 0) his (by simp) hchecked.brackets
    -- signs are between the parts, and only there
    have hgood : ∀ i ∈ is, i ≠ .char '|' → i ≠ .char '+' → i.WellFormed incoming := by
      intro i hi hpipe hplus
      cases i with
      | set cs => exact ⟨hlengths cs hi, hsets cs hi⟩
      | char c =>
        refine ⟨hallowed c (char_mem_of_items his hi), ?_⟩
        have hbrackets := hchars c hi
        simp only [ne_eq, Item.char.injEq] at hpipe hplus
        simp [hbrackets.1, hbrackets.2, hpipe, hplus]
    refine ⟨added, removed, rest, hwritten, ?_, hdigits, ⟨hdot, hbang⟩, ?_, ⟨ri, hri, ?_⟩, ⟨vi, hvi, ?_⟩⟩
    · rintro rfl
      -- no sign is allowed in a pattern for incoming calls
      constructor
      · cases added with
        | none => rfl
        | some a =>
          have hmem : '+' ∈ p.toList := by
            rw [hwritten.text]
            simp
          exact absurd (hallowed '+' hmem) (by decide)
      · cases removed with
        | none => rfl
        | some x =>
          have hmem : '|' ∈ p.toList := by
            rw [hwritten.text]
            simp
          exact absurd (hallowed '|' hmem) (by decide)
    · rintro rfl
      have htext := hwritten.text
      rw [List.append_nil] at htext
      cases removed with
      | some x =>
        apply hpipe
        rw [htext]
        simp
      | none =>
        cases added with
        | some a =>
          apply hplus
          rw [htext]
          simp
        | none => exact hne htext
    · intro i hi
      apply hgood i (hsub i (List.mem_append_left _ hi))
      · rintro rfl
        exact hwritten.pipe.2.1 (char_mem_of_items hri hi)
      · rintro rfl
        exact hwritten.plus.2.1 (char_mem_of_items hri hi)
    · intro i hi
      apply hgood i (hsub i (List.mem_append_right _ hi))
      · rintro rfl
        exact hwritten.pipe.2.2 (char_mem_of_items hvi hi)
      · rintro rfl
        exact hwritten.plus.2.2 (char_mem_of_items hvi hi)

theorem dialpattern_wellFormed_range :
    (∃ added removed rest, WellFormedPattern false "0+9|[13-5]X.".toList added removed rest) ↔
      Unchecked "0+9|[13-5]X.".toList :=
  dialpattern_wellFormed_iff (by decide)

/-- A bracket that is left open is accepted. -/
theorem not_dialpattern_wellFormed :
    pbxIsValidDialpattern "[12" false = none ∧
      ¬ ∃ added removed rest, WellFormedPattern false "[12".toList added removed rest := by
  refine ⟨by decide, ?_⟩
  rintro ⟨added, removed, rest, h⟩
  obtain ⟨⟨is, his, -⟩, -⟩ := unchecked_of_wellFormed h
  have hnone : items "[12".toList = none := by decide
  rw [hnone] at his
  cases his

end Accepted

end Dialplan
end Askozia
