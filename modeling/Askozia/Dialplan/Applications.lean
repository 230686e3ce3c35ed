import Askozia.Dialplan.Conf
import Askozia.Pbx.Base64
import Askozia.Pbx.Forms
import Askozia.Text.Brackets
import Askozia.XmlParse.Normal
import Askozia.Asterisk.Options

/-!
# Applications that are typed in (`verify.inc`, `extensions.inc`)

The form of an application checks its lines, with `verify_match_parentheses` for the arguments of every
command, and stores them. The generator splits what is stored again.

* `verifyMatchParentheses_spec`: the matcher accepts the balanced texts and no others, and says where
  the first wrong bracket is.
* `application_runs`: the lines of a code that is accepted, blanks at their ends apart, are what is
  generated, once for all extensions and once for `s`, with the priorities 1, 2 and so on.
-/

namespace Askozia
namespace Dialplan

open Php Pbx Text XmlParse Asterisk

/-! ## Brackets -/

/-- The closing bracket of an opening one. -/
def closer : Char → Option Char
  | '(' => some ')'
  | '[' => some ']'
  | '\x7b' => some '\x7d'
  | _ => none

/-- The counters count what is on the stack. -/
structure Counted (b : Brackets) : Prop where
  round : b.rcounter = b.backtrace.count '('
  square : b.scounter = b.backtrace.count '['
  curly : b.ccounter = b.backtrace.count '\x7b'
  opening : ∀ c ∈ b.backtrace, c = '(' ∨ c = '[' ∨ c = '\x7b'

section Matcher

variable {b : Brackets} {c o : Char} {s : List Char}

/-- The brackets there are. -/
theorem closer_cases (h : closer o = some c) :
    (o = '(' ∧ c = ')') ∨ (o = '[' ∧ c = ']') ∨ (o = '\x7b' ∧ c = '\x7d') := by
  unfold closer at h
  split at h
  · exact .inl ⟨rfl, (Option.some.inj h).symm⟩
  · exact .inr (.inl ⟨rfl, (Option.some.inj h).symm⟩)
  · exact .inr (.inr ⟨rfl, (Option.some.inj h).symm⟩)
  · cases h

/-- No bracket that closes opens as well. -/
theorem closer_closing (h : closer o = some c) : closer c = none := by
  rcases closer_cases h with ⟨-, rfl⟩ | ⟨-, rfl⟩ | ⟨-, rfl⟩ <;> rfl

/-- The counters of a stack are not negative, so that the loop goes on. -/
theorem filter_of_counted (h : Counted b) :
    (some b).filter (fun b => 0 ≤ b.rcounter && 0 ≤ b.scounter && 0 ≤ b.ccounter) = some b := by
  have hround : 0 ≤ b.rcounter := by rw [h.round]; omega
  have hsquare : 0 ≤ b.scounter := by rw [h.square]; omega
  have hcurly : 0 ≤ b.ccounter := by rw [h.curly]; omega
  simp [hround, hsquare, hcurly]

/-- Any other character changes no counter. -/
theorem next_other (h : Counted b) (hc : closer c = none) (ho : ∀ o, closer o ≠ some c) :
    b.next c = some b := by
  have hround : c ≠ ')' := fun hc => ho '(' (by rw [hc]; rfl)
  have hsquare : c ≠ ']' := fun hc => ho '[' (by rw [hc]; rfl)
  have hcurly : c ≠ '\x7d' := fun hc => ho '\x7b' (by rw [hc]; rfl)
  unfold Brackets.next
  split
  · cases hc
  · exact absurd rfl hround
  · cases hc
  · exact absurd rfl hsquare
  · cases hc
  · exact absurd rfl hcurly
  · exact filter_of_counted h

/-- A bracket that opens is put on the stack. -/
theorem next_opening (h : Counted b) (ho : closer o = some c) :
    ∃ b', b.next o = some b' ∧ Counted b' ∧ b'.backtrace = o :: b.backtrace := by
  obtain ⟨round, square, curly, opening⟩ := h
  rcases closer_cases ho with ⟨rfl, -⟩ | ⟨rfl, -⟩ | ⟨rfl, -⟩
  · have hnext : Counted ({ b with rcounter := b.rcounter + 1 }.opened '(') := by
      constructor <;> simpa [Brackets.opened]
    exact ⟨_, filter_of_counted hnext, hnext, rfl⟩
  · have hnext : Counted ({ b with scounter := b.scounter + 1 }.opened '[') := by
      constructor <;> simpa [Brackets.opened]
    exact ⟨_, filter_of_counted hnext, hnext, rfl⟩
  · have hnext : Counted ({ b with ccounter := b.ccounter + 1 }.opened '\x7b') := by
      constructor <;> simpa [Brackets.opened]
    exact ⟨_, filter_of_counted hnext, hnext, rfl⟩

/-- A bracket that closes the innermost open one. -/
theorem next_closing (h : Counted b) (ho : closer o = some c) {st : List Char}
    (hst : b.backtrace = o :: st) :
    ∃ b', b.next c = some b' ∧ Counted b' ∧ b'.backtrace = st := by
  obtain ⟨r, s, cc, backtrace⟩ := b
  obtain rfl : backtrace = o :: st := hst
  obtain ⟨round, square, curly, opening⟩ := h
  dsimp only at round square curly opening
  have hopening : ∀ c ∈ st, c = '(' ∨ c = '[' ∨ c = '\x7b' :=
    fun c hc => opening c (List.mem_cons_of_mem _ hc)
  rcases closer_cases ho with ⟨rfl, rfl⟩ | ⟨rfl, rfl⟩ | ⟨rfl, rfl⟩
  · have hnext : Counted ⟨r - 1, s, cc, st⟩ := by
      refine ⟨?_, ?_, ?_, hopening⟩
      · simp [round]
      · simpa using square
      · simpa using curly
    exact ⟨_, filter_of_counted hnext, hnext, rfl⟩
  · have hnext : Counted ⟨r, s - 1, cc, st⟩ := by
      refine ⟨?_, ?_, ?_, hopening⟩
      · simpa using round
      · simp [square]
      · simpa using curly
    exact ⟨_, filter_of_counted hnext, hnext, rfl⟩
  · have hnext : Counted ⟨r, s, cc - 1, st⟩ := by
      refine ⟨?_, ?_, ?_, hopening⟩
      · simpa using round
      · simpa using square
      · simp [curly]
    exact ⟨_, filter_of_counted hnext, hnext, rfl⟩

/-- A bracket that does not close the innermost open one, or has none open. -/
theorem next_wrong (h : Counted b) (ho : closer o = some c)
    (hwrong : ∀ top ∈ b.backtrace.head?, closer top ≠ some c) : b.next c = none := by
  obtain ⟨r, s, cc, backtrace⟩ := b
  obtain ⟨round, square, curly, -⟩ := h
  dsimp only at round square curly hwrong
  cases backtrace with
  | nil =>
    simp only [List.count_nil, Int.ofNat_zero] at round square curly
    subst round square curly
    rcases closer_cases ho with ⟨-, rfl⟩ | ⟨-, rfl⟩ | ⟨-, rfl⟩ <;> rfl
  | cons top st =>
    have htop := hwrong top rfl
    have hne : top ≠ o := fun hc => htop (by rw [hc, ho])
    rcases closer_cases ho with ⟨rfl, rfl⟩ | ⟨rfl, rfl⟩ | ⟨rfl, rfl⟩
    all_goals
      simp only [Brackets.next, Brackets.closed, if_neg hne]
      rfl

/-! ## The whole text -/

/-- At the end nothing is open exactly if the counters are zero. -/
theorem counters_eq_zero_iff (h : Counted b) :
    (b.rcounter = 0 ∧ b.scounter = 0 ∧ b.ccounter = 0) ↔ b.backtrace = [] := by
  rw [h.round, h.square, h.curly]
  constructor
  · rintro ⟨hround, hsquare, hcurly⟩
    apply List.eq_nil_iff_forall_not_mem.2
    intro c hc
    have hpos := List.count_pos_iff.2 hc
    rcases h.opening c hc with rfl | rfl | rfl <;> omega
  · intro hnil
    rw [hnil]
    exact ⟨rfl, rfl, rfl⟩

/-- From any stack on: the text is read to its end, or up to the first wrong bracket. -/
theorem verifyMatchParentheses_cases (s : List Char) (i : ℕ) (h : Counted b) :
    (∃ st, Reads closer s b.backtrace st ∧
      verifyMatchParentheses s i b = if st = [] then none else some (i + s.length + 1)) ∨
    ∃ p c r st, s = p ++ c :: r ∧ Reads closer p b.backtrace st ∧ closer c = none ∧
      (∃ o, closer o = some c) ∧ (∀ o ∈ st.head?, closer o ≠ some c) ∧
      verifyMatchParentheses s i b = some (i + p.length + 1) := by
  induction s generalizing i b with
  | nil =>
    left
    refine ⟨b.backtrace, .nil _, ?_⟩
    unfold verifyMatchParentheses
    simp only [counters_eq_zero_iff h, List.length_nil, Nat.add_zero]
  | cons c r ih =>
    -- what `c` is decides what becomes of the stack
    have hgo : ∀ b', b.next c = some b' → Counted b' →
        (∀ s st, Reads closer s b'.backtrace st → Reads closer (c :: s) b.backtrace st) →
        (∃ st, Reads closer (c :: r) b.backtrace st ∧ verifyMatchParentheses (c :: r) i b =
          if st = [] then none else some (i + (c :: r).length + 1)) ∨
        ∃ p d q st, c :: r = p ++ d :: q ∧ Reads closer p b.backtrace st ∧ closer d = none ∧
          (∃ o, closer o = some d) ∧ (∀ o ∈ st.head?, closer o ≠ some d) ∧
          verifyMatchParentheses (c :: r) i b = some (i + p.length + 1) := by
      intro b' hnext hcounted hreads
      have hstep : verifyMatchParentheses (c :: r) i b = verifyMatchParentheses r (i + 1) b' := by
        rw [verifyMatchParentheses, hnext]
      rcases ih (i + 1) hcounted with ⟨st, hst, heq⟩ | ⟨p, d, q, st, rfl, hp, hd, ho, hwrong, heq⟩
      · left
        refine ⟨st, hreads r st hst, ?_⟩
        rw [hstep, heq, List.length_cons]
        congr 2
        omega
      · right
        refine ⟨c :: p, d, q, st, rfl, hreads p st hp, hd, ho, hwrong, ?_⟩
        rw [hstep, heq, List.length_cons]
        congr 1
        omega
    cases hc : closer c with
    | some d =>
      obtain ⟨b', hnext, hcounted, hst⟩ := next_opening h hc
      apply hgo b' hnext hcounted
      intro s st hs
      rw [hst] at hs
      exact .opening hc hs
    | none =>
      by_cases hclosing : ∃ o, closer o = some c
      · obtain ⟨o, ho⟩ := hclosing
        by_cases hwrong : ∀ top ∈ b.backtrace.head?, closer top ≠ some c
        · right
          refine ⟨[], c, r, b.backtrace, rfl, .nil _, hc, ⟨o, ho⟩, hwrong, ?_⟩
          rw [verifyMatchParentheses, next_wrong h ho hwrong]
          rfl
        · push Not at hwrong
          obtain ⟨top, htop, hcloses⟩ := hwrong
          obtain ⟨st₀, hst₀⟩ := List.head?_eq_some_iff.1 htop
          obtain ⟨b', hnext, hcounted, hst⟩ := next_closing h hcloses hst₀
          apply hgo b' hnext hcounted
          intro s st hs
          rw [hst] at hs
          rw [hst₀]
          exact .closing hc hcloses hs
      · have hother : ∀ o, closer o ≠ some c := fun o ho => hclosing ⟨o, ho⟩
        exact hgo b (next_other h hc hother) h fun s st hs => .other hc hother hs

/-- At the start nothing is open. -/
theorem counted_start : Counted ⟨0, 0, 0, []⟩ :=
  ⟨rfl, rfl, rfl, fun _ hc => by cases hc⟩

/-- The matcher says that a text is balanced exactly if it is. Otherwise it gives the position of the
first closing bracket that does not match the innermost open one, and if there is none, the position
after the end. -/
theorem verifyMatchParentheses_spec (s : List Char) :
    (verifyMatchParentheses s 0 ⟨0, 0, 0, []⟩ = none ↔ Balanced closer s) ∧
    (∀ p, WrongAt closer s p → verifyMatchParentheses s 0 ⟨0, 0, 0, []⟩ = some (p.length + 1)) ∧
    (¬ Balanced closer s → (∀ p, ¬ WrongAt closer s p) →
      verifyMatchParentheses s 0 ⟨0, 0, 0, []⟩ = some (s.length + 1)) := by
  have hbalanced : Balanced closer s ↔ Reads closer s [] [] :=
    balanced_iff_reads fun _ _ => closer_closing
  -- the scan reaches the end, or stops at the first wrong bracket
  rcases verifyMatchParentheses_cases s 0 counted_start with
    ⟨st, hst, heq⟩ | ⟨p, c, r, st, hs, hp, hc, ho, hwrong, heq⟩
  · have hnone := not_wrongAt_of_reads hst
    refine ⟨?_, fun p hp => absurd hp (hnone p), ?_⟩
    · rw [heq, hbalanced]
      constructor
      · intro hif
        split_ifs at hif with hnil
        rwa [hnil] at hst
      · intro hread
        rw [if_pos (hst.unique hread)]
    · intro hnot _
      rw [heq, if_neg fun hnil => hnot (hbalanced.2 (by rwa [hnil] at hst)), Nat.zero_add]
  · have hat : WrongAt closer s p := ⟨c, r, st, hs, hp, hc, ho, hwrong⟩
    refine ⟨?_, ?_, fun _ hnone => absurd hat (hnone p)⟩
    · rw [heq]
      refine ⟨fun hnone => (Option.some_ne_none _ hnone).elim, fun hread => ?_⟩
      exact absurd hat (not_wrongAt_of_reads (hbalanced.1 hread) p)
    · -- there is only one place with a first wrong bracket
      intro p' hat'
      have hle := hat.length_le hat'
      have hge := hat'.length_le hat
      rw [heq]
      congr 1
      omega

end Matcher

/-! ## Stored logic -/

section Base64

/-- Encoded bytes are read back from the configuration as they are. -/
theorem normText_base64Encode (s : String) : normText (base64Encode s) = base64Encode s := by
  apply normText_of_plain
  exact forall_mem_base64Encode (by decide) (by decide) s

end Base64

/-! ## The lines of a code -/

/-- A PHP string. -/
structure Bytes where
  bytes : List UInt8
  short : bytes.length < 2 ^ 31

/-- A byte is a character. -/
def Bytes.text (b : Bytes) : String := String.ofList (b.bytes.map fun x => Char.ofNat x.toNat)

/-- Every CR is part of a line end CR LF. -/
def CrBeforeLf (s : List Char) : Prop :=
  ∀ r ∈ s.tails, r.head? = some '\r' → r[1]? = some '\n'

instance (s : List Char) : Decidable (CrBeforeLf s) := List.decidableBAll _ _

/-- The lines of a text, without their ends. -/
def linesOf (s : List Char) : List (List Char) :=
  (explodeChars '\n' s).map fun l => if l.getLast? = some '\r' then l.dropLast else l

/-- The lines that are not empty, without blanks at their ends. -/
def cleanLines (s : String) : List String :=
  ((linesOf s.toList).filter fun l => !l.isEmpty).map fun l => trim (String.ofList l) " "

section Lines

variable {s : List Char}

/-- What holds of a text holds of the rest of it. -/
theorem CrBeforeLf.tail {c : Char} (h : CrBeforeLf (c :: s)) : CrBeforeLf s :=
  fun r hr => h r (by rw [List.tails_cons]; exact List.mem_cons_of_mem _ hr)

/-- A character other than an end of line belongs to the first line. -/
theorem explodeChars_cons_of_ne {c : Char} (h : c ≠ '\n') : ∃ p ps,
    explodeChars '\n' s = p :: ps ∧ explodeChars '\n' (c :: s) = (c :: p) :: ps := by
  cases hs : explodeChars '\n' s with
  | nil => exact absurd hs (explodeChars_ne_nil _ _)
  | cons p ps => exact ⟨p, ps, rfl, by rw [explodeChars, if_neg h, hs]⟩

/-- Line ends are made the same before the text is split. -/
theorem explodeChars_unixLines (h : CrBeforeLf s) : explodeChars '\n' (unixLines s) = linesOf s := by
  unfold linesOf
  -- along the replacement, which takes two characters at a line end
  fun_induction unixLines s with
  | case1 r ih =>
    obtain ⟨p, ps, hp, hcons⟩ := explodeChars_cons_of_ne (s := '\n' :: r) (c := '\r') (by decide)
    rw [explodeChars, if_pos rfl] at hp
    obtain ⟨rfl, rfl⟩ := List.cons.inj hp
    rw [explodeChars, if_pos rfl, hcons, ih h.tail.tail, List.map_cons]
    rfl
  | case2 c r hnot ih =>
    by_cases hc : c = '\n'
    · subst hc
      rw [explodeChars, if_pos rfl, explodeChars, if_pos rfl, ih h.tail, List.map_cons]
      rfl
    · obtain ⟨p, ps, hp, hcons⟩ := explodeChars_cons_of_ne (s := r) hc
      obtain ⟨p', ps', hp', hcons'⟩ := explodeChars_cons_of_ne (s := unixLines r) hc
      have hr := ih h.tail
      rw [hp, hp', List.map_cons] at hr
      obtain ⟨hfirst, hrest⟩ := List.cons.inj hr
      rw [hcons, hcons', List.map_cons, ← hrest, hfirst]
      congr 1
      cases p with
      | nil =>
        have hcr : c ≠ '\r' := by
          rintro rfl
          have hhead := h ('\r' :: r) (by rw [List.tails_cons]; exact List.mem_cons_self) rfl
          cases r with
          | nil => cases hhead
          | cons d r => exact hnot r rfl (by rw [← Option.some.inj hhead])
        simp [hcr]
      | cons d p =>
        rw [List.getLast?_cons_cons, List.dropLast_cons_of_ne_nil (List.cons_ne_nil d p)]
        split_ifs <;> rfl
  | case3 => rfl

/-- The pieces are the lines that are not empty. -/
theorem pieces_eq_filter (s : List Char) :
    pieces (fun c => c == '\n') s = (explodeChars '\n' s).filter fun l => !l.isEmpty := by
  induction s with
  | nil => rfl
  | cons c r ih =>
    unfold pieces
    by_cases hc : c = '\n'
    · rw [if_pos (by rw [hc]; rfl), ih, explodeChars, if_pos hc]
      rfl
    · obtain ⟨p, ps, hp, hcons⟩ := explodeChars_cons_of_ne (s := r) hc
      rw [if_neg (by simpa using hc), hcons, ih, hp]
      cases r with
      | nil =>
        rw [explodeChars] at hp
        obtain ⟨rfl, rfl⟩ := List.cons.inj hp
        rfl
      | cons d r =>
        by_cases hd : d = '\n'
        · rw [explodeChars, if_pos hd] at hp
          obtain ⟨rfl, rfl⟩ := List.cons.inj hp
          simp [hd]
        · obtain ⟨q, qs, -, hcons'⟩ := explodeChars_cons_of_ne (s := r) hd
          rw [hcons'] at hp
          obtain ⟨rfl, rfl⟩ := List.cons.inj hp
          simp [hd]

end Lines

/-! ## Numbering -/

/-- The priority of a step, given the one before it. -/
def priorityAfter (previous : ℕ) (line : String) : Option ℕ :=
  let text := line.toList.takeWhile fun c => c != ',' && c != '('
  if text = ['n'] then some (previous + 1)
  else if text ≠ [] ∧ text.all Char.isDigit = true then some (Val.digitsValue text)
  else none

/-- The priorities of some steps, after a priority. -/
def priorities : ℕ → List String → Option (List ℕ)
  | _, [] => some []
  | previous, line :: r => do
    let priority ← priorityAfter previous line
    let rest ← priorities priority r
    return priority :: rest

section Numbering

variable {line : List Char} {priority command : List Char}

/-- A priority is a number or one of the letters that may stand for it. -/
theorem priorityOf_cases {r : List Char} (h : priorityOf line = some (priority, r)) :
    line = priority ++ r ∧ ((priority ≠ [] ∧ ∀ c ∈ priority, c.isDigit = true) ∨
      ∃ c, priority = [c] ∧ "nish".toList.contains c.toLower = true) := by
  unfold priorityOf at h
  dsimp only at h
  split_ifs at h with hdigits
  · obtain ⟨rfl, rfl⟩ := Prod.mk.inj (Option.some.inj h)
    exact ⟨(List.prefix_iff_eq_append.1 (List.takeWhile_prefix _)).symm,
      .inl ⟨hdigits, fun c hc => List.mem_takeWhile_imp hc⟩⟩
  · split at h
    · next c r' =>
      split_ifs at h with hletter
      obtain ⟨rfl, rfl⟩ := Prod.mk.inj (Option.some.inj h)
      exact ⟨rfl, .inr ⟨c, rfl, hletter⟩⟩
    · cases h

/-- What stands before the first comma or bracket of a rule is its priority. -/
theorem takeWhile_of_ruleOf (h : ruleOf line = some (priority, command)) :
    line.takeWhile (fun c => c != ',' && c != '(') = priority ∧
      ((priority ≠ [] ∧ ∀ c ∈ priority, c.isDigit = true) ∨
        ∃ c, priority = [c] ∧ "nish".toList.contains c.toLower = true) := by
  unfold ruleOf at h
  obtain ⟨⟨p, r⟩, hpriority, h⟩ := Option.bind_eq_some_iff.1 h
  obtain ⟨r', hlabel, h⟩ := Option.bind_eq_some_iff.1 h
  -- what follows the priority is a label in brackets or the comma
  have hstop : r.takeWhile (fun c => c != ',' && c != '(') = [] := by
    unfold afterLabel at hlabel
    split at hlabel
    · rfl
    · obtain rfl := Option.some.inj hlabel
      split at h
      · rfl
      · cases h
  have hp : p = priority := by
    split at h
    · obtain ⟨cmd, -, h⟩ := Option.bind_eq_some_iff.1 h
      exact congrArg Prod.fst (Option.some.inj h)
    · cases h
  subst hp
  obtain ⟨rfl, hcases⟩ := priorityOf_cases hpriority
  refine ⟨?_, hcases⟩
  have hall : ∀ c ∈ p, (c != ',' && c != '(') = true := by
    rcases hcases with ⟨-, hdigits⟩ | ⟨c, rfl, hletter⟩
    · intro c hc
      have hdigit := hdigits c hc
      rw [Bool.and_eq_true, bne_iff_ne, bne_iff_ne]
      constructor
      · rintro rfl
        cases hdigit
      · rintro rfl
        cases hdigit
    · intro d hd
      rw [List.mem_singleton.1 hd, Bool.and_eq_true, bne_iff_ne, bne_iff_ne]
      constructor
      · rintro rfl
        cases hletter
      · rintro rfl
        cases hletter
  rw [List.takeWhile_append_of_pos hall, hstop, List.append_nil]

/-- A letter of a priority is no number. -/
theorem toNumber_of_letter {c : Char} (h : "nish".toList.contains c.toLower = true) :
    toNumber (String.ofList [c]) = 0 := by
  have hne : ∀ d : Char, "nish".toList.contains d.toLower = false → c ≠ d := by
    intro d hd heq
    rw [heq, hd] at h
    cases h
  have hdigit : c.isDigit = false := by
    by_contra hc
    rw [Bool.not_eq_false] at hc
    have hascii : c.toNat < 128 := by
      apply Xml.lt_of_isNameChar
      simp [Xml.isNameChar, Char.isAlphanum, hc]
    have hnot := forall_ascii (p := fun c => c.isDigit = true → "nish".toList.contains c.toLower = false)
      (by decide) hascii hc
    rw [hnot] at h
    cases h
  -- the letter is none of the characters that a number may start with
  have hspace : c.isWhitespace = false := by
    simp [Char.isWhitespace, hne ' ' rfl, hne '\t' rfl, hne '\r' rfl, hne '\n' rfl]
  have hsign : scanSign [c] = (1, [c]) := by
    unfold scanSign
    split
    · next heq => exact absurd (List.cons.inj heq).1 (hne '-' rfl)
    · next heq => exact absurd (List.cons.inj heq).1 (hne '+' rfl)
    · rfl
  have hscan : scanNumber [c] = none := by
    unfold scanNumber
    rw [List.dropWhile_cons, hspace]
    simp only [Bool.false_eq_true, if_false, hsign, List.takeWhile_cons, List.dropWhile_cons, hdigit]
    split
    · next heq => exact absurd (List.cons.inj heq).1 (hne '.' rfl)
    · rw [if_pos ⟨trivial, rfl⟩]
  have hhex : hexNumber? [c] = none := by
    unfold hexNumber?
    split
    · next heq => cases heq
    · rfl
  rw [toNumber, String.toList_ofList, hhex, hscan]
  rfl

/-- A priority that is accepted is the next one. -/
theorem priorityAfter_of_accepted {line : String} {index : ℕ} (hindex : index < 2 ^ 31)
    {priority command : List Char} (hrule : ruleOf line.toList = some (priority, command))
    (hn : priority = ['n'] ∨
      (Val.str (String.ofList priority)).looseEq (.int (index + 1 : ℕ)) = true) :
    priorityAfter index line = some (index + 1) := by
  obtain ⟨htake, hcases⟩ := takeWhile_of_ruleOf hrule
  unfold priorityAfter
  rw [htake]
  dsimp only
  split_ifs with hletter hdigits
  · rfl
  · have hequal := hn.resolve_left hletter
    have hall := List.all_eq_true.1 hdigits.2
    rw [Val.looseEq, toNumber_of_digits hdigits.1 hall, beq_iff_eq] at hequal
    have hvalue : Val.digitsValue priority = index + 1 :=
      eq_of_double_eq (by omega) (by exact_mod_cast hequal)
    rw [hvalue]
  · have hequal := hn.resolve_left hletter
    rcases hcases with ⟨hne, hall⟩ | ⟨c, rfl, hc⟩
    · exact absurd ⟨hne, List.all_eq_true.2 hall⟩ hdigits
    · rw [Val.looseEq, toNumber_of_letter hc, beq_iff_eq] at hequal
      have hzero : (index + 1 : ℚ) = 0 := by
        rw [hequal]
        push_cast
        rfl
      have hpos : (0 : ℚ) < index + 1 := by positivity
      exact absurd hzero hpos.ne'

/-- The lines of an application that are steps, if there is no error. -/
theorem priorities_of_foldl {lines : List String} {index k : ℕ} {errors : List String}
    (hshort : index + lines.length ≤ 2 ^ 31)
    (h : ((lines.zipIdx k).foldl checkLine (errors, index)).1 = []) :
    errors = [] ∧ priorities index (lines.filter (!isInclude ·)) =
      some (List.range' (index + 1) (lines.filter (!isInclude ·)).length) := by
  -- no error in the end means none at any line, so each step gives its priority
  induction lines generalizing index k errors with
  | nil => exact ⟨h, rfl⟩
  | cons line r ih =>
    rw [List.zipIdx_cons, List.foldl_cons] at h
    rw [List.length_cons] at hshort
    -- an include is no step and does not count
    by_cases hinclude : isInclude line = true
    · have hskip : checkLine (errors, index) (line, k) = (errors, index) := by
        unfold checkLine
        exact if_pos hinclude
      rw [hskip] at h
      obtain ⟨herrors, hrest⟩ := ih (by omega) h
      rw [List.filter_cons_of_neg (by simp [hinclude])]
      exact ⟨herrors, hrest⟩
    · rw [List.filter_cons_of_pos (by simpa using hinclude)]
      unfold checkLine at h
      dsimp only at h
      rw [if_neg hinclude] at h
      cases hrule : ruleOf line.toList with
      | none =>
        rw [hrule] at h
        obtain ⟨herrors, -⟩ := ih (by omega) h
        exact absurd herrors (by simp)
      | some rule =>
        obtain ⟨priority, command⟩ := rule
        rw [hrule] at h
        obtain ⟨herrors, hrest⟩ := ih (by omega) h
        simp only [List.append_eq_nil_iff] at herrors
        obtain ⟨⟨herrors, -⟩, hnumbering⟩ := herrors
        refine ⟨herrors, ?_⟩
        have hnext : priorityAfter index line = some (index + 1) := by
          apply priorityAfter_of_accepted (by omega) hrule
          split_ifs at hnumbering with hn hfirst hequal
          · exact .inl hn
          · exact .inr hequal
        rw [priorities, hnext, Option.bind_eq_bind, Option.bind_some, hrest, List.length_cons,
          List.range'_succ]
        rfl

end Numbering

/-! ## Applications that are accepted -/

section Accepted

/-- Errors are reported in order. -/
theorem foldl_fail (f : Form) (errors : List String) :
    (errors.foldl Form.fail f).errors = f.errors ++ errors := by
  induction errors generalizing f with
  | nil => rw [List.foldl_nil, List.append_nil]
  | cons e r ih =>
    rw [List.foldl_cons, ih, Form.fail, List.append_assoc]
    rfl

/-- What the form stores and reports for a code that is typed in. -/
theorem vApplicationlogic_plaintext (phpparsecheck : String → Option String) {f : Form} {code : String}
    (htype : f.post.get "type" = .str "plaintext") (hcode : f.post.get "code" = .str code)
    (hends : CrBeforeLf code.toList) :
    (vApplicationlogic phpparsecheck f).errors = f.errors ++ checkLines (cleanLines code) ∧
    (vApplicationlogic phpparsecheck f).element.get "applicationlogic" =
      .str (base64Encode (implode "\n" (cleanLines code))) := by
  have hlines : ((Pbx.pieces (fun c => c == '\n') (unixLines code.toList)).map fun l =>
      trim (String.ofList l) " ") = cleanLines code := by
    rw [cleanLines, pieces_eq_filter, explodeChars_unixLines hends]
  have hphp : (Val.str "plaintext").looseEq (.str "php") = false := by decide
  have hplain : (Val.str "plaintext").looseEq (.str "plaintext") = true := by decide
  unfold vApplicationlogic
  rw [htype, hcode]
  simp only [hphp, hplain, Bool.false_eq_true, if_true, if_false, Val.toStr, hlines]
  constructor
  · exact foldl_fail f _
  · exact Val.idx_set_self _ _ _

/-- A text of bytes. -/
theorem toNat_lt_of_mem_text {code : Bytes} {c : Char} (h : c ∈ code.text.toList) : c.toNat < 256 := by
  rw [Bytes.text, String.toList_ofList] at h
  obtain ⟨b, -, rfl⟩ := List.mem_map.1 h
  have hlt := b.toNat_lt
  have hvalid : b.toNat.isValidChar := .inl (by omega)
  have heq : (Char.ofNat b.toNat).toNat = b.toNat := by
    unfold Char.ofNat
    rw [dif_pos hvalid]
    rfl
  omega

/-- Splitting adds no characters. -/
theorem mem_of_mem_explodeChars {sep c : Char} {s l : List Char} (h : l ∈ explodeChars sep s)
    (hc : c ∈ l) : c ∈ s := by
  induction s generalizing l with
  | nil =>
    rw [explodeChars, List.mem_singleton] at h
    rwa [h] at hc
  | cons d r ih =>
    rw [explodeChars] at h
    split_ifs at h with hd
    · rcases List.mem_cons.1 h with rfl | h
      · cases hc
      · exact List.mem_cons_of_mem _ (ih h hc)
    · cases hr : explodeChars sep r with
      | nil => exact absurd hr (explodeChars_ne_nil sep r)
      | cons p ps =>
        rw [hr] at h ih
        rcases List.mem_cons.1 h with rfl | h
        · rcases List.mem_cons.1 hc with rfl | hc
          · exact List.mem_cons_self
          · exact List.mem_cons_of_mem _ (ih List.mem_cons_self hc)
        · exact List.mem_cons_of_mem _ (ih (List.mem_cons_of_mem _ h) hc)

/-- There are at most as many pieces as characters, and one more. -/
theorem length_explodeChars_le (sep : Char) (s : List Char) :
    (explodeChars sep s).length ≤ s.length + 1 := by
  induction s with
  | nil => exact Nat.le_refl 1
  | cons d r ih =>
    rw [explodeChars]
    split_ifs
    · rw [List.length_cons, List.length_cons]
      omega
    · cases hr : explodeChars sep r with
      | nil => exact absurd hr (explodeChars_ne_nil sep r)
      | cons p ps =>
        rw [hr] at ih
        rw [List.length_cons] at ih ⊢
        rw [List.length_cons]
        omega

/-- What is known of a line. -/
theorem mem_cleanLines {s l : String} (h : l ∈ cleanLines s) :
    (∀ c ∈ l.toList, c ∈ s.toList) ∧ '\n' ∉ l.toList := by
  obtain ⟨u, hu, rfl⟩ := List.mem_map.1 h
  obtain ⟨v, hv, huv⟩ := List.mem_map.1 (List.mem_filter.1 hu).1
  have hsub : ∀ c ∈ (trim (String.ofList u) " ").toList, c ∈ v := by
    intro c hc
    rw [trim_toList, String.toList_ofList] at hc
    have hmem := mem_of_mem_trimChars hc
    rw [← huv] at hmem
    split_ifs at hmem
    · rw [String.toList_ofList] at hmem
      exact List.mem_of_mem_dropLast hmem
    · rwa [String.toList_ofList] at hmem
  exact ⟨fun c hc => mem_of_mem_explodeChars hv (hsub c hc),
    fun hc => not_mem_of_mem_explodeChars hv (hsub _ hc)⟩

/-- The same of the lines that are left after cleaning. -/
theorem length_cleanLines_le (s : String) : (cleanLines s).length ≤ s.toList.length + 1 := by
  have hle := length_explodeChars_le '\n' s.toList
  have hfilter := List.length_filter_le (fun l => !l.isEmpty) (linesOf s.toList)
  rw [cleanLines, List.length_map]
  rw [linesOf, List.length_map] at hfilter
  exact hfilter.trans hle

/-- Joining lines adds ends of line only. -/
theorem mem_implode {lines : List String} {c : Char} (h : c ∈ (implode "\n" lines).toList) :
    c = '\n' ∨ ∃ l ∈ lines, c ∈ l.toList := by
  induction lines with
  | nil => cases h
  | cons l r ih =>
    cases r with
    | nil => exact .inr ⟨l, List.mem_cons_self, h⟩
    | cons d r =>
      rw [implode, String.toList_append, String.toList_append, List.mem_append, List.mem_append] at h
      · rcases h with (h | h) | h
        · exact .inr ⟨l, List.mem_cons_self, h⟩
        · exact .inl (List.mem_singleton.1 h)
        · rcases ih h with h | ⟨m, hm, h⟩
          · exact .inl h
          · exact .inr ⟨m, List.mem_cons_of_mem _ hm, h⟩
      · exact List.cons_ne_nil d r

/-- What is generated from the lines of an application. -/
theorem generateApplicationContext2_plaintext {a : Val} {lines : List String}
    (htype : a.get "type" = .str "plaintext")
    (hlines : explode '\n' (base64Decode (a.get "applicationlogic").toStr) = lines) :
    generateApplicationContext2 a =
      [.other ("; " ++ (a.get "name").toStr), .context (a.get "uniqid").toStr] ++
        (lines.filter isInclude).map .other ++
        (lines.filter (!isInclude ·)).map (.exten "_[0-9a-zA-Z*#]!") ++
        (lines.filter (!isInclude ·)).map (.exten "s") := by
  have hphp : is (.str "plaintext") "php" = false := by decide
  have hplain : is (.str "plaintext") "plaintext" = true := by decide
  unfold generateApplicationContext2
  simp only [htype, hphp, hplain, hlines, Bool.false_eq_true, if_false, if_true]
  rfl

/-- What is stored is read back, decoded and split into the lines it was made of. -/
theorem explode_stored (phpparsecheck : String → Option String) {f : Form} {code : Bytes} {stored : String}
    (htype : f.post.get "type" = .str "plaintext") (hcode : f.post.get "code" = .str code.text)
    (hends : CrBeforeLf code.text.toList)
    (hstored : (vApplicationlogic phpparsecheck f).element.get "applicationlogic" = .str stored) :
    explode '\n' (base64Decode (normText stored)) =
      if cleanLines code.text = [] then [""] else cleanLines code.text := by
  obtain ⟨-, helement⟩ := vApplicationlogic_plaintext phpparsecheck htype hcode hends
  have hbytes : ∀ c ∈ (implode "\n" (cleanLines code.text)).toList, c.toNat < 256 := by
    intro c hc
    rcases mem_implode hc with rfl | ⟨l, hl, hc⟩
    · decide
    · exact toNat_lt_of_mem_text ((mem_cleanLines hl).1 c hc)
  rw [helement] at hstored
  rw [← Val.str.inj hstored, normText_base64Encode, base64Decode_encode hbytes]
  split_ifs with hlines
  · rw [hlines]
    rfl
  · exact explode_implode rfl hlines fun l hl => (mem_cleanLines hl).2

/-- The lines that are accepted have no errors, and there are not too many to be counted. -/
theorem checkLines_of_accepted (phpparsecheck : String → Option String) {f : Form} {code : Bytes}
    (htype : f.post.get "type" = .str "plaintext") (hcode : f.post.get "code" = .str code.text)
    (hends : CrBeforeLf code.text.toList)
    (haccepted : (vApplicationlogic phpparsecheck f).errors = f.errors) :
    checkLines (cleanLines code.text) = [] ∧ (cleanLines code.text).length ≤ 2 ^ 31 := by
  obtain ⟨herrors, -⟩ := vApplicationlogic_plaintext phpparsecheck htype hcode hends
  constructor
  · rw [haccepted] at herrors
    exact List.self_eq_append_right.1 herrors
  · have hle := length_cleanLines_le code.text
    have hlen : code.text.toList.length = code.bytes.length := by
      rw [Bytes.text, String.toList_ofList, List.length_map]
    have hlt := code.short
    omega

/-- The code of an application that is accepted, read back and generated: the inclusions, and the
other lines in two blocks with the priorities 1, 2 and so on. -/
theorem application_runs (phpparsecheck : String → Option String) {f : Form} {code : Bytes} {a : Val}
    {stored : String} (htype : f.post.get "type" = .str "plaintext")
    (hcode : f.post.get "code" = .str code.text) (hends : CrBeforeLf code.text.toList)
    (hstep : ∃ l ∈ cleanLines code.text, isInclude l = false)
    (haccepted : (vApplicationlogic phpparsecheck f).errors = f.errors)
    (hstored : (vApplicationlogic phpparsecheck f).element.get "applicationlogic" = .str stored)
    (hatype : a.get "type" = .str "plaintext")
    (hlogic : a.get "applicationlogic" = .str (normText stored)) :
    generateApplicationContext2 a =
      [.other ("; " ++ (a.get "name").toStr), .context (a.get "uniqid").toStr] ++
        ((cleanLines code.text).filter isInclude).map .other ++
        ((cleanLines code.text).filter (!isInclude ·)).map (.exten "_[0-9a-zA-Z*#]!") ++
        ((cleanLines code.text).filter (!isInclude ·)).map (.exten "s") ∧
    priorities 0 ((cleanLines code.text).filter (!isInclude ·)) =
      some (List.range' 1 ((cleanLines code.text).filter (!isInclude ·)).length) := by
  obtain ⟨hnone, hshort⟩ := checkLines_of_accepted phpparsecheck htype hcode hends haccepted
  have hlines : cleanLines code.text ≠ [] := by
    obtain ⟨l, hl, -⟩ := hstep
    exact List.ne_nil_of_mem hl
  -- what was stored decodes into the lines that were checked
  have hread : explode '\n' (base64Decode (a.get "applicationlogic").toStr) = cleanLines code.text := by
    have hsplit := explode_stored phpparsecheck htype hcode hends hstored
    rw [if_neg hlines] at hsplit
    rw [hlogic, Val.toStr, hsplit]
  constructor
  · exact generateApplicationContext2_plaintext hatype hread
  · rw [← Nat.zero_add (cleanLines code.text).length] at hshort
    have hpriorities := (priorities_of_foldl hshort hnone).2
    simpa only [Nat.zero_add] using hpriorities

/-- An application with an inclusion, a label and line ends of both kinds. -/
def greeting : Bytes :=
  ⟨"include => park\r\n1(top),Answer()\n  n,Wait(1)\r\n3,Hangup()".toList.map
    fun c => UInt8.ofNat c.toNat, by decide⟩

theorem cleanLines_greeting : cleanLines greeting.text =
    ["include => park", "1(top),Answer()", "n,Wait(1)", "3,Hangup()"] := by
  decide

/-- A step with the next number is accepted. -/
theorem checkLine_of_number {line : String} {errors : List String} {index k : ℕ}
    {priority command : List Char} (hindex : index < 2 ^ 31) (hinclude : isInclude line = false)
    (hrule : ruleOf line.toList = some (priority, command))
    (hmatch : verifyMatchParentheses command 0 ⟨0, 0, 0, []⟩ = none) (hne : priority ≠ [])
    (hdigits : ∀ c ∈ priority, c.isDigit = true) (hvalue : Val.digitsValue priority = index + 1) :
    checkLine (errors, index) (line, k) = (errors, index + 1) := by
  have hequal : (Val.str (String.ofList priority)).looseEq (.int (index + 1 : ℕ)) = true := by
    rw [Val.looseEq, toNumber_of_digits hne hdigits, hvalue, double_natCast (by omega), beq_iff_eq]
    push_cast
    rfl
  have hletter : priority ≠ ['n'] := by
    rintro rfl
    exact absurd (hdigits 'n' List.mem_cons_self) (by decide)
  unfold checkLine
  simp only [hinclude, hrule, hmatch, hletter, hequal, Bool.false_eq_true, if_false, if_true,
    List.append_nil]

theorem checkLines_greeting : checkLines
    ["include => park", "1(top),Answer()", "n,Wait(1)", "3,Hangup()"] = [] := by
  have hinclude : checkLine ([], 0) ("include => park", 0) = ([], 0) := by decide
  have hfirst : checkLine ([], 0) ("1(top),Answer()", 1) = ([], 1) :=
    checkLine_of_number (by omega) (by decide)
      (show ruleOf "1(top),Answer()".toList = some (['1'], "Answer()".toList) by decide)
      (by decide) (by decide) (by decide) (by decide)
  have hnext : checkLine ([], 1) ("n,Wait(1)", 2) = ([], 2) := by decide
  have hlast : checkLine ([], 2) ("3,Hangup()", 3) = ([], 3) :=
    checkLine_of_number (by omega) (by decide)
      (show ruleOf "3,Hangup()".toList = some (['3'], "Hangup()".toList) by decide)
      (by decide) (by decide) (by decide) (by decide)
  unfold checkLines
  simp only [List.zipIdx_cons, List.zipIdx_nil, List.foldl_cons, List.foldl_nil, hinclude, hfirst, hnext,
    hlast]

theorem application_runs_greeting :
    generateApplicationContext2 (.arr [(.str "type", .str "plaintext"), (.str "applicationlogic",
      .str (normText (base64Encode "include => park\n1(top),Answer()\nn,Wait(1)\n3,Hangup()")))]) =
      [.other "; ", .context "", .other "include => park",
        .exten "_[0-9a-zA-Z*#]!" "1(top),Answer()", .exten "_[0-9a-zA-Z*#]!" "n,Wait(1)",
        .exten "_[0-9a-zA-Z*#]!" "3,Hangup()", .exten "s" "1(top),Answer()", .exten "s" "n,Wait(1)",
        .exten "s" "3,Hangup()"] ∧
    priorities 0 ["1(top),Answer()", "n,Wait(1)", "3,Hangup()"] = some [1, 2, 3] := by
  have hends : CrBeforeLf greeting.text.toList := by decide
  obtain ⟨herrors, hstored⟩ := vApplicationlogic_plaintext (fun _ => none)
    (f := ⟨.arr [], .arr [(.str "type", .str "plaintext"), (.str "code", .str greeting.text)], []⟩)
    rfl rfl hends
  rw [cleanLines_greeting] at herrors hstored
  rw [checkLines_greeting] at herrors
  have himplode : implode "\n" ["include => park", "1(top),Answer()", "n,Wait(1)", "3,Hangup()"] =
      "include => park\n1(top),Answer()\nn,Wait(1)\n3,Hangup()" := by decide
  rw [himplode] at hstored
  have hruns := application_runs (fun _ => none)
    (a := .arr [(.str "type", .str "plaintext"), (.str "applicationlogic",
      .str (normText (base64Encode "include => park\n1(top),Answer()\nn,Wait(1)\n3,Hangup()")))])
    rfl rfl hends (by decide) herrors hstored rfl rfl
  have hincludes : ["include => park", "1(top),Answer()", "n,Wait(1)", "3,Hangup()"].filter isInclude =
      ["include => park"] := by decide
  have hsteps : ["include => park", "1(top),Answer()", "n,Wait(1)", "3,Hangup()"].filter
      (!isInclude ·) = ["1(top),Answer()", "n,Wait(1)", "3,Hangup()"] := by decide
  rw [cleanLines_greeting, hincludes, hsteps] at hruns
  exact hruns

/-- A blank in front of an inclusion is not emitted. -/
theorem application_not_verbatim :
    let f : Form := ⟨.arr [], .arr [(.str "type", .str "plaintext"),
      (.str "code", .str " include => park\n1,Hangup()")], []⟩
    ∃ stored, (vApplicationlogic (fun _ => none) f).errors = f.errors ∧
    (vApplicationlogic (fun _ => none) f).element.get "applicationlogic" = .str stored ∧
    .other " include => park" ∉ generateApplicationContext2
      (.arr [(.str "type", .str "plaintext"), (.str "applicationlogic", .str stored)]) := by
  intro f
  have hends : CrBeforeLf " include => park\n1,Hangup()".toList := by decide
  have hlines : cleanLines " include => park\n1,Hangup()" = ["include => park", "1,Hangup()"] := by
    decide
  have hcheck : checkLines ["include => park", "1,Hangup()"] = [] := by
    have hinclude : checkLine ([], 0) ("include => park", 0) = ([], 0) := by decide
    have hfirst : checkLine ([], 0) ("1,Hangup()", 1) = ([], 1) :=
      checkLine_of_number (by omega) (by decide)
        (show ruleOf "1,Hangup()".toList = some (['1'], "Hangup()".toList) by decide)
        (by decide) (by decide) (by decide) (by decide)
    unfold checkLines
    simp only [List.zipIdx_cons, List.zipIdx_nil, List.foldl_cons, List.foldl_nil, hinclude, hfirst]
  have himplode : implode "\n" ["include => park", "1,Hangup()"] = "include => park\n1,Hangup()" := by
    decide
  obtain ⟨herrors, hstored⟩ := vApplicationlogic_plaintext (fun _ => none) (f := f) rfl rfl hends
  rw [hlines, hcheck] at herrors
  rw [hlines, himplode] at hstored
  refine ⟨_, herrors, hstored, ?_⟩
  -- the code is stored encoded, and decoded when the plan is written
  have hdecode : explode '\n' (base64Decode (base64Encode "include => park\n1,Hangup()")) =
      ["include => park", "1,Hangup()"] := by
    rw [base64Decode_encode (by decide)]
    decide
  have hincludes : ["include => park", "1,Hangup()"].filter isInclude = ["include => park"] := by decide
  have hsteps : ["include => park", "1,Hangup()"].filter (!isInclude ·) = ["1,Hangup()"] := by decide
  generalize base64Encode "include => park\n1,Hangup()" = stored at hdecode
  have hcontext := generateApplicationContext2_plaintext (a := .arr [(.str "type", .str "plaintext"),
    (.str "applicationlogic", .str stored)]) rfl hdecode
  rw [hincludes, hsteps] at hcontext
  rw [hcontext]
  show Line.other " include => park" ∉ [Line.other "; ", Line.context "", Line.other "include => park",
    Line.exten "_[0-9a-zA-Z*#]!" "1,Hangup()", Line.exten "s" "1,Hangup()"]
  decide

end Accepted

end Dialplan
end Askozia
