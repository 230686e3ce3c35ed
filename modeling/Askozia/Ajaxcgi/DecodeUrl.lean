import Askozia.Bytes.Memory

/-!
# Decoding of the query (`ajax.c`)

`decode_url` works in the memory of the string: at every escape the rest of the string moves two bytes
down, and the loop goes on with the shorter length.

* `decode_encode`: what was encoded is decoded.
* `reads_own_string_iff`: the byte behind the terminator gets into the result exactly if the string
  ends with an escape that has only one digit.
-/

namespace Askozia
namespace Ajaxcgi

open Bytes

/-! ## The function -/

/-- The byte of an ASCII character. -/
def byte (c : Char) : UInt8 := UInt8.ofNat c.toNat

/-- `isxdigit(c)` -/
def isxdigit (c : UInt8) : Bool :=
  (byte '0' ≤ c && c ≤ byte '9') || (byte 'a' ≤ c && c ≤ byte 'f') || (byte 'A' ≤ c && c ≤ byte 'F')

/-- The value of a hexadecimal digit. -/
def digitValue (c : UInt8) : ℕ :=
  if c ≤ byte '9' then c.toNat - '0'.toNat
  else if c ≤ byte 'F' then c.toNat - 'A'.toNat + 10
  else c.toNat - 'a'.toNat + 10

/-- `strtol(code, &end, 16)` of a text that starts with `0x`: the digits there are, or `0`. -/
def strtol (code : List UInt8) : ℕ :=
  ((code.drop 2).takeWhile isxdigit).foldl (fun n c => 16 * n + digitValue c) 0

/-- The byte for the two bytes behind a `%`. -/
def escaped (c d : UInt8) : UInt8 := UInt8.ofNat (strtol [byte '0', byte 'x', c, d, 0])

/-- `for (; ii < length; ii++) string[ii] = string[ii+2];` -/
def shift (m : Memory) (string ii length : ℕ) : Memory :=
  if ii < length then shift (m.set (string + ii) (read m (string + ii + 2))) string (ii + 1) length else m
termination_by length - ii

/-- The loop of `decode_url` from `i` on. -/
def decodeFrom (m : Memory) (string i length : ℕ) : Memory :=
  if i < length then
    let c := read m (string + i)
    if c = byte '+' then decodeFrom (m.set (string + i) (byte ' ')) string (i + 1) length
    else if c = byte '%' then
      let code := escaped (read m (string + i + 1)) (read m (string + i + 2))
      decodeFrom (shift (m.set (string + i) code) string (i + 1) length) string (i + 1) (length - 2)
    else decodeFrom m string (i + 1) length
  else m
termination_by length - i

/-- `decode_url(string)` -/
def decodeUrl (m : Memory) (string : ℕ) : Memory := decodeFrom m string 0 (strlen m string)

/-! ## What it leaves -/

/-- What the loop makes of the bytes that are left, where `x` is the byte behind the terminator. -/
def decoded (x : UInt8) : List UInt8 → List UInt8
  | [] => []
  | c :: r =>
    if c = byte '+' then byte ' ' :: decoded x r
    else if c = byte '%' then
      match r with
      | [] => [0]
      | [d] => [escaped d 0, x]
      | d :: e :: r => escaped d e :: decoded x r
    else c :: decoded x r

theorem decoded_plus (x : UInt8) (r : List UInt8) : decoded x (byte '+' :: r) = byte ' ' :: decoded x r := by
  rw [decoded.eq_def]
  exact if_pos rfl

theorem decoded_plain (x : UInt8) {c : UInt8} (r : List UInt8) (hplus : c ≠ byte '+') (hpercent : c ≠ byte '%') :
    decoded x (c :: r) = c :: decoded x r := by
  rw [decoded.eq_def]
  dsimp only
  rw [if_neg hplus, if_neg hpercent]

theorem decoded_escape (x d e : UInt8) (r : List UInt8) :
    decoded x (byte '%' :: d :: e :: r) = escaped d e :: decoded x r := by
  have hne : byte '%' ≠ byte '+' := by decide
  rw [decoded.eq_def]
  dsimp only
  rw [if_neg hne, if_pos rfl]

section Loops

variable {a r y : List UInt8} {p i length : ℕ}

/-- Every byte is replaced by the one after the next. -/
def shifted : ℕ → List UInt8 → List UInt8
  | 0, w => w
  | _, [] => []
  | n + 1, _ :: w => w.getD 1 0 :: shifted n w

theorem shift_eq (a w : List UInt8) (p ii n : ℕ) (ha : a.length = p + ii) (hn : n ≤ w.length) :
    shift (a ++ w) p ii (ii + n) = a ++ shifted n w := by
  induction n generalizing a w ii with
  | zero =>
    rw [shift, if_neg (by omega), shifted]
  | succ n ih =>
    match w with
    | [] => exact absurd hn (by simp)
    | c :: w =>
      have hread : read (a ++ c :: w) (p + ii + 2) = w.getD 1 0 := by
        rw [← ha, read_append]
        rfl
      have hset : (a ++ c :: w).set (p + ii) (w.getD 1 0) = (a ++ [w.getD 1 0]) ++ w := by
        rw [← ha, set_length, List.append_assoc]
        rfl
      have hlength : ii + (n + 1) = ii + 1 + n := by omega
      rw [shift, if_pos (by omega), hread, hset, hlength, ih _ _ _ _ _, shifted, List.append_assoc]
      · rfl
      · rw [List.length_append, ha]
        rfl
      · exact Nat.le_of_succ_le_succ hn

/-- The bytes behind an escape move to where its digits were, and the terminator with them. -/
theorem shifted_escape (d e : UInt8) (r y : List UInt8) :
    shifted (r.length + 2) (d :: e :: (r ++ 0 :: y)) = r ++ 0 :: y.getD 0 0 :: 0 :: y := by
  induction r generalizing d e with
  | nil => rfl
  | cons c r ih =>
    show c :: shifted (r.length + 2) (e :: c :: (r ++ 0 :: y)) = _
    rw [ih]
    rfl

theorem decodeFrom_end (m : Memory) (p i : ℕ) {length : ℕ} (h : length ≤ i) : decodeFrom m p i length = m := by
  rw [decodeFrom, if_neg (by omega)]

theorem read_here (b w : List UInt8) (c : UInt8) : read (b ++ c :: w) b.length = c := read_append (i := 0)

theorem decodeFrom_plus {b w : List UInt8} {n : ℕ} (hb : b.length = p + i) :
    decodeFrom (b ++ byte '+' :: w) p i (i + (n + 1)) = decodeFrom ((b ++ [byte ' ']) ++ w) p (i + 1) (i + 1 + n) := by
  have hlength : i + (n + 1) = i + 1 + n := by omega
  rw [decodeFrom, if_pos (by omega)]
  dsimp only
  rw [← hb, read_here, if_pos rfl, set_length, hlength, List.append_assoc]
  rfl

theorem decodeFrom_plain {b w : List UInt8} {c : UInt8} {n : ℕ} (hb : b.length = p + i) (hplus : c ≠ byte '+')
    (hpercent : c ≠ byte '%') :
    decodeFrom (b ++ c :: w) p i (i + (n + 1)) = decodeFrom ((b ++ [c]) ++ w) p (i + 1) (i + 1 + n) := by
  have hlength : i + (n + 1) = i + 1 + n := by omega
  rw [decodeFrom, if_pos (by omega)]
  dsimp only
  rw [← hb, read_here, if_neg hplus, if_neg hpercent, hlength, List.append_assoc]
  rfl

/-- At an escape, the `n` bytes that are left are replaced by those two behind them. -/
theorem decodeFrom_escape {b w : List UInt8} {n : ℕ} (hb : b.length = p + i) (hn : n ≤ w.length) :
    decodeFrom (b ++ byte '%' :: w) p i (i + (n + 1)) =
      decodeFrom ((b ++ [escaped (w.getD 0 0) (w.getD 1 0)]) ++ shifted n w) p (i + 1) (i + (n + 1) - 2) := by
  have hne : byte '%' ≠ byte '+' := by decide
  have hfirst : read (b ++ byte '%' :: w) (b.length + 1) = w.getD 0 0 := read_append
  have hsecond : read (b ++ byte '%' :: w) (b.length + 2) = w.getD 1 0 := read_append
  have hlength : i + (n + 1) = i + 1 + n := by omega
  have hshift : ∀ c : UInt8, shift (b ++ c :: w) p (i + 1) (i + 1 + n) = (b ++ [c]) ++ shifted n w := by
    intro c
    rw [← shift_eq (b ++ [c]) w p (i + 1) n _ hn, List.append_assoc]
    · rfl
    · rw [List.length_append, hb]
      rfl
  rw [decodeFrom, if_pos (by omega)]
  dsimp only
  rw [← hb, read_here, if_neg hne, if_pos rfl, hfirst, hsecond, set_length, hlength, hshift]

theorem length_snoc {b : List UInt8} (hb : b.length = p + i) (c : UInt8) : (b ++ [c]).length = p + (i + 1) := by
  rw [List.length_append, hb]
  rfl

/-- The loop decodes the bytes that are left. What is over behind them starts with a NUL, and nothing
behind the terminator changes. -/
theorem decodeFrom_eq {x : UInt8} (todo : List UInt8) (b y : List UInt8) (i : ℕ) (hb : b.length = p + i)
    (hx : y.getD 0 0 = x) :
    ∃ pad, decodeFrom (b ++ (todo ++ 0 :: y)) p i (i + todo.length) = b ++ (decoded x todo ++ (pad ++ 0 :: y)) ∧
      (decoded x todo).length + pad.length = todo.length ∧ pad.getD 0 0 = 0 := by
  fun_induction decoded x todo generalizing b y i with
  | case1 => exact ⟨[], decodeFrom_end _ _ _ (Nat.le_refl _), rfl, rfl⟩
  | case2 r ih =>
    -- a plus is a space
    obtain ⟨pad, heq, hlength, hpad⟩ := ih (b ++ [byte ' ']) y (i + 1) (length_snoc hb _) hx
    refine ⟨pad, ?_, ?_, hpad⟩
    · rw [List.length_cons, List.cons_append, decodeFrom_plus hb, heq, List.append_assoc]
      rfl
    · simp only [List.length_cons]
      omega
  | case3 hplus =>
    -- a percent sign at the end
    refine ⟨[], ?_, rfl, rfl⟩
    rw [List.length_singleton, List.singleton_append, @decodeFrom_escape p i b (0 :: y) 0 hb (Nat.zero_le _),
      decodeFrom_end _ _ _ (by omega), List.append_assoc]
    rfl
  | case4 d hplus =>
    -- one digit at the end: the byte behind the terminator moves to where it was
    refine ⟨[], ?_, rfl, rfl⟩
    have hshifted : shifted 1 (d :: 0 :: y) = x :: 0 :: y := by
      rw [← hx]
      rfl
    show decodeFrom (b ++ byte '%' :: d :: 0 :: y) p i (i + (1 + 1)) = _
    rw [decodeFrom_escape hb (by simp), hshifted, decodeFrom_end _ _ _ (by omega), List.append_assoc]
    rfl
  | case5 d e r hplus ih =>
    -- the rest moves down
    obtain ⟨pad, heq, hlength, hpad⟩ := ih (b ++ [escaped d e]) (x :: 0 :: y) (i + 1) (length_snoc hb _) rfl
    have hshifted : shifted (r.length + 2) (d :: e :: (r ++ 0 :: y)) = r ++ 0 :: x :: 0 :: y := by
      rw [shifted_escape, hx]
    have hshorter : i + (r.length + 2 + 1) - 2 = i + 1 + r.length := by omega
    refine ⟨pad ++ [0, x], ?_, ?_, ?_⟩
    · show decodeFrom (b ++ byte '%' :: (d :: e :: (r ++ 0 :: y))) p i (i + (r.length + 2 + 1)) = _
      rw [decodeFrom_escape hb (by simp), hshifted, hshorter]
      show decodeFrom ((b ++ [escaped d e]) ++ (r ++ 0 :: x :: 0 :: y)) p (i + 1) (i + 1 + r.length) = _
      rw [heq]
      simp
    · simp only [List.length_cons, List.length_append, List.length_nil]
      omega
    · cases pad with
      | nil => rfl
      | cons c pad => exact hpad
  | case6 c r hplus hpercent ih =>
    obtain ⟨pad, heq, hlength, hpad⟩ := ih (b ++ [c]) y (i + 1) (length_snoc hb _) hx
    refine ⟨pad, ?_, ?_, hpad⟩
    · rw [List.length_cons, List.cons_append, decodeFrom_plain hb hplus hpercent, heq, List.append_assoc]
      rfl
    · simp only [List.length_cons]
      omega

end Loops

section DecodeUrl

variable {m : Memory} {p : ℕ} {s e a y : List UInt8}

/-- What `decode_url` does to the memory around its string. -/
theorem decodeUrl_eq (hs : 0 ∉ s) :
    ∃ pad, decodeUrl (a ++ (s ++ 0 :: y)) a.length = a ++ (decoded (y.getD 0 0) s ++ (pad ++ 0 :: y)) ∧
      (decoded (y.getD 0 0) s).length + pad.length = s.length ∧ pad.getD 0 0 = 0 := by
  have hlength : strlen (a ++ (s ++ 0 :: y)) a.length = s.length := by
    unfold strlen
    rw [← List.append_assoc, string_append hs]
  have h := @decodeFrom_eq a.length (y.getD 0 0) s a y 0 rfl rfl
  rw [Nat.zero_add] at h
  unfold decodeUrl
  rwa [hlength]

/-- What is over behind the decoded bytes is not part of the string. -/
theorem takeWhile_pad {d pad : List UInt8} (hpad : pad.getD 0 0 = 0) :
    (d ++ pad).takeWhile (· != 0) = d.takeWhile (· != 0) := by
  have hend : pad.takeWhile (· != 0) = [] := by
    cases pad with
    | nil => rfl
    | cons c pad =>
      have hc : c = 0 := hpad
      rw [hc]
      rfl
  by_cases hall : ∀ c ∈ d, (c != 0) = true
  · rw [List.takeWhile_append_of_pos hall, hend, List.append_nil, List.takeWhile_eq_self_iff.2 hall]
  · rw [List.takeWhile_append, if_neg]
    intro hlength
    apply hall
    rw [← List.takeWhile_eq_self_iff]
    exact (List.takeWhile_prefix _).eq_of_length hlength

/-- The string that is left ends at the first byte that was decoded to NUL. -/
theorem string_decodeUrl (hs : 0 ∉ s) :
    string (decodeUrl (a ++ (s ++ 0 :: y)) a.length) a.length = (decoded (y.getD 0 0) s).takeWhile (· != 0) := by
  obtain ⟨pad, heq, -, hpad⟩ := @decodeUrl_eq s a y hs
  have hnul : (pad ++ 0 :: y).getD 0 0 = 0 := by
    cases pad with
    | nil => rfl
    | cons c pad => exact hpad
  unfold string
  rw [heq, drop_length, takeWhile_pad hnul]

/-! ## Encoded strings -/

/-- The ways to write a string in a query. -/
inductive Encodes : List UInt8 → List UInt8 → Prop
  | nil : Encodes [] []
  | itself {c : UInt8} {s e : List UInt8} : c ≠ byte '+' → c ≠ byte '%' → c ≠ 0 → Encodes s e →
      Encodes (c :: s) (c :: e)
  | plus {s e : List UInt8} : Encodes s e → Encodes (byte ' ' :: s) (byte '+' :: e)
  | escape {c h l : UInt8} {s e : List UInt8} : isxdigit h = true → isxdigit l = true →
      16 * digitValue h + digitValue l = c.toNat → Encodes s e → Encodes (c :: s) (byte '%' :: h :: l :: e)

theorem escaped_digits {c h l : UInt8} (hh : isxdigit h = true) (hl : isxdigit l = true)
    (hc : 16 * digitValue h + digitValue l = c.toNat) : escaped h l = c := by
  have hend : isxdigit 0 = false := by decide
  have hvalue : strtol [byte '0', byte 'x', h, l, 0] = c.toNat := by
    unfold strtol
    rw [← hc]
    simp [hh, hl, hend]
  unfold escaped
  rw [hvalue, UInt8.ofNat_toNat]

theorem decoded_encodes (x : UInt8) (h : Encodes s e) : decoded x e = s := by
  induction h with
  | nil => rfl
  | itself hplus hpercent _ _ ih => rw [decoded_plain _ _ hplus hpercent, ih]
  | plus _ ih => rw [decoded_plus, ih]
  | escape hh hl hc _ ih => rw [decoded_escape, escaped_digits hh hl hc, ih]

/-- `decode_url` leaves the string that was encoded, with its terminator. -/
theorem decode_encode (hs : 0 ∉ s) (henc : Encodes s e) (hm : Holds m p e) : Holds (decodeUrl m p) p s := by
  obtain ⟨he, a, y, rfl, rfl⟩ := hm
  obtain ⟨pad, heq, -, hpad⟩ := @decodeUrl_eq e a y he
  rw [decoded_encodes _ henc] at heq
  rw [List.append_assoc, heq]
  cases pad with
  | nil => exact ⟨hs, a, y, by simp, rfl⟩
  | cons c pad =>
    have hc : c = 0 := hpad
    exact ⟨hs, a, pad ++ 0 :: y, by simp [hc], rfl⟩

/-- A letter, a plus sign as an escape and a space. -/
theorem decode_encode_letters :
    Holds (decodeUrl [120, 97, 37, 50, 98, 43, 0, 37] 1) 1 [97, 43, 32] := by
  apply decode_encode (e := [97, 37, 50, 98, 43])
  · decide
  · refine .itself (by decide) (by decide) (by decide) ?_
    refine .escape (by decide) (by decide) (by decide) ?_
    exact .plus .nil
  · exact ⟨by decide, [120], [37], rfl, rfl⟩

end DecodeUrl

/-! ## The byte behind the terminator -/

/-- The string ends with an escape that has one digit only, and no escape up to it stands for NUL. -/
def openEnd : List UInt8 → Bool
  | [] => false
  | c :: r =>
    if c = byte '%' then
      match r with
      | [] => false
      | [d] => escaped d 0 != 0
      | d :: e :: r => escaped d e != 0 && openEnd r
    else openEnd r

section OpenEnd

variable {s : List UInt8}

/-- With an open end the byte behind the terminator is the last one of the result, and without one it is
not in it. -/
theorem takeWhile_decoded (hs : 0 ∉ s) :
    ∃ d, ∀ x, (decoded x s).takeWhile (· != 0) = d ++ if openEnd s then [x].takeWhile (· != 0) else [] := by
  have hnul : ∀ {r : List UInt8}, (0 :: r).takeWhile (· != 0) = [] := rfl
  -- a byte that is not NUL goes before the others
  have hcons : ∀ {c : UInt8} {r : List UInt8}, c ≠ 0 → (c :: r).takeWhile (· != 0) = c :: r.takeWhile (· != 0) :=
    fun hc => List.takeWhile_cons_of_pos (bne_iff_ne.2 hc)
  have hplus : byte '+' ≠ byte '%' := by decide
  fun_induction openEnd s with
  | case1 => exact ⟨[], fun x => rfl⟩
  | case2 => exact ⟨[], fun x => rfl⟩
  | case3 d =>
    have hpercent : byte '%' ≠ byte '+' := by decide
    have hdecoded : ∀ x, decoded x [byte '%', d] = [escaped d 0, x] := by
      intro x
      rw [decoded.eq_def]
      dsimp only
      rw [if_neg hpercent, if_pos rfl]
    by_cases hd : escaped d 0 = 0
    · refine ⟨[], fun x => ?_⟩
      rw [hdecoded, hd, hnul]
      rfl
    · refine ⟨[escaped d 0], fun x => ?_⟩
      rw [hdecoded, hcons hd, if_pos (bne_iff_ne.2 hd)]
      rfl
  | case4 d e r ih =>
    have hr : 0 ∉ r := fun hmem => hs (List.mem_cons_of_mem _ (List.mem_cons_of_mem _ (List.mem_cons_of_mem _ hmem)))
    by_cases hd : escaped d e = 0
    · refine ⟨[], fun x => ?_⟩
      rw [decoded_escape, hd, hnul]
      rfl
    · obtain ⟨t, ht⟩ := ih hr
      refine ⟨escaped d e :: t, fun x => ?_⟩
      rw [decoded_escape, hcons hd, ht, bne_iff_ne.2 hd, Bool.true_and]
      rfl
  | case5 c r hpercent ih =>
    obtain ⟨t, ht⟩ := ih fun hmem => hs (List.mem_cons_of_mem _ hmem)
    by_cases hc : c = byte '+'
    · refine ⟨byte ' ' :: t, fun x => ?_⟩
      rw [hc, decoded_plus, hcons (by decide), ht]
      rfl
    · have hne : c ≠ 0 := fun heq => hs (heq ▸ List.mem_cons_self)
      refine ⟨c :: t, fun x => ?_⟩
      rw [decoded_plain _ _ hc hpercent, hcons hne, ht]
      rfl

/-- The result depends on the string alone, unless it has an open end. -/
theorem reads_own_string_iff (hs : 0 ∉ s) :
    (∀ m₁ m₂ p, Holds m₁ p s → Holds m₂ p s → string (decodeUrl m₁ p) p = string (decodeUrl m₂ p) p) ↔
      openEnd s = false := by
  obtain ⟨d, hd⟩ := takeWhile_decoded hs
  constructor
  · intro h
    rw [Bool.eq_false_iff]
    intro hopen
    -- two bytes that are not NUL behind the terminator are told apart
    have hboth := h ([] ++ s ++ 0 :: [1]) ([] ++ s ++ 0 :: [2]) 0 (holds_append hs) (holds_append hs)
    have hone := @string_decodeUrl s [] [1] hs
    have htwo := @string_decodeUrl s [] [2] hs
    rw [hd, if_pos hopen] at hone htwo
    simp only [List.append_assoc] at hboth
    have heq := hone.symm.trans (hboth.trans htwo)
    exact absurd (List.append_cancel_left heq) (by decide)
  · rintro hclosed m₁ m₂ p ⟨-, a, y, rfl, rfl⟩ ⟨-, a', y', rfl, hlength⟩
    have hone := @string_decodeUrl s a y hs
    have htwo := @string_decodeUrl s a' y' hs
    rw [hd, hclosed] at hone htwo
    rw [List.append_assoc, List.append_assoc, hone, ← hlength, htwo]
    rfl

/-- Nothing is read behind `%41`. -/
theorem reads_own_string_closed : openEnd [37, 52, 49] = false ∧
    ∀ m₁ m₂ p, Holds m₁ p [37, 52, 49] → Holds m₂ p [37, 52, 49] →
      string (decodeUrl m₁ p) p = string (decodeUrl m₂ p) p := by
  have hopen : openEnd [37, 52, 49] = false := by decide
  exact ⟨hopen, (reads_own_string_iff (by decide)).2 hopen⟩

/-- In `%A` the byte behind the terminator becomes the last one of the result. -/
theorem not_reads_own_string :
    Holds [37, 65, 0, 98] 0 [37, 65] ∧ Holds [37, 65, 0, 99] 0 [37, 65] ∧
      string (decodeUrl [37, 65, 0, 98] 0) 0 ≠ string (decodeUrl [37, 65, 0, 99] 0) 0 := by
  have hs : (0 : UInt8) ∉ [37, 65] := by decide
  refine ⟨holds_append (a := []) hs, holds_append (a := []) hs, ?_⟩
  have hone := @string_decodeUrl [37, 65] [] [98] hs
  have htwo := @string_decodeUrl [37, 65] [] [99] hs
  intro heq
  have hboth := hone.symm.trans (heq.trans htwo)
  exact absurd hboth (by decide)

end OpenEnd

end Ajaxcgi
end Askozia
