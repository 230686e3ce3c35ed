import Mathlib.Data.List.TakeWhile

/-!
# Strings in memory

Bytes in memory, of which a string ends at the first NUL, and the tokenizer of the C library, which
writes a NUL behind each token and keeps the place it has come to.

* `Holds m p s`: the string at `p` is `s`.
* `strtok_none` and `strtok_some` are what the tokenizer does with the text that is left.
-/

namespace Askozia
namespace Bytes

/-- The bytes from address `0` on. What is beyond them reads as NUL. -/
abbrev Memory := List UInt8

/-- `*p` -/
def read (m : Memory) (p : ℕ) : UInt8 := m.getD p 0

/-- The string at an address. -/
def string (m : Memory) (p : ℕ) : List UInt8 := (m.drop p).takeWhile (· != 0)

/-- `strlen(p)` -/
def strlen (m : Memory) (p : ℕ) : ℕ := (string m p).length

/-- The memory has the string and the NUL that ends it at the address. -/
def Holds (m : Memory) (p : ℕ) (s : List UInt8) : Prop :=
  0 ∉ s ∧ ∃ before after, m = before ++ s ++ 0 :: after ∧ before.length = p

section Strings

variable {m a s t z : List UInt8} {p : ℕ}

theorem takeWhile_ne_zero (h : 0 ∉ s) : (s ++ 0 :: z).takeWhile (· != 0) = s := by
  rw [List.takeWhile_append_of_pos]
  · simp
  · intro c hc
    rw [bne_iff_ne]
    rintro rfl
    exact h hc

/-- The string at an address ends at the first NUL. -/
theorem string_append (h : 0 ∉ s) : string (a ++ s ++ 0 :: z) a.length = s := by
  unfold string
  rw [List.append_assoc, List.drop_left, takeWhile_ne_zero h]

theorem Holds.string (h : Holds m p s) : string m p = s := by
  obtain ⟨hs, before, after, rfl, rfl⟩ := h
  exact string_append hs

theorem holds_append (h : 0 ∉ s) : Holds (a ++ s ++ 0 :: z) a.length s :=
  ⟨h, a, z, rfl, rfl⟩

theorem lt_length_of_read (h : read m p ≠ 0) : p < m.length := by
  by_contra hle
  apply h
  unfold read
  rw [List.getD_eq_getElem?_getD, List.getElem?_eq_none (by omega)]
  rfl

theorem read_append {i : ℕ} : read (a ++ z) (a.length + i) = read z i := by
  unfold read
  rw [List.getD_eq_getElem?_getD, List.getD_eq_getElem?_getD, List.getElem?_append_right (by omega),
    Nat.add_sub_cancel_left]

end Strings

/-! ## Several strings -/

/-- The strings lie at the addresses in this order, from an address on, without overlap. -/
def Laid (m : Memory) : ℕ → List ℕ → List (List UInt8) → Prop
  | _, [], [] => True
  | n, p :: ps, s :: ss => n ≤ p ∧ Holds m p s ∧ Laid m (p + s.length + 1) ps ss
  | _, _, _ => False

section Several

variable {m m' s z : List UInt8} {p n n' : ℕ} {ps : List ℕ} {ss : List (List UInt8)}

/-- What is at an address depends on the memory from there on. -/
theorem holds_iff_drop : Holds m p s ↔ 0 ∉ s ∧ ∃ z, m.drop p = s ++ 0 :: z := by
  constructor
  · rintro ⟨hs, a, z, rfl, rfl⟩
    refine ⟨hs, z, ?_⟩
    rw [List.append_assoc, List.drop_left]
  · rintro ⟨hs, z, hdrop⟩
    have hlt : p < m.length := by
      by_contra hle
      rw [List.drop_eq_nil_of_le (by omega)] at hdrop
      simp at hdrop
    refine ⟨hs, m.take p, z, ?_, ?_⟩
    · rw [List.append_assoc, ← hdrop, List.take_append_drop]
    · rw [List.length_take]
      omega

/-- A string ends where there is a NUL. -/
theorem holds_takeWhile (h : m.drop p = s ++ 0 :: z) : Holds m p (s.takeWhile (· != 0)) := by
  have hnul : 0 ∉ s.takeWhile (· != 0) := fun hmem => by
    simpa using List.mem_takeWhile_imp hmem
  rw [holds_iff_drop, h]
  refine ⟨hnul, ?_⟩
  have hsplit := List.takeWhile_append_dropWhile (p := (· != 0)) (l := s)
  generalize hrest : s.dropWhile (· != 0) = rest at hsplit
  cases rest with
  | nil =>
    rw [List.append_nil] at hsplit
    exact ⟨z, by rw [hsplit]⟩
  | cons c rest =>
    have hc : c = 0 := by
      have hhead := List.head_dropWhile_not (· != 0) (l := s) (by rw [hrest]; simp)
      simpa [hrest] using hhead
    have hwhole := congrArg (· ++ 0 :: z) hsplit
    simp only [hc, List.append_assoc, List.cons_append] at hwhole
    exact ⟨rest ++ 0 :: z, hwhole.symm⟩

theorem Laid.mono (hn : n' ≤ n) (h : Laid m n ps ss) : Laid m n' ps ss := by
  match ps, ss with
  | [], [] => trivial
  | p :: ps, s :: ss => exact ⟨Nat.le_trans hn h.1, h.2⟩
  | [], _ :: _ => exact h
  | _ :: _, [] => exact h

theorem Laid.length (h : Laid m n ps ss) : ps.length = ss.length := by
  induction ps generalizing n ss with
  | nil =>
    cases ss with
    | nil => rfl
    | cons s ss => exact absurd h id
  | cons p ps ih =>
    cases ss with
    | nil => exact absurd h id
    | cons s ss => exact congrArg (· + 1) (ih h.2.2)

/-- Strings stay where they are if the memory from there on does. -/
theorem Laid.congr (hm : m'.drop n = m.drop n) (h : Laid m n ps ss) : Laid m' n ps ss := by
  induction ps generalizing n ss with
  | nil => cases ss <;> exact h
  | cons p ps ih =>
    cases ss with
    | nil => exact h
    | cons s ss =>
      obtain ⟨hp, hs, hrest⟩ := h
      have hdrop : ∀ q, n ≤ q → m'.drop q = m.drop q := by
        intro q hq
        have hsum : n + (q - n) = q := by omega
        rw [← hsum, ← List.drop_drop, ← List.drop_drop, hm]
      refine ⟨hp, ?_, ih (hdrop _ (by omega)) hrest⟩
      rw [holds_iff_drop] at hs ⊢
      rwa [hdrop p hp]

end Several

/-! ## Tokens -/

/-- The memory, and where the tokenizer goes on. -/
structure Tokenizer where
  memory : Memory
  saved : ℕ
deriving DecidableEq, Repr

/-- `strtok(s, delim)` for one delimiter, where `NULL` goes on where the last token ended. -/
def strtok (t : Tokenizer) (s : Option ℕ) (delim : UInt8) : Option ℕ × Tokenizer :=
  let start := s.getD t.saved
  let token := start + ((t.memory.drop start).takeWhile (· == delim)).length
  if read t.memory token = 0 then (none, { t with saved := token })
  else
    let stop := token + ((t.memory.drop token).takeWhile fun c => c != delim && c != 0).length
    if read t.memory stop = 0 then (some token, { t with saved := stop })
    else (some token, { memory := t.memory.set stop 0, saved := stop + 1 })

section Tokens

variable {m a b skipped t z : List UInt8} {delim : UInt8} {s : Option ℕ} {n : ℕ}

theorem takeWhile_stop {f : UInt8 → Bool} {c : UInt8} (h : ∀ x ∈ a, f x = true) (hc : f c = false) :
    (a ++ c :: b).takeWhile f = a := by
  rw [List.takeWhile_append_of_pos h, List.takeWhile_cons_of_neg (by simp [hc]), List.append_nil]

theorem drop_length (a b : List UInt8) : (a ++ b).drop a.length = b := List.drop_left

theorem set_length (a z : List UInt8) (c x : UInt8) : (a ++ c :: z).set a.length x = a ++ x :: z := by
  rw [List.set_append_right _ _ (Nat.le_refl _), Nat.sub_self]
  rfl

/-- Nothing but delimiters is left. -/
theorem strtok_none (hdelim : delim ≠ 0) (hs : s.getD n = a.length) (hskipped : ∀ c ∈ skipped, c = delim) :
    strtok ⟨a ++ (skipped ++ 0 :: z), n⟩ s delim =
      (none, ⟨a ++ (skipped ++ 0 :: z), a.length + skipped.length⟩) := by
  have hskip : (skipped ++ 0 :: z).takeWhile (· == delim) = skipped :=
    takeWhile_stop (fun c hc => beq_iff_eq.2 (hskipped c hc)) (beq_eq_false_iff_ne.2 (Ne.symm hdelim))
  have hread : read (a ++ (skipped ++ 0 :: z)) (a.length + skipped.length) = 0 := by
    rw [read_append]
    exact @read_append skipped (0 :: z) 0
  unfold strtok
  dsimp only
  rw [hs, drop_length, hskip, if_pos hread]

/-- A token that starts after some delimiters is found, up to the byte after it. -/
theorem strtok_some {c : UInt8} (hs : s.getD n = a.length) (hskipped : ∀ x ∈ skipped, x = delim)
    (ht : t ≠ []) (htoken : ∀ x ∈ t, x ≠ delim ∧ x ≠ 0) (hc : c = delim ∨ c = 0) :
    strtok ⟨a ++ (skipped ++ (t ++ c :: z)), n⟩ s delim =
      (some (a.length + skipped.length),
        if c = 0 then ⟨a ++ (skipped ++ (t ++ 0 :: z)), a.length + skipped.length + t.length⟩
        else ⟨a ++ (skipped ++ (t ++ 0 :: z)), a.length + skipped.length + t.length + 1⟩) := by
  obtain ⟨x, r, rfl⟩ := List.exists_cons_of_ne_nil ht
  have hx := htoken x List.mem_cons_self
  -- the two scans of strtok: over the delimiters, then up to the next one
  have hskip : (skipped ++ (x :: r ++ c :: z)).takeWhile (· == delim) = skipped :=
    takeWhile_stop (fun y hy => beq_iff_eq.2 (hskipped y hy)) (beq_eq_false_iff_ne.2 hx.1)
  have hstart : read (a ++ (skipped ++ (x :: r ++ c :: z))) (a.length + skipped.length) = x := by
    rw [read_append]
    exact @read_append skipped (x :: r ++ c :: z) 0
  have hdrop : (a ++ (skipped ++ (x :: r ++ c :: z))).drop (a.length + skipped.length) = x :: r ++ c :: z := by
    rw [← List.append_assoc, ← List.length_append, drop_length]
  have htake : (x :: r ++ c :: z).takeWhile (fun y => y != delim && y != 0) = x :: r := by
    apply takeWhile_stop
    · intro y hy
      simp [htoken y hy]
    · rcases hc with rfl | rfl
      · simp
      · simp
  have hstop : read (a ++ (skipped ++ (x :: r ++ c :: z))) (a.length + skipped.length + (x :: r).length) = c := by
    rw [Nat.add_assoc, read_append, read_append]
    exact @read_append (x :: r) (c :: z) 0
  unfold strtok
  dsimp only
  rw [hs, drop_length, hskip, hstart, if_neg hx.2, hdrop, htake, hstop]
  -- at the end of the string nothing is written; elsewhere the delimiter becomes a NUL
  split_ifs with hzero
  · rw [hzero]
  · have hset : (a ++ (skipped ++ (x :: r ++ c :: z))).set
        (a.length + skipped.length + (x :: r).length) 0 = a ++ (skipped ++ (x :: r ++ 0 :: z)) := by
      have hwhole : ∀ y : UInt8, a ++ (skipped ++ (x :: r ++ y :: z)) = (a ++ skipped ++ x :: r) ++ y :: z := by
        intro y
        simp only [List.append_assoc]
      rw [hwhole, hwhole, ← List.length_append, ← List.length_append, set_length]
    rw [hset]

end Tokens

/-! ## Pieces -/

/-- The pieces of a text that are not empty. -/
def tokens (delim : UInt8) (r : List UInt8) : List (List UInt8) := (r.splitOn delim).filter (· != [])

section Pieces

variable {r t skipped : List UInt8} {delim : UInt8}

theorem splitOn_cons_self (delim : UInt8) (r : List UInt8) :
    (delim :: r).splitOn delim = [] :: r.splitOn delim :=
  List.splitOn_append_cons_self_of_not_mem List.not_mem_nil r

theorem tokens_skip (h : ∀ c ∈ skipped, c = delim) : tokens delim (skipped ++ r) = tokens delim r := by
  induction skipped with
  | nil => rfl
  | cons c skipped ih =>
    rw [h c List.mem_cons_self, List.cons_append, ← ih fun c hc => h c (List.mem_cons_of_mem _ hc)]
    unfold tokens
    rw [splitOn_cons_self]
    rfl

theorem tokens_last (ht : t ≠ []) (h : ∀ c ∈ t, c ≠ delim) : tokens delim t = [t] := by
  unfold tokens
  rw [List.splitOn_eq_singleton fun hmem => h delim hmem rfl]
  simp [ht]

theorem tokens_next (ht : t ≠ []) (h : ∀ c ∈ t, c ≠ delim) :
    tokens delim (t ++ delim :: r) = t :: tokens delim r := by
  unfold tokens
  rw [List.splitOn_append_cons_self_of_not_mem fun hmem => h delim hmem rfl]
  simp [ht]

/-- A text is read token by token: only delimiters are left, or delimiters and a last token, or
delimiters and a token with a delimiter behind it. -/
@[elab_as_elim]
theorem tokens_induction {motive : List UInt8 → Prop} (delim : UInt8) (r : List UInt8)
    (none : ∀ skipped, (∀ c ∈ skipped, c = delim) → motive skipped)
    (last : ∀ skipped t, (∀ c ∈ skipped, c = delim) → t ≠ [] → (∀ c ∈ t, c ≠ delim) → motive (skipped ++ t))
    (next : ∀ skipped t r, (∀ c ∈ skipped, c = delim) → t ≠ [] → (∀ c ∈ t, c ≠ delim) → motive r →
      motive (skipped ++ (t ++ delim :: r))) : motive r := by
  -- on the length: one step takes delimiters, a token and the delimiter behind it
  induction hn : r.length using Nat.strongRecOn generalizing r with
  | _ n ih =>
    have hr := List.takeWhile_append_dropWhile (p := (· == delim)) (l := r)
    have hskipped : ∀ c ∈ r.takeWhile (· == delim), c = delim := fun c hc => by
      simpa using List.mem_takeWhile_imp hc
    rw [← hr]
    generalize hu : r.dropWhile (· == delim) = u
    cases u with
    | nil =>
      rw [List.append_nil]
      exact none _ hskipped
    | cons x u =>
      have hx : x ≠ delim := by
        have hhead := List.head_dropWhile_not (· == delim) (l := r) (by rw [hu]; simp)
        simpa [hu] using hhead
      have htoken := List.takeWhile_append_dropWhile (p := (· != delim)) (l := x :: u)
      have ht : ∀ c ∈ (x :: u).takeWhile (· != delim), c ≠ delim := fun c hc => by
        simpa using List.mem_takeWhile_imp hc
      have hne : (x :: u).takeWhile (· != delim) ≠ [] := by
        rw [List.takeWhile_cons_of_pos (by simpa using hx)]
        simp
      rw [← htoken]
      generalize hv : (x :: u).dropWhile (· != delim) = v
      cases v with
      | nil =>
        rw [List.append_nil]
        exact last _ _ hskipped hne ht
      | cons y v =>
        have hy : y = delim := by
          have hhead := List.head_dropWhile_not (· != delim) (l := x :: u) (by rw [hv]; simp)
          simpa [hv] using hhead
        rw [hy]
        apply next _ _ _ hskipped hne ht
        refine ih _ ?_ _ rfl
        have hlength := congrArg List.length hr
        have hlength' := congrArg List.length htoken
        rw [hu, List.length_append] at hlength
        rw [hv, List.length_append, List.length_cons, List.length_cons] at hlength'
        rw [List.length_cons] at hlength
        omega

/-- There is a piece before each delimiter, and one at the end. -/
theorem length_splitOn (delim : UInt8) (r : List UInt8) : (r.splitOn delim).length = r.count delim + 1 := by
  induction r with
  | nil => rfl
  | cons c r ih =>
    by_cases hc : c = delim
    · rw [hc, splitOn_cons_self, List.length_cons, ih, List.count_cons_self]
    · rw [List.splitOn_cons_eq_if_modifyHead, if_neg (by simpa using hc), List.length_modifyHead, ih,
        List.count_cons_of_ne hc]

/-- The tokenizer goes through the tokens of the text one by one: there is none, or it finds the first
one and comes to a text with the others. -/
theorem strtok_cases {a z : List UInt8} {s : Option ℕ} {n : ℕ} (hdelim : delim ≠ 0) (hs : s.getD n = a.length)
    (hr : 0 ∉ r) :
    (tokens delim r = [] ∧ strtok ⟨a ++ (r ++ 0 :: z), n⟩ s delim =
      (none, ⟨a ++ (r ++ 0 :: z), a.length + r.length⟩)) ∨
    ∃ skipped t gap r', tokens delim r = t :: tokens delim r' ∧ 0 ∉ t ∧ 0 ∉ r' ∧ t ≠ [] ∧
      r.length = skipped.length + t.length + gap.length + r'.length ∧
      (gap = [0] ∨ gap = [] ∧ r' = []) ∧
      strtok ⟨a ++ (r ++ 0 :: z), n⟩ s delim =
        (some (a.length + skipped.length), ⟨a ++ (skipped ++ (t ++ (gap ++ (r' ++ 0 :: z)))),
          a.length + skipped.length + t.length + gap.length⟩) := by
  -- nothing but delimiters, a last token, or a token with more behind it
  cases r using tokens_induction delim with
  | none skipped hskipped =>
    have htokens := tokens_skip (r := []) hskipped
    rw [List.append_nil] at htokens
    exact .inl ⟨htokens.trans rfl, strtok_none hdelim hs hskipped⟩
  | last skipped t hskipped ht htoken =>
    have hmem : 0 ∉ t := fun h => hr (List.mem_append_right _ h)
    have hfound := @strtok_some a skipped t z delim s n 0 hs hskipped ht
      (fun x hx => ⟨htoken x hx, fun h => hmem (h ▸ hx)⟩) (.inr rfl)
    refine .inr ⟨skipped, t, [], [], ?_, hmem, List.not_mem_nil, ht, by simp, .inr ⟨rfl, rfl⟩, ?_⟩
    · rw [tokens_skip hskipped, tokens_last ht htoken]
      rfl
    · rw [List.append_assoc, hfound, if_pos rfl]
      rfl
  | next skipped t r' hskipped ht htoken =>
    have hmem : 0 ∉ t := fun h => hr (List.mem_append_right _ (List.mem_append_left _ h))
    have hmem' : 0 ∉ r' := fun h =>
      hr (List.mem_append_right _ (List.mem_append_right _ (List.mem_cons_of_mem _ h)))
    have hfound := @strtok_some a skipped t (r' ++ 0 :: z) delim s n delim hs hskipped ht
      (fun x hx => ⟨htoken x hx, fun h => hmem (h ▸ hx)⟩) (.inl rfl)
    refine .inr ⟨skipped, t, [0], r', ?_, hmem, hmem', ht, ?_, .inl rfl, ?_⟩
    · rw [tokens_skip hskipped, tokens_next ht htoken]
    · simp only [List.length_append, List.length_cons, List.length_nil]
      omega
    · rw [if_neg hdelim] at hfound
      simp only [List.append_assoc, List.cons_append, List.nil_append]
      exact hfound

/-- No token has a delimiter in it. -/
theorem not_mem_of_mem_tokens (ht : t ∈ tokens delim r) : delim ∉ t := by
  induction r using tokens_induction delim with
  | none skipped hskipped =>
    have htokens := tokens_skip (r := []) hskipped
    rw [List.append_nil] at htokens
    rw [htokens] at ht
    exact absurd ht List.not_mem_nil
  | last skipped t' hskipped hne htoken =>
    rw [tokens_skip hskipped, tokens_last hne htoken] at ht
    rw [List.mem_singleton.1 ht]
    exact fun hmem => htoken _ hmem rfl
  | next skipped t' r' hskipped hne htoken ih =>
    rw [tokens_skip hskipped, tokens_next hne htoken] at ht
    rcases List.mem_cons.1 ht with rfl | ht
    · exact fun hmem => htoken _ hmem rfl
    · exact ih ht

/-- Whether there is a token or not, the tokenizer comes to a text with the other tokens, and the token is
the string it found, however the text behind it changes. -/
theorem strtok_step {a z : List UInt8} {s : Option ℕ} {n : ℕ} (hdelim : delim ≠ 0) (hs : s.getD n = a.length)
    (hr : 0 ∉ r) :
    ∃ found a' r' w, strtok ⟨a ++ (r ++ 0 :: z), n⟩ s delim = (found, ⟨a' ++ (r' ++ 0 :: z), a'.length⟩) ∧
      a' ++ r' = a ++ w ∧ w.length = r.length ∧ 0 ∉ r' ∧ tokens delim r' = (tokens delim r).tail ∧
      ∀ v, v.length = r'.length → found.map (string (a' ++ (v ++ 0 :: z))) = (tokens delim r).head? := by
  rcases @strtok_cases r delim a z s n hdelim hs hr with ⟨htokens, hfound⟩ |
    ⟨skipped, t, gap, r', htokens, ht, hr', hne, hlength, hgap, hfound⟩
  · refine ⟨none, a ++ r, [], r, ?_, by simp, rfl, List.not_mem_nil, ?_, ?_⟩
    · rw [hfound, List.append_assoc, List.length_append]
      rfl
    · rw [htokens]
      rfl
    · rw [htokens]
      exact fun _ _ => rfl
  · refine ⟨some (a.length + skipped.length), a ++ skipped ++ t ++ gap, r', skipped ++ (t ++ (gap ++ r')),
      ?_, ?_, ?_, hr', ?_, ?_⟩
    · rw [hfound]
      simp only [List.append_assoc, List.length_append, Nat.add_assoc]
    · simp only [List.append_assoc]
    · simp only [List.length_append]
      omega
    · rw [htokens]
      rfl
    · intro v hv
      -- a NUL is behind the token, or nothing is and the text ends there
      have hend : ∃ y, gap ++ (v ++ 0 :: z) = 0 :: y := by
        rcases hgap with rfl | ⟨rfl, rfl⟩
        · exact ⟨_, rfl⟩
        · rw [List.length_eq_zero_iff.1 hv]
          exact ⟨_, rfl⟩
      obtain ⟨y, hy⟩ := hend
      have hwhole : a ++ skipped ++ t ++ gap ++ (v ++ 0 :: z) = (a ++ skipped) ++ t ++ 0 :: y := by
        rw [List.append_assoc _ gap, hy]
      rw [htokens, hwhole, ← List.length_append]
      exact congrArg some (string_append ht)

end Pieces

end Bytes
end Askozia
