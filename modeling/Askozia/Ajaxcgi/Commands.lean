import Askozia.Ajaxcgi.DecodeUrl
import Mathlib.Data.List.Forall2

/-!
# The commands of a query (`ajax.c`)

`main` takes the query apart in place: it cuts it at every `&`, decodes each piece, and then cuts each
piece at its equals signs.

* `separate_eq` is what the first loop leaves, and `execute_eq` what the second one makes of it.
* `raw_commands_iff`: the first loop stays within its array exactly if a piece is empty.
* `executes_iff`: the commands are executed as they were sent exactly if no value has an equals sign.
-/

namespace Askozia
namespace Ajaxcgi

open Bytes

/-! ## The program -/

/-- The bytes of an ASCII text. -/
def bytes (s : String) : List UInt8 := s.toList.map byte

/-- `char_count(str, ch)` -/
def charCount (m : Memory) (str : ℕ) (ch : UInt8) : ℕ :=
  (List.range (strlen m str)).foldl (fun found i => if read m (str + i) = ch then found + 1 else found) 0

/-- The functions `main` calls for the commands. -/
inductive Call where
  | execShell (command : List UInt8)
  | execAmi (command : List UInt8)
  | getStatCpu
  | getStatNetwork
deriving DecidableEq, Repr

/-- How `main` ends. -/
inductive Ending where
  /-- `return 0;` -/
  | done
  /-- `exit(1);` for a name that is no command. -/
  | unknown (name : List UInt8)
  /-- `NULL` is read as a string. -/
  | crashed
deriving DecidableEq, Repr

/-- The command with a name, for the string behind it. -/
def dispatch (name string : Option (List UInt8)) : Except Ending Call :=
  match name with
  -- a query without a name: NULL is compared
  | none => .error .crashed
  | some name =>
    if name = bytes "exec_shell" then
      match string with
      | some command => .ok (.execShell command)
      | none => .error .crashed
    else if name = bytes "exec_ami" then
      match string with
      | some command => .ok (.execAmi command)
      | none => .error .crashed
    else if name = bytes "get_stat_cpu" then .ok .getStatCpu
    else if name = bytes "get_stat_network" then .ok .getStatNetwork
    else .error (.unknown name)

theorem decodeUrl_length (m : Memory) (p : ℕ) : (decodeUrl m p).length = m.length := by
  have hshift : ∀ n ii length m, length - ii = n → (shift m p ii length).length = m.length := by
    intro n
    induction n with
    | zero =>
      intro ii length m hn
      rw [shift, if_neg (by omega)]
    | succ n ih =>
      intro ii length m hn
      rw [shift, if_pos (by omega), ih _ _ _ (by omega), List.length_set]
  have hloop : ∀ n i length m, length - i ≤ n → (decodeFrom m p i length).length = m.length := by
    intro n
    induction n with
    | zero =>
      intro i length m hn
      rw [decodeFrom_end _ _ _ (by omega)]
    | succ n ih =>
      intro i length m hn
      rw [decodeFrom]
      split_ifs
      · dsimp only
        split_ifs
        · rw [ih _ _ _ (by omega), List.length_set]
        · rw [ih _ _ _ (by omega), hshift _ _ _ _ rfl, List.length_set]
        · exact ih _ _ _ (by omega)
      · rfl
  exact hloop _ _ _ _ (Nat.le_refl _)

/-- Behind a token the tokenizer goes on further than before. -/
theorem strtok_advances {t : Tokenizer} {delim : UInt8} {p : ℕ} (h : (strtok t none delim).1 = some p) :
    t.saved < (strtok t none delim).2.saved ∧ t.saved < t.memory.length ∧
      (strtok t none delim).2.memory.length = t.memory.length := by
  unfold strtok at h ⊢
  dsimp only [Option.getD_none] at h ⊢
  have htoken : t.saved ≤ t.saved + ((t.memory.drop t.saved).takeWhile (· == delim)).length :=
    Nat.le_add_right _ _
  generalize t.saved + ((t.memory.drop t.saved).takeWhile (· == delim)).length = token at h htoken ⊢
  split_ifs at h ⊢ with hend hstop
  · have hlt := lt_length_of_read hend
    refine ⟨?_, by omega, rfl⟩
    -- the token is not empty: there is a byte at its start
    by_contra hle
    have hempty : ((t.memory.drop token).takeWhile fun c => c != delim && c != 0).length = 0 := by
      dsimp only at hle
      omega
    rw [hempty] at hstop
    exact hend hstop
  · have hlt := lt_length_of_read hend
    refine ⟨?_, by omega, List.length_set⟩
    show t.saved < _ + 1
    omega

/-- Each round leaves less of the query, or none. -/
theorem remaining_lt (t : Tokenizer) (p : ℕ) :
    ((strtok { t with memory := decodeUrl t.memory p } none (byte '&')).1.elim 0 fun _ =>
      (strtok { t with memory := decodeUrl t.memory p } none (byte '&')).2.memory.length -
        (strtok { t with memory := decodeUrl t.memory p } none (byte '&')).2.saved + 1) <
      t.memory.length - t.saved + 1 := by
  cases hnext : (strtok { t with memory := decodeUrl t.memory p } none (byte '&')).1 with
  | none => exact Nat.succ_pos _
  | some q =>
    obtain ⟨hsaved, hlt, hlength⟩ := strtok_advances hnext
    dsimp only at hsaved hlt hlength
    rw [decodeUrl_length] at hlt hlength
    show _ - _ + 1 < _
    omega

/-- The first loop of `main`, when `raw_commands[i]` has just been written: the entries that are written
from this one on. -/
def separate (t : Tokenizer) (i : ℕ) (raw : Option ℕ) : List (ℕ × Option ℕ) × Tokenizer :=
  match raw with
  | none => ([(i, none)], t)
  | some p =>
    let t := { t with memory := decodeUrl t.memory p }
    let next := strtok t none (byte '&')
    let (writes, t) := separate next.2 (i + 1) next.1
    ((i, some p) :: writes, t)
termination_by raw.elim 0 fun _ => t.memory.length - t.saved + 1
decreasing_by exact remaining_lt _ p

/-- The second loop of `main`, for the raw commands that are left. -/
def execute (t : Tokenizer) : List ℕ → List Call × Ending
  | [] => ([], .done)
  | p :: r =>
    let name := strtok t (some p) (byte '=')
    let value := strtok name.2 none (byte '=')
    match dispatch (name.1.map (string value.2.memory)) (value.1.map (string value.2.memory)) with
    | .ok call =>
      let (calls, ending) := execute value.2 r
      (call :: calls, ending)
    | .error ending => ([], ending)

/-- What a run of `main` does. -/
structure Run where
  /-- The length of `raw_commands`. -/
  size : ℕ
  /-- The indices at which it is written, and what is written there. -/
  writes : List (ℕ × Option ℕ)
  calls : List Call
  ending : Ending
deriving DecidableEq, Repr

/-- `main` with the query string at an address. -/
def main (m : Memory) (queryString : ℕ) : Run :=
  let first := strtok ⟨m, 0⟩ (some queryString) (byte '&')
  let (writes, t) := separate first.2 0 first.1
  let (calls, ending) := execute t (writes.filterMap Prod.snd)
  { size := charCount m queryString (byte '&') + 1, writes, calls, ending }

/-! ## The first loop -/

section Separate

/-- What is left of a piece of the query, for some byte behind it. -/
def Left (t u : List UInt8) : Prop := ∃ x, u = (decoded x t).takeWhile (· != 0)

/-- The first loop writes one entry for each piece that is not empty, and one more; the entries lead to what
is left of the pieces. -/
theorem separate_eq (r a z : List UInt8) (n : ℕ) (s : Option ℕ) (i : ℕ) (hs : s.getD n = a.length) (hr : 0 ∉ r) :
    ∃ ps us w saved,
      let first := strtok ⟨a ++ (r ++ 0 :: z), n⟩ s (byte '&')
      let last := separate first.2 i first.1
      last.1.map Prod.fst = List.range' i (ps.length + 1) ∧ last.1.filterMap Prod.snd = ps ∧
      last.2 = ⟨a ++ (w ++ 0 :: z), saved⟩ ∧ w.length = r.length ∧
      Laid (a ++ (w ++ 0 :: z)) a.length ps us ∧ List.Forall₂ Left (tokens (byte '&') r) us := by
  -- strtok goes on behind the piece it has cut off, so the induction is on what is left of the query
  induction hn : r.length using Nat.strongRecOn generalizing r a n s i with
  | _ k ih =>
    have hdelim : byte '&' ≠ 0 := by decide
    rcases @strtok_cases r (byte '&') a z s n hdelim hs hr with ⟨htokens, hfirst⟩ |
      ⟨skipped, t, gap, r', htokens, ht, hr', hne, hlength, hgap, hfirst⟩
    · refine ⟨[], [], r, a.length + r.length, ?_⟩
      rw [hfirst, htokens]
      dsimp only
      rw [separate]
      exact ⟨rfl, rfl, rfl, hn, trivial, .nil⟩
    · -- behind the token there is a NUL, and the rest of the query
      obtain ⟨y, hy⟩ : ∃ y, gap ++ (r' ++ 0 :: z) = 0 :: y := by
        rcases hgap with rfl | ⟨rfl, rfl⟩
        · exact ⟨_, rfl⟩
        · exact ⟨_, rfl⟩
      -- decoding shortens the piece in place; the bytes behind its end are padding up to the old length
      obtain ⟨pad, hdecode, hpadLength, hpad⟩ := @decodeUrl_eq t (a ++ skipped) y ht
      generalize hd : decoded (y.getD 0 0) t ++ pad = d at *
      have hdLength : d.length = t.length := by
        rw [← hd, List.length_append]
        exact hpadLength
      have hstart : (a ++ skipped).length = a.length + skipped.length := List.length_append
      have hmemory : decodeUrl (a ++ (skipped ++ (t ++ (gap ++ (r' ++ 0 :: z))))) (a.length + skipped.length) =
          (a ++ skipped ++ d ++ gap) ++ (r' ++ 0 :: z) := by
        have hbefore : a ++ (skipped ++ (t ++ (gap ++ (r' ++ 0 :: z)))) = a ++ skipped ++ (t ++ 0 :: y) := by
          rw [hy, List.append_assoc]
        rw [hbefore, ← hstart, hdecode, List.append_assoc _ gap, hy, ← hd]
        simp only [List.append_assoc]
      have hsaved : (a ++ skipped ++ d ++ gap).length = a.length + skipped.length + t.length + gap.length := by
        simp only [List.length_append, hdLength]
      have htpos : 0 < t.length := List.length_pos_of_ne_nil hne
      -- the rest, with the decoded piece as a part of what lies before it
      obtain ⟨ps, us, w, saved, hindices, hpointers, hlast, hw, hlaid, hus⟩ :=
        ih r'.length (by omega) r' (a ++ skipped ++ d ++ gap)
          (a.length + skipped.length + t.length + gap.length) none (i + 1) hsaved.symm hr' rfl
      refine ⟨(a.length + skipped.length) :: ps, d.takeWhile (· != 0) :: us, skipped ++ (d ++ (gap ++ w)),
        saved, ?_⟩
      rw [hfirst, htokens]
      dsimp only at hindices hpointers hlast ⊢
      rw [separate]
      dsimp only
      rw [hmemory]
      refine ⟨?_, ?_, ?_, ?_, ?_, ?_⟩
      · rw [List.map_cons, hindices]
        rfl
      · show _ :: List.filterMap Prod.snd _ = _
        rw [hpointers]
      · rw [hlast]
        simp only [List.append_assoc]
      · simp only [List.length_append, hdLength, hw]
        omega
      · -- the decoded piece is still a string in the final memory: what follows it was not moved
        have hend : ∃ y', gap ++ (w ++ 0 :: z) = 0 :: y' := by
          rcases hgap with rfl | ⟨rfl, rfl⟩
          · exact ⟨_, rfl⟩
          · rw [List.length_eq_zero_iff.1 hw]
            exact ⟨_, rfl⟩
        obtain ⟨y', hy'⟩ := hend
        have hwhole : a ++ (skipped ++ (d ++ (gap ++ w)) ++ 0 :: z) = (a ++ skipped) ++ (d ++ 0 :: y') := by
          rw [← hy']
          simp only [List.append_assoc]
        have hdrop : (a ++ (skipped ++ (d ++ (gap ++ w)) ++ 0 :: z)).drop (a.length + skipped.length) =
            d ++ 0 :: y' := by
          rw [hwhole, ← hstart, drop_length]
        refine ⟨Nat.le_add_right _ _, holds_takeWhile hdrop, ?_⟩
        rcases hgap with rfl | ⟨rfl, rfl⟩
        · have hprefix := (List.takeWhile_prefix (p := (· != (0 : UInt8))) (l := d)).length_le
          have hwhole' : a ++ (skipped ++ (d ++ ([0] ++ w)) ++ 0 :: z) =
              (a ++ skipped ++ d ++ [0]) ++ (w ++ 0 :: z) := by
            simp only [List.append_assoc]
          rw [hwhole']
          refine Laid.mono ?_ hlaid
          rw [hsaved, List.length_singleton]
          omega
        · -- nothing is left of the query
          cases hus
          cases ps with
          | nil => trivial
          | cons p ps => exact absurd hlaid id
      · refine .cons ⟨y.getD 0 0, ?_⟩ hus
        rw [← hd, takeWhile_pad hpad]

end Separate

/-! ## The length of the array -/

section Size

variable {m : Memory} {p : ℕ} {s : List UInt8}

theorem charCount_eq (h : Holds m p s) (ch : UInt8) : charCount m p ch = s.count ch := by
  have hfold : ∀ (xs : List ℕ) (found : ℕ), xs.foldl (fun found i => if read m (p + i) = ch then found + 1
      else found) found = found + (xs.map fun i => read m (p + i)).count ch := by
    intro xs
    induction xs with
    | nil => exact fun found => rfl
    | cons i xs ih =>
      intro found
      rw [List.foldl_cons, ih, List.map_cons, List.count_cons]
      by_cases hc : read m (p + i) = ch
      · simp only [hc, if_true, beq_self_eq_true]
        omega
      · simp only [hc, if_false, beq_iff_eq]
        omega
  have hread : (List.range s.length).map (fun i => read m (p + i)) = s := by
    obtain ⟨-, a, z, rfl, rfl⟩ := h
    apply List.ext_getElem
    · rw [List.length_map, List.length_range]
    · intro i hi hi'
      rw [List.getElem_map, List.getElem_range, List.append_assoc, read_append]
      unfold Bytes.read
      rw [List.getD_eq_getElem?_getD, List.getElem?_append_left hi', List.getElem?_eq_getElem hi']
      rfl
  unfold charCount strlen
  rw [h.string, hfold, hread, Nat.zero_add]

/-- What the first loop of `main` leaves. -/
theorem main_eq (h : Holds m p s) : ∃ ps us t, (main m p).writes.map Prod.fst = List.range (ps.length + 1) ∧
    ((main m p).calls, (main m p).ending) = execute t ps ∧ Laid t.memory p ps us ∧
    List.Forall₂ Left (tokens (byte '&') s) us := by
  obtain ⟨hs, a, z, rfl, rfl⟩ := h
  obtain ⟨ps, us, w, saved, hindices, hpointers, hlast, -, hlaid, hus⟩ :=
    separate_eq s a z 0 (some a.length) 0 rfl hs
  rw [List.append_assoc]
  refine ⟨ps, us, ⟨a ++ (w ++ 0 :: z), saved⟩, ?_, ?_, hlaid, hus⟩
  · rw [List.range_eq_range', ← hindices]
    rfl
  · rw [← hlast, ← hpointers]
    rfl

/-- The array is long enough for one entry less than there are pieces. -/
theorem raw_commands_tokens (h : Holds m p s) : (∀ w ∈ (main m p).writes, w.1 < (main m p).size) ↔
    (tokens (byte '&') s).length < (s.splitOn (byte '&')).length := by
  obtain ⟨ps, us, t, hindices, -, hlaid, hus⟩ := main_eq h
  have hlength : ps.length = (tokens (byte '&') s).length := hlaid.length.trans hus.length_eq.symm
  have hsize : (main m p).size = (s.splitOn (byte '&')).length := by
    rw [length_splitOn, ← charCount_eq h]
    rfl
  have hwrites : (∀ w ∈ (main m p).writes, w.1 < (main m p).size) ↔ ps.length < (main m p).size := by
    have hmem : ∀ i, (∃ w ∈ (main m p).writes, w.1 = i) ↔ i < ps.length + 1 := by
      intro i
      rw [← List.mem_range, ← hindices, List.mem_map]
    constructor
    · intro hall
      obtain ⟨w, hw, hi⟩ := (hmem ps.length).2 (Nat.lt_succ_self _)
      rw [← hi]
      exact hall w hw
    · intro hlt w hw
      have hi := (hmem w.1).1 ⟨w, hw, rfl⟩
      omega
  rw [hwrites, hlength, hsize]

/-- `raw_commands` is written within its length if a piece of the query is empty, and only then. -/
theorem raw_commands_iff (h : Holds m p s) :
    (∀ w ∈ (main m p).writes, w.1 < (main m p).size) ↔ [] ∈ s.splitOn (byte '&') := by
  rw [raw_commands_tokens h]
  unfold tokens
  rw [List.length_filter_lt_length_iff_exists]
  simp

/-- A query that ends with a separator. -/
theorem raw_commands_trailing : Holds [97, 38, 0] 0 [97, 38] ∧
    ∀ w ∈ (main [97, 38, 0] 0).writes, w.1 < (main [97, 38, 0] 0).size := by
  have hm : Holds [97, 38, 0] 0 [97, 38] := ⟨by decide, [], [], rfl, rfl⟩
  exact ⟨hm, (raw_commands_iff hm).2 (by decide)⟩

/-- A query of one command: the entry that ends the commands is written behind the array. -/
theorem not_raw_commands :
    Holds [97, 0] 0 [97] ∧ ¬ ∀ w ∈ (main [97, 0] 0).writes, w.1 < (main [97, 0] 0).size := by
  have hm : Holds [97, 0] 0 [97] := ⟨by decide, [], [], rfl, rfl⟩
  refine ⟨hm, ?_⟩
  rw [raw_commands_tokens hm]
  decide

end Size

/-! ## The second loop -/

/-- What the second loop makes of the pieces: the first two tokens of each are the name and the value. -/
def answers : List (List UInt8) → List Call × Ending
  | [] => ([], .done)
  | u :: us =>
    match dispatch (tokens (byte '=') u).head? (tokens (byte '=') u).tail.head? with
    | .ok call => (call :: (answers us).1, (answers us).2)
    | .error ending => ([], ending)

section Execute

variable {a u z : List UInt8} {n p : ℕ} {ps : List ℕ} {us : List (List UInt8)} {t : Tokenizer}

/-- Two calls of the tokenizer give the first two tokens. -/
theorem strtok_pair (hu : 0 ∉ u) :
    let name := strtok ⟨a ++ (u ++ 0 :: z), n⟩ (some a.length) (byte '=')
    let value := strtok name.2 none (byte '=')
    name.1.map (string value.2.memory) = (tokens (byte '=') u).head? ∧
      value.1.map (string value.2.memory) = (tokens (byte '=') u).tail.head? ∧
      value.2.memory.drop (a.length + u.length + 1) = z := by
  have hdelim : byte '=' ≠ 0 := by decide
  obtain ⟨found, a', r', w, hfirst, hsum, hlength, hr', htokens, hname⟩ :=
    @strtok_step u (byte '=') a z (some a.length) n hdelim rfl hu
  obtain ⟨found', a'', r'', w', hsecond, hsum', hlength', -, -, hvalue⟩ :=
    @strtok_step r' (byte '=') a' z none a'.length hdelim rfl hr'
  have hmemory : a'' ++ (r'' ++ 0 :: z) = a' ++ (w' ++ 0 :: z) := by
    rw [← List.append_assoc, hsum', List.append_assoc]
  rw [hfirst]
  dsimp only
  rw [hsecond]
  refine ⟨?_, ?_, ?_⟩
  · rw [hmemory, hname w' hlength']
  · rw [hvalue r'' rfl, htokens]
  · have hend : (a'' ++ r'').length = a.length + u.length := by
      have hboth := congrArg List.length hsum
      rw [List.length_append, List.length_append, hlength] at hboth
      rw [hsum', List.length_append, hlength', hboth]
    rw [← List.append_assoc, ← hend, ← List.drop_drop, drop_length]
    rfl

/-- The second loop executes the strings that lie at the addresses. -/
theorem execute_eq (h : Laid t.memory n ps us) : execute t ps = answers us := by
  induction ps generalizing t n us with
  | nil =>
    cases us with
    | nil => rfl
    | cons u us => exact absurd h id
  | cons p ps ih =>
    cases us with
    | nil => exact absurd h id
    | cons u us =>
      obtain ⟨-, ⟨hu, a, z, hmemory, rfl⟩, hlaid⟩ := h
      obtain ⟨hname, hvalue, hdrop⟩ := @strtok_pair a u z t.saved hu
      rw [List.append_assoc] at hmemory
      have ht : t = ⟨a ++ (u ++ 0 :: z), t.saved⟩ := by
        rw [← hmemory]
      rw [← ht] at hname hvalue hdrop
      have hsame : (strtok (strtok t (some a.length) (byte '=')).2 none (byte '=')).2.memory.drop
          (a.length + u.length + 1) = t.memory.drop (a.length + u.length + 1) := by
        rw [hdrop, hmemory, ← List.append_assoc, ← List.length_append, ← List.drop_drop, drop_length]
        rfl
      have hrest := ih (hlaid.congr hsame)
      rw [execute, answers]
      dsimp only
      rw [hname, hvalue]
      cases dispatch (tokens (byte '=') u).head? (tokens (byte '=') u).tail.head? with
      | error ending => rfl
      | ok call =>
        dsimp only
        rw [hrest]

end Execute

/-! ## Queries -/

/-- The names of the commands. -/
inductive CommandName where
  | execShell
  | execAmi
  | getStatCpu
  | getStatNetwork
deriving DecidableEq, Repr

/-- The name as it is in a query. -/
def CommandName.text : CommandName → List UInt8
  | execShell => bytes "exec_shell"
  | execAmi => bytes "exec_ami"
  | getStatCpu => bytes "get_stat_cpu"
  | getStatNetwork => bytes "get_stat_network"

/-- What a command is there for. -/
def CommandName.call : CommandName → List UInt8 → Call
  | execShell, value => .execShell value
  | execAmi, value => .execAmi value
  | getStatCpu, _ => .getStatCpu
  | getStatNetwork, _ => .getStatNetwork

/-- The command is executed with its value. -/
def CommandName.takesValue : CommandName → Bool
  | execShell => true
  | execAmi => true
  | _ => false

/-- Letters and digits. -/
def isalnum (c : UInt8) : Bool :=
  (byte '0' ≤ c && c ≤ byte '9') || (byte 'a' ≤ c && c ≤ byte 'z') || (byte 'A' ≤ c && c ≤ byte 'Z')

/-- A value in a query: every byte that is no letter and no digit is an escape, and others may be. -/
inductive PercentEncodes : List UInt8 → List UInt8 → Prop
  | nil : PercentEncodes [] []
  | itself {c : UInt8} {s e : List UInt8} : isalnum c = true → PercentEncodes s e →
      PercentEncodes (c :: s) (c :: e)
  | escape {c h l : UInt8} {s e : List UInt8} : isxdigit h = true → isxdigit l = true →
      16 * digitValue h + digitValue l = c.toNat → PercentEncodes s e →
      PercentEncodes (c :: s) (byte '%' :: h :: l :: e)

/-- The query for some commands: `name=value`, joined with `&`. -/
inductive Query : List (CommandName × List UInt8) → List UInt8 → Prop
  | one {name : CommandName} {v e : List UInt8} : PercentEncodes v e →
      Query [(name, v)] (name.text ++ byte '=' :: e)
  | more {name : CommandName} {v e : List UInt8} {cs : List (CommandName × List UInt8)} {q : List UInt8} :
      PercentEncodes v e → Query cs q →
      Query ((name, v) :: cs) ((name.text ++ byte '=' :: e) ++ byte '&' :: q)

/-- A command as it is after the first loop. -/
def piece (c : CommandName × List UInt8) : List UInt8 := c.1.text ++ byte '=' :: c.2

section Queries

variable {name : CommandName} {s e v q : List UInt8} {m : Memory} {p : ℕ}
  {cs : List (CommandName × List UInt8)}

/-- A byte that means nothing in a query. -/
def isPlain (c : UInt8) : Bool :=
  c != byte '+' && c != byte '%' && c != 0 && c != byte '&' && c != byte '='

theorem isPlain_text (name : CommandName) : name.text.all isPlain = true := by
  cases name <;> decide

/-- Letters and digits mean nothing. -/
theorem isPlain_of_isalnum {c : UInt8} (h : (isalnum c || isxdigit c) = true) : isPlain c = true := by
  have hall : ∀ n < 256, (isalnum (UInt8.ofNat n) || isxdigit (UInt8.ofNat n)) = true →
      isPlain (UInt8.ofNat n) = true := by decide +kernel
  rw [← UInt8.ofNat_toNat (x := c)] at h ⊢
  exact hall _ c.toNat_lt h

theorem encodes_plain (hs : s.all isPlain = true) (h : Encodes v e) : Encodes (s ++ v) (s ++ e) := by
  induction s with
  | nil => exact h
  | cons c s ih =>
    rw [List.all_cons, Bool.and_eq_true] at hs
    have hc := hs.1
    unfold isPlain at hc
    simp only [Bool.and_eq_true, bne_iff_ne] at hc
    exact .itself hc.1.1.1.1 hc.1.1.1.2 hc.1.1.2 (ih hs.2)

theorem PercentEncodes.encodes (h : PercentEncodes v e) : Encodes v e := by
  induction h with
  | nil => exact .nil
  | @itself c s e hc _ ih =>
    have hplain := isPlain_of_isalnum (c := c) (by rw [hc, Bool.true_or])
    exact @encodes_plain [c] e s (by simp [hplain]) ih
  | escape hh hl hc _ ih => exact .escape hh hl hc ih

/-- An encoded value has no separator and no NUL. -/
theorem PercentEncodes.plain (h : PercentEncodes v e) : ∀ c ∈ e, c ≠ byte '&' ∧ c ≠ 0 := by
  have hplain : ∀ {c : UInt8}, (isalnum c || isxdigit c) = true → c ≠ byte '&' ∧ c ≠ 0 := by
    intro c hc
    have hplain := isPlain_of_isalnum hc
    unfold isPlain at hplain
    simp only [Bool.and_eq_true, bne_iff_ne] at hplain
    exact ⟨hplain.1.2, hplain.1.1.2⟩
  induction h with
  | nil => exact fun c hc => absurd hc List.not_mem_nil
  | itself hc _ ih =>
    intro c' hc'
    rcases List.mem_cons.1 hc' with rfl | hc'
    · exact hplain (by rw [hc, Bool.true_or])
    · exact ih c' hc'
  | escape hh hl _ _ ih =>
    intro c' hc'
    rcases List.mem_cons.1 hc' with rfl | hc'
    · exact ⟨by decide, by decide⟩
    · rcases List.mem_cons.1 hc' with rfl | hc'
      · exact hplain (by rw [hh, Bool.or_true])
      · rcases List.mem_cons.1 hc' with rfl | hc'
        · exact hplain (by rw [hl, Bool.or_true])
        · exact ih c' hc'

theorem plain_text (name : CommandName) :
    ∀ c ∈ name.text, c ≠ byte '&' ∧ c ≠ 0 ∧ c ≠ byte '=' := by
  intro c hc
  have hplain := List.all_eq_true.1 (isPlain_text name) c hc
  unfold isPlain at hplain
  simp only [Bool.and_eq_true, bne_iff_ne] at hplain
  exact ⟨hplain.1.2, hplain.1.1.2, hplain.2⟩

theorem text_ne_nil (name : CommandName) : name.text ≠ [] := by
  cases name <;> decide

/-- What is left of an encoded command is the command. -/
theorem left_piece {u : List UInt8} (h : PercentEncodes v e) (hv : 0 ∉ v)
    (hu : Left (name.text ++ byte '=' :: e) u) : u = piece (name, v) := by
  obtain ⟨x, rfl⟩ := hu
  have henc : Encodes (name.text ++ byte '=' :: v) (name.text ++ byte '=' :: e) :=
    encodes_plain (isPlain_text name) (.itself (by decide) (by decide) (by decide) h.encodes)
  rw [decoded_encodes x henc]
  apply List.takeWhile_eq_self_iff.2
  intro c hc
  rw [bne_iff_ne]
  rintro rfl
  rcases List.mem_append.1 hc with hc | hc
  · exact (plain_text name 0 hc).2.1 rfl
  · rcases List.mem_cons.1 hc with hc | hc
    · exact absurd hc (by decide)
    · exact hv hc

/-- The pieces of a query are its commands. -/
theorem left_query {us : List (List UInt8)} (hq : Query cs q) (hv : ∀ c ∈ cs, 0 ∉ c.2)
    (hus : List.Forall₂ Left (tokens (byte '&') q) us) : us = cs.map piece := by
  have hne : ∀ (name : CommandName) (e : List UInt8), name.text ++ byte '=' :: e ≠ [] := by
    intro name e
    simp
  have htoken : ∀ {name : CommandName} {v e : List UInt8}, PercentEncodes v e →
      ∀ c ∈ name.text ++ byte '=' :: e, c ≠ byte '&' := by
    intro name v e h c hc
    rcases List.mem_append.1 hc with hc | hc
    · exact (plain_text name c hc).1
    · rcases List.mem_cons.1 hc with rfl | hc
      · decide
      · exact (h.plain c hc).1
  induction hq generalizing us with
  | one henc =>
    rw [tokens_last (hne _ _) (htoken henc)] at hus
    cases hus with
    | cons hu hus =>
      cases hus
      rw [left_piece henc (hv _ List.mem_cons_self) hu]
      rfl
  | more henc _ ih =>
    rw [tokens_next (hne _ _) (htoken henc)] at hus
    cases hus with
    | cons hu hus =>
      rw [left_piece henc (hv _ List.mem_cons_self) hu, ih (fun c hc => hv c (List.mem_cons_of_mem _ hc)) hus]
      rfl

/-- A name is dispatched to its command. -/
theorem dispatch_text (name : CommandName) (value : Option (List UInt8)) :
    dispatch (some name.text) value = if name.takesValue = true then
      match value with
      | some v => .ok (name.call v)
      | none => .error .crashed
    else .ok (name.call []) := by
  have hshell : bytes "exec_ami" ≠ bytes "exec_shell" := by decide
  have hcpu : bytes "get_stat_cpu" ≠ bytes "exec_shell" ∧ bytes "get_stat_cpu" ≠ bytes "exec_ami" := by decide
  have hnetwork : bytes "get_stat_network" ≠ bytes "exec_shell" ∧ bytes "get_stat_network" ≠ bytes "exec_ami" ∧
      bytes "get_stat_network" ≠ bytes "get_stat_cpu" := by decide
  unfold dispatch
  cases name with
  | execShell => exact if_pos rfl
  | execAmi => exact (if_neg hshell).trans (if_pos rfl)
  | getStatCpu => exact (if_neg hcpu.1).trans ((if_neg hcpu.2).trans (if_pos rfl))
  | getStatNetwork =>
    exact (if_neg hnetwork.1).trans ((if_neg hnetwork.2.1).trans ((if_neg hnetwork.2.2).trans (if_pos rfl)))

theorem CommandName.call_injective {w : List UInt8} (name : CommandName) (h : name.takesValue = true)
    (hcall : name.call v = name.call w) : v = w := by
  cases name with
  | execShell => exact Call.execShell.inj hcall
  | execAmi => exact Call.execAmi.inj hcall
  | getStatCpu => cases h
  | getStatNetwork => cases h

/-- A command is dispatched with its value exactly if no equals sign cuts the value off. -/
theorem dispatch_piece (hv : v ≠ []) :
    dispatch (tokens (byte '=') (piece (name, v))).head? (tokens (byte '=') (piece (name, v))).tail.head? =
      .ok (name.call v) ↔ (name.takesValue = true → byte '=' ∉ v) := by
  -- the names have no `=` in them, so the first token is the name
  have htokens : tokens (byte '=') (piece (name, v)) = name.text :: tokens (byte '=') v :=
    tokens_next (text_ne_nil name) fun c hc => (plain_text name c hc).2.2
  have hvalue : (tokens (byte '=') v).head? = some v ↔ byte '=' ∉ v := by
    constructor
    · intro hhead
      exact not_mem_of_mem_tokens (List.mem_of_mem_head? hhead)
    · intro hmem
      have hnone : ∀ c ∈ v, c ≠ byte '=' := fun c hc heq => hmem (heq ▸ hc)
      rw [tokens_last hv hnone]
      rfl
  rw [htokens, List.head?_cons, List.tail_cons, dispatch_text]
  -- only the two exec commands look at their value
  cases hname : name.takesValue with
  | false =>
    have hcall : name.call [] = name.call v := by
      cases name with
      | execShell => cases hname
      | execAmi => cases hname
      | getStatCpu => rfl
      | getStatNetwork => rfl
    simp [hcall]
  | true =>
    rw [if_pos rfl, ← hvalue]
    cases (tokens (byte '=') v).head? with
    | none => simp
    | some w =>
      constructor
      · intro h _
        rw [name.call_injective hname (Except.ok.inj h)]
      · intro h
        rw [Option.some.inj (h rfl)]

theorem answers_pieces (hv : ∀ c ∈ cs, c.2 ≠ []) :
    answers (cs.map piece) = (cs.map (fun c => c.1.call c.2), .done) ↔
      ∀ c ∈ cs, c.1.takesValue = true → byte '=' ∉ c.2 := by
  induction cs with
  | nil => exact iff_of_true rfl fun c hc => absurd hc List.not_mem_nil
  | cons c cs ih =>
    obtain ⟨name, v⟩ := c
    have hdispatch := @dispatch_piece name v (hv _ List.mem_cons_self)
    have ih := ih fun c hc => hv c (List.mem_cons_of_mem _ hc)
    rw [List.forall_mem_cons, ← hdispatch, ← ih, List.map_cons, List.map_cons, answers]
    cases dispatch (tokens (byte '=') (piece (name, v))).head?
        (tokens (byte '=') (piece (name, v))).tail.head? with
    | error ending => simp
    | ok call => simp [Prod.ext_iff, and_assoc]

/-- What `main` does with a query. -/
theorem main_query (hq : Query cs q) (hv : ∀ c ∈ cs, 0 ∉ c.2) (hm : Holds m p q) :
    ((main m p).calls, (main m p).ending) = answers (cs.map piece) := by
  obtain ⟨ps, us, t, -, hcalls, hlaid, hus⟩ := main_eq hm
  rw [hcalls, execute_eq hlaid, left_query hq hv hus]

/-- The commands of a query are executed in their order and with their values, exactly if no value that is
executed has an equals sign. -/
theorem executes_iff (hq : Query cs q) (hv : ∀ c ∈ cs, c.2 ≠ [] ∧ 0 ∉ c.2) (hm : Holds m p q) :
    ((main m p).calls = cs.map (fun c => c.1.call c.2) ∧ (main m p).ending = .done) ↔
      ∀ c ∈ cs, c.1.takesValue = true → byte '=' ∉ c.2 := by
  rw [← answers_pieces fun c hc => (hv c hc).1, ← main_query hq (fun c hc => (hv c hc).2) hm, Prod.mk.injEq]

/-- `get_stat_cpu=%3d&exec_ami=a%20b` -/
def twoCommands : List UInt8 :=
  (bytes "get_stat_cpu" ++ byte '=' :: [37, 51, 100]) ++ byte '&' ::
    (bytes "exec_ami" ++ byte '=' :: [97, 37, 50, 48, 98])

theorem executes_two : (main ([] ++ twoCommands ++ [0]) 0).calls = [.getStatCpu, .execAmi [97, 32, 98]] ∧
    (main ([] ++ twoCommands ++ [0]) 0).ending = .done := by
  have hq : Query [(.getStatCpu, [61]), (.execAmi, [97, 32, 98])] twoCommands := by
    refine .more (.escape (by decide) (by decide) (by decide) .nil) (.one ?_)
    exact .itself (by decide) (.escape (by decide) (by decide) (by decide) (.itself (by decide) .nil))
  have hvalues : ∀ c ∈ [(CommandName.getStatCpu, [(61 : UInt8)]), (.execAmi, [97, 32, 98])],
      c.2 ≠ [] ∧ 0 ∉ c.2 := by decide
  have hnul : 0 ∉ twoCommands := by decide
  exact (executes_iff hq hvalues (holds_append (a := []) hnul)).2 (by decide)

/-- `exec_shell=a%3db` -/
def oneAssignment : List UInt8 := bytes "exec_shell" ++ byte '=' :: [97, 37, 51, 100, 98]

/-- Of the value `a=b` only `a` is executed. -/
theorem not_executes : Query [(.execShell, [97, 61, 98])] oneAssignment ∧
    Holds ([] ++ oneAssignment ++ [0]) 0 oneAssignment ∧
    (main ([] ++ oneAssignment ++ [0]) 0).calls = [.execShell [97]] := by
  have hq : Query [(.execShell, [97, 61, 98])] oneAssignment := by
    refine .one (.itself (by decide) ?_)
    -- the assignment sign is written as an escape, and decoded before the value is split
    exact .escape (by decide) (by decide) (by decide) (.itself (by decide) .nil)
  have hvalues : ∀ c ∈ [(CommandName.execShell, [(97 : UInt8), 61, 98])], 0 ∉ c.2 := by decide
  have hnul : 0 ∉ oneAssignment := by decide
  have hm : Holds ([] ++ oneAssignment ++ [0]) 0 oneAssignment := holds_append (a := []) hnul
  have hanswers : answers ([(CommandName.execShell, [(97 : UInt8), 61, 98])].map piece) =
      ([.execShell [97]], .done) := by decide
  exact ⟨hq, hm, congrArg Prod.fst ((main_query hq hvalues hm).trans hanswers)⟩

end Queries

end Ajaxcgi
end Askozia
