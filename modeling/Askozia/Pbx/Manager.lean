import Askozia.Php.Search

/-!
# Commands over the manager interface (`pbx.inc`)

`pbx_exec` sends a command to the manager socket and reads until the end marker is there, with
`while (strpos($out, "--END COMMAND--") == 0)`. Then it cuts the reply out of what it has read.

* `pbx_exec_iff`: it comes to an end and gives the reply, however the stream is cut, exactly if the marker
  is at least one character after the line of the action.
-/

namespace Askozia
namespace Pbx

open Php

/-! ## Reading -/

/-- `"--END COMMAND--"` -/
def endMarker : List Char := "--END COMMAND--".toList

/-- `strpos($out, "--END COMMAND--") == 0`: nothing found is equal to zero, too. -/
def atStart (out : List Char) : Bool := (strposChars endMarker out).all (· == 0)

/-- The loop of `pbx_exec`: what is read when it ends, within so many rounds. A closed socket gives
nothing more. -/
def readLoop : ℕ → List Char → List (List Char) → Option (List Char)
  | 0, _, _ => none
  | rounds + 1, out, chunks =>
    if atStart out then readLoop rounds (out ++ chunks.headD []) chunks.tail else some out

/-- `$out` of `pbx_exec` once the loop is left, if it is within so many rounds. -/
def readReply (rounds : ℕ) (chunks : List (List Char)) : Option (List Char) :=
  readLoop rounds (chunks.headD []) chunks.tail

/-! ## The reply -/

/-- `substr($out, 0, $length)`: a length below zero leaves out so many characters at the end. -/
def substrTo (length : ℤ) (out : List Char) : List Char :=
  if 0 ≤ length then out.take length.toNat else out.take (out.length - (-length).toNat)

/-- The last three assignments to `$out`. -/
def cutReply (out : List Char) : List Char :=
  let out := out.drop ((strposChars "ActionID".toList out).getD 0)
  let out := out.drop ((strposChars "\n".toList out).getD 0 + 1)
  substrTo ((strposChars endMarker out).getD 0 - 1) out

/-- `pbx_exec($cmd, $output)`: the output, given what the socket delivers, if the loop ends within so
many rounds. -/
def pbxExec (rounds : ℕ) (chunks : List (List Char)) : Option (List Char) :=
  (readReply rounds chunks).map cutReply

/-! ## Streams -/

/-- What is after the line of the first action in a stream, up to the character before the first
marker. -/
structure IsReply (stream output : List Char) : Prop where
  cut : ∃ before line c after, stream =
      before ++ "ActionID".toList ++ line ++ ['\n'] ++ output ++ [c] ++ endMarker ++ after ∧
    strposChars "ActionID".toList stream = some before.length ∧ '\n' ∉ line ∧
    strposChars endMarker stream = some (before.length + 8 + line.length + 1 + output.length + 1)

/-- However a stream is cut, `pbx_exec` comes to an end, and gives the reply if there is a marker. -/
structure ReadsReply (stream : List Char) : Prop where
  ends : ∀ chunks, chunks.flatten = stream → ∃ rounds, (pbxExec rounds chunks).isSome
  reply : (strposChars endMarker stream).isSome → ∀ chunks, chunks.flatten = stream → ∀ rounds output,
    pbxExec rounds chunks = some output → IsReply stream output

/-- The first marker is at least one character after the end of the line of the first action. -/
def MarkerAfterLine (stream : List Char) : Prop :=
  ∃ action line marker, strposChars "ActionID".toList stream = some action ∧
    strposChars ['\n'] (stream.drop action) = some line ∧ strposChars endMarker stream = some marker ∧
    action + line + 1 < marker

section Loop

variable {rounds : ℕ} {out stream : List Char} {chunks : List (List Char)}

theorem endMarker_ne_nil : endMarker ≠ [] := by decide

/-- The loop ends as soon as the marker is found after the first place. -/
theorem readLoop_spec (h : readLoop rounds out chunks = some stream) :
    atStart stream = false ∧ ∃ rest, stream ++ rest = out ++ chunks.flatten := by
  induction rounds generalizing out chunks with
  | zero => cases h
  | succ rounds ih =>
    rw [readLoop] at h
    split_ifs at h with hstart
    · obtain ⟨hend, rest, hrest⟩ := ih h
      refine ⟨hend, rest, ?_⟩
      rw [hrest]
      cases chunks with
      | nil => simp
      | cons chunk r => simp
    · obtain rfl := Option.some.inj h
      exact ⟨by simpa using hstart, chunks.flatten, rfl⟩

/-- With the marker in the stream the loop ends at the latest with the last chunk. -/
theorem readLoop_isSome (h : atStart (out ++ chunks.flatten) = false) :
    (readLoop (chunks.length + 1) out chunks).isSome := by
  induction chunks generalizing out with
  | nil =>
    rw [List.flatten_nil, List.append_nil] at h
    rw [readLoop, if_neg (by simp [h])]
    rfl
  | cons chunk r ih =>
    rw [readLoop]
    split_ifs
    · apply ih
      rw [List.flatten_cons, ← List.append_assoc] at h
      exact h
    · rfl

/-- Without it the loop goes on for ever. -/
theorem readLoop_eq_none (h : atStart stream = true) : readLoop rounds stream [] = none := by
  induction rounds with
  | zero => rfl
  | succ rounds ih =>
    rw [readLoop, if_pos h]
    simpa using ih

theorem atStart_eq_false_iff : atStart out = false ↔ ∃ n, strposChars endMarker out = some n ∧ 0 < n := by
  unfold atStart
  cases hpos : strposChars endMarker out with
  | none => simp
  | some n =>
    rw [Option.all_some, beq_eq_false_iff_ne]
    constructor
    · exact fun hne => ⟨n, rfl, Nat.pos_of_ne_zero hne⟩
    · rintro ⟨m, hm, hlt⟩
      rw [Option.some.inj hm]
      omega

/-- Every way to cut a stream comes to an end, exactly if its marker is after the first place. -/
theorem ends_iff : (∀ chunks, chunks.flatten = stream → ∃ rounds, (pbxExec rounds chunks).isSome) ↔
    ∃ n, strposChars endMarker stream = some n ∧ 0 < n := by
  rw [← atStart_eq_false_iff]
  constructor
  · intro h
    obtain ⟨rounds, hsome⟩ := h [stream] (by simp)
    cases hstart : atStart stream with
    | false => rfl
    | true =>
      have hnone : readReply rounds [stream] = none := readLoop_eq_none hstart
      rw [pbxExec, hnone] at hsome
      cases hsome
  · intro h chunks hchunks
    have hall : chunks.headD [] ++ chunks.tail.flatten = stream := by
      rw [← hchunks]
      cases chunks with
      | nil => rfl
      | cons chunk r => rfl
    refine ⟨chunks.tail.length + 1, ?_⟩
    rw [pbxExec, Option.isSome_map, readReply]
    apply readLoop_isSome
    rw [hall]
    exact h

end Loop

section Reply

variable {stream out : List Char} {action line marker : ℕ}

theorem action_ne_nil : "ActionID".toList ≠ [] := by decide

/-- The line of the action is longer than its first word. -/
theorem eight_le_of_newline (haction : strposChars "ActionID".toList stream = some action)
    (hline : strposChars ['\n'] (stream.drop action) = some line) : 8 ≤ line := by
  obtain ⟨⟨r, hr⟩, -⟩ := (strposChars_eq_some_iff action_ne_nil).1 haction
  obtain ⟨a, b, hdrop, ha, rfl⟩ := exists_of_strposChars hline
  by_contra hshort
  rw [not_le] at hshort
  rw [← hr] at hdrop
  have hat : ("ActionID".toList ++ r)[a.length]? = some '\n' := by
    rw [hdrop]
    simp
  have hword : "ActionID".toList.length = 8 := rfl
  rw [List.getElem?_append_left (by rw [hword]; exact hshort)] at hat
  have hmem : '\n' ∈ "ActionID".toList := List.mem_of_getElem? hat
  revert hmem
  decide

/-- What is cut out of any part of the stream that has the marker. -/
theorem cutReply_eq (haction : strposChars "ActionID".toList stream = some action)
    (hline : strposChars ['\n'] (stream.drop action) = some line)
    (hmarker : strposChars endMarker stream = some marker) (hafter : action + line + 1 < marker)
    {n : ℕ} (hn : marker + 15 ≤ n) :
    cutReply (stream.take n) = (stream.drop (action + line + 1)).take (marker - 1 - (action + line + 1)) := by
  have height := eight_le_of_newline haction hline
  have hlength : marker + 15 ≤ stream.length := length_le_of_strposChars endMarker_ne_nil hmarker
  have hword : "ActionID".toList.length = 8 := rfl
  have hend : endMarker.length = 15 := rfl
  have haction' : strposChars "ActionID".toList (stream.take n) = some action :=
    strposChars_take action_ne_nil haction (by omega)
  have hline' : strposChars "\n".toList ((stream.take n).drop action) = some line := by
    rw [List.drop_take]
    exact strposChars_take (List.cons_ne_nil _ _) hline (show line + 1 ≤ n - action by omega)
  have hmarker' : strposChars endMarker ((stream.take n).drop (action + (line + 1))) =
      some (marker - (action + (line + 1))) :=
    strposChars_drop endMarker_ne_nil (strposChars_take endMarker_ne_nil hmarker (by omega)) (by omega)
  unfold cutReply
  dsimp only
  rw [haction', Option.getD_some, hline', Option.getD_some, List.drop_drop, hmarker', Option.getD_some,
    substrTo, if_pos (by omega), List.drop_take, List.take_take]
  congr 1
  omega

/-- The reply is there, where the marker is after the line. -/
theorem isReply_of_markerAfterLine (haction : strposChars "ActionID".toList stream = some action)
    (hline : strposChars ['\n'] (stream.drop action) = some line)
    (hmarker : strposChars endMarker stream = some marker) (hafter : action + line + 1 < marker) :
    IsReply stream ((stream.drop (action + line + 1)).take (marker - 1 - (action + line + 1))) := by
  have height := eight_le_of_newline haction hline
  have hlength : marker + 15 ≤ stream.length := length_le_of_strposChars endMarker_ne_nil hmarker
  obtain ⟨⟨r, hr⟩, -⟩ := (strposChars_eq_some_iff action_ne_nil).1 haction
  obtain ⟨⟨after, hrest⟩, -⟩ := (strposChars_eq_some_iff endMarker_ne_nil).1 hmarker
  obtain ⟨u, b, hdrop, hu, hline'⟩ := exists_of_strposChars hline
  have hword : "ActionID".toList.length = 8 := rfl
  -- the line starts with the action
  have hu8 : u = "ActionID".toList ++ u.drop 8 := by
    have htake : u.take 8 = "ActionID".toList := by
      have h := congrArg (List.take 8) (hr.trans hdrop)
      rw [List.take_append_of_le_length (by omega), List.take_append_of_le_length (by omega)] at h
      exact h.symm
    rw [← htake, List.take_append_drop]
  have hb : stream.drop (action + line + 1) = b := by
    rw [Nat.add_assoc, ← List.drop_drop, hdrop, ← hline', ← List.drop_drop, List.drop_left]
    rfl
  have hlast : ∃ c, stream.drop (marker - 1) = c :: stream.drop marker := by
    refine ⟨stream[marker - 1], ?_⟩
    rw [List.drop_eq_getElem_cons (by omega)]
    congr 2
    omega
  obtain ⟨c, hc⟩ := hlast
  have hb' : b = b.take (marker - 1 - (action + line + 1)) ++ c :: (endMarker ++ after) := by
    rw [hrest, ← hc]
    conv_lhs => rw [← List.take_append_drop (marker - 1 - (action + line + 1)) b]
    congr 1
    rw [← hb, List.drop_drop]
    congr 1
    omega
  have hstream : stream = stream.take action ++ (u ++ '\n' :: b) := by
    rw [← hdrop, List.take_append_drop]
  have hoffset : (b.take (marker - 1 - (action + line + 1))).length = marker - 1 - (action + line + 1) := by
    rw [List.length_take, ← hb, List.length_drop]
    omega
  rw [hb]
  refine ⟨stream.take action, u.drop 8, c, after, ?_, ?_, ?_, ?_⟩
  · conv_lhs => rw [hstream, hb', hu8]
    simp only [List.append_assoc, List.cons_append, List.nil_append]
  · rw [haction, List.length_take]
    congr 1
    omega
  · exact fun hmem => hu (List.mem_of_mem_drop hmem)
  · rw [hmarker, hoffset, List.length_take, List.length_drop, hline']
    congr 1
    omega

end Reply

/-- `pbx_exec` reads the reply from a stream, however it is cut, exactly if the end marker is at least one
character after the line of the action. -/
theorem pbx_exec_iff (stream : List Char) : ReadsReply stream ↔ MarkerAfterLine stream := by
  -- a reply that is read shows where its parts are; with the parts in place every chunking reads it
  constructor
  · rintro ⟨hends, hreply⟩
    obtain ⟨marker, hmarker, -⟩ := ends_iff.1 hends
    obtain ⟨rounds, hsome⟩ := hends [stream] (by simp)
    obtain ⟨output, houtput⟩ := Option.isSome_iff_exists.1 hsome
    obtain ⟨before, line, c, after, hcut, haction, hline, hplace⟩ :=
      (hreply (by rw [hmarker]; rfl) [stream] (by simp) rounds output houtput).cut
    have hdrop : stream.drop before.length = ("ActionID".toList ++ line) ++ '\n' :: (output ++ [c] ++
        endMarker ++ after) := by
      rw [hcut]
      simp only [List.append_assoc, List.drop_left, List.cons_append, List.nil_append]
    have hnewline : '\n' ∉ "ActionID".toList ++ line := by
      rw [List.mem_append, not_or]
      exact ⟨by decide, hline⟩
    refine ⟨before.length, ("ActionID".toList ++ line).length, _, haction, ?_, hplace, ?_⟩
    · rw [hdrop, strposChars_append hnewline]
    · have hword : "ActionID".toList.length = 8 := rfl
      rw [List.length_append, hword]
      omega
  · rintro ⟨action, line, marker, haction, hline, hmarker, hafter⟩
    constructor
    · exact ends_iff.2 ⟨marker, hmarker, by omega⟩
    · intro _ chunks hchunks rounds output houtput
      obtain ⟨out, hout, rfl⟩ := Option.map_eq_some_iff.1 houtput
      obtain ⟨hfound, rest, hrest⟩ := readLoop_spec hout
      have hstream : out ++ rest = stream := by
        rw [hrest, ← hchunks]
        cases chunks with
        | nil => rfl
        | cons chunk r => rfl
      obtain ⟨m, hm, -⟩ := atStart_eq_false_iff.1 hfound
      -- the marker that ends the loop is the first one in the stream
      have hsame : m = marker := by
        rw [← hstream] at hmarker
        exact strposChars_eq_of_append endMarker_ne_nil hm hmarker
      have hread : marker + 15 ≤ out.length := by
        rw [← hsame]
        exact length_le_of_strposChars endMarker_ne_nil hm
      have htake : out = stream.take out.length := by
        rw [← hstream, List.take_left]
      rw [htake, cutReply_eq haction hline hmarker hafter hread]
      exact isReply_of_markerAfterLine haction hline hmarker hafter

/-- A connection that is closed before the command is answered keeps `pbx_exec` in its loop. -/
theorem not_readsReply : (∀ rounds, pbxExec rounds ["Response: Success\r\n".toList] = none) ∧
    ¬ ReadsReply "Response: Success\r\n".toList := by
  have hnone : ∀ rounds, pbxExec rounds ["Response: Success\r\n".toList] = none := by
    intro rounds
    -- the stream ends before the marker, and the loop goes on reading
    have hloop : readReply rounds ["Response: Success\r\n".toList] = none :=
      readLoop_eq_none (by decide)
    rw [pbxExec, hloop]
    rfl
  refine ⟨hnone, ?_⟩
  intro hreads
  obtain ⟨rounds, hsome⟩ := hreads.ends ["Response: Success\r\n".toList] (by simp)
  rw [hnone rounds] at hsome
  cases hsome

-- a command without output: what comes out depends on how much was read after the marker
example : pbxExec 2 ["ActionID: 1\r\n--END COMMAND--\r\n".toList] = some "--END COMMAND--\r".toList ∧
    pbxExec 2 ["ActionID: 1\r\n--END COMMAND--".toList, "\r\n".toList] = some "--END COMMAND-".toList := by
  decide

end Pbx
end Askozia
