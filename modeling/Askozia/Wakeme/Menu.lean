import Askozia.Asterisk.Dialplan
import Askozia.Wakeme.SetWakeup
import Mathlib.Data.List.Infix

/-!
# Wake-up calls (`app_wakeme.c`): whose

`_setwakeup` leaves a file in the spool, with the time and the extension in its name. `wakeme_exec`
looks for one with the number of the caller in its name, and lets the caller cancel it, or, when it is
the wake-up call itself, put it off by ten minutes.

* `own_call_iff`: the file is the caller's in every order of the directory, exactly if no call is for a
  longer extension that starts with the number of the caller.
-/

namespace Askozia
namespace Wakeme

open Php Asterisk

/-! ## Files -/

/-- A wake-up call: its time and its extension. -/
structure Call where
  time_int : ℕ
  cid : List Char
deriving DecidableEq, Repr

/-- The name `_setwakeup` gives its file, `"wakeme_%04d_ext_%s.call"`. -/
def Call.file (c : Call) : List Char :=
  "wakeme_".toList ++ padded 4 c.time_int ++ "_ext_".toList ++ c.cid ++ ".call".toList

/-- `strstr(haystack, needle)` finds something. -/
def strstr (haystack needle : List Char) : Bool := haystack.tails.any needle.isPrefixOf

/-- `_file_filter(entry)` -/
def fileFilter (name : List Char) : Bool := strstr name "wakeme".toList

/-- `existing_wakeup_file`: the first file of the directory with the number in its name. -/
def existingWakeupFile (directory : List (List Char)) (cid_num : List Char) : Option (List Char) :=
  (directory.filter fileFilter).find? fun name => strstr name ("ext_".toList ++ cid_num)

/-- `atoi` of the four characters that should be the time. -/
def fileTime (name : List Char) : ℕ := Val.digitsValue (((name.drop 7).take 4).takeWhile Char.isDigit)

/-! ## The menus -/

/-- What the caller is asked, with the prompts of a menu counted from zero, and the time that was
entered. -/
inductive State where
  | snooze (prompt : ℕ)
  | cancel (prompt : ℕ)
  | cancelled
  | cancelledSilence
  | request
  | enterTime
  | digits (time_str : List Char)
  | imSorry
  | ampm (time_int : ℕ)
  | ampmSilence (time_int : ℕ)
  | confirm (time_int : ℕ) (prompt : ℕ)
  | thanks
  | goodbye
  | out
deriving DecidableEq, Repr

/-- What a session does besides asking. -/
inductive Event where
  /-- The time of a file is said. -/
  | say (file : List Char)
  /-- A file is removed. -/
  | remove (file : List Char)
  /-- `_setwakeup(time_int, data)`, ten minutes after the time of a file. -/
  | snooze (file : Option (List Char)) (time_int : ℕ) (data : List Char)
  /-- `_setwakeup(time_int, cid_num)` -/
  | setwakeup (time_int : ℕ) (cid_num : List Char)
deriving DecidableEq, Repr

/-- The file an event is about. -/
def Event.file : Event → Option (List Char)
  | say file => some file
  | remove file => some file
  | snooze file _ _ => file
  | setwakeup _ _ => none

/-- What does not change in a session: the file that was found, the number of the caller, the argument
of the application, and whether `remove` and `fopen` succeed. -/
structure Session where
  existing : Option (List Char)
  cid_num : List Char
  data : List Char
  removes : Bool
  opens : Bool

/-- `(char)res == c` -/
def isKey (res : ℤ) (c : Char) : Bool := res % 256 == c.toNat

/-- Ten minutes later. -/
def tenMinutesLater (time_int : ℕ) : ℕ :=
  if time_int / 100 = 23 ∧ time_int % 100 ≥ 50 then time_int - 2350
  else if time_int % 100 ≥ 50 then time_int + 50
  else time_int + 10

/-- Am or pm. -/
def adjusted (time_int : ℕ) (pm : Bool) : ℕ :=
  if time_int < 1200 ∧ pm then time_int + 1200
  else if time_int ≥ 1200 ∧ !pm then time_int - 1200
  else time_int

/-- Four characters have been entered. -/
def entered (time_str : List Char) : State :=
  let time_int := Val.digitsValue (time_str.takeWhile Char.isDigit)
  if time_str.any (fun c => c == '#' || c == '*') || time_int % 100 ≥ 60 || time_int > 2400 then .imSorry
  else if time_int < 1300 ∧ time_int ≥ 100 then .ampm time_int
  else .confirm time_int 0

/-- One more character of the time. -/
def digit (time_str : List Char) (res : ℤ) : State :=
  let time_str := time_str ++ [Char.ofNat (res % 256).toNat]
  if time_str.length < 4 then .digits time_str else entered time_str

/-- `_setwakeup` has been called, and `res` is its result. -/
def Session.done (s : Session) : State := if s.opens then .thanks else .out

/-- A session after the answer to a prompt: `0`, a key, or less if the caller has hung up. -/
def Session.step (s : Session) (res : ℤ) : State → State × List Event
  | .snooze prompt =>
    if res = 0 ∧ prompt < 5 then (.snooze (prompt + 1), [])
    else if isKey res '0' then
      (s.done, [.snooze s.existing (tenMinutesLater ((s.existing.map fileTime).getD 0)) s.data])
    else if res < 0 then (.out, [])
    else (.snooze 0, [])
  | .cancel prompt =>
    if res = 0 ∧ prompt < 3 then
      -- the time is said between the second prompt and the third
      (.cancel (prompt + 1), if prompt = 1 then s.existing.toList.map .say else [])
    else if isKey res '1' then
      (if s.removes then .cancelled else .request, s.existing.toList.map .remove)
    else if res < 0 then (.out, [])
    else (.cancel 0, [])
  | .cancelled => (if res = 0 then .cancelledSilence else if res < 0 then .out else .request, [])
  | .cancelledSilence => (if res < 0 then .out else .request, [])
  | .request => (if res > 0 then digit [] res else if res = -1 then .out else .enterTime, [])
  | .enterTime => (if res > 0 then digit [] res else if res = -1 then .out else .digits [], [])
  | .digits time_str =>
    (if res > 0 then digit time_str res else if res = -1 then .out else .digits time_str, [])
  | .imSorry => (if res = -1 then .out else .request, [])
  | .ampm time_int =>
    (if isKey res '1' || isKey res '2' then .confirm (adjusted time_int (isKey res '2')) 0
      else if res = -1 then .out
      else if res ≠ 0 then .ampm time_int
      else .ampmSilence time_int, [])
  | .ampmSilence time_int =>
    (if isKey res '1' || isKey res '2' then .confirm (adjusted time_int (isKey res '2')) 0
      else if res = -1 then .out
      else .ampm time_int, [])
  | .confirm time_int prompt =>
    if res = 0 ∧ prompt < 3 then (.confirm time_int (prompt + 1), [])
    else if isKey res '1' then (s.done, [.setwakeup time_int s.cid_num])
    else if res = -1 then (.out, [])
    else if isKey res '2' || res < 0 then (.request, [])
    else (.confirm time_int 0, [])
  | .thanks => (if res = 0 then .goodbye else .out, [])
  | .goodbye => (.out, [])
  | .out => (.out, [])

/-- What a session does on the answers to its prompts. -/
def Session.run (s : Session) : State → List ℤ → List Event
  | _, [] => []
  | state, res :: r => (s.step res state).2 ++ s.run (s.step res state).1 r

/-- Where a session starts. -/
def Session.start (s : Session) : State :=
  if s.data ≠ [] then .snooze 0 else if s.existing.isSome then .cancel 0 else .request

/-- `wakeme_exec(chan, data)`: what it does, given the directory, whether `remove` and `fopen` succeed,
and the answers to the prompts. -/
def wakemeExec (directory : List (List Char)) (cid_num data : List Char) (removes opens : Bool)
    (answers : List ℤ) : List Event :=
  let s : Session := ⟨existingWakeupFile directory cid_num, cid_num, data, removes, opens⟩
  s.run s.start answers

/-! ## One file in a session -/

section Sessions

variable {s : Session} {state : State} {file : List Char} {answers : List ℤ}

/-- A step touches no file but the one that was found. -/
theorem file_of_mem_step {res : ℤ} {e : Event} (he : e ∈ (s.step res state).2) (hfile : e.file = some file) :
    s.existing = some file := by
  have htoList : ∀ f : List Char → Event, (∀ x, (f x).file = some x) → e ∈ s.existing.toList.map f →
      s.existing = some file := by
    intro f hf hmem
    obtain ⟨x, hx, rfl⟩ := List.mem_map.1 hmem
    rw [hf x] at hfile
    rw [Option.mem_toList.1 hx, Option.some.inj hfile]
  -- only the three menus have events, and confirming makes a new file
  cases state with
  | snooze prompt =>
    simp only [Session.step] at he
    split_ifs at he
    · cases he
    · rw [List.mem_singleton.1 he] at hfile
      exact hfile
    · cases he
    · cases he
  | cancel prompt =>
    simp only [Session.step] at he
    split_ifs at he
    · exact htoList .say (fun _ => rfl) he
    · cases he
    · exact htoList .remove (fun _ => rfl) he
    · exact htoList .remove (fun _ => rfl) he
    · cases he
    · cases he
  | confirm time_int prompt =>
    simp only [Session.step] at he
    split_ifs at he
    · cases he
    · rw [List.mem_singleton.1 he] at hfile
      cases hfile
    · cases he
    · cases he
    · cases he
  | _ => cases he

/-- A session touches no other file. -/
theorem file_of_mem_run {e : Event} (he : e ∈ s.run state answers) (hfile : e.file = some file) :
    s.existing = some file := by
  induction answers generalizing state with
  | nil => cases he
  | cons res r ih =>
    rw [Session.run, List.mem_append] at he
    rcases he with he | he
    · exact file_of_mem_step he hfile
    · exact ih he

end Sessions

/-! ## Names -/

/-- The text is made of digits. -/
def Digits (s : List Char) : Prop := ∀ c ∈ s, c.isDigit = true

section Names

variable {c d : Call} {x : List Char}

theorem strstr_iff {haystack needle : List Char} : strstr haystack needle = true ↔ needle <:+: haystack := by
  unfold strstr
  rw [List.any_eq_true]
  constructor
  · rintro ⟨t, ht, hneedle⟩
    obtain ⟨a, rfl⟩ := (List.mem_tails _ _).1 ht
    obtain ⟨b, rfl⟩ := List.isPrefixOf_iff_prefix.1 hneedle
    exact ⟨a, b, by rw [List.append_assoc]⟩
  · rintro ⟨a, b, rfl⟩
    rw [List.append_assoc]
    exact ⟨needle ++ b, (List.mem_tails _ _).2 ⟨a, rfl⟩, List.isPrefixOf_iff_prefix.2 ⟨b, rfl⟩⟩

theorem not_mem_of_digits {s : List Char} {a : Char} (h : Digits s) (ha : a.isDigit = false) : a ∉ s := by
  intro hmem
  rw [h a hmem] at ha
  cases ha

theorem digits_padded (width n : ℕ) : Digits (padded width n) := fun _ => isDigit_of_mem_padded

/-- The one `t` of a name is in front of the extension. -/
theorem file_eq (c : Call) : c.file = ("wakeme_".toList ++ padded 4 c.time_int ++ "_ex".toList) ++
    't' :: '_' :: (c.cid ++ ".call".toList) := by
  have hext : "_ext_".toList = "_ex".toList ++ ['t', '_'] := rfl
  unfold Call.file
  rw [hext]
  simp only [List.append_assoc, List.cons_append, List.nil_append]

theorem count_file (hc : Digits c.cid) : c.file.count 't' = 1 := by
  have hpadded : (padded 4 c.time_int).count 't' = 0 :=
    List.count_eq_zero.2 (not_mem_of_digits (digits_padded _ _) rfl)
  have hcid : c.cid.count 't' = 0 := List.count_eq_zero.2 (not_mem_of_digits hc rfl)
  rw [file_eq]
  simp only [List.count_append, List.count_cons, hpadded, hcid]
  rfl

/-- What is after the `t`. -/
theorem after_of_file (hc : Digits c.cid) {a b : List Char} (h : c.file = a ++ 't' :: b) :
    b = '_' :: (c.cid ++ ".call".toList) := by
  have hcount := count_file hc
  rw [h, List.count_append, List.count_cons_self] at hcount
  have ha : 't' ∉ a := List.count_eq_zero.1 (by omega)
  have hstart : 't' ∉ "wakeme_".toList ++ padded 4 c.time_int ++ "_ex".toList := by
    simp only [List.mem_append, not_or]
    exact ⟨⟨by decide, not_mem_of_digits (digits_padded _ _) rfl⟩, by decide⟩
  rw [file_eq] at h
  have hcut := congrArg (cutAt 't') h
  rw [cutAt_eq hstart, cutAt_eq ha] at hcut
  exact (congrArg Prod.snd (Option.some.inj hcut)).symm

/-- A number is found in a name exactly if the extension starts with it. -/
theorem strstr_file_iff (hc : Digits c.cid) (hx : Digits x) :
    strstr c.file ("ext_".toList ++ x) = true ↔ x <+: c.cid := by
  rw [strstr_iff]
  constructor
  · rintro ⟨a, b, h⟩
    have hname : c.file = (a ++ "ex".toList) ++ 't' :: ('_' :: (x ++ b)) := by
      rw [← h]
      have hext : "ext_".toList = "ex".toList ++ ['t', '_'] := rfl
      rw [hext]
      simp only [List.append_assoc, List.cons_append, List.nil_append]
    -- a file name has one `t_`, in front of the extension
    have hafter := after_of_file hc hname
    have heq : x ++ b = c.cid ++ ".call".toList := (List.cons.inj hafter).2
    rcases List.append_eq_append_iff.1 heq with ⟨r, hr, -⟩ | ⟨r, hr, hcall⟩
    · exact ⟨r, hr.symm⟩
    · -- a point is no digit
      cases r with
      | nil =>
        rw [List.append_nil] at hr
        exact ⟨[], by rw [List.append_nil, hr]⟩
      | cons p r =>
        have hp : p = '.' := (List.cons.inj hcall).1.symm
        have hdigit := hx p (by rw [hr]; simp)
        rw [hp] at hdigit
        cases hdigit
  · rintro ⟨r, hr⟩
    refine ⟨"wakeme_".toList ++ padded 4 c.time_int ++ "_".toList, r ++ ".call".toList, ?_⟩
    have hext : "_ext_".toList = "_".toList ++ "ext_".toList := rfl
    unfold Call.file
    rw [hext, ← hr]
    simp only [List.append_assoc]

theorem cid_eq_of_file_eq (hc : Digits c.cid) (h : c.file = d.file) : c.cid = d.cid := by
  have hafter := after_of_file hc (h.trans (file_eq d))
  have heq := (List.cons.inj hafter).2
  exact (List.append_cancel_right heq).symm

theorem fileFilter_file (c : Call) : fileFilter c.file = true := by
  rw [fileFilter, strstr_iff]
  refine ⟨[], "_".toList ++ padded 4 c.time_int ++ "_ext_".toList ++ c.cid ++ ".call".toList, ?_⟩
  have hname : "wakeme_".toList = "wakeme".toList ++ "_".toList := rfl
  unfold Call.file
  rw [hname]
  simp only [List.append_assoc, List.nil_append]

end Names

/-! ## The caller's own call -/

/-- Whatever the order of the directory and the answers are, the caller's session touches only files
made for the caller, and finds none if there is none. -/
def OnlyOwn (calls : List Call) (x : List Char) : Prop :=
  ∀ listing : List Call, listing.Perm calls →
    (∀ data removes opens answers, ∀ e ∈ wakemeExec (listing.map Call.file) x data removes opens answers,
      ∀ file ∈ e.file, ∃ c ∈ calls, c.cid = x ∧ file = c.file) ∧
    ((∀ c ∈ calls, c.cid ≠ x) → existingWakeupFile (listing.map Call.file) x = none)

theorem existing_eq {listing : List Call} (hlisting : ∀ c ∈ listing, Digits c.cid) {x : List Char}
    (hx : Digits x) : existingWakeupFile (listing.map Call.file) x =
      (listing.find? fun c => x.isPrefixOf c.cid).map Call.file := by
  unfold existingWakeupFile
  have hfilter : (listing.map Call.file).filter fileFilter = listing.map Call.file := by
    rw [List.filter_eq_self]
    intro name hname
    obtain ⟨c, -, rfl⟩ := List.mem_map.1 hname
    exact fileFilter_file c
  rw [hfilter, List.find?_map]
  congr 1
  have hfound : ∀ c ∈ listing, strstr c.file ("ext_".toList ++ x) = x.isPrefixOf c.cid := by
    intro c hc
    rw [Bool.eq_iff_iff, strstr_file_iff (hlisting c hc) hx, List.isPrefixOf_iff_prefix]
  clear hfilter hlisting
  induction listing with
  | nil => rfl
  | cons c r ih =>
    rw [List.find?_cons, List.find?_cons, Function.comp_apply, hfound c List.mem_cons_self,
      ih fun d hd => hfound d (List.mem_cons_of_mem _ hd)]

/-- The session touches the caller's own calls only, exactly if no call is for another extension that
starts with the number of the caller. -/
theorem own_call_iff (calls : List Call) (hcalls : ∀ c ∈ calls, Digits c.cid) (x : List Char)
    (hx : Digits x) : OnlyOwn calls x ↔ ∀ c ∈ calls, x <+: c.cid → c.cid = x := by
  constructor
  · intro hown c hc hstarts
    -- the directory may begin with any file, and the caller may press 1 at once
    obtain ⟨a, b, rfl⟩ := List.append_of_mem hc
    have hperm : (c :: (a ++ b)).Perm (a ++ c :: b) := List.perm_middle.symm
    obtain ⟨hevents, -⟩ := hown (c :: (a ++ b)) hperm
    have hexisting : existingWakeupFile ((c :: (a ++ b)).map Call.file) x = some c.file := by
      have hfirst : x.isPrefixOf c.cid = true := List.isPrefixOf_iff_prefix.2 hstarts
      rw [existing_eq (fun d hd => hcalls d (hperm.mem_iff.1 hd)) hx, List.find?_cons, hfirst]
      rfl
    have hremove : Event.remove c.file ∈ wakemeExec ((c :: (a ++ b)).map Call.file) x [] true true [49] := by
      unfold wakemeExec
      rw [hexisting]
      simp [Session.start, Session.run, Session.step, isKey]
    obtain ⟨d, hd, hdx, hfile⟩ := hevents _ _ _ _ _ hremove c.file rfl
    rw [← hdx]
    exact cid_eq_of_file_eq (hcalls c hc) hfile
  · intro hnone listing hperm
    have hlisting : ∀ c ∈ listing, Digits c.cid := fun c hc => hcalls c (hperm.mem_iff.1 hc)
    have hfound : ∀ file, existingWakeupFile (listing.map Call.file) x = some file →
        ∃ c ∈ calls, c.cid = x ∧ file = c.file := by
      intro file hfile
      rw [existing_eq hlisting hx, Option.map_eq_some_iff] at hfile
      obtain ⟨c, hfind, rfl⟩ := hfile
      have hmem := hperm.mem_iff.1 (List.mem_of_find?_eq_some hfind)
      have hstarts := @List.find?_some _ (fun c : Call => x.isPrefixOf c.cid) _ _ hfind
      exact ⟨c, hmem, hnone c hmem (List.isPrefixOf_iff_prefix.1 hstarts), rfl⟩
    constructor
    · intro data removes opens answers e he file hfile
      exact hfound file (file_of_mem_run he hfile)
    · intro hothers
      rw [Option.eq_none_iff_forall_not_mem]
      intro file hfile
      obtain ⟨c, hc, hcx, -⟩ := hfound file hfile
      exact hothers c hc hcx

/-- Calls for 101 and for 2. -/
theorem own_call_other : OnlyOwn [⟨700, "101".toList⟩, ⟨800, "2".toList⟩] "101".toList := by
  apply (own_call_iff _ _ _ _).2
  · decide
  · unfold Digits
    decide
  · unfold Digits
    decide

/-- The caller with the number 10 cancels the call of 101. -/
theorem not_own_call : Event.remove "wakeme_0700_ext_101.call".toList ∈
      wakemeExec [(Call.mk 700 "101".toList).file] "10".toList [] true true [49] ∧
    ¬ OnlyOwn [⟨700, "101".toList⟩] "10".toList := by
  have hremove : Event.remove "wakeme_0700_ext_101.call".toList ∈
      wakemeExec [(Call.mk 700 "101".toList).file] "10".toList [] true true [49] := by decide
  refine ⟨hremove, ?_⟩
  intro hown
  obtain ⟨c, hc, hcx, -⟩ := (hown _ (List.Perm.refl _)).1 _ _ _ _ _ hremove _ rfl
  rw [List.mem_singleton.1 hc] at hcx
  revert hcx
  decide

end Wakeme
end Askozia
