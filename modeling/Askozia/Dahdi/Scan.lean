import Askozia.Php.Compare
import Askozia.Php.Loops
import Askozia.Php.Text

/-!
# The output of `dahdi_scan` (`dahdi.inc`)

`dahdi_scan` prints a block of lines for each span: a line with the number of the span in brackets,
then `name=value` lines. `dahdi_scan_to_spans` collects them, and `dahdi_get_physical_ports` makes a
list of ports of them.

* `usable_eq`: the ports are those of the blocks, one for each line of a port with a working module
  in an analog span and one for each digital span.
-/

namespace Askozia
namespace Dahdi

open Php

/-! ## Reading the lines -/

/-- `explode("=", $l, 2)`: the second piece is missing if there is no separator. -/
def explodePair (l : String) : String × Val :=
  (String.ofList (l.toList.takeWhile (· != '=')),
    match l.toList.dropWhile (· != '=') with
    | [] => .null
    | _ :: r => .str (String.ofList r))

/-- A line that begins a span: `$l[0] == '['`. -/
def startsSpan (l : String) : Bool := l.toList.head? == some '['

/-- The port has no module, or one without power. -/
def unusable (spec : Val) : Bool :=
  (explode ',' spec.toStr)[1]? == some "none" || (explode ',' spec.toStr)[1]? == some "FXS FAILED"

/-- What another line makes of `$spans[$c]`, unless it is skipped. -/
def addToSpan (span : Val) (l : String) : Option Val :=
  let p := explodePair l
  if p.1 = "port" then
    if unusable p.2 then none else some (span.set (.str "port") ((span.get "port").push p.2))
  else if p.1 = "coding_opts" ∨ p.1 = "framing_opts" then
    some (span.set (.str p.1) (.ofList ((explode ',' p.2.toStr).map .str)))
  else some (span.set (Val.str p.1).key p.2)

/-- The body of the loop over the lines, on `$c` and `$spans`. -/
def scanLine (s : ℤ × Val) (l : String) : ℤ × Val :=
  if startsSpan l then
    (s.1 + 1, s.2.set (.int (s.1 + 1))
      ((s.2.idx (.int (s.1 + 1))).set (.str "span") (.int (s.1 + 1 + 1))))
  else
    match addToSpan (s.2.idx (.int s.1)) l with
    | some span => (s.1, s.2.set (.int s.1) span)
    | none => s

/-- `dahdi_scan_to_spans()`, for the lines `$out`. -/
def dahdiScanToSpans (out : List String) : Val := (out.foldl scanLine (-1, .arr [])).2

/-- The ports of a span. -/
def spanPorts (span : Val) : List Val :=
  if (span.get "type").looseEq (.str "analog") then
    (span.get "port").vals.map fun port =>
      let specs := explode ',' port.toStr
      .arr [(.str "location", span.get "location"), (.str "card", span.get "devicetype"),
        (.str "technology", .str "analog"), (.str "basechannel", .str (specs.headD "")),
        (.str "type", .str (strtolower (String.ofList (((specs[1]?).getD "").toList.take 3))))]
  else if strstr (span.get "type").toStr "digital-" then
    [.arr [(.str "location", span.get "location"), (.str "card", span.get "devicetype"),
      (.str "technology", .str "isdn"), (.str "span", span.get "span"),
      (.str "basechannel", span.get "basechan"), (.str "totalchannels", span.get "totchans"),
      (.str "type", .str (strtolower (((explode '-' (span.get "type").toStr).getLast?).getD "")))]]
  else []

/-- `dahdi_get_physical_ports()` -/
def dahdiGetPhysicalPorts (out : List String) : List Val := (dahdiScanToSpans out).vals.flatMap spanPorts

/-! ## What the lines say -/

/-- A port that can be used. -/
structure UsablePort where
  technology : String
  location : String
  basechannel : String
  type : String
deriving DecidableEq, Repr

/-- The last value a block of lines gives a name. -/
def lastSetting (name : String) (block : List String) : Val :=
  ((block.reverse.find? fun l => (explodePair l).1 = name).map fun l => (explodePair l).2).getD .null

/-- The ports of a block that have a working module. -/
def workingPorts (block : List String) : List Val :=
  (block.filter fun l => (explodePair l).1 = "port" ∧ unusable (explodePair l).2 = false).map
    fun l => (explodePair l).2

/-- The ports of a block that can be used. -/
def usablePorts (block : List String) : List UsablePort :=
  if lastSetting "type" block = .str "analog" then
    (workingPorts block).map fun port =>
      { technology := "analog"
        location := (lastSetting "location" block).toStr
        basechannel := (explode ',' port.toStr).headD ""
        type := strtolower (String.ofList ((((explode ',' port.toStr)[1]?).getD "").toList.take 3)) }
  else if strstr (lastSetting "type" block).toStr "digital-" then
    [{ technology := "isdn"
       location := (lastSetting "location" block).toStr
       basechannel := (lastSetting "basechan" block).toStr
       type := strtolower (((explode '-' (lastSetting "type" block).toStr).getLast?).getD "") }]
  else []

/-- The ports of the output that can be used, block by block. -/
def usable (out : List String) : List UsablePort := (out.splitOnP startsSpan).flatMap usablePorts

/-- A port of the code as what it is. -/
def describe (p : Val) : UsablePort :=
  { technology := (p.get "technology").toStr
    location := (p.get "location").toStr
    basechannel := (p.get "basechannel").toStr
    type := (p.get "type").toStr }

/-! ## The reader collects the blocks -/

/-- A span after the lines of a block. -/
def readBlock (start : Val) (block : List String) : Val :=
  block.foldl (fun span l => (addToSpan span l).getD span) start

/-- A span after the line that begins it, when `$c` is `c`. -/
def newSpan (c : ℤ) : Val := .arr [(.str "span", .int (c + 1))]

section Reader

variable {c : ℤ} {done : List (Key × Val)} {current : Option Val}

/-- `$spans`: the spans that are done, and the current one if there is something in it. -/
def spansOf (c : ℤ) (done : List (Key × Val)) (current : Option Val) : Val :=
  .arr (done ++ current.toList.map fun v => (.int c, v))

theorem not_mem_keys {n : ℤ} (hdone : ∀ e ∈ done, ∃ m < n, e.1 = .int m) :
    Key.int n ∉ done.map Prod.fst := by
  intro hmem
  obtain ⟨e, he, hkey⟩ := List.mem_map.1 hmem
  obtain ⟨m, hm, hkey'⟩ := hdone e he
  rw [hkey'] at hkey
  have := Key.int.inj hkey
  omega

theorem keys_lt_succ (hdone : ∀ e ∈ done, ∃ n < c, e.1 = .int n) :
    ∀ e ∈ done ++ current.toList.map fun v => (Key.int c, v), ∃ n < c + 1, e.1 = .int n := by
  intro e he
  rcases List.mem_append.1 he with he | he
  · obtain ⟨n, hn, hkey⟩ := hdone e he
    exact ⟨n, by omega, hkey⟩
  · obtain ⟨v, -, rfl⟩ := List.mem_map.1 he
    exact ⟨c, by omega, rfl⟩

/-- A line that begins a span: the current one is done. -/
theorem scanLine_of_starts (hdone : ∀ e ∈ done, ∃ n < c, e.1 = .int n) {l : String}
    (hl : startsSpan l = true) :
    scanLine (c, spansOf c done current) l =
      (c + 1, spansOf (c + 1) (done ++ current.toList.map fun v => (Key.int c, v))
        (some (newSpan (c + 1)))) := by
  have hkey := not_mem_keys (@keys_lt_succ c done current hdone)
  rw [scanLine, if_pos hl]
  dsimp only
  rw [spansOf, Val.idx_arr, Val.lookup_eq_none hkey, Val.set, Val.entries, Val.setEntry_of_not_mem hkey]
  rfl

theorem idx_spansOf (hdone : ∀ e ∈ done, ∃ n < c, e.1 = .int n) :
    (spansOf c done current).idx (.int c) = current.getD .null := by
  rw [spansOf, Val.idx_arr, List.lookup_append, Val.lookup_eq_none (not_mem_keys hdone)]
  cases current with
  | none => rfl
  | some v => simp

theorem set_spansOf (hdone : ∀ e ∈ done, ∃ n < c, e.1 = .int n) (span : Val) :
    (spansOf c done current).set (.int c) span = spansOf c done (some span) := by
  have hset : ∀ es : List (Key × Val), Key.int c ∉ es.map Prod.fst →
      Val.setEntry (.int c) span (es ++ current.toList.map fun v => (Key.int c, v)) =
        es ++ [(.int c, span)] := by
    intro es
    induction es with
    | nil =>
      intro _
      cases current with
      | none => rfl
      | some v => simp [Val.setEntry]
    | cons e r ih =>
      intro hes
      obtain ⟨k, v⟩ := e
      rw [List.map_cons, List.mem_cons, not_or] at hes
      rw [List.cons_append, Val.setEntry, if_neg (Ne.symm hes.1), ih hes.2]
      rfl
  rw [spansOf, Val.set, Val.entries, hset done (not_mem_keys hdone)]
  rfl

/-- Any other line is for the current span. -/
theorem scanLine_of_not_starts (hdone : ∀ e ∈ done, ∃ n < c, e.1 = .int n) {l : String}
    (hl : ¬ startsSpan l = true) :
    scanLine (c, spansOf c done current) l =
      (c, spansOf c done ((addToSpan (current.getD .null) l).or current)) := by
  rw [scanLine, if_neg hl]
  dsimp only
  rw [idx_spansOf hdone]
  cases addToSpan (current.getD .null) l with
  | none => rfl
  | some span =>
    dsimp only
    rw [set_spansOf hdone]
    rfl

/-- The loop over the lines, from any state: each block of lines makes a span. -/
theorem foldl_scanLine {β : Type} {F : Val → List β} (hF : F .null = []) (lines : List String) :
    ∀ (c : ℤ) (done : List (Key × Val)) (current : Option Val),
      (∀ e ∈ done, ∃ n < c, e.1 = .int n) →
      (lines.foldl scanLine (c, spansOf c done current)).2.vals.flatMap F =
        (done.map Prod.snd).flatMap F ++
          F (readBlock (current.getD .null) ((lines.splitOnP startsSpan).headD [])) ++
          (((lines.splitOnP startsSpan).tail).zipIdx).flatMap
            fun b => F (readBlock (newSpan (c + 1 + b.2)) b.1) := by
  -- on the lines: one that starts a span closes the block before it
  induction lines with
  | nil =>
    intro c done current _
    cases current with
    | none => simp [spansOf, Val.vals, Val.entries, readBlock, hF]
    | some v => simp [spansOf, Val.vals, Val.entries, readBlock]
  | cons l r ih =>
    intro c done current hdone
    obtain ⟨b, bs, hblocks⟩ := List.exists_cons_of_ne_nil (List.splitOnP_ne_nil startsSpan r)
    rw [List.foldl_cons, List.splitOnP_cons_eq_if_modifyHead]
    by_cases hl : startsSpan l = true
    · rw [if_pos hl, scanLine_of_starts hdone hl, ih _ _ _ (keys_lt_succ hdone), hblocks]
      have hcurrent : ((current.toList.map fun v => (Key.int c, v)).map Prod.snd).flatMap F =
          F (current.getD .null) := by
        cases current with
        | none => simp [hF]
        | some v => simp
      have hfirst : newSpan (c + 1) = newSpan (c + 1 + (0 : ℕ)) := by
        rw [Nat.cast_zero, Int.add_zero]
      have hrest : (bs.zipIdx.flatMap fun b => F (readBlock (newSpan (c + 1 + 1 + b.2)) b.1)) =
          (bs.zipIdx 1).flatMap fun b => F (readBlock (newSpan (c + 1 + b.2)) b.1) := by
        rw [List.zipIdx_succ, List.flatMap_map]
        congr 1
        funext p
        rw [Nat.cast_add, Nat.cast_one]
        congr 3
        omega
      rw [List.map_append, List.flatMap_append, hcurrent]
      simp only [List.headD_cons, List.tail_cons, List.zipIdx_cons, List.flatMap_cons, Option.getD_some]
      rw [hrest, hfirst, Nat.zero_add, List.append_assoc, List.append_assoc, List.append_assoc]
      rfl
    · -- any other line is read into the block that is open
      have hread : ((addToSpan (current.getD .null) l).or current).getD .null =
          (addToSpan (current.getD .null) l).getD (current.getD .null) := by
        cases addToSpan (current.getD .null) l with
        | none => rfl
        | some span => rfl
      rw [if_neg hl, scanLine_of_not_starts hdone hl, ih _ _ _ hdone, hblocks, hread]
      rfl

/-- The ports of the spans are the ports of the blocks of lines. -/
theorem dahdiGetPhysicalPorts_eq (out : List String) :
    ∃ starts : List Val, (∀ start ∈ starts, start = .null ∨ ∃ c, start = newSpan c) ∧
      starts.length = (out.splitOnP startsSpan).length ∧
      dahdiGetPhysicalPorts out =
        (starts.zip (out.splitOnP startsSpan)).flatMap fun b => spanPorts (readBlock b.1 b.2) := by
  obtain ⟨b, bs, hblocks⟩ := List.exists_cons_of_ne_nil (List.splitOnP_ne_nil startsSpan out)
  have hnull : spanPorts .null = [] := by decide
  have hscan := foldl_scanLine hnull out (-1) [] none (fun e he => by cases he)
  rw [hblocks] at hscan
  -- lines before the first span would be read into null
  refine ⟨.null :: bs.zipIdx.map (fun b => newSpan (-1 + 1 + b.2)), ?_, ?_, ?_⟩
  · intro start hstart
    rcases List.mem_cons.1 hstart with rfl | hstart
    · exact .inl rfl
    · obtain ⟨p, -, rfl⟩ := List.mem_map.1 hstart
      exact .inr ⟨_, rfl⟩
  · rw [hblocks]
    simp
  · rw [hblocks]
    unfold dahdiGetPhysicalPorts dahdiScanToSpans
    refine hscan.trans ?_
    simp only [List.map_nil, List.flatMap_nil, List.nil_append, List.headD_cons, List.tail_cons,
      List.zip_cons_cons, List.flatMap_cons, Option.getD_none]
    congr 1
    have hzip : ∀ (f : ℕ → Val) (bs : List (List String)) (n : ℕ),
        ((bs.zipIdx n).map fun b => f b.2).zip bs = (bs.zipIdx n).map fun b => (f b.2, b.1) := by
      intro f bs
      induction bs with
      | nil => exact fun n => rfl
      | cons b bs ih =>
        intro n
        rw [List.zipIdx_cons, List.map_cons, List.zip_cons_cons, List.map_cons, ih]
    rw [hzip (fun n => newSpan (-1 + 1 + n)), List.flatMap_map]

end Reader

/-! ## The fields of a span -/

section Fields

variable {start : Val} {block : List String} {name : String}

theorem readBlock_concat (start : Val) (block : List String) (l : String) :
    readBlock start (block ++ [l]) = (addToSpan (readBlock start block) l).getD (readBlock start block) := by
  rw [readBlock, List.foldl_append]
  rfl

theorem addToSpan_ne_str {span x : Val} {l : String} (h : addToSpan span l = some x) (s : String) :
    x ≠ .str s := by
  rintro rfl
  unfold addToSpan at h
  dsimp only at h
  split_ifs at h
  · cases Option.some.inj h
  · cases Option.some.inj h
  · cases Option.some.inj h

theorem readBlock_ne_str (hstart : ∀ s, start ≠ .str s) (block : List String) (s : String) :
    readBlock start block ≠ .str s := by
  induction block using List.reverseRecOn with
  | nil => exact hstart s
  | append_singleton b l ih =>
    rw [readBlock_concat]
    cases h : addToSpan (readBlock start b) l with
    | none => exact ih
    | some x => exact addToSpan_ne_str h s

theorem lastSetting_concat (name : String) (block : List String) (l : String) :
    lastSetting name (block ++ [l]) =
      if (explodePair l).1 = name then (explodePair l).2 else lastSetting name block := by
  unfold lastSetting
  rw [List.reverse_append, List.reverse_singleton, List.singleton_append, List.find?_cons]
  split_ifs with h
  · simp [h]
  · simp [h]

/-- A name keeps the last value it is given. -/
theorem get_readBlock (hstart : ∀ s, start ≠ .str s)
    (hname : name ∉ ["port", "coding_opts", "framing_opts"]) (hkey : (Val.str name).key = .str name)
    (hnull : start.get name = .null) (block : List String) :
    (readBlock start block).get name = lastSetting name block := by
  simp only [List.mem_cons, List.not_mem_nil, or_false, not_or] at hname
  -- from the end of the block, where the last setting of a name is
  induction block using List.reverseRecOn with
  | nil => exact hnull
  | append_singleton b l ih =>
    have hstr := readBlock_ne_str hstart b
    rw [readBlock_concat, lastSetting_concat, ← ih]
    unfold addToSpan
    dsimp only
    -- ports and the two kinds of options are collected under names of their own
    by_cases hport : (explodePair l).1 = "port"
    · rw [if_pos hport, hport, if_neg (Ne.symm hname.1)]
      split_ifs
      · rfl
      · exact Val.idx_set_of_ne _ (fun h => hname.1 (Key.str.inj h)) hstr
    · rw [if_neg hport]
      by_cases hopts : (explodePair l).1 = "coding_opts" ∨ (explodePair l).1 = "framing_opts"
      · have hne : name ≠ (explodePair l).1 := by
          rintro rfl
          exact hopts.elim hname.2.1 hname.2.2
        rw [if_pos hopts, if_neg (Ne.symm hne)]
        exact Val.idx_set_of_ne _ (fun h => hne (Key.str.inj h)) hstr
      · rw [if_neg hopts, Option.getD_some]
        split_ifs with heq
        · rw [Val.get, ← hkey, heq]
          exact Val.idx_set_self _ _ _
        · have hne : Key.str name ≠ (Val.str (explodePair l).1).key := by
            intro h
            exact heq (Val.key_str_injective (hkey.trans h)).symm
          exact Val.idx_set_of_ne _ hne hstr

/-- The ports with a working module are collected in order. -/
theorem get_port_readBlock (hstart : ∀ s, start ≠ .str s) (hnull : start.get "port" = .null)
    (block : List String) :
    ((readBlock start block).get "port" = .null ∧ workingPorts block = []) ∨
      (readBlock start block).get "port" = .ofList (workingPorts block) := by
  have hkey : (Val.str "port").key = .str "port" := by decide
  induction block using List.reverseRecOn with
  | nil => exact .inl ⟨hnull, rfl⟩
  | append_singleton b l ih =>
    have hstr := readBlock_ne_str hstart b
    have hworking : workingPorts (b ++ [l]) = workingPorts b ++
        if (explodePair l).1 = "port" ∧ unusable (explodePair l).2 = false then [(explodePair l).2]
        else [] := by
      unfold workingPorts
      rw [List.filter_append, List.map_append, List.filter_singleton]
      split_ifs with h
      · simp [h]
      · simp [h]
    rw [readBlock_concat, hworking]
    unfold addToSpan
    dsimp only
    by_cases hport : (explodePair l).1 = "port"
    · rw [if_pos hport]
      -- a port that is reserved or unusable is left out
      by_cases hbad : unusable (explodePair l).2 = true
      · rw [if_pos hbad, if_neg (by simp [hbad]), List.append_nil]
        exact ih
      · have hgood : unusable (explodePair l).2 = false := by simpa using hbad
        rw [if_neg hbad, if_pos ⟨hport, hgood⟩]
        right
        rw [Option.getD_some, Val.get, Val.idx_set_self]
        rcases ih with ⟨hget, hnil⟩ | hget
        · rw [hget, hnil]
          rfl
        · rw [hget, Val.push_ofList]
    · have hnot : ¬ ((explodePair l).1 = "port" ∧ unusable (explodePair l).2 = false) :=
        fun h => hport h.1
      rw [if_neg hport, if_neg hnot, List.append_nil]
      have hsame : ∀ (k : Key) (x : Val), k ≠ .str "port" →
          ((readBlock start b).set k x).get "port" = (readBlock start b).get "port" :=
        fun k x hk => Val.idx_set_of_ne x (Ne.symm hk) hstr
      by_cases hopts : (explodePair l).1 = "coding_opts" ∨ (explodePair l).1 = "framing_opts"
      · rw [if_pos hopts, Option.getD_some, hsame _ _ fun h => hport (Key.str.inj h)]
        exact ih
      · have hne : (Val.str (explodePair l).1).key ≠ .str "port" := by
          intro h
          exact hport (Val.key_str_injective (h.trans hkey.symm))
        rw [if_neg hopts, Option.getD_some, hsame _ _ hne]
        exact ih

theorem lastSetting_cases (name : String) (block : List String) :
    lastSetting name block = .null ∨ ∃ s, lastSetting name block = .str s := by
  unfold lastSetting
  cases block.reverse.find? fun l => (explodePair l).1 = name with
  | none => exact .inl rfl
  | some l =>
    rw [Option.map_some, Option.getD_some]
    unfold explodePair
    dsimp only
    split
    · exact .inl rfl
    · exact .inr ⟨_, rfl⟩

/-- The fields of the span a block makes. -/
theorem get_readBlock_of_start (hstart : start = .null ∨ ∃ c, start = newSpan c) (block : List String)
    (hname : name ∈ ["type", "location", "basechan"]) :
    (readBlock start block).get name = lastSetting name block := by
  have hstr : ∀ s, start ≠ .str s := by
    rintro s rfl
    rcases hstart with h | ⟨c, h⟩
    · cases h
    · cases h
  have hall : ∀ name ∈ ["type", "location", "basechan"], name ≠ "span" ∧
      name ∉ ["port", "coding_opts", "framing_opts"] ∧ (Val.str name).key = .str name := by decide
  obtain ⟨hspan, hother, hkey⟩ := hall name hname
  apply get_readBlock hstr hother hkey
  rcases hstart with rfl | ⟨c, rfl⟩
  · rfl
  · rw [newSpan, Val.get, Val.idx_arr, Val.lookup_eq_none (by simp [hspan])]
    rfl

/-- The ports of the span a block makes. -/
theorem ports_readBlock (hstart : start = .null ∨ ∃ c, start = newSpan c) (block : List String) :
    ((readBlock start block).get "port").vals = workingPorts block := by
  have hstr : ∀ s, start ≠ .str s := by
    rintro s rfl
    rcases hstart with h | ⟨c, h⟩
    · cases h
    · cases h
  have hnull : start.get "port" = .null := by
    rcases hstart with rfl | ⟨c, rfl⟩
    · rfl
    · rfl
  rcases get_port_readBlock hstr hnull block with ⟨hget, hnil⟩ | hget
  · rw [hget, hnil]
    rfl
  · rw [hget, Val.vals_ofList]

/-- The ports of the span a block makes are those of the block. -/
theorem describe_spanPorts (hstart : start = .null ∨ ∃ c, start = newSpan c) (block : List String) :
    (spanPorts (readBlock start block)).map describe = usablePorts block := by
  have htype := @get_readBlock_of_start start "type" hstart block (by decide)
  have hlocation := @get_readBlock_of_start start "location" hstart block (by decide)
  have hbasechan := @get_readBlock_of_start start "basechan" hstart block (by decide)
  have hports := ports_readBlock hstart block
  have hanalog : (lastSetting "type" block).looseEq (.str "analog") = true ↔
      lastSetting "type" block = .str "analog" := by
    have hnumber : number? "analog" = none := by decide
    rcases lastSetting_cases "type" block with h | ⟨s, h⟩
    · rw [h]
      simp [Val.looseEq]
    · rw [h, Val.looseEq, hnumber]
      simp
  unfold spanPorts usablePorts
  rw [htype, hlocation, hbasechan, hports]
  simp only [hanalog]
  split_ifs
  · rw [List.map_map]
    apply List.map_congr_left
    intro port _
    rfl
  · rfl
  · rfl

/-- The ports of the code are those of the output, block by block. -/
theorem usable_eq (out : List String) : (dahdiGetPhysicalPorts out).map describe = usable out := by
  obtain ⟨starts, hstarts, hlength, hports⟩ := dahdiGetPhysicalPorts_eq out
  have hblocks : ∀ (starts : List Val) (blocks : List (List String)),
      (∀ start ∈ starts, start = .null ∨ ∃ c, start = newSpan c) → starts.length = blocks.length →
      ((starts.zip blocks).flatMap fun b => spanPorts (readBlock b.1 b.2)).map describe =
        blocks.flatMap usablePorts := by
    intro starts
    induction starts with
    | nil =>
      intro blocks _ hlength
      rw [List.length_eq_zero_iff.1 hlength.symm]
      rfl
    | cons start r ih =>
      intro blocks hstarts hlength
      cases blocks with
      | nil => cases hlength
      | cons b bs =>
        rw [List.zip_cons_cons, List.flatMap_cons, List.map_append, List.flatMap_cons,
          describe_spanPorts (hstarts start List.mem_cons_self) b,
          ih bs (fun s hs => hstarts s (List.mem_cons_of_mem _ hs)) (Nat.succ.inj hlength)]
  rw [hports, hblocks starts _ hstarts hlength, usable]

/-- A port as the code makes it. -/
structure Physical (p : Val) : Prop where
  isArray : p.isArray = true
  technology : p.get "technology" = .str "analog" ∨ p.get "technology" = .str "isdn"
  location : p.get "location" = .null ∨ ∃ s, p.get "location" = .str s
  basechannel : p.get "basechannel" = .null ∨ ∃ s, p.get "basechannel" = .str s
  type : ∃ s, p.get "type" = .str s

theorem physical_of_mem {out : List String} {p : Val} (h : p ∈ dahdiGetPhysicalPorts out) :
    Physical p := by
  obtain ⟨starts, hstarts, -, hports⟩ := dahdiGetPhysicalPorts_eq out
  rw [hports] at h
  obtain ⟨⟨start, block⟩, hmem, hp⟩ := List.mem_flatMap.1 h
  have hstart := hstarts start (List.of_mem_zip hmem).1
  have hlocation := @get_readBlock_of_start start "location" hstart block (by decide)
  have hbasechan := @get_readBlock_of_start start "basechan" hstart block (by decide)
  unfold spanPorts at hp
  split_ifs at hp
  · obtain ⟨port, -, rfl⟩ := List.mem_map.1 hp
    exact ⟨rfl, .inl rfl, hlocation ▸ lastSetting_cases "location" block, .inr ⟨_, rfl⟩, _, rfl⟩
  · obtain rfl := List.mem_singleton.1 hp
    exact ⟨rfl, .inr rfl, hlocation ▸ lastSetting_cases "location" block,
      hbasechan ▸ lastSetting_cases "basechan" block, _, rfl⟩
  · cases hp

end Fields

end Dahdi
end Askozia
