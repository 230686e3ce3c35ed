import Askozia.Asterisk.Options
import Askozia.Dahdi.Chan
import Askozia.Php.Chars
import Mathlib.Data.List.Nodup
import Mathlib.Data.List.Perm.Basic

/-!
# `system.conf` (`dahdi.inc`)

The settings of the DAHDI driver: for each span of a Redfone gateway how many channels it has, and
which of the channels carry voice and which signalling. The channels are numbered through, but the
counter starts again at 1 for each gateway.

* `declared_gateway`: the channels of one gateway are numbered without gaps;
* `channels_once_iff`: those of all gateways are declared once each, and are as many as announced,
  exactly when no more than one gateway has spans;
* `channelsOnce_iff_text`: the file says so, too.
-/

namespace Askozia
namespace Dahdi

open Php Config Pbx Asterisk

/-! ## Settings -/

/-- A setting, `key=value`. -/
def setting (s : String × String) : String := s.1 ++ "=" ++ s.2 ++ "\n"

/-- A section: its title, its settings and a blank line. -/
def sectionText (title : String) (settings : List (String × String)) : String :=
  "# " ++ title ++ "\n" ++ String.join (settings.map setting) ++ "\n"

/-- `$gateway['spancount']` -/
def spancount (gateway : Val) : ℕ := (intval (gateway.get "spancount")).toNat

/-- `$gateway['span' . $i . 'type'] == "E1"` -/
def isE1 (gateway : Val) (i : ℕ) : Bool := is (spanField gateway (toString i) "type") "E1"

/-- `$chancount` -/
def chancount (gateway : Val) (i : ℕ) : ℕ := if isE1 gateway i then 31 else 24

/-- The numbers `$i` of the spans of a gateway. -/
def spanNumbers (gateway : Val) : List ℕ := List.range' 1 (spancount gateway)

/-- The dynamic spans of a gateway. -/
def gatewaySpans (gateway : Val) : List (String × String) :=
  (spanNumbers gateway).map fun i =>
    ("dynamic", "ethmf," ++ (gateway.get "localif").toStr ++ "/" ++ (gateway.get "remotemac").toStr ++
      "/" ++ toString (i - 1) ++ "," ++ toString (chancount gateway i) ++ "," ++
      toString (spancount gateway + 1 - i))

/-- The settings of a span, whose first channel is `ch`. -/
def spanChannels (gateway : Val) (i ch : ℕ) : List (String × String) :=
  if isE1 gateway i then
    [("bchan", toString ch ++ "-" ++ toString (ch + 14) ++ "," ++ toString (ch + 16) ++ "-" ++
        toString (ch + 30)),
      ("dchan", toString (ch + 15)), ("alaw", toString ch ++ "-" ++ toString (ch + 30))]
  else
    [("bchan", toString ch ++ "-" ++ toString (ch + 22)), ("dchan", toString (ch + 23))]

/-- The loop over the spans of a gateway: the settings, and `$ch` after it. -/
def spansLoop (gateway : Val) : List ℕ → ℕ → List (String × String) × ℕ
  | [], ch => ([], ch)
  | i :: r, ch =>
    let (rest, last) := spansLoop gateway r (if isE1 gateway i then ch + 31 else ch + 24)
    (spanChannels gateway i ch ++ rest, last)

/-- The channels of a gateway. -/
def gatewayChannels (gateway : Val) : List (String × String) :=
  (spansLoop gateway (spanNumbers gateway) 1).1

/-- A port for a single ISDN line. -/
def isBri (port : Val) : Bool :=
  is (port.get "technology") "isdn" && (port.get "totalchannels").looseEq (.int 3)

/-- The channels of a port of a card. -/
def portChannels (startsignaling : Val) (port : Val) : List (String × String) :=
  if is (port.get "technology") "analog" then
    let signaling := if is (port.get "type") "fxs" then "fxo" else "fxs"
    let start := if (port.get "startsignaling").truthy then port.get "startsignaling"
      else startsignaling
    [(signaling ++ start.toStr, (port.get "basechannel").toStr)]
  else if isBri port && (is (port.get "type") "nt" || is (port.get "type") "te") then
    [("bchan", (port.get "basechannel").toStr), ("bchan", plus (port.get "basechannel") 1),
      (if strstr (port.get "card").toStr "AUERSWALD COMpact ISDN" then "dchan" else "hardhdlc",
        plus (port.get "basechannel") 2)]
  else []

/-- The settings under `# Dynamic Spans`. -/
def dynamicSpans (gateways : List Val) : List (String × String) := gateways.flatMap gatewaySpans

/-- The settings under `# Channels`. -/
def channels (ports gateways : List Val) (startsignaling : Val) : List (String × String) :=
  gateways.flatMap gatewayChannels ++ ports.flatMap (portChannels startsignaling)

/-- The spans of the cards, with `$timingprio`. -/
def cardSpans : List Val → ℕ → List (String × String)
  | [], _ => []
  | port :: r, timingprio =>
    if isBri port && is (port.get "type") "nt" then
      ("span", (port.get "span").toStr ++ ",0,0,ccs,ami") :: cardSpans r timingprio
    else if isBri port && is (port.get "type") "te" then
      ("span", (port.get "span").toStr ++ "," ++ toString timingprio ++ ",0,ccs,ami") ::
        cardSpans r (timingprio + 1)
    else cardSpans r timingprio

/-- The echo canceller of a port. -/
def portEcho (port : Val) : List (String × String) :=
  if is (port.get "echo-taps") "disable" then []
  else if is (port.get "technology") "analog" then
    [("echocanceller", "oslec," ++ (port.get "basechannel").toStr)]
  else if isBri port && (is (port.get "type") "nt" || is (port.get "type") "te") then
    [("echocanceller", "oslec," ++ (port.get "basechannel").toStr ++ "-" ++
      plus (port.get "basechannel") 1)]
  else []

/-- The comment about a gateway. -/
def systemGatewayInfo (gateway : Val) : String :=
  "# Redfone gateway (" ++ (gateway.get "gwname").toStr ++ ") with " ++
    (gateway.get "spancount").toStr ++ " spans\n"

/-- The comment about a port. -/
def systemPortInfo (port : Val) : String :=
  if is (port.get "technology") "analog" then
    "# analog " ++ (port.get "type").toStr ++ " channel " ++ (port.get "basechannel").toStr ++
      " (" ++ portName port ++ ") is on card " ++ (port.get "card").toStr ++ "\n"
  else if is (port.get "technology") "isdn" then
    "# isdn " ++ (port.get "type").toStr ++ " port, basechannel " ++
      (port.get "basechannel").toStr ++ " (" ++ portName port ++ ") is on card " ++
      (port.get "card").toStr ++ " w/" ++ (port.get "totalchannels").toStr ++ " channels\n"
  else ""

/-- `dahdi_generate_system_conf(true)`, given the ports, the gateways, the tone zones and the
default start signalling. -/
def dahdiGenerateSystemConf (ports gateways : List Val) (loadzones : List String)
    (startsignaling : Val) : String :=
  "# Hardware Info\n" ++ String.join (gateways.map systemGatewayInfo) ++
    String.join (ports.map systemPortInfo) ++ "\n" ++
    sectionText "Dynamic Spans" (dynamicSpans gateways) ++
    sectionText "Spans" (cardSpans ports 1) ++
    sectionText "Channels" (channels ports gateways startsignaling) ++
    sectionText "Tone Zones" (loadzones.map (fun zone => ("loadzone", zone)) ++
      [("defaultzone", loadzones.head?.getD "")]) ++
    sectionText "Echo Cancellers" (ports.flatMap portEcho)

/-! ## Channel numbers -/

/-- The number a text is. -/
def number (text : List Char) : ℕ := Val.digitsValue text

/-- The channels in a list such as `1-15,17-31`. -/
def channelList (value : String) : List ℕ :=
  (explodeChars ',' value.toList).flatMap fun range =>
    match explodeChars '-' range with
    | [channel] => [number channel]
    | [first, last] => List.range' (number first) (number last + 1 - number first)
    | _ => []

/-- The channels that are declared: those of `bchan` and `dchan`. -/
def declared (settings : List (String × String)) : List ℕ :=
  settings.flatMap fun s => if s.1 = "bchan" ∨ s.1 = "dchan" then channelList s.2 else []

/-- How many channels are announced: the field before the last of each `dynamic`. -/
def announced (settings : List (String × String)) : ℕ :=
  (settings.map fun s => number ((explodeChars ',' s.2.toList).reverse[1]?.getD [])).sum

section Numbers

/-- A number that is written is read back. -/
theorem number_toString (n : ℕ) : number (toString n).toList = n := Val.digitsValue_toString n

/-- A separator is no digit. -/
theorem sep_not_mem_toString {sep : Char} (hsep : sep.isDigit = false) (n : ℕ) :
    sep ∉ (toString n).toList := by
  intro hmem
  rw [Nat.toString_eq_ofList_toDigits, String.toList_ofList] at hmem
  rw [Nat.isDigit_of_mem_toDigits (by decide) (by decide) hmem] at hsep
  cases hsep

/-- One number is one channel. -/
theorem channelList_single (n : ℕ) : channelList (toString n) = [n] := by
  unfold channelList
  rw [explodeChars_of_not_mem (sep_not_mem_toString rfl n), List.flatMap_singleton,
    explodeChars_of_not_mem (sep_not_mem_toString rfl n)]
  simp only [number_toString]

/-- What is read of a range. -/
theorem explode_range (a b : ℕ) :
    explodeChars '-' ((toString a).toList ++ '-' :: (toString b).toList) =
      [(toString a).toList, (toString b).toList] := by
  rw [explodeChars_append, explodeChars_of_not_mem (sep_not_mem_toString rfl a),
    explodeChars_of_not_mem (sep_not_mem_toString rfl b)]
  rfl

/-- A range has no comma. -/
theorem comma_not_mem_range (a b : ℕ) :
    ',' ∉ (toString a).toList ++ '-' :: (toString b).toList := by
  intro hmem
  rcases List.mem_append.1 hmem with hmem | hmem
  · exact sep_not_mem_toString rfl a hmem
  · rcases List.mem_cons.1 hmem with h | hmem
    · cases h
    · exact sep_not_mem_toString rfl b hmem

/-- A range is all channels from its first to its last. -/
theorem channelList_range (a b : ℕ) :
    channelList (toString a ++ "-" ++ toString b) = List.range' a (b + 1 - a) := by
  have hlist : (toString a ++ "-" ++ toString b).toList =
      (toString a).toList ++ '-' :: (toString b).toList := by simp
  unfold channelList
  rw [hlist, explodeChars_of_not_mem (comma_not_mem_range a b), List.flatMap_singleton, explode_range]
  simp only [number_toString]

/-- Two ranges, one after the other. -/
theorem channelList_ranges (a b c d : ℕ) :
    channelList (toString a ++ "-" ++ toString b ++ "," ++ toString c ++ "-" ++ toString d) =
      List.range' a (b + 1 - a) ++ List.range' c (d + 1 - c) := by
  have hlist : (toString a ++ "-" ++ toString b ++ "," ++ toString c ++ "-" ++ toString d).toList =
      ((toString a).toList ++ '-' :: (toString b).toList) ++
        ',' :: ((toString c).toList ++ '-' :: (toString d).toList) := by simp
  unfold channelList
  rw [hlist, explodeChars_append, explodeChars_of_not_mem (comma_not_mem_range a b),
    explodeChars_of_not_mem (comma_not_mem_range c d), List.flatMap_append, List.flatMap_singleton,
    List.flatMap_singleton, explode_range, explode_range]
  simp only [number_toString]

/-- A line that declares channels. -/
theorem declared_cons {key : String} (hkey : key = "bchan" ∨ key = "dchan") (value : String)
    (rest : List (String × String)) :
    declared ((key, value) :: rest) = channelList value ++ declared rest := by
  rw [declared, List.flatMap_cons, if_pos hkey]
  rfl

/-- The channels of two parts of the file, one after the other. -/
theorem declared_append (a b : List (String × String)) :
    declared (a ++ b) = declared a ++ declared b := List.flatMap_append

/-- Those of what is written gateway by gateway. -/
theorem declared_flatMap {α : Type} (f : α → List (String × String)) (xs : List α) :
    declared (xs.flatMap f) = xs.flatMap fun x => declared (f x) := List.flatMap_assoc

end Numbers

/-! ## One gateway -/

section Gateway

variable {gateway : Val}

/-- A span declares its channels, as many as it announces. -/
theorem declared_spanChannels (i ch : ℕ) :
    (declared (spanChannels gateway i ch)).Perm (List.range' ch (chancount gateway i)) := by
  unfold spanChannels chancount
  split_ifs
  · have hread : declared [("bchan", toString ch ++ "-" ++ toString (ch + 14) ++ "," ++
        toString (ch + 16) ++ "-" ++ toString (ch + 30)), ("dchan", toString (ch + 15)),
        ("alaw", toString ch ++ "-" ++ toString (ch + 30))] =
        List.range' ch 15 ++ List.range' (ch + 16) 15 ++ [ch + 15] := by
      have hfirst : ch + 14 + 1 - ch = 15 := by omega
      have hsecond : ch + 30 + 1 - (ch + 16) = 15 := by omega
      rw [declared_cons (.inl rfl), declared_cons (.inr rfl), channelList_ranges, channelList_single,
        hfirst, hsecond, ← List.append_assoc]
      exact List.append_nil _
    have hall : List.range' ch 31 = List.range' ch 15 ++ ([ch + 15] ++ List.range' (ch + 16) 15) := by
      have hrest : List.range' (ch + 15) 16 = [ch + 15] ++ List.range' (ch + 16) 15 := List.range'_succ
      rw [← hrest, List.range'_append_1]
    rw [hread, hall, List.append_assoc]
    exact List.Perm.append_left _ List.perm_append_comm
  · have hread : declared [("bchan", toString ch ++ "-" ++ toString (ch + 22)),
        ("dchan", toString (ch + 23))] = List.range' ch 23 ++ [ch + 23] := by
      have hlen : ch + 22 + 1 - ch = 23 := by omega
      rw [declared_cons (.inl rfl), declared_cons (.inr rfl), channelList_range, channelList_single,
        hlen, ← List.append_assoc]
      exact List.append_nil _
    have hall : List.range' ch 24 = List.range' ch 23 ++ [ch + 23] := List.range'_1_concat
    rw [hread, hall]

/-- How many channels some spans have. -/
def total (gateway : Val) (spans : List ℕ) : ℕ := (spans.map (chancount gateway)).sum

/-- The spans of a gateway are numbered through. -/
theorem declared_spansLoop (spans : List ℕ) (ch : ℕ) :
    (declared (spansLoop gateway spans ch).1).Perm (List.range' ch (total gateway spans)) := by
  induction spans generalizing ch with
  | nil => rfl
  | cons i r ih =>
    have hnext : (if isE1 gateway i then ch + 31 else ch + 24) = ch + chancount gateway i := by
      unfold chancount
      split_ifs
      · rfl
      · rfl
    unfold spansLoop
    rw [hnext]
    dsimp only
    rw [declared_append, total, List.map_cons, List.sum_cons, ← List.range'_append_1]
    exact (declared_spanChannels i ch).append (ih _)

/-- A gateway declares each of its channels once, counting from one. -/
theorem declared_gateway :
    (declared (gatewayChannels gateway)).Perm
      (List.range' 1 (total gateway (spanNumbers gateway))) := declared_spansLoop _ 1

/-- What a gateway announces. -/
theorem announced_gateway :
    announced (gatewaySpans gateway) = total gateway (spanNumbers gateway) := by
  have hspan : ∀ (device : String) (n t : ℕ),
      number ((explodeChars ',' (device ++ "," ++ toString n ++ "," ++ toString t).toList).reverse[1]?.getD
        []) = n := by
    intro device n t
    have hlist : (device ++ "," ++ toString n ++ "," ++ toString t).toList =
        device.toList ++ ',' :: ((toString n).toList ++ ',' :: (toString t).toList) := by simp
    have hfield : ∀ (fields : List (List Char)) (x y : List Char),
        (fields ++ ([x] ++ [y])).reverse[1]?.getD [] = x := by
      intro fields x y
      simp
    rw [hlist, explodeChars_append, explodeChars_append,
      explodeChars_of_not_mem (sep_not_mem_toString rfl n),
      explodeChars_of_not_mem (sep_not_mem_toString rfl t), hfield, number_toString]
  unfold announced gatewaySpans total
  rw [List.map_map]
  refine congrArg List.sum (List.map_congr_left ?_)
  intro i _
  rw [Function.comp_apply]
  exact hspan ("ethmf," ++ (gateway.get "localif").toStr ++ "/" ++ (gateway.get "remotemac").toStr ++
    "/" ++ toString (i - 1)) (chancount gateway i) (spancount gateway + 1 - i)

/-- A gateway with spans has a first channel. -/
theorem total_pos (h : 0 < spancount gateway) : 0 < total gateway (spanNumbers gateway) := by
  obtain ⟨n, hn⟩ := Nat.exists_eq_succ_of_ne_zero (Nat.pos_iff_ne_zero.1 h)
  have hcount : 0 < chancount gateway 1 := by
    unfold chancount
    split_ifs
    · decide
    · decide
  rw [total, spanNumbers, hn, List.range'_succ, List.map_cons, List.sum_cons]
  omega

/-- Without spans there are none. -/
theorem total_zero (h : spancount gateway = 0) : total gateway (spanNumbers gateway) = 0 := by
  rw [total, spanNumbers, h]
  rfl

end Gateway

/-! ## All gateways -/

/-- Every channel is declared once, and the channels are those from 1 to the number announced. -/
def ChannelsOnce (gateways : List Val) (startsignaling : Val) : Prop :=
  (declared (channels [] gateways startsignaling)).Nodup ∧
    ∀ n, n ∈ declared (channels [] gateways startsignaling) ↔
      1 ≤ n ∧ n ≤ announced (dynamicSpans gateways)

/-- The gateways that have spans. -/
def withSpans (gateways : List Val) : List Val := gateways.filter fun gateway => 0 < spancount gateway

section Gateways

variable {gateways : List Val} {startsignaling : Val}

/-- Counting starts anew for every gateway. -/
theorem declared_channels :
    declared (channels [] gateways startsignaling) =
      gateways.flatMap fun gateway => declared (gatewayChannels gateway) := by
  rw [channels, List.flatMap_nil, List.append_nil, declared_flatMap]

/-- Gateways without spans declare nothing and announce nothing. -/
theorem flatMap_withSpans :
    (gateways.flatMap fun gateway => declared (gatewayChannels gateway)) =
      (withSpans gateways).flatMap fun gateway => declared (gatewayChannels gateway) := by
  induction gateways with
  | nil => rfl
  | cons gateway r ih =>
    unfold withSpans at ih ⊢
    rw [List.flatMap_cons, ih]
    by_cases hspans : 0 < spancount gateway
    · rw [List.filter_cons_of_pos (by simpa using hspans), List.flatMap_cons]
    · have hnil : declared (gatewayChannels gateway) = [] := by
        have hperm := @declared_gateway gateway
        rw [total_zero (by omega)] at hperm
        exact hperm.eq_nil
      rw [List.filter_cons_of_neg (by simpa using hspans), hnil, List.nil_append]

/-- The spans announce the channels of all gateways. -/
theorem announced_withSpans :
    announced (dynamicSpans gateways) =
      ((withSpans gateways).map fun gateway => total gateway (spanNumbers gateway)).sum := by
  induction gateways with
  | nil => rfl
  | cons gateway r ih =>
    have hcons : announced (dynamicSpans (gateway :: r)) =
        announced (gatewaySpans gateway) + announced (dynamicSpans r) := by
      unfold announced dynamicSpans
      rw [List.flatMap_cons, List.map_append, List.sum_append]
    unfold withSpans at ih ⊢
    rw [hcons, ih, announced_gateway]
    by_cases hspans : 0 < spancount gateway
    · rw [List.filter_cons_of_pos (by simpa using hspans), List.map_cons, List.sum_cons]
    · rw [List.filter_cons_of_neg (by simpa using hspans), total_zero (by omega), Nat.zero_add]

/-- The channels are declared once each, and are as many as announced, exactly when no more than one
gateway has spans. -/
theorem channels_once_iff : ChannelsOnce gateways startsignaling ↔ (withSpans gateways).length ≤ 1 := by
  unfold ChannelsOnce
  rw [declared_channels, flatMap_withSpans, announced_withSpans]
  have hspans : ∀ gateway ∈ withSpans gateways, 0 < spancount gateway := by
    intro gateway hgateway
    simpa using List.of_mem_filter hgateway
  cases hgateways : withSpans gateways with
  | nil =>
    refine ⟨fun _ => Nat.zero_le 1, fun _ => ⟨List.nodup_nil, ?_⟩⟩
    intro n
    simp only [List.flatMap_nil, List.not_mem_nil, List.map_nil, List.sum_nil, false_iff]
    omega
  | cons a r =>
    rw [hgateways] at hspans
    cases r with
    | nil =>
      have hperm := @declared_gateway a
      simp only [List.flatMap_cons, List.flatMap_nil, List.append_nil, List.map_cons, List.map_nil,
        List.sum_cons, List.sum_nil, Nat.add_zero, List.length_cons, List.length_nil, Nat.zero_add,
        Nat.le_refl, iff_true]
      refine ⟨hperm.nodup_iff.2 (List.nodup_range'), ?_⟩
      intro n
      rw [hperm.mem_iff, List.mem_range'_1]
      omega
    | cons b r =>
      -- both count from 1
      have hone : ∀ gateway ∈ a :: b :: r, 1 ∈ declared (gatewayChannels gateway) := by
        intro gateway hgateway
        have hpos := total_pos (hspans gateway hgateway)
        rw [declared_gateway.mem_iff, List.mem_range'_1]
        omega
      constructor
      · rintro ⟨hnodup, -⟩
        rw [List.flatMap_cons, List.flatMap_cons, List.nodup_append] at hnodup
        exact absurd rfl (hnodup.2.2 1 (hone a (by simp)) 1
          (List.mem_append_left _ (hone b (by simp))))
      · intro hlen
        simp at hlen

end Gateways

/-- A gateway with one E1 span. -/
def oneSpan (uniqid : String) : Val :=
  .arr [(.str "uniqid", .str uniqid), (.str "localif", .str "eth0"), (.str "remotemac", .str "00:50:C2:65:D0:00"),
    (.str "spancount", .str "1"), (.str "span1type", .str "E1")]

/-- Two gateways both start with channel 1. -/
theorem not_once_twoGateways :
    ¬ ChannelsOnce [oneSpan "REDFONE-GATEWAY-1", oneSpan "REDFONE-GATEWAY-2"] (.str "ks") := by
  intro honce
  have hone : 1 ∈ declared (gatewayChannels (oneSpan "REDFONE-GATEWAY-1")) ∧
      1 ∈ declared (gatewayChannels (oneSpan "REDFONE-GATEWAY-2")) := by decide
  have hnodup := honce.1
  rw [declared_channels, List.flatMap_cons, List.flatMap_cons, List.nodup_append] at hnodup
  exact hnodup.2.2 1 hone.1 1 (List.mem_append_left _ hone.2) rfl

/-! ## The text -/

/-- What a line of `system.conf` sets. Comments begin with `#`. -/
def systemSetting? (line : List Char) : Option (String × String) :=
  if line.head? = some '#' then none
  else
    match line.dropWhile (· ≠ '=') with
    | [] => none
    | _ :: value => some (String.ofList (line.takeWhile (· ≠ '=')), String.ofList value)

/-- What a text sets, in order. -/
def systemSettings (text : String) : List (String × String) :=
  (explodeChars '\n' text.toList).filterMap systemSetting?

/-- The setting is one line, and its key is what stands before the `=`. -/
structure Written (s : String × String) : Prop where
  key : s.1.toList.head? ≠ some '#' ∧ '=' ∉ s.1.toList ∧ '\n' ∉ s.1.toList
  value : '\n' ∉ s.2.toList

section Text

variable {gateway startsignaling : Val} {gateways : List Val} {loadzones : List String} {title rest : String}
  {l : List (String × String)}

/-- What a text sets is what its lines set. -/
theorem systemSettings_line (line rest : String) :
    systemSettings (line ++ "\n" ++ rest) = systemSettings line ++ systemSettings rest := by
  have hnewline : "\n".toList = ['\n'] := rfl
  unfold systemSettings
  rw [String.toList_append, String.toList_append, hnewline, List.append_assoc, List.singleton_append,
    explodeChars_append, List.filterMap_append]

/-- A comment sets nothing. -/
theorem systemSettings_comment {text : String} (h : '\n' ∉ text.toList) :
    systemSettings ("#" ++ text) = [] := by
  have hlist : ("#" ++ text).toList = '#' :: text.toList := String.toList_append
  have hline : '\n' ∉ '#' :: text.toList := by simpa using h
  unfold systemSettings
  rw [hlist, explodeChars_of_not_mem hline]
  rfl

/-- A setting is read as it was written. -/
theorem systemSettings_setting {s : String × String} (h : Written s) :
    systemSettings (s.1 ++ "=" ++ s.2) = [s] := by
  obtain ⟨key, value⟩ := s
  obtain ⟨⟨hhash, heq, hkey⟩, hvalue⟩ := h
  have hlist : (key ++ "=" ++ value).toList = key.toList ++ '=' :: value.toList := by simp
  have hline : '\n' ∉ key.toList ++ '=' :: value.toList := by simp [hkey, hvalue]
  have hhead : (key.toList ++ '=' :: value.toList).head? ≠ some '#' := by
    cases hchars : key.toList with
    | nil => simp
    | cons c r =>
      rw [hchars] at hhash
      exact hhash
  have hall : ∀ c ∈ key.toList, decide (c ≠ '=') = true := fun c hc =>
    decide_eq_true fun h => heq (h ▸ hc)
  have hread : systemSetting? (key.toList ++ '=' :: value.toList) = some (key, value) := by
    unfold systemSetting?
    rw [if_neg hhead, List.dropWhile_append_of_pos hall, List.takeWhile_append_of_pos hall]
    simp
  unfold systemSettings
  rw [hlist, explodeChars_of_not_mem hline, List.filterMap_cons_some hread, List.filterMap_nil]

/-- The settings of a section are read as they are written. -/
theorem systemSettings_sectionText (htitle : '\n' ∉ title.toList) (h : ∀ s ∈ l, Written s) (rest : String) :
    systemSettings (sectionText title l ++ rest) = l ++ systemSettings rest := by
  have hsettings : ∀ rest, systemSettings (String.join (l.map setting) ++ rest) = l ++ systemSettings rest := by
    induction l with
    | nil =>
      intro rest
      rw [List.map_nil, String.join_nil, String.empty_append, List.nil_append]
    | cons s r ih =>
      intro rest
      obtain ⟨hs, hr⟩ := List.forall_mem_cons.1 h
      have hline : setting s = (s.1 ++ "=" ++ s.2) ++ "\n" := rfl
      rw [List.map_cons, String.join_cons, hline, String.append_assoc, systemSettings_line,
        systemSettings_setting hs, ih hr]
      rfl
  have htext : sectionText title l ++ rest =
      ("#" ++ (" " ++ title)) ++ "\n" ++ (String.join (l.map setting) ++ ("" ++ "\n" ++ rest)) := by
    have hhash : "# " = "#" ++ " " := rfl
    unfold sectionText
    simp only [hhash, String.append_assoc, String.empty_append]
  have hcomment : '\n' ∉ (" " ++ title).toList := by simpa using htitle
  rw [htext, systemSettings_line, systemSettings_comment hcomment, hsettings, systemSettings_line]
  rfl


/-- A number breaks no line. -/
theorem newline_not_mem_toDigits (n : ℕ) : '\n' ∉ Nat.toDigits 10 n := by
  simpa using @sep_not_mem_toString '\n' rfl n

/-- The keys of the settings that are written without cards. -/
def systemKeys : List String := ["dynamic", "bchan", "dchan", "alaw", "loadzone", "defaultzone"]

/-- A known option with a value on one line can be written. -/
theorem written_of_key {key value : String} (hkey : key ∈ systemKeys) (hvalue : '\n' ∉ value.toList) :
    Written (key, value) := by
  have hkeys : ∀ key ∈ systemKeys,
      key.toList.head? ≠ some '#' ∧ '=' ∉ key.toList ∧ '\n' ∉ key.toList := by decide
  exact ⟨hkeys key hkey, hvalue⟩

/-- So can the channels of a span. -/
theorem written_spanChannels (i ch : ℕ) : ∀ s ∈ spanChannels gateway i ch, Written s := by
  have hnumber : ∀ n : ℕ, '\n' ∉ (toString n).toList := sep_not_mem_toString rfl
  have hrange : ∀ a b : ℕ, '\n' ∉ (toString a ++ "-" ++ toString b).toList := by
    simp [newline_not_mem_toDigits]
  have hranges : ∀ a b c d : ℕ,
      '\n' ∉ (toString a ++ "-" ++ toString b ++ "," ++ toString c ++ "-" ++ toString d).toList := by
    simp [newline_not_mem_toDigits]
  unfold spanChannels
  split_ifs
  · exact List.forall_mem_cons.2 ⟨written_of_key (by decide) (hranges _ _ _ _),
      List.forall_mem_cons.2 ⟨written_of_key (by decide) (hnumber _),
        List.forall_mem_singleton.2 (written_of_key (by decide) (hrange _ _))⟩⟩
  · exact List.forall_mem_cons.2 ⟨written_of_key (by decide) (hrange _ _),
      List.forall_mem_singleton.2 (written_of_key (by decide) (hnumber _))⟩

/-- What holds of the settings of every span holds of the channels. -/
theorem forall_channels {P : String × String → Prop}
    (h : ∀ gateway i ch, ∀ s ∈ spanChannels gateway i ch, P s) :
    ∀ s ∈ channels [] gateways startsignaling, P s := by
  have hloop : ∀ (gateway : Val) (spans : List ℕ) (ch : ℕ), ∀ s ∈ (spansLoop gateway spans ch).1, P s := by
    intro gateway spans
    induction spans with
    | nil => exact fun ch s hs => absurd hs List.not_mem_nil
    | cons i r ih =>
      intro ch
      unfold spansLoop
      exact List.forall_mem_append.2 ⟨h gateway i ch, ih _⟩
  intro s hs
  rw [channels, List.flatMap_nil, List.append_nil] at hs
  obtain ⟨gateway, -, hs⟩ := List.mem_flatMap.1 hs
  exact hloop gateway _ _ s hs

/-- The fields of a gateway are one line each. -/
theorem newline_not_mem_field (h : '\n' ∉ gateway.chars) (f : String) :
    '\n' ∉ (gateway.get f).toStr.toList := fun hmem =>
  h (Val.chars_get (Val.mem_chars_of_mem_toStr (by decide) (by decide) (by decide) hmem))

/-- The spans of a gateway can be written. -/
theorem written_gatewaySpans (h : '\n' ∉ gateway.chars) : ∀ s ∈ gatewaySpans gateway, Written s := by
  intro s hs
  obtain ⟨i, -, rfl⟩ := List.mem_map.1 hs
  have hfield := newline_not_mem_field h
  refine written_of_key (by decide) ?_
  simp [hfield, newline_not_mem_toDigits]

/-- Without cards the text announces and declares the channels of the gateways, and names the tone zones. -/
theorem systemSettings_dahdiGenerateSystemConf (hgateways : ∀ gateway ∈ gateways, '\n' ∉ gateway.chars)
    (hzones : ∀ zone ∈ loadzones, '\n' ∉ zone.toList) :
    systemSettings (dahdiGenerateSystemConf [] gateways loadzones startsignaling) =
      dynamicSpans gateways ++ (channels [] gateways startsignaling ++
        (loadzones.map (fun zone => ("loadzone", zone)) ++ [("defaultzone", loadzones.head?.getD "")])) := by
  -- the information on the gateways is written as comments
  have hinfo : ∀ rest, systemSettings (String.join (gateways.map systemGatewayInfo) ++ rest) =
      systemSettings rest := by
    induction gateways with
    | nil =>
      intro rest
      rw [List.map_nil, String.join_nil, String.empty_append]
    | cons gateway r ih =>
      intro rest
      obtain ⟨hgateway, hr⟩ := List.forall_mem_cons.1 hgateways
      have hfield := newline_not_mem_field hgateway
      have hline : systemGatewayInfo gateway = "#" ++ (" Redfone gateway (" ++ (gateway.get "gwname").toStr ++
          ") with " ++ (gateway.get "spancount").toStr ++ " spans") ++ "\n" := by
        have hstart : "# Redfone gateway (" = "#" ++ " Redfone gateway (" := rfl
        have hend : " spans\n" = " spans" ++ "\n" := rfl
        unfold systemGatewayInfo
        simp only [hstart, hend, String.append_assoc]
      rw [List.map_cons, String.join_cons, String.append_assoc, hline, systemSettings_line,
        systemSettings_comment (by simp [hfield]), ih hr]
      rfl
  have hspans : ∀ s ∈ dynamicSpans gateways, Written s := by
    intro s hs
    obtain ⟨gateway, hgateway, hs⟩ := List.mem_flatMap.1 hs
    exact written_gatewaySpans (hgateways gateway hgateway) s hs
  have hchannels : ∀ s ∈ channels [] gateways startsignaling, Written s :=
    forall_channels fun _ i ch => written_spanChannels i ch
  have htones : ∀ s ∈ loadzones.map (fun zone => ("loadzone", zone)) ++ [("defaultzone", loadzones.head?.getD "")],
      Written s := by
    refine List.forall_mem_append.2 ⟨fun s hs => ?_, List.forall_mem_singleton.2 (written_of_key (by decide) ?_)⟩
    · obtain ⟨zone, hzone, rfl⟩ := List.mem_map.1 hs
      exact written_of_key (by decide) (hzones zone hzone)
    · cases loadzones with
      | nil => decide
      | cons zone r => exact hzones zone List.mem_cons_self
  -- without cards the section of their spans is empty
  have hspare : ∀ s ∈ cardSpans [] 1, Written s := fun s hs => absurd hs List.not_mem_nil
  have htext : dahdiGenerateSystemConf [] gateways loadzones startsignaling =
      "#" ++ " Hardware Info" ++ "\n" ++ (String.join (gateways.map systemGatewayInfo) ++
        ("" ++ "\n" ++ (sectionText "Dynamic Spans" (dynamicSpans gateways) ++
          (sectionText "Spans" (cardSpans [] 1) ++
            (sectionText "Channels" (channels [] gateways startsignaling) ++
              (sectionText "Tone Zones" (loadzones.map (fun zone => ("loadzone", zone)) ++
                [("defaultzone", loadzones.head?.getD "")]) ++ sectionText "Echo Cancellers" [])))))) := by
    have hhead : "# Hardware Info\n" = "#" ++ (" Hardware Info" ++ "\n") := rfl
    unfold dahdiGenerateSystemConf
    simp only [hhead, List.map_nil, String.join_nil, String.append_empty, String.empty_append,
      List.flatMap_nil, String.append_assoc]
  have hrest : systemSettings (sectionText "Echo Cancellers" []) = [] := by decide
  have hempty : systemSettings "" = [] := rfl
  rw [htext, systemSettings_line, systemSettings_comment (by decide), hinfo, systemSettings_line, hempty,
    systemSettings_sectionText (by decide) hspans, systemSettings_sectionText (by decide) hspare,
    systemSettings_sectionText (by decide) hchannels, systemSettings_sectionText (by decide) htones, hrest,
    List.append_nil]
  rfl

/-- Other settings declare no channel. -/
theorem declared_eq_nil (h : ∀ s ∈ l, s.1 ≠ "bchan" ∧ s.1 ≠ "dchan") : declared l = [] := by
  rw [declared, List.flatMap_eq_nil_iff]
  intro s hs
  rw [if_neg (not_or.2 (h s hs))]

/-- The channels are declared once each, and are as many as announced, in the text as in the lists. -/
theorem channelsOnce_iff_text (hgateways : ∀ gateway ∈ gateways, '\n' ∉ gateway.chars)
    (hzones : ∀ zone ∈ loadzones, '\n' ∉ zone.toList) {conf : List (String × String)}
    (hconf : systemSettings (dahdiGenerateSystemConf [] gateways loadzones startsignaling) = conf) :
    ChannelsOnce gateways startsignaling ↔ (declared conf).Nodup ∧
      ∀ n, n ∈ declared conf ↔ 1 ≤ n ∧ n ≤ announced (conf.filter fun s => s.1 = "dynamic") := by
  -- the three kinds of settings have different names, so each part is found in the whole
  have hdynamic : ∀ s ∈ dynamicSpans gateways, s.1 = "dynamic" := by
    intro s hs
    obtain ⟨gateway, -, hs⟩ := List.mem_flatMap.1 hs
    obtain ⟨i, -, rfl⟩ := List.mem_map.1 hs
    rfl
  have hchannels : ∀ s ∈ channels [] gateways startsignaling, s.1 ≠ "dynamic" :=
    forall_channels fun gateway i ch => by
      unfold spanChannels
      split_ifs
      · simp
      · simp
  have htones : ∀ s ∈ loadzones.map (fun zone => ("loadzone", zone)) ++
      [("defaultzone", loadzones.head?.getD "")], s.1 = "loadzone" ∨ s.1 = "defaultzone" := by
    refine List.forall_mem_append.2 ⟨fun s hs => ?_, List.forall_mem_singleton.2 (.inr rfl)⟩
    obtain ⟨zone, -, rfl⟩ := List.mem_map.1 hs
    exact .inl rfl
  rw [systemSettings_dahdiGenerateSystemConf hgateways hzones] at hconf
  have hdeclared : declared conf = declared (channels [] gateways startsignaling) := by
    rw [← hconf, declared_append, declared_append,
      declared_eq_nil fun s hs => by simp [hdynamic s hs], List.nil_append,
      @declared_eq_nil (_ ++ _) fun s hs => by rcases htones s hs with h | h <;> simp [h],
      List.append_nil]
  have hannounced : conf.filter (fun s => s.1 = "dynamic") = dynamicSpans gateways := by
    rw [← hconf, List.filter_append, List.filter_append,
      List.filter_eq_self.2 fun s hs => decide_eq_true (hdynamic s hs),
      List.filter_eq_nil_iff.2 fun s hs => by simp [hchannels s hs],
      List.filter_eq_nil_iff.2 fun s hs => by rcases htones s hs with h | h <;> simp [h],
      List.append_nil, List.append_nil]
  rw [hdeclared, hannounced]
  rfl

end Text

end Dahdi
end Askozia
