import Askozia.Dahdi.System
import Askozia.Dahdi.Trunks
import Askozia.Pbx.Forms
import Askozia.Php.Search

/-!
# Spans of a Redfone gateway (`redfone.inc`, `dahdi.inc`)

An ISDN provider may use a span of a gateway: its port is the `uniqid` of the gateway, a dash and the
number of the span. The channels of the span are worked out twice. `dahdi_generate_system_conf` counts
them through while it writes the spans of the gateway, and `redfone_get_span_basechannel` adds up the
spans before the one it is asked for.

* `bchan_spansLoop` says what the first counter is at each span;
* `redfoneGetSpanBasechannel_eq` says what the second one is;
* `spans_agree`: a provider gets the voice channels of its span, and no signalling channel.
-/

namespace Askozia
namespace Dahdi

open Php Config Pbx

/-! ## The counter of `system.conf` -/

/-- The values of the settings with some key, in order. -/
def valuesOf (key : String) (settings : List (String × String)) : List String :=
  (settings.filter fun s => s.1 = key).map Prod.snd

/-- The value of `bchan` of a span whose first channel is `ch`. -/
def spanBchan (gateway : Val) (i ch : ℕ) : String :=
  if isE1 gateway i then
    toString ch ++ "-" ++ toString (ch + 14) ++ "," ++ toString (ch + 16) ++ "-" ++ toString (ch + 30)
  else toString ch ++ "-" ++ toString (ch + 22)

section Counter

variable {gateway : Val}

/-- The values of an option in two parts of a file, one after the other. -/
theorem valuesOf_append (key : String) (a b : List (String × String)) :
    valuesOf key (a ++ b) = valuesOf key a ++ valuesOf key b := by
  rw [valuesOf, List.filter_append, List.map_append]
  rfl

/-- A value of an option is one it is set to. -/
theorem mem_valuesOf {key value : String} {settings : List (String × String)} :
    value ∈ valuesOf key settings ↔ (key, value) ∈ settings := by
  constructor
  · intro hvalue
    obtain ⟨s, hs, rfl⟩ := List.mem_map.1 hvalue
    obtain ⟨hsetting, hkey⟩ := List.mem_filter.1 hs
    rw [← of_decide_eq_true hkey]
    exact hsetting
  · intro hsetting
    exact List.mem_map.2 ⟨_, List.mem_filter.2 ⟨hsetting, decide_eq_true rfl⟩, rfl⟩

/-- A span declares its voice channels once. -/
theorem bchan_spanChannels (i ch : ℕ) :
    valuesOf "bchan" (spanChannels gateway i ch) = [spanBchan gateway i ch] := by
  unfold spanChannels spanBchan
  split_ifs
  · rfl
  · rfl

/-- Each span has one `bchan`, and starts after the channels of the spans before it. -/
theorem bchan_spansLoop (spans : List ℕ) (ch j : ℕ) (hj : j < spans.length) :
    (valuesOf "bchan" (spansLoop gateway spans ch).1)[j]? =
      some (spanBchan gateway spans[j] (ch + total gateway (spans.take j))) := by
  induction spans generalizing ch j with
  | nil => exact absurd hj (Nat.not_lt_zero j)
  | cons i r ih =>
    have hnext : (if isE1 gateway i then ch + 31 else ch + 24) = ch + chancount gateway i := by
      unfold chancount
      split_ifs
      · rfl
      · rfl
    unfold spansLoop
    rw [hnext]
    dsimp only
    rw [valuesOf_append, bchan_spanChannels, List.singleton_append]
    cases j with
    | zero => rfl
    | succ j =>
      rw [List.getElem?_cons_succ, ih _ j (by simpa using hj), List.getElem_cons_succ,
        List.take_succ_cons]
      have hsum : total gateway (i :: r.take j) = chancount gateway i + total gateway (r.take j) := by
        rw [total, List.map_cons, List.sum_cons]
        rfl
      rw [hsum, Nat.add_assoc]

/-- The `bchan` of the span with number `i`. -/
theorem bchan_gateway {i : ℕ} (hfirst : 1 ≤ i) (hlast : i ≤ spancount gateway) :
    (valuesOf "bchan" (gatewayChannels gateway))[i - 1]? =
      some (spanBchan gateway i (1 + total gateway (List.range' 1 (i - 1)))) := by
  have hlen : i - 1 < (spanNumbers gateway).length := by
    rw [spanNumbers, List.length_range']
    omega
  have hspan : (spanNumbers gateway)[i - 1] = i := by
    simp only [spanNumbers, List.getElem_range']
    omega
  have hbefore : (spanNumbers gateway).take (i - 1) = List.range' 1 (i - 1) := by
    have hall : spancount gateway = i - 1 + (spancount gateway - (i - 1)) := by omega
    rw [spanNumbers, hall, ← List.range'_append_1, List.take_left' List.length_range']
  rw [gatewayChannels, bchan_spansLoop _ 1 _ hlen, hspan, hbefore]

/-- No channel is for voice and for signalling. -/
theorem disjoint_dchan {b d : String} (hb : b ∈ valuesOf "bchan" (gatewayChannels gateway))
    (hd : d ∈ valuesOf "dchan" (gatewayChannels gateway)) :
    (channelList b).Disjoint (channelList d) := by
  have hnodup : (declared (gatewayChannels gateway)).Nodup :=
    declared_gateway.nodup_iff.2 List.nodup_range'
  obtain ⟨-, hapart⟩ := List.nodup_flatMap.1 hnodup
  have hsymm : Std.Symm (Function.onFun List.Disjoint fun s : String × String =>
      if s.1 = "bchan" ∨ s.1 = "dchan" then channelList s.2 else []) := ⟨fun _ _ h => h.symm⟩
  have hne : ("bchan", b) ≠ ("dchan", d) := by
    intro heq
    exact absurd (Prod.mk.inj heq).1 (by decide)
  exact hapart.forall (mem_valuesOf.1 hb) (mem_valuesOf.1 hd) hne

end Counter

/-! ## The counter of `redfone_get_span_basechannel` -/

section Basechannel

variable {gateway : Val}

/-- A number that is written is read back. -/
theorem intval_toString (n : ℕ) : intval (.str (toString n)) = n := by
  have hdigits : ((toString n).toList.takeWhile Char.isDigit) = (toString n).toList := by
    rw [List.takeWhile_eq_self_iff]
    intro c hc
    rw [Nat.toString_eq_ofList_toDigits, String.toList_ofList] at hc
    exact Nat.isDigit_of_mem_toDigits (by decide) (by decide) hc
  show ((Val.digitsValue ((toString n).toList.takeWhile Char.isDigit) : ℕ) : ℤ) = n
  rw [hdigits, Val.digitsValue_toString]

/-- The loop adds the channels of the spans it goes through. -/
theorem foldl_basechannel (spans : List ℕ) (base : ℤ) :
    (spans.foldl (fun (basechannel : ℤ) i =>
      if is (spanField gateway (toString i) "type") "E1" then basechannel + 31
      else basechannel + 24) base) = base + total gateway spans := by
  induction spans generalizing base with
  | nil => exact (add_zero base).symm
  | cons i r ih =>
    have hstep : (if is (spanField gateway (toString i) "type") "E1" then base + 31
        else base + 24) = base + chancount gateway i := by
      unfold chancount isE1
      split_ifs
      · rfl
      · rfl
    rw [List.foldl_cons, hstep, ih, total, total, List.map_cons, List.sum_cons]
    push_cast
    ring

/-- The first channel of a span comes after all channels of the spans before it. -/
theorem redfoneGetSpanBasechannel_eq (i : ℕ) :
    redfoneGetSpanBasechannel gateway (toString i) =
      ((1 + total gateway (List.range' 1 (i - 1)) : ℕ) : ℤ) := by
  have hspans : (List.range i).drop 1 = List.range' 1 (i - 1) := by
    rw [List.range_eq_range', List.drop_range']
  unfold redfoneGetSpanBasechannel
  rw [intval_toString, Int.toNat_natCast, hspans, foldl_basechannel]
  push_cast
  rfl

/-- What a provider with span `i` of a gateway gets. -/
theorem channels_redfone {s : Stanza} {provider : Val} (hs : s.account = .redfoneProvider provider)
    {i : ℕ} (hspan : redfoneSpan provider = toString i) :
    s.channels = spanBchan s.port i (1 + total s.port (List.range' 1 (i - 1))) := by
  unfold Stanza.channels
  rw [hs]
  dsimp only
  rw [hspan, redfoneGetSpanBasechannel_eq]
  generalize 1 + total s.port (List.range' 1 (i - 1)) = first
  unfold spanBchan isE1
  split_ifs
  · rfl
  · rfl

end Basechannel

/-! ## Names of spans -/

/-- The port of a provider with span `i` of a gateway (`providers_isdn_edit.php`). -/
def spanPort (gateway : String) (i : ℕ) : String := gateway ++ "-" ++ toString i

section Names

variable {gwid : String} {i : ℕ}

/-- The port of a span is the id of its gateway and a digit. -/
theorem toList_spanPort (hi : i ≤ 9) :
    (spanPort gwid i).toList = gwid.toList ++ ['-', Nat.digitChar i] := by
  have hdigit : (toString i).toList = [Nat.digitChar i] := by
    rw [Nat.toString_eq_ofList_toDigits, String.toList_ofList, Nat.toDigits_of_lt_base (by omega)]
  rw [spanPort, String.toList_append, String.toList_append, hdigit, List.append_assoc]
  rfl

/-- The gateway is found in the name of the port. -/
theorem spanGateway_spanPort (hi : i ≤ 9) : spanGateway (spanPort gwid i) = gwid := by
  unfold spanGateway
  rw [toList_spanPort hi, List.length_append, List.length_cons, List.length_singleton,
    Nat.add_sub_cancel, List.take_left, String.ofList_toList]

/-- So is the number of the span. -/
theorem spanNumber_spanPort (hi : i ≤ 9) : spanNumber (spanPort gwid i) = toString i := by
  unfold spanNumber
  rw [toList_spanPort hi, List.getLast?_append_of_ne_nil _ (List.cons_ne_nil _ _),
    Nat.toString_eq_ofList_toDigits, Nat.toDigits_of_lt_base (by omega)]
  rfl

/-- It is still the id of a gateway. -/
theorem strstr_spanPort (h : strstr gwid "REDFONE" = true) :
    strstr (spanPort gwid i) "REDFONE" = true := by
  obtain ⟨n, hn⟩ := Option.isSome_iff_exists.1 h
  unfold strstr strpos spanPort at *
  rw [String.append_assoc, String.toList_append, strposChars_append_right (by decide) hn]
  rfl

end Names

/-! ## Stanzas of providers with spans -/

section Stanzas

/-- A list that is there stays as it is when other lists are made. -/
theorem listOf_initConfig {config : Val} {k k' : Kind} (h : (listOf config k').isArray = true) :
    listOf (initConfig config k) k' = listOf config k' := by
  unfold initConfig
  split_ifs with harr
  · rfl
  · by_cases hk : k' = k
    · rw [hk] at h
      exact absurd h harr
    · rcases @listOf_setList_cases config k k' hk (.arr []) with hlist | ⟨⟨s, hs⟩, -⟩
      · exact hlist
      · rw [hs] at h
        cases h

/-- The kinds whose lists `chan_dahdi_conf_generate` fetches. -/
def fetchedKinds : List Kind :=
  [.provider .analog, .phone .analog, .fax .analog, .provider .isdn, .phone .isdn]

/-- Fetching the lists makes those that are missing and changes nothing else. -/
theorem fetchLists_snd (usort : Usort) (g : Globals) :
    (fetchLists usort g).2 = { g with config := fetchedKinds.foldl initConfig g.config } := by
  unfold fetchLists analogGetProviders analogGetPhones analogGetFaxes isdnGetProviders isdnGetPhones
    getSortedCopy
  simp only [initList_eq]
  rfl

/-- A list that is there stays. -/
theorem listOf_foldl_initConfig {config : Val} {k' : Kind} (ks : List Kind)
    (h : (listOf config k').isArray = true) :
    listOf (ks.foldl initConfig config) k' = listOf config k' := by
  induction ks generalizing config with
  | nil => rfl
  | cons k r ih =>
    have hstep := @listOf_initConfig config k k' h
    rw [List.foldl_cons, ih (by rw [hstep]; exact h), hstep]

/-- A list with an element is one. -/
theorem isArray_of_mem {config : Val} {k : Kind} {e : Val} (he : e ∈ elements config k) :
    (listOf config k).isArray = true := by
  unfold elements at he
  cases hlist : listOf config k with
  | arr es => rfl
  | _ =>
    rw [hlist] at he
    cases he

/-- The ISDN providers that are fetched are those that are stored. -/
theorem mem_isdnProviders (usort : Usort) (g : Globals) {provider : Val} :
    provider ∈ (fetchLists usort g).1.isdnProviders ↔ provider ∈ elements g.config (.provider .isdn) := by
  unfold fetchLists analogGetProviders analogGetPhones analogGetFaxes isdnGetProviders isdnGetPhones
    getSortedCopy
  simp only [initList_eq]
  rw [(usort.perm _ _).mem_iff, elements_initConfig, elements_initConfig, elements_initConfig,
    elements_initConfig]

/-- A provider that is not disabled has its turn. -/
theorem exists_mem_providerLoop {body : Val → Val → List Stanza × Val} {ps : List Val} {p : Val}
    (hp : p ∈ ps) (henabled : enabled p = true) (portgroup : Val) :
    ∃ x, ∀ s ∈ (body p x).1, s ∈ (providerLoop body ps portgroup).1 := by
  induction ps generalizing portgroup with
  | nil => cases hp
  | cons q r ih =>
    rw [providerLoop]
    rcases List.mem_cons.1 hp with rfl | hr
    · have hset : ¬ (p.get "disabled").isset = true := by
        simpa [enabled] using henabled
      refine ⟨portgroup, ?_⟩
      intro s hs
      rw [if_neg hset]
      exact List.mem_append_left _ hs
    · split_ifs
      · exact ih hr portgroup
      · obtain ⟨x, hx⟩ := ih hr (body q portgroup).2
        exact ⟨x, fun s hs => List.mem_append_right _ (hx s hs)⟩

/-- Every stanza of a loop over providers is from some provider's turn. -/
theorem exists_of_mem_providerLoop {body : Val → Val → List Stanza × Val} {ps : List Val}
    {portgroup : Val} {s : Stanza} (hs : s ∈ (providerLoop body ps portgroup).1) :
    ∃ p ∈ ps, ∃ x, s ∈ (body p x).1 := by
  induction ps generalizing portgroup with
  | nil => cases hs
  | cons q r ih =>
    rw [providerLoop] at hs
    split_ifs at hs
    · obtain ⟨p, hp, hturn⟩ := ih hs
      exact ⟨p, List.mem_cons_of_mem _ hp, hturn⟩
    · rcases List.mem_append.1 hs with hs | hs
      · exact ⟨q, List.mem_cons_self, portgroup, hs⟩
      · obtain ⟨p, hp, hturn⟩ := ih hs
        exact ⟨p, List.mem_cons_of_mem _ hp, hturn⟩

variable {g : Globals} {l : Lists}

/-- The stanza of a provider with a span. -/
theorem isdnProvider_span {p : Val} (h : usesSpan p = true) (x : Val) :
    (isdnProvider g p x).1 = [⟨.redfoneProvider p,
      getElement g .redfoneGateway (spanGateway (p.get "port").toStr), x⟩] := by
  unfold usesSpan at h
  unfold isdnProvider
  simp only [h, if_true]

/-- An enabled provider on a span has a stanza. -/
theorem exists_redfone_stanza {p : Val} (hp : p ∈ l.isdnProviders) (henabled : enabled p = true)
    (hspan : usesSpan p = true) : ∃ s ∈ stanzas g l, s.account = .redfoneProvider p := by
  obtain ⟨x, hx⟩ := @exists_mem_providerLoop (isdnProvider g) l.isdnProviders p hp henabled
    (providerLoop (analogProvider g) l.analogProviders .null).2
  rw [isdnProvider_span hspan] at hx
  exact ⟨_, List.mem_append_left _ (List.mem_append_right _ (hx _ List.mem_cons_self)), rfl⟩

/-- Such a stanza is for a provider with a span, and its gateway is the one the provider names. -/
theorem port_redfone_stanza {s : Stanza} (hs : s ∈ stanzas g l) {p : Val}
    (haccount : s.account = .redfoneProvider p) : usesSpan p = true ∧
      s.port = getElement g .redfoneGateway (spanGateway (p.get "port").toStr) := by
  -- a stanza of a span is written in the loop over ISDN providers alone
  have hphones : ∀ {account : Val → Account} {es : List Val}, (∀ e, account e ≠ .redfoneProvider p) →
      s ∉ accountLoop g account es := by
    intro account es hne hmem
    obtain ⟨e, -, rfl⟩ := List.mem_map.1 hmem
    exact hne e haccount
  have hanalog : s ∉ (providerLoop (analogProvider g) l.analogProviders .null).1 := by
    intro hmem
    obtain ⟨q, -, x, hq⟩ := exists_of_mem_providerLoop hmem
    obtain ⟨pport, -, rfl⟩ := List.mem_map.1 hq
    cases haccount
  have hisdn : ∃ q ∈ l.isdnProviders, ∃ x, s ∈ (isdnProvider g q x).1 := by
    rcases List.mem_append.1 hs with hs | hs
    · rcases List.mem_append.1 hs with hs | hs
      · rcases List.mem_append.1 hs with hs | hs
        · rcases List.mem_append.1 hs with hs | hs
          · exact absurd hs hanalog
          · exact absurd hs (hphones fun _ h => by cases h)
        · exact absurd hs (hphones fun _ h => by cases h)
      · exact exists_of_mem_providerLoop hs
    · exact absurd hs (hphones fun _ h => by cases h)
  obtain ⟨q, -, x, hq⟩ := hisdn
  by_cases hspan : usesSpan q = true
  · rw [isdnProvider_span hspan] at hq
    obtain rfl := List.mem_singleton.1 hq
    obtain rfl := Account.redfoneProvider.inj haccount
    exact ⟨hspan, rfl⟩
  · exfalso
    unfold usesSpan at hspan
    unfold isdnProvider at hq
    simp only [hspan, if_false, Bool.false_eq_true] at hq
    split_ifs at hq
    · obtain ⟨pport, -, rfl⟩ := List.mem_map.1 hq
      cases haccount
    · cases hq

end Stanzas

/-! ## Both files -/

/-- The stanzas of `chan_dahdi_conf_generate(true)` for a configuration as it is loaded. -/
def chanStanzas (usort : Usort) (config : Val) : List Stanza :=
  stanzas (fetchLists usort (indexed config)).2 (fetchLists usort (indexed config)).1

/-- A provider has a stanza, and its channels are those of the `bchan` of span `i` of a gateway and of
no `dchan` of the gateway. -/
def SpanAgrees (usort : Usort) (config gateway provider : Val) (i : ℕ) : Prop :=
  (∃ s ∈ chanStanzas usort config, s.account = .redfoneProvider provider) ∧
  ∀ s ∈ chanStanzas usort config, s.account = .redfoneProvider provider →
    (valuesOf "bchan" (gatewayChannels gateway))[i - 1]? = some s.channels ∧
    ∀ d ∈ valuesOf "dchan" (gatewayChannels gateway), (channelList s.channels).Disjoint (channelList d)

/-- A provider gets the voice channels of its span, whatever the types of the spans are. -/
theorem spans_agree {config : Val} (hwf : WellFormed config) (usort : Usort) {gateway : Val}
    (hgateway : gateway ∈ elements config .redfoneGateway) {gwid : String}
    (hgwid : gateway.get "uniqid" = .str gwid) (hredfone : strstr gwid "REDFONE" = true) {i : ℕ}
    (hfirst : 1 ≤ i) (hlast : i ≤ min (spancount gateway) 9) {provider : Val}
    (hprovider : provider ∈ elements config (.provider .isdn)) (henabled : enabled provider = true)
    (hport : provider.get "port" = .str (spanPort gwid i)) :
    SpanAgrees usort config gateway provider i := by
  have hcount : i ≤ spancount gateway := by omega
  have hdigit : i ≤ 9 := by omega
  have hspan : usesSpan provider = true := by
    unfold usesSpan
    rw [hport]
    exact strstr_spanPort hredfone
  have hnumber : redfoneSpan provider = toString i := by
    unfold redfoneSpan
    rw [hport]
    exact spanNumber_spanPort hdigit
  refine ⟨exists_redfone_stanza ((mem_isdnProviders usort _).2 hprovider) henabled hspan, ?_⟩
  intro s hs haccount
  -- the name of the span begins with its gateway's, which is looked up in the index
  have hfound : s.port = gateway := by
    rw [(port_redfone_stanza hs haccount).2, hport]
    show getElement _ _ (spanGateway (spanPort gwid i)) = gateway
    rw [spanGateway_spanPort hdigit, fetchLists_snd]
    show (listOf (fetchedKinds.foldl initConfig config) .redfoneGateway).idx
      ((configBuildUniqidMap config).idx (Val.str gwid).key).key = gateway
    rw [listOf_foldl_initConfig _ (isArray_of_mem hgateway)]
    exact getElement_of_mem hwf hgateway hgwid
  have hbchan : (valuesOf "bchan" (gatewayChannels gateway))[i - 1]? = some s.channels := by
    rw [channels_redfone haccount hnumber, hfound]
    exact bchan_gateway hfirst hcount
  refine ⟨hbchan, ?_⟩
  intro d hd
  exact disjoint_dchan (List.mem_of_getElem? hbchan) hd

/-- A gateway with two E1 spans and a T1 span between them. -/
def mixedGateway : Val :=
  .arr [(.str "uniqid", .str "REDFONEGW-FONEBRIDGE2-1"), (.str "spancount", .str "3"),
    (.str "span1type", .str "E1"), (.str "span2type", .str "T1"), (.str "span3type", .str "E1")]

/-- A provider with the last span. -/
def thirdSpanProvider : Val :=
  .arr [(.str "uniqid", .str "ISDN-PROVIDER-1"), (.str "name", .str "a"),
    (.str "port", .str "REDFONEGW-FONEBRIDGE2-1-3")]

def mixedSpans : Val :=
  .arr [(.str "interfaces", .arr [(.str "redfone-gateway", .ofList [mixedGateway])]),
    (.str "isdn", .arr [(.str "provider", .ofList [thirdSpanProvider])])]

theorem spans_agree_mixed :
    SpanAgrees insertionUsort mixedSpans mixedGateway thirdSpanProvider 3 := by
  have hwf : WellFormed mixedSpans :=
    (wellFormed_of_all (by decide) (by decide) (by decide))
  have hgateway : mixedGateway ∈ elements mixedSpans .redfoneGateway := List.mem_cons_self
  exact spans_agree hwf insertionUsort hgateway rfl (by decide) (by decide) (by decide)
    List.mem_cons_self rfl rfl

end Dahdi
end Askozia
