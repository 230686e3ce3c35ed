import Askozia.Dahdi.Chan
import Mathlib.Data.List.Induction

/-!
# Trunk groups

The `group` line of a provider's channel is to name the channel's own group and, for a provider
with a group of ports, the number of that group. `$portgroup` is not reset, so that a provider with
a single port that comes after one with a group of ports is put into the other one's group.

* `providerLoop_eq` says what `$portgroup` is when a stanza is written;
* `trunks_isolated_iff`: exactly when no channel is put into a group its provider did not choose.
-/

namespace Askozia
namespace Dahdi

open Php Config Pbx

/-! ## Kinds of ports -/

/-- The provider is not marked disabled. -/
def enabled (account : Val) : Bool := !(account.get "disabled").isset

/-- The port of an account is a single one. -/
def usesPort (account : Val) : Bool := strstr (account.get "port").toStr "DAHDIPORT-"

/-- The port of an account is a group of ports. -/
def usesGroup (account : Val) : Bool :=
  !usesPort account && strstr (account.get "port").toStr "DAHDIPORTGROUP-"

/-- The port of an account is a Redfone span. -/
def usesSpan (account : Val) : Bool := strstr (account.get "port").toStr "REDFONE"

/-- The group of ports of a provider. -/
def portgroupOf (g : Globals) (provider : Val) : Val :=
  getElement g .dahdiPortgroup (provider.get "port").toStr

/-- The ports of a provider. -/
def portsOf (g : Globals) (provider : Val) : List Val :=
  if usesPort provider then [getElement g .dahdiPort (provider.get "port").toStr]
  else if usesGroup provider then
    ((portgroupOf g provider).get "groupmember").vals.map fun member =>
      getElement g .dahdiPort member.toStr
  else []

/-- The ports of an ISDN provider are looked up among those of the cards. -/
def looksUp (provider : Val) : Bool :=
  !usesSpan provider && strstr (provider.get "port").toStr "DAHDI"

/-- The enabled providers whose ports are looked up, in the order they are generated. -/
def providersInOrder (l : Lists) : List Val :=
  l.analogProviders.filter enabled ++ l.isdnProviders.filter fun p => enabled p && looksUp p

/-- `$portgroup` after some providers, when it was `portgroup` before them. -/
def portgroupAfter (g : Globals) (providers : List Val) (portgroup : Val) : Val :=
  (((providers.filter usesGroup).getLast?).map (portgroupOf g)).getD portgroup

/-- The provider an account is, with ports or a group of ports. -/
def Account.provider? : Account → Option Val
  | .analogProvider p => some p
  | .isdnProvider p => some p
  | _ => none

section Loop

variable {g : Globals}

theorem portgroupAfter_append (ps qs : List Val) (portgroup : Val) :
    portgroupAfter g (ps ++ qs) portgroup = portgroupAfter g qs (portgroupAfter g ps portgroup) := by
  unfold portgroupAfter
  rw [List.filter_append, List.getLast?_append]
  cases (qs.filter usesGroup).getLast? with
  | none => rfl
  | some q => rfl

theorem portgroupAfter_singleton (p portgroup : Val) :
    portgroupAfter g [p] portgroup = if usesGroup p then portgroupOf g p else portgroup := by
  unfold portgroupAfter
  cases hp : usesGroup p with
  | false => simp [hp]
  | true => simp [hp]

/-- The ports of a provider are looked up as its kind of port says. -/
theorem providerPorts_eq (p portgroup : Val) :
    providerPorts g p portgroup = (portsOf g p, portgroupAfter g [p] portgroup) := by
  rw [portgroupAfter_singleton]
  unfold providerPorts portsOf usesGroup usesPort portgroupOf
  cases hport : strstr (p.get "port").toStr "DAHDIPORT-" with
  | true => simp [hport]
  | false =>
    cases hgroup : strstr (p.get "port").toStr "DAHDIPORTGROUP-" with
    | true => simp [hport, hgroup]
    | false => simp [hport, hgroup]

/-- The providers, each with `$portgroup` at the time its stanzas are written. -/
def turns (g : Globals) : List Val → Val → List (Val × Val)
  | [], _ => []
  | p :: r, portgroup =>
    (p, portgroupAfter g [p] portgroup) :: turns g r (portgroupAfter g [p] portgroup)

theorem turns_append (ps qs : List Val) (portgroup : Val) :
    turns g (ps ++ qs) portgroup =
      turns g ps portgroup ++ turns g qs (portgroupAfter g ps portgroup) := by
  induction ps generalizing portgroup with
  | nil => rfl
  | cons p r ih =>
    have hsplit : portgroupAfter g (p :: r) portgroup =
        portgroupAfter g r (portgroupAfter g [p] portgroup) := portgroupAfter_append [p] r portgroup
    rw [List.cons_append, turns, ih, hsplit]
    rfl

theorem mem_turns {ps : List Val} {portgroup p x : Val} :
    (p, x) ∈ turns g ps portgroup ↔
      ∃ pre post, ps = pre ++ p :: post ∧
        x = portgroupAfter g [p] (portgroupAfter g pre portgroup) := by
  constructor
  · intro h
    induction ps generalizing portgroup with
    | nil => cases h
    | cons q r ih =>
      rcases List.mem_cons.1 h with h | h
      · obtain ⟨rfl, rfl⟩ := Prod.mk.inj h
        exact ⟨[], r, rfl, rfl⟩
      · obtain ⟨pre, post, rfl, rfl⟩ := ih h
        refine ⟨q :: pre, post, rfl, ?_⟩
        rw [← portgroupAfter_append [q] pre portgroup]
        rfl
  · rintro ⟨pre, post, rfl, rfl⟩
    rw [turns_append]
    exact List.mem_append_right _ List.mem_cons_self

/-- A loop whose body looks some providers up: the stanzas of those providers, and `$portgroup`
after it. -/
theorem providerLoop_eq (body : Val → Val → List Stanza × Val) (looked : Val → Bool)
    (account : Val → Account)
    (hlooked : ∀ p portgroup, looked p = true → body p portgroup =
      ((providerPorts g p portgroup).1.map fun pport =>
        ⟨account p, pport, portgroupAfter g [p] portgroup⟩, portgroupAfter g [p] portgroup))
    (hother : ∀ p portgroup, looked p = false → (body p portgroup).2 = portgroup ∧
      ∀ s ∈ (body p portgroup).1, s.account.provider? = none)
    (haccount : ∀ p, (account p).provider? = some p) (ps : List Val) (portgroup : Val) :
    (providerLoop body ps portgroup).2 =
      portgroupAfter g (ps.filter fun p => enabled p && looked p) portgroup ∧
    ((providerLoop body ps portgroup).1.filter fun s => s.account.provider?.isSome) =
      (turns g (ps.filter fun p => enabled p && looked p) portgroup).flatMap fun t =>
        (portsOf g t.1).map fun pport => ⟨account t.1, pport, t.2⟩ := by
  -- the group is the accumulator: it is what the providers before have left in it
  induction ps generalizing portgroup with
  | nil => exact ⟨rfl, rfl⟩
  | cons p r ih =>
    rw [providerLoop]
    cases hp : (p.get "disabled").isset with
    | true =>
      have hen : enabled p = false := by simp [enabled, hp]
      simpa [hen] using ih portgroup
    -- a disabled provider or one on a span neither reads nor sets it
    | false =>
      have hen : enabled p = true := by simp [enabled, hp]
      cases hl : looked p with
      | false =>
        obtain ⟨hsame, hnone⟩ := hother p portgroup hl
        obtain ⟨hsnd, hfst⟩ := ih portgroup
        have hempty : ((body p portgroup).1.filter fun s => s.account.provider?.isSome) = [] := by
          rw [List.filter_eq_nil_iff]
          intro s hs
          rw [hnone s hs]
          simp
        simp only [Bool.false_eq_true, if_false, hsame, hsnd, List.filter_append, hempty, hfst,
          List.filter_cons, hen, hl, Bool.and_false, List.nil_append, and_self]
      | true =>
        obtain ⟨hsnd, hfst⟩ := ih (portgroupAfter g [p] portgroup)
        have hports : (providerPorts g p portgroup).1 = portsOf g p := by rw [providerPorts_eq]
        simp only [Bool.false_eq_true, if_false, hlooked p portgroup hl, hports, hsnd,
          List.filter_append, hfst, List.filter_cons, hen, hl, Bool.and_self, if_true, turns,
          List.flatMap_cons]
        refine ⟨(portgroupAfter_append [p] _ portgroup).symm, ?_⟩
        congr 1
        rw [List.filter_eq_self]
        intro s hs
        obtain ⟨pport, -, rfl⟩ := List.mem_map.1 hs
        simp [haccount]

end Loop

/-! ## Group lines -/

/-- The value of the `group` line of a stanza. -/
def Stanza.group (s : Stanza) : Option String :=
  s.options.findSome? fun line =>
    match line with
    | .option "group" value => some value
    | _ => none

theorem group_provider {s : Stanza} {p : Val} (h : s.account.provider? = some p) :
    s.group = some (groupValue s.portgroup s.port) := by
  obtain ⟨account, port, portgroup⟩ := s
  cases account with
  | analogProvider q =>
    unfold Stanza.group Stanza.options faxdetect
    cases hfax : (q.get "defaultfax").truthy <;> simp [gains, echocancel, hfax]
  | isdnProvider q =>
    unfold Stanza.group Stanza.options faxdetect
    cases hfax : (q.get "defaultfax").truthy <;> simp [gains, echocancel, hfax]
  | _ => cases h

/-! ## Isolation -/

/-- The groups a provider has chosen for a channel. -/
def chosenGroups (g : Globals) (provider pport : Val) : String :=
  if usesPort provider then (pport.get "basechannel").toStr
  else (pport.get "basechannel").toStr ++ "," ++ ((portgroupOf g provider).get "number").toStr

/-- Every channel of a provider is in the groups the provider has chosen, and in no other. -/
def TrunksIsolated (g : Globals) (l : Lists) : Prop :=
  ∀ s ∈ stanzas g l, ∀ p, s.account.provider? = some p → s.group = some (chosenGroups g p s.port)

/-- A provider with a single port comes before all those with groups of ports, or the last group
before it does not exist. -/
def SinglesFirst (g : Globals) (l : Lists) : Prop :=
  ∀ pre p post, providersInOrder l = pre ++ p :: post → usesPort p = true →
    (portgroupAfter g pre .null).truthy = false

section Isolation

variable {g : Globals} {l : Lists}

theorem analogProvider_eq (p portgroup : Val) :
    analogProvider g p portgroup =
      ((providerPorts g p portgroup).1.map fun pport =>
        ⟨.analogProvider p, pport, portgroupAfter g [p] portgroup⟩,
        portgroupAfter g [p] portgroup) := by
  rw [analogProvider, providerPorts_eq]

theorem isdnProvider_eq {p : Val} (h : looksUp p = true) (portgroup : Val) :
    isdnProvider g p portgroup =
      ((providerPorts g p portgroup).1.map fun pport =>
        ⟨.isdnProvider p, pport, portgroupAfter g [p] portgroup⟩,
        portgroupAfter g [p] portgroup) := by
  simp only [looksUp, usesSpan, Bool.and_eq_true, Bool.not_eq_true'] at h
  rw [isdnProvider, providerPorts_eq]
  simp [h.1, h.2]

theorem isdnProvider_other {p : Val} (h : looksUp p = false) (portgroup : Val) :
    (isdnProvider g p portgroup).2 = portgroup ∧
      ∀ s ∈ (isdnProvider g p portgroup).1, s.account.provider? = none := by
  unfold isdnProvider
  simp only [looksUp, usesSpan] at h
  cases hspan : strstr (p.get "port").toStr "REDFONE" with
  | true => simp [hspan, Account.provider?]
  | false =>
    rw [hspan] at h
    simp only [Bool.not_false, Bool.true_and] at h
    simp [hspan, h]

/-- The stanzas of phones and faxes. -/
theorem provider_accountLoop {account : Val → Account} (h : ∀ e, (account e).provider? = none)
    (es : List Val) :
    ((accountLoop g account es).filter fun s => s.account.provider?.isSome) = [] := by
  rw [List.filter_eq_nil_iff]
  intro s hs
  obtain ⟨e, -, rfl⟩ := List.mem_map.1 hs
  simp [h]

/-- The stanzas of providers with ports or groups of ports, in order. -/
theorem providers_stanzas :
    ((stanzas g l).filter fun s => s.account.provider?.isSome) =
      ((turns g (l.analogProviders.filter enabled) .null).flatMap fun t =>
        (portsOf g t.1).map fun pport => ⟨.analogProvider t.1, pport, t.2⟩) ++
      ((turns g (l.isdnProviders.filter fun p => enabled p && looksUp p)
        (portgroupAfter g (l.analogProviders.filter enabled) .null)).flatMap fun t =>
        (portsOf g t.1).map fun pport => ⟨.isdnProvider t.1, pport, t.2⟩) := by
  have hanalog := providerLoop_eq (g := g) (analogProvider g) (fun _ => true) .analogProvider
    (fun p x _ => analogProvider_eq p x) (fun _ _ h => by cases h) (fun _ => rfl)
    l.analogProviders .null
  have hisdn := providerLoop_eq (g := g) (isdnProvider g) looksUp .isdnProvider
    (fun p x h => isdnProvider_eq h x) (fun p x h => isdnProvider_other h x) (fun _ => rfl)
    l.isdnProviders (portgroupAfter g (l.analogProviders.filter enabled) .null)
  simp only [Bool.and_true] at hanalog
  have hphones : ∀ es, ((accountLoop g .analogPhone es).filter fun s =>
      s.account.provider?.isSome) = [] := provider_accountLoop fun _ => rfl
  have hfaxes : ∀ es, ((accountLoop g .analogFax es).filter fun s =>
      s.account.provider?.isSome) = [] := provider_accountLoop fun _ => rfl
  have hisdnPhones : ∀ es, ((accountLoop g .isdnPhone es).filter fun s =>
      s.account.provider?.isSome) = [] := provider_accountLoop fun _ => rfl
  rw [stanzas]
  simp only [List.filter_append, hphones, hfaxes, hisdnPhones, hanalog.1, hanalog.2, hisdn.2,
    List.append_nil]

/-- A stanza of a provider, with `$portgroup` as the providers before it have left it. -/
theorem mem_stanzas_provider {p port x : Val} :
    (∃ s ∈ stanzas g l, s.account.provider? = some p ∧ s.port = port ∧ s.portgroup = x) ↔
      ∃ pre post, providersInOrder l = pre ++ p :: post ∧ port ∈ portsOf g p ∧
        x = portgroupAfter g [p] (portgroupAfter g pre .null) := by
  -- a stanza is a turn of its provider and one of its ports
  have hturn : (∃ s ∈ stanzas g l, s.account.provider? = some p ∧ s.port = port ∧
      s.portgroup = x) ↔ (p, x) ∈ turns g (providersInOrder l) .null ∧ port ∈ portsOf g p := by
    have hfilter : ∀ s, (s ∈ stanzas g l ∧ s.account.provider? = some p) ↔
        (s ∈ (stanzas g l).filter fun s => s.account.provider?.isSome) ∧
          s.account.provider? = some p := by
      intro s
      rw [List.mem_filter]
      constructor
      · rintro ⟨hs, hp⟩
        exact ⟨⟨hs, by simp [hp]⟩, hp⟩
      · rintro ⟨⟨hs, -⟩, hp⟩
        exact ⟨hs, hp⟩
    have hstart : (∃ s ∈ stanzas g l, s.account.provider? = some p ∧ s.port = port ∧
        s.portgroup = x) ↔ ∃ s, (s ∈ (stanzas g l).filter fun s => s.account.provider?.isSome) ∧
          s.account.provider? = some p ∧ s.port = port ∧ s.portgroup = x := by
      constructor
      · rintro ⟨s, hs, hp, hrest⟩
        exact ⟨s, ((hfilter s).1 ⟨hs, hp⟩).1, hp, hrest⟩
      · rintro ⟨s, hs, hp, hrest⟩
        exact ⟨s, ((hfilter s).2 ⟨hs, hp⟩).1, hp, hrest⟩
    rw [hstart, providers_stanzas, providersInOrder, turns_append]
    constructor
    · rintro ⟨s, hs, hp, rfl, rfl⟩
      rcases List.mem_append.1 hs with hs | hs
      · obtain ⟨⟨q, y⟩, hq, hs⟩ := List.mem_flatMap.1 hs
        obtain ⟨pport, hport, rfl⟩ := List.mem_map.1 hs
        obtain rfl := Option.some.inj hp
        exact ⟨List.mem_append_left _ hq, hport⟩
      · obtain ⟨⟨q, y⟩, hq, hs⟩ := List.mem_flatMap.1 hs
        obtain ⟨pport, hport, rfl⟩ := List.mem_map.1 hs
        obtain rfl := Option.some.inj hp
        exact ⟨List.mem_append_right _ hq, hport⟩
    · rintro ⟨hq, hport⟩
      rcases List.mem_append.1 hq with hq | hq
      · exact ⟨⟨.analogProvider p, port, x⟩, List.mem_append_left _
          (List.mem_flatMap.2 ⟨_, hq, List.mem_map_of_mem hport⟩), rfl, rfl, rfl⟩
      · exact ⟨⟨.isdnProvider p, port, x⟩, List.mem_append_right _
          (List.mem_flatMap.2 ⟨_, hq, List.mem_map_of_mem hport⟩), rfl, rfl, rfl⟩
  rw [hturn, mem_turns]
  constructor
  · rintro ⟨⟨pre, post, h, hx⟩, hport⟩
    exact ⟨pre, post, h, hport, hx⟩
  · rintro ⟨pre, post, h, hport, hx⟩
    exact ⟨⟨pre, post, h, hx⟩, hport⟩

/-- A group of ports with members is there. -/
theorem truthy_of_member {v x : Val} {f : String} (h : x ∈ (v.get f).vals) : v.truthy = true := by
  cases v with
  | arr es =>
    cases es with
    | nil => cases h
    | cons e r => rfl
  | _ => cases h

/-- A group number is added exactly when there is a group of ports. -/
theorem groupValue_eq_base {portgroup pport : Val} :
    groupValue portgroup pport = (pport.get "basechannel").toStr ↔ portgroup.truthy = false := by
  unfold groupValue
  cases portgroup.truthy with
  | false => simp
  | true =>
    simp only [if_true, Bool.true_eq_false, iff_false]
    intro h
    have hlen := congrArg (fun s : String => s.toList.length) h
    simp only [String.toList_append, List.length_append] at hlen
    have hcomma : ",".toList.length = 1 := rfl
    omega

/-- No channel is put into a group its provider has not chosen exactly when no provider with a
single port comes after one with a group of ports. -/
theorem trunks_isolated_iff : TrunksIsolated g l ↔ SinglesFirst g l := by
  constructor
  · intro h pre p post hsplit hp
    have hport : getElement g .dahdiPort (p.get "port").toStr ∈ portsOf g p := by
      rw [portsOf, if_pos hp]
      exact List.mem_singleton_self _
    obtain ⟨s, hs, hsp, hport, hx⟩ := mem_stanzas_provider.2 ⟨pre, post, hsplit, hport, rfl⟩
    have hnogroup : usesGroup p = false := by simp [usesGroup, hp]
    have hgroup := h s hs p hsp
    rw [group_provider hsp, chosenGroups, if_pos hp, Option.some.injEq, groupValue_eq_base, hx,
      portgroupAfter_singleton, hnogroup] at hgroup
    exact hgroup
  · intro h s hs p hsp
    obtain ⟨pre, post, hsplit, hport, hx⟩ := mem_stanzas_provider.1 ⟨s, hs, hsp, rfl, rfl⟩
    rw [group_provider hsp, chosenGroups]
    cases hp : usesPort p with
    | true =>
      have hnogroup : usesGroup p = false := by simp [usesGroup, hp]
      rw [if_pos rfl, Option.some.injEq, groupValue_eq_base, hx, portgroupAfter_singleton, hnogroup]
      exact h pre p post hsplit hp
    | false =>
      -- a provider with a group of ports has just set `$portgroup`
      cases hgroup : usesGroup p with
      | false => simp [portsOf, hp, hgroup] at hport
      | true =>
        rw [portsOf, hp, hgroup] at hport
        obtain ⟨member, hmember, -⟩ := List.mem_map.1 hport
        rw [portgroupAfter_singleton, hgroup, if_pos rfl] at hx
        rw [groupValue, hx, if_pos (truthy_of_member hmember)]
        rfl

end Isolation

/-! ## Two providers -/

/-- Ports 1 and 2, a group with port 1, and two analog providers: `"a"` with the group and `"b"` with
port 2. -/
def groupThenPort : Val :=
  .arr [(.str "interfaces", .arr
      [(.str "dahdi-port", .ofList
        [.arr [(.str "uniqid", .str "DAHDIPORT-ANALOG-1"), (.str "basechannel", .str "1")],
          .arr [(.str "uniqid", .str "DAHDIPORT-ANALOG-2"), (.str "basechannel", .str "2")]]),
        (.str "dahdi-portgroup", .ofList
          [.arr [(.str "uniqid", .str "DAHDIPORTGROUP-ANALOG-1"), (.str "number", .str "63"),
            (.str "groupmember", .ofList [.str "DAHDIPORT-ANALOG-1"])]])]),
    (.str "analog", .arr [(.str "provider", .ofList
      [.arr [(.str "uniqid", .str "ANALOG-PROVIDER-1"), (.str "name", .str "a"),
          (.str "port", .str "DAHDIPORTGROUP-ANALOG-1")],
        .arr [(.str "uniqid", .str "ANALOG-PROVIDER-2"), (.str "name", .str "b"),
          (.str "port", .str "DAHDIPORT-ANALOG-2")]])])]

/-- The channel of `"b"` is put into the group of `"a"`. -/
theorem not_isolated_groupThenPort :
    ¬ ∀ (usort : Usort) (config : Val),
      TrunksIsolated (fetchLists usort ⟨config, configBuildUniqidMap config⟩).2
        (fetchLists usort ⟨config, configBuildUniqidMap config⟩).1 := by
  intro h
  have hiso := h insertionUsort groupThenPort
  -- the second provider has a port, and the group of the first
  have hmem : (⟨.analogProvider (.arr [(.str "uniqid", .str "ANALOG-PROVIDER-2"),
      (.str "name", .str "b"), (.str "port", .str "DAHDIPORT-ANALOG-2")]),
      .arr [(.str "uniqid", .str "DAHDIPORT-ANALOG-2"), (.str "basechannel", .str "2")],
      .arr [(.str "uniqid", .str "DAHDIPORTGROUP-ANALOG-1"), (.str "number", .str "63"),
        (.str "groupmember", .ofList [.str "DAHDIPORT-ANALOG-1"])]⟩ : Stanza) ∈
      stanzas (fetchLists insertionUsort ⟨groupThenPort, configBuildUniqidMap groupThenPort⟩).2
        (fetchLists insertionUsort ⟨groupThenPort, configBuildUniqidMap groupThenPort⟩).1 := by
    decide
  have hgroup := hiso _ hmem _ rfl
  revert hgroup
  decide

end Dahdi
end Askozia
