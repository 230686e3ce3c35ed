import Askozia.Config.Saving
import Askozia.Dahdi.Redfone
import Askozia.Dialplan.Conf

/-!
# The groups that are dialled (`extensions.inc`, `dahdi.inc`)

The dialplan calls out through a group, `DAHDI/g` and a number, and `chan_dahdi.conf` says which
channels are in it. The number is taken from the port of an account in several places, by
`dahdi_get_gnumber` or from the base channel of the port.

* `dial_groups_agree_iff`: exactly when every number dialled for an account is a group of all of its
  channels.
-/

namespace Askozia
namespace Dahdi

open Php Config Pbx
open Dialplan (Line externalTechnology macroMain generateInternalPhoneExtension generateExternalPhoneExtension
  phoneUniqidToDialstring generateAnalogFaxExtension outgoingPattern parsePattern)

/-! ## Numbers -/

/-- The base channel of the port an account names. -/
def baseOf (g : Globals) (account : Val) : String :=
  ((getElement g .dahdiPort (account.get "port").toStr).get "basechannel").toStr

/-- The numbers that are dialled: for the calls of a provider, for a phone by its own extension and in
groups, and for a fax. -/
def dialled (g : Globals) : Kind → Val → List String
  | .provider _, provider => [dahdiGetGnumber g (provider.get "port").toStr]
  | .phone _, phone => [dahdiGetGnumber g (phone.get "port").toStr, baseOf g phone]
  | .fax _, fax => [baseOf g fax]
  | _, _ => []

/-- The kind and the element a stanza is for. -/
def Account.owner : Account → Kind × Val
  | .analogProvider provider => (.provider .analog, provider)
  | .analogPhone phone => (.phone .analog, phone)
  | .analogFax fax => (.fax .analog, fax)
  | .redfoneProvider provider => (.provider .isdn, provider)
  | .isdnProvider provider => (.provider .isdn, provider)
  | .isdnPhone phone => (.phone .isdn, phone)

/-- The groups of the channels of a stanza. -/
def Stanza.groups (s : Stanza) : List String := explode ',' (s.group.getD "")

/-- The text is a number. -/
def IsNumber (s : String) : Prop := s ≠ "" ∧ verifyIsNumericint s = true

/-- Everything that is dialled for an account that is not disabled is a group of all of its channels. -/
def DialGroupsAgree (usort : Usort) (config : Val) : Prop :=
  ∀ k ∈ fetchedKinds, ∀ e ∈ elements config k, enabled e = true →
    ∀ n ∈ dialled (indexed config) k e, IsNumber n ∧
      ∀ s ∈ chanStanzas usort config, s.account.owner = (k, e) → n ∈ s.groups

/-! ## Ports -/

/-- The text names a port. -/
def NamesPort (config : Val) (u : String) : Prop :=
  ∃ port ∈ elements config .dahdiPort, port.get "uniqid" = .str u

/-- The text names the group of ports with a position in the list. -/
def NamesGroup (config : Val) (u : String) (i : ℕ) (group : Val) : Prop :=
  (elements config .dahdiPortgroup)[i]? = some group ∧ group.get "uniqid" = .str u

/-- The text names a span of a gateway, and nothing else. -/
def NamesSpan (config : Val) (u : String) : Prop :=
  (∃ gateway ∈ elements config .redfoneGateway, ∃ gwid, ∃ i ∈ spanNumbers gateway,
    gateway.get "uniqid" = .str gwid ∧ u = spanPort gwid i) ∧
  ∀ k, ∀ e ∈ elements config k, e.get "uniqid" ≠ .str u

/-- Base channels and the numbers of groups are numbers, every account that is not disabled names a
port, a group of ports or a span, and these names tell which of them it is. -/
structure Ported (config : Val) : Prop where
  wellFormed : WellFormed config
  basechannels : ∀ port ∈ elements config .dahdiPort,
    ∃ n : ℕ, port.get "basechannel" = .str (toString n)
  numbers : ∀ group ∈ elements config .dahdiPortgroup, ∃ n : ℕ, group.get "number" = .str (toString n)
  named : ∀ k ∈ fetchedKinds, ∀ e ∈ elements config k, enabled e = true →
    ∃ u, e.get "port" = .str u ∧
      (NamesPort config u ∨ (∃ i group, NamesGroup config u i group) ∨ NamesSpan config u)
  ports : ∀ u, NamesPort config u → strstr u "DAHDIPORT-" = true ∧ strstr u "REDFONE" = false
  groups : ∀ u i group, NamesGroup config u i group → strstr u "DAHDIPORT-" = false ∧
    strstr u "DAHDIPORTGROUP-" = true ∧ strstr u "REDFONE" = false
  spans : ∀ u, NamesSpan config u → strstr u "DAHDIPORT-" = false ∧
    strstr u "DAHDIPORTGROUP-" = false ∧ strstr u "REDFONE" = true

/-- The account names a group of ports, and a port has the same position in its list. -/
def SamePosition (config e : Val) (port group : Val) : Prop :=
  ∃ u i, e.get "port" = .str u ∧ NamesGroup config u i group ∧
    (elements config .dahdiPort)[i]? = some port

/-- Providers have no spans, phones have ports, or by chance a group of ports with the number of the
port that has its position, and faxes have ports, or a group of ports with the position of a port. -/
structure Dialable (config : Val) : Prop where
  providers : ∀ t, .provider t ∈ fetchedKinds → ∀ p ∈ elements config (.provider t), enabled p = true →
    usesSpan p = false
  phones : ∀ t, .phone t ∈ fetchedKinds → ∀ p ∈ elements config (.phone t), enabled p = true →
    usesPort p = true ∨ ∃ port group, SamePosition config p port group ∧
      port.get "basechannel" = group.get "number"
  faxes : ∀ f ∈ elements config (.fax .analog), enabled f = true →
    usesPort f = true ∨ ∃ port group, SamePosition config f port group

/-! ## Lines of the dialplan -/

section Lines

variable {g : Globals} {p : Val} {exten : String}

/-- The call through a provider. -/
theorem outgoingPattern_dials (h : pbxUniqidToTechnology (p.get "uniqid").toStr = .dahdi) (t : Tech)
    (pattern : Val) : ∃ n ∈ dialled g (.provider t) p, ∃ exten number,
      Line.exten exten ("n,Dial(DAHDI/g" ++ n ++ "/" ++ number ++ ",,T)") ∈ outgoingPattern g p pattern := by
  refine ⟨_, List.mem_singleton_self _, "_" ++ (parsePattern pattern.toStr).pattern,
    (parsePattern pattern.toStr).ins ++ (parsePattern pattern.toStr).exten, ?_⟩
  unfold outgoingPattern
  dsimp only
  rw [h]
  simp

/-- The call of a phone by its extension. -/
theorem internalPhone_dials (h : pbxUniqidToTechnology (p.get "uniqid").toStr = .dahdi) (t : Tech)
    (fromPublic : Bool) (readbacknum : Option String) : ∃ n ∈ dialled g (.phone t) p, ∃ own number ring,
      Line.exten exten (macroMain ("DAHDI/g" ++ n) own number fromPublic ring) ∈
        generateInternalPhoneExtension g p fromPublic readbacknum (some exten) := by
  refine ⟨dahdiGetGnumber g (p.get "port").toStr, List.mem_cons_self, ?_⟩
  unfold generateInternalPhoneExtension
  dsimp only
  rw [h]
  exact ⟨_, _, _, List.mem_append_right _ (List.mem_singleton_self _)⟩

/-- The call of a phone in a group. -/
theorem dialstring_dials (t : Tech) {u : String} (h : strstr u "ANALOG-PHONE" = true ∨ strstr u "ISDN-PHONE" = true)
    (hother : strstr u "SIP-PHONE" = false ∧ strstr u "IAX-PHONE" = false ∧ strstr u "SKINNY-PHONE" = false) :
    ∃ n ∈ dialled g (.phone t) (pbxGetPhone g u), phoneUniqidToDialstring g u = "DAHDI/g" ++ n := by
  refine ⟨baseOf g (pbxGetPhone g u), List.mem_cons_of_mem _ (List.mem_singleton_self _), ?_⟩
  have hport : (strstr u "ANALOG-PHONE" || strstr u "ISDN-PHONE") = true := by rw [Bool.or_eq_true]; exact h
  unfold phoneUniqidToDialstring
  rw [hother.1, hother.2.1, hother.2.2, hport]
  rfl

/-- The call of an external phone, through its provider. -/
theorem externalPhone_dials {direct : Bool} (h : externalTechnology p = (.dahdi, direct)) (t : Tech)
    (fromPublic : Bool) (readbacknum : Option String) :
    ∃ n ∈ dialled g (.provider t) (pbxGetProvider g (p.get "dialprovider").toStr), ∃ own number ring,
      Line.exten exten (macroMain ("DAHDI/g" ++ n ++ "/" ++ (p.get "dialstring").toStr) own number fromPublic
        ring) ∈ generateExternalPhoneExtension g p fromPublic readbacknum (some exten) := by
  refine ⟨_, List.mem_singleton_self _, ?_⟩
  unfold generateExternalPhoneExtension
  dsimp only
  rw [h]
  exact ⟨_, _, _, List.mem_append_right _ (List.mem_singleton_self _)⟩

/-- The call of a fax. -/
theorem fax_dials : ∃ n ∈ dialled g (.fax .analog) p,
    generateAnalogFaxExtension g p (some exten) = [.exten exten ("n,Dial(DAHDI/g" ++ n ++ ")")] :=
  ⟨_, List.mem_singleton_self _, rfl⟩

end Lines

/-! ## Lookups -/

section Lookups

variable {config : Val} {k k' : Kind} {u : String}

/-- Nothing is found in a list of no elements. -/
theorem toStr_empty {v : Val} (h : ListLike v) (hvals : v.vals = []) (key : Key) (f : String) :
    ((v.idx key).get f).toStr = "" := by
  rcases h with rfl | rfl | h
  · rfl
  · cases key <;> rfl
  · rw [h, hvals]
    rfl

/-- Lists with the same elements hold the same. -/
theorem toStr_idx {v w : Val} (hv : ListLike v) (hw : ListLike w) (hvals : v.vals = w.vals) (key : Key)
    (f : String) : ((v.idx key).get f).toStr = ((w.idx key).get f).toStr := by
  by_cases hnil : w.vals = []
  · rw [toStr_empty hv (hvals.trans hnil), toStr_empty hw hnil]
  · have hcontiguous : ∀ x : Val, ListLike x → x.vals ≠ [] → x = .ofList x.vals := by
      intro x hx hne
      rcases hx with rfl | rfl | hx
      · exact absurd rfl hne
      · exact absurd rfl hne
      · exact hx
    rw [hcontiguous v hv (hvals ▸ hnil), hcontiguous w hw hnil, hvals]

/-- Making a list leaves every list one. -/
theorem listLike_initConfig (h : ListLike (listOf config k')) :
    ListLike (listOf (initConfig config k) k') := by
  unfold initConfig
  split_ifs with harr
  · exact h
  · by_cases hk : k' = k
    · subst hk
      rw [listOf_setList_self]
      exact .inr (.inr rfl)
    · rcases @listOf_setList_cases config k k' hk (.arr []) with hlist | ⟨-, hlist⟩
      · rw [hlist]
        exact h
      · exact .inl hlist

/-- Making the lists that are fetched changes nothing that is looked up. -/
theorem toStr_fetched (hwf : WellFormed config) (usort : Usort) (k : Kind) (u f : String) :
    ((getElement (fetchLists usort (indexed config)).2 k u).get f).toStr =
      ((getElement (indexed config) k u).get f).toStr := by
  have hfold : ∀ (ks : List Kind) (config : Val), ListLike (listOf config k) →
      ListLike (listOf (ks.foldl initConfig config) k) ∧
        elements (ks.foldl initConfig config) k = elements config k := by
    intro ks
    induction ks with
    | nil => exact fun config h => ⟨h, rfl⟩
    | cons k' r ih =>
      intro config h
      obtain ⟨hlike, hel⟩ := ih (initConfig config k') (listLike_initConfig h)
      exact ⟨hlike, hel.trans (elements_initConfig config k' k)⟩
  obtain ⟨hlike, hel⟩ := hfold fetchedKinds config (hwf.lists k)
  rw [fetchLists_snd]
  exact toStr_idx hlike (hwf.lists k) hel _ f

/-- The name of an element finds what has its position in another list. -/
theorem toStr_position (hwf : WellFormed config) {i : ℕ} {e : Val}
    (he : (elements config k)[i]? = some e) (hu : e.get "uniqid" = .str u) (k' : Kind) (f : String) :
    ((getElement (indexed config) k' u).get f).toStr =
      (((elements config k')[i]?.getD .null).get f).toStr := by
  obtain ⟨hi, rfl⟩ := List.getElem?_eq_some_iff.1 he
  have hoffset := hwf.offset hi
  rw [hu] at hoffset
  show (((listOf config k').idx ((configBuildUniqidMap config).idx (Val.str u).key).key).get f).toStr = _
  rw [hoffset]
  have hlist : (Val.ofList (elements config k')).vals = (listOf config k').vals := Val.vals_ofList _
  have hsame := toStr_idx (hwf.lists k') (.inr (.inr (by rw [Val.Contiguous, Val.vals_ofList])))
    hlist.symm (.int i) f
  rw [Val.idx_ofList] at hsame
  exact hsame

/-- A name that no element has finds nothing. -/
theorem toStr_unnamed (hwf : WellFormed config) (hnone : ∀ k, ∀ e ∈ elements config k, e.get "uniqid" ≠ .str u)
    (hne : u ≠ "") (k : Kind) (f : String) : ((getElement (indexed config) k u).get f).toStr = "" := by
  have hoffset := hwf.no_offset hnone (.inl hne)
  show (((listOf config k).idx ((configBuildUniqidMap config).idx (Val.str u).key).key).get f).toStr = _
  rw [hoffset]
  rcases hwf.lists k with hk | hk | hk
  · rw [hk]
    rfl
  · rw [hk]
    rfl
  · rw [hk]
    show (((Val.ofList (listOf config k).vals).idx (.str "")).get f).toStr = ""
    rw [Val.idx_ofList_str]
    rfl

end Lookups

/-! ## Groups of channels -/

section Groups

variable {g : Globals} {l : Lists} {s : Stanza} {p port portgroup : Val} {n : ℕ}

/-- A natural number is written as a number. -/
theorem isNumber_toString (n : ℕ) : IsNumber (toString n) := by
  refine ⟨fun h => Val.toString_ne_nil (n := n) (by rw [h]; rfl), ?_⟩
  unfold verifyIsNumericint
  rw [List.all_eq_true]
  exact fun c hc => Val.isDigit_of_mem_toString_nat hc

/-- It has no commas. -/
theorem explode_number (n : ℕ) : explode ',' (toString n) = [toString n] := by
  rw [explode, explodeChars_of_not_mem (sep_not_mem_toString rfl n), List.map_singleton,
    String.ofList_toList]

/-- Two lists of numbers are split where they were joined. -/
theorem explode_pair (a b : String) : explode ',' (a ++ "," ++ b) = explode ',' a ++ explode ',' b := by
  have hcomma : ",".toList = [','] := rfl
  unfold explode
  rw [String.toList_append, String.toList_append, hcomma, List.append_assoc, List.singleton_append,
    explodeChars_append, List.map_append]

/-- The base channel of a port is one of its groups. -/
theorem base_mem_groupValue (h : (port.get "basechannel").toStr = toString n) :
    toString n ∈ explode ',' (groupValue portgroup port) := by
  unfold groupValue
  split_ifs
  · rw [h, explode_pair, explode_number]
    exact List.mem_append_left _ (List.mem_singleton_self _)
  · rw [h, explode_number]
    exact List.mem_singleton_self _

/-- So is the number of the group of ports. -/
theorem number_mem_groupValue (htruthy : portgroup.truthy = true)
    (h : (portgroup.get "number").toStr = toString n) :
    toString n ∈ explode ',' (groupValue portgroup port) := by
  unfold groupValue
  rw [if_pos htruthy, h, explode_pair, explode_number]
  exact List.mem_append_right _ (List.mem_singleton_self _)

/-- The account a stanza with a single port is for. -/
def Account.single? : Account → Option Val
  | .analogPhone e => some e
  | .analogFax e => some e
  | .isdnPhone e => some e
  | _ => none

/-- A phone or a fax has the group of its port. -/
theorem group_single (h : s.account.single? = some p) : s.group = some (s.port.get "basechannel").toStr := by
  obtain ⟨account, port, portgroup⟩ := s
  cases account with
  | analogPhone q => simp [Stanza.group, Stanza.options, gains, echocancel]
  | analogFax q => simp [Stanza.group, Stanza.options, gains]
  | isdnPhone q => simp [Stanza.group, Stanza.options, gains, echocancel]
  | _ => cases h

/-- The stanzas of providers have a provider. -/
theorem single_isdnProvider {q x : Val} (hs : s ∈ (isdnProvider g q x).1) : s.account.single? = none := by
  unfold isdnProvider at hs
  dsimp only at hs
  split_ifs at hs
  · rw [List.mem_singleton.1 hs]
    rfl
  · obtain ⟨pport, -, rfl⟩ := List.mem_map.1 hs
    rfl
  · cases hs

/-- The port of a stanza is the one its account names. -/
theorem port_accountLoop {account : Val → Account} {es : List Val}
    (haccount : ∀ e, (account e).single? = some e) (hs : s ∈ accountLoop g account es)
    (h : s.account.single? = some p) : s.port = getElement g .dahdiPort (p.get "port").toStr := by
  obtain ⟨e, -, rfl⟩ := List.mem_map.1 hs
  rw [haccount, Option.some.injEq] at h
  rw [h]

/-- The same of any stanza of the file. -/
theorem port_single (hs : s ∈ stanzas g l) (h : s.account.single? = some p) :
    s.port = getElement g .dahdiPort (p.get "port").toStr := by
  rcases List.mem_append.1 hs with hs | hs
  · rcases List.mem_append.1 hs with hs | hs
    · rcases List.mem_append.1 hs with hs | hs
      · rcases List.mem_append.1 hs with hs | hs
        · obtain ⟨q, -, x, hq⟩ := exists_of_mem_providerLoop hs
          obtain ⟨pport, -, rfl⟩ := List.mem_map.1 hq
          cases h
        · exact port_accountLoop (fun _ => rfl) hs h
      · exact port_accountLoop (fun _ => rfl) hs h
    · obtain ⟨q, -, x, hq⟩ := exists_of_mem_providerLoop hs
      rw [single_isdnProvider hq] at h
      cases h
  · exact port_accountLoop (fun _ => rfl) hs h

end Groups

/-! ## Agreement -/

section Agreement

variable {config : Val} {usort : Usort} {p : Val} {t : Tech} {s : Stanza} {n : String}

/-- The stanza of a provider on a port or a group of ports. -/
theorem mem_chanStanzas_provider (hs : s ∈ chanStanzas usort config) (hspan : usesSpan p = false)
    (howner : s.account.owner = (.provider t, p)) : s.account.provider? = some p := by
  cases haccount : s.account with
  | analogProvider q =>
    rw [haccount] at howner
    rw [← (Prod.mk.inj howner).2]
    rfl
  | isdnProvider q =>
    rw [haccount] at howner
    rw [← (Prod.mk.inj howner).2]
    rfl
  | redfoneProvider q =>
    rw [haccount] at howner
    obtain rfl := (Prod.mk.inj howner).2
    have huses := (port_redfone_stanza hs haccount).1
    rw [hspan] at huses
    cases huses
  | _ =>
    rw [haccount] at howner
    cases howner

/-- A number dialled for a provider that has no span. -/
theorem agree_provider (h : Ported config) (hk : .provider t ∈ fetchedKinds)
    (hp : p ∈ elements config (.provider t)) (henabled : enabled p = true) (hspan : usesSpan p = false)
    (hn : n ∈ dialled (indexed config) (.provider t) p) :
    IsNumber n ∧ ∀ s ∈ chanStanzas usort config, s.account.owner = (.provider t, p) → n ∈ s.groups := by
  obtain ⟨u, hu, hnames⟩ := h.named _ hk p hp henabled
  have htext : (p.get "port").toStr = u := by rw [hu]; rfl
  have hn : n = dahdiGetGnumber (indexed config) u := by rw [List.mem_singleton.1 hn, htext]
  rcases hnames with hport | ⟨i, group, hgroup⟩ | hspans
  · obtain ⟨hcontains, -⟩ := h.ports u hport
    obtain ⟨port, hmem, hname⟩ := hport
    obtain ⟨m, hbase⟩ := h.basechannels port hmem
    have hfound := getElement_of_mem h.wellFormed hmem hname
    have hm : n = toString m := by
      rw [hn, dahdiGetGnumber, if_pos hcontains, hfound, hbase]
      rfl
    rw [hm]
    refine ⟨isNumber_toString m, fun s hs howner => ?_⟩
    have hprovider := mem_chanStanzas_provider hs hspan howner
    obtain ⟨pre, post, -, hsport, -⟩ := mem_stanzas_provider.1 ⟨s, hs, hprovider, rfl, rfl⟩
    have huses : usesPort p = true := by rw [usesPort, htext]; exact hcontains
    rw [portsOf, if_pos huses, htext] at hsport
    rw [Stanza.groups, group_provider hprovider]
    apply base_mem_groupValue
    rw [List.mem_singleton.1 hsport, toStr_fetched h.wellFormed, hfound, hbase]
    rfl
  · obtain ⟨hnotport, hcontains, -⟩ := h.groups u i group hgroup
    have hmem := List.mem_of_getElem? hgroup.1
    obtain ⟨m, hnumber⟩ := h.numbers group hmem
    have hfound := getElement_of_mem h.wellFormed hmem hgroup.2
    have hm : n = toString m := by
      rw [hn, dahdiGetGnumber, if_neg (by rw [hnotport]; simp), if_pos hcontains, hfound, hnumber]
      rfl
    rw [hm]
    refine ⟨isNumber_toString m, fun s hs howner => ?_⟩
    have hprovider := mem_chanStanzas_provider hs hspan howner
    obtain ⟨pre, post, -, hsport, hportgroup⟩ := mem_stanzas_provider.1 ⟨s, hs, hprovider, rfl, rfl⟩
    have huses : usesPort p = false := by rw [usesPort, htext]; exact hnotport
    have hgroups : usesGroup p = true := by rw [usesGroup, huses, htext, hcontains]; rfl
    -- the provider has just looked its group up, and a member of it has this stanza
    rw [portsOf, huses, if_neg Bool.false_ne_true, if_pos hgroups] at hsport
    rw [portgroupAfter_singleton, if_pos hgroups] at hportgroup
    obtain ⟨member, hmember, -⟩ := List.mem_map.1 hsport
    rw [Stanza.groups, group_provider hprovider, hportgroup]
    apply number_mem_groupValue (truthy_of_member hmember)
    rw [portgroupOf, htext, toStr_fetched h.wellFormed, hfound, hnumber]
    rfl
  · obtain ⟨-, -, hredfone⟩ := h.spans u hspans
    rw [usesSpan, htext, hredfone] at hspan
    cases hspan

/-- No number is dialled for a provider with a span. -/
theorem not_isNumber_span (h : Ported config) {u : String} (hspan : NamesSpan config u) :
    ¬ IsNumber (dahdiGetGnumber (indexed config) u) := by
  obtain ⟨hport, hgroup, -⟩ := h.spans u hspan
  have hnone : dahdiGetGnumber (indexed config) u = "NO_GNUMBER_FOUND" := by
    rw [dahdiGetGnumber, hport, hgroup]
    rfl
  rw [hnone]
  exact fun hnumber => absurd hnumber.2 (by decide)

/-- The stanza of a phone or a fax is in the group of its port only. -/
theorem mem_chanStanzas_single (h : Ported config) (hs : s ∈ chanStanzas usort config)
    (hsingle : s.account.single? = some p) : s.groups = explode ',' (baseOf (indexed config) p) := by
  rw [Stanza.groups, group_single hsingle, port_single hs hsingle, toStr_fetched h.wellFormed]
  rfl

/-- The base channel of the port that has the position of a group. -/
theorem baseOf_position (h : Ported config) {u : String} (hu : p.get "port" = .str u) {i : ℕ} {group : Val}
    (hgroup : NamesGroup config u i group) : baseOf (indexed config) p =
      (((elements config .dahdiPort)[i]?.getD .null).get "basechannel").toStr := by
  rw [baseOf, hu]
  exact toStr_position h.wellFormed hgroup.1 hgroup.2 .dahdiPort "basechannel"

/-- A port has a number, which is dialled as its group. -/
theorem baseOf_port (h : Ported config) {u : String} (hu : p.get "port" = .str u)
    (hport : NamesPort config u) : ∃ m : ℕ, baseOf (indexed config) p = toString m ∧
      dahdiGetGnumber (indexed config) u = toString m := by
  obtain ⟨hcontains, -⟩ := h.ports u hport
  obtain ⟨port, hmem, hname⟩ := hport
  obtain ⟨m, hbase⟩ := h.basechannels port hmem
  have hfound := getElement_of_mem h.wellFormed hmem hname
  refine ⟨m, ?_, ?_⟩
  · rw [baseOf, hu]
    show ((getElement (indexed config) .dahdiPort u).get "basechannel").toStr = _
    rw [hfound, hbase]
    rfl
  · rw [dahdiGetGnumber, if_pos hcontains, hfound, hbase]
    rfl

/-- A group of ports is dialled by its number. -/
theorem gnumber_group (h : Ported config) {u : String} {i : ℕ} {group : Val}
    (hgroup : NamesGroup config u i group) :
    dahdiGetGnumber (indexed config) u = (group.get "number").toStr := by
  obtain ⟨hnotport, hcontains, -⟩ := h.groups u i group hgroup
  rw [dahdiGetGnumber, if_neg (by rw [hnotport]; simp), if_pos hcontains,
    getElement_of_mem h.wellFormed (List.mem_of_getElem? hgroup.1) hgroup.2]

/-- With one number for everything that is dialled, the channels of a phone or a fax are in its
group. -/
theorem agree_single (h : Ported config) {k : Kind}
    (hsingle : ∀ s ∈ chanStanzas usort config, s.account.owner = (k, p) → s.account.single? = some p)
    {m : ℕ} (hbase : baseOf (indexed config) p = toString m) :
    IsNumber (toString m) ∧
      ∀ s ∈ chanStanzas usort config, s.account.owner = (k, p) → toString m ∈ s.groups := by
  refine ⟨isNumber_toString m, fun s hs howner => ?_⟩
  rw [mem_chanStanzas_single h hs (hsingle s hs howner), hbase, explode_number]
  exact List.mem_singleton_self _

/-- The stanza of a phone is for one account. -/
theorem single_of_owner_phone (howner : s.account.owner = (.phone t, p)) : s.account.single? = some p := by
  cases haccount : s.account with
  | analogPhone q =>
    rw [haccount] at howner
    rw [← (Prod.mk.inj howner).2]
    rfl
  | isdnPhone q =>
    rw [haccount] at howner
    rw [← (Prod.mk.inj howner).2]
    rfl
  | _ =>
    rw [haccount] at howner
    cases howner

/-- The stanza of a fax is, too. -/
theorem single_of_owner_fax (howner : s.account.owner = (.fax .analog, p)) : s.account.single? = some p := by
  cases haccount : s.account with
  | analogFax q =>
    rw [haccount] at howner
    rw [← (Prod.mk.inj howner).2]
    rfl
  | _ =>
    rw [haccount] at howner
    cases howner

/-- A phone has a stanza. -/
theorem exists_stanza_phone (hk : .phone t ∈ fetchedKinds) (hp : p ∈ elements config (.phone t))
    (henabled : enabled p = true) :
    ∃ s ∈ chanStanzas usort config, s.account.owner = (.phone t, p) := by
  have hset : (!(p.get "disabled").isset) = true := henabled
  -- the lists are sorted copies of the stored ones
  have hlists : ((fetchLists usort (indexed config)).1.analogPhones.Perm (elements config (.phone .analog))) ∧
      (fetchLists usort (indexed config)).1.isdnPhones.Perm (elements config (.phone .isdn)) := by
    unfold fetchLists analogGetProviders analogGetPhones analogGetFaxes isdnGetProviders isdnGetPhones
      getSortedCopy
    simp only [initList_eq]
    constructor
    · refine (usort.perm _ _).trans ?_
      rw [elements_initConfig, elements_initConfig]
      exact List.Perm.refl _
    · refine (usort.perm _ _).trans ?_
      rw [elements_initConfig, elements_initConfig, elements_initConfig, elements_initConfig,
        elements_initConfig]
      exact List.Perm.refl _
  have hloop : ∀ (account : Val → Account) (es : List Val), p ∈ es → ∃ s,
      s ∈ accountLoop (fetchLists usort (indexed config)).2 account es ∧ s.account = account p :=
    fun account es hmem => ⟨_, List.mem_map_of_mem (List.mem_filter.2 ⟨hmem, hset⟩), rfl⟩
  unfold chanStanzas stanzas
  dsimp only
  have htech : t = .analog ∨ t = .isdn := by
    cases t <;> simp [fetchedKinds] at hk ⊢
  rcases htech with rfl | rfl
  · obtain ⟨s, hs, haccount⟩ := hloop .analogPhone _ (hlists.1.mem_iff.2 hp)
    refine ⟨s, ?_, by rw [haccount]; rfl⟩
    exact List.mem_append_left _ (List.mem_append_left _ (List.mem_append_left _
      (List.mem_append_right _ hs)))
  · obtain ⟨s, hs, haccount⟩ := hloop .isdnPhone _ (hlists.2.mem_iff.2 hp)
    exact ⟨s, List.mem_append_right _ hs, by rw [haccount]; rfl⟩

/-- An account with a single port names a port. -/
theorem namesPort_of_usesPort (h : Ported config) {u : String} (hu : p.get "port" = .str u)
    (hnames : NamesPort config u ∨ (∃ i group, NamesGroup config u i group) ∨ NamesSpan config u)
    (huses : usesPort p = true) : NamesPort config u := by
  have hcontains : strstr u "DAHDIPORT-" = true := by
    rw [usesPort, hu] at huses
    exact huses
  rcases hnames with hport | ⟨i, group, hgroup⟩ | hspan
  · exact hport
  · rw [(h.groups u i group hgroup).1] at hcontains
    cases hcontains
  · rw [(h.spans u hspan).1] at hcontains
    cases hcontains

/-- What names a port uses one. -/
theorem usesPort_of_namesPort (h : Ported config) {u : String} (hu : p.get "port" = .str u)
    (hport : NamesPort config u) : usesPort p = true := by
  rw [usesPort, hu]
  exact (h.ports u hport).1

/-- A phone whose number and base channel are one. -/
theorem agree_phone (h : Ported config) (hd : Dialable config) (hk : .phone t ∈ fetchedKinds)
    (hp : p ∈ elements config (.phone t)) (henabled : enabled p = true)
    (hn : n ∈ dialled (indexed config) (.phone t) p) :
    IsNumber n ∧ ∀ s ∈ chanStanzas usort config, s.account.owner = (.phone t, p) → n ∈ s.groups := by
  obtain ⟨u, hu, hnames⟩ := h.named _ hk p hp henabled
  have htext : (p.get "port").toStr = u := by rw [hu]; rfl
  have hone : ∃ m : ℕ, baseOf (indexed config) p = toString m ∧
      dahdiGetGnumber (indexed config) u = toString m := by
    rcases hd.phones t hk p hp henabled with huses | ⟨port, group, ⟨u', i, hu', hgroup, hport⟩, hsame⟩
    · exact baseOf_port h hu (namesPort_of_usesPort h hu hnames huses)
    · obtain rfl : u' = u := Val.str.inj (hu'.symm.trans hu)
      obtain ⟨m, hnumber⟩ := h.numbers group (List.mem_of_getElem? hgroup.1)
      refine ⟨m, ?_, ?_⟩
      · rw [baseOf_position h hu hgroup, hport, Option.getD_some, hsame, hnumber]
        rfl
      · rw [gnumber_group h hgroup, hnumber]
        rfl
  obtain ⟨m, hbase, hnumber⟩ := hone
  have hm : n = toString m := by
    rcases List.mem_cons.1 hn with rfl | hn
    · rw [htext, hnumber]
    · rw [List.mem_singleton.1 hn, hbase]
  rw [hm]
  exact agree_single h (fun s _ howner => single_of_owner_phone howner) hbase

/-- A fax dials the group that its port is in. -/
theorem agree_fax (h : Ported config) (hd : Dialable config)
    (hp : p ∈ elements config (.fax .analog)) (henabled : enabled p = true)
    (hn : n ∈ dialled (indexed config) (.fax .analog) p) :
    IsNumber n ∧ ∀ s ∈ chanStanzas usort config, s.account.owner = (.fax .analog, p) → n ∈ s.groups := by
  obtain ⟨u, hu, hnames⟩ := h.named _ (by decide) p hp henabled
  have hone : ∃ m : ℕ, baseOf (indexed config) p = toString m := by
    rcases hd.faxes p hp henabled with huses | ⟨port, group, ⟨u', i, hu', hgroup, hport⟩⟩
    · obtain ⟨m, hbase, -⟩ := baseOf_port h hu (namesPort_of_usesPort h hu hnames huses)
      exact ⟨m, hbase⟩
    · obtain ⟨m, hbase⟩ := h.basechannels port (List.mem_of_getElem? hport)
      refine ⟨m, ?_⟩
      rw [baseOf_position h hu' hgroup, hport, Option.getD_some, hbase]
      rfl
  obtain ⟨m, hbase⟩ := hone
  rw [List.mem_singleton.1 hn, hbase]
  exact agree_single h (fun s _ howner => single_of_owner_fax howner) hbase

/-- A base channel that is a number is that of a port. -/
theorem port_of_isNumber {i : ℕ}
    (h : IsNumber (((elements config .dahdiPort)[i]?.getD .null).get "basechannel").toStr) :
    ∃ port, (elements config .dahdiPort)[i]? = some port := by
  cases hport : (elements config .dahdiPort)[i]? with
  | some port => exact ⟨port, rfl⟩
  | none =>
    rw [hport] at h
    exact absurd rfl h.1

/-- A phone is in the group that is dialled for it. -/
theorem phone_of_agree (h : Ported config) (ha : DialGroupsAgree usort config) (hk : .phone t ∈ fetchedKinds)
    (hp : p ∈ elements config (.phone t)) (henabled : enabled p = true) :
    usesPort p = true ∨ ∃ port group, SamePosition config p port group ∧
      port.get "basechannel" = group.get "number" := by
  obtain ⟨u, hu, hnames⟩ := h.named _ hk p hp henabled
  have hagree := ha _ hk p hp henabled
  obtain ⟨hnumber, hstanzas⟩ := hagree _ List.mem_cons_self
  obtain ⟨hbase, -⟩ := hagree (baseOf (indexed config) p) (List.mem_cons_of_mem _ List.mem_cons_self)
  have htext : (p.get "port").toStr = u := by rw [hu]; rfl
  rw [htext] at hnumber hstanzas
  rcases hnames with hport | ⟨i, group, hgroup⟩ | hspan
  · exact .inl (usesPort_of_namesPort h hu hport)
  · right
    rw [baseOf_position h hu hgroup] at hbase
    obtain ⟨port, hport⟩ := port_of_isNumber hbase
    obtain ⟨b, hb⟩ := h.basechannels port (List.mem_of_getElem? hport)
    obtain ⟨m, hm⟩ := h.numbers group (List.mem_of_getElem? hgroup.1)
    refine ⟨port, group, ⟨u, i, hu, hgroup, hport⟩, ?_⟩
    obtain ⟨s, hs, howner⟩ := @exists_stanza_phone config usort p t hk hp henabled
    have hmem := hstanzas s hs howner
    rw [mem_chanStanzas_single h hs (single_of_owner_phone howner), baseOf_position h hu hgroup, hport,
      Option.getD_some, hb, gnumber_group h hgroup, hm] at hmem
    have hsame : toString m ∈ explode ',' (toString b) := hmem
    rw [explode_number, List.mem_singleton] at hsame
    rw [hb, hm, hsame]
  · exact absurd hnumber (not_isNumber_span h hspan)

/-- The other way round: if it does, it names a port, or a group in the same position as one. -/
theorem fax_of_agree (h : Ported config) (ha : DialGroupsAgree usort config)
    (hp : p ∈ elements config (.fax .analog)) (henabled : enabled p = true) :
    usesPort p = true ∨ ∃ port group, SamePosition config p port group := by
  have hk : Kind.fax .analog ∈ fetchedKinds := by decide
  obtain ⟨u, hu, hnames⟩ := h.named _ hk p hp henabled
  obtain ⟨hbase, -⟩ := ha _ hk p hp henabled _ (List.mem_singleton_self _)
  rcases hnames with hport | ⟨i, group, hgroup⟩ | hspan
  · exact .inl (usesPort_of_namesPort h hu hport)
  · right
    rw [baseOf_position h hu hgroup] at hbase
    obtain ⟨port, hport⟩ := port_of_isNumber hbase
    exact ⟨port, group, u, i, hu, hgroup, hport⟩
  · exfalso
    have hne : u ≠ "" := by
      rintro rfl
      exact absurd (h.spans "" hspan).2.2 (by decide)
    apply hbase.1
    rw [baseOf, hu]
    exact toStr_unnamed h.wellFormed hspan.2 hne .dahdiPort "basechannel"

/-- And a provider that dials its group is not on a span. -/
theorem provider_of_agree (h : Ported config) (ha : DialGroupsAgree usort config)
    (hk : .provider t ∈ fetchedKinds) (hp : p ∈ elements config (.provider t)) (henabled : enabled p = true) :
    usesSpan p = false := by
  obtain ⟨u, hu, hnames⟩ := h.named _ hk p hp henabled
  have htext : (p.get "port").toStr = u := by rw [hu]; rfl
  obtain ⟨hnumber, -⟩ := ha _ hk p hp henabled _ (List.mem_singleton_self _)
  rw [htext] at hnumber
  rw [usesSpan, htext]
  rcases hnames with hport | ⟨i, group, hgroup⟩ | hspan
  · exact (h.ports u hport).2
  · exact (h.groups u i group hgroup).2.2
  · exact absurd hnumber (not_isNumber_span h hspan)

/-- The two files agree on the groups exactly if no provider has a span, and phones and faxes have
ports, apart from groups that stand where the right port does. -/
theorem dial_groups_agree_iff (h : Ported config) : DialGroupsAgree usort config ↔ Dialable config := by
  constructor
  · intro ha
    exact ⟨fun t hk p hp henabled => provider_of_agree h ha hk hp henabled,
      fun t hk p hp henabled => phone_of_agree h ha hk hp henabled,
      fun p hp henabled => fax_of_agree h ha hp henabled⟩
  · intro hd k hk e he henabled n hn
    -- the kinds that are fetched are providers, phones and faxes
    have hkinds : (∃ t, k = .provider t) ∨ (∃ t, k = .phone t) ∨ k = .fax .analog := by
      unfold fetchedKinds at hk
      simp only [List.mem_cons, List.not_mem_nil, or_false] at hk
      rcases hk with rfl | rfl | rfl | rfl | rfl
      · exact .inl ⟨_, rfl⟩
      · exact .inr (.inl ⟨_, rfl⟩)
      · exact .inr (.inr rfl)
      · exact .inl ⟨_, rfl⟩
      · exact .inr (.inl ⟨_, rfl⟩)
    rcases hkinds with ⟨t, rfl⟩ | ⟨t, rfl⟩ | rfl
    · exact agree_provider h hk he henabled (hd.providers t hk e he henabled) hn
    · exact agree_phone h hd hk he henabled hn
    · exact agree_fax h hd he henabled hn

end Agreement

/-! ## Configurations -/

/-- A provider with a group of one port, and a phone with a port of its own. -/
def groupAndPhone : Val :=
  .arr [(.str "interfaces", .arr
      [(.str "dahdi-port", .ofList
        [.arr [(.str "uniqid", .str "DAHDIPORT-ANALOG-1"), (.str "basechannel", .str "1")],
          .arr [(.str "uniqid", .str "DAHDIPORT-ANALOG-2"), (.str "basechannel", .str "2")]]),
        (.str "dahdi-portgroup", .ofList
          [.arr [(.str "uniqid", .str "DAHDIPORTGROUP-ANALOG-1"), (.str "number", .str "63"),
            (.str "groupmember", .ofList [.str "DAHDIPORT-ANALOG-1"])]])]),
    (.str "analog", .arr
      [(.str "provider", .ofList
        [.arr [(.str "uniqid", .str "ANALOG-PROVIDER-1"), (.str "port", .str "DAHDIPORTGROUP-ANALOG-1")]]),
        (.str "phone", .ofList
          [.arr [(.str "uniqid", .str "ANALOG-PHONE-1"), (.str "port", .str "DAHDIPORT-ANALOG-2")]])])]

/-- What makes a configuration ported, checked element by element. -/
theorem ported_of_all {config : Val} (hwf : WellFormed config)
    (hports : ∀ port ∈ elements config .dahdiPort,
      (∃ n : ℕ, port.get "basechannel" = .str (toString n)) ∧
        strstr (port.get "uniqid").toStr "DAHDIPORT-" = true ∧
        strstr (port.get "uniqid").toStr "REDFONE" = false)
    (hgroups : ∀ group ∈ elements config .dahdiPortgroup,
      (∃ n : ℕ, group.get "number" = .str (toString n)) ∧
        strstr (group.get "uniqid").toStr "DAHDIPORT-" = false ∧
        strstr (group.get "uniqid").toStr "DAHDIPORTGROUP-" = true ∧
        strstr (group.get "uniqid").toStr "REDFONE" = false)
    (hspans : ∀ gateway ∈ elements config .redfoneGateway, ∀ i ∈ spanNumbers gateway,
      strstr (spanPort (gateway.get "uniqid").toStr i) "DAHDIPORT-" = false ∧
        strstr (spanPort (gateway.get "uniqid").toStr i) "DAHDIPORTGROUP-" = false ∧
        strstr (spanPort (gateway.get "uniqid").toStr i) "REDFONE" = true)
    (hnamed : ∀ k ∈ fetchedKinds, ∀ e ∈ elements config k, enabled e = true →
      ∃ u, e.get "port" = .str u ∧
        (NamesPort config u ∨ (∃ i group, NamesGroup config u i group) ∨ NamesSpan config u)) :
    Ported config := by
  refine ⟨hwf, fun port hport => (hports port hport).1, fun group hgroup => (hgroups group hgroup).1, hnamed,
    ?_, ?_, ?_⟩
  -- a port, a group and a span are told apart by what their names contain
  · rintro u ⟨port, hport, hu⟩
    have hname := (hports port hport).2
    rw [hu] at hname
    exact hname
  · rintro u i group ⟨hgroup, hu⟩
    have hname := (hgroups group (List.mem_of_getElem? hgroup)).2
    rw [hu] at hname
    exact hname
  · rintro u ⟨⟨gateway, hgateway, gwid, i, hi, hu, rfl⟩, -⟩
    have hname := hspans gateway hgateway i hi
    rw [hu] at hname
    exact hname

theorem dial_groups_agree_groupAndPhone : DialGroupsAgree insertionUsort groupAndPhone := by
  have hported : Ported groupAndPhone := by
    refine ported_of_all (wellFormed_of_all (by decide) (by decide) (by decide)) ?_ ?_ (by decide) ?_
    -- the two ports, the one group, and who uses which
    · intro port hport
      have hbase : port.get "basechannel" = .str (toString 1) ∨ port.get "basechannel" = .str (toString 2) := by
        revert port
        decide
      refine ⟨?_, by revert port; decide⟩
      rcases hbase with h | h
      · exact ⟨1, h⟩
      · exact ⟨2, h⟩
    · intro group hgroup
      have hnumber : group.get "number" = .str (toString 63) := by
        revert group
        decide
      exact ⟨⟨63, hnumber⟩, by revert group; decide⟩
    · intro k hk e he _
      have hport : e.get "port" = .str "DAHDIPORTGROUP-ANALOG-1" ∨ e.get "port" = .str "DAHDIPORT-ANALOG-2" := by
        revert k e
        decide
      rcases hport with h | h
      · exact ⟨_, h, .inr (.inl ⟨0, _, rfl, rfl⟩)⟩
      · exact ⟨_, h, .inl ⟨_, List.mem_cons_of_mem _ List.mem_cons_self, rfl⟩⟩
  refine (dial_groups_agree_iff hported).2 ⟨?_, ?_, ?_⟩
  · intro t _ p hp _
    revert p
    cases t <;> decide
  · intro t _ p hp _
    left
    revert p
    cases t <;> decide
  · intro f hf
    cases hf

/-- There is no group for a span. -/
theorem not_dial_groups_agree : Ported mixedSpans ∧ ¬ DialGroupsAgree insertionUsort mixedSpans := by
  constructor
  · have hports : elements mixedSpans .dahdiPort = [] := by decide
    have hgroups : elements mixedSpans .dahdiPortgroup = [] := by decide
    refine ported_of_all (wellFormed_of_all (by decide) (by decide) (by decide)) (by simp [hports])
      (by simp [hgroups]) (by decide) ?_
    intro k hk e he _
    have hport : e.get "port" = .str (spanPort "REDFONEGW-FONEBRIDGE2-1" 3) := by
      revert k e
      decide
    refine ⟨_, hport, .inr (.inr ⟨⟨mixedGateway, List.mem_cons_self, _, 3, by decide, rfl, rfl⟩, ?_⟩)⟩
    intro k e he
    have hall : ∀ k ∈ Kind.all, ∀ e ∈ elements mixedSpans k,
        e.get "uniqid" ≠ .str (spanPort "REDFONEGW-FONEBRIDGE2-1" 3) := by decide
    exact hall k k.mem_all e he
  · intro h
    -- the group that is dialled for the third span is no number
    have hnumber := (h (.provider .isdn) (by decide) thirdSpanProvider List.mem_cons_self rfl _
      (List.mem_singleton_self _)).1.2
    have hnone : verifyIsNumericint (dahdiGetGnumber (indexed mixedSpans)
      (thirdSpanProvider.get "port").toStr) = false := by decide
    rw [hnone] at hnumber
    cases hnumber

end Dahdi
end Askozia
