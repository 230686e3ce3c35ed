import Askozia.Asterisk.Sections
import Askozia.Dialplan.Jumps
import Askozia.Dialplan.SharedHosts

/-!
# Contexts for calls that come in

The files of the channels name the context that the calls of an account come in through; it is the
generator of `extensions.conf` that writes it.

* `incoming_written_iff`: the context of a provider is written exactly if the provider has a fax or a map.
* `shared_exists`, `phone_written`: those of hosts with several accounts and of phones are.
-/

namespace Askozia
namespace Dialplan

open Php Config Pbx Asterisk

/-- No `uniqid` ends like the name of a context for incoming calls. -/
def PlainIds (config : Val) : Prop :=
  ∀ k, ∀ e ∈ elements config k, ¬ "-incoming".toList <:+ (e.get "uniqid").toStr.toList

/-- A line of the text is a heading with the name, with or without a comment after it. -/
def Exists (text name : String) : Prop :=
  ∃ rest, (rest = [] ∨ rest.head? = some ';') ∧ '[' :: (name.toList ++ ']' :: rest) ∈ explodeChars '\n' text.toList

/-- A file can be read, and every context that calls are given at the end of a section of it is in the text. -/
def ContextsExist (conf text : String) : Prop :=
  ∃ ss, sections conf = some ss ∧ ∀ s ∈ ss, ∀ name, lastValue s.2 "context" = some name → Exists text name

/-- Whether an account is disabled does not depend on the list it is in. -/
theorem mem_enabled_congr {xs ys : List Val} {p : Val} (h : p ∈ xs ↔ p ∈ ys) :
    p ∈ enabled xs ↔ p ∈ enabled ys := by
  rw [mem_enabled, mem_enabled, h]

section Lists

variable (usort : Usort) {g : Globals} {p : Val}

/-- The phones are those of all five lists. -/
theorem mem_internalPhones (h : ProperLists g.config) :
    p ∈ (fetchLists usort g).1.internalPhones ↔ ∃ t, p ∈ elements g.config (.phone t) := by
  have h₁ := rearranged_initList h (.phone .sip)
  have h₂ := h₁.trans (rearranged_initList h₁.lists (.phone .iax))
  have h₃ := h₂.trans (rearranged_initList h₂.lists (.phone .isdn))
  have h₄ := h₃.trans (rearranged_initList h₃.lists (.phone .skinny))
  have h₅ := h₄.trans (rearranged_initList h₄.lists (.phone .analog))
  have hperm : (fetchLists usort g).1.internalPhones.Perm (elements g.config (.phone .sip) ++
      elements g.config (.phone .iax) ++ elements g.config (.phone .isdn) ++
      elements g.config (.phone .skinny) ++ elements g.config (.phone .analog)) := by
    refine (usort.perm _ _).trans ?_
    exact (((((usort.perm _ _).trans (h₁.perm _)).append ((usort.perm _ _).trans (h₂.perm _))).append
      ((usort.perm _ _).trans (h₃.perm _))).append ((usort.perm _ _).trans (h₄.perm _))).append
      ((usort.perm _ _).trans (h₅.perm _))
  rw [hperm.mem_iff, List.mem_append, List.mem_append, List.mem_append, List.mem_append]
  constructor
  · rintro ((((hp | hp) | hp) | hp) | hp)
    · exact ⟨.sip, hp⟩
    · exact ⟨.iax, hp⟩
    · exact ⟨.isdn, hp⟩
    · exact ⟨.skinny, hp⟩
    · exact ⟨.analog, hp⟩
  · rintro ⟨t, hp⟩
    cases t with
    | sip => exact .inl (.inl (.inl (.inl hp)))
    | iax => exact .inl (.inl (.inl (.inr hp)))
    | isdn => exact .inl (.inl (.inr hp))
    | skinny => exact .inl (.inr hp)
    | analog => exact .inr hp

/-- What has a context with its `uniqid` is in the configuration. -/
structure Listed (config : Val) (l : Lists) : Prop where
  applications : ∀ x ∈ l.applications, ∃ k, x ∈ elements config k
  virtualFaxes : ∀ x ∈ l.virtualFaxes, ∃ k, x ∈ elements config k
  phones : ∀ x, x ∈ l.internalPhones ↔ ∃ t, x ∈ elements config (.phone t)
  analogFaxes : ∀ x, x ∈ l.analogFaxes ↔ x ∈ elements config (.fax .analog)

/-- What was fetched is what is stored. -/
theorem listed (h : ProperLists g.config) : Listed g.config (fetchLists usort g).1 := by
  have h₁ := rearranged_pbxGetPhones usort h
  have h₂ := h₁.trans (rearranged_initList h₁.lists .externalPhone)
  have h₃ := h₂.trans (rearranged_getSortedInPlace usort pbxSortByName h₂.lists (.inl rfl))
  have h₄ := h₃.trans (rearranged_getSortedInPlace usort confroomcmp h₃.lists (.inr rfl))
  have h₅ := h₄.trans (rearranged_initList h₄.lists (.fax .virtual))
  have h₆ := h₅.trans (rearranged_initList h₅.lists (.fax .analog))
  refine ⟨fun x hx => ⟨.application, (h₃.mem _).1 hx⟩, fun x hx => ?_, fun x => mem_internalPhones usort h, fun x => ?_⟩
  · exact ⟨_, (h₅.mem (.fax .virtual)).1 ((usort.perm _ _).mem_iff.1 hx)⟩
  · exact (usort.perm _ _).mem_iff.trans (h₆.mem (.fax .analog))

end Lists

/-- An id is not empty. -/
theorem plainId_ne_nil {u : String} (h : plainId u = true) : u.toList ≠ [] := by
  unfold plainId at h
  rw [Bool.and_eq_true, Bool.not_eq_true', List.isEmpty_eq_false_iff] at h
  exact h.1

/-- The name of a provider's context is a plain id. -/
theorem plainId_incomingName {p : Val} (h : plainId (p.get "uniqid").toStr = true) :
    plainId (incomingName p) = true := by
  unfold plainId at h ⊢
  rw [Bool.and_eq_true, Bool.not_eq_true', List.isEmpty_eq_false_iff] at h
  rw [incomingName, String.toList_append, List.all_append, h.2, Bool.true_and, Bool.and_eq_true,
    Bool.not_eq_true', List.isEmpty_eq_false_iff]
  exact ⟨List.append_ne_nil_of_left_ne_nil h.1 _, by decide⟩

section Exists

variable {env : Env} {config : Val} {l : Lists} {g : Globals} {p : Val} {text name : String}

/-- A line of an extension opens no context. -/
theorem opened_readExten (rest : List Char) : (readExten rest).opened = none := by
  unfold readExten readStep
  repeat' split
  all_goals rfl

/-- Nor does a setting. -/
theorem opened_readSetting (line : List Char) : (readSetting line).opened = none := by
  unfold readSetting
  repeat' split
  all_goals rfl

/-- Only a heading opens a context. -/
theorem readLine_opened {line : List Char} (h : (readLine line).opened = some name) :
    ∃ rest, line = '[' :: (name.toList ++ ']' :: rest) ∧ (rest = [] ∨ rest.head? = some ';') := by
  unfold readLine at h
  split_ifs at h with hempty hcomment hbracket hinclude hnone hexten
  · cases h
  · cases h
  · obtain ⟨r, rfl⟩ : ∃ r, line = '[' :: r := by
      cases line with
      | nil => cases hbracket
      | cons c r => exact ⟨r, congrArg (· :: r) (Option.some.inj hbracket)⟩
    unfold readHeader at h
    split at h
    · cases h
    · next opened rest hcut =>
      split_ifs at h with hheader
      · obtain rfl := Option.some.inj h
        refine ⟨rest, ?_, hheader.2⟩
        rw [String.toList_ofList, ← (cutAt_spec hcut).1]
        rfl
      · cases h
  · cases h
  · cases h
  · rw [opened_readExten] at h
    cases h
  · rw [opened_readSetting] at h
    cases h

/-- A context whose heading was read exists. -/
theorem exists_of_mem_headers (h : name ∈ headers (entries text)) : Exists text name := by
  obtain ⟨e, he, hopened⟩ := List.mem_filterMap.1 h
  obtain ⟨line, hline, rfl⟩ := List.mem_map.1 he
  obtain ⟨r, hr, hrest⟩ := readLine_opened hopened
  exact ⟨r, hrest, hr ▸ hline⟩

/-- The heading of a context that exists was read, if its name can stand in brackets. -/
theorem mem_headers_of_exists (hname : name.toList ≠ []) (hbracket : ']' ∉ name.toList) (h : Exists text name) :
    name ∈ headers (entries text) := by
  obtain ⟨rest, hrest, hline⟩ := h
  have hread : readLine ('[' :: (name.toList ++ ']' :: rest)) = .header name := by
    show readHeader (name.toList ++ ']' :: rest) = _
    rw [readHeader, cutAt_eq hbracket]
    dsimp only
    rw [if_pos ⟨hname, hrest⟩, String.ofList_toList]
  exact List.mem_filterMap.2 ⟨_, List.mem_map_of_mem hline, by rw [hread]; rfl⟩

/-- A name like that of a context for incoming calls is the one of a provider with a fax or a map, or of a
host. -/
theorem cases_of_mem {n : String} (hplain : PlainIds config) (hl : Fetched config l g) (hlisted : Listed config l)
    (hn : n ∈ contextNames l ∨ n ∈ fixedHeaders) (hend : "-incoming".toList <:+ n.toList) :
    (∃ q ∈ enabled l.providers, hasIncoming q = true ∧ n = incomingName q) ∨
      ∃ e ∈ sipGetHostsWithMultipleAccounts l.sipProviders, n = sharedName e.1 := by
  have hid : ∀ {xs : List Val}, (∀ x ∈ xs, ∃ k, x ∈ elements config k) → ∀ x ∈ enabled xs,
      (x.get "uniqid").toStr ≠ n := by
    rintro xs hxs x hx rfl
    obtain ⟨k, hk⟩ := hxs x (mem_enabled.1 hx).1
    exact hplain k x hk hend
  have hfixed : ∀ m ∈ ["public-direct-dial", "internal", "outgoing-uri"] ++ fixedHeaders, m ≠ n := by
    rintro m hm rfl
    have hnone : ∀ m ∈ ["public-direct-dial", "internal", "outgoing-uri"] ++ fixedHeaders,
        ¬ "-incoming".toList <:+ m.toList := by decide
    exact hnone m hm hend
  have hproviders : ∀ x ∈ l.providers, ∃ k, x ∈ elements config k := by
    intro x hx
    obtain ⟨t, -, hx⟩ := (hl.providers x).1 hx
    exact ⟨_, hx⟩
  have houtgoing : ∀ u : String, u ++ "-outgoing" ≠ n := by
    rintro u rfl
    rw [String.toList_append] at hend
    have hsame := List.suffix_of_suffix_length_le hend (List.suffix_append _ _) (by decide)
    exact absurd hsame (by decide)
  -- one case for each group of contexts, in the order of the generator
  rcases hn with hn | hn
  · simp only [contextNames, List.mem_append] at hn
    rcases hn with ((((((hn | hn) | hn) | hn) | hn) | hn) | hn)
    · obtain ⟨x, hx, heq⟩ := List.mem_map.1 hn
      exact absurd heq (hid hlisted.applications x (List.mem_filter.1 hx).1)
    · obtain ⟨x, hx, heq⟩ := List.mem_map.1 hn
      exact absurd heq (hid hlisted.virtualFaxes x hx)
    · rcases List.mem_cons.1 hn with rfl | hn
      · exact absurd rfl (hfixed _ (by decide))
      · obtain rfl := List.mem_singleton.1 hn
        exact absurd rfl (hfixed _ (by decide))
    · obtain ⟨q, hq, hn⟩ := List.mem_flatMap.1 hn
      unfold providerContextNames at hn
      rcases List.mem_append.1 hn with hn | hn
      · split_ifs at hn with hincoming
        · exact .inl ⟨q, hq, hincoming, List.mem_singleton.1 hn⟩
        · cases hn
      · split_ifs at hn
        · exact absurd (List.mem_singleton.1 hn).symm (hid hproviders q hq)
        · cases hn
    · obtain ⟨e, he, rfl⟩ := List.mem_map.1 hn
      exact .inr ⟨e, he, rfl⟩
    · obtain ⟨x, hx, hn⟩ := List.mem_flatMap.1 hn
      have hx : (x.get "uniqid").toStr ≠ n := by
        rcases List.mem_append.1 hx with hx | hx
        · exact hid (fun y hy => ((hlisted.phones y).1 hy).elim fun t ht => ⟨_, ht⟩) x hx
        · exact hid (fun y hy => ⟨_, (hlisted.analogFaxes y).1 hy⟩) x hx
      rcases List.mem_cons.1 hn with hn | hn
      · exact absurd hn.symm hx
      · exact absurd (List.mem_singleton.1 hn).symm (houtgoing _)
    · obtain rfl := List.mem_singleton.1 hn
      exact absurd rfl (hfixed _ (by decide))
  · exact absurd rfl (hfixed n (List.mem_append_right _ hn))

/-- The context of a provider is written exactly if the provider has a fax or a map. -/
theorem incoming_exists_iff (h : WellFormed config) (hid : Identified config) (hplain : PlainIds config)
    (hl : Fetched config l g) (hlisted : Listed config l) (hs : Spelled env l g) (hp : p ∈ enabled l.providers) :
    Exists (render (confLines env l g)) (incomingName p) ↔ hasIncoming p = true := by
  obtain ⟨t, ht, hp'⟩ := (hl.providers p).1 (mem_enabled.1 hp).1
  constructor
  · intro hexists
    have hplain' := plainId_incomingName (hs.providers p hp).uniqid
    have hn := (mem_headers_iff hs).1 (mem_headers_of_exists (plainId_ne_nil hplain')
      (plainId_ne hplain' (x := ']') (by decide)) hexists)
    have hend : "-incoming".toList <:+ (incomingName p).toList := by
      rw [incomingName, String.toList_append]
      exact List.suffix_append _ _
    rcases cases_of_mem hplain hl hlisted hn hend with ⟨q, hq, hincoming, heq⟩ | ⟨e, he, heq⟩
    · obtain ⟨t', -, hq'⟩ := (hl.providers q).1 (mem_enabled.1 hq).1
      rwa [provider_ext h hp' hq' heq.symm] at hincoming
    · obtain ⟨q, hq, rfl, -⟩ := mem_hosts.1 he
      exact absurd heq (incomingName_ne hid hp' ((hl.accounts q).1 (mem_enabled.1 hq).1))
  · intro hincoming
    refine exists_of_mem_headers ((mem_headers_iff hs).2 (.inl ?_))
    have hname : incomingName p ∈ providerContextNames p := by
      have hwritten : ((p.get "defaultfax").truthy || (p.get "incomingextensionmap").count != 0) = true := hincoming
      unfold providerContextNames
      rw [if_pos hwritten]
      exact List.mem_append_left _ (List.mem_singleton_self _)
    simp only [contextNames, List.mem_append]
    exact .inl (.inl (.inl (.inr (List.mem_flatMap_of_mem hp hname))))

/-- The context of a host with several accounts is written. -/
theorem shared_exists (hs : Spelled env l g) (hp : p ∈ enabled l.sipProviders)
    (hmany : 1 < (accountsOn l p).length) : Exists (render (confLines env l g)) (sharedName (hostKey p)) := by
  apply exists_of_mem_headers
  rw [mem_headers_iff hs]
  have he : hostEntry l p ∈ sipGetHostsWithMultipleAccounts l.sipProviders := mem_hosts.2 ⟨p, hp, rfl, hmany⟩
  have hname : sharedName (hostKey p) ∈ (sipGetHostsWithMultipleAccounts l.sipProviders).map
      fun e => "SIP-PROVIDER-" ++ e.1.toStr ++ "-incoming" := List.mem_map.2 ⟨_, he, rfl⟩
  simp only [contextNames, List.mem_append]
  exact .inl (.inl (.inl (.inr hname)))

/-- The context of a phone or a fax is written. -/
theorem phone_exists (hs : Spelled env l g) (hp : p ∈ enabled l.internalPhones ++ enabled l.analogFaxes) :
    Exists (render (confLines env l g)) (p.get "uniqid").toStr := by
  apply exists_of_mem_headers
  rw [mem_headers_iff hs]
  simp only [contextNames, List.mem_append]
  exact .inl (.inl (.inr (List.mem_flatMap.2 ⟨p, hp, List.mem_cons_self⟩)))

/-- The context for calls from outside is always written. -/
theorem direct_exists (hs : Spelled env l g) : Exists (render (confLines env l g)) "public-direct-dial" := by
  apply exists_of_mem_headers
  rw [mem_headers_iff hs]
  simp only [contextNames, List.mem_append]
  exact .inl (.inl (.inl (.inl (.inl (.inr List.mem_cons_self)))))

end Exists

/-! ## Names in other files -/

section Names

variable {p : Val}

/-- The name of a provider's context is one line. -/
theorem oneLine_incomingName (hp : Unbroken p) : oneLine (incomingName p) = true := by
  rw [incomingName, oneLine_append, oneLine_get hp]
  rfl

/-- A name of letters and digits is read as it is. -/
theorem readValue_plainId {u : String} (h : plainId u = true) : readValue u = u := by
  have hne : ∀ x : Char, isWordChar x = false → x ∉ u.toList := fun x hx => plainId_ne h hx
  have hblank : ∀ c ∈ u.toList, c ∉ blanks := by
    rintro c hc hmem
    have hall : ∀ c ∈ blanks, isWordChar c = false := by decide
    exact hne c (hall c hmem) hc
  apply readValue_eq (hne ';' (by decide))
  · intro hhead
    exact hne '>' (by decide) (List.mem_of_mem_head? hhead)
  · intro c hc
    exact hblank c (List.mem_of_mem_head? hc)
  · intro c hc
    exact hblank c (List.mem_of_mem_getLast? hc)

/-- The loader reads it as it was written. -/
theorem readValue_incomingName (h : plainId (p.get "uniqid").toStr = true) :
    readValue (incomingName p) = incomingName p := readValue_plainId (plainId_incomingName h)

end Names

/-! ## The generated text -/

section Generated

variable (usort : Usort) (env : Env) {config p : Val} {t : Tech}

/-- An enabled provider is among those that were fetched. -/
theorem mem_enabled_providers (h : WellFormed config) (ht : t ≠ .skinny)
    (hp : p ∈ enabled (elements config (.provider t))) :
    p ∈ enabled (fetchLists usort (indexed config)).1.providers := by
  obtain ⟨hp, hset⟩ := mem_enabled.1 hp
  exact mem_enabled.2 ⟨((fetched usort h).providers p).2 ⟨t, ht, hp⟩, hset⟩

/-- So is an enabled phone. -/
theorem mem_enabled_phones (hproper : ProperLists config) (hp : p ∈ enabled (elements config (.phone t))) :
    p ∈ enabled (fetchLists usort (indexed config)).1.internalPhones := by
  obtain ⟨hp, hset⟩ := mem_enabled.1 hp
  exact mem_enabled.2 ⟨(mem_internalPhones usort (g := indexed config) hproper).2 ⟨t, hp⟩, hset⟩

/-- So is an enabled fax. -/
theorem mem_enabled_faxes (hproper : ProperLists config) (hp : p ∈ enabled (elements config (.fax .analog))) :
    p ∈ enabled (fetchLists usort (indexed config)).1.analogFaxes := by
  obtain ⟨hp, hset⟩ := mem_enabled.1 hp
  exact mem_enabled.2 ⟨((listed usort (g := indexed config) hproper).analogFaxes p).2 hp, hset⟩

/-- The context for a provider's incoming calls exists just if it has maps or a default fax. -/
theorem incoming_written_iff (h : WellFormed config) (hid : Identified config)
    (hplain : PlainIds config) (hs : Spelled env (fetchLists usort (indexed config)).1
      (fetchLists usort (indexed config)).2) (ht : t ≠ .skinny) (hp : p ∈ enabled (elements config (.provider t))) :
    Exists (extensionsConfGenerate usort env (indexed config)).1 (incomingName p) ↔ hasIncoming p = true := by
  rw [extensionsConfGenerate_text]
  exact incoming_exists_iff h hid hplain (fetched usort h) (listed usort (g := indexed config) h.lists) hs
    (mem_enabled_providers usort h ht hp)

/-- The context of a phone always exists. -/
theorem phone_written (hproper : ProperLists config) (hs : Spelled env (fetchLists usort (indexed config)).1
      (fetchLists usort (indexed config)).2) (hp : p ∈ enabled (elements config (.phone t))) :
    Exists (extensionsConfGenerate usort env (indexed config)).1 (p.get "uniqid").toStr := by
  rw [extensionsConfGenerate_text]
  exact phone_exists hs (List.mem_append_left _ (mem_enabled_phones usort hproper hp))

/-- So does that of an analog fax. -/
theorem fax_written (hproper : ProperLists config) (hs : Spelled env (fetchLists usort (indexed config)).1
      (fetchLists usort (indexed config)).2) (hp : p ∈ enabled (elements config (.fax .analog))) :
    Exists (extensionsConfGenerate usort env (indexed config)).1 (p.get "uniqid").toStr := by
  rw [extensionsConfGenerate_text]
  exact phone_exists hs (List.mem_append_right _ (mem_enabled_faxes usort hproper hp))

/-- So does the one for calls from outside. -/
theorem direct_written (hs : Spelled env (fetchLists usort (indexed config)).1
      (fetchLists usort (indexed config)).2) :
    Exists (extensionsConfGenerate usort env (indexed config)).1 "public-direct-dial" := by
  rw [extensionsConfGenerate_text]
  exact direct_exists hs

end Generated

/-! ## A branch office -/

/-- A provider of a branch office. -/
def branchProvider (uniqid username : String) (maps : List Val) : Val :=
  .arr [(.str "uniqid", .str uniqid), (.str "name", .str "carrier"), (.str "username", .str username),
    (.str "secret", .str "abc"), (.str "host", .str "sip.example.com"), (.str "incomingextensionmap", .ofList maps)]

/-- A phone of a branch office. -/
def branchPhone (uniqid extension : String) : Val :=
  .arr [(.str "uniqid", .str uniqid), (.str "extension", .str extension), (.str "callerid", .str "front desk"),
    (.str "secret", .str "a=[b]")]

/-- A SIP, an IAX and an analog provider, and a SIP, an IAX and an analog phone. -/
def branchOffice (maps : List Val) : Val :=
  .arr [
    (.str "sip", .arr [(.str "provider", .ofList [branchProvider "SIP-PROVIDER-1" "4711" maps]),
      (.str "phone", .ofList [branchPhone "SIP-PHONE-1" "20"])]),
    (.str "iax", .arr [(.str "provider", .ofList [branchProvider "IAX-PROVIDER-1" "4712" maps]),
      (.str "phone", .ofList [branchPhone "IAX-PHONE-1" "21"])]),
    (.str "analog", .arr [
      (.str "provider", .ofList
        [(branchProvider "ANALOG-PROVIDER-1" "4713" maps).set (.str "port") (.str "DAHDIPORT-ANALOG-1")]),
      (.str "phone", .ofList [(branchPhone "ANALOG-PHONE-1" "22").set (.str "port") (.str "DAHDIPORT-ANALOG-2")])]),
    (.str "interfaces", .arr [(.str "dahdi-port", .ofList
      [.arr [(.str "uniqid", .str "DAHDIPORT-ANALOG-1"), (.str "basechannel", .str "1")],
        .arr [(.str "uniqid", .str "DAHDIPORT-ANALOG-2"), (.str "basechannel", .str "2")]])])]

section BranchOffice

variable {maps : List Val} (h : maps = anyNumber ∨ maps = [])

include h

/-- The configurations of the branch office are well-formed. -/
theorem wellFormed_branchOffice : WellFormed (branchOffice maps) := by
  rcases h with rfl | rfl
  · exact wellFormed_of_all (by decide) (by decide) (by decide)
  · exact wellFormed_of_all (by decide) (by decide) (by decide)

/-- Their ids tell what they are the ids of, and are plain. -/
theorem identified_branchOffice : Identified (branchOffice maps) ∧ PlainIds (branchOffice maps) := by
  have hsip : ∀ p ∈ elements (branchOffice maps) (.provider .sip),
      p.get "uniqid" = .str ("SIP-PROVIDER-" ++ "1") ∧ p.get "host" = .str "sip.example.com" := by
    rcases h with rfl | rfl
    · decide
    · decide
  have hends : ∀ k ∈ Kind.all, ∀ e ∈ elements (branchOffice maps) k,
      ¬ "-incoming".toList <:+ (e.get "uniqid").toStr.toList := by
    rcases h with rfl | rfl
    · decide
    · decide
  have hapart : ∀ k ∈ Kind.all, ∀ e ∈ elements (branchOffice maps) k,
      (e.get "uniqid").toStr ≠ "SIP-PROVIDER-" ++ "sip.example.com" := by
    rcases h with rfl | rfl
    · decide
    · decide
  refine ⟨⟨fun p hp => ⟨_, (hsip p hp).1⟩, fun p hp => ⟨_, (hsip p hp).2⟩, fun t p hp q hq => ?_⟩,
    fun k => hends k k.mem_all⟩
  rw [(hsip q hq).2]
  exact hapart _ (Kind.mem_all _) p hp

/-- Everything in them can be written. -/
theorem spelled_branchOffice : Spelled plainEnv (fetchLists insertionUsort (indexed (branchOffice maps))).1
    (fetchLists insertionUsort (indexed (branchOffice maps))).2 where
  config := by
    rcases h with rfl | rfl
    · decide
    · decide
  productName := by decide
  newFax := by decide
  internalPhones := by
    have hall : ∀ p ∈ enabled (fetchLists insertionUsort (indexed (branchOffice maps))).1.internalPhones,
        p.chars.contains '\n' = false ∧ named (p.get "extension").toStr = true ∧ publicname p = none ∧
          plainId (p.get "uniqid").toStr = true ∧ (pbxUniqidToTechnology (p.get "uniqid").toStr = .sip ∨
            pbxUniqidToTechnology (p.get "uniqid").toStr = .iax2 ∨
            pbxUniqidToTechnology (p.get "uniqid").toStr = .dahdi) := by
      rcases h with rfl | rfl
      · decide
      · decide
    intro p hp
    obtain ⟨hchars, hextension, hpublic, hid, htech⟩ := hall p hp
    refine ⟨⟨⟨by simpa [Unbroken] using hchars, hextension, ?_⟩, hid⟩, fun u hu => ?_⟩
    · rw [hpublic]
      intro n hn
      cases hn
    · rcases htech with htech | htech | htech
      · rw [htech] at hu
        cases hu
      · rw [htech] at hu
        cases hu
      · rw [htech] at hu
        cases hu
  externalPhones := by
    intro p hp
    rcases h with rfl | rfl <;> cases hp
  callgroups := by
    intro p hp
    rcases h with rfl | rfl <;> cases hp
  applications := by
    intro p hp
    rcases h with rfl | rfl <;> cases hp
  conferenceRooms := by
    intro p hp
    rcases h with rfl | rfl <;> cases hp
  virtualFaxes := by
    intro p hp
    rcases h with rfl | rfl <;> cases hp
  analogFaxes := by
    intro p hp
    rcases h with rfl | rfl <;> cases hp
  sipPhones := by
    rcases h with rfl | rfl
    · decide
    · decide
  providers := by
    have hall : ∀ p ∈ enabled (fetchLists insertionUsort (indexed (branchOffice maps))).1.providers,
        p.chars.contains '\n' = false ∧ plainId (p.get "uniqid").toStr = true ∧
          (pbxUniqidToTechnology (p.get "uniqid").toStr = .sip ∨
            pbxUniqidToTechnology (p.get "uniqid").toStr = .iax2 ∨
            pbxUniqidToTechnology (p.get "uniqid").toStr = .dahdi) ∧ named (p.get "username").toStr = true ∧
          (p.get "dialpattern").vals = [] ∧ (p.get "failover").truthy = false ∧ (p.get "defaultfax").truthy = false := by
      rcases h with rfl | rfl
      · decide
      · decide
    -- the only destination is the phone
    have hmaps : ∀ p ∈ enabled (fetchLists insertionUsort (indexed (branchOffice maps))).1.providers,
        ∀ e ∈ (grouppedMapping p).entries, named e.1.toStr = true ∧ destKind (destinationOf e) = some .phone ∧
          pbxUniqidToTechnology ((pbxGetPhone (fetchLists insertionUsort (indexed (branchOffice maps))).2
            (destinationOf e).toStr).get "uniqid").toStr = .sip := by
      rcases h with rfl | rfl
      · decide
      · decide
    intro p hp
    obtain ⟨hchars, hid, htech, husername, hpatterns, hfailover, hfax⟩ := hall p hp
    refine ⟨⟨by simpa [Unbroken] using hchars, hid, htech, ?_, ?_⟩, fun _ => husername, ?_, ?_, ?_⟩
    · rw [hpatterns]
      intro pattern hpattern
      cases hpattern
    · intro htrue
      rw [hfailover] at htrue
      cases htrue
    · exact fun e he => (hmaps p hp e he).1
    · intro e he
      obtain ⟨-, hkind, htech⟩ := hmaps p hp e he
      intro _
      unfold Matched destTargets
      rw [hkind]
      refine ⟨fun _ u hu => ?_, fun t ht => by cases ht⟩
      rw [htech] at hu
      cases hu
    · intro htrue
      rw [hfax] at htrue
      cases htrue
  hosts := by
    rcases h with rfl | rfl
    · decide
    · decide
  accounts := by
    rcases h with rfl | rfl
    · decide
    · decide
  parking := by
    rcases h with rfl | rfl
    · decide
    · decide

end BranchOffice

end Dialplan
end Askozia
