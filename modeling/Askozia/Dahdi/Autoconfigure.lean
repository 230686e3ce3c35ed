import Askozia.Config.Saving
import Askozia.Dahdi.Scan
import Askozia.Pbx.Accounts
import Askozia.XmlParse.Reread

/-!
# Configuring the ports of the cards (`dahdi.inc`)

At every boot `dahdi_autoconfigure_ports` adds a port for each one that `dahdi_scan` reports and
that is not stored yet, and makes a group of all provider ports of a technology.

* `rereadSub_stored`: what is saved is read back as `stored` says;
* `ports_once_iff`: exactly when every usable port gets an entry of its own.
-/

namespace Askozia
namespace Dahdi

open Php Config Pbx

/-! ## Saving -/

/-- A value as it is after `write_config` has written it and read it back. -/
def asStored : Val → Val
  | .null => .str ""
  | .bool _ => .str ""
  | .int n => .str (toString n)
  | v => v

/-- A port or a group as it is after `write_config`, which does not write `false`. -/
def stored (p : Val) : Val :=
  .arr ((p.entries.filter fun e => e.2 != .bool false).map fun e => (e.1, asStored e.2))

/-- `dahdi_save_port($port)` -/
def dahdiSavePort (port : Val) (g : Globals) : Globals :=
  indexed (saveElement .dahdiPort (stored port) g)

/-- `dahdi_save_portgroup($group)` -/
def dahdiSavePortgroup (group : Val) (g : Globals) : Globals :=
  indexed (saveElement .dahdiPortgroup (stored group) g)

/-! ## Groups -/

/-- `dahdi_get_ports($techfilter, $typefilter)` -/
def dahdiGetPortsOf (technology type : String) (g : Globals) : List Val :=
  (dahdiGetPorts g).filter fun port =>
    (port.get "technology").looseEq (.str technology) && (port.get "type").looseEq (.str type)

/-- `dahdi_get_portgroups()` -/
def dahdiGetPortgroups (g : Globals) : List Val := elements g.config .dahdiPortgroup

/-- The keys of `$used_groups`. -/
def usedGroups (g : Globals) : List Key :=
  (dahdiGetPorts g).map (fun port => (port.get "basechannel").key) ++
    (dahdiGetPortgroups g).map fun group => (group.get "number").key

/-- `dahdi_get_free_portgroup_number()`: the greatest number from 0 to 63 that is not in use. -/
def dahdiGetFreePortgroupNumber (g : Globals) : Option ℕ :=
  (List.range 64).reverse.find? fun i => !(usedGroups g).contains (.int i)

section Autoconfigure

variable (md5 gettext : String → String)

/-- `dahdi_generate_default_portgroup($technology)`, where `uniqid(rand())` gives `id`. -/
def dahdiGenerateDefaultPortgroup (technology id : String) (g : Globals) : Val :=
  match dahdiGetFreePortgroupNumber g with
  | none => .bool false
  | some number =>
    let group := Val.arr [(.str "name", .str (gettext "Group" ++ " " ++ toString number)),
      (.str "number", .int number), (.str "technology", .str technology)]
    let group :=
      if technology = "analog" then group.set (.str "type") (.str "fxo")
      else if technology = "isdn" then group.set (.str "type") (.str "te")
      else group
    group.set (.str "uniqid") (.str ("DAHDIPORTGROUP-" ++ strtoupper technology ++ "-" ++ id))

/-- `$magic_uniqid` -/
def magicUniqid (technology : String) : String :=
  "DAHDIPORTGROUP-" ++ strtoupper technology ++ "-ALLPROVIDERS"

/-- The group of all provider ports of a technology. -/
def allProviders (technology : String) (ports : List Val) (g : Globals) : Val :=
  -- the id that was generated is replaced
  let group := dahdiGenerateDefaultPortgroup gettext technology "" g
  let group := group.set (.str "uniqid") (.str (magicUniqid technology))
  let group := group.set (.str "name") (.str (gettext "All Provider Ports"))
  group.set (.str "groupmember") (.ofList (ports.map fun port => port.get "uniqid"))

/-- The body of the loop over the provider types. -/
def configureGroup (g : Globals) (providerType : String × String) : Globals :=
  -- `$magicuniqid`, which is looked up, is never assigned
  if (getElement g .dahdiPortgroup "").truthy then g
  else
    let ports := dahdiGetPortsOf providerType.1 providerType.2 g
    if 1 < ports.length then dahdiSavePortgroup (allProviders gettext providerType.1 ports g) g else g

/-- `$provider_types` -/
def providerPortTypes : List (String × String) := [("analog", "fxo"), ("isdn", "te")]

/-! ## Ports -/

/-- The `uniqid` of a port of a card. -/
def portUniqid (p : Val) : String :=
  "DAHDIPORT-" ++ strtoupper (p.get "technology").toStr ++ "-" ++
    md5 ((p.get "location").toStr ++ (p.get "basechannel").toStr)

/-- A new port with its defaults. -/
def withDefaults (uniqid : String) (p : Val) : Val :=
  let p := p.set (.str "uniqid") (.str uniqid)
  let p := p.set (.str "echo-taps") (.int 128)
  let p := p.set (.str "rxgain") (.int 0)
  let p := p.set (.str "txgain") (.int 0)
  let p :=
    if (p.get "technology").looseEq (.str "analog") then
      let p := p.set (.str "name") (.str (gettext "Port" ++ " " ++ (p.get "basechannel").toStr))
      p.set (.str "startsignaling") (.str "ks")
    -- a BRI port has two channels for calls and one for signalling
    else if (p.get "technology").looseEq (.str "isdn") && (p.get "totalchannels").looseEq (.int 3) then
      let p := p.set (.str "name") (.str (gettext "Port" ++ " " ++ (p.get "span").toStr))
      let p := p.set (.str "echo-taps") (.str "disable")
      if (p.get "type").looseEq (.str "nt") then p.set (.str "signaling") (.str "bri_net_ptmp")
      else if (p.get "type").looseEq (.str "te") then p.set (.str "signaling") (.str "bri_cpe_ptmp")
      else p
    else p
  p.set (.str "unused") (.bool true)

/-- The body of the loop over the ports. -/
def configurePort (g : Globals) (p : Val) : Globals :=
  if (getElement g .dahdiPort (portUniqid md5 p)).truthy then g
  else dahdiSavePort (withDefaults gettext (portUniqid md5 p) p) g

/-- `dahdi_autoconfigure_ports()`, for the output `out` of `dahdi_scan`. -/
def dahdiAutoconfigurePorts (out : List String) (g : Globals) : Globals :=
  providerPortTypes.foldl (configureGroup gettext)
    ((dahdiGetPhysicalPorts out).foldl (configurePort md5 gettext) g)

end Autoconfigure

/-! ## What is stored -/

section Stored

variable {p : Val} {field : String}

/-- Storing a value as a text changes nothing about how it is read. -/
theorem rereadEnt_asStored (read : String → String) (ent : String) {x : Val} (hx : x ≠ .bool false) :
    XmlParse.rereadEnt read ent x = XmlParse.rereadEnt read ent (asStored x) := by
  cases x with
  | bool b =>
    cases b with
    | false => exact absurd rfl hx
    | true =>
      rw [XmlParse.rereadEnt_scalar rfl, asStored, XmlParse.rereadEnt_scalar rfl]
      rfl
  | null =>
    rw [XmlParse.rereadEnt_scalar rfl, asStored, XmlParse.rereadEnt_scalar rfl]
    rfl
  | int n =>
    rw [XmlParse.rereadEnt_scalar rfl, asStored, XmlParse.rereadEnt_scalar rfl]
    rfl
  | _ => rfl

/-- Writing a port or a group and reading it back is what `stored` says. -/
theorem rereadSub_stored (read : String → String) (es : List (Key × Val)) :
    XmlParse.rereadSub read es = XmlParse.rereadSub read (stored (.arr es)).entries := by
  show _ = XmlParse.rereadSub read
    ((es.filter fun e => e.2 != .bool false).map fun e => (e.1, asStored e.2))
  induction es with
  | nil => rfl
  | cons e r ih =>
    obtain ⟨k, x⟩ := e
    rw [XmlParse.rereadSub_cons, ih, List.filter_cons]
    split_ifs with hx
    · have hne : x ≠ .bool false := by simpa using hx
      rw [List.map_cons, XmlParse.rereadSub_cons, rereadEnt_asStored read _ hne]
    · have hfalse : x = .bool false := by simpa using hx
      rw [hfalse, XmlParse.rereadEnt_scalar rfl]
      rfl

/-- Assigning makes an array. -/
theorem isArray_set (v : Val) (k : Key) (x : Val) : (v.set k x).isArray = true := by
  rw [Val.set, Val.isArray]

/-- An assignment leaves the other fields. -/
theorem get_set_of_ne {v x : Val} {f f' : String} (hv : v.isArray = true) (h : f' ≠ f) :
    (v.set (.str f) x).get f' = v.get f' := by
  apply Val.idx_set_of_ne x fun hkey => h (Key.str.inj hkey)
  rintro s rfl
  cases hv

/-- What was assigned is read. -/
theorem get_set_self (v x : Val) (f : String) : (v.set (.str f) x).get f = x := Val.idx_set_self _ _ _

/-- What is found in a stored array is what was found before, as a text. -/
theorem lookup_stored {k : Key} {es : List (Key × Val)} (h : es.lookup k ≠ some (.bool false)) :
    ((es.filter fun e => e.2 != .bool false).map fun e => (e.1, asStored e.2)).lookup k =
      (es.lookup k).map asStored := by
  induction es with
  | nil => rfl
  | cons e r ih =>
    obtain ⟨k', y⟩ := e
    by_cases hk : k = k'
    · subst hk
      have hy : (y != Val.bool false) = true := by
        simpa using h
      rw [List.filter_cons, if_pos hy]
      simp
    · have hne : (k == k') = false := by simpa using hk
      rw [List.lookup_cons, hne] at h
      rw [List.filter_cons, List.lookup_cons, hne]
      split_ifs
      · rw [List.map_cons, List.lookup_cons, hne]
        exact ih h
      · exact ih h

/-- What is stored of a field. -/
theorem get_stored (hp : p.isArray = true) (hfield : p.get field ≠ .bool false) :
    (stored p).get field = .null ∧ p.get field = .null ∨
      (stored p).get field = asStored (p.get field) := by
  cases p with
  | arr es =>
    have hne : es.lookup (.str field) ≠ some (.bool false) := by
      intro h
      exact hfield (by rw [Val.get, Val.idx_arr, h]; rfl)
    have hstored : (stored (.arr es)).get field =
        (((es.filter fun e => e.2 != .bool false).map fun e => (e.1, asStored e.2)).lookup
          (.str field)).getD .null := rfl
    rw [hstored, lookup_stored hne, Val.get, Val.idx_arr]
    cases es.lookup (.str field) with
    | none => exact .inl ⟨rfl, rfl⟩
    | some x => exact .inr rfl
  | _ => cases hp

/-- A text is stored as it is. -/
theorem toStr_get_stored (hp : p.isArray = true)
    (hfield : p.get field = .null ∨ ∃ s, p.get field = .str s) :
    ((stored p).get field).toStr = (p.get field).toStr := by
  have hne : p.get field ≠ .bool false := by
    rcases hfield with h | ⟨s, h⟩
    · rw [h]
      simp
    · rw [h]
      simp
  rcases get_stored hp hne with ⟨hs, hn⟩ | hs
  · rw [hs, hn]
  · rw [hs]
    rcases hfield with h | ⟨s, h⟩
    · rw [h]
      rfl
    · rw [h]
      rfl

/-- A text is stored as it is. -/
theorem get_stored_str (hp : p.isArray = true) {s : String} (hfield : p.get field = .str s) :
    (stored p).get field = .str s := by
  have hne : p.get field ≠ .bool false := by
    rw [hfield]
    simp
  rcases get_stored hp hne with ⟨-, hn⟩ | hs
  · rw [hfield] at hn
    cases hn
  · rw [hs, hfield]
    rfl

end Stored

/-! ## New ports -/

section Ports

variable {md5 gettext : String → String} {config p : Val} {u : String}

/-- The fields a new port gets. -/
def portDefaults : List String :=
  ["uniqid", "echo-taps", "rxgain", "txgain", "name", "startsignaling", "signaling", "unused"]

/-- The other fields stay. -/
theorem get_withDefaults (hp : p.isArray = true) {field : String} (hfield : field ∉ portDefaults) :
    (withDefaults gettext u p).get field = p.get field := by
  simp only [portDefaults, List.mem_cons, List.not_mem_nil, or_false, not_or] at hfield
  obtain ⟨h₁, h₂, h₃, h₄, h₅, h₆, h₇, h₈⟩ := hfield
  unfold withDefaults
  dsimp only
  split_ifs <;>
    simp only [get_set_of_ne, isArray_set, hp, ne_eq, h₁, h₂, h₃, h₄, h₅, h₆, h₇, h₈,
      not_false_eq_true]

/-- The defaults come with the id. -/
theorem uniqid_withDefaults (hp : p.isArray = true) :
    (withDefaults gettext u p).get "uniqid" = .str u := by
  unfold withDefaults
  dsimp only
  split_ifs <;>
    simp only [get_set_of_ne, get_set_self, isArray_set, hp, ne_eq, String.reduceEq,
      not_false_eq_true]

/-- The entry of a new port. -/
def portEntry (md5 gettext : String → String) (p : Val) : Val :=
  stored (withDefaults gettext (portUniqid md5 p) p)

/-- The id of a port is made from the port. -/
theorem uniqid_portEntry (hp : Physical p) :
    (portEntry md5 gettext p).get "uniqid" = .str (portUniqid md5 p) :=
  get_stored_str rfl (uniqid_withDefaults hp.isArray)

/-- An entry says what the port is. -/
theorem describe_portEntry (hp : Physical p) : describe (portEntry md5 gettext p) = describe p := by
  have hfield : ∀ field, field ∉ portDefaults → (p.get field = .null ∨ ∃ s, p.get field = .str s) →
      ((portEntry md5 gettext p).get field).toStr = (p.get field).toStr := by
    intro field hfield hp'
    have hget := @get_withDefaults gettext p (portUniqid md5 p) hp.isArray field hfield
    rw [portEntry, toStr_get_stored rfl (by rwa [hget]), hget]
  have htechnology : p.get "technology" = .null ∨ ∃ s, p.get "technology" = .str s :=
    .inr (hp.technology.elim (fun h => ⟨_, h⟩) fun h => ⟨_, h⟩)
  unfold describe
  rw [hfield "technology" (by decide) htechnology, hfield "location" (by decide) hp.location,
    hfield "basechannel" (by decide) hp.basechannel, hfield "type" (by decide) (.inr hp.type)]

/-- It tells what it is the id of. -/
theorem start_portUniqid (p : Val) : "DAHDIPORT-".toList <+: (portUniqid md5 p).toList := by
  unfold portUniqid
  rw [String.toList_append, String.toList_append, String.toList_append, List.append_assoc,
    List.append_assoc]
  exact List.prefix_append _ _

/-- A port is added unless its name is stored already. -/
theorem configurePort_cases (h : Named config) (hp : Physical p) :
    (∃ e ∈ elements config .dahdiPort, e.get "uniqid" = .str (portUniqid md5 p) ∧
      configurePort md5 gettext (indexed config) p = indexed config) ∨
    ((∀ e ∈ elements config .dahdiPort, e.get "uniqid" ≠ .str (portUniqid md5 p)) ∧
      ∃ config', configurePort md5 gettext (indexed config) p = indexed config' ∧ Named config' ∧
        elements config' .dahdiPort = elements config .dahdiPort ++ [portEntry md5 gettext p] ∧
        ∀ k, k ≠ .dahdiPort → elements config' k = elements config k) := by
  have hstart : Starts .dahdiPort "DAHDIPORT-" := .inl rfl
  have hprefix := @start_portUniqid md5 p
  have hne := ne_of_start hstart hprefix
  -- a port that is stored is left as it is, with its settings
  by_cases hfound : ∃ e ∈ elements config .dahdiPort, e.get "uniqid" = .str (portUniqid md5 p)
  · left
    obtain ⟨e, he, hu⟩ := hfound
    refine ⟨e, he, hu, ?_⟩
    rw [configurePort, getElement_of_mem h.wellFormed he hu, if_pos (truthy_of_uniqid hu hne)]
  · right
    have hnone : ∀ e ∈ elements config .dahdiPort, e.get "uniqid" ≠ .str (portUniqid md5 p) :=
      fun e he hu => hfound ⟨e, he, hu⟩
    -- the prefix of the name keeps it out of every other list
    have hown : ∀ k', ∀ e ∈ elements config k', e.get "uniqid" = .str (portUniqid md5 p) →
        k' = .dahdiPort := fun k' e he hu => h.own (by decide) hstart hprefix he hu
    have hall : ∀ k', ∀ e ∈ elements config k', e.get "uniqid" ≠ .str (portUniqid md5 p) := by
      intro k' e he hu
      obtain rfl := hown k' e he hu
      exact hnone e he hu
    have hentry := @uniqid_portEntry md5 gettext p hp
    refine ⟨hnone, saveElement .dahdiPort (portEntry md5 gettext p) (indexed config), ?_, ?_, ?_⟩
    · rw [configurePort, getElement_of_not_mem h.wellFormed hall hne.1, if_neg (by simp)]
      rfl
    · exact named_saveElement h (by decide) hstart hprefix hentry
    · rcases saveElement_cases h.wellFormed hentry hne hown with ⟨i, hi, hu, -⟩ | ⟨-, hsave⟩
      · exact absurd hu (hnone _ (List.getElem_mem hi))
      · rw [hsave]
        exact ⟨elements_setList _ _ _, fun k hk => elements_setList_of_ne hk _⟩

/-- What the loop over the ports leaves: the names stay, and every stored port was there before or is
one of the new ones. -/
theorem configurePorts_spec (h : Named config) {ps : List Val} (hps : ∀ p ∈ ps, Physical p) :
    ∃ config', ps.foldl (configurePort md5 gettext) (indexed config) = indexed config' ∧ Named config' ∧
      (∃ added, elements config' .dahdiPort =
        elements config .dahdiPort ++ added.map (portEntry md5 gettext) ∧ added ⊆ ps) ∧
      (∀ k, k ≠ .dahdiPort → elements config' k = elements config k) ∧
      ∀ p ∈ ps, ∃ e ∈ elements config' .dahdiPort, e.get "uniqid" = .str (portUniqid md5 p) := by
  -- the list only grows at its end, so what one port has stored is there after the others
  induction ps generalizing config with
  | nil =>
    refine ⟨config, rfl, h, ⟨[], by simp, by simp⟩, fun _ _ => rfl, ?_⟩
    intro p hp
    cases hp
  | cons p r ih =>
    have hp := hps p List.mem_cons_self
    have hr : ∀ p ∈ r, Physical p := fun q hq => hps q (List.mem_cons_of_mem _ hq)
    rw [List.foldl_cons]
    rcases @configurePort_cases md5 gettext config p h hp with ⟨e, he, hu, hstep⟩ |
      ⟨-, config₁, hstep, h₁, hports, hothers⟩
    · rw [hstep]
      obtain ⟨config', hrun, h', ⟨added, hadded, hsub⟩, hother, hall⟩ := ih h hr
      refine ⟨config', hrun, h', ⟨added, hadded, List.subset_cons_of_subset _ hsub⟩, hother, ?_⟩
      intro q hq
      rcases List.mem_cons.1 hq with rfl | hq
      · refine ⟨e, ?_, hu⟩
        rw [hadded]
        exact List.mem_append_left _ he
      · exact hall q hq
    · rw [hstep]
      obtain ⟨config', hrun, h', ⟨added, hadded, hsub⟩, hother, hall⟩ := ih h₁ hr
      rw [hports] at hadded
      refine ⟨config', hrun, h', ⟨p :: added, ?_, ?_⟩, ?_, ?_⟩
      · rw [hadded, List.append_assoc]
        rfl
      · exact List.cons_subset_cons p hsub
      · intro k hk
        rw [hother k hk, hothers k hk]
      · intro q hq
        rcases List.mem_cons.1 hq with rfl | hq
        · refine ⟨portEntry md5 gettext q, ?_, uniqid_portEntry hp⟩
          rw [hadded]
          simp
        · exact hall q hq

/-- New ports with different names are all added, in order. -/
theorem configurePorts_of_nodup (h : Named config) {ps : List Val} (hps : ∀ p ∈ ps, Physical p)
    (hnodup : (ps.map (portUniqid md5)).Nodup)
    (hnew : ∀ p ∈ ps, ∀ e ∈ elements config .dahdiPort, e.get "uniqid" ≠ .str (portUniqid md5 p)) :
    elements (ps.foldl (configurePort md5 gettext) (indexed config)).config .dahdiPort =
      elements config .dahdiPort ++ ps.map (portEntry md5 gettext) := by
  induction ps generalizing config with
  | nil => simp [indexed]
  | cons p r ih =>
    have hp := hps p List.mem_cons_self
    rw [List.map_cons, List.nodup_cons] at hnodup
    rw [List.foldl_cons]
    rcases @configurePort_cases md5 gettext config p h hp with ⟨e, he, hu, -⟩ |
      ⟨-, config₁, hstep, h₁, hports, -⟩
    · exact absurd hu (hnew p List.mem_cons_self e he)
    · rw [hstep, ih h₁ (fun q hq => hps q (List.mem_cons_of_mem _ hq)) hnodup.2, hports, List.append_assoc]
      · rfl
      · intro q hq e he hu
        rw [hports] at he
        rcases List.mem_append.1 he with he | he
        · exact hnew q (List.mem_cons_of_mem _ hq) e he hu
        · obtain rfl := List.mem_singleton.1 he
          rw [uniqid_portEntry hp] at hu
          exact hnodup.1 (Val.str.inj hu ▸ List.mem_map_of_mem hq)

end Ports

/-! ## New groups -/

section Groups

variable {gettext : String → String} {config : Val} {providerType : String × String}

/-- The loop over the provider types makes a group of the ports of one. -/
def makesGroup (g : Globals) (providerType : String × String) : Bool :=
  !(getElement g .dahdiPortgroup "").truthy &&
    decide (1 < (dahdiGetPortsOf providerType.1 providerType.2 g).length)

/-- The entry of the group of all provider ports of a type. -/
def groupEntry (gettext : String → String) (g : Globals) (providerType : String × String) : Val :=
  stored (allProviders gettext providerType.1 (dahdiGetPortsOf providerType.1 providerType.2 g) g)

/-- A group is saved where there is none yet for its type. -/
theorem configureGroup_eq (g : Globals) :
    configureGroup gettext g providerType =
      if makesGroup g providerType then
        indexed (saveElement .dahdiPortgroup (groupEntry gettext g providerType) g)
      else g := by
  unfold configureGroup makesGroup
  cases (getElement g .dahdiPortgroup "").truthy with
  | true => rfl
  | false =>
    dsimp only
    by_cases h : 1 < (dahdiGetPortsOf providerType.1 providerType.2 g).length
    · rw [if_neg (by simp), if_pos h, if_pos (by simp [h])]
      rfl
    · rw [if_neg (by simp), if_neg h, if_neg (by simp [h])]

/-- The id of a group is made from its technology. -/
theorem uniqid_groupEntry (g : Globals) :
    (groupEntry gettext g providerType).get "uniqid" = .str (magicUniqid providerType.1) := by
  apply get_stored_str
  · unfold allProviders
    rw [isArray_set]
  · unfold allProviders
    dsimp only
    rw [get_set_of_ne (isArray_set _ _ _) (by decide), get_set_of_ne (isArray_set _ _ _) (by decide),
      get_set_self]

/-- It tells what it is the id of. -/
theorem start_magicUniqid (technology : String) :
    "DAHDIPORTGROUP-".toList <+: (magicUniqid technology).toList := by
  unfold magicUniqid
  rw [String.toList_append, String.toList_append, List.append_assoc]
  exact List.prefix_append _ _

/-- Making a group keeps the names and all but the groups. -/
theorem configureGroup_spec (h : Named config) :
    ∃ config', configureGroup gettext (indexed config) providerType = indexed config' ∧ Named config' ∧
      ∀ k, k ≠ .dahdiPortgroup → elements config' k = elements config k := by
  have hstart : Starts .dahdiPortgroup "DAHDIPORTGROUP-" := .inl rfl
  have hprefix := start_magicUniqid providerType.1
  have hentry := @uniqid_groupEntry gettext providerType (indexed config)
  rw [configureGroup_eq]
  split_ifs
  · refine ⟨_, rfl, named_saveElement h (by decide) hstart hprefix hentry, ?_⟩
    intro k hk
    rcases saveElement_cases h.wellFormed hentry (ne_of_start hstart hprefix)
      (fun k' e he hu => h.own (by decide) hstart hprefix he hu) with ⟨i, hi, -, hsave⟩ | ⟨-, hsave⟩
    · rw [hsave, elements_setList_of_ne hk]
    · rw [hsave, elements_setList_of_ne hk]
  · exact ⟨config, rfl, h, fun _ _ => rfl⟩

/-- Making the groups changes no list but theirs. -/
theorem configureGroups_spec (h : Named config) (types : List (String × String)) :
    ∃ config', types.foldl (configureGroup gettext) (indexed config) = indexed config' ∧ Named config' ∧
      ∀ k, k ≠ .dahdiPortgroup → elements config' k = elements config k := by
  induction types generalizing config with
  | nil => exact ⟨config, rfl, h, fun _ _ => rfl⟩
  | cons t r ih =>
    obtain ⟨config₁, hstep, h₁, hother₁⟩ := @configureGroup_spec gettext config t h
    obtain ⟨config', hrun, h', hother⟩ := ih h₁
    refine ⟨config', ?_, h', fun k hk => (hother k hk).trans (hother₁ k hk)⟩
    rw [List.foldl_cons, hstep, hrun]

end Groups

/-! ## One entry for each port -/

section Entries

variable {md5 gettext : String → String} {config : Val} {out : List String}

/-- The stored ports are the usable ports of the output, once each. -/
def OneEntryEach (config : Val) (out : List String) : Prop :=
  ((elements config .dahdiPort).map describe).Perm (usable out)

/-- Names of ports are equal when what is hashed is. -/
theorem portUniqid_eq_iff (hmd5 : Function.Injective md5) {p q : Val} (hp : Physical p)
    (hq : Physical q) :
    portUniqid md5 p = portUniqid md5 q ↔
      ((describe p).technology, (describe p).location ++ (describe p).basechannel) =
        ((describe q).technology, (describe q).location ++ (describe q).basechannel) := by
  -- the two technologies differ before the hash, and within one the hash decides
  have hnames : ∀ s t : String, "DAHDIPORT-" ++ strtoupper "analog" ++ "-" ++ s ≠
      "DAHDIPORT-" ++ strtoupper "isdn" ++ "-" ++ t := by
    intro s t h
    have hlist := congrArg String.toList h
    rw [show "DAHDIPORT-" ++ strtoupper "analog" ++ "-" = "DAHDIPORT-ANALOG-" by decide,
      show "DAHDIPORT-" ++ strtoupper "isdn" ++ "-" = "DAHDIPORT-ISDN-" by decide,
      String.toList_append, String.toList_append] at hlist
    cases hlist
  have hsame : ∀ t x y : String, "DAHDIPORT-" ++ strtoupper t ++ "-" ++ md5 x =
      "DAHDIPORT-" ++ strtoupper t ++ "-" ++ md5 y ↔ x = y := by
    intro t x y
    constructor
    · intro h
      have hlist := congrArg String.toList h
      rw [@String.toList_append _ (md5 x), @String.toList_append _ (md5 y),
        List.append_cancel_left_eq] at hlist
      exact hmd5 (String.toList_inj.1 hlist)
    · rintro rfl
      rfl
  unfold portUniqid describe
  dsimp only
  rw [Prod.mk.injEq]
  rcases hp.technology with htp | htp <;> rcases hq.technology with htq | htq <;> rw [htp, htq]
  · rw [hsame]
    simp
  · refine iff_of_false (hnames _ _) ?_
    rintro ⟨h, -⟩
    exact absurd h (by decide)
  · refine iff_of_false (fun h => hnames _ _ h.symm) ?_
    rintro ⟨h, -⟩
    exact absurd h (by decide)
  · rw [hsame]
    simp

/-- From a configuration without ports, every usable port gets exactly one entry of its own when no
two of a technology have the same location and base channel, written one after the other. -/
theorem ports_once_iff (hmd5 : Function.Injective md5) (h : Named config)
    (hnone : elements config .dahdiPort = []) (out : List String) :
    OneEntryEach (dahdiAutoconfigurePorts md5 gettext out (indexed config)).config out ↔
      ((usable out).map fun p => (p.technology, p.location ++ p.basechannel)).Nodup := by
  have hps : ∀ p ∈ dahdiGetPhysicalPorts out, Physical p := fun p hp => physical_of_mem hp
  obtain ⟨config₁, hrun, h₁, ⟨added, hadded, hsub⟩, -, hall⟩ :=
    @configurePorts_spec md5 gettext config h _ hps
  obtain ⟨config₂, hrun₂, -, hother⟩ := @configureGroups_spec gettext config₁ h₁ providerPortTypes
  have hports : elements (dahdiAutoconfigurePorts md5 gettext out (indexed config)).config .dahdiPort =
      elements config₁ .dahdiPort := by
    unfold dahdiAutoconfigurePorts
    rw [hrun, hrun₂]
    exact hother .dahdiPort (by decide)
  -- distinct descriptions are distinct names
  have hnames : ((usable out).map fun p => (p.technology, p.location ++ p.basechannel)).Nodup ↔
      ((dahdiGetPhysicalPorts out).map (portUniqid md5)).Nodup := by
    rw [← usable_eq, List.map_map]
    unfold List.Nodup
    rw [List.pairwise_map, List.pairwise_map]
    constructor
    · intro hpair
      refine hpair.imp_of_mem fun {p q} hp hq hne heq => hne ?_
      exact (portUniqid_eq_iff hmd5 (hps p hp) (hps q hq)).1 heq
    · intro hpair
      refine hpair.imp_of_mem fun {p q} hp hq hne heq => hne ?_
      exact (portUniqid_eq_iff hmd5 (hps p hp) (hps q hq)).2 heq
  unfold OneEntryEach
  rw [hports, hnames, ← usable_eq]
  constructor
  · -- the names that are stored are distinct, and there are as many as ports
    intro hperm
    rw [hnone, List.nil_append] at hadded
    have hlength : added.length = (dahdiGetPhysicalPorts out).length := by
      have hle := hperm.length_eq
      rw [hadded] at hle
      simpa using hle
    have hadded_nodup : (added.map (portUniqid md5)).Nodup := by
      have hdistinct := (List.nodup_flatMap.1 h₁.wellFormed.distinct).1 .dahdiPort
        (Kind.mem_all _)
      rw [hadded, List.map_map] at hdistinct
      have hmap : added.map ((fun e : Val => e.get "uniqid") ∘ portEntry md5 gettext) =
          (added.map (portUniqid md5)).map Val.str := by
        rw [List.map_map]
        apply List.map_congr_left
        intro p hp
        exact uniqid_portEntry (hps p (hsub hp))
      rw [hmap] at hdistinct
      exact hdistinct.of_map _
    have hsubperm : (added.map (portUniqid md5)).Subperm
        ((dahdiGetPhysicalPorts out).map (portUniqid md5)) :=
      List.subperm_of_subset hadded_nodup (List.map_subset _ hsub)
    have hperm' := hsubperm.perm_of_length_le (by rw [List.length_map, List.length_map, hlength])
    exact hperm'.nodup_iff.1 hadded_nodup
  · intro hnodup
    have heq := @configurePorts_of_nodup md5 gettext config h _ hps hnodup (by simp [hnone])
    rw [hrun] at heq
    have hmap : (elements config₁ .dahdiPort).map describe =
        (dahdiGetPhysicalPorts out).map describe := by
      rw [show elements config₁ .dahdiPort = _ from heq, hnone, List.nil_append, List.map_map]
      apply List.map_congr_left
      intro p hp
      exact describe_portEntry (hps p hp)
    rw [hmap]

end Entries

/-- In an empty configuration all names are as they have to be. -/
theorem named_noPhones : Named noPhones := by
  have hempty : ∀ k ∈ Kind.all, elements noPhones k = [] := by decide
  refine ⟨wellFormed_of_all (by decide) (by decide) (by decide), ?_⟩
  intro k e he
  rw [hempty k k.mem_all] at he
  cases he

/-- A hash with the value `md5` has for one text; the others keep apart. -/
def hashOf (text hash s : String) : String := if s = text then hash else "-" ++ s

/-- A hash that is not a negative number keeps ports apart. -/
theorem hashOf_injective {text hash : String} (h : hash.toList.head? ≠ some '-') :
    Function.Injective (hashOf text hash) := by
  have hne : ∀ s, "-" ++ s ≠ hash := by
    rintro s rfl
    exact h (by rw [String.toList_append]; rfl)
  intro a b hab
  unfold hashOf at hab
  split_ifs at hab with ha hb hb
  · rw [ha, hb]
  · exact absurd hab.symm (hne b)
  · exact absurd hab (hne a)
  · have hlist := congrArg String.toList hab
    rw [String.toList_append, String.toList_append, List.append_cancel_left_eq] at hlist
    exact String.toList_inj.1 hlist

/-- A card with one module. -/
def oneModule : List String :=
  ["[1]", "type=analog", "location=PCI Bus 00 Slot 1", "port=1,FXO", "port=2,none"]

/-- The module gets an entry. -/
theorem ports_once_oneModule :
    OneEntryEach (dahdiAutoconfigurePorts
      (hashOf "PCI Bus 00 Slot 11" "17c3e1b34dde08e12c6a7c3148575c4c") id oneModule
      (indexed noPhones)).config oneModule :=
  (ports_once_iff (hashOf_injective (by decide)) named_noPhones (by decide) oneModule).2
    (by decide)

/-- Channel 2 of the card in slot 11 and channel 12 of the card in slot 1. -/
def twoSlots : List String :=
  ["[1]", "type=analog", "location=PCI Bus 00 Slot 11", "port=1,none", "port=2,FXO",
    "[2]", "type=analog", "location=PCI Bus 00 Slot 1", "port=11,none", "port=12,FXO"]

/-- Different ports whose location and base channel make one text share an entry. -/
theorem not_ports_once_twoSlots :
    ¬ ∀ (md5 gettext : String → String) (config : Val) (out : List String),
      Function.Injective md5 → Named config → elements config .dahdiPort = [] →
      ((usable out).map fun p => (p.technology, p.location, p.basechannel)).Nodup →
      OneEntryEach (dahdiAutoconfigurePorts md5 gettext out (indexed config)).config out := by
  intro h
  -- slot 11 with channel 2 and slot 1 with channel 12 give one name
  have hone := h (hashOf "PCI Bus 00 Slot 112" "f9939596a7d082272221940349abec82") id noPhones twoSlots
    (hashOf_injective (by decide)) named_noPhones (by decide) (by decide)
  have hlength := hone.length_eq
  rw [List.length_map] at hlength
  revert hlength
  decide +kernel

end Dahdi
end Askozia
