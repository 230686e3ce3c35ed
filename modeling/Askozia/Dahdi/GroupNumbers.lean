import Askozia.Dahdi.Autoconfigure
import Askozia.Pbx.Delete

/-!
# Numbers of port groups

`chan_dahdi.conf` knows 64 groups. Every port is in the group of its base channel, and every port
group has a number of its own, which is taken from those that are free when the group is made. A
port that is found later may have the same number.

* `numbers_distinct`: in every run in which that does not happen, and in which there is a free number
  whenever a group is made, the numbers stay apart.
-/

namespace Askozia
namespace Dahdi

open Php Config Pbx

/-! ## Runs -/

/-- An element is unset and the configuration is written, which closes the gap. -/
def forgetElement (k : Kind) (uniqid : String) (config : Val) : Val :=
  if (listOf config k).isArray then
    let config := unsetElement k uniqid (indexed config)
    setList config k (.ofList (elements config k))
  else config

/-- What is done to ports and groups. -/
inductive Change where
  /-- `dahdi_autoconfigure_ports()`, for an output of `dahdi_scan` -/
  | scan (out : List String)
  /-- `dahdi_generate_default_portgroup($technology)`, in a form -/
  | form (technology id : String)
  /-- `dahdi_save_portgroup($group)`, of a form -/
  | save (group : Val)
  /-- `dahdi_delete_portgroup($uniqid)` -/
  | deletePortgroup (uniqid : String)
  /-- `dahdi_forget_port($uniqid)` -/
  | forgetPort (uniqid : String)

/-- The configuration, and the groups in the forms that have been opened. -/
structure Groups where
  config : Val
  forms : List Val

section Runs

variable (md5 gettext : String → String)

/-- The effect of a change. A form shows no group when there is no free number. -/
def Change.apply (s : Groups) : Change → Groups
  | scan out => { s with config := (dahdiAutoconfigurePorts md5 gettext out (indexed s.config)).config }
  | form technology id =>
    { s with
      forms := s.forms ++ [dahdiGenerateDefaultPortgroup gettext technology id (indexed s.config)].filter
        Val.isArray }
  | save group => { s with config := (dahdiSavePortgroup group (indexed s.config)).config }
  | deletePortgroup uniqid => { s with config := forgetElement .dahdiPortgroup uniqid s.config }
  | forgetPort uniqid => { s with config := forgetElement .dahdiPort uniqid s.config }

/-- Only groups of forms are saved. -/
def Change.Allowed (s : Groups) : Change → Prop
  | save group => group ∈ s.forms
  | _ => True

/-- Runs whose changes all meet a condition. -/
inductive Runs (meets : Change → Val → Prop) (start : Val) : Groups → Prop
  | start : Runs meets start { config := start, forms := [] }
  | step {s : Groups} {change : Change} : Runs meets start s → change.Allowed s →
      meets change s.config → Runs meets start (change.apply md5 gettext s)

/-! ## Numbers that are apart -/

/-- Every group has a number from 0 to 63, different groups have different ones, and none is the base
channel of a port. -/
structure NumbersApart (config : Val) : Prop where
  inRange : ∀ group ∈ elements config .dahdiPortgroup, ∃ n : ℕ, n < 64 ∧
    group.get "number" = .str (toString (n : ℤ))
  distinct : ∀ group ∈ elements config .dahdiPortgroup, ∀ group' ∈ elements config .dahdiPortgroup,
    (group.get "number").toStr = (group'.get "number").toStr → group.get "uniqid" = group'.get "uniqid"
  apart : ∀ group ∈ elements config .dahdiPortgroup, ∀ port ∈ elements config .dahdiPort,
    (group.get "number").toStr ≠ (port.get "basechannel").toStr

/-- Every port that is new has a base channel that is no group's number. -/
def PortsMeet : List Val → Val → Prop
  | [], _ => True
  | p :: r, config =>
    ((getElement (indexed config) .dahdiPort (portUniqid md5 p)).truthy = false →
      ∀ group ∈ elements config .dahdiPortgroup,
        (group.get "number").toStr ≠ (p.get "basechannel").toStr) ∧
    PortsMeet r (configurePort md5 gettext (indexed config) p).config

/-- Every group of all provider ports that is made finds a free number. -/
def GroupsMeet : List (String × String) → Val → Prop
  | [], _ => True
  | t :: r, config =>
    (makesGroup (indexed config) t = true → dahdiGetFreePortgroupNumber (indexed config) ≠ none) ∧
    GroupsMeet r (configureGroup gettext (indexed config) t).config

/-- The number of a group in a form is still free when the form is saved. -/
def SaveMeets (group config : Val) : Prop :=
  (∀ group' ∈ elements config .dahdiPortgroup, group'.get "uniqid" ≠ group.get "uniqid" →
    (group'.get "number").toStr ≠ (group.get "number").toStr) ∧
  ∀ port ∈ elements config .dahdiPort, (port.get "basechannel").toStr ≠ (group.get "number").toStr

/-- The condition on a change, in the state before it. -/
def Change.Meets (config : Val) : Change → Prop
  | scan out =>
    PortsMeet md5 gettext (dahdiGetPhysicalPorts out) config ∧
      GroupsMeet gettext providerPortTypes
        ((dahdiGetPhysicalPorts out).foldl (configurePort md5 gettext) (indexed config)).config
  | save group => SaveMeets group config
  | _ => True

end Runs

/-! ## Free numbers -/

section Numbers

variable {gettext : String → String} {g : Globals} {n : ℕ}

theorem key_number (hn : n < 64) : (Val.str (toString (n : ℤ))).key = .int n := by
  have hall : ∀ n : ℕ, n < 64 → (Val.str (toString (n : ℤ))).key = .int n := by decide
  exact hall n hn

/-- A number that is handed out is not in use. -/
theorem free_spec (h : dahdiGetFreePortgroupNumber g = some n) :
    n < 64 ∧ (∀ group ∈ dahdiGetPortgroups g, group.get "number" ≠ .str (toString (n : ℤ))) ∧
      ∀ port ∈ dahdiGetPorts g, port.get "basechannel" ≠ .str (toString (n : ℤ)) := by
  have hlt : n < 64 := by
    have hmem := List.mem_of_find?_eq_some h
    simpa using hmem
  have hused : Key.int n ∉ usedGroups g := by
    have hfree := List.find?_some h
    simpa using hfree
  rw [usedGroups, List.mem_append, not_or] at hused
  refine ⟨hlt, ?_, ?_⟩
  · intro group hgroup heq
    apply hused.2
    refine List.mem_map.2 ⟨group, hgroup, ?_⟩
    rw [heq, key_number hlt]
  · intro port hport heq
    apply hused.1
    refine List.mem_map.2 ⟨port, hport, ?_⟩
    rw [heq, key_number hlt]

/-- A generated group has the free number. -/
theorem generate_spec (h : dahdiGetFreePortgroupNumber g = some n) (technology id : String) :
    (dahdiGenerateDefaultPortgroup gettext technology id g).isArray = true ∧
      (dahdiGenerateDefaultPortgroup gettext technology id g).get "number" = .int n ∧
      (dahdiGenerateDefaultPortgroup gettext technology id g).get "uniqid" =
        .str ("DAHDIPORTGROUP-" ++ strtoupper technology ++ "-" ++ id) := by
  unfold dahdiGenerateDefaultPortgroup
  rw [h]
  dsimp only
  refine ⟨isArray_set _ _ _, ?_, get_set_self _ _ _⟩
  split_ifs
  · rw [get_set_of_ne (isArray_set _ _ _) (by decide), get_set_of_ne rfl (by decide)]
    rfl
  · rw [get_set_of_ne (isArray_set _ _ _) (by decide), get_set_of_ne rfl (by decide)]
    rfl
  · rw [get_set_of_ne rfl (by decide)]
    rfl

theorem generate_none (h : dahdiGetFreePortgroupNumber g = none) (technology id : String) :
    dahdiGenerateDefaultPortgroup gettext technology id g = .bool false := by
  unfold dahdiGenerateDefaultPortgroup
  rw [h]

theorem number_stored {group : Val} (harr : group.isArray = true) (h : group.get "number" = .int n) :
    (stored group).get "number" = .str (toString (n : ℤ)) := by
  have hne : group.get "number" ≠ .bool false := by
    rw [h]
    simp
  rcases get_stored harr hne with ⟨-, hnull⟩ | hs
  · rw [h] at hnull
    cases hnull
  · rw [hs, h]
    rfl

theorem number_groupEntry (h : dahdiGetFreePortgroupNumber g = some n) (t : String × String) :
    (groupEntry gettext g t).get "number" = .str (toString (n : ℤ)) := by
  obtain ⟨harr, hnumber, -⟩ := @generate_spec gettext g n h t.1 ""
  apply number_stored
  · unfold allProviders
    exact isArray_set _ _ _
  · unfold allProviders
    dsimp only
    rw [get_set_of_ne (isArray_set _ _ _) (by decide), get_set_of_ne (isArray_set _ _ _) (by decide),
      get_set_of_ne harr (by decide), hnumber]

end Numbers

/-! ## Every change keeps the numbers apart -/

/-- What is known of a configuration in a run. -/
structure Sound (config : Val) : Prop extends Named config, NumbersApart config where
  texts : ∀ port ∈ elements config .dahdiPort,
    port.get "basechannel" = .null ∨ ∃ s, port.get "basechannel" = .str s

section Steps

variable {md5 gettext : String → String} {config : Val}

/-- A new port with a base channel that is no group's number. -/
theorem sound_configurePort (h : Sound config) {p : Val} (hp : Physical p)
    (hmeets : (getElement (indexed config) .dahdiPort (portUniqid md5 p)).truthy = false →
      ∀ group ∈ elements config .dahdiPortgroup,
        (group.get "number").toStr ≠ (p.get "basechannel").toStr) :
    Sound (configurePort md5 gettext (indexed config) p).config := by
  rcases @configurePort_cases md5 gettext config p h.toNamed hp with ⟨e, he, hu, hstep⟩ |
    ⟨hnone, config', hstep, h', hports, hothers⟩
  · rw [hstep]
    exact h
  · -- a port that is added was not found, and so the condition speaks of it
    have hnew : (getElement (indexed config) .dahdiPort (portUniqid md5 p)).truthy = false := by
      have hstart : Starts .dahdiPort "DAHDIPORT-" := .inl rfl
      apply getElement_of_not_mem h.wellFormed _ (ne_of_start hstart (start_portUniqid p)).1
      intro k e he hu
      obtain rfl := h.own (by decide) hstart (start_portUniqid p) he hu
      exact hnone e he hu
    have hgroups := hothers .dahdiPortgroup (by decide)
    have hget := @get_withDefaults gettext p (portUniqid md5 p) hp.isArray "basechannel" (by decide)
    have hbasechannel : ((portEntry md5 gettext p).get "basechannel").toStr =
        (p.get "basechannel").toStr := by
      rw [portEntry, toStr_get_stored rfl (by rw [hget]; exact hp.basechannel), hget]
    -- its base channel is stored as it was reported, an empty one as an empty text
    have htext : (portEntry md5 gettext p).get "basechannel" = .null ∨
        ∃ s, (portEntry md5 gettext p).get "basechannel" = .str s := by
      have hne : (withDefaults gettext (portUniqid md5 p) p).get "basechannel" ≠ .bool false := by
        rw [hget]
        rcases hp.basechannel with hb | ⟨s, hb⟩
        · simp [hb]
        · simp [hb]
      rcases get_stored rfl hne with ⟨hs, -⟩ | hs
      · exact .inl hs
      · rw [hget] at hs
        rcases hp.basechannel with hb | ⟨s, hb⟩
        · exact .inr ⟨"", by rw [portEntry, hs, hb]; rfl⟩
        · exact .inr ⟨s, by rw [portEntry, hs, hb]; rfl⟩
    rw [hstep]
    show Sound config'
    refine ⟨h', ⟨?_, ?_, ?_⟩, ?_⟩
    · rw [hgroups]
      exact h.inRange
    · rw [hgroups]
      exact h.distinct
    · rw [hgroups, hports]
      intro group hgroup port hport
      rcases List.mem_append.1 hport with hport | hport
      · exact h.apart group hgroup port hport
      · obtain rfl := List.mem_singleton.1 hport
        rw [hbasechannel]
        exact hmeets hnew group hgroup
    · rw [hports]
      intro port hport
      rcases List.mem_append.1 hport with hport | hport
      · exact h.texts port hport
      · obtain rfl := List.mem_singleton.1 hport
        exact htext

theorem sound_configurePorts {ps : List Val} (hps : ∀ p ∈ ps, Physical p) (h : Sound config)
    (hmeets : PortsMeet md5 gettext ps config) :
    Sound (ps.foldl (configurePort md5 gettext) (indexed config)).config := by
  induction ps generalizing config with
  | nil => exact h
  | cons p r ih =>
    have hp := hps p List.mem_cons_self
    have hstep := @sound_configurePort md5 gettext config h p hp hmeets.1
    have hindexed : configurePort md5 gettext (indexed config) p =
        indexed (configurePort md5 gettext (indexed config) p).config := by
      rcases @configurePort_cases md5 gettext config p h.toNamed hp with ⟨-, -, -, heq⟩ |
        ⟨-, config', heq, -⟩
      · rw [heq]
        rfl
      · rw [heq]
        rfl
    rw [List.foldl_cons, hindexed]
    exact ih (fun q hq => hps q (List.mem_cons_of_mem _ hq)) hstep hmeets.2

/-- Saving a group whose number is free. -/
theorem sound_saveGroup (h : Sound config) {group : Val} {u : String} {n : ℕ}
    (hu : group.get "uniqid" = .str u) (hstart : "DAHDIPORTGROUP-".toList <+: u.toList) (hn : n < 64)
    (hnumber : group.get "number" = .str (toString (n : ℤ)))
    (hgroups : ∀ group' ∈ elements config .dahdiPortgroup, group'.get "uniqid" ≠ .str u →
      (group'.get "number").toStr ≠ toString (n : ℤ))
    (hports : ∀ port ∈ elements config .dahdiPort,
      (port.get "basechannel").toStr ≠ toString (n : ℤ)) :
    Sound (saveElement .dahdiPortgroup group (indexed config)) := by
  have hkind : Starts .dahdiPortgroup "DAHDIPORTGROUP-" := .inl rfl
  have hne := ne_of_start hkind hstart
  have hown : ∀ k', ∀ e ∈ elements config k', e.get "uniqid" = .str u → k' = .dahdiPortgroup :=
    fun k' e he heu => h.own (by decide) hkind hstart he heu
  -- the groups are the one saved and those with another uniqid
  have hmem := fun k e => @mem_elements_saveElement config .dahdiPortgroup group u h.wellFormed hu hne
    hown k e
  have hport : ∀ port, port ∈ elements (saveElement .dahdiPortgroup group (indexed config)) .dahdiPort →
      port ∈ elements config .dahdiPort := by
    intro port hport
    rcases (hmem _ _).1 hport with ⟨hk, -⟩ | ⟨hport, -⟩
    · cases hk
    · exact hport
  have hstr : (group.get "number").toStr = toString (n : ℤ) := by
    rw [hnumber]
    rfl
  refine ⟨named_saveElement h.toNamed (by decide) hkind hstart hu, ⟨?_, ?_, ?_⟩, ?_⟩
  · intro e he
    rcases (hmem _ _).1 he with ⟨-, rfl⟩ | ⟨he, -⟩
    · exact ⟨n, hn, hnumber⟩
    · exact h.inRange e he
  · -- two groups: at most one of them is new
    intro e he e' he' heq
    rcases (hmem _ _).1 he with ⟨-, hself⟩ | ⟨hold, hother⟩
    · rcases (hmem _ _).1 he' with ⟨-, hself'⟩ | ⟨hold', hother'⟩
      · rw [hself, hself']
      · rw [hself, hstr] at heq
        exact absurd heq.symm (hgroups e' hold' hother')
    · rcases (hmem _ _).1 he' with ⟨-, hself'⟩ | ⟨hold', -⟩
      · rw [hself', hstr] at heq
        exact absurd heq (hgroups e hold hother)
      · exact h.distinct e hold e' hold' heq
  · intro e he port hp
    rcases (hmem _ _).1 he with ⟨-, rfl⟩ | ⟨he, -⟩
    · rw [hstr]
      exact Ne.symm (hports port (hport port hp))
    · exact h.apart e he port (hport port hp)
  · intro port hp
    exact h.texts port (hport port hp)

/-- A number that is free is free as a text. -/
theorem free_texts (h : Sound config) {n : ℕ}
    (hfree : dahdiGetFreePortgroupNumber (indexed config) = some n) :
    n < 64 ∧ (∀ group ∈ elements config .dahdiPortgroup, (group.get "number").toStr ≠ toString (n : ℤ)) ∧
      ∀ port ∈ elements config .dahdiPort, (port.get "basechannel").toStr ≠ toString (n : ℤ) := by
  obtain ⟨hn, hgroups, hports⟩ := free_spec hfree
  refine ⟨hn, ?_, ?_⟩
  · intro group hgroup heq
    obtain ⟨m, -, hm⟩ := h.inRange group hgroup
    apply hgroups group hgroup
    rw [hm] at heq ⊢
    exact congrArg Val.str heq
  · intro port hport heq
    rcases h.texts port hport with hnull | ⟨s, hs⟩
    · -- a number is not the empty text
      have hempty : ∀ n : ℕ, n < 64 → "" ≠ toString (n : ℤ) := by decide
      rw [hnull] at heq
      exact hempty n hn heq
    · apply hports port hport
      rw [hs] at heq ⊢
      exact congrArg Val.str heq

theorem sound_configureGroups {types : List (String × String)} (h : Sound config)
    (hmeets : GroupsMeet gettext types config) :
    Sound (types.foldl (configureGroup gettext) (indexed config)).config := by
  induction types generalizing config with
  | nil => exact h
  | cons t r ih =>
    obtain ⟨config', hstep, -, -⟩ := @configureGroup_spec gettext config t h.toNamed
    have hsound : Sound config' := by
      rw [configureGroup_eq] at hstep
      split_ifs at hstep with hmakes
      · cases hfree : dahdiGetFreePortgroupNumber (indexed config) with
        | none => exact absurd hfree (hmeets.1 hmakes)
        | some n =>
          obtain ⟨hn, hgroups, hports⟩ := free_texts h hfree
          have hconfig := congrArg Globals.config hstep
          rw [← show _ = config' from hconfig]
          exact sound_saveGroup h (uniqid_groupEntry _) (start_magicUniqid _) hn
            (number_groupEntry hfree t) (fun group hgroup _ => hgroups group hgroup) hports
      · have hconfig := congrArg Globals.config hstep
        rw [← show config = config' from hconfig]
        exact h
    have hrest : GroupsMeet gettext r config' := by
      have hrest := hmeets.2
      rw [hstep] at hrest
      exact hrest
    rw [List.foldl_cons, hstep]
    exact ih hsound hrest

/-- Forgetting an element takes some elements out of one list. -/
theorem forgetElement_cases (h : WellFormed config) (k : Kind) (u : String) :
    forgetElement k u config = config ∨
      ∃ xs, xs.Sublist (elements config k) ∧ forgetElement k u config = setList config k (.ofList xs) := by
  unfold forgetElement
  split_ifs with harr
  · right
    dsimp only
    have hlist : listOf config k = .ofList (elements config k) := by
      rcases h.lists k with hk | hk | hk
      · rw [hk] at harr
        cases harr
      · rw [hk] at harr
        cases harr
      · exact hk
    have hunset : unsetElement k u (indexed config) = setList config k ((listOf config k).unset
        ((configBuildUniqidMap config).idx (Val.str u).key).key) := by
      unfold unsetElement indexed
      dsimp only
      rw [if_pos harr]
    rw [hunset, setList_setList]
    refine ⟨_, ?_, rfl⟩
    rw [elements, listOf_setList_self]
    conv_rhs => rw [elements]
    rw [hlist]
    exact List.filter_sublist.map Prod.snd
  · exact .inl rfl

theorem mem_elements_forget (h : WellFormed config) {k k' : Kind} {u : String} {e : Val}
    (he : e ∈ elements (forgetElement k u config) k') : e ∈ elements config k' := by
  rcases forgetElement_cases h k u with heq | ⟨xs, hxs, heq⟩
  · rwa [heq] at he
  · rw [heq] at he
    by_cases hk : k' = k
    · subst hk
      rw [elements_setList] at he
      exact hxs.subset he
    · rwa [elements_setList_of_ne hk] at he

theorem named_forget (h : Named config) (k : Kind) (u : String) : Named (forgetElement k u config) := by
  have hmem : ∀ {k' : Kind} {e : Val}, e ∈ elements (forgetElement k u config) k' →
      e ∈ elements config k' := fun he => mem_elements_forget h.wellFormed he
  refine ⟨⟨?_, fun k' e he => h.wellFormed.uniqids k' e (hmem he), ?_⟩,
    fun k' e he => h.starts k' e (hmem he)⟩
  · rcases forgetElement_cases h.wellFormed k u with heq | ⟨xs, -, heq⟩
    · rw [heq]
      exact h.wellFormed.lists
    · rw [heq]
      exact proper_setList h.wellFormed.lists k xs
  · rcases forgetElement_cases h.wellFormed k u with heq | ⟨xs, hxs, heq⟩
    · rw [heq]
      exact h.wellFormed.distinct
    · have hsub : ∀ k', (elements (forgetElement k u config) k').Sublist (elements config k') := by
        intro k'
        rw [heq]
        by_cases hk : k' = k
        · subst hk
          rw [elements_setList]
          exact hxs
        · rw [elements_setList_of_ne hk]
      refine h.wellFormed.distinct.sublist ?_
      generalize Kind.all = ks
      induction ks with
      | nil => exact .refl _
      | cons k' r ih =>
        rw [List.flatMap_cons, List.flatMap_cons]
        exact ((hsub k').map _).append ih

theorem sound_forget (h : Sound config) (k : Kind) (u : String) : Sound (forgetElement k u config) := by
  have hmem : ∀ {k' : Kind} {e : Val}, e ∈ elements (forgetElement k u config) k' →
      e ∈ elements config k' := fun he => mem_elements_forget h.wellFormed he
  exact ⟨named_forget h.toNamed k u, ⟨fun e he => h.inRange e (hmem he),
    fun e he e' he' => h.distinct e (hmem he) e' (hmem he'),
    fun e he port hport => h.apart e (hmem he) port (hmem hport)⟩,
    fun port hport => h.texts port (hmem hport)⟩

end Steps

/-! ## Every run keeps the numbers apart -/

section Run

variable {md5 gettext : String → String} {start : Val} {s : Groups}

/-- A group as a form has it. -/
def OfForm (group : Val) : Prop :=
  group.isArray = true ∧ (∃ n : ℕ, n < 64 ∧ group.get "number" = .int n) ∧
    ∃ u : String, "DAHDIPORTGROUP-".toList <+: u.toList ∧ group.get "uniqid" = .str u

theorem ofForm_generate {g : Globals} {technology id : String}
    (h : (dahdiGenerateDefaultPortgroup gettext technology id g).isArray = true) :
    OfForm (dahdiGenerateDefaultPortgroup gettext technology id g) := by
  cases hfree : dahdiGetFreePortgroupNumber g with
  | none =>
    rw [generate_none hfree] at h
    cases h
  | some n =>
    obtain ⟨harr, hnumber, huniqid⟩ := @generate_spec gettext g n hfree technology id
    refine ⟨harr, ⟨n, (free_spec hfree).1, hnumber⟩, _, ?_, huniqid⟩
    rw [String.toList_append, String.toList_append, String.toList_append, List.append_assoc,
      List.append_assoc]
    exact List.prefix_append _ _

/-- One change. -/
theorem sound_apply {change : Change} (h : Sound s.config) (hforms : ∀ group ∈ s.forms, OfForm group)
    (hallowed : change.Allowed s) (hmeets : change.Meets md5 gettext s.config) :
    Sound (change.apply md5 gettext s).config ∧
      ∀ group ∈ (change.apply md5 gettext s).forms, OfForm group := by
  -- only a scan and a save write numbers; forms and deletions take none
  cases change with
  | scan out =>
    refine ⟨?_, hforms⟩
    have hps : ∀ p ∈ dahdiGetPhysicalPorts out, Physical p := fun p hp => physical_of_mem hp
    have hports := sound_configurePorts hps h hmeets.1
    obtain ⟨config', hrun, -⟩ := @configurePorts_spec md5 gettext s.config h.toNamed _ hps
    have hgroups := hmeets.2
    rw [hrun] at hports hgroups
    show Sound (providerPortTypes.foldl (configureGroup gettext)
      ((dahdiGetPhysicalPorts out).foldl (configurePort md5 gettext) (indexed s.config))).config
    rw [hrun]
    exact sound_configureGroups hports hgroups
  | form technology id =>
    refine ⟨h, ?_⟩
    intro group hgroup
    rcases List.mem_append.1 hgroup with hgroup | hgroup
    · exact hforms group hgroup
    · obtain ⟨hmem, harr⟩ := List.mem_filter.1 hgroup
      obtain rfl := List.mem_singleton.1 hmem
      exact ofForm_generate harr
  | save group =>
    refine ⟨?_, hforms⟩
    obtain ⟨harr, ⟨n, hn, hnumber⟩, u, hstart, huniqid⟩ := hforms group hallowed
    obtain ⟨hgroups, hports⟩ := hmeets
    rw [hnumber, huniqid] at hgroups
    rw [hnumber] at hports
    exact sound_saveGroup h (get_stored_str harr huniqid) hstart hn (number_stored harr hnumber) hgroups
      hports
  | deletePortgroup u => exact ⟨sound_forget h .dahdiPortgroup u, hforms⟩
  | forgetPort u => exact ⟨sound_forget h .dahdiPort u, hforms⟩

theorem sound_runs (hstart : Sound start)
    (hrun : Runs md5 gettext (fun change config => change.Meets md5 gettext config) start s) :
    Sound s.config ∧ ∀ group ∈ s.forms, OfForm group := by
  induction hrun with
  | start =>
    refine ⟨hstart, ?_⟩
    intro group hgroup
    cases hgroup
  | step _ hallowed hmeets ih => exact sound_apply ih.1 ih.2 hallowed hmeets

/-- From a configuration without ports and groups, in every run in which a new port never has the
number of a group for its base channel, a free number is there whenever a group of all provider ports
is made, and the number in a form is still free when the form is saved, the numbers stay apart. -/
theorem numbers_distinct (h : Named start) (hports : elements start .dahdiPort = [])
    (hgroups : elements start .dahdiPortgroup = [])
    (hrun : Runs md5 gettext (fun change config => change.Meets md5 gettext config) start s) :
    NumbersApart s.config := by
  have hstart : Sound start := by
    refine ⟨h, ⟨?_, ?_, ?_⟩, ?_⟩
    · simp [hgroups]
    · simp [hgroups]
    · simp [hgroups]
    · simp [hports]
  exact (sound_runs hstart hrun).1.toNumbersApart

end Run

/-- The first group there is. -/
def firstGroup : Val :=
  .arr [(.str "name", .str "Group 63"), (.str "number", .int 63), (.str "technology", .str "analog"),
    (.str "type", .str "fxo"), (.str "uniqid", .str "DAHDIPORTGROUP-ANALOG-1")]

/-- The configuration with it. -/
def withFirstGroup : Val := saveElement .dahdiPortgroup (stored firstGroup) (indexed noPhones)

theorem generate_firstGroup :
    dahdiGenerateDefaultPortgroup id "analog" "1" (indexed noPhones) = firstGroup := by decide

/-- A form is opened and saved. -/
theorem runs_firstGroup {md5 : String → String} {meets : Change → Val → Prop}
    (hform : meets (.form "analog" "1") noPhones) (hsave : meets (.save firstGroup) noPhones) :
    Runs md5 id meets noPhones { config := withFirstGroup, forms := [firstGroup] } := by
  have h₁ : Runs md5 id meets noPhones { config := noPhones, forms := [firstGroup] } := by
    have hrun : Runs md5 id meets noPhones
        ((Change.form "analog" "1").apply md5 id { config := noPhones, forms := [] }) :=
      .step .start trivial hform
    unfold Change.apply at hrun
    dsimp only at hrun
    rw [generate_firstGroup] at hrun
    exact hrun
  have hallowed : (Change.save firstGroup).Allowed { config := noPhones, forms := [firstGroup] } :=
    List.mem_cons_self
  exact .step h₁ hallowed hsave

/-- A group is made, then a port with base channel 1 is found. -/
theorem numbers_distinct_firstGroup :
    NumbersApart (Change.apply (hashOf "PCI Bus 00 Slot 11" "17c3e1b34dde08e12c6a7c3148575c4c") id
      { config := withFirstGroup, forms := [firstGroup] } (.scan oneModule)).config := by
  apply @numbers_distinct _ _ noPhones _ named_noPhones (by decide) (by decide)
  refine .step (runs_firstGroup trivial ⟨by decide, by decide⟩) trivial ⟨?_, ?_⟩
  · -- the scan finds one port, at a channel that is not the group's number
    have hports : dahdiGetPhysicalPorts oneModule = [.arr [(.str "location", .str "PCI Bus 00 Slot 1"),
        (.str "card", .null), (.str "technology", .str "analog"), (.str "basechannel", .str "1"),
        (.str "type", .str "fxo")]] := by decide
    rw [hports]
    exact ⟨fun _ => by decide, trivial⟩
  · refine ⟨fun h => ?_, fun h => ?_, trivial⟩
    · revert h
      decide
    · revert h
      decide

/-- A card whose first working module is on channel 63. -/
def lateModule : List String := ["[1]", "type=analog", "location=PCI Bus 00 Slot 1", "port=63,FXO"]

/-- The configuration after it was found. -/
def numberTwice : Val :=
  (Change.apply (hashOf "PCI Bus 00 Slot 163" "b22d78e411ef27b8f12f09df296b9309") id
    { config := withFirstGroup, forms := [firstGroup] } (.scan lateModule)).config

/-- A group is made, then a port with its number for base channel is found. -/
theorem not_numbers_distinct :
    ¬ ∀ (md5 gettext : String → String) (start : Val) (s : Groups), Named start →
      elements start .dahdiPort = [] → elements start .dahdiPortgroup = [] →
      Runs md5 gettext (fun _ _ => True) start s → NumbersApart s.config := by
  intro h
  have hrun : Runs (hashOf "PCI Bus 00 Slot 163" "b22d78e411ef27b8f12f09df296b9309") id
      (fun _ _ => True) noPhones { config := numberTwice, forms := [firstGroup] } :=
    @Runs.step _ _ _ _ _ (.scan lateModule) (runs_firstGroup trivial trivial) trivial trivial
  have hnumbered := h _ id noPhones _ named_noPhones (by decide) (by decide) hrun
  -- the later module has a port whose channel is the number of the group
  have hclash : ∃ group ∈ elements numberTwice .dahdiPortgroup, ∃ port ∈ elements numberTwice .dahdiPort,
      (group.get "number").toStr = (port.get "basechannel").toStr := by decide
  obtain ⟨group, hgroup, port, hport, heq⟩ := hclash
  exact hnumbered.apart group hgroup port hport heq

end Dahdi
end Askozia
