import Askozia.Dahdi.GroupNumbers

/-!
# Configuring the ports again

`dahdi_autoconfigure_ports` runs at every boot. The ports it finds again are left alone, but the
group of all provider ports is looked up under the value of a variable that is never assigned, so it
is made anew, with another number.

* `reboot_unchanged_iff`: exactly when the second run changes nothing.
-/

namespace Askozia
namespace Dahdi

open Php Config Pbx

/-- Port groups are saved one after the other. -/
inductive Edited (start : Val) : Val → Prop
  | start : Edited start start
  | save {config group : Val} {u : String} : Edited start config → group.isArray = true →
      group.get "uniqid" = .str u → "DAHDIPORTGROUP-".toList <+: u.toList →
      Edited start (dahdiSavePortgroup group (indexed config)).config

/-- The group of all provider ports when there is no number for it. -/
def numberless (gettext : String → String) (technology : String) (ports : List Val) : Val :=
  stored (.arr [(.str "uniqid", .str (magicUniqid technology)),
    (.str "name", .str (gettext "All Provider Ports")),
    (.str "groupmember", .ofList (ports.map fun port => port.get "uniqid"))])

section Again

variable {md5 gettext : String → String} {config : Val} {t : String × String}

/-! ## Saving what is stored already -/

/-- Saving an element as it is stored changes nothing. -/
theorem saveElement_self (h : WellFormed config) {k : Kind} {e : Val} {u : String}
    (he : e ∈ elements config k) (hu : e.get "uniqid" = .str u) (hne : u ≠ "" ∧ u ≠ "0") :
    saveElement k e (indexed config) = config := by
  have hown : ∀ k', ∀ e' ∈ elements config k', e'.get "uniqid" = .str u → k' = k := by
    intro k' e' he' hu'
    obtain ⟨i, hi, rfl⟩ := List.getElem_of_mem he
    obtain ⟨j, hj, rfl⟩ := List.getElem_of_mem he'
    exact (h.eq_of_uniqid hj hi (hu'.trans hu.symm)).1
  rcases saveElement_cases h hu hne hown with ⟨i, hi, hui, hsave⟩ | ⟨hnone, -⟩
  · have hsame : (elements config k)[i] = e := by
      obtain ⟨j, hj, rfl⟩ := List.getElem_of_mem he
      obtain ⟨-, rfl⟩ := h.eq_of_uniqid hi hj (hui.trans hu.symm)
      rfl
    have hlist : listOf config k = .ofList (elements config k) := contiguous_of_mem h.lists he
    have harr : (listOf config k).isArray = true := by
      rw [hlist]
      rfl
    rw [hsave, ← hsame, List.set_getElem_self, ← hlist]
    exact (setList_eq_editList (F := id) harr).trans (editList_eq_self rfl)
  · exact absurd hu (hnone k e he)

/-! ## Groups -/

/-- A new number makes a new group. -/
theorem groupEntry_not_mem {n : ℕ} (hfree : dahdiGetFreePortgroupNumber (indexed config) = some n) :
    groupEntry gettext (indexed config) t ∉ elements config .dahdiPortgroup := by
  intro hmem
  exact (free_spec hfree).2.1 _ hmem (number_groupEntry hfree t)

theorem groupEntry_of_none {g : Globals} (hfree : dahdiGetFreePortgroupNumber g = none) :
    groupEntry gettext g t = numberless gettext t.1 (dahdiGetPortsOf t.1 t.2 g) := by
  unfold groupEntry allProviders
  rw [generate_none hfree]
  rfl

/-- The group of a type is left as it is: none is made, or the one there is, for want of numbers. -/
def LeavesGroup (gettext : String → String) (config : Val) (t : String × String) : Prop :=
  makesGroup (indexed config) t = false ∨
    (dahdiGetFreePortgroupNumber (indexed config) = none ∧
      numberless gettext t.1 (dahdiGetPortsOf t.1 t.2 (indexed config)) ∈ elements config .dahdiPortgroup)

theorem leavesGroup_iff : LeavesGroup gettext config t ↔ makesGroup (indexed config) t = false ∨
    groupEntry gettext (indexed config) t ∈ elements config .dahdiPortgroup := by
  unfold LeavesGroup
  cases hfree : dahdiGetFreePortgroupNumber (indexed config) with
  | none =>
    rw [groupEntry_of_none hfree]
    simp
  | some n =>
    have hnot := @groupEntry_not_mem gettext config t n hfree
    simp [hnot]

theorem ne_magicUniqid (technology : String) :
    magicUniqid technology ≠ "" ∧ magicUniqid technology ≠ "0" :=
  ne_of_start (k := .dahdiPortgroup) (.inl rfl) (start_magicUniqid technology)

theorem configureGroup_of_leaves (h : Named config) (hleaves : LeavesGroup gettext config t) :
    configureGroup gettext (indexed config) t = indexed config := by
  rw [configureGroup_eq]
  rcases leavesGroup_iff.1 hleaves with hno | hmem
  · rw [if_neg (by simp [hno])]
  · split_ifs
    · rw [saveElement_self h.wellFormed hmem (uniqid_groupEntry _) (ne_magicUniqid _)]
    · rfl

/-- A group that is made anew is there afterwards, and was not before. -/
theorem mem_of_not_leaves (h : Named config) (hnot : ¬ LeavesGroup gettext config t) :
    ∃ config', configureGroup gettext (indexed config) t = indexed config' ∧ Named config' ∧
      groupEntry gettext (indexed config) t ∈ elements config' .dahdiPortgroup ∧
      groupEntry gettext (indexed config) t ∉ elements config .dahdiPortgroup := by
  rw [leavesGroup_iff, not_or] at hnot
  obtain ⟨config', hstep, h', -⟩ := @configureGroup_spec gettext config t h
  refine ⟨config', hstep, h', ?_, hnot.2⟩
  rw [configureGroup_eq, if_pos (by simpa using hnot.1)] at hstep
  have hconfig : saveElement .dahdiPortgroup (groupEntry gettext (indexed config) t) (indexed config) =
      config' := congrArg Globals.config hstep
  rw [← hconfig]
  apply (mem_elements_saveElement h.wellFormed (uniqid_groupEntry _) (ne_magicUniqid _) ?_).2 (.inl ⟨rfl, rfl⟩)
  intro k e he hu
  exact h.own (by decide) (.inl rfl) (start_magicUniqid _) he hu

/-- Making the group of another type leaves a group alone. -/
theorem mem_configureGroup_of_ne (h : Named config) {e : Val} {u : String}
    (he : e ∈ elements config .dahdiPortgroup) (hu : e.get "uniqid" = .str u)
    (hne : u ≠ magicUniqid t.1) :
    e ∈ elements (configureGroup gettext (indexed config) t).config .dahdiPortgroup := by
  rw [configureGroup_eq]
  split_ifs
  · apply (mem_elements_saveElement h.wellFormed (uniqid_groupEntry _) (ne_magicUniqid _) ?_).2
    · refine .inr ⟨he, ?_⟩
      rw [hu]
      intro heq
      exact hne (Val.str.inj heq)
    · intro k e he hu
      exact h.own (by decide) (.inl rfl) (start_magicUniqid _) he hu
  · exact he

/-! ## Ports -/

/-- Ports that are stored are left alone. -/
theorem configurePorts_of_stored (h : Named config) {ps : List Val}
    (hps : ∀ p ∈ ps, ∃ e ∈ elements config .dahdiPort, e.get "uniqid" = .str (portUniqid md5 p)) :
    ps.foldl (configurePort md5 gettext) (indexed config) = indexed config := by
  induction ps with
  | nil => rfl
  | cons p r ih =>
    obtain ⟨e, he, hu⟩ := hps p List.mem_cons_self
    have hne := ne_of_start (k := .dahdiPort) (.inl rfl) (@start_portUniqid md5 p)
    have hstep : configurePort md5 gettext (indexed config) p = indexed config := by
      rw [configurePort, getElement_of_mem h.wellFormed he hu, if_pos (truthy_of_uniqid hu hne)]
    rw [List.foldl_cons, hstep]
    exact ih fun q hq => hps q (List.mem_cons_of_mem _ hq)

/-- Saving groups keeps the names and the ports. -/
theorem edited_spec {start : Val} (h : Named start) (hedited : Edited start config) :
    Named config ∧ elements config .dahdiPort = elements start .dahdiPort := by
  induction hedited with
  | start => exact ⟨h, rfl⟩
  | @save config group u _ harr hu hstart ih =>
    have hentry := get_stored_str harr hu
    refine ⟨named_saveElement (k := .dahdiPortgroup) ih.1 (by decide) (.inl rfl) hstart hentry, ?_⟩
    rw [← ih.2]
    show elements (saveElement .dahdiPortgroup (stored group) (indexed config)) .dahdiPort = _
    have hown : ∀ k, ∀ e ∈ elements config k, e.get "uniqid" = .str u → k = .dahdiPortgroup :=
      fun k e he heu => ih.1.own (by decide) (.inl rfl) hstart he heu
    rcases saveElement_cases ih.1.wellFormed hentry (ne_of_start (k := .dahdiPortgroup) (.inl rfl) hstart)
      hown with ⟨i, -, -, hsave⟩ | ⟨-, hsave⟩
    · rw [hsave, elements_setList_of_ne (by decide)]
    · rw [hsave, elements_setList_of_ne (by decide)]

/-- A run after another with the same output, with port groups saved in between, leaves ports and
groups as they are exactly when no group of all provider ports is made, or only for want of numbers
the one that is there already. -/
theorem reboot_unchanged_iff {start : Val} (h : Named start) (out : List String)
    (hedited : Edited (dahdiAutoconfigurePorts md5 gettext out (indexed start)).config config) :
    (elements (dahdiAutoconfigurePorts md5 gettext out (indexed config)).config .dahdiPort =
        elements config .dahdiPort ∧
      elements (dahdiAutoconfigurePorts md5 gettext out (indexed config)).config .dahdiPortgroup =
        elements config .dahdiPortgroup) ↔
    ∀ t ∈ providerPortTypes, LeavesGroup gettext config t := by
  have hps : ∀ p ∈ dahdiGetPhysicalPorts out, Physical p := fun p hp => physical_of_mem hp
  -- the first run
  obtain ⟨config₁, hrun₁, h₁, -, -, hstored⟩ := @configurePorts_spec md5 gettext start h _ hps
  obtain ⟨config₂, hrun₂, h₂, hother₂⟩ := @configureGroups_spec gettext config₁ h₁ providerPortTypes
  have hfirst : (dahdiAutoconfigurePorts md5 gettext out (indexed start)).config = config₂ := by
    unfold dahdiAutoconfigurePorts
    rw [hrun₁, hrun₂]
    rfl
  rw [hfirst] at hedited
  obtain ⟨hnamed, hports⟩ := edited_spec h₂ hedited
  -- the second run
  have hagain : dahdiAutoconfigurePorts md5 gettext out (indexed config) =
      providerPortTypes.foldl (configureGroup gettext) (indexed config) := by
    unfold dahdiAutoconfigurePorts
    rw [configurePorts_of_stored hnamed]
    intro p hp
    rw [hports, hother₂ .dahdiPort (by decide)]
    exact hstored p hp
  have hsecond : providerPortTypes.foldl (configureGroup gettext) (indexed config) =
      configureGroup gettext (configureGroup gettext (indexed config) ("analog", "fxo")) ("isdn", "te") :=
    rfl
  rw [hagain, hsecond]
  constructor
  · rintro ⟨-, hgroups⟩
    have hanalog : LeavesGroup gettext config ("analog", "fxo") := by
      by_contra hnot
      obtain ⟨config', hstep, h', hmem, hnew⟩ := mem_of_not_leaves hnamed hnot
      have hkept := @mem_configureGroup_of_ne gettext config' ("isdn", "te") h' _ _ hmem
        (uniqid_groupEntry _) (by decide)
      rw [hstep] at hgroups
      rw [hgroups] at hkept
      exact hnew hkept
    rw [configureGroup_of_leaves hnamed hanalog] at hgroups
    have hisdn : LeavesGroup gettext config ("isdn", "te") := by
      by_contra hnot
      obtain ⟨config', hstep, -, hmem, hnew⟩ := mem_of_not_leaves hnamed hnot
      rw [hstep] at hgroups
      rw [show elements config' .dahdiPortgroup = _ from hgroups] at hmem
      exact hnew hmem
    intro t ht
    rcases List.mem_cons.1 ht with rfl | ht
    · exact hanalog
    · obtain rfl := List.mem_singleton.1 ht
      exact hisdn
  · intro hleaves
    rw [configureGroup_of_leaves hnamed (hleaves _ (by decide)),
      configureGroup_of_leaves hnamed (hleaves _ (by decide))]
    exact ⟨rfl, rfl⟩

end Again

/-- One port: no group is made, and the second run changes nothing. -/
theorem reboot_unchanged_oneModule :
    elements (dahdiAutoconfigurePorts
        (hashOf "PCI Bus 00 Slot 11" "17c3e1b34dde08e12c6a7c3148575c4c") id oneModule
        (indexed (dahdiAutoconfigurePorts
          (hashOf "PCI Bus 00 Slot 11" "17c3e1b34dde08e12c6a7c3148575c4c") id oneModule
          (indexed noPhones)).config)).config .dahdiPortgroup =
      elements (dahdiAutoconfigurePorts
        (hashOf "PCI Bus 00 Slot 11" "17c3e1b34dde08e12c6a7c3148575c4c") id oneModule
        (indexed noPhones)).config .dahdiPortgroup := by
  refine ((reboot_unchanged_iff named_noPhones oneModule .start).2 ?_).2
  -- after the first boot no type of port gets another group
  have hnone : ∀ t ∈ providerPortTypes, makesGroup (indexed (dahdiAutoconfigurePorts
      (hashOf "PCI Bus 00 Slot 11" "17c3e1b34dde08e12c6a7c3148575c4c") id oneModule
      (indexed noPhones)).config) t = false := by decide
  intro t ht
  exact .inl (hnone t ht)

/-- A card with two modules for provider lines. -/
def twoModules : List String :=
  ["[1]", "type=analog", "location=PCI Bus 00 Slot 1", "port=1,FXO", "port=2,FXO"]

/-- `md5` on the texts of the two modules. -/
def md5OfModules (s : String) : String :=
  if s = "PCI Bus 00 Slot 11" then "17c3e1b34dde08e12c6a7c3148575c4c"
  else if s = "PCI Bus 00 Slot 12" then "e958876308ecf527cef1cc9b97102d40"
  else s

/-- The configuration after the first run. -/
def booted : Val := (dahdiAutoconfigurePorts md5OfModules id twoModules (indexed noPhones)).config

/-- With two ports the second run gives their group another number. -/
theorem not_reboot_unchanged :
    ¬ ∀ (md5 gettext : String → String) (start config : Val) (out : List String), Named start →
      Edited (dahdiAutoconfigurePorts md5 gettext out (indexed start)).config config →
      elements (dahdiAutoconfigurePorts md5 gettext out (indexed config)).config .dahdiPort =
          elements config .dahdiPort ∧
        elements (dahdiAutoconfigurePorts md5 gettext out (indexed config)).config .dahdiPortgroup =
          elements config .dahdiPortgroup := by
  intro h
  have hgroups := (h md5OfModules id noPhones booted twoModules named_noPhones .start).2
  -- the group is written again, with the next free number
  have hnumbers : (elements booted .dahdiPortgroup).map (·.get "number") = [.str "63"] ∧
      (elements (dahdiAutoconfigurePorts md5OfModules id twoModules (indexed booted)).config
        .dahdiPortgroup).map (·.get "number") = [.str "62"] := by decide +kernel
  rw [hgroups, hnumbers.1] at hnumbers
  exact absurd hnumbers.2 (by decide)

end Dahdi
end Askozia
