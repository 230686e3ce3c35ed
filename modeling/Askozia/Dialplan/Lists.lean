import Askozia.Dialplan.Lookup
import Askozia.Dialplan.Steps

/-!
# What the generator starts from

Fetching the lists sorts the call groups and the conference rooms where they are, and sorts copies
of everything else.

* `rearranged_fetchLists`: no element is lost or made up, and only those two lists change their
  order;
* `mem_providers`: the providers it goes through are those of the four lists.
-/

namespace Askozia
namespace Dialplan

open Php Config Pbx

/-- The same elements under the same index, in the same order but for call groups and conference
rooms. -/
structure Rearranged (g g' : Globals) : Prop where
  uniqidMap : g'.uniqidMap = g.uniqidMap
  perm : ∀ k, (elements g'.config k).Perm (elements g.config k)
  elements : ∀ k, k ≠ .callgroup → k ≠ .room → elements g'.config k = elements g.config k
  lists : ProperLists g'.config
  chars : g'.config.chars ⊆ g.config.chars

theorem Rearranged.refl {g : Globals} (h : ProperLists g.config) : Rearranged g g :=
  ⟨rfl, fun _ => .refl _, fun _ _ _ => rfl, h, fun _ hc => hc⟩

theorem Rearranged.trans {g₁ g₂ g₃ : Globals} (h₁ : Rearranged g₁ g₂) (h₂ : Rearranged g₂ g₃) :
    Rearranged g₁ g₃ :=
  ⟨h₂.uniqidMap.trans h₁.uniqidMap, fun k => (h₂.perm k).trans (h₁.perm k),
    fun k hg hr => (h₂.elements k hg hr).trans (h₁.elements k hg hr), h₂.lists,
    fun _ hc => h₁.chars (h₂.chars hc)⟩

theorem Rearranged.unbroken {g g' : Globals} (h : Rearranged g g') (hg : Unbroken g.config) :
    Unbroken g'.config := fun hmem => hg (h.chars hmem)

theorem Rearranged.mem {g g' : Globals} (h : Rearranged g g') (k : Kind) {e : Val} :
    e ∈ Config.elements g'.config k ↔ e ∈ Config.elements g.config k := (h.perm k).mem_iff

section Steps

variable (usort : Usort) {g : Globals}

theorem chars_setList {config : Val} {k : Kind} {v : Val}
    (h : v.chars ⊆ config.chars) : (setList config k v).chars ⊆ config.chars := by
  intro c hc
  rcases List.mem_append.1 (Val.chars_set hc) with hc | hc
  · exact hc
  · rcases List.mem_append.1 (Val.chars_set hc) with hc | hc
    · exact Val.chars_get hc
    · exact h hc

theorem chars_elements {config : Val} {k : Kind} {e : Val} (h : e ∈ elements config k) :
    e.chars ⊆ config.chars := fun _ hc =>
  Val.chars_get (Val.chars_get (Val.chars_of_mem_vals h hc))

/-- Writing the elements of a list back in another order. -/
theorem rearranged_setList (h : ProperLists g.config) {k : Kind} {xs : List Val}
    (hxs : xs.Perm (elements g.config k))
    (hk : xs = elements g.config k ∨ k = .callgroup ∨ k = .room) :
    Rearranged g { g with config := setList g.config k (.ofList xs) } := by
  refine ⟨rfl, ?_, ?_, proper_setList h k xs, ?_⟩
  · intro k'
    by_cases hne : k' = k
    · subst hne
      rw [elements_setList]
      exact hxs
    · rw [elements_setList_of_ne hne]
  · intro k' hgroup hroom
    by_cases hne : k' = k
    · subst hne
      rw [elements_setList]
      exact hk.resolve_right fun hk => hk.elim hgroup hroom
    · rw [elements_setList_of_ne hne]
  · apply chars_setList
    intro c hc
    obtain ⟨e, he, hc⟩ := List.mem_flatMap.1 (Val.chars_ofList hc)
    exact chars_elements (hxs.mem_iff.1 he) hc

theorem rearranged_initList (h : ProperLists g.config) (k : Kind) :
    Rearranged g (initList k g) := by
  unfold initList
  split
  · exact .refl h
  · rename_i harr
    have hnil : elements g.config k = [] := elements_of_not_array harr
    have hperm : ([] : List Val).Perm (elements g.config k) := by rw [hnil]
    exact rearranged_setList h hperm (.inl hnil.symm)

theorem mem_getSortedCopy (cmp : Val → Val → ℤ) (h : ProperLists g.config) (k : Kind) {p : Val} :
    p ∈ (getSortedCopy usort cmp k g).1 ↔ p ∈ elements g.config k :=
  ((usort.perm _ _).trans ((rearranged_initList h k).perm k)).mem_iff

/-- A list stays as it is while others are fetched. -/
theorem getSortedCopy_eq (cmp : Val → Val → ℤ) (h : ProperLists g.config) {g' : Globals} (hg : Rearranged g g')
    {k : Kind} (hgroup : k ≠ .callgroup) (hroom : k ≠ .room) :
    (getSortedCopy usort cmp k g').1 = (getSortedCopy usort cmp k g).1 := by
  have hafter := (hg.trans (rearranged_initList hg.lists k)).elements k hgroup hroom
  have hbefore := (rearranged_initList h k).elements k hgroup hroom
  exact congrArg (usort.run cmp) (hafter.trans hbefore.symm)

theorem rearranged_getSortedInPlace (cmp : Val → Val → ℤ) (h : ProperLists g.config) {k : Kind}
    (hk : k = .callgroup ∨ k = .room) : Rearranged g (getSortedInPlace usort cmp k g).2 := by
  have hinit := rearranged_initList h k
  exact hinit.trans (rearranged_setList hinit.lists (usort.perm cmp _) (.inr hk))

theorem rearranged_pbxGetPhones (h : ProperLists g.config) :
    Rearranged g (pbxGetPhones usort g).2 := by
  have h₁ := rearranged_initList h (.phone .sip)
  have h₂ := h₁.trans (rearranged_initList h₁.lists (.phone .iax))
  have h₃ := h₂.trans (rearranged_initList h₂.lists (.phone .isdn))
  have h₄ := h₃.trans (rearranged_initList h₃.lists (.phone .skinny))
  exact h₄.trans (rearranged_initList h₄.lists (.phone .analog))

/-- The lists before the one of the providers. -/
def beforeProviders (g : Globals) : Globals :=
  let g := (pbxGetPhones usort g).2
  let g := (externalGetPhones usort g).2
  let g := (callgroupsGetGroups usort g).2
  let g := (conferencingGetRooms usort g).2
  let g := (virtualGetFaxes usort g).2
  (analogGetFaxes usort g).2

theorem rearranged_beforeProviders (h : ProperLists g.config) :
    Rearranged g (beforeProviders usort g) := by
  have h₁ := rearranged_pbxGetPhones usort h
  have h₂ := h₁.trans (rearranged_initList h₁.lists .externalPhone)
  have h₃ := h₂.trans (rearranged_getSortedInPlace usort pbxSortByName h₂.lists (.inl rfl))
  have h₄ := h₃.trans (rearranged_getSortedInPlace usort confroomcmp h₃.lists (.inr rfl))
  have h₅ := h₄.trans (rearranged_initList h₄.lists (.fax .virtual))
  exact h₅.trans (rearranged_initList h₅.lists (.fax .analog))

/-- The lists of providers are the ones that are stored. -/
theorem pbxGetProviders_spec (h : ProperLists g.config) :
    Rearranged g (pbxGetProviders usort g).2 ∧
      (pbxGetProviders usort g).1.Perm (elements g.config (.provider .sip) ++
        elements g.config (.provider .iax) ++ elements g.config (.provider .isdn) ++
        elements g.config (.provider .analog)) := by
  have h₁ := rearranged_initList h (.provider .sip)
  have h₂ := h₁.trans (rearranged_initList h₁.lists (.provider .iax))
  have h₃ := h₂.trans (rearranged_initList h₂.lists (.provider .isdn))
  have h₄ := h₃.trans (rearranged_initList h₃.lists (.provider .analog))
  refine ⟨h₄, (usort.perm _ _).trans ?_⟩
  exact ((((usort.perm _ _).trans (h₁.perm _)).append ((usort.perm _ _).trans (h₂.perm _))).append
    ((usort.perm _ _).trans (h₃.perm _))).append ((usort.perm _ _).trans (h₄.perm _))

/-- Fetching the lists loses no element. -/
theorem rearranged_fetchLists (h : ProperLists g.config) : Rearranged g (fetchLists usort g).2 := by
  have h₁ := rearranged_beforeProviders usort h
  exact h₁.trans (pbxGetProviders_spec usort h₁.lists).1

theorem mem_enabled {xs : List Val} {p : Val} :
    p ∈ enabled xs ↔ p ∈ xs ∧ (p.get "disabled").isset = false := by
  unfold enabled
  rw [List.mem_filter, Bool.not_eq_true']

/-- The providers are those of the four lists. -/
theorem perm_providers (h : ProperLists g.config) :
    (fetchLists usort g).1.providers.Perm (elements g.config (.provider .sip) ++
      elements g.config (.provider .iax) ++ elements g.config (.provider .isdn) ++
      elements g.config (.provider .analog)) := by
  have h₁ := rearranged_beforeProviders usort h
  have hperm := (pbxGetProviders_spec usort h₁.lists).2
  rw [h₁.elements _ (by decide) (by decide), h₁.elements _ (by decide) (by decide),
    h₁.elements _ (by decide) (by decide), h₁.elements _ (by decide) (by decide)] at hperm
  exact hperm

theorem mem_providers (h : ProperLists g.config) {p : Val} :
    p ∈ (fetchLists usort g).1.providers ↔
      ∃ t, t ≠ .skinny ∧ p ∈ elements g.config (.provider t) := by
  rw [(perm_providers usort h).mem_iff, List.mem_append, List.mem_append, List.mem_append]
  constructor
  · rintro (((hp | hp) | hp) | hp)
    · exact ⟨.sip, by decide, hp⟩
    · exact ⟨.iax, by decide, hp⟩
    · exact ⟨.isdn, by decide, hp⟩
    · exact ⟨.analog, by decide, hp⟩
  · rintro ⟨t, ht, hp⟩
    cases t with
    | sip => exact .inl (.inl (.inl hp))
    | iax => exact .inl (.inl (.inr hp))
    | isdn => exact .inl (.inr hp)
    | analog => exact .inr hp
    | skinny => exact absurd rfl ht

end Steps

end Dialplan
end Askozia
