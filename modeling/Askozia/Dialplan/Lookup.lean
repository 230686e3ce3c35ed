import Askozia.Dialplan.Conf
import Askozia.Config.UniqidIndex

/-!
# Lookups between two saves

Between a page load and the next `write_config`, `$uniqid_map` stays what
`config_build_uniqid_map` made it, while the list functions work on `$config`. Those that sort a
copy keep every offset. `callgroups_get_groups` and `conferencing_get_rooms` sort the stored
list, which keeps the offsets only if the list was in order already.

* `Kept` says what a step leaves alone, and `kept_run` that it does;
* `kept_orderedRun`: so does any sequence of steps that find these two lists in order.
-/

namespace Askozia
namespace Dialplan

open Php Config Pbx

/-! ## Steps -/

/-- What a page may call before the next `write_config`. -/
inductive Operation where
  | sipGetProviders
  | iaxGetProviders
  | isdnGetProviders
  | analogGetProviders
  | sipGetPhones
  | iaxGetPhones
  | isdnGetPhones
  | skinnyGetPhones
  | analogGetPhones
  | externalGetPhones
  | virtualGetFaxes
  | analogGetFaxes
  | callgroupsGetGroups
  | conferencingGetRooms
  | pbxGetPhones
  | pbxGetProviders
  | extensionsConfGenerate
deriving DecidableEq, Repr

/-- The globals after a call. -/
def Operation.run (usort : Usort) (env : Env) (g : Globals) : Operation → Globals
  | sipGetProviders => (Pbx.sipGetProviders usort g).2
  | iaxGetProviders => (Pbx.iaxGetProviders usort g).2
  | isdnGetProviders => (Pbx.isdnGetProviders usort g).2
  | analogGetProviders => (Pbx.analogGetProviders usort g).2
  | sipGetPhones => (Pbx.sipGetPhones usort g).2
  | iaxGetPhones => (Pbx.iaxGetPhones usort g).2
  | isdnGetPhones => (Pbx.isdnGetPhones usort g).2
  | skinnyGetPhones => (Pbx.skinnyGetPhones usort g).2
  | analogGetPhones => (Pbx.analogGetPhones usort g).2
  | externalGetPhones => (Pbx.externalGetPhones usort g).2
  | virtualGetFaxes => (Pbx.virtualGetFaxes usort g).2
  | analogGetFaxes => (Pbx.analogGetFaxes usort g).2
  | callgroupsGetGroups => (Pbx.callgroupsGetGroups usort g).2
  | conferencingGetRooms => (Pbx.conferencingGetRooms usort g).2
  | pbxGetPhones => (Pbx.pbxGetPhones usort g).2
  | pbxGetProviders => (Pbx.pbxGetProviders usort g).2
  | extensionsConfGenerate => (Dialplan.extensionsConfGenerate usort env g).2

/-- The call groups are strictly ascending by name. -/
def GroupsInOrder (config : Val) : Prop := Ascending pbxSortByName (elements config .callgroup)

/-- The conference rooms are strictly ascending by number. -/
def RoomsInOrder (config : Val) : Prop := Ascending confroomcmp (elements config .room)

instance (config : Val) : Decidable (GroupsInOrder config) :=
  inferInstanceAs (Decidable (Ascending _ _))

instance (config : Val) : Decidable (RoomsInOrder config) :=
  inferInstanceAs (Decidable (Ascending _ _))

/-- A call that sorts a stored list finds it in order. -/
def Operation.InOrder (config : Val) : Operation → Prop
  | callgroupsGetGroups => GroupsInOrder config
  | conferencingGetRooms => RoomsInOrder config
  | extensionsConfGenerate => GroupsInOrder config ∧ RoomsInOrder config
  | _ => True

/-- Any number of calls, each of which finds the lists it sorts in order. -/
inductive OrderedRun (usort : Usort) (env : Env) (g₀ : Globals) : Globals → Prop
  | start : OrderedRun usort env g₀ g₀
  | step {g : Globals} (op : Operation) : OrderedRun usort env g₀ g → op.InOrder g.config →
      OrderedRun usort env g₀ (op.run usort env g)

/-! ## What a call leaves alone -/

/-- The index and the elements of every kind, with their order, are the same. -/
structure Kept (g g' : Globals) : Prop where
  uniqidMap : g'.uniqidMap = g.uniqidMap
  elements : ∀ k, elements g'.config k = elements g.config k
  lists : ProperLists g'.config

theorem Kept.refl {g : Globals} (h : ProperLists g.config) : Kept g g :=
  ⟨rfl, fun _ => rfl, h⟩

theorem Kept.trans {g₁ g₂ g₃ : Globals} (h₁ : Kept g₁ g₂) (h₂ : Kept g₂ g₃) : Kept g₁ g₃ :=
  ⟨h₂.uniqidMap.trans h₁.uniqidMap, fun k => (h₂.elements k).trans (h₁.elements k), h₂.lists⟩

theorem Kept.groupsInOrder {g g' : Globals} (h : Kept g g') (ho : GroupsInOrder g.config) :
    GroupsInOrder g'.config := by
  unfold GroupsInOrder
  rwa [h.elements]

theorem Kept.roomsInOrder {g g' : Globals} (h : Kept g g') (ho : RoomsInOrder g.config) :
    RoomsInOrder g'.config := by
  unfold RoomsInOrder
  rwa [h.elements]

section Steps

variable (usort : Usort) {env : Env} {g : Globals}

/-- Writing the elements of a list back in the same order. -/
theorem kept_setList (h : ProperLists g.config) (k : Kind) :
    Kept g { g with config := setList g.config k (.ofList (elements g.config k)) } := by
  refine ⟨rfl, fun k' => ?_, proper_setList h k _⟩
  by_cases hk : k' = k
  · subst hk
    exact elements_setList _ _ _
  · exact elements_setList_of_ne hk _

theorem kept_initList (h : ProperLists g.config) (k : Kind) : Kept g (initList k g) := by
  unfold initList
  split
  · exact .refl h
  · rename_i harr
    have hnil : elements g.config k = [] := elements_of_not_array harr
    have hset := kept_setList h k
    rw [hnil] at hset
    exact hset

/-- Sorting the stored list keeps it when it is in order. -/
theorem kept_getSortedInPlace (h : ProperLists g.config) {cmp : Val → Val → ℤ} {k : Kind}
    (ho : Ascending cmp (elements g.config k)) : Kept g (getSortedInPlace usort cmp k g).2 := by
  have hinit := kept_initList h k
  have hrun : usort.run cmp (elements (initList k g).config k) =
      elements (initList k g).config k := by
    rw [hinit.elements, usort.run_of_ascending ho]
  refine hinit.trans ?_
  unfold getSortedInPlace
  simp only [hrun]
  exact kept_setList hinit.lists k

theorem kept_pbxGetPhones (h : ProperLists g.config) : Kept g (pbxGetPhones usort g).2 := by
  have h₁ := kept_initList h (.phone .sip)
  have h₂ := h₁.trans (kept_initList h₁.lists (.phone .iax))
  have h₃ := h₂.trans (kept_initList h₂.lists (.phone .isdn))
  have h₄ := h₃.trans (kept_initList h₃.lists (.phone .skinny))
  exact h₄.trans (kept_initList h₄.lists (.phone .analog))

theorem kept_pbxGetProviders (h : ProperLists g.config) : Kept g (pbxGetProviders usort g).2 := by
  have h₁ := kept_initList h (.provider .sip)
  have h₂ := h₁.trans (kept_initList h₁.lists (.provider .iax))
  have h₃ := h₂.trans (kept_initList h₂.lists (.provider .isdn))
  exact h₃.trans (kept_initList h₃.lists (.provider .analog))

theorem kept_fetchLists (h : ProperLists g.config) (hg : GroupsInOrder g.config)
    (hr : RoomsInOrder g.config) : Kept g (fetchLists usort g).2 := by
  have h₁ := kept_pbxGetPhones usort h
  have h₂ := h₁.trans (kept_initList h₁.lists .externalPhone)
  have h₃ := h₂.trans (kept_getSortedInPlace usort h₂.lists (h₂.groupsInOrder hg))
  have h₄ := h₃.trans (kept_getSortedInPlace usort h₃.lists (h₃.roomsInOrder hr))
  have h₅ := h₄.trans (kept_initList h₄.lists (.fax .virtual))
  have h₆ := h₅.trans (kept_initList h₅.lists (.fax .analog))
  exact h₆.trans (kept_pbxGetProviders usort h₆.lists)

/-- One call. -/
theorem kept_run (h : ProperLists g.config) {op : Operation} (ho : op.InOrder g.config) :
    Kept g (op.run usort env g) := by
  cases op with
  | callgroupsGetGroups => exact kept_getSortedInPlace usort h ho
  | conferencingGetRooms => exact kept_getSortedInPlace usort h ho
  | pbxGetPhones => exact kept_pbxGetPhones usort h
  | pbxGetProviders => exact kept_pbxGetProviders usort h
  | extensionsConfGenerate => exact kept_fetchLists usort h ho.1 ho.2
  | _ => exact kept_initList h _

/-- Any number of calls. -/
theorem kept_orderedRun (h : ProperLists g.config) {g' : Globals}
    (hrun : OrderedRun usort env g g') : Kept g g' := by
  induction hrun with
  | start => exact .refl h
  | step op _ ho ih => exact ih.trans (kept_run usort ih.lists ho)

end Steps

/-- An installation without files of its own. -/
def plainEnv : Env := { productName := "AskoziaPBX", isFile := fun _ => false, gettext := id }

end Dialplan
end Askozia
