import Askozia.Config.Elements
import Mathlib.Data.List.Induction
import Mathlib.Data.List.Nodup
import Mathlib.Data.List.Pairwise

/-!
# The index finds every element

`config_build_uniqid_map` writes the offset of every element under its `uniqid`. When the lists
are proper lists and the `uniqid`s are distinct, `getElement` finds exactly the element that
carries a `uniqid` (`getElement_kept`), and nothing for one that no element carries
(`getElement_unstored`).
-/

namespace Askozia
namespace Config

open Php

/-! ## Well-formed configurations -/

/-- What a list of elements can be: absent, in a section that is empty, or a proper list. -/
def ListLike (v : Val) : Prop := v = .null ∨ v = .str "" ∨ v.Contiguous

/-- Every list of the configuration is one of these. -/
def ProperLists (config : Val) : Prop := ∀ k, ListLike (listOf config k)

/-- The lists are proper, every element has a `uniqid`, and no two elements have the same one. -/
structure WellFormed (config : Val) : Prop where
  lists : ProperLists config
  uniqids : ∀ k, ∀ e ∈ elements config k, ∃ u, u ≠ "" ∧ e.get "uniqid" = .str u
  distinct : (Kind.all.flatMap fun k => (elements config k).map (·.get "uniqid")).Nodup

/-- Well-formedness can be checked kind by kind. -/
theorem wellFormed_of_all {config : Val}
    (hlists : ∀ k ∈ Kind.all, listOf config k = .null ∨ listOf config k = .str "" ∨
      listOf config k = Val.ofList (listOf config k).vals)
    (huniqids : ∀ k ∈ Kind.all, ∀ e ∈ elements config k,
      (e.get "uniqid").toStr ≠ "" ∧ e.get "uniqid" = .str (e.get "uniqid").toStr)
    (hdistinct : (Kind.all.flatMap fun k => (elements config k).map (·.get "uniqid")).Nodup) :
    WellFormed config :=
  ⟨fun k => hlists k k.mem_all, fun k e he => ⟨_, huniqids k k.mem_all e he⟩, hdistinct⟩

/-- No element has the `uniqid`. -/
def Unstored (config : Val) (u : String) : Prop :=
  u ≠ "" ∧ ∀ k, ∀ e ∈ elements config k, e.get "uniqid" ≠ .str u

/-- The getters agree with the `uniqid`s of the elements. -/
def Coherent (g : Globals) : Prop :=
  ∀ k u, (∀ e ∈ elements g.config k, e.get "uniqid" = .str u → getElement g k u = e) ∧
    (Unstored g.config u → getElement g k u = .null)

/-- All assignments of `config_build_uniqid_map`, in order. -/
def assignments (config : Val) : List (Key × Val) :=
  Kind.all.flatMap fun k => (List.range (listOf config k).count).map fun i : ℕ =>
    ((((listOf config k).idx (.int i)).get "uniqid").key, .int i)

/-! ## Lists -/

section Lists

variable {config : Val} {k : Kind}

theorem count_of_contiguous (h : (listOf config k).Contiguous) :
    (listOf config k).count = (elements config k).length := by
  rw [elements, h, Val.ofList_count, Val.vals_ofList]

theorem idx_of_contiguous (h : (listOf config k).Contiguous) (i : ℕ) :
    (listOf config k).idx (.int i) = (elements config k)[i]?.getD .null := by
  rw [elements, h, Val.idx_ofList, Val.vals_ofList]

theorem contiguous_of_mem {config : Val} (h : ProperLists config) {e : Val}
    (he : e ∈ elements config k) : (listOf config k).Contiguous := by
  rcases h k with hk | hk | hk
  · rw [elements, hk] at he
    cases he
  · rw [elements, hk] at he
    cases he
  · exact hk

theorem idx_of_proper (h : ProperLists config) {i : ℕ} (hi : i < (elements config k).length) :
    (listOf config k).idx (.int i) = (elements config k)[i] := by
  rw [idx_of_contiguous (contiguous_of_mem h (List.getElem_mem hi)), List.getElem?_eq_getElem hi, Option.getD_some]

/-- A list has nothing under a text. Of an empty text an offset is read instead. -/
theorem idx_str_of_proper (h : ProperLists config) (s : String) :
    (listOf config k).idx (.str s) = if listOf config k = .str "" then .str "" else .null := by
  rcases h k with hk | hk | hk
  · rw [hk]
    rfl
  · rw [hk]
    rfl
  · rw [hk, Val.idx_ofList_str]
    rfl

end Lists

/-! ## Writing one list -/

section Writing

variable {config : Val} {k k' : Kind}

theorem elements_setList (config : Val) (k : Kind) (xs : List Val) :
    elements (setList config k (.ofList xs)) k = xs := by
  rw [elements, listOf_setList_self, Val.vals_ofList]

/-- A list in a section that is a text has no elements. -/
theorem elements_of_str {s : String} (h : listOf config k = .str s) : elements config k = [] := by
  rw [elements, h]
  rfl

/-- The other lists after writing one: as before, or no list where a section was a text. -/
theorem listOf_setList_cases (hk : k' ≠ k) (v : Val) :
    listOf (setList config k v) k' = listOf config k' ∨
      ((∃ s, listOf config k' = .str s) ∧ listOf (setList config k v) k' = .null) := by
  by_cases hstr : ∃ t, config.get k.sectionName = .str t
  · -- an assignment into a string section replaces it by an array, and the other lists read null
    obtain ⟨t, hsection⟩ := hstr
    by_cases hn : k'.sectionName = k.sectionName
    · right
      have ht : (Key.str k'.tagName) ≠ .str k.tagName := by
        intro h
        exact hk (Kind.ext_names hn (Key.str.inj h))
      constructor
      · refine ⟨String.ofList t.toList.head?.toList, ?_⟩
        rw [listOf, hn, hsection]
        rfl
      · unfold listOf setList
        rw [hn, hsection]
        simp only [Val.get]
        rw [Val.idx_set_self, Val.set, Val.idx_arr, Val.lookup_setEntry_of_ne ht]
        rfl
    · have hkey : (Key.str k'.sectionName) ≠ .str k.sectionName := fun h => hn (Key.str.inj h)
      unfold listOf setList
      simp only [Val.get]
      cases config with
      | str r =>
        right
        refine ⟨⟨_, rfl⟩, ?_⟩
        rw [Val.set, Val.idx_arr, Val.lookup_setEntry_of_ne hkey]
        rfl
      | _ =>
        left
        rw [Val.idx_set_of_ne _ hkey (by simp)]
  · left
    exact listOf_setList_of_section v hk fun t ht => hstr ⟨t, ht⟩

/-- Writing one list leaves the elements of the others alone. -/
theorem elements_setList_of_ne (hk : k' ≠ k) (v : Val) :
    elements (setList config k v) k' = elements config k' := by
  rcases @listOf_setList_cases config k k' hk v with h | ⟨⟨s, hs⟩, h⟩
  · rw [elements, h, elements]
  · rw [elements, h, elements_of_str hs]
    rfl

theorem contiguous_setList (config : Val) (k : Kind) (xs : List Val) :
    (listOf (setList config k (.ofList xs)) k).Contiguous := by
  rw [listOf_setList_self, Val.Contiguous, Val.vals_ofList]

theorem proper_setList (h : ProperLists config) (k : Kind) (xs : List Val) :
    ProperLists (setList config k (.ofList xs)) := by
  intro k'
  by_cases hk : k' = k
  · subst hk
    exact .inr (.inr (contiguous_setList config k' xs))
  · rcases @listOf_setList_cases config k k' hk (.ofList xs) with hlist | ⟨-, hlist⟩
    · rw [hlist]
      exact h k'
    · exact .inl hlist

end Writing

/-! ## What the index holds -/

section Index

variable {config : Val}

theorem configBuildUniqidMap_eq (config : Val) :
    configBuildUniqidMap config = (assignments config).foldl (fun m a => m.set a.1 a.2) .null := by
  have hfold : ∀ (ks : List Kind) (m : Val), ks.foldl (indexKind config) m =
      (ks.flatMap fun k => (List.range (listOf config k).count).map fun i : ℕ =>
        ((((listOf config k).idx (.int i)).get "uniqid").key, Val.int i)).foldl
          (fun m a => m.set a.1 a.2) m := by
    intro ks
    induction ks with
    | nil => exact fun m => rfl
    | cons k r ih =>
      intro m
      rw [List.foldl_cons, List.flatMap_cons, List.foldl_append, ih, List.foldl_map]
      rfl
  exact hfold Kind.all .null

theorem foldl_set_ne_str {as : List (Key × Val)} {m : Val} (hm : ∀ s, m ≠ .str s) (s : String) :
    as.foldl (fun m a => m.set a.1 a.2) m ≠ .str s := by
  induction as generalizing m with
  | nil => exact hm s
  | cons a r ih => exact ih fun s hs => by cases hs

/-- A key under which only one value is assigned. -/
theorem idx_foldl_set_of_mem {as : List (Key × Val)} {k : Key} {x : Val} (h : (k, x) ∈ as)
    (huniq : ∀ y, (k, y) ∈ as → y = x) {m : Val} (hm : ∀ s, m ≠ .str s) :
    (as.foldl (fun m a => m.set a.1 a.2) m).idx k = x := by
  induction as using List.reverseRecOn with
  | nil => cases h
  | append_singleton r a ih =>
    obtain ⟨k', y⟩ := a
    rw [List.foldl_append, List.foldl_cons, List.foldl_nil]
    by_cases hk : k = k'
    · subst hk
      rw [Val.idx_set_self]
      exact huniq y (by simp)
    · rw [Val.idx_set_of_ne y hk (foldl_set_ne_str hm)]
      refine ih ?_ fun z hz => huniq z (List.mem_append_left _ hz)
      rcases List.mem_append.1 h with h | h
      · exact h
      · exact absurd (Prod.mk.inj (List.mem_singleton.1 h)).1 hk

/-- A key under which nothing is assigned. -/
theorem idx_foldl_set_of_not_mem {as : List (Key × Val)} {k : Key} (h : k ∉ as.map Prod.fst)
    {m : Val} (hm : ∀ s, m ≠ .str s) :
    (as.foldl (fun m a => m.set a.1 a.2) m).idx k = m.idx k := by
  induction as generalizing m with
  | nil => rfl
  | cons a r ih =>
    rw [List.map_cons, List.mem_cons, not_or] at h
    rw [List.foldl_cons, ih h.2 (fun s hs => by cases hs), Val.idx_set_of_ne _ h.1 hm]

theorem mem_assignments {a : Key × Val} (h : a ∈ assignments config) :
    ∃ k, ∃ i < (listOf config k).count,
      a = ((((listOf config k).idx (.int i)).get "uniqid").key, .int i) := by
  obtain ⟨k, -, hk⟩ := List.mem_flatMap.1 h
  obtain ⟨i, hi, rfl⟩ := List.mem_map.1 hk
  exact ⟨k, i, List.mem_range.1 hi, rfl⟩

/-- An assignment comes from an element, or from a section that is empty. -/
theorem WellFormed.mem_assignments (hwf : WellFormed config) {a : Key × Val}
    (h : a ∈ assignments config) :
    (∃ k, ∃ (i : ℕ) (hi : i < (elements config k).length),
      a = ((((elements config k)[i]).get "uniqid").key, .int i)) ∨
    ((∃ k, listOf config k = .str "") ∧ a.1 = .str "") := by
  obtain ⟨k, i, hi, rfl⟩ := Config.mem_assignments h
  rcases hwf.lists k with hk | hk | hk
  · rw [hk] at hi
    cases hi
  · refine .inr ⟨⟨k, hk⟩, ?_⟩
    rw [hk]
    have hi₀ : i = 0 := by
      rw [hk] at hi
      exact Nat.lt_one_iff.1 hi
    rw [hi₀]
    decide
  · rw [count_of_contiguous hk] at hi
    refine .inl ⟨k, i, hi, ?_⟩
    rw [idx_of_contiguous hk, List.getElem?_eq_getElem hi]
    rfl

/-- The `uniqid` of an element determines where it is. -/
theorem WellFormed.eq_of_uniqid (h : WellFormed config) {k k' : Kind} {i j : ℕ}
    (hi : i < (elements config k).length) (hj : j < (elements config k').length)
    (heq : ((elements config k)[i]).get "uniqid" = ((elements config k')[j]).get "uniqid") :
    k = k' ∧ i = j := by
  obtain ⟨hnodup, hdisj⟩ := List.nodup_flatMap.1 h.distinct
  have hmem : ∀ {k : Kind} {i : ℕ} (hi : i < (elements config k).length),
      ((elements config k)[i]).get "uniqid" ∈ (elements config k).map (·.get "uniqid") :=
    fun hi => List.mem_map_of_mem (List.getElem_mem hi)
  have hk : k = k' := by
    by_contra hne
    have : Std.Symm (Function.onFun List.Disjoint fun k =>
      (elements config k).map (·.get "uniqid")) := ⟨fun _ _ hd _ hb ha => hd ha hb⟩
    exact hdisj.forall k.mem_all k'.mem_all hne (hmem hi) (heq ▸ hmem hj)
  subst hk
  refine ⟨rfl, ?_⟩
  have hn := hnodup k k.mem_all
  have hi' : i < ((elements config k).map (·.get "uniqid")).length := by simpa using hi
  have hj' : j < ((elements config k).map (·.get "uniqid")).length := by simpa using hj
  exact (@List.Nodup.getElem_inj_iff _ _ hn i hi' j hj').1 (by simpa using heq)

/-- The index has the offset of an element under its `uniqid`. -/
theorem WellFormed.offset (h : WellFormed config) {k : Kind} {i : ℕ}
    (hi : i < (elements config k).length) :
    (configBuildUniqidMap config).idx (((elements config k)[i]).get "uniqid").key = .int i := by
  rw [configBuildUniqidMap_eq]
  have hk := contiguous_of_mem h.lists (List.getElem_mem hi)
  refine idx_foldl_set_of_mem ?_ (fun y hy => ?_) fun s hs => by cases hs
  · refine List.mem_flatMap.2 ⟨k, k.mem_all, List.mem_map.2 ⟨i, ?_, ?_⟩⟩
    · rw [List.mem_range, count_of_contiguous hk]
      exact hi
    · rw [idx_of_contiguous hk, List.getElem?_eq_getElem hi]
      rfl
  · obtain ⟨u, hne, hu⟩ := h.uniqids k _ (List.getElem_mem hi)
    rcases h.mem_assignments hy with ⟨k', j, hj, ha⟩ | ⟨-, ha⟩
    · obtain ⟨hkey, rfl⟩ := Prod.mk.inj ha
      obtain ⟨u', -, hu'⟩ := h.uniqids k' _ (List.getElem_mem hj)
      rw [hu, hu'] at hkey
      have huu : ((elements config k)[i]).get "uniqid" = ((elements config k')[j]).get "uniqid" := by
        rw [hu, hu', Val.key_str_injective hkey]
      rw [(h.eq_of_uniqid hi hj huu).2]
    · rw [hu] at ha
      exact absurd (Val.key_str_injective (s := u) (t := "") (ha.trans (by decide))) hne

/-- Nothing is under a `uniqid` that no element has, unless it is empty like a section. -/
theorem WellFormed.no_offset (h : WellFormed config) {u : String}
    (hu : ∀ k, ∀ e ∈ elements config k, e.get "uniqid" ≠ .str u)
    (hempty : u ≠ "" ∨ ∀ k, listOf config k ≠ .str "") :
    (configBuildUniqidMap config).idx (Val.str u).key = .null := by
  rw [configBuildUniqidMap_eq]
  refine idx_foldl_set_of_not_mem (fun hmem => ?_) fun s hs => by cases hs
  obtain ⟨a, ha, hkey⟩ := List.mem_map.1 hmem
  rcases h.mem_assignments ha with ⟨k, i, hi, rfl⟩ | ⟨⟨k, hk⟩, ha⟩
  · obtain ⟨u', -, hu'⟩ := h.uniqids k _ (List.getElem_mem hi)
    rw [hu'] at hkey
    exact hu k _ (List.getElem_mem hi) (by rw [hu', Val.key_str_injective hkey])
  · rw [ha] at hkey
    rcases hempty with hne | hnone
    · exact hne (Val.key_str_injective (t := "") (hkey.symm.trans (by decide)))
    · exact hnone k hk

end Index

section Lookups

variable {config config' : Val} {k : Kind} {u : String}

/-- The index of a well-formed configuration serves any configuration with the same elements in
the same order. -/
theorem getElement_kept (h : WellFormed config) (hel : ∀ k, elements config' k = elements config k)
    (hlists : ProperLists config') {e : Val} (he : e ∈ elements config' k) (hu : e.get "uniqid" = .str u) :
    getElement { config := config', uniqidMap := configBuildUniqidMap config } k u = e := by
  obtain ⟨i, hi, rfl⟩ := List.getElem_of_mem he
  have hi' : i < (elements config k).length := hel k ▸ hi
  have hsame : (elements config' k)[i] = (elements config k)[i] := by simp only [hel]
  have hidx := h.offset hi'
  rw [← hsame, hu] at hidx
  show (listOf config' k).idx ((configBuildUniqidMap config).idx (Val.str u).key).key = _
  rw [hidx]
  exact idx_of_proper hlists hi

/-- Without an element there is `null`, or what is read of the section if that is empty. -/
theorem getElement_unstored (h : WellFormed config) (hel : ∀ k, elements config' k = elements config k)
    (hlists : ProperLists config') (hu : Unstored config' u) :
    getElement { config := config', uniqidMap := configBuildUniqidMap config } k u =
      if listOf config' k = .str "" then .str "" else .null := by
  have hnone := h.no_offset (fun k e he => hu.2 k e ((hel k).symm ▸ he)) (.inl hu.1)
  show (listOf config' k).idx ((configBuildUniqidMap config).idx (Val.str u).key).key = _
  rw [hnone]
  exact idx_str_of_proper hlists ""

end Lookups

end Config
end Askozia
