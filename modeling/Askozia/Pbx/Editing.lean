import Askozia.Pbx.References

/-!
# Configurations that were edited

What a request deletes leaves gaps, which are gone once the configuration was written and read back.

* `Edited` is what a configuration is like in between;
* `elements_foldl_editList`: what a loop over the elements of some kinds makes of them;
* `loaded_compact`: what is read back of an edited configuration is a loaded one.
-/

namespace Askozia
namespace Pbx

open Php Config XmlParse

/-- A configuration with gaps in its lists. -/
structure Edited (config : Val) : Prop where
  array : config.isArray = true ∨ config = .str ""
  loose : Loose (fun _ => True) config
  sections : ∀ k : Kind, config.get k.sectionName = .null ∨ config.get k.sectionName = .str "" ∨
    (config.get k.sectionName).isArray = true

/-- No section has the name of a list tag. -/
theorem sectionName_not_mem (k : Kind) : k.sectionName ∉ listtags := by
  have hall : ∀ k ∈ Kind.all, k.sectionName ∉ listtags := by decide
  exact hall k k.mem_all

/-- The name of every list is a list tag. -/
theorem tagName_mem (k : Kind) : k.tagName ∈ listtags := by
  have hall : ∀ k ∈ Kind.all, k.tagName ∈ listtags := by decide
  exact hall k k.mem_all

/-- A configuration that was loaded has not been edited yet. -/
theorem edited_of_loaded {config : Val} (h : Loaded config) : Edited config := by
  refine ⟨?_, h.canonical.loose, fun k => ?_⟩
  · cases hc : config with
    | arr es => exact .inl rfl
    | str s =>
      right
      rcases section_cases h.wellFormed h.canonical .callgroup with hnull | hempty | ⟨fs, hmap, -⟩
      · rw [hc] at hnull
        cases hnull
      · rw [hc] at hempty
        have hchars := congrArg String.toList (Val.str.inj hempty)
        rw [String.toList_ofList] at hchars
        cases hs : s.toList with
        | nil => rw [← String.ofList_toList (s := s), hs]
        | cons c r =>
          rw [hs] at hchars
          cases hchars
      · rw [hc] at hmap
        cases hmap
    | _ =>
      have hcanonical := h.canonical
      rw [hc] at hcanonical
      cases hcanonical
  · rcases section_cases h.wellFormed h.canonical k with hnull | hempty | ⟨fs, hmap, -⟩
    · exact .inl hnull
    · exact .inr (.inl hempty)
    · rw [hmap]
      exact .inr (.inr rfl)

/-! ## Edits -/

section Edits

variable {config : Val} {k k' : Kind} {F g : Val → Val}

/-- A change that makes lists of lists, with loose items. -/
def KeepsLoose (F : Val → Val) : Prop :=
  ∀ items : List (Key × Val), (∀ e ∈ items, Loose (fun _ => True) e.2) →
    ∃ items', F (.arr items) = .arr items' ∧ ∀ e ∈ items', Loose (fun _ => True) e.2

/-- Editing one list keeps the lists of a configuration. -/
theorem Edited.editList (h : Edited config) (hF : KeepsLoose F) (k : Kind) : Edited (editList F config k) := by
  refine ⟨?_, ?_, fun k' => ?_⟩
  · rcases h.array with harr | rfl
    · cases config with
      | arr es => exact .inl rfl
      | _ => cases harr
    · exact .inr rfl
  · exact h.loose.mapAt (sectionName_not_mem k) fun x hx => hx.mapAtList (tagName_mem k) hF
  · unfold Pbx.editList
    -- only the section of the edited list changes
    by_cases hname : (Key.str k'.sectionName) = .str k.sectionName
    · rcases h.array with harr | rfl
      · have hself : (config.mapAt (.str k.sectionName) (Val.mapAt (.str k.tagName) F)).idx (.str k.sectionName) =
            Val.mapAt (.str k.tagName) F (config.idx (.str k.sectionName)) := by
          apply Val.idx_mapAt_self _ rfl
          rintro s rfl
          cases harr
        rw [Val.get, hname, hself]
        rcases h.sections k with hnull | hempty | harr
        · rw [Val.get] at hnull
          rw [hnull]
          exact .inl rfl
        · rw [Val.get] at hempty
          rw [hempty]
          exact .inr (.inl rfl)
        · rw [Val.get] at harr
          cases hsection : config.idx (.str k.sectionName) with
          | arr fs => exact .inr (.inr rfl)
          | _ =>
            rw [hsection] at harr
            cases harr
      · exact .inr (.inl rfl)
    · rw [Val.get, Val.idx_mapAt_of_ne hname]
      exact h.sections k'

/-- So does editing several. -/
theorem Edited.foldl (h : Edited config) (hF : KeepsLoose F) (ks : List Kind) :
    Edited (ks.foldl (Pbx.editList F) config) := by
  induction ks generalizing config with
  | nil => exact h
  | cons k r ih => exact ih (h.editList hF k)

/-- The list that was edited. -/
theorem listOf_editList_self (hF : ∀ v, v.isArray = false → F v = v) :
    listOf (editList F config k) k = F (listOf config k) := by
  by_cases harr : (listOf config k).isArray = true
  · rw [← setList_eq_editList harr, listOf_setList_self]
  · have hsame : F (listOf config k) = listOf config k := hF _ (by simpa using harr)
    rw [editList_eq_self hsame, hsame]

/-- Editing one list leaves the others. -/
theorem elements_editList_of_ne (hk : k' ≠ k) : elements (editList F config k) k' = elements config k' := by
  rw [elements, listOf_editList_of_ne hk, elements]

/-- Dropping elements keeps the others in order. -/
theorem elements_dropItems (p : Val → Bool) :
    elements (editList (Val.dropItems p) config k) k = (elements config k).filter fun e => !p e := by
  have hscalar : ∀ v : Val, v.isArray = false → v.dropItems p = v := by
    intro v hv
    cases v with
    | arr es => cases hv
    | _ => rfl
  rw [elements, listOf_editList_self hscalar, Val.vals_dropItems]
  rfl

/-- A loop over the lists of some kinds. -/
theorem listOf_foldl {step : Val → Kind → Val} {F : Val → Val}
    (hself : ∀ config k, listOf (step config k) k = F (listOf config k))
    (hother : ∀ config k k', k' ≠ k → listOf (step config k) k' = listOf config k') {ks : List Kind}
    (hks : ks.Nodup) (config : Val) (k : Kind) :
    listOf (ks.foldl step config) k = if k ∈ ks then F (listOf config k) else listOf config k := by
  induction ks generalizing config with
  | nil => rfl
  | cons k₁ r ih =>
    rw [List.nodup_cons] at hks
    rw [List.foldl_cons, ih hks.2]
    by_cases hk : k = k₁
    · subst hk
      rw [if_neg hks.1, if_pos List.mem_cons_self, hself]
    · rw [hother _ _ _ hk]
      by_cases hr : k ∈ r
      · rw [if_pos hr, if_pos (List.mem_cons_of_mem _ hr)]
      · rw [if_neg hr, if_neg fun hmem => hr ((List.mem_cons.1 hmem).resolve_left hk)]

/-- There are no items in what is no array. -/
theorem mapItems_of_not_array (v : Val) (hv : v.isArray = false) : v.mapItems g = v := by
  cases v with
  | arr es => cases hv
  | _ => rfl

/-- A loop over the elements of some kinds. -/
theorem elements_foldl_editList {ks : List Kind} (hks : ks.Nodup) :
    elements (ks.foldl (editList (Val.mapItems g)) config) k =
      if k ∈ ks then (elements config k).map g else elements config k := by
  rw [elements, listOf_foldl (fun _ _ => listOf_editList_self mapItems_of_not_array)
    (fun _ _ _ => listOf_editList_of_ne) hks]
  split_ifs
  · rw [Val.vals_mapItems]
    rfl
  · rfl

/-- The list of a kind after a loop that assigns to some of its elements. -/
theorem listOf_editElements_self (f : Val → Option Val) (config : Val) (k : Kind) :
    listOf (editElements f config k) k =
      if (listOf config k).isArray then (listOf config k).updateEach f else listOf config k := by
  unfold editElements
  split_ifs
  · rw [listOf_setList_self]
  · rfl

/-- Editing the elements of one list leaves the other lists. -/
theorem listOf_editElements_of_ne (f : Val → Option Val) (config : Val) (k k' : Kind) (hk : k' ≠ k) :
    listOf (editElements f config k) k' = listOf config k' := by
  unfold editElements
  split_ifs with harr
  · apply listOf_setList_of_ne _ hk
    intro s hs
    rw [hs] at harr
    cases harr
  · rfl

/-- A loop that only takes references out. -/
theorem thin_foldl {ks : List Kind} (hks : ks.Nodup) (hg : ∀ k ∈ ks, ∀ e ∈ elements config k, Thinner (g e) e)
    (k : Kind) : List.Forall₂ Thinner (elements (ks.foldl (editList (Val.mapItems g)) config) k)
      (elements config k) := by
  rw [elements_foldl_editList hks]
  split_ifs with hk
  · rw [List.forall₂_map_left_iff]
    exact List.forall₂_same.2 fun e he => hg k hk e he
  · exact List.forall₂_same.2 fun e _ => .refl e

/-- Changing every item keeps a list of loose trees if the change does. -/
theorem keepsLoose_mapItems (hg : ∀ x, Loose (fun _ => True) x → Loose (fun _ => True) (g x)) :
    KeepsLoose (Val.mapItems g) := loose_mapItems hg

/-- Dropping items keeps it. -/
theorem keepsLoose_dropItems (p : Val → Bool) : KeepsLoose (Val.dropItems p) := loose_dropItems p

/-- The elements of an edited configuration are loose trees. -/
theorem loose_elements (h : Edited config) {e : Val} (he : e ∈ elements config k) :
    Loose (fun _ => True) e := by
  have harr : (listOf config k).isArray = true := by
    by_contra hnot
    rw [elements_of_not_array hnot] at he
    cases he
  have hsection : (config.get k.sectionName).isArray = true := by
    rcases h.sections k with hnull | hempty | harr'
    · rw [listOf, hnull] at harr
      cases harr
    · rw [listOf, hempty] at harr
      cases harr
    · exact harr'
  obtain ⟨items, hitems, hall⟩ :=
    loose_get_list (loose_get h.loose (sectionName_not_mem k) hsection) (tagName_mem k) harr
  rw [elements, listOf, hitems] at he
  obtain ⟨x, hmem, rfl⟩ := List.mem_map.1 he
  exact hall x hmem

end Edits

/-! ## Taking out references -/

section Losing

variable {config config' config'' : Val} {k : Kind} {ks : List Kind} {u n : String} {p : Val → Bool}

/-- The elements have lost nothing but references. -/
structure Losing (config config' : Val) : Prop where
  thin : ∀ k, List.Forall₂ Thinner (elements config' k) (elements config k)
  edited : Edited config'

/-- What loses elements and parts of them makes up no references. -/
theorem Losing.references (h : Losing config config') {f : Field} {v : Val} (hv : v ∈ f.references config') :
    v ∈ f.references config :=
  ((Shrunk.refl (fun _ _ => False) config).thin h.thin).references hv

/-- Loops that make lists of the elements smaller. -/
theorem losing_foldl {F : Val → Val} (h : Edited config) (hks : ks.Nodup) (hn : n ∈ listtags)
    (hF : ∀ x, (F x).vals ⊆ x.vals) (hnull : F .null = .null) (hloose : KeepsLoose F) :
    Losing config (ks.foldl (editList (Val.mapItems (Val.mapAt (.str n) F))) config) where
  thin := thin_foldl hks fun _ _ e _ => thinner_mapAt hn hF hnull e
  edited := h.foldl (keepsLoose_mapItems fun _ hx => hx.mapAtList hn hloose) ks

/-- Dropping items inside the elements of some lists only loses. -/
theorem losing_dropItems (h : Edited config) (hks : ks.Nodup) (hn : n ∈ listtags) (p : Val → Bool) :
    Losing config (ks.foldl (editList (Val.mapItems (Val.mapAt (.str n) (Val.dropItems p)))) config) := by
  apply losing_foldl h hks hn _ rfl (keepsLoose_dropItems p)
  intro x
  rw [Val.vals_dropItems]
  exact List.filter_subset_self _

/-- Items that were taken out are gone. -/
theorem dropped (hks : ks.Nodup) (hk : k ∈ ks) {e x : Val}
    (he : e ∈ elements (ks.foldl (editList (Val.mapItems (Val.mapAt (.str n) (Val.dropItems p)))) config) k)
    (hx : x ∈ (e.get n).vals) : p x = false := by
  rw [elements_foldl_editList hks, if_pos hk] at he
  obtain ⟨e', -, rfl⟩ := List.mem_map.1 he
  cases e' with
  | arr es =>
    have hself : ((Val.arr es).mapAt (.str n) (Val.dropItems p)).get n = ((Val.arr es).get n).dropItems p :=
      Val.idx_mapAt_self (fun s => Val.noConfusion) rfl
    rw [hself, Val.vals_dropItems] at hx
    simpa using (List.mem_filter.1 hx).2
  | _ => cases hx

/-- The loop over the incoming maps only loses. -/
theorem losing_destination (h : Edited config) (u : String) : Losing config (withoutDestination u config) :=
  losing_dropItems h (by decide) (by decide) _

/-- The loop over the members of groups only loses. -/
theorem losing_member (h : Edited config) (u : String) : Losing config (withoutMember u config) := by
  have hn : "groupmember" ∈ listtags := by decide
  exact losing_dropItems h (List.nodup_singleton Kind.callgroup) hn (isText u)

/-- The loop over the providers of phones only loses. -/
theorem losing_provider (h : Edited config) (u : String) : Losing config (withoutProvider u config) :=
  losing_dropItems h (by decide) (by decide) _

/-- The loop over the default faxes only loses. -/
theorem losing_defaultfax (h : Edited config) (u : String) : Losing config (withoutDefaultfax u config) where
  thin := by
    apply thin_foldl (by decide)
    intro k _ e he
    apply thinner_dropAt (by decide) (by decide)
    cases loose_elements h he with
    | map hnodup _ => exact hnodup
    | _ => exact List.nodup_nil
  edited := h.foldl (keepsLoose_mapItems fun x hx => hx.dropAt _ _) _

/-- After it the id is the destination of no map. -/
theorem not_mem_destination : .str u ∉ Field.destinationid.references (withoutDestination u config) := by
  intro hv
  obtain ⟨k, hk, e, he, hvalue, -⟩ := Field.mem_references.1 hv
  obtain ⟨x, hx, hu⟩ := List.mem_map.1 hvalue
  have hdropped := dropped (by decide) hk he hx
  rw [isText, hu] at hdropped
  simp at hdropped

/-- After it the id is a member of no group. -/
theorem not_mem_member : .str u ∉ Field.groupmember.references (withoutMember u config) := by
  intro hv
  obtain ⟨k, hk, e, he, hvalue, -⟩ := Field.mem_references.1 hv
  have hdropped := dropped (List.nodup_singleton .callgroup) hk he hvalue
  simp [isText] at hdropped

/-- After it the id is a provider of no phone. -/
theorem not_mem_provider : .str u ∉ Field.provider.references (withoutProvider u config) := by
  intro hv
  obtain ⟨k, hk, e, he, hvalue, -⟩ := Field.mem_references.1 hv
  have hdropped := dropped (by decide) hk he hvalue
  simp [isText] at hdropped

/-- After it the id is the default fax of no provider. -/
theorem not_mem_defaultfax (harr : ∀ k, ∀ e ∈ elements config k, e.isArray = true) :
    .str u ∉ Field.defaultfax.references (withoutDefaultfax u config) := by
  intro hv
  obtain ⟨k, hk, e, he, hvalue, -⟩ := Field.mem_references.1 hv
  have hk : k ∈ technologies.map Kind.provider := hk
  rw [withoutDefaultfax, elements_foldl_editList (by decide), if_pos hk] at he
  obtain ⟨e', he', rfl⟩ := List.mem_map.1 he
  have hleft := List.mem_singleton.1 hvalue
  cases e' with
  | arr es =>
    rw [Val.dropAt, Val.get, Val.idx_arr] at hleft
    cases hlookup : (es.filter fun x => !(x.1 == Key.str "defaultfax" && isText u x.2)).lookup (.str "defaultfax") with
    | none =>
      rw [hlookup] at hleft
      cases hleft
    | some x =>
      rw [hlookup] at hleft
      have hmem := (List.mem_filter.1 (Val.mem_of_lookup hlookup)).2
      rw [← (show Val.str u = x from hleft)] at hmem
      simp [isText] at hmem
  | _ => cases harr k _ he'

end Losing

/-! ## Taking out an element -/

section Lost

variable {config config' config'' : Val} {k : Kind} {u : String}

/-- The element of a kind with a `uniqid` is gone, and references may be gone with it. -/
structure Lost (k : Kind) (u : String) (config config' : Val) : Prop where
  shrunk : Shrunk (fun k' e => k' = k ∧ e.get "uniqid" = .str u) config config'
  edited : Edited config'
  removed : ∀ k', ∀ e ∈ elements config' k', e.get "uniqid" ≠ .str u

/-- An element that is lost stays lost. -/
theorem Lost.losing (h : Lost k u config config') (hl : Losing config' config'') :
    Lost k u config config'' where
  shrunk := h.shrunk.thin hl.thin
  edited := hl.edited
  removed := by
    intro k' e he
    obtain ⟨e', he', hthin⟩ := (exists_of_forall₂ (hl.thin k')).1 e he
    rw [hthin.uniqid]
    exact h.removed k' e' he'

/-- The elements of a loaded configuration are arrays. -/
theorem isArray_of_loaded (h : Loaded config) {e : Val} (he : e ∈ elements config k) : e.isArray = true := by
  obtain ⟨u, -, hu⟩ := h.wellFormed.uniqids k e he
  obtain ⟨start, hstart, hprefix⟩ := h.starts k e he u hu
  exact isArray_of_uniqid hstart hprefix hu

/-- The list of the kind has the other elements. -/
theorem lost_of_perm (h : Loaded config) {e : Val} (he : e ∈ elements config k) (hu : e.get "uniqid" = .str u)
    (hedited : Edited config')
    (hperm : (elements config' k).Perm ((elements config k).filter fun e => !isText u (e.get "uniqid")))
    (hother : ∀ k' ≠ k, elements config' k' = elements config k') : Lost k u config config' := by
  refine ⟨⟨fun k' => ⟨elements config' k', ?_, ?_, List.forall₂_same.2 fun e _ => .refl e⟩⟩, hedited, ?_⟩
  · by_cases hk : k' = k
    · subst hk
      exact hperm.subperm.trans List.filter_sublist.subperm
    · rw [hother k' hk]
  · intro e' he'
    by_cases hk : k' = k
    · subst hk
      by_cases hu' : e'.get "uniqid" = .str u
      · exact .inr ⟨rfl, hu'⟩
      · left
        rw [hperm.mem_iff, List.mem_filter]
        exact ⟨he', by simpa [isText] using hu'⟩
    · left
      rwa [hother k' hk]
  · intro k' e' he' hu'
    by_cases hk : k' = k
    · subst hk
      rw [hperm.mem_iff, List.mem_filter] at he'
      simp [isText, hu'] at he'
    · rw [hother k' hk] at he'
      obtain ⟨i, hi, rfl⟩ := List.getElem_of_mem he
      obtain ⟨j, hj, rfl⟩ := List.getElem_of_mem he'
      exact hk (h.wellFormed.eq_of_uniqid hj hi (hu'.trans hu.symm)).1

/-- Taking an element out loses it and nothing else. -/
theorem lost_withoutElement (h : Loaded config) {e : Val} (he : e ∈ elements config k)
    (hu : e.get "uniqid" = .str u) : Lost k u config (withoutElement k u config) := by
  apply lost_of_perm h he hu
  · exact (edited_of_loaded h).editList (keepsLoose_dropItems _) k
  · rw [withoutElement, elements_dropItems]
  · intro k' hk
    rw [withoutElement, elements_editList_of_ne hk]

end Lost

/-! ## Writing and reading back -/

section Compact

variable {config config' : Val} {k : Kind} {gone : Kind → Val → Prop}

/-- What is read back of a list of a section. -/
theorem get_compact_map {fs : List (Key × Val)} {n : String} (h : Loose (fun _ => True) (.arr fs)) (hn : n ∈ listtags) :
    ((compact (.arr fs)).get n).vals = ((Val.arr fs).get n).vals.map compact ∧
      ((compact (.arr fs)).get n = .null ∨ (compact (.arr fs)).get n = .str "" ∨
        ∃ xs, (compact (.arr fs)).get n = .ofList xs) := by
  -- a list tag holds a list, and writing drops it where it is empty
  cases h with
  | map hnodup hfs =>
    constructor
    · apply vals_compact_list hnodup hn
      intro v hv
      have hentry := hfs _ (Val.mem_of_lookup hv)
      generalize hx : ((Key.str n, v) : Key × Val) = x at hentry
      cases hentry with
      | list _ _ _ =>
        obtain ⟨-, rfl⟩ := Prod.mk.inj hx
        rfl
      | single _ hl _ =>
        obtain ⟨hkey, -⟩ := Prod.mk.inj hx
        exact absurd hn (Key.str.inj hkey ▸ hl)
    · by_cases hne : compactSub fs = []
      · rw [compact_arr, hne]
        exact .inr (.inl rfl)
      · rw [compact_arr, wrap_ne_nil hne, Val.get, Val.idx_arr]
        cases hlookup : (compactSub fs).lookup (.str n) with
        | none => exact .inl rfl
        | some x =>
          right
          right
          obtain ⟨e, he, hmem⟩ := mem_compactSub (Val.mem_of_lookup hlookup)
          have hcanonical := (hfs e he).canonical trivial _ hmem
          generalize hy : ((Key.str n, x) : Key × Val) = y at hcanonical
          cases hcanonical with
          | list _ _ _ _ =>
            obtain ⟨-, rfl⟩ := Prod.mk.inj hy
            exact ⟨_, rfl⟩
          | single _ hl _ =>
            obtain ⟨hkey, -⟩ := Prod.mk.inj hy
            exact absurd hn (Key.str.inj hkey ▸ hl)

/-- What is read back of a list of elements. -/
theorem listOf_compact (h : Edited config) (k : Kind) :
    elements (compact config) k = (elements config k).map compact ∧
      (listOf (compact config) k = .null ∨ listOf (compact config) k = .str "" ∨
        ∃ xs, listOf (compact config) k = .ofList xs) := by
  have hempty : ∀ n, (Val.str "").get n = .str "" := fun n => rfl
  rcases h.array with harr | rfl
  · have hloose := h.loose
    have hsections := h.sections k
    cases config with
    | arr es =>
      cases hloose with
      | map hnodup hes =>
        by_cases hne : compactSub es = []
        · -- nothing is left, not even a section
          have hnone : (Val.arr es).get k.sectionName = .null := by
            rw [Val.get, Val.idx_arr]
            cases hlookup : es.lookup (.str k.sectionName) with
            | none => rfl
            | some x => exact absurd hne (compactSub_ne_nil (sectionName_not_mem k) (Val.mem_of_lookup hlookup))
          have hcompact : compact (.arr es) = .str "" := by
            rw [compact_arr, hne]
            rfl
          unfold elements listOf
          rw [hcompact, hnone, hempty, hempty]
          exact ⟨rfl, .inr (.inl rfl)⟩
        · have hsection := get_compact_single hnodup (sectionName_not_mem k) hne
          unfold elements listOf
          rw [hsection]
          -- a section is missing, empty or a map with lists in it
          rcases hsections with hnull | hstr | harr'
          · rw [hnull, XmlParse.compact]
            exact ⟨rfl, .inl rfl⟩
          · rw [hstr, XmlParse.compact, hempty]
            exact ⟨rfl, .inr (.inl rfl)⟩
          · have hfs := loose_get h.loose (sectionName_not_mem k) harr'
            cases hget : (Val.arr es).get k.sectionName with
            | arr fs =>
              rw [hget] at hfs
              exact get_compact_map hfs (tagName_mem k)
            | _ =>
              rw [hget] at harr'
              cases harr'
    | _ => cases harr
  · unfold elements listOf
    rw [XmlParse.compact, hempty, hempty]
    exact ⟨rfl, .inr (.inl rfl)⟩

/-- What is read back has lost nothing but references. -/
theorem thin_compact (h : Loaded config) (hs : Shrunk gone config config') (he : Edited config') (k : Kind) :
    List.Forall₂ Thinner (elements (compact config') k) (elements config' k) := by
  rw [(listOf_compact he k).1, List.forall₂_map_left_iff]
  apply List.forall₂_same.2
  intro e' he'
  obtain ⟨e, hmem, hthin⟩ := hs.old he'
  obtain ⟨u, -, hu⟩ := h.wellFormed.uniqids k e hmem
  obtain ⟨start, hstart, hprefix⟩ := h.starts k e hmem u hu
  have hcanonical : Canonical (fun _ => True) e := by
    have hlist : listOf config k = .ofList (elements config k) := contiguous_of_mem h.wellFormed.lists hmem
    obtain ⟨items, hitems, hall⟩ := h.editable k (by rw [hlist]; rfl)
    apply hall
    rwa [elements, hitems, Val.vals_ofList] at hmem
  rw [← hthin.uniqid] at hu
  apply hthin.compact hcanonical (loose_elements he he')
  · rw [hu]
    exact Val.noConfusion
  · exact isArray_of_uniqid hstart hprefix hu

/-- What is read back is loaded. -/
theorem loaded_compact (h : Loaded config) (hs : Shrunk gone config config') (he : Edited config') :
    Loaded (compact config') := by
  have hshrunk : Shrunk gone config (compact config') := hs.thin (thin_compact h hs he)
  have hmaps : ∀ {es' es : List Val}, List.Forall₂ Thinner es' es →
      es'.map (·.get "uniqid") = es.map (·.get "uniqid") := by
    intro es' es hthin
    induction hthin with
    | nil => rfl
    | cons hab _ ih => rw [List.map_cons, List.map_cons, hab.uniqid, ih]
  -- what is left are elements of before, under the names they had
  have hsub : ∀ k, List.Subperm ((elements (compact config') k).map (·.get "uniqid"))
      ((elements config k).map (·.get "uniqid")) := by
    intro k
    obtain ⟨xs, ⟨l, hperm, hsub⟩, -, hthin⟩ := hshrunk.kept k
    rw [hmaps hthin]
    exact ⟨l.map _, hperm.map _, hsub.map _⟩
  refine ⟨⟨⟨fun k => ?_, fun k e' he' => ?_, ?_⟩, fun k e' he' u hu => ?_⟩, he.loose.canonical trivial⟩
  · rcases (listOf_compact he k).2 with hnull | hempty | ⟨xs, hxs⟩
    · exact .inl hnull
    · exact .inr (.inl hempty)
    · right
      right
      rw [hxs, Val.Contiguous, Val.vals_ofList]
  · obtain ⟨e, hmem, hthin⟩ := hshrunk.old he'
    rw [hthin.uniqid]
    exact h.wellFormed.uniqids k e hmem
  · obtain ⟨hnodup, hdisjoint⟩ := List.nodup_flatMap.1 h.wellFormed.distinct
    rw [List.nodup_flatMap]
    constructor
    · intro k hk
      obtain ⟨l, hperm, hsub⟩ := hsub k
      exact hperm.nodup_iff.1 ((hnodup k hk).sublist hsub)
    · apply hdisjoint.imp
      intro k k' hkk' v hv hv'
      exact hkk' ((hsub k).subset hv) ((hsub k').subset hv')
  · obtain ⟨e, hmem, hthin⟩ := hshrunk.old he'
    rw [hthin.uniqid] at hu
    exact h.starts k e hmem u hu

end Compact

end Pbx
end Askozia
