import Askozia.Pbx.Editing
import Askozia.Www.Lists

/-!
# Deletions in a row

Some deletions take out what refers to the element, and others forget a field that may have its
`uniqid`.

* `Clear` is the condition on a deletion, in the state before it, that no field it forgets names the
  element;
* `references_intact`: in a run of deletions that meet it no reference ever names what is gone.
-/

namespace Askozia
namespace Www

open Php Config Pbx XmlParse

/-! ## The deletions -/

/-- A request that deletes an element, by its `uniqid` or by its position on a page. -/
inductive Deletion where
  | phone (uniqid : String)
  | provider (uniqid : String)
  | fax (uniqid : String)
  | listed (p : Page) (id : String)
  | application (uniqid : String)
  | port (uniqid : String)
  | portgroup (uniqid : String)
  | gateway (uniqid : String)
deriving DecidableEq, Repr

namespace Deletion

variable (usort : Usort) (config : Val)

/-- The configuration after the request. -/
def apply : Deletion → Val
  | phone uniqid => (pbxDeletePhone uniqid (indexed config)).2.config
  | provider uniqid => (pbxDeleteProvider uniqid (indexed config)).2.config
  | fax uniqid => (pbxDeleteFax uniqid (indexed config)).2.config
  | listed p id => deleteAt usort p id config
  | application uniqid => applicationsDeleteApplication uniqid (indexed config)
  | port uniqid => dahdiForgetPort uniqid (indexed config)
  | portgroup uniqid => dahdiDeletePortgroup uniqid (indexed config)
  | gateway uniqid => redfoneForgetGateway uniqid (indexed config)

/-- The kinds of elements that the request is for. -/
def kinds : Deletion → List Kind
  | phone _ => phoneTypes
  | provider _ => providerTypes
  | fax _ => faxTypes
  | listed p _ => [p.kind]
  | application _ => [.application]
  | port _ => [.dahdiPort]
  | portgroup _ => [.dahdiPortgroup]
  | gateway _ => [.redfoneGateway]

/-- The `uniqid` of the element that is found before the request. Ports and the like are looked up by
an offset, which may be that of another element. -/
def target : Deletion → Val
  | phone uniqid => .str uniqid
  | provider uniqid => .str uniqid
  | fax uniqid => .str uniqid
  | listed p id => (atPosition usort p id config).get "uniqid"
  | application uniqid => (getElement (indexed config) .application uniqid).get "uniqid"
  | port uniqid => (getElement (indexed config) .dahdiPort uniqid).get "uniqid"
  | portgroup uniqid => (getElement (indexed config) .dahdiPortgroup uniqid).get "uniqid"
  | gateway uniqid => (getElement (indexed config) .redfoneGateway uniqid).get "uniqid"

/-- The fields that may name the element and that the request leaves alone. -/
def forgotten : Deletion → List Field
  | phone _ => []
  | provider _ => [.failover, .provideruniqid, .dialprovider]
  | fax _ => [.destinationid]
  | listed .callgroups _ => []
  | listed .rooms _ => [.destinationid]
  | application _ => [.destinationid]
  | port _ => [.port, .portmember]
  | portgroup _ => [.port]
  | gateway _ => [.port]

end Deletion

/-- The condition on a request, in the state before it: no other element names the one that is to be
deleted in a field that the request leaves alone. -/
def Clear (usort : Usort) (config : Val) (d : Deletion) : Prop :=
  ∀ k ∈ d.kinds, ∀ e ∈ elements config k, e.get "uniqid" = d.target usort config →
    ∀ f ∈ d.forgotten, ∀ k' ∈ f.owners, ∀ e' ∈ elements config k', ∀ v ∈ f.values e',
      f.refers v = true → Names k v (e.get "uniqid") → e' = e

/-- Runs of requests that all meet a condition. Each is written and read back before the next. -/
inductive Deletions (usort : Usort) (meets : Val → Deletion → Prop) (start : Val) : Val → Prop
  | start : Deletions usort meets start start
  | step {config : Val} {d : Deletion} : Deletions usort meets start config → meets config d →
      Deletions usort meets start (compact (d.apply usort config))

/-! ## One deletion -/

section Step

variable {usort : Usort} {config config' : Val} {d : Deletion} {k : Kind} {u : String}

/-- The element is named at most in some fields. -/
def Cleaned (forgotten : List Field) (k : Kind) (u : String) (config : Val) : Prop :=
  ∀ f ∉ forgotten, k ∈ f.kinds → ∀ v ∈ f.references config, ¬ Names k v (.str u)

/-- Requests for elements that no other field may name. -/
theorem cleaned_of_fields {forgotten : List Field} (h : ∀ f ∈ Field.all, k ∈ f.kinds → f ∈ forgotten) :
    Cleaned forgotten k u config :=
  fun f hf hk => absurd (h f f.mem_all hk) hf

theorem cleaned_phone (h : Edited config) (hk : k ∈ phoneTypes) :
    Cleaned [] k u (withoutMember u (withoutDestination u config)) := by
  have hfields : ∀ k ∈ phoneTypes, k ≠ .redfoneGateway ∧ ∀ f ∈ Field.all, k ∈ f.kinds →
      f = .destinationid ∨ f = .groupmember := by decide
  obtain ⟨hgateway, hfields⟩ := hfields k hk
  intro f _ hf v hv hnames
  rw [eq_of_names hgateway hnames] at hv
  rcases hfields f f.mem_all hf with rfl | rfl
  · exact not_mem_destination ((losing_member (losing_destination h u).edited u).references hv)
  · exact not_mem_member hv

theorem cleaned_provider (hk : k ∈ providerTypes) :
    Cleaned [.failover, .provideruniqid, .dialprovider] k u (withoutProvider u config) := by
  have hfields : ∀ k ∈ providerTypes, k ≠ .redfoneGateway ∧ ∀ f ∈ Field.all, k ∈ f.kinds →
      f ∈ [Field.failover, .provideruniqid, .dialprovider] ∨ f = .provider := by decide
  obtain ⟨hgateway, hfields⟩ := hfields k hk
  intro f hforgotten hf v hv hnames
  rw [eq_of_names hgateway hnames] at hv
  obtain rfl := (hfields f f.mem_all hf).resolve_left hforgotten
  exact not_mem_provider hv

theorem cleaned_fax (hk : k ∈ faxTypes) (harr : ∀ k, ∀ e ∈ elements config k, e.isArray = true) :
    Cleaned [.destinationid] k u (withoutDefaultfax u config) := by
  have hfields : ∀ k ∈ faxTypes, k ≠ .redfoneGateway ∧ ∀ f ∈ Field.all, k ∈ f.kinds →
      f ∈ [Field.destinationid] ∨ f = .defaultfax := by decide
  obtain ⟨hgateway, hfields⟩ := hfields k hk
  intro f hforgotten hf v hv hnames
  rw [eq_of_names hgateway hnames] at hv
  obtain rfl := (hfields f f.mem_all hf).resolve_left hforgotten
  exact not_mem_defaultfax harr hv

/-- Taking out a position of a list takes out the element with its `uniqid`. -/
theorem eraseIdx_eq_filter {xs : List Val} (h : (xs.map (·.get "uniqid")).Nodup) {i : ℕ} (hi : i < xs.length)
    (hu : (xs[i]).get "uniqid" = .str u) : xs.eraseIdx i = xs.filter fun e => !isText u (e.get "uniqid") := by
  have hunset : (Val.ofList xs).unset (.int i) = (Val.ofList xs).dropItems fun e => isText u (e.get "uniqid") := by
    apply Val.unset_ofList
    intro j hj
    by_cases hji : j = i
    · subst hji
      simp [isText, hu]
    · have hne : (xs[j]).get "uniqid" ≠ .str u := by
        intro hju
        have hj' : j < (xs.map (·.get "uniqid")).length := by rwa [List.length_map]
        have hi' : i < (xs.map (·.get "uniqid")).length := by rwa [List.length_map]
        have hsame : (xs.map (·.get "uniqid"))[j] = (xs.map (·.get "uniqid"))[i] := by
          rw [List.getElem_map, List.getElem_map, hju, hu]
        exact hji (h.getElem_inj_iff.1 hsame)
      simp [isText, hji, hne]
  have hvals := congrArg Val.vals hunset
  rwa [vals_unset_ofList, Val.vals_dropItems, Val.vals_ofList] at hvals

/-- What is left of the list after a position was taken out. -/
theorem lost_setList (h : Loaded config) {p : Page} {i : ℕ} (hi : i < (shown usort p config).length)
    (hu : ((shown usort p config)[i]).get "uniqid" = .str u) :
    Lost p.kind u config (setList config p.kind (.ofList ((shown usort p config).eraseIdx i))) := by
  have hmem : (shown usort p config)[i] ∈ elements config p.kind := mem_shown.1 (List.getElem_mem hi)
  have hlist : listOf config p.kind = .ofList (elements config p.kind) := contiguous_of_mem h.wellFormed.lists hmem
  have harr : (listOf config p.kind).isArray = true := by
    rw [hlist]
    rfl
  have hperm : (shown usort p config).Perm (elements config p.kind) := usort.perm _ _
  apply lost_of_perm h hmem hu
  · rw [setList_eq_editList (F := fun _ => .ofList ((shown usort p config).eraseIdx i)) harr]
    apply (edited_of_loaded h).editList
    intro items _
    refine ⟨_, rfl, ?_⟩
    intro e he
    obtain ⟨⟨x, j⟩, hx, rfl⟩ := List.mem_map.1 he
    have hx : x ∈ (shown usort p config).eraseIdx i := (List.mem_zipIdx' hx).2 ▸ List.getElem_mem _
    exact loose_elements (edited_of_loaded h) (mem_shown.1 (List.mem_of_mem_eraseIdx hx))
  · rw [elements_setList, eraseIdx_eq_filter _ hi hu]
    · exact hperm.filter _
    · rw [(hperm.map _).nodup_iff]
      exact (List.nodup_flatMap.1 h.wellFormed.distinct).1 _ p.kind.mem_all
  · intro k hk
    rw [elements_setList_of_ne hk]

/-- Closing the gaps in the mappings loses nothing. -/
theorem losing_closeMappings (h : Edited config) : Losing config (closeMappings config) := by
  apply losing_foldl h (by decide) (by decide) _ rfl
  · intro items hitems
    refine ⟨_, rfl, ?_⟩
    intro e he
    obtain ⟨⟨x, j⟩, hx, rfl⟩ := List.mem_map.1 he
    have hx : x ∈ (Val.arr items).vals := (List.mem_zipIdx' hx).2 ▸ List.getElem_mem _
    obtain ⟨e', he', rfl⟩ := List.mem_map.1 hx
    exact hitems e' he'
  · intro x
    split_ifs
    · rw [Val.vals_ofList]
      exact List.Subset.refl _
    · exact List.Subset.refl _

/-- A link to delete takes out the element at the position, or nothing. -/
theorem deleteAt_lost (h : Loaded config) (usort : Usort) (p : Page) (id : String) :
    (∃ e ∈ elements config p.kind, ∃ u, e.get "uniqid" = .str u ∧ atPosition usort p id config = e ∧
      Lost p.kind u config (deleteAt usort p id config) ∧
      Cleaned (Deletion.listed p id).forgotten p.kind u (deleteAt usort p id config)) ∨
    deleteAt usort p id config = config := by
  by_cases htruthy : (atPosition usort p id config).truthy = true
  · left
    rcases atPosition_cases usort p id config with hnone | ⟨i, hi, hkey, hat⟩
    · rw [hnone] at htruthy
      cases htruthy
    · have hmem : (shown usort p config)[i] ∈ elements config p.kind := mem_shown.1 (List.getElem_mem hi)
      obtain ⟨u, hne, hu⟩ := h.wellFormed.uniqids p.kind _ hmem
      obtain ⟨start, hstart, hprefix⟩ := h.starts p.kind _ hmem u hu
      have hnumber := (number?_of_start hstart hprefix).1
      -- the element is taken out of the list that was shown
      have hlost := lost_setList h hi hu
      refine ⟨_, hmem, u, hu, hat, ?_⟩
      unfold deleteAt
      rw [if_pos htruthy]
      dsimp only
      rw [hkey, hat, hu, vals_unset_ofList]
      -- for a call group the mappings to it go as well; a room is left in them
      cases p with
      | callgroups =>
        have hproviders : ∀ t, Editable (setList config Page.callgroups.kind
            (.ofList ((shown usort .callgroups config).eraseIdx i))) (.provider t) := by
          intro t
          have harr : (listOf config Page.callgroups.kind).isArray = true := by
            have hlist : listOf config Page.callgroups.kind = .ofList (elements config Page.callgroups.kind) :=
              contiguous_of_mem h.wellFormed.lists hmem
            rw [hlist]
            rfl
          unfold Editable
          rw [setList_eq_editList (F := fun _ => .ofList _) harr, listOf_editList_of_ne Kind.noConfusion]
          exact h.editable (.provider t)
        show Lost _ _ _ (closeMappings (dialplanRemoveIncomingextensionmapReferenceFromProviders u _)) ∧
          Cleaned _ _ _ (closeMappings (dialplanRemoveIncomingextensionmapReferenceFromProviders u _))
        rw [removeDestination_eq hnumber hne hproviders]
        have hdestination := losing_destination hlost.edited u
        have hclosed := losing_closeMappings hdestination.edited
        refine ⟨(hlost.losing hdestination).losing hclosed, ?_⟩
        have hfields : ∀ f ∈ Field.all, .callgroup ∈ f.kinds → f = .destinationid := by decide
        intro f _ hf v hv hnames
        rw [eq_of_names Kind.noConfusion hnames, hfields f f.mem_all hf] at hv
        exact not_mem_destination (hclosed.references hv)
      | rooms =>
        have hfields : ∀ f ∈ Field.all, Kind.room ∈ f.kinds → f ∈ [Field.destinationid] := by decide
        exact ⟨hlost, cleaned_of_fields hfields⟩
  · right
    unfold deleteAt
    rw [if_neg htruthy]

/-- Forgetting by offset takes out the element that is found under it, or nothing. -/
theorem unsetElement_lost (h : Loaded config) (k : Kind) (uniqid : String) {forgotten : List Field}
    (hfields : ∀ f ∈ Field.all, k ∈ f.kinds → f ∈ forgotten) :
    (∃ e ∈ elements config k, ∃ u, e.get "uniqid" = .str u ∧ getElement (indexed config) k uniqid = e ∧
      Lost k u config (unsetElement k uniqid (indexed config)) ∧
      Cleaned forgotten k u (unsetElement k uniqid (indexed config))) ∨
    unsetElement k uniqid (indexed config) = config := by
  rcases unsetElement_cases h.wellFormed k uniqid with ⟨e, he, u, hu, hget, hunset⟩ | hsame
  · left
    rw [hunset]
    exact ⟨e, he, u, hu, hget, lost_withoutElement h he hu, cleaned_of_fields hfields⟩
  · exact .inr hsame

/-- A request takes out the element that it finds, or nothing. -/
theorem apply_cases (h : Loaded config) (usort : Usort) (d : Deletion) :
    (∃ k ∈ d.kinds, ∃ e ∈ elements config k, ∃ u, e.get "uniqid" = .str u ∧ d.target usort config = .str u ∧
      Lost k u config (d.apply usort config) ∧ Cleaned d.forgotten k u (d.apply usort config)) ∨
    d.apply usort config = config := by
  -- the pages that only take the element out
  have hforget : ∀ (k : Kind) (uniqid : String) (forgotten : List Field),
      (∀ f ∈ Field.all, k ∈ f.kinds → f ∈ forgotten) →
      (∃ k' ∈ [k], ∃ e ∈ elements config k', ∃ u, e.get "uniqid" = .str u ∧
        (getElement (indexed config) k uniqid).get "uniqid" = .str u ∧
        Lost k' u config (unsetElement k uniqid (indexed config)) ∧
        Cleaned forgotten k' u (unsetElement k uniqid (indexed config))) ∨
      unsetElement k uniqid (indexed config) = config := by
    intro k uniqid forgotten hfields
    rcases unsetElement_lost h k uniqid hfields with ⟨e, he, u, hu, rfl, hlost, hcleaned⟩ | hsame
    · exact .inl ⟨k, List.mem_singleton_self k, _, he, u, hu, hu, hlost, hcleaned⟩
    · exact .inr hsame
  have hfields : (∀ f ∈ Field.all, Kind.application ∈ f.kinds → f ∈ [Field.destinationid]) ∧
      (∀ f ∈ Field.all, Kind.dahdiPort ∈ f.kinds → f ∈ [Field.port, Field.portmember]) ∧
      (∀ f ∈ Field.all, Kind.dahdiPortgroup ∈ f.kinds → f ∈ [Field.port]) ∧
      ∀ f ∈ Field.all, Kind.redfoneGateway ∈ f.kinds → f ∈ [Field.port] := by decide
  obtain ⟨happlication, hport, hportgroup, hgateway⟩ := hfields
  -- what each page does besides: references to phones, providers and faxes
  cases d with
  | phone uniqid =>
    apply (pbxDeletePhone_cases h uniqid).imp_left
    rintro ⟨k, hk, e, he, hu, hdelete⟩
    have hlost := lost_withoutElement h he hu
    have hdestination := losing_destination hlost.edited uniqid
    refine ⟨k, hk, e, he, uniqid, hu, rfl, ?_⟩
    rw [Deletion.apply, hdelete]
    exact ⟨(hlost.losing hdestination).losing (losing_member hdestination.edited uniqid),
      cleaned_phone hlost.edited hk⟩
  | provider uniqid =>
    apply (pbxDeleteProvider_cases h uniqid).imp_left
    rintro ⟨k, hk, e, he, hu, hdelete⟩
    have hlost := lost_withoutElement h he hu
    refine ⟨k, hk, e, he, uniqid, hu, rfl, ?_⟩
    rw [Deletion.apply, hdelete]
    exact ⟨hlost.losing (losing_provider hlost.edited uniqid), cleaned_provider hk⟩
  | fax uniqid =>
    apply (pbxDeleteFax_cases h uniqid).imp_left
    rintro ⟨k, hk, e, he, hu, hdelete⟩
    have hlost := lost_withoutElement h he hu
    refine ⟨k, hk, e, he, uniqid, hu, rfl, ?_⟩
    rw [Deletion.apply, hdelete]
    refine ⟨hlost.losing (losing_defaultfax hlost.edited uniqid), cleaned_fax hk ?_⟩
    intro k' e' he'
    rw [withoutElement] at he'
    by_cases hk' : k' = k
    · rw [hk', elements_dropItems] at he'
      exact isArray_of_loaded h (List.mem_filter.1 he').1
    · rw [elements_editList_of_ne hk'] at he'
      exact isArray_of_loaded h he'
  | listed p id =>
    rcases deleteAt_lost h usort p id with ⟨e, he, u, hu, hat, hlost, hcleaned⟩ | hsame
    · left
      refine ⟨p.kind, List.mem_singleton_self _, e, he, u, hu, ?_, hlost, hcleaned⟩
      show (atPosition usort p id config).get "uniqid" = _
      rw [hat, hu]
    · exact .inr hsame
  | application uniqid => exact hforget .application uniqid _ happlication
  | port uniqid => exact hforget .dahdiPort uniqid _ hport
  | portgroup uniqid => exact hforget .dahdiPortgroup uniqid _ hportgroup
  | gateway uniqid => exact hforget .redfoneGateway uniqid _ hgateway

/-- What a request that meets the condition leaves behind, after it was written and read back. -/
theorem step_of_clear (h : Loaded config) (hclear : Clear usort config d) :
    Loaded (compact (d.apply usort config)) ∧ ∃ gone : Kind → Val → Prop,
      Shrunk gone config (compact (d.apply usort config)) ∧
      ∀ f : Field, ∀ v ∈ f.references (compact (d.apply usort config)), ∀ k ∈ f.kinds,
        ∀ e ∈ elements config k, gone k e → ¬ Names k v (e.get "uniqid") := by
  rcases apply_cases h usort d with ⟨k, hk, e, he, u, hu, htarget, hlost, hcleaned⟩ | hsame
  · have hloaded := loaded_compact h hlost.shrunk hlost.edited
    have hlosing : Losing (d.apply usort config) (compact (d.apply usort config)) :=
      ⟨thin_compact h hlost.shrunk hlost.edited, edited_of_loaded hloaded⟩
    have hfinal := hlost.losing hlosing
    refine ⟨hloaded, _, hfinal.shrunk, ?_⟩
    rintro f v hv k' hk' e' - ⟨rfl, hu'⟩ hnames
    rw [hu'] at hnames
    by_cases hf : f ∈ d.forgotten
    · -- only the element itself names it, and that is gone
      obtain ⟨k₁, hk₁, e₁, he₁, hvalue, hrefers⟩ := Field.mem_references.1 hv
      obtain ⟨e₀, he₀, hthin⟩ := hfinal.shrunk.old he₁
      have hself : e₀ = e := by
        apply hclear k' hk e he (hu.trans htarget.symm) f hf k₁ hk₁ e₀ he₀ v (hthin.values hvalue hrefers) hrefers
        rwa [hu]
      apply hfinal.removed k₁ e₁ he₁
      rw [hthin.uniqid, hself, hu]
    · exact hcleaned f hf hk' v (hlosing.references hv) hnames
  · rw [hsame, h.canonical.compact]
    exact ⟨h, fun _ _ => False, .refl _ _, fun _ _ _ _ _ _ _ hgone => hgone.elim⟩

end Step

/-! ## Runs of deletions -/

section Runs

variable {usort : Usort} {start config : Val}

/-- No reference names an element of a configuration that is gone from it since. -/
def NoneGone (start config : Val) : Prop :=
  ∀ f : Field, ∀ v ∈ f.references config, ∀ k ∈ f.kinds, ∀ e ∈ elements start k, Names k v (e.get "uniqid") →
    ∃ e' ∈ elements config k, e'.get "uniqid" = e.get "uniqid"

/-- In every run whose requests meet the condition, from a loaded configuration in which every
reference names an element, every reference still names one, and none names one that was deleted. -/
theorem references_intact (hstart : Loaded start) (hintact : Intact start)
    (hrun : Deletions usort (Clear usort) start config) : Intact config ∧ NoneGone start config := by
  -- along the run three things are kept together: loaded, intact, and nothing referred to is gone
  have hall : Loaded config ∧ Intact config ∧ NoneGone start config := by
    induction hrun with
    | start => exact ⟨hstart, hintact, fun _ _ _ _ _ e he _ => ⟨e, he, rfl⟩⟩
    | step _ hclear ih =>
      obtain ⟨hloaded, hintact, hnone⟩ := ih
      obtain ⟨hloaded', gone, hshrunk, hgone⟩ := step_of_clear hloaded hclear
      refine ⟨hloaded', intact_of_shrunk hshrunk hintact hgone, ?_⟩
      intro f v hv k hk e he hnames
      obtain ⟨e₁, he₁, hu₁⟩ := hnone f v (hshrunk.references hv) k hk e he hnames
      rw [← hu₁] at hnames ⊢
      rcases hshrunk.left he₁ with hlost | hleft
      · exact absurd hnames (hgone f v hv k hk e₁ he₁ hlost)
      · exact hleft
  exact hall.2

end Runs

/-! ## An office and a provider with a failover -/

/-- The references of a configuration can be checked one by one. -/
theorem intact_of_all (config : Val) (h : ∀ f ∈ Field.all, ∀ v ∈ f.references config,
    ∃ k ∈ f.kinds, ∃ e ∈ elements config k, if k = .redfoneGateway then
      Val.str (Dahdi.spanGateway v.toStr) = e.get "uniqid" else v = e.get "uniqid") : Intact config :=
  fun f => h f f.mem_all

theorem intact_office : Intact office := intact_of_all office (by decide)

/-- The fax of the office is deleted, which only the provider has as its default, and then a phone. -/
theorem references_intact_office :
    Intact (compact ((Deletion.phone "SIP-PHONE-1").apply insertionUsort
      (compact ((Deletion.fax "VIRTUAL-FAX-1").apply insertionUsort office)))) := by
  -- no mapping leads to the fax
  have hclear : Clear insertionUsort office (.fax "VIRTUAL-FAX-1") := by
    have hall : ∀ k ∈ faxTypes, ∀ e ∈ elements office k, ∀ k' ∈ Field.destinationid.owners,
        ∀ e' ∈ elements office k', ∀ v ∈ Field.destinationid.values e', v ≠ e.get "uniqid" := by decide
    intro k hk e he _ f hf k' hk' e' he' v hv _ hnames
    obtain rfl := List.mem_singleton.1 hf
    have hgateway : ∀ k ∈ faxTypes, k ≠ .redfoneGateway := by decide
    exact absurd (eq_of_names (hgateway k hk) hnames) (hall k hk e he k' hk' e' he' v hv)
  have hphone : ∀ config, Clear insertionUsort config (.phone "SIP-PHONE-1") :=
    fun config k hk e he hu f hf => absurd hf List.not_mem_nil
  exact (references_intact loaded_office intact_office (.step (.step .start hclear) (hphone _))).1

/-- A provider that fails over to another one. -/
def twoProviders : Val :=
  .arr [(.str "sip", .arr [(.str "provider", .ofList [
    .arr [(.str "uniqid", .str "SIP-PROVIDER-1"), (.str "failover", .str "SIP-PROVIDER-2")],
    .arr [(.str "uniqid", .str "SIP-PROVIDER-2")]])])]

theorem loaded_twoProviders : Loaded twoProviders :=
  loaded_of_all (wellFormed_of_all (by decide) (by decide) (by decide)) (by decide) (by decide)

/-- The first provider still fails over to the second after that was deleted. -/
theorem not_references_intact :
    ¬ ∀ (usort : Usort) (start config : Val), Loaded start → Intact start →
      Deletions usort (fun _ _ => True) start config → NoneGone start config := by
  intro h
  have hnone := h insertionUsort twoProviders _ loaded_twoProviders (intact_of_all _ (by decide))
    (.step (d := .provider "SIP-PROVIDER-2") .start trivial) .failover (.str "SIP-PROVIDER-2") (by decide)
    (.provider .sip) (by decide) (.arr [(.str "uniqid", .str "SIP-PROVIDER-2")]) (by decide)
    (by rw [Names, if_neg Kind.noConfusion]; rfl)
  revert hnone
  decide

end Www
end Askozia
