import Askozia.Dahdi.Chan
import Askozia.Pbx.Delete
import Askozia.XmlParse.Edited

/-!
# What refers to what

Elements refer to others by their `uniqid`: the incoming maps of a provider to where calls go, a phone
to its providers, an account to its port.

* `Intact` says that every reference names an element that is stored;
* `Shrunk` is what deleting does: some elements are gone, and the others have lost nothing but
  references;
* `intact_of_shrunk`: the references stay intact if what is left of them names nothing that is gone.
-/

namespace Askozia
namespace Pbx

open Php Config XmlParse Dahdi

/-! ## Fields -/

/-- The fields that refer to other elements. -/
inductive Field where
  | destinationid
  | defaultfax
  | failover
  | port
  | provider
  | provideruniqid
  | dialprovider
  | groupmember
  | portmember
deriving DecidableEq, Repr

namespace Field

/-- All fields. -/
def all : List Field :=
  [destinationid, defaultfax, failover, port, provider, provideruniqid, dialprovider, groupmember, portmember]

theorem mem_all (f : Field) : f ∈ all := by cases f <;> decide

/-- The kinds of elements that have the field. -/
def owners : Field → List Kind
  | destinationid => technologies.map .provider
  | defaultfax => technologies.map .provider
  | failover => technologies.map .provider
  | port => [.provider .isdn, .provider .analog, .phone .isdn, .phone .analog, .fax .analog]
  | provider => technologies.map .phone
  | provideruniqid => technologies.map .phone
  | dialprovider => [.externalPhone]
  | groupmember => [.callgroup]
  | portmember => [.dahdiPortgroup]

/-- The kinds of elements that the field may name. -/
def kinds : Field → List Kind
  | destinationid => phoneTypes ++ faxTypes ++ [.callgroup, .room, .application]
  | defaultfax => faxTypes
  | failover => providerTypes
  | port => [.dahdiPort, .dahdiPortgroup, .redfoneGateway]
  | provider => providerTypes
  | provideruniqid => providerTypes
  | dialprovider => providerTypes
  | groupmember => phoneTypes
  | portmember => [.dahdiPort]

/-- What an element has in the field. -/
def values (f : Field) (e : Val) : List Val :=
  match f with
  | destinationid => (e.get "incomingextensionmap").vals.map (·.get "destinationid")
  | defaultfax => [e.get "defaultfax"]
  | failover => [e.get "failover"]
  | port => [e.get "port"]
  | provider => (e.get "provider").vals
  | provideruniqid => (e.get "outgoingcalleridmap").vals.map (·.get "provideruniqid")
  | dialprovider => [e.get "dialprovider"]
  | groupmember => (e.get "groupmember").vals
  | portmember => (e.get "groupmember").vals

/-- The value refers to something. An external phone may be dialled without a provider. -/
def refers (f : Field) (v : Val) : Bool :=
  v.truthy && !(f == dialprovider && (v == .str "sipuri" || v == .str "iaxuri"))

/-- The references of a configuration in the field. -/
def references (config : Val) (f : Field) : List Val :=
  ((f.owners.flatMap (elements config)).flatMap f.values).filter f.refers

theorem mem_references {config v : Val} {f : Field} :
    v ∈ f.references config ↔
      ∃ k ∈ f.owners, ∃ e ∈ elements config k, v ∈ f.values e ∧ f.refers v = true := by
  rw [references, List.mem_filter, List.mem_flatMap]
  constructor
  · rintro ⟨⟨e, he, hv⟩, hrefers⟩
    obtain ⟨k, hk, he⟩ := List.mem_flatMap.1 he
    exact ⟨k, hk, e, he, hv, hrefers⟩
  · rintro ⟨k, hk, e, he, hv, hrefers⟩
    exact ⟨⟨e, List.mem_flatMap.2 ⟨k, hk, he⟩, hv⟩, hrefers⟩

end Field

/-- The value names the element of a kind with the `uniqid`. The port of a provider may be a span of a
gateway. -/
def Names (k : Kind) (v uniqid : Val) : Prop :=
  if k = .redfoneGateway then .str (spanGateway v.toStr) = uniqid else v = uniqid

theorem eq_of_names {k : Kind} {v uniqid : Val} (hk : k ≠ .redfoneGateway) (h : Names k v uniqid) :
    v = uniqid := by rwa [Names, if_neg hk] at h

/-- Every reference names an element that is stored, of a kind that the field may name. -/
def Intact (config : Val) : Prop :=
  ∀ f : Field, ∀ v ∈ f.references config,
    ∃ k ∈ f.kinds, ∃ e ∈ elements config k, Names k v (e.get "uniqid")

/-! ## Losing references -/

/-- An element that has lost nothing but items of its lists and some other fields. -/
structure Thinner (e' e : Val) : Prop where
  single : ∀ n ∉ listtags, e'.get n = e.get n ∨ n ≠ "uniqid" ∧ e'.get n = .null
  list : ∀ n ∈ listtags, (e'.get n).vals ⊆ (e.get n).vals

section Thinner

variable {e e' e'' : Val} {n : String} {F : Val → Val}

theorem Thinner.refl (e : Val) : Thinner e e := ⟨fun _ _ => .inl rfl, fun _ _ _ h => h⟩

theorem Thinner.trans (h' : Thinner e'' e') (h : Thinner e' e) : Thinner e'' e := by
  constructor
  · intro n hn
    rcases h'.single n hn with heq | hnull
    · rw [heq]
      exact h.single n hn
    · exact .inr hnull
  · exact fun n hn v hv => h.list n hn (h'.list n hn hv)

theorem Thinner.uniqid (h : Thinner e' e) : e'.get "uniqid" = e.get "uniqid" :=
  (h.single "uniqid" (by decide)).resolve_right fun hnull => hnull.1 rfl

/-- What is left in a field was there before. -/
theorem Thinner.values (h : Thinner e' e) {f : Field} {v : Val} (hv : v ∈ f.values e')
    (hrefers : f.refers v = true) : v ∈ f.values e := by
  have hsingle : ∀ n ∉ listtags, v ∈ [e'.get n] → v ∈ [e.get n] := by
    intro n hn hv
    rcases h.single n hn with heq | ⟨-, hnull⟩
    · rwa [heq] at hv
    · rw [hnull] at hv
      rw [List.mem_singleton.1 hv] at hrefers
      exact absurd hrefers Bool.false_ne_true
  have hmaps : ∀ n ∈ listtags, ∀ m, v ∈ (e'.get n).vals.map (·.get m) → v ∈ (e.get n).vals.map (·.get m) :=
    fun n hn m hv => List.map_subset _ (h.list n hn) hv
  cases f with
  | destinationid => exact hmaps _ (by decide) _ hv
  | defaultfax => exact hsingle _ (by decide) hv
  | failover => exact hsingle _ (by decide) hv
  | port => exact hsingle _ (by decide) hv
  | provider => exact h.list _ (by decide) hv
  | provideruniqid => exact hmaps _ (by decide) _ hv
  | dialprovider => exact hsingle _ (by decide) hv
  | groupmember => exact h.list _ (by decide) hv
  | portmember => exact h.list _ (by decide) hv

/-- A list with fewer items. -/
theorem thinner_mapAt (hn : n ∈ listtags) (hF : ∀ x, (F x).vals ⊆ x.vals) (hnull : F .null = .null)
    (e : Val) : Thinner (e.mapAt (.str n) F) e := by
  cases e with
  | arr es =>
    constructor
    · intro m hm
      left
      apply Val.idx_mapAt_of_ne
      intro heq
      rw [Key.str.inj heq] at hm
      exact hm hn
    · intro m _
      by_cases hmn : m = n
      · subst hmn
        have hself : ((Val.arr es).mapAt (.str m) F).get m = F ((Val.arr es).get m) :=
          Val.idx_mapAt_self (fun s => Val.noConfusion) hnull
        rw [hself]
        exact hF _
      · have hother : ((Val.arr es).mapAt (.str n) F).get m = (Val.arr es).get m :=
          Val.idx_mapAt_of_ne fun heq => hmn (Key.str.inj heq)
        rw [hother]
        exact fun _ h => h
  | _ => exact .refl _

/-- A field that is dropped. -/
theorem thinner_dropAt (hn : n ∉ listtags) (huniqid : n ≠ "uniqid") (p : Val → Bool) (e : Val)
    (hnodup : (e.entries.map Prod.fst).Nodup) : Thinner (e.dropAt (.str n) p) e := by
  cases e with
  | arr es =>
    -- a field is as it was, or it is the one that was dropped
    have hlookup : ∀ m, ((es.filter fun x => !(x.1 == Key.str n && p x.2)).lookup (.str m)) = es.lookup (.str m) ∨
        m = n ∧ (es.filter fun x => !(x.1 == Key.str n && p x.2)).lookup (.str m) = none := by
      intro m
      cases hleft : (es.filter fun x => !(x.1 == Key.str n && p x.2)).lookup (.str m) with
      | some x =>
        left
        exact (Val.lookup_of_mem hnodup (List.mem_filter.1 (Val.mem_of_lookup hleft)).1).symm
      | none =>
        cases hx : es.lookup (.str m) with
        | none => exact .inl rfl
        | some x =>
          right
          refine ⟨?_, rfl⟩
          by_contra hne
          have hkept : (Key.str m, x) ∈ es.filter fun x => !(x.1 == Key.str n && p x.2) :=
            List.mem_filter.2 ⟨Val.mem_of_lookup hx, by simp [hne]⟩
          have hnodup' : ((es.filter fun x => !(x.1 == Key.str n && p x.2)).map Prod.fst).Nodup :=
            hnodup.sublist (List.Sublist.map _ List.filter_sublist)
          rw [Val.lookup_of_mem hnodup' hkept] at hleft
          cases hleft
    have hget : ∀ m, ((Val.arr es).dropAt (.str n) p).get m = (Val.arr es).get m ∨
        m = n ∧ ((Val.arr es).dropAt (.str n) p).get m = .null := by
      intro m
      rw [Val.dropAt, Val.get, Val.get, Val.idx_arr, Val.idx_arr]
      rcases hlookup m with heq | ⟨hm, hnone⟩
      · left
        rw [heq]
      · right
        rw [hnone]
        exact ⟨hm, rfl⟩
    constructor
    · intro m _
      rcases hget m with heq | ⟨rfl, hnull⟩
      · exact .inl heq
      · exact .inr ⟨huniqid, hnull⟩
    · intro m hm
      rcases hget m with heq | ⟨rfl, -⟩
      · rw [heq]
        exact fun _ h => h
      · exact absurd hm hn
  | _ => exact .refl _

/-- Writing what was edited loses nothing else. -/
theorem Thinner.compact (h : Thinner e' e) (he : Canonical (fun _ => True) e)
    (hloose : Loose (fun _ => True) e') (huniqid : e'.get "uniqid" ≠ .null) (harr : e'.isArray = true) :
    Thinner (compact e') e' := by
  cases hloose with
  | str _ => cases harr
  | int _ => cases harr
  | @map es hnodup hes =>
    have hne : compactSub es ≠ [] := by
      cases hx : es.lookup (.str "uniqid") with
      | none =>
        exfalso
        apply huniqid
        rw [Val.get, Val.idx_arr, hx]
        rfl
      | some x => exact compactSub_ne_nil (by decide) (Val.mem_of_lookup hx)
    constructor
    · intro n hn
      left
      rw [get_compact_single hnodup hn hne]
      -- what is no list is as it was
      rcases h.single n hn with heq | ⟨-, hnull⟩
      · rw [heq]
        rcases canonical_get he hn with hnull | hcanonical
        · rw [hnull, XmlParse.compact]
        · exact hcanonical.compact
      · rw [hnull, XmlParse.compact]
    · intro n hn
      have hlist : ∀ v, es.lookup (.str n) = some v → v.isArray = true := by
        intro v hv
        generalize heq : ((Key.str n, v) : Key × Val) = entry
        have hentry := hes _ (Val.mem_of_lookup hv)
        rw [heq] at hentry
        cases hentry with
        | list _ _ _ =>
          obtain ⟨-, rfl⟩ := Prod.mk.inj heq
          rfl
        | single _ hl _ =>
          obtain ⟨hkey, -⟩ := Prod.mk.inj heq
          exact absurd hn (Key.str.inj hkey ▸ hl)
      rw [vals_compact_list hnodup hn hlist]
      intro v hv
      obtain ⟨w, hw, rfl⟩ := List.mem_map.1 hv
      have hold := h.list n hn hw
      have hcanonical : Canonical (fun _ => True) w := by
        by_cases harr : (e.get n).isArray = true
        · obtain ⟨items, hitems, hall⟩ := canonical_get_list he hn harr
          rw [hitems, Val.vals_ofList] at hold
          exact hall w hold
        · cases hget : e.get n with
          | arr es =>
            rw [hget] at harr
            exact absurd rfl harr
          | _ =>
            rw [hget] at hold
            cases hold
      rwa [hcanonical.compact]

end Thinner

/-! ## Losing elements -/

/-- Some elements are gone, and the others have lost nothing but references. -/
structure Shrunk (gone : Kind → Val → Prop) (config config' : Val) : Prop where
  kept : ∀ k, ∃ xs, List.Subperm xs (elements config k) ∧
    (∀ e ∈ elements config k, e ∈ xs ∨ gone k e) ∧ List.Forall₂ Thinner (elements config' k) xs

section Shrunk

variable {gone : Kind → Val → Prop} {config config' : Val} {k : Kind}

theorem Shrunk.refl (gone : Kind → Val → Prop) (config : Val) : Shrunk gone config config :=
  ⟨fun k => ⟨elements config k, List.Subperm.refl _, fun _ h => .inl h,
    List.forall₂_same.2 fun e _ => .refl e⟩⟩

theorem exists_of_forall₂ {α β : Type} {R : α → β → Prop} {as : List α} {bs : List β}
    (h : List.Forall₂ R as bs) : (∀ a ∈ as, ∃ b ∈ bs, R a b) ∧ ∀ b ∈ bs, ∃ a ∈ as, R a b := by
  induction h with
  | nil => exact ⟨fun _ h => absurd h List.not_mem_nil, fun _ h => absurd h List.not_mem_nil⟩
  | @cons a b as bs hab _ ih =>
    constructor
    · intro x hx
      rcases List.mem_cons.1 hx with rfl | hx
      · exact ⟨b, List.mem_cons_self, hab⟩
      · obtain ⟨y, hy, hxy⟩ := ih.1 x hx
        exact ⟨y, List.mem_cons_of_mem _ hy, hxy⟩
    · intro y hy
      rcases List.mem_cons.1 hy with rfl | hy
      · exact ⟨a, List.mem_cons_self, hab⟩
      · obtain ⟨x, hx, hxy⟩ := ih.2 y hy
        exact ⟨x, List.mem_cons_of_mem _ hx, hxy⟩

/-- What is left was there before. -/
theorem Shrunk.old (h : Shrunk gone config config') {e' : Val} (he : e' ∈ elements config' k) :
    ∃ e ∈ elements config k, Thinner e' e := by
  obtain ⟨xs, hsub, -, hthin⟩ := h.kept k
  obtain ⟨e, hmem, hthinner⟩ := (exists_of_forall₂ hthin).1 e' he
  exact ⟨e, hsub.subset hmem, hthinner⟩

/-- What is not gone is left. -/
theorem Shrunk.left (h : Shrunk gone config config') {e : Val} (he : e ∈ elements config k) :
    gone k e ∨ ∃ e' ∈ elements config' k, e'.get "uniqid" = e.get "uniqid" := by
  obtain ⟨xs, -, hall, hthin⟩ := h.kept k
  rcases hall e he with hmem | hgone
  · obtain ⟨e', he', hthinner⟩ := (exists_of_forall₂ hthin).2 e hmem
    exact .inr ⟨e', he', hthinner.uniqid⟩
  · exact .inl hgone

theorem Shrunk.references (h : Shrunk gone config config') {f : Field} {v : Val}
    (hv : v ∈ f.references config') : v ∈ f.references config := by
  obtain ⟨k, hk, e', he', hvalue, hrefers⟩ := Field.mem_references.1 hv
  obtain ⟨e, he, hthinner⟩ := h.old he'
  exact Field.mem_references.2 ⟨k, hk, e, he, hthinner.values hvalue hrefers, hrefers⟩

/-- Elements that lose some more. -/
theorem Shrunk.thin (h : Shrunk gone config config') {config'' : Val}
    (hthin : ∀ k, List.Forall₂ Thinner (elements config'' k) (elements config' k)) :
    Shrunk gone config config'' := by
  constructor
  intro k
  obtain ⟨xs, hsub, hall, hthinner⟩ := h.kept k
  refine ⟨xs, hsub, hall, ?_⟩
  have htrans : ∀ {as bs cs : List Val}, List.Forall₂ Thinner as bs → List.Forall₂ Thinner bs cs →
      List.Forall₂ Thinner as cs := by
    intro as bs cs hab
    induction hab generalizing cs with
    | nil => exact fun h => h
    | cons h₁ _ ih =>
      intro hbc
      cases hbc with
      | cons h₂ hr => exact .cons (h₁.trans h₂) (ih hr)
  exact htrans (hthin k) hthinner

/-- References stay intact if none is left that names what is gone. -/
theorem intact_of_shrunk (h : Shrunk gone config config') (hintact : Intact config)
    (hnone : ∀ f : Field, ∀ v ∈ f.references config', ∀ k ∈ f.kinds, ∀ e ∈ elements config k, gone k e →
      ¬ Names k v (e.get "uniqid")) : Intact config' := by
  intro f v hv
  obtain ⟨k, hk, e, he, hnames⟩ := hintact f v (h.references hv)
  rcases h.left he with hgone | ⟨e', he', heq⟩
  · exact absurd hnames (hnone f v hv k hk e he hgone)
  · exact ⟨k, hk, e', he', heq ▸ hnames⟩

end Shrunk

end Pbx
end Askozia
