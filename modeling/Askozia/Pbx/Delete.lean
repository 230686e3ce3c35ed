import Askozia.Asterisk.Options
import Askozia.Config.Saving
import Askozia.Php.Compare
import Askozia.Php.Edits

/-!
# Deleting elements (`pbx.inc`, `dialplan.inc`, `dahdi.inc` and others)

Accounts are deleted by a name made from their `uniqid` and the offset the index has for it, and
what refers to them is taken out of the lists of other elements. Ports, port groups, applications,
gateways and disks are deleted by that offset alone.

* `deletes_exactly`: the deletion of an account takes out the account and its references, and
  nothing else;
* `forgets_own_iff`: exactly when the deletion of one of the others takes out the right element.
-/

namespace Askozia
namespace Pbx

open Php Config XmlParse Asterisk

/-! ## References -/

/-- A loop over the elements of a kind that assigns to some of them. -/
def editElements (f : Val → Option Val) (config : Val) (k : Kind) : Val :=
  if (listOf config k).isArray then setList config k ((listOf config k).updateEach f) else config

/-- `if (is_array($e[field]))`, a loop over its items that unsets some of them. -/
def unsetItems (field : String) (p : Val → Bool) (e : Val) : Option Val :=
  if (e.get field).isArray then some (e.set (.str field) ((e.get field).unsetIf p)) else none

/-- `dialplan_remove_provider_reference_from_phones($removed_id)` -/
def dialplanRemoveProviderReferenceFromPhones (removedId : String) (config : Val) : Val :=
  (technologies.map Kind.phone).foldl
    (editElements (unsetItems "provider" fun x => x.looseEq (.str removedId))) config

/-- `dialplan_remove_incomingextensionmap_reference_from_providers($removed_id)` -/
def dialplanRemoveIncomingextensionmapReferenceFromProviders (removedId : String) (config : Val) : Val :=
  (technologies.map Kind.provider).foldl
    (editElements (unsetItems "incomingextensionmap" fun x =>
      (x.get "destinationid").looseEq (.str removedId))) config

/-- `dialplan_remove_defaultfax_reference_from_providers($removed_id)` -/
def dialplanRemoveDefaultfaxReferenceFromProviders (removedId : String) (config : Val) : Val :=
  (technologies.map Kind.provider).foldl
    (editElements fun p =>
      if (p.get "defaultfax").looseEq (.str removedId) then some (p.unset (.str "defaultfax"))
      else none) config

/-- `dialplan_remove_member_reference_from_callgroups($removed_id)` -/
def dialplanRemoveMemberReferenceFromCallgroups (removedId : String) (config : Val) : Val :=
  editElements (unsetItems "groupmember" fun x => x.looseEq (.str removedId)) config .callgroup

/-! ## Deleting accounts -/

/-- `$g['phone_types']`, as the kinds of elements they are. -/
def phoneTypes : List Kind :=
  [.phone .sip, .phone .iax, .phone .isdn, .phone .analog, .phone .skinny, .externalPhone]

/-- `$g['provider_types']` -/
def providerTypes : List Kind :=
  [.provider .sip, .provider .iax, .provider .isdn, .provider .analog]

/-- `$g['fax_types']` -/
def faxTypes : List Kind := [.fax .analog, .fax .virtual]

/-- `unset($config[section][tag][$uniqid_map[$uniqid]])`. Below what is no array there is nothing to
unset; below a string the script ends before it stores anything. -/
def unsetElement (k : Kind) (uniqid : String) (g : Globals) : Val :=
  if (listOf g.config k).isArray then
    setList g.config k ((listOf g.config k).unset (g.uniqidMap.idx (Val.str uniqid).key).key)
  else g.config

/-- The body of `pbx_delete_phone`, `pbx_delete_provider` and `pbx_delete_fax`: what is returned,
and the variables after it. -/
def deleteAccount (word : String) (types : List Kind) (removeReferences : String → Val → Val)
    (name uniqid : String) (g : Globals) : Val × Globals :=
  let pieces := explode '-' uniqid
  let type := strtolower (pieces.headD "")
  match types.find? fun k => k.sectionName = type with
  | some k =>
    if pieces[1]? = some word ∧ (getElement g k uniqid).isArray then
      (.int 0, { g with config := removeReferences uniqid (unsetElement k uniqid g) })
    else (.str ("ERROR: invalid uniqid (" ++ uniqid ++ ") provided in " ++ name ++ "!"), g)
  | none => (.str ("ERROR: invalid uniqid (" ++ uniqid ++ ") provided in " ++ name ++ "!"), g)

/-- `pbx_delete_phone($uniqid)` -/
def pbxDeletePhone : String → Globals → Val × Globals :=
  deleteAccount "PHONE" phoneTypes
    (fun uniqid config => dialplanRemoveMemberReferenceFromCallgroups uniqid
      (dialplanRemoveIncomingextensionmapReferenceFromProviders uniqid config))
    "pbx_delete_phone"

/-- `pbx_delete_provider($uniqid)` -/
def pbxDeleteProvider : String → Globals → Val × Globals :=
  deleteAccount "PROVIDER" providerTypes dialplanRemoveProviderReferenceFromPhones
    "pbx_delete_provider"

/-- `pbx_delete_fax($uniqid)` -/
def pbxDeleteFax : String → Globals → Val × Globals :=
  deleteAccount "FAX" faxTypes dialplanRemoveDefaultfaxReferenceFromProviders "pbx_delete_fax"

/-! ## Deleting the others -/

/-- `dahdi_forget_port($uniqid)`, up to `write_config`. -/
def dahdiForgetPort : String → Globals → Val := unsetElement .dahdiPort

/-- `dahdi_delete_portgroup($uniqid)`, up to `write_config`. -/
def dahdiDeletePortgroup : String → Globals → Val := unsetElement .dahdiPortgroup

/-- `applications_delete_application($uniqid)`, up to `write_config`. -/
def applicationsDeleteApplication : String → Globals → Val := unsetElement .application

/-- `redfone_forget_gateway($uniqid)`, up to `write_config`. -/
def redfoneForgetGateway : String → Globals → Val := unsetElement .redfoneGateway

/-- `storage_forget_disk($uniqid)`, up to `write_config`. -/
def storageForgetDisk : String → Globals → Val := unsetElement .disk

/-! ## What deleting is for -/

/-- Changes one list of the configuration and nothing else. -/
def editList (f : Val → Val) (config : Val) (k : Kind) : Val :=
  config.mapAt (.str k.sectionName) (Val.mapAt (.str k.tagName) f)

/-- Whether a value is the `uniqid`. -/
def isText (u : String) (v : Val) : Bool := v == .str u

/-- The configuration without the element of a kind that has a `uniqid`. -/
def withoutElement (k : Kind) (u : String) (config : Val) : Val :=
  editList (Val.dropItems fun e => isText u (e.get "uniqid")) config k

/-- The configuration without the incoming mappings to a destination. -/
def withoutDestination (u : String) (config : Val) : Val :=
  (technologies.map Kind.provider).foldl
    (editList (Val.mapItems (Val.mapAt (.str "incomingextensionmap")
      (Val.dropItems fun x => isText u (x.get "destinationid"))))) config

/-- The configuration without a member in the call groups. -/
def withoutMember (u : String) (config : Val) : Val :=
  editList (Val.mapItems (Val.mapAt (.str "groupmember") (Val.dropItems (isText u)))) config .callgroup

/-- The configuration without a provider in the lists of the phones. -/
def withoutProvider (u : String) (config : Val) : Val :=
  (technologies.map Kind.phone).foldl
    (editList (Val.mapItems (Val.mapAt (.str "provider") (Val.dropItems (isText u))))) config

/-- The configuration without a fax as the default of a provider. -/
def withoutDefaultfax (u : String) (config : Val) : Val :=
  (technologies.map Kind.provider).foldl
    (editList (Val.mapItems (Val.dropAt (.str "defaultfax") (isText u)))) config

/-! ## Loaded configurations -/

/-- A configuration as a load produces it, with `uniqid`s from the generators. -/
structure Loaded (config : Val) : Prop extends Named config where
  canonical : Canonical (fun _ => True) config

/-- What a load produces can be checked kind by kind. -/
theorem loaded_of_all {config : Val} (hwf : WellFormed config)
    (hstarts : ∀ k ∈ Kind.all, ∀ e ∈ elements config k,
      (∃ start ∈ uniqidStart k, start.toList.isPrefixOf (e.get "uniqid").toStr.toList = true) ∨
      ((k = .application ∨ k = .application2) ∧
        "APPLICATION-MAPPING-".toList.isPrefixOf (e.get "uniqid").toStr.toList = true))
    (hcanonical : isCanonical config = true) : Loaded config := by
  refine ⟨⟨hwf, ?_⟩, canonical_of_isCanonical hcanonical⟩
  intro k e he u hu
  rcases hstarts k k.mem_all e he with ⟨start, hstart, hprefix⟩ | ⟨hk, hprefix⟩
  · rw [hu] at hprefix
    exact ⟨start, .inl hstart, List.isPrefixOf_iff_prefix.1 hprefix⟩
  · rw [hu] at hprefix
    exact ⟨_, .inr ⟨hk, foreign_mapping⟩, List.isPrefixOf_iff_prefix.1 hprefix⟩

section Trees

variable {v : Val} {n : String}

/-- What stands under a name in a canonical array is a canonical entry. -/
theorem canonical_entry {es : List (Key × Val)} (h : Canonical (fun _ => True) (.arr es)) {x : Val}
    (hx : es.lookup (.str n) = some x) : CanonicalEntry (fun _ => True) (.str n, x) := by
  cases h with
  | map _ _ hes => exact hes _ (Val.mem_of_lookup hx)

/-- A field that is no list is canonical, if it is there. -/
theorem canonical_get (h : Canonical (fun _ => True) v) (hn : n ∉ listtags) :
    v.get n = .null ∨ Canonical (fun _ => True) (v.get n) := by
  cases v with
  | arr es =>
    rw [Val.get, Val.idx_arr]
    cases hx : es.lookup (.str n) with
    | none => exact .inl rfl
    | some x =>
      cases canonical_entry h hx with
      | list _ hl _ _ => exact absurd hl hn
      | single _ _ hv => exact .inr hv
  | str s => exact .inr (.str trivial)
  | _ => exact absurd h (by rintro ⟨⟩)

/-- What is under a list tag is a list, or no array. -/
theorem canonical_get_list (h : Canonical (fun _ => True) v) (hn : n ∈ listtags)
    (harr : (v.get n).isArray = true) :
    ∃ items, v.get n = .ofList items ∧ ∀ x ∈ items, Canonical (fun _ => True) x := by
  cases v with
  | arr es =>
    rw [Val.get, Val.idx_arr] at harr ⊢
    cases hx : es.lookup (.str n) with
    | none =>
      rw [hx] at harr
      cases harr
    | some x =>
      generalize he : ((Key.str n, x) : Key × Val) = e
      have hentry := canonical_entry h hx
      rw [he] at hentry
      cases hentry with
      | list _ _ _ hitems =>
        obtain ⟨-, rfl⟩ := Prod.mk.inj he
        exact ⟨_, rfl, hitems⟩
      | single _ hl _ =>
        obtain ⟨hkey, -⟩ := Prod.mk.inj he
        exact absurd (Key.str.inj hkey ▸ hn) hl
  | str s => cases harr
  | _ => cases harr

/-- A section of a loaded configuration is missing, empty or a map. -/
theorem section_cases {config : Val} (hwf : WellFormed config)
    (h : Canonical (fun _ => True) config) (k : Kind) :
    config.get k.sectionName = .null ∨ config.get k.sectionName = .str "" ∨
      ∃ fs, config.get k.sectionName = .arr fs ∧ Canonical (fun _ => True) (.arr fs) := by
  have hnames : ∀ k ∈ Kind.all, k.sectionName ∉ listtags := by decide
  rcases canonical_get h (hnames k k.mem_all) with hnull | hcanonical
  · exact .inl hnull
  · right
    cases hsection : config.get k.sectionName with
    | str s =>
      -- a text would have its first letter for a list
      left
      have hlist := hwf.lists k
      unfold listOf at hlist
      rw [hsection] at hlist
      cases hs : s.toList with
      | nil => rw [← String.ofList_toList (s := s), hs]
      | cons c r =>
        have hget : (Val.str s).get k.tagName = .str (String.ofList [c]) := by
          show Val.str (String.ofList s.toList.head?.toList) = _
          rw [hs]
          rfl
        rw [hget] at hlist
        rcases hlist with hlist | hlist | hlist
        · cases hlist
        · have hnil := congrArg String.toList (Val.str.inj hlist)
          rw [String.toList_ofList] at hnil
          cases hnil
        · cases hlist
    | arr fs =>
      rw [hsection] at hcanonical
      exact .inr ⟨fs, rfl, hcanonical⟩
    | _ =>
      rw [hsection] at hcanonical
      exact absurd hcanonical (by rintro ⟨⟩)

/-- An assignment keeps a tree canonical. -/
theorem canonical_assign {v x : Val} {k : Key} (hv : v = .null ∨ Canonical (fun _ => True) v)
    (hx : CanonicalEntry (fun _ => True) (k, x)) : Canonical (fun _ => True) (v.set k x) := by
  have hset : ∀ w, MapOk (fun _ => True) w → Canonical (fun _ => True) (w.set k x) := by
    intro w hw
    rcases hw.set hx with hnull | ⟨_, -, hset⟩
    · cases hnull
    · exact hset
  rcases hv with rfl | hv
  · exact hset _ (.inl rfl)
  · cases v with
    | arr es => exact hset _ (.inr ⟨es, rfl, hv⟩)
    | str s => exact hset .null (.inl rfl)
    | _ => exact absurd hv (by rintro ⟨⟩)

/-- Writing a list of canonical elements keeps the configuration canonical. -/
theorem canonical_setList {config : Val} (hwf : WellFormed config)
    (h : Canonical (fun _ => True) config) {k : Kind} {xs : List Val} (hne : xs ≠ [])
    (hxs : ∀ x ∈ xs, Canonical (fun _ => True) x) :
    Canonical (fun _ => True) (setList config k (.ofList xs)) := by
  have hnames : ∀ k ∈ Kind.all, (Xml.isName k.sectionName = true ∧ strtolower k.sectionName = k.sectionName ∧
      k.sectionName ∉ listtags) ∧ Xml.isName k.tagName = true ∧ strtolower k.tagName = k.tagName ∧
      k.tagName ∈ listtags := by decide +kernel
  obtain ⟨⟨hsname, hslow, hslist⟩, htname, htlow, htlist⟩ := hnames k k.mem_all
  have hlist : Canonical (fun _ => True) ((config.get k.sectionName).set (.str k.tagName) (.ofList xs)) := by
    apply canonical_assign _ (.list ⟨htname, htlow⟩ htlist hne hxs)
    rcases section_cases hwf h k with hnull | hstr | ⟨fs, hmap, hcanonical⟩
    · exact .inl hnull
    · rw [hstr]
      exact .inr (.str trivial)
    · rw [hmap]
      exact .inr hcanonical
  exact canonical_assign (.inr h) (.single ⟨hsname, hslow⟩ hslist hlist)

/-- A list of elements is a list, or no array. -/
theorem canonical_listOf {config : Val} (h : Canonical (fun _ => True) config) (k : Kind)
    (harr : (listOf config k).isArray = true) :
    ∃ items, listOf config k = .ofList items ∧ ∀ x ∈ items, Canonical (fun _ => True) x := by
  have hnames : ∀ k ∈ Kind.all, k.sectionName ∉ listtags ∧ k.tagName ∈ listtags := by decide
  obtain ⟨hsection, htag⟩ := hnames k k.mem_all
  rcases canonical_get h hsection with hnull | hcanonical
  · rw [listOf, hnull] at harr
    cases harr
  · exact canonical_get_list hcanonical htag harr

end Trees

/-! ## Comparisons with a `uniqid` -/

/-- A letter starts no number. -/
theorem other_of_isUpper {c : Char} (hc : c.isUpper = true) :
    c.isWhitespace = false ∧ c.isDigit = false ∧ c ≠ '-' ∧ c ≠ '+' ∧ c ≠ '.' := by
  have hascii : c.toNat < 128 := by
    have hbounds : c.val ≥ 'A'.val ∧ c.val ≤ 'Z'.val := of_decide_eq_true hc
    have hle : c.val.toNat ≤ 90 := hbounds.2
    exact Nat.lt_of_le_of_lt hle (by decide)
  exact forall_ascii (p := fun c => c.isUpper = true →
    c.isWhitespace = false ∧ c.isDigit = false ∧ c ≠ '-' ∧ c ≠ '+' ∧ c ≠ '.') (by decide) hascii hc

/-- A text that starts with a letter is no number. -/
theorem number?_of_letter {u : String} {c : Char} {r : List Char} (hu : u.toList = c :: r)
    (hc : c.isUpper = true) : number? u = none := by
  obtain ⟨hspace, hdigit, hminus, hplus, hpoint⟩ := other_of_isUpper hc
  have hsign : scanSign (c :: r) = (1, c :: r) := by
    unfold scanSign
    split
    · next heq => exact absurd (List.cons.inj heq).1 hminus
    · next heq => exact absurd (List.cons.inj heq).1 hplus
    · rfl
  have hscan : scanNumber u.toList = none := by
    unfold scanNumber
    rw [hu, List.dropWhile_cons, hspace]
    simp only [Bool.false_eq_true, if_false, hsign, List.takeWhile_cons, List.dropWhile_cons, hdigit]
    split
    · next heq => exact absurd (List.cons.inj heq).1 hpoint
    · rw [if_pos ⟨trivial, rfl⟩]
  have hhex : hexNumber? u.toList = none := by
    unfold hexNumber?
    rw [hu]
    split
    · next heq =>
      obtain rfl := (List.cons.inj heq).1
      cases hdigit
    · rfl
  rw [number?, hhex, hscan]

/-- `==` with a `uniqid` is equality. -/
theorem looseEq_eq_isText {u : String} (hu : number? u = none) (hne : u ≠ "") {v : Val}
    (hv : v = .null ∨ Canonical (fun _ => True) v) : v.looseEq (.str u) = isText u v := by
  rcases hv with rfl | hv
  · simp [Val.looseEq, isText, hne]
  · cases hv with
    | str _ =>
      rw [Val.looseEq, hu, isText]
      simp [beq_eq_decide]
    | map _ _ _ => simp [Val.looseEq, isText]

/-! ## The loops as edits -/

section Edits

variable {config : Val} {k k' : Kind} {F : Val → Val}

/-- The list of a kind is a list of elements as a load produces them, or no array. -/
def Editable (config : Val) (k : Kind) : Prop :=
  (listOf config k).isArray = true →
    ∃ items, listOf config k = .ofList items ∧ ∀ x ∈ items, Canonical (fun _ => True) x

/-- Assigning to a list that is there. -/
theorem setList_eq_editList (h : (listOf config k).isArray = true) :
    setList config k (F (listOf config k)) = editList F config k := by
  have hsection : (config.idx (.str k.sectionName)).isArray = true := by
    unfold listOf Val.get at h
    cases hs : config.idx (.str k.sectionName) with
    | arr es => rfl
    | str s =>
      rw [hs] at h
      cases h
    | _ =>
      rw [hs] at h
      cases h
  unfold setList editList listOf Val.get at *
  rw [Val.set_eq_mapAt h]
  exact Val.set_eq_mapAt hsection

/-- An edit that keeps the list keeps the configuration. -/
theorem editList_eq_self (h : F (listOf config k) = listOf config k) : editList F config k = config := by
  apply Val.mapAt_eq_self
  exact Val.mapAt_eq_self h

/-- Only the list that is edited matters. -/
theorem editList_congr {G : Val → Val} (h : F (listOf config k) = G (listOf config k)) :
    editList F config k = editList G config k := by
  apply Val.mapAt_congr
  exact Val.mapAt_congr h

/-- Editing one list leaves the others alone. -/
theorem listOf_editList_of_ne (hk : k' ≠ k) : listOf (editList F config k) k' = listOf config k' := by
  unfold listOf editList
  by_cases hn : k'.sectionName = k.sectionName
  · have ht : (Key.str k'.tagName) ≠ .str k.tagName := by
      intro h
      exact hk (Kind.ext_names hn (Key.str.inj h))
    rw [hn]
    simp only [Val.get]
    cases config with
    | str s => rfl
    | arr es =>
      rw [Val.idx_mapAt_self (by simp) rfl]
      exact Val.idx_mapAt_of_ne ht
    | _ => rfl
  · have hkey : (Key.str k'.sectionName) ≠ .str k.sectionName := fun h => hn (Key.str.inj h)
    simp only [Val.get]
    rw [Val.idx_mapAt_of_ne hkey]

/-- Editing some lists leaves the others. -/
theorem listOf_foldl_editList {ks : List Kind} (hk : k' ∉ ks) :
    listOf (ks.foldl (editList F) config) k' = listOf config k' := by
  induction ks generalizing config with
  | nil => rfl
  | cons k r ih =>
    rw [List.mem_cons, not_or] at hk
    rw [List.foldl_cons, ih hk.2, listOf_editList_of_ne hk.1]

/-- The loop over the elements of a kind. -/
theorem editElements_eq {f : Val → Option Val} {g : Val → Val} (h : Editable config k)
    (hf : ∀ x, Canonical (fun _ => True) x → (f x).getD x = g x) :
    editElements f config k = editList (Val.mapItems g) config k := by
  unfold editElements
  split_ifs with harr
  · obtain ⟨items, hitems, hcanonical⟩ := h harr
    rw [setList_eq_editList (F := Val.updateEach f) harr]
    apply editList_congr
    rw [hitems, Val.updateEach_ofList, Val.mapItems_ofList]
    congr 1
    exact List.map_congr_left fun x hx => hf x (hcanonical x hx)
  · symm
    apply editList_eq_self
    cases hlist : listOf config k with
    | arr es =>
      rw [hlist] at harr
      exact absurd rfl harr
    | _ => rfl

/-- The loop over the elements of several kinds. -/
theorem foldl_editElements_eq {f : Val → Option Val} {g : Val → Val} {ks : List Kind} (hks : ks.Nodup)
    (h : ∀ k ∈ ks, Editable config k) (hf : ∀ x, Canonical (fun _ => True) x → (f x).getD x = g x) :
    ks.foldl (editElements f) config = ks.foldl (editList (Val.mapItems g)) config := by
  induction ks generalizing config with
  | nil => rfl
  | cons k r ih =>
    rw [List.nodup_cons] at hks
    rw [List.foldl_cons, List.foldl_cons, editElements_eq (h k List.mem_cons_self) hf]
    apply ih hks.2
    intro k' hk'
    have hne : k' ≠ k := by
      rintro rfl
      exact hks.1 hk'
    unfold Editable
    rw [listOf_editList_of_ne hne]
    exact h k' (List.mem_cons_of_mem _ hk')

/-- The inner loop over a list of an element. -/
theorem unsetItems_eq {field : String} {p q : Val → Bool} (hfield : field ∈ listtags)
    (hp : ∀ x, Canonical (fun _ => True) x → p x = q x) {e : Val} (he : Canonical (fun _ => True) e) :
    (unsetItems field p e).getD e = e.mapAt (.str field) (Val.dropItems q) := by
  unfold unsetItems
  split_ifs with harr
  · obtain ⟨items, hitems, hcanonical⟩ := canonical_get_list he hfield harr
    rw [Option.getD_some]
    unfold Val.get at *
    rw [Val.set_eq_mapAt (f := Val.unsetIf p) harr]
    apply Val.mapAt_congr
    rw [hitems, Val.unsetIf_eq_dropItems]
    apply Val.dropItems_congr
    intro x hx
    rw [Val.vals_ofList] at hx
    exact hp x (hcanonical x hx)
  · rw [Option.getD_none]
    symm
    apply Val.mapAt_eq_self
    unfold Val.get at harr
    cases hfield : e.idx (.str field) with
    | arr es =>
      rw [hfield] at harr
      exact absurd rfl harr
    | _ => rfl

end Edits

section References

variable {config : Val} {u : String}

/-- The loop over the members of groups is a filter. -/
theorem removeMember_eq (hu : number? u = none) (hne : u ≠ "") (h : Editable config .callgroup) :
    dialplanRemoveMemberReferenceFromCallgroups u config = withoutMember u config := by
  apply editElements_eq h
  intro e he
  apply unsetItems_eq (by decide) _ he
  intro x hx
  exact looseEq_eq_isText hu hne (.inr hx)

/-- The loop over the incoming maps is a filter. -/
theorem removeDestination_eq (hu : number? u = none) (hne : u ≠ "")
    (h : ∀ t, Editable config (.provider t)) :
    dialplanRemoveIncomingextensionmapReferenceFromProviders u config =
      withoutDestination u config := by
  apply foldl_editElements_eq (by decide)
  · intro k hk
    obtain ⟨t, -, rfl⟩ := List.mem_map.1 hk
    exact h t
  · intro e he
    apply unsetItems_eq (by decide) _ he
    intro x hx
    exact looseEq_eq_isText hu hne (canonical_get hx (by decide))

/-- The loop over the providers of phones is a filter. -/
theorem removeProvider_eq (hu : number? u = none) (hne : u ≠ "")
    (h : ∀ t, Editable config (.phone t)) :
    dialplanRemoveProviderReferenceFromPhones u config = withoutProvider u config := by
  apply foldl_editElements_eq (by decide)
  · intro k hk
    obtain ⟨t, -, rfl⟩ := List.mem_map.1 hk
    exact h t
  · intro e he
    apply unsetItems_eq (by decide) _ he
    intro x hx
    exact looseEq_eq_isText hu hne (.inr hx)

/-- The loop over the default faxes is a filter. -/
theorem removeDefaultfax_eq (hu : number? u = none) (hne : u ≠ "")
    (h : ∀ t, Editable config (.provider t)) :
    dialplanRemoveDefaultfaxReferenceFromProviders u config = withoutDefaultfax u config := by
  apply foldl_editElements_eq (by decide)
  · intro k hk
    obtain ⟨t, -, rfl⟩ := List.mem_map.1 hk
    exact h t
  · intro e he
    rw [looseEq_eq_isText hu hne (canonical_get he (by decide))]
    cases he with
    | str _ =>
      split_ifs
      · rfl
      · rfl
    | map _ hnodup _ =>
      rw [Val.dropAt, ← Val.unset_eq_filter hnodup, Val.get]
      split_ifs
      · rfl
      · rfl

end References

/-! ## Names -/

/-- The word in the `uniqid`s of accounts, and their kinds. -/
def accountTypes : List (String × List Kind) :=
  [("PHONE", phoneTypes), ("PROVIDER", providerTypes), ("FAX", faxTypes)]

section Names

variable {u start word : String} {types : List Kind} {k : Kind}

/-- The pieces of a `uniqid` start with those of its kind. -/
theorem explode_of_start (hstart : Starts k start) (h : start.toList <+: u.toList) :
    ∃ rest, explode '-' u = (explode '-' start).dropLast ++ rest := by
  have hstart := hstart.dash
  obtain ⟨r, hr⟩ := h
  have hpieces : explodeChars '-' start.toList = explodeChars '-' start.toList.dropLast ++ [[]] := by
    conv_lhs => rw [hstart]
    rw [explodeChars_append]
    rfl
  refine ⟨(explodeChars '-' r).map String.ofList, ?_⟩
  have hu : explodeChars '-' u.toList =
      explodeChars '-' start.toList.dropLast ++ explodeChars '-' r := by
    rw [← hr, hstart, List.append_assoc, List.dropLast_concat]
    exact explodeChars_append '-' _ r
  rw [explode, explode, hu, hpieces, List.map_append, List.map_append, List.map_singleton,
    List.dropLast_concat]

/-- The first word of a `uniqid` is that of its kind. -/
theorem headD_explode_of_start (hstart : Starts k start) (h : start.toList <+: u.toList) :
    (explode '-' u).headD "" = (explode '-' start).headD "" := by
  obtain ⟨rest, hu⟩ := explode_of_start hstart h
  have hpieces : explodeChars '-' start.toList = explodeChars '-' start.toList.dropLast ++ [[]] := by
    conv_lhs => rw [hstart.dash]
    rw [explodeChars_append]
    rfl
  rw [hu, explode, hpieces, List.map_append, List.map_singleton, List.dropLast_concat]
  cases hfirst : explodeChars '-' start.toList.dropLast with
  | nil => exact absurd hfirst (explodeChars_ne_nil '-' _)
  | cons p ps => rfl

/-- No account page is for applications. -/
theorem ne_application_of_mem (htypes : (word, types) ∈ accountTypes) (hk : k ∈ types) :
    (k ≠ .application ∧ k ≠ .application2) ∧ k.isAccount = true := by
  have hall : ∀ a ∈ accountTypes, ∀ k ∈ a.2,
      (k ≠ .application ∧ k ≠ .application2) ∧ k.isAccount = true := by decide
  exact hall _ htypes k hk

/-- A `uniqid` of an account leads to its own kind. -/
theorem find_of_start (htypes : (word, types) ∈ accountTypes) (hk : k ∈ types)
    (hstart : Starts k start) (h : start.toList <+: u.toList) :
    (types.find? fun k => k.sectionName = strtolower ((explode '-' u).headD "")) = some k ∧
      (explode '-' u)[1]? = some word := by
  have hall : ∀ a ∈ accountTypes, ∀ k ∈ a.2, ∀ start ∈ uniqidStart k, ∃ first ∈ explode '-' start,
      (explode '-' start).dropLast = [first, a.1] ∧
        (a.2.find? fun k => k.sectionName = strtolower first) = some k := by decide
  have hgenerated := hstart.generated (ne_application_of_mem htypes hk).1
  obtain ⟨first, -, hpieces, hfind⟩ := hall _ htypes k hk start hgenerated
  obtain ⟨rest, hu⟩ := explode_of_start hstart h
  rw [hpieces] at hu
  rw [hu]
  exact ⟨hfind, rfl⟩

/-- A `uniqid` of anything else leads to no kind of account. -/
theorem eq_of_find {k₀ : Kind} (htypes : (word, types) ∈ accountTypes)
    (hstart : Starts k start) (h : start.toList <+: u.toList)
    (hfind : (types.find? fun k => k.sectionName = strtolower ((explode '-' u).headD "")) = some k₀)
    (hword : (explode '-' u)[1]? = some word) : k = k₀ := by
  have hall : ∀ a ∈ accountTypes, ∀ k ∈ Kind.all, ∀ start ∈ uniqidStart k,
      ∃ first ∈ explode '-' start, ∃ more ∈ [[], (explode '-' start).dropLast.drop 1],
        (explode '-' start).dropLast = first :: more ∧
        ∀ k₀ ∈ a.2.find? fun k => k.sectionName = strtolower first,
          ∃ second ∈ more.head?, second = a.1 → k = k₀ := by decide +kernel
  rcases hstart with hgenerated | hother
  · obtain ⟨first, -, more, -, hpieces, hkinds⟩ := hall _ htypes k k.mem_all start hgenerated
    obtain ⟨rest, hu⟩ := explode_of_start (.inl hgenerated) h
    rw [hu, hpieces] at hfind hword
    obtain ⟨second, hsecond, hk⟩ := hkinds k₀ hfind
    apply hk
    cases more with
    | nil => cases hsecond
    | cons second' _ =>
      obtain rfl : second' = second := Option.some.inj hsecond
      exact Option.some.inj hword
  · -- the first word of another name is no section of accounts
    have haccount := (ne_application_of_mem htypes (List.mem_of_find?_eq_some hfind)).2
    have hsection := List.find?_some hfind
    rw [headD_explode_of_start (.inr hother) h, decide_eq_true_eq] at hsection
    exact absurd hsection (hother.2.noSection k₀ k₀.mem_all haccount)

/-- A `uniqid` is no number. -/
theorem number?_of_start (hstart : Starts k start) (h : start.toList <+: u.toList) :
    number? u = none ∧ u ≠ "" := by
  obtain ⟨c, r, hu, hupper⟩ := letter_of_start hstart h
  exact ⟨number?_of_letter hu hupper, (ne_of_start hstart h).1⟩

/-- What has a `uniqid` is an array: a text would have its first letter for one. -/
theorem isArray_of_uniqid (hstart : Starts k start) (h : start.toList <+: u.toList) {e : Val}
    (hu : e.get "uniqid" = .str u) : e.isArray = true := by
  cases e with
  | arr es => rfl
  | str s =>
    have hlength := hstart.long
    have hle := h.length_le
    rw [Val.get, Val.idx] at hu
    have hshort : u.toList.length ≤ 1 := by
      rw [← Val.str.inj hu, String.toList_ofList]
      cases s.toList with
      | nil => exact Nat.zero_le 1
      | cons c r => exact Nat.le_refl 1
    omega
  | _ => cases hu

end Names

/-! ## Deleting accounts is exact -/

section Accounts

variable {config : Val} {u word name : String} {types : List Kind}
variable {removeReferences : String → Val → Val}

/-- The lists of a loaded configuration can be edited. -/
theorem Loaded.editable (h : Loaded config) (k : Kind) : Editable config k :=
  canonical_listOf h.canonical k

/-- They still can after an element was taken out of another. -/
theorem editable_withoutElement {k k' : Kind} (h : Loaded config) (hk : k' ≠ k) :
    Editable (withoutElement k u config) k' := by
  unfold Editable withoutElement
  rw [listOf_editList_of_ne hk]
  exact h.editable k'

/-- Unsetting the offset of an element takes out that element. -/
theorem unsetElement_of_offset (h : WellFormed config) {k : Kind} {i : ℕ} (hi : i < (elements config k).length)
    (hoffset : ((configBuildUniqidMap config).idx (Val.str u).key).key = .int i) {w : String}
    (hw : ((elements config k)[i]).get "uniqid" = .str w) :
    unsetElement k u (indexed config) = withoutElement k w config := by
  have hlist : listOf config k = .ofList (elements config k) := contiguous_of_mem h.lists (List.getElem_mem hi)
  have harr : (listOf config k).isArray = true := by
    rw [hlist]
    rfl
  unfold unsetElement indexed
  dsimp only
  rw [if_pos harr, hoffset, setList_eq_editList (F := Val.unset (.int i)) harr]
  apply editList_congr
  rw [hlist]
  apply Val.unset_ofList
  intro j hj
  by_cases hji : j = i
  · subst hji
    simp [isText, hw]
  · have hne : ((elements config k)[j]).get "uniqid" ≠ .str w := by
      intro hjw
      exact hji (h.eq_of_uniqid hj hi (hjw.trans hw.symm)).2
    simp [isText, hji, hne]

/-- Taking an element out finds it by its id. -/
theorem unsetElement_of_mem (h : WellFormed config) {k : Kind} {e : Val} (he : e ∈ elements config k)
    (hu : e.get "uniqid" = .str u) : unsetElement k u (indexed config) = withoutElement k u config := by
  obtain ⟨i, hi, rfl⟩ := List.getElem_of_mem he
  have hoffset := h.offset hi
  rw [hu] at hoffset
  apply unsetElement_of_offset h hi _ hu
  rw [hoffset]
  rfl

/-- Deleting an account that is stored. -/
theorem deleteAccount_of_mem (h : Loaded config) (htypes : (word, types) ∈ accountTypes) {k : Kind}
    (hk : k ∈ types) {e : Val} (he : e ∈ elements config k) (hu : e.get "uniqid" = .str u) :
    deleteAccount word types removeReferences name u (indexed config) =
      (.int 0, { indexed config with config := removeReferences u (withoutElement k u config) }) := by
  obtain ⟨start, hstart, hprefix⟩ := h.starts k e he u hu
  obtain ⟨hfind, hword⟩ := find_of_start htypes hk hstart hprefix
  have hget : getElement (indexed config) k u = e := getElement_of_mem h.wellFormed he hu
  have harr : e.isArray = true := isArray_of_uniqid hstart hprefix hu
  unfold deleteAccount
  dsimp only
  rw [hfind]
  dsimp only
  rw [if_pos ⟨hword, by rw [hget]; exact harr⟩, unsetElement_of_mem h.wellFormed he hu]

/-- Deleting what is not stored as such an account. -/
theorem deleteAccount_of_not_mem (h : Loaded config) (htypes : (word, types) ∈ accountTypes)
    (hnone : ∀ k ∈ types, ∀ e ∈ elements config k, e.get "uniqid" ≠ .str u) :
    deleteAccount word types removeReferences name u (indexed config) =
      (.str ("ERROR: invalid uniqid (" ++ u ++ ") provided in " ++ name ++ "!"), indexed config) := by
  unfold deleteAccount
  dsimp only
  split
  · next k₀ hfind =>
    rw [if_neg]
    rintro ⟨hword, harr⟩
    have hk₀ : k₀ ∈ types := List.mem_of_find?_eq_some hfind
    -- no other element has this name either
    have hu : ∀ k, ∀ e ∈ elements config k, e.get "uniqid" ≠ .str u := by
      intro k e he hu
      obtain ⟨start, hstart, hprefix⟩ := h.starts k e he u hu
      obtain rfl := eq_of_find htypes hstart hprefix hfind hword
      exact hnone k hk₀ e he hu
    have hempty : u ≠ "" := by
      rintro rfl
      cases hword
    have hoffset := h.wellFormed.no_offset hu (.inl hempty)
    unfold getElement indexed at harr
    rw [hoffset] at harr
    rcases h.wellFormed.lists k₀ with hlist | hlist | hlist
    · rw [hlist] at harr
      cases harr
    · rw [hlist] at harr
      cases harr
    · have hkey : Val.null.key = .str "" := rfl
      rw [hlist, hkey, Val.idx_ofList_str] at harr
      cases harr
  · rfl

/-- Deleting an account takes out one that is stored, or nothing. -/
theorem deleteAccount_cases (h : Loaded config) (htypes : (word, types) ∈ accountTypes) :
    (∃ k ∈ types, ∃ e ∈ elements config k, e.get "uniqid" = .str u ∧ number? u = none ∧ u ≠ "" ∧
      (deleteAccount word types removeReferences name u (indexed config)).2.config =
        removeReferences u (withoutElement k u config)) ∨
    (deleteAccount word types removeReferences name u (indexed config)).2.config = config := by
  by_cases hfound : ∃ k ∈ types, ∃ e ∈ elements config k, e.get "uniqid" = .str u
  · left
    obtain ⟨k, hk, e, he, hu⟩ := hfound
    obtain ⟨start, hstart, hprefix⟩ := h.starts k e he u hu
    obtain ⟨hnumber, hne⟩ := number?_of_start hstart hprefix
    exact ⟨k, hk, e, he, hu, hnumber, hne, by rw [deleteAccount_of_mem h htypes hk he hu]⟩
  · right
    rw [deleteAccount_of_not_mem h htypes fun k hk e he hu => hfound ⟨k, hk, e, he, hu⟩]
    rfl

/-- The deletion of accounts takes out the one with a `uniqid` and what refers to it, or reports an
error and changes nothing. -/
def DeletesExactly (tag : String) (delete : String → Globals → Val × Globals)
    (withoutReferences : String → Val → Val) (config : Val) (u : String) : Prop :=
  (∀ k, k.tagName = tag → ∀ e ∈ elements config k, e.get "uniqid" = .str u →
    delete u (indexed config) =
      (.int 0, { indexed config with config := withoutReferences u (withoutElement k u config) })) ∧
  ((∀ k, k.tagName = tag → ∀ e ∈ elements config k, e.get "uniqid" ≠ .str u) →
    ∃ message, delete u (indexed config) = (.str ("ERROR" ++ message), indexed config))

/-- The deletion of accounts is exact if the loops over what refers to them are. -/
theorem deletesExactly_of_references {tag : String} {withoutReferences : String → Val → Val}
    (h : Loaded config) (htypes : (word, types) ∈ accountTypes)
    (htag : ∀ k ∈ types, k.tagName = tag)
    (hall : ∀ k, k.tagName = tag → k ∈ types ∨ uniqidStart k = none)
    (hreferences : ∀ k ∈ types, number? u = none → u ≠ "" →
      removeReferences u (withoutElement k u config) = withoutReferences u (withoutElement k u config)) :
    DeletesExactly tag (deleteAccount word types removeReferences name) withoutReferences config u := by
  have hstored : ∀ k, k.tagName = tag → ∀ e ∈ elements config k, k ∈ types := by
    intro k hk e he
    obtain ⟨u', -, hu'⟩ := h.wellFormed.uniqids k e he
    obtain ⟨start, hstart, -⟩ := h.starts k e he u' hu'
    apply (hall k hk).resolve_right
    intro hnone
    rcases hstart with hgenerated | ⟨rfl | rfl, -⟩
    · rw [hnone] at hgenerated
      cases hgenerated
    · cases hnone
    · cases hnone
  constructor
  · intro k hk e he hu
    have hmem := hstored k hk e he
    obtain ⟨start, hstart, hprefix⟩ := h.starts k e he u hu
    obtain ⟨hnumber, hne⟩ := number?_of_start hstart hprefix
    rw [deleteAccount_of_mem h htypes hmem he hu, hreferences k hmem hnumber hne]
  · intro hnone
    refine ⟨": invalid uniqid (" ++ u ++ ") provided in " ++ name ++ "!", ?_⟩
    rw [deleteAccount_of_not_mem h htypes fun k hk => hnone k (htag k hk)]
    simp only [← String.append_assoc]
    rfl

/-- The loops that take out a phone. -/
theorem phoneReferences_eq (h : Loaded config) {k : Kind} (hk : k ∈ phoneTypes) (hnumber : number? u = none)
    (hne : u ≠ "") : dialplanRemoveMemberReferenceFromCallgroups u
      (dialplanRemoveIncomingextensionmapReferenceFromProviders u (withoutElement k u config)) =
        withoutMember u (withoutDestination u (withoutElement k u config)) := by
  have hother : ∀ k ∈ phoneTypes, .callgroup ≠ k ∧ ∀ t ∈ technologies, .provider t ≠ k := by decide
  have htech : ∀ t : Tech, t ∈ technologies := fun t => by cases t <;> decide
  have hproviders : ∀ t, Editable (withoutElement k u config) (.provider t) :=
    fun t => editable_withoutElement h ((hother k hk).2 t (htech t))
  have hgroups : Editable (withoutDestination u (withoutElement k u config)) .callgroup := by
    unfold Editable withoutDestination
    rw [listOf_foldl_editList (by decide)]
    exact editable_withoutElement h (hother k hk).1
  rw [removeDestination_eq hnumber hne hproviders, removeMember_eq hnumber hne hgroups]

/-- The loop that takes out a provider. -/
theorem providerReferences_eq (h : Loaded config) {k : Kind} (hk : k ∈ providerTypes)
    (hnumber : number? u = none) (hne : u ≠ "") :
    dialplanRemoveProviderReferenceFromPhones u (withoutElement k u config) =
      withoutProvider u (withoutElement k u config) := by
  apply removeProvider_eq hnumber hne
  intro t
  apply editable_withoutElement h
  rintro rfl
  revert hk
  cases t <;> decide

/-- The loop that takes out a fax. -/
theorem faxReferences_eq (h : Loaded config) {k : Kind} (hk : k ∈ faxTypes) (hnumber : number? u = none)
    (hne : u ≠ "") : dialplanRemoveDefaultfaxReferenceFromProviders u (withoutElement k u config) =
      withoutDefaultfax u (withoutElement k u config) := by
  apply removeDefaultfax_eq hnumber hne
  intro t
  apply editable_withoutElement h
  rintro rfl
  revert hk
  cases t <;> decide

/-- What `pbx_delete_phone` does, where it finds the id and where it does not. -/
theorem pbxDeletePhone_cases (h : Loaded config) (u : String) :
    (∃ k ∈ phoneTypes, ∃ e ∈ elements config k, e.get "uniqid" = .str u ∧
      (pbxDeletePhone u (indexed config)).2.config =
        withoutMember u (withoutDestination u (withoutElement k u config))) ∨
    (pbxDeletePhone u (indexed config)).2.config = config := by
  unfold pbxDeletePhone
  apply (deleteAccount_cases h (by decide)).imp_left
  rintro ⟨k, hk, e, he, hu, hnumber, hne, hdelete⟩
  exact ⟨k, hk, e, he, hu, hdelete.trans (phoneReferences_eq h hk hnumber hne)⟩

/-- What `pbx_delete_provider` does, where it finds the id and where it does not. -/
theorem pbxDeleteProvider_cases (h : Loaded config) (u : String) :
    (∃ k ∈ providerTypes, ∃ e ∈ elements config k, e.get "uniqid" = .str u ∧
      (pbxDeleteProvider u (indexed config)).2.config = withoutProvider u (withoutElement k u config)) ∨
    (pbxDeleteProvider u (indexed config)).2.config = config := by
  unfold pbxDeleteProvider
  apply (deleteAccount_cases h (by decide)).imp_left
  rintro ⟨k, hk, e, he, hu, hnumber, hne, hdelete⟩
  exact ⟨k, hk, e, he, hu, hdelete.trans (providerReferences_eq h hk hnumber hne)⟩

/-- What `pbx_delete_fax` does, where it finds the id and where it does not. -/
theorem pbxDeleteFax_cases (h : Loaded config) (u : String) :
    (∃ k ∈ faxTypes, ∃ e ∈ elements config k, e.get "uniqid" = .str u ∧
      (pbxDeleteFax u (indexed config)).2.config = withoutDefaultfax u (withoutElement k u config)) ∨
    (pbxDeleteFax u (indexed config)).2.config = config := by
  unfold pbxDeleteFax
  apply (deleteAccount_cases h (by decide)).imp_left
  rintro ⟨k, hk, e, he, hu, hnumber, hne, hdelete⟩
  exact ⟨k, hk, e, he, hu, hdelete.trans (faxReferences_eq h hk hnumber hne)⟩

/-- For every configuration as a load produces it and every text, deleting the phone, the provider
or the fax of that name is exact. -/
theorem deletes_exactly (h : Loaded config) (u : String) :
    DeletesExactly "phone" pbxDeletePhone
      (fun u config => withoutMember u (withoutDestination u config)) config u ∧
    DeletesExactly "provider" pbxDeleteProvider withoutProvider config u ∧
    DeletesExactly "fax" pbxDeleteFax withoutDefaultfax config u := by
  -- the three functions cover every kind that is made with such a name
  have hall : ∀ a ∈ [("phone", phoneTypes), ("provider", providerTypes), ("fax", faxTypes)],
      ∀ k ∈ Kind.all, k.tagName = a.1 → k ∈ a.2 ∨ uniqidStart k = none := by decide
  refine ⟨?_, ?_, ?_⟩
  · exact deletesExactly_of_references h (by decide) (by decide)
      (fun k => hall ("phone", phoneTypes) (by decide) k k.mem_all) fun _ => phoneReferences_eq h
  · exact deletesExactly_of_references h (by decide) (by decide)
      (fun k => hall ("provider", providerTypes) (by decide) k k.mem_all) fun _ => providerReferences_eq h
  · exact deletesExactly_of_references h (by decide) (by decide)
      (fun k => hall ("fax", faxTypes) (by decide) k k.mem_all) fun _ => faxReferences_eq h

end Accounts

/-- A phone that calls through a provider. -/
def phoneThrough (uniqid provider : String) : Val :=
  .arr [(.str "uniqid", .str uniqid), (.str "provider", .ofList [.str provider])]

/-- A mapping of incoming calls. -/
def incoming (pattern destinationid : String) : Val :=
  .arr [(.str "incomingpattern", .str pattern), (.str "destinationid", .str destinationid)]

/-- A provider. -/
def providerTo (maps : List Val) (others : List (Key × Val)) : Val :=
  .arr ([(.str "uniqid", .str "SIP-PROVIDER-1"), (.str "incomingextensionmap", .ofList maps)] ++ others)

/-- A call group. -/
def groupOf (members : List String) : Val :=
  .arr [(.str "uniqid", .str "CALLGROUP-PARALLEL-1"), (.str "groupmember", .ofList (members.map .str))]

/-- Two phones, a provider, a fax, a call group, and the application of the factory configuration. -/
def office : Val :=
  .arr [(.str "sip", .arr [
      (.str "provider", .ofList [providerTo
        [incoming "1" "SIP-PHONE-1", incoming "2" "CALLGROUP-PARALLEL-1"]
        [(.str "defaultfax", .str "VIRTUAL-FAX-1")]]),
      (.str "phone", .ofList [phoneThrough "SIP-PHONE-1" "SIP-PROVIDER-1",
        phoneThrough "SIP-PHONE-2" "SIP-PROVIDER-1"])]),
    (.str "virtual", .arr [(.str "fax", .ofList [.arr [(.str "uniqid", .str "VIRTUAL-FAX-1")]])]),
    (.str "dialplan", .arr [(.str "callgroup", .ofList [groupOf ["SIP-PHONE-1", "SIP-PHONE-2"]]),
      (.str "application", .ofList [.arr
        [(.str "uniqid", .str "APPLICATION-MAPPING-17266106704d401be865273")]])])]

/-- The office is a configuration as it is loaded. -/
theorem loaded_office : Loaded office :=
  loaded_of_all (wellFormed_of_all (by decide) (by decide) (by decide)) (by decide) (by decide)

/-- Deleting a phone of the office. -/
theorem deletes_exactly_office : Loaded office ∧
    pbxDeletePhone "SIP-PHONE-1" (indexed office) =
      (.int 0, { indexed office with
        config := withoutMember "SIP-PHONE-1" (withoutDestination "SIP-PHONE-1"
          (withoutElement (.phone .sip) "SIP-PHONE-1" office)) }) :=
  ⟨loaded_office, (deletes_exactly loaded_office "SIP-PHONE-1").1.1 (.phone .sip) rfl
    (phoneThrough "SIP-PHONE-1" "SIP-PROVIDER-1") List.mem_cons_self rfl⟩

/-! ## Forgetting by offset alone -/

/-- The functions that forget an element by its offset alone, with the kind of the element. -/
def forgetters : List (Kind × (String → Globals → Val)) :=
  [(.dahdiPort, dahdiForgetPort), (.dahdiPortgroup, dahdiDeletePortgroup),
    (.application, applicationsDeleteApplication), (.redfoneGateway, redfoneForgetGateway),
    (.disk, storageForgetDisk)]

/-- A function forgets the element of its own kind with a `uniqid`, and nothing if there is none. -/
def ForgetsOwn (forget : String → Globals → Val) (k : Kind) (config : Val) (u : String) : Prop :=
  forget u (indexed config) = withoutElement k u config ∧
    ((∀ e ∈ elements config k, e.get "uniqid" ≠ .str u) → forget u (indexed config) = config)

/-- The index leads from a text to an offset that the list of the kind has, but for the sake of an
element of another kind, or of a section that is empty. -/
def Misdirects (config : Val) (k : Kind) (u : String) : Prop :=
  (∃ k', k' ≠ k ∧ ∃ i < (elements config k).length, ∃ e,
    (elements config k')[i]? = some e ∧ e.get "uniqid" = .str u) ∨
  (u = "" ∧ (∃ k', listOf config k' = .str "") ∧ elements config k ≠ [])

section Forgetting

variable {config : Val} {k : Kind} {u : String}

/-- There is nothing to take out for an id that is not in the list. -/
theorem withoutElement_of_not_mem (h : ∀ e ∈ elements config k, e.get "uniqid" ≠ .str u) :
    withoutElement k u config = config := by
  apply editList_eq_self
  apply Val.dropItems_eq_self
  intro e he
  simpa [isText] using h e he

/-- An offset of a list is there or not. -/
theorem unset_ofList_eq_self_iff {xs : List Val} {key : Key} :
    (Val.ofList xs).unset key = .ofList xs ↔ ∀ i : ℕ, i < xs.length → key ≠ .int i := by
  rw [Val.ofList, Val.unset, Val.arr.injEq, List.filter_eq_self]
  constructor
  · intro h i hi hkey
    have hmem : (xs[i], i) ∈ xs.zipIdx := List.mk_mem_zipIdx_iff_getElem?.2 (List.getElem?_eq_getElem hi)
    have hne := h _ (List.mem_map_of_mem hmem)
    rw [hkey] at hne
    simp at hne
  · intro h e he
    obtain ⟨⟨x, i⟩, hmem, rfl⟩ := List.mem_map.1 he
    have hi : i < xs.length := by simpa using List.snd_lt_of_mem_zipIdx hmem
    simpa using fun hc => h i hi hc.symm

/-- Unsetting an offset changes something exactly when the list has it. -/
theorem unsetElement_eq_self_iff (h : WellFormed config) :
    unsetElement k u (indexed config) = config ↔
      ∀ i < (elements config k).length,
        ((configBuildUniqidMap config).idx (Val.str u).key).key ≠ .int i := by
  unfold unsetElement indexed
  dsimp only
  have hnone : (listOf config k).isArray = false → elements config k = [] := by
    intro harr
    unfold elements Val.vals
    cases hlist : listOf config k with
    | arr es =>
      rw [hlist] at harr
      cases harr
    | _ => rfl
  -- an element is unset in an array only
  split_ifs with harr
  · have hlist : listOf config k = .ofList (elements config k) := by
      rcases h.lists k with hk | hk | hk
      · rw [hk] at harr
        cases harr
      · rw [hk] at harr
        cases harr
      · exact hk
    rw [← unset_ofList_eq_self_iff, ← hlist]
    constructor
    · intro hset
      have hget := congrArg (fun config => listOf config k) hset
      rwa [listOf_setList_self] at hget
    · intro hunset
      rw [setList_eq_editList (F := Val.unset _) harr]
      exact editList_eq_self hunset
  · rw [hnone (by simpa using harr)]
    simp

/-- Unsetting an offset takes out the element that is found under it, or nothing. -/
theorem unsetElement_cases (h : WellFormed config) (k : Kind) (u : String) :
    (∃ e ∈ elements config k, ∃ w, e.get "uniqid" = .str w ∧ getElement (indexed config) k u = e ∧
      unsetElement k u (indexed config) = withoutElement k w config) ∨
    unsetElement k u (indexed config) = config := by
  by_cases hself : unsetElement k u (indexed config) = config
  · exact .inr hself
  · left
    rw [unsetElement_eq_self_iff h] at hself
    push Not at hself
    obtain ⟨i, hi, hoffset⟩ := hself
    obtain ⟨w, -, hw⟩ := h.uniqids k _ (List.getElem_mem hi)
    refine ⟨_, List.getElem_mem hi, w, hw, ?_, unsetElement_of_offset h hi hoffset hw⟩
    unfold getElement indexed
    dsimp only
    rw [hoffset, idx_of_contiguous (contiguous_of_mem h.lists (List.getElem_mem hi)), List.getElem?_eq_getElem hi,
      Option.getD_some]

/-- Where the index leads from any text. -/
theorem offset_cases (h : WellFormed config) (u : String) :
    (∃ k', ∃ (i : ℕ) (hi : i < (elements config k').length),
      ((elements config k')[i]).get "uniqid" = .str u ∧
      (configBuildUniqidMap config).idx (Val.str u).key = .int i) ∨
    ((∀ k', ∀ e ∈ elements config k', e.get "uniqid" ≠ .str u) ∧ u = "" ∧
      (∃ k', listOf config k' = .str "") ∧
      (configBuildUniqidMap config).idx (Val.str u).key = .int 0) ∨
    ((∀ k', ∀ e ∈ elements config k', e.get "uniqid" ≠ .str u) ∧
      (u ≠ "" ∨ ∀ k', listOf config k' ≠ .str "") ∧
      (configBuildUniqidMap config).idx (Val.str u).key = .null) := by
  by_cases hfound : ∃ k', ∃ e ∈ elements config k', e.get "uniqid" = .str u
  · left
    obtain ⟨k', e, he, hu⟩ := hfound
    obtain ⟨i, hi, rfl⟩ := List.getElem_of_mem he
    have hoffset := h.offset hi
    rw [hu] at hoffset
    exact ⟨k', i, hi, hu, hoffset⟩
  · right
    have hnone : ∀ k', ∀ e ∈ elements config k', e.get "uniqid" ≠ .str u :=
      fun k' e he hu => hfound ⟨k', e, he, hu⟩
    by_cases hempty : u = "" ∧ ∃ k', listOf config k' = .str ""
    · left
      -- a list stored as the empty string counts as one element with an empty name
      obtain ⟨rfl, k', hk'⟩ := hempty
      refine ⟨hnone, rfl, ⟨k', hk'⟩, ?_⟩
      have hkey : (Val.str "").key = .str "" := by decide
      rw [configBuildUniqidMap_eq, hkey]
      refine idx_foldl_set_of_mem ?_ (fun y hy => ?_) fun s hs => by cases hs
      · refine List.mem_flatMap.2 ⟨k', k'.mem_all, List.mem_map.2 ⟨0, ?_, ?_⟩⟩
        · rw [hk']
          decide
        · rw [hk']
          decide
      · obtain ⟨k₁, i, hi, ha⟩ := mem_assignments hy
        obtain ⟨hkey₁, rfl⟩ := Prod.mk.inj ha
        rcases h.lists k₁ with hk₁ | hk₁ | hk₁
        · rw [hk₁] at hi
          cases hi
        · rw [hk₁] at hi
          have hzero : i = 0 := Nat.lt_one_iff.1 hi
          rw [hzero]
          rfl
        · -- the elements have names
          rw [count_of_contiguous hk₁] at hi
          rw [idx_of_contiguous hk₁, List.getElem?_eq_getElem hi, Option.getD_some] at hkey₁
          obtain ⟨u', hne, hu'⟩ := h.uniqids k₁ _ (List.getElem_mem hi)
          rw [hu', ← hkey] at hkey₁
          exact absurd (Val.key_str_injective hkey₁).symm hne
    · right
      have hsections : u ≠ "" ∨ ∀ k', listOf config k' ≠ .str "" := by
        by_cases hu : u = ""
        · exact .inr fun k' hk' => hempty ⟨hu, k', hk'⟩
        · exact .inl hu
      exact ⟨hnone, hsections, h.no_offset hnone hsections⟩

/-- Forgetting by offset forgets the right element exactly when the index does not mislead. -/
theorem forgetsOwn_unsetElement_iff (h : WellFormed config) :
    ForgetsOwn (unsetElement k) k config u ↔ ¬ Misdirects config k u := by
  unfold ForgetsOwn
  -- where the element is there its position is known, and there is nothing to go wrong
  by_cases hown : ∃ e ∈ elements config k, e.get "uniqid" = .str u
  · obtain ⟨e, he, hu⟩ := hown
    have hfalse : ¬ Misdirects config k u := by
      rintro (⟨k', hk', i, -, e', he', hu'⟩ | ⟨rfl, -, -⟩)
      · obtain ⟨j, hj, rfl⟩ := List.getElem_of_mem he
        obtain ⟨hi, rfl⟩ := List.getElem?_eq_some_iff.1 he'
        exact hk' (h.eq_of_uniqid hi hj (hu'.trans hu.symm)).1
      · obtain ⟨u', hne, hu'⟩ := h.uniqids k e he
        rw [hu] at hu'
        exact hne (Val.str.inj hu').symm
    refine iff_of_true ⟨unsetElement_of_mem h he hu, ?_⟩ hfalse
    intro hnone
    exact absurd hu (hnone e he)
  · have hnone : ∀ e ∈ elements config k, e.get "uniqid" ≠ .str u := fun e he hu => hown ⟨e, he, hu⟩
    rw [withoutElement_of_not_mem hnone]
    have hiff : (unsetElement k u (indexed config) = config ∧
        ((∀ e ∈ elements config k, e.get "uniqid" ≠ .str u) →
          unsetElement k u (indexed config) = config)) ↔ unsetElement k u (indexed config) = config :=
      ⟨fun h => h.1, fun h => ⟨h, fun _ => h⟩⟩
    rw [hiff, unsetElement_eq_self_iff h]
    rcases offset_cases h u with ⟨k', i, hi, hu, hoffset⟩ | ⟨hall, rfl, hsection, hoffset⟩ |
      ⟨hall, hsections, hoffset⟩
    · -- the index gives the position in the list of another kind
      rw [hoffset]
      have hk' : k' ≠ k := by
        rintro rfl
        exact hnone _ (List.getElem_mem hi) hu
      constructor
      · rintro hout (⟨k₁, -, j, hj, e, he, hu₁⟩ | ⟨rfl, -, -⟩)
        · obtain ⟨hj₁, rfl⟩ := List.getElem?_eq_some_iff.1 he
          obtain ⟨-, rfl⟩ := h.eq_of_uniqid hi hj₁ (hu.trans hu₁.symm)
          exact hout i hj rfl
        · obtain ⟨u', hne, hu'⟩ := h.uniqids k' _ (List.getElem_mem hi)
          rw [hu] at hu'
          exact hne (Val.str.inj hu').symm
      · intro hfalse j hj hkey
        have hij : (i : ℤ) = j := Key.int.inj hkey
        obtain rfl : i = j := by omega
        exact hfalse (.inl ⟨k', hk', i, hj, _, List.getElem?_eq_getElem hi, hu⟩)
    · -- the empty name, which is that of a list stored as the empty string
      rw [hoffset]
      constructor
      · rintro hout (⟨k', -, i, -, e, he, hu⟩ | ⟨-, -, hne⟩)
        · exact hall k' e (List.mem_of_getElem? he) hu
        · exact hout 0 (List.length_pos_iff.2 hne) rfl
      · intro hfalse j hj hkey
        exact hfalse (.inr ⟨rfl, hsection, List.length_pos_iff.1 (Nat.zero_lt_of_lt hj)⟩)
    · rw [hoffset]
      refine iff_of_true (fun i _ hkey => by cases hkey) ?_
      rintro (⟨k', -, i, -, e, he, hu⟩ | ⟨hu, ⟨k', hk'⟩, -⟩)
      · exact hall k' e (List.mem_of_getElem? he) hu
      · rcases hsections with hne | hsection
        · exact hne hu
        · exact hsection k' hk'

/-- Each of the five functions forgets the element of its own list with that `uniqid`, and nothing
else, exactly when the text is not the `uniqid` of an element of another list at an offset that the
own list has, nor empty like a section. -/
theorem forgets_own_iff (h : WellFormed config) (u : String) :
    ∀ f ∈ forgetters, (ForgetsOwn f.2 f.1 config u ↔ ¬ Misdirects config f.1 u) := by
  intro f hf
  have hbody : f.2 = unsetElement f.1 := by
    simp only [forgetters, List.mem_cons, List.not_mem_nil, or_false] at hf
    rcases hf with rfl | rfl | rfl | rfl | rfl <;> rfl
  rw [hbody]
  exact forgetsOwn_unsetElement_iff h

end Forgetting

/-- A port of a card. -/
def cardPort (uniqid basechannel : String) : Val :=
  .arr [(.str "uniqid", .str uniqid), (.str "basechannel", .str basechannel)]

/-- Three ports and a disk. -/
def portsAndDisk : Val :=
  .arr [(.str "interfaces", .arr [(.str "dahdi-port", .ofList [cardPort "DAHDIPORT-ANALOG-1" "1",
      cardPort "DAHDIPORT-ANALOG-2" "2", cardPort "DAHDIPORT-ISDN-1" "5"])]),
    (.str "storage", .arr [(.str "disk", .ofList [.arr [(.str "uniqid", .str "STORAGE-DISK-1")]])])]

/-- The ports and the disk have ids of their own. -/
theorem wellFormed_portsAndDisk : WellFormed portsAndDisk :=
  wellFormed_of_all (by decide) (by decide) (by decide)

/-- Forgetting the second port by its own name leaves the others, in their order, and the disk. -/
theorem forgets_own_portsAndDisk :
    ForgetsOwn dahdiForgetPort .dahdiPort portsAndDisk "DAHDIPORT-ANALOG-2" ∧
      elements (dahdiForgetPort "DAHDIPORT-ANALOG-2" (indexed portsAndDisk)) .dahdiPort =
        [cardPort "DAHDIPORT-ANALOG-1" "1", cardPort "DAHDIPORT-ISDN-1" "5"] ∧
      elements (dahdiForgetPort "DAHDIPORT-ANALOG-2" (indexed portsAndDisk)) .disk =
        elements portsAndDisk .disk := by
  have hall : ∀ k ∈ Kind.all, k ≠ .dahdiPort → ∀ e ∈ elements portsAndDisk k,
      e.get "uniqid" ≠ .str "DAHDIPORT-ANALOG-2" := by decide
  -- no element of another kind has the name of the port
  have hforgets := (forgets_own_iff wellFormed_portsAndDisk "DAHDIPORT-ANALOG-2" (.dahdiPort, dahdiForgetPort)
    List.mem_cons_self).2 <| by
      rintro (⟨k', hk', i, hi, e, he, hu⟩ | ⟨hu, -, -⟩)
      · exact hall k' k'.mem_all hk' e (List.mem_of_getElem? he) hu
      · exact absurd hu (by decide)
  exact ⟨hforgets, by decide, by decide⟩

/-- The name of the disk makes the first port go. -/
theorem not_forgets_own :
    ¬ ∀ (config : Val) (u : String), WellFormed config → ∀ f ∈ forgetters,
      ForgetsOwn f.2 f.1 config u := by
  intro h
  have hport := h portsAndDisk "STORAGE-DISK-1" wellFormed_portsAndDisk (.dahdiPort, dahdiForgetPort)
    List.mem_cons_self
  -- the first port stands where the disk stands in its own list
  have hgone : elements (dahdiForgetPort "STORAGE-DISK-1" (indexed portsAndDisk)) .dahdiPort =
      [cardPort "DAHDIPORT-ANALOG-2" "2", cardPort "DAHDIPORT-ISDN-1" "5"] := by decide
  have hkept : dahdiForgetPort "STORAGE-DISK-1" (indexed portsAndDisk) = portsAndDisk :=
    hport.2 (by decide)
  rw [hkept] at hgone
  revert hgone
  decide

end Pbx
end Askozia
