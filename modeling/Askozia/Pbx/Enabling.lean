import Askozia.Pbx.Delete
import Askozia.Util.ManualFiles
import Askozia.XmlParse.Booleans

/-!
# Enabling and disabling accounts (`pbx.inc`, `accounts_phones.php` and its siblings)

An account is disabled by a field that is set to `true` and enabled by unsetting it. A page that did
so writes the configuration, and the next one reads an empty text where `true` was.

* `markAccount_of_mem` and `markAccount_of_not_mem` say what one call does;
* `last_switch_counts`: after any sequence of such pages an account is disabled exactly when the last
  one for it disabled it, and nothing else has changed.
-/

namespace Askozia
namespace Pbx

open Php Config XmlParse

/-! ## The functions -/

/-- `$GLOBALS['config'][section][tag][$uniqid_map[$uniqid]]` after a field of it was set or unset. -/
def markElement (mark : Val → Val) (k : Kind) (uniqid : String) (g : Globals) : Val :=
  setList g.config k ((listOf g.config k).set (g.uniqidMap.idx (Val.str uniqid).key).key
    (mark (getElement g k uniqid)))

/-- The body of `pbx_disable_phone` and its siblings: what is returned, and the variables after it. -/
def markAccount (word : String) (types : List Kind) (mark : Val → Val) (name uniqid : String)
    (g : Globals) : Val × Globals :=
  let pieces := explode '-' uniqid
  let type := strtolower (pieces.headD "")
  match types.find? fun k => k.sectionName = type with
  | some k =>
    if pieces[1]? = some word ∧ (getElement g k uniqid).isArray then
      (.int 0, { g with config := markElement mark k uniqid g })
    else (.str ("ERROR: invalid uniqid (" ++ uniqid ++ ") provided in " ++ name ++ "!"), g)
  | none => (.str ("ERROR: invalid uniqid (" ++ uniqid ++ ") provided in " ++ name ++ "!"), g)

/-- `['disabled'] = true` -/
def disable (e : Val) : Val := e.set (.str "disabled") (.bool true)

/-- `unset(['disabled'])` -/
def enable (e : Val) : Val := e.unset (.str "disabled")

/-- `pbx_disable_provider($uniqid)` -/
def pbxDisableProvider : String → Globals → Val × Globals :=
  markAccount "PROVIDER" providerTypes disable "pbx_disable_provider"

/-- `pbx_enable_provider($uniqid)` -/
def pbxEnableProvider : String → Globals → Val × Globals :=
  markAccount "PROVIDER" providerTypes enable "pbx_enable_provider"

/-- `pbx_disable_phone($uniqid)` -/
def pbxDisablePhone : String → Globals → Val × Globals :=
  markAccount "PHONE" phoneTypes disable "pbx_disable_phone"

/-- `pbx_enable_phone($uniqid)` -/
def pbxEnablePhone : String → Globals → Val × Globals :=
  markAccount "PHONE" phoneTypes enable "pbx_enable_phone"

/-- `pbx_disable_fax($uniqid)` -/
def pbxDisableFax : String → Globals → Val × Globals :=
  markAccount "FAX" faxTypes disable "pbx_disable_fax"

/-- `pbx_enable_fax($uniqid)` -/
def pbxEnableFax : String → Globals → Val × Globals :=
  markAccount "FAX" faxTypes enable "pbx_enable_fax"

/-- `pbx_provider_is_active($uniqid)` -/
def pbxProviderIsActive (uniqid : String) (g : Globals) : Val :=
  let pieces := explode '-' uniqid
  let type := strtolower (pieces.headD "")
  match providerTypes.find? fun k => k.sectionName = type with
  | some k =>
    if pieces[1]? = some "PROVIDER" ∧ (getElement g k uniqid).isArray then
      .bool (!((getElement g k uniqid).get "disabled").isset)
    else .str ("ERROR: invalid uniqid (" ++ uniqid ++ ") provided in pbx_provider_is_active!")
  | none => .str ("ERROR: invalid uniqid (" ++ uniqid ++ ") provided in pbx_provider_is_active!")

/-! ## The pages -/

/-- The pages that list accounts. -/
inductive AccountPage where
  | phones
  | providers
  | faxes
deriving DecidableEq, Repr

/-- The kinds of accounts on a page. -/
def AccountPage.types : AccountPage → List Kind
  | phones => phoneTypes
  | providers => providerTypes
  | faxes => faxTypes

/-- The word in the `uniqid`s of the accounts on a page. -/
def AccountPage.word : AccountPage → String
  | phones => "PHONE"
  | providers => "PROVIDER"
  | faxes => "FAX"

/-- A request for a page, with the action `enable` or `disable`. -/
structure Switch where
  page : AccountPage
  on : Bool
  uniqid : String
deriving DecidableEq, Repr

/-- The function the page calls. -/
def Switch.call : Switch → Globals → Val × Globals
  | ⟨.phones, false, uniqid⟩ => pbxDisablePhone uniqid
  | ⟨.phones, true, uniqid⟩ => pbxEnablePhone uniqid
  | ⟨.providers, false, uniqid⟩ => pbxDisableProvider uniqid
  | ⟨.providers, true, uniqid⟩ => pbxEnableProvider uniqid
  | ⟨.faxes, false, uniqid⟩ => pbxDisableFax uniqid
  | ⟨.faxes, true, uniqid⟩ => pbxEnableFax uniqid

/-- Requests in a row. A page loads the configuration, and writes it if nothing was wrong. -/
inductive Switched (X : Xml.Expat) (start : Val) : List Switch → Val → Prop
  | start : Switched X start [] start
  | refused {l : List Switch} {config : Val} {s : Switch} : Switched X start l config →
      (s.call (indexed config)).1.truthy = true → Switched X start (l ++ [s]) config
  | written {l : List Switch} {config config' : Val} {s : Switch} {now : ℤ} : Switched X start l config →
      (s.call (indexed config)).1.truthy = false →
      normalise X (stamp now (s.call (indexed config)).2.config) = .ok config' →
      Switched X start (l ++ [s]) config'

/-- What the last request for an element of a kind asked for. -/
def asked (l : List Switch) (k : Kind) (u : Val) : Option Bool :=
  (l.reverse.find? fun s => k ∈ s.page.types ∧ u = .str s.uniqid).map Switch.on

/-- An element after some requests: as it was, or enabled or disabled by the last one. -/
def AsAsked (l : List Switch) (k : Kind) (e e' : Val) : Prop :=
  match asked l k (e.get "uniqid") with
  | none => e' = e
  | some on => e'.unset (.str "disabled") = e.unset (.str "disabled") ∧ (e'.get "disabled").isset = !on

/-- The same but for the time of the last change and the lists of accounts. -/
structure SameElsewhere (config config' : Val) : Prop where
  sections : ∀ n, n ≠ "lastchange" → (∀ p : AccountPage, ∀ k ∈ p.types, n ≠ k.sectionName) →
    config'.get n = config.get n
  tags : ∀ p : AccountPage, ∀ k ∈ p.types, ∀ n, (∀ p : AccountPage, ∀ k' ∈ p.types,
    k'.sectionName = k.sectionName → n ≠ k'.tagName) →
      (config'.get k.sectionName).get n = (config.get k.sectionName).get n

/-! ## One call -/

section Call

variable {config : Val} {u word name : String} {types : List Kind} {mark : Val → Val} {k : Kind} {i : ℕ}

/-- Marking an element replaces it where it is. -/
theorem markElement_of_mem (h : WellFormed config) (hi : i < (elements config k).length)
    (hu : ((elements config k)[i]).get "uniqid" = .str u) :
    markElement mark k u (indexed config) =
      setList config k (.ofList ((elements config k).set i (mark (elements config k)[i]))) := by
  have hoffset := h.offset hi
  rw [hu] at hoffset
  have hlist : listOf config k = .ofList (elements config k) := contiguous_of_mem h.lists (List.getElem_mem hi)
  unfold markElement
  rw [getElement_of_mem h (List.getElem_mem hi) hu]
  show setList config k ((listOf config k).set ((configBuildUniqidMap config).idx (Val.str u).key).key _) = _
  rw [hoffset, hlist]
  show setList config k ((Val.ofList (elements config k)).set (.int i) _) = _
  rw [Val.set_ofList hi]

/-- Marking an account that is stored. -/
theorem markAccount_of_mem (h : Loaded config) (htypes : (word, types) ∈ accountTypes) (hk : k ∈ types)
    (hi : i < (elements config k).length) (hu : ((elements config k)[i]).get "uniqid" = .str u) :
    markAccount word types mark name u (indexed config) = (.int 0, { indexed config with
      config := setList config k (.ofList ((elements config k).set i (mark (elements config k)[i]))) }) := by
  obtain ⟨start, hstart, hprefix⟩ := h.starts k _ (List.getElem_mem hi) u hu
  obtain ⟨hfind, hword⟩ := find_of_start htypes hk hstart hprefix
  have hget := getElement_of_mem h.wellFormed (List.getElem_mem hi) hu
  have harr := isArray_of_uniqid hstart hprefix hu
  unfold markAccount
  dsimp only
  rw [hfind]
  dsimp only
  rw [if_pos ⟨hword, by rw [hget]; exact harr⟩, markElement_of_mem h.wellFormed hi hu]

/-- Marking what is not stored as such an account. The test is the one that deleting it makes. -/
theorem markAccount_of_not_mem (h : Loaded config) (htypes : (word, types) ∈ accountTypes)
    (hnone : ∀ k ∈ types, ∀ e ∈ elements config k, e.get "uniqid" ≠ .str u) :
    markAccount word types mark name u (indexed config) =
      (.str ("ERROR: invalid uniqid (" ++ u ++ ") provided in " ++ name ++ "!"), indexed config) := by
  have hdelete := @deleteAccount_of_not_mem config u word name types (fun _ config => config) h htypes hnone
  unfold deleteAccount at hdelete
  unfold markAccount
  dsimp only at hdelete ⊢
  split
  · next k hfind =>
    rw [hfind] at hdelete
    dsimp only at hdelete
    split_ifs at hdelete with hguard
    · cases (Prod.mk.inj hdelete).1
    · rw [if_neg hguard]
  · rfl

end Call

/-! ## Writing it -/

section Written

variable {config : Val} {k : Kind} {i : ℕ} {now : ℤ} {e' e'' : Val}

/-- The tree with the time of the change, as it is read back. -/
def stamped (now : ℤ) (config : Val) : Val :=
  if now > clockPlausible then config.set (.str "lastchange") (.str (toString now)) else config

/-- The time of a change is a canonical entry. -/
theorem canonicalEntry_time {P : String → Prop} (h : P (toString now)) :
    CanonicalEntry P (.str "lastchange", .str (toString now)) := by
  have hname : LowerName "lastchange" ∧ "lastchange" ∉ listtags := by
    unfold LowerName
    decide
  exact .single hname.1 hname.2 (.str h)

/-- A configuration stays canonical when it is stamped. -/
theorem canonical_stamped (h : Canonical Printable config) (harr : config.isArray = true) :
    Canonical Printable (stamped now config) := by
  unfold stamped
  split_ifs with hnow
  · exact h.set harr (canonicalEntry_time (Util.printable_time hnow))
  · exact h

/-- The names of the section and of the list of a kind. -/
theorem kind_names (k : Kind) : (LowerName k.sectionName ∧ k.sectionName ∉ listtags) ∧
    LowerName k.tagName ∧ k.tagName ∈ listtags := by
  have hall : ∀ k ∈ Kind.all, ((Xml.isName k.sectionName = true ∧ strtolower k.sectionName = k.sectionName) ∧
      k.sectionName ∉ listtags) ∧ (Xml.isName k.tagName = true ∧ strtolower k.tagName = k.tagName) ∧
      k.tagName ∈ listtags := by decide +kernel
  exact hall k k.mem_all

/-- The section of a kind that has elements. -/
theorem isArray_section (h : (elements config k) ≠ []) : (config.get k.sectionName).isArray = true := by
  unfold elements listOf at h
  cases hsection : config.get k.sectionName with
  | arr es => rfl
  | str s =>
    rw [hsection] at h
    exact absurd rfl h
  | _ =>
    rw [hsection] at h
    exact absurd rfl h

/-- A configuration with elements is an array. -/
theorem isArray_config (h : (elements config k) ≠ []) : config.isArray = true := by
  have hsection := isArray_section h
  cases config with
  | arr es => rfl
  | str s => cases hsection
  | _ => cases hsection

/-- The elements of a canonical configuration are canonical. -/
theorem canonical_elements {P : String → Prop} (h : Canonical P config) {e : Val} (he : e ∈ elements config k) :
    Canonical P e := by
  have hne : elements config k ≠ [] := List.ne_nil_of_mem he
  obtain ⟨⟨-, hsection⟩, -, htag⟩ := kind_names k
  refine (h.get hsection (isArray_section hne)).items htag ?_ e he
  unfold elements listOf at hne
  cases hlist : (config.get k.sectionName).get k.tagName with
  | arr es => rfl
  | _ =>
    rw [hlist] at hne
    exact absurd rfl hne

/-- A list of a canonical configuration in which one element was replaced. -/
theorem canonical_replace {P : String → Prop} (h : Canonical P config) (hi : i < (elements config k).length)
    (he : Canonical P e'') : Canonical P (setList config k (.ofList ((elements config k).set i e''))) := by
  have hne : elements config k ≠ [] := List.ne_nil_of_length_pos (Nat.zero_lt_of_lt hi)
  obtain ⟨⟨hsname, hslist⟩, htname, htlist⟩ := kind_names k
  have hsection := isArray_section hne
  have hitems : ∀ x ∈ (elements config k).set i e'', Canonical P x := by
    intro x hx
    rcases List.mem_or_eq_of_mem_set hx with hx | rfl
    · exact canonical_elements h hx
    · exact he
  have hlist := (h.get hslist hsection).set hsection
    (.list htname htlist (fun hnil => hne ((List.set_eq_nil_iff _ _).1 hnil)) hitems)
  exact h.set (isArray_config hne) (.single hsname hslist hlist)

/-- The same before it is written: the element may hold `true`. -/
theorem readBack_replace {P : String → Prop} (h : Canonical P config) (hi : i < (elements config k).length)
    (hfalse : isFalse e' = false) (he : readBack id e' = e'') :
    readBack id (setList config k (.ofList ((elements config k).set i e'))) =
      setList config k (.ofList ((elements config k).set i e'')) := by
  have hne : elements config k ≠ [] := List.ne_nil_of_length_pos (Nat.zero_lt_of_lt hi)
  have hsection := isArray_section hne
  have hsettles : ∀ x ∈ elements config k, Settles x := fun x hx => (canonical_elements h hx).settles
  have hlist : readBack id (.ofList ((elements config k).set i e')) =
      .ofList ((elements config k).set i e'') := by
    rw [readBack_ofList, List.map_set, he]
    · congr 2
      exact (List.map_congr_left fun x hx => (hsettles x hx).2).trans (List.map_id _)
    · intro x hx
      rcases List.mem_or_eq_of_mem_set hx with hx | rfl
      · exact (hsettles x hx).1
      · exact hfalse
  unfold setList
  rw [h.readBack_set (isArray_config hne) rfl,
    (h.get (kind_names k).1.2 hsection).readBack_set hsection rfl, hlist]

/-- Writing the configuration and reading it back. -/
theorem normalise_replace (X : Xml.Expat) (h : Canonical Printable config) (hi : i < (elements config k).length)
    (hfalse : isFalse e' = false) (he : readBack id e' = e'') (hc : Canonical Printable e'') (now : ℤ) :
    normalise X (stamp now (setList config k (.ofList ((elements config k).set i e')))) =
      .ok (stamped now (setList config k (.ofList ((elements config k).set i e'')))) := by
  have hread := readBack_replace h hi hfalse he
  have hcanonical : Canonical Printable (stamped now (setList config k
      (.ofList ((elements config k).set i e'')))) := canonical_stamped (canonical_replace h hi hc) rfl
  have hstamp : readBack id (stamp now (setList config k (.ofList ((elements config k).set i e')))) =
      stamped now (setList config k (.ofList ((elements config k).set i e''))) := by
    unfold stamp stamped
    split_ifs
    · rw [readBack_set rfl _ rfl, hread]
      · rfl
      · intro e he
        have hne : elements config k ≠ [] := List.ne_nil_of_length_pos (Nat.zero_lt_of_lt hi)
        rcases Val.mem_setEntry he with rfl | he
        · rfl
        · exact (h.entries (isArray_config hne) e he).settles.1
    · exact hread
  have harr : ∃ es, stamp now (setList config k (.ofList ((elements config k).set i e'))) = .arr es := by
    unfold stamp
    split_ifs
    · exact ⟨_, rfl⟩
    · exact ⟨_, rfl⟩
  obtain ⟨es, hes⟩ := harr
  rw [hes] at hstamp ⊢
  rw [readBack] at hstamp
  rw [← hstamp] at hcanonical ⊢
  exact normalise_readBack X hcanonical

end Written

/-! ## One request -/

/-- What the function a page calls does to an account. -/
def Switch.mark (s : Switch) : Val → Val := if s.on then enable else disable

/-- An account after it was marked, written and read back. -/
def switchedTo (on : Bool) (e : Val) : Val :=
  if on then e.unset (.str "disabled") else e.set (.str "disabled") (.str "")

section Marked

variable {e : Val} {u : String}

/-- A field that is set and then unset is gone. -/
theorem unset_set (harr : e.isArray = true) (x : Val) :
    (e.set (.str "disabled") x).unset (.str "disabled") = e.unset (.str "disabled") := by
  cases e with
  | arr es =>
    show Val.arr ((Val.setEntry (.str "disabled") x es).filter fun e => e.1 != .str "disabled") =
      .arr (es.filter fun e => e.1 != .str "disabled")
    congr 1
    induction es with
    | nil => rfl
    | cons e r ih =>
      obtain ⟨k, y⟩ := e
      rw [Val.setEntry]
      split_ifs with hk
      · rw [hk, List.filter_cons_of_neg (by simp), List.filter_cons_of_neg (by simp)]
      · rw [List.filter_cons, List.filter_cons, ih rfl]
  | _ => cases harr

/-- So is one that is unset twice. -/
theorem unset_unset (v : Val) : (v.unset (.str "disabled")).unset (.str "disabled") = v.unset (.str "disabled") := by
  cases v with
  | arr es =>
    show Val.arr ((es.filter _).filter _) = Val.arr (es.filter _)
    rw [List.filter_filter]
    simp
  | _ => rfl

/-- The mark is a canonical entry. -/
theorem canonicalEntry_disabled : CanonicalEntry Printable (.str "disabled", .str "") := by
  have hname : LowerName "disabled" ∧ "disabled" ∉ listtags := by
    unfold LowerName
    decide
  have hempty : Printable "" := by
    unfold Printable
    decide
  exact .single hname.1 hname.2 (.str hempty)

/-- A marked account is read back as one that is disabled or enabled, and is otherwise the same. -/
theorem switchedTo_spec (he : Canonical Printable e) (harr : e.isArray = true) (hu : e.get "uniqid" = .str u)
    (s : Switch) : isFalse (s.mark e) = false ∧ readBack id (s.mark e) = switchedTo s.on e ∧
      Canonical Printable (switchedTo s.on e) ∧ (switchedTo s.on e).get "uniqid" = .str u ∧
      (switchedTo s.on e).unset (.str "disabled") = e.unset (.str "disabled") ∧
      ((switchedTo s.on e).get "disabled").isset = !s.on := by
  unfold Switch.mark switchedTo
  cases s.on with
  | true =>
    have hget : (e.unset (.str "disabled")).get "uniqid" = .str u := by
      rw [get_unset_of_ne e (by decide), hu]
    have hcanonical : Canonical Printable (e.unset (.str "disabled")) := by
      cases he with
      | str _ => cases harr
      | @map es hne hnodup hes =>
        show Canonical Printable (.arr (es.filter _))
        refine .map ?_ (hnodup.sublist (List.filter_sublist.map _)) fun x hx => hes x (List.mem_of_mem_filter hx)
        intro hnil
        have hnull : (Val.arr (es.filter fun e => e.1 != .str "disabled")).get "uniqid" = .null := by
          rw [hnil]
          rfl
        cases hnull.symm.trans hget
    -- what is left is read back as it is
    refine ⟨hcanonical.settles.1, hcanonical.settles.2, hcanonical, hget, unset_unset e, ?_⟩
    rw [if_pos rfl, get_unset_self harr]
    rfl
  | false =>
    rw [if_neg Bool.false_ne_true, if_neg Bool.false_ne_true, disable]
    refine ⟨rfl, ?_, he.set harr canonicalEntry_disabled, ?_, unset_set harr _, ?_⟩
    · rw [he.readBack_set harr rfl, readBack]
      rfl
    · rw [Val.get, Val.idx_set_of_ne _ (by decide), ← hu]
      · rfl
      · rintro w rfl
        cases harr
    · rw [Val.get, Val.idx_set_self]
      rfl

end Marked

section Step

variable {config config' : Val} {s : Switch} {k k' : Kind} {i : ℕ}

/-- The name of the function the page calls. -/
def Switch.name : Switch → String
  | ⟨.phones, false, _⟩ => "pbx_disable_phone"
  | ⟨.phones, true, _⟩ => "pbx_enable_phone"
  | ⟨.providers, false, _⟩ => "pbx_disable_provider"
  | ⟨.providers, true, _⟩ => "pbx_enable_provider"
  | ⟨.faxes, false, _⟩ => "pbx_disable_fax"
  | ⟨.faxes, true, _⟩ => "pbx_enable_fax"

/-- A request calls one function, with the word and the kinds of its page. -/
theorem Switch.call_eq (s : Switch) :
    s.call = markAccount s.page.word s.page.types s.mark s.name s.uniqid := by
  obtain ⟨page, on, uniqid⟩ := s
  cases page <;> cases on <;> rfl

/-- These are the kinds that the function looks through. -/
theorem types_mem_accountTypes (p : AccountPage) : (p.word, p.types) ∈ accountTypes := by
  cases p <;> decide

/-- What the configuration is after a request for an account that is stored. -/
def afterSwitch (now : ℤ) (s : Switch) (config : Val) (k : Kind) (i : ℕ) (e : Val) : Val :=
  stamped now (setList config k (.ofList ((elements config k).set i (switchedTo s.on e))))

/-- A request for an account that is stored can be answered. -/
theorem call_of_mem (X : Xml.Expat) (h : Loaded config) (hp : Canonical Printable config)
    (hk : k ∈ s.page.types) (hi : i < (elements config k).length)
    (hu : ((elements config k)[i]).get "uniqid" = .str s.uniqid) :
    (s.call (indexed config)).1.truthy = false ∧ ∀ now,
      normalise X (stamp now (s.call (indexed config)).2.config) =
        .ok (afterSwitch now s config k i (elements config k)[i]) := by
  obtain ⟨start, hstart, hprefix⟩ := h.starts k _ (List.getElem_mem hi) _ hu
  have harr := isArray_of_uniqid hstart hprefix hu
  obtain ⟨hfalse, hread, hcanonical, -⟩ := switchedTo_spec (canonical_elements hp (List.getElem_mem hi)) harr hu s
  rw [s.call_eq, markAccount_of_mem h (types_mem_accountTypes s.page) hk hi hu]
  exact ⟨rfl, normalise_replace X hp hi hfalse hread hcanonical⟩

/-- A request for anything else is refused. -/
theorem call_of_not_mem (h : Loaded config)
    (hnone : ∀ k ∈ s.page.types, ∀ e ∈ elements config k, e.get "uniqid" ≠ .str s.uniqid) :
    (s.call (indexed config)).1.truthy = true := by
  rw [s.call_eq, markAccount_of_not_mem h (types_mem_accountTypes s.page) hnone]
  have hne : "ERROR: invalid uniqid (" ++ s.uniqid ++ ") provided in " ++ s.name ++ "!" ≠ "" ∧
      "ERROR: invalid uniqid (" ++ s.uniqid ++ ") provided in " ++ s.name ++ "!" ≠ "0" := by
    constructor
    · intro h
      simpa using congrArg String.toList h
    · intro h
      simpa using congrArg String.toList h
  dsimp only
  rw [Val.truthy, Bool.and_eq_true, bne_iff_ne, bne_iff_ne]
  exact hne

/-- The time of the last change is no section. -/
theorem sectionName_ne_lastchange (k : Kind) : k.sectionName ≠ "lastchange" := by
  have hnames : ∀ k ∈ Kind.all, k.sectionName ≠ "lastchange" := by decide
  exact hnames k k.mem_all

/-- Only the time of the last change is stamped. -/
theorem get_stamped (now : ℤ) (h : ∀ t, config ≠ .str t) {n : String} (hn : n ≠ "lastchange") :
    (stamped now config).get n = config.get n := by
  unfold stamped
  split_ifs
  · exact Val.idx_set_of_ne _ (fun hc => hn (Key.str.inj hc)) h
  · rfl

/-- A stamp leaves the lists. -/
theorem listOf_stamped (now : ℤ) (h : ∀ t, config ≠ .str t) (k : Kind) :
    listOf (stamped now config) k = listOf config k := by
  unfold listOf
  rw [get_stamped now h (sectionName_ne_lastchange k)]

/-- Writing a list makes an array. -/
theorem setList_ne_str (k : Kind) (v : Val) : ∀ t, setList config k v ≠ .str t := by
  rintro t ⟨⟩

/-- The names are a matter of the lists. -/
theorem named_congr (h : Named config) (hlists : ∀ k, listOf config' k = listOf config k) : Named config' := by
  have helements : ∀ k, elements config' k = elements config k := fun k => congrArg Val.vals (hlists k)
  refine ⟨⟨?_, ?_, ?_⟩, ?_⟩
  · intro k
    rw [hlists k]
    exact h.wellFormed.lists k
  · simp only [helements]
    exact h.wellFormed.uniqids
  · simp only [helements]
    exact h.wellFormed.distinct
  · simp only [helements]
    exact h.starts

/-- Replacing an element by one with its name keeps the names. -/
theorem named_replace (h : Named config) (hi : i < (elements config k).length) {u : String} {e' : Val}
    (hu : ((elements config k)[i]).get "uniqid" = .str u) (he' : e'.get "uniqid" = .str u) :
    Named (setList config k (.ofList ((elements config k).set i e'))) := by
  refine ⟨wellFormed_replace h.wellFormed hi hu he', ?_⟩
  intro k' e he w hw
  by_cases hk : k' = k
  · subst hk
    rw [elements_setList] at he
    rcases List.mem_or_eq_of_mem_set he with he | rfl
    · exact h.starts k' e he w hw
    · rw [he'] at hw
      obtain rfl := Val.str.inj hw
      exact h.starts k' _ (List.getElem_mem hi) u hu
  · rw [elements_setList_of_ne hk] at he
    exact h.starts k' e he w hw

/-- A request changes one element of one list. -/
theorem elements_afterSwitch (now : ℤ) (e : Val) :
    elements (afterSwitch now s config k i e) k' =
      if k' = k then (elements config k).set i (switchedTo s.on e) else elements config k' := by
  unfold afterSwitch elements
  rw [listOf_stamped _ (setList_ne_str k _)]
  split_ifs with hk
  · subst hk
    exact elements_setList _ _ _
  · exact elements_setList_of_ne hk _

/-- A request leaves a configuration as a load produces it. -/
theorem loaded_afterSwitch (h : Loaded config) (hp : Canonical Printable config)
    (hi : i < (elements config k).length) {u : String} (hu : ((elements config k)[i]).get "uniqid" = .str u)
    (now : ℤ) :
    Loaded (afterSwitch now s config k i (elements config k)[i]) ∧
      Canonical Printable (afterSwitch now s config k i (elements config k)[i]) := by
  obtain ⟨start, hstart, hprefix⟩ := h.starts k _ (List.getElem_mem hi) u hu
  have harr := isArray_of_uniqid hstart hprefix hu
  obtain ⟨-, -, hcanonical, huniqid, -⟩ := switchedTo_spec (canonical_elements hp (List.getElem_mem hi)) harr hu s
  have hprintable : Canonical Printable (afterSwitch now s config k i (elements config k)[i]) :=
    canonical_stamped (canonical_replace hp hi hcanonical) rfl
  refine ⟨⟨named_congr (named_replace h.toNamed hi hu huniqid) fun k' => ?_,
    hprintable.weaken fun _ _ => trivial⟩, hprintable⟩
  exact listOf_stamped now (setList_ne_str k _) k'

/-- A request changes the list of accounts and the time of the last change. -/
theorem sameElsewhere_afterSwitch (hp : Canonical Printable config) (hk : k ∈ s.page.types)
    (hi : i < (elements config k).length) (now : ℤ) (e : Val) :
    SameElsewhere config (afterSwitch now s config k i e) := by
  have hne : elements config k ≠ [] := List.ne_nil_of_length_pos (Nat.zero_lt_of_lt hi)
  have hconfig : ∀ t, config ≠ .str t := by
    rintro t rfl
    cases isArray_config hne
  have hsection : ∀ t, config.idx (.str k.sectionName) ≠ .str t := by
    intro t ht
    have harr := isArray_section hne
    rw [Val.get, ht] at harr
    cases harr
  constructor
  · intro n hlast hn
    rw [afterSwitch, get_stamped now (setList_ne_str k _) hlast]
    exact Val.idx_set_of_ne _ (fun h => hn s.page k hk (Key.str.inj h)) hconfig
  · intro p k' hk' n hn
    rw [afterSwitch, get_stamped now (setList_ne_str k _) (sectionName_ne_lastchange k')]
    -- a list of the same section is left alone as well
    by_cases hsame : k.sectionName = k'.sectionName
    · rw [← hsame, setList, Val.get, Val.get, Val.idx_set_self]
      exact Val.idx_set_of_ne _ (fun h => hn s.page k hk hsame (Key.str.inj h)) hsection
    · have hother : (setList config k (.ofList ((elements config k).set i (switchedTo s.on e)))).get k'.sectionName =
          config.get k'.sectionName :=
        Val.idx_set_of_ne _ (fun h => hsame (Key.str.inj h).symm) hconfig
      rw [hother]

end Step

/-! ## Runs -/

section Runs

variable {start config : Val} {l : List Switch} {s : Switch} {k : Kind}

/-- The last request for an account is the one that counts. -/
theorem asked_concat (l : List Switch) (s : Switch) (k : Kind) (u : Val) :
    asked (l ++ [s]) k u = if k ∈ s.page.types ∧ u = .str s.uniqid then some s.on else asked l k u := by
  unfold asked
  rw [List.reverse_append, List.reverse_singleton, List.singleton_append, List.find?_cons]
  split_ifs with h
  · rw [decide_eq_true h]
    rfl
  · rw [decide_eq_false h]

/-- Requests leave the names of accounts alone. -/
theorem AsAsked.uniqid {e e' : Val} (h : AsAsked l k e e') : e'.get "uniqid" = e.get "uniqid" := by
  unfold AsAsked at h
  split at h
  · rw [h]
  · have hne : "uniqid" ≠ "disabled" := by decide
    rw [← get_unset_of_ne e' hne, h.1, get_unset_of_ne e hne]

/-- A request for something else. -/
theorem AsAsked.skip {e e' : Val} (h : AsAsked l k e e')
    (hs : ¬ (k ∈ s.page.types ∧ e'.get "uniqid" = .str s.uniqid)) : AsAsked (l ++ [s]) k e e' := by
  rw [h.uniqid] at hs
  unfold AsAsked
  rw [asked_concat, if_neg hs]
  exact h

/-- A request for the account. -/
theorem AsAsked.mark {e e' : Val} (h : AsAsked l k e e') (hk : k ∈ s.page.types)
    (he : Canonical Printable e') (harr : e'.isArray = true) (hu : e'.get "uniqid" = .str s.uniqid) :
    AsAsked (l ++ [s]) k e (switchedTo s.on e') := by
  obtain ⟨-, -, -, -, hunset, hisset⟩ := switchedTo_spec he harr hu s
  have hsame : e'.unset (.str "disabled") = e.unset (.str "disabled") := by
    unfold AsAsked at h
    split at h
    · rw [h]
    · exact h.1
  have hstart := h.uniqid.symm.trans hu
  unfold AsAsked
  rw [asked_concat, if_pos ⟨hk, hstart⟩]
  exact ⟨hunset.trans hsame, hisset⟩

/-- Two changes that leave everything else do so together. -/
theorem SameElsewhere.trans {config' : Val} (h : SameElsewhere start config) (h' : SameElsewhere config config') :
    SameElsewhere start config' :=
  ⟨fun n hlast hn => (h'.sections n hlast hn).trans (h.sections n hlast hn),
    fun p k hk n hn => (h'.tags p k hk n hn).trans (h.tags p k hk n hn)⟩

/-- What holds after any number of requests. -/
structure AfterSwitches (start : Val) (l : List Switch) (config : Val) : Prop where
  loaded : Loaded config
  printable : Canonical Printable config
  elsewhere : SameElsewhere start config
  accounts : ∀ k, List.Forall₂ (AsAsked l k) (elements start k) (elements config k)

/-- A request for what no account has changes nothing. -/
theorem AfterSwitches.refuse (h : AfterSwitches start l config)
    (hnone : ∀ k ∈ s.page.types, ∀ e ∈ elements config k, e.get "uniqid" ≠ .str s.uniqid) :
    AfterSwitches start (l ++ [s]) config := by
  refine ⟨h.loaded, h.printable, h.elsewhere, ?_⟩
  intro k
  have haccounts := List.forall₂_iff_get.1 (h.accounts k)
  refine List.forall₂_iff_get.2 ⟨haccounts.1, fun i hi hi' => (haccounts.2 i hi hi').skip ?_⟩
  rintro ⟨hk, hu⟩
  exact hnone k hk _ (List.get_mem _ _) hu

/-- A request for an account marks that account. -/
theorem AfterSwitches.answer (h : AfterSwitches start l config) (hk : k ∈ s.page.types) {i : ℕ}
    (hi : i < (elements config k).length) (hu : ((elements config k)[i]).get "uniqid" = .str s.uniqid) (now : ℤ) :
    AfterSwitches start (l ++ [s]) (afterSwitch now s config k i (elements config k)[i]) := by
  obtain ⟨hloaded, hprintable⟩ := loaded_afterSwitch (s := s) h.loaded h.printable hi hu now
  refine ⟨hloaded, hprintable, h.elsewhere.trans (sameElsewhere_afterSwitch h.printable hk hi now _), ?_⟩
  intro k'
  have haccounts := List.forall₂_iff_get.1 (h.accounts k')
  rw [elements_afterSwitch]
  split_ifs with hkk
  · subst hkk
    refine List.forall₂_iff_get.2 ⟨by rw [List.length_set]; exact haccounts.1, ?_⟩
    intro j hj hj'
    have hjc : j < (elements config k').length := by rwa [List.length_set] at hj'
    have hbefore := haccounts.2 j hj hjc
    rw [List.get_eq_getElem, List.get_eq_getElem] at hbefore ⊢
    rw [List.getElem_set]
    -- the account with the name is marked, and no other
    split_ifs with hij
    · subst hij
      obtain ⟨start', hstart, hprefix⟩ := h.loaded.starts k' _ (List.getElem_mem hi) _ hu
      exact hbefore.mark hk (canonical_elements h.printable (List.getElem_mem hi))
        (isArray_of_uniqid hstart hprefix hu) hu
    · apply hbefore.skip
      rintro ⟨-, hju⟩
      exact hij (h.loaded.wellFormed.eq_of_uniqid hi hjc (hu.trans hju.symm)).2
  · refine List.forall₂_iff_get.2 ⟨haccounts.1, fun j hj hj' => (haccounts.2 j hj hj').skip ?_⟩
    rintro ⟨-, hju⟩
    exact hkk (h.loaded.wellFormed.eq_of_uniqid hj' hi (hju.trans hu.symm)).1

/-- Every run of requests ends in what they ask for. -/
theorem afterSwitches_of_switched {X : Xml.Expat} (hstart : Loaded start) (hprintable : Canonical Printable start)
    (hrun : Switched X start l config) : AfterSwitches start l config := by
  induction hrun with
  | start =>
    refine ⟨hstart, hprintable, ⟨fun _ _ _ => rfl, fun _ _ _ _ _ => rfl⟩, fun k => ?_⟩
    exact List.forall₂_same.2 fun e _ => rfl
  | @refused l config s _ htruthy ih =>
    apply ih.refuse
    intro k hk e he hu
    obtain ⟨i, hi, rfl⟩ := List.getElem_of_mem he
    have hfalse := (call_of_mem X ih.loaded ih.printable hk hi hu).1
    rw [htruthy] at hfalse
    cases hfalse
  | @written l config config' s now _ hfalse hnorm ih =>
    -- what is written was answered, so that an account has the name
    by_cases hstored : ∃ k ∈ s.page.types, ∃ e ∈ elements config k, e.get "uniqid" = .str s.uniqid
    · obtain ⟨k, hk, e, he, hu⟩ := hstored
      obtain ⟨i, hi, rfl⟩ := List.getElem_of_mem he
      have hwritten := (call_of_mem X ih.loaded ih.printable hk hi hu).2 now
      rw [hnorm] at hwritten
      rw [Except.ok.inj hwritten]
      exact ih.answer hk hi hu now
    · have htruthy := call_of_not_mem ih.loaded fun k hk e he hu => hstored ⟨k, hk, e, he, hu⟩
      rw [hfalse] at htruthy
      cases htruthy

/-- Whether a stored provider is active. -/
theorem providerIsActive_of_mem (h : Loaded config) (hk : k ∈ providerTypes) {e : Val}
    (he : e ∈ elements config k) {u : String} (hu : e.get "uniqid" = .str u) :
    pbxProviderIsActive u (indexed config) = .bool (!(e.get "disabled").isset) := by
  obtain ⟨start, hstart, hprefix⟩ := h.starts k e he u hu
  obtain ⟨hfind, hword⟩ := find_of_start (types_mem_accountTypes .providers) hk hstart hprefix
  have hget := getElement_of_mem h.wellFormed he hu
  have harr := isArray_of_uniqid hstart hprefix hu
  have hfind' : (providerTypes.find? fun k => k.sectionName = strtolower ((explode '-' u).headD "")) = some k :=
    hfind
  have hword' : (explode '-' u)[1]? = some "PROVIDER" := hword
  unfold pbxProviderIsActive
  dsimp only
  rw [hfind']
  dsimp only
  rw [hget, if_pos ⟨hword', harr⟩]

/-- An account is disabled or enabled as the last request asked. -/
theorem AsAsked.disabled {e e' : Val} (h : AsAsked l k e e') :
    (!(e'.get "disabled").isset) = (asked l k (e.get "uniqid")).getD (!(e.get "disabled").isset) := by
  unfold AsAsked at h
  split at h
  · next hnone => rw [hnone, h, Option.getD_none]
  · next on hsome => rw [hsome, h.2, Bool.not_not, Option.getD_some]

/-- What becomes of a request: an account of the page is found and the configuration can be written, or
the request is refused. -/
def Answered (X : Xml.Expat) (start config : Val) (s : Switch) : Prop :=
  if ∃ k ∈ s.page.types, ∃ e ∈ elements start k, e.get "uniqid" = .str s.uniqid then
    (s.call (indexed config)).1.truthy = false ∧
      ∀ now, ∃ config', normalise X (stamp now (s.call (indexed config)).2.config) = .ok config'
  else (s.call (indexed config)).1.truthy = true

/-- After any sequence of requests, each written and read back before the next, every account is
disabled or enabled as the last request for it asked, and is otherwise as it was, like all the rest of
the configuration. The next request is answered if an account of its page has the name. -/
theorem last_switch_counts {X : Xml.Expat} (hstart : Loaded start) (hprintable : Canonical Printable start)
    (hrun : Switched X start l config) :
    (∀ k, List.Forall₂ (AsAsked l k) (elements start k) (elements config k)) ∧
    SameElsewhere start config ∧ (∀ s, Answered X start config s) ∧
    ∀ k ∈ providerTypes, ∀ e ∈ elements start k, ∀ u, e.get "uniqid" = .str u →
      pbxProviderIsActive u (indexed config) =
        .bool ((asked l k (.str u)).getD (!(e.get "disabled").isset)) := by
  have h := afterSwitches_of_switched hstart hprintable hrun
  -- an account that is stored stays in its place, and its switch is the last one asked for
  have hkept : ∀ k, ∀ e ∈ elements start k, ∃ (i : ℕ) (hi : i < (elements config k).length),
      AsAsked l k e (elements config k)[i] := by
    intro k e he
    obtain ⟨i, hi, rfl⟩ := List.getElem_of_mem he
    obtain ⟨hlength, haccounts⟩ := List.forall₂_iff_get.1 (h.accounts k)
    exact ⟨i, hlength ▸ hi, haccounts i hi (hlength ▸ hi)⟩
  refine ⟨h.accounts, h.elsewhere, ?_, ?_⟩
  · intro s
    unfold Answered
    split_ifs with hstored
    · obtain ⟨k, hk, e, he, hu⟩ := hstored
      obtain ⟨i, hi, hasked⟩ := hkept k e he
      obtain ⟨hfalse, hwritten⟩ := call_of_mem X h.loaded h.printable hk hi (hasked.uniqid.trans hu)
      exact ⟨hfalse, fun now => ⟨_, hwritten now⟩⟩
    · apply call_of_not_mem h.loaded
      intro k hk e he hu
      obtain ⟨i, hi, rfl⟩ := List.getElem_of_mem he
      obtain ⟨hlength, haccounts⟩ := List.forall₂_iff_get.1 (h.accounts k)
      have hasked := haccounts i (hlength ▸ hi) hi
      exact hstored ⟨k, hk, _, List.get_mem _ _, hasked.uniqid.symm.trans hu⟩
  · intro k hk e he u hu
    obtain ⟨i, hi, hasked⟩ := hkept k e he
    rw [providerIsActive_of_mem h.loaded hk (List.getElem_mem hi) (hasked.uniqid.trans hu),
      hasked.disabled, hu]

end Runs

/-! ## One phone -/

/-- The phone is in a configuration as it is loaded. -/
theorem loaded_onePhone : Loaded (onePhone false) :=
  loaded_of_all (wellFormed_of_all (by decide) (by decide) (by decide)) (by decide) (by decide)

/-- The phone is disabled, and then a fax of its name is to be enabled. -/
theorem last_switch_counts_onePhone : ∃ config,
    Switched Xml.scanner.toExpat (onePhone false)
      [⟨.phones, false, "SIP-PHONE-1"⟩, ⟨.faxes, true, "SIP-PHONE-1"⟩] config ∧
    List.Forall₂ (AsAsked [⟨.phones, false, "SIP-PHONE-1"⟩, ⟨.faxes, true, "SIP-PHONE-1"⟩] (.phone .sip))
      (elements (onePhone false) (.phone .sip)) (elements config (.phone .sip)) := by
  have hphone := call_of_mem (s := ⟨.phones, false, "SIP-PHONE-1"⟩) (k := .phone .sip) (i := 0)
    Xml.scanner.toExpat loaded_onePhone (canonical_onePhone false) (by decide) (by decide) rfl
  have hrun := Switched.written .start hphone.1 (hphone.2 1300000000)
  have hloaded := (afterSwitches_of_switched loaded_onePhone (canonical_onePhone false) hrun).loaded
  have hrun' := hrun.refused (call_of_not_mem (s := ⟨.faxes, true, "SIP-PHONE-1"⟩) hloaded (by decide))
  exact ⟨_, hrun', (last_switch_counts loaded_onePhone (canonical_onePhone false) hrun').1 _⟩

end Pbx
end Askozia
