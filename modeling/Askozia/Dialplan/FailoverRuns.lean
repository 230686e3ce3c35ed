import Askozia.Dialplan.Failover
import Askozia.Dialplan.Lists
import Askozia.Pbx.Saving
import Askozia.Sip.Stored

/-!
# Failover over any sequence of saves

The form for a provider offers every other provider to fail over to. Each save adds one link, and
no save looks at the others.

* `failover_ends`: as long as no save leads back to the provider it saves, a call dials each
  provider at most once;
* `not_failover_ends`: two providers that fail over to each other are dialled in turns.
-/

namespace Askozia
namespace Dialplan

open Php Config Pbx Asterisk

/-! ## Saves -/

/-- The pages providers are saved on. -/
inductive Page where
  | sip
  | analog
deriving DecidableEq, Repr

/-- `sip_save_provider($provider)`, up to `write_config`. -/
def sipSaveProvider : Val → Globals → Val := saveElement (.provider .sip)

/-- `analog_save_provider($provider)`, up to `write_config`. -/
def analogSaveProvider : Val → Globals → Val := saveElement (.provider .analog)

namespace Page

/-- The kind of provider a page is for. -/
def tech : Page → Tech
  | sip => .sip
  | analog => .analog

/-- What the name of a provider tells of it. -/
def technology : Page → Technology
  | sip => .sip
  | analog => .dahdi

/-- What a page makes of a form. -/
def verify (gettext : String → String) : Page → Val → Val × List String
  | sip => Sip.sipVerifyProvider gettext
  | analog => analogVerifyProvider gettext

/-- What a page reads of a field when it stores the last fields. -/
def sent (post : Val) (field : String) : Page → Val
  | sip => Sip.readLate post field
  | analog => post.get field

/-- The dial patterns that a page stores. -/
def patterns (post : Val) : Page → Val
  | sip => Sip.storedEarly post "dialpattern" (.ofList ((dialpatterns post).map .str))
  | analog => .ofList ((dialpatterns post).map .str)

/-- How a page saves a provider. -/
def save : Page → Val → Globals → Val
  | sip => sipSaveProvider
  | analog => analogSaveProvider

/-- `$provider = sip_verify_provider(...); if (!$input_errors) sip_save_provider($provider);` -/
def submit (gettext : String → String) (page : Page) (fields : List (Key × Val)) (config : Val) : Val :=
  let verified := page.verify gettext (.arr fields)
  if verified.2.isEmpty then page.save verified.1 (indexed config) else config

end Page

section Runs

variable (gettext : String → String)

/-- Any number of forms, each of which meets a condition or is not accepted. -/
inductive Saves (meets : Page → List (Key × Val) → Val → Prop) (start : Val) : Val → Prop
  | start : Saves meets start start
  | submit {config : Val} (page : Page) (fields : List (Key × Val)) :
      Saves meets start config →
      ((page.verify gettext (.arr fields)).2 = [] → meets page fields config) →
      Saves meets start (page.submit gettext fields config)

end Runs

/-- What Asterisk makes of the contexts for outgoing calls of a configuration. -/
def callsOf (usort : Usort) (config : Val) : List (String × Entry) :=
  outgoingProgram (fetchLists usort (indexed config)).2 (fetchLists usort (indexed config)).1.providers

/-- Calls can be made through the provider. -/
def isDialling (p : Val) : Bool := !(p.get "disabled").isset && (p.get "dialpattern").count != 0

/-- The provider a provider of a configuration fails over to. -/
def FailsOver (config : Val) (u v : String) : Prop :=
  ∃ t, t ≠ .skinny ∧ ∃ p ∈ elements config (.provider t), isDialling p = true ∧
    (p.get "uniqid").toStr = u ∧ (p.get "failover").truthy = true ∧ (p.get "failover").toStr = v

/-- What a form must be like for failover to end: what is stored has one line in each text, its ids are as
the system makes them, no pattern takes what `DIALSTATUS` has no extension for, and the provider it
fails over to does not lead back to it. The lists of codecs of a SIP provider may put something else in
place of a field that was sent. -/
structure EndsAt (fits : String → String → Prop) (page : Page) (fields : List (Key × Val)) (config : Val)
    (u : String) : Prop where
  oneLined : OneLined (.arr fields)
  codecs : page = .sip → Sip.CodecsOneLined (.arr fields)
  uniqid : page.sent (.arr fields) "uniqid" = .str u
  plain : plainId u = true
  technology : pbxUniqidToTechnology u = page.technology
  own : ∀ k, ∀ e ∈ elements config k, e.get "uniqid" = .str u → k = .provider page.tech
  failover : (page.sent (.arr fields) "failover").truthy = true →
    plainId (page.sent (.arr fields) "failover").toStr = true
  dialpattern : page = .sip →
    Sip.overwrites "element" "dialpattern" (Sip.codecAssignments (.arr fields)) ≠ [] →
      ∀ pattern ∈ (page.patterns (.arr fields)).vals, ',' ∉ pattern.toStr.toList
  notTaken : (page.sent (.arr fields) "failover").truthy = true →
    ∀ pattern ∈ (page.patterns (.arr fields)).vals, ∀ status, unhandled status = true →
      ¬ fits (parsePattern pattern.toStr).pattern (u ++ "-" ++ status.text)
  forwards : (page.sent (.arr fields) "failover").truthy = true →
    (page.patterns (.arr fields)).count ≠ 0 →
    ¬ Relation.ReflTransGen (fun c d => c ≠ u ∧ FailsOver config c d)
      (page.sent (.arr fields) "failover").toStr u

/-- The form meets the condition for failover to end. -/
def Ends (fits : String → String → Prop) (page : Page) (fields : List (Key × Val)) (config : Val) : Prop :=
  ∃ u, EndsAt fits page fields config u

/-- The texts of a provider are as the forms and the system make them. -/
structure Dialable (fits : String → String → Prop) (p : Val) : Prop where
  uniqid : plainId (p.get "uniqid").toStr = true
  technology : pbxUniqidToTechnology (p.get "uniqid").toStr = .sip ∨
    pbxUniqidToTechnology (p.get "uniqid").toStr = .iax2 ∨
    pbxUniqidToTechnology (p.get "uniqid").toStr = .dahdi
  dialpattern : ∀ pattern ∈ (p.get "dialpattern").vals, ',' ∉ pattern.toStr.toList
  failover : (p.get "failover").truthy = true → plainId (p.get "failover").toStr = true
  notTaken : NotTaken fits p

/-- What holds of the configuration all along: ids are distinct, texts have one line, and no
provider fails over to itself over others. -/
structure Ended (fits : String → String → Prop) (config : Val) : Prop where
  wellFormed : WellFormed config
  unbroken : Unbroken config
  dialable : ∀ t, t ≠ .skinny → ∀ p ∈ elements config (.provider t), Dialable fits p
  acyclic : ∀ c, ¬ Relation.TransGen (FailsOver config) c c

/-! ## One save -/

section Save

variable {fits : String → String → Prop} {gettext : String → String} {page : Page}
   {fields : List (Key × Val)} {config : Val} {u : String}

theorem mem_dialling {p : Val} {providers : List Val} :
    p ∈ dialling providers ↔ p ∈ providers ∧ isDialling p = true := by
  rw [dialling, enabled, List.mem_filter, List.mem_filter, isDialling, Bool.and_eq_true, and_assoc]

theorem vStrip_of_truthy {v : Val} (h : v.truthy = true) : vStrip v = v := by
  -- what is true in PHP is not empty as a text
  cases v with
  | null => cases h
  | bool b =>
    cases b with
    | false => cases h
    | true => rfl
  | int n =>
    have hne : (toString n).toList ≠ [] := by
      cases n with
      | ofNat n =>
        show (Nat.repr n).toList ≠ []
        simp
      | negSucc n =>
        show ("-" ++ Nat.repr (n + 1)).toList ≠ []
        simp
    have hlen : strlen (.int n) = true := by
      rw [strlen, Val.toStr, List.isEmpty_eq_false_iff.2 hne]
      rfl
    rw [vStrip, if_neg (by simp [Val.isArray]), if_pos hlen]
  | str s =>
    have hne : s.toList ≠ [] := by
      intro hnil
      rw [← String.ofList_toList (s := s), hnil] at h
      cases h
    have hlen : strlen (.str s) = true := by
      rw [strlen, Val.toStr, List.isEmpty_eq_false_iff.2 hne]
      rfl
    rw [vStrip, if_neg (by simp [Val.isArray]), if_pos hlen]
  | arr es =>
    cases es with
    | nil => cases h
    | cons e r => rfl

theorem truthy_vStrip (v : Val) : (vStrip v).truthy = v.truthy := by
  cases h : v.truthy with
  | true => rw [vStrip_of_truthy h, h]
  | false =>
    unfold vStrip
    split_ifs
    · exact h
    · rfl
    · exact h
    · rfl

/-- A valid pattern has no comma. -/
theorem comma_not_mem_valid {pattern : String} (hline : '\n' ∉ pattern.toList)
    (h : pbxIsValidDialpattern pattern false = none) : ',' ∉ pattern.toList := by
  have hchars : pregMatchLine (fun t => !t.isEmpty && t.all (outgoingChars.contains ·))
      pattern.toList = true := by
    by_contra hno
    rw [Bool.not_eq_true] at hno
    unfold pbxIsValidDialpattern at h
    dsimp only at h
    rw [if_neg Bool.false_ne_true, hno] at h
    cases h
  simp only [pregMatchLine, Bool.or_eq_true, Bool.and_eq_true, beq_iff_eq] at hchars
  rcases hchars with hchars | ⟨hlast, -⟩
  · intro hmem
    have hallowed := List.all_eq_true.1 hchars.2 ',' hmem
    revert hallowed
    decide
  · exact absurd (List.mem_of_getLast? hlast) hline

theorem verified_of_errors (h : (page.verify gettext (.arr fields)).2 = []) :
    Verified (page.sent (.arr fields) "uniqid") (page.sent (.arr fields) "failover")
      (page.patterns (.arr fields)) (dialpatterns (.arr fields)) (page.verify gettext (.arr fields)).1 := by
  cases page with
  | sip => exact Sip.verified_sip gettext rfl h
  | analog => exact verified_analog gettext rfl h

theorem unbroken_verify (h : OneLined (.arr fields)) (hcodecs : page = .sip → Sip.CodecsOneLined (.arr fields)) :
    Unbroken (page.verify gettext (.arr fields)).1 := by
  cases page with
  | sip => exact Sip.unbroken_sip gettext rfl h (hcodecs rfl)
  | analog => exact unbroken_analog gettext rfl h

/-- A pattern that is stored has no comma. -/
theorem comma_not_mem_patterns (h : EndsAt fits page fields config u)
    (hvalid : ∀ pattern ∈ dialpatterns (.arr fields), pbxIsValidDialpattern pattern false = none) :
    ∀ pattern ∈ (page.patterns (.arr fields)).vals, ',' ∉ pattern.toStr.toList := by
  have hchecked : ∀ pattern ∈ (Val.ofList ((dialpatterns (.arr fields)).map .str)).vals,
      ',' ∉ pattern.toStr.toList := by
    intro pattern hpattern
    rw [Val.vals_ofList] at hpattern
    obtain ⟨s, hs, rfl⟩ := List.mem_map.1 hpattern
    exact comma_not_mem_valid (oneLine_splitAndCleanLines hs) (hvalid s hs)
  cases page with
  | analog => exact hchecked
  | sip =>
    by_cases hnone : Sip.overwrites "element" "dialpattern" (Sip.codecAssignments (.arr fields)) = []
    · have hkept : Page.sip.patterns (.arr fields) = .ofList ((dialpatterns (.arr fields)).map .str) :=
        Sip.overwritten_of_nil hnone
      rw [hkept]
      exact hchecked
    · exact h.dialpattern rfl hnone

theorem submit_of_errors (h : (page.verify gettext (.arr fields)).2 ≠ []) :
    page.submit gettext fields config = config := by
  rw [Page.submit, if_neg (by rwa [List.isEmpty_iff])]

theorem submit_eq (h : (page.verify gettext (.arr fields)).2 = []) :
    page.submit gettext fields config = saveElement (.provider page.tech)
      (page.verify gettext (.arr fields)).1 (indexed config) := by
  rw [Page.submit, if_pos (by rw [h]; rfl)]
  cases page with
  | sip => rfl
  | analog => rfl

/-- An id of a provider is more than a digit. -/
theorem uniqid_ne (h : EndsAt fits page fields config u) : u ≠ "" ∧ u ≠ "0" := by
  have htech := h.technology
  constructor
  · rintro rfl
    cases page with
    | sip => exact absurd htech (by decide)
    | analog => exact absurd htech (by decide)
  · rintro rfl
    cases page with
    | sip => exact absurd htech (by decide)
    | analog => exact absurd htech (by decide)

/-- A provider that was accepted can be dialled. -/
theorem dialable_verify (h : EndsAt fits page fields config u)
    (herrors : (page.verify gettext (.arr fields)).2 = []) :
    Dialable fits (page.verify gettext (.arr fields)).1 := by
  have hv := verified_of_errors herrors
  have hid : ((page.verify gettext (.arr fields)).1.get "uniqid").toStr = u := by
    rw [hv.uniqid, h.uniqid]
    rfl
  have hfail : ((page.verify gettext (.arr fields)).1.get "failover").truthy =
      (page.sent (.arr fields) "failover").truthy := by
    rw [hv.failover, truthy_vStrip]
  refine ⟨?_, ?_, ?_, ?_, ?_⟩
  · rw [hid]
    exact h.plain
  · rw [hid, h.technology]
    cases page with
    | sip => exact .inl rfl
    | analog => exact .inr (.inr rfl)
  · rw [hv.dialpattern]
    exact comma_not_mem_patterns h hv.valid
  · intro htruthy
    rw [hfail] at htruthy
    rw [hv.failover, vStrip_of_truthy htruthy]
    exact h.failover htruthy
  · intro htruthy pattern hpattern status hstatus
    rw [hfail] at htruthy
    rw [hv.dialpattern] at hpattern
    rw [hid]
    exact h.notTaken htruthy pattern hpattern status hstatus

/-- A save that does not lead back closes no circle. -/
theorem acyclic_save (he : Ended fits config) (h : EndsAt fits page fields config u)
    (herrors : (page.verify gettext (.arr fields)).2 = []) :
    ∀ c, ¬ Relation.TransGen (FailsOver (saveElement (.provider page.tech)
      (page.verify gettext (.arr fields)).1 (indexed config))) c c := by
  have hv := verified_of_errors herrors
  have hid : (page.verify gettext (.arr fields)).1.get "uniqid" = .str u := by
    rw [hv.uniqid, h.uniqid]
  have hmem := fun k e => @mem_elements_saveElement config (.provider page.tech)
    (page.verify gettext (.arr fields)).1 u he.wellFormed hid (uniqid_ne h) h.own k e
  refine acyclic_of_links he.acyclic (x := u) ?_ ?_
  · -- links from other providers are those there were
    rintro c d hc ⟨t, ht, p, hp, hdials, hpid, hfail⟩
    rcases (hmem _ _).1 hp with ⟨-, rfl⟩ | ⟨hp, -⟩
    · rw [hid] at hpid
      exact absurd hpid.symm hc
    · exact ⟨t, ht, p, hp, hdials, hpid, hfail⟩
  · rintro d ⟨t, ht, p, hp, hdials, hpid, htruthy, hd⟩
    rcases (hmem _ _).1 hp with ⟨-, rfl⟩ | ⟨hp, hne⟩
    · rw [hv.failover, truthy_vStrip] at htruthy
      rw [hv.failover, vStrip_of_truthy htruthy] at hd
      rw [← hd]
      refine h.forwards htruthy ?_
      intro hnone
      rw [isDialling, hv.dialpattern, hnone] at hdials
      simp at hdials
    · obtain ⟨u', -, hu'⟩ := he.wellFormed.uniqids _ p hp
      rw [hu'] at hpid hne
      exact absurd (congrArg Val.str hpid) hne

/-- One form. -/
theorem ended_submit (he : Ended fits config)
    (h : (page.verify gettext (.arr fields)).2 = [] → Ends fits page fields config) :
    Ended fits (page.submit gettext fields config) := by
  by_cases herrors : (page.verify gettext (.arr fields)).2 = []
  · obtain ⟨u, hu⟩ := h herrors
    have hid : (page.verify gettext (.arr fields)).1.get "uniqid" = .str u := by
      rw [(verified_of_errors herrors).uniqid, hu.uniqid]
    have hne := uniqid_ne hu
    rw [submit_eq herrors]
    refine ⟨wellFormed_saveElement he.wellFormed hid hne hu.own,
      unbroken_saveElement he.unbroken (unbroken_verify hu.oneLined hu.codecs), ?_, acyclic_save he hu herrors⟩
    intro t ht p hp
    rcases (mem_elements_saveElement he.wellFormed hid hne hu.own).1 hp with ⟨-, rfl⟩ | ⟨hp, -⟩
    · exact dialable_verify hu herrors
    · exact he.dialable t ht p hp
  · rw [submit_of_errors herrors]
    exact he

/-- Any number of forms. -/
theorem ended_saves {start : Val} (hstart : Ended fits start)
    (hrun : Saves gettext (Ends fits) start config) : Ended fits config := by
  induction hrun with
  | start => exact hstart
  | submit page fields _ hmeets ih => exact ended_submit ih hmeets

end Save

/-! ## Calls -/

/-- In every configuration that is reached by saving providers none of which leads back to itself, a
call dials each provider at most once, whatever the number and whatever becomes of the calls. -/
theorem failover_ends (usort : Usort) (fits : String → String → Prop) (gettext : String → String)
    {start config : Val} (hstart : Ended fits start)
    (hrun : Saves gettext (Ends fits) start config) {context number : String} {k : Call}
    (h : Reaches fits (callsOf usort config) context number k) :
    k.dialled.Nodup ∧
      (∀ c ∈ k.dialled, ∃ p ∈ (fetchLists usort (indexed config)).1.providers,
        (p.get "uniqid").toStr = c) ∧
      k.dialled.length ≤ (fetchLists usort (indexed config)).1.providers.length := by
  have hended := ended_saves hstart hrun
  have hlists : Rearranged (indexed config) (fetchLists usort (indexed config)).2 :=
    rearranged_fetchLists usort hended.wellFormed.lists
  have hg := hlists.unbroken hended.unbroken
  have hstored : ∀ p ∈ dialling (fetchLists usort (indexed config)).1.providers,
      isDialling p = true ∧ ∃ t, t ≠ .skinny ∧ p ∈ elements config (.provider t) := by
    intro p hp
    obtain ⟨hp, hdials⟩ := mem_dialling.1 hp
    exact ⟨hdials, (mem_providers usort hended.wellFormed.lists).1 hp⟩
  have hspelled : ∀ p ∈ dialling (fetchLists usort (indexed config)).1.providers,
      OutgoingSpelled (fetchLists usort (indexed config)).2 p := by
    intro p hp
    obtain ⟨-, t, ht, hp⟩ := hstored p hp
    have hdialable := hended.dialable t ht p hp
    have hp' : Unbroken p := fun hmem => hended.unbroken (chars_elements hp hmem)
    exact ⟨hp', hdialable.uniqid, hdialable.technology, hdialable.dialpattern,
      fun htruthy _ => hdialable.failover htruthy⟩
  -- over the technologies together uniqids are distinct, so a context is of one provider
  have hdistinct : ∀ p ∈ dialling (fetchLists usort (indexed config)).1.providers,
      ∀ q ∈ dialling (fetchLists usort (indexed config)).1.providers,
        (p.get "uniqid").toStr = (q.get "uniqid").toStr → p = q := by
    intro p hp q hq heq
    obtain ⟨-, t, -, hp⟩ := hstored p hp
    obtain ⟨-, t', -, hq⟩ := hstored q hq
    obtain ⟨u, -, hu⟩ := hended.wellFormed.uniqids _ p hp
    obtain ⟨u', -, hu'⟩ := hended.wellFormed.uniqids _ q hq
    have hsame : p.get "uniqid" = q.get "uniqid" := by
      rw [hu, hu'] at heq ⊢
      exact congrArg Val.str heq
    obtain ⟨i, hi, rfl⟩ := List.getElem_of_mem hp
    obtain ⟨j, hj, rfl⟩ := List.getElem_of_mem hq
    obtain ⟨hkind, rfl⟩ := hended.wellFormed.eq_of_uniqid hi hj hsame
    obtain rfl := Kind.provider.inj hkind
    rfl
  have hforwards := @forwards_outgoing _ _ fits hg hspelled hdistinct (by
    intro p hp
    obtain ⟨-, t, ht, hp⟩ := hstored p hp
    exact (hended.dialable t ht p hp).notTaken)
  -- the providers that are dialled are stored ones, whose failovers make no circle
  have hacyclic : ∀ c, ¬ Relation.TransGen
      (FailsTo (fetchLists usort (indexed config)).1.providers) c c := by
    intro c hcycle
    refine hended.acyclic c (Relation.TransGen.mono ?_ _ _ hcycle)
    rintro d e ⟨p, hp, hid, htruthy, hfail⟩
    obtain ⟨hdials, t, ht, hp⟩ := hstored p hp
    exact ⟨t, ht, p, hp, hdials, hid, htruthy, hfail⟩
  obtain ⟨hnodup, hknown⟩ := dialled_nodup hforwards hacyclic h
  have hproviders : ∀ c ∈ k.dialled, ∃ p ∈ (fetchLists usort (indexed config)).1.providers,
      (p.get "uniqid").toStr = c := by
    intro c hc
    obtain ⟨exten, hsteps⟩ := hknown c hc
    obtain ⟨s, hs⟩ := List.exists_mem_of_ne_nil _ hsteps
    obtain ⟨p, hp, hid, -⟩ := (mem_stepsOf_outgoing hg hspelled).1 hs
    exact ⟨p, (mem_dialling.1 hp).1, hid⟩
  refine ⟨hnodup, hproviders, ?_⟩
  have hsubset : k.dialled ⊆
      (fetchLists usort (indexed config)).1.providers.map fun p => (p.get "uniqid").toStr := by
    intro c hc
    obtain ⟨p, hp, rfl⟩ := hproviders c hc
    exact List.mem_map_of_mem hp
  have hlength := (List.subperm_of_subset hnodup hsubset).length_le
  rwa [List.length_map] at hlength

/-! ### Providers in a circle -/

section Circle

variable {fits : String → String → Prop} {program : List (String × Entry)} {number : String}

/-- A call that a provider has no channel for goes on to the provider it fails over to. -/
theorem next_provider {u v exten name called set dial noop via : String}
    (hu : plainId u = true) (hv : plainId v = true)
    (hexten : stepsOf program u exten = [("NoOp", called), ("Set", set), ("Dial", dial), ("NoOp", noop),
      ("Goto", u ++ "-" ++ var "DIALSTATUS" ++ ",1")])
    (hfail : stepsOf program u (u ++ "-" ++ DialStatus.congestion.text) =
      [("NoOp", via), ("Goto", v ++ "," ++ var "ORIGEXTENSION" ++ ",1")])
    (hplain : isPattern (u ++ "-" ++ DialStatus.congestion.text) = false)
    (hnumber : ',' ∉ number.toList) (hname : Finds fits program v number name)
    (status : DialStatus) (dialled : List String) :
    Relation.ReflTransGen (Next fits program number)
      { context := u, exten := exten, rest := stepsOf program u exten, status, dialled }
      { context := v, exten := name, rest := stepsOf program v name, status := .congestion,
        dialled := dialled ++ [u] } := by
  have hstatus := jumpTo_status hu u number .congestion
  have hnext := (jumpTo_next hv u number .congestion).2 hnumber
  have hfound : Finds fits program u (u ++ "-" ++ DialStatus.congestion.text)
      (u ++ "-" ++ DialStatus.congestion.text) := by
    refine .exact hplain ?_
    rw [hfail]
    exact List.cons_ne_nil _ _
  -- the steps of the pattern, the jump to the status, and the one to the failover
  rw [hexten]
  refine .head (.pass rfl (by decide) (by decide) (by decide)) ?_
  refine .head (.pass rfl (by decide) (by decide) (by decide)) ?_
  refine .head (.dial .congestion rfl) ?_
  rw [if_neg (by decide)]
  refine .head (.pass rfl (by decide) (by decide) (by decide)) ?_
  refine .head (.goto rfl hstatus hfound) ?_
  rw [hfail]
  refine .head (.pass rfl (by decide) (by decide) (by decide)) ?_
  exact .single (.goto rfl hnext hname)

end Circle

/-- The form for a SIP provider that takes `112`. -/
def providerForm (uniqid failover : String) : List (Key × Val) :=
  [(.str "name", .str "provider"), (.str "host", .str "sip.local"), (.str "username", .str "100"),
    (.str "dialpattern", .str "112"), (.str "failover", .str failover), (.str "uniqid", .str uniqid)]

/-- The SIP provider that is saved for the form. -/
def savedProvider (uniqid : String) (failover : Val) : Val :=
  .arr [(.str "name", .str "provider"), (.str "host", .str "sip.local"), (.str "port", .bool false),
    (.str "username", .str "100"), (.str "readbacknumber", .bool false),
    (.str "incomingextensionmap", .arr []), (.str "override", .null),
    (.str "overridestring", .bool false), (.str "dialpattern", .ofList [.str "112"]),
    (.str "calleridsource", .null), (.str "calleridstring", .bool false), (.str "codec", .arr []),
    (.str "manualattributes", .bool false), (.str "failover", failover),
    (.str "secret", .bool false), (.str "fromuser", .bool false), (.str "authuser", .bool false),
    (.str "fromdomain", .bool false), (.str "noregister", .bool false),
    (.str "manualregister", .bool false), (.str "uniqid", .str uniqid), (.str "language", .null),
    (.str "natmode", .null), (.str "dtmfmode", .null), (.str "qualify", .null)]

/-- A configuration with SIP providers only. -/
def sipProviders (providers : List Val) : Val :=
  .arr [(.str "version", .str "2.1"), (.str "sip", .arr [(.str "provider", .ofList providers)])]

/-- The second provider fails over to the first. -/
def inLine : Val := sipProviders [savedProvider "SIP-PROVIDER-1" (.bool false),
  savedProvider "SIP-PROVIDER-2" (.str "SIP-PROVIDER-1")]

/-- Both providers fail over to each other. -/
def inCircle : Val := sipProviders [savedProvider "SIP-PROVIDER-1" (.str "SIP-PROVIDER-2"),
  savedProvider "SIP-PROVIDER-2" (.str "SIP-PROVIDER-1")]

theorem submit_first : Page.sip.submit id (providerForm "SIP-PROVIDER-1" "") noPhones =
    sipProviders [savedProvider "SIP-PROVIDER-1" (.bool false)] := by decide +kernel

theorem submit_second : Page.sip.submit id (providerForm "SIP-PROVIDER-2" "SIP-PROVIDER-1")
    (sipProviders [savedProvider "SIP-PROVIDER-1" (.bool false)]) = inLine := by decide +kernel

theorem submit_third : Page.sip.submit id (providerForm "SIP-PROVIDER-1" "SIP-PROVIDER-2")
    inLine = inCircle := by decide +kernel

/-- The texts of both configurations are as the forms make them. -/
theorem spelled_providers {config : Val} (h : config = inLine ∨ config = inCircle) :
    Unbroken (fetchLists insertionUsort (indexed config)).2.config ∧
      ∀ p ∈ dialling (fetchLists insertionUsort (indexed config)).1.providers,
        OutgoingSpelled (fetchLists insertionUsort (indexed config)).2 p := by
  have hchecked : '\n' ∉ (fetchLists insertionUsort (indexed config)).2.config.chars ∧
      ∀ p ∈ dialling (fetchLists insertionUsort (indexed config)).1.providers,
        '\n' ∉ p.chars ∧ plainId (p.get "uniqid").toStr = true ∧
        pbxUniqidToTechnology (p.get "uniqid").toStr = .sip ∧
        (∀ pattern ∈ (p.get "dialpattern").vals, ',' ∉ pattern.toStr.toList) ∧
        ((p.get "failover").truthy = true → plainId (p.get "failover").toStr = true) := by
    rcases h with rfl | rfl
    · decide
    · decide
  refine ⟨hchecked.1, ?_⟩
  intro p hp
  obtain ⟨hunbroken, hid, htech, hpatterns, hfailover⟩ := hchecked.2 p hp
  exact ⟨hunbroken, hid, .inl htech, hpatterns, fun htruthy _ => hfailover htruthy⟩

/-- The steps of a provider that fails over to another. -/
theorem steps_providers {config : Val} (h : config = inLine ∨ config = inCircle) {u v : String}
    (huv : (u = "SIP-PROVIDER-2" ∧ v = "SIP-PROVIDER-1") ∨
      (config = inCircle ∧ u = "SIP-PROVIDER-1" ∧ v = "SIP-PROVIDER-2")) :
    stepsOf (callsOf insertionUsort config) u "_112" =
      [("NoOp", "outgoing call to provider: provider"), ("Set", "CDR(UserField)=outbound"),
        ("Dial", "SIP/" ++ var "EXTEN" ++ "@" ++ u ++ ",,T"), ("NoOp", "DIALSTATUS = " ++ var "DIALSTATUS"),
        ("Goto", u ++ "-" ++ var "DIALSTATUS" ++ ",1")] ∧
    stepsOf (callsOf insertionUsort config) u (u ++ "-" ++ DialStatus.congestion.text) =
      [("NoOp", "Failover needed, now using : provider"),
        ("Goto", v ++ "," ++ var "ORIGEXTENSION" ++ ",1")] := by
  obtain ⟨hg, hp⟩ := spelled_providers h
  rw [callsOf, stepsOf_outgoing hg hp, stepsOf_outgoing hg hp]
  rcases huv with ⟨rfl, rfl⟩ | ⟨rfl, rfl, rfl⟩
  · rcases h with rfl | rfl
    · decide
    · decide
  · decide

/-- The pattern takes the number. -/
theorem finds_providers {config : Val} (h : config = inLine ∨ config = inCircle) {u : String}
    (hu : u = "SIP-PROVIDER-1" ∨ u = "SIP-PROVIDER-2") :
    Finds (fun p c => p = c) (callsOf insertionUsort config) u "112" "_112" := by
  obtain ⟨hg, hp⟩ := spelled_providers h
  have hsteps : stepsOf (callsOf insertionUsort config) u "112" = [] ∧
      stepsOf (callsOf insertionUsort config) u "_112" ≠ [] := by
    rw [callsOf, stepsOf_outgoing hg hp, stepsOf_outgoing hg hp]
    rcases h with rfl | rfl
    · rcases hu with rfl | rfl
      · decide
      · decide
    · rcases hu with rfl | rfl
      · decide
      · decide
  exact .pattern "112" (.inr hsteps.1) hsteps.2 rfl

/-- Nothing is wrong with a configuration without providers. -/
theorem ended_noPhones (fits : String → String → Prop) : Ended fits noPhones := by
  refine ⟨wellFormed_of_all (by decide) (by decide) (by decide), by decide, ?_, ?_⟩
  · intro t _ p hp
    cases t <;> cases hp
  · intro c hcycle
    obtain ⟨d, ⟨t, -, p, hp, -⟩, -⟩ := Relation.TransGen.head'_iff.1 hcycle
    cases t <;> cases hp

/-- The forms of the providers have no codecs. -/
theorem stored_providerForm {uniqid failover : String} :
    Sip.CodecsOneLined (.arr (providerForm uniqid failover)) ∧
      Sip.overwrites "element" "dialpattern" (Sip.codecAssignments (.arr (providerForm uniqid failover))) = [] ∧
      Page.sip.sent (.arr (providerForm uniqid failover)) "uniqid" = .str uniqid ∧
      Page.sip.sent (.arr (providerForm uniqid failover)) "failover" = .str failover ∧
      Page.sip.patterns (.arr (providerForm uniqid failover)) = .ofList [.str "112"] := by
  have hnone : Sip.codecAssignments (.arr (providerForm uniqid failover)) = [] :=
    @Sip.codecAssignments_congr (.arr []) _ rfl rfl rfl rfl
  have hfield : (Val.arr (providerForm uniqid failover)).get "dialpattern" = .str "112" := rfl
  have hlines : dialpatterns (.arr (providerForm uniqid failover)) = ["112"] := by
    unfold dialpatterns
    rw [hfield]
    decide
  refine ⟨?_, ?_, ?_, ?_, ?_⟩
  · intro a ha
    rw [hnone] at ha
    cases ha
  · rw [hnone]
    rfl
  · rw [Page.sent, Sip.readLate, hnone]
    rfl
  · rw [Page.sent, Sip.readLate, hnone]
    rfl
  · rw [Page.patterns, Sip.storedEarly, hnone, hlines]
    rfl

/-- The form of the first provider, which fails over to none. -/
theorem ends_first : Ends (fun p c => p = c) .sip (providerForm "SIP-PROVIDER-1" "") noPhones := by
  obtain ⟨hcodecs, hkept, huniqid, hfailover, -⟩ := @stored_providerForm "SIP-PROVIDER-1" ""
  have hfails : ¬ (Page.sip.sent (.arr (providerForm "SIP-PROVIDER-1" "")) "failover").truthy = true := by
    rw [hfailover]
    decide
  refine ⟨"SIP-PROVIDER-1", ⟨by unfold OneLined; decide, fun _ => hcodecs, huniqid, by decide, by decide, ?_,
    fun h => absurd h hfails, fun _ h => absurd hkept h, fun h => absurd h hfails,
    fun h => absurd h hfails⟩⟩
  intro k e he
  have hnone : ∀ k ∈ Kind.all, elements noPhones k = [] := by decide
  rw [hnone k k.mem_all] at he
  cases he

/-- The form of the second provider, which fails over to the first. -/
theorem ends_second : Ends (fun p c => p = c) .sip (providerForm "SIP-PROVIDER-2" "SIP-PROVIDER-1")
    (sipProviders [savedProvider "SIP-PROVIDER-1" (.bool false)]) := by
  have hids : ∀ k ∈ Kind.all, ∀ e ∈ elements (sipProviders [savedProvider "SIP-PROVIDER-1" (.bool false)]) k,
      e.get "uniqid" ≠ .str "SIP-PROVIDER-2" ∧ (e.get "failover").truthy = false := by decide
  obtain ⟨hcodecs, hkept, huniqid, hfailover, hpatterns⟩ := @stored_providerForm "SIP-PROVIDER-2" "SIP-PROVIDER-1"
  refine ⟨"SIP-PROVIDER-2", ⟨by unfold OneLined; decide, fun _ => hcodecs, huniqid, by decide, by decide, ?_, ?_,
    fun _ h => absurd hkept h, ?_, ?_⟩⟩
  · intro k e he heu
    exact absurd heu (hids k k.mem_all e he).1
  · intro _
    rw [hfailover]
    decide
  · intro _ pattern hpattern status _ heq
    rw [hpatterns, Val.vals_ofList, List.mem_singleton] at hpattern
    have hparsed : (parsePattern (Val.str "112").toStr).pattern = "112" := by decide
    rw [hpattern, hparsed] at heq
    have hdash : '-' ∈ "112".toList := by
      rw [heq]
      simp
    exact absurd hdash (by decide)
  · intro _ _ hback
    rw [hfailover] at hback
    -- the first provider fails over to none, so it leads nowhere
    rcases Relation.ReflTransGen.cases_head hback with heq | ⟨d, ⟨-, t, -, p, hp, -, -, htruthy, -⟩, -⟩
    · exact absurd heq (by decide)
    · rw [(hids _ (Kind.mem_all _) p hp).2] at htruthy
      cases htruthy

/-- A call that the second provider has no channel for. -/
theorem failover_ends_inLine :
    ["SIP-PROVIDER-2"].Nodup ∧
      (∀ c ∈ ["SIP-PROVIDER-2"], ∃ p ∈ (fetchLists insertionUsort (indexed inLine)).1.providers,
        (p.get "uniqid").toStr = c) ∧
      ["SIP-PROVIDER-2"].length ≤ (fetchLists insertionUsort (indexed inLine)).1.providers.length := by
  have hrun : Saves id (Ends fun p c => p = c) noPhones inLine := by
    -- the first provider has no failover, the second one fails over to it
    have hone := Saves.submit .sip (providerForm "SIP-PROVIDER-1" "")
      (@Saves.start id (Ends fun p c => p = c) noPhones) fun _ => ends_first
    rw [submit_first] at hone
    have htwo := hone.submit .sip (providerForm "SIP-PROVIDER-2" "SIP-PROVIDER-1") fun _ => ends_second
    rwa [submit_second] at htwo
  have hsteps := steps_providers (.inl rfl) (.inl ⟨rfl, rfl⟩)
  have hnext := next_provider (by decide) (by decide) hsteps.1 hsteps.2
    (by decide) (by decide) (finds_providers (.inl rfl) (.inl rfl)) .noanswer []
  exact failover_ends insertionUsort (fun p c => p = c) id (ended_noPhones _) hrun
    ⟨_, _, finds_providers (.inl rfl) (.inr rfl), hnext⟩

/-- Three saves, and a call goes from one provider to the other and back. -/
theorem not_failover_ends :
    ¬ ∀ config, Saves id (fun _ _ _ => True) noPhones config → ∀ context number k,
      Reaches (fun p c => p = c) (callsOf insertionUsort config) context number k →
        k.dialled.Nodup := by
  intro h
  have hrun : Saves id (fun _ _ _ => True) noPhones inCircle := by
    have hone := Saves.submit .sip (providerForm "SIP-PROVIDER-1" "")
      (@Saves.start id (fun _ _ _ => True) noPhones) fun _ => trivial
    rw [submit_first] at hone
    have htwo := hone.submit .sip (providerForm "SIP-PROVIDER-2" "SIP-PROVIDER-1") fun _ => trivial
    rw [submit_second] at htwo
    -- the third form closes the circle
    have hthree := htwo.submit .sip (providerForm "SIP-PROVIDER-1" "SIP-PROVIDER-2") fun _ => trivial
    rwa [submit_third] at hthree
  have hthere := steps_providers (.inr rfl) (.inr ⟨rfl, rfl, rfl⟩)
  have hback := steps_providers (.inr rfl) (.inl ⟨rfl, rfl⟩)
  have hfinds : ∀ u, u = "SIP-PROVIDER-1" ∨ u = "SIP-PROVIDER-2" →
      Finds (fun p c => p = c) (callsOf insertionUsort inCircle) u "112" "_112" :=
    fun u hu => finds_providers (.inr rfl) hu
  -- there, back and there again
  have hfirst := next_provider (by decide) (by decide) hthere.1 hthere.2
    (by decide) (by decide) (hfinds _ (.inr rfl)) .noanswer []
  have hsecond := next_provider (by decide) (by decide) hback.1 hback.2
    (by decide) (by decide) (hfinds _ (.inl rfl)) .congestion ([] ++ ["SIP-PROVIDER-1"])
  have hthird := next_provider (by decide) (by decide) hthere.1 hthere.2
    (by decide) (by decide) (hfinds _ (.inr rfl)) .congestion
    ([] ++ ["SIP-PROVIDER-1"] ++ ["SIP-PROVIDER-2"])
  have hnodup := h inCircle hrun _ _ _
    ⟨_, _, hfinds _ (.inl rfl), (hfirst.trans hsecond).trans hthird⟩
  revert hnodup
  decide

end Dialplan
end Askozia
