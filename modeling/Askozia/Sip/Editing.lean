import Askozia.Config.Saving
import Askozia.Sip.Validation

/-!
# Editing an account (`sip.inc`, `analog.inc`)

An account that is edited is made anew from the form and takes the place of the old one. Whether it is
disabled is not in the form but set from the list of accounts (`pbx_disable_phone`), and the pages that
edit ports carry over such fields.

* `saved_in_place`: the account takes its place, and nothing else changes;
* `edit_keeps_iff`: an account that was disabled is enabled by editing it.
-/

namespace Askozia
namespace Sip

open Php Config Pbx

/-! ## Accounts that are edited -/

/-- The accounts with a form of this kind. -/
inductive Edited where
  | sipPhone
  | sipProvider
  | analogProvider
deriving DecidableEq

/-- Where they are stored. -/
def Edited.kind : Edited → Kind
  | sipPhone => .phone .sip
  | sipProvider => .provider .sip
  | analogProvider => .provider .analog

/-- `sip_verify_phone`, `sip_verify_provider` and `analog_verify_provider`. -/
def Edited.verify (c : Edited) (gettext : String → String) (usort : Usort) (g : Globals) (post : Val) :
    Val × List String :=
  match c with
  | sipPhone => sipVerifyPhone gettext usort g post
  | sipProvider => sipVerifyProvider gettext post
  | analogProvider => analogVerifyProvider gettext post

/-- `sip_save_phone`, `sip_save_provider` and `analog_save_provider`, up to `write_config`. -/
def Edited.save (c : Edited) : Val → Globals → Val := saveElement c.kind

/-- `isset($account['disabled'])` -/
def isDisabled (account : Val) : Bool := (account.get "disabled").isset

/-- `p` takes the place of `e`, which it is a new version of; nothing else changes; and it is disabled
exactly if `e` was. -/
structure EditKeeps (c : Edited) (config e p : Val) : Prop where
  uniqid : p.get "uniqid" = e.get "uniqid"
  inPlace : ∃ before after, elements config c.kind = before ++ e :: after ∧
    elements (c.save p (indexed config)) c.kind = before ++ p :: after
  others : ∀ k, k ≠ c.kind → elements (c.save p (indexed config)) k = elements config k
  disabled : isDisabled p = isDisabled e

/-- The condition: the account was not disabled. The lists of codecs of a SIP account can assign to
`uniqid` and `disabled` too. -/
def Keeps (c : Edited) (post e : Val) : Prop :=
  match c with
  | .analogProvider => isDisabled e = false
  | _ => overwritten "post" "uniqid" (codecAssignments post) (post.get "uniqid") = post.get "uniqid" ∧
    (isDisabled e = true ↔ overwrites "element" "disabled" (codecAssignments post) ≠ [])

/-! ## Saving in place -/

section Saving

variable {config e p : Val} {u : String} {k : Kind}

/-- An account with the `uniqid` of a stored one takes its place. -/
theorem saved_in_place (hwf : WellFormed config) (he : e ∈ elements config k) (harray : e.isArray = true)
    (hu : e.get "uniqid" = .str u) (hp : p.get "uniqid" = .str u) :
    (∃ before after, elements config k = before ++ e :: after ∧
      elements (saveElement k p (indexed config)) k = before ++ p :: after) ∧
    ∀ k', k' ≠ k → elements (saveElement k p (indexed config)) k' = elements config k' := by
  obtain ⟨before, after, hsplit⟩ := List.append_of_mem he
  have hi : before.length < (elements config k).length := by
    rw [hsplit, List.length_append, List.length_cons]
    omega
  have hget : (elements config k)[before.length] = e := by
    simp only [hsplit, List.getElem_append_right (Nat.le_refl _), Nat.sub_self, List.getElem_cons_zero]
  have hsave : saveElement k p (indexed config) =
      setList config k (.ofList ((elements config k).set before.length p)) := by
    apply saveElement_present hwf hi _ _ hp
    · rw [hget, hu]
    · rw [hget]
      exact truthy_of_isArray harray hu
  rw [hsave]
  refine ⟨⟨before, after, hsplit, ?_⟩, ?_⟩
  · rw [elements_setList, hsplit, List.set_append_right _ _ (Nat.le_refl _), Nat.sub_self,
      List.set_cons_zero]
  · intro k' hk
    exact elements_setList_of_ne hk _

end Saving

/-! ## What the forms make of `uniqid` and `disabled` -/

section Forms

variable {post : Val} {g : Globals} (gettext : String → String) (usort : Usort)

/-- A field that was never written is there if something was assigned to it. -/
theorem isset_overwritten {parameter field : String} {as : List Assignment} :
    (overwritten parameter field as .null).isset = true ↔ overwrites parameter field as ≠ [] := by
  have hassign : ∀ (path : List (Option (List Char))) (text : String) (v : Val),
      (assignAt path (.str text) v).isset = true := by
    intro path text v
    cases path with
    | nil => rfl
    | cons i r =>
      cases i with
      | none => rfl
      | some index => rfl
  unfold overwritten
  rcases List.eq_nil_or_concat (overwrites parameter field as) with hnil | ⟨as', a, hlast⟩
  · rw [hnil]
    simp [Val.isset]
  · rw [hlast, List.concat_eq_append, List.foldl_append, List.foldl_cons, List.foldl_nil, hassign]
    simp

theorem uniqid_afterProviderCodecs {f : Form} (h : f.Proper) :
    (afterProviderCodecs gettext f).element.get "uniqid" = f.post.get "uniqid" := by
  have hattributes := leaves_vManualattributes gettext h
  have hoptional := hattributes.trans (leaves_putAll vStrip ["failover", "secret", "fromuser", "authuser",
    "fromdomain", "noregister", "manualregister"] hattributes.proper)
  rw [← hoptional.post "uniqid" (by decide)]
  exact get_putTrusted (by decide) hoptional.proper

theorem account_sipPhone (harray : post.isArray = true) :
    let phone := (sipVerifyPhone gettext usort g post).1
    phone.get "uniqid" = overwritten "post" "uniqid" (codecAssignments post) (post.get "uniqid") ∧
      phone.get "disabled" = overwritten "element" "disabled" (codecAssignments post) .null := by
  have hsent : Form.Proper { element := .arr [], post := post, errors := [] } := ⟨rfl, harray⟩
  have hcleanliness := leaves_vCleanliness gettext hsent
  have hbefore := hcleanliness.trans (@writes_beforeCodecs gettext usort g _ hcleanliness.proper)
  have hassignments := codecAssignments_congr harray hbefore.proper.post (hbefore.post "a_codecs" (by decide))
    (hbefore.post "v_codecs" (by decide))
  have hcodecs := proper_vCodecs hbefore.proper
  have hafter := writes_afterCodecs gettext hcodecs
  rw [sipVerifyPhone_eq]
  dsimp only
  constructor
  · rw [uniqid_afterCodecs gettext hcodecs, (get_vCodecs hbefore.proper (by decide) (by decide)).2,
      hbefore.post "uniqid" (by decide), hassignments]
  · rw [hafter.element "disabled" (by decide), (get_vCodecs hbefore.proper (by decide) (by decide)).1,
      hbefore.element "disabled" (by decide), hassignments]
    rfl

theorem account_sipProvider (harray : post.isArray = true) :
    let provider := (sipVerifyProvider gettext post).1
    provider.get "uniqid" = overwritten "post" "uniqid" (codecAssignments post) (post.get "uniqid") ∧
      provider.get "disabled" = overwritten "element" "disabled" (codecAssignments post) .null := by
  have hsent : Form.Proper { element := .arr [], post := post, errors := [] } := ⟨rfl, harray⟩
  have hcleanliness := leaves_vCleanliness gettext hsent
  have hbefore := hcleanliness.trans (checked_beforeProviderCodecs gettext hcleanliness.proper).leaves
  have hassignments := codecAssignments_congr harray hbefore.proper.post (hbefore.post "a_codecs" (by decide))
    (hbefore.post "v_codecs" (by decide))
  have hcodecs := proper_vCodecs hbefore.proper
  have hafter := writes_afterProviderCodecs gettext hcodecs
  rw [sipVerifyProvider_eq]
  dsimp only
  constructor
  · rw [uniqid_afterProviderCodecs gettext hcodecs, (get_vCodecs hbefore.proper (by decide) (by decide)).2,
      hbefore.post "uniqid" (by decide), hassignments]
  · rw [hafter.element "disabled" (by decide), (get_vCodecs hbefore.proper (by decide) (by decide)).1,
      hbefore.element "disabled" (by decide), hassignments]
    rfl

theorem disabled_analogProvider (harray : post.isArray = true) :
    (analogVerifyProvider gettext post).1.get "disabled" = .null := by
  have hsent : Form.Proper { element := .arr [], post := post, errors := [] } := ⟨rfl, harray⟩
  have h₁ := leaves_vCleanliness gettext hsent
  have h₂ := h₁.trans (leaves_vRequired gettext h₁.proper "name" (gettext "Name"))
  have h₃ := h₂.trans (leaves_vNumeric gettext h₂.proper "number" (gettext "Number"))
  have h₄ := h₃.trans (leaves_vIncomingProvRouting gettext h₃.proper)
  have h₅ := h₄.trans (leaves_vIncomingProvCallerid gettext h₄.proper)
  have h₆ := h₅.trans (leaves_vOutgoingProvRouting gettext h₅.proper)
  have h₇ := h₆.trans (leaves_vOutgoingProvCallerid gettext h₆.proper)
  have h₈ := h₇.trans (leaves_vManualattributes gettext h₇.proper)
  have h₉ := h₈.trans (leaves_putAll vStrip ["failover", "defaultfax"] h₈.proper)
  have htrusted := h₉.trans (leaves_putAll id ["uniqid", "language", "port"] h₉.proper)
  have hnone := htrusted.element "disabled" (by decide)
  unfold analogVerifyProvider
  dsimp only
  exact hnone

end Forms

/-! ## Editing -/

/-- Editing keeps an account as it has to exactly when the account was not disabled (and the lists of
codecs do not set these fields). -/
theorem edit_keeps_iff (c : Edited) (gettext : String → String) (usort : Usort) {config : Val}
    (hwf : WellFormed config) {e : Val} (he : e ∈ elements config c.kind) (hstored : e.isArray = true)
    {post : Val} (harray : post.isArray = true) (hpost : post.get "uniqid" = e.get "uniqid")
    (haccepted : (c.verify gettext usort (indexed config) post).2 = []) :
    EditKeeps c config e (c.verify gettext usort (indexed config) post).1 ↔ Keeps c post e := by
  obtain ⟨u, -, hu⟩ := hwf.uniqids c.kind e he
  have hin : ∀ p : Val, EditKeeps c config e p ↔ p.get "uniqid" = post.get "uniqid" ∧
      isDisabled p = isDisabled e := by
    intro p
    rw [hpost]
    constructor
    · rintro ⟨huniqid, -, -, hdisabled⟩
      exact ⟨huniqid, hdisabled⟩
    · rintro ⟨huniqid, hdisabled⟩
      obtain ⟨hplace, hothers⟩ := saved_in_place hwf he hstored hu (huniqid.trans hu)
      exact ⟨huniqid, hplace, hothers, hdisabled⟩
  rw [hin]
  -- a SIP account is disabled only through its lists of codecs
  have hsip : ∀ p : Val,
      p.get "uniqid" = overwritten "post" "uniqid" (codecAssignments post) (post.get "uniqid") ∧
        p.get "disabled" = overwritten "element" "disabled" (codecAssignments post) .null →
      (p.get "uniqid" = post.get "uniqid" ∧ isDisabled p = isDisabled e ↔
        overwritten "post" "uniqid" (codecAssignments post) (post.get "uniqid") = post.get "uniqid" ∧
          (isDisabled e = true ↔ overwrites "element" "disabled" (codecAssignments post) ≠ [])) := by
    rintro p ⟨huniqid, hdisabled⟩
    have hset : isDisabled p = true ↔ overwrites "element" "disabled" (codecAssignments post) ≠ [] := by
      unfold isDisabled
      rw [hdisabled]
      exact isset_overwritten
    rw [huniqid, ← hset, Bool.eq_iff_iff]
    exact and_congr_right fun _ => iff_comm
  cases c with
  | sipPhone => exact hsip _ (account_sipPhone gettext usort harray)
  | sipProvider => exact hsip _ (account_sipProvider gettext harray)
  | analogProvider =>
    have huniqid := (verified_analog gettext harray haccepted).uniqid
    have hdisabled := @disabled_analogProvider post gettext harray
    have hnot : isDisabled (analogVerifyProvider gettext post).1 = false := by
      unfold isDisabled
      rw [hdisabled]
      rfl
    show (analogVerifyProvider gettext post).1.get "uniqid" = post.get "uniqid" ∧
      isDisabled (analogVerifyProvider gettext post).1 = isDisabled e ↔ isDisabled e = false
    rw [huniqid, hnot]
    constructor
    · rintro ⟨-, h⟩
      exact h.symm
    · intro h
      exact ⟨rfl, h.symm⟩

/-- A stored phone, and more fields of it. -/
def storedPhone (uniqid extension : String) (more : List (Key × Val)) : Val :=
  .arr ([(.str "uniqid", .str uniqid), (.str "extension", .str extension), (.str "callerid", .str "Anna")] ++
    more)

/-- Two phones, the second of which has more fields. -/
def twoPhones (more : List (Key × Val)) : Val :=
  .arr [(.str "sip", .arr [(.str "phone", .ofList
    [storedPhone "SIP-PHONE-2" "201" [], storedPhone "SIP-PHONE-1" "200" more])])]

/-- A phone that is not disabled is edited. -/
theorem edit_keeps_enabled :
    EditKeeps .sipPhone (twoPhones []) (storedPhone "SIP-PHONE-1" "200" [])
      (Edited.sipPhone.verify id insertionUsort (indexed (twoPhones [])) (sentAccount "s3cret" "5060")).1 := by
  have hwf : WellFormed (twoPhones []) := wellFormed_of_all (by decide) (by decide) (by decide)
  have hstored : storedPhone "SIP-PHONE-1" "200" [] ∈ elements (twoPhones []) Edited.sipPhone.kind := by
    decide
  have haccepted : (Edited.sipPhone.verify id insertionUsort (indexed (twoPhones []))
      (sentAccount "s3cret" "5060")).2 = [] := by decide +kernel
  -- the codecs of this form assign to nothing
  have hcodecs : codecAssignments (sentAccount "s3cret" "5060") = [] := by rfl
  have hkeeps : Keeps .sipPhone (sentAccount "s3cret" "5060") (storedPhone "SIP-PHONE-1" "200" []) := by
    unfold Keeps
    dsimp only
    rw [hcodecs]
    decide
  have harray : (sentAccount "s3cret" "5060").isArray = true := rfl
  have huniqid : (sentAccount "s3cret" "5060").get "uniqid" =
      (storedPhone "SIP-PHONE-1" "200" []).get "uniqid" := rfl
  exact (edit_keeps_iff .sipPhone id insertionUsort hwf hstored rfl harray huniqid haccepted).2 hkeeps

/-- A phone that is disabled is enabled by editing it. -/
theorem not_edit_keeps_disabled :
    (Edited.sipPhone.verify id insertionUsort (indexed (twoPhones [(.str "disabled", .str "")]))
        (sentAccount "s3cret" "5060")).2 = [] ∧
      ¬ EditKeeps .sipPhone (twoPhones [(.str "disabled", .str "")])
        (storedPhone "SIP-PHONE-1" "200" [(.str "disabled", .str "")])
        (Edited.sipPhone.verify id insertionUsort (indexed (twoPhones [(.str "disabled", .str "")]))
          (sentAccount "s3cret" "5060")).1 := by
  refine ⟨by decide +kernel, ?_⟩
  intro hkeeps
  -- the form has no field for it
  have hdisabled := hkeeps.disabled
  revert hdisabled
  decide +kernel

end Sip
end Askozia
