import Askozia.Sip.Validation

/-!
# What is stored of accepted accounts (`sip.inc`)

The lists of codecs can assign to the form and to the element, so that what is stored of a field may come
from another one.

* `dialled_sip`: the name and the extension of a phone;
* `verified_sip`: the name, the failover and the patterns of a provider;
* `unbroken_sip`: a provider's texts have one line.
-/

namespace Askozia
namespace Sip

open Php Config Pbx Dialplan

/-- What is stored of a field that is checked before the lists of codecs are decoded. -/
def storedEarly (post : Val) (field : String) (checked : Val) : Val :=
  overwritten "element" field (codecAssignments post) checked

/-- What is read of a field after the lists of codecs are decoded. -/
def readLate (post : Val) (field : String) : Val :=
  overwritten "post" field (codecAssignments post) (post.get field)

/-- The assignments of the lists of codecs to what is stored are texts of one line. -/
def CodecsOneLined (post : Val) : Prop :=
  ∀ a ∈ codecAssignments post, a.name ∈ storedVariables → '\n' ∉ a.value.toList

theorem closed_unbroken : Closed Unbroken fun _ => True where
  null := unbroken_null
  empty := by simp [Unbroken]
  int _ := trivial
  set hv _ hx := fun hmem => (List.mem_append.1 (Val.chars_set hmem)).elim hv hx
  idx k h := h.idx k

section Phones

variable (gettext : String → String) (usort : Usort) {g : Globals} {post : Val}

/-- The name and the extension of a phone. -/
theorem dialled_sip (harray : post.isArray = true) :
    Dialled (readLate post "uniqid") (storedEarly post "extension" (post.get "extension"))
      (sipVerifyPhone gettext usort g post).1 := by
  have hsent : Form.Proper { element := .arr [], post := post, errors := [] } := ⟨rfl, harray⟩
  have hcleanliness := leaves_vCleanliness gettext hsent
  have hbefore := leaves_beforeCodecs gettext usort (g := g) hcleanliness.proper
  have hpost : ∀ b, b ≠ "outgoingcalleridmap" → (beforeCodecs gettext usort g
      (vCleanliness gettext { element := .arr [], post, errors := [] })).post.get b = post.get b := by
    intro b hb
    rw [hbefore.2.2 b hb, hcleanliness.post b List.not_mem_nil]
  have hassignments := codecAssignments_congr harray hbefore.1.post (hpost "a_codecs" (by decide))
    (hpost "v_codecs" (by decide))
  have hproper := proper_vCodecs hbefore.1
  refine ⟨?_, ?_, (@fields_phone post g gettext usort harray).1⟩
  · rw [sipVerifyPhone_eq]
    exact (writes_afterCodecs gettext hproper).proper.element
  · rw [sipVerifyPhone_eq]
    dsimp only
    rw [uniqid_afterCodecs gettext hproper, (get_vCodecs hbefore.1 (by decide) (by decide)).2,
      hpost "uniqid" (by decide), hassignments]
    rfl

end Phones

section Providers

variable (gettext : String → String) {f : Form} {post : Val}

/-- The patterns are checked and put in the element. -/
theorem patterns_beforeProviderCodecs (h : f.Proper) :
    (beforeProviderCodecs gettext f).element.get "dialpattern" =
        .ofList ((dialpatterns f.post).map .str) ∧
      ((beforeProviderCodecs gettext f).errors = [] → ∀ pattern ∈ dialpatterns f.post,
        pbxIsValidDialpattern pattern false = none) := by
  have h₁ := leaves_vRequired gettext h "name" (gettext "Name")
  have h₂ := h₁.trans (leaves_vRequired gettext h₁.proper "host" (gettext "Host"))
  have h₃ := h₂.trans (leaves_vPort gettext h₂.proper)
  have h₄ := h₃.trans (leaves_vRequired gettext h₃.proper "username" (gettext "Username"))
  have h₅ := h₄.trans (leaves_vNumeric gettext h₄.proper "readbacknumber" (gettext "Public Number"))
  have h₆ := h₅.trans (leaves_vIncomingProvRouting gettext h₅.proper)
  have h₇ := h₆.trans (leaves_vIncomingProvCallerid gettext h₆.proper)
  have h₈ := leaves_vOutgoingProvRouting gettext h₇.proper
  have h₉ := leaves_vOutgoingProvCallerid gettext h₈.proper
  have hlines := h₇.post "dialpattern" (by decide)
  unfold dialpatterns
  rw [← hlines]
  constructor
  · refine (h₉.element "dialpattern" (by decide)).trans ?_
    unfold vOutgoingProvRouting
    exact put_get_self _ _
  · intro herrors
    exact valid_vOutgoingProvRouting gettext h₇.proper (h₉.errors herrors)

/-- What is stored after the codecs of a provider. -/
theorem stored_afterProviderCodecs (h : f.Proper) :
    (afterProviderCodecs gettext f).element.get "uniqid" = f.post.get "uniqid" ∧
      (afterProviderCodecs gettext f).element.get "failover" = vStrip (f.post.get "failover") ∧
      (afterProviderCodecs gettext f).element.get "dialpattern" = f.element.get "dialpattern" := by
  have hattributes := leaves_vManualattributes gettext h
  have hoptional := leaves_putAll vStrip ["failover", "secret", "fromuser", "authuser", "fromdomain",
    "noregister", "manualregister"] hattributes.proper
  have htrusted := leaves_putAll id ["uniqid", "language", "natmode", "dtmfmode", "qualify"] hoptional.proper
  refine ⟨?_, ?_, (writes_afterProviderCodecs gettext h).element "dialpattern" (by decide)⟩
  · refine (get_putAll id (by decide) hoptional.proper).trans ?_
    exact (hoptional.post "uniqid" (by simp)).trans (hattributes.post "uniqid" (by decide))
  · refine (htrusted.element "failover" (by decide)).trans ?_
    refine (get_putAll vStrip (by decide) hattributes.proper).trans ?_
    rw [hattributes.post "failover" (by decide)]

/-- A provider that was accepted. -/
theorem verified_sip (harray : post.isArray = true) (herrors : (sipVerifyProvider gettext post).2 = []) :
    Verified (readLate post "uniqid") (readLate post "failover")
      (storedEarly post "dialpattern" (.ofList ((dialpatterns post).map .str))) (dialpatterns post)
      (sipVerifyProvider gettext post).1 := by
  have hsent : Form.Proper { element := .arr [], post := post, errors := [] } := ⟨rfl, harray⟩
  have hcleanliness := leaves_vCleanliness gettext hsent
  have hbefore := (checked_beforeProviderCodecs gettext hcleanliness.proper).leaves
  have hpost : ∀ b, b ∉ ["incomingextensionmap", "dialpattern"] → (beforeProviderCodecs gettext
      (vCleanliness gettext { element := .arr [], post, errors := [] })).post.get b = post.get b := by
    intro b hb
    rw [hbefore.post b hb, hcleanliness.post b List.not_mem_nil]
  -- what runs before the codecs leaves the two fields that are parsed
  have hassignments := codecAssignments_congr harray hbefore.proper.post (hpost "a_codecs" (by decide))
    (hpost "v_codecs" (by decide))
  have hproper := proper_vCodecs hbefore.proper
  have hpatterns := patterns_beforeProviderCodecs gettext hcleanliness.proper
  have hlines : dialpatterns (vCleanliness gettext { element := .arr [], post, errors := [] }).post =
      dialpatterns post := by
    unfold dialpatterns
    rw [hcleanliness.post "dialpattern" List.not_mem_nil]
  rw [hlines] at hpatterns
  obtain ⟨huniqid, hfailover, hdialpattern⟩ := stored_afterProviderCodecs gettext hproper
  rw [sipVerifyProvider_eq] at herrors ⊢
  dsimp only at herrors ⊢
  refine ⟨?_, ?_, ?_, ?_⟩
  · rw [huniqid, (get_vCodecs hbefore.proper (by decide) (by decide)).2, hpost "uniqid" (by decide),
      hassignments]
    rfl
  · rw [hfailover, (get_vCodecs hbefore.proper (by decide) (by decide)).2, hpost "failover" (by decide),
      hassignments]
    rfl
  · rw [hdialpattern, (get_vCodecs hbefore.proper (by decide) (by decide)).1, hpatterns.1, hassignments]
    rfl
  · have hcodecs := (writes_afterProviderCodecs gettext hproper).errors herrors
    rw [errors_vCodecs] at hcodecs
    exact hpatterns.2 hcodecs

/-- Decoding the lists of codecs into texts of one line. -/
theorem tidy_vCodecs (hcodecs : CodecsOneLined f.post) (hproper : f.Proper) (h : f.Tidy) :
    (vCodecs f).Tidy := by
  have hfits : ∀ a ∈ codecAssignments f.post, a.name ∈ storedVariables →
      a.Fits Unbroken fun _ => True := by
    intro a ha hname
    refine ⟨fun _ _ _ _ => trivial, ?_⟩
    unfold Unbroken
    rw [Val.chars_str]
    exact hcodecs a ha hname
  have hlist : Unbroken (codecList (codecAssignments f.post)) := by
    apply closed_codecList closed_unbroken hfits
    intro v hv e he
    refine ⟨trivial, fun hmem => hv ?_⟩
    exact Val.chars_of_mem_vals (List.mem_map_of_mem he) hmem
  have hkeys : ∀ path : List (Option (List Char)), ∀ i ∈ path, ∀ index ∈ i,
      (fun _ : Key => True) (Val.str (String.ofList index)).key := fun _ _ _ _ _ => trivial
  have hkeeps := vCodecs_keeps (E := Unbroken)
    (P := fun v => ∀ e ∈ v.entries, e.1.toStr ∉ textareas → Unbroken e.2) hproper h.element h.post
    (fun a ha hpath => ⟨?_, ?_⟩) ⟨fun v hv => closed_unbroken.assignAt (hkeys _) hlist hv,
      fun v hv => closed_unbroken.entries_assignAt (P := fun k => k.toStr ∉ textareas) (hkeys _) hlist hv⟩
  · exact ⟨hkeeps.1, hkeeps.2⟩
  · intro hname v hv
    exact closed_unbroken.assignAt (hkeys _) (hfits a ha (by rw [hname]; decide)).2 hv
  · intro hname v hv
    obtain ⟨i, rest, hcons⟩ := List.exists_cons_of_ne_nil hpath
    rw [hcons]
    exact closed_unbroken.entries_assignAt (P := fun k => k.toStr ∉ textareas) (hkeys _)
      (hfits a ha (by rw [hname]; decide)).2 hv

theorem tidy_beforeProviderCodecs (hproper : f.Proper) (h : f.Tidy) :
    (beforeProviderCodecs gettext f).Tidy := by
  have h₁ := leaves_vRequired gettext hproper "name" (gettext "Name")
  have t₁ := tidy_vRequired gettext h hproper "name" (by decide) (gettext "Name")
  have h₂ := h₁.trans (leaves_vRequired gettext h₁.proper "host" (gettext "Host"))
  have t₂ := tidy_vRequired gettext t₁ h₁.proper "host" (by decide) (gettext "Host")
  have h₃ := h₂.trans (leaves_vPort gettext h₂.proper)
  have t₃ := tidy_vPort gettext t₂ h₂.proper
  have h₄ := h₃.trans (leaves_vRequired gettext h₃.proper "username" (gettext "Username"))
  have t₄ := tidy_vRequired gettext t₃ h₃.proper "username" (by decide) (gettext "Username")
  have h₅ := h₄.trans (leaves_vNumeric gettext h₄.proper "readbacknumber" (gettext "Public Number"))
  have t₅ := tidy_vNumeric gettext t₄ h₄.proper "readbacknumber" (by decide) (gettext "Public Number")
  have h₆ := h₅.trans (leaves_vIncomingProvRouting gettext h₅.proper)
  have t₆ := tidy_vIncomingProvRouting gettext t₅
  have h₇ := h₆.trans (leaves_vIncomingProvCallerid gettext h₆.proper)
  have t₇ := tidy_vIncomingProvCallerid gettext t₆ h₆.proper
  have h₈ := h₇.trans (leaves_vOutgoingProvRouting gettext h₇.proper)
  exact tidy_vOutgoingProvCallerid gettext (tidy_vOutgoingProvRouting gettext t₇) h₈.proper

theorem tidy_afterProviderCodecs (hproper : f.Proper) (h : f.Tidy) :
    (afterProviderCodecs gettext f).Tidy := by
  have hattributes := leaves_vManualattributes gettext hproper
  have t₁ := tidy_vManualattributes gettext h
  have t₂ := tidy_putOptional t₁ hattributes.proper ["failover", "secret", "fromuser", "authuser",
    "fromdomain", "noregister", "manualregister"] (by decide)
  have hoptional := leaves_putAll vStrip ["failover", "secret", "fromuser", "authuser",
    "fromdomain", "noregister", "manualregister"] hattributes.proper
  exact tidy_putTrusted t₂ hoptional.proper ["uniqid", "language", "natmode", "dtmfmode", "qualify"]
    (by decide)

/-- What is stored of a provider has one line in every text. -/
theorem unbroken_sip (harray : post.isArray = true) (h : OneLined post) (hcodecs : CodecsOneLined post) :
    Unbroken (sipVerifyProvider gettext post).1 := by
  have hsent : Form.Proper { element := .arr [], post := post, errors := [] } := ⟨rfl, harray⟩
  have hcleanliness := leaves_vCleanliness gettext hsent
  have hbefore := (checked_beforeProviderCodecs gettext hcleanliness.proper).leaves
  have hassignments := codecAssignments_congr harray hbefore.proper.post
    ((hbefore.post "a_codecs" (by decide)).trans (hcleanliness.post "a_codecs" List.not_mem_nil))
    ((hbefore.post "v_codecs" (by decide)).trans (hcleanliness.post "v_codecs" List.not_mem_nil))
  have hsent := tidy_vCleanliness gettext (tidy_start h)
  have htidy := tidy_beforeProviderCodecs gettext hcleanliness.proper hsent
  have hdecoded := tidy_vCodecs (by unfold CodecsOneLined; rw [hassignments]; exact hcodecs) hbefore.proper
    htidy
  rw [sipVerifyProvider_eq]
  exact (tidy_afterProviderCodecs gettext (proper_vCodecs hbefore.proper) hdecoded).element

end Providers

end Sip
end Askozia
