import Askozia.Php.Chars
import Askozia.Sip.Verify

/-!
# Accepted accounts (`sip.inc`, `verify.inc`)

What is known of a phone or a provider when nothing was found wrong with the form it was made from.
`v_password` is not given the list of errors, `v_port` compares a text with numbers, and the lists of
codecs can assign to fields after they have been checked.

* `outer_foldl_assign` says what a list of codecs makes of a field that was already written;
* `validation_sound_iff`: an accepted phone and an accepted provider are sound under a condition on the
  form.
-/

namespace Askozia
namespace Sip

open Php Config Pbx

/-! ## Providers -/

/-- `sip_verify_provider($post, $errors)`: the provider, and what is wrong. -/
def sipVerifyProvider (gettext : String → String) (post : Val) : Val × List String :=
  let f : Form := { element := .arr [], post := post, errors := [] }
  let f := vCleanliness gettext f
  let f := vRequired gettext "name" (gettext "Name") f
  let f := vRequired gettext "host" (gettext "Host") f
  let f := vPort gettext f
  let f := vRequired gettext "username" (gettext "Username") f
  let f := vNumeric gettext "readbacknumber" (gettext "Public Number") f
  let f := vIncomingProvRouting gettext f
  let f := vIncomingProvCallerid gettext f
  let f := vOutgoingProvRouting gettext f
  let f := vOutgoingProvCallerid gettext f
  -- what is read or stored from here on may have been assigned to by the codecs' text
  let f := vCodecs f
  let f := vManualattributes gettext f
  let f := putOptional ["failover", "secret", "fromuser", "authuser", "fromdomain", "noregister",
    "manualregister"] f
  let f := putTrusted ["uniqid", "language", "natmode", "dtmfmode", "qualify"] f
  (f.element, f.errors)

/-! ## Sound accounts -/

/-- A text of digits, which may be empty. -/
def isDigits (v : Val) : Bool := v.toStr.toList.all Char.isDigit

/-- What a phone has to have. -/
structure SoundPhone (phone : Val) : Prop where
  extension : strlen (phone.get "extension") = true ∧ isDigits (phone.get "extension") = true
  callerid : strlen (phone.get "callerid") = true
  secret : strlen (phone.get "secret") = true

/-- No port, or a decimal numeral of a port. -/
def IsPort (port : Val) : Prop :=
  strlen port = false ∨ (isDigits port = true ∧ 1 ≤ Val.digitsValue port.toStr.toList ∧
    Val.digitsValue port.toStr.toList ≤ 65535)

/-- What a provider has to have. -/
structure SoundProvider (provider : Val) : Prop where
  name : strlen (provider.get "name") = true
  host : strlen (provider.get "host") = true
  username : strlen (provider.get "username") = true
  port : IsPort (provider.get "port")

/-! ## What the lists of codecs assign to -/

/-- The assignments to a field of a parameter that the caller sees: a new value for the parameter itself
ends them. -/
def overwrites (parameter field : String) (as : List Assignment) : List Assignment :=
  ((as.filter (·.name = parameter)).takeWhile fun a => !a.path.isEmpty).filter fun a =>
    a.path.head? = some (some field.toList)

/-- What they make of a value. -/
def overwritten (parameter field : String) (as : List Assignment) (v : Val) : Val :=
  (overwrites parameter field as).foldl (fun v a => assignAt a.path.tail (.str a.value) v) v

/-- The condition on the form of a phone: there is a password, and what the lists of codecs put in place
of a field is right too. -/
structure KeepsPhone (post : Val) : Prop where
  extension : overwrites "element" "extension" (codecAssignments post) ≠ [] →
    let extension := overwritten "element" "extension" (codecAssignments post) (post.get "extension")
    strlen extension = true ∧ isDigits extension = true
  callerid : overwrites "element" "callerid" (codecAssignments post) ≠ [] →
    strlen (overwritten "element" "callerid" (codecAssignments post) (post.get "callerid")) = true
  secret : strlen (overwritten "post" "secret" (codecAssignments post) (post.get "secret")) = true

/-- A field of a provider that has to be there, if the lists of codecs put something in its place. -/
def KeepsField (post : Val) (field : String) : Prop :=
  overwrites "element" field (codecAssignments post) ≠ [] →
    strlen (overwritten "element" field (codecAssignments post) (post.get field)) = true

/-- The condition on the form of a provider: the port has digits only, and what the lists of codecs put in
place of a field is right too. -/
structure KeepsProvider (post : Val) : Prop where
  name : KeepsField post "name"
  host : KeepsField post "host"
  username : KeepsField post "username"
  digits : overwrites "element" "port" (codecAssignments post) = [] → isDigits (post.get "port") = true
  port : overwrites "element" "port" (codecAssignments post) ≠ [] →
    IsPort (overwritten "element" "port" (codecAssignments post) (vStrip (post.get "port")))

section Overwriting

variable {parameter field : String} {as : List Assignment} {v x : Val}

theorem overwritten_of_nil (h : overwrites parameter field as = []) :
    overwritten parameter field as v = v := by
  rw [overwritten, h]
  rfl

/-- A parameter that has been replaced no longer is what the caller sees. -/
theorem outer_assignAll_of_unbound {r : Reference} (h : r.bound = false) (as : List Assignment) :
    (assignAll as r).outer = r.outer := by
  unfold assignAll
  induction as generalizing r with
  | nil => rfl
  | cons a as ih =>
    have hassign : (r.assign a.path (.str a.value)).bound = false ∧
        (r.assign a.path (.str a.value)).outer = r.outer := by
      unfold Reference.assign
      dsimp only
      rw [h]
      split_ifs with hpath hbound
      · exact ⟨rfl, rfl⟩
      · cases hbound
      · exact ⟨rfl, rfl⟩
    rw [List.foldl_cons, ih hassign.1, hassign.2]

/-- What the caller sees of a field after some assignments to a parameter. -/
theorem outer_assignAll (hfield : (Val.str field).key = .str field) {r : Reference}
    (hbound : r.bound = true) (hinner : r.inner = r.outer) (harray : r.outer.isArray = true)
    (hnames : ∀ a ∈ as, a.name = parameter) :
    (assignAll as r).outer.get field = overwritten parameter field as (r.outer.get field) := by
  have hall : ∀ as : List Assignment, (∀ a ∈ as, a.name = parameter) →
      as.filter (·.name = parameter) = as := by
    intro as hnames
    rw [List.filter_eq_self]
    intro a ha
    exact decide_eq_true (hnames a ha)
  induction as generalizing r with
  | nil => rfl
  | cons a as ih =>
    have hrest : ∀ b ∈ as, b.name = parameter := fun b hb => hnames b (List.mem_cons_of_mem _ hb)
    unfold overwritten overwrites at ih ⊢
    rw [hall _ hnames]
    rw [hall _ hrest] at ih
    cases hpath : a.path with
    | nil =>
      -- the parameter is replaced
      have hassign : r.assign a.path (.str a.value) =
          { r with inner := assignAt [] (.str a.value) r.inner, bound := false } := by
        rw [hpath]
        rfl
      have hstop : (a :: as).takeWhile (fun a => !a.path.isEmpty) = [] := by
        rw [List.takeWhile_cons, hpath]
        rfl
      rw [hstop]
      show (assignAll as (r.assign a.path (.str a.value))).outer.get field = _
      rw [outer_assignAll_of_unbound (by rw [hassign]), hassign]
      rfl
    | cons i rest =>
      have hassign : r.assign a.path (.str a.value) =
          ⟨assignAt (i :: rest) (.str a.value) r.outer, assignAt (i :: rest) (.str a.value) r.outer,
            true⟩ := by
        rw [hpath]
        unfold Reference.assign
        rw [if_neg (List.cons_ne_nil i rest), hbound, hinner]
        rfl
      have hstep := @ih (r.assign a.path (.str a.value)) (by rw [hassign]) (by rw [hassign])
        (by rw [hassign]; exact isArray_assignAt) hrest
      have hgo : (a :: as).takeWhile (fun a => !a.path.isEmpty) =
          a :: as.takeWhile (fun a => !a.path.isEmpty) := by
        rw [List.takeWhile_cons, hpath]
        rfl
      show (assignAll as (r.assign a.path (.str a.value))).outer.get field = _
      rw [hstep, hgo, hassign]
      by_cases hi : i = some field.toList
      · rw [List.filter_cons_of_pos (by rw [hpath, hi]; exact decide_eq_true rfl), List.foldl_cons, hpath,
          hi, get_assignAt_self hfield harray]
        rfl
      · rw [List.filter_cons_of_neg (by rw [hpath]; simpa using hi),
          get_assignAt hi (ne_str_of_isArray harray)]

/-- Only the assignments to the parameter count. -/
theorem overwritten_filter : overwritten parameter field (as.filter (·.name = parameter)) v =
    overwritten parameter field as v := by
  unfold overwritten overwrites
  rw [List.filter_filter]
  simp only [Bool.and_self]

/-- Writing the codecs leaves the other fields alone. -/
theorem Reference.Synced.get_assign {r : Reference} (h : r.Synced) {i : List Char} (hi : i ≠ field.toList) :
    (r.assign [some i] x).outer.get field = r.outer.get field := by
  unfold Reference.assign
  rw [if_neg (List.cons_ne_nil _ _)]
  dsimp only
  split_ifs with hbound
  · rw [h.2 hbound]
    exact get_assignAt (fun heq => hi (Option.some.inj heq)) (ne_str_of_isArray h.1)
  · rfl

end Overwriting

/-! ## The fields after the codecs -/

section Codecs

variable {f : Form} {field : String}

/-- What becomes of the fields in `v_codecs`. -/
theorem get_vCodecs (h : f.Proper) (hkey : (Val.str field).key = .str field) (hne : field ≠ "codec") :
    (vCodecs f).element.get field =
        overwritten "element" field (codecAssignments f.post) (f.element.get field) ∧
      (vCodecs f).post.get field =
        overwritten "post" field (codecAssignments f.post) (f.post.get field) := by
  have hcodec : "codec".toList ≠ field.toList := fun heq => hne (String.toList_injective heq).symm
  have helement := synced_passed h.element
  have hpost := synced_passed h.post
  rw [vCodecs_eq]
  constructor
  · rw [(helement.assignAll _).get_assign hcodec]
    refine Eq.trans ?_ overwritten_filter
    exact outer_assignAll hkey rfl rfl h.element fun a ha => of_decide_eq_true (List.mem_filter.1 ha).2
  · rw [(hpost.assignAll _).get_assign hcodec]
    refine Eq.trans ?_ overwritten_filter
    exact outer_assignAll hkey rfl rfl h.post fun a ha => of_decide_eq_true (List.mem_filter.1 ha).2

end Codecs

/-! ## Checks that found nothing -/

section Checks

variable {f : Form} (gettext : String → String)

theorem errors_failIf {wrong : Bool} {error : String} (h : (f.failIf wrong error).errors = []) :
    f.errors = [] ∧ wrong = false := by
  unfold Form.failIf at h
  split_ifs at h with hwrong
  · exact absurd h (List.append_ne_nil_of_right_ne_nil _ (List.cons_ne_nil _ _))
  · exact ⟨h, by simpa using hwrong⟩

theorem accepted_vExtension (h : (vExtension gettext f).errors = []) :
    f.errors = [] ∧ strlen (f.post.get "extension") = true ∧ isDigits (f.post.get "extension") = true := by
  obtain ⟨hmissing, hinvalid⟩ := errors_failIf (f := f.failIf (!strlen (f.post.get "extension"))
    (gettext "Missing extension number.")) h
  obtain ⟨hbefore, hthere⟩ := errors_failIf hmissing
  have hstrlen : strlen (f.post.get "extension") = true := by simpa using hthere
  refine ⟨hbefore, hstrlen, ?_⟩
  rw [hstrlen, Bool.true_and, List.any_eq_false] at hinvalid
  unfold isDigits
  rw [List.all_eq_true]
  intro c hc
  simpa using hinvalid c hc

theorem accepted_vCallerid (h : (vCallerid gettext f).errors = []) :
    f.errors = [] ∧ strlen (f.post.get "callerid") = true := by
  obtain ⟨hbefore, hthere⟩ := errors_failIf (f := f) h
  exact ⟨hbefore, by simpa using hthere⟩

theorem accepted_vRequired {field name : String} (h : (vRequired gettext field name f).errors = []) :
    f.errors = [] ∧ strlen (f.post.get field) = true := by
  obtain ⟨hbefore, hthere⟩ := errors_failIf (f := f) h
  exact ⟨hbefore, by simpa using hthere⟩

theorem accepted_vPort (h : (vPort gettext f).errors = []) :
    f.errors = [] ∧ (strlen (f.post.get "port") = true →
      (f.post.get "port").looseLt (.int 1) = false ∧
        (Val.int 65535).looseLt (f.post.get "port") = false) := by
  obtain ⟨hbefore, hport⟩ := errors_failIf (f := f) h
  refine ⟨hbefore, ?_⟩
  intro hstrlen
  rw [hstrlen, Bool.true_and, Bool.or_eq_false_iff] at hport
  exact hport

end Checks

/-! ## Ports -/

section Ports

variable {v : Val}

/-- A text that is not compared as less than 1 or greater than 65535 is a port if it has digits only. -/
theorem isPort_of_isDigits (hlow : v.looseLt (.int 1) = false) (hhigh : (Val.int 65535).looseLt v = false)
    (hstrlen : strlen v = true) (hdigits : isDigits v = true) : IsPort v := by
  refine .inr ⟨hdigits, ?_⟩
  -- the comparison is one of numbers; a string of digits is read as a float
  cases v with
  | null => cases hstrlen
  | bool b =>
    cases b with
    | false => cases hstrlen
    | true => decide
  | int n =>
    have hone : 1 ≤ n := by simpa [Val.looseLt] using hlow
    have hmax : n ≤ 65535 := by simpa [Val.looseLt] using hhigh
    obtain ⟨m, rfl⟩ := Int.eq_ofNat_of_zero_le (by omega : 0 ≤ n)
    have hvalue : Val.digitsValue (Val.int (m : ℤ)).toStr.toList = m := Val.digitsValue_toString m
    rw [hvalue]
    omega
  | str s =>
    have hne : s.toList ≠ [] := by simpa [strlen, Val.toStr] using hstrlen
    have hall : ∀ c ∈ s.toList, c.isDigit = true := by simpa [isDigits, Val.toStr] using hdigits
    have hnumber := toNumber_of_digits hne hall
    rw [String.ofList_toList] at hnumber
    simp only [Val.looseLt, hnumber, decide_eq_false_iff_not, not_lt] at hlow hhigh
    show 1 ≤ Val.digitsValue s.toList ∧ Val.digitsValue s.toList ≤ 65535
    by_cases hbig : Val.digitsValue s.toList < 2 ^ 53
    · rw [double_natCast hbig] at hlow hhigh
      exact ⟨by exact_mod_cast hlow, by exact_mod_cast hhigh⟩
    · -- beyond what a float holds exactly, it is still too large
      have hle := @le_double_natCast (Val.digitsValue s.toList) (by omega)
      norm_num at hle hhigh
      linarith
  | arr es =>
    exfalso
    revert hhigh
    simp [Val.looseLt]

end Ports

/-! ## Phones -/

/-- A field that is stored as it is in the form. -/
theorem get_putTrusted {fields : List String} {field : String} (hfield : field ∈ fields) {f : Form}
    (h : f.Proper) : (putTrusted fields f).element.get field = f.post.get field :=
  get_putAll id hfield h

section Phones

variable {f : Form} {post : Val} {g : Globals} (gettext : String → String) (usort : Usort)

/-- The extension and the caller id when the codecs are decoded. -/
theorem fields_beforeCodecs (h : f.Proper) :
    (beforeCodecs gettext usort g f).element.get "extension" = f.post.get "extension" ∧
      (beforeCodecs gettext usort g f).element.get "callerid" = f.post.get "callerid" ∧
      ((beforeCodecs gettext usort g f).errors = [] →
        (strlen (f.post.get "extension") = true ∧ isDigits (f.post.get "extension") = true) ∧
          strlen (f.post.get "callerid") = true) := by
  have h₁ := leaves_vExtension gettext h
  have h₂ := leaves_vCallerid gettext h₁.proper
  have h₃ := leaves_vOptional h₂.proper "descr"
  have h₄ := h₃.trans (leaves_vOptional h₃.proper "snom-mac")
  have h₅ := h₄.trans (leaves_vPublicAccessEditor gettext h₄.proper)
  have h₆ := h₅.trans (leaves_vNotificationsEditor gettext h₅.proper)
  have h₇ := h₆.trans (leaves_vVoicemailEditor gettext h₆.proper)
  have h₈ := h₇.trans (leaves_vProviderAccessSelector h₇.proper usort g)
  have h₉ := h₈.trans (leaves_vOutgoingCalleridMap gettext h₈.proper g)
  have hcallerid : (vExtension gettext f).post.get "callerid" = f.post.get "callerid" :=
    h₁.post _ List.not_mem_nil
  refine ⟨?_, ?_, ?_⟩
  · refine (h₉.element "extension" (by decide)).trans ((h₂.element "extension" (by decide)).trans ?_)
    exact get_vExtension gettext
  · refine (h₉.element "callerid" (by decide)).trans (Eq.trans ?_ hcallerid)
    exact put_get_self _ _
  · intro herrors
    obtain ⟨hextended, hthere⟩ := accepted_vCallerid gettext (h₉.errors herrors)
    rw [hcallerid] at hthere
    exact ⟨(accepted_vExtension gettext hextended).2, hthere⟩

/-- The fields after the codecs have been decoded. -/
theorem fields_afterCodecs (h : f.Proper) :
    (afterCodecs gettext f).element.get "extension" = f.element.get "extension" ∧
      (afterCodecs gettext f).element.get "callerid" = f.element.get "callerid" ∧
      (afterCodecs gettext f).element.get "secret" = f.post.get "secret" := by
  have hwrites := writes_afterCodecs gettext h
  have h₁ := leaves_vPassword h
  have h₂ := leaves_vManualattributes gettext h₁.proper
  have h₃ := h₂.trans (leaves_vNumeric gettext h₂.proper "busylevel" (gettext "Busy level"))
  have h₄ := h₃.trans (leaves_putAll id ["uniqid", "language", "ringlength", "natmode", "dtmfmode"] h₃.proper)
  refine ⟨hwrites.element "extension" (by decide), hwrites.element "callerid" (by decide), ?_⟩
  refine (h₄.element "secret" (by decide)).trans ?_
  exact put_get_self _ _

/-- The name is read after the lists of codecs. -/
theorem uniqid_afterCodecs (h : f.Proper) :
    (afterCodecs gettext f).element.get "uniqid" = f.post.get "uniqid" := by
  have hpassword := leaves_vPassword h
  have hattributes := hpassword.trans (leaves_vManualattributes gettext hpassword.proper)
  have hnumeric := hattributes.trans
    (leaves_vNumeric gettext hattributes.proper "busylevel" (gettext "Busy level"))
  rw [← hnumeric.post "uniqid" (by decide)]
  exact get_putTrusted (by decide) hnumeric.proper

/-- The fields of a phone, and what is known of the form if it was accepted. -/
theorem fields_phone (harray : post.isArray = true) :
    let phone := (sipVerifyPhone gettext usort g post).1
    phone.get "extension" =
        overwritten "element" "extension" (codecAssignments post) (post.get "extension") ∧
      phone.get "callerid" =
        overwritten "element" "callerid" (codecAssignments post) (post.get "callerid") ∧
      phone.get "secret" = overwritten "post" "secret" (codecAssignments post) (post.get "secret") ∧
      ((sipVerifyPhone gettext usort g post).2 = [] →
        (strlen (post.get "extension") = true ∧ isDigits (post.get "extension") = true) ∧
          strlen (post.get "callerid") = true) := by
  have hsent : Form.Proper { element := .arr [], post := post, errors := [] } := ⟨rfl, harray⟩
  have hcleanliness := leaves_vCleanliness gettext hsent
  have hbefore := @leaves_beforeCodecs gettext usort g _ hcleanliness.proper
  have hfields := @fields_beforeCodecs _ g gettext usort hcleanliness.proper
  have hpost : ∀ b, b ≠ "outgoingcalleridmap" → (beforeCodecs gettext usort g
      (vCleanliness gettext { element := .arr [], post, errors := [] })).post.get b = post.get b := by
    intro b hb
    rw [hbefore.2.2 b hb, hcleanliness.post b List.not_mem_nil]
  -- what runs before the codecs leaves the two fields that are parsed
  have hassignments := codecAssignments_congr harray hbefore.1.post (hpost "a_codecs" (by decide))
    (hpost "v_codecs" (by decide))
  have hafter := fields_afterCodecs gettext (proper_vCodecs hbefore.1)
  have hclean : ∀ b, (vCleanliness gettext { element := .arr [], post, errors := [] }).post.get b =
      post.get b := fun b => hcleanliness.post b List.not_mem_nil
  rw [hclean, hclean] at hfields
  rw [sipVerifyPhone_eq]
  dsimp only
  refine ⟨?_, ?_, ?_, ?_⟩
  · rw [hafter.1, (get_vCodecs hbefore.1 (by decide) (by decide)).1, hfields.1, hassignments]
  · rw [hafter.2.1, (get_vCodecs hbefore.1 (by decide) (by decide)).1, hfields.2.1, hassignments]
  · rw [hafter.2.2, (get_vCodecs hbefore.1 (by decide) (by decide)).2, hpost "secret" (by decide),
      hassignments]
  · intro herrors
    have hcodecs := errors_afterCodecs gettext (proper_vCodecs hbefore.1) herrors
    rw [errors_vCodecs] at hcodecs
    exact hfields.2.2 hcodecs

theorem soundPhone_iff (harray : post.isArray = true)
    (haccepted : (sipVerifyPhone gettext usort g post).2 = []) :
    SoundPhone (sipVerifyPhone gettext usort g post).1 ↔ KeepsPhone post := by
  obtain ⟨hextension, hcallerid, hsecret, hchecked⟩ := @fields_phone post g gettext usort harray
  obtain ⟨hdialled, hnamed⟩ := hchecked haccepted
  constructor
  · rintro ⟨hext, hcid, hsec⟩
    rw [hextension] at hext
    rw [hcallerid] at hcid
    rw [hsecret] at hsec
    exact ⟨fun _ => hext, fun _ => hcid, hsec⟩
  · rintro ⟨hext, hcid, hsec⟩
    refine ⟨?_, ?_, ?_⟩
    · rw [hextension]
      by_cases hnone : overwrites "element" "extension" (codecAssignments post) = []
      · rw [overwritten_of_nil hnone]
        exact hdialled
      · exact hext hnone
    · rw [hcallerid]
      by_cases hnone : overwrites "element" "callerid" (codecAssignments post) = []
      · rw [overwritten_of_nil hnone]
        exact hnamed
      · exact hcid hnone
    · rw [hsecret]
      exact hsec

end Phones

/-! ## Providers -/

section Providers

variable {f : Form} {post : Val} (gettext : String → String)

/-- The checks of `sip_verify_provider` before `v_codecs`. -/
def beforeProviderCodecs (f : Form) : Form :=
  let f := vRequired gettext "name" (gettext "Name") f
  let f := vRequired gettext "host" (gettext "Host") f
  let f := vPort gettext f
  let f := vRequired gettext "username" (gettext "Username") f
  let f := vNumeric gettext "readbacknumber" (gettext "Public Number") f
  let f := vIncomingProvRouting gettext f
  let f := vIncomingProvCallerid gettext f
  let f := vOutgoingProvRouting gettext f
  vOutgoingProvCallerid gettext f

/-- What `sip_verify_provider` does after `v_codecs`. -/
def afterProviderCodecs (f : Form) : Form :=
  let f := vManualattributes gettext f
  let f := putOptional ["failover", "secret", "fromuser", "authuser", "fromdomain", "noregister",
    "manualregister"] f
  putTrusted ["uniqid", "language", "natmode", "dtmfmode", "qualify"] f

theorem sipVerifyProvider_eq :
    sipVerifyProvider gettext post =
      ((afterProviderCodecs gettext (vCodecs (beforeProviderCodecs gettext
        (vCleanliness gettext { element := .arr [], post := post, errors := [] })))).element,
      (afterProviderCodecs gettext (vCodecs (beforeProviderCodecs gettext
        (vCleanliness gettext { element := .arr [], post := post, errors := [] })))).errors) := rfl

/-- The fields that are written before the codecs of a provider. -/
def beforeProviderFields : List String :=
  ["name", "host", "port", "username", "readbacknumber", "incomingextensionmap", "override",
    "overridestring", "dialpattern", "calleridsource", "calleridstring"]

/-- What is known when the codecs of a provider are decoded. -/
structure Checked (f f' : Form) : Prop where
  leaves : Leaves beforeProviderFields ["incomingextensionmap", "dialpattern"] f f'
  required : ∀ b ∈ ["name", "host", "username"], f'.element.get b = f.post.get b ∧
    (f'.errors = [] → strlen (f.post.get b) = true)
  port : f'.element.get "port" = vStrip (f.post.get "port") ∧
    (f'.errors = [] → strlen (f.post.get "port") = true →
      (f.post.get "port").looseLt (.int 1) = false ∧ (Val.int 65535).looseLt (f.post.get "port") = false)

theorem checked_beforeProviderCodecs (h : f.Proper) : Checked f (beforeProviderCodecs gettext f) := by
  have h₁ := leaves_vRequired gettext h "name" (gettext "Name")
  have h₂ := leaves_vRequired gettext h₁.proper "host" (gettext "Host")
  have h₃ := leaves_vPort gettext h₂.proper
  have h₄ := leaves_vRequired gettext h₃.proper "username" (gettext "Username")
  have h₅ := leaves_vNumeric gettext h₄.proper "readbacknumber" (gettext "Public Number")
  have h₆ := h₅.trans (leaves_vIncomingProvRouting gettext h₅.proper)
  have h₇ := h₆.trans (leaves_vIncomingProvCallerid gettext h₆.proper)
  have h₈ := h₇.trans (leaves_vOutgoingProvRouting gettext h₇.proper)
  have h₉ := h₈.trans (leaves_vOutgoingProvCallerid gettext h₈.proper)
  -- the form is as it was sent until the last of the checked fields
  have hhost := h₁.post "host" List.not_mem_nil
  have hport := (h₁.trans h₂).post "port" List.not_mem_nil
  have husername := ((h₁.trans h₂).trans h₃).post "username" List.not_mem_nil
  have hsent := ((h₁.trans h₂).trans h₃).trans h₄
  refine ⟨hsent.trans h₉, ?_, ?_, ?_⟩
  · intro b hb
    simp only [List.mem_cons, List.not_mem_nil, or_false] at hb
    rcases hb with rfl | rfl | rfl
    · constructor
      · refine (h₉.element "name" (by decide)).trans ?_
        refine ((h₂.trans h₃).trans h₄).element "name" (by decide) |>.trans ?_
        exact put_get_self _ _
      · intro herrors
        have hname := h₂.errors (h₃.errors (h₄.errors (h₉.errors herrors)))
        exact (accepted_vRequired gettext hname).2
    · constructor
      · refine (h₉.element "host" (by decide)).trans ?_
        refine (h₃.trans h₄).element "host" (by decide) |>.trans (Eq.trans ?_ hhost)
        exact put_get_self _ _
      · intro herrors
        have hhost' := (accepted_vRequired gettext (h₃.errors (h₄.errors (h₉.errors herrors)))).2
        rw [hhost] at hhost'
        exact hhost'
    · constructor
      · refine (h₉.element "username" (by decide)).trans (Eq.trans ?_ husername)
        exact put_get_self _ _
      · intro herrors
        have husername' := (accepted_vRequired gettext (h₉.errors herrors)).2
        rw [husername] at husername'
        exact husername'
  · refine (h₉.element "port" (by decide)).trans ((h₄.element "port" (by decide)).trans ?_)
    refine Eq.trans ?_ (congrArg vStrip hport)
    exact put_get_self _ _
  · intro herrors
    have hport' := (accepted_vPort gettext (h₄.errors (h₉.errors herrors))).2
    rw [hport] at hport'
    exact hport'

/-- The fields that are written after the codecs of a provider. -/
def afterProviderFields : List String :=
  ["manualattributes", "failover", "secret", "fromuser", "authuser", "fromdomain", "noregister",
    "manualregister", "uniqid", "language", "natmode", "dtmfmode", "qualify"]

theorem writes_afterProviderCodecs (h : f.Proper) :
    Leaves afterProviderFields ["manualattributes"] f (afterProviderCodecs gettext f) := by
  have h₁ := leaves_vManualattributes gettext h
  have h₂ := h₁.trans (leaves_putAll vStrip ["failover", "secret", "fromuser", "authuser", "fromdomain",
    "noregister", "manualregister"] h₁.proper)
  exact h₂.trans (leaves_putAll id ["uniqid", "language", "natmode", "dtmfmode", "qualify"] h₂.proper)

/-- The fields of a provider, and what is known of the form if it was accepted. -/
theorem fields_provider (harray : post.isArray = true) :
    let provider := (sipVerifyProvider gettext post).1
    (∀ b ∈ ["name", "host", "username"],
      provider.get b = overwritten "element" b (codecAssignments post) (post.get b) ∧
        ((sipVerifyProvider gettext post).2 = [] → strlen (post.get b) = true)) ∧
      provider.get "port" =
        overwritten "element" "port" (codecAssignments post) (vStrip (post.get "port")) ∧
      ((sipVerifyProvider gettext post).2 = [] → strlen (post.get "port") = true →
        (post.get "port").looseLt (.int 1) = false ∧ (Val.int 65535).looseLt (post.get "port") = false) := by
  have hsent : Form.Proper { element := .arr [], post := post, errors := [] } := ⟨rfl, harray⟩
  have hcleanliness := leaves_vCleanliness gettext hsent
  have hclean : ∀ b, (vCleanliness gettext { element := .arr [], post, errors := [] }).post.get b =
      post.get b := fun b => hcleanliness.post b List.not_mem_nil
  have hchecked := checked_beforeProviderCodecs gettext hcleanliness.proper
  have hproper := hchecked.leaves.proper
  -- what runs before the codecs leaves the two fields that are parsed
  have hassignments := codecAssignments_congr harray hproper.post
    ((hchecked.leaves.post "a_codecs" (by decide)).trans (hclean _))
    ((hchecked.leaves.post "v_codecs" (by decide)).trans (hclean _))
  have hafter := writes_afterProviderCodecs gettext (proper_vCodecs hproper)
  have herrors := hafter.errors
  rw [errors_vCodecs] at herrors
  rw [sipVerifyProvider_eq]
  dsimp only
  refine ⟨?_, ?_, ?_⟩
  · intro b hb
    obtain ⟨hget, hthere⟩ := hchecked.required b hb
    rw [hclean] at hget hthere
    have hnames : ∀ b ∈ ["name", "host", "username"],
        b ∉ afterProviderFields ∧ (Val.str b).key = .str b ∧ b ≠ "codec" := by decide
    have hname := hnames b hb
    refine ⟨?_, fun haccepted => hthere (herrors haccepted)⟩
    rw [hafter.element b hname.1, (get_vCodecs hproper hname.2.1 hname.2.2).1, hget, hassignments]
  · have hport := hchecked.port.1
    rw [hclean] at hport
    rw [hafter.element "port" (by decide), (get_vCodecs hproper (by decide) (by decide)).1, hport,
      hassignments]
  · intro haccepted
    have hport := hchecked.port.2 (herrors haccepted)
    rw [hclean] at hport
    exact hport

theorem soundProvider_iff (harray : post.isArray = true)
    (haccepted : (sipVerifyProvider gettext post).2 = []) :
    SoundProvider (sipVerifyProvider gettext post).1 ↔ KeepsProvider post := by
  obtain ⟨hrequired, hport, hrange⟩ := @fields_provider post gettext harray
  have hrequired_iff : ∀ b ∈ ["name", "host", "username"],
      strlen ((sipVerifyProvider gettext post).1.get b) = true ↔ KeepsField post b := by
    intro b hb
    obtain ⟨hget, hthere⟩ := hrequired b hb
    rw [hget]
    constructor
    · intro hstrlen _
      exact hstrlen
    · intro hkeeps
      by_cases hnone : overwrites "element" b (codecAssignments post) = []
      · rw [overwritten_of_nil hnone]
        exact hthere haccepted
      · exact hkeeps hnone
  -- the port is checked as a number only, so digits make the difference
  have hport_iff : IsPort (vStrip (post.get "port")) ↔ isDigits (post.get "port") = true := by
    by_cases hstrlen : strlen (post.get "port") = true
    · obtain ⟨hlow, hhigh⟩ := hrange haccepted hstrlen
      have hstripped : vStrip (post.get "port") = post.get "port" := by
        unfold vStrip
        split_ifs with harr hcount
        · rfl
        · exfalso
          cases hvalue : post.get "port" with
          | arr es =>
            rw [hvalue] at hhigh
            revert hhigh
            simp [Val.looseLt]
          | _ =>
            rw [hvalue] at harr
            cases harr
        · rfl
      rw [hstripped]
      constructor
      · rintro (hempty | ⟨hdigits, -⟩)
        · rw [hstrlen] at hempty
          cases hempty
        · exact hdigits
      · exact isPort_of_isDigits hlow hhigh hstrlen
    · have hempty : (post.get "port").toStr.toList = [] := by
        simpa [strlen] using hstrlen
      have hdigits : isDigits (post.get "port") = true := by
        unfold isDigits
        rw [hempty]
        rfl
      have habsent : strlen (vStrip (post.get "port")) = false := by
        unfold vStrip
        split_ifs with harr hcount
        · simpa using hstrlen
        · rfl
        · rfl
      exact ⟨fun _ => hdigits, fun _ => .inl habsent⟩
  constructor
  · rintro ⟨hname, hhost, husername, hsound⟩
    rw [hport] at hsound
    refine ⟨(hrequired_iff _ (by decide)).1 hname, (hrequired_iff _ (by decide)).1 hhost,
      (hrequired_iff _ (by decide)).1 husername, ?_, fun _ => hsound⟩
    intro hnone
    rw [overwritten_of_nil hnone] at hsound
    exact hport_iff.1 hsound
  · rintro ⟨hname, hhost, husername, hdigits, hkeeps⟩
    refine ⟨(hrequired_iff _ (by decide)).2 hname, (hrequired_iff _ (by decide)).2 hhost,
      (hrequired_iff _ (by decide)).2 husername, ?_⟩
    rw [hport]
    by_cases hnone : overwrites "element" "port" (codecAssignments post) = []
    · rw [overwritten_of_nil hnone]
      exact hport_iff.2 (hdigits hnone)
    · exact hkeeps hnone

end Providers

/-! ## Both kinds of account -/

/-- An accepted phone is sound, and an accepted provider is sound. -/
structure ValidationSound (gettext : String → String) (usort : Usort) (g : Globals) (post : Val) : Prop where
  phone : (sipVerifyPhone gettext usort g post).2 = [] → SoundPhone (sipVerifyPhone gettext usort g post).1
  provider : (sipVerifyProvider gettext post).2 = [] → SoundProvider (sipVerifyProvider gettext post).1

/-- What is accepted is sound exactly when a phone has a password, the port of a provider has digits only,
and the lists of codecs put nothing wrong in place of a field that was checked. -/
theorem validation_sound_iff (gettext : String → String) (usort : Usort) (g : Globals) (post : Val)
    (harray : post.isArray = true) :
    ValidationSound gettext usort g post ↔
      ((sipVerifyPhone gettext usort g post).2 = [] → KeepsPhone post) ∧
      ((sipVerifyProvider gettext post).2 = [] → KeepsProvider post) := by
  constructor
  · rintro ⟨hphone, hprovider⟩
    refine ⟨?_, ?_⟩
    · intro haccepted
      exact (soundPhone_iff gettext usort harray haccepted).1 (hphone haccepted)
    · intro haccepted
      exact (soundProvider_iff gettext harray haccepted).1 (hprovider haccepted)
  · rintro ⟨hphone, hprovider⟩
    refine ⟨?_, ?_⟩
    · intro haccepted
      exact (soundPhone_iff gettext usort harray haccepted).2 (hphone haccepted)
    · intro haccepted
      exact (soundProvider_iff gettext harray haccepted).2 (hprovider haccepted)

/-- A form that is accepted as a phone and as a provider. -/
def sentAccount (secret port : String) : Val :=
  .arr [(.str "extension", .str "200"), (.str "callerid", .str "Anna"), (.str "secret", .str secret),
    (.str "name", .str "Trunk"), (.str "host", .str "sip.example.com"), (.str "port", .str port),
    (.str "username", .str "anna"), (.str "a_codecs", .str ""), (.str "v_codecs", .str ""),
    (.str "uniqid", .str "SIP-PHONE-1")]

/-- A password and a port. -/
theorem validation_sound_account :
    ((sipVerifyPhone id insertionUsort unconfigured (sentAccount "s3cret" "5060")).2 = [] ∧
      (sipVerifyProvider id (sentAccount "s3cret" "5060")).2 = []) ∧
      ValidationSound id insertionUsort unconfigured (sentAccount "s3cret" "5060") := by
  refine ⟨by decide +kernel, ?_⟩
  refine (validation_sound_iff id insertionUsort unconfigured (sentAccount "s3cret" "5060") rfl).2 ⟨?_, ?_⟩
  · intro _
    refine ⟨?_, ?_, ?_⟩
    -- nothing is assigned to by the codecs, so the other fields keep what was sent
    · intro hsome
      exact absurd rfl hsome
    · intro hsome
      exact absurd rfl hsome
    · decide
  · intro _
    refine ⟨?_, ?_, ?_, ?_, ?_⟩
    · intro hsome
      exact absurd rfl hsome
    · intro hsome
      exact absurd rfl hsome
    · intro hsome
      exact absurd rfl hsome
    · intro _
      decide
    · intro hsome
      exact absurd rfl hsome

/-- A phone without a password is accepted, and so is a provider with letters after the port. -/
theorem not_validation_sound :
    ((sipVerifyPhone id insertionUsort unconfigured (sentAccount "" "5060abc")).2 = [] ∧
      ¬ SoundPhone (sipVerifyPhone id insertionUsort unconfigured (sentAccount "" "5060abc")).1) ∧
    ((sipVerifyProvider id (sentAccount "" "5060abc")).2 = [] ∧
      ¬ SoundProvider (sipVerifyProvider id (sentAccount "" "5060abc")).1) := by
  have hphone : (sipVerifyPhone id insertionUsort unconfigured (sentAccount "" "5060abc")).2 = [] := by
    decide +kernel
  have hprovider : (sipVerifyProvider id (sentAccount "" "5060abc")).2 = [] := by decide +kernel
  refine ⟨⟨hphone, ?_⟩, hprovider, ?_⟩
  -- an empty secret is stored, and so is a port with letters behind its digits
  · intro hsound
    have hsecret := ((soundPhone_iff id insertionUsort rfl hphone).1 hsound).secret
    revert hsecret
    decide
  · intro hsound
    have hdigits := ((soundProvider_iff id rfl hprovider).1 hsound).digits rfl
    revert hdigits
    decide

end Sip
end Askozia
