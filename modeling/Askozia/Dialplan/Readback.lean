import Askozia.Asterisk.Options
import Askozia.Dialplan.Contexts
import Askozia.Dialplan.Lists

/-!
# The number voicemail reads back (`extensions.inc`)

The third argument of `Macro(main,...)` is the number that voicemail reads to a caller. It is chosen by
each generator in its own way, among the number of the provider, a pattern, the name of the extension and
the extension of a phone.

* `readback_digits_iff`: when it is a number in every extension of a context.
-/

namespace Askozia
namespace Dialplan

open Php Config Pbx Asterisk

/-! ## Arguments -/

/-- A text up to its first comma. -/
def upToComma (s : String) : String := String.ofList (s.toList.takeWhile (· != ','))

/-- The third argument of a call of the main macro. -/
def readbackArgument : Line → Option String
  | .exten _ rest =>
    if "n,Macro(main,".toList.isPrefixOf rest.toList then
      (explodeChars ',' (rest.toList.drop 13))[2]?.map String.ofList
    else none
  | _ => none

/-- Every number that is read back is made of digits. -/
def ReadsDigits (lines : List Line) : Prop :=
  ∀ line ∈ lines, ∀ a ∈ readbackArgument line, verifyIsNumericint a = true

section Arguments

variable {a b : List Line}

/-- The first piece of a text goes up to its first comma. -/
theorem head_explodeChars (s r : List Char) :
    (explodeChars ',' (s ++ ',' :: r)).head? = some (s.takeWhile (· != ',')) := by
  induction s with
  | nil =>
    rw [List.nil_append, explodeChars, if_pos rfl]
    rfl
  | cons c s ih =>
    rw [List.cons_append, explodeChars]
    by_cases hc : c = ','
    · subst hc
      rw [if_pos rfl]
      rfl
    · rw [if_neg hc, List.takeWhile_cons, if_pos (by simpa using hc)]
      cases hs : explodeChars ',' (s ++ ',' :: r) with
      | nil => exact absurd hs (explodeChars_ne_nil _ _)
      | cons p ps =>
        rw [hs] at ih
        rw [← Option.some.inj ih]
        rfl

/-- A call of the main macro has the arguments it is written with. -/
theorem readbackArgument_macroMain {dial phoneExten : String} (hdial : ',' ∉ dial.toList)
    (hphone : ',' ∉ phoneExten.toList) (exten readbacknum : String) (fromPublic : Bool) (ring : String) :
    readbackArgument (.exten exten (macroMain dial phoneExten readbacknum fromPublic ring)) =
      some (upToComma readbacknum) := by
  obtain ⟨rest, hrest⟩ : ∃ rest : List Char,
      (macroMain dial phoneExten readbacknum fromPublic ring).toList = "n,Macro(main,".toList ++
        (dial.toList ++ ',' :: (phoneExten.toList ++ ',' :: (readbacknum.toList ++ ',' :: rest))) := by
    refine ⟨(transferFlags fromPublic ++ "o," ++ ring ++ ")").toList, ?_⟩
    unfold macroMain
    simp
  have hdrop : ∀ r : List Char, ("n,Macro(main,".toList ++ r).drop 13 = r := fun _ => rfl
  rw [readbackArgument, hrest, if_pos (List.isPrefixOf_iff_prefix.2 (List.prefix_append _ _)), hdrop, explodeChars_append,
    explodeChars_of_not_mem hdial, explodeChars_append, explodeChars_of_not_mem hphone]
  have hhead := head_explodeChars readbacknum.toList rest
  rw [List.head?_eq_getElem?] at hhead
  show Option.map String.ofList (explodeChars ',' (readbacknum.toList ++ ',' :: rest))[0]? = _
  rw [hhead]
  rfl

/-- A line that does not begin with a call of the main macro reads nothing back. -/
theorem readbackArgument_other {s : String}
    (h : ∀ r, "n,Macro(main,".toList.isPrefixOf (s.toList ++ r) = false) (exten text : String) :
    readbackArgument (.exten exten (s ++ text)) = none := by
  rw [readbackArgument, String.toList_append, if_neg]
  rw [h text.toList]
  exact Bool.false_ne_true

/-- Two parts of the dialplan read back digits if both do. -/
theorem readsDigits_append : ReadsDigits (a ++ b) ↔ ReadsDigits a ∧ ReadsDigits b :=
  List.forall_mem_append

/-- So does a part for each element if each does. -/
theorem readsDigits_flatMap {α : Type} {xs : List α} {f : α → List Line} :
    ReadsDigits (xs.flatMap f) ↔ ∀ x ∈ xs, ReadsDigits (f x) := by
  unfold ReadsDigits
  simp only [List.mem_flatMap]
  exact ⟨fun h x hx line hline => h line ⟨x, hx, hline⟩,
    fun h line ⟨x, hx, hline⟩ => h x hx line hline⟩

/-- Lines read back digits one by one. -/
theorem readsDigits_cons {line : Line} :
    ReadsDigits (line :: a) ↔ (∀ x ∈ readbackArgument line, verifyIsNumericint x = true) ∧ ReadsDigits a :=
  List.forall_mem_cons

theorem readsDigits_nil : ReadsDigits [] := fun _ h => (List.not_mem_nil h).elim

/-- A line that reads nothing back does not count. -/
theorem readsDigits_of_none {line : Line} (h : readbackArgument line = none) :
    ReadsDigits (line :: a) ↔ ReadsDigits a := by
  rw [readsDigits_cons, h]
  simp

/-- Lines that are written under a condition read back digits if they do when it holds. -/
theorem readsDigits_linesIf {c : Bool} (h : ReadsDigits a) : ReadsDigits (linesIf c a) := by
  unfold linesIf
  split_ifs
  · exact h
  · exact readsDigits_nil

end Arguments

/-! ## Extensions -/

/-- The id of a phone. -/
def namesPhone (uniqid : String) : Bool :=
  strstr uniqid "SIP-PHONE" || strstr uniqid "IAX-PHONE" || strstr uniqid "ISDN-PHONE" ||
    strstr uniqid "ANALOG-PHONE" || strstr uniqid "SKINNY-PHONE" || strstr uniqid "EXTERNAL-PHONE"

/-- The extension of a phone is a number, and the form checked what it is dialled with. -/
structure Numbered (p : Val) : Prop where
  extension : verifyIsNumericint (p.get "extension").toStr = true
  dialstring : ',' ∉ (p.get "dialstring").toStr.toList
  dialprovider : ',' ∉ (p.get "dialprovider").toStr.toList

instance (p : Val) : Decidable (Numbered p) :=
  decidable_of_iff (verifyIsNumericint (p.get "extension").toStr = true ∧
    ',' ∉ (p.get "dialstring").toStr.toList ∧ ',' ∉ (p.get "dialprovider").toStr.toList)
    ⟨fun ⟨hextension, hstring, hprovider⟩ => ⟨hextension, hstring, hprovider⟩,
      fun ⟨hextension, hstring, hprovider⟩ => ⟨hextension, hstring, hprovider⟩⟩

/-- Every phone that is stored has a number, and ports and groups of ports have no comma. -/
structure NumberedConfig (g : Globals) : Prop where
  phone : ∀ u, namesPhone u = true → Numbered (pbxGetPhone g u)
  basechannel : ∀ u, ',' ∉ ((getElement g .dahdiPort u).get "basechannel").toStr.toList
  number : ∀ u, ',' ∉ ((getElement g .dahdiPortgroup u).get "number").toStr.toList

section Extensions

variable {g : Globals} {p : Val} {fromPublic : Bool} {readbacknum extension : Option String}

/-- A number has no comma. -/
theorem comma_not_mem_of_numeric {s : String} (h : verifyIsNumericint s = true) : ',' ∉ s.toList :=
  fun hmem => absurd (List.all_eq_true.1 h ',' hmem) (by decide)

/-- A text without commas is its own first piece. -/
theorem upToComma_of_not_mem {s : String} (h : ',' ∉ s.toList) : upToComma s = s := by
  have hall : s.toList.takeWhile (· != ',') = s.toList := by
    apply List.takeWhile_eq_self_iff.2
    intro c hc
    rw [bne_iff_ne]
    rintro rfl
    exact h hc
  rw [upToComma, hall, String.ofList_toList]

/-- The number of a port or a port group has none. -/
theorem comma_not_mem_gnumber (hg : NumberedConfig g) (u : String) :
    ',' ∉ (dahdiGetGnumber g u).toList := by
  unfold dahdiGetGnumber
  split_ifs
  · exact hg.basechannel u
  · exact hg.number u
  · decide

/-- Nor have two texts without any. -/
theorem comma_not_mem_append {s t : String} (hs : ',' ∉ s.toList) (ht : ',' ∉ t.toList) :
    ',' ∉ (s ++ t).toList := by
  rw [String.toList_append, List.mem_append, not_or]
  exact ⟨hs, ht⟩

/-- Setting the variables for notifications reads nothing back. -/
theorem readsDigits_callNotificationVariables (exten : String) (phone : Val) :
    ReadsDigits (generateCallNotificationVariables exten phone) := by
  have hsend := readbackArgument_other (s := "n,Set(SENDNOTIFICATIONS=") fun _ => rfl
  unfold generateCallNotificationVariables
  apply readsDigits_append.2
  constructor
  · apply readsDigits_linesIf
    rw [readsDigits_of_none rfl]
    exact readsDigits_nil
  · apply readsDigits_linesIf
    rw [readsDigits_of_none rfl, String.append_assoc, readsDigits_of_none (hsend _ _)]
    exact readsDigits_nil

/-- An internal phone's number is read back, or another one. -/
theorem readsDigits_internalPhone (hg : NumberedConfig g)
    (hp : HasTechnology p → verifyIsNumericint (p.get "extension").toStr = true) :
    ReadsDigits (generateInternalPhoneExtension g p fromPublic readbacknum extension) := by
  have hgosub := readbackArgument_other (s := "n,GosubIf($[\"") fun _ => rfl
  unfold generateInternalPhoneExtension
  dsimp only
  rw [readsDigits_append, readsDigits_append]
  refine ⟨⟨?_, readsDigits_callNotificationVariables _ _⟩, ?_⟩
  · simp only [String.append_assoc]
    rw [readsDigits_of_none rfl, readsDigits_of_none (hgosub _ _)]
    exact readsDigits_nil
  · -- the extension itself is read back where the number given is not one
    have hmain : ∀ {dial : String} (exten rb0 : String), HasTechnology p →
        (',' ∉ (p.get "extension").toStr.toList → ',' ∉ dial.toList) → ReadsDigits
        [.exten exten (macroMain dial (p.get "extension").toStr
          (if verifyIsNumericint rb0 then rb0 else (p.get "extension").toStr) fromPublic
          (ringlength p))] := by
      intro dial exten rb0 htech hdial
      have hphone := comma_not_mem_of_numeric (hp htech)
      have hnumeric : verifyIsNumericint
          (if verifyIsNumericint rb0 then rb0 else (p.get "extension").toStr) = true := by
        split_ifs with h
        · exact h
        · exact hp htech
      rw [readsDigits_cons, readbackArgument_macroMain (hdial hphone) hphone,
        upToComma_of_not_mem (comma_not_mem_of_numeric hnumeric)]
      exact ⟨by simpa using hnumeric, readsDigits_nil⟩
    have hhas : ∀ {t : Technology}, pbxUniqidToTechnology (p.get "uniqid").toStr = t →
        (∀ u, t ≠ .failed u) → HasTechnology p := by
      intro t ht hfailed u hu
      exact hfailed u (ht.symm.trans hu)
    cases htech : pbxUniqidToTechnology (p.get "uniqid").toStr with
    | sip =>
      exact hmain _ _ (hhas htech (by simp)) fun hphone => comma_not_mem_append (by decide) hphone
    | iax2 =>
      exact hmain _ _ (hhas htech (by simp)) fun hphone => comma_not_mem_append (by decide) hphone
    | skinny =>
      exact hmain _ _ (hhas htech (by simp)) fun hphone => comma_not_mem_append
        (comma_not_mem_append (comma_not_mem_append (by decide) hphone) (by decide)) hphone
    | dahdi =>
      exact hmain _ _ (hhas htech (by simp)) fun _ =>
        comma_not_mem_append (by decide) (comma_not_mem_gnumber hg _)
    | failed u =>
      dsimp only
      rw [readsDigits_of_none rfl]
      exact readsDigits_nil

/-- For an external phone the test is the wrong way round: a number is replaced by the extension, and
anything else is read back. -/
theorem readsDigits_externalPhone (hg : NumberedConfig g) (hp : Dialled p → Numbered p) :
    ReadsDigits (generateExternalPhoneExtension g p fromPublic readbacknum extension) ↔
      (Dialled p → verifyIsNumericint
        (upToComma (readbacknum.getD (extension.getD (p.get "extension").toStr))) = true) := by
  unfold generateExternalPhoneExtension
  dsimp only
  generalize readbacknum.getD (extension.getD (p.get "extension").toStr) = rb0
  generalize extension.getD (p.get "extension").toStr = exten
  rw [readsDigits_append, and_iff_right (readsDigits_callNotificationVariables _ _)]
  -- the test is inverted here: a number is replaced, anything else is read back
  have hmain : ∀ {dial : String}, Dialled p → (Numbered p → ',' ∉ dial.toList) → (ReadsDigits
      [.exten exten (macroMain dial (p.get "extension").toStr
        (if verifyIsNumericint rb0 then (p.get "extension").toStr else rb0) fromPublic (ringlength p))] ↔
      (Dialled p → verifyIsNumericint (upToComma rb0) = true)) := by
    intro dial hdialled hdial
    have hphone := comma_not_mem_of_numeric (hp hdialled).extension
    rw [readsDigits_cons, readbackArgument_macroMain (hdial (hp hdialled)) hphone,
      and_iff_left readsDigits_nil]
    simp only [hdialled, true_implies, Option.mem_some_iff, forall_eq']
    split_ifs with h
    · rw [upToComma_of_not_mem hphone, upToComma_of_not_mem (comma_not_mem_of_numeric h)]
      exact iff_of_true (hp hdialled).extension h
    · rfl
  rcases htech : externalTechnology p with ⟨tech, direct⟩
  have hdialled : (tech = .sip ∨ tech = .iax2 ∨ tech = .dahdi) → Dialled p := by
    intro h
    rw [Dialled, htech]
    exact h
  have hnot : (¬ (tech = .sip ∨ tech = .iax2 ∨ tech = .dahdi)) → ¬ Dialled p := by
    intro h hd
    rw [Dialled, htech] at hd
    exact h hd
  -- an external phone over any other technology gets no macro
  have hother : (¬ (tech = .sip ∨ tech = .iax2 ∨ tech = .dahdi)) → (ReadsDigits
      [.other "; ERROR: unmatched case in extensions_generate_external_phone_extension!"] ↔
      (Dialled p → verifyIsNumericint (upToComma rb0) = true)) := by
    intro h
    rw [readsDigits_of_none rfl]
    exact iff_of_true readsDigits_nil fun hd => absurd hd (hnot h)
  cases tech with
  | sip =>
    cases direct with
    | true =>
      exact hmain (hdialled (by simp)) fun h => comma_not_mem_append (by decide) h.dialstring
    | false =>
      exact hmain (hdialled (by simp)) fun h => comma_not_mem_append (comma_not_mem_append
        (comma_not_mem_append (by decide) h.dialprovider) (by decide)) h.dialstring
  | iax2 =>
    cases direct with
    | true =>
      exact hmain (hdialled (by simp)) fun h => comma_not_mem_append (by decide) h.dialstring
    | false =>
      exact hmain (hdialled (by simp)) fun h => comma_not_mem_append (comma_not_mem_append
        (comma_not_mem_append (by decide) h.dialprovider) (by decide)) h.dialstring
  | dahdi =>
    exact hmain (hdialled (by simp)) fun h => comma_not_mem_append (comma_not_mem_append
      (comma_not_mem_append (by decide) (comma_not_mem_gnumber hg _)) (by decide)) h.dialstring
  | skinny => exact hother (by simp)
  | failed u => exact hother (by simp)

/-! ### Call groups -/

/-- The first member of a group, whose voicemail takes the call. -/
def firstMember (group : Val) : String := ((group.get "groupmember").idx (.int 0)).toStr

/-- What a group reads back is a number: the one it is given, or the one of its first member, which has
to be a phone. -/
def GroupReads (group : Val) (readbacknum : Option String) : Prop :=
  (group.get "groupmember").isArray = true →
    match readbacknum with
    | some number => verifyIsNumericint (upToComma number) = true
    | none => namesPhone (firstMember group) = true

instance (group : Val) (readbacknum : Option String) : Decidable (GroupReads group readbacknum) :=
  match readbacknum with
  | some _ => inferInstanceAs (Decidable (_ → _ = true))
  | none => inferInstanceAs (Decidable (_ → _ = true))

/-- For anything but the id of a phone the answer is an error text. -/
theorem pbxGetPhone_of_not_names {u : String} (h : namesPhone u = false) :
    pbxGetPhone g u = .str "ERROR: unmatched uniqid in pbx_get_phone!" := by
  unfold namesPhone at h
  simp only [Bool.or_eq_false_iff] at h
  obtain ⟨⟨⟨⟨⟨hsip, hiax⟩, hisdn⟩, hanalog⟩, hskinny⟩, hexternal⟩ := h
  unfold pbxGetPhone
  simp [hsip, hiax, hisdn, hanalog, hskinny, hexternal]

/-- No technology has a comma in its name. -/
theorem comma_not_mem_technology {u : String} (h : ',' ∉ u.toList) :
    ',' ∉ (pbxUniqidToTechnology u).toStr.toList := by
  unfold pbxUniqidToTechnology
  split
  · decide
  · decide
  · decide
  · decide
  · decide
  · exact comma_not_mem_append (comma_not_mem_append (by decide) h) (by decide)

/-- The dialstring of a phone has none, as its parts were checked. -/
theorem comma_not_mem_dialstring (hg : NumberedConfig g) (u : String) :
    ',' ∉ (phoneUniqidToDialstring g u).toList := by
  cases hnames : namesPhone u with
  | true =>
    have hphone := hg.phone u hnames
    have hextension := comma_not_mem_of_numeric hphone.extension
    unfold phoneUniqidToDialstring
    dsimp only
    split_ifs
    · exact comma_not_mem_append (by decide) hextension
    · exact comma_not_mem_append (by decide) hextension
    · exact comma_not_mem_append (by decide) hextension
    · exact comma_not_mem_append (by decide) (hg.basechannel _)
    · exact comma_not_mem_append (by decide) hphone.dialstring
    · exact comma_not_mem_append (by decide) hphone.dialstring
    · exact comma_not_mem_append (comma_not_mem_append (comma_not_mem_append (by decide)
        (comma_not_mem_gnumber hg _)) (by decide)) hphone.dialstring
    · exact comma_not_mem_append (comma_not_mem_append (comma_not_mem_append (comma_not_mem_append
        (comma_not_mem_technology hphone.dialprovider) (by decide)) hphone.dialprovider) (by decide))
        hphone.dialstring
    · decide
  | false =>
    unfold namesPhone at hnames
    simp only [Bool.or_eq_false_iff] at hnames
    obtain ⟨⟨⟨⟨⟨hsip, hiax⟩, hisdn⟩, hanalog⟩, hskinny⟩, hexternal⟩ := hnames
    unfold phoneUniqidToDialstring
    simp only [hsip, hiax, hisdn, hanalog, hskinny, hexternal, Bool.or_false, Bool.false_eq_true, if_false]
    decide

/-- Joining dialstrings adds none. -/
theorem comma_not_mem_implode {xs : List String} (h : ∀ x ∈ xs, ',' ∉ x.toList) :
    ',' ∉ (implode "&" xs).toList := by
  induction xs with
  | nil => decide
  | cons x r ih =>
    have hr := ih fun y hy => h y (List.mem_cons_of_mem _ hy)
    cases r with
    | nil => exact h x List.mem_cons_self
    | cons y r =>
      rw [implode]
      · exact comma_not_mem_append (comma_not_mem_append (h x List.mem_cons_self) (by decide)) hr
      · exact List.cons_ne_nil y r

/-- A group reads back the number it is given, or that of its first member. -/
theorem readsDigits_callgroup (hg : NumberedConfig g) (group : Val) :
    ReadsDigits (generateCallgroupExtension g group fromPublic readbacknum extension) ↔
      GroupReads group readbacknum := by
  unfold generateCallgroupExtension GroupReads
  cases harray : (group.get "groupmember").isArray with
  | false => exact iff_of_true readsDigits_nil fun h => absurd h (by decide)
  | true =>
    simp only [Bool.not_true, Bool.false_eq_true, if_false, true_implies]
    rw [readsDigits_append, and_iff_right (readsDigits_callNotificationVariables _ _)]
    have hdial : ',' ∉ (phoneUniqidsToDialstring g (group.get "groupmember")).toList := by
      apply comma_not_mem_implode
      intro x hx
      obtain ⟨u, -, rfl⟩ := List.mem_map.1 hx
      exact comma_not_mem_dialstring hg _
    change ReadsDigits [.exten _ (macroMain _ ((pbxGetPhone g (firstMember group)).get "extension").toStr
      (readbacknum.getD ((pbxGetPhone g (firstMember group)).get "extension").toStr) _ _)] ↔ _
    -- the extension of the first member, or the first letter of an error
    cases hnames : namesPhone (firstMember group) with
    | true =>
      have hnumeric := (hg.phone _ hnames).extension
      have hphone := comma_not_mem_of_numeric hnumeric
      rw [readsDigits_cons, readbackArgument_macroMain hdial hphone, and_iff_left readsDigits_nil]
      simp only [Option.mem_some_iff, forall_eq']
      cases readbacknum with
      | some number => rfl
      | none =>
        rw [Option.getD_none, upToComma_of_not_mem hphone]
        exact iff_of_true hnumeric trivial
    | false =>
      have hletter : ((pbxGetPhone g (firstMember group)).get "extension").toStr = "E" := by
        rw [pbxGetPhone_of_not_names hnames]
        decide
      rw [hletter, readsDigits_cons, readbackArgument_macroMain hdial (by decide),
        and_iff_left readsDigits_nil]
      simp only [Option.mem_some_iff, forall_eq']
      cases readbacknum with
      | some number => rfl
      | none =>
        rw [Option.getD_none]
        decide

end Extensions

/-! ## Contexts -/

/-- What is read back for a destination of a provider's calls is a number. -/
def DestinationReads (g : Globals) (d : Val) (readbacknum : Option String) (exten : String) : Prop :=
  match destKind d with
  | some .externalPhone =>
    ((pbxGetPhone g d.toStr).get "disabled").isset = false → Dialled (pbxGetPhone g d.toStr) →
      verifyIsNumericint (upToComma (readbacknum.getD exten)) = true
  | some .impromptu => GroupReads (if d.isArray then impromptuGroup d else .null) readbacknum
  | some .callgroup => GroupReads (getElement g .callgroup d.toStr) readbacknum
  | _ => True

/-- The names under which calls for an entry of `$groupped_mapping` come in, and the number that is given
for each. -/
def incomingNames (p : Val) (e : Key × Val) : List (String × Option String) :=
  if is e.1.val "all" then (catchAll p).map fun c => (c, providerReadbacknum p)
  else if verifyIsNumericint e.1.toStr then [(e.1.toStr, some e.1.toStr)]
  else [("_" ++ e.1.toStr, providerReadbacknum p)]

section Contexts

variable {g : Globals} {l : Lists} {p : Val}

/-- An application reads nothing back. -/
theorem readsDigits_applicationExtension (a : Val) (extension : Option String) :
    ReadsDigits (generateApplicationExtension a extension) := by
  have hgoto := readbackArgument_other (s := "n,Goto(") fun _ => rfl
  unfold generateApplicationExtension
  simp only [String.append_assoc]
  exact (readsDigits_of_none (hgoto _ _)).2 readsDigits_nil

/-- Nor does a room. -/
theorem readsDigits_conferenceRoomExtension (r : Val) (extension : Option String) :
    ReadsDigits (generateConferenceRoomExtension r extension) := by
  have hmeetme := readbackArgument_other (s := "n,MeetMe(") fun _ => rfl
  unfold generateConferenceRoomExtension
  simp only [String.append_assoc]
  rw [readsDigits_of_none rfl, readsDigits_of_none (hmeetme _ _), readsDigits_of_none rfl]
  exact readsDigits_nil

/-- What is read back for a destination depends on its kind. -/
theorem readsDigits_fromUniqid (hg : NumberedConfig g) (d : Val) (fromPublic : Bool)
    (readbacknum : Option String) (exten : String) :
    ReadsDigits (generateExtensionFromUniqid g d fromPublic readbacknum (some exten)) ↔
      DestinationReads g d readbacknum exten := by
  have hone : ∀ {line : Line}, readbackArgument line = none → ReadsDigits [line] :=
    fun h => (readsDigits_of_none h).2 readsDigits_nil
  rw [generateExtensionFromUniqid_eq]
  unfold DestinationReads
  -- one case for each kind of destination the source tells apart
  cases hkind : destKind d with
  | none => exact iff_of_true (hone rfl) trivial
  | some kind =>
    cases kind with
    | externalPhone =>
      dsimp only
      cases hdisabled : ((pbxGetPhone g d.toStr).get "disabled").isset with
      | true => exact iff_of_true readsDigits_nil fun h => absurd h (by decide)
      -- a uniqid of no phone is looked up as null, which is dialled over nothing
      | false =>
        have hnumbered : Dialled (pbxGetPhone g d.toStr) → Numbered (pbxGetPhone g d.toStr) := by
          intro hdialled
          cases hnames : namesPhone d.toStr with
          | true => exact hg.phone _ hnames
          | false =>
            rw [pbxGetPhone_of_not_names hnames] at hdialled
            unfold Dialled at hdialled
            exact absurd hdialled (by decide)
        simp only [Bool.false_eq_true, if_false, true_implies]
        exact readsDigits_externalPhone hg hnumbered
    | phone =>
      dsimp only
      split_ifs
      · exact iff_of_true readsDigits_nil trivial
      · refine iff_of_true (readsDigits_internalPhone hg ?_) trivial
        intro htechnology
        cases hnames : namesPhone d.toStr with
        | true => exact (hg.phone _ hnames).extension
        | false =>
          rw [pbxGetPhone_of_not_names hnames] at htechnology
          exact absurd rfl (htechnology "E")
    | room => exact iff_of_true (readsDigits_conferenceRoomExtension _ _) trivial
    | virtualFax =>
      refine iff_of_true ?_ trivial
      unfold generateVirtualFaxExtension
      simp only [String.append_assoc]
      exact hone (readbackArgument_other (s := "n,Dial(Local/") (fun _ => rfl) _ _)
    | analogFax =>
      refine iff_of_true ?_ trivial
      unfold generateAnalogFaxExtension
      simp only [String.append_assoc]
      exact hone (readbackArgument_other (s := "n,Dial(DAHDI/g") (fun _ => rfl) _ _)
    | impromptu => exact readsDigits_callgroup hg _
    | callgroup =>
      simp only [Option.isNone_some, Bool.and_false, Bool.false_eq_true, if_false]
      exact readsDigits_callgroup hg _
    | application => exact iff_of_true (readsDigits_applicationExtension _ _) trivial

/-- An incoming extension reads back what its destination does. -/
theorem readsDigits_incomingExtension (hg : NumberedConfig g) (exten faxExten : String)
    (readbacknum : Option String) (d : Val) :
    ReadsDigits (incomingExtension g p exten faxExten readbacknum d) ↔
      DestinationReads g d readbacknum exten := by
  have hnoop := readbackArgument_other (s := "1,NoOp(incoming call from provider: ") fun _ => rfl
  unfold incomingExtension
  rw [readsDigits_append, readsDigits_append, readsDigits_append, readsDigits_fromUniqid hg]
  apply and_iff_right
  refine ⟨⟨?_, ?_⟩, ?_⟩
  · simp only [String.append_assoc]
    rw [readsDigits_of_none (hnoop _ _), readsDigits_of_none rfl]
    exact readsDigits_nil
  · apply readsDigits_linesIf
    rw [readsDigits_of_none rfl, readsDigits_of_none rfl]
    exact readsDigits_nil
  · have hcallerid : ∀ {fixed text : String}, (∀ r, "n,Macro(main,".toList.isPrefixOf
        (fixed.toList ++ r) = false) → ReadsDigits [.exten exten (fixed ++ text)] := by
      intro fixed text h
      rw [readsDigits_of_none (readbackArgument_other h _ _)]
      exact readsDigits_nil
    unfold generateIncomingCalleridOverrides
    simp only [String.append_assoc]
    split_ifs
    · exact hcallerid fun _ => rfl
    · exact hcallerid fun _ => rfl
    · exact hcallerid fun _ => rfl
    · exact (readsDigits_of_none rfl).2 readsDigits_nil
    · exact readsDigits_nil

/-- The context for the calls of a provider. -/
theorem readsDigits_incomingContext (hg : NumberedConfig g) (p : Val) :
    ReadsDigits (generateProviderIncomingContext g p) ↔
      ((p.get "defaultfax").truthy = true → DestinationReads g (p.get "defaultfax") none "fax") ∧
      ∀ e ∈ (grouppedMapping p).entries, ∀ n ∈ incomingNames p e,
        DestinationReads g (destinationOf e) n.2 n.1 := by
  have hnoop := readbackArgument_other (s := "1,NoOp(incoming fax from provider: ") fun _ => rfl
  have hhangup := readbackArgument_other (s := "1,NoOp(Hanging up incoming call from provider: ") fun _ => rfl
  -- each name of a mapping has lines of its own
  have hpattern : ∀ e, ReadsDigits (incomingPattern g p e) ↔ ∀ n ∈ incomingNames p e,
      DestinationReads g (destinationOf e) n.2 n.1 := by
    intro e
    rw [incomingPattern_eq]
    unfold incomingNames
    split_ifs
    · rw [readsDigits_flatMap, List.forall_mem_map]
      exact forall₂_congr fun c _ => readsDigits_incomingExtension hg _ _ _ _
    · rw [readsDigits_incomingExtension hg, List.forall_mem_singleton]
    · rw [readsDigits_incomingExtension hg, List.forall_mem_singleton]
  unfold generateProviderIncomingContext
  simp only [String.append_assoc]
  rw [readsDigits_append, readsDigits_append, readsDigits_append, readsDigits_flatMap]
  have hfirst : ReadsDigits [Line.context ((p.get "uniqid").toStr ++ "-incoming"),
      .other "include => public-direct-dial"] := by
    rw [readsDigits_of_none rfl, readsDigits_of_none rfl]
    exact readsDigits_nil
  have hlast : ReadsDigits [Line.other "; hangup logic",
      .exten "h" ("1,NoOp(Hanging up incoming call from provider: " ++ ((p.get "name").toStr ++
        (" to " ++ (var "EXTEN" ++ ")")))),
      .exten "h" "n,Macro(missedcallmail)", .other ""] := by
    rw [readsDigits_of_none rfl, readsDigits_of_none (hhangup _ _), readsDigits_of_none rfl,
      readsDigits_of_none rfl]
    exact readsDigits_nil
  rw [and_iff_left hlast, and_iff_right hfirst]
  apply and_congr
  · cases (p.get "defaultfax").truthy with
    | true =>
      simp only [if_true, true_implies]
      rw [readsDigits_of_none (hnoop _ _), readsDigits_fromUniqid hg]
    | false => exact iff_of_true readsDigits_nil fun h => absurd h (by decide)
  · exact forall₂_congr fun e _ => hpattern e

/-- Under a name of its own, or under its number, which is read back. -/
theorem readsDigits_externalPhone_none (hg : NumberedConfig g) (hp : Numbered p) (fromPublic : Bool)
    (name : Option String) :
    ReadsDigits (generateExternalPhoneExtension g p fromPublic none name) ↔
      (Dialled p → ∀ n ∈ name, verifyIsNumericint (upToComma n) = true) := by
  rw [readsDigits_externalPhone hg fun _ => hp]
  cases name with
  | none =>
    have hnumeric : verifyIsNumericint (upToComma (p.get "extension").toStr) = true := by
      rw [upToComma_of_not_mem (comma_not_mem_of_numeric hp.extension)]
      exact hp.extension
    simp [hnumeric]
  | some n => simp

/-- What can be called from outside. -/
theorem readsDigits_publicDirectDial (hg : NumberedConfig g)
    (hinternal : ∀ p ∈ l.internalPhones, verifyIsNumericint (p.get "extension").toStr = true)
    (hexternal : ∀ p ∈ l.externalPhones, Numbered p) :
    ReadsDigits (publicDirectDial g l) ↔
      (∀ p ∈ publicOnes (enabled l.externalPhones), Dialled p → ∀ name ∈ publicname p,
        verifyIsNumericint (upToComma name) = true) ∧
      ∀ cg ∈ publicOnes (withExtension l.callgroups), GroupReads cg none := by
  -- the two lines before each destination have no macro in them
  have hhead : ∀ {comment exten fixed text : String} {lines : List Line},
      (∀ r, "n,Macro(main,".toList.isPrefixOf (fixed.toList ++ r) = false) →
      (ReadsDigits ([.other comment, .exten exten (fixed ++ text)] ++ lines) ↔ ReadsDigits lines) := by
    intro comment exten fixed text lines h
    rw [List.cons_append, List.cons_append, List.nil_append, readsDigits_of_none rfl,
      readsDigits_of_none (readbackArgument_other h _ _)]
  have hphones : ∀ p ∈ publicOnes (enabled l.internalPhones), ReadsDigits (publicInternalPhone g p) := by
    intro p hp
    have hnumeric := hinternal p (List.mem_filter.1 (List.mem_filter.1 hp).1).1
    have hmark := readbackArgument_other (s := "n,Set(_PICKUPMARK=") fun _ => rfl
    have hlines : ∀ (exten : String) (extension : Option String), ReadsDigits
        ([.exten exten ("1,NoOp(public calling internal phone: " ++ (phoneLabel p ++ ")")),
          .exten (p.get "extension").toStr ("n,Set(_PICKUPMARK=" ++ ((p.get "extension").toStr ++ ")"))] ++
          generateInternalPhoneExtension g p true none extension) := by
      intro exten extension
      rw [List.cons_append, List.cons_append, List.nil_append,
        readsDigits_of_none (readbackArgument_other (fun _ => rfl) _ _), readsDigits_of_none (hmark _ _)]
      exact readsDigits_internalPhone hg fun _ => hnumeric
    unfold publicInternalPhone
    simp only [String.append_assoc]
    rw [readsDigits_of_none rfl]
    split
    · exact hlines _ none
    · exact hlines _ (some _)
  have hexternals : ∀ p ∈ publicOnes (enabled l.externalPhones), (ReadsDigits (publicExternalPhone g p) ↔
      (Dialled p → ∀ name ∈ publicname p, verifyIsNumericint (upToComma name) = true)) := by
    intro p hp
    have hnumbered := hexternal p (List.mem_filter.1 (List.mem_filter.1 hp).1).1
    unfold publicExternalPhone
    simp only [String.append_assoc]
    rw [hhead fun _ => rfl]
    exact readsDigits_externalPhone_none hg hnumbered true _
  have hgroups : ∀ cg, ReadsDigits (publicCallgroup g cg) ↔ GroupReads cg none := by
    intro cg
    unfold publicCallgroup
    simp only [String.append_assoc]
    rw [hhead fun _ => rfl]
    exact readsDigits_callgroup hg cg
  have happlications : ∀ a, ReadsDigits (publicApplication a) := by
    intro a
    unfold publicApplication
    simp only [String.append_assoc]
    rw [hhead fun _ => rfl]
    exact readsDigits_applicationExtension _ _
  have hrooms : ∀ r, ReadsDigits (publicConferenceRoom r) := by
    intro r
    unfold publicConferenceRoom
    simp only [String.append_assoc]
    rw [hhead fun _ => rfl]
    exact readsDigits_conferenceRoomExtension _ _
  unfold publicDirectDial
  simp only [readsDigits_append, readsDigits_flatMap]
  constructor
  · rintro ⟨⟨⟨⟨⟨-, hexternal⟩, hgroup⟩, -⟩, -⟩, -⟩
    exact ⟨fun p hp => (hexternals p hp).1 (hexternal p hp), fun cg hcg => (hgroups cg).1 (hgroup cg hcg)⟩
  · rintro ⟨hexternal, hgroup⟩
    exact ⟨⟨⟨⟨⟨⟨(readsDigits_of_none rfl).2 readsDigits_nil, hphones⟩,
      fun p hp => (hexternals p hp).2 (hexternal p hp)⟩, fun cg hcg => (hgroups cg).2 (hgroup cg hcg)⟩,
      fun a _ => happlications a⟩, fun r _ => hrooms r⟩, (readsDigits_of_none rfl).2 readsDigits_nil⟩

/-- What can be called from inside. -/
theorem readsDigits_internalContext (hg : NumberedConfig g)
    (hinternal : ∀ p ∈ l.internalPhones, verifyIsNumericint (p.get "extension").toStr = true)
    (hexternal : ∀ p ∈ l.externalPhones, Numbered p) :
    ReadsDigits (internalContext g l) ↔ ∀ cg ∈ withExtension l.callgroups, GroupReads cg none := by
  -- the two lines before each destination have no macro in them
  have hhead : ∀ {comment exten what : String} {lines : List Line},
      ReadsDigits (internalHead comment exten what ++ lines) ↔ ReadsDigits lines := by
    intro comment exten what lines
    unfold internalHead
    rw [List.cons_append, List.cons_append, List.nil_append, readsDigits_of_none rfl,
      String.append_assoc, readsDigits_of_none (readbackArgument_other (fun _ => rfl) _ _)]
  have hphones : ∀ p ∈ enabled l.internalPhones, ReadsDigits (internalInternalPhone g p) := by
    intro p hp
    exact hhead.2 (readsDigits_internalPhone hg fun _ => hinternal p (List.mem_filter.1 hp).1)
  have hexternals : ∀ p ∈ enabled l.externalPhones, ReadsDigits (internalExternalPhone g p) := by
    intro p hp
    apply hhead.2
    rw [readsDigits_externalPhone_none hg (hexternal p (List.mem_filter.1 hp).1)]
    -- in the internal context there is no public name
    intro _ n hn
    cases hn
  have hgroups : ∀ cg, ReadsDigits (internalCallgroup g cg) ↔ GroupReads cg none :=
    fun cg => hhead.trans (readsDigits_callgroup hg cg)
  have hvirtual : ∀ f, ReadsDigits (internalVirtualFax f) := by
    intro f
    apply hhead.2
    unfold generateVirtualFaxExtension
    simp only [String.append_assoc]
    exact (readsDigits_of_none (readbackArgument_other (fun _ => rfl) _ _)).2 readsDigits_nil
  have hanalog : ∀ f, ReadsDigits (internalAnalogFax g f) := by
    intro f
    apply hhead.2
    unfold generateAnalogFaxExtension
    simp only [String.append_assoc]
    exact (readsDigits_of_none (readbackArgument_other (fun _ => rfl) _ _)).2 readsDigits_nil
  have hparking : ReadsDigits (generateParkinglot g) := by
    unfold generateParkinglot
    simp only [String.append_assoc]
    rw [readsDigits_of_none rfl, readsDigits_flatMap]
    intro i _
    rw [readsDigits_of_none (readbackArgument_other (fun _ => rfl) _ _),
      readsDigits_of_none (readbackArgument_other (fun _ => rfl) _ _)]
    exact readsDigits_nil
  have hhints : ReadsDigits (generateHints l.sipPhones) := by
    unfold generateHints
    rw [readsDigits_append]
    refine ⟨?_, (readsDigits_of_none rfl).2 readsDigits_nil⟩
    intro line hline
    obtain ⟨p, -, rfl⟩ := List.mem_map.1 hline
    rw [readbackArgument_other fun _ => rfl]
    simp
  have hend : ReadsDigits [Line.other "", .other "; hangup logic",
      .exten "h" "1,NoOp(Entering the internal context hangup extension)",
      .exten "h" "n,Macro(missedcallmail)", .other ""] := by
    rw [readsDigits_of_none rfl, readsDigits_of_none rfl, readsDigits_of_none rfl,
      readsDigits_of_none rfl, readsDigits_of_none rfl]
    exact readsDigits_nil
  have hcomment : ∀ text, ReadsDigits [.other text] := fun text =>
    (readsDigits_of_none rfl).2 readsDigits_nil
  unfold internalContext
  simp only [readsDigits_append, readsDigits_flatMap]
  constructor
  · rintro ⟨⟨⟨⟨⟨⟨⟨⟨⟨⟨-, hgroup⟩, -⟩, -⟩, -⟩, -⟩, -⟩, -⟩, -⟩, -⟩, -⟩
    exact fun cg hcg => (hgroups cg).1 (hgroup cg hcg)
  · intro hgroup
    exact ⟨⟨⟨⟨⟨⟨⟨⟨⟨⟨⟨⟨(readsDigits_of_none rfl).2 readsDigits_nil, hphones⟩, hexternals⟩,
      fun cg hcg => (hgroups cg).2 (hgroup cg hcg)⟩,
      fun a _ => hhead.2 (readsDigits_applicationExtension _ _)⟩,
      fun r _ => hhead.2 (readsDigits_conferenceRoomExtension _ _)⟩, fun f _ => hvirtual f⟩,
      fun f _ => hanalog f⟩, hcomment _⟩, hparking⟩, hcomment _⟩, hhints⟩, hend⟩

/-- Where the number that is read back is made of digits. From outside: where an external phone that has
a name there has one of digits, and the first member of a group is a phone. From inside: where the first
member of a group is a phone. For the calls of a provider: where the number given, or else the name of the
extension for an external phone, is made of digits, or the first member of a group is a phone. -/
theorem readback_digits_iff (hg : NumberedConfig g)
    (hinternal : ∀ p ∈ l.internalPhones, verifyIsNumericint (p.get "extension").toStr = true)
    (hexternal : ∀ p ∈ l.externalPhones, Numbered p) (p : Val) :
    (ReadsDigits (publicDirectDial g l) ↔
      (∀ p ∈ publicOnes (enabled l.externalPhones), Dialled p → ∀ name ∈ publicname p,
        verifyIsNumericint (upToComma name) = true) ∧
      ∀ cg ∈ publicOnes (withExtension l.callgroups), GroupReads cg none) ∧
    (ReadsDigits (internalContext g l) ↔ ∀ cg ∈ withExtension l.callgroups, GroupReads cg none) ∧
    (ReadsDigits (generateProviderIncomingContext g p) ↔
      ((p.get "defaultfax").truthy = true → DestinationReads g (p.get "defaultfax") none "fax") ∧
      ∀ e ∈ (grouppedMapping p).entries, ∀ n ∈ incomingNames p e,
        DestinationReads g (destinationOf e) n.2 n.1) :=
  ⟨readsDigits_publicDirectDial hg hinternal hexternal,
    readsDigits_internalContext hg hinternal hexternal, readsDigits_incomingContext hg p⟩

end Contexts

/-! ## Look-ups in a configuration -/

section Lookups

variable {g : Globals}

/-- What is looked up is an element of the list, or nothing. -/
theorem getElement_cases (h : ProperLists g.config) (k : Kind) (u : String) :
    getElement g k u ∈ elements g.config k ∨ getElement g k u = .null ∨ getElement g k u = .str "" := by
  unfold getElement elements
  generalize (g.uniqidMap.idx (Val.str u).key).key = key
  rcases h k with hk | hk | hk
  · rw [hk]
    exact .inr (.inl rfl)
  · rw [hk]
    cases key with
    | int i => exact .inr (.inr rfl)
    | str s => exact .inr (.inr rfl)
  · cases hlist : listOf g.config k with
    | arr es =>
      rw [Val.idx_arr]
      cases hlookup : es.lookup key with
      | none => exact .inr (.inl rfl)
      | some x => exact .inl (List.mem_map_of_mem (Val.mem_of_lookup hlookup))
    | _ =>
      rw [hlist] at hk
      cases hk

/-- A field that is checked in every element of a list is checked wherever the list is looked up. -/
theorem checked_getElement (h : ProperLists g.config) {k : Kind} {P : Val → Prop} (hnull : P .null)
    (hempty : P (.str "")) (hall : ∀ e ∈ elements g.config k, P e) (u : String) : P (getElement g k u) := by
  rcases getElement_cases h k u with hmem | hnone | hnone
  · exact hall _ hmem
  · rw [hnone]
    exact hnull
  · rw [hnone]
    exact hempty

/-- The lists of a configuration decide what is looked up in them. -/
theorem numberedConfig_of_elements (h : ProperLists g.config)
    (hphones : ∀ t, ∀ p ∈ elements g.config (.phone t), Numbered p)
    (hexternal : ∀ p ∈ elements g.config .externalPhone, Numbered p)
    (hports : ∀ p ∈ elements g.config .dahdiPort, ',' ∉ (p.get "basechannel").toStr.toList)
    (hgroups : ∀ p ∈ elements g.config .dahdiPortgroup, ',' ∉ (p.get "number").toStr.toList) :
    NumberedConfig g := by
  have hnull : Numbered .null := ⟨by decide, by decide, by decide⟩
  have hempty : Numbered (.str "") := ⟨by decide, by decide, by decide⟩
  refine ⟨fun u hnames => ?_, ?_, ?_⟩
  · unfold namesPhone at hnames
    unfold pbxGetPhone
    split_ifs with h₁ h₂ h₃ h₄ h₅ h₆
    · exact checked_getElement h hnull hempty (hphones .sip) u
    · exact checked_getElement h hnull hempty (hphones .iax) u
    · exact checked_getElement h hnull hempty (hphones .isdn) u
    · exact checked_getElement h hnull hempty (hphones .analog) u
    · exact checked_getElement h hnull hempty (hphones .skinny) u
    · exact checked_getElement h hnull hempty hexternal u
    · simp only [h₁, h₂, h₃, h₄, h₅, h₆, Bool.or_false] at hnames
      exact absurd hnames Bool.false_ne_true
  · exact checked_getElement h (by decide) (by decide) hports
  · exact checked_getElement h (by decide) (by decide) hgroups

end Lookups

/-- A provider that calls a group for its own number and an external phone for another. -/
def landline : Val :=
  .arr [(.str "uniqid", .str "SIP-PROVIDER-1"), (.str "username", .str "carrier"),
    (.str "incomingextensionmap", .ofList
      [.arr [(.str "destinationid", .str "CALLGROUP-PARALLEL-1")],
        .arr [(.str "incomingpattern", .str "100"), (.str "destinationid", .str "EXTERNAL-PHONE-1")]])]

/-- Phones, a group and a provider. -/
def switchboard : Val :=
  .arr [
    (.str "sip", .arr [
      (.str "phone", .ofList [.arr [(.str "uniqid", .str "SIP-PHONE-1"), (.str "extension", .str "101")]]),
      (.str "provider", .ofList [landline])]),
    (.str "external", .arr [(.str "phone", .ofList [.arr [(.str "uniqid", .str "EXTERNAL-PHONE-1"),
      (.str "extension", .str "201"), (.str "dialprovider", .str "sipuri"), (.str "dialstring", .str "office"),
      (.str "publicaccess", .str "enabled"), (.str "publicname", .str "sales")]])]),
    (.str "dialplan", .arr [(.str "callgroup", .ofList [.arr [(.str "uniqid", .str "CALLGROUP-PARALLEL-1"),
      (.str "extension", .str "301"), (.str "groupmember", .ofList [.str "SIP-PHONE-1"])]])])]

/-- The lists of the switchboard, and the configuration they leave. -/
def desk : Lists × Globals :=
  fetchLists insertionUsort { config := switchboard, uniqidMap := configBuildUniqidMap switchboard }

/-- Every phone of the switchboard has a number. -/
theorem numberedConfig_switchboard : NumberedConfig desk.2 := by
  have hproper : ∀ k ∈ Kind.all, listOf switchboard k = .null ∨ listOf switchboard k = .str "" ∨
      listOf switchboard k = Val.ofList (listOf switchboard k).vals := by decide
  have hfetched : Rearranged { config := switchboard, uniqidMap := configBuildUniqidMap switchboard }
      desk.2 := rearranged_fetchLists insertionUsort fun k => hproper k k.mem_all
  have hphones : ∀ t ∈ technologies, ∀ p ∈ elements switchboard (.phone t), Numbered p := by decide
  have hexternal : ∀ p ∈ elements switchboard .externalPhone, Numbered p := by decide
  have hports : elements switchboard .dahdiPort = [] := rfl
  have hgroups : elements switchboard .dahdiPortgroup = [] := rfl
  refine numberedConfig_of_elements hfetched.lists (fun t p hp => ?_) (fun p hp => ?_) (fun p hp => ?_)
    fun p hp => ?_
  · exact hphones t (by cases t <;> decide) p ((hfetched.mem _).1 hp)
  · exact hexternal p ((hfetched.mem _).1 hp)
  · rw [hfetched.mem, hports] at hp
    cases hp
  · rw [hfetched.mem, hgroups] at hp
    cases hp

/-- From outside "sales" is read back. From inside, and for the provider's calls, it is always a number. -/
theorem readback_digits_switchboard :
    ¬ ReadsDigits (publicDirectDial desk.2 desk.1) ∧
      ReadsDigits (internalContext desk.2 desk.1) ∧
      ReadsDigits (generateProviderIncomingContext desk.2 landline) := by
  have hinternals : ∀ p ∈ desk.1.internalPhones, verifyIsNumericint (p.get "extension").toStr = true := by
    decide
  have hexternals : ∀ p ∈ desk.1.externalPhones, Numbered p := by decide
  obtain ⟨hpublic, hinternal, hincoming⟩ :=
    readback_digits_iff numberedConfig_switchboard hinternals hexternals landline
  have hentries : ∀ e ∈ (grouppedMapping landline).entries,
      destinationOf e = .str "CALLGROUP-PARALLEL-1" ∧ (∀ n ∈ incomingNames landline e, n.2 = none) ∨
        destinationOf e = .str "EXTERNAL-PHONE-1" ∧
          ∀ n ∈ incomingNames landline e, n.2 = some "100" := by decide
  refine ⟨fun h => ?_, hinternal.2 (by decide), hincoming.2 ⟨fun hfax => ?_, fun e he n hn => ?_⟩⟩
  · -- the public name of an external phone is a word
    have hsales : ¬ ∀ p ∈ publicOnes (enabled desk.1.externalPhones), Dialled p →
        ∀ name ∈ publicname p, verifyIsNumericint (upToComma name) = true := by decide
    exact hsales (hpublic.1 h).1
  · exact absurd hfax (by decide)
  · rcases hentries e he with ⟨hd, hnumber⟩ | ⟨hd, hnumber⟩
    · rw [hd, hnumber n hn]
      exact show GroupReads (getElement desk.2 .callgroup "CALLGROUP-PARALLEL-1") none by decide
    · rw [hd, hnumber n hn]
      have hnumeric : verifyIsNumericint (upToComma "100") = true := by decide
      exact fun _ _ => hnumeric

/-- The name an external phone has outside is read back. -/
theorem not_readback_digits :
    .exten "sales" "n,Macro(main,SIP/office,201,sales,to,)" ∈ publicDirectDial desk.2 desk.1 ∧
    readbackArgument (.exten "sales" "n,Macro(main,SIP/office,201,sales,to,)") = some "sales" ∧
    verifyIsNumericint "sales" = false := by
  decide

end Dialplan
end Askozia
