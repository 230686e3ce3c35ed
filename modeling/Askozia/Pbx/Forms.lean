import Askozia.Pbx.Saving

/-!
# Forms for phones, faxes and applications (`verify.inc`, `sip.inc`, `analog.inc`, `applications.inc`)

Everything that can be dialled has an extension, and `pbx_get_extensions` lists them all. The forms
of phones and faxes check that an extension is a number, the one of applications that it is a pattern
and not in use.

* `dialled_sip`, `dialled_analog`, `dialled_fax`, `dialled_application`: what an accepted element has
  of its form.
-/

namespace Askozia
namespace Pbx

open Php Config

/-! ## Extensions -/

/-- The body of `sip_get_extensions`, `conferencing_get_extensions` and their siblings:
`$extensions[$e['uniqid']] = $e[$field];` for every element. -/
def getExtensions (field : String) (k : Kind) (config : Val) : Val :=
  (elements config k).foldl (fun extensions e => extensions.set (e.get "uniqid").key (e.get field)) (.arr [])

/-- `array_merge(...)`: words are kept as keys, numbers are given anew. -/
def arrayMerge (arrays : List Val) : Val :=
  (arrays.flatMap Val.entries).foldl (fun merged e =>
    match e.1 with
    | .str s => merged.set (.str s) e.2
    | .int _ => merged.push e.2) (.arr [])

/-- `conferencing_get_extensions()` -/
def conferencingGetExtensions : Val → Val := getExtensions "number" .room

/-- `fax_get_extensions()` -/
def faxGetExtensions (config : Val) : Val :=
  (elements config (.fax .analog) ++ elements config (.fax .virtual)).foldl
    (fun extensions e => extensions.set (e.get "uniqid").key (e.get "extension")) (.arr [])

/-- `pbx_get_extensions()` -/
def pbxGetExtensions (config : Val) : Val :=
  arrayMerge [getExtensions "extension" (.phone .sip) config,
    getExtensions "extension" (.phone .iax) config, getExtensions "extension" (.phone .isdn) config,
    getExtensions "extension" (.phone .analog) config, getExtensions "extension" (.phone .skinny) config,
    conferencingGetExtensions config, getExtensions "extension" .externalPhone config,
    getExtensions "extension" .callgroup config, getExtensions "extension" .application config,
    faxGetExtensions config]

/-- `array_search($needle, $haystack)`: the key, if there is one. -/
def arraySearch (needle haystack : Val) : Option Key :=
  (haystack.entries.find? fun e => e.2.looseEq needle).map Prod.fst

/-! ## Fields -/

/-- `[...]+`, on the whole text. -/
def isAllOf (allowed : List Char) (s : List Char) : Bool := !s.isEmpty && s.all (allowed.contains ·)

/-- `r{2,6}` -/
def regexTwoToSix (r : RegularExpression Char) : RegularExpression Char :=
  r * r * (1 + r * (1 + r * (1 + r * (1 + r))))

/-- The expression of `v_is_email`. -/
def emailRegex : RegularExpression Char :=
  let word := regexPlus (alphanumerics + regexClass "._%-".toList)
  let letters := regexClass "abcdefghijklmnopqrstuvwxyzABCDEFGHIJKLMNOPQRSTUVWXYZ".toList
  word * .char '@' * word * .char '.' * regexTwoToSix letters

/-- `v_is_email($s)` -/
def vIsEmail (s : Val) : Bool := emailRegex.rmatch s.toStr.toList

/-- `v_is_pin($s)` -/
def vIsPin (s : Val) : Bool :=
  s.toStr.toList.all Char.isDigit && 4 ≤ s.toStr.toList.length && s.toStr.toList.length ≤ 10

/-- The characters of a public name. -/
def publicnameChars : List Char :=
  "abcdefghijklmnopqrstuvwxyzABCDEFGHIJKLMNOPQRSTUVWXYZ0123456789-().".toList

/-- `v_is_publicname($s)` -/
def vIsPublicname (s : Val) : Bool :=
  !strlen s || pregMatchLine (isAllOf publicnameChars) s.toStr.toList

/-- The characters of an extension. -/
def extensionChars : List Char := "XNZ0123456789-[].!*#".toList

/-- The loop over brackets of `v_extensionpattern`: the rest of the pattern, the position, and where a
bracket is open. -/
def extensionBracketError : List Char → ℕ → Option ℕ → Option String
  -- a bracket that is still open at the end is not noticed
  | [], _, _ => none
  | c :: r, i, isOpen =>
    if c = '[' then
      match isOpen with
      | some _ => some "Nested square brackets are not allowed in an extension"
      | none => extensionBracketError r (i + 1) (some i)
    else if c = ']' then
      match isOpen with
      | none => some "Unmatched square bracket."
      | some openIndex =>
        if i - openIndex < 3 then
          some "Brackets are not needed for less than 2 characters in an extension."
        else extensionBracketError r (i + 1) none
    else extensionBracketError r (i + 1) isOpen

/-- The prefix of an extension that is removed has a wildcard. -/
def extensionChoppedError (s : List Char) : Option String :=
  match strposChars ['|'] s with
  | none => none
  | some pipe =>
    if (s.take pipe).contains '.' then
      some ("The wildcard character \".\" is not allowed in an extension before a prefix which is to " ++
        "be removed.")
    else if (s.take pipe).contains '!' then
      some ("The wildcard character \"!\" is not allowed in an extension before a prefix which is to " ++
        "be removed.")
    else none

/-- What is wrong with an extension as a pattern. -/
def extensionPatternError (dialpattern : String) : Option String :=
  let s := dialpattern.toList
  if !pregMatchLine (isAllOf extensionChars) s then some "Extension contains an invalid character"
  else if substrCount s '|' > 1 then
    some "Extension contains a doubled \"|\" character, only one is allowed."
  else if substrCount s '+' > 1 then
    some "Extension contains a doubled \"+\" character, only one is allowed."
  else if substrCount s '-' > 1 then
    some "Extension contains a doubled \"-\" character, only one is allowed."
  else
    match extensionBracketError s 0 none with
    | some error => some error
    | none =>
      match strposChars ['+'] s with
      | some plus =>
        if !hasPrefixDigits s then
          some "Appended prefixes in extensions may only contain digits, '*' and '#'."
        else extensionChoppedError (s.drop (plus + 1))
      | none => extensionChoppedError s

section Fields

variable (gettext : String → String)

/-- `v_extension(...)` -/
def vExtension (f : Form) : Form :=
  let extension := f.post.get "extension"
  ((f.failIf (!strlen extension) (gettext "Missing extension number.")).failIf
    (strlen extension && extension.toStr.toList.any (!·.isDigit))
    (gettext "Invalid extension number. Use only numerals.")).put "extension" extension

/-- `v_extensionpattern(...)` -/
def vExtensionpattern (config : Val) (f : Form) : Form :=
  let extension := f.post.get "extension"
  let f := f.put "extension" extension
  if !strlen extension then f.fail (gettext "Missing extension.")
  else
    -- the first element with an equal extension decides
    let taken := arraySearch extension (pbxGetExtensions config)
    if taken.any fun key => !key.val.looseEq (f.post.get "uniqid") then
      f.fail (gettext "Extension already in use, please choose another.")
    else
      match extensionPatternError extension.toStr with
      | some error => f.fail (gettext error)
      | none => f

/-- `v_callerid(...)` -/
def vCallerid (f : Form) : Form :=
  (f.failIf (!strlen (f.post.get "callerid")) (gettext "Missing caller id.")).put "callerid"
    (f.post.get "callerid")

/-- `v_optional($field, ...)` -/
def vOptional (field : String) (f : Form) : Form := f.put field (vStrip (f.post.get field))

/-- `$post[$field] == 'enabled'` -/
def isEnabled (field : String) (f : Form) : Bool := (f.post.get field).looseEq (.str "enabled")

/-- `v_public_access_editor(...)` -/
def vPublicAccessEditor (f : Form) : Form :=
  let f := f.failIf (isEnabled "publicaccess" f && !vIsPublicname (f.post.get "publicname"))
    (gettext "Invalid public access alias.")
  vOptional "publicname" (vOptional "publicaccess" f)

/-- `v_notifications_editor(...)` -/
def vNotificationsEditor (f : Form) : Form :=
  let f := f.failIf (isEnabled "emailcallnotify" f && !vIsEmail (f.post.get "emailcallnotifyaddress"))
    (gettext "E-Mail notifications enabled but the e-mail address is invalid or missing.")
  vOptional "emailcallnotifyaddress" (vOptional "emailcallnotify" f)

/-- `v_voicemail_editor(...)` -/
def vVoicemailEditor (f : Form) : Form :=
  let f := f.failIf (isEnabled "vmtoemail" f && !vIsEmail (f.post.get "vmtoemailaddress"))
    (gettext "Voicemail is enabled but the e-mail address is invalid or missing.")
  let f := f.failIf (isEnabled "vmtoemail" f && !vIsPin (f.post.get "vmpin"))
    (gettext "The Voicemail PIN requires more than three digits.")
  vOptional "vmpin" (vOptional "vmtoemailaddress" (vOptional "vmtoemail" f))

/-- `v_provider_access_selector(...)`. The empty lists that listing the providers creates are not
written. -/
def vProviderAccessSelector (usort : Usort) (g : Globals) (f : Form) : Form :=
  (pbxGetProviders usort g).1.foldl (fun f provider =>
    if (f.post.idx (provider.get "uniqid").key).looseEq (.bool true) then
      f.put "provider" ((f.element.get "provider").push (provider.get "uniqid"))
    else f) f

/-- `v_outgoing_callerid_map(...)` -/
def vOutgoingCalleridMap (g : Globals) (f : Form) : Form :=
  let maps := f.post.entries.filterMap fun e =>
    if strstr e.1.toStr "outgoingcalleridmap_" && strlen e.2 then
      some (.arr [(.str "provideruniqid", .str ((explode '_' e.1.toStr)[1]?.getD "")),
        (.str "cidstring", e.2)])
    else none
  let f := maps.foldl (fun f map => f.failIf (!pbxIsValidCalleridString (map.get "cidstring").toStr)
    (sprintf (gettext "The outgoing Caller ID specified for \"%s\" is invalid.")
      [((pbxGetProvider g (map.get "provideruniqid").toStr).get "name").toStr])) f
  let stored := vStrip (.ofList maps)
  (f.put "outgoingcalleridmap" stored).repost "outgoingcalleridmap" stored

/-- `v_password(...)`: what is missing goes into a variable of its own. -/
def vPassword (f : Form) : Form := f.put "secret" (f.post.get "secret")

end Fields

/-! ## Application logic -/

/-- `str_replace("\r\n", "\n", $s)` -/
def unixLines : List Char → List Char
  | '\r' :: '\n' :: r => '\n' :: unixLines r
  | c :: r => c :: unixLines r
  | [] => []

/-- `[A-Za-z]{2,}` at the start: the word, and what is after it. -/
def wordOf (s : List Char) : Option (List Char × List Char) :=
  let word := s.takeWhile Char.isAlpha
  if 2 ≤ word.length then some (word, s.drop word.length) else none

/-- The priority of a line, and what is after it: a number, or one of four letters. -/
def priorityOf (s : List Char) : Option (List Char × List Char) :=
  let digits := s.takeWhile Char.isDigit
  if digits ≠ [] then some (digits, s.drop digits.length)
  else
    match s with
    | c :: r => if "nish".toList.contains c.toLower then some ([c], r) else none
    | [] => none

/-- What is after a label, if there is one; a bracket that opens no label is no match. -/
def afterLabel : List Char → Option (List Char)
  | '(' :: r =>
    match wordOf r with
    | some (_, ')' :: r) => some r
    | _ => none
  | r => some r

/-- A command with its arguments, up to the last bracket. -/
def commandOf (s : List Char) : Option (List Char) :=
  match wordOf s with
  | some (name, '(' :: r) =>
    if r.contains ')' then
      some (name ++ '(' :: (r.reverse.dropWhile fun c => c != ')').reverse)
    else none
  | _ => none

/-- The rule of a line: its priority and its command. -/
def ruleOf (line : List Char) : Option (List Char × List Char) := do
  let (priority, r) ← priorityOf line
  let r ← afterLabel r
  match r with
  | ',' :: r => return (priority, ← commandOf r)
  | _ => none

/-- The counters and the stack of `verify_match_parentheses`. -/
structure Brackets where
  rcounter : ℤ
  scounter : ℤ
  ccounter : ℤ
  backtrace : List Char

/-- A bracket that opens. -/
def Brackets.opened (b : Brackets) (c : Char) : Brackets := { b with backtrace := c :: b.backtrace }

/-- A bracket that closes: nothing if the last one open is another one. -/
def Brackets.closed (b : Brackets) (c : Char) : Option Brackets :=
  match b.backtrace with
  | [] => some b
  | top :: r => if top = c then some { b with backtrace := r } else none

/-- One character of a command; nothing if the loop ends here. -/
def Brackets.next (b : Brackets) (c : Char) : Option Brackets :=
  let after := match c with
    | '(' => some ({ b with rcounter := b.rcounter + 1 }.opened c)
    | ')' => { b with rcounter := b.rcounter - 1 }.closed '('
    | '[' => some ({ b with scounter := b.scounter + 1 }.opened c)
    | ']' => { b with scounter := b.scounter - 1 }.closed '['
    | '\x7b' => some ({ b with ccounter := b.ccounter + 1 }.opened c)
    | '\x7d' => { b with ccounter := b.ccounter - 1 }.closed '\x7b'
    | _ => some b
  after.filter fun b => 0 ≤ b.rcounter && 0 ≤ b.scounter && 0 ≤ b.ccounter

/-- `verify_match_parentheses($string)`, from a position on: where it goes wrong, if it does. -/
def verifyMatchParentheses : List Char → ℕ → Brackets → Option ℕ
  | [], i, b => if b.rcounter = 0 ∧ b.scounter = 0 ∧ b.ccounter = 0 then none else some (i + 1)
  | c :: r, i, b =>
    match b.next c with
    | some b => verifyMatchParentheses r (i + 1) b
    | none => some (i + 1)

/-- One line of an application: the errors so far, and `$app_index`. -/
def checkLine (s : List String × ℕ) (l : String × ℕ) : List String × ℕ :=
  let line := l.1.toList
  let number := toString (l.2 + 1)
  let index := s.2 + 1
  -- an include has no number
  if Dialplan.isInclude l.1 then s
  else
    match ruleOf line with
    | none => (s.1 ++ ["Line " ++ number ++ " -> Invalid syntax (missing parenthesis, commas...)."], index)
    | some (priority, command) =>
      let mismatch := match verifyMatchParentheses command 0 ⟨0, 0, 0, []⟩ with
        | some position => ["Line " ++ number ++
            " -> Parenthesis mismatch in the dialplan command before position " ++ toString position]
        | none => []
      let numbering :=
        if priority = ['n'] then
          -- `n` needs a step before it
          if index = 1 then
            ["Line " ++ number ++ " -> Wrong numbering, first priority must always be 1!"]
          else []
        else if (Val.str (String.ofList priority)).looseEq (.int index) then []
        else ["Line " ++ number ++ " -> Incorrect priority number (expected " ++ toString index ++
          ", found " ++ String.ofList priority ++ ")."]
      (s.1 ++ mismatch ++ numbering, index)

/-- The errors of the lines of an application. -/
def checkLines (lines : List String) : List String := (lines.zipIdx.foldl checkLine ([], 0)).1

/-- `v_applicationlogic(...)`, given what `phpparsecheck.sh` says of a script. -/
def vApplicationlogic (phpparsecheck : String → Option String) (f : Form) : Form :=
  let code := unixLines (f.post.get "code").toStr.toList
  let type := f.post.get "type"
  let lines := (pieces (fun c => c == '\n') code).map fun l => trim (String.ofList l) " "
  let s : String × List String :=
    if type.looseEq (.str "php") then
      (String.ofList code, (phpparsecheck (String.ofList code)).toList)
    else if type.looseEq (.str "plaintext") then (implode "\n" lines, checkLines lines)
    else (String.ofList code, [])
  let f := s.2.foldl Form.fail f
  let stored := .str (base64Encode s.1)
  (f.put "applicationlogic" stored).repost "applicationlogic" stored

/-! ## The forms -/

section Verify

variable (gettext : String → String) (usort : Usort)
  (phpparsecheck : String → Option String)

/-- `analog_verify_phone($post, $errors)`: the phone, and what is wrong. -/
def analogVerifyPhone (g : Globals) (post : Val) : Val × List String :=
  let f : Form := { element := .arr [], post := post, errors := [] }
  let f := vCleanliness gettext f
  let f := vExtension gettext f
  let f := vCallerid gettext f
  let f := vOptional "descr" f
  let f := vPublicAccessEditor gettext f
  let f := vNotificationsEditor gettext f
  let f := vVoicemailEditor gettext f
  let f := vProviderAccessSelector usort g f
  let f := vOutgoingCalleridMap gettext g f
  let f := vManualattributes gettext f
  let f := putTrusted ["uniqid", "port", "language", "ringlength"] f
  (f.element, f.errors)

/-- `analog_verify_fax($post, $errors)`: the fax, and what is wrong. -/
def analogVerifyFax (post : Val) : Val × List String :=
  let f : Form := { element := .arr [], post := post, errors := [] }
  let f := vCleanliness gettext f
  let f := vExtension gettext f
  let f := vCallerid gettext f
  let f := putTrusted ["uniqid", "port"] f
  (f.element, f.errors)

/-- `applications_verify_application($post, $errors)`: the application, and what is wrong. -/
def applicationsVerifyApplication (g : Globals) (post : Val) : Val × List String :=
  let f : Form := { element := .arr [], post := post, errors := [] }
  let f := vCleanliness gettext f
  let f := vRequired gettext "name" (gettext "Name") f
  let f := vExtensionpattern gettext g.config f
  let f := vOptional "descr" f
  let f := vPublicAccessEditor gettext f
  let f := vApplicationlogic phpparsecheck f
  let f := putTrusted ["uniqid", "type"] f
  (f.element, f.errors)

end Verify

/-! ## What the checks leave alone -/

section Checks

variable {f f' : Form} {written reposted : List String} (gettext : String → String)

/-- What leaves some fields leaves fewer. -/
theorem Leaves.mono (h : Leaves written reposted f f') {written' reposted' : List String}
    (hw : written ⊆ written') (hr : reposted ⊆ reposted') : Leaves written' reposted' f f' :=
  ⟨h.proper, fun b hb => h.element b fun hc => hb (hw hc), fun b hb => h.post b fun hc => hb (hr hc),
    h.errors⟩

/-- `v_extension` writes the extension, and each check below the fields that it is named after. -/
theorem leaves_vExtension (h : f.Proper) : Leaves ["extension"] [] f (vExtension gettext f) := by
  have hmissing := leaves_failIf h (!strlen (f.post.get "extension")) (gettext "Missing extension number.")
  have hinvalid := hmissing.trans (leaves_failIf hmissing.proper
    (strlen (f.post.get "extension") && (f.post.get "extension").toStr.toList.any (!·.isDigit))
    (gettext "Invalid extension number. Use only numerals."))
  exact hinvalid.trans (leaves_put hinvalid.proper "extension" _)

/-- The extension is accepted as a pattern that is not taken, or there is an error. -/
theorem vExtensionpattern_cases (config : Val) (f : Form) :
    (vExtensionpattern gettext config f = f.put "extension" (f.post.get "extension") ∧
      extensionPatternError (f.post.get "extension").toStr = none ∧
      ∀ key, arraySearch (f.post.get "extension") (pbxGetExtensions config) = some key →
        key.val.looseEq (f.post.get "uniqid") = true) ∨
    ∃ error, vExtensionpattern gettext config f =
      (f.put "extension" (f.post.get "extension")).fail error := by
  unfold vExtensionpattern
  dsimp only
  split_ifs with hmissing htaken
  · exact .inr ⟨_, rfl⟩
  · exact .inr ⟨_, rfl⟩
  · split
    · exact .inr ⟨_, rfl⟩
    · next hpattern =>
      refine .inl ⟨rfl, hpattern, ?_⟩
      intro key hkey
      rw [hkey] at htaken
      simpa [Form.put] using htaken

theorem leaves_vExtensionpattern (h : f.Proper) (config : Val) :
    Leaves ["extension"] [] f (vExtensionpattern gettext config f) := by
  have hput := leaves_put h "extension" (f.post.get "extension")
  rcases vExtensionpattern_cases gettext config f with ⟨heq, -⟩ | ⟨error, heq⟩
  · rw [heq]
    exact hput
  · rw [heq]
    exact hput.trans (leaves_fail hput.proper error)

theorem leaves_vCallerid (h : f.Proper) : Leaves ["callerid"] [] f (vCallerid gettext f) :=
  (leaves_failIf h _ _).trans (leaves_put (leaves_failIf h _ _).proper "callerid" _)

theorem leaves_vOptional (h : f.Proper) (field : String) : Leaves [field] [] f (vOptional field f) :=
  leaves_put h field _

/-- The editor for the access from outside writes two fields. -/
theorem leaves_vPublicAccessEditor (h : f.Proper) :
    Leaves ["publicaccess", "publicname"] [] f (vPublicAccessEditor gettext f) := by
  have hfail := leaves_failIf h (isEnabled "publicaccess" f && !vIsPublicname (f.post.get "publicname"))
    (gettext "Invalid public access alias.")
  have haccess := hfail.trans (leaves_vOptional hfail.proper "publicaccess")
  exact haccess.trans (leaves_vOptional haccess.proper "publicname")

/-- The editor for notifications writes two fields. -/
theorem leaves_vNotificationsEditor (h : f.Proper) :
    Leaves ["emailcallnotify", "emailcallnotifyaddress"] [] f (vNotificationsEditor gettext f) := by
  have hfail := leaves_failIf h
    (isEnabled "emailcallnotify" f && !vIsEmail (f.post.get "emailcallnotifyaddress"))
    (gettext "E-Mail notifications enabled but the e-mail address is invalid or missing.")
  have hnotify := hfail.trans (leaves_vOptional hfail.proper "emailcallnotify")
  exact hnotify.trans (leaves_vOptional hnotify.proper "emailcallnotifyaddress")

/-- The editor for the voicemail writes three fields. -/
theorem leaves_vVoicemailEditor (h : f.Proper) :
    Leaves ["vmtoemail", "vmtoemailaddress", "vmpin"] [] f (vVoicemailEditor gettext f) := by
  have haddress := leaves_failIf h (isEnabled "vmtoemail" f && !vIsEmail (f.post.get "vmtoemailaddress"))
    (gettext "Voicemail is enabled but the e-mail address is invalid or missing.")
  generalize hf : f.failIf (isEnabled "vmtoemail" f && !vIsEmail (f.post.get "vmtoemailaddress"))
    (gettext "Voicemail is enabled but the e-mail address is invalid or missing.") = f₁ at haddress
  have hpin := haddress.trans (leaves_failIf haddress.proper
    (isEnabled "vmtoemail" f₁ && !vIsPin (f₁.post.get "vmpin"))
    (gettext "The Voicemail PIN requires more than three digits."))
  have hemail := hpin.trans (leaves_vOptional hpin.proper "vmtoemail")
  have hmail := hemail.trans (leaves_vOptional hemail.proper "vmtoemailaddress")
  unfold vVoicemailEditor
  dsimp only
  rw [hf]
  exact hmail.trans (leaves_vOptional hmail.proper "vmpin")

theorem leaves_vProviderAccessSelector (h : f.Proper) (usort : Usort) (g : Globals) :
    Leaves ["provider"] [] f (vProviderAccessSelector usort g f) := by
  unfold vProviderAccessSelector
  generalize (pbxGetProviders usort g).1 = providers
  induction providers generalizing f with
  | nil => exact (Leaves.refl h).mono (List.nil_subset _) (List.Subset.refl _)
  | cons provider r ih =>
    rw [List.foldl_cons]
    split_ifs
    · have hput := leaves_put h "provider" ((f.element.get "provider").push (provider.get "uniqid"))
      exact (hput.trans (ih hput.proper)).mono (by simp) (List.Subset.refl _)
    · exact ih h

theorem leaves_vOutgoingCalleridMap (h : f.Proper) (g : Globals) :
    Leaves ["outgoingcalleridmap"] ["outgoingcalleridmap"] f (vOutgoingCalleridMap gettext g f) := by
  unfold vOutgoingCalleridMap
  generalize (f.post.entries.filterMap fun e =>
    if strstr e.1.toStr "outgoingcalleridmap_" && strlen e.2 then
      some (Val.arr [(.str "provideruniqid", .str ((explode '_' e.1.toStr)[1]?.getD "")),
        (.str "cidstring", e.2)])
    else none) = maps
  dsimp only
  have hloop := @leaves_foldl _ (fun f map => f.failIf
    (!pbxIsValidCalleridString (Val.get map "cidstring").toStr)
    (sprintf (gettext "The outgoing Caller ID specified for \"%s\" is invalid.")
      [((pbxGetProvider g (map.get "provideruniqid").toStr).get "name").toStr]))
    (fun _ _ h => leaves_failIf h _ _) maps f h
  have hput := hloop.trans (leaves_put hloop.proper "outgoingcalleridmap" (vStrip (.ofList maps)))
  exact hput.trans (leaves_repost hput.proper "outgoingcalleridmap" _)

theorem leaves_vPassword (h : f.Proper) : Leaves ["secret"] [] f (vPassword f) := leaves_put h "secret" _

/-- The logic of an application is written, and put back into the form. -/
theorem leaves_vApplicationlogic (h : f.Proper) (phpparsecheck : String → Option String) :
    Leaves ["applicationlogic"] ["applicationlogic"] f (vApplicationlogic phpparsecheck f) := by
  unfold vApplicationlogic
  dsimp only
  generalize (if (f.post.get "type").looseEq (.str "php") then _ else _ : String × List String) = s
  have hloop := @leaves_foldl _ Form.fail (fun _ error h => leaves_fail h error) s.2 f h
  have hput := hloop.trans (leaves_put hloop.proper "applicationlogic" (.str (base64Encode s.1)))
  exact hput.trans (leaves_repost hput.proper "applicationlogic" _)

end Checks

/-! ## Accepted elements -/

/-- An element with a name and an extension. -/
structure Dialled (uniqid extension e : Val) : Prop where
  isArray : e.isArray = true
  uniqid : e.get "uniqid" = uniqid
  extension : e.get "extension" = extension

section Accepted

variable (gettext : String → String) (usort : Usort)
  (phpparsecheck : String → Option String) {post : Val} {g : Globals}

/-- The extension is stored as it was sent, and the rest of the form does not touch it. -/
theorem dialled_of_stages {trusted : List String} {before extended after : Form}
    {writtenBefore repostedBefore writtenAfter repostedAfter : List String}
    (hbefore : Leaves writtenBefore repostedBefore { element := .arr [], post := post, errors := [] } before)
    (hextended : Leaves ["extension"] [] before extended)
    (hextension : extended.element.get "extension" = before.post.get "extension")
    (hafter : Leaves writtenAfter repostedAfter extended after)
    (hpost : "extension" ∉ repostedBefore ∧ "uniqid" ∉ repostedBefore ∧ "uniqid" ∉ repostedAfter)
    (hfields : "extension" ∉ writtenAfter ∧ "extension" ∉ trusted ∧ "uniqid" ∈ trusted) :
    Dialled (post.get "uniqid") (post.get "extension") (putTrusted trusted after).element := by
  have htrusted := leaves_putAll id trusted hafter.proper
  refine ⟨htrusted.proper.element, ?_, ?_⟩
  · have huniqid : after.post.get "uniqid" = post.get "uniqid" := by
      rw [hafter.post _ hpost.2.2, hextended.post _ (by simp), hbefore.post _ hpost.2.1]
    exact (get_putAll id hfields.2.2 hafter.proper).trans huniqid
  · rw [← hbefore.post "extension" hpost.1, ← hextension, ← hafter.element "extension" hfields.1]
    exact htrusted.element "extension" hfields.2.1

/-- The extension is stored as it was posted. -/
theorem get_vExtension {f : Form} :
    (vExtension gettext f).element.get "extension" = f.post.get "extension" := put_get_self _ _

/-- So is an extension that may be a pattern. -/
theorem get_vExtensionpattern {f : Form} (config : Val) :
    (vExtensionpattern gettext config f).element.get "extension" = f.post.get "extension" := by
  have hput : (f.put "extension" (f.post.get "extension")).element.get "extension" =
      f.post.get "extension" := put_get_self _ _
  rcases vExtensionpattern_cases gettext config f with ⟨heq, -⟩ | ⟨error, heq⟩
  · rw [heq, hput]
  · rw [heq]
    exact hput

/-- An analog phone keeps the name and the extension that were posted. -/
theorem dialled_analog (hpost : post.isArray = true) :
    Dialled (post.get "uniqid") (post.get "extension") (analogVerifyPhone gettext usort g post).1 := by
  have h₀ : Form.Proper { element := .arr [], post := post, errors := [] } := ⟨rfl, hpost⟩
  have hbefore := leaves_vCleanliness gettext h₀
  have hextended := leaves_vExtension gettext hbefore.proper
  have h₁ := leaves_vCallerid gettext hextended.proper
  have h₂ := h₁.trans (leaves_vOptional h₁.proper "descr")
  have h₃ := h₂.trans (leaves_vPublicAccessEditor gettext h₂.proper)
  have h₄ := h₃.trans (leaves_vNotificationsEditor gettext h₃.proper)
  have h₅ := h₄.trans (leaves_vVoicemailEditor gettext h₄.proper)
  have h₆ := h₅.trans (leaves_vProviderAccessSelector h₅.proper usort g)
  have h₇ := h₆.trans (leaves_vOutgoingCalleridMap gettext h₆.proper g)
  have hafter := h₇.trans (leaves_vManualattributes gettext h₇.proper)
  exact dialled_of_stages hbefore hextended (get_vExtension gettext) hafter (by decide) (by decide)

/-- So does a fax. -/
theorem dialled_fax (hpost : post.isArray = true) :
    Dialled (post.get "uniqid") (post.get "extension") (analogVerifyFax gettext post).1 := by
  have h₀ : Form.Proper { element := .arr [], post := post, errors := [] } := ⟨rfl, hpost⟩
  have hbefore := leaves_vCleanliness gettext h₀
  have hextended := leaves_vExtension gettext hbefore.proper
  have hafter := leaves_vCallerid gettext hextended.proper
  exact dialled_of_stages hbefore hextended (get_vExtension gettext) hafter (by decide) (by decide)

/-- An application that was accepted has an extension that is a pattern, and that nothing else has
before it in the list. -/
theorem dialled_application (hpost : post.isArray = true) :
    Dialled (post.get "uniqid") (post.get "extension")
        (applicationsVerifyApplication gettext phpparsecheck g post).1 ∧
      ((applicationsVerifyApplication gettext phpparsecheck g post).2 = [] →
        extensionPatternError (post.get "extension").toStr = none ∧
        ∀ key, arraySearch (post.get "extension") (pbxGetExtensions g.config) = some key →
          key.val.looseEq (post.get "uniqid") = true) := by
  have h₀ : Form.Proper { element := .arr [], post := post, errors := [] } := ⟨rfl, hpost⟩
  have h₁ := leaves_vCleanliness gettext h₀
  have hbefore := h₁.trans (leaves_vRequired gettext h₁.proper "name" (gettext "Name"))
  have hextended := leaves_vExtensionpattern gettext hbefore.proper g.config
  have h₂ := leaves_vOptional hextended.proper "descr"
  have h₃ := h₂.trans (leaves_vPublicAccessEditor gettext h₂.proper)
  have hafter := h₃.trans (leaves_vApplicationlogic h₃.proper phpparsecheck)
  refine ⟨dialled_of_stages hbefore hextended (get_vExtensionpattern gettext g.config) hafter (by decide)
    (by decide), ?_⟩
  intro herrors
  have hnone := hafter.errors ((leaves_putAll id ["uniqid", "type"] hafter.proper).errors herrors)
  have hextension := hbefore.post "extension" (by decide)
  have huniqid := hbefore.post "uniqid" (by decide)
  rcases vExtensionpattern_cases gettext g.config _ with ⟨-, hpattern, hfree⟩ | ⟨error, heq⟩
  · rw [hextension] at hpattern hfree
    rw [huniqid] at hfree
    exact ⟨hpattern, hfree⟩
  · rw [heq] at hnone
    exact absurd hnone (List.append_ne_nil_of_right_ne_nil _ (List.cons_ne_nil _ _))

end Accepted

/-! ## Lists that are made when they are asked for -/

/-- `if (!is_array($config[section][tag])) ...`, in a configuration. -/
def initConfig (config : Val) (k : Kind) : Val :=
  if (listOf config k).isArray then config else setList config k (.arr [])

/-- Making a list changes the configuration only. -/
theorem initList_eq (k : Kind) (g : Globals) :
    initList k g = { g with config := initConfig g.config k } := by
  unfold initList initConfig
  split_ifs <;> rfl

/-- It makes up no elements. -/
theorem elements_initConfig (config : Val) (k k' : Kind) :
    elements (initConfig config k) k' = elements config k' := by
  unfold initConfig
  split_ifs with harr
  · rfl
  · by_cases hk : k' = k
    · subst hk
      have hnone : elements config k' = [] := by
        unfold elements
        cases hlist : listOf config k' with
        | arr es =>
          rw [hlist] at harr
          exact absurd rfl harr
        | _ => rfl
      rw [hnone]
      exact elements_setList config k' []
    · exact elements_setList_of_ne hk _

end Pbx
end Askozia
