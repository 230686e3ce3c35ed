import Askozia.Pbx.Accounts

/-!
# The dialplan (`extensions.inc`)

`extensions_conf_generate` writes `extensions.conf` line by line. The generators here return
the lines they append; `Line.render` gives the text. A generator takes the name of the
extension it writes for in several ways (the number of the element, a public name, a pattern of
a provider), and all of its lines are meant to carry that name.
-/

namespace Askozia
namespace Dialplan

open Php Config Pbx

/-! ## Text -/

/-- What a generator appends. -/
inductive Line where
  /-- `exten => name,rest` -/
  | exten (name rest : String)
  /-- `[name]` -/
  | context (name : String)
  /-- Any other line. -/
  | other (text : String)
  /-- Text that does not end its line. -/
  | unended (text : String)
deriving DecidableEq, Repr

/-- The text of a line. -/
def Line.render : Line → String
  | exten name rest => "exten => " ++ name ++ "," ++ rest ++ "\n"
  | context name => "[" ++ name ++ "]\n"
  | other text => text ++ "\n"
  | unended text => text

/-- The text of a list of lines. -/
def render (lines : List Line) : String := String.join (lines.map Line.render)

/-- A channel variable: `name` in braces, after a dollar sign. -/
def var (name : String) : String := "$\x7b" ++ name ++ "\x7d"

/-- Lines that are only written under a condition. -/
def linesIf (b : Bool) (lines : List Line) : List Line := if b then lines else []

/-- `extensions_patternify($extension)` -/
def extensionsPatternify (extension : String) : String :=
  if extension.toList ≠ [] ∧ verifyIsNumericint extension then extension else "_" ++ extension

/-! ## Extensions -/

/-- `extensions_generate_call_notification_variables($exten, $phone)` -/
def generateCallNotificationVariables (exten : String) (phone : Val) : List Line :=
  linesIf (is (phone.get "vmtoemail") "enabled") [.exten exten "n,Set(HASVOICEMAIL=yes)"] ++
  linesIf (is (phone.get "emailcallnotify") "enabled")
    [.exten exten "n,Set(MISSEDCAUSE=hungup)",
      .exten exten
        ("n,Set(SENDNOTIFICATIONS=" ++ (phone.get "emailcallnotifyaddress").toStr ++ ")")]

/-- `$ringlength`, which stays unset for `indefinitely`. -/
def ringlength (p : Val) : String :=
  if is (p.get "ringlength") "indefinitely" then "" else (p.get "ringlength").toStr

/-- `$transfer_flags` -/
def transferFlags (fromPublic : Bool) : String := if fromPublic then "t" else "tT"

/-- The call of the main macro that ends most extensions. -/
def macroMain (dial phoneExten readbacknum : String) (fromPublic : Bool) (ring : String) :
    String :=
  "n,Macro(main," ++ dial ++ "," ++ phoneExten ++ "," ++ readbacknum ++ "," ++
    transferFlags fromPublic ++ "o," ++ ring ++ ")"

section Extensions

variable (g : Globals)

/-- `extensions_generate_internal_phone_extension($p, $from_public, $readbacknum, $extension)` -/
def generateInternalPhoneExtension (p : Val) (fromPublic : Bool)
    (readbacknum extension : Option String) : List Line :=
  let tech := pbxUniqidToTechnology (p.get "uniqid").toStr
  let phoneExten := (p.get "extension").toStr
  let exten := extension.getD phoneExten
  let readbacknum := readbacknum.getD exten
  -- a name is not read back, but the number of the phone
  let readbacknum := if verifyIsNumericint readbacknum then readbacknum else phoneExten
  let main (dial : String) : List Line :=
    [.exten exten (macroMain dial phoneExten readbacknum fromPublic (ringlength p))]
  [.exten exten "n,Set(LOOP=0)",
    .exten exten ("n,GosubIf($[\"" ++ var "CF" ++ "\" != \"no\"]?macro-checkcf,s,1(" ++
      phoneExten ++ "))")] ++
  generateCallNotificationVariables exten p ++
  match tech with
  | .sip => main ("SIP/" ++ phoneExten)
  | .iax2 => main ("IAX2/" ++ phoneExten)
  | .skinny => main ("SKINNY/" ++ phoneExten ++ "@" ++ phoneExten)
  | .dahdi => main ("DAHDI/g" ++ dahdiGetGnumber g (p.get "port").toStr)
  | .failed _ =>
    [.unended "ERROR: unmatched case in extensions_generate_internal_phone_extension!"]

/-- The technology an external phone is dialled with, and whether it is dialled directly. -/
def externalTechnology (p : Val) : Technology × Bool :=
  if is (p.get "dialprovider") "sipuri" then (.sip, true)
  else if is (p.get "dialprovider") "iaxuri" then (.iax2, true)
  else (pbxUniqidToTechnology (p.get "dialprovider").toStr, false)

/-- `extensions_generate_external_phone_extension($p, $from_public, $readbacknum, $extension)` -/
def generateExternalPhoneExtension (p : Val) (fromPublic : Bool)
    (readbacknum extension : Option String) : List Line :=
  let phoneExten := (p.get "extension").toStr
  let exten := extension.getD phoneExten
  let readbacknum := readbacknum.getD exten
  -- the branches stand the other way round than for an internal phone
  let readbacknum := if verifyIsNumericint readbacknum then phoneExten else readbacknum
  let dialstring := (p.get "dialstring").toStr
  let main (dial : String) : List Line :=
    [.exten exten (macroMain dial phoneExten readbacknum fromPublic (ringlength p))]
  generateCallNotificationVariables exten p ++
  match externalTechnology p with
  | (.dahdi, _) =>
    let prov := pbxGetProvider g (p.get "dialprovider").toStr
    main ("DAHDI/g" ++ dahdiGetGnumber g (prov.get "port").toStr ++ "/" ++ dialstring)
  | (.sip, true) => main ("SIP/" ++ dialstring)
  | (.iax2, true) => main ("IAX2/" ++ dialstring)
  | (.sip, false) => main ("SIP/" ++ (p.get "dialprovider").toStr ++ "/" ++ dialstring)
  | (.iax2, false) => main ("IAX2/" ++ (p.get "dialprovider").toStr ++ "/" ++ dialstring)
  | _ => [.other "; ERROR: unmatched case in extensions_generate_external_phone_extension!"]

/-- `extensions_phone_uniqid_to_dialstring($uniqid)` -/
def phoneUniqidToDialstring (uniqid : String) : String :=
  let phone := pbxGetPhone g uniqid
  if strstr uniqid "SIP-PHONE" then "SIP/" ++ (phone.get "extension").toStr
  else if strstr uniqid "IAX-PHONE" then "IAX2/" ++ (phone.get "extension").toStr
  else if strstr uniqid "SKINNY-PHONE" then "SKINNY/" ++ (phone.get "extension").toStr
  else if strstr uniqid "ANALOG-PHONE" || strstr uniqid "ISDN-PHONE" then
    "DAHDI/g" ++ ((getElement g .dahdiPort (phone.get "port").toStr).get "basechannel").toStr
  else if strstr uniqid "EXTERNAL-PHONE" then
    if is (phone.get "dialprovider") "sipuri" then "SIP/" ++ (phone.get "dialstring").toStr
    else if is (phone.get "dialprovider") "iaxuri" then "IAX2/" ++ (phone.get "dialstring").toStr
    else
      let technology := pbxUniqidToTechnology (phone.get "dialprovider").toStr
      if technology = .dahdi then
        let provider := pbxGetProvider g (phone.get "dialprovider").toStr
        "DAHDI/g" ++ dahdiGetGnumber g (provider.get "port").toStr ++ "/" ++
          (phone.get "dialstring").toStr
      else
        technology.toStr ++ "/" ++ (phone.get "dialprovider").toStr ++ "/" ++
          (phone.get "dialstring").toStr
  else "ERROR: unmatched uniqid in extensions_phone_uniqid_to_dialstring!"

/-- `extensions_phone_uniqids_to_dialstring($uniqid_array)` -/
def phoneUniqidsToDialstring (uniqids : Val) : String :=
  implode "&" (uniqids.vals.map fun u => phoneUniqidToDialstring g u.toStr)

/-- `extensions_generate_callgroup_extension($group, $from_public, $readbacknum, $extension)` -/
def generateCallgroupExtension (group : Val) (fromPublic : Bool)
    (readbacknum extension : Option String) : List Line :=
  if !(group.get "groupmember").isArray then []
  else
    let exten := extension.getD (group.get "extension").toStr
    let dialstring := phoneUniqidsToDialstring g (group.get "groupmember")
    let vmPhone := pbxGetPhone g ((group.get "groupmember").idx (.int 0)).toStr
    let vmExten := (vmPhone.get "extension").toStr
    generateCallNotificationVariables exten vmPhone ++
    [.exten exten
      (macroMain dialstring vmExten (readbacknum.getD vmExten) fromPublic (ringlength group))]

/-- `extensions_generate_application_extension($a, $from_public, $extension)` -/
def generateApplicationExtension (a : Val) (extension : Option String) : List Line :=
  let exten := extension.getD (a.get "extension").toStr
  [.exten exten ("n,Goto(" ++ (a.get "uniqid").toStr ++ "," ++ var "EXTEN" ++ ",1)")]

/-- `extensions_generate_conference_room_extension($r, $from_public, $extension)` -/
def generateConferenceRoomExtension (r : Val) (extension : Option String) : List Line :=
  let number := (r.get "number").toStr
  let exten := extension.getD number
  [.exten exten "n,Answer()", .exten exten ("n,MeetMe(" ++ number ++ ",M)"),
    .exten exten "n,Hangup()"]

/-- `extensions_generate_virtual_fax_extension($f, $from_public, $extension)` -/
def generateVirtualFaxExtension (f : Val) (extension : Option String) : List Line :=
  let exten := extension.getD (f.get "extension").toStr
  [.exten exten ("n,Dial(Local/" ++ var "EXTEN" ++ "@" ++ (f.get "uniqid").toStr ++ "/n)")]

/-- `extensions_generate_analog_fax_extension($f, $from_public, $extension)` -/
def generateAnalogFaxExtension (f : Val) (extension : Option String) : List Line :=
  let exten := extension.getD (f.get "extension").toStr
  let dahdiPort := getElement g .dahdiPort (f.get "port").toStr
  [.exten exten ("n,Dial(DAHDI/g" ++ (dahdiPort.get "basechannel").toStr ++ ")")]

/-- The group made up for several destinations. -/
def impromptuGroup (members : Val) : Val :=
  .arr [(.str "groupmember", members), (.str "name", .str "impromptu")]

/-- `extensions_generate_extension_from_uniqid($uniqid, $from_public, $readbacknum,
$extension)`, where `$uniqid` is the `uniqid` of an element or an array of them. -/
def generateExtensionFromUniqid (uniqid : Val) (fromPublic : Bool)
    (readbacknum extension : Option String) : List Line :=
  -- an array is a group of its own, whose members it lists
  let group := if uniqid.isArray then impromptuGroup uniqid else .null
  let u := if uniqid.isArray then "CALLGROUP-PARALLEL-impromptu" else uniqid.toStr
  let id := explode '-' u
  if id[0]? = some "EXTERNAL" ∧ id[1]? = some "PHONE" then
    let p := pbxGetPhone g u
    if (p.get "disabled").isset then []
    else generateExternalPhoneExtension g p fromPublic readbacknum extension
  else if id[1]? = some "PHONE" then
    let p := pbxGetPhone g u
    if (p.get "disabled").isset then []
    else generateInternalPhoneExtension g p fromPublic readbacknum extension
  else if id[0]? = some "CONFERENCE" ∧ id[1]? = some "ROOM" then
    generateConferenceRoomExtension (getElement g .room u) extension
  else if id[0]? = some "VIRTUAL" ∧ id[1]? = some "FAX" then
    generateVirtualFaxExtension (getElement g (.fax .virtual) u) extension
  else if id[0]? = some "ANALOG" ∧ id[1]? = some "FAX" then
    generateAnalogFaxExtension g (getElement g (.fax .analog) u) extension
  else if id[0]? = some "CALLGROUP" ∧ id[1]? = some "PARALLEL" ∧ id[2]? = some "impromptu" then
    generateCallgroupExtension g group fromPublic readbacknum extension
  else if id[0]? = some "CALLGROUP" ∧ id[1]? = some "PARALLEL" then
    let group := getElement g .callgroup u
    if !(group.get "extension").isset && extension.isNone then []
    else generateCallgroupExtension g group fromPublic readbacknum extension
  else if id[0]? = some "DIALPLAN" ∧ id[1]? = some "APPLICATION" then
    generateApplicationExtension (getElement g .application u) extension
  else [.unended "ERROR: unmatched case in extensions_generate_extension_from_uniqid!"]

end Extensions

end Dialplan
end Askozia
