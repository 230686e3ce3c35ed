import Askozia.Dialplan.Extensions

/-!
# The contexts of the dialplan (`extensions.inc`)

The contexts `extensions_conf_generate` writes around the extensions of
`Askozia.Dialplan.Extensions`: one for each application, fax, provider and phone, and the
shared ones. The lists are fetched first, which also sorts the stored call groups and rooms;
everything after that only reads.
-/

namespace Askozia
namespace Dialplan

open Php Config Pbx

/-- What the text depends on besides the configuration. -/
structure Env where
  /-- `system_get_product_name()` -/
  productName : String
  /-- `is_file` -/
  isFile : String → Bool
  /-- `gettext` -/
  gettext : String → String

/-! ## Applications and faxes -/

/-- A character of `[A-Z0-9-_]`, in either case. -/
def isWordChar (c : Char) : Bool := c.isAlphanum || c == '-' || c == '_'

/-- `preg_match('/^include\s=>\s[A-Z0-9-_]+/i', $l)` -/
def isInclude (l : String) : Bool :=
  let word := (l.toList.take 7).map Char.toLower
  let r := l.toList.drop 7
  let blank := fun c : Char => [' ', '\t', '\n', '\r', '\x0c'].contains c
  word == "include".toList && (r[0]?.any blank) && r[1]? == some '=' &&
    r[2]? == some '>' && (r[3]?.any blank) && (r[4]?.any isWordChar)

/-- The extension that matches everything one can dial. -/
def anyExten : String := "_[0-9a-zA-Z*#]!"

/-- `extensions_generate_application_context2($a)` -/
def generateApplicationContext2 (a : Val) : List Line :=
  let uniqid := (a.get "uniqid").toStr
  if is (a.get "type") "php" then
    [.other ("; " ++ (a.get "name").toStr), .context uniqid,
      .exten anyExten ("1,AGI(" ++ uniqid ++ ".php)"), .exten anyExten "2,Hangup()",
      .exten "s" ("1,AGI(" ++ uniqid ++ ".php)"), .exten "s" "2,Hangup()",
      .exten "h" "1,Hangup()"]
  else if is (a.get "type") "plaintext" then
    let lines := explode '\n' (base64Decode (a.get "applicationlogic").toStr)
    let steps := lines.filter (!isInclude ·)
    [.other ("; " ++ (a.get "name").toStr), .context uniqid] ++
      (lines.filter isInclude).map .other ++ steps.map (.exten anyExten) ++
      steps.map (.exten "s")
  else []

/-- `echo` into the mail of a fax. -/
def echoMail (text : String) : Line :=
  .exten "h" ("n,System(echo \"" ++ text ++ "\" >> /tmp/email-" ++ var "UNIQUEID" ++ ")")

/-- `extensions_generate_virtual_fax_context($f)` -/
def generateVirtualFaxContext (env : Env) (g : Globals) (f : Val) : List Line :=
  let address := (((g.config.get "notifications").get "email").get "address").toStr
  let disk := storageServiceIsActive g "faxarchive"
  let fax := "/tmp/fax-" ++ var "UNIQUEID"
  let mail := "/tmp/email-" ++ var "UNIQUEID"
  let file := var "FAXFILENAME"
  [.other ("; " ++ (f.get "callerid").toStr), .context (f.get "uniqid").toStr,
    .exten anyExten "1,Ringing()", .exten anyExten "n,Wait(6)",
    .exten anyExten ("n,ReceiveFAX(" ++ fax ++ ")"), .exten anyExten "n,Hangup()",
    .exten "s" "1,Ringing()", .exten "s" "n,Wait(6)",
    .exten "s" ("n,ReceiveFAX(" ++ fax ++ ")"), .exten "s" "n,Hangup()",
    .exten "h" ("1,GotoIf($[\"" ++ var "FAXSTATUS" ++ "\"!=\"SUCCESS\"]?transactionend)"),
    .exten "h" ("n,Set(FAXFILENAME=virtualfax-" ++ (f.get "extension").toStr ++ "-" ++
      var ("STRFTIME(" ++ var "EPOCH" ++ ",,%Y-%m-%d-%H-%M-%S)") ++ ".pdf)"),
    .exten "h" ("n,System(tiff2pdf " ++ fax ++ " -o /tmp/" ++ file ++ ")"),
    .exten "h" ("n,System(touch " ++ mail ++ ")"),
    .exten "h" ("n,System(echo \"Date: \\`date\\`\" > " ++ mail ++ ")"),
    echoMail ("To: " ++ (f.get "email").toStr),
    echoMail ("Subject: " ++ env.gettext "New Fax from" ++ " " ++ var "CALLERID(all)"),
    echoMail ("From: " ++ env.productName ++ " Fax <" ++ address ++ ">"),
    echoMail ("X-Mailer: " ++ env.productName),
    echoMail "Content-Type: multipart/mixed\\; boundary=\\\"-\\\"\\n",
    echoMail "---",
    echoMail "Content-Type: text/plain\\; format=flowed\\; charset=UTF-8",
    echoMail "Content-Disposition: inline",
    echoMail "Content-Transfer-Encoding: 8bit\\n",
    echoMail (var ("STRFTIME(" ++ var "EPOCH" ++ ",,%Y-%m-%d - %H:%M)") ++ " from " ++
      var "CALLERID(all)"),
    echoMail "---",
    echoMail ("Content-Type: application/pdf\\; name=\\\"" ++ file ++ "\\\""),
    echoMail "Content-Transfer-Encoding: base64",
    echoMail ("Content-Disposition: inline\\; filename=\\\"" ++ file ++ "\\\"\\n"), .other "",
    .exten "h" ("n,System(uuencode -m /tmp/" ++ file ++ " " ++ file ++ " >> " ++ mail ++ ")"),
    echoMail "-----",
    .exten "h" ("n,System(/usr/bin/msmtp -C /etc/msmtp.conf -t < " ++ mail ++ ")")] ++
  linesIf disk.truthy
    [.exten "h" ("n,System(cp /tmp/" ++ file ++ " " ++ (disk.get "mountpoint").toStr ++
      "/askoziapbx/faxarchive/)")] ++
  [.exten "h" ("n,System(rm /tmp/" ++ file ++ ")"), .exten "h" ("n,System(rm " ++ fax ++ ")"),
    .exten "h" ("n,System(rm " ++ mail ++ ")"),
    .exten "h" ("n(transactionend),NoOp(Receive fax terminated returning status: " ++
      var "FAXSTATUS" ++ ")"),
    .other ""]

/-! ## Providers -/

/-- `extensions_generate_incoming_callerid_overrides($extension, $override, $overridestring)` -/
def generateIncomingCalleridOverrides (extension : String) (override overridestring : Val) :
    List Line :=
  if is override "replacenamewithnum" then
    [.exten extension ("n,Set(CALLERID(name)=" ++ var "CALLERID(number)" ++ ")")]
  else if is override "replace" then
    [.exten extension ("n,Set(CALLERID(all)=" ++ overridestring.toStr ++ ")")]
  else if is override "prepend" then
    [.exten extension
      ("n,Set(CALLERID(name)=" ++ overridestring.toStr ++ " " ++ var "CALLERID(name)" ++ ")")]
  else if override.truthy then
    [.other ("ERROR: unmatched case (override = " ++ override.toStr ++
      ") in extensions_generate_incoming_callerid_overrides!")]
  else []

/-- The key an incoming map is grouped under. -/
def mapKey (map : Val) : Key :=
  if (map.get "incomingpattern").isset then (map.get "incomingpattern").key else .str "all"

/-- `$groupped_mapping[$key][] = $map['destinationid'];` -/
def groupMap (mapping map : Val) : Val :=
  mapping.set (mapKey map) ((mapping.idx (mapKey map)).push (map.get "destinationid"))

/-- `$groupped_mapping` -/
def grouppedMapping (p : Val) : Val :=
  ((p.get "incomingextensionmap").vals).foldl groupMap (.arr [])

/-- `$readbacknum` of a provider. The source compares with `"IAX"`, which no technology is. -/
def providerReadbacknum (p : Val) : Option String :=
  match pbxUniqidToTechnology (p.get "uniqid").toStr with
  | .dahdi => some (p.get "number").toStr
  | .sip =>
    if (p.get "readbacknumber").isset then some (p.get "readbacknumber").toStr
    else if verifyIsNumericint (p.get "username").toStr then some (p.get "username").toStr
    else none
  | _ => none

section Providers

variable (g : Globals)

/-- The lines for one name under which a provider's calls come in. The lines that wait for a
fax tone carry a name of their own. -/
def incomingExtension (p : Val) (exten faxExten : String) (readbacknum : Option String)
    (destination : Val) : List Line :=
  [.exten exten ("1,NoOp(incoming call from provider: " ++ (p.get "name").toStr ++ " to " ++
      var "EXTEN" ++ ")"),
    .exten exten "n,Set(CDR(UserField)=inbound)"] ++
  linesIf (p.get "defaultfax").truthy
    [.exten faxExten "n,Answer()", .exten faxExten "n,Wait(3)"] ++
  generateIncomingCalleridOverrides exten (p.get "override") (p.get "overridestring") ++
  generateExtensionFromUniqid g destination true readbacknum (some exten)

/-- The lines for one entry of `$groupped_mapping`. -/
def incomingPattern (p : Val) (e : Key × Val) : List Line :=
  let pattern := e.1.toStr
  let destination :=
    if e.2.isArray && e.2.count == 1 then e.2.idx (.int 0) else e.2
  if is e.1.val "all" then
    let username :=
      if pbxUniqidToTechnology (p.get "uniqid").toStr = .sip then [(p.get "username").toStr]
      else []
    ("_[0-9*#]!" :: "s" :: username).flatMap fun c =>
      incomingExtension g p c c (providerReadbacknum p) destination
  else if verifyIsNumericint pattern then
    incomingExtension g p pattern pattern (some pattern) destination
  else
    -- the lines that wait for a fax tone miss the underscore
    incomingExtension g p ("_" ++ pattern) pattern (providerReadbacknum p) destination

/-- `extensions_generate_provider_incoming_context($p)` -/
def generateProviderIncomingContext (p : Val) : List Line :=
  [Line.context ((p.get "uniqid").toStr ++ "-incoming"), .other "include => public-direct-dial"] ++
  (if (p.get "defaultfax").truthy then
    Line.exten "fax" ("1,NoOp(incoming fax from provider: " ++ (p.get "name").toStr ++ " to " ++
        var "EXTEN" ++ ")") ::
      generateExtensionFromUniqid g (p.get "defaultfax") true none (some "fax")
  else []) ++
  (grouppedMapping p).entries.flatMap (incomingPattern g p) ++
  [Line.other "; hangup logic",
    .exten "h" ("1,NoOp(Hanging up incoming call from provider: " ++ (p.get "name").toStr ++
      " to " ++ var "EXTEN" ++ ")"),
    .exten "h" "n,Macro(missedcallmail)", .other ""]

/-- A dial pattern taken apart by `dialplan_parse_pattern`. -/
structure Pattern where
  pattern : String
  ins : String
  exten : String
deriving DecidableEq, Repr

/-- `dialplan_parse_pattern($pattern, $prefix, $offset, $exten)` -/
def parsePattern (pattern : String) : Pattern :=
  let (ins, pattern) :=
    match strpos pattern "+" with
    | some offset =>
      (String.ofList (pattern.toList.take offset), String.ofList (pattern.toList.drop (offset + 1)))
    | none => ("", pattern)
  match strpos pattern "|" with
  | some offset =>
    { pattern := String.ofList (pattern.toList.filter (· != '|'))
      ins := ins
      exten := var ("EXTEN:" ++ toString offset) }
  | none => { pattern := pattern, ins := ins, exten := var "EXTEN" }

/-- The lines for one dial pattern of a provider. -/
def outgoingPattern (p pattern : Val) : List Line :=
  let uniqid := (p.get "uniqid").toStr
  let parsed := parsePattern pattern.toStr
  let exten := "_" ++ parsed.pattern
  let dialled := parsed.ins ++ parsed.exten
  let failover := pbxGetProvider g (p.get "failover").toStr
  let viaFailover := ",NoOp(Failover needed, now using : " ++ (failover.get "name").toStr ++ ")"
  ([.exten exten ("1,NoOp(outgoing call to provider: " ++ (p.get "name").toStr ++ ")"),
    .exten exten "n,Set(CDR(UserField)=outbound)"] : List Line) ++
  (match pbxUniqidToTechnology uniqid with
    | .sip => [.exten exten ("n,Dial(SIP/" ++ dialled ++ "@" ++ uniqid ++ ",,T)")]
    | .iax2 => [.exten exten ("n,Dial(IAX2/" ++ uniqid ++ "/" ++ dialled ++ ",,T)")]
    | .dahdi =>
      [.exten exten ("n,Dial(DAHDI/g" ++ dahdiGetGnumber g (p.get "port").toStr ++ "/" ++
        dialled ++ ",,T)")]
    -- no line end: the next line continues this one
    | _ =>
      [.unended "ERROR: unmatched case in extensions_generate_provider_outgoing_context!"] : List Line) ++
  -- the five statuses are extensions of the provider's own context
  if (p.get "failover").truthy && failover.truthy then
    [Line.exten exten ("n,NoOp(DIALSTATUS = " ++ var "DIALSTATUS" ++ ")"),
      .exten exten ("n,Goto(" ++ uniqid ++ "-" ++ var "DIALSTATUS" ++ ",1)"),
      .exten (uniqid ++ "-NOANSWER") "1,Hangup()",
      .exten (uniqid ++ "-CANCEL") "1,Hangup()",
      .exten (uniqid ++ "-BUSY") "1,Hangup()",
      .exten (uniqid ++ "-CONGESTION") ("1" ++ viaFailover),
      .exten (uniqid ++ "-CONGESTION")
        ("n,Goto(" ++ (p.get "failover").toStr ++ "," ++ var "ORIGEXTENSION" ++ ",1)"),
      .exten (uniqid ++ "-CHANUNAVAIL") ("1" ++ viaFailover),
      .exten (uniqid ++ "-CHANUNAVAIL")
        ("n,Goto(" ++ (p.get "failover").toStr ++ "," ++ var "ORIGEXTENSION" ++ ",1)")]
  else [Line.exten exten "n,Hangup()"]

/-- `extensions_generate_provider_outgoing_context($p)` -/
def generateProviderOutgoingContext (p : Val) : List Line :=
  .context (p.get "uniqid").toStr :: ((p.get "dialpattern").vals).flatMap (outgoingPattern g p)

end Providers

/-! ## Phones -/

/-- `$cidoverride` after a provider has been looked at: it keeps its value from the provider
before unless this one, or the phone for this one, has a caller id. -/
def cidOverride (phone provider cidoverride : Val) : Val :=
  let cidoverride :=
    if is (provider.get "calleridsource") "string" && (provider.get "calleridstring").truthy then
      provider.get "calleridstring"
    else cidoverride
  if (phone.get "outgoingcalleridmap").truthy then
    ((phone.get "outgoingcalleridmap").vals).foldl (fun c map =>
      if (map.get "provideruniqid").looseEq (provider.get "uniqid") then map.get "cidstring"
      else c) cidoverride
  else cidoverride

/-- The lines for one dial pattern of a provider a phone may use. -/
def phonePattern (provider cidoverride pattern : Val) : List Line :=
  let exten := "_" ++ (parsePattern pattern.toStr).pattern
  ([.exten exten ("1,NoOp(pre-processing for outgoing call to provider: " ++
      (provider.get "name").toStr ++ ")"),
    .exten exten ("n,Set(ORIGEXTENSION=" ++ var "EXTEN" ++ ")"),
    .exten exten ("n,NoOp( - original extension = " ++ var "ORIGEXTENSION" ++ ")")] : List Line) ++
  (if cidoverride.truthy then
    [.exten exten ("n,Set(CALLERID(all)=" ++ cidoverride.toStr ++ ")"),
      .exten exten ("n,NoOp( - caller id set = " ++ cidoverride.toStr ++ ")")]
  else [.exten exten "n,NoOp( - sending phone caller id)"] : List Line) ++
  ([.exten exten ("n,Goto(" ++ (provider.get "uniqid").toStr ++ "," ++ var "EXTEN" ++ ",1)")] : List Line)

/-- The loop over the providers, with `$cidoverride`. -/
def phoneProviders (phone : Val) : List Val → Val → List Line
  | [], _ => []
  | provider :: r, cidoverride =>
    if !(provider.get "disabled").isset &&
        (!(phone.get "provider").isset ||
          !inArray (provider.get "uniqid") (phone.get "provider")) then
      let cidoverride := cidOverride phone provider cidoverride
      ((provider.get "dialpattern").vals).flatMap (phonePattern provider cidoverride) ++
        phoneProviders phone r cidoverride
    else phoneProviders phone r cidoverride

/-- `extensions_generate_phone_outgoing_context($phone)`, given the providers. -/
def generatePhoneOutgoingContext (providers : List Val) (phone : Val) : List Line :=
  .context ((phone.get "uniqid").toStr ++ "-outgoing") :: phoneProviders phone providers .null

/-- The elements that are not disabled. -/
def enabled (xs : List Val) : List Val := xs.filter fun x => !(x.get "disabled").isset

/-! ## Shared contexts -/

/-- `for ($i = $start; $i <= $end; $i++)` over numerals: only the first position is printed as
it is stored. -/
def positions (start stop : String) : List String :=
  let first := Val.digitsValue start.toList
  let last := Val.digitsValue stop.toList
  if first ≤ last then
    start :: (List.range' (first + 1) (last - first)).map toString
  else []

/-- `extensions_generate_parkinglot()` -/
def generateParkinglot (g : Globals) : List Line :=
  let pc := (g.config.get "dialplan").get "callparking"
  let start := if (pc.get "parkposstart").isset then (pc.get "parkposstart").toStr else "701"
  let stop := if (pc.get "parkposend").isset then (pc.get "parkposend").toStr else "720"
  .other "include => parkedcalls" ::
    (positions start stop).flatMap fun i =>
      [.exten i ("1,ParkedCall(" ++ i ++ ")"), .exten i ("hint,park:" ++ i ++ "@parkedcalls")]

/-- `extensions_generate_hints()`, given the SIP phones. -/
def generateHints (phones : List Val) : List Line :=
  ((enabled phones).map fun p =>
    .exten (p.get "extension").toStr ("hint,SIP/" ++ (p.get "extension").toStr)) ++ [.other ""]

/-- The settings, the main macro up to the voicemail greeting, and the rest of the macros. -/
def macros (env : Env) (g : Globals) : List Line :=
  let disk := storageServiceIsActive g "media"
  let greeting := (disk.get "mountpoint").toStr ++ "/askoziapbx/media/vmgreeting/vmgreeting_personal"
  let address := (((g.config.get "notifications").get "email").get "address").toStr
  let file := var "TMPMAILFILE"
  ([.other "", .other "[globals]", .other "TRANSFER_CONTEXT=internal", .other "",
    .other "[macro-main];",
    .exten "s" ("1,Dial(" ++ var "ARG1" ++ "," ++ var "ARG5" ++ "," ++ var "ARG4" ++ ")"),
    .exten "s" ("2,NoOp(DIALSTATUS: " ++ var "DIALSTATUS" ++ ")"),
    .exten "s" ("3,Goto(s-" ++ var "DIALSTATUS" ++ ",1)"), .other "",
    .other ";exten => s-ANSWER", .other ";exten => s-CANCEL", .other ";exten => s-CHANUNAVAIL",
    .other ";exten => s-CONGESTION", .other ";exten => s-DONTCALL", .other ";exten => s-TORTURE",
    .other ";exten => s-INVALIDARGS",
    .exten "s-BUSY" "1,Set(MISSEDCAUSE=busy)", .exten "s-BUSY" "2,Goto(busy,1)",
    .exten "s-NOANSWER" "1,Set(MISSEDCAUSE=no-answer)", .exten "s-NOANSWER" "2,Goto(noanswer,1)",
    .exten "_s-." "1,Goto(noanswer,1)", .other "", .other "; busy",
    .exten "busy" "1,Busy(10)", .exten "busy" "2,Hangup()", .other "", .other "; no answer",
    .exten "noanswer" "1,NoOp(Call not answered in time)",
    .exten "noanswer" ("2,GotoIf($[\"" ++ var "HASVOICEMAIL" ++ "\" != \"\"]?vm-noanswer,1)"),
    .exten "noanswer" "3,Hangup()",
    .exten "vm-noanswer" "1,NoOp(Callee has voicemail, sending to voicemail)",
    .exten "vm-noanswer" "2,Wait(1)"] : List Line) ++
  -- a greeting of one's own, where it is stored and switched on
  (if disk.truthy && env.isFile (greeting ++ ".ulaw") &&
      ((g.config.get "media").get "custom-vmgreeting").isset then
    [.exten "vm-noanswer" ("n,Playback(" ++ greeting ++ ")"),
      .exten "vm-noanswer" ("n,VoiceMail(" ++ var "ARG2" ++ ",s," ++ var "ARG3" ++ ")")]
  else
    [.exten "vm-noanswer" ("n,VoiceMail(" ++ var "ARG2" ++ ",u," ++ var "ARG3" ++ ")")] : List Line) ++
  ([.exten "vm-noanswer" "n,Playback(vm-goodbye)", .exten "vm-noanswer" "n,Hangup()", .other "",
    .other "; hangup",
    .exten "h" "1,NoOp(Entering the main macro h hangup extension)", .other "",
    .other ";i - Invalid", .other ";s - Start", .other ";h - Hangup", .other ";t - Timeout",
    .other ";T - AbsoluteTimeout", .other ";a - Asterisk extension", .other ";o - Operator",
    .other "", .other "", .other "; missed call notification mail macro",
    .other "[macro-missedcallmail];",
    .exten "s" "1,NoOp(Entering the missed call mail macro)",
    .exten "s" ("n,NoOp(DIALSTATUS: " ++ var "DIALSTATUS" ++ ")"),
    .exten "s" ("n,ExecIf($[\"" ++ var "DIALSTATUS" ++ "\" = \"ANSWER\"]?MacroExit())"),
    .exten "s" ("n,NoOp(SENDNOTIFICATIONS: " ++ var "SENDNOTIFICATIONS" ++ ")"),
    .exten "s" ("n,ExecIf($[\"" ++ var "SENDNOTIFICATIONS" ++ "\" = \"\"]?MacroExit())"),
    .exten "s" ("n,NoOp(MISSEDCAUSE: " ++ var "MISSEDCAUSE" ++ ")"),
    .exten "s" ("n,ExecIf($[\"" ++ var "MISSEDCAUSE" ++ "\" = \"didntmiss\"]?MacroExit())"),
    .exten "s" ("n,NoOp(VMSTATUS: " ++ var "VMSTATUS" ++ ")"),
    .exten "s" ("n,ExecIf($[$[\"" ++ var "VMSTATUS" ++ "\" != \"\"] & $[\"" ++ var "VMSTATUS" ++
      "\" != \"FAILED\"]]?MacroExit())"),
    .exten "s" ("n,Set(TMPMAILFILE=/var/asterisk/spool/tmp/email-" ++
      var ("MD5(" ++ var "UNIQUEID" ++ ")") ++ ")"),
    .exten "s" ("n,System(touch " ++ file ++ ")"),
    .exten "s" ("n,System(echo \"date: `date`\" > " ++ file ++ ")"),
    .exten "s" ("n,System(echo \"to: " ++ var "SENDNOTIFICATIONS" ++ "\" >> " ++ file ++ ")"),
    .exten "s" ("n,System(echo \"subject: Missed Call (" ++ var "MISSEDCAUSE" ++ ")\" >> " ++
      file ++ ")"),
    .exten "s" ("n,System(echo \"from: " ++ env.productName ++ " Notifications <" ++ address ++
      ">\" >> " ++ file ++ ")"),
    .exten "s" ("n,System(echo >> " ++ file ++ ")"),
    .exten "s" ("n,System(echo \"" ++ var ("STRFTIME(" ++ var "EPOCH" ++ ",,%Y-%m-%d - %H:%M)") ++
      " from " ++ var "CALLERID(all)" ++ "\" >> " ++ file ++ ")"),
    .exten "s" ("n,System(/usr/bin/msmtp -C /etc/msmtp.conf -t < " ++ file ++ ")"),
    .exten "s" ("n,System(rm " ++ file ++ ")"), .other "", .other "[macro-checkcf]",
    .exten "s" ("1,NoOp(Checking CF for " ++ var "ARG1" ++ ")"),
    .exten "s" ("n,Set(LOCAL(extension)=" ++ var "ARG1" ++ ")"),
    .exten "s" ("n,Set(LOCAL(cf_destination)=" ++ var ("DB(CF/" ++ var "extension" ++ ")") ++ ")"),
    .exten "s" ("n,GotoIf($[\"" ++ var "cf_destination" ++ "\" != \"\"]?has-cf,1:return,1)"),
    .other "",
    .exten "has-cf" ("1,GosubIf($[" ++ var "cf_destination" ++ " = " ++ var "CALLERID(num)" ++
      "]?return,1)"),
    .exten "has-cf" ("n,Set(LOOP=$[" ++ var "LOOP" ++ "+1])"),
    .exten "has-cf" ("n,NoOp(LOOP: " ++ var "LOOP" ++ ")"),
    .exten "has-cf" ("n,GosubIf($[" ++ var "LOOP" ++ " < 3]?macro-checkcf,s,1(" ++
      var "cf_destination" ++ "):return,1)"),
    .other "", .exten "return" "1,Set(CF=no)",
    .exten "return" ("n,Goto(internal," ++ var "extension" ++ ",1)"), .other ""] : List Line)

/-! ## `extensions.conf` -/

/-- The lists `extensions_conf_generate` starts with, and the configuration it leaves. -/
structure Lists where
  internalPhones : List Val
  externalPhones : List Val
  callgroups : List Val
  applications : List Val
  conferenceRooms : List Val
  virtualFaxes : List Val
  analogFaxes : List Val
  providers : List Val
  sipPhones : List Val
  sipProviders : List Val

section Conf

variable (usort : Usort)

/-- The getters at the start of `extensions_conf_generate`, in the order of the source. The
lists it fetches again later (SIP phones for the hints, providers for each phone, SIP providers
for hosts with several accounts) are the ones these leave. -/
def fetchLists (g : Globals) : Lists × Globals :=
  let (internalPhones, g) := pbxGetPhones usort g
  let (externalPhones, g) := externalGetPhones usort g
  let (callgroups, g) := callgroupsGetGroups usort g
  let applications := applicationsGetApplications g
  let (conferenceRooms, g) := conferencingGetRooms usort g
  let (virtualFaxes, g) := virtualGetFaxes usort g
  let (analogFaxes, g) := analogGetFaxes usort g
  let (providers, g) := pbxGetProviders usort g
  ({ internalPhones, externalPhones, callgroups, applications, conferenceRooms, virtualFaxes,
     analogFaxes, providers
     sipPhones := (sipGetPhones usort g).1
     sipProviders := (sipGetProviders usort g).1 }, g)

end Conf

/-- `{$p['callerid']} - <{$p['extension']}>` -/
def phoneLabel (p : Val) : String :=
  (p.get "callerid").toStr ++ " - <" ++ (p.get "extension").toStr ++ ">"

/-- `{$cg['name']} - <{$cg['extension']}>` -/
def groupLabel (cg : Val) : String :=
  (cg.get "name").toStr ++ " - <" ++ (cg.get "extension").toStr ++ ">"

/-- `{$r['name']} - <{$r['number']}>` -/
def roomLabel (r : Val) : String :=
  (r.get "name").toStr ++ " - <" ++ (r.get "number").toStr ++ ">"

/-- The call groups that have an extension. -/
def withExtension (groups : List Val) : List Val :=
  groups.filter fun cg => (cg.get "extension").isset && (cg.get "extension").toStr != ""

/-- The elements one can call from outside. -/
def publicOnes (xs : List Val) : List Val := xs.filter fun x => is (x.get "publicaccess") "enabled"

/-- The name an element has outside, if it is not its number. -/
def publicname (x : Val) : Option String :=
  if (x.get "publicname").truthy then some (x.get "publicname").toStr else none

section Public

variable (g : Globals)

/-- An internal phone in `public-direct-dial`. -/
def publicInternalPhone (p : Val) : List Line :=
  let extension := (p.get "extension").toStr
  let noop := "1,NoOp(public calling internal phone: " ++ phoneLabel p ++ ")"
  let mark := "n,Set(_PICKUPMARK=" ++ extension ++ ")"
  .other ("; internal phone : " ++ phoneLabel p) ::
  match publicname p with
  | none =>
    [.exten extension noop, .exten extension mark] ++
      generateInternalPhoneExtension g p true none none
  | some name =>
    -- the mark is set under the number also when the rest goes under the name
    [.exten name noop, .exten extension mark] ++
      generateInternalPhoneExtension g p true none (some name)

/-- An external phone in `public-direct-dial`. -/
def publicExternalPhone (p : Val) : List Line :=
  let noop := "1,NoOp(public calling external phone: " ++ phoneLabel p ++ ")"
  [.other ("; external phone : " ++ phoneLabel p),
    .exten ((publicname p).getD (p.get "extension").toStr) noop] ++
  generateExternalPhoneExtension g p true none (publicname p)

/-- A call group in `public-direct-dial`. -/
def publicCallgroup (cg : Val) : List Line :=
  let noop := "1,NoOp(public calling callgroup: " ++ groupLabel cg ++ ")"
  [.other ("; callgroup : " ++ groupLabel cg),
    .exten ((publicname cg).getD (cg.get "extension").toStr) noop] ++
  generateCallgroupExtension g cg true none (publicname cg)

/-- An application in `public-direct-dial`. -/
def publicApplication (a : Val) : List Line :=
  let exten := (publicname a).getD (extensionsPatternify (a.get "extension").toStr)
  [.other ("; application : " ++ (a.get "name").toStr),
    .exten exten ("1,NoOp(public calling application: " ++ (a.get "name").toStr ++ ")")] ++
  generateApplicationExtension a (some exten)

/-- A conference room in `public-direct-dial`. -/
def publicConferenceRoom (r : Val) : List Line :=
  let noop := "1,NoOp(public calling conference: " ++ roomLabel r ++ ")"
  [.other ("; conference room : " ++ roomLabel r),
    .exten ((publicname r).getD (r.get "number").toStr) noop] ++
  generateConferenceRoomExtension r (publicname r)

/-- The context `public-direct-dial`. -/
def publicDirectDial (l : Lists) : List Line :=
  [.context "public-direct-dial"] ++
  (publicOnes (enabled l.internalPhones)).flatMap (publicInternalPhone g) ++
  (publicOnes (enabled l.externalPhones)).flatMap (publicExternalPhone g) ++
  (publicOnes (withExtension l.callgroups)).flatMap (publicCallgroup g) ++
  (publicOnes (enabled l.applications)).flatMap publicApplication ++
  (publicOnes l.conferenceRooms).flatMap publicConferenceRoom ++
  [.other ""]

end Public

section Internal

variable (g : Globals)

/-- The first two lines of an extension in `internal`. -/
def internalHead (comment exten what : String) : List Line :=
  [.other ("; " ++ comment), .exten exten ("1,NoOp(internal calling " ++ what ++ ")")]

/-- An internal phone in `internal`. -/
def internalInternalPhone (p : Val) : List Line :=
  internalHead ("internal phone : " ++ phoneLabel p) (p.get "extension").toStr
    ("internal phone: " ++ phoneLabel p) ++
  generateInternalPhoneExtension g p false none none

/-- An external phone in `internal`. -/
def internalExternalPhone (p : Val) : List Line :=
  internalHead ("external phone : " ++ phoneLabel p) (p.get "extension").toStr
    ("external phone: " ++ phoneLabel p) ++
  generateExternalPhoneExtension g p false none none

/-- A call group in `internal`. -/
def internalCallgroup (cg : Val) : List Line :=
  internalHead ("callgroup : " ++ groupLabel cg) (cg.get "extension").toStr
    ("callgroup: " ++ groupLabel cg) ++
  generateCallgroupExtension g cg false none none

/-- An application in `internal`. -/
def internalApplication (a : Val) : List Line :=
  let exten := extensionsPatternify (a.get "extension").toStr
  internalHead ("application : " ++ (a.get "name").toStr) exten
    ("application: " ++ (a.get "name").toStr) ++
  generateApplicationExtension a (some exten)

/-- A conference room in `internal`. -/
def internalConferenceRoom (r : Val) : List Line :=
  internalHead ("conference room : " ++ roomLabel r) (r.get "number").toStr
    ("conference: " ++ roomLabel r) ++
  generateConferenceRoomExtension r none

/-- A virtual fax in `internal`. -/
def internalVirtualFax (f : Val) : List Line :=
  internalHead ("virtual fax : " ++ phoneLabel f) (f.get "extension").toStr
    ("virtual fax: " ++ phoneLabel f) ++
  generateVirtualFaxExtension f none

/-- An analog fax in `internal`. -/
def internalAnalogFax (f : Val) : List Line :=
  internalHead ("analog fax : " ++ phoneLabel f) (f.get "extension").toStr
    ("analog fax: " ++ phoneLabel f) ++
  generateAnalogFaxExtension g f none

/-- The context `internal`. -/
def internalContext (l : Lists) : List Line :=
  [Line.context "internal"] ++
  (enabled l.internalPhones).flatMap (internalInternalPhone g) ++
  (enabled l.externalPhones).flatMap (internalExternalPhone g) ++
  (withExtension l.callgroups).flatMap (internalCallgroup g) ++
  (enabled l.applications).flatMap internalApplication ++
  l.conferenceRooms.flatMap internalConferenceRoom ++
  (enabled l.virtualFaxes).flatMap internalVirtualFax ++
  (enabled l.analogFaxes).flatMap (internalAnalogFax g) ++
  [Line.other "; parking lot"] ++ generateParkinglot g ++
  [Line.other "; sip device hints"] ++ generateHints l.sipPhones ++
  [Line.other "", .other "; hangup logic",
    .exten "h" "1,NoOp(Entering the internal context hangup extension)",
    .exten "h" "n,Macro(missedcallmail)", .other ""]

end Internal

section Accounts

variable (g : Globals)

/-- The contexts of a provider. -/
def providerContexts (p : Val) : List Line :=
  (if (p.get "defaultfax").truthy || (p.get "incomingextensionmap").count != 0 then
    .other ("; incoming provider : " ++ (p.get "name").toStr) ::
      generateProviderIncomingContext g p
  else []) ++
  (if (p.get "dialpattern").count != 0 then
    .other ("; outgoing provider : " ++ (p.get "name").toStr) ::
      generateProviderOutgoingContext g p
  else []) ++
  [.other ""]

/-- `$tmp` of `sip_get_hosts_with_multiple_accounts()` -/
def accountsOfHosts (sipProviders : List Val) : Val :=
  (enabled sipProviders).foldl
    (fun tmp p => tmp.set (p.get "host").key ((tmp.idx (p.get "host").key).push (p.get "uniqid")))
    (.arr [])

/-- `sip_get_hosts_with_multiple_accounts()` -/
def sipGetHostsWithMultipleAccounts (sipProviders : List Val) : List (Key × Val) :=
  (accountsOfHosts sipProviders).entries.filter fun e => e.2.count > 1

/-- The context for a host with several SIP accounts. -/
def multiContext (e : Key × Val) : List Line :=
  [.other ("; multiple SIP Provider accounts found for host : " ++ e.1.toStr),
    .context ("SIP-PROVIDER-" ++ e.1.toStr ++ "-incoming")] ++
  e.2.vals.map fun id =>
    let sp := getElement g (.provider .sip) id.toStr
    .exten (sp.get "username").toStr ("1,Goto(" ++ (sp.get "uniqid").toStr ++ "-incoming,s,1)")

/-- The contexts of a phone. -/
def phoneContexts (providers : List Val) (includeUri : Bool) (p : Val) : List Line :=
  [Line.other ("; " ++ phoneLabel p), .context (p.get "uniqid").toStr,
    .other "include => internal",
    .other ("include => " ++ (p.get "uniqid").toStr ++ "-outgoing")] ++
  linesIf includeUri [.other "include => outgoing-uri"] ++ [Line.other ""] ++
  generatePhoneOutgoingContext providers p ++ [Line.other ""]

end Accounts

/-- The context `outgoing-uri`. -/
def outgoingUri : List Line :=
  let uri := var "EXTEN" ++ "@" ++ var "SIPDOMAIN"
  [.context "outgoing-uri",
    .exten "_[0-9a-zA-Z*#]." ("1,NoOp(Direct dialing via SIP uri : " ++ uri ++ ")"),
    .exten "_[0-9a-zA-Z*#]." ("n,Dial(SIP/" ++ uri ++ ",,To)"), .other ""]

/-- The lines of `extensions.conf`, once the lists are fetched. -/
def confLines (env : Env) (l : Lists) (g : Globals) : List Line :=
  macros env g ++
  (enabled l.applications).flatMap (fun a => generateApplicationContext2 a ++ [Line.other ""]) ++
  [Line.other ""] ++
  (enabled l.virtualFaxes).flatMap (fun f => generateVirtualFaxContext env g f ++ [Line.other ""]) ++
  [Line.other ""] ++
  publicDirectDial g l ++ internalContext g l ++
  (enabled l.providers).flatMap (providerContexts g) ++
  (sipGetHostsWithMultipleAccounts l.sipProviders).flatMap (multiContext g) ++
  [Line.other ""] ++
  (enabled l.internalPhones).flatMap (phoneContexts l.providers true) ++
  (enabled l.analogFaxes).flatMap (phoneContexts l.providers false) ++
  outgoingUri

/-- `extensions_conf_generate(true)`: the text, and the configuration it leaves. -/
def extensionsConfGenerate (usort : Usort) (env : Env) (g : Globals) : String × Globals :=
  let (l, g) := fetchLists usort g
  (render (confLines env l g), g)

end Dialplan
end Askozia
