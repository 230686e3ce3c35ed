import Askozia.Pbx.Accounts

/-!
# The channels of the telephony cards (`dahdi.inc`, `redfone.inc`)

`chan_dahdi_conf_generate` writes one stanza of `chan_dahdi.conf` for every port that an analog or
ISDN account uses: options, then `channel =>` with the channels of the port. Providers may use a
port, a group of ports or a span of a Redfone gateway.

The variable `$portgroup` is set when a provider uses a group of ports, and keeps its value from
then on, through both loops over providers.
-/

namespace Askozia
namespace Dahdi

open Php Config Pbx

/-! ## Text -/

/-- A line of `chan_dahdi.conf`. -/
inductive ChanLine where
  /-- `; text` -/
  | comment (text : String)
  /-- `key=value` -/
  | option (key value : String)
  /-- Decoded manual attributes, which may be several lines. -/
  | manual (text : String)
  /-- `channel => value` -/
  | channel (value : String)
deriving DecidableEq, Repr

/-- The text of a line. -/
def ChanLine.render : ChanLine → String
  | comment text => "; " ++ text ++ "\n"
  | option key value => key ++ "=" ++ value ++ "\n"
  | manual text => text ++ "\n"
  | channel value => "channel => " ++ value ++ "\n"

/-- A value used as an integer: the digits it starts with. -/
def intval (v : Val) : ℤ := (Val.digitsValue (v.toStr.toList.takeWhile Char.isDigit) : ℕ)

/-- `$v + $n` -/
def plus (v : Val) (n : ℤ) : String := toString (intval v + n)

/-- Lines for an account with manual attributes. -/
def manualAttributes (account : Val) : List ChanLine :=
  if (account.get "manualattributes").truthy then
    [.comment "manual attributes",
      .manual (base64Decode (account.get "manualattributes").toStr),
      .comment "end manual attributes"]
  else []

/-- `echocancel`, from the field that says how many taps. -/
def echocancel (taps : Val) : ChanLine :=
  .option "echocancel" (if is taps "disable" then "no" else taps.toStr)

/-- `faxdetect`, for a provider with a default fax. -/
def faxdetect (provider : Val) : List ChanLine :=
  if (provider.get "defaultfax").truthy then [.option "faxdetect" "incoming"] else []

/-- The gains of a port. -/
def gains (port : Val) : List ChanLine :=
  [.option "rxgain" (port.get "rxgain").toStr, .option "txgain" (port.get "txgain").toStr]

/-- The value of `callerid` of a phone or fax. -/
def callerid (account : Val) : String :=
  (account.get "callerid").toStr ++ " <" ++ (account.get "extension").toStr ++ ">"

/-- The value of `group` of a provider, given the group of ports in `$portgroup`. -/
def groupValue (portgroup pport : Val) : String :=
  if portgroup.truthy then
    (pport.get "basechannel").toStr ++ "," ++ (portgroup.get "number").toStr
  else (pport.get "basechannel").toStr

/-! ## Redfone spans -/

/-- The gateway in the name of a span: `substr($port, 0, -2)`. -/
def spanGateway (port : String) : String := String.ofList (port.toList.take (port.toList.length - 2))

/-- The number of a span: `substr($port, -1)`. -/
def spanNumber (port : String) : String := String.ofList port.toList.getLast?.toList

/-- A field of a span of a gateway. -/
def spanField (gateway : Val) (spannum field : String) : Val :=
  gateway.get ("span" ++ spannum ++ field)

/-- `redfone_get_span_basechannel`, given the gateway. -/
def redfoneGetSpanBasechannel (gateway : Val) (spannumber : String) : ℤ :=
  ((List.range (intval (.str spannumber)).toNat).drop 1).foldl
    (fun basechannel i =>
      if is (spanField gateway (toString i) "type") "E1" then basechannel + 31
      else basechannel + 24) 1

/-! ## Stanzas -/

/-- The accounts that have channels. -/
inductive Account where
  | analogProvider (provider : Val)
  | analogPhone (phone : Val)
  | analogFax (fax : Val)
  | redfoneProvider (provider : Val)
  | isdnProvider (provider : Val)
  | isdnPhone (phone : Val)
deriving DecidableEq

/-- What a stanza is written from: an account, the port (or gateway) it uses, and what is in
`$portgroup` at that point. -/
structure Stanza where
  account : Account
  port : Val
  portgroup : Val
deriving DecidableEq

/-- The number of the span a Redfone provider uses. -/
def redfoneSpan (provider : Val) : String := spanNumber (provider.get "port").toStr

/-- `foreach ($prefixes as $prefix) if (isset($provider[$prefix])) ...` -/
def dialPrefixes (provider : Val) : List ChanLine :=
  ["internationalprefix", "nationalprefix", "localprefix", "privateprefix"].filterMap fun field =>
    if (provider.get field).isset then some (.option field (provider.get field).toStr) else none

/-- The options of a stanza, up to its `channel` line. -/
def Stanza.options (s : Stanza) : List ChanLine :=
  match s.account with
  | .analogProvider provider =>
    [.comment ("Provider: " ++ (provider.get "name").toStr ++ ", Port " ++
        (s.port.get "name").toStr),
      .option "signalling" ("fxs_" ++ (s.port.get "startsignaling").toStr)] ++
    gains s.port ++ [echocancel (s.port.get "echo-taps")] ++ faxdetect provider ++
    [.option "busydetect" "yes", .option "busycount" "3",
      .option "language" (provider.get "language").toStr,
      .option "context" ((provider.get "uniqid").toStr ++ "-incoming"),
      .option "group" (groupValue s.portgroup s.port)] ++
    manualAttributes provider
  | .analogPhone phone =>
    [.comment ("Phone: " ++ (phone.get "extension").toStr), .option "callerid" (callerid phone),
      .option "signalling" ("fxo_" ++ (s.port.get "startsignaling").toStr),
      .option "transfer" "yes", .option "callwaiting" "yes",
      .option "callwaitingcallerid" "yes"] ++
    gains s.port ++ [echocancel (s.port.get "echo-taps")] ++
    [.option "busydetect" "yes", .option "busycount" "3",
      .option "language" (phone.get "language").toStr,
      .option "context" (phone.get "uniqid").toStr,
      .option "group" (s.port.get "basechannel").toStr] ++
    manualAttributes phone
  | .analogFax fax =>
    [.comment ("Fax: " ++ (fax.get "extension").toStr), .option "callerid" (callerid fax),
      .option "signalling" ("fxo_" ++ (s.port.get "startsignaling").toStr)] ++
    gains s.port ++
    [.option "echocancel" "no", .option "busydetect" "yes", .option "busycount" "3",
      .option "context" (fax.get "uniqid").toStr,
      .option "group" (s.port.get "basechannel").toStr]
  | .redfoneProvider provider =>
    let spannum := redfoneSpan provider
    [.comment ("Provider: " ++ (provider.get "name").toStr), .option "signalling" "pri_cpe",
      echocancel (spanField s.port spannum "echo-taps"),
      .option "language" (provider.get "language").toStr,
      .option "context" ((provider.get "uniqid").toStr ++ "-incoming"),
      .option "group" (toString (redfoneGetSpanBasechannel s.port spannum))] ++
    manualAttributes provider ++
    -- behind what is typed in, so it counts
    [.option "switchtype"
      (if is (spanField s.port spannum "type") "E1" then "euroisdn" else "national")]
  | .isdnProvider provider =>
    [.comment ("Provider: " ++ (provider.get "name").toStr ++ ", Port " ++
        (s.port.get "name").toStr),
      .option "signalling" (s.port.get "signaling").toStr] ++
    gains s.port ++ [echocancel (s.port.get "echo-taps")] ++ faxdetect provider ++
    [.option "language" (provider.get "language").toStr,
      .option "context" ((provider.get "uniqid").toStr ++ "-incoming"),
      .option "group" (groupValue s.portgroup s.port)] ++
    dialPrefixes provider ++ manualAttributes provider
  | .isdnPhone phone =>
    [.comment ("Phone: " ++ (phone.get "extension").toStr), .option "callerid" (callerid phone),
      .option "signalling" "bri_net_ptmp", .option "transfer" "yes", .option "callwaiting" "yes",
      .option "callwaitingcallerid" "yes", .option "facilityenable" "yes",
      .option "overlapdial" "yes"] ++
    gains s.port ++ [echocancel (s.port.get "echo-taps")] ++
    [.option "language" (phone.get "language").toStr,
      .option "context" (phone.get "uniqid").toStr,
      .option "group" (s.port.get "basechannel").toStr] ++
    manualAttributes phone

/-- The channels of a stanza. -/
def Stanza.channels (s : Stanza) : String :=
  let base := s.port.get "basechannel"
  match s.account with
  | .analogProvider _ => base.toStr
  | .analogPhone _ => base.toStr
  | .analogFax _ => base.toStr
  | .redfoneProvider provider =>
    let spannum := redfoneSpan provider
    let first := redfoneGetSpanBasechannel s.port spannum
    if is (spanField s.port spannum "type") "E1" then
      -- the sixteenth channel of an E1 carries the signalling
      toString first ++ "-" ++ toString (first + 14) ++ "," ++ toString (first + 16) ++ "-" ++
        toString (first + 30)
    else toString first ++ "-" ++ toString (first + 22)
  | .isdnProvider _ => base.toStr ++ "-" ++ plus base 1
  | .isdnPhone _ => base.toStr ++ "-" ++ plus base 1

/-- The lines of a stanza. -/
def Stanza.lines (s : Stanza) : List ChanLine := s.options ++ [.channel s.channels]

/-! ## The generator -/

section Generator

variable (g : Globals)

/-- The ports of a provider, and `$portgroup` after they have been looked up. -/
def providerPorts (provider portgroup : Val) : List Val × Val :=
  let port := (provider.get "port").toStr
  if strstr port "DAHDIPORT-" then ([getElement g .dahdiPort port], portgroup)
  else if strstr port "DAHDIPORTGROUP-" then
    let portgroup := getElement g .dahdiPortgroup port
    ((portgroup.get "groupmember").vals.map fun member => getElement g .dahdiPort member.toStr,
      portgroup)
  else ([], portgroup)

/-- The stanzas of an analog provider, and `$portgroup` after them. -/
def analogProvider (provider portgroup : Val) : List Stanza × Val :=
  let (ports, portgroup) := providerPorts g provider portgroup
  (ports.map fun pport => ⟨.analogProvider provider, pport, portgroup⟩, portgroup)

/-- The stanzas of an ISDN provider, and `$portgroup` after them. -/
def isdnProvider (provider portgroup : Val) : List Stanza × Val :=
  let port := (provider.get "port").toStr
  if strstr port "REDFONE" then
    ([⟨.redfoneProvider provider, getElement g .redfoneGateway (spanGateway port), portgroup⟩],
      portgroup)
  else if strstr port "DAHDI" then
    let (ports, portgroup) := providerPorts g provider portgroup
    (ports.map fun pport => ⟨.isdnProvider provider, pport, portgroup⟩, portgroup)
  else ([], portgroup)

/-- A loop over providers, with `$portgroup` before and after it. -/
def providerLoop (body : Val → Val → List Stanza × Val) : List Val → Val → List Stanza × Val
  | [], portgroup => ([], portgroup)
  | provider :: rest, portgroup =>
    if (provider.get "disabled").isset then providerLoop body rest portgroup
    else
      let (stanzas, portgroup) := body provider portgroup
      let (others, portgroup) := providerLoop body rest portgroup
      (stanzas ++ others, portgroup)

/-- A loop over phones or faxes. -/
def accountLoop (account : Val → Account) (elements : List Val) : List Stanza :=
  (elements.filter fun e => !(e.get "disabled").isset).map fun e =>
    ⟨account e, getElement g .dahdiPort (e.get "port").toStr, .null⟩

end Generator

/-- The lists `chan_dahdi_conf_generate` goes through. -/
structure Lists where
  analogProviders : List Val
  analogPhones : List Val
  analogFaxes : List Val
  isdnProviders : List Val
  isdnPhones : List Val

/-- The lists, fetched in the order of the source. -/
def fetchLists (usort : Usort) (g : Globals) : Lists × Globals :=
  let (analogProviders, g) := analogGetProviders usort g
  let (analogPhones, g) := analogGetPhones usort g
  let (analogFaxes, g) := analogGetFaxes usort g
  let (isdnProviders, g) := isdnGetProviders usort g
  let (isdnPhones, g) := isdnGetPhones usort g
  (⟨analogProviders, analogPhones, analogFaxes, isdnProviders, isdnPhones⟩, g)

/-- The stanzas for some lists of accounts. -/
def stanzas (g : Globals) (l : Lists) : List Stanza :=
  let (analogProviders, portgroup) := providerLoop (analogProvider g) l.analogProviders .null
  let (isdnProviders, _) := providerLoop (isdnProvider g) l.isdnProviders portgroup
  analogProviders ++ accountLoop g .analogPhone l.analogPhones ++
    accountLoop g .analogFax l.analogFaxes ++ isdnProviders ++
    accountLoop g .isdnPhone l.isdnPhones

/-- The name of a port, for a comment. -/
def portName (port : Val) : String :=
  if (port.get "name").truthy then (port.get "name").toStr else "default"

/-- The comment about a port. -/
def portInfo (port : Val) : String :=
  if is (port.get "technology") "analog" then
    "; analog " ++ (port.get "type").toStr ++ " channel " ++ (port.get "basechannel").toStr ++
      " (" ++ portName port ++ ") is on card " ++ (port.get "card").toStr ++ "\n"
  else if is (port.get "technology") "isdn" then
    "; isdn " ++ (port.get "type").toStr ++ " port, basechannel " ++
      (port.get "basechannel").toStr ++ " (" ++ portName port ++ ") is on card " ++
      (port.get "card").toStr ++ " w/" ++ (port.get "totalchannels").toStr ++ " channels\n"
  else ""

/-- The comment about a gateway. -/
def gatewayInfo (gateway : Val) : String :=
  "; Redfone gateway (" ++ (gateway.get "gwname").toStr ++ ") with " ++
    (gateway.get "spancount").toStr ++ " spans\n"

/-- The text before the stanzas. -/
def chanHeader (g : Globals) : String :=
  "; Hardware Info\n" ++ String.join ((elements g.config .redfoneGateway).map gatewayInfo) ++
    String.join ((dahdiGetPorts g).map portInfo) ++ "\n[trunkgroups]\n\n[channels]\n"

/-- The text of a stanza. -/
def Stanza.render (s : Stanza) : String := String.join (s.lines.map ChanLine.render) ++ "\n"

/-- `chan_dahdi_conf_generate(true)` -/
def chanDahdiConfGenerate (usort : Usort) (g : Globals) : String :=
  let (l, g') := fetchLists usort g
  chanHeader g ++ String.join ((stanzas g' l).map Stanza.render) ++ "\n"

end Dahdi
end Askozia
