import Askozia.Sip.Phones
import Askozia.Util.ConfLines

/-!
# `sip.conf` (`sip.inc`)

`sip_conf_generate` writes general options, registrations, and a section for each provider and each
phone that is not disabled. Names and passwords are pasted in as they are.

* `renderConf_phoneLines`: the lines of a phone are its text.
* `reads_accounts`: the text is read as these sections with these options. No field adds a section or an
  option to another one, unless it has a line break, or what is typed in begins a section.
-/

namespace Askozia
namespace Sip

open Php Config Pbx Util Network Dialplan Asterisk
open Asterisk.ConfLine (blank comment heading setting raw)

/-! ## The generator -/

section Generator

variable (env : ConfEnv)

/-- The base address of a network. -/
def baseAddress (ipaddr subnet : Val) : String :=
  long2ip (long ipaddr.toStr &&& genSubnetMaskLong (toNumber subnet.toStr))

/-- `localnet=...` -/
def localnet (ipaddr subnet : Val) : ConfLine :=
  setting "localnet" (baseAddress ipaddr subnet ++ "/" ++ subnet.toStr)

/-- The NAT config. -/
def natLines (lancfg : Val) : List ConfLine :=
  (if (lancfg.get "topology").looseEq (.str "natstatic") then
    [setting "externip" (lancfg.get "extipaddr").toStr]
  else if (lancfg.get "topology").looseEq (.str "natdynamichost") then
    [setting "externhost" (lancfg.get "exthostname").toStr, setting "externrefresh" "10"]
  else []) ++
  if (lancfg.get "topology").truthy && !(lancfg.get "topology").looseEq (.str "public") then
    if (lancfg.get "dhcp").isset then
      let laninfo := env.networkGetInterface (lancfg.get "if").toStr
      [localnet (laninfo.get "ipaddr") (laninfo.get "subnet")]
    else [localnet (lancfg.get "ipaddr") (lancfg.get "subnet")]
  else []

/-- A line for a field that is set. -/
def issetLine (p : Val) (field : String) : List ConfLine :=
  if (p.get field).isset then [setting field (p.get field).toStr] else []

/-- The general options. -/
def generalOptions (g : Globals) : List ConfLine :=
  let sipconfig := (g.config.get "services").get "sip"
  let lancfg := (g.config.get "interfaces").get "lan"
  let laninfo := env.networkGetInterface (lancfg.get "if").toStr
  [setting "context" "public-direct-dial",
    setting "allowoverlap" "no",
    setting "bindport" (if (sipconfig.get "port").isset then (sipconfig.get "port").toStr else "5060"),
    setting "bindaddr" "0.0.0.0",
    setting "srvlookup" (if (sipconfig.get "disablesrv").isset then "no" else "yes"),
    setting "useragent" "AskoziaPBX",
    setting "relaxdtmf" "yes",
    setting "alwaysauthreject" "yes",
    setting "videosupport" "yes",
    setting "notifybusy" "yes",
    setting "counteronpeer" "yes",
    setting "notifyhold" "no",
    setting "pedantic" "yes",
    setting "callcounter" "yes"] ++
  issetLine sipconfig "defaultexpiry" ++ issetLine sipconfig "minexpiry" ++ issetLine sipconfig "maxexpiry" ++
  [setting "snomautoprovisioningurl"
    ("http://" ++ (laninfo.get "ipaddr").toStr ++ ":56080/snom.php?mac=\x7bmac\x7d"), blank] ++
  natLines env lancfg ++ utilGenManualAttributes (sipconfig.get "manual-attribute") ++ [blank, blank]

/-- The registration that is put together for a provider. -/
def registerLine (p : Val) : String :=
  "register => " ++ (p.get "username").toStr ++
  (if (p.get "secret").truthy then
    ":" ++ (p.get "secret").toStr ++
    (if (p.get "authuser").truthy then ":" ++ (p.get "authuser").toStr else "")
  else "") ++
  "@" ++ (p.get "host").toStr ++
  (if (p.get "port").truthy then ":" ++ (p.get "port").toStr else "") ++
  "/" ++ (p.get "username").toStr

/-- The options of a provider. -/
def providerOptions (sipproviders : List Val) (p : Val) : List ConfLine :=
  [setting "type" "friend",
    setting "defaultuser" (p.get "username").toStr,
    setting "secret" (p.get "secret").toStr] ++
  optionalLine p "fromuser" ++
  [setting "host" (p.get "host").toStr] ++
  optionalLine p "port" ++
  [setting "context" (sipContext sipproviders p),
    setting "fromdomain" (fieldOr p "fromdomain" (p.get "host").toStr),
    setting "language" (fieldOr p "language" "en-us"),
    setting "nat" (fieldOr p "natmode" "yes"),
    setting "qualify" (qualify env p),
    setting "directmedia" "no",
    setting "insecure" "port,invite",
    setting "dtmfmode" (fieldOr p "dtmfmode" "auto"),
    setting "disallow" "all"] ++
  allowLines (p.get "codec") ++ attributeLines p ++ [blank, blank]

/-- The lines of a provider. -/
def providerLines (sipproviders : List Val) (p : Val) : List ConfLine :=
  [comment (p.get "name").toStr] ++ heading (p.get "uniqid").toStr :: providerOptions env sipproviders p

/-- The options of a phone. -/
def phoneOptions (g : Globals) (p : Val) : List ConfLine :=
  [setting "type" "friend",
    setting "secret" (p.get "secret").toStr,
    setting "context" (p.get "uniqid").toStr,
    setting "callerid" ((p.get "callerid").toStr ++ " <" ++ (p.get "extension").toStr ++ ">"),
    setting "host" "dynamic",
    setting "language" (p.get "language").toStr,
    setting "nat" (p.get "natmode").toStr,
    setting "dtmfmode" (p.get "dtmfmode").toStr,
    setting "qualify" "yes",
    setting "directmedia" "no"] ++
  (if strlen (p.get "busylevel") then [setting "busylevel" (p.get "busylevel").toStr] else []) ++
  (if (p.get "vmtoemail").looseEq (.str "enabled") &&
      (storageServiceIsActive g "voicemailarchive").truthy then
    [setting "mailbox" (p.get "extension").toStr] else []) ++
  [setting "disallow" "all"] ++ allowLines (p.get "codec") ++
  issetLine p "snom-mac" ++ attributeLines p ++ [blank, blank]

/-- The lines of a phone. -/
def phoneLines (g : Globals) (p : Val) : List ConfLine :=
  phoneComments p ++ heading (p.get "extension").toStr :: phoneOptions g p

/-- The lines before the phones. -/
def sipLines (g : Globals) (sipproviders : List Val) : List ConfLine :=
  [raw "\t"] ++ heading "general" :: (generalOptions env g ++
    (enabled sipproviders).flatMap (registrationLines registerLine)) ++
  (enabled sipproviders).flatMap (providerLines env sipproviders)

/-- `sip_conf_generate(true)`: the text, and the configuration it leaves. -/
def sipConfGenerate (usort : Usort) (g : Globals) : String × Globals :=
  let (sipproviders, g') := sipGetProviders usort g
  let (phones, g'') := sipGetPhones usort g'
  (renderConf (sipLines env g sipproviders) ++ String.join (phones.map (phoneConf g'')), g'')

end Generator

/-! ## The lines of a phone -/

section Phone

variable {g : Globals} {p : Val}

theorem renderConf_allowLines (codec : Val) : renderConf (allowLines codec) = codecLines codec := by
  unfold allowLines codecLines
  split_ifs
  · generalize codec.vals = xs
    induction xs with
    | nil => rfl
    | cons x r ih =>
      rw [List.flatMap_cons, renderConf_append, ih, List.map_cons, String.join_cons]
      congr 1
      unfold allowLine
      split_ifs
      · rw [renderConf_cons, renderConf_nil, String.append_empty, ConfLine.text]
        rfl
      · rfl
  · rfl

theorem renderConf_attributeLines : renderConf (attributeLines p) =
    if (p.get "manualattributes").truthy then
      "; manual attributes\n" ++ base64Decode (p.get "manualattributes").toStr ++ "\n" ++
        "; end manual attributes\n" else "" := by
  have hstart : "; manual attributes\n" = "; " ++ "manual attributes" ++ "\n" := by decide
  have hend : "; end manual attributes\n" = "; " ++ "end manual attributes" ++ "\n" := by decide
  unfold attributeLines
  split_ifs
  · simp only [renderConf_cons, renderConf_nil, ConfLine.text, hstart, hend, String.append_assoc, String.append_empty]
  · rfl

/-- The lines of a phone are its text. -/
theorem renderConf_phoneLines (h : (p.get "disabled").isset = false) :
    renderConf (phoneLines g p) = phoneConf g p := by
  have hheading : "]\n" = "]" ++ "\n" ∧ ">\n" = ">" ++ "\n" := by decide
  have hcomments : "; Caller ID: " = "; " ++ "Caller ID: " ∧ "; Description: " = "; " ++ "Description: " := by decide
  have hfixed : "type=friend\n" = "type" ++ "=" ++ "friend" ++ "\n" ∧
      "host=dynamic\n" = "host" ++ "=" ++ "dynamic" ++ "\n" ∧
      "qualify=yes\n" = "qualify" ++ "=" ++ "yes" ++ "\n" ∧
      "directmedia=no\n" = "directmedia" ++ "=" ++ "no" ++ "\n" ∧
      "disallow=all\n" = "disallow" ++ "=" ++ "all" ++ "\n" := by decide
  have hfields : "secret=" = "secret" ++ "=" ∧ "context=" = "context" ++ "=" ∧ "callerid=" = "callerid" ++ "=" ∧
      "language=" = "language" ++ "=" ∧ "nat=" = "nat" ++ "=" ∧ "dtmfmode=" = "dtmfmode" ++ "=" ∧
      "busylevel=" = "busylevel" ++ "=" ∧ "mailbox=" = "mailbox" ++ "=" ∧ "snom-mac=" = "snom-mac" ++ "=" := by
    decide
  have hend : "\n\n" = "\n" ++ "\n" := by decide
  have hone : ∀ (c : Bool) (line : ConfLine),
      renderConf (if c then [line] else []) = if c then line.text ++ "\n" else "" := by
    intro c line
    split_ifs
    · rw [renderConf_cons, renderConf_nil, String.append_empty]
    · rfl
  unfold phoneLines phoneComments phoneOptions phoneConf issetLine
  rw [h, if_neg Bool.false_ne_true]
  simp only [renderConf_append, renderConf_cons, renderConf_nil, hone, renderConf_allowLines,
    renderConf_attributeLines, ConfLine.text, hheading, hcomments, hfixed, hfields, hend, String.append_assoc,
    String.append_empty, String.empty_append]

end Phone

/-! ## What is pasted in -/

/-- The texts that are written are clean, and nothing that is typed in begins a section or has anything
foreign in it. -/
structure Pastable (env : ConfEnv) (g : Globals) : Prop where
  lists : ProperLists g.config
  system : env.Clean
  service : Clean ((g.config.get "services").get "sip")
  lan : Clean ((g.config.get "interfaces").get "lan")
  general : ∀ ma ∈ (((g.config.get "services").get "sip").get "manual-attribute").vals,
    (raw (base64Decode ma.toStr)).Tidy
  registrations : ∀ p ∈ enabled (elements g.config (.provider .sip)), RegisterTyped p
  providers : ∀ p ∈ enabled (elements g.config (.provider .sip)), AccountSpelled "uniqid" p
  phones : ∀ p ∈ enabled (elements g.config (.phone .sip)), AccountSpelled "extension" p

section Body

variable {env : ConfEnv} {g : Globals} {p : Val} {value : String}

theorem body_issetLine {field : String} (hp : Clean p) (h : ConfLine.isOptionName field = true) :
    Body (issetLine p field) :=
  body_ite (fun _ => body_setting h (clean_get hp field) body_nil) fun _ => body_nil

theorem clean_baseAddress {ipaddr subnet : Val} : clean (baseAddress ipaddr subnet) = true := by
  unfold baseAddress long2ip
  apply clean_implode (by decide)
  intro s hs
  simp only [List.mem_cons, List.not_mem_nil, or_false] at hs
  rcases hs with rfl | rfl | rfl | rfl
  all_goals exact clean_toString _

theorem body_localnet {ipaddr subnet : Val} (h : Clean subnet) : Body [localnet ipaddr subnet] := by
  refine body_setting rfl ?_ body_nil
  rw [clean_append, clean_append, clean_baseAddress, clean_toStr h]
  rfl

theorem body_natLines (henv : env.Clean) (hp : Clean p) : Body (natLines env p) := by
  unfold natLines
  refine .append (body_ite (fun _ => ?_) fun _ => body_ite (fun _ => ?_) fun _ => body_nil)
    (body_ite (fun _ => body_ite (fun _ => ?_) fun _ => ?_) fun _ => body_nil)
  · exact body_setting rfl (clean_get hp _) body_nil
  · exact body_setting rfl (clean_get hp _) (body_setting rfl rfl body_nil)
  · exact body_localnet ((henv.interface _).get _)
  · exact body_localnet (hp.get _)

theorem body_generalOptions (h : Pastable env g) : Body (generalOptions env g) := by
  have hurl : ∀ ip : Val, Clean ip →
      clean ("http://" ++ ip.toStr ++ ":56080/snom.php?mac=\x7bmac\x7d") = true := by
    intro ip hip
    rw [clean_append, clean_append, clean_toStr hip]
    rfl
  unfold generalOptions
  refine .append (.append (.append (.append (.append (.append (.append ?_ ?_) ?_) ?_) ?_) ?_) ?_) ?_
  · refine body_setting rfl rfl (body_setting rfl rfl (body_setting rfl (clean_if (clean_get h.service _) rfl) (body_setting rfl rfl ?_)))
    refine body_setting rfl (clean_if rfl rfl) (body_setting rfl rfl (body_setting rfl rfl (body_setting rfl rfl ?_)))
    refine body_setting rfl rfl (body_setting rfl rfl (body_setting rfl rfl (body_setting rfl rfl ?_)))
    exact body_setting rfl rfl (body_setting rfl rfl body_nil)
  · exact body_issetLine h.service rfl
  · exact body_issetLine h.service rfl
  · exact body_issetLine h.service rfl
  · exact body_setting rfl (hurl _ ((h.system.interface _).get _)) (body_cons trivial rfl body_nil)
  · exact body_natLines h.system h.lan
  · exact body_utilGenManualAttributes h.general
  · exact body_cons trivial rfl (body_cons trivial rfl body_nil)

/-- A registration that is put together is a clean line. -/
theorem registerLine_spec (hp : Clean p) : RegisterLine (registerLine p) := by
  have hsecret : clean (if (p.get "secret").truthy then ":" ++ (p.get "secret").toStr ++
      (if (p.get "authuser").truthy then ":" ++ (p.get "authuser").toStr else "") else "") = true := by
    refine clean_if ?_ rfl
    rw [clean_append, clean_colon hp, clean_if (clean_colon hp _) rfl]
    rfl
  have hport : clean (if (p.get "port").truthy then ":" ++ (p.get "port").toStr else "") = true :=
    clean_if (clean_colon hp _) rfl
  constructor
  · unfold registerLine
    simp only [clean_append, hsecret, hport, clean_get hp]
    rfl
  · unfold registerLine
    simp only [String.append_assoc]
    exact ⟨_, String.toList_append⟩

/-- The hosts that are reported are those of accounts. -/
theorem host_of_mem {sipproviders : List Val} {e : Key × Val}
    (he : e ∈ sipGetHostsWithMultipleAccounts sipproviders) : ∃ q ∈ enabled sipproviders, e.1 = hostKey q := by
  have hgroups := Val.foldl_group hostKey id (·.get "uniqid") (enabled sipproviders) fun _ _ _ _ => id
  have hentries := congrArg Val.entries hgroups
  have hmem : e ∈ (accountsOfHosts sipproviders).entries := List.mem_of_mem_filter he
  rw [show (accountsOfHosts sipproviders).entries = _ from hentries] at hmem
  obtain ⟨k, hk, rfl⟩ := List.mem_map.1 hmem
  obtain ⟨q, hq, rfl⟩ := List.mem_map.1 (List.mem_eraseDups.1 hk)
  exact ⟨q, hq, rfl⟩

theorem clean_sipContext {sipproviders : List Val} (hall : ∀ q ∈ enabled sipproviders, Clean q) (hp : Clean p) :
    clean (sipContext sipproviders p) = true := by
  have hincoming := clean_incomingName hp
  have hshared : ∀ e ∈ sipGetHostsWithMultipleAccounts sipproviders, clean (sharedName e.1) = true := by
    intro e he
    obtain ⟨q, hq, hkey⟩ := host_of_mem he
    rw [sharedName, clean_append, clean_append, hkey, hostKey, clean_key ((hall q hq).get _)]
    rfl
  unfold sipContext
  generalize sipGetHostsWithMultipleAccounts sipproviders = hosts at hshared ⊢
  generalize incomingName p = context at hincoming ⊢
  -- the last host that is the account's own is the one that counts
  induction hosts generalizing context with
  | nil => exact hincoming
  | cons e r ih =>
    rw [List.foldl_cons]
    apply ih (fun e' he' => hshared e' (List.mem_cons_of_mem _ he'))
    split_ifs
    · exact hshared e List.mem_cons_self
    · exact hincoming

theorem body_providerOptions {sipproviders : List Val} (henv : env.Clean)
    (hall : ∀ q ∈ enabled sipproviders, Clean q) (hp : Clean p) (h : Typed p) :
    Body (providerOptions env sipproviders p) := by
  unfold providerOptions
  refine .append (.append (.append (.append (.append (.append (.append ?_ ?_) ?_) ?_) ?_) ?_) ?_) ?_
  · exact body_setting rfl rfl (body_setting rfl (clean_get hp _) (body_setting rfl (clean_get hp _) body_nil))
  · exact body_optionalLine hp rfl
  · exact body_setting rfl (clean_get hp _) body_nil
  · exact body_optionalLine hp rfl
  · refine body_setting rfl (clean_sipContext hall hp) (body_setting rfl ?_ (body_setting rfl ?_ (body_setting rfl ?_ ?_)))
    · exact clean_fieldOr hp _ (clean_get hp _)
    · exact clean_fieldOr hp _ rfl
    · exact clean_fieldOr hp _ rfl
    · refine body_setting rfl (clean_qualify henv) (body_setting rfl rfl (body_setting rfl rfl ?_))
      exact body_setting rfl (clean_fieldOr hp _ rfl) (body_setting rfl rfl body_nil)
  · exact body_allowLines (hp.get _)
  · exact body_attributeLines h
  · exact body_cons trivial rfl (body_cons trivial rfl body_nil)

theorem body_phoneOptions (hp : Clean p) (h : Typed p) : Body (phoneOptions g p) := by
  have hfield : ∀ field, clean (p.get field).toStr = true := clean_get hp
  unfold phoneOptions
  refine .append (.append (.append (.append (.append (.append (.append ?_ ?_) ?_) ?_) ?_) ?_) ?_) ?_
  · refine body_setting rfl rfl (body_setting rfl (hfield _) (body_setting rfl (hfield _) ?_))
    refine body_setting rfl (clean_callerid hp) (body_setting rfl rfl (body_setting rfl (hfield _) ?_))
    refine body_setting rfl (hfield _) (body_setting rfl (hfield _) (body_setting rfl rfl ?_))
    exact body_setting rfl rfl body_nil
  · exact body_ite (fun _ => body_setting rfl (hfield _) body_nil) fun _ => body_nil
  · exact body_ite (fun _ => body_setting rfl (hfield _) body_nil) fun _ => body_nil
  · exact body_setting rfl rfl body_nil
  · exact body_allowLines (hp.get _)
  · exact body_issetLine hp rfl
  · exact body_attributeLines h
  · exact body_cons trivial rfl (body_cons trivial rfl body_nil)

end Body

/-! ## What is read -/

/-- The section of the general options, with the registrations. -/
def generalSection (env : ConfEnv) (g : Globals) (sipproviders : List Val) : Section :=
  ("general", (generalOptions env g ++ (enabled sipproviders).flatMap (registrationLines registerLine)).flatMap ConfLine.options)

/-- The section of a provider. -/
def providerSection (env : ConfEnv) (sipproviders : List Val) (p : Val) : Section :=
  ((p.get "uniqid").toStr, (providerOptions env sipproviders p).flatMap ConfLine.options)

/-- The section of a phone. -/
def phoneSection (g : Globals) (p : Val) : Section :=
  ((p.get "extension").toStr, (phoneOptions g p).flatMap ConfLine.options)

section Reads

variable {env : ConfEnv} {g : Globals} {p : Val} (usort : Usort)

/-- Fetching the lists changes no phone. -/
theorem sipGetPhones_after (h : ProperLists g.config) :
    (sipGetPhones usort (sipGetProviders usort g).2).1 = (sipGetPhones usort g).1 :=
  getSortedCopy_eq usort _ h (rearranged_initList h _) (by decide) (by decide)

theorem rearranged_sipConfGenerate (h : ProperLists g.config) : Rearranged g (sipConfGenerate env usort g).2 := by
  have h₁ := rearranged_initList h (.provider .sip)
  exact h₁.trans (rearranged_initList h₁.lists (.phone .sip))

/-- The disks are those there were. -/
theorem phoneOptions_congr {g' : Globals} (h : Rearranged g g') : phoneOptions g' p = phoneOptions g p := by
  have hdisks : storageGetDisks g' = storageGetDisks g := h.elements .disk (by decide) (by decide)
  unfold phoneOptions storageServiceIsActive
  rw [hdisks]

theorem phoneConf_join (g : Globals) (phones : List Val) :
    String.join (phones.map (phoneConf g)) = renderConf ((enabled phones).flatMap (phoneLines g)) := by
  induction phones with
  | nil => rfl
  | cons p r ih =>
    rw [List.map_cons, String.join_cons, ih]
    cases hdisabled : (p.get "disabled").isset with
    | true =>
      have hskipped : enabled (p :: r) = enabled r := List.filter_cons_of_neg (by rw [hdisabled]; decide)
      have hempty : phoneConf g p = "" := by
        unfold phoneConf
        rw [if_pos hdisabled]
      rw [hempty, String.empty_append, hskipped]
    | false =>
      have hkept : enabled (p :: r) = p :: enabled r := List.filter_cons_of_pos (by rw [hdisabled]; rfl)
      rw [hkept, List.flatMap_cons, renderConf_append, renderConf_phoneLines hdisabled]

theorem sipConfGenerate_text (h : ProperLists g.config) : (sipConfGenerate env usort g).1 =
    renderConf (sipLines env g (sipGetProviders usort g).1 ++
      (enabled (sipGetPhones usort g).1).flatMap (phoneLines (sipConfGenerate env usort g).2)) := by
  rw [renderConf_append, ← phoneConf_join, ← sipGetPhones_after usort h]
  rfl

end Reads

/-- What is read from the text is one section for the general options, one for each provider and one for
each phone that is not disabled, each with the options that are written for it. -/
theorem reads_accounts (usort : Usort) {env : ConfEnv} {g : Globals} (h : Pastable env g) :
    sections (sipConfGenerate env usort g).1 =
      some (generalSection env g (sipGetProviders usort g).1 ::
        ((enabled (sipGetProviders usort g).1).map (providerSection env (sipGetProviders usort g).1) ++
          (enabled (sipGetPhones usort g).1).map (phoneSection g))) := by
  have hspelled : ∀ p ∈ enabled (sipGetProviders usort g).1, AccountSpelled "uniqid" p := fun p hp =>
    h.providers p ((mem_enabled_congr (mem_getSortedCopy usort _ h.lists _)).1 hp)
  have hall : Rearranged g (sipConfGenerate env usort g).2 := rearranged_sipConfGenerate usort h.lists
  have hregistrations : Body ((enabled (sipGetProviders usort g).1).flatMap (registrationLines registerLine)) := by
    apply body_flatMap
    intro p hp
    have hclean := (hspelled p hp).clean
    exact body_registrationLines hclean (registerLine_spec hclean)
      (h.registrations p ((mem_enabled_congr (mem_getSortedCopy usort _ h.lists _)).1 hp))
  -- the registrations follow the general options and belong to their section
  have hgeneral : Sectioned ([raw "\t"] ++ heading "general" :: (generalOptions env g ++
      (enabled (sipGetProviders usort g).1).flatMap (registrationLines registerLine)))
      [generalSection env g (sipGetProviders usort g).1] :=
    sectioned_of_body (body_cons (tidy_raw rfl rfl rfl) rfl body_nil) rfl
      ⟨by decide, by decide⟩ ((body_generalOptions h).append hregistrations)
  have hprovider : Sectioned ((enabled (sipGetProviders usort g).1).flatMap
      (providerLines env (sipGetProviders usort g).1))
      ((enabled (sipGetProviders usort g).1).flatMap fun p => [providerSection env (sipGetProviders usort g).1 p]) := by
    apply sectioned_flatMap
    intro p hp
    have hclean := (hspelled p hp).clean
    exact sectioned_of_body (body_comment (clean_get hclean _) body_nil) rfl (tidy_heading (hspelled p hp))
      (body_providerOptions h.system (fun q hq => (hspelled q hq).clean) hclean (hspelled p hp).typed)
  have hphone : Sectioned ((enabled (sipGetPhones usort g).1).flatMap (phoneLines (sipConfGenerate env usort g).2))
      ((enabled (sipGetPhones usort g).1).flatMap fun p => [phoneSection g p]) := by
    apply sectioned_flatMap
    intro p hp
    have hphone := h.phones p ((mem_enabled_congr (mem_getSortedCopy usort _ h.lists _)).1 hp)
    unfold phoneLines phoneSection
    rw [phoneOptions_congr hall]
    exact sectioned_of_body (body_phoneComments hphone.clean) options_phoneComments (tidy_heading hphone)
      (body_phoneOptions hphone.clean hphone.typed)
  have hsections := ((hgeneral.append hprovider).append hphone).sections
  rw [sipConfGenerate_text usort h.lists]
  unfold sipLines
  rw [hsections, ← List.map_eq_flatMap, ← List.map_eq_flatMap]
  rfl

section BranchOffice

variable {maps : List Val} (h : maps = anyNumber ∨ maps = [])

include h

/-- Nothing is typed in for the accounts. -/
theorem checked_branchOffice :
    (∀ p ∈ enabled (elements (branchOffice maps) (.provider .sip)), Clean p ∧
      ']' ∉ (p.get "uniqid").toStr.toList ∧ (p.get "manualattributes").truthy = false ∧
      (p.get "manualregister").truthy = false) ∧
    ∀ p ∈ enabled (elements (branchOffice maps) (.phone .sip)), Clean p ∧
      ']' ∉ (p.get "extension").toStr.toList ∧ (p.get "manualattributes").truthy = false := by
  rcases h with rfl | rfl
  · decide
  · decide

theorem pastable_branchOffice : Pastable oneCard (indexed (branchOffice maps)) where
  lists := (wellFormed_branchOffice h).lists
  system := clean_oneCard
  service := by
    rcases h with rfl | rfl
    · decide
    · decide
  lan := by
    rcases h with rfl | rfl
    · decide
    · decide
  general := by
    intro ma hma
    cases hma
  -- nobody has manual attributes
  registrations := by
    intro p hp hmanual
    obtain ⟨-, -, -, hnone⟩ := (checked_branchOffice h).1 p hp
    rw [hnone] at hmanual
    cases hmanual
  providers := by
    intro p hp
    obtain ⟨hclean, hbracket, hnone, -⟩ := (checked_branchOffice h).1 p hp
    refine ⟨hclean, hbracket, fun htyped => ?_⟩
    rw [hnone] at htyped
    cases htyped
  phones := by
    intro p hp
    obtain ⟨hclean, hbracket, hnone⟩ := (checked_branchOffice h).2 p hp
    refine ⟨hclean, hbracket, fun htyped => ?_⟩
    rw [hnone] at htyped
    cases htyped

end BranchOffice

/-- There is a section for each account, and the brackets in the secret of the phone begin none. -/
theorem reads_accounts_branchOffice :
    ∃ ss, sections (sipConfGenerate oneCard insertionUsort (indexed (branchOffice []))).1 = some ss ∧
      ss.map Prod.fst = ["general", "SIP-PROVIDER-1", "20"] ∧
      ∃ s ∈ ss, s.1 = "20" ∧ lastValue s.2 "secret" = some "a=[b]" := by
  have hphone : ∃ p ∈ enabled (sipGetPhones insertionUsort (indexed (branchOffice []))).1,
      (phoneSection (indexed (branchOffice [])) p).1 = "20" ∧
        lastValue (phoneSection (indexed (branchOffice [])) p).2 "secret" = some "a=[b]" := by decide
  obtain ⟨p, hp, hsecret⟩ := hphone
  refine ⟨_, reads_accounts insertionUsort (pastable_branchOffice (.inr rfl)), by decide, _, ?_, hsecret⟩
  exact List.mem_cons_of_mem _ (List.mem_append_right _ (List.mem_map_of_mem hp))

end Sip
end Askozia
