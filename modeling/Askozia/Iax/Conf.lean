import Askozia.Dialplan.Arrivals
import Askozia.Util.ConfLines

/-!
# `iax.conf` (`iax.inc`)

A provider has two sections: one under its `uniqid`, for calls that go out, and one under its username, for
calls that come in. What is typed in for a provider is only written into the second one.

* `reads_peers_and_users`: the text is read as these sections with these options.
* `user_contexts_exist_iff`: exactly when every context that `iax.conf` names is in `extensions.conf`.
-/

namespace Askozia
namespace Iax

open Php Config Pbx Util Dialplan Asterisk
open Asterisk.ConfLine (blank comment heading setting raw)

/-! ## The generator -/

section Generator

variable (env : ConfEnv)

/-- The general options. -/
def generalOptions (g : Globals) : List ConfLine :=
  let iaxconfig := (g.config.get "services").get "iax"
  [setting "context" "public-direct-dial",
    setting "bindport" (if (iaxconfig.get "port").isset then (iaxconfig.get "port").toStr else "4569"),
    setting "bindaddr" "0.0.0.0",
    setting "delayreject" "yes",
    setting "jitterbuffer" (if (iaxconfig.get "jbenable").isset then "yes" else "no"),
    setting "forcejitterbuffer" (if (iaxconfig.get "jbforce").isset then "yes" else "no")] ++
  utilGenManualAttributes (iaxconfig.get "manual-attribute") ++ [blank, blank]

/-- The registration that is put together for a provider. -/
def registerLine (p : Val) : String :=
  "register => " ++ (p.get "username").toStr ++
  (if (p.get "useoutkey").isset then ":[" ++ (p.get "uniqid").toStr ++ "]"
  else if (p.get "secret").truthy then ":" ++ (p.get "secret").toStr else "") ++
  "@" ++ (p.get "host").toStr ++
  if (p.get "port").truthy then ":" ++ (p.get "port").toStr else ""

/-- How a provider is authenticated: with a key, if `usekey` is set. -/
def authLines (usekey keyOption : String) (p : Val) : List ConfLine :=
  if (p.get usekey).isset then [setting "auth" "rsa", setting keyOption (p.get "uniqid").toStr]
  else
    [setting "auth" (if (p.get "authentication").looseEq (.str "md5") then "md5" else "plaintext"),
      setting "secret" (p.get "secret").toStr]

/-- What both sections of a provider have. -/
def commonOptions (p : Val) : List ConfLine :=
  [setting "host" (p.get "host").toStr] ++ optionalLine p "port" ++
  [setting "language" (fieldOr p "language" "en-us"), setting "qualify" (qualify env p),
    setting "transfer" "mediaonly", setting "disallow" "all"] ++
  (if (p.get "codec").isArray then allowLines (p.get "codec") else allowLine (p.get "codec")) ++
  [setting "permit" "0.0.0.0/0.0.0.0"]

/-- The options for calls that go out. -/
def peerOptions (p : Val) : List ConfLine :=
  [setting "type" "peer", setting "username" (p.get "username").toStr] ++
  authLines "useoutkey" "outkey" p ++ commonOptions env p ++
  utilGenManualAttributes (p.get "manual-attribute") ++ [blank, blank]

/-- The options for calls that come in. -/
def userOptions (p : Val) : List ConfLine :=
  [setting "type" "user"] ++ authLines "useinkey" "inkeys" p ++
  [setting "context" (incomingName p)] ++ commonOptions env p ++ attributeLines p ++ [blank, blank]

/-- The lines of a provider. -/
def providerLines (p : Val) : List ConfLine :=
  ([comment (p.get "name").toStr] ++ heading (p.get "uniqid").toStr :: peerOptions env p) ++
  ([comment ((p.get "name").toStr ++ " - incoming")] ++ heading (p.get "username").toStr :: userOptions env p)

/-- The keys of a provider that are written to files. -/
def keyFiles (p : Val) : List (String × String) :=
  (if (p.get "useoutkey").isset then
    [("/etc/asterisk/keys/" ++ (p.get "uniqid").toStr ++ ".key", base64Decode (p.get "outkey").toStr)] else []) ++
  if (p.get "useinkey").isset then
    [("/etc/asterisk/keys/" ++ (p.get "uniqid").toStr ++ ".pub", base64Decode (p.get "inkey").toStr)] else []

/-- The options of a phone. -/
def phoneOptions (p : Val) : List ConfLine :=
  [setting "type" "friend",
    setting "auth" (p.get "authentication").toStr,
    setting "secret" (p.get "secret").toStr,
    setting "context" (p.get "uniqid").toStr,
    setting "callerid" ((p.get "callerid").toStr ++ " <" ++ (p.get "extension").toStr ++ ">"),
    setting "host" "dynamic",
    setting "language" (p.get "language").toStr,
    setting "qualify" "yes",
    setting "transfer" "mediaonly",
    setting "disallow" "all"] ++
  allowLines (p.get "codec") ++ attributeLines p ++ [blank, blank]

/-- The lines of a phone. -/
def phoneLines (p : Val) : List ConfLine :=
  phoneComments p ++ heading (p.get "extension").toStr :: phoneOptions p

/-- The lines of `iax.conf`, once the lists are fetched. -/
def iaxLines (g : Globals) (iaxproviders phones : List Val) : List ConfLine :=
  [raw "\t"] ++ heading "general" :: (generalOptions g ++
    (enabled iaxproviders).flatMap (registrationLines registerLine)) ++
  (enabled iaxproviders).flatMap (providerLines env) ++ (enabled phones).flatMap phoneLines

/-- What `iax_conf_generate` leaves: the text, the files with keys, and the configuration. -/
structure Generated where
  text : String
  keys : List (String × String)
  globals : Globals

/-- `iax_conf_generate(true)` -/
def iaxConfGenerate (usort : Usort) (g : Globals) : Generated :=
  let (iaxproviders, g') := iaxGetProviders usort g
  let (phones, g'') := iaxGetPhones usort g'
  { text := renderConf (iaxLines env g iaxproviders phones)
    keys := (enabled iaxproviders).flatMap keyFiles
    globals := g'' }

end Generator

/-! ## What is pasted in -/

/-- The texts that are written are clean, and nothing that is typed in begins a section or has anything
foreign in it. -/
structure Pastable (env : ConfEnv) (g : Globals) : Prop where
  lists : ProperLists g.config
  system : env.Clean
  service : Clean ((g.config.get "services").get "iax")
  general : ∀ ma ∈ (((g.config.get "services").get "iax").get "manual-attribute").vals,
    (raw (base64Decode ma.toStr)).Tidy
  registrations : ∀ p ∈ enabled (elements g.config (.provider .iax)), RegisterTyped p
  peers : ∀ p ∈ enabled (elements g.config (.provider .iax)), AccountSpelled "uniqid" p ∧
    ∀ ma ∈ (p.get "manual-attribute").vals, (raw (base64Decode ma.toStr)).Tidy
  users : ∀ p ∈ enabled (elements g.config (.provider .iax)), AccountSpelled "username" p
  phones : ∀ p ∈ enabled (elements g.config (.phone .iax)), AccountSpelled "extension" p

section Body

variable {env : ConfEnv} {g : Globals} {p : Val}

theorem registerLine_spec (hp : Clean p) : RegisterLine (registerLine p) := by
  have hkey : clean (":[" ++ (p.get "uniqid").toStr ++ "]") = true := by
    rw [clean_append, clean_append, clean_get hp]
    rfl
  constructor
  · unfold registerLine
    rw [clean_append, clean_if (clean_colon hp _) rfl, clean_append, clean_append, clean_append, clean_append,
      clean_if hkey (clean_if (clean_colon hp _) rfl), clean_get hp, clean_get hp]
    rfl
  · unfold registerLine
    simp only [String.append_assoc]
    exact ⟨_, String.toList_append⟩

theorem body_generalOptions (h : Pastable env g) : Body (generalOptions g) := by
  unfold generalOptions
  refine .append (.append ?_ (body_utilGenManualAttributes h.general))
    (body_cons trivial rfl (body_cons trivial rfl body_nil))
  refine body_setting rfl rfl (body_setting rfl (clean_if (clean_get h.service _) rfl) ?_)
  refine body_setting rfl rfl (body_setting rfl rfl (body_setting rfl (clean_if rfl rfl) ?_))
  exact body_setting rfl (clean_if rfl rfl) body_nil

theorem body_authLines {usekey keyOption : String} (hp : Clean p)
    (hoption : ConfLine.isOptionName keyOption = true) : Body (authLines usekey keyOption p) :=
  body_ite (fun _ => body_setting rfl rfl (body_setting hoption (clean_get hp _) body_nil)) fun _ =>
    body_setting rfl (clean_if rfl rfl) (body_setting rfl (clean_get hp _) body_nil)

theorem body_commonOptions (henv : env.Clean) (hp : Clean p) : Body (commonOptions env p) := by
  unfold commonOptions
  refine .append (.append (.append (.append ?_ ?_) ?_) ?_) ?_
  · exact body_setting rfl (clean_get hp _) body_nil
  · exact body_optionalLine hp rfl
  · refine body_setting rfl (clean_fieldOr hp _ rfl) (body_setting rfl (clean_qualify henv) ?_)
    exact body_setting rfl rfl (body_setting rfl rfl body_nil)
  · exact body_ite (fun _ => body_allowLines (hp.get _)) fun _ => body_allowLine (hp.get _)
  · exact body_setting rfl rfl body_nil

theorem body_peerOptions (henv : env.Clean) (hp : Clean p)
    (h : ∀ ma ∈ (p.get "manual-attribute").vals, (raw (base64Decode ma.toStr)).Tidy) : Body (peerOptions env p) := by
  unfold peerOptions
  refine .append (.append (.append (.append ?_ ?_) ?_) ?_) ?_
  · exact body_setting rfl rfl (body_setting rfl (clean_get hp _) body_nil)
  · exact body_authLines hp rfl
  · exact body_commonOptions henv hp
  · exact body_utilGenManualAttributes h
  · exact body_cons trivial rfl (body_cons trivial rfl body_nil)

theorem body_userOptions (henv : env.Clean) (hp : Clean p) (h : Typed p) : Body (userOptions env p) := by
  unfold userOptions
  refine .append (.append (.append (.append (.append ?_ ?_) ?_) ?_) ?_) ?_
  · exact body_setting rfl rfl body_nil
  · exact body_authLines hp rfl
  · exact body_setting rfl (clean_incomingName hp) body_nil
  · exact body_commonOptions henv hp
  · exact body_attributeLines h
  · exact body_cons trivial rfl (body_cons trivial rfl body_nil)

theorem body_phoneOptions (hp : Clean p) (h : Typed p) : Body (phoneOptions p) := by
  have hfield : ∀ field, clean (p.get field).toStr = true := clean_get hp
  unfold phoneOptions
  refine .append (.append (.append ?_ ?_) ?_) ?_
  · refine body_setting rfl rfl (body_setting rfl (hfield _) (body_setting rfl (hfield _) ?_))
    refine body_setting rfl (hfield _) (body_setting rfl (clean_callerid hp) (body_setting rfl rfl ?_))
    refine body_setting rfl (hfield _) (body_setting rfl rfl (body_setting rfl rfl ?_))
    exact body_setting rfl rfl body_nil
  · exact body_allowLines (hp.get _)
  · exact body_attributeLines h
  · exact body_cons trivial rfl (body_cons trivial rfl body_nil)

end Body

/-! ## What is read -/

/-- The section of the general options, with the registrations. -/
def generalSection (g : Globals) (iaxproviders : List Val) : Section :=
  ("general",
    (generalOptions g ++ (enabled iaxproviders).flatMap (registrationLines registerLine)).flatMap ConfLine.options)

/-- The sections of a provider. -/
def providerSections (env : ConfEnv) (p : Val) : List Section :=
  [((p.get "uniqid").toStr, (peerOptions env p).flatMap ConfLine.options),
    ((p.get "username").toStr, (userOptions env p).flatMap ConfLine.options)]

/-- The section of a phone. -/
def phoneSection (p : Val) : Section :=
  ((p.get "extension").toStr, (phoneOptions p).flatMap ConfLine.options)

/-- What is read from the text is one section for the general options, two for each provider and one for
each phone that is not disabled, each with the options that are written for it. -/
theorem reads_peers_and_users (usort : Usort) {env : ConfEnv} {g : Globals} (h : Pastable env g) :
    sections (iaxConfGenerate env usort g).text =
      some (generalSection g (iaxGetProviders usort g).1 ::
        ((enabled (iaxGetProviders usort g).1).flatMap (providerSections env) ++
          (enabled (iaxGetPhones usort g).1).map phoneSection)) := by
  have hafter : (iaxGetPhones usort (iaxGetProviders usort g).2).1 = (iaxGetPhones usort g).1 :=
    getSortedCopy_eq usort _ h.lists (rearranged_initList h.lists _) (by decide) (by decide)
  have hregistrations : Body ((enabled (iaxGetProviders usort g).1).flatMap (registrationLines registerLine)) := by
    apply body_flatMap
    intro p hp
    have hp := (mem_enabled_congr (mem_getSortedCopy usort _ h.lists _)).1 hp
    have hclean := (h.users p hp).clean
    exact body_registrationLines hclean (registerLine_spec hclean) (h.registrations p hp)
  have hgeneral : Sectioned ([raw "\t"] ++ heading "general" :: (generalOptions g ++
      (enabled (iaxGetProviders usort g).1).flatMap (registrationLines registerLine)))
      [generalSection g (iaxGetProviders usort g).1] :=
    sectioned_of_body (body_cons (tidy_raw rfl rfl rfl) rfl body_nil) rfl
      ⟨by decide, by decide⟩ ((body_generalOptions h).append hregistrations)
  have hprovider : Sectioned ((enabled (iaxGetProviders usort g).1).flatMap (providerLines env))
      ((enabled (iaxGetProviders usort g).1).flatMap (providerSections env)) := by
    apply sectioned_flatMap
    intro p hp
    have hp := (mem_enabled_congr (mem_getSortedCopy usort _ h.lists _)).1 hp
    obtain ⟨hpeer, htyped⟩ := h.peers p hp
    have hclean := hpeer.clean
    have hincoming : clean ((p.get "name").toStr ++ " - incoming") = true := by
      rw [clean_append, clean_get hclean]
      rfl
    -- one section for calls out, and one for calls in
    have hout := sectioned_of_body (body_comment (clean_get hclean "name") body_nil) rfl
      (tidy_heading hpeer) (body_peerOptions h.system hclean htyped)
    have hin := sectioned_of_body (body_comment hincoming body_nil) rfl
      (tidy_heading (h.users p hp)) (body_userOptions h.system hclean (h.users p hp).typed)
    exact hout.append hin
  have hphone : Sectioned ((enabled (iaxGetPhones usort g).1).flatMap phoneLines)
      ((enabled (iaxGetPhones usort g).1).flatMap fun p => [phoneSection p]) := by
    apply sectioned_flatMap
    intro p hp
    have hspelled := h.phones p ((mem_enabled_congr (mem_getSortedCopy usort _ h.lists _)).1 hp)
    exact sectioned_of_body (body_phoneComments hspelled.clean) options_phoneComments (tidy_heading hspelled)
      (body_phoneOptions hspelled.clean hspelled.typed)
  have hsections := ((hgeneral.append hprovider).append hphone).sections
  have htext : (iaxConfGenerate env usort g).text =
      renderConf (iaxLines env g (iaxGetProviders usort g).1 (iaxGetPhones usort g).1) := by
    rw [← hafter]
    rfl
  rw [htext]
  unfold iaxLines
  rw [hsections, ← List.map_eq_flatMap]
  rfl

section BranchOffice

variable {maps : List Val} (h : maps = anyNumber ∨ maps = [])

include h

/-- Nothing is typed in for the accounts. -/
theorem checked_branchOffice :
    (∀ p ∈ enabled (elements (branchOffice maps) (.provider .iax)), Clean p ∧
      ']' ∉ (p.get "uniqid").toStr.toList ∧ ']' ∉ (p.get "username").toStr.toList ∧
      (p.get "manualattributes").truthy = false ∧ (p.get "manual-attribute").vals = [] ∧
      (p.get "manualregister").truthy = false) ∧
    ∀ p ∈ enabled (elements (branchOffice maps) (.phone .iax)), Clean p ∧
      ']' ∉ (p.get "extension").toStr.toList ∧ (p.get "manualattributes").truthy = false := by
  rcases h with rfl | rfl
  · decide
  · decide

theorem pastable_branchOffice : Pastable oneCard (indexed (branchOffice maps)) where
  lists := (wellFormed_branchOffice h).lists
  service := by
    rcases h with rfl | rfl
    · decide
    · decide
  system := clean_oneCard
  general := by
    intro ma hma
    cases hma
  -- nobody has manual attributes
  registrations := by
    intro p hp hmanual
    obtain ⟨-, -, -, -, -, hnone⟩ := (checked_branchOffice h).1 p hp
    rw [hnone] at hmanual
    cases hmanual
  peers := by
    intro p hp
    obtain ⟨hclean, hbracket, -, hnone, hvals, -⟩ := (checked_branchOffice h).1 p hp
    refine ⟨⟨hclean, hbracket, fun htyped => ?_⟩, fun ma hma => ?_⟩
    · rw [hnone] at htyped
      cases htyped
    · rw [hvals] at hma
      cases hma
  users := by
    intro p hp
    obtain ⟨hclean, -, hbracket, hnone, -⟩ := (checked_branchOffice h).1 p hp
    refine ⟨hclean, hbracket, fun htyped => ?_⟩
    rw [hnone] at htyped
    cases htyped
  phones := by
    intro p hp
    obtain ⟨hclean, hbracket, hnone⟩ := (checked_branchOffice h).2 p hp
    refine ⟨hclean, hbracket, fun htyped => ?_⟩
    rw [hnone] at htyped
    cases htyped

end BranchOffice

/-- The provider has two sections, and the secret of the phone is read as it is. -/
theorem reads_peers_and_users_branchOffice :
    ∃ ss, sections (iaxConfGenerate oneCard insertionUsort (indexed (branchOffice []))).text = some ss ∧
      ss.map Prod.fst = ["general", "IAX-PROVIDER-1", "4712", "21"] ∧
      ∃ s ∈ ss, s.1 = "21" ∧ lastValue s.2 "secret" = some "a=[b]" := by
  have hphone : ∃ p ∈ enabled (iaxGetPhones insertionUsort (indexed (branchOffice []))).1,
      (phoneSection p).1 = "21" ∧ lastValue (phoneSection p).2 "secret" = some "a=[b]" := by decide
  obtain ⟨p, hp, hsecret⟩ := hphone
  refine ⟨_, reads_peers_and_users insertionUsort (pastable_branchOffice (.inr rfl)), by decide, _, ?_, hsecret⟩
  exact List.mem_cons_of_mem _ (List.mem_append_right _ (List.mem_map_of_mem hp))

/-! ## Contexts -/

/-- What is typed in sets no context. -/
structure ContextsKept (config : Val) : Prop where
  general : ∀ ma ∈ (((config.get "services").get "iax").get "manual-attribute").vals,
    "context" ∉ (raw (base64Decode ma.toStr)).options.map Prod.fst
  registrations : ∀ p ∈ enabled (elements config (.provider .iax)), RegisterLeaves "context" p
  peers : ∀ p ∈ enabled (elements config (.provider .iax)), ∀ ma ∈ (p.get "manual-attribute").vals,
    "context" ∉ (raw (base64Decode ma.toStr)).options.map Prod.fst
  users : ∀ p ∈ enabled (elements config (.provider .iax)), TypedLeaves "context" p
  phones : ∀ p ∈ enabled (elements config (.phone .iax)), TypedLeaves "context" p

section Contexts

variable {env : ConfEnv} {g : Globals} {p : Val} {iaxproviders : List Val}

theorem lastValue_general (hall : ∀ p ∈ enabled iaxproviders, Clean p)
    (hgeneral : ∀ ma ∈ (((g.config.get "services").get "iax").get "manual-attribute").vals,
      "context" ∉ (raw (base64Decode ma.toStr)).options.map Prod.fst)
    (hregistrations : ∀ p ∈ enabled iaxproviders, RegisterLeaves "context" p) :
    lastValue (generalSection g iaxproviders).2 "context" = some "public-direct-dial" := by
  have hregister : Leaves "context" ((enabled iaxproviders).flatMap (registrationLines registerLine)) :=
    leaves_flatMap fun p hp => leaves_registrationLines (by decide) (registerLine_spec (hall p hp))
      (hregistrations p hp)
  unfold generalSection generalOptions
  simp only [List.append_assoc, List.cons_append]
  refine (lastValue_setting (a := []) ?_).trans (by decide)
  simp [leaves_utilGenManualAttributes hgeneral, hregister]

theorem leaves_authLines {usekey keyOption : String} (h : "context" ≠ keyOption) :
    Leaves "context" (authLines usekey keyOption p) := by
  refine leaves_ite (fun _ => ?_) fun _ => ?_
  · simpa using h
  · simp

theorem leaves_commonOptions : Leaves "context" (commonOptions env p) := by
  have hcodec : Leaves "context" (if (p.get "codec").isArray then allowLines (p.get "codec")
      else allowLine (p.get "codec")) :=
    leaves_ite (fun _ => leaves_allowLines (by decide)) fun _ =>
      leaves_ite (fun _ => leaves_setting (by decide)) fun _ => leaves_nil
  unfold commonOptions
  simp [leaves_optionalLine, hcodec]

/-- The section for calls that go out names no context. -/
theorem lastValue_peer (h : ∀ ma ∈ (p.get "manual-attribute").vals,
      "context" ∉ (raw (base64Decode ma.toStr)).options.map Prod.fst) :
    lastValue ((peerOptions env p).flatMap ConfLine.options) "context" = none := by
  apply lastValue_of_leaves
  unfold peerOptions
  simp [leaves_authLines, leaves_commonOptions, leaves_utilGenManualAttributes h]

theorem lastValue_user (h : TypedLeaves "context" p) :
    lastValue ((userOptions env p).flatMap ConfLine.options) "context" = some (readValue (incomingName p)) := by
  have hsplit : userOptions env p = ([setting "type" "user"] ++ authLines "useinkey" "inkeys" p) ++
      setting "context" (incomingName p) :: (commonOptions env p ++ attributeLines p ++ [blank, blank]) := by
    unfold userOptions
    simp only [List.append_assoc, List.cons_append, List.nil_append]
  rw [hsplit]
  apply lastValue_setting
  simp [leaves_commonOptions, leaves_attributeLines h]

theorem lastValue_phone (h : TypedLeaves "context" p) :
    lastValue (phoneSection p).2 "context" = some (readValue (p.get "uniqid").toStr) := by
  unfold phoneSection phoneOptions
  simp only [List.append_assoc, List.cons_append]
  refine lastValue_setting (a := [setting "type" "friend", setting "auth" (p.get "authentication").toStr,
    setting "secret" (p.get "secret").toStr]) ?_
  simp [leaves_allowLines, leaves_attributeLines h]

end Contexts

/-- Every context that `iax.conf` names is in `extensions.conf` exactly if each provider that is not disabled
has a fax or a map for incoming calls. -/
theorem user_contexts_exist_iff (usort : Usort) (env : Env) (system : ConfEnv) {config : Val}
    (h : WellFormed config) (hid : Identified config) (hplain : PlainIds config)
    (hs : Spelled env (fetchLists usort (indexed config)).1 (fetchLists usort (indexed config)).2)
    (hpaste : Pastable system (indexed config)) (hkept : ContextsKept config) :
    ContextsExist (iaxConfGenerate system usort (indexed config)).text
        (extensionsConfGenerate usort env (indexed config)).1 ↔
      ∀ p ∈ enabled (elements config (.provider .iax)), hasIncoming p = true := by
  have hmem : ∀ p, p ∈ enabled (iaxGetProviders usort (indexed config)).1 ↔
      p ∈ enabled (elements config (.provider .iax)) := fun p =>
    mem_enabled_congr (mem_getSortedCopy usort _ (g := indexed config) h.lists _)
  -- a user's section ends with the context its calls go to
  have huser : ∀ p ∈ enabled (elements config (.provider .iax)),
      lastValue ((userOptions system p).flatMap ConfLine.options) "context" = some (incomingName p) := by
    intro p hp
    rw [lastValue_user (hkept.users p hp),
      readValue_incomingName (hs.providers p (mem_enabled_providers usort h (by decide) hp)).uniqid]
  unfold ContextsExist
  rw [reads_peers_and_users usort hpaste]
  constructor
  · rintro ⟨ss, hsome, hexist⟩ p hp
    obtain rfl := Option.some.inj hsome
    have hsection : ((p.get "username").toStr, (userOptions system p).flatMap ConfLine.options) ∈
        generalSection (indexed config) (iaxGetProviders usort (indexed config)).1 ::
          ((enabled (iaxGetProviders usort (indexed config)).1).flatMap (providerSections system) ++
            (enabled (iaxGetPhones usort (indexed config)).1).map phoneSection) := by
      refine List.mem_cons_of_mem _ (List.mem_append_left _ (List.mem_flatMap.2 ⟨p, (hmem p).2 hp, ?_⟩))
      exact List.mem_cons_of_mem _ (List.mem_singleton_self _)
    have hwritten := hexist _ hsection _ (huser p hp)
    rwa [incoming_written_iff usort env h hid hplain hs (by decide) hp] at hwritten
  · intro hall
    refine ⟨_, rfl, fun s hs' name hvalue => ?_⟩
    -- the general section, a provider's two sections, a phone's one
    rcases List.mem_cons.1 hs' with rfl | hs'
    · rw [lastValue_general (fun p hp => (hpaste.users p ((hmem p).1 hp)).clean)
        hkept.general fun p hp => hkept.registrations p ((hmem p).1 hp)] at hvalue
      obtain rfl := Option.some.inj hvalue
      exact direct_written usort env hs
    rcases List.mem_append.1 hs' with hs' | hs'
    · obtain ⟨p, hp, hs'⟩ := List.mem_flatMap.1 hs'
      have hp := (hmem p).1 hp
      rcases List.mem_cons.1 hs' with rfl | hs'
      · rw [lastValue_peer (hkept.peers p hp)] at hvalue
        cases hvalue
      · obtain rfl := List.mem_singleton.1 hs'
        rw [huser p hp] at hvalue
        obtain rfl := Option.some.inj hvalue
        rw [incoming_written_iff usort env h hid hplain hs (by decide) hp]
        exact hall p hp
    · obtain ⟨p, hp, rfl⟩ := List.mem_map.1 hs'
      have hp := (mem_enabled_congr (mem_getSortedCopy usort _ (g := indexed config) h.lists _)).1 hp
      rw [lastValue_phone (hkept.phones p hp),
        readValue_plainId (hs.internalPhones p (mem_enabled_phones usort h.lists hp)).1.uniqid] at hvalue
      obtain rfl := Option.some.inj hvalue
      exact phone_written usort env h.lists hs hp

theorem contextsKept_branchOffice {maps : List Val} (h : maps = anyNumber ∨ maps = []) :
    ContextsKept (branchOffice maps) where
  general := by
    intro ma hma
    cases hma
  registrations := by
    intro p hp hmanual
    obtain ⟨-, -, -, -, -, hnone⟩ := (checked_branchOffice h).1 p hp
    rw [hnone] at hmanual
    cases hmanual
  peers := by
    intro p hp ma hma
    obtain ⟨-, -, -, -, hvals, -⟩ := (checked_branchOffice h).1 p hp
    rw [hvals] at hma
    cases hma
  users := by
    intro p hp htyped
    obtain ⟨-, -, -, hnone, -⟩ := (checked_branchOffice h).1 p hp
    rw [hnone] at htyped
    cases htyped
  phones := by
    intro p hp htyped
    rw [((checked_branchOffice h).2 p hp).2.2] at htyped
    cases htyped

/-- With a map for incoming calls there is every context, and without one there is not. -/
theorem user_contexts_exist_branchOffice :
    ContextsExist (iaxConfGenerate oneCard insertionUsort (indexed (branchOffice anyNumber))).text
        (extensionsConfGenerate insertionUsort plainEnv (indexed (branchOffice anyNumber))).1 ∧
      ¬ ContextsExist (iaxConfGenerate oneCard insertionUsort (indexed (branchOffice []))).text
        (extensionsConfGenerate insertionUsort plainEnv (indexed (branchOffice []))).1 := by
  -- both offices at once: what they differ in is not looked at until the end
  have hexists : ∀ maps, maps = anyNumber ∨ maps = [] →
      (ContextsExist (iaxConfGenerate oneCard insertionUsort (indexed (branchOffice maps))).text
        (extensionsConfGenerate insertionUsort plainEnv (indexed (branchOffice maps))).1 ↔
      ∀ p ∈ enabled (elements (branchOffice maps) (.provider .iax)), hasIncoming p = true) := fun maps h =>
    user_contexts_exist_iff insertionUsort plainEnv oneCard (wellFormed_branchOffice h) (identified_branchOffice h).1 (identified_branchOffice h).2
      (spelled_branchOffice h) (pastable_branchOffice h) (contextsKept_branchOffice h)
  constructor
  · rw [hexists _ (.inl rfl)]
    decide
  · rw [hexists _ (.inr rfl)]
    decide

end Iax
end Askozia
