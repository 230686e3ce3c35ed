import Askozia.Dialplan.Arrivals
import Askozia.Sip.Conf

/-!
# The contexts of `sip.conf` (`sip.inc`, `dialplan.inc`)

`sip_conf_generate` names a context in every section, and `extensions_conf_generate` writes contexts.
Neither asks the other which there are.

* `contexts_exist_iff`: exactly when every context that `sip.conf` names is in `extensions.conf`.
-/

namespace Askozia
namespace Sip

open Php Config Pbx Util Dialplan Asterisk
open Asterisk.ConfLine (blank comment heading setting raw)

/-- What is typed in sets no context. -/
structure ContextsKept (config : Val) : Prop where
  general : ∀ ma ∈ (((config.get "services").get "sip").get "manual-attribute").vals,
    "context" ∉ (raw (base64Decode ma.toStr)).options.map Prod.fst
  registrations : ∀ p ∈ enabled (elements config (.provider .sip)), RegisterLeaves "context" p
  providers : ∀ p ∈ enabled (elements config (.provider .sip)), TypedLeaves "context" p
  phones : ∀ p ∈ enabled (elements config (.phone .sip)), TypedLeaves "context" p

section Options

variable {env : ConfEnv} {g : Globals} {p : Val} {config : Val} {sipproviders : List Val}

theorem leaves_issetLine {option field : String} (h : option ≠ field) : Leaves option (issetLine p field) :=
  leaves_ite (fun _ => leaves_setting h) fun _ => leaves_nil

theorem leaves_natLines : Leaves "context" (natLines env p) := by
  unfold natLines
  refine leaves_append.2 ⟨leaves_ite (fun _ => ?_) fun _ => leaves_ite (fun _ => ?_) fun _ => leaves_nil,
    leaves_ite (fun _ => leaves_ite (fun _ => ?_) fun _ => ?_) fun _ => leaves_nil⟩
  · exact leaves_setting (by decide)
  · exact leaves_cons.2 ⟨by simp, leaves_setting (by decide)⟩
  · exact leaves_setting (by decide)
  · exact leaves_setting (by decide)

theorem lastValue_general (hall : ∀ p ∈ enabled sipproviders, Clean p)
    (hgeneral : ∀ ma ∈ (((g.config.get "services").get "sip").get "manual-attribute").vals,
      "context" ∉ (raw (base64Decode ma.toStr)).options.map Prod.fst)
    (hregistrations : ∀ p ∈ enabled sipproviders, RegisterLeaves "context" p) :
    lastValue (generalSection env g sipproviders).2 "context" = some "public-direct-dial" := by
  have hregister : Leaves "context" ((enabled sipproviders).flatMap (registrationLines registerLine)) :=
    leaves_flatMap fun p hp => leaves_registrationLines (by decide) (registerLine_spec (hall p hp))
      (hregistrations p hp)
  unfold generalSection generalOptions
  simp only [List.append_assoc, List.cons_append]
  refine (lastValue_setting (a := []) ?_).trans (by decide)
  simp [leaves_issetLine, leaves_natLines, leaves_utilGenManualAttributes hgeneral, hregister]

theorem lastValue_provider (h : TypedLeaves "context" p) :
    lastValue (providerSection env sipproviders p).2 "context" = some (readValue (sipContext sipproviders p)) := by
  have hsplit : providerOptions env sipproviders p =
      ([setting "type" "friend", setting "defaultuser" (p.get "username").toStr,
        setting "secret" (p.get "secret").toStr] ++ optionalLine p "fromuser" ++
        [setting "host" (p.get "host").toStr] ++ optionalLine p "port") ++
      setting "context" (sipContext sipproviders p) ::
        ([setting "fromdomain" (fieldOr p "fromdomain" (p.get "host").toStr),
          setting "language" (fieldOr p "language" "en-us"), setting "nat" (fieldOr p "natmode" "yes"),
          setting "qualify" (qualify env p), setting "directmedia" "no", setting "insecure" "port,invite",
          setting "dtmfmode" (fieldOr p "dtmfmode" "auto"), setting "disallow" "all"] ++
        allowLines (p.get "codec") ++ attributeLines p ++ [blank, blank]) := by
    unfold providerOptions
    simp only [List.append_assoc, List.cons_append, List.nil_append]
  unfold providerSection
  rw [hsplit]
  apply lastValue_setting
  simp [leaves_allowLines, leaves_attributeLines h]

theorem lastValue_phone (h : TypedLeaves "context" p) :
    lastValue (phoneSection g p).2 "context" = some (readValue (p.get "uniqid").toStr) := by
  unfold phoneSection phoneOptions
  simp only [List.append_assoc, List.cons_append]
  refine lastValue_setting (a := [setting "type" "friend", setting "secret" (p.get "secret").toStr]) ?_
  simp [leaves_issetLine, leaves_allowLines, leaves_attributeLines h, leaves_ite]

end Options

/-! ## Both files -/

section Both

variable {config : Val} {p : Val} (usort : Usort)

/-- The generator of `extensions.conf` has the accounts of `sip.conf`. -/
theorem fetchLists_sipProviders (h : ProperLists config) :
    (fetchLists usort (indexed config)).1.sipProviders = (sipGetProviders usort (indexed config)).1 :=
  getSortedCopy_eq usort _ (g := indexed config) h (rearranged_fetchLists usort (g := indexed config) h) (by decide)
    (by decide)

/-- Other accounts have the host, too. -/
def sharesHost (config p : Val) : Prop :=
  1 < ((enabled (elements config (.provider .sip))).filter (hostKey · == hostKey p)).length

instance (config p : Val) : Decidable (sharesHost config p) := inferInstanceAs (Decidable (1 < _))

theorem sharesHost_iff (h : ProperLists config) :
    sharesHost config p ↔ 1 < (accountsOn (fetchLists usort (indexed config)).1 p).length := by
  have hperm := (((perm_sipProviders usort h).filter fun x => !(x.get "disabled").isset).filter
    (hostKey · == hostKey p)).length_eq
  unfold sharesHost
  rw [show (accountsOn (fetchLists usort (indexed config)).1 p).length = _ from hperm]
  rfl

theorem readValue_sharedName (hid : Identified config) (hp : p ∈ elements config (.provider .sip))
    (h : ';' ∉ (p.get "host").toStr.toList) : readValue (sharedName (hostKey p)) = sharedName (hostKey p) := by
  rw [sharedName_toStr hid hp]
  have hlist : ("SIP-PROVIDER-" ++ (p.get "host").toStr ++ "-incoming").toList =
      "SIP-PROVIDER-".toList ++ ((p.get "host").toStr.toList ++ "-incoming".toList) := by
    rw [String.toList_append, String.toList_append, List.append_assoc]
  have hlast : ("SIP-PROVIDER-" ++ (p.get "host").toStr ++ "-incoming").toList.getLast? = some 'g' := by
    rw [String.toList_append, List.getLast?_append]
    rfl
  apply readValue_eq
  · rw [hlist]
    simpa using h
  · rw [hlist]
    exact fun hhead => absurd (Option.some.inj hhead) (by decide)
  · rw [hlist]
    rintro c ⟨⟩
    decide
  · rw [hlast]
    rintro c ⟨⟩
    decide

end Both

/-- Every context that `sip.conf` names is in `extensions.conf` exactly if each provider that is not disabled
has a fax, or a map for incoming calls, or a host that other accounts have, too. -/
theorem contexts_exist_iff (usort : Usort) (env : Env) (system : ConfEnv) {config : Val} (h : WellFormed config) (hid : Identified config) (hplain : PlainIds config)
    (hs : Spelled env (fetchLists usort (indexed config)).1 (fetchLists usort (indexed config)).2)
    (hpaste : Pastable system (indexed config)) (hkept : ContextsKept config) :
    ContextsExist (sipConfGenerate system usort (indexed config)).1
        (extensionsConfGenerate usort env (indexed config)).1 ↔
      ∀ p ∈ enabled (elements config (.provider .sip)), hasIncoming p = true ∨ sharesHost config p := by
  have hl := fetched usort h
  have haccounts := fetchLists_sipProviders usort h.lists
  have hmem : ∀ p, p ∈ enabled (sipGetProviders usort (indexed config)).1 ↔
      p ∈ enabled (elements config (.provider .sip)) := fun p =>
    mem_enabled_congr (mem_getSortedCopy usort _ (g := indexed config) h.lists _)
  have haccount : ∀ p ∈ enabled (elements config (.provider .sip)),
      p ∈ enabled (fetchLists usort (indexed config)).1.sipProviders := by
    intro p hp
    rw [haccounts]
    exact (hmem p).2 hp
  -- the accounts of a host with several have a context in common
  have hcontext : ∀ p ∈ enabled (elements config (.provider .sip)),
      lastValue (providerSection system (sipGetProviders usort (indexed config)).1 p).2 "context" =
        some (if sharesHost config p then sharedName (hostKey p) else incomingName p) := by
    intro p hp
    have hsip := sipContext_eq h hid hl (haccount p hp)
    rw [haccounts] at hsip
    rw [lastValue_provider (hkept.providers p hp), hsip]
    by_cases hshares : sharesHost config p
    · rw [if_pos hshares, if_pos ((sharesHost_iff usort h.lists).1 hshares),
        readValue_sharedName hid (mem_enabled.1 hp).1
          (semicolon_not_mem_of_clean (clean_get (hpaste.providers p hp).clean "host"))]
    · rw [if_neg hshares, if_neg fun hmany => hshares ((sharesHost_iff usort h.lists).2 hmany),
        readValue_incomingName (hs.providers p (mem_enabled_providers usort h (by decide) hp)).uniqid]
  have hgeneral : lastValue (generalSection system (indexed config) (sipGetProviders usort (indexed config)).1).2
      "context" = some "public-direct-dial" :=
    lastValue_general (fun p hp => (hpaste.providers p ((hmem p).1 hp)).clean) hkept.general fun p hp => hkept.registrations p ((hmem p).1 hp)
  unfold ContextsExist
  rw [reads_accounts usort hpaste]
  constructor
  · rintro ⟨ss, hsome, hexist⟩ p hp
    obtain rfl := Option.some.inj hsome
    by_cases hshares : sharesHost config p
    · exact .inr hshares
    · have hsection := List.mem_cons_of_mem
        (generalSection system (indexed config) (sipGetProviders usort (indexed config)).1)
        (List.mem_append_left ((enabled (sipGetPhones usort (indexed config)).1).map (phoneSection (indexed config)))
          (List.mem_map_of_mem (f := providerSection system (sipGetProviders usort (indexed config)).1) ((hmem p).2 hp)))
      have hwritten := hexist _ hsection _ (hcontext p hp)
      rw [if_neg hshares, incoming_written_iff usort env h hid hplain hs (by decide) hp] at hwritten
      exact .inl hwritten
  · intro hall
    refine ⟨_, rfl, fun s hs' name hvalue => ?_⟩
    rcases List.mem_cons.1 hs' with rfl | hs'
    · rw [hgeneral] at hvalue
      obtain rfl := Option.some.inj hvalue
      exact direct_written usort env hs
    rcases List.mem_append.1 hs' with hs' | hs'
    · obtain ⟨p, hp, rfl⟩ := List.mem_map.1 hs'
      have hp := (hmem p).1 hp
      rw [hcontext p hp] at hvalue
      obtain rfl := Option.some.inj hvalue
      split_ifs with hshares
      · rw [extensionsConfGenerate_text]
        exact shared_exists hs (haccount p hp) ((sharesHost_iff usort h.lists).1 hshares)
      · rw [incoming_written_iff usort env h hid hplain hs (by decide) hp]
        exact (hall p hp).resolve_right hshares
    · obtain ⟨p, hp, rfl⟩ := List.mem_map.1 hs'
      have hp := (mem_enabled_congr (mem_getSortedCopy usort _ (g := indexed config) h.lists _)).1 hp
      rw [lastValue_phone (hkept.phones p hp),
        readValue_plainId (hs.internalPhones p (mem_enabled_phones usort h.lists hp)).1.uniqid] at hvalue
      obtain rfl := Option.some.inj hvalue
      exact phone_written usort env h.lists hs hp

section BranchOffice

variable {maps : List Val} (h : maps = anyNumber ∨ maps = [])

include h

theorem contextsKept_branchOffice : ContextsKept (branchOffice maps) where
  general := by
    intro ma hma
    cases hma
  registrations := by
    intro p hp hmanual
    rw [((checked_branchOffice h).1 p hp).2.2.2] at hmanual
    cases hmanual
  providers := by
    intro p hp htyped
    rw [((checked_branchOffice h).1 p hp).2.2.1] at htyped
    cases htyped
  phones := by
    intro p hp htyped
    rw [((checked_branchOffice h).2 p hp).2.2] at htyped
    cases htyped

end BranchOffice

/-- With a map for incoming calls there is every context, and without one there is not. -/
theorem contexts_exist_branchOffice :
    ContextsExist (sipConfGenerate oneCard insertionUsort (indexed (branchOffice anyNumber))).1
        (extensionsConfGenerate insertionUsort plainEnv (indexed (branchOffice anyNumber))).1 ∧
      ¬ ContextsExist (sipConfGenerate oneCard insertionUsort (indexed (branchOffice []))).1
        (extensionsConfGenerate insertionUsort plainEnv (indexed (branchOffice []))).1 := by
  -- both offices at once: what they differ in is not looked at until the end
  have hexists : ∀ maps, maps = anyNumber ∨ maps = [] →
      (ContextsExist (sipConfGenerate oneCard insertionUsort (indexed (branchOffice maps))).1
        (extensionsConfGenerate insertionUsort plainEnv (indexed (branchOffice maps))).1 ↔
      ∀ p ∈ enabled (elements (branchOffice maps) (.provider .sip)),
        hasIncoming p = true ∨ sharesHost (branchOffice maps) p) := fun maps h =>
    contexts_exist_iff insertionUsort plainEnv oneCard (wellFormed_branchOffice h)
      (identified_branchOffice h).1 (identified_branchOffice h).2 (spelled_branchOffice h) (pastable_branchOffice h)
      (contextsKept_branchOffice h)
  constructor
  · rw [hexists _ (.inl rfl)]
    decide
  · rw [hexists _ (.inr rfl)]
    decide

end Sip
end Askozia
