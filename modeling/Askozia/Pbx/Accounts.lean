import Askozia.Config.Elements
import Askozia.Php.Compare
import Askozia.Php.Text

/-!
# Accounts (`pbx.inc`, `sip.inc`, `callgroups.inc` and the other account files)

The functions that list the elements of a kind, and those that find one by its `uniqid`. Every
list function first makes the list an array, and most then sort a copy of it;
`callgroups_get_groups` and `conferencing_get_rooms` sort the stored list itself.
-/

namespace Askozia
namespace Pbx

open Php Config

/-! ## Comparison functions -/

/-- `pbx_sort_by_name` -/
def pbxSortByName (a b : Val) : ℤ := strcmp (a.get "name").toStr (b.get "name").toStr

/-- Compares a field with `==` and `<`. -/
def compareField (field : String) (a b : Val) : ℤ :=
  if (a.get field).looseEq (b.get field) then 0
  else if (a.get field).looseLt (b.get field) then -1 else 1

/-- `pbx_sort_by_extension` -/
def pbxSortByExtension : Val → Val → ℤ := compareField "extension"

/-- `_confroomcmp` -/
def confroomcmp : Val → Val → ℤ := compareField "number"

/-- `_a_sortphones` -/
def sortphones (a b : Val) : ℤ := strcmp (a.get "callerid").toStr (b.get "callerid").toStr

/-! ## Lists -/

section Lists

variable (usort : Usort)

/-- `if (!is_array($config[section][tag])) $config[section][tag] = array();` -/
def initList (k : Kind) (g : Globals) : Globals :=
  if (listOf g.config k).isArray then g
  else { g with config := setList g.config k (.arr []) }

/-- A list function that sorts a copy. -/
def getSortedCopy (cmp : Val → Val → ℤ) (k : Kind) (g : Globals) : List Val × Globals :=
  let g := initList k g
  (usort.run cmp (elements g.config k), g)

/-- A list function that sorts the stored list. -/
def getSortedInPlace (cmp : Val → Val → ℤ) (k : Kind) (g : Globals) : List Val × Globals :=
  let g := initList k g
  let sorted := usort.run cmp (elements g.config k)
  (sorted, { g with config := setList g.config k (.ofList sorted) })

/-- `sip_get_providers()` -/
def sipGetProviders := getSortedCopy usort pbxSortByName (.provider .sip)

/-- `iax_get_providers()` -/
def iaxGetProviders := getSortedCopy usort pbxSortByName (.provider .iax)

/-- `isdn_get_providers()` -/
def isdnGetProviders := getSortedCopy usort pbxSortByName (.provider .isdn)

/-- `analog_get_providers()` -/
def analogGetProviders := getSortedCopy usort pbxSortByName (.provider .analog)

/-- `sip_get_phones()` -/
def sipGetPhones := getSortedCopy usort pbxSortByExtension (.phone .sip)

/-- `iax_get_phones()` -/
def iaxGetPhones := getSortedCopy usort pbxSortByExtension (.phone .iax)

/-- `isdn_get_phones()` -/
def isdnGetPhones := getSortedCopy usort pbxSortByExtension (.phone .isdn)

/-- `skinny_get_phones()` -/
def skinnyGetPhones := getSortedCopy usort pbxSortByExtension (.phone .skinny)

/-- `analog_get_phones()` -/
def analogGetPhones := getSortedCopy usort pbxSortByExtension (.phone .analog)

/-- `external_get_phones()` -/
def externalGetPhones := getSortedCopy usort pbxSortByExtension .externalPhone

/-- `virtual_get_faxes()` -/
def virtualGetFaxes := getSortedCopy usort pbxSortByExtension (.fax .virtual)

/-- `analog_get_faxes()` -/
def analogGetFaxes := getSortedCopy usort pbxSortByExtension (.fax .analog)

/-- `callgroups_get_groups()` -/
def callgroupsGetGroups := getSortedInPlace usort pbxSortByName .callgroup

/-- `conferencing_get_rooms()` -/
def conferencingGetRooms := getSortedInPlace usort confroomcmp .room

/-- `pbx_get_phones()` -/
def pbxGetPhones (g : Globals) : List Val × Globals :=
  let (sip, g) := sipGetPhones usort g
  let (iax, g) := iaxGetPhones usort g
  let (isdn, g) := isdnGetPhones usort g
  let (skinny, g) := skinnyGetPhones usort g
  let (analog, g) := analogGetPhones usort g
  (usort.run sortphones (sip ++ iax ++ isdn ++ skinny ++ analog), g)

/-- `pbx_get_providers()` -/
def pbxGetProviders (g : Globals) : List Val × Globals :=
  let (sip, g) := sipGetProviders usort g
  let (iax, g) := iaxGetProviders usort g
  let (isdn, g) := isdnGetProviders usort g
  let (analog, g) := analogGetProviders usort g
  (usort.run pbxSortByName (sip ++ iax ++ isdn ++ analog), g)

end Lists

/-- `applications_get_applications()` -/
def applicationsGetApplications (g : Globals) : List Val := elements g.config .application

/-- `dahdi_get_ports()`, without filters. -/
def dahdiGetPorts (g : Globals) : List Val := elements g.config .dahdiPort

/-- `storage_get_disks()` -/
def storageGetDisks (g : Globals) : List Val := elements g.config .disk

/-- `storage_service_is_active($servicename)`: the disk, or `false`. -/
def storageServiceIsActive (g : Globals) (servicename : String) : Val :=
  ((storageGetDisks g).find? fun disk => (disk.get servicename).isset).getD (.bool false)

/-! ## Single elements -/

/-- `pbx_get_provider($uniqid)` -/
def pbxGetProvider (g : Globals) (uniqid : String) : Val :=
  if strstr uniqid "SIP-PROVIDER" then getElement g (.provider .sip) uniqid
  else if strstr uniqid "IAX-PROVIDER" then getElement g (.provider .iax) uniqid
  else if strstr uniqid "ISDN-PROVIDER" then getElement g (.provider .isdn) uniqid
  else if strstr uniqid "ANALOG-PROVIDER" then getElement g (.provider .analog) uniqid
  else .null

/-- `pbx_get_phone($uniqid)` -/
def pbxGetPhone (g : Globals) (uniqid : String) : Val :=
  if strstr uniqid "SIP-PHONE" then getElement g (.phone .sip) uniqid
  else if strstr uniqid "IAX-PHONE" then getElement g (.phone .iax) uniqid
  else if strstr uniqid "ISDN-PHONE" then getElement g (.phone .isdn) uniqid
  else if strstr uniqid "ANALOG-PHONE" then getElement g (.phone .analog) uniqid
  else if strstr uniqid "SKINNY-PHONE" then getElement g (.phone .skinny) uniqid
  else if strstr uniqid "EXTERNAL-PHONE" then getElement g .externalPhone uniqid
  else .str "ERROR: unmatched uniqid in pbx_get_phone!"

/-- What `pbx_uniqid_to_technology` answers. -/
inductive Technology where
  | sip
  | iax2
  | dahdi
  | skinny
  | failed (uniqid : String)
deriving DecidableEq, Repr

/-- The text of a technology. -/
def Technology.toStr : Technology → String
  | sip => "SIP"
  | iax2 => "IAX2"
  | dahdi => "DAHDI"
  | skinny => "SKINNY"
  | failed uniqid => "ERROR:UNIQID_TO_TECHNOLOGY_FAILED(" ++ uniqid ++ ")"

/-- `pbx_uniqid_to_technology($uniqid)` -/
def pbxUniqidToTechnology (uniqid : String) : Technology :=
  match (explode '-' uniqid).head? with
  | some "SIP" => .sip
  | some "IAX" => .iax2
  | some "ISDN" => .dahdi
  | some "ANALOG" => .dahdi
  | some "SKINNY" => .skinny
  | _ => .failed uniqid

/-- `dahdi_get_gnumber($uniqid)` -/
def dahdiGetGnumber (g : Globals) (uniqid : String) : String :=
  if strstr uniqid "DAHDIPORT-" then ((getElement g .dahdiPort uniqid).get "basechannel").toStr
  else if strstr uniqid "DAHDIPORTGROUP-" then
    ((getElement g .dahdiPortgroup uniqid).get "number").toStr
  else "NO_GNUMBER_FOUND"

end Pbx
end Askozia
