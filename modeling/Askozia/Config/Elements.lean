import Askozia.Php.Value

/-!
# Elements of the configuration

Accounts, ports, call groups and so on are kept in lists, one for each kind, at
`$config[section][tag]`. `$uniqid_map` maps the `uniqid` of an element to its offset in the list
of its kind.
-/

namespace Askozia
namespace Config

open Php

/-- `$g['technologies']` -/
inductive Tech where
  | sip
  | iax
  | isdn
  | analog
  | skinny
deriving DecidableEq, Repr

/-- The section of a technology. -/
def Tech.name : Tech → String
  | .sip => "sip"
  | .iax => "iax"
  | .isdn => "isdn"
  | .analog => "analog"
  | .skinny => "skinny"

/-- `$g['technologies']`, in the order of the source. -/
def technologies : List Tech := [.sip, .iax, .isdn, .analog, .skinny]

/-- `$g['fax_types']` -/
inductive FaxType where
  | analog
  | virtual
deriving DecidableEq, Repr

/-- The section of a fax type. -/
def FaxType.name : FaxType → String
  | .analog => "analog"
  | .virtual => "virtual"

/-- The kinds of elements that are looked up by `uniqid`. -/
inductive Kind where
  | provider (tech : Tech)
  | phone (tech : Tech)
  | externalPhone
  | room
  | fax (type : FaxType)
  | callgroup
  | application
  | application2
  | dahdiPort
  | dahdiPortgroup
  | redfoneGateway
  | disk
deriving DecidableEq, Repr

namespace Kind

/-- The section an element is in. -/
def sectionName : Kind → String
  | provider t => t.name
  | phone t => t.name
  | externalPhone => "external"
  | room => "conferencing"
  | fax t => t.name
  | callgroup => "dialplan"
  | application => "dialplan"
  | application2 => "dialplan"
  | dahdiPort => "interfaces"
  | dahdiPortgroup => "interfaces"
  | redfoneGateway => "interfaces"
  | disk => "storage"

/-- The list tag of an element. -/
def tagName : Kind → String
  | provider _ => "provider"
  | phone _ => "phone"
  | externalPhone => "phone"
  | room => "room"
  | fax _ => "fax"
  | callgroup => "callgroup"
  | application => "application"
  | application2 => "application2"
  | dahdiPort => "dahdi-port"
  | dahdiPortgroup => "dahdi-portgroup"
  | redfoneGateway => "redfone-gateway"
  | disk => "disk"

/-- All kinds, in the order `config_build_uniqid_map` goes through them. -/
def all : List Kind :=
  (technologies.flatMap fun t => [provider t, phone t]) ++
    [externalPhone, room, fax .analog, fax .virtual, callgroup, application, application2,
      dahdiPort, dahdiPortgroup, redfoneGateway, disk]

end Kind

/-- `$config[section][tag]` -/
def listOf (config : Val) (k : Kind) : Val := (config.get k.sectionName).get k.tagName

/-- The elements of a kind. -/
def elements (config : Val) (k : Kind) : List Val := (listOf config k).vals

/-! ## The index -/

/-- `for ($i = 0; $i < $n; $i++) $uniqid_map[$config[..][..][$i]['uniqid']] = $i;` -/
def indexKind (config : Val) (uniqidMap : Val) (k : Kind) : Val :=
  (List.range (listOf config k).count).foldl
    (fun m (i : ℕ) => m.set (((listOf config k).idx (.int i)).get "uniqid").key (.int i)) uniqidMap

/-- `config_build_uniqid_map($config)` -/
def configBuildUniqidMap (config : Val) : Val := Kind.all.foldl (indexKind config) .null

/-- `$config` and `$uniqid_map`. -/
structure Globals where
  config : Val
  uniqidMap : Val
deriving DecidableEq, Repr

/-- The element of a kind under the offset the index has for a `uniqid`: the body of
`sip_get_phone`, `callgroups_get_group`, `dahdi_get_port` and their siblings. -/
def getElement (g : Globals) (k : Kind) (uniqid : String) : Val :=
  (listOf g.config k).idx (g.uniqidMap.idx (Val.str uniqid).key).key

/-- `$config[section][tag] = $v` -/
def setList (config : Val) (k : Kind) (v : Val) : Val :=
  config.set (.str k.sectionName) ((config.get k.sectionName).set (.str k.tagName) v)

/-! ## Lists of a configuration -/

theorem Kind.mem_all (k : Kind) : k ∈ Kind.all := by
  cases k with
  | provider t => cases t <;> decide
  | phone t => cases t <;> decide
  | fax t => cases t <;> decide
  | _ => decide

/-- A kind is determined by where its list is. -/
theorem Kind.ext_names {k k' : Kind} (hs : k.sectionName = k'.sectionName)
    (ht : k.tagName = k'.tagName) : k = k' := by
  have hall : ∀ k ∈ Kind.all, ∀ k' ∈ Kind.all, k.sectionName = k'.sectionName →
      k.tagName = k'.tagName → k = k' := by decide
  exact hall k k.mem_all k' k'.mem_all hs ht

theorem elements_of_not_array {config : Val} {k : Kind} (h : ¬ (listOf config k).isArray = true) :
    elements config k = [] := by
  unfold elements
  cases hlist : listOf config k with
  | arr es =>
    rw [hlist] at h
    exact absurd rfl h
  | _ => rfl

@[simp] theorem listOf_setList_self (config : Val) (k : Kind) (v : Val) :
    listOf (setList config k v) k = v := by
  unfold listOf setList Val.get
  rw [Val.idx_set_self, Val.idx_set_self]

/-- Writing one list leaves the others alone, unless its section was a string. -/
theorem listOf_setList_of_section {config : Val} {k k' : Kind} (v : Val) (hk : k' ≠ k)
    (hsection : ∀ s, config.get k.sectionName ≠ .str s) :
    listOf (setList config k v) k' = listOf config k' := by
  have hroot : ∀ s, config ≠ .str s := by
    intro s h
    exact hsection _ (by rw [h]; rfl)
  unfold listOf setList
  by_cases hn : k'.sectionName = k.sectionName
  · have ht : (Key.str k'.tagName) ≠ .str k.tagName := by
      intro h
      exact hk (Kind.ext_names hn (Key.str.inj h))
    rw [hn]
    simp only [Val.get] at hsection ⊢
    rw [Val.idx_set_self, Val.idx_set_of_ne v ht hsection]
  · have hkey : (Key.str k'.sectionName) ≠ .str k.sectionName := fun h => hn (Key.str.inj h)
    simp only [Val.get]
    rw [Val.idx_set_of_ne _ hkey hroot]

theorem listOf_setList_of_ne {config : Val} {k k' : Kind} (v : Val) (hk : k' ≠ k)
    (hs : ∀ s, listOf config k ≠ .str s) : listOf (setList config k v) k' = listOf config k' := by
  apply listOf_setList_of_section v hk
  intro s h
  exact hs _ (by rw [listOf, h]; rfl)

end Config
end Askozia
