import Askozia.Config.Elements
import Askozia.XmlParse.Loadable
import Askozia.Xml.Scanner

/-!
# The stored configuration (`config.inc`)

The persistent state is a handful of files: `config.xml`, a cache of the tree it reads as, a
cache of the index, and two lock files. A script works on a copy of the tree in memory and ends
either by returning or by `die`, which leaves the files as they are at that point.

* `writeConfig_atomic_iff`: exactly when saving is all or nothing;
* `configInstall_sound_iff`: exactly when a restored file can be loaded.
-/

namespace Askozia
namespace Config

open Php Xml XmlParse

/-! ## State -/

/-- The files. -/
structure Disk where
  /-- `config.xml`, if it exists -/
  configXml : Option String
  /-- `configca.che` -/
  configCache : Option Val
  /-- `uniqidca.che` -/
  uniqidCache : Option Val
  /-- `config.lock` exists -/
  configLock : Bool
  /-- `xmlparser.lock` exists -/
  xmlparserLock : Bool
deriving DecidableEq, Repr

/-- The files together with `$config` and `$uniqid_map`. -/
structure State where
  disk : Disk
  config : Val
  uniqidMap : Val
deriving DecidableEq, Repr

/-- How a script ends early. -/
inductive Failure where
  /-- `Unable to open config.xml for writing in write_config()` -/
  | unableToOpen
  | xml (e : Die)
deriving DecidableEq, Repr

/-- The end of a call. -/
inductive Outcome where
  | returned (s : State)
  | died (e : Failure) (d : Disk)
deriving DecidableEq, Repr

/-- Which calls of `fopen` succeed. -/
structure Fopen where
  /-- `config.xml` for writing -/
  configXmlWrite : Bool
  /-- `config.xml` for reading -/
  configXmlRead : Bool
  /-- `configca.che` for writing -/
  configCache : Bool
  /-- `uniqidca.che` for writing -/
  uniqidCache : Bool
deriving DecidableEq, Repr

/-! ## Reading `config.xml` -/

/-- The result of `xml_to_array("config.xml", $g['xml_rootobj'])`. -/
def configXmlTree (X : Expat) (io : Fopen) (d : Disk) : Except Die Val :=
  match d.configXml with
  | none => .error .couldNotOpen
  | some file => if io.configXmlRead then xmlToArray X file xmlRootobj else .error .couldNotOpen

/-- `xmlparser.lock` stays when a handler ends the script: the handlers do not unlock. -/
def keepsParserLock : Except Die Val → Bool
  | .error (.cannotOccurMoreThanOnce _) => true
  | .error .stringOffset => true
  | _ => false

/-- `xml_to_array("config.xml", $g['xml_rootobj'])` with its lock. -/
def readConfigXml (X : Expat) (io : Fopen) (d : Disk) : Except Die Val × Disk :=
  (configXmlTree X io d, { d with xmlparserLock := keepsParserLock (configXmlTree X io d) })

/-! ## Saving -/

/-- `mktime(0, 0, 0, 9, 1, 2004)`, in UTC. -/
def clockPlausible : ℤ := 1093996800

/-- The tree with the time of the change. -/
def stamp (now : ℤ) (config : Val) : Val :=
  if now > clockPlausible then config.set (.str "lastchange") (.int now) else config

/-- Rewrites a cache file, if it can be opened. -/
def writeCache (opened : Bool) (old : Option Val) (new : Val) : Option Val :=
  if opened then some new else old

/-- `write_config()`, at the time `now`. -/
def writeConfig (X : Expat) (io : Fopen) (now : ℤ) (s : State) : Outcome :=
  let d := { s.disk with configLock := true }
  let xmlconfig := arrayToXml (stamp now s.config) xmlRootobj
  if io.configXmlWrite then
    -- the old file is gone before it is known whether the new one can be read
    match readConfigXml X io { d with configXml := some xmlconfig } with
    | (.error e, d) => .died (.xml e) d
    | (.ok config, d) =>
      let uniqidMap := configBuildUniqidMap config
      .returned
        { config := config
          uniqidMap := uniqidMap
          disk :=
            { d with
              configCache := writeCache io.configCache d.configCache config
              uniqidCache := writeCache io.uniqidCache d.uniqidCache uniqidMap
              configLock := false } }
  else .died .unableToOpen d

/-- Everything on disk and in memory describes the tree `t`. -/
def Describes (X : Expat) (s : State) (t : Val) : Prop :=
  (∃ file, s.disk.configXml = some file ∧ xmlToArray X file xmlRootobj = .ok t) ∧
    s.config = t ∧ s.uniqidMap = configBuildUniqidMap t ∧ s.disk.configCache = some t ∧
    s.disk.uniqidCache = some (configBuildUniqidMap t)

/-- Saving is all or nothing: either everything describes what the tree reads back as, or the
file is as before and the lock is released. -/
def Atomic (X : Expat) (io : Fopen) (now : ℤ) (s : State) : Prop :=
  match writeConfig X io now s with
  | .returned s' => ∃ t, normalise X (stamp now s.config) = .ok t ∧ Describes X s' t
  | .died _ d => d.configXml = s.disk.configXml ∧ d.configLock = false

/-- A file that the parser does not object to and whose document can be loaded. -/
def LoadableFile (X : Expat) (file : String) : Prop :=
  parses X file = true ∧ ∃ d, Reported X file d ∧ Loadable d

/-- The text written for a tree can be loaded. -/
def Storable (X : Expat) (t : Val) : Prop := LoadableFile X (arrayToXml t xmlRootobj)

/-- A cache file will describe the tree: it can be rewritten, or does so already. -/
def CacheOk (opened : Bool) (old : Option Val) (new : Val) : Prop :=
  opened = true ∨ old = some new

theorem writeCache_eq_iff {opened : Bool} {old : Option Val} {new : Val} :
    writeCache opened old new = some new ↔ CacheOk opened old new := by
  unfold writeCache CacheOk
  cases opened <;> simp

/-- What `write_config` does when `config.xml` can be written and read. -/
theorem writeConfig_of_open (X : Expat) {io : Fopen} (now : ℤ) (s : State)
    (hw : io.configXmlWrite = true) (hr : io.configXmlRead = true) :
    ∃ l, writeConfig X io now s =
      match normalise X (stamp now s.config) with
      | .error e => .died (.xml e)
          { s.disk with
            configXml := some (arrayToXml (stamp now s.config) xmlRootobj)
            configLock := true
            xmlparserLock := l }
      | .ok t => .returned
          { config := t
            uniqidMap := configBuildUniqidMap t
            disk :=
              { configXml := some (arrayToXml (stamp now s.config) xmlRootobj)
                configCache := writeCache io.configCache s.disk.configCache t
                uniqidCache := writeCache io.uniqidCache s.disk.uniqidCache (configBuildUniqidMap t)
                configLock := false
                xmlparserLock := l } } := by
  refine ⟨keepsParserLock (normalise X (stamp now s.config)), ?_⟩
  have htree : ∀ d : Disk, d.configXml = some (arrayToXml (stamp now s.config) xmlRootobj) →
      configXmlTree X io d = normalise X (stamp now s.config) := by
    intro d hd
    simp only [configXmlTree, hd, hr, if_true, normalise]
  unfold writeConfig readConfigXml
  simp only [hw, if_true]
  rw [htree _ rfl]
  cases normalise X (stamp now s.config) with
  | error e => rfl
  | ok t => rfl

/-- Saving is all or nothing exactly when `config.xml` can be opened for writing and for
reading, what is written can be loaded, and the caches can be rewritten or are right already. -/
theorem writeConfig_atomic_iff (X : Expat) (io : Fopen) (now : ℤ) (s : State) :
    Atomic X io now s ↔
      io.configXmlWrite = true ∧ io.configXmlRead = true ∧ Storable X (stamp now s.config) ∧
        ∀ t, normalise X (stamp now s.config) = .ok t →
          CacheOk io.configCache s.disk.configCache t ∧
          CacheOk io.uniqidCache s.disk.uniqidCache (configBuildUniqidMap t) := by
  unfold Atomic
  -- without a file to open the script dies with the lock held
  cases hw : io.configXmlWrite with
  | false =>
    have hdied : writeConfig X io now s = .died .unableToOpen { s.disk with configLock := true } := by
      unfold writeConfig
      rw [hw]
      rfl
    rw [hdied]
    simp
  | true =>
    cases hr : io.configXmlRead with
    | false =>
      have hdied : ∃ d, writeConfig X io now s = .died (.xml .couldNotOpen) d ∧
          d.configLock = true := by
        unfold writeConfig readConfigXml configXmlTree
        rw [hw, hr]
        exact ⟨_, rfl, rfl⟩
      obtain ⟨d, hdied, hlock⟩ := hdied
      rw [hdied]
      simp [hlock]
    | true =>
      obtain ⟨l, hwrite⟩ := writeConfig_of_open X now s hw hr
      rw [hwrite]
      have hstorable : Storable X (stamp now s.config) ↔
          ∃ t, normalise X (stamp now s.config) = .ok t := (xmlToArray_ok_iff X _).symm
      rw [hstorable]
      simp only [true_and]
      -- what was written is read back before the lock is removed, and may be no document
      cases hn : normalise X (stamp now s.config) with
      | error e => simp
      | ok t =>
        constructor
        · rintro ⟨t', ht', -, hconfig, -, hcache, hucache⟩
          obtain rfl := Except.ok.inj ht'
          refine ⟨⟨t, rfl⟩, fun t' ht' => ?_⟩
          obtain rfl := Except.ok.inj ht'
          exact ⟨writeCache_eq_iff.1 hcache, writeCache_eq_iff.1 hucache⟩
        · rintro ⟨-, hcaches⟩
          obtain ⟨hcache, hucache⟩ := hcaches t rfl
          exact ⟨t, rfl, ⟨_, rfl, hn⟩, rfl, rfl, writeCache_eq_iff.2 hcache,
            writeCache_eq_iff.2 hucache⟩

/-- Two keys that differ only in case. -/
def clashing : Val := .arr [(.str "a", .str "1"), (.str "A", .str "2")]

theorem normalise_clashing :
    normalise scanner.toExpat clashing = .error (.cannotOccurMoreThanOnce "A") := by
  have hdoc : scanner.doc (document xmlRootobj (markup clashing)) =
      some ⟨"ASKOZIAPBX", .text "\n" (.text "\t" (.elem "A" (.text "1" .nil)
        (.text "\n" (.text "\t" (.elem "A" (.text "2" .nil) (.text "\n" .nil))))))⟩ := by
    rw [scanner_doc]
    decide
  rw [normalise, arrayToXml_eq, xmlToArray_of_doc (document_getLast _ _) (document_ne_nil _ _) hdoc]
  decide

/-- A tree that cannot be read back: the script dies with the old file overwritten and the lock
held. -/
theorem not_atomic_of_error {X : Expat} {io : Fopen} {now : ℤ} {s : State} {e : Die}
    (hw : io.configXmlWrite = true) (hr : io.configXmlRead = true)
    (h : normalise X (stamp now s.config) = .error e) : ¬ Atomic X io now s := by
  obtain ⟨l, hwrite⟩ := writeConfig_of_open X now s hw hr
  rw [Atomic, hwrite, h]
  rintro ⟨-, hlock⟩
  cases hlock

theorem not_atomic_clashing : ∃ (X : Expat) (io : Fopen) (now : ℤ) (s : State),
    s.config.isArray = true ∧ ¬ Atomic X io now s :=
  ⟨scanner.toExpat, ⟨true, true, true, true⟩, 0, ⟨⟨none, none, none, false, false⟩, clashing, .null⟩,
    rfl, not_atomic_of_error rfl rfl normalise_clashing⟩

/-! ## Restoring -/

/-- `config_validate($conffile)`, on the contents of the file. -/
def configValidate (X : Expat) (opened : Bool) (file : String) : Bool := opened && parses X file

/-- `config_install($conffile)`: the exit code and the files after it. The uploaded file may be
missing or unreadable. -/
def configInstall (X : Expat) (upload : Option String) (opened : Bool) (d : Disk) : ℕ × Disk :=
  match upload with
  | none => (1, d)
  | some file =>
    if configValidate X opened file then
      (0, { d with configXml := some file, configLock := false })
    else (1, d)

/-- A file that was installed can be loaded. -/
def InstallSound (X : Expat) (upload : Option String) (opened : Bool) (d : Disk) : Prop :=
  (configInstall X upload opened d).1 = 0 →
    ∃ file, (configInstall X upload opened d).2.configXml = some file ∧
      ∃ t, xmlToArray X file xmlRootobj = .ok t

/-- An installed file can be loaded exactly when what the validator has let through is also
free of repeated elements and has the right root. -/
theorem configInstall_sound_iff (X : Expat) (upload : Option String) (opened : Bool) (d : Disk) :
    InstallSound X upload opened d ↔
      ∀ file, upload = some file → configValidate X opened file = true →
        ∃ doc, Reported X file doc ∧ Loadable doc := by
  unfold InstallSound configInstall
  -- nothing is installed without a file that passes
  cases upload with
  | none => simp
  | some file =>
    cases hv : configValidate X opened file with
    | false => simp [hv]
    | true =>
      have hparses : parses X file = true := (Bool.and_eq_true _ _ ▸ hv : _ ∧ _).2
      have hload := xmlToArray_ok_iff X file
      rw [hparses] at hload
      simp [hv, hload]

/-- An empty file is accepted: the loop over its blocks does not run. -/
theorem not_configInstall_sound_of_empty :
    ¬ ∀ (X : Expat) (upload : Option String) (opened : Bool) (d : Disk),
      InstallSound X upload opened d := by
  intro h
  have hsound := h scanner.toExpat (some "") true ⟨none, none, none, false, false⟩
  -- the empty file passes, for `fread` gives no block to parse
  have hinstall : configInstall scanner.toExpat (some "") true ⟨none, none, none, false, false⟩ =
      (0, ⟨some "", none, none, false, false⟩) := rfl
  rw [InstallSound, hinstall] at hsound
  obtain ⟨file, hfile, t, ht⟩ := hsound rfl
  obtain rfl : "" = file := Option.some.inj hfile
  have hload : xmlToArray scanner.toExpat "" xmlRootobj = .error (.noObjectFound xmlRootobj) := rfl
  rw [hload] at ht
  cases ht

end Config
end Askozia
