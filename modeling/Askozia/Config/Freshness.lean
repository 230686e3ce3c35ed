import Askozia.Config.Store
import Askozia.XmlParse.RoundTrip

/-!
# The cache of the configuration

A load takes `configca.che` when it is not older than `config.xml`, by modification times in whole
seconds. `write_config` writes both, but `config_install` and `reset_factory_defaults` replace
`config.xml` and leave the cache alone, so the times have to tell them apart.

* `loads_current`: as long as `config.xml` is not replaced without the cache in the second in which
  the cache was written, every load yields the tree of the `config.xml` that is there.
-/

namespace Askozia
namespace Config

open Php Xml XmlParse

/-! ## Operations -/

/-- The files with the modification times of `config.xml` and `configca.che`. -/
structure Clocked where
  disk : Disk
  xmlTime : ℕ
  cacheTime : ℕ
deriving DecidableEq, Repr

/-- What a script does with the files. -/
inductive Op where
  | load
  /-- `write_config()` with this `$config` -/
  | write (config : Val)
  /-- `config_install` of a file that may be missing or unreadable -/
  | install (upload : Option String) (opened : Bool)
  | reset
deriving DecidableEq, Repr

/-- One call, with the time it writes `config.xml`, the time it writes the cache and which files
can be opened. -/
structure Event where
  now : ℕ
  later : ℕ
  io : Fopen
  op : Op
deriving DecidableEq, Repr

/-- `file_exists("configca.che") && filemtime("configca.che") >= filemtime("config.xml")`; the
time of a missing file is `false`. -/
def Clocked.fresh (s : Clocked) : Bool :=
  s.disk.configCache.isSome && (s.disk.configXml.isNone || decide (s.xmlTime ≤ s.cacheTime))

/-- The load at the start of a script: the tree, unless the script ends there, and the files. -/
def loadConfig (X : Expat) (e : Event) (s : Clocked) : Option Val × Clocked :=
  if s.fresh then (s.disk.configCache, s)
  else
    match s.disk.configXml with
    | none => (none, s)
    | some _ =>
      match readConfigXml X e.io s.disk with
      -- the script ends with the lock held
      | (.error _, d) => (none, { s with disk := { d with configLock := true } })
      | (.ok config, d) =>
        (some config,
          { xmlTime := s.xmlTime
            cacheTime := if e.io.configCache then e.later else s.cacheTime
            disk :=
              { d with
                configCache := writeCache e.io.configCache d.configCache config
                uniqidCache :=
                  writeCache e.io.uniqidCache d.uniqidCache (configBuildUniqidMap config)
                configLock := false } })

/-- `write_config()`, with the times of the files. -/
def saveConfig (X : Expat) (e : Event) (config : Val) (s : Clocked) : Clocked :=
  match writeConfig X e.io e.now ⟨s.disk, config, .null⟩ with
  | .died .unableToOpen d => { s with disk := d }
  | .died (.xml _) d => { s with disk := d, xmlTime := e.now }
  | .returned s' =>
    { disk := s'.disk
      xmlTime := e.now
      cacheTime := if e.io.configCache then e.later else s.cacheTime }

/-- `config_install($conffile)`, with the times of the files. -/
def installConfig (X : Expat) (e : Event) (upload : Option String) (opened : Bool) (s : Clocked) :
    Clocked :=
  match configInstall X upload opened s.disk with
  | (0, d) => { s with disk := d, xmlTime := e.now }
  | (_, d) => { s with disk := d }

/-- `reset_factory_defaults()`: everything in `/conf` goes, and the default file is copied. -/
def resetFactoryDefaults (defaults : String) (e : Event) (s : Clocked) : Clocked :=
  { s with disk := { s.disk with configXml := some defaults, configLock := false }, xmlTime := e.now }

/-- One call: what a load yields, and the files. -/
def exec (X : Expat) (defaults : String) (e : Event) (s : Clocked) : Option Val × Clocked :=
  match e.op with
  | .load => loadConfig X e s
  | .write config => (none, saveConfig X e config s)
  | .install upload opened => (none, installConfig X e upload opened s)
  | .reset => (none, resetFactoryDefaults defaults e s)

/-! ## Current loads -/

/-- A load yields the tree of the `config.xml` that is there, and yields it if it can. -/
def Current (X : Expat) (e : Event) (s : Clocked) : Prop :=
  ∃ file, s.disk.configXml = some file ∧
    (∀ t, (loadConfig X e s).1 = some t → xmlToArray X file xmlRootobj = .ok t) ∧
    (e.io.configXmlRead = true → ∀ t, xmlToArray X file xmlRootobj = .ok t →
      (loadConfig X e s).1 = some t)

/-- Every load of a sequence is current. -/
def LoadsCurrent (X : Expat) (defaults : String) : Clocked → List Event → Prop
  | _, [] => True
  | s, e :: r => (e.op = .load → Current X e s) ∧ LoadsCurrent X defaults (exec X defaults e s).2 r

/-- The call replaces `config.xml` and does not write the cache. -/
def LeavesCache (X : Expat) (e : Event) : Prop :=
  match e.op with
  | .load => False
  | .write config =>
    e.io.configXmlWrite = true ∧
      ¬ (e.io.configXmlRead = true ∧ e.io.configCache = true ∧ Storable X (stamp e.now config))
  | .install upload opened => ∃ file, upload = some file ∧ configValidate X opened file = true
  | .reset => True

/-- A cache that is not written along is from an earlier second. -/
def Timely (X : Expat) (e : Event) (s : Clocked) : Prop :=
  LeavesCache X e → s.disk.configCache = none ∨ s.cacheTime < e.now

/-- All calls of a sequence are timely. -/
def AllTimely (X : Expat) (defaults : String) : Clocked → List Event → Prop
  | _, [] => True
  | s, e :: r => Timely X e s ∧ AllTimely X defaults (exec X defaults e s).2 r

/-- There is a `config.xml`, and a cache that would be taken is its tree. -/
def InStep (X : Expat) (s : Clocked) : Prop :=
  ∃ file, s.disk.configXml = some file ∧
    ∀ t, s.disk.configCache = some t → s.xmlTime ≤ s.cacheTime →
      xmlToArray X file xmlRootobj = .ok t

section Steps

variable {X : Expat} {e : Event} {s : Clocked}

theorem fresh_iff {file : String} (hfile : s.disk.configXml = some file) :
    s.fresh = true ↔ (∃ t, s.disk.configCache = some t) ∧ s.xmlTime ≤ s.cacheTime := by
  simp [Clocked.fresh, hfile, Option.isSome_iff_exists]

/-- A cache that is not older is taken. -/
theorem load_of_cache {t : Val} (hcache : s.disk.configCache = some t)
    (hle : s.xmlTime ≤ s.cacheTime) : (loadConfig X e s).1 = some t := by
  have hf : s.fresh = true := by simp [Clocked.fresh, hcache, hle]
  rw [loadConfig, if_pos hf, hcache]

/-- What a load does: it takes the cache, it ends, or it reads `config.xml` and writes the cache
if it can. -/
theorem loadConfig_cases {file : String} (hfile : s.disk.configXml = some file) :
    (s.fresh = true ∧ loadConfig X e s = (s.disk.configCache, s)) ∨
    (s.fresh = false ∧ (∀ t, e.io.configXmlRead = true → xmlToArray X file xmlRootobj ≠ .ok t) ∧
      (loadConfig X e s).1 = none ∧ (loadConfig X e s).2.disk.configXml = some file ∧
      (loadConfig X e s).2.disk.configCache = s.disk.configCache ∧
      (loadConfig X e s).2.xmlTime = s.xmlTime ∧ (loadConfig X e s).2.cacheTime = s.cacheTime) ∨
    (s.fresh = false ∧ ∃ t, xmlToArray X file xmlRootobj = .ok t ∧
      (loadConfig X e s).1 = some t ∧ (loadConfig X e s).2.disk.configXml = some file ∧
      (loadConfig X e s).2.disk.configCache = writeCache e.io.configCache s.disk.configCache t ∧
      (loadConfig X e s).2.xmlTime = s.xmlTime ∧
      (e.io.configCache = false → (loadConfig X e s).2.cacheTime = s.cacheTime)) := by
  -- the cache, or the file: then it is read or it is not
  cases hf : s.fresh with
  | true =>
    left
    exact ⟨rfl, by rw [loadConfig, if_pos hf]⟩
  | false =>
    right
    have hload : loadConfig X e s =
        match readConfigXml X e.io s.disk with
        | (.error _, d) => (none, { s with disk := { d with configLock := true } })
        | (.ok config, d) =>
          (some config,
            { xmlTime := s.xmlTime
              cacheTime := if e.io.configCache then e.later else s.cacheTime
              disk :=
                { d with
                  configCache := writeCache e.io.configCache d.configCache config
                  uniqidCache :=
                    writeCache e.io.uniqidCache d.uniqidCache (configBuildUniqidMap config)
                  configLock := false } }) := by
      rw [loadConfig, hf, hfile]
      rfl
    rw [hload]
    unfold readConfigXml
    -- a tree is stored in the cache only where the whole file was read
    have htree : configXmlTree X e.io s.disk =
        if e.io.configXmlRead then xmlToArray X file xmlRootobj else .error .couldNotOpen := by
      rw [configXmlTree, hfile]
    cases hx : configXmlTree X e.io s.disk with
    | error err =>
      left
      refine ⟨rfl, fun t hr ht => ?_, rfl, hfile, rfl, rfl, rfl⟩
      rw [htree, hr, if_pos rfl, ht] at hx
      cases hx
    | ok t =>
      right
      have hok : xmlToArray X file xmlRootobj = .ok t := by
        rw [htree] at hx
        split_ifs at hx
        exact hx
      refine ⟨rfl, t, hok, rfl, hfile, rfl, rfl, fun hc => ?_⟩
      show (if e.io.configCache then e.later else s.cacheTime) = s.cacheTime
      rw [hc]
      rfl

theorem InStep.current (h : InStep X s) : Current X e s := by
  obtain ⟨file, hfile, hcache⟩ := h
  refine ⟨file, hfile, ?_⟩
  rcases loadConfig_cases (X := X) (e := e) hfile with ⟨hf, hload⟩ | ⟨-, hno, hload, -⟩ |
    ⟨-, t, hok, hload, -⟩
  · obtain ⟨⟨t, ht⟩, hle⟩ := (fresh_iff hfile).1 hf
    have hok := hcache t ht hle
    rw [hload]
    constructor
    · intro t' ht'
      exact hcache t' ht' hle
    · intro _ t' ht'
      rw [hok] at ht'
      rw [← Except.ok.inj ht']
      exact ht
  · rw [hload]
    refine ⟨fun t ht => ?_, fun hr t ht => absurd ht (hno t hr)⟩
    cases ht
  · rw [hload]
    constructor
    · intro t' ht'
      rw [← Option.some.inj ht', hok]
    · intro _ t' ht'
      rw [hok] at ht'
      rw [Except.ok.inj ht']

theorem InStep.load (h : InStep X s) : InStep X (loadConfig X e s).2 := by
  obtain ⟨file, hfile, hcache⟩ := h
  rcases loadConfig_cases (X := X) (e := e) hfile with ⟨-, hload⟩ |
    ⟨-, -, -, hxml, hc, hxt, hct⟩ | ⟨hf, t, hok, -, hxml, hc, hxt, hct⟩
  · rw [hload]
    exact ⟨file, hfile, hcache⟩
  · refine ⟨file, hxml, fun t ht hle => ?_⟩
    rw [hc] at ht
    rw [hxt, hct] at hle
    exact hcache t ht hle
  · refine ⟨file, hxml, fun t' ht' hle => ?_⟩
    rw [hc] at ht'
    cases hio : e.io.configCache with
    | true =>
      rw [hio] at ht'
      rw [← Option.some.inj ht', hok]
    | false =>
      -- the old cache stays, and stays too old
      rw [hio] at ht'
      rw [hxt, hct hio] at hle
      exact hcache t' ht' hle

/-- Replacing `config.xml` in a later second than the one the cache is from. -/
theorem inStep_replaced {file : String} {d : Disk} {now : ℕ}
    (ht : s.disk.configCache = none ∨ s.cacheTime < now) (hfile : d.configXml = some file)
    (hcache : d.configCache = s.disk.configCache) :
    InStep X { s with disk := d, xmlTime := now } := by
  refine ⟨file, hfile, fun t hsome hle => ?_⟩
  rcases ht with hnone | hlt
  · rw [show d.configCache = some t from hsome] at hcache
    rw [hnone] at hcache
    cases hcache
  · exact absurd hle (Nat.not_le.2 hlt)

theorem InStep.save {config : Val} (hop : e.op = .write config) (h : InStep X s)
    (ht : Timely X e s) : InStep X (saveConfig X e config s) := by
  unfold Timely LeavesCache at ht
  rw [hop] at ht
  unfold saveConfig
  -- the three ways to stop early come first: no file to write, no file to read back, no tree
  cases hw : e.io.configXmlWrite with
  | false =>
    have hdied : writeConfig X e.io e.now ⟨s.disk, config, .null⟩ =
        .died .unableToOpen { s.disk with configLock := true } := by
      unfold writeConfig
      rw [hw]
      rfl
    rw [hdied]
    exact h
  | true =>
    cases hr : e.io.configXmlRead with
    | false =>
      have hstale := ht ⟨hw, fun hc => by rw [hr] at hc; cases hc.1⟩
      have hdied : ∃ d, writeConfig X e.io e.now ⟨s.disk, config, .null⟩ =
          .died (.xml .couldNotOpen) d ∧ (∃ file, d.configXml = some file) ∧
          d.configCache = s.disk.configCache := by
        unfold writeConfig readConfigXml configXmlTree
        rw [hw, hr]
        exact ⟨_, rfl, ⟨_, rfl⟩, rfl⟩
      obtain ⟨d, hdied, ⟨file, hfile⟩, hcache⟩ := hdied
      rw [hdied]
      exact inStep_replaced hstale hfile hcache
    | true =>
      obtain ⟨l, hwrite⟩ := writeConfig_of_open X e.now ⟨s.disk, config, .null⟩ hw hr
      rw [hwrite]
      have hstorable : Storable X (stamp e.now config) ↔
          ∃ t, normalise X (stamp e.now config) = .ok t := (xmlToArray_ok_iff X _).symm
      cases hn : normalise X (stamp e.now config) with
      | error err =>
        have hstale := ht ⟨hw, fun hc => by
          obtain ⟨t, ht⟩ := hstorable.1 hc.2.2
          rw [hn] at ht
          cases ht⟩
        exact inStep_replaced hstale rfl rfl
      | ok t =>
        refine ⟨_, rfl, fun t' ht' hle => ?_⟩
        -- the cache holds the new tree, or the old one with a time that is not later
        cases hc : e.io.configCache with
        | true =>
          have hcache : writeCache e.io.configCache s.disk.configCache t = some t' := ht'
          rw [hc] at hcache
          rw [← Option.some.inj hcache]
          exact hn
        | false =>
          have hcache : writeCache e.io.configCache s.disk.configCache t = some t' := ht'
          rw [hc] at hcache
          have hle' : e.now ≤ if e.io.configCache then e.later else s.cacheTime := hle
          rw [hc] at hle'
          rcases ht ⟨hw, fun hall => by rw [hc] at hall; cases hall.2.1⟩ with hnone | hlt
          · rw [show s.disk.configCache = some t' from hcache] at hnone
            cases hnone
          · exact absurd hle' (Nat.not_le.2 hlt)

theorem InStep.install {upload : Option String} {opened : Bool}
    (hop : e.op = .install upload opened) (h : InStep X s) (ht : Timely X e s) :
    InStep X (installConfig X e upload opened s) := by
  unfold Timely LeavesCache at ht
  rw [hop] at ht
  cases upload with
  | none => exact h
  | some file =>
    cases hv : configValidate X opened file with
    | false =>
      have hno : installConfig X e (some file) opened s = s := by
        simp [installConfig, configInstall, hv]
      rw [hno]
      exact h
    | true =>
      have hyes : installConfig X e (some file) opened s =
          { s with disk := { s.disk with configXml := some file, configLock := false },
                   xmlTime := e.now } := by
        simp [installConfig, configInstall, hv]
      rw [hyes]
      exact inStep_replaced (ht ⟨file, rfl, hv⟩) rfl rfl

theorem InStep.exec {defaults : String} (h : InStep X s) (ht : Timely X e s) :
    InStep X (exec X defaults e s).2 := by
  unfold Config.exec
  cases hop : e.op with
  | load => exact h.load
  | write config => exact h.save hop ht
  | install upload opened => exact h.install hop ht
  | reset =>
    unfold Timely LeavesCache at ht
    rw [hop] at ht
    exact inStep_replaced (ht trivial) rfl rfl

end Steps

/-! ## Sequences -/

/-- In every sequence of timely calls, every load is current. -/
theorem loads_current {X : Expat} {defaults : String} {s : Clocked} {es : List Event}
    (h : InStep X s) (ht : AllTimely X defaults s es) : LoadsCurrent X defaults s es := by
  induction es generalizing s with
  | nil => trivial
  | cons e r ih => exact ⟨fun _ => h.current, ih (h.exec ht.1) ht.2⟩

/-- A configuration with one setting. -/
def oneSetting (language : String) : Val := .arr [(.str "language", .str language)]

theorem canonical_oneSetting {language : String} (h : Printable language) :
    Canonical Printable (oneSetting language) := by
  refine .map (by simp) (by simp) fun e he => ?_
  obtain rfl := List.mem_singleton.1 he
  exact .single (by unfold LowerName; decide) (by decide) (.str h)

theorem reads_oneSetting {language : String} (h : Printable language) (X : Expat) :
    xmlToArray X (arrayToXml (oneSetting language) xmlRootobj) xmlRootobj =
      .ok (oneSetting language) :=
  normalise_printable X (canonical_oneSetting h)

/-- The files before any load, with the configuration `en`. -/
def uncached : Clocked :=
  ⟨⟨some (arrayToXml (oneSetting "en") xmlRootobj), none, none, false, false⟩, 0, 0⟩

/-- A load at a time, an upload of the configuration `de` at another, and a second load. -/
def restored (loadTime installTime : ℕ) : List Event :=
  [⟨loadTime, loadTime, ⟨true, true, true, true⟩, .load⟩,
    ⟨installTime, installTime, ⟨true, true, true, true⟩,
      .install (some (arrayToXml (oneSetting "de") xmlRootobj)) true⟩,
    ⟨installTime, installTime, ⟨true, true, true, true⟩, .load⟩]

theorem printable_en : Printable "en" := by
  unfold Printable
  decide

theorem printable_de : Printable "de" := by
  unfold Printable
  decide

theorem inStep_uncached (X : Expat) : InStep X uncached :=
  ⟨_, rfl, fun t ht => by cases ht⟩

/-- The first load fills the cache. -/
theorem load_uncached (X : Expat) (n : ℕ) :
    (loadConfig X ⟨n, n, ⟨true, true, true, true⟩, .load⟩ uncached).2.disk.configCache =
      some (oneSetting "en") ∧
    (loadConfig X ⟨n, n, ⟨true, true, true, true⟩, .load⟩ uncached).2.cacheTime = n := by
  have htree : configXmlTree X ⟨true, true, true, true⟩ uncached.disk = .ok (oneSetting "en") :=
    reads_oneSetting printable_en X
  unfold loadConfig readConfigXml
  rw [htree]
  exact ⟨rfl, rfl⟩

theorem loads_current_restored : InStep scanner.toExpat uncached ∧
    LoadsCurrent scanner.toExpat "" uncached (restored 5 6) := by
  have htimely : AllTimely scanner.toExpat "" uncached (restored 5 6) := by
    simp only [restored, AllTimely, exec]
    refine ⟨fun h => h.elim, fun _ => .inr ?_, fun h => h.elim, trivial⟩
    rw [(load_uncached scanner.toExpat 5).2]
    decide
  exact ⟨inStep_uncached _, loads_current (inStep_uncached _) htimely⟩

/-- In the second in which the cache was written, the old configuration is loaded once more. -/
theorem not_current_same_second :
    ¬ ∀ (X : Expat) (defaults : String) (s : Clocked) (es : List Event), InStep X s →
      (∀ e ∈ es, e.now ≤ e.later) → es.Pairwise (fun e e' => e.later ≤ e'.now) →
        LoadsCurrent X defaults s es := by
  intro h
  have hde := reads_oneSetting printable_de scanner.toExpat
  have hvalid : configValidate scanner.toExpat true (arrayToXml (oneSetting "de") xmlRootobj) =
      true := ((xmlToArray_ok_iff _ _).1 ⟨_, hde⟩).1
  obtain ⟨hcache, htime⟩ := load_uncached scanner.toExpat 5
  obtain ⟨-, -, hlast, -⟩ := h scanner.toExpat "" uncached (restored 5 5) (inStep_uncached _)
    (by decide) (by decide)
  obtain ⟨file, hfile, hyields, -⟩ := hlast rfl
  -- the upload has replaced `config.xml` and nothing else
  have hinstalled : ∀ s e, installConfig scanner.toExpat e
      (some (arrayToXml (oneSetting "de") xmlRootobj)) true s =
      { s with disk := { s.disk with configXml := some (arrayToXml (oneSetting "de") xmlRootobj),
                                     configLock := false }, xmlTime := e.now } := by
    intro s e
    simp [installConfig, configInstall, hvalid]
  simp only [exec, hinstalled] at hfile hyields
  obtain rfl := Option.some.inj hfile
  have hstale := hyields (oneSetting "en") (load_of_cache hcache htime.ge)
  rw [hde] at hstale
  revert hstale
  decide

end Config
end Askozia
