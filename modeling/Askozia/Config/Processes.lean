import Askozia.Concurrent.CriticalSection
import Askozia.Config.Freshness

/-!
# Any number of scripts on the same files

Scripts load, save, restore and reset the configuration, or generate files from it, each between
`config_lock` and `config_unlock`. They are interleaved at single file operations: a file is opened
for writing and written in two steps, and whoever reads in between gets what is there. Attempts to
create a lock file that exists change nothing, and nobody runs out of attempts; every other file can
be opened.

* `lockDiscipline` checks every move against `Askozia.Concurrent.CriticalSection`;
* `exclusive_and_paired`: at most one script is inside, nobody reads a file that is being written,
  and `$uniqid_map` always belongs to `$config`.
-/

namespace Askozia
namespace Config
namespace Processes

open Php Xml XmlParse Concurrent

/-! ## The system -/

/-- A file, with what it holds. -/
inductive File (α : Type) where
  | absent
  /-- Opened for writing and not yet complete. -/
  | begun
  | whole (x : α)
deriving DecidableEq, Repr

/-- The files and the modification times of `config.xml` and `configca.che`. -/
structure Files where
  lockfile : Bool
  xml : File String
  cache : File Val
  index : File Val
  xmlTime : ℕ
  cacheTime : ℕ
deriving DecidableEq, Repr

/-- `file_exists("configca.che") && filemtime("configca.che") >= filemtime("config.xml")` -/
def Files.Fresh (f : Files) : Prop :=
  f.cache ≠ .absent ∧ (f.xml = .absent ∨ f.xmlTime ≤ f.cacheTime)

/-- `unserialize(file_get_contents(..))`, `false` for a file that is not complete. -/
def File.unserialize : File Val → Val
  | .whole v => v
  | _ => .bool false

/-- What a script does between `config_lock` and `config_unlock`. -/
inductive Task where
  | load
  /-- `write_config()` with this `$config` -/
  | write (config : Val)
  /-- `config_install` of a file that has been validated -/
  | install (file : String)
  | reset
  /-- a page that generates files from what it has loaded -/
  | generate
deriving DecidableEq, Repr

/-- Where a script is. -/
inductive Phase where
  /-- Not in a section, with what its last load or save has left in memory. -/
  | outside (g : Option Globals)
  /-- In `config_lock`. -/
  | locking (t : Task)
  | locked (t : Task)
  /-- To read `configca.che`. -/
  | readingCache
  /-- To read `uniqidca.che`. -/
  | readingIndex (config : Val)
  /-- To read `config.xml`. -/
  | readingXml
  | openingCache (config : Val)
  | writingCache (config : Val)
  | openingIndex (config : Val)
  | writingIndex (config : Val)
  /-- `write_config` has opened `config.xml`. -/
  | writingXml (text : String)
  /-- `reset_factory_defaults` has cleared `/conf`. -/
  | cleared
  /-- `copy` has opened `config.xml`. -/
  | copying (file : String)
  /-- In `config_unlock`. -/
  | unlocking (g : Option Globals)
  /-- `config_unlock` has seen the lock file. -/
  | unlinking (g : Option Globals)
  /-- Ended by `die`, with the lock file left behind. -/
  | died
deriving DecidableEq, Repr

/-- One file operation of a script; `n` is the time at which a file is written. -/
inductive Move (X : Expat) (defaults : String) : Phase → Files → Phase → Files → Prop
  | call {g f} (t : Task) : Move X defaults (.outside g) f (.locking t) f
  | create {t f} : f.lockfile = false →
      Move X defaults (.locking t) f (.locked t) { f with lockfile := true }
  -- the load
  | takeCache {f} : f.Fresh → Move X defaults (.locked .load) f .readingCache f
  | takeXml {f} : ¬ f.Fresh → f.xml ≠ .absent → Move X defaults (.locked .load) f .readingXml f
  | noXml {f} : ¬ f.Fresh → f.xml = .absent →
      Move X defaults (.locked .load) f (.unlocking none) f
  | readCache {f} : Move X defaults .readingCache f (.readingIndex f.cache.unserialize) f
  | readIndex {config f} : Move X defaults (.readingIndex config) f
      (.unlocking (some ⟨config, f.index.unserialize⟩)) f
  -- `xml_to_array`, of the load and of `write_config`
  | readXml {f text config} : f.xml = .whole text → xmlToArray X text xmlRootobj = .ok config →
      Move X defaults .readingXml f (.openingCache config) f
  | readXmlDies {f text e} : f.xml = .whole text → xmlToArray X text xmlRootobj = .error e →
      Move X defaults .readingXml f .died f
  | readXmlBegun {f} (config : Val) : f.xml = .begun →
      Move X defaults .readingXml f (.openingCache config) f
  | readXmlAbsent {f} : f.xml = .absent → Move X defaults .readingXml f .died f
  -- both caches are written, in this order
  | openCache {config f} (n : ℕ) : Move X defaults (.openingCache config) f (.writingCache config)
      { f with cache := .begun, cacheTime := n }
  | writeCache {config f} (n : ℕ) : Move X defaults (.writingCache config) f (.openingIndex config)
      { f with cache := .whole config, cacheTime := n }
  | openIndex {config f} : Move X defaults (.openingIndex config) f (.writingIndex config)
      { f with index := .begun }
  | writeIndex {config f} : Move X defaults (.writingIndex config) f
      (.unlocking (some ⟨config, configBuildUniqidMap config⟩))
      { f with index := .whole (configBuildUniqidMap config) }
  -- `write_config`
  | openXml {config f} (now : ℤ) (n : ℕ) : Move X defaults (.locked (.write config)) f
      (.writingXml (arrayToXml (stamp now config) xmlRootobj)) { f with xml := .begun, xmlTime := n }
  | writeXml {text f} (n : ℕ) : Move X defaults (.writingXml text) f .readingXml
      { f with xml := .whole text, xmlTime := n }
  -- `config_install` and `reset_factory_defaults`
  | openCopy {file f} (n : ℕ) : Move X defaults (.locked (.install file)) f (.copying file)
      { f with xml := .begun, xmlTime := n }
  | clear {f} : Move X defaults (.locked .reset) f .cleared { f with xml := .absent }
  | openDefaults {f} (n : ℕ) : Move X defaults .cleared f (.copying defaults)
      { f with xml := .begun, xmlTime := n }
  | copy {file f} (n : ℕ) : Move X defaults (.copying file) f (.unlocking none)
      { f with xml := .whole file, xmlTime := n }
  | generate {f} : Move X defaults (.locked .generate) f (.unlocking none) f
  -- `config_unlock`
  | seeLock {g f} : f.lockfile = true → Move X defaults (.unlocking g) f (.unlinking g) f
  | seeNoLock {g f} : f.lockfile = false → Move X defaults (.unlocking g) f (.outside g) f
  | unlink {g f} : Move X defaults (.unlinking g) f (.outside g) { f with lockfile := false }

/-! ## What holds inside -/

/-- Between a successful `config_lock` and `config_unlock`. -/
def Phase.Inside : Phase → Prop
  | .outside _ => False
  | .locking _ => False
  | _ => True

/-- A cache comes with its index. -/
def Files.Paired (f : Files) : Prop :=
  f.cache = .absent ∨
    ∃ config, f.cache = .whole config ∧ f.index = .whole (configBuildUniqidMap config)

/-- Nothing is being written. -/
def Files.Quiet (f : Files) : Prop := f.xml ≠ .begun ∧ f.Paired

/-- The files as the script inside has left them. -/
def Phase.Ok : Phase → Files → Prop
  | .readingCache, f => f.Quiet ∧ f.cache ≠ .absent
  | .readingIndex config, f => f.Quiet ∧ f.index = .whole (configBuildUniqidMap config)
  | .writingCache _, f => f.xml ≠ .begun
  | .openingIndex config, f => f.xml ≠ .begun ∧ f.cache = .whole config
  | .writingIndex config, f => f.xml ≠ .begun ∧ f.cache = .whole config
  | .writingXml _, f => f.Paired
  | .copying _, f => f.Paired
  | _, f => f.Quiet

/-- The index in memory belongs to the tree in memory. -/
def Indexed (g : Option Globals) : Prop := ∀ g' ∈ g, g'.uniqidMap = configBuildUniqidMap g'.config

/-- What a script knows of its memory. -/
def Phase.Known : Phase → Prop
  | .outside g => Indexed g
  | .unlocking g => Indexed g
  | .unlinking g => Indexed g
  | _ => True

section Discipline

variable {X : Expat} {defaults : String} {ph ph' : Phase} {f f' : Files}

/-- A script that is inside finds the files right again after each of its operations. -/
theorem Move.ok (h : Move X defaults ph f ph' f') (hin' : ph'.Inside) (hok : ph.Ok f)
    (hin : ph.Inside) : ph'.Ok f' := by
  cases h with
  | call t => exact hin.elim
  | create _ => exact hin.elim
  -- reading the cache is sound, since it was written after the file it is newer than
  | takeCache hfresh => exact ⟨hok, hfresh.1⟩
  | takeXml => exact hok
  | noXml => exact hok
  | readCache =>
    obtain ⟨hquiet, hcache⟩ := hok
    rcases hquiet.2 with habsent | ⟨config, hc, hi⟩
    · exact absurd habsent hcache
    · rw [hc]
      exact ⟨hquiet, hi⟩
  | readIndex => exact hok.1
  | readXml => exact hok
  | readXmlDies => exact hok
  | readXmlBegun => exact hok
  | readXmlAbsent => exact hok
  | openCache n => exact hok.1
  | writeCache n => exact ⟨hok, rfl⟩
  | openIndex => exact hok
  | @writeIndex config => exact ⟨hok.1, .inr ⟨config, hok.2, rfl⟩⟩
  -- opened for writing, a file is half written until the lock is given back
  | openXml now n => exact hok.2
  | writeXml n => exact ⟨nofun, hok⟩
  | openCopy n => exact hok.2
  | clear => exact ⟨nofun, hok.2⟩
  | openDefaults n => exact hok.2
  | copy n => exact ⟨nofun, hok⟩
  | generate => exact hok
  | seeLock _ => exact hok
  -- these two are made outside the lock
  | seeNoLock _ => exact hin'.elim
  | unlink => exact hin'.elim

/-- Only `create` and `unlink` touch the lock file. -/
theorem Move.lockfile (h : Move X defaults ph f ph' f') (hin : ph.Inside) (hin' : ph'.Inside) :
    f'.lockfile = f.lockfile := by
  cases h with
  | create _ => exact hin.elim
  | unlink => exact hin'.elim
  | _ => rfl

/-- Scripts obey the lock. -/
def lockDiscipline (X : Expat) (defaults : String) : Discipline (Move X defaults) where
  Inside := Phase.Inside
  locked := Files.lockfile
  Quiet := Files.Quiet
  Ok := Phase.Ok
  Local := Phase.Known
  outside h hin hin' := by
    cases h with
    | call t => rfl
    | create _ => exact absurd trivial hin'
    | _ => exact absurd trivial hin
  enter h hin hin' := by
    cases h with
    | create hfree => exact ⟨hfree, rfl, fun hquiet => hquiet⟩
    | call t => exact hin'.elim
    | _ => exact absurd trivial hin
  work h hin hin' hlock hok := ⟨(h.lockfile hin hin').trans hlock, h.ok hin' hok hin⟩
  leave h hin hin' hlock hok := by
    cases h with
    | seeNoLock hfree =>
      rw [hlock] at hfree
      cases hfree
    | unlink => exact ⟨rfl, hok⟩
    | call t => exact hin.elim
    | _ => exact absurd trivial hin'
  keep h hok hknown := by
    cases h with
    | @readIndex config =>
      have hindex := (hok trivial).2
      intro g' hg'
      obtain rfl := Option.some.inj hg'
      rw [hindex]
      rfl
    | writeIndex =>
      intro g' hg'
      obtain rfl := Option.some.inj hg'
      rfl
    | noXml => exact fun g' hg' => by cases hg'
    | copy n => exact fun g' hg' => by cases hg'
    | generate => exact fun g' hg' => by cases hg'
    | seeLock _ => exact hknown
    | seeNoLock _ => exact hknown
    | unlink => exact hknown
    | _ => trivial

end Discipline

/-! ## Runs -/

/-- Nobody has loaded anything, and there is no cache. -/
structure Start {ι : Type} (s : World ι Phase Files) : Prop where
  phase : ∀ p, s.phase p = .outside none
  lockfile : s.shared.lockfile = false
  xml : s.shared.xml ≠ .begun
  cache : s.shared.cache = .absent

theorem Start.inv {ι : Type} [DecidableEq ι] {s : World ι Phase Files} (h : Start s) (X : Expat)
    (defaults : String) : Inv (lockDiscipline X defaults) s where
  holder := by
    refine .inl ⟨h.lockfile, ⟨h.xml, .inl h.cache⟩, fun p => ?_⟩
    rw [h.phase p]
    exact id
  known := by
    intro p
    rw [h.phase p]
    exact fun g' hg' => by cases hg'

/-- In every state any number of scripts can reach together, at most one is inside, whoever is to
read a file finds it complete, and what a script has in memory is a tree with its own index. -/
theorem exclusive_and_paired {ι : Type} [DecidableEq ι] {X : Expat} {defaults : String}
    {s s' : World ι Phase Files} (hstart : Start s)
    (hreach : Relation.ReflTransGen (WorldStep (Move X defaults)) s s') :
    (∀ p q, (s'.phase p).Inside → (s'.phase q).Inside → p = q) ∧
    (∀ p, (s'.phase p = .readingCache → s'.shared.cache ≠ .begun) ∧
      (∀ config, s'.phase p = .readingIndex config → s'.shared.index ≠ .begun) ∧
      (s'.phase p = .readingXml → s'.shared.xml ≠ .begun)) ∧
    ∀ p g, s'.phase p = .outside (some g) → g.uniqidMap = configBuildUniqidMap g.config := by
  have hinv := reachable_inv (hstart.inv X defaults) hreach
  refine ⟨fun p q hp hq => hinv.eq_of_inside hp hq, fun p => ⟨fun hp => ?_, fun config hp => ?_,
    fun hp => ?_⟩, fun p g hp => ?_⟩
  -- the invariant says of each phase what it knows inside the lock
  · have hok := (hinv.ok_of_inside (p := p) (by rw [hp]; trivial)).2
    rw [hp] at hok
    obtain ⟨⟨-, habsent | ⟨config, hc, -⟩⟩, hcache⟩ := hok
    · exact absurd habsent hcache
    · rw [hc]
      exact nofun
  · have hok := (hinv.ok_of_inside (p := p) (by rw [hp]; trivial)).2
    rw [hp] at hok
    rw [hok.2]
    exact nofun
  · have hok := (hinv.ok_of_inside (p := p) (by rw [hp]; trivial)).2
    rw [hp] at hok
    exact hok.1
  · have hknown := hinv.known p
    rw [hp] at hknown
    exact hknown g rfl

/-- Two scripts and a `config.xml`. -/
def twoScripts : World Bool Phase Files where
  phase _ := .outside none
  shared :=
    { lockfile := false, xml := .whole (arrayToXml (oneSetting "en") xmlRootobj), cache := .absent,
      index := .absent, xmlTime := 3, cacheTime := 0 }

theorem start_twoScripts : Start twoScripts := ⟨fun _ => rfl, rfl, nofun, rfl⟩

/-- The files after one script has loaded the configuration. -/
def cached : Files :=
  { twoScripts.shared with
    cache := .whole (oneSetting "en")
    index := .whole (configBuildUniqidMap (oneSetting "en"))
    cacheTime := 4 }

/-- The memory of that script. -/
def english : Globals := ⟨oneSetting "en", configBuildUniqidMap (oneSetting "en")⟩

/-- A load that writes the caches. -/
theorem moves_load (X : Expat) (defaults : String) :
    Relation.ReflTransGen (fun a b : Phase × Files => Move X defaults a.1 a.2 b.1 b.2)
      (.outside none, twoScripts.shared) (.outside (some english), cached) := by
  have hstale : ¬ Files.Fresh { twoScripts.shared with lockfile := true } := fun h => h.1 rfl
  refine .head (b := (_, _)) (.call .load) ?_
  refine .head (b := (_, _)) (.create rfl) ?_
  refine .head (b := (_, _)) (.takeXml hstale nofun) ?_
  refine .head (b := (_, _)) (.readXml rfl (reads_oneSetting printable_en X)) ?_
  refine .head (b := (_, _)) (.openCache 4) ?_
  refine .head (b := (_, _)) (.writeCache 4) ?_
  refine .head (b := (_, _)) .openIndex ?_
  refine .head (b := (_, _)) .writeIndex ?_
  refine .head (b := (_, _)) (.seeLock rfl) ?_
  exact .single .unlink

/-- A load that takes the caches. -/
theorem moves_reload (X : Expat) (defaults : String) :
    Relation.ReflTransGen (fun a b : Phase × Files => Move X defaults a.1 a.2 b.1 b.2)
      (.outside none, cached) (.outside (some english), cached) := by
  have hfresh : Files.Fresh { cached with lockfile := true } := ⟨nofun, .inr (by decide)⟩
  refine .head (b := (_, _)) (.call .load) ?_
  refine .head (b := (_, _)) (.create rfl) ?_
  refine .head (b := (_, _)) (.takeCache hfresh) ?_
  refine .head (b := (_, _)) .readCache ?_
  refine .head (b := (_, _)) .readIndex ?_
  refine .head (b := (_, _)) (.seeLock rfl) ?_
  exact .single .unlink

theorem exclusive_and_paired_twoScripts :
    ∃ s' : World Bool Phase Files,
      Relation.ReflTransGen (WorldStep (Move scanner.toExpat "")) twoScripts s' ∧
      (∀ p, s'.phase p = .outside (some english)) ∧
      english.uniqidMap = configBuildUniqidMap english.config := by
  have hfirst := reach_alone (s := twoScripts) (p := false) (moves_load scanner.toExpat "")
  -- the second script finds the caches of the first
  have hsecond := reach_alone (s := twoScripts.move false (.outside (some english)) cached)
    (p := true) (moves_reload scanner.toExpat "")
  have hreach := hfirst.trans hsecond
  have hphase : ∀ p, ((twoScripts.move false (.outside (some english)) cached).move true
      (.outside (some english)) cached).phase p = .outside (some english) := by
    intro p
    cases p <;> rfl
  exact ⟨_, hreach, hphase, (exclusive_and_paired start_twoScripts hreach).2.2 true english
    (hphase true)⟩

end Processes
end Config
end Askozia
