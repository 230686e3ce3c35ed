import Askozia.Concurrent.ReadModifyWrite
import Askozia.Config.Store
import Askozia.Config.UniqidIndex
import Askozia.XmlParse.RoundTrip

/-!
# Two requests at a time

A request loads the configuration, changes its copy and saves it. Loading and saving each hold
`config.lock`; the time in between is not covered by a lock. Here two requests, `false` and
`true`, run step by step in any order. Nobody gives up waiting for the lock, and every file can
be opened.

* `Sim` relates the system to the two clients of `Askozia.Concurrent.ReadModifyWrite`: a load
  happens when a request reads the cache or `config.xml`, a store when it has read back what it
  wrote;
* `outcome_of_run`: what is stored once both have finished.
-/

namespace Askozia
namespace Config

open Php Xml XmlParse Concurrent

/-! ## The system -/

/-- Where a request is. -/
inductive Phase where
  | start
  /-- Holds the lock and is to load. -/
  | loading
  /-- Holds the lock, has read `config.xml` and is to write the caches. -/
  | refreshing (g : Globals)
  /-- Holds the lock and has loaded. -/
  | loaded (g : Globals)
  | editing (g : Globals)
  /-- Waits for the lock in `write_config`. -/
  | saving (config : Val)
  /-- Holds the lock and is to write `config.xml`. -/
  | writing (config : Val)
  /-- Holds the lock and has written `config.xml`. -/
  | written
  /-- Holds the lock, has read `config.xml` back and is to write the caches. -/
  | reread (g : Globals)
  /-- Holds the lock and has written everything. -/
  | cached
  | done

/-- The files with their times, the clock and the requests. -/
structure System where
  disk : Disk
  /-- `filemtime` of `config.xml` -/
  xmlTime : ℕ
  /-- `filemtime` of `configca.che` -/
  cacheTime : ℕ
  clock : ℕ
  phase : Bool → Phase

namespace System

/-- Request `i` goes on to a phase. -/
def goto (s : System) (i : Bool) (p : Phase) : System :=
  { s with phase := Function.update s.phase i p }

/-- `config_lock` and `config_unlock`. -/
def setLock (s : System) (b : Bool) : System := { s with disk := { s.disk with configLock := b } }

/-- The cache is not older than `config.xml`. -/
def Fresh (s : System) : Prop := s.disk.configCache.isSome = true ∧ s.xmlTime ≤ s.cacheTime

/-- Writes both caches. -/
def writeCaches (s : System) (g : Globals) : System :=
  { s with
    disk := { s.disk with configCache := some g.config, uniqidCache := some g.uniqidMap }
    cacheTime := s.clock }

/-- Writes `config.xml`. -/
def writeXml (s : System) (text : String) : System :=
  { s with disk := { s.disk with configXml := some text }, xmlTime := s.clock }

/-- `config.xml` reads as `t`. -/
def Reads (X : Expat) (s : System) (t : Val) : Prop :=
  ∃ file, s.disk.configXml = some file ∧ xmlToArray X file xmlRootobj = .ok t

@[simp] theorem goto_phase_self (s : System) (i : Bool) (p : Phase) :
    (s.goto i p).phase i = p := Function.update_self ..

@[simp] theorem goto_phase_not (s : System) (i : Bool) (p : Phase) :
    (s.goto i p).phase (!i) = s.phase (!i) := Function.update_of_ne (by simp) ..

end System

/-- What was loaded, with its index. -/
def indexed (t : Val) : Globals := { config := t, uniqidMap := configBuildUniqidMap t }

/-- One step of one request, or of the clock. A step that loads or stores says so. -/
inductive Request (X : Expat) (change : Bool → Globals → Val) :
    System → Option Access → System → Prop
  | tick (s : System) (n : ℕ) : Request X change s none { s with clock := s.clock + n }
  | lockForLoad (s : System) (i : Bool) : s.phase i = .start → s.disk.configLock = false →
      Request X change s none ((s.setLock true).goto i .loading)
  | readCache (s : System) (i : Bool) {config uniqidMap : Val} : s.phase i = .loading → s.Fresh →
      s.disk.configCache = some config → s.disk.uniqidCache = some uniqidMap →
      Request X change s (some (.load i)) (s.goto i (.loaded ⟨config, uniqidMap⟩))
  | readXml (s : System) (i : Bool) {t : Val} : s.phase i = .loading → ¬ s.Fresh → s.Reads X t →
      Request X change s (some (.load i)) (s.goto i (.refreshing (indexed t)))
  | refresh (s : System) (i : Bool) {g : Globals} : s.phase i = .refreshing g →
      Request X change s none ((s.writeCaches g).goto i (.loaded g))
  | unlockLoaded (s : System) (i : Bool) {g : Globals} : s.phase i = .loaded g →
      Request X change s none ((s.setLock false).goto i (.editing g))
  | edit (s : System) (i : Bool) {g : Globals} : s.phase i = .editing g →
      Request X change s none (s.goto i (.saving (change i g)))
  | lockForSave (s : System) (i : Bool) {config : Val} : s.phase i = .saving config →
      s.disk.configLock = false →
      Request X change s none ((s.setLock true).goto i (.writing config))
  | write (s : System) (i : Bool) {config : Val} : s.phase i = .writing config →
      Request X change s none
        ((s.writeXml (arrayToXml (stamp s.clock config) xmlRootobj)).goto i .written)
  | readBack (s : System) (i : Bool) {t : Val} : s.phase i = .written → s.Reads X t →
      Request X change s (some (.store i)) (s.goto i (.reread (indexed t)))
  | cache (s : System) (i : Bool) {g : Globals} : s.phase i = .reread g →
      Request X change s none ((s.writeCaches g).goto i .cached)
  | unlockSaved (s : System) (i : Bool) : s.phase i = .cached →
      Request X change s none ((s.setLock false).goto i .done)

/-- Any number of steps, with the loads and stores in the order they happen. -/
inductive Requests (X : Expat) (change : Bool → Globals → Val) (s₀ : System) :
    List Access → System → Prop
  | start : Requests X change s₀ [] s₀
  | step {l : List Access} {s s' : System} {a : Option Access} : Requests X change s₀ l s →
      Request X change s a s' → Requests X change s₀ (l ++ a.toList) s'

/-- What a request that loaded `t` may store. -/
def saves (X : Expat) (change : Bool → Globals → Val) (i : Bool) (t t' : Val) : Prop :=
  ∃ now : ℕ, normalise X (stamp now (change i (indexed t))) = .ok t'

/-- Both requests are to start, and the files describe `t`. -/
structure Idle (X : Expat) (t : Val) (s : System) : Prop where
  phase : ∀ i, s.phase i = .start
  lock : s.disk.configLock = false
  reads : s.Reads X t
  caches : s.Fresh → s.disk.configCache = some t ∧ s.disk.uniqidCache = some (configBuildUniqidMap t)

/-! ## The simulation -/

/-- The request is between `config_lock` and `config_unlock`. -/
def Phase.holdsLock : Phase → Bool
  | start | editing _ | saving _ | done => false
  | _ => true

/-- `config.xml` has been written and the caches have not. -/
def Phase.midWrite : Phase → Bool
  | written | reread _ => true
  | _ => false

/-- What a phase says about the client of the request, the stored tree and `config.xml`. -/
def View (change : Bool → Globals → Val) (i : Bool) (status : Status Val) (shared : Val)
    (xml : Option String) : Phase → Prop
  | .start | .loading => status = .waiting
  | .refreshing g => status = .holding shared ∧ g = indexed shared
  | .loaded g | .editing g => ∃ t, status = .holding t ∧ g = indexed t
  | .saving config | .writing config => ∃ t, status = .holding t ∧ config = change i (indexed t)
  | .written => ∃ t, status = .holding t ∧ ∃ now : ℕ,
      xml = some (arrayToXml (stamp now (change i (indexed t))) xmlRootobj)
  | .reread g => status = .finished ∧ g = indexed shared
  | .cached | .done => status = .finished

/-- The system, seen as the two clients. -/
structure Sim (X : Expat) (change : Bool → Globals → Val) (s : System) (a : Concurrent.State Val) :
    Prop where
  /-- The lock is taken while a request is inside, and only one is. -/
  lock : ∀ i, (s.phase i).holdsLock = true →
    s.disk.configLock = true ∧ (s.phase (!i)).holdsLock = false
  /-- Unless a request has written and not read back, `config.xml` reads as the stored tree. -/
  reads : (∀ i, s.phase i ≠ .written) → s.Reads X a.shared
  /-- Unless a request is between writing `config.xml` and the caches, a cache that is used
  describes the stored tree. -/
  caches : (∀ i, (s.phase i).midWrite = false) → s.Fresh →
    s.disk.configCache = some a.shared ∧
      s.disk.uniqidCache = some (configBuildUniqidMap a.shared)
  view : ∀ i, View change i (a.status i) a.shared s.disk.configXml (s.phase i)

section Simulation

variable {X : Expat} {change : Bool → Globals → Val}

theorem Phase.holdsLock_of_midWrite {p : Phase} (h : p.midWrite = true) : p.holdsLock = true := by
  cases p <;> simp_all [midWrite, holdsLock]

/-- A request outside the lock does not depend on what is stored. -/
theorem View.of_outside {i : Bool} {status : Status Val} {shared shared' : Val}
    {xml xml' : Option String} {p : Phase} (hp : p.holdsLock = false)
    (h : View change i status shared xml p) : View change i status shared' xml' p := by
  cases p <;> simp_all [View, Phase.holdsLock]

theorem forall_request {P : Bool → Prop} {i : Bool} (hi : P i) (hn : P (!i)) : ∀ j, P j := by
  intro j
  rcases Bool.eq_or_eq_not j i with rfl | rfl
  · exact hi
  · exact hn

variable {s : System} {a : Concurrent.State Val}

/-- While a request is inside, the other is not in the middle of anything. -/
theorem Sim.other_outside (h : Sim X change s a) {i : Bool}
    (hi : (s.phase i).holdsLock = true) : (s.phase (!i)).holdsLock = false := (h.lock i hi).2

/-- A request that is inside, and not in the middle of writing, has the files for itself. -/
theorem Sim.not_midWrite (h : Sim X change s a) {i : Bool} (hi : (s.phase i).holdsLock = true)
    (hw : (s.phase i).midWrite = false) : ∀ j, (s.phase j).midWrite = false := by
  refine forall_request hw ?_
  by_contra hc
  have hother := h.other_outside hi
  rw [Phase.holdsLock_of_midWrite (by simpa using hc)] at hother
  cases hother

theorem ne_written {p : Phase} (h : p.midWrite = false) : p ≠ .written := by
  rintro rfl
  cases h

/-- A step that only moves a request on, without touching lock, files or what is stored. -/
theorem Sim.goto (h : Sim X change s a) {i : Bool} {p : Phase} {a' : Concurrent.State Val}
    (hshared : a'.shared = a.shared) (hother : a'.status (!i) = a.status (!i))
    (hlock : p.holdsLock = (s.phase i).holdsLock) (hmid : (s.phase i).midWrite = false)
    (hview : View change i (a'.status i) a.shared s.disk.configXml p) :
    Sim X change (s.goto i p) a' where
  lock := by
    refine forall_request (i := i) ?_ ?_
    · simp only [System.goto_phase_self, System.goto_phase_not, hlock]
      exact h.lock i
    · intro hn
      simp only [System.goto_phase_not] at hn
      simp only [Bool.not_not, System.goto_phase_self, hlock]
      exact ⟨(h.lock _ hn).1, by simpa using (h.lock _ hn).2⟩
  reads hw := by
    rw [hshared]
    refine h.reads (forall_request (ne_written hmid) ?_)
    have := hw (!i)
    rwa [System.goto_phase_not] at this
  caches hw hf := by
    rw [hshared]
    refine h.caches (forall_request hmid ?_) hf
    have := hw (!i)
    rwa [System.goto_phase_not] at this
  view := by
    refine forall_request (i := i) ?_ ?_
    · rw [System.goto_phase_self, hshared]
      exact hview
    · rw [System.goto_phase_not, hshared, hother]
      exact h.view (!i)

/-- Taking the lock when it is free. -/
theorem Sim.enter (h : Sim X change s a) {i : Bool} {p : Phase}
    (hfree : s.disk.configLock = false) (hmid : (s.phase i).midWrite = false)
    (hview : View change i (a.status i) a.shared s.disk.configXml p) :
    Sim X change ((s.setLock true).goto i p) a where
  -- nobody held the lock, so the other request is not in a critical section
  lock := by
    have hnobody : ∀ j, (s.phase j).holdsLock = false := by
      intro j
      by_contra hj
      have hlocked := (h.lock j (by simpa using hj)).1
      rw [hfree] at hlocked
      cases hlocked
    refine forall_request (i := i) ?_ ?_
    · intro _
      rw [System.goto_phase_not]
      exact ⟨rfl, hnobody _⟩
    · rw [System.goto_phase_not]
      intro hn
      have hout := hnobody (!i)
      rw [show s.phase (!i) = (s.setLock true).phase (!i) from rfl, hn] at hout
      cases hout
  reads hw := by
    refine h.reads (forall_request (ne_written hmid) ?_)
    have hn := hw (!i)
    rwa [System.goto_phase_not] at hn
  caches hw hf := by
    refine h.caches (forall_request hmid ?_) hf
    have hn := hw (!i)
    rwa [System.goto_phase_not] at hn
  view := by
    refine forall_request (i := i) ?_ ?_
    · rw [System.goto_phase_self]
      exact hview
    · rw [System.goto_phase_not]
      exact h.view (!i)

/-- Releasing the lock. -/
theorem Sim.leave (h : Sim X change s a) {i : Bool} {p : Phase}
    (hi : (s.phase i).holdsLock = true) (hp : p.holdsLock = false)
    (hmid : (s.phase i).midWrite = false)
    (hview : View change i (a.status i) a.shared s.disk.configXml p) :
    Sim X change ((s.setLock false).goto i p) a where
  lock := by
    refine forall_request (i := i) ?_ ?_
    · rw [System.goto_phase_self, hp]
      intro hc
      cases hc
    · rw [System.goto_phase_not]
      intro hn
      have hout := h.other_outside hi
      rw [show s.phase (!i) = (s.setLock false).phase (!i) from rfl, hn] at hout
      cases hout
  reads hw := by
    refine h.reads (forall_request (ne_written hmid) ?_)
    have hn := hw (!i)
    rwa [System.goto_phase_not] at hn
  caches hw hf := by
    refine h.caches (forall_request hmid ?_) hf
    have hn := hw (!i)
    rwa [System.goto_phase_not] at hn
  view := by
    refine forall_request (i := i) ?_ ?_
    · rw [System.goto_phase_self]
      exact hview
    · rw [System.goto_phase_not]
      exact h.view (!i)

/-- Writing the caches for what is stored. -/
theorem Sim.writeCaches (h : Sim X change s a) {i : Bool} {p : Phase}
    (hi : (s.phase i).holdsLock = true) (hw : s.phase i ≠ .written)
    (hview : View change i (a.status i) a.shared s.disk.configXml p) :
    Sim X change ((s.writeCaches (indexed a.shared)).goto i p) a where
  lock := by
    refine forall_request (i := i) ?_ ?_
    · intro _
      rw [System.goto_phase_not]
      exact h.lock i hi
    · rw [System.goto_phase_not]
      intro hn
      have hout := h.other_outside hi
      rw [show s.phase (!i) = (s.writeCaches (indexed a.shared)).phase (!i) from rfl, hn] at hout
      cases hout
  reads hr := by
    refine h.reads (forall_request hw ?_)
    have hn := hr (!i)
    rwa [System.goto_phase_not] at hn
  caches _ _ := ⟨rfl, rfl⟩
  view := by
    refine forall_request (i := i) ?_ ?_
    · rw [System.goto_phase_self]
      exact hview
    · rw [System.goto_phase_not]
      exact h.view (!i)

/-- Writing `config.xml`. -/
theorem Sim.writeXml (h : Sim X change s a) {i : Bool} {text : String}
    (hi : (s.phase i).holdsLock = true)
    (hview : View change i (a.status i) a.shared (some text) .written) :
    Sim X change ((s.writeXml text).goto i .written) a where
  lock := by
    refine forall_request (i := i) ?_ ?_
    · intro _
      rw [System.goto_phase_not]
      exact h.lock i hi
    · rw [System.goto_phase_not]
      intro hn
      have hout := h.other_outside hi
      rw [show s.phase (!i) = (s.writeXml text).phase (!i) from rfl, hn] at hout
      cases hout
  reads hr := absurd (System.goto_phase_self _ _ _) (hr i)
  caches hw := by
    have hmid := hw i
    rw [System.goto_phase_self] at hmid
    cases hmid
  view := by
    refine forall_request (i := i) ?_ ?_
    · rw [System.goto_phase_self]
      exact hview
    · rw [System.goto_phase_not]
      exact View.of_outside (h.other_outside hi) (h.view (!i))

/-- Reading `config.xml` back stores what it reads as. -/
theorem Sim.readBack (h : Sim X change s a) {i : Bool} {t : Val} (hi : s.phase i = .written)
    (ht : s.Reads X t) : Sim X change (s.goto i (.reread (indexed t))) (a.put i t) where
  lock := by
    have hlock := h.lock i (by rw [hi]; rfl)
    refine forall_request (i := i) ?_ ?_
    · intro _
      rw [System.goto_phase_not]
      exact hlock
    · rw [System.goto_phase_not]
      intro hn
      rw [hlock.2] at hn
      cases hn
  reads _ := ht
  caches hw := by
    have hmid := hw i
    rw [System.goto_phase_self] at hmid
    cases hmid
  view := by
    refine forall_request (i := i) ?_ ?_
    · rw [System.goto_phase_self]
      exact ⟨State.put_self _ _ _, rfl⟩
    · rw [System.goto_phase_not, State.put_not]
      exact View.of_outside (h.other_outside (by rw [hi]; rfl)) (h.view (!i))

/-- Every step of the system is a step of the clients, or none. -/
theorem Sim.step (h : Sim X change s a) {s' : System} {o : Option Access}
    (hs : Request X change s o s') :
    ∃ a', Sim X change s' a' ∧
      (o = none ∧ a' = a ∨ ∃ acc, o = some acc ∧ Step (saves X change) a acc a') := by
  -- a load takes effect where the tree is in memory, a save where the file is read back
  cases hs with
  | tick n => exact ⟨a, ⟨h.lock, h.reads, h.caches, h.view⟩, .inl ⟨rfl, rfl⟩⟩
  | lockForLoad i hi hfree =>
    have hview := h.view i
    rw [hi] at hview
    exact ⟨a, h.enter hfree (by rw [hi]; rfl) hview, .inl ⟨rfl, rfl⟩⟩
  | readCache i hi hfresh hc hm =>
    have hwait : a.status i = .waiting := by
      have hview := h.view i
      rwa [hi] at hview
    -- the caches are in step with the file, for nobody is half way through writing it
    obtain ⟨hc', hm'⟩ := h.caches (h.not_midWrite (by rw [hi]; rfl) (by rw [hi]; rfl)) hfresh
    obtain rfl := Option.some.inj (hc.symm.trans hc')
    obtain rfl := Option.some.inj (hm.symm.trans hm')
    exact ⟨a.hold i, h.goto rfl (by simp) (by rw [hi]; rfl) (by rw [hi]; rfl)
      ⟨_, by simp, rfl⟩, .inr ⟨_, rfl, .load a i hwait⟩⟩
  | readXml i hi hfresh ht =>
    have hwait : a.status i = .waiting := by
      have hview := h.view i
      rwa [hi] at hview
    have hnone := h.not_midWrite (i := i) (by rw [hi]; rfl) (by rw [hi]; rfl)
    -- the file on the disk reads as the shared value
    obtain ⟨file, hfile, hread⟩ := h.reads fun j => ne_written (hnone j)
    obtain ⟨file', hfile', hread'⟩ := ht
    obtain rfl := Option.some.inj (hfile.symm.trans hfile')
    obtain rfl := Except.ok.inj (hread.symm.trans hread')
    exact ⟨a.hold i, h.goto rfl (by simp) (by rw [hi]; rfl) (by rw [hi]; rfl)
      ⟨by simp, rfl⟩, .inr ⟨_, rfl, .load a i hwait⟩⟩
  | refresh i hi =>
    have hview := h.view i
    rw [hi] at hview
    obtain ⟨hst, rfl⟩ := hview
    exact ⟨a, h.writeCaches (by rw [hi]; rfl) (by rw [hi]; rintro ⟨⟩) ⟨_, hst, rfl⟩,
      .inl ⟨rfl, rfl⟩⟩
  | unlockLoaded i hi =>
    have hview := h.view i
    rw [hi] at hview
    exact ⟨a, h.leave (by rw [hi]; rfl) rfl (by rw [hi]; rfl) hview, .inl ⟨rfl, rfl⟩⟩
  | edit i hi =>
    have hview := h.view i
    rw [hi] at hview
    obtain ⟨t, hst, rfl⟩ := hview
    exact ⟨a, h.goto rfl rfl (by rw [hi]; rfl) (by rw [hi]; rfl) ⟨t, hst, rfl⟩, .inl ⟨rfl, rfl⟩⟩
  | lockForSave i hi hfree =>
    have hview := h.view i
    rw [hi] at hview
    exact ⟨a, h.enter hfree (by rw [hi]; rfl) hview, .inl ⟨rfl, rfl⟩⟩
  | write i hi =>
    have hview := h.view i
    rw [hi] at hview
    obtain ⟨t, hst, rfl⟩ := hview
    exact ⟨a, h.writeXml (by rw [hi]; rfl) ⟨t, hst, s.clock, rfl⟩, .inl ⟨rfl, rfl⟩⟩
  | @readBack i t' hi ht =>
    have hview := h.view i
    rw [hi] at hview
    obtain ⟨t, hst, now, hxml⟩ := hview
    have hsave : saves X change i t t' := by
      obtain ⟨file, hfile, hread⟩ := ht
      obtain rfl := Option.some.inj (hxml.symm.trans hfile)
      exact ⟨now, hread⟩
    exact ⟨_, h.readBack hi ht, .inr ⟨_, rfl, .store a i hst hsave⟩⟩
  | cache i hi =>
    have hview := h.view i
    rw [hi] at hview
    obtain ⟨hst, rfl⟩ := hview
    exact ⟨a, h.writeCaches (by rw [hi]; rfl) (by rw [hi]; rintro ⟨⟩) hst, .inl ⟨rfl, rfl⟩⟩
  | unlockSaved i hi =>
    have hview := h.view i
    rw [hi] at hview
    exact ⟨a, h.leave (by rw [hi]; rfl) rfl (by rw [hi]; rfl) hview, .inl ⟨rfl, rfl⟩⟩

theorem Idle.sim {t : Val} (h : Idle X t s) : Sim X change s (State.init t) where
  lock i hi := by
    rw [h.phase] at hi
    cases hi
  reads _ := h.reads
  caches _ := h.caches
  view i := by
    rw [h.phase]
    rfl

/-- Every run of the system is a run of the clients. -/
theorem Requests.sim {t : Val} {s₀ : System} (h₀ : Idle X t s₀) {l : List Access}
    (hrun : Requests X change s₀ l s) :
    ∃ a, Sim X change s a ∧ Run (saves X change) (State.init t) l a := by
  induction hrun with
  | start => exact ⟨_, h₀.sim, .start⟩
  | step _ hs ih =>
    obtain ⟨a, ha, hr⟩ := ih
    obtain ⟨a', ha', ⟨rfl, rfl⟩ | ⟨acc, rfl, hstep⟩⟩ := ha.step hs
    · exact ⟨a', ha', by simpa using hr⟩
    · exact ⟨a', ha', hr.step hstep⟩

end Simulation

/-! ## What is stored in the end -/

/-- Once both requests have finished, `config.xml` and the caches describe what the second to
store has made of the configuration it had loaded: of what the first one stored if it loaded
after that, and of the initial configuration, without the change of the first, if not. -/
theorem outcome_of_run {X : Expat} {change : Bool → Globals → Val} {t₀ : Val} {s₀ s : System}
    {l : List Access} (h₀ : Idle X t₀ s₀) (hrun : Requests X change s₀ l s)
    (hdone : ∀ i, s.phase i = .done) :
    ∃ i u t, saves X change i t₀ u ∧ s.Reads X t ∧
      (s.Fresh → s.disk.configCache = some t ∧
        s.disk.uniqidCache = some (configBuildUniqidMap t)) ∧
      ((l = [.load i, .store i, .load (!i), .store (!i)] ∧ saves X change (!i) u t) ∨
        ((∃ j, l = [.load j, .load (!j), .store i, .store (!i)]) ∧
          saves X change (!i) t₀ t)) := by
  obtain ⟨a, ha, hr⟩ := hrun.sim h₀
  have hfinished : ∀ i, a.status i = .finished := by
    intro i
    have hview := ha.view i
    rwa [hdone] at hview
  -- the accesses are those of the abstract run, which has two shapes
  obtain ⟨i, u, hu, hcases⟩ := finished_cases hr hfinished
  refine ⟨i, u, a.shared, hu, ha.reads fun j => by rw [hdone]; rintro ⟨⟩,
    ha.caches fun j => by rw [hdone]; rfl, hcases⟩

/-! ## Two phones -/

/-- Replaces the element of a kind that has the `uniqid` of `e`, or appends `e`: the change
`sip_save_phone` and its siblings make before they call `write_config`. -/
def saveElement (k : Kind) (e : Val) (g : Globals) : Val :=
  let uniqid := (e.get "uniqid").toStr
  if (getElement g k uniqid).truthy then
    setList g.config k ((listOf g.config k).set (g.uniqidMap.idx (Val.str uniqid).key).key e)
  else setList g.config k ((listOf g.config k).push e)

/-- `sip_save_phone($phone)`, up to `write_config`. -/
def sipSavePhone : Val → Globals → Val := saveElement (.phone .sip)

/-- The phone each request saves. -/
def phoneOf (i : Bool) : Val :=
  .arr [(.str "uniqid", .str (if i then "SIP-PHONE-2" else "SIP-PHONE-1")),
    (.str "extension", .str (if i then "102" else "101"))]

/-- A configuration without phones. -/
def noPhones : Val := .arr [(.str "version", .str "2.1")]

/-- What a request stores that found no phones. -/
def onePhone (i : Bool) : Val :=
  .arr [(.str "version", .str "2.1"), (.str "sip", .arr [(.str "phone", .ofList [phoneOf i])]),
    (.str "lastchange", .str "1300000000")]

theorem canonical_noPhones : Canonical Printable noPhones := by
  refine .map (by simp) (by decide) fun e he => ?_
  obtain rfl := List.mem_singleton.1 he
  exact .single (by unfold LowerName; decide) (by decide) (.str (by unfold Printable; decide))

theorem canonical_onePhone (i : Bool) : Canonical Printable (onePhone i) := by
  have hname : ∀ n ∈ ["version", "sip", "phone", "uniqid", "extension", "lastchange"],
      LowerName n := by
    unfold LowerName
    decide
  have hphone : Canonical Printable (phoneOf i) := by
    refine .map (by simp) (by simp) fun e he => ?_
    simp only [List.mem_cons, List.not_mem_nil, or_false] at he
    rcases he with rfl | rfl
    · exact .single (hname _ (by simp)) (by decide)
        (.str (by cases i <;> unfold Printable <;> decide))
    · exact .single (hname _ (by simp)) (by decide)
        (.str (by cases i <;> unfold Printable <;> decide))
  have hsip : Canonical Printable (.arr [(.str "phone", .ofList [phoneOf i])]) := by
    refine .map (by simp) (by simp) fun e he => ?_
    obtain rfl := List.mem_singleton.1 he
    refine .list (hname _ (by simp)) (by decide) (by simp) fun x hx => ?_
    obtain rfl := List.mem_singleton.1 hx
    exact hphone
  refine .map (by simp) (by simp) fun e he => ?_
  simp only [List.mem_cons, List.not_mem_nil, or_false] at he
  rcases he with rfl | rfl | rfl
  · exact .single (hname _ (by simp)) (by decide) (.str (by unfold Printable; decide))
  · exact .single (hname _ (by simp)) (by decide) hsip
  · exact .single (hname _ (by simp)) (by decide) (.str (by unfold Printable; decide))

/-- The text a request writes that found no phones. -/
theorem arrayToXml_onePhone (i : Bool) :
    arrayToXml (stamp (1300000000 : ℕ) (sipSavePhone (phoneOf i) (indexed noPhones))) xmlRootobj =
      arrayToXml (onePhone i) xmlRootobj := by
  cases i <;> decide +kernel

theorem reads_onePhone (X : Expat) (i : Bool) :
    xmlToArray X (arrayToXml (stamp (1300000000 : ℕ) (sipSavePhone (phoneOf i)
      (indexed noPhones))) xmlRootobj) xmlRootobj = .ok (onePhone i) := by
  rw [arrayToXml_onePhone]
  exact normalise_printable X (canonical_onePhone i)

/-- The system before the two requests, with up-to-date caches. -/
def beforeRequests : System where
  disk :=
    { configXml := some (arrayToXml noPhones xmlRootobj)
      configCache := some noPhones
      uniqidCache := some (configBuildUniqidMap noPhones)
      configLock := false
      xmlparserLock := false }
  xmlTime := 1200000000
  cacheTime := 1200000000
  clock := 1300000000
  phase := fun _ => .start

theorem idle_beforeRequests (X : Expat) : Idle X noPhones beforeRequests where
  phase _ := rfl
  lock := rfl
  reads := ⟨_, rfl, normalise_printable X canonical_noPhones⟩
  caches _ := ⟨rfl, rfl⟩

/-- Both requests load before either saves. -/
theorem run_overlapped (X : Expat) : ∃ s,
    Requests X (fun i => sipSavePhone (phoneOf i)) beforeRequests
      [.load false, .load true, .store false, .store true] s ∧
    (∀ i, s.phase i = .done) ∧ s.Reads X (onePhone true) := by
  have h₁ : Requests X (fun i => sipSavePhone (phoneOf i)) beforeRequests [] beforeRequests :=
    .start
  have h₂ := h₁.step (.lockForLoad _ false rfl rfl)
  have h₃ := h₂.step (.readCache _ false rfl ⟨rfl, by decide⟩ rfl rfl)
  have h₄ := h₃.step (.unlockLoaded _ false rfl)
  have h₅ := h₄.step (.lockForLoad _ true rfl rfl)
  have h₆ := h₅.step (.readCache _ true rfl ⟨rfl, by decide⟩ rfl rfl)
  have h₇ := h₆.step (.unlockLoaded _ true rfl)
  have h₈ := h₇.step (.edit _ false rfl)
  have h₉ := h₈.step (.lockForSave _ false rfl rfl)
  have h₁₀ := h₉.step (.write _ false rfl)
  have h₁₁ := h₁₀.step (.readBack _ false rfl ⟨_, rfl, reads_onePhone X false⟩)
  have h₁₂ := h₁₁.step (.cache _ false rfl)
  have h₁₃ := h₁₂.step (.unlockSaved _ false rfl)
  have h₁₄ := h₁₃.step (.edit _ true rfl)
  have h₁₅ := h₁₄.step (.lockForSave _ true rfl rfl)
  have h₁₆ := h₁₅.step (.write _ true rfl)
  have h₁₇ := h₁₆.step (.readBack _ true rfl ⟨_, rfl, reads_onePhone X true⟩)
  have h₁₈ := h₁₇.step (.cache _ true rfl)
  have h₁₉ := h₁₈.step (.unlockSaved _ true rfl)
  exact ⟨_, h₁₉, fun i => by cases i <;> rfl, ⟨_, rfl, reads_onePhone X true⟩⟩

/-- Two requests that save different phones, and the first phone is not there in the end. -/
theorem lost_update_of_overlap :
    (phoneOf false).get "uniqid" ≠ (phoneOf true).get "uniqid" ∧
    ∃ (l : List Access) (s : System) (t : Val), Idle scanner.toExpat noPhones beforeRequests ∧
      Requests scanner.toExpat (fun i => sipSavePhone (phoneOf i)) beforeRequests l s ∧
      (∀ i, s.phase i = .done) ∧ s.Reads scanner.toExpat t ∧
      phoneOf false ∉ elements t (.phone .sip) := by
  obtain ⟨s, hrun, hdone, hreads⟩ := run_overlapped scanner.toExpat
  exact ⟨by decide, _, s, _, idle_beforeRequests _, hrun, hdone, hreads, by decide⟩

/-- The theorem on this run. -/
theorem outcome_of_run_overlapped : ∃ i u t,
    saves scanner.toExpat (fun i => sipSavePhone (phoneOf i)) i noPhones u ∧
    ((∃ j, [Access.load false, .load true, .store false, .store true] =
        [.load j, .load (!j), .store i, .store (!i)]) ∧
      saves scanner.toExpat (fun i => sipSavePhone (phoneOf i)) (!i) noPhones t) := by
  obtain ⟨s, hrun, hdone, -⟩ := run_overlapped scanner.toExpat
  obtain ⟨i, u, t, hu, -, -, ⟨hl, -⟩ | h⟩ :=
    outcome_of_run (idle_beforeRequests scanner.toExpat) hrun hdone
  · cases i <;> cases hl
  · exact ⟨i, u, t, hu, h⟩

end Config
end Askozia
