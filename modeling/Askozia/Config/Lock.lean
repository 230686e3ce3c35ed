import Mathlib.Data.Fintype.Basic
import Mathlib.Data.List.Basic
import Mathlib.Logic.Function.Basic
import Mathlib.Tactic.Common

/-!
# Lock files (`config_lock`, `config_unlock`)

`config_lock` tries to create the lock file, up to ten times with a second in between, and returns
in any case; `config_unlock` removes the file if there is one. The file does not say who created
it, and attempts are counted for the one who waits. `xml_parser_lock` and `xml_parser_unlock` are
the same with another file.

Any number of processes take steps in any order. The state remembers who created the file that is
there and, for every attempt that failed, which creation it failed against.

* `lawful_of_run`: as long as nobody creates the file while somebody else waits or is inside, only
  locks that were there for all ten attempts are given up on, and only those are removed by others.
-/

namespace Askozia
namespace Config
namespace Lock

/-! ## The system -/

/-- One creation of the lock file. -/
structure Acquisition (ι : Type) where
  owner : ι
  serial : ℕ
deriving DecidableEq, Repr

/-- How `config_lock` has returned. -/
inductive Entry (ι : Type) where
  /-- With the lock file created. -/
  | created (a : Acquisition ι)
  /-- After failed attempts, the last one first. -/
  | gaveUp (failed : List (Acquisition ι))
deriving DecidableEq, Repr

/-- Where a process is. -/
inductive Phase (ι : Type) where
  | outside
  /-- In `config_lock`, after failed attempts, the last one first. -/
  | waiting (failed : List (Acquisition ι))
  /-- Between `config_lock` and `config_unlock`. -/
  | inside (e : Entry ι)
  /-- In `config_unlock`, having seen the lock file. -/
  | unlocking (e : Entry ι)
deriving DecidableEq, Repr

/-- The lock file and the processes, with a record of what has happened. -/
structure State (ι : Type) where
  lockfile : Option (Acquisition ι)
  phase : ι → Phase ι
  /-- The creations so far. -/
  serial : ℕ
  /-- The failed attempts of every call that returned without the lock. -/
  givenUp : List (List (Acquisition ι))
  /-- Who removed which lock file. -/
  removed : List (ι × Acquisition ι)

/-- Steps of a process. -/
inductive Action where
  /-- Calls `config_lock`. -/
  | lock
  /-- One turn of the loop: `fopen($lockfile, "x")`, or the end of it. -/
  | attempt
  /-- Calls `config_unlock`, which looks for the file. -/
  | unlock
  /-- `unlink($lockfile)` -/
  | unlink
  /-- `die` -/
  | die
deriving DecidableEq, Repr

section Step

variable {ι : Type} [DecidableEq ι]

/-- Process `p` goes on to a phase. -/
def State.goto (s : State ι) (p : ι) (ph : Phase ι) : State ι :=
  { s with phase := Function.update s.phase p ph }

/-- One step of process `p`, if it can take it. -/
def step (s : State ι) (p : ι) : Action → Option (State ι)
  | .lock =>
    match s.phase p with
    | .outside => some (s.goto p (.waiting []))
    | _ => none
  | .attempt =>
    match s.phase p with
    | .waiting failed =>
      -- ten attempts, one each second
      if failed.length < 10 then
        match s.lockfile with
        | none =>
          let a : Acquisition ι := ⟨p, s.serial⟩
          some (({ s with lockfile := some a, serial := s.serial + 1 }).goto p (.inside (.created a)))
        | some a => some (s.goto p (.waiting (a :: failed)))
      -- after the tenth the process goes on as if the lock were its own
      else some (({ s with givenUp := failed :: s.givenUp }).goto p (.inside (.gaveUp failed)))
    | _ => none
  | .unlock =>
    match s.phase p with
    -- looking for the file and removing it are two steps
    | .inside e => some (s.goto p (if s.lockfile.isSome then .unlocking e else .outside))
    | _ => none
  | .unlink =>
    match s.phase p with
    | .unlocking _ =>
      some (({ s with
        lockfile := none
        removed := (s.lockfile.toList.map fun a => (p, a)) ++ s.removed }).goto p .outside)
    | _ => none
  | .die => some (s.goto p .outside)

/-- A sequence of steps. -/
def run (s : State ι) : List (ι × Action) → Option (State ι)
  | [] => some s
  | (p, a) :: r => (step s p a).bind fun s' => run s' r

/-- Nobody has called anything. -/
def State.init : State ι where
  lockfile := none
  phase := fun _ => .outside
  serial := 0
  givenUp := []
  removed := []

end Step

/-! ## The law -/

section Law

variable {ι : Type}

/-- A call gave up on `a`: all its ten attempts failed against it. -/
def State.Invalidated (s : State ι) (a : Acquisition ι) : Prop := List.replicate 10 a ∈ s.givenUp

/-- Who gives up has waited for one and the same lock, and only such a lock is removed by another
process than its owner. -/
structure State.Lawful (s : State ι) : Prop where
  givenUp : ∀ failed ∈ s.givenUp, ∃ a, failed = List.replicate 10 a
  removed : ∀ r ∈ s.removed, r.2.owner ≠ r.1 → s.Invalidated r.2

/-- Nobody but `p` has tried to get the lock and is not yet done. -/
def State.Alone (s : State ι) (p : ι) : Prop :=
  ∀ q, q ≠ p → s.phase q = .outside ∨ s.phase q = .waiting []

/-- The step does not create the lock file while somebody else waits or is inside. -/
def State.Undisturbed (s : State ι) (p : ι) (a : Action) : Prop :=
  a = .attempt → s.lockfile = none → s.Alone p

/-- All steps of a sequence are such. -/
def Undisturbed [DecidableEq ι] (s : State ι) : List (ι × Action) → Prop
  | [] => True
  | (p, a) :: r =>
    s.Undisturbed p a ∧
      match step s p a with
      | some s' => Undisturbed s' r
      | none => True

instance [Fintype ι] [DecidableEq ι] (s : State ι) (p : ι) : Decidable (s.Alone p) :=
  inferInstanceAs (Decidable (∀ q, q ≠ p → s.phase q = .outside ∨ s.phase q = .waiting []))

instance [Fintype ι] [DecidableEq ι] (s : State ι) (p : ι) (a : Action) :
    Decidable (s.Undisturbed p a) :=
  inferInstanceAs (Decidable (a = .attempt → s.lockfile = none → s.Alone p))

instance Undisturbed.decidable [Fintype ι] [DecidableEq ι] :
    ∀ (s : State ι) (as : List (ι × Action)), Decidable (Undisturbed s as)
  | _, [] => isTrue trivial
  | s, (p, a) :: r =>
    match hs : step s p a with
    | some s' =>
      haveI := Undisturbed.decidable s' r
      decidable_of_iff (s.Undisturbed p a ∧ Undisturbed s' r) (by simp [Undisturbed, hs])
    | none => decidable_of_iff (s.Undisturbed p a) (by simp [Undisturbed, hs])

/-! ## The invariant -/

/-- The lock file, if there is one, is `a`. -/
def State.Tied (s : State ι) (a : Acquisition ι) : Prop := s.lockfile = none ∨ s.lockfile = some a

/-- What is known of a process inside. -/
def EntryOk (s : State ι) (p : ι) : Entry ι → Prop
  | .created a => a.owner = p ∧ s.Tied a
  | .gaveUp failed => ∃ a, failed = List.replicate 10 a ∧ s.Invalidated a ∧ s.Tied a

/-- What is known of a process. -/
def PhaseOk (s : State ι) (p : ι) : Phase ι → Prop
  | .outside => True
  | .waiting failed =>
    failed = [] ∨ (∃ a, failed = List.replicate failed.length a ∧ s.Tied a) ∧ failed.length ≤ 10
  | .inside e => EntryOk s p e
  | .unlocking e => EntryOk s p e

/-- The invariant. -/
structure Inv (s : State ι) : Prop where
  lawful : s.Lawful
  phases : ∀ p, PhaseOk s p (s.phase p)

theorem inv_init : Inv (State.init : State ι) where
  lawful := ⟨fun _ h => (List.not_mem_nil h).elim, fun _ h => (List.not_mem_nil h).elim⟩
  phases := fun _ => trivial

section Frame

variable {s s' : State ι}

/-- A phase stays right while the lock file does not change into another and the record grows. -/
theorem PhaseOk.mono (hlock : ∀ a, s.Tied a → s'.Tied a) (hgiven : s.givenUp ⊆ s'.givenUp) {p : ι}
    {ph : Phase ι} (h : PhaseOk s p ph) : PhaseOk s' p ph := by
  have hentry : ∀ e, EntryOk s p e → EntryOk s' p e := by
    intro e he
    cases e with
    | created a => exact ⟨he.1, hlock a he.2⟩
    | gaveUp failed =>
      obtain ⟨a, hfailed, hinv, htied⟩ := he
      exact ⟨a, hfailed, hgiven hinv, hlock a htied⟩
  cases ph with
  | outside => trivial
  | waiting failed =>
    rcases h with h | ⟨⟨a, hfailed, htied⟩, hlen⟩
    · exact .inl h
    · exact .inr ⟨⟨a, hfailed, hlock a htied⟩, hlen⟩
  | inside e => exact hentry e h
  | unlocking e => exact hentry e h

variable [DecidableEq ι]

/-- A step of `p` keeps the invariant if the others are not affected and `p` is right again. -/
theorem inv_goto {p : ι} {ph : Phase ι} (hlaw : s'.Lawful)
    (hphase : s'.phase = s.phase) (hothers : ∀ q, q ≠ p → PhaseOk s' q (s.phase q))
    (hp : PhaseOk s' p ph) : Inv (s'.goto p ph) where
  lawful := ⟨hlaw.givenUp, hlaw.removed⟩
  phases := by
    intro q
    have hsame : ∀ ph', PhaseOk s' q ph' → PhaseOk (s'.goto p ph) q ph' := fun ph' h' =>
      h'.mono (fun _ ht => ht) fun _ hf => hf
    show PhaseOk _ q (Function.update s'.phase p ph q)
    by_cases hq : q = p
    · subst hq
      rw [Function.update_self]
      exact hsame _ hp
    · rw [Function.update_of_ne hq, hphase]
      exact hsame _ (hothers q hq)

end Frame

/-! ## Steps -/

section Steps

variable [DecidableEq ι] {s s' : State ι} {p : ι}

theorem Inv.attempt (h : Inv s) (hcond : s.Undisturbed p .attempt)
    (hstep : step s p .attempt = some s') : Inv s' := by
  have hp := h.phases p
  simp only [step] at hstep
  split at hstep
  case h_2 => cases hstep
  case h_1 failed hphase =>
    rw [hphase] at hp
    split_ifs at hstep with hlen
    · cases hlock : s.lockfile with
      | none =>
        -- the others have not tried anything, so the new file says nothing about them
        rw [hlock] at hstep
        obtain rfl := Option.some.inj hstep
        refine inv_goto ⟨h.lawful.givenUp, h.lawful.removed⟩ rfl (fun q hq => ?_) ⟨rfl, .inr rfl⟩
        rcases hcond rfl hlock q hq with ho | hw
        · rw [ho]
          trivial
        · rw [hw]
          exact .inl rfl
      | some a =>
        rw [hlock] at hstep
        obtain rfl := Option.some.inj hstep
        refine inv_goto h.lawful rfl (fun q _ => h.phases q) (.inr ⟨⟨a, ?_, .inr hlock⟩, ?_⟩)
        · rcases hp with rfl | ⟨⟨b, hfailed, htied⟩, -⟩
          · rfl
          · rcases htied with hnone | hsome
            · rw [hlock] at hnone
              cases hnone
            · rw [hlock] at hsome
              obtain rfl := Option.some.inj hsome
              rw [List.length_cons, List.replicate_succ, ← hfailed]
        · rw [List.length_cons]
          omega
    · obtain rfl := Option.some.inj hstep
      have hall : ∃ a, failed = List.replicate 10 a ∧ s.Tied a := by
        rcases hp with rfl | ⟨⟨a, hfailed, htied⟩, hle⟩
        · exact absurd (Nat.zero_lt_succ 9) hlen
        · have hten : failed.length = 10 := by omega
          rw [hten] at hfailed
          exact ⟨a, hfailed, htied⟩
      obtain ⟨a, hfailed, htied⟩ := hall
      have hgiven : s.givenUp ⊆ failed :: s.givenUp := List.subset_cons_self _ _
      refine inv_goto ⟨?_, fun r hr hne => hgiven (h.lawful.removed r hr hne)⟩ rfl
        (fun q _ => PhaseOk.mono ?_ hgiven (h.phases q)) ?_
      · intro f hf
        rcases List.mem_cons.1 hf with rfl | hf
        · exact ⟨a, hfailed⟩
        · exact h.lawful.givenUp f hf
      · exact fun _ ht => ht
      · refine ⟨a, hfailed, ?_, htied⟩
        rw [State.Invalidated, ← hfailed]
        exact List.mem_cons_self

theorem Inv.unlink (h : Inv s) (hstep : step s p .unlink = some s') : Inv s' := by
  have hp := h.phases p
  simp only [step] at hstep
  split at hstep
  case h_2 => cases hstep
  case h_1 e hphase =>
    rw [hphase] at hp
    obtain rfl := Option.some.inj hstep
    have hothers : ∀ q, PhaseOk
        { s with lockfile := none, removed := (s.lockfile.toList.map fun a => (p, a)) ++ s.removed }
        q (s.phase q) := by
      intro q
      refine PhaseOk.mono (s := s) (fun _ _ => .inl rfl) ?_ (h.phases q)
      exact List.Subset.refl _
    refine inv_goto ⟨h.lawful.givenUp, fun r hr hne => ?_⟩ rfl (fun q _ => hothers q) trivial
    -- the file that goes now, and those that went before
    rcases List.mem_append.1 hr with hr | hr
    · obtain ⟨a, ha, rfl⟩ := List.mem_map.1 hr
      have hlock : s.lockfile = some a := by simpa using ha
      -- who leaves has made the lock, or has given up waiting for it
      cases e with
      | created b =>
        rcases hp.2 with hnone | hsome
        · rw [hlock] at hnone
          cases hnone
        · rw [hlock] at hsome
          obtain rfl := Option.some.inj hsome
          exact absurd hp.1 hne
      | gaveUp failed =>
        obtain ⟨b, -, hinv, hnone | hsome⟩ := hp
        · rw [hlock] at hnone
          cases hnone
        · rw [hlock] at hsome
          obtain rfl := Option.some.inj hsome
          exact hinv
    · exact h.lawful.removed r hr hne

theorem Inv.step {a : Action} (h : Inv s) (hcond : s.Undisturbed p a)
    (hstep : step s p a = some s') : Inv s' := by
  have hp := h.phases p
  cases a with
  | attempt => exact h.attempt hcond hstep
  | unlink => exact h.unlink hstep
  | lock =>
    simp only [Lock.step] at hstep
    split at hstep
    · obtain rfl := Option.some.inj hstep
      exact inv_goto h.lawful rfl (fun q _ => h.phases q) (.inl rfl)
    · cases hstep
  | unlock =>
    simp only [Lock.step] at hstep
    split at hstep
    case h_2 => cases hstep
    case h_1 e hphase =>
      rw [hphase] at hp
      obtain rfl := Option.some.inj hstep
      refine inv_goto h.lawful rfl (fun q _ => h.phases q) ?_
      split_ifs
      · exact hp
      · trivial
  | die =>
    obtain rfl := Option.some.inj hstep
    exact inv_goto h.lawful rfl (fun q _ => h.phases q) trivial

theorem Inv.run {as : List (ι × Action)} (h : Inv s) (hcond : Undisturbed s as)
    (hrun : run s as = some s') : Inv s' := by
  induction as generalizing s with
  | nil =>
    obtain rfl := Option.some.inj hrun
    exact h
  | cons e r ih =>
    obtain ⟨p, a⟩ := e
    obtain ⟨s₁, hstep, hrest⟩ := Option.bind_eq_some_iff.1 hrun
    obtain ⟨hfirst, hcond'⟩ := hcond
    rw [hstep] at hcond'
    exact ih (h.step hfirst hstep) hcond' hrest

end Steps

end Law

/-! ## Runs -/

/-- In every run in which nobody creates the lock file while somebody else waits or is inside, the
law holds in every state. -/
theorem lawful_of_run {ι : Type} [DecidableEq ι] {as : List (ι × Action)} {s : State ι}
    (hcond : Undisturbed State.init as) (hrun : run State.init as = some s) : s.Lawful :=
  (inv_init.run hcond hrun).lawful

/-- Process `0` takes the lock and dies; `1` waits ten times, gives up and removes it. -/
def abandoned : List (Fin 2 × Action) :=
  [(0, Action.lock), (0, .attempt), (0, .die), (1, .lock)] ++ List.replicate 11 (1, Action.attempt) ++
    [(1, Action.unlock), (1, .unlink)]

theorem lawful_of_run_abandoned :
    ∃ s, run State.init abandoned = some s ∧ s.removed = [(1, ⟨0, 0⟩)] ∧ s.Lawful := by
  have hrun : (run (State.init : State (Fin 2)) abandoned).map State.removed =
      some [(1, ⟨0, 0⟩)] := by decide
  obtain ⟨s, hs, hremoved⟩ := Option.map_eq_some_iff.1 hrun
  exact ⟨s, hs, hremoved, lawful_of_run (by decide) hs⟩

/-- Process `1` waits while `0` hands the lock over to `2`. -/
def handedOver : List (Fin 3 × Action) :=
  [(0, Action.lock), (0, .attempt), (1, .lock)] ++ List.replicate 5 (1, Action.attempt) ++
    [(0, Action.unlock), (0, .unlink), (2, .lock), (2, .attempt)] ++
    List.replicate 6 (1, Action.attempt) ++ [(1, Action.unlock), (1, .unlink)]

/-- Process `1` gives up after five attempts against each of the two, and removes the lock that
`2` holds. -/
theorem not_lawful_of_handover :
    ¬ ∀ s, run State.init handedOver = some s → s.Lawful := by
  intro h
  -- the waiter has seen five attempts fail for one holder, and five for another
  have hrun : (run (State.init : State (Fin 3)) handedOver).map
      (fun s => (s.givenUp, s.removed)) =
      some ([List.replicate 5 ⟨2, 1⟩ ++ List.replicate 5 ⟨0, 0⟩], [(1, ⟨2, 1⟩), (0, ⟨0, 0⟩)]) := by
    decide
  obtain ⟨s, hs, hlog⟩ := Option.map_eq_some_iff.1 hrun
  have hgiven : s.givenUp = [List.replicate 5 ⟨2, 1⟩ ++ List.replicate 5 ⟨0, 0⟩] :=
    congrArg Prod.fst hlog
  have hlaw := (h s hs).givenUp
  rw [hgiven] at hlaw
  obtain ⟨a, ha⟩ := hlaw _ List.mem_cons_self
  -- to give up lawfully is to have failed against one acquisition only
  have hall : ∀ b ∈ List.replicate 5 (⟨2, 1⟩ : Acquisition (Fin 3)) ++ List.replicate 5 ⟨0, 0⟩,
      b = a := by
    intro b hb
    rw [ha] at hb
    exact List.eq_of_mem_replicate hb
  have hfirst := hall ⟨2, 1⟩ (by decide)
  have hlast := hall ⟨0, 0⟩ (by decide)
  rw [← hfirst] at hlast
  revert hlast
  decide

end Lock
end Config
end Askozia
