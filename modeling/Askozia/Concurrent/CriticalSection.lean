import Mathlib.Logic.Function.Basic
import Mathlib.Logic.Relation
import Mathlib.Tactic.Common

/-!
# Processes with a critical section

Any number of processes work on shared data. Each is in some phase, and a move changes the phase of
one process and the shared data. Some phases are inside the critical section; a lock in the shared
data is taken on the way in and given back on the way out.

* `Discipline` says what single moves have to satisfy;
* `Inv.step` and `reachable_inv` derive what holds in every reachable state: at most one process is
  inside, and the shared data is as that process expects.
-/

namespace Askozia
namespace Concurrent

/-- The phases of all processes and the shared data. -/
structure World (ι Phase Shared : Type) where
  phase : ι → Phase
  shared : Shared

variable {ι Phase Shared : Type}

/-- The moves of one process obey a lock. -/
structure Discipline (Move : Phase → Shared → Phase → Shared → Prop) where
  /-- Phases in the critical section. -/
  Inside : Phase → Prop
  /-- The lock is taken. -/
  locked : Shared → Bool
  /-- The shared data while nobody is inside. -/
  Quiet : Shared → Prop
  /-- The shared data as a process inside expects it. -/
  Ok : Phase → Shared → Prop
  /-- What a process knows by itself. -/
  Local : Phase → Prop
  outside : ∀ {ph f ph' f'}, Move ph f ph' f' → ¬ Inside ph → ¬ Inside ph' → f' = f
  enter : ∀ {ph f ph' f'}, Move ph f ph' f' → ¬ Inside ph → Inside ph' →
    locked f = false ∧ locked f' = true ∧ (Quiet f → Ok ph' f')
  work : ∀ {ph f ph' f'}, Move ph f ph' f' → Inside ph → Inside ph' → locked f = true → Ok ph f →
    locked f' = true ∧ Ok ph' f'
  leave : ∀ {ph f ph' f'}, Move ph f ph' f' → Inside ph → ¬ Inside ph' → locked f = true →
    Ok ph f → locked f' = false ∧ Quiet f'
  keep : ∀ {ph f ph' f'}, Move ph f ph' f' → (Inside ph → Ok ph f) → Local ph → Local ph'

section

variable {Move : Phase → Shared → Phase → Shared → Prop} [DecidableEq ι]

/-- Process `p` goes on to a phase and leaves the data changed. -/
def World.move (s : World ι Phase Shared) (p : ι) (ph : Phase) (f : Shared) :
    World ι Phase Shared := ⟨Function.update s.phase p ph, f⟩

theorem World.phase_move_self (s : World ι Phase Shared) (p : ι) (ph : Phase) (f : Shared) :
    (s.move p ph f).phase p = ph := Function.update_self ..

theorem World.phase_move_of_ne (s : World ι Phase Shared) {p q : ι} (h : q ≠ p) (ph : Phase)
    (f : Shared) : (s.move p ph f).phase q = s.phase q := Function.update_of_ne h ..

/-- Some process makes a move. -/
inductive WorldStep (Move : Phase → Shared → Phase → Shared → Prop) :
    World ι Phase Shared → World ι Phase Shared → Prop
  | move {s : World ι Phase Shared} (p : ι) {ph' : Phase} {f' : Shared} :
      Move (s.phase p) s.shared ph' f' → WorldStep Move s (s.move p ph' f')

/-- A process that makes several moves while the others wait. -/
theorem reach_alone {s : World ι Phase Shared} {p : ι} {ph : Phase} {f : Shared}
    (h : Relation.ReflTransGen (fun a b : Phase × Shared => Move a.1 a.2 b.1 b.2)
      (s.phase p, s.shared) (ph, f)) :
    Relation.ReflTransGen (WorldStep Move) s (s.move p ph f) := by
  have hgen : ∀ b : Phase × Shared,
      Relation.ReflTransGen (fun a b : Phase × Shared => Move a.1 a.2 b.1 b.2)
        (s.phase p, s.shared) b →
      Relation.ReflTransGen (WorldStep Move) s (s.move p b.1 b.2) := by
    intro b hb
    induction hb with
    | refl =>
      have hsame : s.move p (s.phase p) s.shared = s := by
        rw [World.move, Function.update_eq_self]
      rw [hsame]
    | @tail b c _ hmove ih =>
      have hstep : WorldStep Move (s.move p b.1 b.2) ((s.move p b.1 b.2).move p c.1 c.2) := by
        refine .move p ?_
        rw [World.phase_move_self]
        exact hmove
      have hmoved : (s.move p b.1 b.2).move p c.1 c.2 = s.move p c.1 c.2 := by
        rw [World.move, World.move, World.move, Function.update_idem]
      rw [hmoved] at hstep
      exact ih.tail hstep
  exact hgen (ph, f) h

/-- Nobody is inside and the data is at rest, or exactly one process is inside. -/
structure Inv (d : Discipline Move) (s : World ι Phase Shared) : Prop where
  holder : (d.locked s.shared = false ∧ d.Quiet s.shared ∧ ∀ p, ¬ d.Inside (s.phase p)) ∨
    (d.locked s.shared = true ∧ ∃ p, d.Inside (s.phase p) ∧ d.Ok (s.phase p) s.shared ∧
      ∀ q, q ≠ p → ¬ d.Inside (s.phase q))
  known : ∀ p, d.Local (s.phase p)

variable {d : Discipline Move} {s s' : World ι Phase Shared}

theorem Inv.eq_of_inside (h : Inv d s) {p q : ι} (hp : d.Inside (s.phase p))
    (hq : d.Inside (s.phase q)) : p = q := by
  rcases h.holder with ⟨-, -, hnone⟩ | ⟨-, r, -, -, hothers⟩
  · exact absurd hp (hnone p)
  · have hpr : p = r := by
      by_contra hne
      exact hothers p hne hp
    have hqr : q = r := by
      by_contra hne
      exact hothers q hne hq
    rw [hpr, hqr]

/-- The process inside finds the data as it expects it, with the lock taken. -/
theorem Inv.ok_of_inside (h : Inv d s) {p : ι} (hp : d.Inside (s.phase p)) :
    d.locked s.shared = true ∧ d.Ok (s.phase p) s.shared := by
  rcases h.holder with ⟨-, -, hnone⟩ | ⟨hlock, r, hr, hok, hothers⟩
  · exact absurd hp (hnone p)
  · obtain rfl : p = r := h.eq_of_inside hp hr
    exact ⟨hlock, hok⟩

theorem Inv.step (h : Inv d s) (hstep : WorldStep Move s s') : Inv d s' := by
  cases hstep with
  | move p hmove =>
    rename_i ph' f'
    have hself := s.phase_move_self p ph' f'
    have hother : ∀ q, q ≠ p → (s.move p ph' f').phase q = s.phase q := fun q hq =>
      s.phase_move_of_ne hq ph' f'
    refine ⟨?_, fun q => ?_⟩
    · -- the move enters, leaves, stays inside or stays outside
      by_cases hin : d.Inside (s.phase p)
      · obtain ⟨hlock, hok⟩ := h.ok_of_inside hin
        have hothers : ∀ q, q ≠ p → ¬ d.Inside (s.phase q) := fun q hq hc =>
          hq (h.eq_of_inside hc hin)
        by_cases hin' : d.Inside ph'
        · obtain ⟨hlock', hok'⟩ := d.work hmove hin hin' hlock hok
          refine .inr ⟨hlock', p, ?_, ?_, fun q hq => ?_⟩
          · rwa [hself]
          · rwa [hself]
          · rw [hother q hq]
            exact hothers q hq
        · -- on leaving, the one that held the lock was the only one inside
          obtain ⟨hlock', hquiet⟩ := d.leave hmove hin hin' hlock hok
          refine .inl ⟨hlock', hquiet, fun q => ?_⟩
          by_cases hq : q = p
          · subst hq
            rwa [hself]
          · rw [hother q hq]
            exact hothers q hq
      · by_cases hin' : d.Inside ph'
        · -- the lock was free, so nobody is inside
          obtain ⟨hfree, hlock', hok'⟩ := d.enter hmove hin hin'
          rcases h.holder with ⟨-, hquiet, hnone⟩ | ⟨hlock, -⟩
          · refine .inr ⟨hlock', p, ?_, ?_, fun q hq => ?_⟩
            · rwa [hself]
            · rw [hself]
              exact hok' hquiet
            · rw [hother q hq]
              exact hnone q
          · rw [hfree] at hlock
            cases hlock
        · -- outside, a move changes nothing that is shared, so whoever holds the lock keeps it
          have hsame := d.outside hmove hin hin'
          subst hsame
          rcases h.holder with ⟨hfree, hquiet, hnone⟩ | ⟨hlock, r, hr, hok, hothers⟩
          · refine .inl ⟨hfree, hquiet, fun q => ?_⟩
            by_cases hq : q = p
            · subst hq
              rwa [hself]
            · rw [hother q hq]
              exact hnone q
          · have hrp : r ≠ p := fun hc => hin (hc ▸ hr)
            refine .inr ⟨hlock, r, ?_, ?_, fun q hq => ?_⟩
            · rwa [hother r hrp]
            · rwa [hother r hrp]
            · by_cases hqp : q = p
              · subst hqp
                rwa [hself]
              · rw [hother q hqp]
                exact hothers q hq
    · by_cases hq : q = p
      · subst hq
        rw [hself]
        exact d.keep hmove (fun hin => (h.ok_of_inside hin).2) (h.known q)
      · rw [hother q hq]
        exact h.known q

/-- The invariant holds in every reachable state. -/
theorem reachable_inv (h : Inv d s) (hreach : Relation.ReflTransGen (WorldStep Move) s s') :
    Inv d s' := by
  induction hreach with
  | refl => exact h
  | tail _ hstep ih => exact ih.step hstep

end

end Concurrent
end Askozia
