import Mathlib.Logic.Function.Basic
import Mathlib.Data.Bool.Basic

/-!
# Two clients that load, change and store

Two clients share a value. Each loads it once, computes a new value from what it loaded, and
stores that, with nothing that keeps the other out in between. The clients are `false` and
`true`, and `saves i t t'` says that client `i`, having loaded `t`, may store `t'`.

* `Reached` lists what can have happened, with the loads and stores in the order they took
  effect;
* `run_reached` is the invariant over all interleavings;
* `finished_cases`: when both have stored, either the second to store had loaded what the first
  one stored, or both had loaded the initial value and the first store is gone.
-/

namespace Askozia
namespace Concurrent

variable {τ : Type}

/-- How far a client is, with the value it has loaded. -/
inductive Status (τ : Type) where
  | waiting
  | holding (t : τ)
  | finished

/-- The shared value and the clients. -/
structure State (τ : Type) where
  shared : τ
  status : Bool → Status τ

/-- Client `i` has loaded the shared value. -/
def State.hold (s : State τ) (i : Bool) : State τ :=
  { s with status := Function.update s.status i (.holding s.shared) }

/-- Client `i` has stored `t`. -/
def State.put (s : State τ) (i : Bool) (t : τ) : State τ :=
  { shared := t, status := Function.update s.status i .finished }

@[simp] theorem State.hold_shared (s : State τ) (i : Bool) : (s.hold i).shared = s.shared := rfl

@[simp] theorem State.hold_self (s : State τ) (i : Bool) :
    (s.hold i).status i = .holding s.shared := Function.update_self ..

@[simp] theorem State.hold_not (s : State τ) (i : Bool) :
    (s.hold i).status (!i) = s.status (!i) := Function.update_of_ne (by simp) ..

@[simp] theorem State.hold_of_not (s : State τ) (i : Bool) :
    (s.hold (!i)).status i = s.status i := Function.update_of_ne (by simp) ..

@[simp] theorem State.put_shared (s : State τ) (i : Bool) (t : τ) : (s.put i t).shared = t := rfl

@[simp] theorem State.put_self (s : State τ) (i : Bool) (t : τ) :
    (s.put i t).status i = .finished := Function.update_self ..

@[simp] theorem State.put_not (s : State τ) (i : Bool) (t : τ) :
    (s.put i t).status (!i) = s.status (!i) := Function.update_of_ne (by simp) ..

@[simp] theorem State.put_of_not (s : State τ) (i : Bool) (t : τ) :
    (s.put (!i) t).status i = s.status i := Function.update_of_ne (by simp) ..

/-- The accesses to the shared value. -/
inductive Access where
  | load (i : Bool)
  | store (i : Bool)
deriving DecidableEq, Repr

/-- One access. -/
inductive Step (saves : Bool → τ → τ → Prop) : State τ → Access → State τ → Prop
  | load (s : State τ) (i : Bool) : s.status i = .waiting → Step saves s (.load i) (s.hold i)
  | store (s : State τ) (i : Bool) {t t' : τ} : s.status i = .holding t → saves i t t' →
      Step saves s (.store i) (s.put i t')

/-- Any number of accesses. -/
inductive Run (saves : Bool → τ → τ → Prop) (s₀ : State τ) : List Access → State τ → Prop
  | start : Run saves s₀ [] s₀
  | step {l : List Access} {s s' : State τ} {a : Access} : Run saves s₀ l s →
      Step saves s a s' → Run saves s₀ (l ++ [a]) s'

/-- Nobody has done anything. -/
def State.init (t : τ) : State τ := { shared := t, status := fun _ => .waiting }

/-- What can have happened after the accesses `l`. -/
inductive Reached (saves : Bool → τ → τ → Prop) (t₀ : τ) : List Access → State τ → Prop
  | nothing {s} : s.shared = t₀ → (∀ i, s.status i = .waiting) → Reached saves t₀ [] s
  | loaded {s i} : s.shared = t₀ → s.status i = .holding t₀ → s.status (!i) = .waiting →
      Reached saves t₀ [.load i] s
  | bothLoaded {s i} : s.shared = t₀ → s.status i = .holding t₀ → s.status (!i) = .holding t₀ →
      Reached saves t₀ [.load i, .load (!i)] s
  | stored {s i u} : saves i t₀ u → s.shared = u → s.status i = .finished →
      s.status (!i) = .waiting → Reached saves t₀ [.load i, .store i] s
  | storedLoaded {s i u} : saves i t₀ u → s.shared = u → s.status i = .finished →
      s.status (!i) = .holding u → Reached saves t₀ [.load i, .store i, .load (!i)] s
  | loadedStored {s i j u} : saves i t₀ u → s.shared = u → s.status i = .finished →
      s.status (!i) = .holding t₀ → Reached saves t₀ [.load j, .load (!j), .store i] s
  | serial {s i u t} : saves i t₀ u → saves (!i) u t → s.shared = t → s.status i = .finished →
      s.status (!i) = .finished →
      Reached saves t₀ [.load i, .store i, .load (!i), .store (!i)] s
  | overlapped {s i j u t} : saves i t₀ u → saves (!i) t₀ t → s.shared = t →
      s.status i = .finished → s.status (!i) = .finished →
      Reached saves t₀ [.load j, .load (!j), .store i, .store (!i)] s

section

variable {saves : Bool → τ → τ → Prop} {t₀ : τ}

/-- A client is one of the two, and so is its status. -/
theorem status_cases {s : State τ} {i j : Bool} {x y z : Status τ} (hi : s.status i = x)
    (hn : s.status (!i) = y) (hj : s.status j = z) : (j = i ∧ x = z) ∨ (j = !i ∧ y = z) := by
  rcases Bool.eq_or_eq_not j i with rfl | rfl
  · exact .inl ⟨rfl, hi.symm.trans hj⟩
  · exact .inr ⟨rfl, hn.symm.trans hj⟩

/-- A load leads from what can have happened to what can have happened. -/
theorem Reached.load {l : List Access} {s : State τ} {j : Bool} (h : Reached saves t₀ l s)
    (hj : s.status j = .waiting) : Reached saves t₀ (l ++ [.load j]) (s.hold j) := by
  cases h with
  | nothing hsh hst => exact .loaded (by simpa) (by simp [hsh]) (by simp [hst])
  | loaded hsh hi hn =>
    obtain ⟨rfl, h⟩ | ⟨rfl, -⟩ := status_cases hi hn hj
    · cases h
    · exact .bothLoaded (by simpa) (by simpa) (by simp [hsh])
  | stored hu hsh hi hn =>
    obtain ⟨rfl, h⟩ | ⟨rfl, -⟩ := status_cases hi hn hj
    · cases h
    · exact .storedLoaded hu (by simpa) (by simpa) (by simp [hsh])
  -- In the other cases nobody is waiting.
  | bothLoaded _ hi hn => obtain ⟨-, h⟩ | ⟨-, h⟩ := status_cases hi hn hj <;> cases h
  | storedLoaded _ _ hi hn => obtain ⟨-, h⟩ | ⟨-, h⟩ := status_cases hi hn hj <;> cases h
  | loadedStored _ _ hi hn => obtain ⟨-, h⟩ | ⟨-, h⟩ := status_cases hi hn hj <;> cases h
  | serial _ _ _ hi hn => obtain ⟨-, h⟩ | ⟨-, h⟩ := status_cases hi hn hj <;> cases h
  | overlapped _ _ _ hi hn => obtain ⟨-, h⟩ | ⟨-, h⟩ := status_cases hi hn hj <;> cases h

/-- So does a store. -/
theorem Reached.store {l : List Access} {s : State τ} {j : Bool} {v v' : τ}
    (h : Reached saves t₀ l s) (hj : s.status j = .holding v) (hv : saves j v v') :
    Reached saves t₀ (l ++ [.store j]) (s.put j v') := by
  cases h with
  | nothing _ hst =>
    rw [hst] at hj
    cases hj
  | loaded _ hi hn =>
    obtain ⟨rfl, h⟩ | ⟨rfl, h⟩ := status_cases hi hn hj
    · cases h
      exact .stored hv (by simp) (by simp) (by simpa)
    · cases h
  | bothLoaded _ hi hn =>
    obtain ⟨rfl, h⟩ | ⟨rfl, h⟩ := status_cases hi hn hj
    · cases h
      exact .loadedStored hv (by simp) (by simp) (by simpa)
    · cases h
      exact .loadedStored hv (by simp) (by simp) (by simpa)
  | storedLoaded hu _ hi hn =>
    obtain ⟨rfl, h⟩ | ⟨rfl, h⟩ := status_cases hi hn hj
    · cases h
    · cases h
      exact .serial hu hv (by simp) (by simpa) (by simp)
  | loadedStored hu _ hi hn =>
    obtain ⟨rfl, h⟩ | ⟨rfl, h⟩ := status_cases hi hn hj
    · cases h
    · cases h
      exact .overlapped hu hv (by simp) (by simpa) (by simp)
  -- In the other cases nobody holds a value.
  | stored _ _ hi hn => obtain ⟨-, h⟩ | ⟨-, h⟩ := status_cases hi hn hj <;> cases h
  | serial _ _ _ hi hn => obtain ⟨-, h⟩ | ⟨-, h⟩ := status_cases hi hn hj <;> cases h
  | overlapped _ _ _ hi hn => obtain ⟨-, h⟩ | ⟨-, h⟩ := status_cases hi hn hj <;> cases h

/-- Every interleaving. -/
theorem run_reached {l : List Access} {s : State τ} (h : Run saves (State.init t₀) l s) :
    Reached saves t₀ l s := by
  induction h with
  | start => exact .nothing rfl fun _ => rfl
  | step _ hs ih =>
    cases hs with
    | load i hi => exact ih.load hi
    | store i hi hv => exact ih.store hi hv

/-- When both have stored, the second store is of a value made from the first one exactly when
the second client loaded after the first one had stored. -/
theorem finished_cases {l : List Access} {s : State τ} (h : Run saves (State.init t₀) l s)
    (hf : ∀ i, s.status i = .finished) :
    ∃ i u, saves i t₀ u ∧
      ((l = [.load i, .store i, .load (!i), .store (!i)] ∧ saves (!i) u s.shared) ∨
        ((∃ j, l = [.load j, .load (!j), .store i, .store (!i)]) ∧ saves (!i) t₀ s.shared)) := by
  have hcontra : ∀ {i : Bool} {x : Status τ}, s.status i = x → x = .finished :=
    fun {i x} hx => hx ▸ hf i
  cases run_reached h with
  | nothing _ hst => cases hcontra (hst true)
  | loaded _ hi _ => cases hcontra hi
  | bothLoaded _ hi _ => cases hcontra hi
  | stored _ _ _ hn => cases hcontra hn
  | storedLoaded _ _ _ hn => cases hcontra hn
  | loadedStored _ _ _ hn => cases hcontra hn
  | @serial _ i u t hu ht hsh _ _ => exact ⟨i, u, hu, .inl ⟨rfl, hsh ▸ ht⟩⟩
  | @overlapped _ i j u t hu ht hsh _ _ => exact ⟨i, u, hu, .inr ⟨⟨j, rfl⟩, hsh ▸ ht⟩⟩

end

end Concurrent
end Askozia
