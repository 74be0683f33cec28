import Mathlib.Logic.Function.Basic
import Mathlib.Logic.Relation

/-!
# Machine — state machines and their invariants

A machine has initial states and steps that carry a label. A label says which
operation was taken, with what the environment chose in it: clock readings, new
identifiers, which calls failed.

- `Run M s ls t` : the steps `ls` lead from `s` to `t`,
- `Reachable M s` : some run from an initial state ends in `s`,
- `Machine.restrict` : the machine that takes only the steps of a condition,
- `Reachable.induct` : what holds initially and is kept by the steps from reachable
  states holds in every reachable state.
-/

namespace NeoServer

/-- What a map of the state holds after a step that changes it at one key. -/
lemma update_eq_some_iff {κ ρ : Type} [DecidableEq κ] {f : κ → Option ρ} {k i : κ} {v}
    {a : ρ} : Function.update f k v i = some a ↔ i = k ∧ v = some a ∨ i ≠ k ∧ f i = some a := by
  rw [Function.update_apply]
  split <;> simp_all

/-- A state machine with labelled steps. -/
structure Machine (σ ℓ : Type) where
  init : σ → Prop
  step : σ → ℓ → σ → Prop

namespace Machine

variable {σ ℓ : Type}

/-- The steps that lead from one state to another, in order. -/
inductive Run (M : Machine σ ℓ) : σ → List ℓ → σ → Prop
  | nil (s : σ) : Run M s [] s
  | cons {s t u : σ} {l : ℓ} {ls : List ℓ} (h : M.step s l t) (rest : Run M t ls u) :
      Run M s (l :: ls) u

/-- A state that some run from an initial state ends in. -/
inductive Reachable (M : Machine σ ℓ) : σ → Prop
  | init {s : σ} (h : M.init s) : Reachable M s
  | step {s t : σ} {l : ℓ} (hs : Reachable M s) (h : M.step s l t) : Reachable M t

/-- The machine that takes only the steps that satisfy a condition. -/
def restrict (M : Machine σ ℓ) (P : σ → ℓ → σ → Prop) : Machine σ ℓ where
  init := M.init
  step s l t := M.step s l t ∧ P s l t

variable {M : Machine σ ℓ}

/-- Invariants may use that the state before the step is reachable. -/
theorem Reachable.induct {I : σ → Prop} (hinit : ∀ s, M.init s → I s)
    (hstep : ∀ s l t, Reachable M s → I s → M.step s l t → I t) : ∀ {s}, Reachable M s → I s := by
  intro s hs
  induction hs with
  | init h => exact hinit _ h
  | step hs h ih => exact hstep _ _ _ hs ih h

lemma Reachable.of_restrict {P : σ → ℓ → σ → Prop} {s : σ}
    (h : Reachable (M.restrict P) s) : Reachable M s := by
  induction h with
  | init h => exact .init h
  | step _ h ih => exact ih.step h.1

end Machine

end NeoServer
