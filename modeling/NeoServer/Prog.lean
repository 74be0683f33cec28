import NeoServer.Text

/-!
# Prog — programs with a state and an error

`Prog σ ε α` is a computation that reads and writes a state `σ` and either
returns an `α` or stops with an error `ε`. Two ways to reason about them:

* `Runs E m s Q` — from `s`, `m` returns with `Q`, or stops with an error that
  satisfies `E` (a weakest precondition);
* `Sim f g m m'` — `m'` does what `m` does, seen through `f` on states and `g`
  on results. The two fail together and with the same error.
-/

namespace NeoServer

/-- Computations over a state `σ` that may stop with an error `ε`. -/
def Prog (σ ε α : Type) : Type := σ → Except ε (α × σ)

namespace Prog

variable {σ σ' ε α β γ δ : Type}

instance : Monad (Prog σ ε) where
  pure a := fun s => .ok (a, s)
  bind m f := fun s =>
    match m s with
    | .error e => .error e
    | .ok (a, s') => f a s'

/-- Stop with an error. -/
def throw (e : ε) : Prog σ ε α := fun _ => .error e

/-- Read something off the state. -/
def gets (f : σ → α) : Prog σ ε α := fun s => .ok (f s, s)

/-- Update the state. -/
def modify (f : σ → σ) : Prog σ ε Unit := fun s => .ok ((), f s)

/-- The value of `o`, or an error. -/
def ofOption (o : Option α) (e : ε) : Prog σ ε α :=
  match o with
  | some a => pure a
  | none => throw e

/-- A computation that does not touch the state. -/
def ofExcept (x : Except ε α) : Prog σ ε α := fun s => x.map fun a => (a, s)

lemma pure_apply (a : α) (s : σ) : (pure a : Prog σ ε α) s = .ok (a, s) := rfl

lemma bind_apply (m : Prog σ ε α) (f : α → Prog σ ε β) (s : σ) : (m >>= f) s = match m s with
      | .error e => .error e
      | .ok (a, s') => f a s' := rfl

lemma gets_apply (f : σ → α) (s : σ) : (gets f : Prog σ ε α) s = .ok (f s, s) := rfl

lemma modify_apply (f : σ → σ) (s : σ) : (modify f : Prog σ ε Unit) s = .ok ((), f s) := rfl

/-- A sequence returns when its parts do. -/
lemma bind_eq_ok {m} {f : α → Prog σ ε β} {s : σ} {r : β × σ} :
    (m >>= f) s = .ok r ↔ ∃ a s', m s = .ok (a, s') ∧ f a s' = .ok r := by
  rw [bind_apply]
  cases m s with
  | error => simp
  | ok p =>
    constructor
    · intro h
      exact ⟨p.1, p.2, rfl, h⟩
    · rintro ⟨a, s', hp, h⟩
      cases hp
      exact h

/-! ## Weakest preconditions -/

/-- From `s`, `m` returns with `Q` or stops with an error in `E`. -/
def Runs (E : ε → Prop) (m : Prog σ ε α) (s : σ) (Q : α → σ → Prop) : Prop :=
  match m s with
  | .error e => E e
  | .ok (a, s') => Q a s'

section Rules

variable {E : ε → Prop} {s : σ}

variable {Q : α → σ → Prop} {e : ε} {m : Prog σ ε α}

lemma runs_pure {a : α} (h : Q a s) : Runs E (pure a) s Q := h

lemma runs_throw (h : E e) : Runs E (throw e) s Q := h

lemma runs_gets {f : σ → α} (h : Q (f s) s) : Runs E (gets f) s Q := h

lemma runs_modify {f : σ → σ} {Q : Unit → σ → Prop} (h : Q () (f s)) : Runs E (modify f) s Q := h

lemma runs_bind {f : α → Prog σ ε β} {Q : β → σ → Prop}
    (h : Runs E m s fun a s' => Runs E (f a) s' Q) : Runs E (m >>= f) s Q := by
  unfold Runs at h ⊢
  rw [bind_apply]
  cases hm : m s with
  | error | ok => simpa [hm] using h

lemma runs_mono {Q Q' : α → σ → Prop} (h : Runs E m s Q)
    (hQ : ∀ a s', Q a s' → Q' a s') : Runs E m s Q' := by
  unfold Runs at h ⊢
  cases hm : m s with
  | error => simpa [hm] using h
  | ok p =>
    rw [hm] at h
    exact hQ p.1 p.2 h

/-- The common way to use a specification of `m`. -/
lemma runs_seq {f : α → Prog σ ε β} {R : β → σ → Prop} (h : Runs E m s Q)
    (hf : ∀ a s', Q a s' → Runs E (f a) s' R) : Runs E (m >>= f) s R :=
  runs_bind (runs_mono h hf)

lemma runs_ofOption {o} (he : E e) (h : ∀ a, o = some a → Q a s) : Runs E (ofOption o e) s Q := by
  cases o with
  | none => exact he
  | some a => exact h a rfl

lemma runs_ofExcept {x} (he : ∀ e, x = .error e → E e)
    (h : ∀ a, x = .ok a → Q a s) : Runs E (ofExcept x) s Q := by
  cases x with
  | error e => exact he e rfl
  | ok a => exact h a rfl

/-- What is known when a computation has returned. -/
lemma Runs.of_ok (h : Runs E m s Q) {a : α} {s' : σ} (hm : m s = .ok (a, s')) : Q a s' := by
  unfold Runs at h
  rw [hm] at h
  exact h

lemma Runs.of_error (h : Runs E m s Q) (hm : m s = .error e) : E e := by
  unfold Runs at h
  rw [hm] at h
  exact h

end Rules

/-! ## Simulations -/

/-- `m'` does what `m` does, seen through `f` on states and `g` on results. -/
def Sim (f : σ → σ') (g : α → β) (m : Prog σ ε α) (m' : Prog σ' ε β) : Prop :=
  ∀ s, m' (f s) = (m s).map fun r => (g r.1, f r.2)

section SimRules

variable {f : σ → σ'}

variable {g : α → β}

lemma sim_pure {a : α} {b : β} (h : b = g a) : Sim (ε := ε) f g (pure a) (pure b) := by
  intro s
  subst h
  rfl

lemma sim_throw (e : ε) : Sim f g (throw e) (throw e) := fun _ => rfl

lemma sim_gets {h : σ → α} {h' : σ' → α} (hh : ∀ s, h' (f s) = h s) :
    Sim (ε := ε) f id (gets h) (gets h') := by
  intro s
  simp [gets_apply, hh, Except.map]

lemma sim_modify {h : σ → σ} {h' : σ' → σ'} (hh : ∀ s, h' (f s) = f (h s)) :
    Sim (ε := ε) f id (modify h) (modify h') := by
  intro s
  simp [modify_apply, hh, Except.map]

lemma Sim.bind {k : γ → δ} {m} {m'}
    {c : α → Prog σ ε γ} {c' : β → Prog σ' ε δ} (hm : Sim f g m m')
    (hc : ∀ a, Sim f k (c a) (c' (g a))) : Sim f k (m >>= c) (m' >>= c') := by
  intro s
  rw [bind_apply, bind_apply, hm s]
  cases m s with
  | error => rfl
  | ok p => exact hc p.1 p.2

lemma sim_ofOption (o : Option α) (e : ε) : Sim f id (ofOption o e) (ofOption o e) := by
  cases o with
  | none => exact sim_throw e
  | some => exact sim_pure rfl

lemma sim_ofExcept (x : Except ε α) : Sim f id (ofExcept x) (ofExcept x) := by
  intro s
  cases x <;> rfl

lemma sim_ite {c : Prop} [Decidable c] {m n : Prog σ ε α} {m' n' : Prog σ' ε β}
    (hm : Sim f g m m') (hn : Sim f g n n') :
    Sim f g (if c then m else n) (if c then m' else n') := by
  split
  · exact hm
  · exact hn

end SimRules

end Prog

end NeoServer
