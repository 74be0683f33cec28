import Mathlib.Logic.Function.Basic
import NeoServer.Machine

/-!
# Proc — operations that call a shared system

An operation makes calls, one after the other, and each call is answered at once; between
two calls other operations may make theirs. `Proc C A α` is what such an operation does: the
next call, and what is left to do for each answer to it.

- `Exec`, `Total` : an operation that runs on its own, and whose calls are all answered,
- `Setting.Wp` : the operation makes the calls it may make, keeps an invariant and what it
  owes to the others in each of them, whatever they do in between, and ends with a
  postcondition,
- `Exec.of_wp`, `Total.of_wp` : the calls of an operation that runs on its own, from what is
  known of it in two settings, the second of which counts on the invariant of the first,
- `Pool` : operations that are started at any time and run interleaved,
- `Pool.run` : a schedule, with a given answer to every call,
- `Pool.inv_of_reachable` : if each operation on its own is right in its setting, the
  invariant holds in every state that they get to together.
-/

namespace NeoServer

open Function

/-- The calls of an operation that ends with an `α`. -/
inductive Proc (C : Type) (A : C → Type) (α : Type) : Type
  | done (a : α)
  | call (c : C) (next : A c → Proc C A α)

namespace Proc

variable {C : Type} {A : C → Type} {α β ε σ : Type}

def bind : Proc C A α → (α → Proc C A β) → Proc C A β
  | .done a, f => f a
  | .call c next, f => .call c fun a => (next a).bind f

instance : Monad (Proc C A) where
  pure := .done
  bind := .bind

/-- Make a call. -/
def perform (c : C) : Proc C A (A c) := .call c .done

/-- How the system may answer a call, and what the call does to it. -/
abbrev Answers (σ C : Type) (A : C → Type) := σ → (c : C) → A c → σ → Prop

/-- An operation that runs with no other in between. -/
inductive Exec (answers : Answers σ C A) : σ → Proc C A α → α → σ → Prop
  | done (s : σ) (a : α) : Exec answers s (.done a) a s
  | call {s t u c next a b} (h : answers s c a t) (rest : Exec answers t (next a) b u) :
      Exec answers s (.call c next) b u

variable {answers : Answers σ C A} {s t : σ} {p : Proc C A α}

lemma Exec.perform {c : C} {a : A c} (h : answers s c a t) :
    Exec answers s (Proc.perform c) a t := .call h (.done t a)

lemma Exec.bind {u : σ} {f : α → Proc C A β} {a : α}
    {b : β} (h : Exec answers s p a t) (hf : Exec answers t (f a) b u) :
    Exec answers s (p >>= f) b u := by
  induction h with
  | done => exact hf
  | call hanswer rest ih => exact .call hanswer (ih hf)

/-- An operation that runs with no other in between, with the answers that `respond` gives. -/
def eval (respond : σ → (c : C) → Option (A c × σ)) : Proc C A α → σ → Option (α × σ)
  | .done a, s => some (a, s)
  | .call c next, s => (respond s c).bind fun r => (next r.1).eval respond r.2

lemma Exec.of_eval {respond : σ → (c : C) → Option (A c × σ)}
    (hrespond : ∀ s c r, respond s c = some r → answers s c r.1 r.2)
    {a : α} (h : p.eval respond s = some (a, t)) : Exec answers s p a t := by
  induction p generalizing s with
  | done _ =>
    cases h
    exact .done _ _
  | call c next ih =>
    rcases Option.bind_eq_some_iff.mp h with ⟨r, hr, hrest⟩
    exact .call (hrespond s c r hr) (ih r.1 hrest)

/-- No call waits for an answer for ever. -/
def Total (answers : Answers σ C A) : Proc C A α → σ → Prop
  | .done _, _ => True
  | .call c next, s => (∃ a t, answers s c a t) ∧ ∀ a t, answers s c a t → Total answers (next a) t

/-- What an operation may count on and what it owes: answers to its calls, an invariant of
the system, what the others may do between two calls, what a call may do to the others, and
which calls may be made. -/
structure Setting (σ C : Type) (A : C → Type) where
  answers : Answers σ C A
  inv : σ → Prop
  rely : σ → σ → Prop
  guar : σ → σ → Prop
  demand : σ → C → Prop

/-- No other operation is running, and nothing is kept. -/
def Setting.alone (answers : Answers σ C A) (demand : σ → C → Prop) : Setting σ C A where
  answers := answers
  inv _ := True
  rely s t := s = t
  guar _ _ := True
  demand := demand

/-- Every call may be made, the invariant and the guarantee are kept in it, and the operation
ends with `Q`. -/
def Setting.Wp (S : Setting σ C A) : Proc C A α → (α → σ → Prop) → σ → Prop
  | .done a, Q, s => Q a s
  | .call c next, Q, s => ∀ t, S.rely s t → S.inv t → S.demand t c ∧
      ∀ a u, S.answers t c a u → S.inv u ∧ S.guar t u ∧ S.Wp (next a) Q u

section Rules

variable {S : Setting σ C A} {s t : σ} {Q R : α → σ → Prop}

lemma wp_perform {c : C} {Q : A c → σ → Prop} (h : ∀ t, S.rely s t → S.inv t → S.demand t c ∧
      ∀ a u, S.answers t c a u → S.inv u ∧ S.guar t u ∧ Q a u) : S.Wp (perform c) Q s := h

variable {p : Proc C A α} {f : α → Proc C A β}

lemma wp_mono (h : S.Wp p Q s) (hQ : ∀ a t, Q a t → R a t) : S.Wp p R s := by
  induction p generalizing s with
  | done a => exact hQ a s h
  | call c next ih =>
    intro t hrely hinv
    rcases h t hrely hinv with ⟨hdemand, hcall⟩
    refine ⟨hdemand, ?_⟩
    intro a u hanswer
    rcases hcall a u hanswer with ⟨hinv', hguar, hrest⟩
    exact ⟨hinv', hguar, ih a hrest⟩

lemma wp_bind {Q : β → σ → Prop}
    (h : S.Wp p (fun a t => S.Wp (f a) Q t) s) : S.Wp (p >>= f) Q s := by
  induction p generalizing s with
  | done => exact h
  | call c next ih =>
    intro t hrely hinv
    rcases h t hrely hinv with ⟨hdemand, hcall⟩
    refine ⟨hdemand, ?_⟩
    intro a u hanswer
    rcases hcall a u hanswer with ⟨hinv', hguar, hrest⟩
    exact ⟨hinv', hguar, ih a hrest⟩

/-- The common way to use what is known of the first part. -/
lemma wp_seq {Q : β → σ → Prop} (h : S.Wp p R s)
    (hf : ∀ a t, R a t → S.Wp (f a) Q t) : S.Wp (p >>= f) Q s :=
  wp_bind (wp_mono h hf)

/-- What is right before the others have done something is right after it. -/
lemma wp_rely (htrans : ∀ s t u, S.rely s t → S.rely t u → S.rely s u)
    (hrely : S.rely s t) (h : S.Wp p (fun _ _ => True) s) : S.Wp p (fun _ _ => True) t := by
  cases p with
  | done => trivial
  | call =>
    intro u hu
    exact h u (htrans s t u hrely hu)

/-! ### Operations that run on their own

What is known of an operation in the setting `S` that it shares with others is known of it
when it runs alone, if it makes the calls that `S` tells of; and that it does may be shown in
a setting of its own, `T`, that counts on the invariant of `S`. -/

/-- The setting of an operation that runs alone and counts on the invariant of `S`. -/
def Setting.own (S : Setting σ C A) (answers : Answers σ C A) (demand : σ → C → Prop) :
    Setting σ C A :=
  .alone (fun s c a t => answers s c a t ∧ S.inv s ∧ S.inv t) demand

section Alone

variable {answers : Answers σ C A} {demand : σ → C → Prop} {p : Proc C A α}

theorem Exec.of_wp (hrefl : ∀ s, S.rely s s)
    (hanswers : ∀ s c a t, demand s c → answers s c a t → S.answers s c a t) (hs : S.inv s)
    {a : α} (h : Exec answers s p a t) (hwp : S.Wp p Q s) (hown : (S.own answers demand).Wp p R s) :
    S.inv t ∧ Q a t ∧ R a t := by
  induction h with
  | done => exact ⟨hs, hwp, hown⟩
  | @call s t u c next a b hanswer rest ih =>
    rcases hown s rfl trivial with ⟨hdemand, hcall⟩
    rcases (hwp s (hrefl s) hs).2 a t (hanswers s c a t hdemand hanswer) with ⟨ht, -, hrest⟩
    exact ih ht hrest (hcall a t ⟨hanswer, hs, ht⟩).2.2

lemma Exec.of_alone {a : α} (h : Exec answers s p a t)
    (hwp : (Setting.alone answers demand).Wp p Q s) : Q a t := by
  induction h with
  | done => exact hwp
  | call hanswer rest ih => exact ih ((hwp _ rfl trivial).2 _ _ hanswer).2.2

theorem Total.of_wp (hrefl : ∀ s, S.rely s s)
    (hanswers : ∀ s c a t, demand s c → answers s c a t → S.answers s c a t)
    (hlive : ∀ s c, demand s c → ∃ a t, answers s c a t) (hs : S.inv s) (hwp : S.Wp p Q s)
    (hown : (S.own answers demand).Wp p R s) : p.Total answers s := by
  induction p generalizing s with
  | done => trivial
  | call c next ih =>
    rcases hown s rfl trivial with ⟨hdemand, hcall⟩
    refine ⟨hlive s c hdemand, ?_⟩
    intro a t hanswer
    rcases (hwp s (hrefl s) hs).2 a t (hanswers s c a t hdemand hanswer) with ⟨ht, -, hrest⟩
    exact ih a ht hrest (hcall a t ⟨hanswer, hs, ht⟩).2.2

end Alone

end Rules

/-! ## Operations that may fail -/

section Fallible

variable {S : Setting σ C A} {s : σ}

/-- What to show of the result `r`: that `Q` holds of a value, `E` of an error. -/
def post (E : ε → σ → Prop) (Q : α → σ → Prop) (r : Except ε α) (s : σ) : Prop :=
  match r with
  | .ok a => Q a s
  | .error e => E e s

variable {E : ε → σ → Prop} {a : α} {x : ExceptT ε (Proc C A) α} {f : α → ExceptT ε (Proc C A) β}

variable {Q : α → σ → Prop} {p : Proc C A α} {answers : Answers σ C A}

lemma wp_ok (h : Q a s) : S.Wp (pure a : ExceptT ε (Proc C A) α).run (post E Q) s := h

lemma wp_throw {e : ε} (h : E e s) : S.Wp (throw e : ExceptT ε (Proc C A) α).run (post E Q) s := h

lemma wp_lift (h : S.Wp p Q s) : S.Wp (liftM p : ExceptT ε (Proc C A) α).run (post E Q) s := by
  refine wp_bind (wp_mono h ?_)
  intro a t ha
  exact ha

/-- An error ends the operation. -/
lemma wp_exceptBind {Q : β → σ → Prop}
    (h : S.Wp x.run (post E fun a t => S.Wp (f a).run (post E Q) t) s) :
    S.Wp (x >>= f).run (post E Q) s := by
  refine wp_bind (wp_mono h ?_)
  intro r t hr
  cases r with
  | ok | error => exact hr

lemma wp_exceptSeq {R : α → σ → Prop} {Q : β → σ → Prop}
    (h : S.Wp x.run (post E R) s) (hf : ∀ a t, R a t → S.Wp (f a).run (post E Q) t) :
    S.Wp (x >>= f).run (post E Q) s := by
  refine wp_exceptBind (wp_mono h ?_)
  intro r t hr
  cases r with
  | ok a => exact hf a t hr
  | error => exact hr

lemma Exec.lift (h : Exec answers s p a t) :
    Exec answers s (liftM p : ExceptT ε (Proc C A) α).run (.ok a) t := h.bind (.done t _)

lemma Exec.exceptBind {s t u : σ} {r} (h : Exec answers s x.run (.ok a) t)
    (hf : Exec answers t (f a).run r u) : Exec answers s (x >>= f).run r u := h.bind hf

lemma wp_postMono {E E' : ε → σ → Prop} {Q' : α → σ → Prop}
    (h : S.Wp x.run (post E Q) s) (hE : ∀ e t, E e t → E' e t) (hQ : ∀ a t, Q a t → Q' a t) :
    S.Wp x.run (post E' Q') s := by
  refine wp_mono h ?_
  intro r t hr
  cases r with
  | ok a => exact hQ a t hr
  | error e => exact hE e t hr

end Fallible

end Proc

/-! ## Interleaving -/

/-- A system, and the operations on it that are running: which operation, and what is left
of it. -/
structure Pool (σ C : Type) (A : C → Type) (ω : Type) where
  world : σ
  procs : Nat → Option (ω × Proc C A Unit)

namespace Pool

variable {σ C ω : Type} {A : C → Type}

/-- No operation is in flight. -/
def Idle (p : Pool σ C A ω) : Prop := ∀ i, p.procs i = none

inductive Label (C : Type) (A : C → Type) (ω : Type)
  | start (i : Nat) (op : ω)
  | call (i : Nat) (c : C) (a : A c)
  | finish (i : Nat)

/-- One step of the pool. The answer to a call may depend on the operation that makes it. -/
inductive Step (program : ω → Proc C A Unit) (answers : Nat → Proc.Answers σ C A) :
    Pool σ C A ω → Label C A ω → Pool σ C A ω → Prop
  | start {p : Pool σ C A ω} {i} (op : ω) (hfree : p.procs i = none) :
      Step program answers p (.start i op)
        { p with procs := update p.procs i (some (op, program op)) }
  | call {p : Pool σ C A ω} {i op c next a world} (hproc : p.procs i = some (op, .call c next))
      (hanswer : answers i p.world c a world) :
      Step program answers p (.call i c a)
        { world := world, procs := update p.procs i (some (op, next a)) }
  | finish {p : Pool σ C A ω} {i op} (hproc : p.procs i = some (op, .done ())) :
      Step program answers p (.finish i) { p with procs := update p.procs i none }

/-- Pools that start with no operation in flight. -/
def machine (program : ω → Proc C A Unit) (answers : Nat → Proc.Answers σ C A)
    (init : σ → Prop) : Machine (Pool σ C A ω) (Label C A ω) where
  init p := init p.world ∧ p.Idle
  step := Step program answers

/-- A condition on the operations that are started, and on the calls that they make. -/
def Meets (started : ω → Prop) (calls : ω → σ → C → Prop) (p : Pool σ C A ω) :
    Label C A ω → Prop
  | .start _ op => started op
  | .call i c _ => ∀ op proc, p.procs i = some (op, proc) → calls op p.world c
  | .finish _ => True

section Invariant

variable {program : ω → Proc C A Unit} {answers : Nat → Proc.Answers σ C A} {init : σ → Prop}
  {started : ω → Prop} {calls : ω → σ → C → Prop} {inv : σ → Prop}
  {rely guar : Nat → σ → σ → Prop}

/-- The setting of an operation, in runs whose calls meet a condition. -/
def setting (answers : Nat → Proc.Answers σ C A) (calls : ω → σ → C → Prop) (inv : σ → Prop)
    (rely guar : Nat → σ → σ → Prop) (i : Nat) (op : ω) : Proc.Setting σ C A where
  answers s c a t := answers i s c a t ∧ calls op s c
  inv := inv
  rely := rely i
  guar := guar i
  demand _ _ := True

/-- The invariant holds, and every operation in flight is right from where it is. -/
def Right (answers : Nat → Proc.Answers σ C A) (calls : ω → σ → C → Prop) (inv : σ → Prop)
    (rely guar : Nat → σ → σ → Prop) (p : Pool σ C A ω) : Prop :=
  inv p.world ∧ ∀ i op proc, p.procs i = some (op, proc) →
    (setting answers calls inv rely guar i op).Wp proc (fun _ _ => True) p.world

lemma right_step (hrefl : ∀ i s, rely i s s)
    (htrans : ∀ i s t u, rely i s t → rely i t u → rely i s u)
    (hguar : ∀ i j s t, i ≠ j → guar i s t → rely j s t) (hops : ∀ i op s, started op → inv s →
      (setting answers calls inv rely guar i op).Wp (program op) (fun _ _ => True) s)
    {p q} {l} (h : Right answers calls inv rely guar p)
    (hstep : Step program answers p l q) (hmeets : Meets started calls p l) :
    Right answers calls inv rely guar q := by
  rcases h with ⟨hinv, hprocs⟩
  cases hstep with
  | start op =>
    refine ⟨hinv, ?_⟩
    intro j op' proc hj
    rcases update_eq_some_iff.1 hj with ⟨rfl, hv⟩ | ⟨-, hj⟩
    · cases hv
      exact hops j op p.world hmeets hinv
    · exact hprocs j op' proc hj
  | @call i op c next a world hproc hanswer =>
    have hwp := hprocs i op _ hproc
    rcases (hwp p.world (hrefl i p.world) hinv).2 a world ⟨hanswer, hmeets op _ hproc⟩ with
      ⟨hinv', howed, hrest⟩
    refine ⟨hinv', ?_⟩
    intro j op' proc hj
    rcases update_eq_some_iff.1 hj with ⟨rfl, hv⟩ | ⟨hne, hj⟩
    · cases hv
      exact hrest
    · exact Proc.wp_rely (htrans j) (hguar i j _ _ (Ne.symm hne) howed) (hprocs j op' proc hj)
  | finish =>
    refine ⟨hinv, ?_⟩
    intro j op' proc hj
    rcases update_eq_some_iff.1 hj with ⟨-, hv⟩ | ⟨-, hj⟩
    · cases hv
    · exact hprocs j op' proc hj

/-- Operations that are right on their own are right together. -/
lemma inv_of_reachable (hinit : ∀ s, init s → inv s) (hrefl : ∀ i s, rely i s s)
    (htrans : ∀ i s t u, rely i s t → rely i t u → rely i s u)
    (hguar : ∀ i j s t, i ≠ j → guar i s t → rely j s t) (hops : ∀ i op s, started op → inv s →
      (setting answers calls inv rely guar i op).Wp (program op) (fun _ _ => True) s) {p}
    (h : ((machine program answers init).restrict fun p l _ => Meets started calls p l).Reachable p) :
    inv p.world := by
  have hright : Right answers calls inv rely guar p := by
    refine Machine.Reachable.induct ?_ ?_ h
    · rintro p ⟨hworld, hidle⟩
      refine ⟨hinit _ hworld, ?_⟩
      intro i op proc hproc
      rw [hidle i] at hproc
      cases hproc
    · rintro p l q - hp ⟨hstep, hmeets⟩
      exact right_step hrefl htrans hguar hops hp hstep hmeets
  exact hright.1

/-! ### Schedules -/

/-- Whose turn it is. -/
inductive Turn (ω : Type)
  | start (i : Nat) (op : ω)
  | call (i : Nat)
  | finish (i : Nat)

def Turn.index : Turn ω → Nat
  | .start i _ => i
  | .call i => i
  | .finish i => i

/-- One turn, with the answer that `respond` gives. -/
def advance (program : ω → Proc C A Unit) (respond : Nat → σ → (c : C) → Option (A c × σ))
    (p : Pool σ C A ω) : Turn ω → Option (Pool σ C A ω)
  | .start i op =>
    match p.procs i with
    | none => some { p with procs := update p.procs i (some (op, program op)) }
    | some _ => none
  | .call i =>
    match p.procs i with
    | some (op, .call c next) => (respond i p.world c).map fun r =>
      { world := r.2, procs := update p.procs i (some (op, next r.1)) }
    | _ => none
  | .finish i =>
    match p.procs i with
    | some (_, .done ()) => some { p with procs := update p.procs i none }
    | _ => none

def run (program : ω → Proc C A Unit) (respond : Nat → σ → (c : C) → Option (A c × σ))
    (p : Pool σ C A ω) : List (Turn ω) → Option (Pool σ C A ω)
  | [] => some p
  | t :: ts => (advance program respond p t).bind fun q => run program respond q ts

/-- Operations that are free of conditions. -/
def Free (started : ω → Prop) (calls : ω → σ → C → Prop) (op : ω) : Prop :=
  started op ∧ ∀ s c, calls op s c

/-- The operations in flight are free of conditions. -/
def AllFree (started : ω → Prop) (calls : ω → σ → C → Prop) (p : Pool σ C A ω) : Prop :=
  ∀ i op proc, p.procs i = some (op, proc) → Free started calls op

variable {respond : Nat → σ → (c : C) → Option (A c × σ)}

variable {p q : Pool σ C A ω} {i : Nat} {t : Turn ω} {ts : List (Turn ω)}

lemma AllFree.update (h : AllFree started calls p) {world : σ}
    {v} (hv : ∀ x, v = some x → Free started calls x.1) :
    AllFree started calls { world := world, procs := update p.procs i v } := by
  intro j op proc hj
  rcases update_eq_some_iff.1 hj with ⟨-, hx⟩ | ⟨-, hj⟩
  · exact hv _ hx
  · exact h j op proc hj

lemma advance_step (hrespond : ∀ i s c r, respond i s c = some r → answers i s c r.1 r.2) (h : advance program respond p t = some q)
    (hfree : AllFree started calls p) (ht : ∀ i op, t = .start i op → Free started calls op) :
    (∃ l, Step program answers p l q ∧ Meets started calls p l) ∧ AllFree started calls q := by
  cases t with
  | start i op =>
    have hop := ht i op rfl
    simp only [advance] at h
    cases hi : p.procs i with
    | some =>
      rw [hi] at h
      cases h
    | none =>
      rw [hi] at h
      cases h
      refine ⟨⟨_, .start op hi, hop.1⟩, hfree.update ?_⟩
      rintro x ⟨⟩
      exact hop
  | call i =>
    simp only [advance] at h
    rcases hi : p.procs i with _ | ⟨op, _ | ⟨c, next⟩⟩
    · rw [hi] at h
      cases h
    · rw [hi] at h
      cases h
    rw [hi] at h
    have hop := hfree i op _ hi
    rcases Option.map_eq_some_iff.mp h with ⟨r, hr, rfl⟩
    refine ⟨⟨.call i c r.1, .call hi (hrespond i _ c r hr), ?_⟩, hfree.update ?_⟩
    · intro op' proc' hproc
      rw [hi] at hproc
      cases hproc
      exact hop.2 _ c
    · rintro x ⟨⟩
      exact hop
  | finish i =>
    simp only [advance] at h
    rcases hi : p.procs i with _ | ⟨op, _ | ⟨c, next⟩⟩
    · rw [hi] at h
      cases h
    · rw [hi] at h
      cases h
      refine ⟨⟨_, .finish hi, trivial⟩, hfree.update ?_⟩
      rintro x ⟨⟩
    · rw [hi] at h
      cases h

lemma procs_advance
    (h : advance program respond p t = some q) (hi : t.index ≠ i) : q.procs i = p.procs i := by
  cases t with
  | start | finish =>
    simp only [advance] at h
    split at h <;> cases h
    exact update_of_ne (Ne.symm hi) _ _
  | call =>
    simp only [advance] at h
    split at h
    · rcases Option.map_eq_some_iff.mp h with ⟨r, -, rfl⟩
      exact update_of_ne (Ne.symm hi) _ _
    · cases h

/-- Who has no turn does not move. -/
lemma procs_run (h : run program respond p ts = some q) (hi : ∀ t ∈ ts, t.index ≠ i) :
    q.procs i = p.procs i := by
  induction ts generalizing p with
  | nil =>
    cases h
    rfl
  | cons t ts ih =>
    rcases Option.bind_eq_some_iff.mp h with ⟨p', hp', hrest⟩
    calc q.procs i = p'.procs i := ih hrest fun t ht => hi t (List.mem_cons_of_mem _ ht)
      _ = p.procs i := procs_advance hp' (hi t List.mem_cons_self)

/-- A schedule of operations that are free of conditions is a run. -/
lemma reachable_run (hrespond : ∀ i s c r, respond i s c = some r → answers i s c r.1 r.2)
    (hp : ((machine program answers init).restrict fun p l _ => Meets started calls p l).Reachable p)
    (hfree : AllFree started calls p) (hts : ∀ i op, .start i op ∈ ts → Free started calls op)
    (h : run program respond p ts = some q) :
    ((machine program answers init).restrict fun p l _ => Meets started calls p l).Reachable q := by
  induction ts generalizing p with
  | nil =>
    cases h
    exact hp
  | cons t ts ih =>
    rcases Option.bind_eq_some_iff.mp h with ⟨p', hp', hrest⟩
    have hstart : ∀ i op, t = .start i op → Free started calls op := by
      intro i op ht
      exact hts i op (ht ▸ List.mem_cons_self)
    rcases advance_step hrespond hp' hfree hstart with ⟨⟨l, hstep, hmeets⟩, hfree'⟩
    refine ih (hp.step ⟨hstep, hmeets⟩) hfree' ?_ hrest
    intro i op hmem
    exact hts i op (List.mem_cons_of_mem _ hmem)

end Invariant

end Pool

end NeoServer
