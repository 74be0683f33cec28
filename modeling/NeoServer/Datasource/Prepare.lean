import Mathlib
import NeoServer.Machine

/-!
# Datasource.Prepare — who owns a new data source

`Prepare` runs a constructor in a goroutine that holds one of 16 slots, and hands the source over on
an unbuffered channel, unless the caller is gone. A constructor and a health check may take for ever.

- `Call.Step` : the steps of a call and of its goroutine,
- `Call.Sound` : a source is with the goroutine, with the caller or closed,
- `prepare_safe` : so it is in every run, and at most 16 constructors run at once.
-/

namespace NeoServer.Datasource.Prepare

open List

/-- What a constructor returns; a typed nil is no handle. -/
inductive Source
  | nil | typedNil | handle
deriving DecidableEq

/-- Whether there is a source and whether there is an error. -/
structure Result where
  source : Bool
  err : Bool
deriving DecidableEq

inductive Caller
  | acquiring | waiting | returned (result : Result)
deriving DecidableEq

inductive Worker
  | idle | constructing | checking | offering (result : Result) | leaving | ended
deriving DecidableEq

structure Call where
  caller : Caller := .acquiring
  worker : Worker := .idle
  /-- The context is done. -/
  done : Bool := false
  /-- The constructor has returned a source. -/
  made : Bool := false
  closes : Nat := 0
  frees : Nat := 0

namespace Call

/-- The source is closed if there is one. -/
def close (c : Call) (source : Bool) : Call := { c with closes := c.closes + source.toNat }

def constructed (c : Call) (source : Source) (err : Bool) : Call :=
  let handle := decide (source = .handle)
  let c := { c with made := handle }
  if err || !handle then { c.close handle with worker := .offering ⟨false, true⟩ }
  else { c with worker := .checking }

def checked (c : Call) (err : Bool) : Call :=
  if err then { c.close true with worker := .offering ⟨false, true⟩ }
  else { c with worker := .offering ⟨true, false⟩ }

/-- A step, with the number of slots in use before and after it. -/
inductive Step : Call → Nat → Call → Nat → Prop
  /-- The time-out, or a cancellation by the caller. -/
  | cancel {c n} : Step c n { c with done := true } n
  | acquire {c n} (h : c.caller = .acquiring) (hslot : n < 16) :
      Step c n { c with caller := .waiting, worker := .constructing } (n + 1)
  | giveUp {c n} (h : c.caller = .acquiring) (hdone : c.done) :
      Step c n { c with caller := .returned ⟨false, true⟩ } n
  | construct {c n} (h : c.worker = .constructing) (source : Source) (err : Bool) :
      Step c n (c.constructed source err) n
  | health {c n} (h : c.worker = .checking) (err : Bool) : Step c n (c.checked err) n
  /-- The caller receives the result and returns, which ends the context. -/
  | handOver {c n r} (h : c.worker = .offering r) (hcaller : c.caller = .waiting) :
      Step c n { c with caller := .returned r, worker := .leaving, done := true } n
  | abandon {c n r} (h : c.worker = .offering r) (hdone : c.done) :
      Step c n { c.close r.source with worker := .leaving } n
  | timeOut {c n} (h : c.caller = .waiting) (hdone : c.done) :
      Step c n { c with caller := .returned ⟨false, true⟩ } n
  | free {c n} (h : c.worker = .leaving) :
      Step c (n + 1) { c with worker := .ended, frees := c.frees + 1 } n

/-- The goroutine has a slot. -/
def running (c : Call) : Bool := c.worker ≠ .idle ∧ c.worker ≠ .ended

/-- The source is with the goroutine. -/
def held (c : Call) : Bool := c.worker = .checking ∨ c.worker = .offering ⟨true, false⟩

/-- The source was returned with a nil error. -/
def delivered (c : Call) : Bool := c.caller = .returned ⟨true, false⟩

/-- The steps of a goroutine after its constructor. -/
def left (c : Call) : Nat :=
  match c.worker with
  | .checking => 3
  | .offering _ => 2
  | .leaving => 1
  | _ => 0

/-- A source is at one place, the caller has it with a nil error or not at all, and the slot of a
goroutine that has ended was freed once. -/
structure Sound (c : Call) : Prop where
  owned : c.closes + c.delivered.toNat + c.held.toNat = c.made.toNat
  result : ∀ r, c.caller = .returned r ∨ c.worker = .offering r →
    r = ⟨true, false⟩ ∨ r = ⟨false, true⟩
  frees : c.frees = if c.worker = .ended then 1 else 0

/-- What the steps keep. -/
structure Inv (c : Call) : Prop extends Sound c where
  -- the offer of a goroutine is taken or refused
  present : c.worker ≠ .idle → c.caller = .waiting ∨ c.done
  early : c.worker = .idle ∨ c.worker = .constructing → c.made = false
  waits : c.caller = .acquiring → c.worker = .idle

variable {c c' : Call} {n n' : Nat}

lemma Inv.step (h : c.Inv) (hstep : c.Step n c' n') : c'.Inv := by
  obtain ⟨⟨howned, hresult, hfrees⟩, hpresent, hearly, hwaits⟩ := h
  simp only [delivered, held] at howned
  cases hstep <;> refine ⟨⟨?_, ?_, ?_⟩, ?_, ?_, ?_⟩ <;>
    grind [delivered, held, close, constructed, checked, Bool.toNat]

lemma running_step (h : c.Inv) (hstep : c.Step n c' n') :
    n' + c.running.toNat = n + c'.running.toNat := by
  have hwaits := h.waits
  cases hstep <;> grind [running, close, constructed, checked, Bool.toNat]

lemma Step.bound (hstep : c.Step n c' n') (hn : n ≤ 16) : n' ≤ 16 := by
  cases hstep <;> omega

/-- A goroutine whose constructor has returned can go on. -/
lemma Inv.goesOn (h : c.Inv) (hleft : 0 < c.left) (hn : c.running.toNat ≤ n) :
    ∃ c' n', c.Step n c' n' ∧ c'.left < c.left := by
  cases hworker : c.worker with
  | idle | constructing | ended => simp [left, hworker] at hleft
  | checking => exact ⟨_, _, .health hworker false, by simp [checked, left, hworker]⟩
  | offering r =>
    rcases h.present (by simp [hworker]) with hcaller | hdone
    · exact ⟨_, _, .handOver hworker hcaller, by simp [left, hworker]⟩
    · exact ⟨_, _, .abandon hworker hdone, by simp [left, hworker]⟩
  | leaving =>
    cases n with
    | zero => simp [running, hworker] at hn
    | succ n => exact ⟨_, _, .free hworker, by simp [left, hworker]⟩

end Call

/-- The channel of the slots and the calls. -/
structure State where
  slots : Nat
  calls : List Call

inductive Step : State → Unit → State → Prop
  | start {s : State} : Step s () { s with calls := s.calls ++ [{}] }
  | call {s : State} {i : Nat} {c c' slots} (hcall : s.calls[i]? = some c)
      (h : c.Step s.slots c' slots) : Step s () ⟨slots, s.calls.set i c'⟩

def machine : Machine State Unit where
  init s := s = ⟨0, []⟩
  step := Step

structure Inv (s : State) : Prop where
  slots : s.slots = s.calls.countP Call.running
  bound : s.slots ≤ 16
  calls : ∀ c ∈ s.calls, c.Inv

lemma Inv.running_le {s : State} (h : Inv s) {c : Call} (hc : c ∈ s.calls) :
    c.running.toNat ≤ s.slots := by
  rw [h.slots]
  cases hr : c.running with
  | false => exact Nat.zero_le _
  | true => exact countP_pos_iff.mpr ⟨c, hc, hr⟩

lemma Inv.step {s t : State} (h : Inv s) (hstep : Step s () t) : Inv t := by
  cases hstep with
  | start =>
    refine ⟨?_, h.bound, ?_⟩
    · rw [countP_append, ← h.slots]
      rfl
    · intro c hc
      rcases mem_append.mp hc with hc | hc
      · exact h.calls c hc
      · rw [mem_singleton.mp hc]
        exact ⟨⟨rfl, nofun, rfl⟩, nofun, fun _ => rfl, fun _ => rfl⟩
  | @call i c c' slots hcall hcstep =>
    have hc := h.calls c (mem_of_getElem? hcall)
    have hrunning := Call.running_step hc hcstep
    have hone := h.running_le (mem_of_getElem? hcall)
    obtain ⟨hi, rfl⟩ := List.getElem?_eq_some_iff.mp hcall
    refine ⟨?_, hcstep.bound h.bound, ?_⟩
    · rw [countP_set hi]
      have hslots := h.slots
      grind [Bool.toNat]
    · intro d hd
      rcases mem_or_eq_of_mem_set hd with hd | rfl
      · exact h.calls d hd
      · exact hc.step hcstep

/-- At most 16 constructors run at once, no source is lost, closed twice or closed after it was
returned, and a goroutine whose constructor has returned can go on until it has freed its slot. -/
theorem prepare_safe {s : State} (h : machine.Reachable s) :
    s.calls.countP (·.worker = .constructing) ≤ 16 ∧ (∀ c ∈ s.calls, c.Sound) ∧
      ∀ i c, s.calls[i]? = some c → 0 < c.left →
        ∃ slots c', Step s () ⟨slots, s.calls.set i c'⟩ ∧ c'.left < c.left := by
  have hinv : Inv s := by
    refine Machine.Reachable.induct ?_ ?_ h
    · rintro _ rfl
      exact ⟨rfl, Nat.zero_le _, nofun⟩
    · intro s _ t _ hs hstep
      exact hs.step hstep
  refine ⟨?_, fun c hc => (hinv.calls c hc).toSound, ?_⟩
  · refine Nat.le_trans (countP_mono_left ?_) (hinv.slots ▸ hinv.bound)
    intro c _ hc
    have hworker := of_decide_eq_true hc
    simp [Call.running, hworker]
  · intro i c hcall hleft
    have hc := mem_of_getElem? hcall
    obtain ⟨c', slots, hstep, hless⟩ := (hinv.calls c hc).goesOn hleft (hinv.running_le hc)
    exact ⟨slots, c', .call hcall hstep, hless⟩

/-- A source that is made, found healthy and returned. -/
theorem prepare_safe_handOver : ∃ s : State,
    s.calls.map Call.delivered = [true] ∧ s.slots = 0 ∧ ∀ c ∈ s.calls, c.Sound := by
  have next {s c c' slots} (h : machine.Reachable s) (hstep : Call.Step c s.slots c' slots)
      (hcall : s.calls[0]? = some c) : machine.Reachable ⟨slots, s.calls.set 0 c'⟩ :=
    h.step (.call hcall hstep)
  have h0 : machine.Reachable ⟨0, []⟩ := .init rfl
  have h1 := h0.step .start
  have h2 := next h1 (.acquire rfl (by decide)) rfl
  have h3 := next h2 (.construct rfl .handle false) rfl
  have h4 := next h3 (.health rfl false) rfl
  have h5 := next h4 (.handOver rfl rfl) rfl
  have h6 := next h5 (.free rfl) rfl
  exact ⟨_, rfl, rfl, (prepare_safe h6).2.1⟩

end NeoServer.Datasource.Prepare
