import NeoServer.Lineage
import NeoServer.Machine
import NeoServer.Text

/-!
# Tilecache.Ownership — one process writes to a cache

Processes that share a cache keep a marker in the object store that says which of them owns it.
They change it with conditional writes only: a marker is created where there is none, and
replaced when its ETag is the one that was read. A request may reach the store at any time after
it was sent, even when the process has given it up, and more than once; the answer may be lost.

An ETag stands for the body of the object. So every marker names the one that it replaces, and
no marker that was replaced comes back (`Lineage`).

- `readMarker`, `claimCondition`, `Confirms` : how `acquire` and `verifyOwnership` read a marker,
- `Guard`, `GuardStep` : the ownership guard of a process, and what it does,
- `System`, `Step` : the processes and the store,
- `inv_of_reachable` : every marker is written once, over the one that its process has read,
- `marker_of_reachable` : without takeover, the marker is that of the process that holds the
  cache,
- `ownership_safe` : so one process holds it; a process whose marker was replaced does not change
  the marker any more; and a process that has lost the cache does not write to it any more.
-/

namespace NeoServer.Tilecache.Ownership

open List Function Option

/-- What the marker says. Host, process and time of the start are for messages only. -/
structure Marker where
  schemaVersion : Int
  instanceID : Str
  released : Bool
deriving DecidableEq, Repr

def legacyOwnerMarkerVersion : Int := 1

def ownerMarkerVersion : Int := 3

/-- The processes that start, each with an identifier of its own, and the store as they find it. -/
structure Cluster where
  instanceID : Nat → Str
  takeoverOwnerID : Nat → Str
  -- what the object with an ETag says; nothing if it is not a marker
  body : Str → Option Marker
  initial : Option Str
  instanceID_injective : Function.Injective instanceID
  fresh : ∀ e ∈ initial, ∀ m ∈ body e, ∀ i, m.instanceID ≠ instanceID i

/-! ## Reading the marker -/

inductive ReadFailure
  | notFound
  | corrupt
  | invalid
deriving DecidableEq, Repr

def Marker.Valid (m : Marker) : Prop :=
  legacyOwnerMarkerVersion ≤ m.schemaVersion ∧ m.schemaVersion ≤ ownerMarkerVersion ∧
    (m.released = true → 3 ≤ m.schemaVersion) ∧ m.instanceID ≠ []

instance (m : Marker) : Decidable m.Valid := by
  unfold Marker.Valid
  infer_instance

/-- The marker, with its ETag, if the store answers. -/
def readMarker (c : Cluster) : Option Str → Except ReadFailure (Marker × Str)
  | none => .error .notFound
  | some etag =>
    match c.body etag with
    | none => .error .corrupt
    | some m => if m.Valid ∧ etag ≠ [] then .ok (m, etag) else .error .invalid

/-- Why `acquire` does not try. -/
inductive Refusal
  | absent
  | released
  | owned (owner : Str)
  | mismatch (owner : Str)
  | unreadable (failure : ReadFailure)
deriving DecidableEq, Repr

/-- The condition of the write that claims the cache: that there is no marker, or that it has
this ETag. -/
def claimCondition (takeoverOwnerID : Str) : Except ReadFailure (Marker × Str) →
    Except Refusal (Option Str)
  | .error .notFound => if takeoverOwnerID ≠ [] then .error .absent else .ok none
  | .error failure => .error (.unreadable failure)
  | .ok (m, etag) =>
    if m.released = true then
      if takeoverOwnerID ≠ [] then .error .released else .ok (some etag)
    else if takeoverOwnerID = [] then .error (.owned m.instanceID)
    else if takeoverOwnerID ≠ m.instanceID then .error (.mismatch m.instanceID)
    else .ok (some etag)

/-- The marker is that of the process, as it was written. -/
def Confirms (instanceID etag : Str) (observed : Marker × Str) : Prop :=
  observed.1.released = false ∧ observed.1.instanceID = instanceID ∧ observed.2 = etag

def Cluster.markerBody (c : Cluster) (i : Nat) (released : Bool) : Marker :=
  ⟨ownerMarkerVersion, c.instanceID i, released⟩

variable {c : Cluster} {object : Option Str}

lemma readMarker_eq_ok {m : Marker} {etag : Str}
    (h : readMarker c object = .ok (m, etag)) : object = some etag ∧ c.body etag = some m := by
  cases object with
  | none => cases h
  | some e =>
    simp only [readMarker] at h
    split at h
    · cases h
    rename_i m' hbody
    split at h
    · cases h
      exact ⟨rfl, hbody⟩
    · cases h

/-- There is no marker, or it is a released one. -/
def Vacant (c : Cluster) (cond : Option Str) : Prop :=
  ∀ e ∈ cond, ∃ m, c.body e = some m ∧ m.released = true

/-- Without takeover, only a released marker is replaced. -/
lemma claimCondition_nil {cond}
    (h : claimCondition [] (readMarker c object) = .ok cond) : Vacant c cond := by
  cases hread : readMarker c object with
  | error failure =>
    rw [hread] at h
    cases failure with
    | notFound =>
      cases h
      exact nofun
    | corrupt | invalid => cases h
  | ok observed =>
    rcases observed with ⟨m, e⟩
    rw [hread] at h
    simp only [claimCondition] at h
    split at h
    · rename_i hreleased
      cases h
      rintro e ⟨⟩
      exact ⟨m, (readMarker_eq_ok hread).2, hreleased⟩
    · cases h

/-! ## The guard of a process -/

inductive OwnershipState
  | starting | held | lost | released
deriving DecidableEq, Repr

/-- Where `acquire`, and then `release`, are. -/
inductive Phase
  | idle
  | claiming
  -- the claim was answered with an ETag, and the marker is read again
  | verifying (etag : Str)
  | verified (etag : Str)
  | acquired
  | failed
  | stopping
  | released
deriving DecidableEq, Repr

/-- `acquire` has not returned, or has failed. -/
def Phase.isAcquiring : Phase → Bool
  | .acquired | .stopping | .released => false
  | _ => true

/-- Where `verifyOwnership` is. -/
inductive Checker
  | off | waiting | failing | stopped
deriving DecidableEq, Repr

structure Guard where
  state : OwnershipState
  phase : Phase
  etag : Str
  checker : Checker
  -- mutations that have begun and not ended
  admitted : Nat
  -- the conditions of the writes that were sent
  claim : Option (Option Str)
  release : Option Str
  -- the ETags under which the claim has been stored
  claimed : List Str

def newOwnershipGuard : Guard where
  state := .starting
  phase := .idle
  etag := []
  checker := .off
  admitted := 0
  claim := none
  release := none
  claimed := []

inductive Action
  | fail | claim | answer (etag : Str) | verify | hold
  | check (confirmed : Bool) | markLost | stop
  | release | fence
  | beginMutation | endMutation
deriving DecidableEq, Repr

/-- What the guard of a process does, with what it finds in the store. -/
inductive GuardStep (c : Cluster) (i : Nat) (object : Option Str) : Guard → Action → Guard → Prop
  -- `acquire`: the probe, a read or a write fails, or the marker is not as it has to be
  | fail {g : Guard} (hphase : g.phase = .idle ∨ g.phase = .claiming ∨ ∃ e, g.phase = .verifying e) :
      GuardStep c i object g .fail { g with phase := .failed }
  | claim {g : Guard} {cond} (hphase : g.phase = .idle)
      (hcond : claimCondition (c.takeoverOwnerID i) (readMarker c object) = .ok cond) :
      GuardStep c i object g .claim { g with phase := .claiming, claim := some cond }
  | answer {g : Guard} {e} (hphase : g.phase = .claiming) (hclaimed : e ∈ g.claimed) :
      GuardStep c i object g (.answer e) { g with phase := .verifying e }
  | verify {g : Guard} {e observed} (hphase : g.phase = .verifying e)
      (hread : readMarker c object = .ok observed) (hconfirms : Confirms (c.instanceID i) e observed) :
      GuardStep c i object g .verify { g with phase := .verified e }
  | hold {g : Guard} {e} (hphase : g.phase = .verified e) :
      GuardStep c i object g .hold
        { g with phase := .acquired, state := .held, etag := e, checker := .waiting }
  -- `verifyOwnership`
  | confirm {g : Guard} {observed} (hchecker : g.checker = .waiting)
      (hread : readMarker c object = .ok observed)
      (hconfirms : Confirms (c.instanceID i) g.etag observed) :
      GuardStep c i object g (.check true) g
  | notConfirm {g : Guard} (hchecker : g.checker = .waiting) :
      GuardStep c i object g (.check false) { g with checker := .failing }
  | markLost {g : Guard} (hchecker : g.checker = .failing) (hfence : g.admitted = 0) :
      GuardStep c i object g .markLost
        { g with checker := .stopped, state := if g.state = .held then .lost else g.state }
  | stop {g : Guard} (hphase : g.phase = .stopping) (hchecker : g.checker = .waiting) :
      GuardStep c i object g .stop { g with checker := .stopped }
  -- `release`: the checker is told to stop and waited for, then mutations are
  | release {g : Guard} (hphase : g.phase = .acquired) :
      GuardStep c i object g .release { g with phase := .stopping }
  | fence {g : Guard} (hphase : g.phase = .stopping) (hchecker : g.checker = .stopped)
      (hfence : g.admitted = 0) :
      GuardStep c i object g .fence
        { g with phase := .released, state := .released,
                 release := if g.state = .held then some g.etag else none }
  | beginMutation {g : Guard} (hheld : g.state = .held) :
      GuardStep c i object g .beginMutation { g with admitted := g.admitted + 1 }
  | endMutation {g : Guard} (hadmitted : 0 < g.admitted) :
      GuardStep c i object g .endMutation { g with admitted := g.admitted - 1 }

/-! ## The processes and the store -/

/-- What the store holds: nothing, something that is not a marker, or a marker. -/
abbrev Content := Option (Option Marker)

structure System where
  -- the ETag of the object
  object : Option Str
  -- what the store held before, the last first
  past : List Content
  guards : Nat → Guard

def Cluster.content (c : Cluster) (object : Option Str) : Content := object.map c.body

inductive Label
  | act (i : Nat) (action : Action)
  | storeClaim (i : Nat) (etag : Str)
  | storeRelease (i : Nat) (etag : Str)
deriving DecidableEq, Repr

def Label.process : Label → Nat
  | .act i _ => i
  | .storeClaim i _ => i
  | .storeRelease i _ => i

inductive Step (c : Cluster) : System → Label → System → Prop
  | act {s : System} {i action g} (h : GuardStep c i s.object (s.guards i) action g) :
      Step c s (.act i action) { s with guards := update s.guards i g }
  | storeClaim {s : System} {i etag} (hclaim : (s.guards i).claim = some s.object)
      (hbody : c.body etag = some (c.markerBody i false)) :
      Step c s (.storeClaim i etag)
        { object := some etag, past := c.content s.object :: s.past,
          guards := update s.guards i
            { s.guards i with claimed := etag :: (s.guards i).claimed } }
  | storeRelease {s : System} {i e etag}
      (hrelease : (s.guards i).release = some e) (hobject : s.object = some e)
      (hbody : c.body etag = some (c.markerBody i true)) :
      Step c s (.storeRelease i etag)
        { s with object := some etag, past := c.content s.object :: s.past }

def machine (c : Cluster) : Machine System Label where
  init s := s = ⟨c.initial, [], fun _ => newOwnershipGuard⟩
  step := Step c

/-! ## Guards -/

/-- The marker that `acquire` has found or written. -/
def Phase.checked : Phase → Option Str
  | .verifying e | .verified e => some e
  | _ => none

/-- What is true of the guard of a process. -/
structure Guard.Inv (c : Cluster) (i : Nat) (g : Guard) : Prop where
  body : ∀ e ∈ g.claimed, c.body e = some (c.markerBody i false)
  unclaimed : g.phase = .idle → g.claim = none
  acquiring : g.phase.isAcquiring = true → g.state = .starting ∧ g.release = none
  verifying : ∀ e, g.phase.checked = some e → e ∈ g.claimed
  etag : g.state = .held → g.etag ∈ g.claimed
  release : ∀ e, g.release = some e → e ∈ g.claimed ∧ g.state = .released
  admitted : g.state ≠ .held → g.admitted = 0

lemma inv_newOwnershipGuard (c : Cluster) (i : Nat) : newOwnershipGuard.Inv c i where
  body := nofun
  unclaimed _ := rfl
  acquiring _ := ⟨rfl, rfl⟩
  verifying := nofun
  etag := nofun
  release := nofun
  admitted _ := rfl

variable {i : Nat}

section Guards

variable {g g' : Guard} {action : Action}

/-- One phase of `acquire` follows another. -/
lemma Guard.Inv.next (h : g.Inv c i) (hphase : g.phase.isAcquiring = true) {phase : Phase}
    {claim} (hidle : phase ≠ .idle)
    (hverifying : ∀ e, phase.checked = some e → e ∈ g.claimed) :
    { g with phase := phase, claim := claim }.Inv c i :=
  { h with
    unclaimed := fun hnew => absurd hnew hidle
    acquiring := fun _ => h.acquiring hphase
    verifying := hverifying }

lemma Guard.Inv.step (h : g.Inv c i) (hstep : GuardStep c i object g action g') : g'.Inv c i := by
  cases hstep with
  | fail hphase =>
    refine h.next ?_ nofun nofun
    rcases hphase with hphase | hphase | ⟨e, hphase⟩ <;> rw [hphase] <;> rfl
  | claim hphase => exact h.next (by rw [hphase]; rfl) nofun nofun
  | answer hphase hclaimed =>
    refine h.next (by rw [hphase]; rfl) nofun ?_
    rintro e ⟨⟩
    exact hclaimed
  | verify hphase =>
    refine h.next (by rw [hphase]; rfl) nofun ?_
    rintro e ⟨⟩
    exact h.verifying _ (by rw [hphase]; rfl)
  | @hold e hphase =>
    have hstarting := h.acquiring (by rw [hphase]; rfl)
    exact { h with
      unclaimed := nofun
      acquiring := nofun
      verifying := nofun
      etag := fun _ => h.verifying e (by rw [hphase]; rfl)
      release := fun e he => absurd (hstarting.2.symm.trans he) nofun
      admitted := fun hne => absurd rfl hne }
  | confirm => exact h
  | notConfirm | stop => exact { h with }
  | markLost hchecker hfence =>
    by_cases hheld : g.state = .held
    · rw [if_pos hheld]
      have hphase : g.phase.isAcquiring ≠ true := by
        intro hacquiring
        rw [(h.acquiring hacquiring).1] at hheld
        cases hheld
      exact { h with
        acquiring := fun hacquiring => absurd hacquiring hphase
        etag := nofun
        release := fun e he => absurd (hheld.symm.trans (h.release e he).2) nofun
        admitted := fun _ => hfence }
    · rw [if_neg hheld]
      exact { h with }
  | release =>
    exact { h with
      unclaimed := nofun
      acquiring := nofun
      verifying := nofun }
  | fence hphase hchecker hfence =>
    exact { h with
      unclaimed := nofun
      acquiring := nofun
      verifying := nofun
      etag := nofun
      release := by
        intro e he
        refine ⟨?_, rfl⟩
        by_cases hheld : g.state = .held
        · rw [if_pos hheld] at he
          cases he
          exact h.etag hheld
        · rw [if_neg hheld] at he
          cases he
      admitted := fun _ => hfence }
  | beginMutation hheld => exact { h with admitted := fun hne => absurd hheld hne }
  | endMutation hadmitted =>
    exact { h with admitted := fun hne => absurd (h.admitted hne) (Nat.ne_of_gt hadmitted) }

/-- The condition of a claim does not change. -/
lemma Guard.Inv.claim_eq (h : g.Inv c i) (hstep : GuardStep c i object g action g')
    {cond} (hclaim : g.claim = some cond) : g'.claim = some cond := by
  cases hstep with
  | claim hphase =>
    rw [h.unclaimed hphase] at hclaim
    cases hclaim
  | _ => exact hclaim

/-- A process that has lost or released the cache does not get it back. -/
lemma Guard.Inv.gone (h : g.Inv c i) (hstep : GuardStep c i object g action g')
    (hgone : g.state = .lost ∨ g.state = .released) :
    (g'.state = .lost ∨ g'.state = .released) ∧ action ≠ .beginMutation := by
  cases hstep with
  | hold hphase =>
    have hstarting := (h.acquiring (by rw [hphase]; rfl)).1
    rw [hstarting] at hgone
    rcases hgone with hgone | hgone
    · cases hgone
    · cases hgone
  | markLost =>
    have hheld : g.state ≠ .held := by
      rcases hgone with hgone | hgone
      · rw [hgone]
        exact nofun
      · rw [hgone]
        exact nofun
    rw [if_neg hheld]
    exact ⟨hgone, nofun⟩
  | fence => exact ⟨.inr rfl, nofun⟩
  | beginMutation hheld =>
    rw [hheld] at hgone
    rcases hgone with hgone | hgone
    · cases hgone
    · cases hgone
  | _ => exact ⟨hgone, nofun⟩

end Guards

/-! ## Markers -/

/-- Which content a marker is written over: a claim over what the process has read, and the
marker of a released cache over that of the process. -/
inductive Over (c : Cluster) (guards : Nat → Guard) : Content → Content → Prop
  | claim {i cond} (h : (guards i).claim = some cond) :
      Over c guards (some (some (c.markerBody i false))) (c.content cond)
  | release (i : Nat) :
      Over c guards (some (some (c.markerBody i true))) (some (some (c.markerBody i false)))

lemma markerBody_inj {i j : Nat} {b b' : Bool}
    (h : c.markerBody i b = c.markerBody j b') : i = j ∧ b = b' := by
  have hid : c.instanceID i = c.instanceID j := congrArg Marker.instanceID h
  exact ⟨c.instanceID_injective hid, congrArg Marker.released h⟩

section Markers

variable {guards guards' : Nat → Guard}

lemma Over.eq {a b b' : Content} (h : Over c guards a b) (h' : Over c guards a b') : b = b' := by
  generalize ha : a = a' at h'
  cases h with
  | @claim i cond hclaim =>
    cases h' with
    | @claim j cond' hclaim' =>
      rcases markerBody_inj (some.inj (some.inj ha)) with ⟨rfl, -⟩
      rw [hclaim] at hclaim'
      cases hclaim'
      rfl
    | release =>
      rcases markerBody_inj (some.inj (some.inj ha)) with ⟨-, h⟩
      cases h
  | release =>
    cases h' with
    | claim =>
      rcases markerBody_inj (some.inj (some.inj ha)) with ⟨-, h⟩
      cases h
    | release =>
      rcases markerBody_inj (some.inj (some.inj ha)) with ⟨rfl, -⟩
      rfl

/-- What the store holds at first is not written by any of the processes. -/
lemma not_over_initial (b : Content) : ¬ Over c guards (c.content c.initial) b := by
  intro h
  generalize ha : c.content c.initial = a at h
  have hfresh : ∀ i released, c.content c.initial ≠ some (some (c.markerBody i released)) := by
    intro i released hcontent
    rcases map_eq_some_iff.mp hcontent with ⟨e, he, hbody⟩
    exact c.fresh e he _ hbody i rfl
  cases h with
  | claim | release => exact hfresh _ _ ha

lemma Over.mono (hclaims : ∀ i cond, (guards i).claim = some cond → (guards' i).claim = some cond)
    {a b : Content} (h : Over c guards a b) : Over c guards' a b := by
  cases h with
  | claim hclaim => exact .claim (hclaims _ _ hclaim)
  | release i => exact .release i

end Markers

/-- Every marker was written over the one that its process has read. -/
structure Inv (c : Cluster) (s : System) : Prop where
  guards : ∀ i, (s.guards i).Inv c i
  chain : (c.content s.object :: s.past).IsChain (Over c s.guards)
  first : (c.content s.object :: s.past).getLast? = some (c.content c.initial)

variable {s t : System} {l : Label}

section Inv

lemma Inv.lineage (h : Inv c s) : Lineage (Over c s.guards) (c.content s.object :: s.past) := by
  refine ⟨h.chain, ?_⟩
  intro first hfirst
  rw [h.first] at hfirst
  cases hfirst
  exact not_over_initial

/-- What was replaced does not come back. -/
lemma Inv.not_mem_past (h : Inv c s) : c.content s.object ∉ s.past :=
  (nodup_cons.mp (h.lineage.nodup fun _ _ _ hab hac => hab.eq hac)).1

variable {g : Guard}

lemma update_guards {P : Nat → Guard → Prop} {guards : Nat → Guard}
    (h : ∀ j, P j (guards j)) (hg : P i g) (j : Nat) : P j (update guards i g j) :=
  (forall_update_iff guards P).mpr ⟨hg, fun j _ => h j⟩ j

/-- A claim that is stored again changes nothing about the guard. -/
lemma Guard.Inv.stored (h : g.Inv c i) {etag : Str}
    (hbody : c.body etag = some (c.markerBody i false)) :
    { g with claimed := etag :: g.claimed }.Inv c i :=
  { h with
    body := forall_mem_cons.mpr ⟨hbody, h.body⟩
    verifying := fun e he => mem_cons_of_mem _ (h.verifying e he)
    etag := fun hheld => mem_cons_of_mem _ (h.etag hheld)
    release := fun e he => ⟨mem_cons_of_mem _ (h.release e he).1, (h.release e he).2⟩ }

/-- The marker of a process that releases the cache. -/
lemma Inv.content_of_release (h : Inv c s) {e : Str} (hrelease : (s.guards i).release = some e) :
    c.content (some e) = some (some (c.markerBody i false)) := by
  have hclaimed := ((h.guards i).release e hrelease).1
  exact congrArg some ((h.guards i).body e hclaimed)

lemma Inv.step (h : Inv c s) (hstep : Step c s l t) : Inv c t := by
  cases hstep with
  | @act i action g hact =>
    refine ⟨update_guards h.guards ((h.guards i).step hact), ?_, h.first⟩
    have hclaims := update_guards
      (P := fun j g' => ∀ cond, (s.guards j).claim = some cond → g'.claim = some cond)
      (fun _ _ hcond => hcond) fun cond => (h.guards i).claim_eq hact
    exact h.chain.imp fun _ _ => Over.mono hclaims
  | @storeClaim i etag hclaim hbody =>
    have hclaims := update_guards
      (P := fun j g' => ∀ cond, (s.guards j).claim = some cond → g'.claim = some cond)
      (g := { s.guards i with claimed := etag :: (s.guards i).claimed })
      (fun _ _ hcond => hcond) fun cond hcond => hcond
    have hcontent : c.content (some etag) = some (some (c.markerBody i false)) :=
      congrArg some hbody
    refine ⟨update_guards h.guards ((h.guards i).stored hbody), ?_, ?_⟩
    · refine isChain_cons_cons.mpr ⟨?_, h.chain.imp fun _ _ => Over.mono hclaims⟩
      rw [hcontent]
      exact .claim (hclaims i _ hclaim)
    · rw [getLast?_cons_cons]
      exact h.first
  | @storeRelease i e etag hrelease hobject hbody =>
    have hcontent : c.content (some etag) = some (some (c.markerBody i true)) :=
      congrArg some hbody
    refine ⟨h.guards, ?_, ?_⟩
    · refine isChain_cons_cons.mpr ⟨?_, h.chain⟩
      rw [hcontent, hobject, h.content_of_release hrelease]
      exact .release i
    · rw [getLast?_cons_cons]
      exact h.first

theorem inv_of_reachable (h : (machine c).Reachable s) : Inv c s := by
  refine Machine.Reachable.induct ?_ ?_ h
  · rintro s rfl
    exact ⟨inv_newOwnershipGuard c, isChain_singleton _, rfl⟩
  · intro s l t _ hs hstep
    exact hs.step hstep

/-- The marker of the process was in the store, and has been replaced. -/
def Replaced (c : Cluster) (s : System) (i : Nat) : Prop :=
  some (some (c.markerBody i false)) ∈ s.past

/-- Its claim would be written twice, and its release over a marker that has come back. -/
lemma Inv.object_eq (h : Inv c s) (hstep : Step c s l t) (hreplaced : Replaced c s l.process) :
    t.object = s.object := by
  have ht := h.step hstep
  cases hstep with
  | act => rfl
  | storeClaim hclaim hbody =>
    have hcontent : c.content (some _) = some (some _) := congrArg some hbody
    exact absurd (hcontent ▸ mem_cons_of_mem _ hreplaced) ht.not_mem_past
  | storeRelease hrelease hobject =>
    have hcontent := h.content_of_release hrelease
    rw [← hobject] at hcontent
    exact absurd (hcontent ▸ hreplaced) h.not_mem_past

end Inv

/-! ## Without takeover -/

/-- The process has the cache, or is about to. -/
def Guard.Holds (g : Guard) : Prop := g.state = .held ∨ ∃ e, g.phase = .verified e

/-- The marker in the store is that of the process that has the cache. -/
structure Exclusive (c : Cluster) (s : System) : Prop where
  holder : ∀ i, (s.guards i).Holds → c.content s.object = some (some (c.markerBody i false))
  claims : ∀ i cond, (s.guards i).claim = some cond → Vacant c cond

section Exclusive

/-- The cache is gained by verifying the marker only. -/
lemma Guard.Holds.of_step {g g' : Guard} {action : Action}
    (hinv : g.Inv c i) (hstep : GuardStep c i object g action g') (h : g'.Holds) :
    g.Holds ∨ c.content object = some (some (c.markerBody i false)) := by
  rcases h with hheld | ⟨e, hphase⟩
  · cases hstep with
    | hold hphase => exact .inl (.inr ⟨_, hphase⟩)
    | markLost =>
      by_cases hbefore : g.state = .held
      · exact .inl (.inl hbefore)
      · rw [if_neg hbefore] at hheld
        exact absurd hheld hbefore
    | fence => cases hheld
    | _ => exact .inl (.inl hheld)
  · cases hstep with
    | @verify e' observed hbefore hread hconfirms =>
      right
      rcases hconfirms with ⟨-, -, rfl⟩
      rcases readMarker_eq_ok hread with ⟨rfl, -⟩
      exact congrArg some (hinv.body _ (hinv.verifying _ (by rw [hbefore]; rfl)))
    | fail | claim | answer | hold | release | fence => cases hphase
    | _ => exact .inl (.inr ⟨e, hphase⟩)

/-- Before the store is written to, nobody has the cache. -/
lemma Exclusive.of_not_holds {past} {guards : Nat → Guard} (hholds : ∀ i, ¬ (guards i).Holds)
    (hclaims : ∀ i cond, (guards i).claim = some cond → Vacant c cond) :
    Exclusive c ⟨object, past, guards⟩ :=
  ⟨fun i hi => absurd hi (hholds i), hclaims⟩

lemma Exclusive.step (hnone : ∀ i, c.takeoverOwnerID i = []) (hinv : Inv c s) (h : Exclusive c s)
    (hstep : Step c s l t) : Exclusive c t := by
  cases hstep with
  | @act i action g hact =>
    constructor
    · refine update_guards
        (P := fun j g' => g'.Holds → c.content s.object = some (some (c.markerBody j false)))
        h.holder ?_
      intro hholds
      rcases hholds.of_step (hinv.guards i) hact with hbefore | hcontent
      · exact h.holder i hbefore
      · exact hcontent
    · refine update_guards (P := fun _ g' => ∀ cond, g'.claim = some cond → Vacant c cond)
        h.claims ?_
      intro cond hcond
      cases hact with
      | claim hphase hread =>
        cases hcond
        rw [hnone i] at hread
        exact claimCondition_nil hread
      | _ => exact h.claims i cond hcond
  | @storeClaim i etag hclaim =>
    -- the store holds nothing or a released marker
    have hholds : ∀ j, ¬ (s.guards j).Holds := by
      intro j hj
      have hcontent := h.holder j hj
      rcases map_eq_some_iff.mp hcontent with ⟨e, he, hbody'⟩
      rcases h.claims i _ hclaim e he with ⟨m, hm, hreleased⟩
      rw [hbody'] at hm
      cases hm
      cases hreleased
    refine .of_not_holds (update_guards (P := fun _ g => ¬ g.Holds) hholds (hholds i)) ?_
    exact update_guards (P := fun _ g' => ∀ cond, g'.claim = some cond → Vacant c cond)
      h.claims (h.claims i)
  | @storeRelease i e etag hrelease hobject =>
    -- the store holds the marker of the process that releases the cache
    refine .of_not_holds ?_ h.claims
    intro j hj
    have hcontent := h.holder j hj
    rw [hobject, hinv.content_of_release hrelease] at hcontent
    rcases markerBody_inj (some.inj (some.inj hcontent)) with ⟨rfl, -⟩
    have hreleased := ((hinv.guards i).release e hrelease).2
    rcases hj with hheld | ⟨e', hphase⟩
    · rw [hreleased] at hheld
      cases hheld
    · have hstarting := ((hinv.guards i).acquiring (by rw [hphase]; rfl)).1
      rw [hreleased] at hstarting
      cases hstarting

theorem marker_of_reachable (hnone : ∀ i, c.takeoverOwnerID i = [])
    (h : (machine c).Reachable s) : Exclusive c s := by
  refine Machine.Reachable.induct ?_ ?_ h
  · rintro s rfl
    refine .of_not_holds ?_ nofun
    rintro i (hheld | ⟨e, hphase⟩)
    · cases hheld
    · cases hphase
  · intro s l t hs hexclusive hstep
    exact hexclusive.step hnone (inv_of_reachable hs) hstep

end Exclusive

/-! ## Losing the cache -/

section Lost

/-- The process has lost or released the cache. -/
def Gone (g : Guard) : Prop := g.state = .lost ∨ g.state = .released

lemma Inv.gone (hinv : Inv c s) (h : Gone (s.guards i)) (hstep : Step c s l t) :
    Gone (t.guards i) ∧ l ≠ .act i .beginMutation := by
  cases hstep with
  | @act j action g hact =>
    by_cases hi : i = j
    · subst hi
      rcases (hinv.guards i).gone hact h with ⟨hgone, hne⟩
      refine ⟨?_, fun hl => hne (Label.act.inj hl).2⟩
      change Gone (update s.guards i g i)
      rw [update_self]
      exact hgone
    · refine ⟨?_, fun hl => hi (Label.act.inj hl).1.symm⟩
      change Gone (update s.guards j g i)
      rw [update_of_ne hi]
      exact h
  | @storeClaim =>
    refine ⟨?_, nofun⟩
    exact update_guards (P := fun k g => k = i → Gone g) (fun k hk => hk ▸ h)
      (fun hj => hj ▸ h) i rfl
  | storeRelease => exact ⟨h, nofun⟩

/-- It admits no mutation in the whole rest of the run. -/
lemma gone_run {ls} (hrun : (machine c).Run s ls t)
    (hreach : (machine c).Reachable s) (h : Gone (s.guards i)) :
    Gone (t.guards i) ∧ (t.guards i).admitted = 0 ∧ .act i .beginMutation ∉ ls := by
  induction hrun with
  | nil =>
    refine ⟨h, ((inv_of_reachable hreach).guards i).admitted ?_, nofun⟩
    rcases h with h | h
    · rw [h]
      exact nofun
    · rw [h]
      exact nofun
  | cons hstep rest ih =>
    rcases (inv_of_reachable hreach).gone h hstep with ⟨hgone, hne⟩
    rcases ih (hreach.step hstep) hgone with ⟨hend, hadmitted, hrest⟩
    refine ⟨hend, hadmitted, ?_⟩
    intro hmem
    rcases mem_cons.mp hmem with hl | hmem
    · exact hne hl.symm
    · exact hrest hmem

end Lost

/-- Without takeover, at most one process has the cache. With or without it, a process whose
marker was replaced never changes what the store holds, and a process that has lost the cache
never has it again and admits no mutation any more; those that it has admitted have ended. -/
theorem ownership_safe (c : Cluster) :
    ((∀ i, c.takeoverOwnerID i = []) → ∀ s, (machine c).Reachable s →
      ∀ i j, (s.guards i).state = .held → (s.guards j).state = .held → i = j) ∧
    (∀ s, (machine c).Reachable s → ∀ l t, (machine c).step s l t → Replaced c s l.process →
      t.object = s.object) ∧
    (∀ s, (machine c).Reachable s → ∀ i, (s.guards i).state = .lost →
      ∀ ls t, (machine c).Run s ls t →
        (t.guards i).state ≠ .held ∧ (t.guards i).admitted = 0 ∧ .act i .beginMutation ∉ ls) := by
  refine ⟨?_, ?_, ?_⟩
  · intro hnone s hs i j hi hj
    have hexclusive := marker_of_reachable hnone hs
    have hcontent := (hexclusive.holder i (.inl hi)).symm.trans (hexclusive.holder j (.inl hj))
    exact (markerBody_inj (some.inj (some.inj hcontent))).1
  · intro s hs l t hstep hreplaced
    exact (inv_of_reachable hs).object_eq hstep hreplaced
  · intro s hs i hlost ls t hrun
    rcases gone_run hrun hs (.inl hlost) with ⟨hend, hadmitted, hnever⟩
    refine ⟨?_, hadmitted, hnever⟩
    rcases hend with hend | hend
    · rw [hend]
      exact nofun
    · rw [hend]
      exact nofun

/-- Processes that start without takeover on an empty store. -/
def sampleCluster : Cluster where
  instanceID i := replicate (i + 1) 'x'
  takeoverOwnerID _ := []
  body
    | 'h' :: owner => some ⟨ownerMarkerVersion, owner, false⟩
    | 'r' :: owner => some ⟨ownerMarkerVersion, owner, true⟩
    | _ => none
  initial := none
  instanceID_injective i j h := by
    have hlength := congrArg length h
    simpa using hlength
  fresh := nofun

lemma reachable_step (h : (machine c).Reachable s)
    (hstep : Step c s l t) : (machine c).Reachable t := h.step hstep

/-- A process finds no marker, and holds the cache. -/
theorem ownership_safe_sample : ∃ s, (machine sampleCluster).Reachable s ∧
    (s.guards 0).state = .held ∧ ∀ j, (s.guards j).state = .held → 0 = j := by
  let s₀ : System := ⟨none, [], fun _ => newOwnershipGuard⟩
  have h₀ : (machine sampleCluster).Reachable s₀ := .init rfl
  have h₁ := reachable_step h₀ (.act (i := 0) (.claim rfl rfl))
  have h₂ := reachable_step h₁ (.storeClaim (i := 0) rfl (rfl : sampleCluster.body "hx" = _))
  have h₃ := reachable_step h₂ (.act (i := 0) (.answer rfl mem_cons_self))
  have h₄ := reachable_step h₃ (.act (i := 0) (.verify rfl rfl ⟨rfl, rfl, rfl⟩))
  have h₅ := reachable_step h₄ (.act (i := 0) (.hold rfl))
  refine ⟨_, h₅, rfl, ?_⟩
  intro j hj
  exact (ownership_safe sampleCluster).1 (fun _ => rfl) _ h₅ 0 j rfl hj

/-- With or without takeover, no marker comes back to the store. -/
theorem markers_of_reachable (h : (machine c).Reachable s) :
    (c.content s.object :: s.past).Nodup :=
  (inv_of_reachable h).lineage.nodup fun _ _ _ hab hac => hab.eq hac

theorem markers_of_claim : ∃ s : System, s.past ≠ [] ∧
    (sampleCluster.content s.object :: s.past).Nodup := by
  have h := reachable_step (c := sampleCluster) (.init rfl) (.act (i := 0) (.claim rfl rfl))
  have h := reachable_step h (.storeClaim (i := 0) rfl (rfl : sampleCluster.body "hx" = _))
  exact ⟨_, cons_ne_nil _ _, markers_of_reachable h⟩

end NeoServer.Tilecache.Ownership
