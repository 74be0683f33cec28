import NeoServer.Wfs.Lock.Exclusion
import NeoServer.Wfs.Transaction.Execute

/-!
# Wfs.Transaction.Gate — transactions and locks of a workspace

Transactions and lock grants of a workspace take turns at its write gate. `gateMachine`
has the steps of all requests in any order: the operations of the lock store, the
actions of the transaction that holds the gate, one at a time, and the two parts of
`GetFeatureWithLock`, which reads the features before it asks for the lock. Releases,
sweeps and the clock do not wait for the gate.

- `Respects` : a committed transaction changed no feature under a lock it did not
  present,
- `respects_of_reachable` : it holds where the name that is asked for locks is the name
  of the table that was changed.
-/

namespace NeoServer.Wfs.Transaction

open Lock LockStore List

variable {C V : Type}

/-! ## The machine -/

/-- What an action of a transaction did. -/
structure Applied (C V : Type) where
  op : Operation C
  before : Data V
  after : Data V

/-- The transaction that holds the gate. -/
structure Running (C V : Type) where
  ws : Workspace
  tx : WFSTransaction C
  writer : Option (Writer C V)
  remaining : List (Operation C)
  response : TransactionResponse
  /-- The data as the atomic write sees it. -/
  data : Data V
  applied : List (Applied C V)

/-- A transaction when it was committed. -/
structure Commit (C V : Type) where
  tx : WFSTransaction C
  applied : List (Applied C V)
  lock : LockState

/-- A `GetFeatureWithLock` request that has read its features. -/
structure PendingRead (V : Type) where
  source : Str
  key : Str
  rows : List (Str × V)

/-- Features that were returned under a lock. -/
structure Returned (V : Type) where
  lock : FeatureLock
  source : Str
  rows : List (Str × V)
  /-- The data when the lock was granted. -/
  granted : Data V
  /-- Whether a transaction that presented the lock was committed. -/
  presented : Bool

structure GateState (C V : Type) where
  lock : LockState
  data : Data V
  running : Option (Running C V)
  commits : List (Commit C V)
  reads : List (PendingRead V)
  returned : List (Returned V)

variable (rd : PendingRead V)

/-- The request for the lock on the features that were read. -/
def PendingRead.request (wsID : Str) (expirySeconds : Int)
    (action : LockAction) (owner : Str) : AcquireRequest where
  workspaceID := wsID
  features := [(rd.key, rd.rows.map Prod.fst)]
  expirySeconds := expirySeconds
  lockAction := action
  ownerID := owner

/-- The features of the answer: those of the read that the lock covers. -/
def PendingRead.lockedRows (K : LockKeys) (lock : FeatureLock) :
    List (Str × V) :=
  rd.rows.filter fun row => row.1 ∈ lockedFeatureIDs K lock.featureIDs rd.key

def PendingRead.answer (K : LockKeys) (data : Data V) :
    Except AcquireError (FeatureLock × List Str) → List (Returned V)
  | .ok (lock, _) => [⟨lock, rd.source, rd.lockedRows K lock, data, false⟩]
  | .error _ => []

/-- An operation that waits for the gate of a workspace. -/
def TakesGate (wsID : Str) : LockOp → Prop
  | .acquire req env => req.workspaceID = wsID ∧ env.cancelled = false
  | _ => False

/-- The writer for the service of a transaction, if its source supports atomic writes. -/
def Handler.writerFor (h : Handler C V) : Option Service → Option (Option (Writer C V))
  | none => some none
  | some service => (h.atomicWriter service).map some

inductive GateOp (C V : Type)
  | lock (op : LockOp) (done : Nat)
  | start (ws : Workspace) (tx : WFSTransaction C)
  | operate (readAt : Str → Nat) (done : Nat)
  | commit
  | rollback
  | read (ws : Workspace) (role typeName : Str) (rows : List (Str × V))
  | grant (rd : PendingRead V) (req : AcquireRequest) (env : AcquireEnv) (done : Nat)

/-- The steps of the requests of a workspace. -/
inductive GateStep (h : Handler C V) (wsID : Str) :
    GateState C V → GateOp C V → GateState C V → Prop
  | lock {s : GateState C V} {op : LockOp} {done} (hnow : s.lock.now ≤ done)
      (hadm : op.Admissible s.lock done) (hgate : TakesGate wsID op → s.running = none) :
      GateStep h wsID s (.lock op done) { s with lock := op.apply h.keys s.lock done }
  | start {s : GateState C V} {ws : Workspace} {tx : WFSTransaction C} {service writer} (hws : ws.id = wsID) (hgate : s.running = none)
      (hservice : transactionService h ws tx = .ok service)
      (hwriter : h.writerFor service = some writer) :
      GateStep h wsID s (.start ws tx)
        { s with running := some ⟨ws, tx, writer, tx.operations, {}, s.data, []⟩ }
  | operate {s : GateState C V} {r : Running C V} {op rest readAt done response data}
      (hrun : s.running = some r) (hop : r.remaining = op :: rest) (hnow : s.lock.now ≤ done)
      (hread : ∀ id, s.lock.now ≤ readAt id ∧ readAt id ≤ done)
      (hok : executeOperation h r.ws r.writer s.lock.store readAt r.tx.lockId op r.response
        r.data = .ok (response, data)) :
      GateStep h wsID s (.operate readAt done)
        { s with
          lock := { s.lock with now := done }
          running := some { r with
            remaining := rest
            response := response
            data := data
            applied := ⟨op, r.data, data⟩ :: r.applied } }
  /-- An action that fails ends the transaction. -/
  | fail {s : GateState C V} {r : Running C V} {op rest readAt done e}
      (hrun : s.running = some r) (hop : r.remaining = op :: rest) (hnow : s.lock.now ≤ done)
      (herr : executeOperation h r.ws r.writer s.lock.store readAt r.tx.lockId op r.response
        r.data = .error e) :
      GateStep h wsID s (.operate readAt done)
        { s with lock := { s.lock with now := done }, running := none }
  | commit {s : GateState C V} {r : Running C V} (hrun : s.running = some r)
      (hdone : r.remaining = []) :
      GateStep h wsID s .commit
        { s with
          data := r.data
          running := none
          commits := ⟨r.tx, r.applied, s.lock⟩ :: s.commits
          returned := s.returned.map fun R =>
            if R.lock.lockID = r.tx.lockId then { R with presented := true } else R }
  /-- The commit fails, or the request is cancelled. -/
  | rollback {s : GateState C V} {r} (hrun : s.running = some r) :
      GateStep h wsID s .rollback { s with running := none }
  | read {s : GateState C V} {ws : Workspace} {role typeName layer service rows} (hws : ws.id = wsID)
      (hauth : authorizeLockQuery ws h.appPrefix role [typeName] = .ok (layer, service))
      (hrows : ∀ row ∈ rows, s.data (lockSourceOf service layer) row.1 = some row.2) :
      GateStep h wsID s (.read ws role typeName rows)
        { s with reads := ⟨lockSourceOf service layer,
            h.keys.sourceLockKey service layer typeName, rows⟩ :: s.reads }
  | grant {s : GateState C V} {before after} {rd : PendingRead V}
      {expirySeconds action owner} {env : AcquireEnv} {done}
      (hreads : s.reads = before ++ rd :: after) (hnow : s.lock.now ≤ done)
      (hadm : (LockOp.acquire (rd.request wsID expirySeconds action owner) env).Admissible
        s.lock done)
      (hgate : env.cancelled = false → s.running = none) :
      GateStep h wsID s (.grant rd (rd.request wsID expirySeconds action owner) env done)
        { s with
          lock := (LockOp.acquire (rd.request wsID expirySeconds action owner) env).apply h.keys
            s.lock done
          reads := before ++ after
          returned := rd.answer h.keys s.data (s.lock.store.acquireLockOwned h.keys
            (rd.request wsID expirySeconds action owner) env).1 ++ s.returned }

/-- The requests of a workspace, from the start of the process on. -/
def gateMachine (h : Handler C V) (wsID : Str)
    (maxExpiry maxWorkspace maxPrincipal maxFeatures : Int) :
    Machine (GateState C V) (GateOp C V) where
  init s := (lockMachine h.keys maxExpiry maxWorkspace maxPrincipal maxFeatures).init s.lock ∧
    s.running = none ∧ s.commits = [] ∧ s.reads = [] ∧ s.returned = []
  step := GateStep h wsID

/-! ## Locks that stand against a transaction -/

/-- A lock of the workspace that has not expired, other than the one presented. -/
def Against (wsID lockId : Str) (s : LockState) (lock : FeatureLock) : Prop :=
  s.Unexpired lock ∧ lock.workspaceID = wsID ∧ lock.lockID ≠ lockId

/-- The mutations of a committed transaction have changed no feature under a lock that
stood against it. -/
def Respects (K : LockKeys) (wsID : Str) (c : Commit C V) : Prop :=
  ∀ a ∈ c.applied, a.op.mutates ≠ none → ∀ source fid,
    a.after source fid ≠ a.before source fid →
      ∀ lock, Against wsID c.tx.lockId c.lock lock → ¬ Covers K lock source fid

/-- The mutations of a transaction ask for locks under the name of the table they
change. -/
def NamesAgree (h : Handler C V) (ws : Workspace) (ops : List (Operation C)) : Prop :=
  ∀ op ∈ ops, ∀ typeName, op.mutates = some typeName → LockNameAgrees h ws typeName

/-- The steps that start only such transactions. -/
def AgreedNames (h : Handler C V) (_ : GateState C V) (l : GateOp C V) (_ : GateState C V) :
    Prop :=
  match l with
  | .start ws tx => NamesAgree h ws tx.operations
  | _ => True

/-- What holds of the transaction at the gate. -/
structure Guarded (h : Handler C V) (wsID : Str) (s : GateState C V) (r : Running C V) :
    Prop where
  workspace : r.ws.id = wsID
  names : NamesAgree h r.ws r.remaining
  /-- Its mutations have changed no feature under a lock that stands against it. -/
  mutations : ∀ a ∈ r.applied, a.op.mutates ≠ none → ∀ source fid,
    a.after source fid ≠ a.before source fid →
      ∀ lock, Against wsID r.tx.lockId s.lock lock → ¬ Covers h.keys lock source fid
  /-- Features under such a lock are still as they were. -/
  kept : ∀ lock, Against wsID r.tx.lockId s.lock lock → ∀ source fid,
    Covers h.keys lock source fid → s.data source fid ≠ none →
      r.data source fid = s.data source fid

section Steps

variable {h : Handler C V} {wsID : Str} {s s' : GateState C V} {r : Running C V}

/-- Locks go away and the clock moves. -/
lemma Guarded.shrink (hg : Guarded h wsID s r) (hdata : s'.data = s.data)
    (hagainst : ∀ lock, Against wsID r.tx.lockId s'.lock lock →
      Against wsID r.tx.lockId s.lock lock) : Guarded h wsID s' r := by
  refine ⟨hg.workspace, hg.names, ?_, ?_⟩
  · intro a ha hmut source fid hne lock hlock
    exact hg.mutations a ha hmut source fid hne lock (hagainst lock hlock)
  · intro lock hlock source fid hcov hthere
    rw [hdata] at hthere ⊢
    exact hg.kept lock (hagainst lock hlock) source fid hcov hthere

variable {done : Nat} {lockId : Str} {st : LockState} {lock : FeatureLock}

/-- The clock alone. -/
lemma Against.of_later
    (hnow : st.now ≤ done) (hl : Against wsID lockId { st with now := done } lock) :
    Against wsID lockId st lock :=
  ⟨⟨hl.1.1, unexpired_anti hnow hl.1.2⟩, hl.2⟩

/-- An operation that does not take the gate grants no lock of the workspace. -/
lemma Against.of_apply {op : LockOp} (hnow : st.now ≤ done) (hgate : ¬ TakesGate wsID op)
    (hl : Against wsID lockId (op.apply h.keys st done) lock) : Against wsID lockId st lock := by
  rcases hl with ⟨⟨hmem, hexp⟩, hws, hid⟩
  rw [apply_now] at hexp
  rcases mem_locks_of_apply hmem with hmem | ⟨req, env, locked, rfl, hok⟩
  · exact ⟨⟨hmem, unexpired_anti hnow hexp⟩, hws, hid⟩
  · rcases granted_of_acquireLockOwned hok with ⟨hcancel, rfl, -⟩
    exact absurd ⟨hws, hcancel⟩ hgate

/-- One more action. -/
lemma Guarded.operate {op} {rest} {readAt : Str → Nat} {response} {data : Data V} (hg : Guarded h wsID s r)
    (hop : r.remaining = op :: rest) (hnow : s.lock.now ≤ done)
    (hread : ∀ id, s.lock.now ≤ readAt id ∧ readAt id ≤ done)
    (hok : executeOperation h r.ws r.writer s.lock.store readAt r.tx.lockId op r.response
      r.data = .ok (response, data)) {running} :
    Guarded h wsID { s with lock := { s.lock with now := done }, running := running }
      { r with
        remaining := rest
        response := response
        data := data
        applied := ⟨op, r.data, data⟩ :: r.applied } := by
  -- what the action changed is under no lock that stands against the transaction
  have hchanged : op.mutates ≠ none → ∀ source fid, data source fid ≠ r.data source fid →
      ∀ lock, Against wsID r.tx.lockId { s.lock with now := done } lock →
        ¬ Covers h.keys lock source fid := by
    intro hmut source fid hne lock hlock
    rcases executeOperation_ok hok with ⟨hnone, -⟩ | ⟨m, typeName, doc, layerName, ids, hname, hp⟩
    · exact absurd hnone hmut
    have hagree : LockNameAgrees h r.ws typeName :=
      hg.names op (hop ▸ mem_cons_self) typeName hname
    exact not_covered_of_processMutation hagree hp hne hlock.1.1
      (unexpired_anti (hread lock.lockID).2 hlock.1.2) (hlock.2.1.trans hg.workspace.symm)
      hlock.2.2
  refine ⟨hg.workspace, ?_, ?_, ?_⟩
  · intro o ho
    exact hg.names o (hop ▸ mem_cons_of_mem _ ho)
  · intro a ha hmut source fid hne lock hlock
    rcases mem_cons.mp ha with rfl | ha
    · exact hchanged hmut source fid hne lock hlock
    · exact hg.mutations a ha hmut source fid hne lock (hlock.of_later hnow)
  · intro lock hlock source fid hcov hthere
    have hkept : r.data source fid = s.data source fid :=
      hg.kept lock (hlock.of_later hnow) source fid hcov hthere
    rcases executeOperation_ok hok with ⟨-, hadds⟩ | ⟨m, typeName, doc, layerName, ids, hname, -⟩
    · exact (hadds source fid (hkept ▸ hthere)).trans hkept
    by_contra hne
    have hmut : op.mutates ≠ none := by simp [hname]
    have hdiff : data source fid ≠ r.data source fid := fun heq => hne (heq.trans hkept)
    exact hchanged hmut source fid hdiff lock hlock hcov

/-- The invariant of the machine: the transaction at the gate is guarded, and those that
were committed respect the locks of their time. -/
structure GateInv (h : Handler C V) (wsID : Str) (s : GateState C V) : Prop where
  running : ∀ r, s.running = some r → Guarded h wsID s r
  commits : ∀ c ∈ s.commits, Respects h.keys wsID c

lemma gateInv_step {l} (hinv : GateInv h wsID s) (hstep : GateStep h wsID s l s')
    (hnames : AgreedNames h s l s') : GateInv h wsID s' := by
  cases hstep with
  | @lock op done hnow hadm hgate =>
    refine ⟨?_, hinv.commits⟩
    intro r hr
    have hfree : ¬ TakesGate wsID op := by
      intro htakes
      rw [hgate htakes] at hr
      cases hr
    exact (hinv.running r hr).shrink rfl fun lock hl => hl.of_apply hnow hfree
  | start hws =>
    refine ⟨?_, hinv.commits⟩
    rintro r ⟨⟩
    refine ⟨hws, hnames, ?_, ?_⟩
    · rintro a ⟨⟩
    · intro lock _ source fid _ _
      rfl
  | operate hrun hop hnow hread hok =>
    refine ⟨?_, hinv.commits⟩
    rintro r' ⟨⟩
    exact (hinv.running _ hrun).operate hop hnow hread hok
  | fail | rollback =>
    exact ⟨nofun, hinv.commits⟩
  | commit hrun =>
    refine ⟨nofun, ?_⟩
    exact forall_mem_cons.mpr ⟨(hinv.running _ hrun).mutations, hinv.commits⟩
  | read =>
    exact ⟨fun r hr => (hinv.running r hr).shrink rfl fun _ hl => hl, hinv.commits⟩
  | @grant before after rd expirySeconds action owner env done hreads hnow hadm hgate =>
    refine ⟨?_, hinv.commits⟩
    intro r hr
    have hfree : ¬ TakesGate wsID (.acquire (rd.request wsID expirySeconds action owner) env) := by
      intro htakes
      rw [hgate htakes.2] at hr
      cases hr
    exact (hinv.running r hr).shrink rfl fun lock hl => hl.of_apply hnow hfree

end Steps

/-! ## Runs -/

/-- No committed transaction has changed a feature under a lock that it did not present,
if the names of its mutations stand for the tables they change. -/
theorem respects_of_reachable (h : Handler C V) (wsID : Str)
    (maxExpiry maxWorkspace maxPrincipal maxFeatures : Int) (s : GateState C V)
    (hs : ((gateMachine h wsID maxExpiry maxWorkspace maxPrincipal maxFeatures).restrict
      (AgreedNames h)).Reachable s) : ∀ c ∈ s.commits, Respects h.keys wsID c := by
  have hinv : GateInv h wsID s := by
    refine Machine.Reachable.induct ?_ ?_ hs
    · intro s ⟨_, hrun, hcommits, _, _⟩
      exact ⟨fun r hr => by simp [hrun] at hr, fun c hc => by simp [hcommits] at hc⟩
    · intro s l t _ hinv hstep
      exact gateInv_step hinv hstep.1 hstep.2
  exact hinv.commits

/-! ### Two layers with one local name -/

def citeAutos : Layer where
  sourceLayer := "autos"
  publicID := "cite:Autos"
  enabled := true
  isSQLView := false
  sqlViewReadOnly := false
  isPublic := false
  allowedRoles := []

def plainAutos : Layer :=
  { citeAutos with sourceLayer := "other", publicID := "Autos" }

def autosService (layers : List Layer) : Service where
  id := "s"
  enabled := true
  hasDataSource := true
  lockSource := none
  layers := layers

/-- A workspace that publishes `cite:Autos`. -/
def oneAutos : Workspace := ⟨"w", [autosService [citeAutos]], by decide⟩

/-- A workspace that publishes another layer as `Autos`. -/
def twoAutos : Workspace := ⟨"w", [autosService [citeAutos, plainAutos]], by decide⟩

/-- Sets feature `1` of a table. -/
def setFirst (v : Nat) : Statement Nat where
  run table := .ok (["1"], fun fid => if fid = "1" then some v else table fid)
  frame := by
    intro table ids table' hrun fid hne
    cases hrun
    by_cases hfid : fid = "1"
    · exact mem_singleton.mpr hfid
    · exact absurd (if_neg hfid) hne

/-- Updates set feature `1` to the number in the document. -/
def autosWriter : Writer Nat Nat where
  insert _ _ := .error (.plain [])
  mutate _ _ _ v := .ok (setFirst v)

def autosHandler : Handler Nat Nat where
  keys := plainKeys
  appPrefix := "app"
  atomicWriter _ := some autosWriter

def autosUpdate : Operation Nat := .update [] "cite:Autos" 5

def updateAutos (lockId : Str) : WFSTransaction Nat where
  lockId := lockId
  releaseAction := []
  operations := [autosUpdate]

/-- Before any request. -/
def autosStart : GateState Nat Nat where
  lock := emptyState 7
  data _ _ := some 0
  running := none
  commits := []
  reads := []
  returned := []

/-- A lock on feature `1` of `cite:Autos`. -/
def lockAutos : LockOp :=
  .acquire (lockOne .all (plainKeys.sourceLockKey (autosService []) citeAutos
    "cite:Autos") "1" "ann") (envAt 7 "a")

def autosLocked : GateState Nat Nat :=
  { autosStart with lock := lockAutos.apply plainKeys autosStart.lock 7 }

/-- The data after the update. -/
def autosUpdated : Data Nat :=
  Data.set (fun _ _ => some 0) "s/autos"
    fun fid => if fid = "1" then some 5 else some 0

variable (s : GateState Nat Nat)

/-- The state after its commit. -/
def autosCommitted (lockId : Str) : GateState Nat Nat :=
  { s with
    data := autosUpdated
    running := none
    commits := ⟨updateAutos lockId, [⟨autosUpdate, s.data, autosUpdated⟩], s.lock⟩ :: s.commits
    returned := s.returned.map fun R =>
      if R.lock.lockID = lockId then { R with presented := true } else R }

section Samples

variable {P : GateState Nat Nat → GateOp Nat Nat → GateState Nat Nat → Prop}

lemma autosStart_init : ((gateMachine autosHandler "w" 0 0 0 0).restrict P).init autosStart :=
  ⟨⟨rfl, rfl, rfl, .inr rfl⟩, rfl, rfl, rfl, rfl⟩

lemma autosLocked_step :
    GateStep autosHandler "w" autosStart (.lock lockAutos 7) autosLocked := by
  have hnew : (envAt 7 "a").lockID ∉ (emptyState 7).issued := by simp [emptyState]
  exact .lock (le_refl 7) ⟨envAt_inTime 7 "a", hnew⟩ fun _ => rfl

/-- One more request, if it is allowed. -/
lemma next {s t : GateState Nat Nat} {l : GateOp Nat Nat}
    (hs : ((gateMachine autosHandler "w" 0 0 0 0).restrict P).Reachable s)
    (hstep : GateStep autosHandler "w" s l t) (hP : P s l t) :
    ((gateMachine autosHandler "w" 0 0 0 0).restrict P).Reachable t := hs.step ⟨hstep, hP⟩

end Samples

lemma oneAutos_agrees (lockId : Str) :
    NamesAgree autosHandler oneAutos (updateAutos lockId).operations := by
  intro op hop typeName hname layer service hresolve layer' service' hresolve'
  obtain rfl : op = autosUpdate := mem_singleton.mp hop
  cases hname
  cases hresolve
  cases hresolve'
  rfl

/-- The owner of the lock updates the feature. -/
theorem respects_of_reachable_sample :
    (autosCommitted autosLocked "a").commits ≠ [] ∧
      ∀ c ∈ (autosCommitted autosLocked "a").commits, Respects plainKeys "w" c := by
  have h := next (P := AgreedNames autosHandler) (.init autosStart_init) autosLocked_step trivial
  have h := next h (l := .start oneAutos (updateAutos "a")) (.start rfl rfl rfl rfl)
    (oneAutos_agrees _)
  have h := next h (l := .operate (fun _ => 7) 7)
    (.operate rfl rfl le_rfl (fun _ => ⟨le_rfl, le_rfl⟩) rfl) trivial
  have h := next h (.commit rfl rfl) trivial
  exact ⟨cons_ne_nil _ _, respects_of_reachable autosHandler "w" 0 0 0 0 _ h⟩

/-- With a second layer `Autos`, the locks of that one are asked for: the update of the
locked feature is committed without a lock id. -/
theorem locked_feature_updated :
    (gateMachine autosHandler "w" 0 0 0 0).Reachable (autosCommitted autosLocked []) ∧
      ∃ c ∈ (autosCommitted autosLocked []).commits, ¬ Respects plainKeys "w" c := by
  constructor
  · have h := next (P := fun _ _ _ => True) (.init autosStart_init) autosLocked_step trivial
    have h := next h (l := .start twoAutos (updateAutos [])) (.start rfl rfl rfl rfl) trivial
    have h := next h (l := .operate (fun _ => 7) 7)
      (.operate rfl rfl le_rfl (fun _ => ⟨le_rfl, le_rfl⟩) rfl) trivial
    exact (next h (.commit rfl rfl) trivial).of_restrict
  · refine ⟨_, mem_cons_self, ?_⟩
    intro hrespects
    have hchanged : autosUpdated "s/autos" "1" ≠ autosLocked.data "s/autos" "1" := by decide
    have hcovers : Covers plainKeys
        (autosLocked.lock.store.locks.headD ⟨[], [], [], 0, [], 0⟩) "s/autos"
        "1" := ⟨_, ⟨_, mem_cons_self, mem_cons_self⟩, rfl⟩
    exact hrespects _ mem_cons_self (by simp [autosUpdate, Operation.mutates]) _ _ hchanged _
      ⟨⟨mem_cons_self, rfl⟩, rfl, by decide⟩ hcovers

end NeoServer.Wfs.Transaction
