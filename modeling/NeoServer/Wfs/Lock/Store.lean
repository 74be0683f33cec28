import Mathlib.Algebra.Order.Ring.Int
import NeoServer.Table
import NeoServer.Wfs.Names

/-!
# Wfs.Lock.Store — feature locks

`LockStore` keeps the locks of a process and writes them through to a table of the
catalog, if it has one. Every operation runs under the mutex of the store; what it
takes from outside is an argument: readings of the clock, the new lock id, and which
calls on the table fail.
-/

namespace NeoServer.Wfs.Lock

/-- One second. Instants are in microseconds, the precision of the table. -/
def second : Nat := 1000000

/-! ## Lock keys -/

structure LockIdentity where
  source : Str
  name : Str
deriving DecidableEq, Repr

/-- The text form of lock keys: SHA-256 in hexadecimal digits, and JSON in base64. -/
structure LockKeys where
  digest : Str → Str
  digest_ne_nil : ∀ s, digest s ≠ []
  encode : LockIdentity → Str
  decode : Str → Option LockIdentity
  decode_encode : ∀ i, decode (encode i) = some i

/-- What two layers share when they are one table: `FeatureLockSource`, or the names
of service and layer. -/
def lockSourceOf (service : Service) (layer : Layer) : Str :=
  match service.lockSource with
  | some source => source layer.sourceLayer
  | none => service.id ++ "/" ++ layer.sourceLayer

namespace LockKeys

variable (K : LockKeys)

def sourceLockKey (service : Service) (layer : Layer) (name : Str) : Str :=
  "@source-v1/" ++ K.encode ⟨K.digest (lockSourceOf service layer), name⟩

def decodeLockKey (key : Str) : Option LockIdentity :=
  match afterPrefix "@source-v1/" key with
  | none => none
  | some raw =>
    match K.decode raw with
    | some identity => if identity.source = [] then none else some identity
    | none => none

def lockDisplayName (key : Str) : Str :=
  match K.decodeLockKey key with
  | some identity => (parseQName identity.name).localPart
  | none => (parseQName key).localPart

/-- Keys without a source are those of older versions; they are held against every
key that has one. -/
def sameLockTypeName (a b : Str) : Bool :=
  match K.decodeLockKey a, K.decodeLockKey b with
  | some left, some right => left.source == right.source
  | none, none => (parseQName a).localPart == (parseQName b).localPart
  | _, _ => true

/-- `fmt.Sprintf("%s.%s", lockDisplayName(typeName), fid)`. -/
def displayID (typeName fid : Str) : Str := K.lockDisplayName typeName ++ "." ++ fid

lemma decodeLockKey_sourceLockKey (service : Service) (layer : Layer) (name : Str) :
    K.decodeLockKey (K.sourceLockKey service layer name) =
      some ⟨K.digest (lockSourceOf service layer), name⟩ := by
  have hpre : afterPrefix "@source-v1/" (K.sourceLockKey service layer name) =
      some (K.encode ⟨K.digest (lockSourceOf service layer), name⟩) := by
    unfold afterPrefix sourceLockKey
    rw [if_pos (List.isPrefixOf_iff_prefix.mpr (List.prefix_append _ _)), List.drop_left]
  simp only [decodeLockKey, hpre, K.decode_encode]
  rw [if_neg (K.digest_ne_nil _)]

lemma sameLockTypeName_comm (a b : Str) : K.sameLockTypeName a b = K.sameLockTypeName b a := by
  unfold sameLockTypeName
  cases K.decodeLockKey a <;> cases K.decodeLockKey b <;> simp [Bool.beq_comm]

end LockKeys

/-! ## The store -/

/-- Feature ids by type name. -/
abbrev Features := List (Str × List Str)

/-- A feature of a list. -/
def Has (features : Features) (typeName fid : Str) : Prop :=
  ∃ ids, (typeName, ids) ∈ features ∧ fid ∈ ids

structure FeatureLock where
  lockID : Str
  workspaceID : Str
  featureIDs : Features
  expiresAt : Nat
  ownerID : Str
  createdAt : Nat
deriving DecidableEq, Repr

def FeatureLock.isExpired (lock : FeatureLock) (now : Nat) : Bool := lock.expiresAt < now

structure LockStore where
  locks : List FeatureLock
  /-- Swept lock ids, with the time of the sweep. -/
  expired : List (Str × Nat)
  maxExpirySec : Nat
  maxPerWorkspace : Nat
  maxPerPrincipal : Nat
  maxFeatures : Nat
  /-- The rows of the table, if locks are persisted. -/
  persist : Option (List FeatureLock)

/-- A configured limit, or its default. -/
def limitOr (configured : Int) (default : Nat) : Nat :=
  if configured ≤ 0 then default else configured.toNat

/-- `NewLockStore`, with the table of `setPersistence`. -/
def newLockStore (maxExpiry maxWorkspace maxPrincipal maxFeatures : Int)
    (persist : Option (List FeatureLock)) : LockStore where
  locks := []
  expired := []
  maxExpirySec := limitOr maxExpiry 3600
  maxPerWorkspace := limitOr maxWorkspace 1000
  maxPerPrincipal := limitOr maxPrincipal 100
  maxFeatures := limitOr maxFeatures 10000
  persist := persist

/-- The outcome of a call on the table. A call that fails may have been applied. -/
inductive Call
  | ok
  | failed (applied : Bool)
deriving DecidableEq, Repr

def Call.applied : Call → Bool
  | .ok => true
  | .failed applied => applied

/-! ### Requests and environments -/

/-- The readings of the clock in a sweep: one at its start, one for each lock. -/
structure Sweep where
  now : Nat
  readAt : Str → Nat

inductive LockAction
  | all | some
deriving DecidableEq, Repr

structure AcquireRequest where
  workspaceID : Str
  features : Features
  expirySeconds : Int
  lockAction : LockAction
  ownerID : Str

/-- What an acquisition takes from outside. -/
structure AcquireEnv where
  /-- The request was cancelled while it waited for the write gate. -/
  cancelled : Bool
  sweep : Sweep
  /-- When the lock with an id was read for a feature of a type. -/
  checkAt : Str → Str → Str → Nat
  grantAt : Nat
  createdAt : Nat
  lockID : Str
  put : Call

inductive AcquireError
  | cancelled
  | featureQuota
  | workspaceQuota
  | principalQuota
  /-- The features that are locked already. -/
  | alreadyLocked (ids : List Str)
  | persist
deriving DecidableEq, Repr

inductive ReleaseError
  | notFound (lockID : Str)
  | otherOwner
deriving DecidableEq, Repr

namespace LockStore

variable (K : LockKeys) (ls : LockStore)

/-- A change of the table. -/
def onTable (call : Call) (change : List FeatureLock → List FeatureLock) : LockStore :=
  { ls with persist := ls.persist.map fun rows => if call.applied then change rows else rows }

/-! ### Sweeps -/

def expiredRetention : Nat := 3600 * second

def cleanExpiredLocked (sweep : Sweep) : LockStore :=
  let swept := ls.locks.filter fun lock => lock.isExpired (sweep.readAt lock.lockID)
  { ls with
    locks := ls.locks.filter fun lock => !lock.isExpired (sweep.readAt lock.lockID)
    expired := (swept.map (fun lock => (lock.lockID, sweep.now)) ++ ls.expired).filter
      fun entry => sweep.now - entry.2 ≤ expiredRetention }

/-! ### Acquisition -/

/-- The feature ids of a lock for the spellings of a type. -/
def lockedFeatureIDs (features : Features) (typeName : Str) : List Str :=
  (features.filter fun entry => K.sameLockTypeName entry.1 typeName).flatMap Prod.snd

/-- `isFeatureLockedLocked`; `readAt` gives the reading of the clock for each lock. -/
def isFeatureLocked (readAt : Str → Nat) (workspaceID typeName fid : Str) : Bool :=
  ls.locks.any fun lock =>
    !lock.isExpired (readAt lock.lockID) && lock.workspaceID == workspaceID &&
      fid ∈ lockedFeatureIDs K lock.featureIDs typeName

/-- The display ids of the features that are locked already. -/
def alreadyLocked (env : AcquireEnv) (workspaceID : Str) (features : Features) : List Str :=
  features.flatMap fun entry =>
    (entry.2.filter fun fid =>
      ls.isFeatureLocked K (env.checkAt entry.1 fid) workspaceID entry.1 fid).map
        (K.displayID entry.1)

/-- The features whose display id is not among those. -/
def withoutLocked (locked : List Str) (features : Features) : Features :=
  if locked = [] then features
  else features.map fun entry =>
    (entry.1, entry.2.filter fun fid => K.displayID entry.1 fid ∉ locked)

def DefaultLockExpiry : Nat := 300

def expirySeconds (requested : Int) : Nat :=
  min (limitOr requested DefaultLockExpiry) ls.maxExpirySec

def totalFeatures (features : Features) : Nat := (features.map fun entry => entry.2.length).sum

variable (req : AcquireRequest) (env : AcquireEnv)

/-- The lock that is granted, if the checks pass. -/
def grantedLock : FeatureLock where
  lockID := env.lockID
  workspaceID := req.workspaceID
  featureIDs := withoutLocked K (ls.alreadyLocked K env req.workspaceID req.features) req.features
  expiresAt := env.grantAt + ls.expirySeconds req.expirySeconds * second
  ownerID := req.ownerID
  createdAt := env.createdAt

/-- `PutWFSLock`. -/
def putRow (lock : FeatureLock) (rows : List FeatureLock) : List FeatureLock :=
  Table.put FeatureLock.lockID lock rows

/-- The checks of an acquisition and the grant, after expired locks were swept. -/
def acquireSwept :
    Except AcquireError (FeatureLock × List Str) × LockStore :=
  let inWorkspace := ls.locks.filter fun lock => lock.workspaceID == req.workspaceID
  let ofPrincipal := inWorkspace.filter fun lock => lock.ownerID == req.ownerID
  let locked := ls.alreadyLocked K env req.workspaceID req.features
  if ls.maxFeatures < totalFeatures req.features then (.error .featureQuota, ls)
  else if ls.maxPerWorkspace ≤ inWorkspace.length then (.error .workspaceQuota, ls)
  else if ls.maxPerPrincipal ≤ ofPrincipal.length then (.error .principalQuota, ls)
  else if req.lockAction = .all ∧ locked ≠ [] then (.error (.alreadyLocked locked), ls)
  else
    let lock := ls.grantedLock K req env
    let stored := ls.onTable env.put (putRow lock)
    match ls.persist, env.put with
    -- the entry in memory is taken back
    | some _, .failed _ => (.error .persist, stored)
    | _, _ => (.ok (lock, locked), { stored with locks := lock :: ls.locks })

/-- `AcquireLockOwnedContext`. -/
def acquireLockOwned :
    Except AcquireError (FeatureLock × List Str) × LockStore :=
  if env.cancelled then (.error .cancelled, ls)
  else (ls.cleanExpiredLocked env.sweep).acquireSwept K req env

/-- A request stays within the limits of the store. -/
structure Room (req : AcquireRequest) : Prop where
  features : totalFeatures req.features ≤ ls.maxFeatures
  workspace : (ls.locks.filter fun lock => lock.workspaceID == req.workspaceID).length <
    ls.maxPerWorkspace
  principal : ((ls.locks.filter fun lock => lock.workspaceID == req.workspaceID).filter
    fun lock => lock.ownerID == req.ownerID).length < ls.maxPerPrincipal

/-- What an acquisition can do: a refused one sweeps, and writes only with a call that failed
and was applied. -/
inductive Acquisition (req : AcquireRequest) (env : AcquireEnv) :
    Except AcquireError (FeatureLock × List Str) × LockStore → Prop
  | cancelled : Acquisition req env (.error .cancelled, ls)
  | refused {e rows} (hcancel : env.cancelled = false)
      (hrows : env.put ≠ .failed true → rows = ls.persist) :
    Acquisition req env (.error e, { ls.cleanExpiredLocked env.sweep with persist := rows })
  | granted {swept} (hswept : swept = ls.cleanExpiredLocked env.sweep)
      (hcancel : env.cancelled = false) (hroom : swept.Room req)
      (hall : req.lockAction = .all →
        swept.alreadyLocked K env req.workspaceID req.features = []) :
    Acquisition req env
      (.ok (swept.grantedLock K req env,
        swept.alreadyLocked K env req.workspaceID req.features),
      { swept with
        persist := ls.persist.map (putRow (swept.grantedLock K req env))
        locks := swept.grantedLock K req env :: swept.locks })

lemma acquisition :
    Acquisition K ls req env (ls.acquireLockOwned K req env) := by
  unfold acquireLockOwned
  split
  · exact .cancelled
  rename_i hcancel
  rw [Bool.not_eq_true] at hcancel
  unfold acquireSwept
  dsimp only
  split
  · exact .refused hcancel fun _ => rfl
  split
  · exact .refused hcancel fun _ => rfl
  split
  · exact .refused hcancel fun _ => rfl
  split
  · exact .refused hcancel fun _ => rfl
  rename_i hfeatures hworkspace hprincipal hlocked
  split
  · rename_i rows b hrows hput
    refine .refused hcancel fun hne => ?_
    cases b with
    | true => exact absurd hput hne
    | false => simp [hput, Call.applied, cleanExpiredLocked]
  · rename_i hgrant
    have hrows : ∀ lock, ((ls.cleanExpiredLocked env.sweep).onTable env.put (putRow lock)).persist =
        ls.persist.map (putRow lock) := by
      intro lock
      unfold onTable
      cases hput : env.put with
      | ok => rfl
      | failed b =>
        cases hpersist : ls.persist with
        | none => simp [cleanExpiredLocked, hpersist]
        | some rows => exact (hgrant rows b hpersist hput).elim
    rw [hrows]
    refine .granted rfl hcancel ⟨by omega, by omega, by omega⟩ ?_
    intro hall
    by_contra hne
    exact hlocked ⟨hall, hne⟩

/-! ### Release and clearing -/

def getLock (lockID : Str) : Option FeatureLock := ls.locks.find? fun lock => lock.lockID == lockID

/-- The store without a lock, in memory and in the table; a failed delete is only
logged. -/
def deleteLock (lockID : Str) (delete : Call) : LockStore :=
  { ls.onTable delete (Table.delete FeatureLock.lockID lockID) with
    locks := Table.delete FeatureLock.lockID lockID ls.locks }

def releaseLockOwned (lockID ownerID : Str) (delete : Call) :
    Except ReleaseError Unit × LockStore :=
  match ls.getLock lockID with
  | none => (.error (.notFound lockID), ls)
  | some lock =>
    if lock.ownerID ≠ [] ∧ lock.ownerID ≠ ownerID then (.error .otherOwner, ls)
    else (.ok (), ls.deleteLock lockID delete)

/-- What a release can do. -/
lemma releaseLockOwned_cases (lockID ownerID : Str) (delete : Call) :
    (∃ e, ls.releaseLockOwned lockID ownerID delete = (.error e, ls)) ∨
    (∃ lock, ls.getLock lockID = some lock ∧ (lock.ownerID = [] ∨ lock.ownerID = ownerID) ∧
      ls.releaseLockOwned lockID ownerID delete = (.ok (), ls.deleteLock lockID delete)) := by
  unfold releaseLockOwned
  split
  · exact .inl ⟨_, rfl⟩
  rename_i lock hget
  split
  · exact .inl ⟨_, rfl⟩
  rename_i howner
  refine .inr ⟨lock, hget, ?_, rfl⟩
  by_contra hne
  exact howner (not_or.mp hne)

lemma mem_of_getLock {lockID : Str} {lock} (h : ls.getLock lockID = some lock) :
    lock ∈ ls.locks ∧ lock.lockID = lockID :=
  ⟨List.mem_of_find?_eq_some h, by simpa using List.find?_some h⟩

/-- `DeleteExpiredWFSLocks`, which the cleanup ticker calls after a sweep. -/
def deleteExpiredRows (now : Nat) (call : Call) : LockStore :=
  ls.onTable call (·.filter fun row => now < row.expiresAt)

/-- `LockStore.ClearWorkspace`. -/
def clearWorkspace (workspaceID : Str) : LockStore :=
  { ls with locks := ls.locks.filter fun lock => lock.workspaceID ≠ workspaceID }

/-- `DeleteWorkspaceWFSLocks`, which follows it. -/
def deleteWorkspaceRows (workspaceID : Str) (call : Call) : LockStore :=
  ls.onTable call (·.filter fun row => row.workspaceID ≠ workspaceID)

/-! ### Restarts -/

/-- `ListWFSLocks`. -/
def listWFSLocks (rows : List FeatureLock) (now : Nat) : List FeatureLock :=
  rows.filter fun row => now < row.expiresAt

/-- `restore`: the locks of a previous process, without those that have expired. -/
def restore (records : List FeatureLock) (now : Nat) : LockStore :=
  let valid := records.filter fun rec => now < rec.expiresAt
  { ls with
    locks := valid.foldl (fun locks rec => Table.put FeatureLock.lockID rec locks) ls.locks }

end LockStore

end NeoServer.Wfs.Lock
