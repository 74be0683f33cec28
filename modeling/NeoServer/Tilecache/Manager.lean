import Mathlib
import NeoServer.Proc
import NeoServer.Tilecache.Index

/-!
# Tilecache.Manager — the operations of the persistent cache

The manager keeps payloads in a blob store and their metadata in the index. An operation is a
sequence of calls of the two; each call is atomic, and each may fail. `Put`, deletions and
reconciliation hold the mutex of the manager over all their calls. `Get` and `Exists` look a
tile up without it, and take it only to remove an entry whose payload is gone; and a purge
deletes usage without it.

- `World` : the index, the blobs and who holds the mutex,
- `Call`, `Answer`, `Answers` : the calls, and what they do,
- `Get`, `Exists`, `Put`, `Delete`, `DeleteIdentity`, `PurgeLifecycle`, `reconcile`,
  `flushAccess` : the operations, as in the source,
- `Operation.program` : the operation as calls.
-/

namespace NeoServer.Tilecache

/-- A payload. -/
abbrev Content := Str

structure World where
  index : Index
  blobs : List (Str × Content)
  owner : Option Nat

structure Config where
  lower : Lower
  digest : Str → Str
  etag : Content → Str
  objectPrefix : Str
  maxBytes : Int
  maxBytes_pos : 0 < maxBytes

structure Policy where
  workspaceQuotaBytes : Int
  resourceQuotaBytes : Int

/-- How an operation fails. -/
inductive Failure
  | invalid (error : IdentityError)
  | ownershipLost
  | metadata
  | backend
  | quota
  -- the model of a loop was not given enough turns
  | turns
deriving DecidableEq, Repr

inductive Blob
  | content (data : Content)
  | notFound
  | failed
deriving DecidableEq, Repr

/-! ## Calls -/

inductive Call
  | beginMutation
  | lock
  | unlock
  | getReady (key : Str)
  | usage (scope : Scope)
  | lru (type : ScopeType) (workspaceID resourceID excludeKey : Str)
  | markPending (entry : Entry) (previous : Option Entry)
  | markReady (entry : Entry)
  | restore (previous : Option Entry) (pendingKey : Str)
  | remove (entry : Entry)
  | selectEntries (selector : Selector) (limit : Nat)
  | nonReady
  | updateAccess (values : List (Str × Int))
  | purgeLifecycleJobs (workspaceID : Str) (resourceIDs : List Str)
  | purgeLifecycleUsage (workspaceID : Str) (resourceIDs : List Str)
  | blobGet (key : Str)
  | blobPut (key : Str) (content : Content)
  | blobDelete (key : Str)
  | blobDeleteBatch (keys : List Str)

/-- What a call returns; nothing stands for an error. -/
abbrev Answer : Call → Type
  | .beginMutation => Bool
  | .lock => Unit
  | .unlock => Unit
  | .getReady _ => Option (Option Entry)
  | .usage _ => Option Usage
  | .lru _ _ _ _ => Option (Option Entry)
  | .markPending _ _ => Option Unit
  | .markReady _ => Option Unit
  | .restore _ _ => Option Unit
  | .remove _ => Option Unit
  | .selectEntries _ _ => Option (List Entry)
  | .nonReady => Option (List Entry)
  | .updateAccess _ => Option Unit
  | .purgeLifecycleJobs _ _ => Option Unit
  | .purgeLifecycleUsage _ _ => Option Unit
  | .blobGet _ => Blob
  | .blobPut _ _ => Option Unit
  | .blobDelete _ => Option Unit
  | .blobDeleteBatch _ => Option Unit

/-- A call that reads. -/
def Reads {α : Type} (w : World) (value : α) (a : Option α) (w' : World) : Prop :=
  w' = w ∧ (a = none ∨ a = some value)

/-- A call that writes; one that fails may have been carried out or not. -/
def Writes (w after : World) (a : Option Unit) (w' : World) : Prop :=
  w' = after ∨ (w' = w ∧ a = none)

def World.deleteBlobs (w : World) (keys : List Str) : World :=
  { w with blobs := w.blobs.filter fun b => b.1 ∉ keys }

def World.blob (w : World) (key : Str) : Option Content :=
  (Table.get Prod.fst key w.blobs).map Prod.snd

/-- What a call of the operation `i` does. -/
def Answers (i : Nat) (w : World) : (c : Call) → Answer c → World → Prop
  | .beginMutation, _, w' => w' = w
  | .lock, _, w' => w.owner = none ∧ w' = { w with owner := some i }
  | .unlock, _, w' => w' = { w with owner := none }
  | .getReady key, a, w' => Reads w (w.index.getReady key) a w'
  | .usage scope, a, w' => Reads w (w.index.usageOf scope) a w'
  | .lru type workspaceID resourceID excludeKey, a, w' =>
    ∃ e, w.index.IsLru type workspaceID resourceID excludeKey e ∧ Reads w e a w'
  | .markPending entry previous, a, w' =>
    ∃ now, Writes w { w with index := w.index.markPending now entry previous } a w'
  | .markReady entry, a, w' =>
    match w.index.markReady entry with
    | none => w' = w ∧ a = none
    | some index => Writes w { w with index := index } a w'
  | .restore previous pendingKey, a, w' =>
    Writes w { w with index := w.index.restore previous pendingKey } a w'
  | .remove entry, a, w' => Writes w { w with index := w.index.remove entry } a w'
  | .selectEntries selector limit, a, w' => Reads w (w.index.selectEntries selector limit) a w'
  | .nonReady, a, w' => Reads w w.index.nonReady a w'
  | .updateAccess values, a, w' => Writes w { w with index := w.index.updateAccess values } a w'
  | .purgeLifecycleJobs _ _, _, w' => w' = w
  | .purgeLifecycleUsage workspaceID resourceIDs, a, w' =>
    w' = { w with index := w.index.purgeLifecycleUsage workspaceID resourceIDs } ∨
    -- each resource is a statement of its own
    (a = none ∧ (w' = w ∨ ∃ n, 0 < n ∧ n ≤ resourceIDs.length ∧
      w' = { w with index := w.index.purgeLifecycleUsage workspaceID (resourceIDs.take n) }))
  | .blobGet key, a, w' => w' = w ∧
      (a = .failed ∨ (w.blob key = none ∧ a = .notFound) ∨
        ∃ data, w.blob key = some data ∧ a = .content data)
  | .blobPut key content, a, w' =>
    Writes w { w with blobs := Table.put Prod.fst (key, content) w.blobs } a w'
  | .blobDelete key, a, w' => Writes w (w.deleteBlobs [key]) a w'
  | .blobDeleteBatch keys, a, w' =>
    w' = w.deleteBlobs keys ∨ (a = none ∧ ∃ done, done ⊆ keys ∧ w' = w.deleteBlobs done)

/-! ## Operations -/

abbrev Op := ExceptT Failure (Proc Call Answer)

def ask (c : Call) : Proc Call Answer (Answer c) := Proc.perform c

def call (c : Call) : Op (Answer c) := liftM (ask c)

/-- A call whose error ends the operation. -/
def attempt {α : Type} (failure : Failure) (p : Proc Call Answer (Option α)) : Op α := do
  match ← liftM p with
  | some a => return a
  | none => throw failure

/-- The body runs with the mutex, which is released however it ends. -/
def withLock {α : Type} (body : Op α) : Op α := ExceptT.mk do
  ask .lock
  let result ← body.run
  ask .unlock
  return result

def beginMutation : Op Unit := do
  if ← call .beginMutation then return () else throw .ownershipLost

variable (cfg : Config) (identity : Identity)

def validate : Op Unit :=
  match identity.Validate cfg.lower with
  | none => return ()
  | some error => throw (.invalid error)

/-- The payload of an entry is gone: the entry is removed, if the process may write. -/
def removeOrphan (entry : Entry) : Op Unit := do
  if ← call .beginMutation then
    withLock do
      let _ ← call (.remove entry)
      return ()

def Get : Op (Option (Content × Entry)) := do
  validate cfg identity
  match ← attempt .metadata (ask (.getReady identity.CanonicalKey)) with
  | none => return none
  | some entry =>
    match ← call (.blobGet entry.objectKey) with
    | .notFound =>
      removeOrphan entry
      return none
    | .failed => throw .backend
    | .content data => return some (data, entry)

def Exists : Op Bool := do
  validate cfg identity
  match ← attempt .metadata (ask (.getReady identity.CanonicalKey)) with
  | none => return false
  | some entry =>
    match ← call (.blobGet entry.objectKey) with
    | .notFound =>
      removeOrphan entry
      return false
    | .failed => throw .backend
    | .content _ => return true

/-- Entries are evicted until `delta` more bytes fit into the quota of the scope. -/
def evictUntil (type : ScopeType) (scope : Scope) (identity : Identity) (excludeKey : Str)
    (delta quota : Int) : Nat → Op Unit
  | 0 => throw .turns
  | turns + 1 => do
      let usage ← attempt .metadata (ask (.usage scope))
      if usage.1 + delta ≤ quota then return ()
      else
        match ← attempt .metadata (ask
            (.lru type identity.workspaceID identity.resourceID excludeKey)) with
        | none => throw .quota
        | some candidate =>
          attempt .backend (ask (.blobDelete candidate.objectKey))
          attempt .metadata (ask (.remove candidate))
          evictUntil type scope identity excludeKey delta quota turns

/-- A scope, and its quota. -/
structure Check where
  type : ScopeType
  scope : Scope
  quota : Int

def checks (policy : Policy) : List Check :=
  [⟨.resource, resourceScope identity.workspaceID identity.resourceID, policy.resourceQuotaBytes⟩,
   ⟨.workspace, .workspace identity.workspaceID, policy.workspaceQuotaBytes⟩,
   ⟨.global, .global, cfg.maxBytes⟩]

def enforce (identity : Identity) (key : Str) (delta : Int) (turns : Nat) : List Check → Op Unit
  | [] => return ()
  | check :: rest =>
    if check.quota ≤ 0 then enforce identity key delta turns rest
    else do
      evictUntil check.type check.scope identity key delta check.quota turns
      enforce identity key delta turns rest

def oversized (policy : Policy) (size : Int) : Prop :=
  ∃ limit ∈ [policy.resourceQuotaBytes, policy.workspaceQuotaBytes, cfg.maxBytes],
    0 < limit ∧ limit < size

instance (cfg : Config) (policy : Policy) (size : Int) : Decidable (oversized cfg policy size) := by
  unfold oversized
  infer_instance

/-- The entry that `Put` writes. -/
def newEntry (identity : Identity) (content : Content) : Entry where
  identity := identity
  cacheKey := identity.CanonicalKey
  objectKey := identity.ObjectKey cfg.lower cfg.digest cfg.objectPrefix
  sizeBytes := content.length
  etag := cfg.etag content
  createdAt := 0
  lastAccessedAt := 0

/-- The part of `Put` that writes. -/
def store (entry : Entry) (content : Content) (previous : Option Entry) : Op Bool := do
  attempt .metadata (ask (.markPending entry previous))
  match ← call (.blobPut entry.objectKey content) with
  | none =>
    let _ ← call (.restore previous entry.cacheKey)
    throw .backend
  | some () =>
    match ← call (.markReady entry) with
    | none =>
      let _ ← call (.blobDelete entry.objectKey)
      let _ ← call (.remove entry)
      throw .metadata
    | some () => return true

/-- By how much the usage grows. -/
def growth (content : Content) (previous : Option Entry) : Int :=
  content.length - (previous.elim 0 Entry.sizeBytes)

/-- Quotas are enforced if the usage grows. -/
def makeRoom (cfg : Config) (turns : Nat) (identity : Identity) (policy : Policy) (delta : Int) :
    Op Unit :=
  if 0 < delta then
    enforce identity identity.CanonicalKey delta turns (checks cfg identity policy)
  else return ()

def Put (cfg : Config) (turns : Nat) (identity : Identity) (content : Content) (policy : Policy) :
    Op Bool := do
  validate cfg identity
  beginMutation
  if oversized cfg policy content.length then return false
  else withLock do
    let previous ← attempt .metadata (ask (.getReady identity.CanonicalKey))
    makeRoom cfg turns identity policy (growth content previous)
    store (newEntry cfg identity content) content previous

/-- Entries that were selected are removed one by one. -/
def removeAll (failure : Failure) : List Entry → Op Unit
  | [] => return ()
  | entry :: rest => do
      attempt failure (ask (.remove entry))
      removeAll failure rest

def deleteLoop (selector : Selector) : Nat → Op Unit
  | 0 => throw .turns
  | turns + 1 => do
      let entries ← attempt .metadata (ask (.selectEntries selector 500))
      if entries = [] then return ()
      else
        attempt .backend (ask (.blobDeleteBatch (entries.map Entry.objectKey)))
        removeAll .metadata entries
        deleteLoop selector turns

/-- `delete`. -/
def deleteSelected (selector : Selector) (turns : Nat) : Op Unit :=
  withLock (deleteLoop selector turns)

def Delete (selector : Selector) (turns : Nat) : Op Unit := do
  beginMutation
  deleteSelected selector turns

def DeleteIdentity (cfg : Config) (identity : Identity) : Op Unit := do
  validate cfg identity
  beginMutation
  withLock do
    match ← attempt .metadata (ask (.getReady identity.CanonicalKey)) with
    | none => return ()
    | some entry =>
      attempt .backend (ask (.blobDelete entry.objectKey))
      attempt .metadata (ask (.remove entry))

def deleteResources (workspaceID : Str) (turns : Nat) : List Str → Op Unit
  | [] => return ()
  | resourceID :: rest => do
      deleteSelected { workspaceID := workspaceID, resourceID := resourceID } turns
      deleteResources workspaceID turns rest

/-- The entries of a workspace, or of some of its resources. -/
def deleteOwned (workspaceID : Str) (resourceIDs : List Str) (turns : Nat) : Op Unit :=
  if resourceIDs = [] then deleteSelected { workspaceID := workspaceID } turns
  else deleteResources workspaceID turns resourceIDs

def PurgeLifecycle (workspaceID : Str) (resourceIDs : List Str) (turns : Nat) : Op Unit := do
  beginMutation
  deleteOwned workspaceID resourceIDs turns
  attempt .metadata (ask (.purgeLifecycleJobs workspaceID resourceIDs))
  attempt .metadata (ask (.purgeLifecycleUsage workspaceID resourceIDs))

/-- Pending entries are removed, and their payloads as far as possible. -/
def reconcileAll : List Entry → Op Unit
  | [] => return ()
  | entry :: rest => do
      let _ ← call (.blobDelete entry.objectKey)
      attempt .metadata (ask (.remove entry))
      reconcileAll rest

def reconcile : Op Unit := do
  beginMutation
  withLock do
    let entries ← attempt .metadata (ask .nonReady)
    reconcileAll entries

def flushAccess (values : List (Str × Int)) : Op Unit := do
  beginMutation
  let _ ← call (.updateAccess values)
  return ()

/-- The operations; those with loops say how many turns a loop may take. -/
inductive Operation
  | Get (identity : Identity)
  | Exists (identity : Identity)
  | Put (identity : Identity) (content : Content) (policy : Policy) (turns : Nat)
  | Delete (selector : Selector) (turns : Nat)
  | DeleteIdentity (identity : Identity)
  | PurgeLifecycle (workspaceID : Str) (resourceIDs : List Str) (turns : Nat)
  | reconcile
  | flushAccess (values : List (Str × Int))

/-- What is returned does not matter to the others. -/
def Op.forget {α : Type} (op : Op α) : Proc Call Answer Unit := do
  let _ ← op.run
  return ()

def Operation.program (cfg : Config) : Operation → Proc Call Answer Unit
  | .Get identity => (Tilecache.Get cfg identity).forget
  | .Exists identity => (Tilecache.Exists cfg identity).forget
  | .Put identity content policy turns => (Tilecache.Put cfg turns identity content policy).forget
  | .Delete selector turns => (Tilecache.Delete selector turns).forget
  | .DeleteIdentity identity => (Tilecache.DeleteIdentity cfg identity).forget
  | .PurgeLifecycle workspaceID resourceIDs turns =>
    (Tilecache.PurgeLifecycle workspaceID resourceIDs turns).forget
  | .reconcile => Tilecache.reconcile.forget
  | .flushAccess values => (Tilecache.flushAccess values).forget

/-! ## Answers without failures -/

/-- An answer to a call that does not fail. The queries and transactions of a purge and of the
eviction are not needed for it. -/
def respond (i : Nat) (w : World) : (c : Call) → Option (Answer c × World)
  | .beginMutation => some (true, w)
  | .lock => if w.owner = none then some ((), { w with owner := some i }) else none
  | .unlock => some ((), { w with owner := none })
  | .getReady key => some (some (w.index.getReady key), w)
  | .usage scope => some (some (w.index.usageOf scope), w)
  | .markPending entry previous =>
    some (some (), { w with index := w.index.markPending 0 entry previous })
  | .markReady entry => (w.index.markReady entry).map fun index => (some (), { w with index := index })
  | .restore previous pendingKey =>
    some (some (), { w with index := w.index.restore previous pendingKey })
  | .remove entry => some (some (), { w with index := w.index.remove entry })
  | .selectEntries selector limit => some (some (w.index.selectEntries selector limit), w)
  | .nonReady => some (some w.index.nonReady, w)
  | .updateAccess values => some (some (), { w with index := w.index.updateAccess values })
  | .blobGet key =>
    match w.blob key with
    | none => some (.notFound, w)
    | some data => some (.content data, w)
  | .blobPut key content =>
    some (some (), { w with blobs := Table.put Prod.fst (key, content) w.blobs })
  | .blobDelete key => some (some (), w.deleteBlobs [key])
  | .blobDeleteBatch keys => some (some (), w.deleteBlobs keys)
  | .lru _ _ _ _ => none
  | .purgeLifecycleJobs _ _ => none
  | .purgeLifecycleUsage _ _ => none

lemma answers_respond (i : Nat) (w : World) (c : Call) (r : Answer c × World)
    (h : respond i w c = some r) : Answers i w c r.1 r.2 := by
  cases c with
  | lock =>
    simp only [respond] at h
    split at h
    · rename_i hfree
      cases h
      exact ⟨hfree, rfl⟩
    · cases h
  | markReady =>
    rcases Option.map_eq_some_iff.mp h with ⟨idx, hidx, rfl⟩
    simp only [Answers, hidx]
    exact .inl rfl
  | blobGet key =>
    simp only [respond] at h
    cases hblob : w.blob key with
    | none =>
      rw [hblob] at h
      cases h
      exact ⟨rfl, .inr (.inl ⟨hblob, rfl⟩)⟩
    | some data =>
      rw [hblob] at h
      cases h
      exact ⟨rfl, .inr (.inr ⟨data, hblob, rfl⟩)⟩
  | beginMutation | unlock => cases h; rfl
  | getReady | usage | selectEntries | nonReady => cases h; exact ⟨rfl, .inr rfl⟩
  | markPending => cases h; exact ⟨0, .inl rfl⟩
  | restore | remove | updateAccess | blobPut | blobDelete | blobDeleteBatch =>
    cases h; exact .inl rfl
  | lru | purgeLifecycleJobs | purgeLifecycleUsage => cases h

/-- The index of a new cache. -/
def World.empty : World := ⟨⟨[], []⟩, [], none⟩

/-- The operations of a manager, interleaved. -/
def managerMachine (cfg : Config) : Machine (Pool World Call Answer Operation)
    (Pool.Label Call Answer Operation) :=
  Pool.machine (Operation.program cfg) Answers (· = World.empty)

end NeoServer.Tilecache
