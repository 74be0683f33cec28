import NeoServer.Wfs.Access
import NeoServer.Wfs.Lock.Store

/-!
# Wfs.Transaction.Execute — the actions of a transaction

A transaction document is a list of actions that run in document order inside one
atomic write of a source. A mutation (`Update`, `Delete`, `Replace`) first runs its
statement, which returns the ids it affected, and then asks the lock store for these
ids; an error rolls the write back.

The tables of the sources are given by their contents (`Data`), and a statement by what
it does to the table it runs on. What happens before a statement runs (layer
information, filter, values) is `Writer.insert` and `Writer.mutate`.
-/

namespace NeoServer.Wfs.Transaction

open Lock

/-! ## Sources -/

/-- The contents of all tables, by what identifies a table for locks (`lockSourceOf`)
and by feature id. -/
abbrev Data (V : Type) := Str → Str → Option V

/-- A statement on a table. It returns the ids of the features it affects. -/
structure Statement (V : Type) where
  run : (Str → Option V) → Except Str (List Str × (Str → Option V))
  frame : ∀ {table ids table'}, run table = .ok (ids, table') →
    ∀ fid, table' fid ≠ table fid → fid ∈ ids

/-- An insert leaves the features that are there. -/
structure InsertStatement (V : Type) extends Statement V where
  adds : ∀ {table ids table'}, run table = .ok (ids, table') →
    ∀ fid, table fid ≠ none → table' fid = table fid

inductive Mutation
  | update | delete | replace
deriving DecidableEq, Repr

/-- A source with atomic writes, for documents of type `C`. -/
structure Writer (C V : Type) where
  insert : Layer → C → Except RequestError (InsertStatement V)
  mutate : Mutation → Layer → Str → C → Except RequestError (Statement V)

/-- What a handler is configured with. -/
structure Handler (C V : Type) where
  keys : LockKeys
  appPrefix : Str
  /-- The writer of a service whose source supports atomic writes. -/
  atomicWriter : Service → Option (Writer C V)

/-! ## Documents -/

/-- An action, with the part of the document that the source reads. -/
inductive Operation (C : Type)
  /-- The local names and contents of the features. -/
  | insert (handle : Str) (features : List (Str × C))
  | update (handle typeName : Str) (doc : C)
  | delete (typeName : Str) (doc : C)
  /-- The local name of the replacement feature, if there is one. -/
  | replace (handle : Str) (feature : Except Str Str) (doc : C)

structure WFSTransaction (C : Type) where
  lockId : Str
  releaseAction : Str
  operations : List (Operation C)

inductive VersionAction
  | insert | update | delete
deriving DecidableEq, Repr

structure VersionEvent where
  action : VersionAction
  layerName : Str
  featureID : Str
deriving DecidableEq, Repr

/-- The features of an action in a response: its handle and their resource ids. -/
structure FeatureResult where
  handle : Str
  resourceIds : List Str
deriving DecidableEq, Repr

structure TransactionResponse where
  totalInserted : Nat := 0
  totalUpdated : Nat := 0
  totalReplaced : Nat := 0
  totalDeleted : Nat := 0
  insertResults : List FeatureResult := []
  updateResults : List FeatureResult := []
  replaceResults : List FeatureResult := []
  versionEvents : List VersionEvent := []
deriving DecidableEq, Repr

/-! ## The lock check -/

section Check

variable (K : LockKeys) (ls : LockStore)

/-- The feature for which a lock stands against a mutation: of the last type that has
one, the first. -/
def heldFeature (lock : FeatureLock) (typeName : Str) (affected : List Str) : Option Str :=
  ((lock.featureIDs.filter fun entry => K.sameLockTypeName entry.1 typeName).filterMap
    fun entry => entry.2.find? fun fid => fid ∈ affected).getLast?

/-- `CheckFeatureLocks`; `readAt` gives the reading of the clock for each lock. -/
def checkFeatureLocks (readAt : Str → Nat) (workspaceID typeName : Str) (featureIDs : List Str)
    (providedLockId : Str) : Except RequestError Unit :=
  let holding := ls.locks.findSome? fun lock =>
    if lock.isExpired (readAt lock.lockID) = true ∨ lock.workspaceID ≠ workspaceID ∨
        lock.lockID = providedLockId then none
    else heldFeature K lock typeName featureIDs
  match holding with
  | none => .ok ()
  | some fid =>
    let feature := "Feature " ++ typeName ++ "." ++ fid
    -- the provided lock was passed over, so it is not the one that holds the feature
    if providedLockId = [] then
      .error (.request .missingParameterValue "lockId" (feature ++
        " is locked. A lockId must be provided to modify locked features."))
    else
      .error (.request .invalidParameterValue "lockId" (feature ++
        " is locked by a different lock. Provided lockId does not match."))

variable {lock : FeatureLock} {typeName t fid : Str}

lemma heldFeature_eq_none {affected} (h : heldFeature K lock typeName affected = none)
    (hfid : Has lock.featureIDs t fid) (hsame : K.sameLockTypeName t typeName = true) :
    fid ∉ affected := by
  rcases hfid with ⟨ids, hentry, hmem⟩
  unfold heldFeature at h
  rw [List.getLast?_eq_none_iff, List.filterMap_eq_nil_iff] at h
  have hnone := h (t, ids) (List.mem_filter.mpr ⟨hentry, hsame⟩)
  rw [List.find?_eq_none] at hnone
  simpa using hnone fid hmem

/-- A check that passes has found none of the features under another lock. -/
lemma not_held_of_checkFeatureLocks {readAt : Str → Nat} {workspaceID : Str}
    {featureIDs} {providedLockId : Str}
    (h : checkFeatureLocks K ls readAt workspaceID typeName featureIDs providedLockId = .ok ()) (hlock : lock ∈ ls.locks)
    (hexp : lock.isExpired (readAt lock.lockID) = false) (hws : lock.workspaceID = workspaceID)
    (hid : lock.lockID ≠ providedLockId) (hfid : Has lock.featureIDs t fid)
    (hsame : K.sameLockTypeName t typeName = true) : fid ∉ featureIDs := by
  unfold checkFeatureLocks at h
  dsimp only at h
  split at h
  · rename_i hnone
    rw [List.findSome?_eq_none_iff] at hnone
    have hlock' := hnone lock hlock
    rw [if_neg (by simp [hexp, hws, hid])] at hlock'
    exact heldFeature_eq_none K hlock' hfid hsame
  · split at h <;> cases h

end Check

/-! ## Actions -/

section Process

variable {C V : Type} (h : Handler C V) (ws : Workspace)

/-- The local part of the name under which a layer is advertised. -/
def layerNameOf (layer : Layer) : Str :=
  (parseQName (publishedFeatureTypeName layer.publicID h.appPrefix)).localPart

def checkMutationLocks (ls : LockStore) (readAt : Str → Nat) (layerName lockID : Str)
    (ids : List Str) : Except RequestError Unit :=
  match resolveFeatureLayer ws h.appPrefix layerName with
  | none => .error (.plain "cannot resolve mutation lock identity")
  | some (publication, service) =>
    checkFeatureLocks h.keys ls readAt ws.id (h.keys.sourceLockKey service publication layerName)
      ids lockID

/-- The locator of the errors of an action, which is also its name in their texts. -/
def Mutation.locator : Mutation → Str
  | .update => "Update"
  | .delete => "Delete"
  | .replace => "Replace"

/-- The word for an action in the error of a layer that does not support it. -/
def Mutation.word : Mutation → Str
  | .update => "update"
  | .delete => "delete"
  | .replace => "replace"

/-- The tables after a change of one of them. -/
def Data.set (data : Data V) (source : Str) (table : Str → Option V) : Data V :=
  fun s => if s = source then table else data s

variable (writer : Option (Writer C V)) (ls : LockStore) (readAt : Str → Nat)

/-- What the mutations have in common: the layer, the statement, the locks. The service
of the layer is the one whose writer runs, `transactionService` has checked that. -/
def processMutation (lockId : Str) (m : Mutation) (typeName : Str) (doc : C) (data : Data V) :
    Except RequestError (Str × List Str × Data V) :=
  match resolveFeatureLayer ws h.appPrefix typeName with
  | none =>
    .error (.request .invalidParameterValue m.locator
      ("Unknown feature type: " ++ typeName))
  | some (layer, service) =>
    let layerName := layerNameOf h layer
    match writer with
    | none =>
      .error (.request .operationNotSupported m.locator ("Layer " ++ layerName ++
        " does not support " ++ m.word ++ " operations"))
    | some w =>
      match w.mutate m layer layerName doc with
      | .error e => .error e
      | .ok statement =>
        match statement.run (data (lockSourceOf service layer)) with
        | .error e =>
          .error (.request .noApplicableCode m.locator
            (m.locator ++ " failed: " ++ e))
        | .ok (ids, table) =>
          match checkMutationLocks h ws ls readAt layerName lockId ids with
          | .error e => .error e
          | .ok () => .ok (layerName, ids, data.set (lockSourceOf service layer) table)

def processUpdate (lockId typeName : Str) (doc : C) (data : Data V) :
    Except RequestError (Str × List Str × Data V) :=
  processMutation h ws writer ls readAt lockId .update typeName doc data

def processDelete (lockId typeName : Str) (doc : C) (data : Data V) :
    Except RequestError (Str × List Str × Data V) :=
  processMutation h ws writer ls readAt lockId .delete typeName doc data

def processReplace (lockId : Str) (feature : Except Str Str) (doc : C) (data : Data V) :
    Except RequestError (Str × List Str × Data V) :=
  match feature with
  | .error e =>
    .error (.request .operationParsingFailed "Replace"
      ("Failed to parse replacement feature: " ++ e))
  | .ok localName => processMutation h ws writer ls readAt lockId .replace localName doc data

/-- One feature of an `Insert`. -/
def insertFeature (localName : Str) (doc : C) (data : Data V) :
    Except RequestError (Str × List Str × Data V) :=
  match resolveFeatureLayer ws h.appPrefix localName with
  | none =>
    .error (.request .invalidValue "Insert"
      ("Unknown feature type: " ++ localName))
  | some (layer, service) =>
    let layerName := layerNameOf h layer
    match writer with
    | none =>
      .error (.request .operationNotSupported "Insert"
        ("Layer " ++ layerName ++ " does not support insert operations"))
    | some w =>
      match w.insert layer doc with
      | .error e => .error e
      | .ok statement =>
        match statement.run (data (lockSourceOf service layer)) with
        | .error e =>
          .error (.request .noApplicableCode "Insert"
            ("Insert failed: " ++ e))
        | .ok (ids, table) =>
          .ok (layerName, ids, data.set (lockSourceOf service layer) table)

/-- The resource ids of an `Insert`, its version events, and the data after it. -/
def processInsert (writer : Option (Writer C V)) :
    List (Str × C) → Data V → Except RequestError (List Str × List VersionEvent × Data V)
  | [], data => .ok ([], [], data)
  | (localName, doc) :: rest, data =>
    match insertFeature h ws writer localName doc data with
    | .error e => .error e
    | .ok (layerName, ids, data') =>
      match processInsert writer rest data' with
      | .error e => .error e
      | .ok (results, events, data'') =>
        .ok (ids.map (fun id => layerName ++ "." ++ id) ++ results,
          ids.map (fun id => ⟨.insert, layerName, id⟩) ++ events, data'')

/-- The results of an action in a response, if it affected features. -/
def resultsOf (handle : Str) (resourceIds : List Str) : List FeatureResult :=
  if resourceIds = [] then [] else [⟨handle, resourceIds⟩]

/-- One round of the loop of `executeTransactionWithWriter`. -/
def executeOperation (writer : Option (Writer C V)) (ls : LockStore) (readAt : Str → Nat)
    (lockId : Str) (op : Operation C) (response : TransactionResponse) (data : Data V) :
    Except RequestError (TransactionResponse × Data V) :=
  match op with
  | .insert handle features =>
    match processInsert h ws writer features data with
    | .error e => .error e
    | .ok (rids, events, data') =>
      .ok ({ response with
        totalInserted := response.totalInserted + rids.length
        insertResults := response.insertResults ++ resultsOf handle rids
        versionEvents := response.versionEvents ++ events }, data')
  | .update handle typeName doc =>
    match processUpdate h ws writer ls readAt lockId typeName doc data with
    | .error e => .error e
    | .ok (layerName, ids, data') =>
      let rids := ids.map fun id => layerName ++ "." ++ id
      .ok ({ response with
        totalUpdated := response.totalUpdated + ids.length
        updateResults := response.updateResults ++ resultsOf handle rids
        versionEvents := response.versionEvents ++
          ids.map fun id => ⟨.update, layerName, id⟩ }, data')
  | .delete typeName doc =>
    match processDelete h ws writer ls readAt lockId typeName doc data with
    | .error e => .error e
    | .ok (layerName, ids, data') =>
      .ok ({ response with
        totalDeleted := response.totalDeleted + ids.length
        versionEvents := response.versionEvents ++
          ids.map fun id => ⟨.delete, layerName, id⟩ }, data')
  | .replace handle feature doc =>
    match processReplace h ws writer ls readAt lockId feature doc data with
    | .error e => .error e
    | .ok (layerName, ids, data') =>
      let rids := ids.map fun id => layerName ++ "." ++ id
      .ok ({ response with
        totalReplaced := response.totalReplaced + ids.length
        replaceResults := response.replaceResults ++ resultsOf handle rids
        -- a replacement supersedes the previous version, like an update
        versionEvents := response.versionEvents ++
          ids.map fun id => ⟨.update, layerName, id⟩ }, data')

/-! ### The service of a transaction -/

/-- A type name of the document and the code for a name that is unknown; the name of a
replacement feature may be missing. -/
abbrev NameCheck := Except Str Str × ExceptionCode

/-- The type names in the order of the checks: by kind of action, not by position. -/
def nameChecks (ops : List (Operation C)) : List NameCheck :=
  let inserts := ops.flatMap fun
    | .insert _ features => features.map fun f => (.ok f.1, ExceptionCode.invalidValue)
    | _ => []
  let updates := ops.filterMap fun
    | .update _ typeName _ => some (.ok typeName, ExceptionCode.invalidParameterValue)
    | _ => none
  let deletes := ops.filterMap fun
    | .delete typeName _ => some (.ok typeName, ExceptionCode.invalidParameterValue)
    | _ => none
  let replaces := ops.filterMap fun
    | .replace _ feature _ => some (feature, ExceptionCode.invalidParameterValue)
    | _ => none
  inserts ++ updates ++ deletes ++ replaces

/-- The closure `check` of `transactionService`. -/
def checkService (selected : Option Service) (c : NameCheck) :
    Except RequestError (Option Service) :=
  match c.1 with
  | .error e => .error (.plain e)
  | .ok layerName =>
    match resolveFeatureLayer ws h.appPrefix layerName with
    | none =>
      .error (.request c.2 "Transaction"
        ("Unknown feature type: " ++ layerName))
    | some (layer, service) =>
      let other := match selected with
        | some s => s.id != service.id
        | none => false
      if layer.readOnly then
        .error (.request .operationNotSupported "Transaction"
          "SQL view publications are read-only")
      else if other then
        .error (.request .operationNotSupported "Transaction"
          "a transaction may reference only one service")
      else .ok (some service)

def checkServices (selected : Option Service) : List NameCheck →
    Except RequestError (Option Service)
  | [] => .ok selected
  | c :: rest =>
    match checkService h ws selected c with
    | .error e => .error e
    | .ok selected => checkServices selected rest

def transactionService (tx : WFSTransaction C) : Except RequestError (Option Service) :=
  checkServices h ws none (nameChecks tx.operations)

/-! ### The whole transaction -/

/-- The lock store when an action asks for its locks. -/
structure CheckEnv where
  store : LockStore
  readAt : Str → Nat

/-- The loop of `executeTransactionWithWriter` from the `n`-th action on. -/
def executeOperations (writer : Option (Writer C V)) (checks : Nat → CheckEnv) (lockId : Str) :
    Nat → List (Operation C) → TransactionResponse → Data V →
      Except RequestError (TransactionResponse × Data V)
  | _, [], response, data => .ok (response, data)
  | n, op :: rest, response, data =>
    match executeOperation h ws writer (checks n).store (checks n).readAt lockId op response
        data with
    | .error e => .error e
    | .ok (response', data') =>
      executeOperations writer checks lockId (n + 1) rest response' data'

def executeTransactionWithWriter (writer : Option (Writer C V)) (checks : Nat → CheckEnv)
    (tx : WFSTransaction C) (data : Data V) : Except RequestError (TransactionResponse × Data V) :=
  executeOperations h ws writer checks tx.lockId 0 tx.operations {} data

end Process

/-! ## What an action can do -/

section Effects

variable {C V : Type} {h : Handler C V} {ws : Workspace}

/-- The type name that a mutation names. -/
def Operation.mutates : Operation C → Option Str
  | .insert _ _ => none
  | .update _ typeName _ => some typeName
  | .delete typeName _ => some typeName
  | .replace _ (.ok localName) _ => some localName
  | .replace _ (.error _) _ => none

/-- A key of a lock stands for a table; a key of an older version for every table. -/
def KeyCovers (K : LockKeys) (key source : Str) : Prop :=
  match K.decodeLockKey key with
  | some identity => identity.source = K.digest source
  | none => True

/-- A lock covers a feature of a table. -/
def Covers (K : LockKeys) (lock : FeatureLock) (source fid : Str) : Prop :=
  ∃ key, Has lock.featureIDs key fid ∧ KeyCovers K key source

/-- The name under which the locks of a mutation are asked for stands for the table that
was changed. -/
def LockNameAgrees (h : Handler C V) (ws : Workspace) (typeName : Str) : Prop :=
  ∀ layer service, resolveFeatureLayer ws h.appPrefix typeName = some (layer, service) →
    ∀ layer' service',
      resolveFeatureLayer ws h.appPrefix (layerNameOf h layer) = some (layer', service') →
      lockSourceOf service' layer' = lockSourceOf service layer

lemma sameLockTypeName_of_keyCovers {K} {key : Str} {service : Service}
    {layer : Layer} {name : Str} (hkey : KeyCovers K key (lockSourceOf service layer)) :
    K.sameLockTypeName key (K.sourceLockKey service layer name) = true := by
  unfold KeyCovers at hkey
  unfold LockKeys.sameLockTypeName
  rw [K.decodeLockKey_sourceLockKey]
  cases hdec : K.decodeLockKey key with
  | none => rfl
  | some =>
    rw [hdec] at hkey
    simpa using hkey

variable {writer : Option (Writer C V)} {ls : LockStore} {readAt : Str → Nat} {lockId : Str}

variable {doc : C} {r : Str × List Str × Data V} {source fid : Str}

variable {m : Mutation} {typeName : Str}

/-- What a mutation that succeeds has done. -/
lemma processMutation_ok {data : Data V}
    (hok : processMutation h ws writer ls readAt lockId m typeName doc data = .ok r) :
    ∃ layer service table, ∃ statement : Statement V,
      resolveFeatureLayer ws h.appPrefix typeName = some (layer, service) ∧
      statement.run (data (lockSourceOf service layer)) = .ok (r.2.1, table) ∧
      checkMutationLocks h ws ls readAt (layerNameOf h layer) lockId r.2.1 = .ok () ∧
      r.2.2 = data.set (lockSourceOf service layer) table := by
  unfold processMutation at hok
  split at hok
  · cases hok
  rename_i layer service hresolve
  dsimp only at hok
  split at hok
  · cases hok
  split at hok
  · cases hok
  rename_i statement _
  split at hok
  · cases hok
  rename_i ids table hrun
  split at hok
  · cases hok
  rename_i hcheck
  cases hok
  exact ⟨layer, service, table, statement, hresolve, hrun, hcheck, rfl⟩

lemma Data.set_ne {data : Data V} {source s fid : Str} {table : Str → Option V}
    (hne : data.set source table s fid ≠ data s fid) :
    s = source ∧ table fid ≠ data source fid := by
  unfold Data.set at hne
  split at hne
  · rename_i hs
    subst hs
    exact ⟨rfl, hne⟩
  · exact absurd rfl hne

/-- A feature that a mutation changes is under no other lock. -/
lemma not_covered_of_processMutation {data : Data V} (hagree : LockNameAgrees h ws typeName)
    (hok : processMutation h ws writer ls readAt lockId m typeName doc data = .ok r) (hchanged : r.2.2 source fid ≠ data source fid)
    {lock} (hlock : lock ∈ ls.locks)
    (hexp : lock.isExpired (readAt lock.lockID) = false) (hws : lock.workspaceID = ws.id)
    (hid : lock.lockID ≠ lockId) : ¬ Covers h.keys lock source fid := by
  rcases processMutation_ok hok with
    ⟨layer, service, table, statement, hresolve, hrun, hcheck, hdata⟩
  rw [hdata] at hchanged
  rcases Data.set_ne hchanged with ⟨rfl, hne⟩
  have hmem : fid ∈ r.2.1 := statement.frame hrun fid hne
  rintro ⟨key, hhas, hkey⟩
  unfold checkMutationLocks at hcheck
  split at hcheck
  · cases hcheck
  rename_i layer' service' hresolve'
  rw [← hagree layer service hresolve layer' service' hresolve'] at hkey
  exact not_held_of_checkFeatureLocks h.keys ls hcheck hlock hexp hws hid hhas
    (sameLockTypeName_of_keyCovers hkey) hmem

/-- An insert leaves the features that are there. -/
lemma insertFeature_adds {localName : Str} {data : Data V} (hok : insertFeature h ws writer localName doc data = .ok r) (hthere : data source fid ≠ none) :
    r.2.2 source fid = data source fid := by
  unfold insertFeature at hok
  split at hok
  · cases hok
  rename_i layer service _
  split at hok
  · cases hok
  split at hok
  · cases hok
  rename_i statement _
  split at hok
  · cases hok
  rename_i ids table hrun
  cases hok
  by_contra hne
  rcases Data.set_ne hne with ⟨rfl, htable⟩
  exact htable (statement.adds hrun fid hthere)

lemma processInsert_adds {features} {data : Data V} {r}
    (hok : processInsert h ws writer features data = .ok r) (hthere : data source fid ≠ none) :
    r.2.2 source fid = data source fid := by
  induction features generalizing data r with
  | nil =>
    cases hok
    rfl
  | cons f rest ih =>
    unfold processInsert at hok
    split at hok
    · cases hok
    rename_i layerName ids data' hfirst
    split at hok
    · cases hok
    rename_i results events data'' hrest
    cases hok
    have hkept : data' source fid = data source fid := insertFeature_adds hfirst hthere
    have hlater : data'' source fid = data' source fid := ih hrest (hkept ▸ hthere)
    exact hlater.trans hkept

variable {op : Operation C} {response response' : TransactionResponse} {data data' : Data V}

/-- An action is an insert, or a mutation of the type it names. -/
lemma executeOperation_ok
    (hok : executeOperation h ws writer ls readAt lockId op response data = .ok (response', data')) :
    (op.mutates = none ∧ ∀ source fid, data source fid ≠ none →
      data' source fid = data source fid) ∨
    ∃ m typeName doc layerName ids, op.mutates = some typeName ∧
      processMutation h ws writer ls readAt lockId m typeName doc data =
        .ok (layerName, ids, data') := by
  cases op with
  | insert handle features =>
    simp only [executeOperation] at hok
    split at hok
    · cases hok
    rename_i rids events d hinsert
    cases hok
    exact .inl ⟨rfl, fun source fid hthere => processInsert_adds hinsert hthere⟩
  | update _ typeName doc | delete typeName doc =>
    simp only [executeOperation, processUpdate, processDelete] at hok
    split at hok
    · cases hok
    rename_i layerName ids d hmutate
    cases hok
    exact .inr ⟨_, typeName, doc, layerName, ids, rfl, hmutate⟩
  | replace handle feature doc =>
    cases feature with
    | error => simp [executeOperation, processReplace] at hok
    | ok localName =>
      simp only [executeOperation, processReplace] at hok
      split at hok
      · cases hok
      rename_i layerName ids d hmutate
      cases hok
      exact .inr ⟨_, localName, doc, layerName, ids, rfl, hmutate⟩

end Effects

end NeoServer.Wfs.Transaction
