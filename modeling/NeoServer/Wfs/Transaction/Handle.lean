import NeoServer.Wfs.Transaction.Gate

/-!
# Wfs.Transaction.Handle — the answer to a transaction request

`handleTransaction` runs a transaction between the two halves of the data-write barrier
of the registry, records the versions, releases the lock and invalidates the caches. What
other requests, the clock and failing calls do meanwhile is in a `RequestEnv`: the lock
store is read at several moments and can differ at each of them.

- `Handled` : what a request has done, with the order of its effects,
- `AnswersRight` : an exception report means that the data is as before, a response that
  every action was applied once and the caches were invalidated after that,
- `answersRight_iff` : it holds except where the lock to be released is gone.
-/

namespace NeoServer.Wfs.Transaction

open Lock LockStore

variable {C V : Type}

/-! ## The request -/

/-- What a request takes from outside. -/
structure RequestEnv where
  /-- The lock store when the owner of the lock is checked. -/
  validate : CheckEnv
  /-- `BeginDataWrite` fails, with this error. -/
  barrier : Option Str
  /-- The request was cancelled while it waited for the write gate. -/
  cancelled : Bool
  /-- The source cannot begin a transaction. -/
  beginTx : Option Str
  /-- The lock store at the check of each action. -/
  checks : Nat → CheckEnv
  /-- The source cannot commit. -/
  commit : Option Str
  /-- The lock store when the lock is released, and the delete of its row. -/
  release : LockStore
  delete : Call

inductive Answer
  | exception (report : ExceptionReport)
  | response (response : TransactionResponse)
deriving DecidableEq, Repr

/-- The effects of a request, in order. -/
inductive Effect
  /-- The registry invalidates the caches of the workspace. -/
  | registryInvalidated
  /-- The atomic write is over, and what it wrote is committed. -/
  | committed
  | versionsRecorded (events : List VersionEvent)
  | lockReleased (lockID : Str)
  /-- The cache of the handler is invalidated. -/
  | cacheInvalidated
  | answered
deriving DecidableEq, Repr

/-- What a request has done. -/
structure Handled (V : Type) where
  answer : Answer
  data : Data V
  effects : List Effect

/-- What a handler has besides its sources: `registry != nil`, `cache != nil`. -/
structure Services where
  registry : Bool
  cache : Bool

def validateLockOwner (env : CheckEnv) (lockID workspaceID ownerID : Str) :
    Except RequestError Unit :=
  let invalid := RequestError.request .invalidParameterValue "lockId"
    "lock is invalid or expired"
  match env.store.getLock lockID with
  | none => .error invalid
  | some lock =>
    if lock.isExpired (env.readAt lockID) ∨ lock.workspaceID ≠ workspaceID then .error invalid
    else if lock.ownerID ≠ [] ∧ lock.ownerID ≠ ownerID then
      .error (.request .authorizationFailed "lockId"
        "lock is owned by another principal")
    else .ok ()

/-- `executeTransaction`. An atomic write that fails is rolled back. -/
def executeTransaction (h : Handler C V) (ws : Workspace) (env : RequestEnv)
    (tx : WFSTransaction C) (data : Data V) :
    Except RequestError (TransactionResponse × Data V) :=
  if env.cancelled then .error (.plain "context canceled")
  else
    match transactionService h ws tx with
    | .error e => .error e
    | .ok none => executeTransactionWithWriter h ws none env.checks tx data
    | .ok (some service) =>
      match h.atomicWriter service, env.beginTx, env.commit with
      | none, _, _ =>
        .error (.request .operationNotSupported "Transaction"
          "data source does not support atomic transactions")
      | some _, some e, _ => .error (.plain ("begin transaction: " ++ e))
      | some writer, none, commit =>
        match executeTransactionWithWriter h ws (some writer) env.checks tx data, commit with
        | .error e, _ => .error e
        | .ok _, some e => .error (.plain ("commit transaction: " ++ e))
        | .ok result, none => .ok result

/-- Whether a transaction that was committed releases the lock it presented. -/
def releaseDue (tx : WFSTransaction C) : Bool :=
  tx.lockId ≠ [] && (tx.releaseAction == [] || toUpper tx.releaseAction == "ALL")

/-- What follows the commit, up to the answer. -/
def afterCommit (svc : Services) (env : RequestEnv) (owner : Str) (tx : WFSTransaction C)
    (response : TransactionResponse) : Answer × List Effect :=
  let recorded := Effect.versionsRecorded response.versionEvents
  let invalidated := if svc.cache then [Effect.cacheInvalidated] else []
  if releaseDue tx then
    match (env.release.releaseLockOwned tx.lockId owner env.delete).1 with
    | .error _ =>
      (.exception ⟨.invalidParameterValue, "lockId",
        "Failed to release lock: " ++ tx.lockId⟩, [recorded, .answered])
    | .ok () =>
      (.response response, recorded :: .lockReleased tx.lockId :: invalidated ++ [.answered])
  else (.response response, recorded :: invalidated ++ [.answered])

/-- `handleTransaction`, from the parsed request on. The second half of the barrier runs
when the handler returns, on every path; that it fails is only logged. -/
def handleTransaction (h : Handler C V) (svc : Services) (ws : Workspace) (env : RequestEnv)
    (owner : Str) (request : Except RequestError (WFSTransaction C)) (data : Data V) :
    Handled V :=
  let refused := fun e : RequestError => (⟨.exception e.report, data, [.answered]⟩ : Handled V)
  match request with
  | .error e => refused e
  | .ok tx =>
    let valid := if tx.lockId ≠ [] then validateLockOwner env.validate tx.lockId ws.id owner
      else .ok ()
    match valid with
    | .error e => refused e
    | .ok () =>
      if svc.registry ∧ env.barrier ≠ none then
        ⟨.exception ⟨.noApplicableCode, [],
          "could not establish transaction cache barrier"⟩, data, [.answered]⟩
      else
        let barrier := if svc.registry then [Effect.registryInvalidated] else []
        match executeTransaction h ws env tx data with
        | .error e => ⟨.exception e.report, data, barrier ++ [.answered] ++ barrier⟩
        | .ok (response, data') =>
          let after := afterCommit svc env owner tx response
          ⟨after.1, data', barrier ++ .committed :: after.2 ++ barrier⟩

/-! ## What is to hold -/

/-- The actions of a document, each applied once, in order. -/
inductive AppliedInOrder (h : Handler C V) (ws : Workspace) (writer : Option (Writer C V))
    (lockId : Str) : List (Operation C) → Data V → Data V → Prop
  | nil (data : Data V) : AppliedInOrder h ws writer lockId [] data data
  | cons {op : Operation C} {rest : List (Operation C)} {data data' data'' : Data V}
      {env : CheckEnv} {response response' : TransactionResponse}
      (hop : executeOperation h ws writer env.store env.readAt lockId op response data =
        .ok (response', data'))
      (hrest : AppliedInOrder h ws writer lockId rest data' data'') :
      AppliedInOrder h ws writer lockId (op :: rest) data data''

/-- The caches that depend on the data of the workspace are invalidated after the only
commit. -/
def InvalidatedAfterCommit (svc : Services) (effects : List Effect) : Prop :=
  ∃ before after, effects = before ++ .committed :: after ∧ .committed ∉ before ∧
    .committed ∉ after ∧ (svc.cache = true → .cacheInvalidated ∈ after) ∧
    (svc.registry = true → .registryInvalidated ∈ after)

/-- The answer says what was done. -/
structure AnswersRight (h : Handler C V) (svc : Services) (ws : Workspace)
    (request : Except RequestError (WFSTransaction C)) (data : Data V) (handled : Handled V) :
    Prop where
  exception : ∀ report, handled.answer = .exception report → handled.data = data
  response : ∀ response, handled.answer = .response response → ∃ tx writer, request = .ok tx ∧
    AppliedInOrder h ws writer tx.lockId tx.operations data handled.data ∧
    InvalidatedAfterCommit svc handled.effects

/-- The transaction passes all checks and changes the data. -/
def Changes (h : Handler C V) (svc : Services) (ws : Workspace) (env : RequestEnv) (owner : Str)
    (tx : WFSTransaction C) (data : Data V) : Prop :=
  (tx.lockId ≠ [] → validateLockOwner env.validate tx.lockId ws.id owner = .ok ()) ∧
    (svc.registry = true → env.barrier = none) ∧
    ∃ response data', executeTransaction h ws env tx data = .ok (response, data') ∧ data' ≠ data

/-- The caller holds a lock. -/
def HoldsLock (store : LockStore) (lockID owner : Str) : Prop :=
  ∃ lock, store.getLock lockID = some lock ∧ (lock.ownerID = [] ∨ lock.ownerID = owner)

/-! ## Proofs -/

section Proofs

variable {h : Handler C V} {svc : Services} {ws : Workspace} {env : RequestEnv} {owner : Str}

variable {data : Data V} {response : TransactionResponse} {tx : WFSTransaction C}

lemma appliedInOrder_of_executeOperations {writer}
    {checks : Nat → CheckEnv} {lockId : Str} {n : Nat} {ops} {response'} {data' : Data V}
    (hok : executeOperations h ws writer checks lockId n ops response data =
      .ok (response', data')) : AppliedInOrder h ws writer lockId ops data data' := by
  induction ops generalizing n response data with
  | nil =>
    cases hok
    exact .nil _
  | cons op rest ih =>
    unfold executeOperations at hok
    split at hok
    · cases hok
    rename_i response1 data1 hop
    exact .cons hop (ih hok)

lemma appliedInOrder_of_executeTransaction
    {result} (hok : executeTransaction h ws env tx data = .ok result) :
    ∃ writer, AppliedInOrder h ws writer tx.lockId tx.operations data result.2 := by
  unfold executeTransaction at hok
  split at hok
  · cases hok
  split at hok
  · cases hok
  · exact ⟨none, appliedInOrder_of_executeOperations hok⟩
  split at hok
  · cases hok
  · cases hok
  rename_i writer _ _
  split at hok
  · cases hok
  · cases hok
  rename_i hwriter _
  cases hok
  exact ⟨some writer, appliedInOrder_of_executeOperations hwriter⟩

lemma releaseLockOwned_ok_iff {store} {lockID : Str} (delete : Call) :
    (store.releaseLockOwned lockID owner delete).1 = .ok () ↔ HoldsLock store lockID owner := by
  unfold releaseLockOwned HoldsLock
  cases hget : store.getLock lockID with
  | none => simp
  | some lock =>
    simp only [Option.some.injEq, exists_eq_left']
    split
    · rename_i hother
      constructor
      · rintro ⟨⟩
      · rintro (hnil | howner)
        · exact absurd hnil hother.1
        · exact absurd howner hother.2
    · rename_i hown
      refine ⟨fun _ => ?_, fun _ => rfl⟩
      by_contra hne
      exact hown (not_or.mp hne)

/-- What `afterCommit` answers, and what it has done by then. -/
lemma afterCommit_cases (svc : Services) (env : RequestEnv) (owner : Str)
    (tx : WFSTransaction C) (response : TransactionResponse) :
    (releaseDue tx = true ∧ ¬ HoldsLock env.release tx.lockId owner ∧
      ∃ report, (afterCommit svc env owner tx response).1 = .exception report) ∨
    ((releaseDue tx = true → HoldsLock env.release tx.lockId owner) ∧
      (afterCommit svc env owner tx response).1 = .response response ∧
      .committed ∉ (afterCommit svc env owner tx response).2 ∧
      (svc.cache = true → .cacheInvalidated ∈ (afterCommit svc env owner tx response).2)) := by
  unfold afterCommit
  dsimp only
  split
  · rename_i hdue
    split
    · rename_i e herr
      refine .inl ⟨hdue, ?_, _, rfl⟩
      rw [← releaseLockOwned_ok_iff env.delete, herr]
      rintro ⟨⟩
    · rename_i hok
      refine .inr ⟨fun _ => (releaseLockOwned_ok_iff env.delete).mp hok, rfl, ?_, ?_⟩
      · cases svc.cache <;> simp
      · intro hcache
        simp [hcache]
  · rename_i hdue
    refine .inr ⟨fun hd => absurd hd hdue, rfl, ?_, ?_⟩
    · cases svc.cache <;> simp
    · intro hcache
      simp [hcache]

/-- A request that was refused before the commit. -/
lemma answersRight_of_refused {request} {report} {effects} :
    AnswersRight h svc ws request data ⟨.exception report, data, effects⟩ :=
  ⟨fun _ _ => rfl, nofun⟩

/-- The effects of a request that was answered with a response. -/
lemma invalidatedAfterCommit_of_response
    (hcommit : .committed ∉ (afterCommit svc env owner tx response).2)
    (hcache : svc.cache = true → .cacheInvalidated ∈ (afterCommit svc env owner tx response).2) :
    InvalidatedAfterCommit svc ((if svc.registry then [Effect.registryInvalidated] else []) ++
      .committed :: (afterCommit svc env owner tx response).2 ++
        (if svc.registry then [Effect.registryInvalidated] else [])) := by
  refine ⟨if svc.registry then [.registryInvalidated] else [],
    (afterCommit svc env owner tx response).2 ++
      if svc.registry then [.registryInvalidated] else [], ?_, ?_, ?_, ?_, ?_⟩
  · rw [List.append_assoc, List.cons_append]
  · split <;> simp
  · rw [List.mem_append, not_or]
    refine ⟨hcommit, ?_⟩
    split <;> simp
  · intro hc
    exact List.mem_append_left _ (hcache hc)
  · intro hr
    exact List.mem_append_right _ (by simp [hr])

end Proofs

/-- The answer is right just when a transaction that changes the data and is to release
its lock still finds it. -/
theorem answersRight_iff (h : Handler C V) (svc : Services) (ws : Workspace) (env : RequestEnv)
    (owner : Str) (request : Except RequestError (WFSTransaction C)) (data : Data V) :
    AnswersRight h svc ws request data (handleTransaction h svc ws env owner request data) ↔
      ∀ tx, request = .ok tx → releaseDue tx = true → Changes h svc ws env owner tx data →
        HoldsLock env.release tx.lockId owner := by
  unfold handleTransaction
  dsimp only
  split
  · exact ⟨nofun, fun _ => answersRight_of_refused⟩
  rename_i tx
  split
  · -- the lock was not valid
    rename_i e hvalid
    refine ⟨fun _ tx' htx _ hchanges => ?_, fun _ => answersRight_of_refused⟩
    cases htx
    split at hvalid
    · rename_i hid
      rw [hchanges.1 hid] at hvalid
      cases hvalid
    · cases hvalid
  rename_i hvalid
  split
  · -- no barrier
    rename_i hbarrier
    refine ⟨fun _ tx' htx _ hchanges => ?_, fun _ => answersRight_of_refused⟩
    exact absurd (hchanges.2.1 hbarrier.1) hbarrier.2
  rename_i hbarrier
  split
  · -- nothing was committed
    rename_i e herr
    refine ⟨fun _ tx' htx _ hchanges => ?_, fun _ => answersRight_of_refused⟩
    cases htx
    rcases hchanges.2.2 with ⟨response, data', hok, -⟩
    rw [hok] at herr
    cases herr
  rename_i response data' hok
  have hpassed : data' ≠ data → Changes h svc ws env owner tx data := by
    intro hne
    refine ⟨fun hid => ?_, fun hreg => ?_, response, data', hok, hne⟩
    · rwa [if_pos hid] at hvalid
    · by_contra hne
      exact hbarrier ⟨hreg, hne⟩
  rcases afterCommit_cases svc env owner tx response with
    ⟨hdue, hgone, report, hreport⟩ | ⟨hheld, hresponse, hcommit, hcache⟩
  · constructor
    · intro hright tx' htx _ hchanges
      cases htx
      rcases hchanges.2.2 with ⟨response1, data1, hok1, hne⟩
      rw [hok] at hok1
      cases hok1
      exact absurd (hright.exception report hreport) hne
    · intro hcond
      refine ⟨fun _ _ => ?_, fun r hr => ?_⟩
      · by_contra hne
        exact hgone (hcond tx rfl hdue (hpassed hne))
      · rw [hreport] at hr
        cases hr
  · refine ⟨fun _ tx' htx hdue _ => ?_, fun _ => ⟨fun r hr => ?_, fun r hr => ?_⟩⟩
    · cases htx
      exact hheld hdue
    · rw [hresponse] at hr
      cases hr
    · rcases appliedInOrder_of_executeTransaction hok with ⟨writer, happlied⟩
      exact ⟨tx, writer, rfl, happlied, invalidatedAfterCommit_of_response hcommit hcache⟩

/-! ### A lock that expires before it is released -/

/-- The lock is there until the commit; then a sweep takes it away. -/
def sweptEnv : RequestEnv where
  validate := ⟨autosLocked.lock.store, fun _ => 7⟩
  barrier := none
  cancelled := false
  beginTx := none
  checks _ := ⟨autosLocked.lock.store, fun _ => 7⟩
  commit := none
  release := autosLocked.lock.store.cleanExpiredLocked ⟨61000008, fun _ => 61000008⟩
  delete := .ok

/-- The request of the owner of the lock. -/
def sweptRequest : Handled Nat :=
  handleTransaction autosHandler ⟨true, true⟩ oneAutos sweptEnv "ann"
    (.ok (updateAutos "a")) autosLocked.data

/-- The update is committed, and answered with an exception report. -/
theorem exception_after_commit :
    sweptRequest.answer = .exception ⟨.invalidParameterValue, "lockId",
        "Failed to release lock: a"⟩ ∧
      ¬ AnswersRight autosHandler ⟨true, true⟩ oneAutos (.ok (updateAutos "a"))
        autosLocked.data sweptRequest := by
  have hanswer : sweptRequest.answer = .exception ⟨.invalidParameterValue, "lockId",
      "Failed to release lock: a"⟩ := rfl
  refine ⟨hanswer, ?_⟩
  intro hright
  have hdata : sweptRequest.data "s/autos" "1" = some 5 := rfl
  rw [hright.exception _ hanswer] at hdata
  exact absurd hdata (by decide)

end NeoServer.Wfs.Transaction
