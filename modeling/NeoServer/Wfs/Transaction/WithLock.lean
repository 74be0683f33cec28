import NeoServer.Wfs.Transaction.Gate

/-!
# Wfs.Transaction.WithLock — features returned under a lock

`GetFeatureWithLock` reads the features, then waits at the gate for the lock on them,
and returns what it has read. A transaction that is committed in between leaves the
client with an old version of a feature and a lock that lets it write that back.

- `NoLostUpdate` : what was returned is what the data was when the lock was granted, and
  is still the data while the lock stands and nobody has used it,
- `noLostUpdate_of_reachable` : it holds if no commit changes a feature between its read
  and the grant.
-/

namespace NeoServer.Wfs.Transaction

open Lock LockStore List

variable {C V : Type}

/-- Features under a lock are as they were returned. -/
structure NoLostUpdate (s : GateState C V) : Prop where
  granted : ∀ R ∈ s.returned, ∀ row ∈ R.rows, R.granted R.source row.1 = some row.2
  current : ∀ R ∈ s.returned, R.presented = false → s.lock.Unexpired R.lock →
    ∀ row ∈ R.rows, s.data R.source row.1 = some row.2

/-- The steps that do not change a feature between its read and the grant of the lock. -/
def Undisturbed (h : Handler C V) (s : GateState C V) (l : GateOp C V) (s' : GateState C V) :
    Prop :=
  AgreedNames h s l s' ∧
    ∀ rd ∈ s.reads, ∀ row ∈ rd.rows, s'.data rd.source row.1 = s.data rd.source row.1

/-- A read that is as the data is. -/
structure PendingRead.Current (K : LockKeys) (data : Data V) (rd : PendingRead V) : Prop where
  key : ∃ name, K.decodeLockKey rd.key = some ⟨K.digest rd.source, name⟩
  rows : ∀ row ∈ rd.rows, data rd.source row.1 = some row.2

/-- Features that were returned under a lock that covers them, and that stand with it. -/
structure Returned.Safe (K : LockKeys) (wsID : Str) (lock : LockState) (data : Data V)
    (R : Returned V) : Prop where
  issued : R.lock.lockID ∈ lock.issued
  workspace : R.lock.workspaceID = wsID
  covers : ∀ row ∈ R.rows, Covers K R.lock R.source row.1
  granted : ∀ row ∈ R.rows, R.granted R.source row.1 = some row.2
  current : R.presented = false → lock.Unexpired R.lock →
    ∀ row ∈ R.rows, data R.source row.1 = some row.2

/-- The invariant of such runs. -/
structure ReadInv (h : Handler C V) (wsID : Str) (s : GateState C V) : Prop where
  gate : GateInv h wsID s
  reads : ∀ rd ∈ s.reads, rd.Current h.keys s.data
  returned : ∀ R ∈ s.returned, R.Safe h.keys wsID s.lock s.data

section Steps

variable {h : Handler C V} {wsID : Str} {s s' : GateState C V}

variable {K : LockKeys} {done : Nat} {lock : FeatureLock} {rd : PendingRead V}

/-- A lock that was issued and stands after an operation stood before it. -/
lemma unexpired_of_apply {st} {op : LockOp} (hnow : st.now ≤ done) (hadm : op.Admissible st done)
    (hissued : lock.lockID ∈ st.issued) (hl : (op.apply K st done).Unexpired lock) :
    st.Unexpired lock := by
  rcases hl with ⟨hmem, hexp⟩
  rw [apply_now] at hexp
  rcases mem_locks_of_apply hmem with hmem | ⟨req, env, locked, rfl, hok⟩
  · exact ⟨hmem, unexpired_anti hnow hexp⟩
  · rcases granted_of_acquireLockOwned hok with ⟨-, rfl, -⟩
    exact absurd hissued hadm.2

lemma covers_of_mem_lockedRows
    {name : Str} (hkey : K.decodeLockKey rd.key = some ⟨K.digest rd.source, name⟩)
    {row : Str × V} (hrow : row ∈ rd.lockedRows K lock) :
    row ∈ rd.rows ∧ Covers K lock rd.source row.1 := by
  rcases mem_filter.mp hrow with ⟨hmem, hlocked⟩
  rcases mem_lockedFeatureIDs.mp (of_decide_eq_true hlocked) with ⟨key, hhas, hsame⟩
  refine ⟨hmem, key, hhas, ?_⟩
  unfold LockKeys.sameLockTypeName at hsame
  unfold KeyCovers
  rw [hkey] at hsame
  cases hdec : K.decodeLockKey key with
  | none => trivial
  | some =>
    rw [hdec] at hsame
    exact beq_iff_eq.mp hsame

variable {data : Data V} {lock lock' : LockState} {R : Returned V}

lemma Returned.Safe.keep (hR : R.Safe K wsID lock data) (hissued : lock.issued ⊆ lock'.issued)
    (hstands : lock'.Unexpired R.lock → lock.Unexpired R.lock) : R.Safe K wsID lock' data :=
  { hR with
    issued := hissued hR.issued
    current := fun hpresented hunexpired => hR.current hpresented (hstands hunexpired) }

lemma Returned.Safe.apply {op : LockOp} (hR : R.Safe K wsID lock data) (hnow : lock.now ≤ done)
    (hadm : op.Admissible lock done) : R.Safe K wsID (op.apply K lock done) data :=
  hR.keep (issued_subset_apply _ _ _ _) (unexpired_of_apply hnow hadm hR.issued)

/-- A commit changes no feature under a lock that was not presented. -/
lemma Returned.Safe.commit {r} (hR : R.Safe h.keys wsID s.lock s.data) (hgate : GateInv h wsID s)
    (hrun : s.running = some r) :
    (if R.lock.lockID = r.tx.lockId then { R with presented := true } else R).Safe h.keys wsID
      s.lock r.data := by
  split
  · exact { hR with current := fun hpresented => by cases hpresented }
  rename_i hid
  refine { hR with current := ?_ }
  intro hpresented hunexpired row hrow
  have hcurrent := hR.current hpresented hunexpired row hrow
  have hthere : s.data R.source row.1 ≠ none := by simp [hcurrent]
  have hkept := (hgate.running r hrun).kept R.lock ⟨hunexpired, hR.workspace, hid⟩ R.source
    row.1 (hR.covers row hrow) hthere
  exact hkept.trans hcurrent

/-- A grant returns the features as they are. -/
lemma PendingRead.Current.answer {expirySeconds : Int} {action} {owner : Str} {env}
    (hrd : rd.Current K data) :
    ∀ R ∈ rd.answer K data (lock.store.acquireLockOwned K
        (rd.request wsID expirySeconds action owner) env).1,
      R.Safe K wsID ((LockOp.acquire (rd.request wsID expirySeconds action owner) env).apply K
        lock done) data := by
  intro R hR
  rcases hrd.key with ⟨name, hkey⟩
  cases hres : (lock.store.acquireLockOwned K (rd.request wsID expirySeconds action owner) env).1 with
  | error e =>
    rw [hres] at hR
    cases hR
  | ok p =>
    rw [hres] at hR
    obtain rfl := mem_singleton.mp hR
    rcases granted_of_acquireLockOwned hres with ⟨-, hgranted, -⟩
    have hrows : ∀ row ∈ rd.lockedRows K p.1, data rd.source row.1 = some row.2 :=
      fun row hrow => hrd.rows row (covers_of_mem_lockedRows hkey hrow).1
    refine ⟨?_, ?_, fun row hrow => (covers_of_mem_lockedRows hkey hrow).2, hrows,
      fun _ _ => hrows⟩
    · rw [hgranted]
      exact mem_cons_self
    · rw [hgranted]
      rfl

lemma readInv_step {l} (hinv : ReadInv h wsID s) (hstep : GateStep h wsID s l s')
    (hund : Undisturbed h s l s') : ReadInv h wsID s' := by
  have hgate := gateInv_step hinv.gate hstep hund.1
  cases hstep with
  | lock hnow hadm _ =>
    exact ⟨hgate, hinv.reads, fun R hR => (hinv.returned R hR).apply hnow hadm⟩
  | start | rollback => exact { hinv with gate := hgate }
  | operate _ _ hnow _ _ | fail _ _ hnow _ =>
    exact ⟨hgate, hinv.reads, fun R hR =>
      (hinv.returned R hR).keep (fun _ hid => hid) fun hl => ⟨hl.1, unexpired_anti hnow hl.2⟩⟩
  | commit hrun =>
    refine ⟨hgate, ?_, ?_⟩
    · intro rd hrd
      have hcurrent := hinv.reads rd hrd
      exact { hcurrent with
        rows := fun row hrow => (hund.2 rd hrd row hrow).trans (hcurrent.rows row hrow) }
    · exact forall_mem_map.mpr fun R hR => (hinv.returned R hR).commit hinv.gate hrun
  | @read ws role typeName layer service rows hws hauth hrows =>
    refine ⟨hgate, ?_, hinv.returned⟩
    exact forall_mem_cons.mpr
      ⟨⟨⟨typeName, h.keys.decodeLockKey_sourceLockKey service layer typeName⟩, hrows⟩, hinv.reads⟩
  | grant hreads hnow hadm =>
    have hold := hinv.reads
    rw [hreads, forall_mem_append, forall_mem_cons] at hold
    rcases hold with ⟨hbefore, hrd, hafter⟩
    exact ⟨hgate, forall_mem_append.mpr ⟨hbefore, hafter⟩, forall_mem_append.mpr
      ⟨hrd.answer, fun R hR => (hinv.returned R hR).apply hnow hadm⟩⟩

end Steps

/-- Features under a lock are as they were returned, if no commit came between their read
and the grant. -/
theorem noLostUpdate_of_reachable (h : Handler C V) (wsID : Str)
    (maxExpiry maxWorkspace maxPrincipal maxFeatures : Int) (s : GateState C V)
    (hs : ((gateMachine h wsID maxExpiry maxWorkspace maxPrincipal maxFeatures).restrict
      (Undisturbed h)).Reachable s) : NoLostUpdate s := by
  have hinv : ReadInv h wsID s := by
    refine Machine.Reachable.induct ?_ ?_ hs
    · intro s ⟨_, hrun, hcommits, hreads, hreturned⟩
      refine ⟨⟨?_, ?_⟩, ?_, ?_⟩
      · intro r hr
        simp [hrun] at hr
      · simp [hcommits]
      · simp [hreads]
      · simp [hreturned]
    · intro s l t _ hinv hstep
      exact readInv_step hinv hstep.1 hstep.2
  exact ⟨fun R hR => (hinv.returned R hR).granted, fun R hR => (hinv.returned R hR).current⟩

/-! ### A commit between the read and the grant -/

/-- The read of feature `1` of `cite:Autos`. -/
def autosRead : PendingRead Nat where
  source := "s/autos"
  key := plainKeys.sourceLockKey (autosService [citeAutos]) citeAutos "cite:Autos"
  rows := [("1", 0)]

def autosReading : GateState Nat Nat := { autosStart with reads := [autosRead] }

def autosRequest : AcquireRequest := autosRead.request "w" 60 .all "ann"

/-- The state after the grant of the lock on what was read. -/
def autosGranted (s : GateState Nat Nat) : GateState Nat Nat :=
  { s with
    lock := (LockOp.acquire autosRequest (envAt 7 "a")).apply plainKeys s.lock 7
    reads := []
    returned := autosRead.answer plainKeys s.data
      (s.lock.store.acquireLockOwned plainKeys autosRequest (envAt 7 "a")).1 ++ s.returned }

lemma autosRead_step : GateStep autosHandler "w" autosStart
    (.read oneAutos [] "cite:Autos" [("1", 0)]) autosReading := by
  have hauth : authorizeLockQuery oneAutos autosHandler.appPrefix [] ["cite:Autos"] =
      .ok (citeAutos, autosService [citeAutos]) := rfl
  refine .read rfl hauth ?_
  intro row hrow
  obtain rfl := mem_singleton.mp hrow
  rfl

/-- Without a commit the feature is as it was returned. -/
theorem noLostUpdate_of_reachable_sample :
    (autosGranted autosReading).returned ≠ [] ∧ NoLostUpdate (autosGranted autosReading) := by
  have h := next (P := Undisturbed autosHandler) (.init autosStart_init) autosRead_step
    ⟨trivial, fun _ _ _ _ => rfl⟩
  have h := next h (l := .grant autosRead autosRequest (envAt 7 "a") 7)
    (.grant (show _ = [] ++ _ :: [] from rfl) le_rfl ⟨envAt_inTime 7 "a", not_mem_nil⟩ fun _ => rfl)
    ⟨trivial, fun _ _ _ _ => rfl⟩
  exact ⟨cons_ne_nil _ _, noLostUpdate_of_reachable autosHandler "w" 0 0 0 0 _ h⟩

/-- A transaction sets the feature to `5` after it was read; the client gets `0` and the
lock. -/
theorem stale_feature_returned :
    (gateMachine autosHandler "w" 0 0 0 0).Reachable
        (autosGranted (autosCommitted autosReading [])) ∧
      ¬ NoLostUpdate (autosGranted (autosCommitted autosReading [])) := by
  constructor
  · have h := next (P := fun _ _ _ => True) (.init autosStart_init) autosRead_step trivial
    have h := next h (l := .start oneAutos (updateAutos [])) (.start rfl rfl rfl rfl) trivial
    have h := next h (l := .operate (fun _ => 7) 7)
      (.operate rfl rfl le_rfl (fun _ => ⟨le_rfl, le_rfl⟩) rfl) trivial
    have h := next h (.commit rfl rfl) trivial
    have h := next h (l := .grant autosRead autosRequest (envAt 7 "a") 7)
      (.grant (show _ = [] ++ _ :: [] from rfl) le_rfl ⟨envAt_inTime 7 "a", not_mem_nil⟩ fun _ => rfl)
      trivial
    exact h.of_restrict
  · intro h
    have hreturned : autosUpdated "s/autos" "1" = some 0 :=
      h.granted _ mem_cons_self ("1", 0) mem_cons_self
    have hdata : autosUpdated "s/autos" "1" = some 5 := by decide
    cases hdata.symm.trans hreturned

end NeoServer.Wfs.Transaction
