import NeoServer.Machine
import NeoServer.Wfs.Lock.Store

/-!
# Wfs.Lock.Exclusion — no feature under two locks

The operations of a lock store in any order, at any times and with any failures of the
table, as a machine (`lockMachine`). The store runs each of them under its mutex, so an
interleaving of requests is a sequence of operations. The clock moves between the
operations and inside them: an acquisition reads it once for each lock it sweeps and
once more for each lock it checks.

- `Exclusive` : two locks of a workspace that have not expired cover no feature in
  common,
- `exclusive_of_reachable` : it holds in every reachable state, a failed acquisition
  leaves the locks that have not expired, and no lock is granted over a limit.
-/

namespace NeoServer.Wfs.Lock

open LockStore List

/-! ## The machine -/

/-- A lock store in time, with what its clients were told. -/
structure LockState where
  store : LockStore
  now : Nat
  /-- Lock ids generated so far. -/
  issued : List Str
  /-- Locks that were granted. -/
  granted : List FeatureLock
  /-- Locks whose release was confirmed. -/
  released : List Str

inductive LockOp
  | acquire (req : AcquireRequest) (env : AcquireEnv)
  | release (lockID ownerID : Str) (delete : Call)
  | sweep (sweep : Sweep)
  | deleteExpiredRows (now : Nat) (call : Call)
  | clearWorkspace (workspaceID : Str)
  | deleteWorkspaceRows (workspaceID : Str) (call : Call)
  /-- The clock moves. -/
  | wait

/-- The readings of an acquisition stand between its start and its end, in the order of
the code. -/
structure AcquireEnv.InTime (env : AcquireEnv) (start done : Nat) : Prop where
  sweepNow : start ≤ env.sweep.now
  sweep : ∀ id, start ≤ env.sweep.readAt id
  check : ∀ id typeName fid id', env.sweep.readAt id ≤ env.checkAt typeName fid id'
  grant : ∀ typeName fid id, env.checkAt typeName fid id ≤ env.grantAt
  created : env.grantAt ≤ env.createdAt
  done : env.createdAt ≤ done

lemma AcquireEnv.InTime.readAt_le {env : AcquireEnv} {start done : Nat}
    (h : env.InTime start done) (id : Str) : env.sweep.readAt id ≤ done :=
  (h.check id [] [] id).trans ((h.grant [] [] id).trans (h.created.trans h.done))

/-- What the environment may choose: readings of a clock that does not go back, and lock
ids that are new. -/
def LockOp.Admissible (s : LockState) (done : Nat) : LockOp → Prop
  | .acquire _ env => env.InTime s.now done ∧ env.lockID ∉ s.issued
  | .sweep sw => ∀ id, s.now ≤ sw.readAt id ∧ sw.readAt id ≤ done
  | .deleteExpiredRows now _ => s.now ≤ now ∧ now ≤ done
  | _ => True

variable (K : LockKeys)

/-- The state after an operation that is done at a given time. -/
def LockOp.apply (s : LockState) (done : Nat) : LockOp → LockState
  | .acquire req env =>
    let r := s.store.acquireLockOwned K req env
    { s with
      store := r.2
      now := done
      issued := env.lockID :: s.issued
      granted := match r.1 with
        | .ok (lock, _) => lock :: s.granted
        | .error _ => s.granted }
  | .release lockID ownerID delete =>
    let r := s.store.releaseLockOwned lockID ownerID delete
    { s with
      store := r.2
      now := done
      released := match r.1 with
        | .ok _ => lockID :: s.released
        | .error _ => s.released }
  | .sweep sw => { s with store := s.store.cleanExpiredLocked sw, now := done }
  | .deleteExpiredRows now call =>
    { s with store := s.store.deleteExpiredRows now call, now := done }
  | .clearWorkspace workspaceID =>
    { s with store := s.store.clearWorkspace workspaceID, now := done }
  | .deleteWorkspaceRows workspaceID call =>
    { s with store := s.store.deleteWorkspaceRows workspaceID call, now := done }
  | .wait => { s with now := done }

/-- The lock store of one process, from `NewLockStore` on. -/
def lockMachine (maxExpiry maxWorkspace maxPrincipal maxFeatures : Int) :
    Machine LockState (LockOp × Nat) where
  init s := s.issued = [] ∧ s.granted = [] ∧ s.released = [] ∧
    (s.store = newLockStore maxExpiry maxWorkspace maxPrincipal maxFeatures none ∨
      s.store = newLockStore maxExpiry maxWorkspace maxPrincipal maxFeatures (some []))
  step s l s' := s.now ≤ l.2 ∧ l.1.Admissible s l.2 ∧ s' = l.1.apply K s l.2

/-! ## What is to hold -/

/-- A lock of the store that has not expired. -/
def LockState.Unexpired (s : LockState) (lock : FeatureLock) : Prop :=
  lock ∈ s.store.locks ∧ lock.isExpired s.now = false

/-- Two locks cover one feature, under names of one type. -/
def Overlap (a b : FeatureLock) : Prop :=
  ∃ ta tb fid, Has a.featureIDs ta fid ∧ Has b.featureIDs tb fid ∧
    K.sameLockTypeName ta tb = true

def Exclusive (s : LockState) : Prop :=
  ∀ a b, s.Unexpired a → s.Unexpired b → a.lockID ≠ b.lockID →
    a.workspaceID = b.workspaceID → ¬ Overlap K a b

/-- The locks of a workspace, of a principal and the features of a lock are within their
limits. -/
structure WithinLimits (store : LockStore) : Prop where
  workspace : ∀ ws, (store.locks.filter fun lock => lock.workspaceID == ws).length ≤
    store.maxPerWorkspace
  principal : ∀ ws owner, ((store.locks.filter fun lock => lock.workspaceID == ws).filter
    fun lock => lock.ownerID == owner).length ≤ store.maxPerPrincipal
  features : ∀ lock ∈ store.locks, totalFeatures lock.featureIDs ≤ store.maxFeatures

variable {K : LockKeys} {env : AcquireEnv} {ls : LockStore}

/-! ## Steps -/

section Features

variable {features : Features} {typeName fid : Str}

lemma mem_lockedFeatureIDs :
    fid ∈ lockedFeatureIDs K features typeName ↔
      ∃ t, Has features t fid ∧ K.sameLockTypeName t typeName = true := by
  unfold lockedFeatureIDs
  rw [mem_flatMap]
  constructor
  · rintro ⟨⟨t, ids⟩, hentry, hfid⟩
    rw [mem_filter] at hentry
    exact ⟨t, ⟨ids, hentry.1, hfid⟩, hentry.2⟩
  · rintro ⟨t, ⟨ids, hmem, hfid⟩, hsame⟩
    exact ⟨(t, ids), mem_filter.mpr ⟨hmem, hsame⟩, hfid⟩

variable {ws : Str}

lemma isFeatureLocked_iff {readAt : Str → Nat} :
    ls.isFeatureLocked K readAt ws typeName fid = true ↔
      ∃ lock ∈ ls.locks, lock.isExpired (readAt lock.lockID) = false ∧ lock.workspaceID = ws ∧
        ∃ t, Has lock.featureIDs t fid ∧ K.sameLockTypeName t typeName = true := by
  unfold isFeatureLocked
  rw [any_eq_true]
  simp only [Bool.and_eq_true, Bool.not_eq_true', beq_iff_eq, decide_eq_true_eq,
    mem_lockedFeatureIDs, and_assoc]

lemma mem_alreadyLocked {id : Str} : id ∈ ls.alreadyLocked K env ws features ↔
      ∃ typeName fid, Has features typeName fid ∧
        ls.isFeatureLocked K (env.checkAt typeName fid) ws typeName fid = true ∧
        K.displayID typeName fid = id := by
  unfold alreadyLocked
  rw [mem_flatMap]
  constructor
  · rintro ⟨⟨typeName, ids⟩, hentry, hid⟩
    rcases mem_map.mp hid with ⟨fid, hfid, hdisplay⟩
    rw [mem_filter] at hfid
    exact ⟨typeName, fid, ⟨ids, hentry, hfid.1⟩, hfid.2, hdisplay⟩
  · rintro ⟨typeName, fid, ⟨ids, hentry, hfid⟩, hlocked, hdisplay⟩
    exact ⟨(typeName, ids), hentry, mem_map.mpr ⟨fid, mem_filter.mpr ⟨hfid, hlocked⟩, hdisplay⟩⟩

lemma has_withoutLocked {locked} :
    Has (withoutLocked K locked features) typeName fid ↔
      Has features typeName fid ∧ K.displayID typeName fid ∉ locked := by
  unfold withoutLocked
  split
  · rename_i hnil
    simp [hnil]
  constructor
  · rintro ⟨ids, hmem, hfid⟩
    rcases mem_map.mp hmem with ⟨⟨t, ids'⟩, hentry, heq⟩
    rcases Prod.mk.inj heq with ⟨rfl, rfl⟩
    rw [mem_filter, decide_eq_true_iff] at hfid
    exact ⟨⟨ids', hentry, hfid.1⟩, hfid.2⟩
  · rintro ⟨⟨ids, hmem, hfid⟩, hdisplay⟩
    exact ⟨_, mem_map.mpr ⟨(typeName, ids), hmem, rfl⟩,
      mem_filter.mpr ⟨hfid, decide_eq_true hdisplay⟩⟩

lemma totalFeatures_withoutLocked_le (locked : List Str) (features : Features) :
    totalFeatures (withoutLocked K locked features) ≤ totalFeatures features := by
  unfold withoutLocked
  split
  · exact le_rfl
  unfold totalFeatures
  induction features with
  | nil => exact le_rfl
  | cons entry rest ih =>
    exact Nat.add_le_add (length_filter_le _ _) ih

/-- A granted lock covers no feature that was found under another lock. -/
lemma not_locked_of_granted {req} (h : Has (ls.grantedLock K req env).featureIDs typeName fid) :
    ls.isFeatureLocked K (env.checkAt typeName fid) req.workspaceID typeName fid = false := by
  rcases has_withoutLocked.mp h with ⟨hreq, hdisplay⟩
  cases hlocked : ls.isFeatureLocked K (env.checkAt typeName fid) req.workspaceID typeName fid with
  | false => rfl
  | true => exact absurd (mem_alreadyLocked.mpr ⟨typeName, fid, hreq, hlocked, rfl⟩) hdisplay

end Features

variable {lock : FeatureLock} {s : LockState} {req : AcquireRequest} {done : Nat}

variable {t t' : Nat} {locked : List Str}

lemma isExpired_mono (h : t ≤ t')
    (hexp : lock.isExpired t = true) : lock.isExpired t' = true := by
  simp only [FeatureLock.isExpired, decide_eq_true_eq] at hexp ⊢
  omega

lemma unexpired_anti (h : t ≤ t')
    (hexp : lock.isExpired t' = false) : lock.isExpired t = false := by
  cases hearly : lock.isExpired t with
  | false => rfl
  | true =>
    rw [isExpired_mono h hearly] at hexp
    cases hexp

/-- The invariant of the machine. -/
structure LockInv (K : LockKeys) (s : LockState) : Prop where
  issued : ∀ lock ∈ s.store.locks, lock.lockID ∈ s.issued
  exclusive : Exclusive K s
  limits : WithinLimits s.store

/-- The limits of a store do not change. -/
def SameLimits (ls ls' : LockStore) : Prop :=
  ls'.maxPerWorkspace = ls.maxPerWorkspace ∧ ls'.maxPerPrincipal = ls.maxPerPrincipal ∧
    ls'.maxFeatures = ls.maxFeatures

/-- Locks go away and the clock moves: the invariant stays. -/
lemma LockInv.shrink {s s'} (h : LockInv K s)
    (hlocks : s'.store.locks.Sublist s.store.locks) (hlim : SameLimits s.store s'.store)
    (hissued : s.issued ⊆ s'.issued) (hnow : s.now ≤ s'.now) : LockInv K s' := by
  rcases hlim with ⟨hws, hpr, hft⟩
  refine ⟨?_, ?_, ?_, ?_, ?_⟩
  · intro lock hlock
    exact hissued (h.issued lock (hlocks.subset hlock))
  · intro a b ha hb hne hsame
    exact h.exclusive a b ⟨hlocks.subset ha.1, unexpired_anti hnow ha.2⟩
      ⟨hlocks.subset hb.1, unexpired_anti hnow hb.2⟩ hne hsame
  · intro ws
    have hle := (hlocks.filter fun lock => lock.workspaceID == ws).length_le
    rw [hws]
    exact hle.trans (h.limits.workspace ws)
  · intro ws owner
    have hle := ((hlocks.filter fun lock => lock.workspaceID == ws).filter
      fun lock => lock.ownerID == owner).length_le
    rw [hpr]
    exact hle.trans (h.limits.principal ws owner)
  · intro lock hlock
    rw [hft]
    exact h.limits.features lock (hlocks.subset hlock)

/-- The grant of a lock, to a store whose expired locks were just swept. -/
lemma LockInv.grant {rows} {granted} (h : LockInv K s)
    (hcheck : ∀ typeName fid id, env.checkAt typeName fid id ≤ done)
    (hroom : s.store.Room req)
    (hnow : s.now ≤ done) :
    LockInv K { s with
      store := { s.store with
        persist := rows
        locks := s.store.grantedLock K req env :: s.store.locks }
      now := done
      issued := env.lockID :: s.issued
      granted := granted } := by
  -- no lock that has not expired by now overlaps the new one: it was found in the check
  have hnew : ∀ a, a ∈ s.store.locks → a.isExpired done = false →
      a.workspaceID = req.workspaceID → ∀ ta tb fid, Has a.featureIDs ta fid →
      Has (s.store.grantedLock K req env).featureIDs tb fid →
      K.sameLockTypeName ta tb = false := by
    intro a ha hexp hws ta tb fid hta htb
    cases hsame : K.sameLockTypeName ta tb with
    | false => rfl
    | true =>
      have hfree := not_locked_of_granted htb
      have hlocked : s.store.isFeatureLocked K (env.checkAt tb fid) req.workspaceID tb fid =
          true :=
        isFeatureLocked_iff.mpr ⟨a, ha, unexpired_anti (hcheck tb fid a.lockID) hexp, hws, ta,
          hta, hsame⟩
      rw [hlocked] at hfree
      cases hfree
  refine ⟨?_, ?_, ?_, ?_, ?_⟩
  · exact forall_mem_cons.mpr
      ⟨mem_cons_self, fun lock hlock => mem_cons_of_mem _ (h.issued lock hlock)⟩
  · rintro a b ⟨ha, hexpa⟩ ⟨hb, hexpb⟩ hne hsame ⟨ta, tb, fid, hta, htb, htype⟩
    rcases mem_cons.mp ha with rfl | ha
    · rcases mem_cons.mp hb with rfl | hb
      · exact hne rfl
      · have := hnew b hb hexpb hsame.symm tb ta fid htb hta
        rw [K.sameLockTypeName_comm, htype] at this
        cases this
    · rcases mem_cons.mp hb with rfl | hb
      · have := hnew a ha hexpa hsame ta tb fid hta htb
        rw [htype] at this
        cases this
      · exact h.exclusive a b ⟨ha, unexpired_anti hnow hexpa⟩ ⟨hb, unexpired_anti hnow hexpb⟩ hne
          hsame ⟨ta, tb, fid, hta, htb, htype⟩
  · intro ws
    have hold := h.limits.workspace ws
    by_cases hws : req.workspaceID = ws
    · subst hws
      simpa [grantedLock, Nat.succ_le_iff] using hroom.workspace
    · simpa [grantedLock, hws] using hold
  · intro ws owner
    have hold := h.limits.principal ws owner
    by_cases hws : req.workspaceID = ws
    · subst hws
      by_cases howner : req.ownerID = owner
      · subst howner
        simpa [grantedLock, Nat.succ_le_iff] using hroom.principal
      · simpa [grantedLock, howner] using hold
    · simpa [grantedLock, hws] using hold
  · exact forall_mem_cons.mpr
      ⟨(totalFeatures_withoutLocked_le _ _).trans hroom.features, h.limits.features⟩

lemma releaseLockOwned_sublist (ls : LockStore) (lockID ownerID : Str) (delete : Call) :
    (ls.releaseLockOwned lockID ownerID delete).2.locks.Sublist ls.locks ∧
      SameLimits ls (ls.releaseLockOwned lockID ownerID delete).2 := by
  rcases releaseLockOwned_cases ls lockID ownerID delete with ⟨e, h⟩ | ⟨lock, -, -, h⟩
  · rw [h]
    exact ⟨List.Sublist.refl _, rfl, rfl, rfl⟩
  · rw [h]
    exact ⟨filter_sublist, rfl, rfl, rfl⟩

lemma lockInv_acquire (h : LockInv K s) (htime : env.InTime s.now done) (hnow : s.now ≤ done) :
    LockInv K ((LockOp.acquire req env).apply K s done) := by
  have hissued : s.issued ⊆ env.lockID :: s.issued := subset_cons_of_subset _ fun _ h => h
  have hcases := acquisition K s.store req env
  simp only [LockOp.apply]
  generalize s.store.acquireLockOwned K req env = r at hcases ⊢
  cases hcases with
  | cancelled => exact h.shrink (List.Sublist.refl _) ⟨rfl, rfl, rfl⟩ hissued hnow
  | refused => exact h.shrink filter_sublist ⟨rfl, rfl, rfl⟩ hissued hnow
  | granted hswept hcancel hroom =>
    subst hswept
    have hswept : LockInv K { s with store := s.store.cleanExpiredLocked env.sweep } :=
      h.shrink filter_sublist ⟨rfl, rfl, rfl⟩ (fun _ h => h) le_rfl
    refine hswept.grant ?_ hroom hnow
    intro typeName fid id
    exact (htime.grant typeName fid id).trans (htime.created.trans htime.done)

/-- What an acquisition that succeeds has done. -/
lemma granted_of_acquireLockOwned (h : (ls.acquireLockOwned K req env).1 = .ok (lock, locked)) :
    env.cancelled = false ∧ lock = (ls.cleanExpiredLocked env.sweep).grantedLock K req env ∧
      locked =
        (ls.cleanExpiredLocked env.sweep).alreadyLocked K env req.workspaceID req.features ∧
      (req.lockAction = .all → locked = []) := by
  have hcases := acquisition K ls req env
  generalize ls.acquireLockOwned K req env = r at hcases h
  cases hcases with
  | cancelled | refused => cases h
  | granted hswept hcancel _ hall =>
    subst hswept
    cases h
    exact ⟨hcancel, rfl, rfl, hall⟩

/-- A lock that is in the store after an acquisition was there before, or was granted. -/
lemma mem_locks_of_acquire (h : lock ∈ (ls.acquireLockOwned K req env).2.locks) :
    lock ∈ ls.locks ∨ ∃ locked, (ls.acquireLockOwned K req env).1 = .ok (lock, locked) := by
  have hcases := acquisition K ls req env
  generalize ls.acquireLockOwned K req env = r at hcases h
  cases hcases with
  | cancelled => exact .inl h
  | refused => exact .inl (mem_filter.mp h).1
  | granted hswept =>
    subst hswept
    rcases mem_cons.mp h with rfl | h
    · exact .inr ⟨_, rfl⟩
    · exact .inl (mem_filter.mp h).1

/-- The features of a granted lock were asked for. -/
lemma has_of_granted (h : (ls.acquireLockOwned K req env).1 = .ok (lock, locked)) {key fid : Str}
    (hhas : Has lock.featureIDs key fid) : Has req.features key fid := by
  rcases granted_of_acquireLockOwned h with ⟨-, rfl, -, -⟩
  exact (has_withoutLocked.mp hhas).1

/-- A lock that is in the store after an operation was there before, or the operation
granted it. -/
lemma mem_locks_of_apply {op : LockOp} (h : lock ∈ (op.apply K s done).store.locks) :
    lock ∈ s.store.locks ∨ ∃ req env locked, op = .acquire req env ∧
      (s.store.acquireLockOwned K req env).1 = .ok (lock, locked) := by
  cases op with
  | acquire req env =>
    rcases mem_locks_of_acquire h with hold | ⟨locked, hok⟩
    · exact .inl hold
    · exact .inr ⟨req, env, locked, rfl, hok⟩
  | release lockID ownerID delete =>
    exact .inl ((releaseLockOwned_sublist s.store lockID ownerID delete).1.subset h)
  | sweep | clearWorkspace => exact .inl (mem_filter.mp h).1
  | deleteExpiredRows | deleteWorkspaceRows | wait => exact .inl h

@[simp] lemma apply_now (K : LockKeys) (s : LockState) (op : LockOp) (done : Nat) :
    (op.apply K s done).now = done := by
  cases op <;> rfl

lemma issued_subset_apply (K : LockKeys) (s : LockState) (op : LockOp) (done : Nat) :
    s.issued ⊆ (op.apply K s done).issued := by
  cases op with
  | acquire => exact subset_cons_of_subset _ fun _ h => h
  | _ => exact fun _ h => h

section Machine

variable {maxExpiry maxWorkspace maxPrincipal maxFeatures : Int}

lemma lockInv_init {s}
    (h : (lockMachine K maxExpiry maxWorkspace maxPrincipal maxFeatures).init s) : LockInv K s := by
  have hlocks : s.store.locks = [] := by
    rcases h.2.2.2 with hs | hs <;> rw [hs] <;> rfl
  refine ⟨?_, ?_, ?_, ?_, ?_⟩
  · simp [hlocks]
  · intro a b ha
    simp [LockState.Unexpired, hlocks] at ha
  · simp [hlocks]
  · simp [hlocks]
  · simp [hlocks]

lemma lockInv_step {s s'} {l} (h : LockInv K s)
    (hstep : (lockMachine K maxExpiry maxWorkspace maxPrincipal maxFeatures).step s l s') :
    LockInv K s' := by
  rcases l with ⟨op, done⟩
  rcases hstep with ⟨hnow, hadm, rfl⟩
  cases op with
  | acquire => exact lockInv_acquire h hadm.1 hnow
  | release lockID ownerID delete =>
    rcases releaseLockOwned_sublist s.store lockID ownerID delete with ⟨hsub, hlim⟩
    exact h.shrink hsub hlim (fun _ h => h) hnow
  | sweep | clearWorkspace => exact h.shrink filter_sublist ⟨rfl, rfl, rfl⟩ (fun _ h => h) hnow
  | deleteExpiredRows | deleteWorkspaceRows | wait =>
    exact h.shrink (List.Sublist.refl _) ⟨rfl, rfl, rfl⟩ (fun _ h => h) hnow

lemma lockInv_of_reachable {s}
    (h : (lockMachine K maxExpiry maxWorkspace maxPrincipal maxFeatures).Reachable s) :
    LockInv K s := by
  refine Machine.Reachable.induct ?_ ?_ h
  · intro s hs
    exact lockInv_init hs
  · intro s l t _ hs hstep
    exact lockInv_step hs hstep

/-- A failed acquisition only drops locks that have expired. -/
lemma unexpired_of_failed {s} {req} {env} {e} (htime : env.InTime s.now done)
    (herr : (s.store.acquireLockOwned K req env).1 = .error e) (lock : FeatureLock) :
    ((LockOp.acquire req env).apply K s done).Unexpired lock ↔
      lock ∈ s.store.locks ∧ lock.isExpired done = false := by
  have hcases := acquisition K s.store req env
  simp only [LockOp.apply, LockState.Unexpired]
  generalize s.store.acquireLockOwned K req env = r at hcases herr ⊢
  cases hcases with
  | cancelled => rfl
  | refused =>
    constructor
    · rintro ⟨hmem, hexp⟩
      exact ⟨(mem_filter.mp hmem).1, hexp⟩
    · rintro ⟨hmem, hexp⟩
      exact ⟨mem_filter.mpr ⟨hmem, by simp [unexpired_anti (htime.readAt_le _) hexp]⟩, hexp⟩
  | granted => cases herr

/-- No feature is under two locks, failed acquisitions change nothing, and no limit is
exceeded, whatever the operations before were. -/
theorem exclusive_of_reachable (K : LockKeys)
    (maxExpiry maxWorkspace maxPrincipal maxFeatures : Int) (s : LockState)
    (h : (lockMachine K maxExpiry maxWorkspace maxPrincipal maxFeatures).Reachable s) :
    Exclusive K s ∧ WithinLimits s.store ∧
      ∀ req env done s' e,
        (lockMachine K maxExpiry maxWorkspace maxPrincipal maxFeatures).step s
          (.acquire req env, done) s' →
        (s.store.acquireLockOwned K req env).1 = .error e →
        ∀ lock, s'.Unexpired lock ↔ lock ∈ s.store.locks ∧ lock.isExpired s'.now = false := by
  have hinv := lockInv_of_reachable h
  refine ⟨hinv.exclusive, hinv.limits, ?_⟩
  rintro req env done s' e ⟨-, hadm, rfl⟩ herr lock
  exact unexpired_of_failed hadm.1 herr lock

end Machine

/-! ### A store with two locks -/

/-- Reads the text form of `plainKeys`. -/
def plainDecode : Str → Option LockIdentity
  | '0' :: name => some ⟨[], name⟩
  | '1' :: c :: s => (plainDecode s).map fun i => ⟨c :: i.source, i.name⟩
  | _ => none

/-- Lock keys in a plain text form: each character of the source after a mark. -/
def plainKeys : LockKeys where
  digest s := 'd' :: s
  digest_ne_nil := by simp
  encode i := i.source.flatMap (fun c => ['1', c]) ++ '0' :: i.name
  decode := plainDecode
  decode_encode := by
    rintro ⟨source, name⟩
    induction source with
    | nil => rfl
    | cons c s ih =>
      simp only [flatMap_cons, cons_append, nil_append, plainDecode] at ih ⊢
      rw [ih]
      rfl

/-- An environment in which everything happens at one instant and no call fails. -/
def envAt (now : Nat) (lockID : Str) : AcquireEnv where
  cancelled := false
  sweep := ⟨now, fun _ => now⟩
  checkAt _ _ _ := now
  grantAt := now
  createdAt := now
  lockID := lockID
  put := .ok

lemma envAt_inTime (now : Nat) (lockID : Str) : (envAt now lockID).InTime now now :=
  ⟨le_rfl, fun _ => le_rfl, fun _ _ _ _ => le_rfl, fun _ _ _ => le_rfl, le_rfl, le_rfl⟩

/-- A request for one feature of a type. -/
def lockOne (action : LockAction) (typeName fid owner : Str) : AcquireRequest where
  workspaceID := "w"
  features := [(typeName, [fid])]
  expirySeconds := 60
  lockAction := action
  ownerID := owner

def emptyState (now : Nat) : LockState where
  store := newLockStore 0 0 0 0 (some [])
  now := now
  issued := []
  granted := []
  released := []

/-- A store with a lock on `Roads.1`. -/
def lockedRoads : LockState :=
  (LockOp.acquire (lockOne .all "Roads" "1" "ann")
    (envAt 7 "a")).apply plainKeys (emptyState 7) 7

lemma emptyState_init : (lockMachine plainKeys 0 0 0 0).init (emptyState 7) := ⟨rfl, rfl, rfl, .inr rfl⟩

lemma lockedRoads_step : (lockMachine plainKeys 0 0 0 0).step (emptyState 7)
    (.acquire (lockOne .all "Roads" "1" "ann") (envAt 7 "a"), 7) lockedRoads :=
  ⟨le_rfl, ⟨envAt_inTime 7 "a", not_mem_nil⟩, rfl⟩

/-- A second request for the feature is refused, under any name of its type. -/
theorem exclusive_of_reachable_sample :
    (Exclusive plainKeys lockedRoads ∧ WithinLimits lockedRoads.store) ∧
      (lockedRoads.store.acquireLockOwned plainKeys (lockOne .all "cite:Roads" "1"
        "bob") (envAt 9 "b")).1 = .error (.alreadyLocked ["Roads.1"]) := by
  have h := exclusive_of_reachable plainKeys 0 0 0 0 lockedRoads (.step (.init emptyState_init) lockedRoads_step)
  exact ⟨⟨h.1, h.2.1⟩, rfl⟩

end NeoServer.Wfs.Lock
