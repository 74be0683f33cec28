import NeoServer.Wfs.Lock.Exclusion

/-!
# Wfs.Lock.Restore — locks across a restart

A process writes its locks through to a table, and the next one restores them from
there. The two are updated one after the other, and a delete that fails is only logged,
so the table can keep a lock whose release was confirmed.

- `Confirmed` : the steps that leave table and clients in agreement,
- `restore_exact` : after a run of such steps, what is restored is what clients hold.
-/

namespace NeoServer.Wfs.Lock

open LockStore List Table

/-! ## The condition -/

/-- A lock that was released is gone from the table, and an acquisition that failed has
left nothing in it. Workspaces are not cleared. -/
def Confirmed (s : LockState) (l : LockOp × Nat) (_ : LockState) : Prop :=
  match l.1 with
  | .acquire _ env => env.put ≠ .failed true
  | .release lockID ownerID delete =>
    (s.store.releaseLockOwned lockID ownerID delete).1 = .ok () → delete.applied = true
  | .clearWorkspace _ => False
  | .deleteWorkspaceRows _ _ => False
  | _ => True

/-! ## What clients hold -/

/-- A lock that a client was granted and was not told is released. -/
def LockState.Held (s : LockState) (lock : FeatureLock) : Prop :=
  lock ∈ s.granted ∧ lock.lockID ∉ s.released

/-- Memory and table agree with the clients on locks that have not expired. -/
structure Mirrored (s : LockState) : Prop where
  issued : ∀ lock ∈ s.store.locks, lock.lockID ∈ s.issued
  granted : ∀ lock ∈ s.granted, lock.lockID ∈ s.issued
  released : s.released ⊆ s.issued
  memory : ∀ lock, s.Held lock → lock.isExpired s.now = true ∨ lock ∈ s.store.locks
  rows : ∀ rows, s.store.persist = some rows →
    Table.Keyed FeatureLock.lockID rows ∧ (∀ lock ∈ rows, s.Held lock) ∧
      ∀ lock, s.Held lock → lock.expiresAt ≤ s.now ∨ lock ∈ rows

section Steps

variable {s : LockState}

/-- Nothing is granted or released, and only what has expired goes away. -/
lemma Mirrored.sweep {store : LockStore} {done : Nat} {issued} (h : Mirrored s)
    (hnow : s.now ≤ done) (hissued : s.issued ⊆ issued) (hsub : store.locks ⊆ s.store.locks)
    (hlocks : ∀ lock ∈ s.store.locks, lock ∈ store.locks ∨ lock.isExpired done = true)
    (hrows : ∀ rows', store.persist = some rows' → ∃ rows, s.store.persist = some rows ∧
      rows'.Sublist rows ∧ ∀ lock ∈ rows, lock ∈ rows' ∨ lock.expiresAt ≤ done) :
    Mirrored { s with store := store, now := done, issued := issued } := by
  refine ⟨fun lock hlock => hissued (h.issued lock (hsub hlock)),
    fun lock hlock => hissued (h.granted lock hlock), fun _ hid => hissued (h.released hid), ?_, ?_⟩
  · intro lock hlock
    rcases h.memory lock hlock with hexp | hmem
    · exact .inl (isExpired_mono hnow hexp)
    · exact (hlocks lock hmem).symm
  · intro rows' hrows'
    rcases hrows rows' hrows' with ⟨rows, hrows, hsubrows, hkept⟩
    rcases h.rows rows hrows with ⟨hkeyed, hsound, hcomplete⟩
    refine ⟨hkeyed.sublist (hsubrows.map _), fun l hl => hsound l (hsubrows.subset hl), ?_⟩
    intro lock hlock
    rcases hcomplete lock hlock with hexp | hmem
    · exact .inl (hexp.trans hnow)
    · exact (hkept lock hmem).symm

/-- Time passes. -/
lemma Mirrored.wait {done : Nat} {issued} (h : Mirrored s) (hnow : s.now ≤ done)
    (hissued : s.issued ⊆ issued) : Mirrored { s with now := done, issued := issued } := by
  refine h.sweep hnow hissued (fun _ hl => hl) (fun _ hl => .inl hl) ?_
  intro rows hrows
  exact ⟨rows, hrows, List.Sublist.refl _, fun _ hl => .inl hl⟩

/-- A new lock is in memory, in the table and with its client. -/
lemma Mirrored.grant {lock} (h : Mirrored s) (hnew : lock.lockID ∉ s.issued) :
    Mirrored { s with
      store := { s.store with
        locks := lock :: s.store.locks
        persist := s.store.persist.map (putRow lock) }
      issued := lock.lockID :: s.issued
      granted := lock :: s.granted } := by
  refine ⟨?_, ?_, fun _ hid => mem_cons_of_mem _ (h.released hid), ?_, ?_⟩
  · exact forall_mem_cons.mpr ⟨mem_cons_self, fun l hl => mem_cons_of_mem _ (h.issued l hl)⟩
  · exact forall_mem_cons.mpr ⟨mem_cons_self, fun l hl => mem_cons_of_mem _ (h.granted l hl)⟩
  · rintro l ⟨hl, hnot⟩
    rcases mem_cons.mp hl with rfl | hl
    · exact .inr mem_cons_self
    · exact (h.memory l ⟨hl, hnot⟩).imp_right (mem_cons_of_mem _)
  · intro rows' hrows'
    rcases Option.map_eq_some_iff.mp hrows' with ⟨rows, hpersist, rfl⟩
    rcases h.rows rows hpersist with ⟨hkeyed, hsound, hcomplete⟩
    refine ⟨hkeyed.put lock, ?_, ?_⟩
    · intro l hl
      rcases mem_put.mp hl with rfl | ⟨hl, -⟩
      · exact ⟨mem_cons_self, fun hid => hnew (h.released hid)⟩
      · exact (hsound l hl).imp_left (mem_cons_of_mem _)
    · rintro l ⟨hl, hnot⟩
      rcases mem_cons.mp hl with rfl | hl
      · exact .inr (mem_put.mpr (.inl rfl))
      · have hne : l.lockID ≠ lock.lockID := fun hid => hnew (hid ▸ h.granted l hl)
        exact (hcomplete l ⟨hl, hnot⟩).imp_right fun hmem => mem_put.mpr (.inr ⟨hmem, hne⟩)

/-- A lock is released in memory, in the table and with its client. -/
lemma Mirrored.release {lockID : Str} (h : Mirrored s) (hknown : lockID ∈ s.issued) :
    Mirrored { s with
      store := { s.store with
        locks := delete FeatureLock.lockID lockID s.store.locks
        persist := s.store.persist.map (delete FeatureLock.lockID lockID) }
      released := lockID :: s.released } := by
  refine ⟨fun l hl => h.issued l (mem_delete.mp hl).1, h.granted,
    forall_mem_cons.mpr ⟨hknown, fun _ hid => h.released hid⟩, ?_, ?_⟩
  · rintro l ⟨hl, hnot⟩
    rw [mem_cons, not_or] at hnot
    exact (h.memory l ⟨hl, hnot.2⟩).imp_right fun hmem => mem_delete.mpr ⟨hmem, hnot.1⟩
  · intro rows' hrows'
    rcases Option.map_eq_some_iff.mp hrows' with ⟨rows, hpersist, rfl⟩
    rcases h.rows rows hpersist with ⟨hkeyed, hsound, hcomplete⟩
    refine ⟨hkeyed.filter _, ?_, ?_⟩
    · intro l hl
      rcases mem_delete.mp hl with ⟨hl, hne⟩
      exact (hsound l hl).imp_right fun hnot => not_mem_cons_of_ne_of_not_mem hne hnot
    · rintro l ⟨hl, hnot⟩
      rw [mem_cons, not_or] at hnot
      exact (hcomplete l ⟨hl, hnot.2⟩).imp_right fun hmem => mem_delete.mpr ⟨hmem, hnot.1⟩

end Steps

/-! ## Runs -/

section Machine

variable {K : LockKeys}

variable {s : LockState} {done : Nat}

/-- The sweep at the start of an acquisition. -/
lemma Mirrored.cleanExpired {sweep : Sweep} {issued}
    (h : Mirrored s) (hnow : s.now ≤ done) (hread : ∀ id, sweep.readAt id ≤ done)
    (hissued : s.issued ⊆ issued) :
    Mirrored { s with
      store := s.store.cleanExpiredLocked sweep
      now := done
      issued := issued } := by
  refine h.sweep hnow hissued (fun _ hl => (mem_filter.mp hl).1) ?_ ?_
  · intro lock hlock
    cases hexp : lock.isExpired (sweep.readAt lock.lockID) with
    | false => exact .inl (mem_filter.mpr ⟨hlock, by simp [hexp]⟩)
    | true => exact .inr (isExpired_mono (hread lock.lockID) hexp)
  · intro rows hrows
    exact ⟨rows, hrows, List.Sublist.refl _, fun _ hl => .inl hl⟩

lemma mirrored_acquire {req} {env}
    (h : Mirrored s) (hnow : s.now ≤ done) (htime : env.InTime s.now done)
    (hnew : env.lockID ∉ s.issued) (hput : env.put ≠ .failed true) :
    Mirrored ((LockOp.acquire req env).apply K s done) := by
  have hissued : s.issued ⊆ env.lockID :: s.issued := subset_cons_of_subset _ fun _ h => h
  have hcases := acquisition K s.store req env
  simp only [LockOp.apply]
  generalize s.store.acquireLockOwned K req env = r at hcases ⊢
  cases hcases with
  | cancelled => exact h.wait hnow hissued
  | refused _ hrows =>
    rw [hrows hput]
    exact h.cleanExpired hnow htime.readAt_le hissued
  | granted hswept =>
    subst hswept
    exact (h.cleanExpired hnow htime.readAt_le (fun _ h => h)).grant hnew

lemma mirrored_release {lockID ownerID : Str} {delete : Call}
    (h : Mirrored s) (hnow : s.now ≤ done)
    (hdelete : (s.store.releaseLockOwned lockID ownerID delete).1 = .ok () →
      delete.applied = true) :
    Mirrored ((LockOp.release lockID ownerID delete).apply K s done) := by
  unfold LockOp.apply
  dsimp only
  rcases releaseLockOwned_cases s.store lockID ownerID delete with ⟨e, hr⟩ | ⟨lock, hget, -, hr⟩
  · rw [hr]
    exact h.wait hnow fun _ h => h
  rw [hr] at hdelete ⊢
  rcases mem_of_getLock s.store hget with ⟨hmem, hid⟩
  simp only [deleteLock, onTable, hdelete rfl, if_true]
  exact (h.wait hnow fun _ h => h).release (hid ▸ h.issued lock hmem)

variable {maxExpiry maxWorkspace maxPrincipal maxFeatures : Int}

lemma mirrored_init {s}
    (h : (lockMachine K maxExpiry maxWorkspace maxPrincipal maxFeatures).init s) : Mirrored s := by
  rcases h with ⟨hissued, hgranted, hreleased, hstore⟩
  have hlocks : s.store.locks = [] := by
    rcases hstore with hs | hs <;> rw [hs] <;> rfl
  have hheld : ∀ lock, ¬ s.Held lock := by
    intro lock hl
    rw [LockState.Held, hgranted] at hl
    simp at hl
  refine ⟨by simp [hlocks], by simp [hgranted], by simp [hreleased], ?_, ?_⟩
  · intro lock hl
    exact absurd hl (hheld lock)
  · intro rows hrows
    have hempty : rows = [] := by
      rcases hstore with hs | hs <;> rw [hs] at hrows <;> simp_all [newLockStore]
    subst hempty
    exact ⟨nodup_nil, by simp, fun lock hl => absurd hl (hheld lock)⟩

lemma mirrored_step {s s'} {l} (h : Mirrored s)
    (hstep : (lockMachine K maxExpiry maxWorkspace maxPrincipal maxFeatures).step s l s')
    (hcond : Confirmed s l s') : Mirrored s' := by
  rcases l with ⟨op, done⟩
  rcases hstep with ⟨hnow, hadm, rfl⟩
  cases op with
  | acquire => exact mirrored_acquire h hnow hadm.1 hadm.2 hcond
  | release => exact mirrored_release h hnow hcond
  | sweep => exact h.cleanExpired hnow (fun id => (hadm id).2) (fun _ h => h)
  | deleteExpiredRows now =>
    refine h.sweep hnow (fun _ h => h) (fun _ hl => hl) (fun _ hl => .inl hl) ?_
    intro rows' hrows'
    rcases Option.map_eq_some_iff.mp hrows' with ⟨rows, hrows, rfl⟩
    refine ⟨rows, hrows, ?_⟩
    split
    · refine ⟨filter_sublist, ?_⟩
      intro lock hl
      by_cases hexp : now < lock.expiresAt
      · exact .inl (mem_filter.mpr ⟨hl, by simpa using hexp⟩)
      · exact .inr ((Nat.le_of_not_lt hexp).trans hadm.2)
    · exact ⟨List.Sublist.refl _, fun _ hl => .inl hl⟩
  | clearWorkspace | deleteWorkspaceRows => exact hcond.elim
  | wait => exact h.wait hnow fun _ h => h

/-- The locks of the process that starts next. -/
def restored (maxExpiry maxWorkspace maxPrincipal maxFeatures : Int) (rows : List FeatureLock)
    (listAt t : Nat) : LockStore :=
  (newLockStore maxExpiry maxWorkspace maxPrincipal maxFeatures (some rows)).restore
    (listWFSLocks rows listAt) t

lemma mem_restored {rows} {listAt t : Nat} {lock}
    (hkeyed : Table.Keyed FeatureLock.lockID rows) (hlist : listAt ≤ t) :
    lock ∈ (restored maxExpiry maxWorkspace maxPrincipal maxFeatures rows listAt t).locks ↔
      lock ∈ rows ∧ t < lock.expiresAt := by
  unfold restored restore listWFSLocks
  rw [mem_foldl_put ((hkeyed.filter _).filter _)]
  simp only [newLockStore, not_mem_nil, false_and, or_false, mem_filter,
    decide_eq_true_eq, and_assoc]
  constructor
  · rintro ⟨hrow, -, hexp⟩
    exact ⟨hrow, hexp⟩
  · rintro ⟨hrow, hexp⟩
    exact ⟨hrow, by omega, hexp⟩

/-- After a run in which deletes of released locks and failed acquisitions left the table
as the client was told, the restored locks are those that clients hold and that have not
expired, and no two of them cover one feature. -/
theorem restore_exact (K : LockKeys) (maxExpiry maxWorkspace maxPrincipal maxFeatures : Int)
    (s : LockState) (h : ((lockMachine K maxExpiry maxWorkspace maxPrincipal maxFeatures).restrict
      Confirmed).Reachable s)
    (rows : List FeatureLock) (hrows : s.store.persist = some rows) (listAt t : Nat)
    (hnow : s.now ≤ listAt) (hlist : listAt ≤ t)
    (hinstant : ∀ lock ∈ s.granted, lock.expiresAt ≠ t) :
    (∀ lock, lock ∈ (restored maxExpiry maxWorkspace maxPrincipal maxFeatures rows listAt t).locks ↔
      s.Held lock ∧ lock.isExpired t = false) ∧
    ∀ a ∈ (restored maxExpiry maxWorkspace maxPrincipal maxFeatures rows listAt t).locks,
    ∀ b ∈ (restored maxExpiry maxWorkspace maxPrincipal maxFeatures rows listAt t).locks,
      a.lockID ≠ b.lockID → a.workspaceID = b.workspaceID → ¬ Overlap K a b := by
  have hmirror : Mirrored s := by
    refine Machine.Reachable.induct ?_ ?_ h
    · intro s hs
      exact mirrored_init (K := K) hs
    · intro s l t _ hs hstep
      exact mirrored_step hs hstep.1 hstep.2
  have hexclusive := (lockInv_of_reachable h.of_restrict).exclusive
  rcases hmirror.rows rows hrows with ⟨hkeyed, hsound, hcomplete⟩
  have hmem : ∀ lock,
      lock ∈ (restored maxExpiry maxWorkspace maxPrincipal maxFeatures rows listAt t).locks ↔
        s.Held lock ∧ lock.isExpired t = false := by
    intro lock
    rw [mem_restored hkeyed hlist]
    simp only [FeatureLock.isExpired, decide_eq_false_iff_not, Nat.not_lt]
    constructor
    · rintro ⟨hrow, hexp⟩
      exact ⟨hsound lock hrow, hexp.le⟩
    · rintro ⟨hheld, hexp⟩
      have hlt : t < lock.expiresAt := lt_of_le_of_ne hexp (hinstant lock hheld.1).symm
      rcases hcomplete lock hheld with hearly | hrow
      · omega
      · exact ⟨hrow, hlt⟩
  refine ⟨hmem, ?_⟩
  -- held locks that have not expired are still in memory, where no two overlap
  have hunexpired : ∀ lock, s.Held lock ∧ lock.isExpired t = false → s.Unexpired lock := by
    rintro lock ⟨hheld, hexp⟩
    have hexp' := unexpired_anti (hnow.trans hlist) hexp
    rcases hmirror.memory lock hheld with hgone | hlock
    · rw [hgone] at hexp'
      cases hexp'
    · exact ⟨hlock, hexp'⟩
  intro a ha b hb hne hws
  exact hexclusive a b (hunexpired a ((hmem a).mp ha)) (hunexpired b ((hmem b).mp hb)) hne hws

end Machine

/-! ### A delete that fails -/

/-- The lock of `lockedRoads`. -/
def roadsLock : FeatureLock where
  lockID := "a"
  workspaceID := "w"
  featureIDs := [("Roads", ["1"])]
  expiresAt := 7 + 60 * second
  ownerID := "ann"
  createdAt := 7

/-- A restart keeps the lock of `lockedRoads`. -/
theorem restore_exact_sample :
    roadsLock ∈ (restored 0 0 0 0 [roadsLock] 8 9).locks ∧ lockedRoads.Held roadsLock := by
  have hinstant : ∀ lock ∈ lockedRoads.granted, lock.expiresAt ≠ 9 := by
    intro lock hlock
    obtain rfl : lock = roadsLock := by
      simpa using (show lock ∈ [roadsLock] from hlock)
    decide
  have hreach : ((lockMachine plainKeys 0 0 0 0).restrict Confirmed).Reachable lockedRoads :=
    .step (.init emptyState_init) ⟨lockedRoads_step, by simp [Confirmed, envAt]⟩
  have h := restore_exact plainKeys 0 0 0 0 lockedRoads hreach [roadsLock] rfl 8 9
    (by decide) (by decide) hinstant
  have hmem : roadsLock ∈ (restored 0 0 0 0 [roadsLock] 8 9).locks := mem_singleton.mpr rfl
  exact ⟨hmem, ((h.1 roadsLock).mp hmem).1⟩

/-- The client releases the lock and the delete fails. -/
def releasedRoads : LockState :=
  (LockOp.release "a" "ann" (.failed false)).apply plainKeys lockedRoads 8

/-- The release was confirmed, and the next process has the lock again. -/
theorem released_lock_comes_back :
    (lockedRoads.store.releaseLockOwned "a".toList "ann".toList (.failed false)).1 = .ok () ∧
      releasedRoads.store.persist = some [roadsLock] ∧ releasedRoads.released = ["a".toList] ∧
      (restored 0 0 0 0 [roadsLock] 9 10).locks = [roadsLock] :=
  ⟨rfl, rfl, rfl, rfl⟩

end NeoServer.Wfs.Lock
