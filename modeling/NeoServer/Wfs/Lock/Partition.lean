import NeoServer.Wfs.Lock.Exclusion

/-!
# Wfs.Lock.Partition — what `lockAction="SOME"` grants

An acquisition of some features should grant those that are free and report the others.
The store tells the two apart by display ids, the local type name and the feature id
with a dot between them. Two features can have one display id: feature `road.7` of type
`town` and feature `7` of type `town.road`, or features of two sources whose types have
one local name. The grant is right just when no free feature has the display id of a
locked one (`some_partition_iff`).
-/

namespace NeoServer.Wfs.Lock

open LockStore

section Partition

variable (K : LockKeys) (ls : LockStore) (req : AcquireRequest) (env : AcquireEnv)

/-- A requested feature is under a lock that has not expired when it is looked at. -/
def HeldByOther (typeName fid : Str) : Prop :=
  ls.isFeatureLocked K (env.checkAt typeName fid) req.workspaceID typeName fid = true

/-- The lock covers the free features of the request, and the report names the others. -/
structure IsPartition (lock : FeatureLock) (report : List Str) : Prop where
  covers : ∀ typeName fid, Has lock.featureIDs typeName fid ↔
    Has req.features typeName fid ∧ ¬ HeldByOther K ls req env typeName fid
  reported : ∀ typeName fid, Has req.features typeName fid →
    (K.displayID typeName fid ∈ report ↔ HeldByOther K ls req env typeName fid)
  only : ∀ id ∈ report, ∃ typeName fid, Has req.features typeName fid ∧
    HeldByOther K ls req env typeName fid ∧ K.displayID typeName fid = id

/-- No free feature of the request has the display id of a locked one. -/
def DisplaySeparates : Prop :=
  ∀ t f t' f', Has req.features t f → Has req.features t' f' →
    HeldByOther K ls req env t f → ¬ HeldByOther K ls req env t' f' →
    K.displayID t f ≠ K.displayID t' f'

end Partition

variable {K : LockKeys} {ls : LockStore} {req : AcquireRequest} {env : AcquireEnv}

/-- A sweep before the check takes away only locks that the check would skip. -/
lemma isFeatureLocked_cleanExpired {start done : Nat} (htime : env.InTime start done)
    (ws typeName fid : Str) :
    (ls.cleanExpiredLocked env.sweep).isFeatureLocked K (env.checkAt typeName fid) ws typeName fid =
      ls.isFeatureLocked K (env.checkAt typeName fid) ws typeName fid := by
  rw [Bool.eq_iff_iff, isFeatureLocked_iff, isFeatureLocked_iff]
  constructor
  · rintro ⟨lock, hlock, hrest⟩
    exact ⟨lock, (List.mem_filter.mp hlock).1, hrest⟩
  · rintro ⟨lock, hlock, hexp, hrest⟩
    have hsweep := unexpired_anti (htime.check lock.lockID typeName fid lock.lockID) hexp
    exact ⟨lock, List.mem_filter.mpr ⟨hlock, by simp [hsweep]⟩, hexp, hrest⟩

/-- What a granted lock covers, and what is reported with it. -/
lemma acquireLockOwned_ok {start done : Nat} (htime : env.InTime start done)
    {lock} {report} (hok : (ls.acquireLockOwned K req env).1 = .ok (lock, report)) :
    (∀ id, id ∈ report ↔ ∃ t f, Has req.features t f ∧ HeldByOther K ls req env t f ∧
      K.displayID t f = id) ∧
    ∀ t f, Has lock.featureIDs t f ↔ Has req.features t f ∧ K.displayID t f ∉ report := by
  rcases granted_of_acquireLockOwned hok with ⟨-, rfl, rfl, -⟩
  constructor
  · intro id
    rw [mem_alreadyLocked]
    simp only [HeldByOther, isFeatureLocked_cleanExpired htime]
  · intro t f
    exact has_withoutLocked

/-- The grant and the report are right just when display ids tell free features from
locked ones. -/
theorem some_partition_iff (K : LockKeys) (ls : LockStore) (req : AcquireRequest)
    (env : AcquireEnv) (start done : Nat) (htime : env.InTime start done)
    (lock : FeatureLock) (report : List Str)
    (hok : (ls.acquireLockOwned K req env).1 = .ok (lock, report)) :
    IsPartition K ls req env lock report ↔ DisplaySeparates K ls req env := by
  rcases acquireLockOwned_ok htime hok with ⟨hreport, hcovers⟩
  constructor
  · intro h t f t' f' hreq hreq' hheld hfree heq
    -- the free feature shares its display id with a reported one, so it is not granted
    have hmem : K.displayID t' f' ∈ report := (hreport _).mpr ⟨t, f, hreq, hheld, heq⟩
    exact ((hcovers t' f').mp ((h.covers t' f').mpr ⟨hreq', hfree⟩)).2 hmem
  · intro hsep
    have hreported : ∀ t f, Has req.features t f →
        (K.displayID t f ∈ report ↔ HeldByOther K ls req env t f) := by
      intro t f hreq
      constructor
      · intro hmem
        rcases (hreport _).mp hmem with ⟨t', f', hreq', hheld', heq⟩
        by_contra hfree
        exact hsep t' f' t f hreq' hreq hheld' hfree heq
      · intro hheld
        exact (hreport _).mpr ⟨t, f, hreq, hheld, rfl⟩
    refine ⟨?_, hreported, ?_⟩
    · intro t f
      rw [hcovers]
      constructor
      · rintro ⟨hreq, hnot⟩
        exact ⟨hreq, fun hheld => hnot ((hreported t f hreq).mpr hheld)⟩
      · rintro ⟨hreq, hfree⟩
        exact ⟨hreq, fun hmem => hfree ((hreported t f hreq).mp hmem)⟩
    · intro id hid
      exact (hreport id).mp hid

/-! ### Dots -/

/-- The key of a type of the source with the same name. -/
def plainKey (name : Str) : Str := "@source-v1/" ++ plainKeys.encode ⟨'d' :: name, name⟩

/-- A store in which feature `7` of type `town.road` is locked. -/
def lockedTownRoad : LockStore :=
  ((emptyState 5).store.acquireLockOwned plainKeys
    (lockOne .all (plainKey "town.road") "7" "ann") (envAt 5 "a")).2

/-- A request for that feature and for feature `fid` of type `town`. -/
def lockTown (fid : Str) : AcquireRequest where
  workspaceID := "w"
  features := [(plainKey "town.road", ["7"]), (plainKey "town", [fid])]
  expirySeconds := 60
  lockAction := .some
  ownerID := "bob"

theorem some_partition_iff_sample :
    (lockedTownRoad.acquireLockOwned plainKeys (lockTown "8") (envAt 9 "b")).1 =
        .ok (⟨"b", "w", [(plainKey "town.road", []),
          (plainKey "town", ["8"])], 9 + 60 * second, "bob", 9⟩,
          ["town.road.7"]) ∧
      (IsPartition plainKeys lockedTownRoad (lockTown "8") (envAt 9 "b")
          ⟨"b", "w", [(plainKey "town.road", []),
            (plainKey "town", ["8"])], 9 + 60 * second, "bob", 9⟩
          ["town.road.7"] ↔
        DisplaySeparates plainKeys lockedTownRoad (lockTown "8") (envAt 9 "b")) :=
  ⟨rfl, some_partition_iff plainKeys lockedTownRoad _ _ 9 9 (envAt_inTime 9 "b") _ _ rfl⟩

/-- Feature `road.7` of type `town` is free, and is neither granted nor told from the
locked `7` of `town.road`. -/
theorem dotted_feature_not_granted :
    lockedTownRoad.isFeatureLocked plainKeys (fun _ => 9) "w" (plainKey "town")
        "road.7" = false ∧
      (lockedTownRoad.acquireLockOwned plainKeys (lockTown "road.7")
        (envAt 9 "b")).1 =
        .ok (⟨"b", "w", [(plainKey "town.road", []),
          (plainKey "town", [])], 9 + 60 * second, "bob", 9⟩,
          ["town.road.7"]) := by
  constructor <;> rfl

end NeoServer.Wfs.Lock
