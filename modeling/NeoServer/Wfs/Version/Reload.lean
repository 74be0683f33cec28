import Mathlib
import NeoServer.Wfs.Version.Mirror

/-!
# Wfs.Version.Reload — histories after a restart

At the start of a process the histories are read back from the table, in the order of its
key.

- `mirrored_of_reachable` : histories and table are in step in every run of regular batches,
- `reload_exact` : so what is read back is what was in memory.
-/

namespace NeoServer.Wfs.Version

open Transaction List

/-! ## The process -/

/-- The order of `ListWFSFeatureVersions`. -/
def rowOrder (v : FeatureVersion) : Str ×ₗ Str ×ₗ Str ×ₗ Nat :=
  toLex (v.workspaceID, toLex (v.layerID, toLex (v.featureID, v.version)))

def RowLe (a b : FeatureVersion) : Prop := rowOrder a ≤ rowOrder b

instance : DecidableRel RowLe := fun a b => inferInstanceAs (Decidable (rowOrder a ≤ rowOrder b))

def listWFSFeatureVersions (rows : List FeatureVersion) : List FeatureVersion :=
  rows.insertionSort RowLe

/-- One row of `restore`. -/
def restoreRow (vs : VersionStore) (record : FeatureVersion) : VersionStore :=
  let key := featureKey record.layerID record.featureID
  vs.set record.workspaceID (Table.put Prod.fst
    (key, vs.history record.workspaceID key ++ [record]) (vs.versions record.workspaceID))

def VersionStore.restore (vs : VersionStore) (records : List FeatureVersion) : VersionStore :=
  records.foldl restoreRow vs

/-- The histories of the process that starts next. -/
def reload (maxFeatures maxVersions : Int) (rows : List FeatureVersion) : VersionStore :=
  (newVersionStore maxFeatures maxVersions).restore (listWFSFeatureVersions rows)

/-- The loop of `recordEvents`, with what each event takes from outside. -/
def recordEvents (vs : VersionStore) (ws owner : Str) :
    List (VersionEvent × RecordEnv) → VersionStore × List VersionChange
  | [] => (vs, [])
  | (event, env) :: rest =>
    let recorded := recordEvent vs ws owner event env
    let others := recordEvents recorded.1 ws owner rest
    (others.1, recorded.2 ++ others.2)

/-- What the environment may choose for the events of a batch. -/
def AdmissibleEvents (vs : VersionStore) (ws owner : Str) : List (VersionEvent × RecordEnv) → Prop
  | [] => True
  | (event, env) :: rest => env.Admissible (vs.versions ws) ∧
      AdmissibleEvents (recordEvent vs ws owner event env).1 ws owner rest

structure Recorded where
  store : VersionStore
  rows : List FeatureVersion

/-- The events of a transaction. -/
structure BatchOp where
  ws : Str
  owner : Str
  events : List (VersionEvent × RecordEnv)

/-- A process and the table, when every batch is written. -/
def batchMachine (maxFeatures maxVersions : Int) : Machine Recorded BatchOp where
  init s := s = ⟨newVersionStore maxFeatures maxVersions, []⟩
  step s op s' := AdmissibleEvents s.store op.ws op.owner op.events ∧
    s' = ⟨(recordEvents s.store op.ws op.owner op.events).1,
      applyWFSVersionChanges s.rows (recordEvents s.store op.ws op.owner op.events).2⟩

/-! ## What is to hold -/

/-- Every feature has the history after a restart that it has in memory. -/
def Reloads (maxFeatures maxVersions : Int) (s : Recorded) : Prop :=
  ∀ ws layerID featureID,
    (reload maxFeatures maxVersions s.rows).history ws (featureKey layerID featureID) =
      s.store.history ws (featureKey layerID featureID)

/-- The events of a batch, each in the store that it finds. -/
def RegularEvents (vs : VersionStore) (ws owner : Str) : List (VersionEvent × RecordEnv) → Prop
  | [] => True
  | (event, env) :: rest => Regular vs ws event env ∧
      RegularEvents (recordEvent vs ws owner event env).1 ws owner rest

/-! ## Batches keep histories and rows in step -/

section Runs

variable {vs : VersionStore} {rows : List FeatureVersion} {ws : Str}

/-- The events of a batch, one after the other. -/
lemma mirrored_recordEvents (hm : Mirrored vs rows) {owner : Str}
    {events} (horder : AdmissibleEvents vs ws owner events)
    (hr : RegularEvents vs ws owner events) :
    Mirrored (recordEvents vs ws owner events).1
      (applyAll rows (recordEvents vs ws owner events).2) := by
  induction events generalizing vs rows with
  | nil => exact hm
  | cons e rest ih =>
    unfold recordEvents
    rw [applyAll_append]
    exact ih (mirrored_recordEvent hm horder.1 hr.1) horder.2 hr.2

/-- A table with the same rows. -/
lemma Mirrored.of_mem_iff {rows'} (hm : Mirrored vs rows)
    (hkeyed : Table.Keyed rowKey rows') (hsame : ∀ r, r ∈ rows' ↔ r ∈ rows) : Mirrored vs rows' :=
  ⟨hm.well, hkeyed, hm.owned, fun r => (hsame r).trans (hm.rows r)⟩

theorem mirrored_of_reachable {maxFeatures maxVersions : Int} {s}
    (h : ((batchMachine maxFeatures maxVersions).restrict fun s op _ =>
      RegularEvents s.store op.ws op.owner op.events).Reachable s) : Mirrored s.store s.rows := by
  refine Machine.Reachable.induct (I := fun s => Mirrored s.store s.rows) ?_ ?_ h
  · rintro s rfl
    refine ⟨wellNumbered_newVersionStore _ _, nodup_nil, fun ws key => owned_nil ws key, ?_⟩
    intro r
    exact ⟨nofun, nofun⟩
  · rintro s op s' - hm ⟨⟨horder, rfl⟩, hr⟩
    apply (mirrored_recordEvents hm horder hr).of_mem_iff
    · exact keyed_applyWFSVersionChanges hm.keyed _
    · exact mem_applyWFSVersionChanges hm.keyed _
end Runs

/-! ## What is read back -/

section Restart

lemma history_restoreRow (vs : VersionStore) (record : FeatureVersion) (ws key : Str) :
    (restoreRow vs record).history ws key = vs.history ws key ++
      [record].filter fun r => r.workspaceID = ws ∧ featureKey r.layerID r.featureID = key := by
  unfold restoreRow
  rw [history_put]
  by_cases hhere : record.workspaceID = ws ∧ featureKey record.layerID record.featureID = key
  · rw [if_pos ⟨hhere.1.symm, hhere.2.symm⟩, hhere.1, hhere.2,
      filter_cons_of_pos (by simpa using hhere)]
    rfl
  · rw [if_neg fun h => hhere ⟨h.1.symm, h.2.symm⟩,
      filter_cons_of_neg (by simpa using hhere), filter_nil, append_nil]

/-- Rows are appended to the history of their feature, in the order of the rows. -/
lemma history_restore (vs : VersionStore) (records : List FeatureVersion) (ws key : Str) :
    (vs.restore records).history ws key = vs.history ws key ++
      records.filter fun r => r.workspaceID = ws ∧ featureKey r.layerID r.featureID = key := by
  induction records generalizing vs with
  | nil => exact (append_nil _).symm
  | cons record rest ih =>
    change ((restoreRow vs record).restore rest).history ws key = _
    rw [ih, history_restoreRow, append_assoc, ← filter_append]
    rfl

instance : Std.Total RowLe := ⟨fun a b => le_total (rowOrder a) (rowOrder b)⟩

instance : IsTrans FeatureVersion RowLe := ⟨fun _ _ _ hab hbc => le_trans hab hbc⟩

lemma version_le_of_rowLe {a b} (h : RowLe a b) (hws : a.workspaceID = b.workspaceID)
    (hlayer : a.layerID = b.layerID) (hfeature : a.featureID = b.featureID) :
    a.version ≤ b.version := by
  unfold RowLe rowOrder at h
  rw [hws, hlayer, hfeature] at h
  simpa [Prod.Lex.toLex_le_toLex] using h
/-- The rows of a history come in the order of their numbers. -/
lemma pairwise_listed {rows} {h : History} {ws key : Str}
    (hkeyed : Table.Keyed rowKey rows) (ho : Owned ws key h)
    (hmem : ∀ r ∈ rows, r.workspaceID = ws → featureKey r.layerID r.featureID = key → r ∈ h) :
    ((listWFSFeatureVersions rows).filter fun r =>
      r.workspaceID = ws ∧ featureKey r.layerID r.featureID = key).Pairwise
        fun a b => a.version < b.version := by
  have hsorted : (listWFSFeatureVersions rows).Pairwise RowLe :=
    pairwise_insertionSort RowLe rows
  have hdistinct : (listWFSFeatureVersions rows).Pairwise fun a b => rowKey a ≠ rowKey b := by
    have hperm : ((listWFSFeatureVersions rows).map rowKey).Nodup :=
      ((perm_insertionSort RowLe rows).map rowKey).nodup_iff.mpr hkeyed
    exact pairwise_map.mp hperm
  have hboth := (hsorted.and hdistinct).sublist (filter_sublist
    (p := fun r => r.workspaceID = ws ∧ featureKey r.layerID r.featureID = key))
  refine hboth.imp_of_mem ?_
  rintro a b ha hb ⟨hle, hne⟩
  have hin : ∀ r ∈ (listWFSFeatureVersions rows).filter fun r =>
      r.workspaceID = ws ∧ featureKey r.layerID r.featureID = key, r ∈ h := by
    intro r hr
    rcases mem_filter.mp hr with ⟨hr, hhere⟩
    have hhere := of_decide_eq_true hhere
    exact hmem r ((perm_insertionSort RowLe rows).mem_iff.mp hr) hhere.1 hhere.2
  have hws : a.workspaceID = b.workspaceID :=
    (ho.fits a (hin a ha)).feature.1.trans (ho.fits b (hin b hb)).feature.1.symm
  have hlayer : a.layerID = b.layerID := ho.layer a (hin a ha) b (hin b hb)
  have hfeature : a.featureID = b.featureID := by
    have hkeys := (ho.key a (hin a ha)).trans (ho.key b (hin b hb)).symm
    rw [hlayer] at hkeys
    exact featureID_of_featureKey hkeys
  have hle := version_le_of_rowLe hle hws hlayer hfeature
  have hnumber : a.version ≠ b.version := by
    intro heq
    apply hne
    unfold rowKey
    rw [hws, hlayer, hfeature, heq]
  omega

/-- A table in step with the histories is read back as they are. -/
lemma Mirrored.reloads {vs} {rows} (hm : Mirrored vs rows)
    (maxFeatures maxVersions : Int) : Reloads maxFeatures maxVersions ⟨vs, rows⟩ := by
  intro ws layerID featureID
  generalize featureKey layerID featureID = key
  have ho := hm.owned ws key
  have hmem : ∀ r ∈ rows, r.workspaceID = ws → featureKey r.layerID r.featureID = key →
      r ∈ vs.history ws key := by
    rintro r hr rfl rfl
    exact (hm.rows r).mp hr
  have hlisted := pairwise_listed hm.keyed ho hmem
  have hinc : (vs.history ws key).Pairwise fun a b => a.version < b.version :=
    pairwise_map.mp (hm.well.history ws key).increasing
  have hread : (reload maxFeatures maxVersions rows).history ws key =
      (listWFSFeatureVersions rows).filter fun r =>
        r.workspaceID = ws ∧ featureKey r.layerID r.featureID = key := by
    unfold reload
    rw [history_restore]
    rfl
  rw [hread]
  -- both are in the order of the numbers, and have the same versions
  refine List.Perm.eq_of_pairwise ?_ hlisted hinc ?_
  · intro a b _ _ hab hba
    omega
  · rw [perm_ext_iff_of_nodup (hlisted.imp fun hlt heq => hlt.ne (congrArg _ heq))
      (hinc.imp fun hlt heq => hlt.ne (congrArg _ heq))]
    intro r
    rw [mem_filter, listWFSFeatureVersions, (perm_insertionSort RowLe rows).mem_iff]
    constructor
    · rintro ⟨hr, hhere⟩
      have hhere := of_decide_eq_true hhere
      exact hmem r hr hhere.1 hhere.2
    · intro hr
      have hws : r.workspaceID = ws := (ho.fits r hr).feature.1
      have hkey := ho.key r hr
      refine ⟨?_, decide_eq_true ⟨hws, hkey⟩⟩
      rw [hm.rows, hws, hkey]
      exact hr

end Restart

/-- In every run of batches of regular events, a restart reads back the histories in memory. -/
theorem reload_exact (maxFeatures maxVersions : Int) (s : Recorded)
    (h : ((batchMachine maxFeatures maxVersions).restrict fun s op _ =>
      RegularEvents s.store op.ws op.owner op.events).Reachable s) :
    Reloads maxFeatures maxVersions s :=
  (mirrored_of_reachable h).reloads maxFeatures maxVersions

/-! ### A feature that is inserted again -/

/-- A batch with one event on feature `1` of `Roads`. -/
def roadBatch (action : VersionAction) (now : Nat) (order : List Str) : BatchOp where
  ws := "w"
  owner := "ann"
  events := [(⟨action, "Roads", "1"⟩, ⟨now, order⟩)]

/-- Process and table after a batch. -/
def afterBatch (s : Recorded) (op : BatchOp) : Recorded :=
  ⟨(recordEvents s.store op.ws op.owner op.events).1,
    applyWFSVersionChanges s.rows (recordEvents s.store op.ws op.owner op.events).2⟩

/-- Process and table after the feature was inserted and updated. -/
def updatedRoad : Recorded :=
  [roadBatch .insert 5000 [], roadBatch .update 6000 roadKeys].foldl afterBatch
    ⟨newVersionStore 0 0, []⟩

theorem reload_exact_sample :
    updatedRoad.store.history "w" "Roads:1" =
      [roadVersion 1 5000 .superseded [], roadVersion 2 6000 .valid "Roads.1@1"] ∧
    Reloads 0 0 updatedRoad := by
  refine ⟨by decide, reload_exact 0 0 _ ?_⟩
  refine .step (l := roadBatch .update 6000 roadKeys) (.step (l := roadBatch .insert 5000 [])
    (.init rfl) ⟨⟨⟨List.Perm.refl _, trivial⟩, rfl⟩, ?_⟩) ⟨⟨⟨List.Perm.refl _, trivial⟩, rfl⟩, ?_⟩
  · refine ⟨⟨?_, ?_, ?_, rfl⟩, trivial⟩
    · rintro v ⟨⟩
    · rintro _ v ⟨⟩
    · rintro ⟨⟩
  · refine ⟨⟨?_, ?_, ?_, rfl⟩, trivial⟩
    · intro v hv
      rw [mem_singleton.mp hv]
      rfl
    · rintro ⟨⟩
    · rintro _ v ⟨⟩
      rfl

/-- Process and table after the feature was inserted, updated, deleted and inserted again. -/
def insertedAgain : Recorded :=
  [roadBatch .insert 5000 [], roadBatch .update 6000 roadKeys, roadBatch .delete 7000 roadKeys,
    roadBatch .insert 8000 roadKeys].foldl afterBatch ⟨newVersionStore 0 0, []⟩

/-- The second version of the feature that was deleted is read back. -/
theorem deleted_version_reloaded :
    (batchMachine 0 0).Reachable insertedAgain ∧
    insertedAgain.store.history "w" "Roads:1" = [roadVersion 1 8000 .valid []] ∧
    (reload 0 0 insertedAgain.rows).history "w" "Roads:1" =
      [roadVersion 1 8000 .valid [], roadVersion 2 6000 .retired "Roads.1@1"] ∧
    ¬ Reloads 0 0 insertedAgain := by
  have hmemory : insertedAgain.store.history "w" "Roads:1" =
      [roadVersion 1 8000 .valid []] := by decide
  have hread : (reload 0 0 insertedAgain.rows).history "w" "Roads:1" =
      [roadVersion 1 8000 .valid [], roadVersion 2 6000 .retired "Roads.1@1"] := by decide
  refine ⟨?_, hmemory, hread, ?_⟩
  · refine .step (l := roadBatch .insert 8000 roadKeys) (.step (l := roadBatch .delete 7000 roadKeys)
      (.step (l := roadBatch .update 6000 roadKeys) (.step (l := roadBatch .insert 5000 [])
      (.init rfl) ⟨⟨List.Perm.refl _, trivial⟩, rfl⟩) ⟨⟨List.Perm.refl _, trivial⟩, rfl⟩)
      ⟨⟨List.Perm.refl _, trivial⟩, rfl⟩) ⟨⟨List.Perm.refl _, trivial⟩, rfl⟩
  · intro hreloads
    have heq := hreloads "w" "Roads" "1"
    cases heq

end NeoServer.Wfs.Version
