import NeoServer.Wfs.Version.Store

/-!
# Wfs.Version.Batch — the table of versions, and its transactions

The changes of a batch of events are written to a table in one transaction of the
catalog: upserts are gathered, the last one for a key counts, and they are written before
a deletion and when there are many of them.

- `sim_applyChange` : a transaction has the effect of its changes one by one,
- `mem_applyWFSVersionChanges` : so it leaves the rows that they leave.
-/

namespace NeoServer.Wfs.Version

open List

/-! ## The table -/

/-- The primary key of `wfs_feature_versions`. -/
def rowKey (v : FeatureVersion) : Str × Str × Str × Nat :=
  (v.workspaceID, v.layerID, v.featureID, v.version)

/-- A row of a feature. -/
def OfFeature (ws layerID featureID : Str) (v : FeatureVersion) : Prop :=
  v.workspaceID = ws ∧ v.layerID = layerID ∧ v.featureID = featureID

instance (ws layerID featureID : Str) (v : FeatureVersion) :
    Decidable (OfFeature ws layerID featureID v) :=
  inferInstanceAs (Decidable (_ ∧ _ ∧ _))

/-- A change that deletes rows. -/
def VersionChange.Deletes (c : VersionChange) : Prop := c.deleteAll = true ∨ 0 < c.minVersion

instance (c : VersionChange) : Decidable c.Deletes := inferInstanceAs (Decidable (_ ∨ _))

/-- The rows of the feature of the record are deleted, or those below a version. -/
def deleteRows (c : VersionChange) (rows : List FeatureVersion) : List FeatureVersion :=
  rows.filter fun r => ¬ (OfFeature c.record.workspaceID c.record.layerID c.record.featureID r ∧
    (c.deleteAll = true ∨ r.version < c.minVersion))

/-- A record as a row: the column of the time has microseconds, the clock has nanoseconds. -/
def stored (v : FeatureVersion) : FeatureVersion :=
  { v with createdAt := v.createdAt / 1000 * 1000 }

/-- A transaction of the catalog, with the upserts that it has not written yet. -/
structure Batch where
  pending : List FeatureVersion
  rows : List FeatureVersion

/-- The closure `flush` of `ApplyWFSVersionChanges`. -/
def Batch.flush (b : Batch) : Batch :=
  ⟨[], b.pending.foldl (fun rows row => Table.put rowKey row rows) b.rows⟩

/-- The last upsert for a key counts, at the place of the first. -/
def setPending (record : FeatureVersion) (pending : List FeatureVersion) : List FeatureVersion :=
  if pending.any fun r => rowKey r = rowKey record then
    pending.map fun r => if rowKey r = rowKey record then record else r
  else pending ++ [record]

/-- One round of the loop of `ApplyWFSVersionChanges`. -/
def applyChange (b : Batch) (c : VersionChange) : Batch :=
  if c.Deletes then ⟨[], deleteRows c b.flush.rows⟩
  else
    let b' : Batch := ⟨setPending (stored c.record) b.pending, b.rows⟩
    if 2048 ≤ b'.pending.length then b'.flush else b'

def applyWFSVersionChanges (rows : List FeatureVersion) (changes : List VersionChange) :
    List FeatureVersion :=
  (changes.foldl applyChange ⟨[], rows⟩).flush.rows

/-! ## A batch has the effect of its changes one by one -/

section Batches

/-- A change on the table. -/
def applyOne (rows : List FeatureVersion) (c : VersionChange) : List FeatureVersion :=
  if c.Deletes then deleteRows c rows else Table.put rowKey (stored c.record) rows

def applyAll (rows : List FeatureVersion) (changes : List VersionChange) : List FeatureVersion :=
  changes.foldl applyOne rows

/-- A transaction that would be on the table as `rows` is, if it were written now. -/
structure Sim (b : Batch) (rows : List FeatureVersion) : Prop where
  pending : Table.Keyed rowKey b.pending
  table : Table.Keyed rowKey b.rows
  same : ∀ r, r ∈ b.flush.rows ↔ r ∈ rows

variable {b : Batch} {rows : List FeatureVersion}

lemma mem_flush (h : Table.Keyed rowKey b.pending) (r : FeatureVersion) :
    r ∈ b.flush.rows ↔ r ∈ b.pending ∨ (r ∈ b.rows ∧ ∀ a ∈ b.pending, rowKey a ≠ rowKey r) :=
  Table.mem_foldl_put h

variable {record r : FeatureVersion} {pending : List FeatureVersion}

lemma mem_setPending :
    r ∈ setPending record pending ↔ r = record ∨ (r ∈ pending ∧ rowKey r ≠ rowKey record) := by
  unfold setPending
  split
  · rename_i hany
    rw [mem_map]
    constructor
    · rintro ⟨u, hu, rfl⟩
      split
      · exact .inl rfl
      · rename_i hne
        exact .inr ⟨hu, hne⟩
    · rintro (rfl | ⟨hr, hne⟩)
      · rcases any_eq_true.mp hany with ⟨u, hu, hkey⟩
        exact ⟨u, hu, if_pos (by simpa using hkey)⟩
      · exact ⟨r, hr, if_neg hne⟩
  · rename_i hnone
    have hne : ∀ u ∈ pending, rowKey u ≠ rowKey record := by
      intro u hu heq
      exact hnone (any_eq_true.mpr ⟨u, hu, by simpa using heq⟩)
    rw [mem_append, mem_singleton]
    constructor
    · rintro (hr | rfl)
      · exact .inr ⟨hr, hne r hr⟩
      · exact .inl rfl
    · rintro (rfl | ⟨hr, -⟩)
      · exact .inr rfl
      · exact .inl hr

lemma keyed_setPending
    (h : Table.Keyed rowKey pending) : Table.Keyed rowKey (setPending record pending) := by
  unfold setPending
  split
  · have hkeys : (pending.map fun r => if rowKey r = rowKey record then record else r).map rowKey =
        pending.map rowKey := by
      rw [map_map]
      apply map_congr_left
      intro r _
      dsimp only [Function.comp]
      split
      · rename_i heq
        exact heq.symm
      · rfl
    unfold Table.Keyed
    rw [hkeys]
    exact h
  · rename_i hnone
    unfold Table.Keyed
    rw [map_append, nodup_append]
    refine ⟨h, nodup_singleton _, ?_⟩
    intro k hk k' hk' heq
    rcases mem_map.mp hk with ⟨u, hu, rfl⟩
    have hrecord : k' = rowKey record := by simpa using hk'
    exact hnone (any_eq_true.mpr ⟨u, hu, by simpa [hrecord] using heq⟩)

/-- To write what is pending changes nothing about what would be on the table. -/
lemma Sim.flush (h : Sim b rows) : Sim b.flush rows :=
  ⟨nodup_nil, h.table.foldl_put _, h.same⟩

theorem sim_applyChange (h : Sim b rows)
    (c : VersionChange) : Sim (applyChange b c) (applyOne rows c) := by
  unfold applyChange applyOne
  split
  · -- what is pending is written first
    refine ⟨nodup_nil, (h.table.foldl_put _).filter _, ?_⟩
    intro r
    change r ∈ deleteRows c b.flush.rows ↔ r ∈ deleteRows c rows
    unfold deleteRows
    rw [mem_filter, mem_filter, h.same]
  · have hset : Sim ⟨setPending (stored c.record) b.pending, b.rows⟩
        (Table.put rowKey (stored c.record) rows) := by
      refine ⟨keyed_setPending h.pending, h.table, ?_⟩
      intro r
      rw [mem_flush (keyed_setPending h.pending), Table.mem_put, ← h.same, mem_flush h.pending,
        mem_setPending]
      constructor
      · rintro ((rfl | ⟨hr, hne⟩) | ⟨hr, hother⟩)
        · exact .inl rfl
        · exact .inr ⟨.inl hr, hne⟩
        · have hne : rowKey r ≠ rowKey (stored c.record) := fun heq =>
            hother (stored c.record) (mem_setPending.mpr (.inl rfl)) heq.symm
          refine .inr ⟨.inr ⟨hr, ?_⟩, hne⟩
          intro a ha heq
          exact hother a (mem_setPending.mpr (.inr ⟨ha, heq ▸ hne⟩)) heq
      · rintro (rfl | ⟨hr | ⟨hr, hother⟩, hne⟩)
        · exact .inl (.inl rfl)
        · exact .inl (.inr ⟨hr, hne⟩)
        · refine .inr ⟨hr, ?_⟩
          intro a ha
          rcases mem_setPending.mp ha with rfl | ⟨ha, -⟩
          · exact hne.symm
          · exact hother a ha
    dsimp only
    split
    · exact hset.flush
    · exact hset

lemma sim_foldl_applyChange (h : Sim b rows)
    (changes : List VersionChange) : Sim (changes.foldl applyChange b) (applyAll rows changes) := by
  induction changes generalizing b rows with
  | nil => exact h
  | cons c rest ih => exact ih (sim_applyChange h c)

/-- The transaction leaves the rows that the changes leave one by one. -/
theorem mem_applyWFSVersionChanges (h : Table.Keyed rowKey rows)
    (changes : List VersionChange) (r : FeatureVersion) :
    r ∈ applyWFSVersionChanges rows changes ↔ r ∈ applyAll rows changes := by
  have hstart : Sim ⟨[], rows⟩ rows := ⟨nodup_nil, h, fun _ => Iff.rfl⟩
  exact (sim_foldl_applyChange hstart changes).same r

lemma keyed_applyWFSVersionChanges (h : Table.Keyed rowKey rows)
    (changes : List VersionChange) : Table.Keyed rowKey (applyWFSVersionChanges rows changes) := by
  have hstart : Sim ⟨[], rows⟩ rows := ⟨nodup_nil, h, fun _ => Iff.rfl⟩
  exact (sim_foldl_applyChange hstart changes).table.foldl_put _

lemma keyed_applyAll (h : Table.Keyed rowKey rows)
    (changes : List VersionChange) : Table.Keyed rowKey (applyAll rows changes) := by
  induction changes generalizing rows with
  | nil => exact h
  | cons c rest ih =>
    apply ih
    unfold applyOne
    split
    · exact h.filter _
    · exact h.put _

lemma applyAll_append (rows : List FeatureVersion) (cs ds : List VersionChange) :
    applyAll rows (cs ++ ds) = applyAll (applyAll rows cs) ds := foldl_append

/-- Changes of one feature leave the rows of the others. -/
lemma mem_applyAll_of_other {ws layerID featureID : Str} {changes}
    (hof : ∀ c ∈ changes, OfFeature ws layerID featureID c.record)
    (hr : ¬ OfFeature ws layerID featureID r) (rows : List FeatureVersion) :
    r ∈ applyAll rows changes ↔ r ∈ rows := by
  induction changes generalizing rows with
  | nil => exact Iff.rfl
  | cons c rest ih =>
    have hc := hof c mem_cons_self
    have hone : r ∈ applyOne rows c ↔ r ∈ rows := by
      unfold applyOne
      split
      · unfold deleteRows
        rw [hc.1, hc.2.1, hc.2.2, mem_filter]
        simp [hr]
      · rw [Table.mem_put]
        have hne : rowKey r ≠ rowKey (stored c.record) := by
          intro heq
          rcases Prod.mk.inj heq with ⟨hws, heq⟩
          rcases Prod.mk.inj heq with ⟨hlayer, heq⟩
          exact hr ⟨hws.trans hc.1, hlayer.trans hc.2.1, (Prod.mk.inj heq).1.trans hc.2.2⟩
        constructor
        · rintro (rfl | ⟨hr, -⟩)
          · exact absurd rfl hne
          · exact hr
        · intro hr
          exact .inr ⟨hr, hne⟩
    change r ∈ applyAll (applyOne rows c) rest ↔ r ∈ rows
    rw [ih (fun d hd => hof d (mem_cons_of_mem _ hd)), hone]

end Batches

end NeoServer.Wfs.Version
