import NeoServer.Wfs.Version.Reload

/-!
# Wfs.Version.OneByOne — a batch, and its events one at a time

`recordEvents` gathers what its events write, and the catalog writes it in one
transaction. `RecordInsert`, `RecordUpdate` and `RecordDelete` write on their own.

- `tryWFSVersionChanges_tried` : a transaction is written as a whole, or not at all,
- `recordBatch_eq_single` : a batch that is written leaves what its events leave one by one.
-/

namespace NeoServer.Wfs.Version

open Transaction Table List

/-! ## The transaction, with calls that fail -/

section Transaction

variable (fails : Nat → Bool)

/-- A call in a transaction; they are numbered. -/
def tryCall (n : Nat) (b : Batch) : Option (Nat × Batch) :=
  if fails n then none else some (n + 1, b)

def tryFlush (n : Nat) (b : Batch) : Option (Nat × Batch) :=
  if b.pending = [] then some (n, b) else tryCall fails n b.flush

/-- One round of the loop of `ApplyWFSVersionChanges`. -/
def tryChange (tx : Nat × Batch) (c : VersionChange) : Option (Nat × Batch) :=
  if c.Deletes then
    (tryFlush fails tx.1 tx.2).bind fun tx => tryCall fails tx.1 ⟨[], deleteRows c tx.2.rows⟩
  else
    let b : Batch := ⟨setPending (stored c.record) tx.2.pending, tx.2.rows⟩
    if 2048 ≤ b.pending.length then tryFlush fails tx.1 b else some (tx.1, b)

/-- `ApplyWFSVersionChanges`, from `BeginTx` to `Commit`. -/
def tryWFSVersionChanges (rows : List FeatureVersion) (changes : List VersionChange) :
    Option (Nat × Batch) := do
  let tx ← tryCall fails 0 ⟨[], rows⟩
  let tx ← changes.foldlM (tryChange fails) tx
  let tx ← tryFlush fails tx.1 tx.2
  tryCall fails tx.1 tx.2

/-- A call failed, or the transaction has come to `b`. -/
inductive Tried (b : Batch) : Option (Nat × Batch) → Prop
  | failed {n} (h : fails n = true) : Tried b none
  | done (n : Nat) : Tried b (some (n, b))

lemma tryCall_tried (n : Nat) (b : Batch) : Tried fails b (tryCall fails n b) := by
  unfold tryCall
  split
  · exact .failed ‹_›
  · exact .done _

variable {fails} {b b' : Batch}

lemma Tried.bind {tx f} (h : Tried fails b tx) (hf : ∀ n, Tried fails b' (f (n, b))) :
    Tried fails b' (tx.bind f) := by
  cases h with
  | failed h => exact .failed h
  | done n => exact hf n

lemma tryFlush_tried (n : Nat) (b : Batch) :
    Tried fails b.flush (tryFlush fails n b) := by
  unfold tryFlush
  split
  · rename_i hempty
    have hsame : b.flush = b := by
      unfold Batch.flush
      rw [hempty]
      exact congrArg (Batch.mk · b.rows) hempty.symm
    rw [hsame]
    exact .done n
  · exact tryCall_tried fails n _

lemma tryChange_tried (n : Nat) (b : Batch) (c : VersionChange) :
    Tried fails (applyChange b c) (tryChange fails (n, b) c) := by
  unfold tryChange applyChange
  split
  · exact (tryFlush_tried n b).bind fun n => tryCall_tried fails n _
  dsimp only
  split
  · exact tryFlush_tried n _
  · exact .done n

lemma foldlM_tryChange_tried (changes : List VersionChange) (n : Nat) (b : Batch) :
    Tried fails (changes.foldl applyChange b) (changes.foldlM (tryChange fails) (n, b)) := by
  induction changes generalizing n b with
  | nil => exact .done n
  | cons c rest ih => exact (tryChange_tried n b c).bind fun n => ih n _

/-- A transaction of which no call fails is written. -/
theorem tryWFSVersionChanges_tried (fails : Nat → Bool) (rows : List FeatureVersion)
    (changes : List VersionChange) :
    Tried fails (changes.foldl applyChange ⟨[], rows⟩).flush
      (tryWFSVersionChanges fails rows changes) :=
  (tryCall_tried fails 0 ⟨[], rows⟩).bind fun n =>
    (foldlM_tryChange_tried changes n ⟨[], rows⟩).bind fun n =>
      (tryFlush_tried n _).bind fun n => tryCall_tried fails n _

end Transaction

/-! ## Runs -/

/-- `recordEvents`; the table stays as it is if the transaction is not written. -/
def recordBatch (fails : Nat → Bool) (ws owner : Str) (events : List (VersionEvent × RecordEnv))
    (s : Recorded) : Recorded :=
  ⟨(recordEvents s.store ws owner events).1,
    match tryWFSVersionChanges fails s.rows (recordEvents s.store ws owner events).2 with
    | some (_, b) => b.rows
    | none => s.rows⟩

/-- `RecordInsert`, `RecordUpdate` or `RecordDelete`: each change is written at once. -/
def recordSingle (ws owner : Str) (s : Recorded) (e : VersionEvent × RecordEnv) : Recorded :=
  let recorded := recordEvent s.store ws owner e.1 e.2
  ⟨recorded.1, applyAll s.rows recorded.2⟩

/-- What happens to histories and table. -/
inductive VersionOp
  | record (fails : Nat → Bool) (ws owner : Str) (events : List (VersionEvent × RecordEnv))
  | restart (maxFeatures maxVersions : Int)
  | clearWorkspace (ws : Str) (deleted : Bool)

def VersionOp.apply (s : Recorded) : VersionOp → Recorded
  | record fails ws owner events => recordBatch fails ws owner events s
  | restart maxFeatures maxVersions => ⟨reload maxFeatures maxVersions s.rows, s.rows⟩
  | clearWorkspace ws deleted =>
    ⟨s.store.set ws [], if deleted then s.rows.filter fun r => r.workspaceID ≠ ws else s.rows⟩

/-- Histories and table, from the start with an empty table on. -/
def recordMachine : Machine Recorded VersionOp where
  init s := ∃ maxFeatures maxVersions, s = ⟨newVersionStore maxFeatures maxVersions, []⟩
  step s op s' := s' = op.apply s

/-! ## Numbers are positive -/

section Numbers

/-- A change is a deletion, or has a version to be written: no cut of a history is taken for
an upsert of its record, which has no number. -/
def VersionChange.Clear (c : VersionChange) : Prop := c.Deletes ∨ 0 < c.record.version

def Positive (versions : List FeatureVersion) : Prop := ∀ v ∈ versions, 0 < v.version

variable {h : History} (ws layerID featureID owner : Str)

lemma supersede_positive (hpos : Positive h) {h' old} (hs : supersede h = some (h', old)) :
    Positive h' ∧ 0 < old.version := by
  induction h generalizing h' with
  | nil => cases hs
  | cons v rest ih => grind [supersede, Positive]

/-- The number of a cut is that of a version. -/
lemma trim_positive (now maxVersions : Nat) (rid : Str) (hpos : Positive h) {n} (hn : 0 < n) :
    let trimmed := trim maxVersions ws layerID featureID
      (h ++ [validVersion ws layerID featureID owner now n rid])
    Positive trimmed.1 ∧ ∀ c ∈ trimmed.2, c.Clear := by
  have hall : Positive (h ++ [validVersion ws layerID featureID owner now n rid]) :=
    forall_mem_append.mpr ⟨hpos, forall_mem_singleton.mpr hn⟩
  generalize h ++ [validVersion ws layerID featureID owner now n rid] = versions at hall ⊢
  have hdrop : ∀ k, Positive (versions.drop k) := fun k v hv => hall v (mem_of_mem_drop hv)
  grind [trim, Positive, VersionChange.Clear, VersionChange.Deletes]

lemma updateHistory_positive (hpos : Positive h) (maxVersions now : Nat) :
    let updated := updateHistory maxVersions ws layerID featureID owner now h
    Positive updated.1 ∧ ∀ c ∈ updated.2, c.Clear := by
  have htrim := fun {h'} => trim_positive ws layerID featureID owner (h := h') now maxVersions
  unfold updateHistory
  split
  · rename_i old hs
    rcases supersede_positive hpos hs with ⟨hpos', hold⟩
    rcases htrim (previousRid layerID featureID old.version) hpos' (Nat.succ_pos old.version) with
      ⟨hkept, hclear⟩
    exact ⟨hkept, forall_mem_append.mpr ⟨forall_mem_cons.mpr ⟨.inr hold, hclear⟩,
      forall_mem_singleton.mpr (.inr (Nat.succ_pos _))⟩⟩
  · rcases htrim [] hpos Nat.one_pos with ⟨hkept, hclear⟩
    exact ⟨hkept, forall_mem_append.mpr ⟨hclear, forall_mem_singleton.mpr (.inr Nat.one_pos)⟩⟩

/-- Every number in memory is positive. -/
def VersionStore.Positive (vs : VersionStore) : Prop :=
  ∀ ws key, Version.Positive (vs.history ws key)

lemma ensureFeatureCapacityLocked_positive {features : Histories}
    (hpos : ∀ k, Positive (historyOf features k)) (maxFeatures : Nat) (order : List Str) (key : Str) :
    let room := ensureFeatureCapacityLocked maxFeatures order features key
    (∀ k, Positive (historyOf room.1 k)) ∧ ∀ c ∈ room.2, c.Clear := by
  have hdelete : ∀ k k', Positive (historyOf (delete Prod.fst k features) k') := by
    intro k k'
    by_cases hk : k' = k
    · rw [hk, historyOf_delete_self]
      exact fun v hv => by cases hv
    · rw [historyOf_delete_of_ne hk]
      exact hpos k'
  grind [ensureFeatureCapacityLocked, VersionChange.Clear, VersionChange.Deletes]

variable {vs : VersionStore}

lemma VersionStore.Positive.put (hpos : vs.Positive) {features : Histories}
    (hfeatures : ∀ k, Version.Positive (historyOf features k)) (ws key : Str)
    (hh : Version.Positive h) : (vs.set ws (put Prod.fst (key, h) features)).Positive := by
  intro w k
  by_cases hw : w = ws
  · rw [hw, history_set_self]
    by_cases hk : k = key
    · rw [hk, historyOf_put_self]
      exact hh
    · rw [historyOf_put_of_ne hk]
      exact hfeatures k
  · rw [history_set_of_ne hw]
    exact hpos w k

lemma recordEvent_positive (hpos : vs.Positive) (event : VersionEvent) (env : RecordEnv) :
    (recordEvent vs ws owner event env).1.Positive ∧
      ∀ c ∈ (recordEvent vs ws owner event env).2, c.Clear := by
  have hroom := ensureFeatureCapacityLocked_positive (hpos ws) vs.maxFeatures env.order
    (featureKey event.layerName event.featureID)
  unfold recordEvent
  split
  · have hnew : ∀ v ∈ [validVersion ws event.layerName event.featureID owner env.now 1 []],
        0 < v.version := forall_mem_singleton.mpr Nat.one_pos
    exact ⟨hpos.put hroom.1 ws _ hnew, forall_mem_append.mpr ⟨hroom.2,
      forall_mem_singleton.mpr (.inr Nat.one_pos)⟩⟩
  · have hupdate := updateHistory_positive ws event.layerName event.featureID owner
      (hroom.1 (featureKey event.layerName event.featureID)) vs.maxVersions env.now
    exact ⟨hpos.put hroom.1 ws _ hupdate.1, forall_mem_append.mpr ⟨hroom.2, hupdate.2⟩⟩
  · unfold recordDeleteLocked
    have hold := hpos ws (featureKey event.layerName event.featureID)
    unfold VersionStore.history at hold
    dsimp only
    split
    · exact ⟨hpos, fun c hc => by cases hc⟩
    rename_i v rest heq
    rw [heq] at hold
    have hretire : ∀ u ∈ v :: rest, 0 < (retire u).version := by
      intro u hu
      unfold retire
      split <;> exact hold u hu
    refine ⟨hpos.put (hpos ws) ws _ (forall_mem_map.mpr hretire), ?_⟩
    exact forall_mem_map.mpr fun u hu => .inr (hretire u (mem_filter.mp hu).1)

lemma recordEvents_positive (hpos : vs.Positive) (events : List (VersionEvent × RecordEnv)) :
    (recordEvents vs ws owner events).1.Positive ∧
      ∀ c ∈ (recordEvents vs ws owner events).2, c.Clear := by
  induction events generalizing vs with
  | nil => exact ⟨hpos, fun c hc => by cases hc⟩
  | cons e rest ih =>
    rcases recordEvent_positive ws owner hpos e.1 e.2 with ⟨hevent, hclear⟩
    rcases ih hevent with ⟨hrest, hclears⟩
    exact ⟨hrest, forall_mem_append.mpr ⟨hclear, hclears⟩⟩

lemma applyAll_positive {rows} (hpos : Positive rows) {changes}
    (hclear : ∀ c ∈ changes, VersionChange.Clear c) : Positive (applyAll rows changes) := by
  induction changes generalizing rows with
  | nil => exact hpos
  | cons c rest ih =>
    rcases forall_mem_cons.mp hclear with ⟨hc, hrest⟩
    refine ih ?_ hrest
    unfold applyOne
    split
    · exact fun r hr => hpos r (mem_filter.mp hr).1
    rename_i hkeeps
    intro r hr
    rcases mem_put.mp hr with rfl | ⟨hr, -⟩
    · exact hc.resolve_left hkeeps
    · exact hpos r hr

/-- What holds of histories and table in every run. -/
structure Numbered (s : Recorded) : Prop where
  store : s.store.Positive
  rows : Positive s.rows
  keyed : Keyed rowKey s.rows

lemma Numbered.apply {s : Recorded} (hs : Numbered s) (op : VersionOp) :
    Numbered (op.apply s) := by
  cases op with
  | record fails ws owner events =>
    rcases recordEvents_positive ws owner hs.store events with ⟨hstore, hclear⟩
    have htried := tryWFSVersionChanges_tried fails s.rows (recordEvents s.store ws owner events).2
    simp only [VersionOp.apply, recordBatch]
    generalize tryWFSVersionChanges fails s.rows _ = tx at htried ⊢
    cases htried with
    | failed => exact ⟨hstore, hs.rows, hs.keyed⟩
    | done =>
      refine ⟨hstore, ?_, keyed_applyWFSVersionChanges hs.keyed _⟩
      intro r hr
      exact applyAll_positive hs.rows hclear r ((mem_applyWFSVersionChanges hs.keyed _ r).mp hr)
  | restart maxFeatures maxVersions =>
    refine ⟨?_, hs.rows, hs.keyed⟩
    intro ws key v hv
    simp only [VersionOp.apply, reload] at hv
    rw [history_restore] at hv
    rcases mem_append.mp hv with hv | hv
    · cases hv
    · exact hs.rows v ((perm_insertionSort RowLe s.rows).mem_iff.mp (mem_filter.mp hv).1)
  | clearWorkspace ws deleted =>
    have hcleared : (s.store.set ws []).Positive := by
      intro w k v hv
      by_cases hw : w = ws
      · rw [hw, history_set_self] at hv
        cases hv
      · rw [history_set_of_ne hw] at hv
        exact hs.store w k v hv
    cases deleted with
    | false => exact ⟨hcleared, hs.rows, hs.keyed⟩
    | true => exact ⟨hcleared, fun r hr => hs.rows r (mem_filter.mp hr).1, hs.keyed.filter _⟩

lemma numbered_of_reachable {s} (h : recordMachine.Reachable s) : Numbered s := by
  refine Machine.Reachable.induct (I := Numbered) ?_ ?_ h
  · rintro s ⟨maxFeatures, maxVersions, rfl⟩
    refine ⟨?_, ?_, nodup_nil⟩
    · intro ws key v hv
      cases hv
    · intro r hr
      cases hr
  · rintro s op s' - hs rfl
    exact hs.apply op

end Numbers

/-! ## A batch against its events -/

lemma foldl_recordSingle (ws owner : Str) (events : List (VersionEvent × RecordEnv))
    (s : Recorded) :
    events.foldl (recordSingle ws owner) s =
      ⟨(recordEvents s.store ws owner events).1,
        applyAll s.rows (recordEvents s.store ws owner events).2⟩ := by
  induction events generalizing s with
  | nil => rfl
  | cons e rest ih =>
    rw [foldl_cons, ih, recordEvents, applyAll_append]
    rfl

/-- Whatever happened before, a batch leaves in memory what its events leave one by one, and
in the table if no call fails; if its transaction fails, the table is as before. -/
theorem recordBatch_eq_single {s : Recorded} (h : recordMachine.Reachable s)
    (fails : Nat → Bool) (ws owner : Str) (events : List (VersionEvent × RecordEnv)) :
    let changes := (recordEvents s.store ws owner events).2
    let batch := recordBatch fails ws owner events s
    let single := events.foldl (recordSingle ws owner) s
    (∀ c ∈ changes, c.Clear) ∧
    batch.store = single.store ∧
    ((∀ n, fails n = false) → ∀ r, r ∈ batch.rows ↔ r ∈ single.rows) ∧
    (tryWFSVersionChanges fails s.rows changes = none → batch.rows = s.rows) := by
  have hs := numbered_of_reachable h
  have htried := tryWFSVersionChanges_tried fails s.rows (recordEvents s.store ws owner events).2
  simp only [foldl_recordSingle, recordBatch]
  refine ⟨(recordEvents_positive ws owner hs.store events).2, trivial, ?_⟩
  generalize tryWFSVersionChanges fails s.rows _ = tx at htried ⊢
  cases htried with
  | @failed n hfails =>
    refine ⟨?_, fun _ => rfl⟩
    intro hworks
    rw [hworks n] at hfails
    cases hfails
  | done =>
    refine ⟨fun _ => mem_applyWFSVersionChanges hs.keyed _, ?_⟩
    intro hnone
    cases hnone

/-- An insert and an update of a road as the first batch. -/
lemma recordBatch_road :
    let s : Recorded := ⟨newVersionStore 0 0, []⟩
    let events := (roadBatch .insert 5000 []).events ++ (roadBatch .update 6000 roadKeys).events
    (∀ r, r ∈ (recordBatch (fun _ => false) "w" "ann" events s).rows ↔
      r ∈ (events.foldl (recordSingle "w" "ann") s).rows) ∧
    (recordBatch (fun n => n = 1) "w" "ann" events s).rows = [] := by
  have hinit := Machine.Reachable.init (M := recordMachine) ⟨0, 0, rfl⟩
  exact ⟨(recordBatch_eq_single hinit _ "w" "ann" _).2.2.1 fun _ => rfl,
    (recordBatch_eq_single hinit _ "w" "ann" _).2.2.2 (by decide)⟩

end NeoServer.Wfs.Version
