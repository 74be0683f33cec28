import NeoServer.Machine
import NeoServer.Table
import NeoServer.Wfs.Transaction.Execute

/-!
# Wfs.Version.Store — version histories of features

`VersionStore` keeps for each feature that transactions changed a list of version
records, oldest first. A history is started over by an insert, gets one more version by
an update, and its valid version is retired by a delete. Histories are cut to the newest
`maxVersions`, and the oldest history goes when there are more than `maxFeatures`.

Every event also gives the changes of the table that histories are written through to;
`Wfs.Version.Reload` is about them.

- `WellNumbered` : numbers increase, only the last version is valid, the bounds hold,
- `wellNumbered_of_reachable` : it holds in every run in which no feature is updated
  after it was deleted, and before it is inserted again.
-/

namespace NeoServer.Wfs.Version

open Transaction Table List

/-! ## The store -/

inductive VersionState
  | valid | superseded | retired
deriving DecidableEq, Repr

structure FeatureVersion where
  featureID : Str
  layerID : Str
  workspaceID : Str
  version : Nat
  previousRid : Str
  state : VersionState
  createdAt : Nat
  modifiedBy : Str
deriving DecidableEq, Repr

/-- The versions of a feature, oldest first. -/
abbrev History := List FeatureVersion

/-- The histories of a workspace, by feature key. -/
abbrev Histories := List (Str × History)

structure VersionStore where
  versions : Str → Histories
  maxFeatures : Nat
  maxVersions : Nat
  maxFeatures_pos : 0 < maxFeatures
  maxVersions_pos : 0 < maxVersions

/-- A bound, or its default if it is not positive. -/
def boundOr (bound : Int) (default : Nat) : Nat := if bound ≤ 0 then default else bound.toNat

lemma boundOr_pos (bound : Int) {default : Nat} (h : 0 < default) : 0 < boundOr bound default := by
  unfold boundOr
  split
  · exact h
  · omega

def newVersionStore (maxFeatures maxVersions : Int) : VersionStore where
  versions _ := []
  maxFeatures := boundOr maxFeatures 100000
  maxVersions := boundOr maxVersions 100
  maxFeatures_pos := boundOr_pos maxFeatures (by decide)
  maxVersions_pos := boundOr_pos maxVersions (by decide)

/-- `WFSVersionChange`: an upsert of the record, or a deletion in the history that the
record names. -/
structure VersionChange where
  record : FeatureVersion
  deleteAll : Bool := false
  minVersion : Nat := 0
deriving DecidableEq, Repr

def featureKey (layerID featureID : Str) : Str := layerID ++ ":" ++ featureID

/-- The entry of a map, or the zero value. -/
def historyOf (features : Histories) (key : Str) : History :=
  ((get Prod.fst key features).map Prod.snd).getD []

def VersionStore.history (vs : VersionStore) (ws key : Str) : History :=
  historyOf (vs.versions ws) key

/-- The map of a workspace is changed. -/
def VersionStore.set (vs : VersionStore) (ws : Str) (features : Histories) : VersionStore :=
  { vs with versions := fun w => if w = ws then features else vs.versions w }

/-! ## Events -/

/-- What an event takes from outside: the clock, and the order in which the map of the
workspace is run through. -/
structure RecordEnv where
  now : Nat
  order : List Str

/-- The loop over the candidates, with the oldest one so far. -/
def oldestFrom (features : Histories) : List Str → Str → Nat → Str
  | [], oldestKey, _ => oldestKey
  | candidate :: rest, oldestKey, oldest =>
    match (historyOf features candidate).getLast? with
    | none => candidate
    | some v =>
      if oldestKey = [] ∨ v.createdAt < oldest then
        oldestFrom features rest candidate v.createdAt
      else oldestFrom features rest oldestKey oldest

def ensureFeatureCapacityLocked (maxFeatures : Nat) (order : List Str) (features : Histories)
    (key : Str) : Histories × List VersionChange :=
  if (get Prod.fst key features).isSome ∨ features.length < maxFeatures then (features, [])
  else
    let oldestKey := oldestFrom features order [] 0
    let changes := match historyOf features oldestKey with
      | [] => []
      | v :: _ => [{ record := v, deleteAll := true }]
    (delete Prod.fst oldestKey features, changes)

/-- A version that becomes the current one. -/
def validVersion (ws layerID featureID owner : Str) (now version : Nat) (previousRid : Str) :
    FeatureVersion where
  featureID := featureID
  layerID := layerID
  workspaceID := ws
  version := version
  previousRid := previousRid
  state := .valid
  createdAt := now
  modifiedBy := owner

def recordInsertLocked (vs : VersionStore) (ws layerID featureID owner : Str) (env : RecordEnv) :
    VersionStore × List VersionChange :=
  let key := featureKey layerID featureID
  let room := ensureFeatureCapacityLocked vs.maxFeatures env.order (vs.versions ws) key
  let version := validVersion ws layerID featureID owner env.now 1 []
  (vs.set ws (put Prod.fst (key, [version]) room.1), room.2 ++ [{ record := version }])

/-- `fmt.Sprintf("%s.%s@%d", layerID, featureID, version)`. -/
def previousRid (layerID featureID : Str) (version : Nat) : Str :=
  layerID ++ "." ++ featureID ++ "@" ++ natDecimal version

/-- The last valid version is superseded; it is returned with the history. -/
def supersede : History → Option (History × FeatureVersion)
  | [] => none
  | v :: rest =>
    match supersede rest with
    | some (rest', old) => some (v :: rest', old)
    | none =>
      if v.state = .valid then
        some ({ v with state := .superseded } :: rest, { v with state := .superseded })
      else none

/-- The history is cut to the newest versions, and so is the table. -/
def trim (maxVersions : Nat) (ws layerID featureID : Str) (versions : History) :
    History × List VersionChange :=
  if maxVersions < versions.length then
    match versions.drop (versions.length - maxVersions) with
    | [] => ([], [])
    | first :: rest =>
      -- the record of the change has the names of the feature only
      (first :: rest, [{
        record := validVersion ws layerID featureID [] 0 0 []
        minVersion := first.version }])
  else (versions, [])

/-- What an update makes of a history. -/
def updateHistory (maxVersions : Nat) (ws layerID featureID owner : Str) (now : Nat)
    (versions : History) : History × List VersionChange :=
  match supersede versions with
  | some (versions', old) =>
    let version := validVersion ws layerID featureID owner now (old.version + 1)
      (previousRid layerID featureID old.version)
    let trimmed := trim maxVersions ws layerID featureID (versions' ++ [version])
    (trimmed.1, { record := old } :: trimmed.2 ++ [{ record := version }])
  | none =>
    let version := validVersion ws layerID featureID owner now 1 []
    let trimmed := trim maxVersions ws layerID featureID (versions ++ [version])
    (trimmed.1, trimmed.2 ++ [{ record := version }])

variable (vs : VersionStore)

def recordUpdateLocked (ws layerID featureID owner : Str) (env : RecordEnv) :
    VersionStore × List VersionChange :=
  let key := featureKey layerID featureID
  let room := ensureFeatureCapacityLocked vs.maxFeatures env.order (vs.versions ws) key
  let updated := updateHistory vs.maxVersions ws layerID featureID owner env.now
    (historyOf room.1 key)
  (vs.set ws (put Prod.fst (key, updated.1) room.1), room.2 ++ updated.2)

def retire (v : FeatureVersion) : FeatureVersion :=
  if v.state = .valid then { v with state := .retired } else v

def recordDeleteLocked (ws layerID featureID : Str) :
    VersionStore × List VersionChange :=
  let key := featureKey layerID featureID
  match historyOf (vs.versions ws) key with
  | [] => (vs, [])
  | v :: rest =>
    let changes := ((v :: rest).filter fun v => v.state = .valid).map fun v =>
      ({ record := retire v } : VersionChange)
    (vs.set ws (put Prod.fst (key, (v :: rest).map retire) (vs.versions ws)), changes)

/-- One event of `recordEvents`. -/
def recordEvent (ws owner : Str) (event : VersionEvent) (env : RecordEnv) :
    VersionStore × List VersionChange :=
  match event.action with
  | .insert => recordInsertLocked vs ws event.layerName event.featureID owner env
  | .update => recordUpdateLocked vs ws event.layerName event.featureID owner env
  | .delete => recordDeleteLocked vs ws event.layerName event.featureID

/-! ## Runs -/

/-- An event in a workspace. -/
structure RecordOp where
  ws : Str
  owner : Str
  event : VersionEvent
  env : RecordEnv

/-- The order is one of the keys of the map. -/
def RecordEnv.Admissible (env : RecordEnv) (features : Histories) : Prop :=
  env.order.Perm (features.map Prod.fst)

/-- The store from the start of the process on. -/
def versionMachine (maxFeatures maxVersions : Int) : Machine VersionStore RecordOp where
  init vs := vs = newVersionStore maxFeatures maxVersions
  step vs op vs' := op.env.Admissible (vs.versions op.ws) ∧
    vs' = (recordEvent vs op.ws op.owner op.event op.env).1

/-! ## What is to hold -/

structure WellNumberedHistory (maxVersions : Nat) (h : History) : Prop where
  increasing : (h.map FeatureVersion.version).Pairwise (· < ·)
  validLast : ∀ v ∈ h.dropLast, v.state ≠ .valid
  bound : h.length ≤ maxVersions

structure WellNumbered (vs : VersionStore) : Prop where
  keys : ∀ ws, Table.Keyed Prod.fst (vs.versions ws)
  histories : ∀ ws key h, (key, h) ∈ vs.versions ws → WellNumberedHistory vs.maxVersions h
  features : ∀ ws, (vs.versions ws).length ≤ vs.maxFeatures

/-- An update finds no history, or one whose last version is valid. -/
def NotRetired (vs : VersionStore) (op : RecordOp) : Prop :=
  op.event.action = .update →
    ∀ v, (vs.history op.ws (featureKey op.event.layerName op.event.featureID)).getLast? = some v →
      v.state = .valid

/-! ## The map of a workspace -/

section Map

variable {features : Histories} {key : Str} {h : History}

lemma mem_of_mem_historyOf {v} (hv : v ∈ historyOf features key) :
    (key, historyOf features key) ∈ features := by
  unfold historyOf at hv ⊢
  cases hget : get Prod.fst key features with
  | none =>
    rw [hget] at hv
    cases hv
  | some entry =>
    rcases mem_of_get hget with ⟨hmem, hkey⟩
    cases hkey
    exact hmem

lemma historyOf_put_self : historyOf (put Prod.fst (key, h) features) key = h := by
  unfold historyOf
  rw [show get Prod.fst key (put Prod.fst (key, h) features) = some (key, h) from
    get_put_self]
  rfl

lemma historyOf_put_of_ne {k : Str} (hne : k ≠ key) :
    historyOf (put Prod.fst (key, h) features) k = historyOf features k := by
  unfold historyOf
  rw [get_put_of_ne hne]

lemma historyOf_delete_self : historyOf (delete Prod.fst key features) key = [] := by
  unfold historyOf
  rw [get_delete_self]
  rfl

lemma historyOf_delete_of_ne {k : Str} (hne : k ≠ key) :
    historyOf (delete Prod.fst key features) k = historyOf features k := by
  unfold historyOf
  rw [get_delete_of_ne hne]

end Map

/-! ## Room for one more history -/

section Capacity

variable {features : Histories} {order : List Str}

/-- The oldest key is one of those that were looked at, or the one the loop began with. -/
lemma oldestFrom_mem (k : Str) (t : Nat) :
    oldestFrom features order k t ∈ order ∨ oldestFrom features order k t = k := by
  induction order generalizing k t with
  | nil => exact .inr rfl
  | cons candidate rest ih =>
    unfold oldestFrom
    split
    · exact .inl mem_cons_self
    split
    · left
      rcases ih candidate _ with hmem | heq
      · exact mem_cons_of_mem _ hmem
      · rw [heq]
        exact mem_cons_self
    · rcases ih k t with hmem | heq
      · exact .inl (mem_cons_of_mem _ hmem)
      · exact .inr heq

lemma oldestFrom_mem_of_ne_nil (features : Histories) (hne : order ≠ []) :
    oldestFrom features order [] 0 ∈ order := by
  cases order with
  | nil => exact absurd rfl hne
  | cons candidate rest =>
    unfold oldestFrom
    split
    · exact mem_cons_self
    rename_i v _
    rcases oldestFrom_mem candidate v.createdAt with hmem | heq
    · exact mem_cons_of_mem _ hmem
    · rw [heq]
      exact mem_cons_self

/-- The map is left as it is, or the history of another feature goes. -/
lemma ensureFeatureCapacityLocked_cases {maxFeatures : Nat} (hpos : 0 < maxFeatures)
    (horder : order.Perm (features.map Prod.fst)) (key : Str) :
    (ensureFeatureCapacityLocked maxFeatures order features key = (features, []) ∧
      ((∃ entry ∈ features, entry.1 = key) ∨ features.length < maxFeatures)) ∨
    ∃ evicted, evicted ≠ key ∧ (∃ entry ∈ features, entry.1 = evicted) ∧
      ensureFeatureCapacityLocked maxFeatures order features key =
        (delete Prod.fst evicted features, match historyOf features evicted with
          | [] => []
          | v :: _ => [{ record := v, deleteAll := true }]) := by
  unfold ensureFeatureCapacityLocked
  split
  · rename_i hroom
    refine .inl ⟨rfl, ?_⟩
    rcases hroom with hsome | hlt
    · left
      rcases Option.isSome_iff_exists.mp hsome with ⟨entry, hget⟩
      exact ⟨entry, mem_of_get hget⟩
    · exact .inr hlt
  · rename_i hfull
    rcases not_or.mp hfull with ⟨hnone, hlen⟩
    have habsent : ∀ entry ∈ features, entry.1 ≠ key := by
      apply get_eq_none.mp
      simpa using hnone
    have hne : order ≠ [] := by
      intro hnil
      have hlength := horder.length_eq
      rw [hnil, length_map, length_nil] at hlength
      omega
    have hmem := horder.subset (oldestFrom_mem_of_ne_nil features hne)
    rcases mem_map.mp hmem with ⟨entry, hentry, heq⟩
    exact .inr ⟨oldestFrom features order [] 0, heq ▸ habsent entry hentry, ⟨entry, hentry, heq⟩,
      rfl⟩

variable {maxFeatures : Nat} (hpos : 0 < maxFeatures)
  (horder : order.Perm (features.map Prod.fst)) (key : Str)
include hpos horder

lemma subset_of_ensureFeatureCapacityLocked :
    (ensureFeatureCapacityLocked maxFeatures order features key).1.Sublist features := by
  rcases ensureFeatureCapacityLocked_cases hpos horder key with ⟨heq, -⟩ | ⟨evicted, -, -, heq⟩
  · rw [heq]
  · rw [heq]
    exact filter_sublist

/-- The history of the feature itself stays. -/
lemma historyOf_ensureFeatureCapacityLocked :
    historyOf (ensureFeatureCapacityLocked maxFeatures order features key).1 key =
      historyOf features key := by
  rcases ensureFeatureCapacityLocked_cases hpos horder key with ⟨heq, -⟩ | ⟨evicted, hne, -, heq⟩
  · rw [heq]
  · rw [heq]
    exact historyOf_delete_of_ne hne.symm

lemma length_put_ensureFeatureCapacityLocked (hlen : features.length ≤ maxFeatures)
    (h : History) :
    (put Prod.fst (key, h)
      (ensureFeatureCapacityLocked maxFeatures order features key).1).length ≤ maxFeatures := by
  rcases ensureFeatureCapacityLocked_cases hpos horder key with
    ⟨heq, hthere | hlt⟩ | ⟨evicted, -, hthere, heq⟩
  · rw [heq]
    exact (length_put_of_mem hthere).trans hlen
  · rw [heq]
    exact length_put_le.trans hlt
  · rw [heq]
    exact length_put_le.trans ((length_delete_lt hthere).trans_le hlen)

end Capacity

/-! ## Histories -/

section Histories

variable {h : History} {maxVersions : Nat} (ws layerID featureID : Str)

/-- The version at the end is the last valid one. -/
lemma supersede_concat (init : History) {v} (hv : v.state = .valid) :
    supersede (init ++ [v]) =
      some (init ++ [{ v with state := .superseded }], { v with state := .superseded }) := by
  induction init with
  | nil => simp [supersede, hv]
  | cons u init ih =>
    rw [cons_append, supersede, ih]
    rfl

lemma trim_fst (maxVersions : Nat) (h : History) :
    (trim maxVersions ws layerID featureID h).1 = h.drop (h.length - maxVersions) := by
  unfold trim
  split
  · split
    · rename_i hnil
      rw [hnil]
    · rename_i hcons
      rw [hcons]
  · rename_i hle
    rw [Nat.sub_eq_zero_of_le (Nat.le_of_not_lt hle), drop_zero]

lemma dropLast_drop_subset (h : History) (n : Nat) : (h.drop n).dropLast ⊆ h.dropLast := by
  by_cases hnil : h.drop n = []
  · rw [hnil]
    exact nil_subset _
  have hsplit : h.dropLast = h.take n ++ (h.drop n).dropLast := by
    rw [← dropLast_append_of_ne_nil hnil, take_append_drop]
  rw [hsplit]
  exact subset_append_right _ _

/-- A history that is cut keeps its numbers in order. -/
lemma wellNumberedHistory_trim (hinc : (h.map FeatureVersion.version).Pairwise (· < ·))
    (hlast : ∀ v ∈ h.dropLast, v.state ≠ .valid) :
    WellNumberedHistory maxVersions (trim maxVersions ws layerID featureID h).1 := by
  rw [trim_fst]
  refine ⟨?_, ?_, ?_⟩
  · rw [map_drop]
    exact hinc.sublist (drop_sublist _ _)
  · intro v hv
    exact hlast v (dropLast_drop_subset h _ hv)
  · rw [length_drop]
    omega

/-- A first version, or the version after the last valid one. -/
lemma updateHistory_cases (maxVersions : Nat) (owner : Str) (now : Nat)
    (hvalid : ∀ v, h.getLast? = some v → v.state = .valid) :
    (h = [] ∧ updateHistory maxVersions ws layerID featureID owner now h =
      let version := validVersion ws layerID featureID owner now 1 []
      let trimmed := trim maxVersions ws layerID featureID [version]
      (trimmed.1, trimmed.2 ++ [{ record := version }])) ∨
    ∃ init v, h = init ++ [v] ∧ v.state = .valid ∧
      updateHistory maxVersions ws layerID featureID owner now h =
        let old := { v with state := .superseded }
        let version := validVersion ws layerID featureID owner now (v.version + 1)
          (previousRid layerID featureID v.version)
        let trimmed := trim maxVersions ws layerID featureID (init ++ [old, version])
        (trimmed.1, { record := old } :: trimmed.2 ++ [{ record := version }]) := by
  rcases eq_nil_or_concat h with rfl | ⟨init, v, rfl⟩
  · exact .inl ⟨rfl, rfl⟩
  rw [concat_eq_append] at hvalid ⊢
  have hv : v.state = .valid := hvalid v (by simp)
  refine .inr ⟨init, v, rfl, hv, ?_⟩
  unfold updateHistory
  rw [supersede_concat init hv]
  simp

/-- The new number is one more than the last, which is above all others. -/
lemma increasing_update {init : History} {v old version}
    (hinc : ((init ++ [v]).map FeatureVersion.version).Pairwise (· < ·))
    (hold : old.version = v.version) (hversion : version.version = v.version + 1) :
    (((init ++ [old]) ++ [version]).map FeatureVersion.version).Pairwise (· < ·) := by
  have hsame : (init ++ [old]).map FeatureVersion.version =
      (init ++ [v]).map FeatureVersion.version := by
    simp [hold]
  rw [map_append, hsame, pairwise_append]
  refine ⟨hinc, pairwise_singleton _ _, ?_⟩
  intro a ha c hc
  have hle : a ≤ v.version := by
    rw [map_append, pairwise_append] at hinc
    rw [map_append] at ha
    rcases mem_append.mp ha with ha | ha
    · exact (hinc.2.2 a ha v.version (by simp)).le
    · exact (mem_singleton.mp ha).le
  rw [mem_singleton.mp hc, hversion]
  omega

lemma wellNumberedHistory_update (owner : Str) (now : Nat)
    (hh : WellNumberedHistory maxVersions h)
    (hvalid : ∀ v, h.getLast? = some v → v.state = .valid) :
    WellNumberedHistory maxVersions
      (updateHistory maxVersions ws layerID featureID owner now h).1 := by
  rcases updateHistory_cases ws layerID featureID maxVersions owner now hvalid with
    ⟨-, heq⟩ | ⟨init, v, rfl, hv, heq⟩
  · rw [heq]
    exact wellNumberedHistory_trim _ _ _ (pairwise_singleton _ _) (nofun)
  rw [heq]
  apply wellNumberedHistory_trim
  · rw [append_cons]
    exact increasing_update hh.increasing rfl rfl
  · -- the version that was valid is superseded now
    intro u hu
    have hdrop : (init ++ [{ v with state := .superseded }, validVersion ws layerID featureID
        owner now (v.version + 1) (previousRid layerID featureID v.version)]).dropLast =
        init ++ [{ v with state := .superseded }] := by
      rw [dropLast_append_of_ne_nil (by simp)]
      rfl
    rw [hdrop] at hu
    rcases mem_append.mp hu with hu | hu
    · have hinit := hh.validLast
      rw [dropLast_concat] at hinit
      exact hinit u hu
    · rw [mem_singleton.mp hu]
      intro heq
      cases heq

lemma retire_version (v : FeatureVersion) : (retire v).version = v.version := by
  unfold retire
  split <;> rfl

lemma retire_ne_valid (v : FeatureVersion) : (retire v).state ≠ .valid := by
  unfold retire
  split
  · rintro ⟨⟩
  · assumption

lemma wellNumberedHistory_retire (hh : WellNumberedHistory maxVersions h) :
    WellNumberedHistory maxVersions (h.map retire) := by
  refine ⟨?_, ?_, by simpa using hh.bound⟩
  · have hversions : (h.map retire).map FeatureVersion.version = h.map FeatureVersion.version := by
      rw [map_map]
      exact map_congr_left fun v _ => retire_version v
    rw [hversions]
    exact hh.increasing
  · intro v hv
    rcases mem_map.mp (mem_of_mem_dropLast hv) with ⟨u, -, rfl⟩
    exact retire_ne_valid u

end Histories

/-! ## Runs keep histories well numbered -/

section Runs

variable {vs : VersionStore}

/-- One history of a workspace is changed, and others may go. -/
lemma WellNumbered.put (hvs : WellNumbered vs) {ws key : Str} {features} {h : History}
    (hsub : features.Sublist (vs.versions ws)) (hh : WellNumberedHistory vs.maxVersions h)
    (hlen : (put Prod.fst (key, h) features).length ≤ vs.maxFeatures) :
    WellNumbered (vs.set ws (put Prod.fst (key, h) features)) := by
  have hkeyed : Table.Keyed Prod.fst features := (hvs.keys ws).sublist (hsub.map _)
  refine ⟨?_, ?_, ?_⟩
  · intro w
    dsimp only [VersionStore.set]
    split
    · exact hkeyed.put _
    · exact hvs.keys w
  · intro w k g hmem
    dsimp only [VersionStore.set] at hmem ⊢
    split at hmem
    · rcases mem_put.mp hmem with heq | ⟨hold, -⟩
      · cases heq
        exact hh
      · exact hvs.histories ws k g (hsub.subset hold)
    · exact hvs.histories w k g hmem
  · intro w
    dsimp only [VersionStore.set]
    split
    · exact hlen
    · exact hvs.features w

lemma wellNumbered_newVersionStore (maxFeatures maxVersions : Int) :
    WellNumbered (newVersionStore maxFeatures maxVersions) :=
  ⟨fun _ => nodup_nil, nofun, fun _ => Nat.zero_le _⟩

lemma WellNumbered.history (hvs : WellNumbered vs) (ws key : Str) :
    WellNumberedHistory vs.maxVersions (vs.history ws key) := by
  rcases eq_nil_or_concat (vs.history ws key) with hnil | ⟨init, v, hconcat⟩
  · rw [hnil]
    exact ⟨.nil, nofun, Nat.zero_le _⟩
  apply hvs.histories ws key
  apply mem_of_mem_historyOf (v := v)
  change v ∈ vs.history ws key
  rw [hconcat]
  simp

lemma wellNumbered_recordEvent (hvs : WellNumbered vs) {op}
    (horder : op.env.Admissible (vs.versions op.ws)) (hop : NotRetired vs op) :
    WellNumbered (recordEvent vs op.ws op.owner op.event op.env).1 := by
  have hpos := vs.maxFeatures_pos
  unfold recordEvent
  cases haction : op.event.action with
  | insert =>
    apply hvs.put (subset_of_ensureFeatureCapacityLocked hpos horder _)
    · exact ⟨pairwise_singleton _ _, nofun, vs.maxVersions_pos⟩
    · exact length_put_ensureFeatureCapacityLocked hpos horder _ (hvs.features op.ws) _
  | update =>
    dsimp only [recordUpdateLocked]
    rw [historyOf_ensureFeatureCapacityLocked hpos horder]
    apply hvs.put (subset_of_ensureFeatureCapacityLocked hpos horder _)
    · exact wellNumberedHistory_update _ _ _ _ _ (hvs.history op.ws _) (hop haction)
    · exact length_put_ensureFeatureCapacityLocked hpos horder _ (hvs.features op.ws) _
  | delete =>
    unfold recordDeleteLocked
    dsimp only
    cases hhist : historyOf (vs.versions op.ws)
        (featureKey op.event.layerName op.event.featureID) with
    | nil => exact hvs
    | cons v rest =>
      have hmem : v ∈ historyOf (vs.versions op.ws)
          (featureKey op.event.layerName op.event.featureID) := by
        rw [hhist]
        exact mem_cons_self
      have hentry := mem_of_mem_historyOf hmem
      rw [hhist] at hentry
      apply hvs.put (List.Sublist.refl _)
      · exact wellNumberedHistory_retire (hvs.histories op.ws _ _ hentry)
      · exact (length_put_of_mem ⟨_, hentry, rfl⟩).trans (hvs.features op.ws)

end Runs

/-- In every run in which no feature is updated while its last version is retired, every
history is well numbered and the bounds hold. -/
theorem wellNumbered_of_reachable (maxFeatures maxVersions : Int) (vs : VersionStore)
    (h : ((versionMachine maxFeatures maxVersions).restrict fun vs op _ =>
      NotRetired vs op).Reachable vs) : WellNumbered vs := by
  refine Machine.Reachable.induct ?_ ?_ h
  · rintro vs rfl
    exact wellNumbered_newVersionStore maxFeatures maxVersions
  · rintro vs op vs' - hvs ⟨⟨horder, rfl⟩, hop⟩
    exact wellNumbered_recordEvent hvs horder hop

/-! ### An update after a delete -/

/-- An event on feature `1` of `Roads`, at a time. -/
def roadEvent (action : VersionAction) (now : Nat) (order : List Str) : RecordOp where
  ws := "w"
  owner := "ann"
  event := ⟨action, "Roads", "1"⟩
  env := ⟨now, order⟩

def roadVersion (version now : Nat) (state : VersionState) (previousRid : Str) : FeatureVersion where
  featureID := "1"
  layerID := "Roads"
  workspaceID := "w"
  version := version
  previousRid := previousRid
  state := state
  createdAt := now
  modifiedBy := "ann"

/-- The store after some events. -/
def afterEvents (ops : List RecordOp) : VersionStore :=
  ops.foldl (fun vs op => (recordEvent vs op.ws op.owner op.event op.env).1) (newVersionStore 0 0)

def roadKeys : List Str := ["Roads:1"]

/-- The feature is inserted and updated. -/
theorem wellNumbered_of_reachable_sample :
    (afterEvents [roadEvent .insert 5 [], roadEvent .update 6 roadKeys]).history "w"
        "Roads:1" =
      [roadVersion 1 5 .superseded [], roadVersion 2 6 .valid "Roads.1@1"] ∧
    WellNumbered (afterEvents [roadEvent .insert 5 [], roadEvent .update 6 roadKeys]) := by
  have hinsert : NotRetired (afterEvents []) (roadEvent .insert 5 []) := by
    rintro ⟨⟩
  have hupdate : NotRetired (afterEvents [roadEvent .insert 5 []]) (roadEvent .update 6 roadKeys) := by
    rintro _ v ⟨⟩
    rfl
  have hnone : ((versionMachine 0 0).restrict fun vs op _ => NotRetired vs op).Reachable _ := .init rfl
  have hone := hnone.step (l := roadEvent .insert 5 []) ⟨⟨List.Perm.refl _, rfl⟩, hinsert⟩
  have htwo := hone.step (l := roadEvent .update 6 roadKeys) ⟨⟨List.Perm.refl _, rfl⟩, hupdate⟩
  exact ⟨by decide, wellNumbered_of_reachable 0 0 _ htwo⟩

/-- The store in which the feature was inserted, deleted and updated. -/
def updatedAfterDelete : VersionStore :=
  afterEvents [roadEvent .insert 5 [], roadEvent .delete 6 roadKeys, roadEvent .update 7 roadKeys]

/-- The feature has two versions with number `1`. -/
theorem numbers_repeat :
    (versionMachine 0 0).Reachable updatedAfterDelete ∧
    updatedAfterDelete.history "w" "Roads:1" =
      [roadVersion 1 5 .retired [], roadVersion 1 7 .valid []] ∧
    ¬ WellNumbered updatedAfterDelete := by
  have hnone : (versionMachine 0 0).Reachable (afterEvents []) := .init rfl
  have hone := hnone.step (l := roadEvent .insert 5 []) ⟨List.Perm.refl _, rfl⟩
  have htwo := hone.step (l := roadEvent .delete 6 roadKeys) ⟨List.Perm.refl _, rfl⟩
  have hthree := htwo.step (l := roadEvent .update 7 roadKeys) ⟨List.Perm.refl _, rfl⟩
  have hhistory : updatedAfterDelete.history "w" "Roads:1" =
      [roadVersion 1 5 .retired [], roadVersion 1 7 .valid []] := by decide
  refine ⟨hthree, hhistory, ?_⟩
  intro hwell
  have hnumbers := (hwell.history "w" "Roads:1").increasing
  exact absurd hnumbers (by decide)

end NeoServer.Wfs.Version
