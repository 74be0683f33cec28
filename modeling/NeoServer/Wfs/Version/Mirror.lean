import NeoServer.Wfs.Version.Batch

/-!
# Wfs.Version.Mirror — histories and rows in step

An event changes a history in memory and gives the changes of the table for it.

- `Carries` : changes that lead from the rows of a history to those of another,
- `Mirrored` : the rows of the table are the versions in memory,
- `mirrored_recordEvent` : an event that finds no leftovers keeps them in step.
-/

namespace NeoServer.Wfs.Version

open Transaction List Table

/-- An event that leaves no rows behind: the history is that of the feature alone, an
insert finds no version but the first, an update finds a valid one, and the clock reads
what the table can hold. -/
structure Regular (vs : VersionStore) (ws : Str) (event : VersionEvent) (env : RecordEnv) :
    Prop where
  layer : ∀ v ∈ vs.history ws (featureKey event.layerName event.featureID),
    v.layerID = event.layerName
  insert : event.action = .insert →
    ∀ v ∈ vs.history ws (featureKey event.layerName event.featureID), v.version = 1
  update : event.action = .update →
    ∀ v, (vs.history ws (featureKey event.layerName event.featureID)).getLast? = some v →
      v.state = .valid
  clock : env.now % 1000 = 0

/-- In one layer the key tells the feature. -/
lemma featureID_of_featureKey {layerID a b : Str} (h : featureKey layerID a = featureKey layerID b) :
    a = b :=
  append_cancel_left h

variable {rows : List FeatureVersion}

/-! ## The changes of an event -/

section Changes

variable {ws layerID featureID : Str} {h : History}

/-- A version of a feature that the table holds as it is. -/
structure Fits (ws layerID featureID : Str) (v : FeatureVersion) : Prop where
  feature : OfFeature ws layerID featureID v
  number : 0 < v.version
  time : stored v = v

/-- The rows of a feature are the versions of a history. -/
def RowsOf (ws layerID featureID : Str) (rows : List FeatureVersion) (h : History) : Prop :=
  ∀ r, OfFeature ws layerID featureID r → (r ∈ rows ↔ r ∈ h)

/-- Changes that lead from one history of a feature to another. -/
structure Carries (ws layerID featureID : Str) (h h' : History) (changes : List VersionChange) :
    Prop where
  fits : ∀ v ∈ h', Fits ws layerID featureID v
  feature : ∀ c ∈ changes, OfFeature ws layerID featureID c.record
  rows : ∀ rows, RowsOf ws layerID featureID rows h →
    RowsOf ws layerID featureID (applyAll rows changes) h'

variable {v record : FeatureVersion} {maxVersions : Nat}

lemma stored_of_clock (h : v.createdAt % 1000 = 0) : stored v = v := by
  have htime : v.createdAt / 1000 * 1000 = v.createdAt := by omega
  unfold stored
  rw [htime]

variable {now : Nat} {r version : FeatureVersion}

lemma fits_validVersion (ws layerID featureID owner : Str) (version : Nat)
    (rid : Str) (hclock : now % 1000 = 0) (hpos : 0 < version) :
    Fits ws layerID featureID (validVersion ws layerID featureID owner now version rid) :=
  ⟨⟨rfl, rfl, rfl⟩, hpos, stored_of_clock hclock⟩

lemma Fits.withState (hv : Fits ws layerID featureID v)
    (state : VersionState) : Fits ws layerID featureID { v with state := state } := by
  have htime : v.createdAt / 1000 * 1000 = v.createdAt := congrArg FeatureVersion.createdAt hv.time
  refine ⟨hv.feature, hv.number, ?_⟩
  unfold stored
  rw [htime]

lemma Fits.retire (hv : Fits ws layerID featureID v) : Fits ws layerID featureID (retire v) := by
  unfold Version.retire
  split
  · exact hv.withState .retired
  · exact hv

lemma OfFeature.rowKey_eq {a b} (ha : OfFeature ws layerID featureID a)
    (hb : OfFeature ws layerID featureID b) : rowKey a = rowKey b ↔ a.version = b.version := by
  unfold rowKey
  rw [ha.1, ha.2.1, ha.2.2, hb.1, hb.2.1, hb.2.2]
  simp

lemma carries_refl (hfits : ∀ v ∈ h, Fits ws layerID featureID v) :
    Carries ws layerID featureID h h [] :=
  ⟨hfits, nofun, fun _ hrows => hrows⟩

lemma Carries.trans {h' h'' : History} {cs ds} (hfirst : Carries ws layerID featureID h h' cs)
    (hthen : Carries ws layerID featureID h' h'' ds) :
    Carries ws layerID featureID h h'' (cs ++ ds) where
  fits := hthen.fits
  feature := forall_mem_append.mpr ⟨hfirst.feature, hthen.feature⟩
  rows rows hrows := by
    rw [applyAll_append]
    exact hthen.rows _ (hfirst.rows rows hrows)

/-- A record is written: it stands for the versions with its number. -/
lemma carries_upsert {h' : History} (hfits : ∀ v ∈ h, Fits ws layerID featureID v)
    (hrecord : Fits ws layerID featureID record)
    (hmem : ∀ r, r ∈ h' ↔ r = record ∨ (r ∈ h ∧ r.version ≠ record.version)) :
    Carries ws layerID featureID h h' [{ record := record }] := by
  refine ⟨?_, ?_, ?_⟩
  · intro v hv
    rcases (hmem v).mp hv with rfl | ⟨hv, -⟩
    · exact hrecord
    · exact hfits v hv
  · intro c hc
    rw [mem_singleton.mp hc]
    exact hrecord.feature
  · intro rows hrows r hr
    change r ∈ applyOne rows { record := record } ↔ _
    unfold applyOne
    rw [if_neg (by simp [VersionChange.Deletes]), hrecord.time, mem_put, hrows r hr, Ne,
      hr.rowKey_eq hrecord.feature, hmem]

/-- The versions below a number are deleted. -/
lemma carries_below (hfits : ∀ v ∈ h, Fits ws layerID featureID v) {n : Nat} (hn : 0 < n) :
    Carries ws layerID featureID h (h.filter fun v => n ≤ v.version)
      [{ record := validVersion ws layerID featureID [] 0 0 [], minVersion := n }] := by
  refine ⟨fun v hv => hfits v (mem_filter.mp hv).1, ?_, ?_⟩
  · intro c hc
    rw [mem_singleton.mp hc]
    exact ⟨rfl, rfl, rfl⟩
  · intro rows hrows r hr
    change r ∈ applyOne rows _ ↔ _
    unfold applyOne
    rw [if_pos (.inr hn)]
    unfold deleteRows
    rw [mem_filter, hrows r hr, mem_filter]
    simp [validVersion, hr]

lemma ne_of_increasing {a b : History}
    (hinc : ((a ++ v :: b).map FeatureVersion.version).Pairwise (· < ·)) :
    ∀ r ∈ a ++ b, r.version ≠ v.version := by
  rw [map_append, pairwise_append, map_cons, pairwise_cons] at hinc
  intro r hr
  rcases mem_append.mp hr with hr | hr
  · exact (hinc.2.2 _ (mem_map_of_mem hr) _ mem_cons_self).ne
  · exact (hinc.2.1.1 _ (mem_map_of_mem hr)).ne'

/-- A version is replaced by one with its number. -/
lemma carries_replace {a b : History} (hfits : ∀ u ∈ a ++ v :: b, Fits ws layerID featureID u)
    (hinc : ((a ++ v :: b).map FeatureVersion.version).Pairwise (· < ·))
    (hrecord : Fits ws layerID featureID record) (hnumber : record.version = v.version) :
    Carries ws layerID featureID (a ++ v :: b) (a ++ record :: b) [{ record := record }] := by
  have hne := ne_of_increasing hinc
  refine carries_upsert hfits hrecord fun r => ?_
  rw [mem_append, mem_cons, mem_append, mem_cons, hnumber]
  constructor
  · rintro (hr | rfl | hr)
    · exact .inr ⟨.inl hr, hne r (mem_append_left _ hr)⟩
    · exact .inl rfl
    · exact .inr ⟨.inr (.inr hr), hne r (mem_append_right _ hr)⟩
  · rintro (rfl | ⟨hr | rfl | hr, hother⟩)
    · exact .inr (.inl rfl)
    · exact .inl hr
    · exact absurd rfl hother
    · exact .inr (.inr hr)

/-- A first version takes the place of another first version. -/
lemma carries_insert (hfits : ∀ v ∈ h, Fits ws layerID featureID v)
    (hrecord : Fits ws layerID featureID record)
    (hnumber : ∀ v ∈ h, v.version = record.version) :
    Carries ws layerID featureID h [record] [{ record := record }] := by
  refine carries_upsert hfits hrecord fun r => ?_
  rw [mem_singleton]
  constructor
  · exact .inl
  · rintro (heq | ⟨hmem, hne⟩)
    · exact heq
    · exact absurd (hnumber r hmem) hne

/-- What is left of numbers in order is what is not below the first of them. -/
lemma mem_drop_iff {first} {rest : History} {n : Nat}
    (hinc : (h.map FeatureVersion.version).Pairwise (· < ·)) (hdrop : h.drop n = first :: rest)
    (r : FeatureVersion) : r ∈ h.drop n ↔ r ∈ h ∧ first.version ≤ r.version := by
  have hsplit : h = h.take n ++ first :: rest := by
    rw [← hdrop, take_append_drop]
  rw [hsplit, map_append, pairwise_append, map_cons, pairwise_cons] at hinc
  rcases hinc with ⟨-, ⟨hfirst, -⟩, hbefore⟩
  rw [hdrop]
  constructor
  · intro hr
    refine ⟨?_, ?_⟩
    · rw [hsplit]
      exact mem_append_right _ hr
    · rcases mem_cons.mp hr with rfl | hr
      · exact le_rfl
      · exact (hfirst _ (mem_map_of_mem hr)).le
  · rintro ⟨hr, hle⟩
    rw [hsplit] at hr
    rcases mem_append.mp hr with hr | hr
    · have hlt := hbefore _ (mem_map_of_mem hr) first.version mem_cons_self
      omega
    · exact hr

/-- A version is appended, and the history is cut after that. -/
lemma carries_trim (hpos : 0 < maxVersions)
    (hinc : ((h ++ [version]).map FeatureVersion.version).Pairwise (· < ·))
    (hfits : ∀ v ∈ h ++ [version], Fits ws layerID featureID v) :
    Carries ws layerID featureID h (trim maxVersions ws layerID featureID (h ++ [version])).1
      ((trim maxVersions ws layerID featureID (h ++ [version])).2 ++ [{ record := version }]) := by
  have hversion := hfits version (by simp)
  have hold : ∀ v ∈ h, Fits ws layerID featureID v := fun v hv => hfits v (mem_append_left _ hv)
  have hbelow : ∀ v ∈ h, v.version < version.version := by
    rw [map_append, pairwise_append] at hinc
    intro v hv
    exact hinc.2.2 _ (mem_map_of_mem hv) _ (by simp)
  unfold trim
  split
  · rename_i hlong
    cases hdrop : (h ++ [version]).drop ((h ++ [version]).length - maxVersions) with
    | nil =>
      have hlength := drop_eq_nil_iff.mp hdrop
      omega
    | cons first rest =>
      have hmem : first ∈ h ++ [version] := by
        apply mem_of_mem_drop (i := (h ++ [version]).length - maxVersions)
        rw [hdrop]
        exact mem_cons_self
      have hle : first.version ≤ version.version := by
        rcases mem_append.mp hmem with hmem | hmem
        · exact (hbelow first hmem).le
        · rw [mem_singleton.mp hmem]
      have hcut := carries_below hold (hfits first hmem).number
      refine hcut.trans (carries_upsert hcut.fits hversion fun r => ?_)
      change r ∈ first :: rest ↔ _
      rw [← hdrop, mem_drop_iff hinc hdrop, mem_filter, mem_append, mem_singleton,
        decide_eq_true_eq]
      constructor
      · rintro ⟨hmem | rfl, hnumber⟩
        · exact .inr ⟨⟨hmem, hnumber⟩, (hbelow r hmem).ne⟩
        · exact .inl rfl
      · rintro (rfl | ⟨⟨hmem, hnumber⟩, -⟩)
        · exact ⟨.inr rfl, hle⟩
        · exact ⟨.inl hmem, hnumber⟩
  · refine carries_upsert hold hversion fun r => ?_
    rw [mem_append, mem_singleton]
    constructor
    · rintro (hmem | heq)
      · exact .inr ⟨hmem, (hbelow r hmem).ne⟩
      · exact .inl heq
    · rintro (heq | ⟨hmem, -⟩)
      · exact .inr heq
      · exact .inl hmem

/-- A first version, or the last one is superseded and one is appended. -/
lemma carries_update (hpos : 0 < maxVersions) (owner : Str)
    (hinc : (h.map FeatureVersion.version).Pairwise (· < ·))
    (hfits : ∀ v ∈ h, Fits ws layerID featureID v)
    (hvalid : ∀ v, h.getLast? = some v → v.state = .valid) (hclock : now % 1000 = 0) :
    Carries ws layerID featureID h
      (updateHistory maxVersions ws layerID featureID owner now h).1
      (updateHistory maxVersions ws layerID featureID owner now h).2 := by
  rcases updateHistory_cases ws layerID featureID maxVersions owner now hvalid with
    ⟨rfl, heq⟩ | ⟨init, v, rfl, -, heq⟩
  · rw [heq]
    apply carries_trim hpos (pairwise_singleton _ _)
    intro u hu
    rw [mem_singleton.mp hu]
    exact fits_validVersion ws layerID featureID owner 1 [] hclock Nat.one_pos
  · have hold := (hfits v (by simp)).withState .superseded
    have hversion := fits_validVersion ws layerID featureID owner (v.version + 1)
      (previousRid layerID featureID v.version) hclock (Nat.succ_pos _)
    have hall : ∀ u ∈ (init ++ [{ v with state := .superseded }]) ++
        [validVersion ws layerID featureID owner now (v.version + 1)
          (previousRid layerID featureID v.version)], Fits ws layerID featureID u := by
      intro u hu
      rcases mem_append.mp hu with hu | hu
      · rcases mem_append.mp hu with hu | hu
        · exact hfits u (mem_append_left _ hu)
        · rw [mem_singleton.mp hu]
          exact hold
      · rw [mem_singleton.mp hu]
        exact hversion
    have htrim := carries_trim hpos (by exact increasing_update hinc rfl rfl) hall
    rw [heq]
    dsimp only
    rw [append_cons init _ [_]]
    exact (carries_replace hfits hinc hold rfl).trans htrim

/-- The valid versions are retired, one after the other. -/
lemma carries_retire (todo : History)
    (hinc : ((h ++ todo).map FeatureVersion.version).Pairwise (· < ·))
    (hfits : ∀ v ∈ h ++ todo, Fits ws layerID featureID v) :
    Carries ws layerID featureID (h ++ todo) (h ++ todo.map retire)
      ((todo.filter fun v => v.state = .valid).map fun v => { record := retire v }) := by
  induction todo generalizing h with
  | nil => exact carries_refl hfits
  | cons v rest ih =>
    have hnext := ih (h := h ++ [retire v]) (by simpa [retire_version] using hinc) (by
      simp only [mem_append, mem_cons] at hfits ⊢
      rintro u ((hu | rfl | hu) | hu)
      · exact hfits u (.inl hu)
      · exact (hfits v (.inr (.inl rfl))).retire
      · cases hu
      · exact hfits u (.inr (.inr hu)))
    simp only [append_assoc, singleton_append] at hnext
    by_cases hvalid : v.state = .valid
    · rw [filter_cons_of_pos (by simpa using hvalid)]
      exact (carries_replace hfits hinc (hfits v (by simp)).retire (retire_version v)).trans hnext
    have hsame : retire v = v := if_neg hvalid
    rw [filter_cons_of_neg (by simpa using hvalid), map_cons, hsame]
    rw [hsame] at hnext
    exact hnext

end Changes

/-! ## Histories and rows in step -/

section Mirrored

/-- The versions of a history are those of one feature. -/
structure Owned (ws key : Str) (h : History) : Prop where
  key : ∀ v ∈ h, featureKey v.layerID v.featureID = key
  layer : ∀ v ∈ h, ∀ u ∈ h, v.layerID = u.layerID
  fits : ∀ v ∈ h, Fits ws v.layerID v.featureID v

/-- The rows are the versions in memory. -/
structure Mirrored (vs : VersionStore) (rows : List FeatureVersion) : Prop where
  well : WellNumbered vs
  keyed : Table.Keyed rowKey rows
  owned : ∀ ws key, Owned ws key (vs.history ws key)
  rows : ∀ r, r ∈ rows ↔ r ∈ vs.history r.workspaceID (featureKey r.layerID r.featureID)

variable {vs : VersionStore} {ws layerID featureID key : Str}

lemma history_set_self (vs : VersionStore) (ws : Str) (features : Histories) (key : Str) :
    (vs.set ws features).history ws key = historyOf features key := by
  unfold VersionStore.history VersionStore.set
  dsimp only
  rw [if_pos rfl]

lemma history_set_of_ne {w : Str} (hne : w ≠ ws) (features : Histories) (key : Str) :
    (vs.set ws features).history w key = vs.history w key := by
  unfold VersionStore.history VersionStore.set
  dsimp only
  rw [if_neg hne]

lemma set_set (vs : VersionStore) (ws : Str) (features features' : Histories) :
    (vs.set ws features).set ws features' = vs.set ws features' := by
  unfold VersionStore.set
  congr 1
  funext w
  dsimp only
  split <;> rfl

/-- The versions of a history are those of the feature whose layer they have. -/
lemma Owned.fits_of_layer {h : History} (ho : Owned ws (featureKey layerID featureID) h)
    {v} (hv : v ∈ h) (hlayer : v.layerID = layerID) : Fits ws layerID featureID v := by
  have hkey := ho.key v hv
  rw [hlayer] at hkey
  have hfits := ho.fits v hv
  rw [hlayer, featureID_of_featureKey hkey] at hfits
  exact hfits

lemma owned_nil (ws key : Str) : Owned ws key [] :=
  ⟨nofun, nofun, nofun⟩

lemma WellNumbered.delete (hvs : WellNumbered vs) (ws key : Str) :
    WellNumbered (vs.set ws (delete Prod.fst key (vs.versions ws))) := by
  refine ⟨?_, ?_, ?_⟩
  · intro w
    dsimp only [VersionStore.set]
    split
    · exact (hvs.keys ws).filter _
    · exact hvs.keys w
  · intro w k h hmem
    dsimp only [VersionStore.set] at hmem ⊢
    split at hmem
    · exact hvs.histories ws k h (mem_delete.mp hmem).1
    · exact hvs.histories w k h hmem
  · intro w
    dsimp only [VersionStore.set]
    split
    · exact (length_filter_le _ _).trans (hvs.features ws)
    · exact hvs.features w

lemma history_delete (vs : VersionStore) (ws key w k : Str) :
    (vs.set ws (delete Prod.fst key (vs.versions ws))).history w k =
      if w = ws ∧ k = key then [] else vs.history w k := by
  by_cases hw : w = ws
  · rw [hw, history_set_self]
    by_cases hk : k = key
    · rw [if_pos ⟨rfl, hk⟩, hk]
      exact historyOf_delete_self
    · rw [if_neg fun h => hk h.2]
      exact historyOf_delete_of_ne hk
  · rw [history_set_of_ne hw, if_neg fun h => hw h.1]

lemma history_put (vs : VersionStore) (ws key : Str) (h : History) (w k : Str) :
    (vs.set ws (put Prod.fst (key, h) (vs.versions ws))).history w k =
      if w = ws ∧ k = key then h else vs.history w k := by
  by_cases hw : w = ws
  · rw [hw, history_set_self]
    by_cases hk : k = key
    · rw [if_pos ⟨rfl, hk⟩, hk]
      exact historyOf_put_self
    · rw [if_neg fun h => hk h.2]
      exact historyOf_put_of_ne hk
  · rw [history_set_of_ne hw, if_neg fun h => hw h.1]

/-- A history goes, and so do the rows of its feature. -/
lemma Mirrored.evict (hm : Mirrored vs rows) (ws key : Str) :
    Mirrored (vs.set ws (delete Prod.fst key (vs.versions ws)))
      (applyAll rows (match vs.history ws key with
        | [] => []
        | v :: _ => [{ record := v, deleteAll := true }])) := by
  have howned : ∀ w k, Owned w k
      ((vs.set ws (delete Prod.fst key (vs.versions ws))).history w k) := by
    intro w k
    rw [history_delete]
    split
    · exact owned_nil w k
    · exact hm.owned w k
  refine ⟨hm.well.delete ws key, keyed_applyAll hm.keyed _, howned, ?_⟩
  intro r
  have hrow := hm.rows r
  have hown := hm.owned ws key
  rw [history_delete]
  cases hhist : vs.history ws key with
  | nil =>
    change r ∈ rows ↔ _
    rw [hrow]
    split
    · rename_i hhere
      rw [hhere.1, hhere.2, hhist]
    · rfl
  | cons v rest =>
    rw [hhist] at hown
    have hws : v.workspaceID = ws := (hown.fits v mem_cons_self).feature.1
    have hkey := hown.key v mem_cons_self
    have hdeleted : r ∈ applyAll rows [{ record := v, deleteAll := true }] ↔
        r ∈ rows ∧ ¬ OfFeature v.workspaceID v.layerID v.featureID r := by
      simp [applyAll, applyOne, VersionChange.Deletes, deleteRows]
    -- a row under the key is one of the feature that goes, and no other row is
    have hof : r ∈ rows → (OfFeature v.workspaceID v.layerID v.featureID r ↔
        r.workspaceID = ws ∧ featureKey r.layerID r.featureID = key) := by
      intro hr
      constructor
      · rintro ⟨hrws, hrlayer, hrfeature⟩
        rw [hrws, hrlayer, hrfeature]
        exact ⟨hws, hkey⟩
      · rintro ⟨hrws, hrkey⟩
        rw [hrow, hrws, hrkey, hhist] at hr
        have hlayer := hown.layer r hr v mem_cons_self
        rw [← hkey, hlayer] at hrkey
        exact ⟨hrws.trans hws.symm, hlayer, featureID_of_featureKey hrkey⟩
    rw [hdeleted]
    constructor
    · rintro ⟨hr, hnot⟩
      rw [if_neg fun h => hnot ((hof hr).mpr h)]
      exact hrow.mp hr
    · intro hr
      split at hr
      · cases hr
      rename_i hother
      have hr := hrow.mpr hr
      exact ⟨hr, fun h => hother ((hof hr).mp h)⟩

variable {env : RecordEnv}

/-- What makes room for a key. -/
abbrev VersionStore.room (vs : VersionStore) (env : RecordEnv) (ws key : Str) :
    Histories × List VersionChange :=
  ensureFeatureCapacityLocked vs.maxFeatures env.order (vs.versions ws) key

/-- Room is made in the table as in memory. -/
lemma Mirrored.room (hm : Mirrored vs rows) (horder : env.Admissible (vs.versions ws)) (key : Str) :
    Mirrored (vs.set ws (vs.room env ws key).1) (applyAll rows (vs.room env ws key).2) := by
  rcases ensureFeatureCapacityLocked_cases vs.maxFeatures_pos horder key with
    ⟨heq, -⟩ | ⟨evicted, -, -, heq⟩
  · have hset : vs.set ws (vs.versions ws) = vs := by
      unfold VersionStore.set
      congr 1
      funext w
      split
      · rename_i hw
        rw [hw]
      · rfl
    rw [VersionStore.room, heq, hset]
    exact hm
  · rw [VersionStore.room, heq]
    exact hm.evict ws evicted

variable {h : History} {changes : List VersionChange}

/-- The history of one feature is changed, and so are its rows. -/
lemma Mirrored.put (hm : Mirrored vs rows)
    (hwell : WellNumbered (vs.set ws (put Prod.fst (key, h) (vs.versions ws))))
    (hkey : featureKey layerID featureID = key) (hlayer : ∀ v ∈ vs.history ws key, v.layerID = layerID)
    (hcarries : Carries ws layerID featureID (vs.history ws key) h changes) :
    Mirrored (vs.set ws (put Prod.fst (key, h) (vs.versions ws))) (applyAll rows changes) := by
  subst hkey
  have hrowsOf : RowsOf ws layerID featureID rows (vs.history ws (featureKey layerID featureID)) := by
    intro r hr
    rw [hm.rows, hr.1, hr.2.1, hr.2.2]
  refine ⟨hwell, keyed_applyAll hm.keyed changes, ?_, ?_⟩
  · intro w k
    rw [history_put]
    split
    · rename_i hhere
      rw [hhere.1, hhere.2]
      refine ⟨?_, ?_, ?_⟩
      · intro v hv
        rw [(hcarries.fits v hv).feature.2.1, (hcarries.fits v hv).feature.2.2]
      · intro v hv u hu
        exact (hcarries.fits v hv).feature.2.1.trans (hcarries.fits u hu).feature.2.1.symm
      · intro v hv
        have hfits := hcarries.fits v hv
        exact ⟨⟨hfits.feature.1, rfl, rfl⟩, hfits.number, hfits.time⟩
    · exact hm.owned w k
  · intro r
    rw [history_put]
    by_cases hr : OfFeature ws layerID featureID r
    · rw [if_pos ⟨hr.1, by rw [hr.2.1, hr.2.2]⟩]
      exact hcarries.rows rows hrowsOf r hr
    rw [mem_applyAll_of_other hcarries.feature hr, hm.rows]
    split
    · -- another feature under the key has no version, before and after
      rename_i hhere
      rw [hhere.1, hhere.2]
      constructor
      · intro hmem
        exact absurd ((hm.owned ws _).fits_of_layer hmem (hlayer r hmem)).feature hr
      · intro hmem
        exact absurd (hcarries.fits r hmem).feature hr
    · rfl

/-- An event that makes room and then changes the history of its feature. -/
lemma Mirrored.room_put (hm : Mirrored vs rows) (horder : env.Admissible (vs.versions ws))
    (hkey : featureKey layerID featureID = key)
    (hwell : WellNumbered (vs.set ws (Table.put Prod.fst (key, h) (vs.room env ws key).1)))
    (hlayer : ∀ v ∈ vs.history ws key, v.layerID = layerID)
    (hcarries : Carries ws layerID featureID (vs.history ws key) h changes) :
    Mirrored (vs.set ws (Table.put Prod.fst (key, h) (vs.room env ws key).1))
      (applyAll rows ((vs.room env ws key).2 ++ changes)) := by
  have hroom := hm.room horder key
  have hhist : historyOf (vs.room env ws key).1 key = vs.history ws key :=
    historyOf_ensureFeatureCapacityLocked vs.maxFeatures_pos horder key
  generalize vs.room env ws key = room at hroom hhist hwell ⊢
  have hhistory : (vs.set ws room.1).history ws key = vs.history ws key := by
    rw [history_set_self]
    exact hhist
  have hversions : (vs.set ws room.1).versions ws = room.1 := if_pos rfl
  have hset : (vs.set ws room.1).set ws (Table.put Prod.fst (key, h)
      ((vs.set ws room.1).versions ws)) = vs.set ws (Table.put Prod.fst (key, h) room.1) := by
    rw [set_set, hversions]
  rw [applyAll_append, ← hset]
  apply hroom.put _ hkey
  · rw [hhistory]
    exact hlayer
  · rw [hhistory]
    exact hcarries
  · rw [hset]
    exact hwell

theorem mirrored_recordEvent (hm : Mirrored vs rows) {owner : Str} {event}
    (horder : env.Admissible (vs.versions ws)) (hr : Regular vs ws event env) :
    Mirrored (recordEvent vs ws owner event env).1
      (applyAll rows (recordEvent vs ws owner event env).2) := by
  have hnot : NotRetired vs ⟨ws, owner, event, env⟩ := hr.update
  have hwell : WellNumbered (recordEvent vs ws owner event env).1 :=
    wellNumbered_recordEvent hm.well horder hnot
  have hinc := (hm.well.history ws (featureKey event.layerName event.featureID)).increasing
  have hfits : ∀ v ∈ vs.history ws (featureKey event.layerName event.featureID),
      Fits ws event.layerName event.featureID v := fun v hv =>
    (hm.owned ws _).fits_of_layer hv (hr.layer v hv)
  unfold recordEvent at hwell ⊢
  cases haction : event.action with
  | insert =>
    rw [haction] at hwell
    apply hm.room_put horder rfl hwell hr.layer
    apply carries_insert hfits
    · exact fits_validVersion _ _ _ owner 1 [] hr.clock Nat.one_pos
    · exact hr.insert haction
  | update =>
    rw [haction] at hwell
    have hhist := historyOf_ensureFeatureCapacityLocked vs.maxFeatures_pos horder
      (featureKey event.layerName event.featureID)
    dsimp only [recordUpdateLocked] at hwell ⊢
    rw [hhist] at hwell ⊢
    apply hm.room_put horder rfl hwell hr.layer
    exact carries_update vs.maxVersions_pos owner hinc hfits (hr.update haction) hr.clock
  | delete =>
    rw [haction] at hwell
    have hcarries := carries_retire (h := []) (vs.history ws _) hinc hfits
    dsimp only [recordDeleteLocked] at hwell ⊢
    cases hhist : historyOf (vs.versions ws) (featureKey event.layerName event.featureID) with
    | nil => exact hm
    | cons =>
      rw [hhist] at hwell
      rw [VersionStore.history, hhist] at hcarries
      apply hm.put hwell rfl hr.layer
      rw [VersionStore.history, hhist]
      exact hcarries

end Mirrored

end NeoServer.Wfs.Version
