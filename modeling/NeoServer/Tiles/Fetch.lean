import NeoServer.Machine
import NeoServer.Table

/-!
# Tiles.Fetch — fetching tiles while data is written

`Engine.Fetch` looks for a tile in memory and in the persistent cache, and renders it if it
is in neither. The identity of a tile has the data revision of the workspace in it. A data
write sets a flag and raises the revision before it touches the source, in memory and in
the catalog, and it raises the revision again and clears the flag when it is done; fetches
that see the flag go around the caches.

The model takes every load and store of the state that fetches and writes share as a step
of its own. A rendered tile is the number of the source state that it was rendered from.

- `Fetch`, `State.advance` : the steps of one call of `Fetch`,
- `State.write` : the steps of `BeginDataWrite`, of the source write and of `finish`,
- `fetchMachine` : any number of fetches, writes, lost cache entries and restarts,
- `Fresh` : what fetches return is as new as the last write that finished before them.
-/

namespace NeoServer.Tiles

/-! ## The catalog -/

/-- The row of a workspace in `workspace_data_revisions`; without a row the revision is `1`. -/
structure Catalog where
  revision : Nat := 1
  pending : Bool := false
deriving DecidableEq, Repr

def setDataWritePending (c : Catalog) (pending : Bool) : Catalog := ⟨c.revision + 1, pending⟩

/-- What happens at the start of the server to the row of a workspace. -/
def recoverDataWrites (c : Catalog) : Catalog := if c.pending then ⟨c.revision + 1, false⟩ else c

/-- How a call of `SetDataWritePending` ends: in an error, the row may have been written. -/
inductive Marker
  | ok | lost | written
deriving DecidableEq, Repr

/-- The row after the call. -/
def Marker.apply (m : Marker) (pending : Bool) (c : Catalog) : Catalog :=
  match m with
  | .lost => c
  | .ok | .written => setDataWritePending c pending

/-! ## Fetches -/

section Model

variable {κ : Type}

/-- What a request brings: the identity of the tile apart from the data revision, and
whether `cacheParametersAllow` lets it be cached. -/
structure Request (κ : Type) where
  tile : κ
  useCache : Bool
  force : Bool
  allowed : Bool
deriving DecidableEq, Repr

inductive Outcome
  | data (version : Nat)
  | failed
deriving DecidableEq, Repr

/-- Where a call of `Fetch` is. From `recheck` on it runs the function of the group, for a
call that others may wait for. -/
inductive Pc
  | identity | pending | fill | memory | persistent
  | hit (version : Nat)
  | join
  | wait (call : Nat)
  | recheck (call : Nat)
  | repersistent (call : Nat)
  | rehit (call version : Nat)
  | render (call : Nat)
  | setMemory (call version : Nat)
  | put (call version : Nat)
  | complete (call : Nat) (result : Outcome)
  | done (result : Outcome)
deriving DecidableEq, Repr

/-- A call of `Fetch`. `began` is the source state of the last write that had finished when
it began. -/
structure Fetch (κ : Type) where
  request : Request κ
  began : Nat
  pc : Pc := .identity
  revision : Nat := 0
  useCache : Bool := false
  force : Bool := false
  epoch : Nat := 0
deriving DecidableEq, Repr

/-- A tile under its identity. -/
structure Tile (κ : Type) where
  tile : κ
  revision : Nat
  version : Nat
deriving DecidableEq, Repr

def Tile.identity (t : Tile κ) : κ × Nat := (t.tile, t.revision)

/-- An entry of the memory cache. -/
structure Entry (κ : Type) where
  tile : Tile κ
  epoch : Nat
deriving DecidableEq, Repr

def Entry.identity (e : Entry κ) : κ × Nat := e.tile.identity

/-- A call of the group: the coalescing key, and the result once there is one. -/
structure Call (κ : Type) where
  tile : κ
  revision : Nat
  epoch : Nat
  result : Option Outcome := none
deriving DecidableEq, Repr

/-! ## Writes -/

/-- Where the writer that holds the gate is; `marked` and `closed` have the revision that
`SetDataWritePending` returned. -/
inductive Writer
  | idle | gated | flagged | bumped
  | marked (revision : Nat)
  | loaded | writing
  | closed (revision : Nat)
  | stored | cleared | failed
deriving DecidableEq, Repr

structure State (κ : Type) where
  catalog : Catalog := {}
  revision : Nat := 1
  pending : Bool := false
  writer : Writer := .idle
  source : Nat := 0
  finished : Nat := 0
  epoch : Nat := 0
  memory : List (Entry κ) := []
  persistent : List (Tile κ) := []
  calls : List (Call κ) := []
  fetches : List (Fetch κ) := []

/-- `InvalidateTiles`; if the memory cache is not enabled, there is nothing to invalidate
and epochs go on. -/
def State.invalidateTiles (enabled : Bool) (s : State κ) : State κ :=
  if enabled then { s with epoch := s.epoch + 1 } else s

/-- One step of the writer: of `BeginDataWrite`, and from `writing` on of `finish`. -/
def State.write (enabled : Bool) (s : State κ) (m : Marker) : State κ :=
  match s.writer with
  | .idle => { s with writer := .gated }
  | .gated => { s with pending := true, writer := .flagged }
  | .flagged => { s with revision := s.revision + 1, writer := .bumped }
  | .bumped =>
    let catalog := m.apply true s.catalog
    { s with catalog := catalog,
             writer := if m = .ok then .marked catalog.revision else .idle }
  | .marked revision => { s with revision := revision, writer := .loaded }
  | .loaded => { s.invalidateTiles enabled with writer := .writing }
  | .writing =>
    let catalog := m.apply false s.catalog
    { s with catalog := catalog,
             writer := if m = .ok then .closed catalog.revision else .failed }
  | .closed revision => { s with revision := revision, writer := .stored }
  | .stored => { s with pending := false, writer := .cleared }
  | .cleared | .failed =>
    -- the deferred invalidation, and the gate is free
    { s.invalidateTiles enabled with finished := s.source, writer := .idle }

/-- The writer commits to the source. -/
def State.commit (s : State κ) : Option (State κ) :=
  if s.writer = .writing then some { s with source := s.source + 1 } else none

/-- A crash and the next start. A write that the crash cut off counts as finished after it. -/
def State.restart (s : State κ) : State κ :=
  let catalog := recoverDataWrites s.catalog
  { s with catalog := catalog, revision := catalog.revision, pending := catalog.pending,
           writer := .idle, finished := s.source, epoch := s.epoch + 1, memory := [],
           calls := [], fetches := [] }

/-! ## The steps of a fetch -/

variable [DecidableEq κ]

def State.getMemory (enabled : Bool) (s : State κ) (f : Fetch κ) : Option Nat :=
  if enabled then
    ((Table.get Entry.identity (f.request.tile, f.revision) s.memory).filter
      fun e => e.epoch = s.epoch).map fun e => e.tile.version
  else none

def State.setMemory (enabled : Bool) (s : State κ) (f : Fetch κ) (version : Nat) : State κ :=
  if enabled = true ∧ f.epoch = s.epoch then
    let entry : Entry κ := ⟨⟨f.request.tile, f.revision, version⟩, f.epoch⟩
    { s with memory := Table.put Entry.identity entry s.memory }
  else s

variable (s : State κ) (f : Fetch κ)

def State.getPersistent : Option Nat :=
  (Table.get Tile.identity (f.request.tile, f.revision) s.persistent).map Tile.version

def State.putPersistent (version : Nat) : State κ :=
  let tile : Tile κ := ⟨f.request.tile, f.revision, version⟩
  { s with persistent := Table.put Tile.identity tile s.persistent }

/-- The call in progress that a fetch is coalesced with. -/
def State.findCall : Option Nat :=
  s.calls.findIdx? fun c =>
    c.tile = f.request.tile ∧ c.revision = f.revision ∧ c.epoch = f.epoch ∧ c.result = none

def State.setCall (call : Nat) (result : Outcome) : State κ :=
  { s with calls := s.calls.modify call fun c => { c with result := some result } }

/-- The fetch may use what is cached. -/
def Fetch.looks : Bool := f.useCache && !f.force

/-- The check of the flag: a fetch that goes around the caches does not force either. -/
def Fetch.check (dataPending : Bool) : Fetch κ :=
  let bypass := f.request.useCache && (dataPending || !f.request.allowed)
  { f with useCache := f.request.useCache && !bypass, force := f.request.force && !bypass,
           pc := .fill }

/-- One step of a fetch: the state that it leaves, and the fetch itself. Calls of the
persistent cache and the rendering may fail. -/
def State.advance (enabled : Bool) (s : State κ) (f : Fetch κ) (ok : Bool) :
    Option (State κ × Fetch κ) :=
  match f.pc with
  | .identity => some (s, { f with revision := s.revision, pc := .pending })
  | .pending => some (s, f.check s.pending)
  | .fill => some (s, { f with epoch := s.epoch, pc := if f.looks then .memory else .join })
  | .memory =>
    match s.getMemory enabled f with
    | some version => some (s, { f with pc := .done (.data version) })
    | none => some (s, { f with pc := .persistent })
  | .persistent =>
    match (if ok then s.getPersistent f else none) with
    | some version => some (s, { f with pc := .hit version })
    | none => some (s, { f with pc := .join })
  | .hit version => some (s.setMemory enabled f version, { f with pc := .done (.data version) })
  | .join =>
    match s.findCall f with
    | some call => some (s, { f with pc := .wait call })
    | none =>
      let call := s.calls.length
      some ({ s with calls := s.calls ++ [⟨f.request.tile, f.revision, f.epoch, none⟩] },
        { f with pc := if f.looks then .recheck call else .render call })
  | .wait call =>
    match s.calls[call]?.bind Call.result with
    | some result => some (s, { f with pc := .done result })
    | none => none
  | .recheck call =>
    match s.getMemory enabled f with
    | some version => some (s, { f with pc := .complete call (.data version) })
    | none => some (s, { f with pc := .repersistent call })
  | .repersistent call =>
    match (if ok then s.getPersistent f else none) with
    | some version => some (s, { f with pc := .rehit call version })
    | none => some (s, { f with pc := .render call })
  | .rehit call version =>
    some (s.setMemory enabled f version, { f with pc := .complete call (.data version) })
  | .render call =>
    if ok = false then some (s, { f with pc := .complete call .failed })
    else if f.useCache then some (s, { f with pc := .setMemory call s.source })
    else some (s, { f with pc := .complete call (.data s.source) })
  | .setMemory call version =>
    some (s.setMemory enabled f version, { f with pc := .put call version })
  | .put call version =>
    some (if ok then s.putPersistent f version else s,
      { f with pc := .complete call (.data version) })
  | .complete call result => some (s.setCall call result, { f with pc := .done result })
  | .done _ => none

/-! ## Runs -/

inductive Action (κ : Type)
  | start (request : Request κ)
  | advance (i : Nat) (ok : Bool)
  | write (m : Marker)
  | commit
  | invalidate
  | evict (tile : κ) (revision : Nat)
  | delete (tile : κ) (revision : Nat)
  | restart
deriving DecidableEq, Repr

def State.next (enabled : Bool) (s : State κ) : Action κ → Option (State κ)
  | .start request =>
    let f : Fetch κ := { request := request, began := s.finished }
    some { s with fetches := s.fetches ++ [f] }
  | .advance i ok =>
    match s.fetches[i]? with
    | none => none
    | some f => (s.advance enabled f ok).map fun r =>
      { r.1 with fetches := r.1.fetches.set i r.2 }
  | .write m => some (s.write enabled m)
  | .commit => s.commit
  | .invalidate => some (s.invalidateTiles enabled)
  | .evict tile revision =>
    some { s with memory := Table.delete Entry.identity (tile, revision) s.memory }
  | .delete tile revision =>
    some { s with persistent := Table.delete Tile.identity (tile, revision) s.persistent }
  | .restart => some s.restart

/-- The engine of a workspace, from its creation on. -/
def fetchMachine (κ : Type) [DecidableEq κ] (enabled : Bool) : Machine (State κ) (Action κ) where
  init s := s = {}
  step s a s' := s.next enabled a = some s'

end Model

/-! ## What is to hold -/

/-- A tile that was returned is as new as the last write that finished before the fetch. -/
def Fresh {κ : Type} (s : State κ) : Prop :=
  ∀ f ∈ s.fetches, ∀ version, f.pc = .done (.data version) → f.began ≤ version

/-- How far the revision in memory may be ahead of the catalog. -/
def ahead (enabled : Bool) : Nat := if enabled then 2 else 1

/-- A write begins only if the revision in memory is not too far ahead of the catalog
(it gets ahead when the marker of a write that begins is lost); and without the memory
cache the marker of `finish` does not fail. -/
def Kept {κ : Type} (enabled : Bool) (s : State κ) (a : Action κ) : Prop :=
  ∀ m, a = .write m →
    (s.writer = .flagged → s.revision + 1 ≤ s.catalog.revision + ahead enabled) ∧
    (s.writer = .writing → enabled = false → m = .ok)

end NeoServer.Tiles
