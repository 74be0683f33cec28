import Mathlib.Logic.Function.Basic
import NeoServer.Machine
import NeoServer.Text

/-!
# Registry.Sync — the registry beside the database

The registry holds the workspaces and layers that are served. A call writes the database first, without
the lock of the registry, and brings the result to the registry afterwards, with the lock. Between the two
other calls may do the same.

- `Catalog` : the rows of workspaces and layers, by their ids,
- `Registry` : the index of names, the index of ids, the layers of each service by public id,
- `machine` : any number of calls, each a step at a time,
- `Agreement` : the two indexes have the same workspaces and what is held is what is stored,
- `Careful` : no two calls at once for one workspace or layer, and no name is stored that the registry
  still holds for another,
- `Loaded` : the registry at the start.
-/

namespace NeoServer.Sync

open Function

variable {D : Type}

/-! ## Rows -/

structure WorkspaceData where
  name : Str
  description : Str
deriving DecidableEq, Repr

structure UpdateWorkspaceInput where
  name : Option Str
  description : Option Str
deriving DecidableEq, Repr

def UpdateWorkspaceInput.apply (input : UpdateWorkspaceInput) (data : WorkspaceData) : WorkspaceData :=
  ⟨input.name.getD data.name, input.description.getD data.description⟩

/-- `detail` are the columns of dimensions, SQL view, extent and tile parameters. -/
structure LayerData (D : Type) where
  sourceLayer : Str
  publicID : Str
  title : Str
  description : Str
  enabled : Bool
  crsDefault : Int
  isSQLView : Bool
  isPublic : Bool
  allowedRoles : List Str
  defaultStyle : Str
  styles : List Str
  tileCacheQuotaBytes : Int
  tileCacheGeneration : Int
  detail : D

/-- What `CreateLayer` stores for its input. -/
def LayerData.created (data : LayerData D) : LayerData D :=
  { data with
    crsDefault := if data.crsDefault = 0 then 4326 else data.crsDefault
    tileCacheGeneration := 1 }

structure UpdateLayerInput (D : Type) where
  publicID : Option Str
  title : Option Str
  description : Option Str
  enabled : Option Bool
  crsDefault : Option Int
  isPublic : Option Bool
  allowedRoles : Option (List Str)
  defaultStyle : Option Str
  styles : Option (List Str)
  tileCacheQuotaBytes : Option Int
  detail : D → D

def UpdateLayerInput.apply (input : UpdateLayerInput D) (data : LayerData D) : LayerData D where
  sourceLayer := data.sourceLayer
  publicID := input.publicID.getD data.publicID
  title := input.title.getD data.title
  description := input.description.getD data.description
  enabled := input.enabled.getD data.enabled
  crsDefault := input.crsDefault.getD data.crsDefault
  isSQLView := data.isSQLView
  isPublic := input.isPublic.getD data.isPublic
  allowedRoles := input.allowedRoles.getD data.allowedRoles
  defaultStyle := input.defaultStyle.getD data.defaultStyle
  styles := input.styles.getD data.styles
  tileCacheQuotaBytes := input.tileCacheQuotaBytes.getD data.tileCacheQuotaBytes
  tileCacheGeneration := data.tileCacheGeneration + 1
  detail := input.detail data.detail

structure LayerRow (D : Type) where
  service : Nat
  data : LayerData D

/-- The tables, by their primary keys. -/
structure Catalog (D : Type) where
  workspaces : Nat → Option WorkspaceData
  layers : Nat → Option (LayerRow D)

/-! ## The registry -/

structure Layer (D : Type) where
  id : Nat
  data : LayerData D

/-- The fields that `UpdateLayer` copies into the layer of the registry. -/
def Layer.refresh (layer : Layer D) (data : LayerData D) : Layer D :=
  ⟨layer.id, { data with sourceLayer := layer.data.sourceLayer, isSQLView := layer.data.isSQLView }⟩

/-- A workspace is one object that both indexes point to; `home` says to which workspace a service
belongs. -/
structure Registry (D : Type) where
  workspaces : Str → Option Nat
  workspacesByID : Nat → Option WorkspaceData
  layers : Nat → Str → Option (Layer D)

namespace Registry

def addWorkspace (r : Registry D) (id : Nat) (data : WorkspaceData) : Registry D :=
  { r with
    workspaces := update r.workspaces data.name (some id)
    workspacesByID := update r.workspacesByID id (some data) }

def updateWorkspace (r : Registry D) (id : Nat) (data : WorkspaceData) : Registry D :=
  match r.workspacesByID id with
  | none => r
  | some ws =>
    { r with
      workspaces :=
        if ws.name ≠ data.name then
          update (update r.workspaces ws.name none) data.name (some id)
        else r.workspaces
      workspacesByID := update r.workspacesByID id (some data) }

variable (home : Nat → Nat)

/-- A workspace goes with its services. -/
def remove (r : Registry D) (id : Nat) : Registry D :=
  match r.workspacesByID id with
  | none => r
  | some ws =>
    { workspaces := update r.workspaces ws.name none
      workspacesByID := update r.workspacesByID id none
      layers := fun service => if home service = id then fun _ => none else r.layers service }

def setLayer (r : Registry D) (service : Nat) (key : Str) (layer : Option (Layer D)) : Registry D :=
  { r with layers := update r.layers service (update (r.layers service) key layer) }

def addLayer (r : Registry D) (service id : Nat) (data : LayerData D) : Registry D :=
  if (r.workspacesByID (home service)).isSome then r.setLayer service data.publicID (some ⟨id, data⟩) else r

/-- The layer is looked up under the public id that was read before the write. -/
def updateLayer (r : Registry D) (service : Nat) (old data : LayerData D) : Registry D :=
  if (r.workspacesByID (home service)).isSome then
    match r.layers service old.publicID with
    | none => r
    | some layer =>
      if old.publicID ≠ data.publicID then
        (r.setLayer service old.publicID none).setLayer service data.publicID (some (layer.refresh data))
      else r.setLayer service old.publicID (some (layer.refresh data))
  else r

def removeLayer (r : Registry D) (service : Nat) (publicID : Str) : Registry D :=
  if (r.workspacesByID (home service)).isSome then r.setLayer service publicID none else r

/-- `HasPublishedResourceID`, as far as layers go. -/
def Unpublished (r : Registry D) (service : Nat) (publicID : Str) : Prop :=
  (r.workspacesByID (home service)).isSome → ∀ other, home other = home service → r.layers other publicID = none

end Registry

/-! ## Calls -/

inductive Target
  | workspace (id : Nat)
  | layer (id : Nat)
deriving DecidableEq, Repr

/-- A call between two of its steps, with what it has read and written. -/
inductive Call (D : Type)
  | createdWorkspace (id : Nat) (data : WorkspaceData)
  | updatingWorkspace (id : Nat) (read : WorkspaceData) (input : UpdateWorkspaceInput)
  | updatedWorkspace (id : Nat) (data : WorkspaceData)
  | deletedWorkspace (id : Nat)
  | creatingLayer (service : Nat) (data : LayerData D)
  | createdLayer (id service : Nat) (data : LayerData D)
  | updatingLayer (id service : Nat) (old : LayerData D) (input : UpdateLayerInput D)
  | checkedLayer (id service : Nat) (old : LayerData D) (input : UpdateLayerInput D)
  | rereadLayer (id service : Nat) (old read : LayerData D) (input : UpdateLayerInput D)
  | updatedLayer (id service : Nat) (old data : LayerData D)
  | deletingLayer (id service : Nat) (old : LayerData D)
  | deletedLayer (id service : Nat) (old : LayerData D)

namespace Call

/-- What the call is about. -/
def target : Call D → Option Target
  | .createdWorkspace id _ | .updatingWorkspace id _ _ | .updatedWorkspace id _ | .deletedWorkspace id =>
    some (.workspace id)
  | .creatingLayer _ _ => none
  | .createdLayer id _ _ | .updatingLayer id _ _ _ | .checkedLayer id _ _ _ | .rereadLayer id _ _ _ _
  | .updatedLayer id _ _ _ | .deletingLayer id _ _ | .deletedLayer id _ _ => some (.layer id)

/-- The database has been changed and the registry not yet. -/
def stored : Call D → Bool
  | .createdWorkspace _ _ | .updatedWorkspace _ _ | .deletedWorkspace _
  | .createdLayer _ _ _ | .updatedLayer _ _ _ _ | .deletedLayer _ _ _ => true
  | _ => false

end Call

/-! ## Steps -/

/-- `calls` has the calls under way, by the goroutines that make them. -/
structure State (D : Type) where
  catalog : Catalog D
  registry : Registry D
  calls : Nat → Option (Call D)

namespace State

variable (s : State D)

/-- No call under way is about the target. -/
def Free (target : Target) : Prop :=
  ∀ c call, s.calls c = some call → call.target ≠ some target

def setCall (c : Nat) (call : Option (Call D)) : State D :=
  { s with calls := update s.calls c call }

def storeWorkspace (id : Nat) (data : Option WorkspaceData) : State D :=
  { s with catalog := { s.catalog with workspaces := update s.catalog.workspaces id data } }

def storeLayer (id : Nat) (row : Option (LayerRow D)) : State D :=
  { s with catalog := { s.catalog with layers := update s.catalog.layers id row } }

end State

inductive Label
  /-- A call begins that is about a workspace or a layer that exists. -/
  | begin (target : Target)
  | storeWorkspace (id : Nat) (name : Str)
  | storeLayer (service id : Nat) (publicID : Str)
  | deleteFailed
  | other
deriving DecidableEq, Repr

/-- The steps of one goroutine. -/
inductive Step (home : Nat → Nat) : State D → Label → State D → Prop
  /-- New ids are ids that nothing has had. -/
  | createWorkspace {s : State D} {c id} {data : WorkspaceData} (hidle : s.calls c = none)
      (hnew : s.catalog.workspaces id = none) (hunknown : s.registry.workspacesByID id = none)
      (hfree : s.Free (.workspace id)) (hservices : ∀ service, home service ≠ id)
      (hname : ∀ other row, s.catalog.workspaces other = some row → row.name ≠ data.name) :
      Step home s (.storeWorkspace id data.name)
        ((s.storeWorkspace id (some data)).setCall c (some (.createdWorkspace id data)))
  | addWorkspace {s : State D} {c id data} (hcall : s.calls c = some (.createdWorkspace id data)) :
      Step home s .other { s.setCall c none with registry := s.registry.addWorkspace id data }
  | readWorkspace {s : State D} {c id read input}
      (hidle : s.calls c = none) (hread : s.catalog.workspaces id = some read) :
      Step home s (.begin (.workspace id)) (s.setCall c (some (.updatingWorkspace id read input)))
  | writeWorkspace {s : State D} {c id read} {input : UpdateWorkspaceInput}
      (hcall : s.calls c = some (.updatingWorkspace id read input))
      (hrow : (s.catalog.workspaces id).isSome)
      (hname : ∀ other row, other ≠ id → s.catalog.workspaces other = some row →
        row.name ≠ (input.apply read).name) :
      Step home s (.storeWorkspace id (input.apply read).name)
        ((s.storeWorkspace id (some (input.apply read))).setCall c
          (some (.updatedWorkspace id (input.apply read))))
  | refreshWorkspace {s : State D} {c id data}
      (hcall : s.calls c = some (.updatedWorkspace id data)) :
      Step home s .other { s.setCall c none with registry := s.registry.updateWorkspace id data }
  /-- A workspace with services is refused. -/
  | deleteWorkspace {s : State D} {c id} (hidle : s.calls c = none)
      (hrow : (s.catalog.workspaces id).isSome) (hservices : ∀ service, home service ≠ id) :
      Step home s (.begin (.workspace id))
        ((s.storeWorkspace id none).setCall c (some (.deletedWorkspace id)))
  | dropWorkspace {s : State D} {c id} (hcall : s.calls c = some (.deletedWorkspace id)) :
      Step home s .other { s.setCall c none with registry := s.registry.remove home id }
  /-- The row is gone and the deletion of its data revision fails. -/
  | deleteFailed {s : State D} {c id} (hcall : s.calls c = some (.deletedWorkspace id)) :
      Step home s .deleteFailed (s.setCall c none)
  | remove {s : State D} {c id} (hidle : s.calls c = none) :
      Step home s (.begin (.workspace id)) { s with registry := s.registry.remove home id }
  | checkNewLayer {s : State D} {c service} {data : LayerData D} (hidle : s.calls c = none)
      (hcheck : s.registry.Unpublished home service data.publicID) :
      Step home s .other (s.setCall c (some (.creatingLayer service data)))
  | insertLayer {s : State D} {c id service} {data : LayerData D}
      (hcall : s.calls c = some (.creatingLayer service data)) (hnew : s.catalog.layers id = none)
      (hunknown : ∀ other key layer, s.registry.layers other key = some layer → layer.id ≠ id)
      (hfree : s.Free (.layer id))
      (hkey : ∀ other row, s.catalog.layers other = some row → row.service = service →
        row.data.publicID ≠ data.publicID) :
      Step home s (.storeLayer service id data.publicID)
        ((s.storeLayer id (some ⟨service, data.created⟩)).setCall c
          (some (.createdLayer id service data.created)))
  | addLayer {s : State D} {c id service data}
      (hcall : s.calls c = some (.createdLayer id service data)) :
      Step home s .other { s.setCall c none with registry := s.registry.addLayer home service id data }
  | readLayer {s : State D} {c id service old input}
      (hidle : s.calls c = none) (hread : s.catalog.layers id = some ⟨service, old⟩) :
      Step home s (.begin (.layer id)) (s.setCall c (some (.updatingLayer id service old input)))
  | checkLayer {s : State D} {c id service} {old : LayerData D} {input : UpdateLayerInput D}
      (hcall : s.calls c = some (.updatingLayer id service old input))
      (hcheck : ∀ publicID, input.publicID = some publicID → publicID ≠ old.publicID →
        s.registry.Unpublished home service publicID) :
      Step home s .other (s.setCall c (some (.checkedLayer id service old input)))
  | rereadLayer {s : State D} {c id service old input}
      {row : LayerRow D} (hcall : s.calls c = some (.checkedLayer id service old input))
      (hread : s.catalog.layers id = some row) :
      Step home s .other (s.setCall c (some (.rereadLayer id row.service old row.data input)))
  | writeLayer {s : State D} {c id service old read} {input : UpdateLayerInput D}
      (hcall : s.calls c = some (.rereadLayer id service old read input))
      (hrow : (s.catalog.layers id).isSome)
      (hkey : ∀ other row, other ≠ id → s.catalog.layers other = some row → row.service = service →
        row.data.publicID ≠ (input.apply read).publicID) :
      Step home s (.storeLayer service id (input.apply read).publicID)
        ((s.storeLayer id (some ⟨service, input.apply read⟩)).setCall c
          (some (.updatedLayer id service old (input.apply read))))
  | refreshLayer {s : State D} {c id service old data}
      (hcall : s.calls c = some (.updatedLayer id service old data)) :
      Step home s .other { s.setCall c none with registry := s.registry.updateLayer home service old data }
  | readDoomed {s : State D} {c id service old}
      (hidle : s.calls c = none) (hread : s.catalog.layers id = some ⟨service, old⟩) :
      Step home s (.begin (.layer id)) (s.setCall c (some (.deletingLayer id service old)))
  | deleteLayer {s : State D} {c id service old}
      (hcall : s.calls c = some (.deletingLayer id service old)) (hrow : (s.catalog.layers id).isSome) :
      Step home s .other
        ((s.storeLayer id none).setCall c (some (.deletedLayer id service old)))
  | dropLayer {s : State D} {c id service} {old : LayerData D}
      (hcall : s.calls c = some (.deletedLayer id service old)) :
      Step home s .other
        { s.setCall c none with registry := s.registry.removeLayer home service old.publicID }
  /-- A call that has changed nothing is refused or fails. -/
  | endCall {s : State D} {c : Nat} {call : Call D} (hcall : s.calls c = some call)
      (hstored : call.stored = false) : Step home s .other (s.setCall c none)

/-! ## Agreement -/

structure Agreement (s : State D) : Prop where
  index : ∀ name id, s.registry.workspaces name = some id ↔
    ∃ ws, s.registry.workspacesByID id = some ws ∧ ws.name = name
  workspaces : ∀ id ws, s.registry.workspacesByID id = some ws → s.catalog.workspaces id = some ws
  layers : ∀ service key layer, s.registry.layers service key = some layer →
    layer.data.publicID = key ∧ s.catalog.layers layer.id = some ⟨service, layer.data⟩

/-- The conditions of the tables: names and, within a service, public ids are unique. -/
structure Catalog.Valid (c : Catalog D) : Prop where
  names : ∀ i j a b, c.workspaces i = some a → c.workspaces j = some b → a.name = b.name → i = j
  keys : ∀ i j a b, c.layers i = some a → c.layers j = some b → a.service = b.service →
    a.data.publicID = b.data.publicID → i = j

/-- The registry as `LoadAll` leaves it: it agrees, and the services of its workspaces have all their
layers. -/
structure Loaded (home : Nat → Nat) (s : State D) : Prop where
  valid : s.catalog.Valid
  agreement : Agreement s
  complete : ∀ id row, s.catalog.layers id = some row →
    (s.registry.workspacesByID (home row.service)).isSome →
      s.registry.layers row.service row.data.publicID = some ⟨id, row.data⟩
  others : ∀ service, s.registry.workspacesByID (home service) = none → ∀ key,
    s.registry.layers service key = none
  idle : ∀ c, s.calls c = none

def machine (D : Type) (home : Nat → Nat) : Machine (State D) Label where
  init := Loaded home
  step := Step home

/-- One call at a time for a workspace or a layer; a name that is stored is not one that the registry holds
for another. -/
def Careful (s : State D) : Label → Prop
  | .begin target => s.Free target
  | .storeWorkspace id name => ∀ other, s.registry.workspaces name = some other → other = id
  | .storeLayer service id publicID =>
    ∀ layer, s.registry.layers service publicID = some layer → layer.id = id
  | .deleteFailed => False
  | .other => True

end NeoServer.Sync
