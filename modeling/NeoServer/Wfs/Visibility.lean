import NeoServer.Wfs.Lock.Feature
import NeoServer.Wfs.Transaction.Handle

/-!
# Wfs.Visibility — requests and the layers a caller may see

Every WFS request that names feature types, as far as the layers of the workspace matter:
how it resolves its names, which of them it checks for visibility, and what it then does
with the table of a layer. What comes after that (query parameters, output formats) is a
function of the request, the layer, and its table (`Backend`).

- `Workspace.visiblePart` : the workspace without the layers a role cannot see,
- `handleWFS` : the requests,
- `Clear` : the names of a request stand for the same layers as in the visible part.
-/

namespace NeoServer.Wfs

open Lock Transaction List

/-! ## The visible part of a workspace -/

/-- A service with the layers that a role can see. -/
def Service.visiblePart (role : Str) (service : Service) : Service :=
  { service with layers := service.layers.filter fun layer => layer.visibleToRole role }

/-- A service without its layers. -/
def Service.bare (service : Service) : Service := { service with layers := [] }

/-- What a request can use of a publication: not the other layers of its service. -/
def shown (p : Layer × Service) : Layer × Service := (p.1, p.2.bare)

lemma published_visiblePart (services : List Service) (role : Str) :
    (published (services.map (Service.visiblePart role))).map shown =
      ((published services).filter fun p => p.1.visibleToRole role).map shown := by
  induction services with
  | nil => rfl
  | cons service rest ih =>
    unfold published at ih ⊢
    rw [map_cons, filter_cons, filter_cons]
    cases henabled : service.enabled with
    | false => simpa [Service.visiblePart, henabled] using ih
    | true =>
      have hhere : ((((Service.visiblePart role service).layers.filter Layer.enabled).map
            fun layer => (layer, Service.visiblePart role service)).map shown) =
          (((service.layers.filter Layer.enabled).map fun layer => (layer, service)).filter
            fun p => p.1.visibleToRole role).map shown := by
        simp only [Service.visiblePart, map_map, filter_map, filter_filter]
        rw [filter_congr fun layer _ => Bool.and_comm _ _]
        rfl
      have hon : (Service.visiblePart role service).enabled = true := henabled
      rw [if_pos hon, if_pos rfl, flatMap_cons, flatMap_cons, map_append,
        filter_append, map_append, hhere, ih]

lemma publicIDs_visiblePart (services : List Service) (role : Str) :
    ((published (services.map (Service.visiblePart role))).map fun p => p.1.publicID).Sublist
      ((published services).map fun p => p.1.publicID) := by
  have hmap : ∀ ps : List (Layer × Service), (ps.map fun p => p.1.publicID) =
      (ps.map shown).map fun p => p.1.publicID := by
    intro ps
    rw [map_map]
    rfl
  rw [hmap, published_visiblePart, ← hmap]
  exact filter_sublist.map _

/-- The workspace without the layers that a role cannot see. -/
def Workspace.visiblePart (ws : Workspace) (role : Str) : Workspace where
  id := ws.id
  services := ws.services.map (Service.visiblePart role)
  publicIDs_nodup := ws.publicIDs_nodup.sublist (publicIDs_visiblePart ws.services role)

/-- `VisibleLayers`, each with its service. -/
def Workspace.visibleLayers (ws : Workspace) (role : Str) : List (Layer × Service) :=
  ws.published.filter fun p => p.1.visibleToRole role

/-! ## Requests -/

/-- What is read for a request. -/
inductive ReadOp
  | features
  | propertyValue
  | byId (localID : Str)
  | storedQuery
deriving DecidableEq, Repr

/-- What a lock is asked for: types, or a feature by its identifier. -/
inductive Target
  | names (typeNames : List Str)
  | identifier (id : Str)
deriving DecidableEq, Repr

/-- A WFS request after it was parsed, in key-value or XML form. -/
inductive WfsRequest (C Q : Type)
  | describeFeatureType (typeNames : List Str)
  | getFeature (typeNames : List Str) (q : Q)
  | getPropertyValue (typeNames : List Str) (q : Q)
  | getFeatureById (id : Str) (q : Q)
  /-- A stored query of the catalog, with the type name in its expression. -/
  | storedQuery (typeName : Except RequestError Str) (q : Q)
  /-- `ListStoredQueries` and `DescribeStoredQueries`. -/
  | listStoredQueries (q : Q)
  | lockFeature (req : LockFeatureRequest)
  | getFeatureWithLock (target : Target) (q : Q) (expirySeconds : Int) (action : LockAction)
  | transaction (request : Except RequestError (WFSTransaction C))

/-- The tables of the sources and what `GetLayerInfo` says of them, by lock source. -/
structure World (V I : Type) where
  data : Data V
  info : Str → Option I

/-- What follows the resolution of names. -/
structure Backend (C V I Q B : Type) where
  keys : LockKeys
  appPrefix : Str
  /-- The writers of sources with atomic writes, by the id of the service. -/
  writers : Str → Option (Transaction.Writer C V)
  /-- The schema document for types and their layer information. -/
  schema : List (Str × I) → Except ExceptionReport B
  read : ReadOp → Q → Layer → Option I → (Str → Option V) → Except ExceptionReport B
  storedQueries : Q → List Str → B
  idColumn : Option I → Except RequestError Str
  select : LockQuery → Layer → Option I → (Str → Option V) → Except RequestError (List Str)
  rows : Q → Layer → Option I → (Str → Option V) → Except RequestError (List (Str × V))
  lockedRows : Q → Layer → List (Str × V) → Str → B

inductive Body (B : Type)
  | read (body : B)
  | locked (response : LockFeatureResponse)
  | transaction (response : TransactionResponse)

/-- What a request leaves. -/
structure Outcome (V B : Type) where
  answer : Except ExceptionReport (Body B)
  data : Data V
  locks : LockStore

/-- What a request takes from outside. -/
structure WfsEnv where
  lock : LockFeatureEnv
  transaction : RequestEnv
  services : Services

section Handlers

variable {C V I Q B : Type} (b : Backend C V I Q B) (ws : Workspace) (role owner : Str)
  (env : WfsEnv) (locks : LockStore) (w : World V I)

def unknownTypeName (typeName : Str) : RequestError :=
  .request .invalidParameterValue "typeNames" ("Unknown type name: " ++ typeName)

def serviceNotAvailable (layer : Layer) : RequestError :=
  .request .noApplicableCode [] ("Service not available for layer: " ++ layer.publicID)

/-- The part that the handlers share: a layer the caller may not read is answered like a
name that does not resolve. -/
def visibleLayer (unknown : RequestError) (typeName : Str) :
    Except RequestError (Layer × Service) :=
  match resolveFeatureLayer ws b.appPrefix typeName with
  | none => .error unknown
  | some (layer, service) =>
    if !layer.visibleToRole role then .error unknown
    else if !service.hasDataSource then .error (serviceNotAvailable layer)
    else .ok (layer, service)

/-- The table of a layer is read. -/
def readLayer (op : ReadOp) (q : Q) (p : Layer × Service) : Except ExceptionReport B :=
  b.read op q p.1 (w.info (lockSourceOf p.2 p.1)) (w.data (lockSourceOf p.2 p.1))

/-- What is read once the layer was found, or the report of the error. -/
def readFrom (op : ReadOp) (q : Q) :
    Except RequestError (Layer × Service) → Except ExceptionReport B
  | .error e => .error e.report
  | .ok p => readLayer b w op q p

def handleGetFeature (typeNames : List Str) (q : Q) : Except ExceptionReport B :=
  readFrom b w .features q (authorizeFeatureQuery ws b.appPrefix role typeNames)

def handleGetPropertyValue (typeNames : List Str) (q : Q) : Except ExceptionReport B :=
  match typeNames with
  | [] =>
    .error ⟨.missingParameterValue, "typeNames", "TYPENAMES parameter is required"⟩
  | [typeName] =>
    readFrom b w .propertyValue q (visibleLayer b ws role (unknownTypeName typeName) typeName)
  | _ :: _ :: _ =>
    .error ⟨.operationNotSupported, "typeNames",
      "Spatial joins (multiple type names) are not supported for GetPropertyValue."⟩

def featureNotFound (id : Str) : RequestError :=
  .request .notFound "ID" ("Feature not found: " ++ id)

def handleGetFeatureById (id : Str) (q : Q) : Except ExceptionReport B :=
  if id = [] then
    .error ⟨.missingParameterValue, "ID",
      "ID parameter is required for GetFeatureById"⟩
  else
    match resolveFeatureIdentifier ws b.appPrefix id with
    | none => .error (featureNotFound id).report
    | some (typeName, localID) =>
      readFrom b w (.byId localID) q (visibleLayer b ws role (featureNotFound id) typeName)

/-- `executeCustomStoredQuery`. -/
def executeStoredQuery (typeName : Except RequestError Str) (q : Q) : Except ExceptionReport B :=
  match typeName with
  | .error e => .error e.report
  | .ok typeName =>
    readFrom b w .storedQuery q (visibleLayer b ws role (unknownTypeName typeName) typeName)

/-- The layer information of the types asked for. -/
def describeNames : List Str → Except ExceptionReport (List (Str × I))
  | [] => .ok []
  | typeName :: rest =>
    match visibleLayer b ws role (unknownTypeName typeName) typeName with
    | .error e => .error e.report
    | .ok (layer, service) =>
      match w.info (lockSourceOf service layer) with
      | none => .error ⟨.noApplicableCode, [], "Failed to get layer info"⟩
      | some info =>
        match describeNames rest with
        | .error e => .error e
        | .ok infos => .ok ((typeName, info) :: infos)

/-- All layers the caller may read; those without information are left out. -/
def describeAll : List (Str × I) :=
  (ws.visibleLayers role).filterMap fun p =>
    if p.2.hasDataSource then
      (w.info (lockSourceOf p.2 p.1)).map fun info =>
        (publishedFeatureTypeName p.1.publicID b.appPrefix, info)
    else none

def handleDescribeFeatureType (typeNames : List Str) : Except ExceptionReport B :=
  if typeNames = [] then b.schema (describeAll b ws role w)
  else
    match describeNames b ws role w typeNames with
    | .error e => .error e
    | .ok infos => b.schema infos

/-- The feature types that the built-in stored query returns. -/
def returnTypes : List Str :=
  (ws.visibleLayers role).map fun p => publishedFeatureTypeName p.1.publicID b.appPrefix

/-- The sources, as a lock request sees them. -/
def Backend.source : FeatureSource where
  idColumn service layer := b.idColumn (w.info (lockSourceOf service layer))
  select service layer query :=
    b.select query layer (w.info (lockSourceOf service layer)) (w.data (lockSourceOf service layer))

def Backend.handler : Handler C V where
  keys := b.keys
  appPrefix := b.appPrefix
  atomicWriter service := b.writers service.id

/-- The type names of a `GetFeatureWithLock` request. -/
def targetNames : Target → Except RequestError (List Str)
  | .names typeNames => .ok typeNames
  | .identifier id =>
    match resolveFeatureIdentifier ws b.appPrefix id with
    | none => .error (.request .notFound "ID" "Feature not found")
    | some (typeName, _) => .ok [typeName]

/-- The features of a layer are read, locked, and returned as they were read. -/
def lockRows (typeName : Str) (q : Q) (expirySeconds : Int) (action : LockAction)
    (p : Layer × Service) : Except ExceptionReport B × LockStore :=
  let source := lockSourceOf p.2 p.1
  match b.rows q p.1 (w.info source) (w.data source) with
  | .error e => (.error e.report, locks)
  | .ok rows =>
    let rd : PendingRead V := ⟨source, b.keys.sourceLockKey p.2 p.1 typeName, rows⟩
    let acquired := locks.acquireLockOwned b.keys (rd.request ws.id expirySeconds action owner)
      env.lock.acquire
    match acquired.1 with
    | .error _ => (.error ⟨.cannotLockAllFeatures, [],
        "could not acquire lock on all requested features"⟩, acquired.2)
    | .ok (lock, _) =>
      (.ok (b.lockedRows q p.1 (rd.lockedRows b.keys lock) lock.lockID), acquired.2)

def handleGetFeatureWithLock (target : Target) (q : Q) (expirySeconds : Int)
    (action : LockAction) : Except ExceptionReport B × LockStore :=
  match targetNames b ws target with
  | .error e => (.error e.report, locks)
  | .ok typeNames =>
    match authorizeLockQuery ws b.appPrefix role typeNames with
    | .error e => (.error e.report, locks)
    | .ok p => lockRows b ws owner env locks w (typeNames.headD []) q expirySeconds action p

/-- The lock store after a transaction. -/
def locksAfter (request : Except RequestError (WFSTransaction C)) (handled : Handled V) :
    LockStore :=
  match request with
  | .error _ => env.transaction.release
  | .ok tx =>
    if Effect.lockReleased tx.lockId ∈ handled.effects then
      (env.transaction.release.releaseLockOwned tx.lockId owner env.transaction.delete).2
    else env.transaction.release

/-- The lock store before a request; a transaction finds it when it releases its lock. -/
def locksBefore : WfsRequest C Q → LockStore
  | .transaction _ => env.transaction.release
  | _ => locks

/-- The requests of `handleWFS`. -/
def handleWFS : WfsRequest C Q → Outcome V B
  | .describeFeatureType typeNames =>
    ⟨(handleDescribeFeatureType b ws role w typeNames).map .read, w.data, locks⟩
  | .getFeature typeNames q =>
    ⟨(handleGetFeature b ws role w typeNames q).map .read, w.data, locks⟩
  | .getPropertyValue typeNames q =>
    ⟨(handleGetPropertyValue b ws role w typeNames q).map .read, w.data, locks⟩
  | .getFeatureById id q => ⟨(handleGetFeatureById b ws role w id q).map .read, w.data, locks⟩
  | .storedQuery typeName q =>
    ⟨(executeStoredQuery b ws role w typeName q).map .read, w.data, locks⟩
  | .listStoredQueries q =>
    ⟨.ok (.read (b.storedQueries q (returnTypes b ws role))), w.data, locks⟩
  | .lockFeature req =>
    let r := handleLockFeature b.keys (b.source w) ws b.appPrefix env.lock locks role owner req
    match r.1 with
    | .error e => ⟨.error e.report, w.data, r.2⟩
    | .ok (_, response) => ⟨.ok (.locked response), w.data, r.2⟩
  | .getFeatureWithLock target q expirySeconds action =>
    let r := handleGetFeatureWithLock b ws role owner env locks w target q expirySeconds action
    ⟨r.1.map .read, w.data, r.2⟩
  | .transaction request =>
    let handled := handleTransaction b.handler env.services ws env.transaction owner request
      w.data
    match handled.answer with
    | .exception report => ⟨.error report, handled.data, locksAfter owner env request handled⟩
    | .response response =>
      ⟨.ok (.transaction response), handled.data, locksAfter owner env request handled⟩

end Handlers

/-! ## Names and the visible part -/

section Names

variable (ws : Workspace) (appPrefix role : Str)

/-- The layer that a name stands for, if the caller may see it. -/
def resolveVisible (typeName : Str) : Option (Layer × Service) :=
  ((resolveFeatureLayer ws appPrefix typeName).filter fun p => p.1.visibleToRole role).map shown

/-- Layers that the caller cannot see do not change which visible layer a name stands
for. -/
def StableName (typeName : Str) : Prop :=
  resolveVisible ws appPrefix role typeName =
    resolveVisible (ws.visiblePart role) appPrefix role typeName

/-- Nor does the name stand for a layer that the caller cannot see. -/
def OpenName (typeName : Str) : Prop :=
  (resolveFeatureLayer ws appPrefix typeName).map shown =
    (resolveFeatureLayer (ws.visiblePart role) appPrefix typeName).map shown

/-- The layer that an identifier belongs to, if the caller may see it, and the local
id. -/
def identifierVisible (id : Str) : Option ((Layer × Service) × Str) :=
  match resolveFeatureIdentifier ws appPrefix id with
  | none => none
  | some (typeName, localID) =>
    (resolveVisible ws appPrefix role typeName).map fun p => (p, localID)

def StableIdentifier (id : Str) : Prop :=
  identifierVisible ws appPrefix role id =
    identifierVisible (ws.visiblePart role) appPrefix role id

/-- A name of a query for a lock: it is checked in one form, and used in the other. -/
def ClearQuery (typeNames : Str) : Prop :=
  (∀ typeName ∈ parseTypeNames typeNames, StableName ws appPrefix role typeName) ∧
    (parseTypeNames typeNames = [typeNames] ∨ OpenName ws appPrefix role typeNames)

/-- An identifier of a feature to be locked. -/
def OpenIdentifier (id : Str) : Prop :=
  resolveFeatureIdentifier ws appPrefix id =
      resolveFeatureIdentifier (ws.visiblePart role) appPrefix id ∧
    ∀ typeName localID, resolveFeatureIdentifier ws appPrefix id = some (typeName, localID) →
      StableName ws appPrefix role typeName ∧ ClearQuery ws appPrefix role typeName

end Names

/-- The type names of an action. -/
def Transaction.Operation.names {C : Type} : Operation C → List Str
  | .insert _ features => features.map Prod.fst
  | .update _ typeName _ => [typeName]
  | .delete typeName _ => [typeName]
  | .replace _ (.ok localName) _ => [localName]
  | .replace _ (.error _) _ => []

/-- The names of a transaction stand for layers the caller can see, and so do the names
under which the locks of its mutations are asked for. -/
def ClearTransaction {C V : Type} (h : Handler C V) (ws : Workspace) (role : Str)
    (ops : List (Operation C)) : Prop :=
  ∀ op ∈ ops, ∀ typeName ∈ op.names, OpenName ws h.appPrefix role typeName ∧
    ∀ p, resolveFeatureLayer ws h.appPrefix typeName = some p →
      OpenName ws h.appPrefix role (layerNameOf h p.1)

/-- The names of a request stand for the layers they would stand for if there were only
the layers that the caller can see. -/
def Clear {C V I Q B : Type} (b : Backend C V I Q B) (ws : Workspace) (role : Str) :
    WfsRequest C Q → Prop
  | .describeFeatureType typeNames
  | .getFeature typeNames _
  | .getPropertyValue typeNames _
  | .getFeatureWithLock (.names typeNames) _ _ _ =>
    ∀ typeName ∈ typeNames, StableName ws b.appPrefix role typeName
  | .getFeatureById id _ => StableIdentifier ws b.appPrefix role id
  | .storedQuery target _ =>
    ∀ typeName, target = .ok typeName → StableName ws b.appPrefix role typeName
  | .listStoredQueries _ => True
  | .lockFeature req =>
    (∀ query ∈ req.queries, ClearQuery ws b.appPrefix role query.typeNames) ∧
      ∀ stored, req.storedQuery = some stored → ∀ param ∈ stored.parameters,
        toUpper param.1 = "ID" → OpenIdentifier ws b.appPrefix role param.2
  | .getFeatureWithLock (.identifier id) _ _ _ => OpenIdentifier ws b.appPrefix role id
  | .transaction request =>
    ∀ tx, request = .ok tx → ClearTransaction b.handler ws role tx.operations

/-! ## What is to hold -/

/-- A table of a layer that the caller can see. -/
def VisibleTable (ws : Workspace) (role source : Str) : Prop :=
  ∃ p ∈ (ws.visiblePart role).published, lockSourceOf p.2 p.1 = source

/-- Two workspaces with their tables that differ only in what a role cannot see. -/
structure Alike {V I : Type} (role : Str) (ws ws' : Workspace) (w w' : World V I) : Prop where
  layers : ws.visiblePart role = ws'.visiblePart role
  data : ∀ source, VisibleTable ws role source → w.data source = w'.data source
  info : ∀ source, VisibleTable ws role source → w.info source = w'.info source

/-- A request has changed tables and locked features of visible layers only. -/
structure Confined {V B : Type} (K : LockKeys) (ws : Workspace) (role : Str) (data : Data V)
    (old : LockStore) (o : Outcome V B) : Prop where
  data : ∀ source, ¬ VisibleTable ws role source → o.data source = data source
  locks : ∀ lock ∈ o.locks.locks, lock ∈ old.locks ∨ ∀ key fid, Has lock.featureIDs key fid →
    ∃ source name, VisibleTable ws role source ∧ K.decodeLockKey key = some ⟨K.digest source, name⟩

end NeoServer.Wfs
