import NeoServer.Wfs.Access
import NeoServer.Wfs.Lock.Exclusion

/-!
# Wfs.Lock.Feature — the LockFeature request

`handleLockFeature` collects the features that its queries match, by lock key, and asks
for one lock on them. A key stands for a table and the spelling of the type name; a later
query with the same key replaces the features of an earlier one, and each query is cut
off at a fixed number of features.

- `LocksAll` : the lock covers just the features that match a query, and the answer
  lists them,
- `locksAll_iff` : it holds if every match is among the first of a query that no later
  one replaces.
-/

namespace NeoServer.Wfs.Lock

open LockStore List

/-! ## The request -/

/-- The filter of a query: its text, or the `ResourceId` filter that a stored query
stands for. -/
inductive QueryFilter
  | raw (text : Str)
  | resourceId (rid : Str)
deriving DecidableEq, Repr

/-- `XMLQuery`. -/
structure LockQuery where
  typeNames : Str
  filter : QueryFilter
deriving DecidableEq, Repr

/-- `XMLLockStoredQuery`, with names and values of its parameters. -/
structure StoredQuery where
  id : Str
  parameters : List (Str × Str)
deriving DecidableEq, Repr

/-- `XMLLockFeature`. -/
structure LockFeatureRequest where
  service : Str
  version : Str
  expiry : Str
  lockAction : Str
  lockId : Str
  queries : List LockQuery
  storedQuery : Option StoredQuery

structure LockFeatureResponse where
  lockID : Str
  featuresLocked : List Str
  featuresNotLocked : List Str
deriving DecidableEq, Repr

/-- What the sources answer: the id column of a layer, and the ids of all features that
match a query, in the order of the source. -/
structure FeatureSource where
  idColumn : Service → Layer → Except RequestError Str
  select : Service → Layer → LockQuery → Except RequestError (List Str)

def isGetFeatureByIdQuery (id : Str) : Bool :=
  id == "urn:ogc:def:query:OGC-WFS::GetFeatureById" ||
    id == "http://www.opengis.net/def/query/OGC-WFS/0/GetFeatureById"

/-- The expiry of a request in seconds, or the default. -/
def parseExpiry (expiry : Str) : Int :=
  match atoi expiry with
  | some e => if 0 < e then e else DefaultLockExpiry
  | none => DefaultLockExpiry

def parseLockAction (lockAction : Str) : LockAction :=
  if toUpper lockAction = "SOME" then .some else .all

/-! ## The handler -/

section Handler

variable (K : LockKeys) (src : FeatureSource) (ws : Workspace) (appPrefix : Str)

def lockLimit : Nat := 10000

def getFeatureIDsForLock (service : Service) (layer : Layer) (query : LockQuery) :
    Except RequestError (List Str) :=
  match src.idColumn service layer with
  | .error e => .error e
  | .ok column =>
    if column = [] then
      .error (.plain ("layer " ++ layer.sourceLayer ++
        " has no ID column - cannot lock features"))
    else
      match src.select service layer query with
      | .error e => .error e
      | .ok ids => .ok (ids.take lockLimit)

/-- An entry of a map is set. -/
def setFeatures (key : Str) (ids : List Str) (features : Features) : Features :=
  Table.put Prod.fst (key, ids) features

/-- The loop over the queries. -/
def collectFeatures : Features → List LockQuery → Except RequestError Features
  | features, [] => .ok features
  | features, query :: rest =>
    match resolveFeatureLayer ws appPrefix query.typeNames with
    | none =>
      .error (.request .invalidParameterValue "typeNames"
        ("Unknown type name: " ++ query.typeNames))
    | some (layer, service) =>
      if !service.hasDataSource then
        .error (.request .noApplicableCode []
          ("Service not available for layer: " ++ layer.publicID))
      else
        match getFeatureIDsForLock src service layer query with
        | .error e => .error e
        | .ok ids =>
          collectFeatures
            (setFeatures (K.sourceLockKey service layer query.typeNames) ids features) rest

/-- The checks of all queries, before any data is read. -/
def authorizeQueries (role : Str) : List LockQuery → Except RequestError Unit
  | [] => .ok ()
  | query :: rest =>
    match authorizeLockQuery ws appPrefix role (parseTypeNames query.typeNames) with
    | .error e => .error e
    | .ok _ => authorizeQueries role rest

/-- The queries that the `ID` parameters of a stored query stand for: the last one
counts. -/
def storedQueries : Option (List LockQuery) → List (Str × Str) →
    Except RequestError (List LockQuery)
  | some queries, [] => .ok queries
  | none, [] => .error (.request .missingParameterValue "ID" "ID is required")
  | queries, (name, value) :: rest =>
    if toUpper name = "ID" then
      match resolveFeatureIdentifier ws appPrefix value with
      | none => .error (.request .notFound "ID" "Feature not found")
      | some (typeName, _) => storedQueries (some [⟨typeName, .resourceId value⟩]) rest
    else storedQueries queries rest

lemma storedQueries_cons (queries : Option (List LockQuery)) (param : Str × Str)
    (rest : List (Str × Str)) :
    storedQueries ws appPrefix queries (param :: rest) =
      if toUpper param.1 = "ID" then
        match resolveFeatureIdentifier ws appPrefix param.2 with
        | none => .error (.request .notFound "ID" "Feature not found")
        | some (typeName, _) =>
          storedQueries ws appPrefix (some [⟨typeName, .resourceId param.2⟩]) rest
      else storedQueries ws appPrefix queries rest := by
  cases queries <;> rfl

def requestQueries (req : LockFeatureRequest) : Except RequestError (List LockQuery) :=
  match req.storedQuery with
  | none => .ok req.queries
  | some stored =>
    if !isGetFeatureByIdQuery stored.id then
      .error (.request .operationNotSupported "storedQueryId"
        "Only GetFeatureById is supported for locking")
    else storedQueries ws appPrefix none stored.parameters

/-- What a request takes from outside: the readings for a lock that is to be released,
the call that deletes its row, and what an acquisition takes. -/
structure LockFeatureEnv where
  readAt : Nat
  delete : Call
  acquire : AcquireEnv

variable (env : LockFeatureEnv)

/-- A request that names a lock and no features releases it. -/
def resetLock (ls : LockStore) (lockId owner : Str) :
    Except RequestError LockFeatureResponse × LockStore :=
  let expired := RequestError.request .lockHasExpired "lockId"
    ("Lock has expired: " ++ lockId)
  match ls.getLock lockId with
  | none =>
    if ls.expired.any fun entry => entry.1 == lockId then (.error expired, ls)
    else (.error (.request .invalidParameterValue "lockId"
      ("Lock not found: " ++ lockId)), ls)
  | some lock =>
    if lock.isExpired env.readAt then (.error expired, ls)
    else
      match ls.releaseLockOwned lockId owner env.delete with
      | (.error _, ls') => (.error (.request .invalidParameterValue "lockId"
          ("Failed to release lock: " ++ lockId)), ls')
      | (.ok (), ls') => (.ok ⟨lockId, [], []⟩, ls')

/-- The display ids of the features of a lock. -/
def lockedDisplayIDs (lock : FeatureLock) : List Str :=
  lock.featureIDs.flatMap fun entry => entry.2.map (K.displayID entry.1)

/-- The queries are locked. -/
def lockQueries (ls : LockStore) (role owner : Str)
    (req : LockFeatureRequest) (queries : List LockQuery) :
    Except RequestError (FeatureLock × LockFeatureResponse) × LockStore :=
  match authorizeQueries ws appPrefix role queries with
  | .error e => (.error e, ls)
  | .ok () =>
    match collectFeatures K src ws appPrefix [] queries with
    | .error e => (.error e, ls)
    | .ok features =>
      let acquired := ls.acquireLockOwned K ⟨ws.id, features, parseExpiry req.expiry,
        parseLockAction req.lockAction, owner⟩ env.acquire
      match acquired.1 with
      | .error _ => (.error (.request .cannotLockAllFeatures []
          "could not acquire lock on all requested features"), acquired.2)
      | .ok (lock, notLocked) =>
        (.ok (lock, ⟨lock.lockID, lockedDisplayIDs K lock, notLocked⟩), acquired.2)

/-- `handleLockFeature`, from the parsed request on. The lock is part of the result here;
the client gets its id. -/
def handleLockFeature (ls : LockStore) (role owner : Str)
    (req : LockFeatureRequest) :
    Except RequestError (Option FeatureLock × LockFeatureResponse) × LockStore :=
  if req.service ≠ [] ∧ toUpper req.service ≠ "WFS" then
    (.error (.request .invalidParameterValue "service" "SERVICE must be WFS"), ls)
  else if req.version = "2.0.2" ∧ req.lockId ≠ [] ∧
      (req.queries ≠ [] ∨ req.storedQuery ≠ none) then
    (.error (.request .operationParsingFailed "lockId"
      "lockId and query expressions are mutually exclusive"), ls)
  else
    match requestQueries ws appPrefix req with
    | .error e => (.error e, ls)
    | .ok queries =>
      if req.lockId ≠ [] ∧ queries = [] ∧ req.storedQuery = none then
        match resetLock env ls req.lockId owner with
        | (.error e, ls') => (.error e, ls')
        | (.ok response, ls') => (.ok (none, response), ls')
      else if queries = [] then
        (.error (.request .missingParameterValue "typenames"
          "TYPENAMES parameter is required"), ls)
      else
        match lockQueries K src ws appPrefix env ls role owner req queries with
        | (.error e, ls') => (.error e, ls')
        | (.ok (lock, response), ls') => (.ok (some lock, response), ls')

end Handler

/-! ## What is to hold -/

section Covers

variable (K : LockKeys) (src : FeatureSource) (ws : Workspace) (appPrefix : Str)

/-- A feature of a table, which locks know by its digest, matches a query. -/
def Matches (query : LockQuery) (table fid : Str) : Prop :=
  ∃ layer service ids, resolveFeatureLayer ws appPrefix query.typeNames = some (layer, service) ∧
    K.digest (lockSourceOf service layer) = table ∧
    src.select service layer query = .ok ids ∧ fid ∈ ids

/-- A feature that matches is among those the query is cut off at. -/
def MatchesFirst (query : LockQuery) (table fid : Str) : Prop :=
  ∃ layer service ids, resolveFeatureLayer ws appPrefix query.typeNames = some (layer, service) ∧
    K.digest (lockSourceOf service layer) = table ∧
    src.select service layer query = .ok ids ∧ fid ∈ ids.take lockLimit

/-- A lock covers a feature of a table. -/
def LockCovers (lock : FeatureLock) (table fid : Str) : Prop :=
  ∃ key name, Has lock.featureIDs key fid ∧ K.decodeLockKey key = some ⟨table, name⟩

/-- The lock covers what the queries match, and the answer lists what it covers. -/
structure LocksAll (queries : List LockQuery) (lock : FeatureLock)
    (response : LockFeatureResponse) : Prop where
  covers : ∀ table fid, LockCovers K lock table fid ↔
    ∃ query ∈ queries, Matches K src ws appPrefix query table fid
  listed : ∀ id, id ∈ response.featuresLocked ↔
    ∃ key fid, Has lock.featureIDs key fid ∧ K.displayID key fid = id

/-- No later query names its type in the same way. -/
def LastOfName (queries : List LockQuery) (query : LockQuery) : Prop :=
  ∃ before after, queries = before ++ query :: after ∧
    ∀ later ∈ after, later.typeNames ≠ query.typeNames

end Covers

/-! ## Proofs -/

section Proofs

variable {K : LockKeys} {src : FeatureSource} {ws : Workspace} {appPrefix : Str}

variable {key : Str} {features : Features} {query : LockQuery} {queries : List LockQuery}
  {lock : FeatureLock}

variable {ids : List Str} {fid role owner : Str} {features' : Features} {env : LockFeatureEnv}
  {ls : LockStore} {req : LockFeatureRequest} {response : LockFeatureResponse}

lemma has_setFeatures {k : Str} :
    Has (setFeatures key ids features) k fid ↔
      (k = key ∧ fid ∈ ids) ∨ (k ≠ key ∧ Has features k fid) := by
  constructor
  · rintro ⟨found, hmem, hfid⟩
    rcases Table.mem_put.mp hmem with heq | ⟨hmem, hne⟩
    · rcases Prod.mk.inj heq with ⟨rfl, rfl⟩
      exact .inl ⟨rfl, hfid⟩
    · exact .inr ⟨hne, found, hmem, hfid⟩
  · rintro (⟨rfl, hfid⟩ | ⟨hne, found, hmem, hfid⟩)
    · exact ⟨ids, Table.mem_put.mpr (.inl rfl), hfid⟩
    · exact ⟨found, Table.mem_put.mpr (.inr ⟨hmem, hne⟩), hfid⟩

lemma getFeatureIDsForLock_ok {service : Service} {layer : Layer} (h : getFeatureIDsForLock src service layer query = .ok ids) :
    ∃ all, src.select service layer query = .ok all ∧ ids = all.take lockLimit := by
  unfold getFeatureIDsForLock at h
  split at h
  · cases h
  split at h
  · cases h
  split at h
  · cases h
  rename_i all hselect
  cases h
  exact ⟨all, hselect, rfl⟩

/-- The key under which a query collects its features. -/
def KeyOf (K : LockKeys) (ws : Workspace) (appPrefix : Str) (query : LockQuery) (key : Str) :
    Prop :=
  ∃ layer service, resolveFeatureLayer ws appPrefix query.typeNames = some (layer, service) ∧
    K.sourceLockKey service layer query.typeNames = key

/-- The key tells the type name of the query. -/
lemma typeNames_of_keyOf {query query'}
    (h : KeyOf K ws appPrefix query key) (h' : KeyOf K ws appPrefix query' key) :
    query.typeNames = query'.typeNames := by
  rcases h with ⟨layer, service, -, rfl⟩
  rcases h' with ⟨layer', service', -, heq⟩
  have hdec := K.decodeLockKey_sourceLockKey service' layer' query'.typeNames
  rw [heq, K.decodeLockKey_sourceLockKey] at hdec
  injection Option.some.inj hdec

/-- One query more: what was collected, and what is collected now. -/
lemma collectFeatures_cons {features} {rest}
    (h : collectFeatures K src ws appPrefix features (query :: rest) = .ok features') :
    ∃ layer service all,
      resolveFeatureLayer ws appPrefix query.typeNames = some (layer, service) ∧
      src.select service layer query = .ok all ∧
      collectFeatures K src ws appPrefix (setFeatures
        (K.sourceLockKey service layer query.typeNames) (all.take lockLimit) features) rest =
          .ok features' := by
  unfold collectFeatures at h
  split at h
  · cases h
  rename_i layer service hresolve
  split at h
  · cases h
  split at h
  · cases h
  rename_i ids hids
  rcases getFeatureIDsForLock_ok hids with ⟨all, hselect, rfl⟩
  exact ⟨layer, service, all, hresolve, hselect, h⟩

/-- The features under a key are those of the last query with that key, or were there
before. -/
lemma has_collectFeatures {features}
    (h : collectFeatures K src ws appPrefix features queries = .ok features') :
    Has features' key fid ↔
      (∃ before query after layer service ids, queries = before ++ query :: after ∧
        (∀ later ∈ after, ¬ KeyOf K ws appPrefix later key) ∧
        resolveFeatureLayer ws appPrefix query.typeNames = some (layer, service) ∧
        K.sourceLockKey service layer query.typeNames = key ∧
        src.select service layer query = .ok ids ∧ fid ∈ ids.take lockLimit) ∨
      ((∀ query ∈ queries, ¬ KeyOf K ws appPrefix query key) ∧ Has features key fid) := by
  induction queries generalizing features with
  | nil =>
    cases h
    constructor
    · intro hhas
      exact .inr ⟨nofun, hhas⟩
    · rintro (⟨before, query, after, _, _, _, heq, -⟩ | ⟨-, hhas⟩)
      · simp at heq
      · exact hhas
  | cons query rest ih =>
    rcases collectFeatures_cons h with ⟨layer, service, all, hresolve, hselect, hrest⟩
    rw [ih hrest]
    constructor
    · rintro (⟨before, q, after, l, s, ids, rfl, hlater, hq⟩ | ⟨hnone, hhas⟩)
      · exact .inl ⟨query :: before, q, after, l, s, ids, rfl, hlater, hq⟩
      · rcases has_setFeatures.mp hhas with ⟨rfl, hfid⟩ | ⟨hne, hhas⟩
        · exact .inl ⟨[], query, rest, layer, service, all, rfl, hnone, hresolve, rfl, hselect,
            hfid⟩
        refine .inr ⟨?_, hhas⟩
        intro q hq
        rcases mem_cons.mp hq with rfl | hq
        · rintro ⟨l, s, hl, hkey⟩
          rw [hresolve] at hl
          cases hl
          exact hne hkey.symm
        · exact hnone q hq
    · rintro (⟨before, q, after, l, s, ids, heq, hlater, hl, hkey, hids, hfid⟩ | ⟨hnone, hhas⟩)
      · cases before with
        | nil =>
          rcases cons.inj heq with ⟨rfl, rfl⟩
          rw [hresolve] at hl
          cases hl
          rw [hselect] at hids
          cases hids
          exact .inr ⟨hlater, has_setFeatures.mpr (.inl ⟨hkey.symm, hfid⟩)⟩
        | cons b before =>
          rcases cons.inj heq with ⟨rfl, rfl⟩
          exact .inl ⟨before, q, after, l, s, ids, rfl, hlater, hl, hkey, hids, hfid⟩
      · refine .inr ⟨fun q hq => hnone q (mem_cons_of_mem _ hq), ?_⟩
        have hne : key ≠ K.sourceLockKey service layer query.typeNames := fun heq =>
          hnone query mem_cons_self ⟨layer, service, hresolve, heq.symm⟩
        exact has_setFeatures.mpr (.inr ⟨hne, hhas⟩)

/-- What the collected features cover: the first matches of the last query of each
name. -/
lemma covers_collectFeatures
    (h : collectFeatures K src ws appPrefix [] queries = .ok features) (table fid : Str) :
    (∃ key name, Has features key fid ∧ K.decodeLockKey key = some ⟨table, name⟩) ↔
      ∃ query, LastOfName queries query ∧ MatchesFirst K src ws appPrefix query table fid := by
  constructor
  · rintro ⟨key, name, hhas, hdec⟩
    rcases (has_collectFeatures h).mp hhas with
      ⟨before, query, after, layer, service, ids, rfl, hlater, hl, rfl, hids, hfid⟩ |
      ⟨-, found, hmem, -⟩
    · rw [K.decodeLockKey_sourceLockKey] at hdec
      cases hdec
      refine ⟨query, ⟨before, after, rfl, ?_⟩, layer, service, ids, hl, rfl, hids, hfid⟩
      intro later hmem hname
      exact hlater later hmem ⟨layer, service, hname ▸ hl, by rw [hname]⟩
    · cases hmem
  · rintro ⟨query, ⟨before, after, rfl, hlater⟩, layer, service, ids, hl, rfl, hids, hfid⟩
    refine ⟨K.sourceLockKey service layer query.typeNames, query.typeNames, ?_,
      K.decodeLockKey_sourceLockKey service layer query.typeNames⟩
    refine (has_collectFeatures h).mpr (.inl ⟨before, query, after, layer, service, ids, rfl, ?_,
      hl, rfl, hids, hfid⟩)
    intro later hmem hkey
    exact hlater later hmem (typeNames_of_keyOf hkey ⟨layer, service, hl, rfl⟩)

/-- A lock with action ALL covers what was collected. -/
lemma has_of_lockQueries (hall : parseLockAction req.lockAction = .all)
    (hok : (lockQueries K src ws appPrefix env ls role owner req queries).1 =
      .ok (lock, response)) :
    ∃ features, collectFeatures K src ws appPrefix [] queries = .ok features ∧
      lock.featureIDs = features ∧ response.featuresLocked = lockedDisplayIDs K lock := by
  unfold lockQueries at hok
  split at hok
  · cases hok
  split at hok
  · cases hok
  rename_i features hfeatures
  dsimp only at hok
  split at hok
  · cases hok
  rename_i granted notLocked hacquired
  cases hok
  refine ⟨features, hfeatures, ?_, rfl⟩
  rcases granted_of_acquireLockOwned hacquired with ⟨-, rfl, rfl, hfree⟩
  change withoutLocked K _ features = features
  rw [hfree hall]
  rfl

lemma mem_lockedDisplayIDs {id : Str} :
    id ∈ lockedDisplayIDs K lock ↔
      ∃ key fid, Has lock.featureIDs key fid ∧ K.displayID key fid = id := by
  unfold lockedDisplayIDs
  rw [mem_flatMap]
  constructor
  · rintro ⟨⟨key, ids⟩, hentry, hid⟩
    rcases mem_map.mp hid with ⟨fid, hfid, hdisplay⟩
    exact ⟨key, fid, ⟨ids, hentry, hfid⟩, hdisplay⟩
  · rintro ⟨key, fid, ⟨ids, hentry, hfid⟩, hdisplay⟩
    exact ⟨(key, ids), hentry, mem_map.mpr ⟨fid, hfid, hdisplay⟩⟩

lemma lockQueries_of_handleLockFeature (hqueries : requestQueries ws appPrefix req = .ok queries)
    (hok : (handleLockFeature K src ws appPrefix env ls role owner req).1 =
      .ok (some lock, response)) :
    (lockQueries K src ws appPrefix env ls role owner req queries).1 = .ok (lock, response) := by
  unfold handleLockFeature at hok
  split at hok
  · cases hok
  split at hok
  · cases hok
  rw [hqueries] at hok
  dsimp only at hok
  split at hok
  · split at hok <;> cases hok
  split at hok
  · cases hok
  split at hok
  · cases hok
  rename_i granted answer ls' hlock
  cases hok
  rw [hlock]

end Proofs

/-- A granted lock with action ALL is on what the request asks for just when each match
is among the first matches of a query whose name no later query has. -/
theorem locksAll_iff (K : LockKeys) (src : FeatureSource) (ws : Workspace) (appPrefix : Str)
    (env : LockFeatureEnv) (ls : LockStore) (role owner : Str) (req : LockFeatureRequest)
    (queries : List LockQuery) (lock : FeatureLock) (response : LockFeatureResponse)
    (hqueries : requestQueries ws appPrefix req = .ok queries)
    (hall : parseLockAction req.lockAction = .all)
    (hok : (handleLockFeature K src ws appPrefix env ls role owner req).1 =
      .ok (some lock, response)) :
    LocksAll K src ws appPrefix queries lock response ↔
      ∀ query ∈ queries, ∀ table fid, Matches K src ws appPrefix query table fid →
        ∃ last, LastOfName queries last ∧ MatchesFirst K src ws appPrefix last table fid := by
  rcases has_of_lockQueries hall (lockQueries_of_handleLockFeature hqueries hok) with
    ⟨features, hfeatures, hlock, hlisted⟩
  have hcovers : ∀ table fid, LockCovers K lock table fid ↔
      ∃ last, LastOfName queries last ∧ MatchesFirst K src ws appPrefix last table fid := by
    intro table fid
    rw [← covers_collectFeatures hfeatures, LockCovers, hlock]
  constructor
  · intro hright query hquery table fid hmatch
    exact (hcovers table fid).mp ((hright.covers table fid).mpr ⟨query, hquery, hmatch⟩)
  · intro hcond
    refine ⟨?_, ?_⟩
    · intro table fid
      rw [hcovers]
      constructor
      · rintro ⟨last, ⟨before, after, rfl, -⟩, layer, service, ids, hl, htable, hids, hfid⟩
        exact ⟨last, mem_append_right _ mem_cons_self, layer, service, ids, hl, htable,
          hids, mem_of_mem_take hfid⟩
      · rintro ⟨query, hquery, hmatch⟩
        exact hcond query hquery table fid hmatch
    · intro id
      rw [hlisted]
      exact mem_lockedDisplayIDs

/-! ### Two queries of one name -/

def roadsLayer : Layer where
  sourceLayer := "roads"
  publicID := "Roads"
  enabled := true
  isSQLView := false
  sqlViewReadOnly := false
  isPublic := false
  allowedRoles := []

def roadsService : Service where
  id := "s"
  enabled := true
  hasDataSource := true
  lockSource := none
  layers := [roadsLayer]

def roadsWorkspace : Workspace := ⟨"w", [roadsService], by decide⟩

/-- A source in which the text of a filter is the id of the only feature that matches. -/
def byFilter : FeatureSource where
  idColumn _ _ := .ok "id"
  select _ _ query :=
    match query.filter with
    | .raw text => .ok [text]
    | .resourceId rid => .ok [rid]

/-- A request for features of `Roads`, with one query for each. -/
def lockRoads (fids : List Str) : LockFeatureRequest where
  service := []
  version := []
  expiry := []
  lockAction := []
  lockId := []
  queries := fids.map fun fid => ⟨"Roads", .raw fid⟩
  storedQuery := none

def lockEnvAt (now : Nat) (lockID : Str) : LockFeatureEnv := ⟨now, .ok, envAt now lockID⟩

/-- The lock on feature `fid` of `Roads`. -/
def roadLock (fid : Str) : FeatureLock where
  lockID := "a"
  workspaceID := "w"
  featureIDs := [(plainKeys.sourceLockKey roadsService roadsLayer "Roads", [fid])]
  expiresAt := 7 + 300 * second
  ownerID := "ann"
  createdAt := 7

theorem locksAll_iff_sample :
    (handleLockFeature plainKeys byFilter roadsWorkspace "app" (lockEnvAt 7 "a")
        (emptyState 7).store [] "ann" (lockRoads ["1"])).1 =
      .ok (some (roadLock "1"), ⟨"a", ["Roads.1"], []⟩) ∧
    (LocksAll plainKeys byFilter roadsWorkspace "app" (lockRoads ["1"]).queries
        (roadLock "1") ⟨"a", ["Roads.1"], []⟩ ↔
      ∀ query ∈ (lockRoads ["1"]).queries, ∀ table fid,
        Matches plainKeys byFilter roadsWorkspace "app" query table fid →
          ∃ last, LastOfName (lockRoads ["1"]).queries last ∧
            MatchesFirst plainKeys byFilter roadsWorkspace "app" last table fid) :=
  ⟨rfl, locksAll_iff plainKeys byFilter roadsWorkspace "app" (lockEnvAt 7 "a")
    (emptyState 7).store [] "ann" (lockRoads ["1"]) _ _ _ rfl rfl rfl⟩

/-- Feature `1` matches the first of two queries, and is not under the lock. -/
theorem first_query_not_locked :
    (handleLockFeature plainKeys byFilter roadsWorkspace "app" (lockEnvAt 7 "a")
        (emptyState 7).store [] "ann" (lockRoads ["1", "2"])).1 =
      .ok (some (roadLock "2"), ⟨"a", ["Roads.2"], []⟩) ∧
    Matches plainKeys byFilter roadsWorkspace "app" ⟨"Roads", .raw "1"⟩
      (plainKeys.digest "s/roads") "1" ∧
    ¬ LocksAll plainKeys byFilter roadsWorkspace "app"
      (lockRoads ["1", "2"]).queries (roadLock "2")
      ⟨"a", ["Roads.2"], []⟩ := by
  have hmatch : Matches plainKeys byFilter roadsWorkspace "app"
      ⟨"Roads", .raw "1"⟩ (plainKeys.digest "s/roads") "1" :=
    ⟨roadsLayer, roadsService, ["1"], rfl, rfl, rfl, mem_cons_self⟩
  refine ⟨rfl, hmatch, ?_⟩
  intro hall
  rcases (hall.covers _ _).mpr ⟨_, mem_cons_self, hmatch⟩ with
    ⟨key, name, ⟨ids, hentry, hfid⟩, -⟩
  rcases Prod.mk.inj (mem_singleton.mp hentry) with ⟨rfl, rfl⟩
  exact absurd hfid (by decide)

end NeoServer.Wfs.Lock
