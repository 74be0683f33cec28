import NeoServer.Wfs.Visibility

/-!
# Wfs.Noninterference — what a caller cannot see does not matter

Two workspaces that differ only in layers a role cannot see are compared on one request.
A request whose names are clear (`Clear`) runs in both on the same layers, step by step:

- reads : the layer found, and so the table read, is the same one (`readFrom_alike`),
- locks : the collected features are the same, of visible tables (`collectFeatures_alike`),
- transactions : each action changes the same visible table in the same way
  (`executeOperation_alike`).

`noninterference` puts the requests together. `restricted_layer_updated` is a
transaction that changes a layer its caller cannot see.
-/

namespace NeoServer.Wfs

open Lock Transaction LockStore List

/-! ## Names -/

section Names

variable {ws : Workspace} {appPrefix role : Str}

/-- What two publications have in common when a request cannot tell them apart. -/
lemma shown_inj {p p'} (h : shown p = shown p') :
    p.1 = p'.1 ∧ p.2.id = p'.2.id ∧ p.2.hasDataSource = p'.2.hasDataSource ∧
      lockSourceOf p.2 p.1 = lockSourceOf p'.2 p'.1 := by
  have hsource : lockSourceOf (shown p).2 (shown p).1 = lockSourceOf (shown p').2 (shown p').1 := by
    rw [h]
  have hservice : p.2.bare = p'.2.bare := (Prod.mk.inj h).2
  have hid : p.2.bare.id = p'.2.bare.id := by rw [hservice]
  have hhas : p.2.bare.hasDataSource = p'.2.bare.hasDataSource := by rw [hservice]
  exact ⟨(Prod.mk.inj h).1, hid, hhas, hsource⟩

lemma sourceLockKey_of_shown (K : LockKeys) {p p'} (h : shown p = shown p')
    (name : Str) : K.sourceLockKey p.2 p.1 name = K.sourceLockKey p'.2 p'.1 name := by
  unfold LockKeys.sourceLockKey
  rw [(shown_inj h).2.2.2]

variable {p : Layer × Service} {typeName : Str}

lemma visible_of_mem_visiblePart
    (h : p ∈ (ws.visiblePart role).published) : p.1.visibleToRole role = true := by
  have hshown : shown p ∈ ((published ws.services).filter
      fun p => p.1.visibleToRole role).map shown := by
    rw [← published_visiblePart]
    exact mem_map_of_mem h
  rcases mem_map.mp hshown with ⟨q, hq, heq⟩
  rw [← (shown_inj heq).1]
  exact (mem_filter.mp hq).2

lemma resolveVisible_of_resolve (hresolve : resolveFeatureLayer ws appPrefix typeName = some p)
    (hvisible : p.1.visibleToRole role = true) :
    resolveVisible ws appPrefix role typeName = some (shown p) := by
  unfold resolveVisible
  rw [hresolve, Option.filter_some, if_pos hvisible]
  rfl

lemma resolveVisible_of_hidden (hresolve : resolveFeatureLayer ws appPrefix typeName = some p)
    (hhidden : ¬ p.1.visibleToRole role = true) :
    resolveVisible ws appPrefix role typeName = none := by
  unfold resolveVisible
  rw [hresolve, Option.filter_some, if_neg hhidden]
  rfl

lemma resolveVisible_visiblePart (typeName : Str) :
    resolveVisible (ws.visiblePart role) appPrefix role typeName =
      (resolveFeatureLayer (ws.visiblePart role) appPrefix typeName).map shown := by
  cases hresolve : resolveFeatureLayer (ws.visiblePart role) appPrefix typeName with
  | none =>
    unfold resolveVisible
    rw [hresolve]
    rfl
  | some =>
    exact resolveVisible_of_resolve hresolve
      (visible_of_mem_visiblePart (mem_of_resolveFeatureLayer hresolve))

lemma resolve_of_resolveVisible {q} (h : resolveVisible ws appPrefix role typeName = some q) :
    ∃ p, resolveFeatureLayer ws appPrefix typeName = some p ∧ p.1.visibleToRole role = true ∧
      shown p = q := by
  unfold resolveVisible at h
  rcases Option.map_eq_some_iff.mp h with ⟨p, hp, rfl⟩
  rcases Option.filter_eq_some_iff.mp hp with ⟨hresolve, hvisible⟩
  exact ⟨p, hresolve, hvisible, rfl⟩

/-- The table of a name that is found in the visible part. -/
lemma visibleTable_of_shown (appPrefix typeName : Str)
    (h : (resolveFeatureLayer (ws.visiblePart role) appPrefix typeName).map shown =
      some (shown p)) : VisibleTable ws role (lockSourceOf p.2 p.1) := by
  rcases Option.map_eq_some_iff.mp h with ⟨q, hq, heq⟩
  exact ⟨q, mem_of_resolveFeatureLayer hq, (shown_inj heq).2.2.2⟩

lemma StableName.visibleTable (h : StableName ws appPrefix role typeName)
    (hresolve : resolveFeatureLayer ws appPrefix typeName = some p)
    (hvisible : p.1.visibleToRole role = true) : VisibleTable ws role (lockSourceOf p.2 p.1) := by
  apply visibleTable_of_shown appPrefix typeName
  rw [← resolveVisible_visiblePart, ← h]
  exact resolveVisible_of_resolve hresolve hvisible

lemma OpenName.visibleTable (h : OpenName ws appPrefix role typeName)
    (hresolve : resolveFeatureLayer ws appPrefix typeName = some p) :
    VisibleTable ws role (lockSourceOf p.2 p.1) := by
  apply visibleTable_of_shown appPrefix typeName
  rw [← h, hresolve]
  rfl

/-- An open name stands for nothing, or for one layer that the caller can see. -/
lemma OpenName.cases (h : OpenName ws appPrefix role typeName) :
    (resolveFeatureLayer ws appPrefix typeName = none ∧
      resolveFeatureLayer (ws.visiblePart role) appPrefix typeName = none) ∨
    ∃ p p', resolveFeatureLayer ws appPrefix typeName = some p ∧
      resolveFeatureLayer (ws.visiblePart role) appPrefix typeName = some p' ∧
      shown p = shown p' ∧ VisibleTable ws role (lockSourceOf p.2 p.1) := by
  have hsame := h
  unfold OpenName at hsame
  cases hp : resolveFeatureLayer ws appPrefix typeName with
  | none =>
    rw [hp] at hsame
    exact .inl ⟨rfl, Option.map_eq_none_iff.mp hsame.symm⟩
  | some p =>
    rw [hp] at hsame
    rcases Option.map_eq_some_iff.mp hsame.symm with ⟨p', hp', heq⟩
    exact .inr ⟨p, p', rfl, hp', heq.symm, h.visibleTable hp⟩

lemma visibleLayers_shown (ws : Workspace) (role : Str) :
    (ws.visibleLayers role).map shown = ((ws.visiblePart role).visibleLayers role).map shown := by
  have hall : (ws.visiblePart role).visibleLayers role = (ws.visiblePart role).published :=
    filter_eq_self.mpr fun _ => visible_of_mem_visiblePart
  rw [hall]
  exact (published_visiblePart ws.services role).symm

end Names

variable {C V I Q B : Type} {b : Backend C V I Q B} {ws ws' : Workspace} {role : Str}
  {w w' : World V I}

/-! ## Reads -/

section Reads

/-- Two results that agree under `f` are the same error, or values that agree. -/
lemma cases_of_map_eq {α β : Type} {f : α → β} {r r' : Except RequestError α}
    (h : r.map f = r'.map f) :
    (∃ e, r = .error e ∧ r' = .error e) ∨ ∃ a a', r = .ok a ∧ r' = .ok a' ∧ f a = f a' := by
  cases r with
  | error e =>
    cases r' with
    | error =>
      cases h
      exact .inl ⟨e, rfl, rfl⟩
    | ok => cases h
  | ok a =>
    cases r' with
    | error => cases h
    | ok a' => exact .inr ⟨a, a', rfl, rfl, Except.ok.inj h⟩

/-- What follows the search for a visible layer. -/
def ofVisible (unknown : RequestError) : Option (Layer × Service) →
    Except RequestError (Layer × Service)
  | none => .error unknown
  | some p => if !p.2.hasDataSource then .error (serviceNotAvailable p.1) else .ok p

lemma visibleLayer_shown (unknown : RequestError) (typeName : Str) :
    (visibleLayer b ws role unknown typeName).map shown =
      ofVisible unknown (resolveVisible ws b.appPrefix role typeName) := by
  unfold visibleLayer
  cases hresolve : resolveFeatureLayer ws b.appPrefix typeName with
  | none =>
    unfold resolveVisible
    rw [hresolve]
    rfl
  | some p =>
    rcases p with ⟨layer, service⟩
    dsimp only
    by_cases hvisible : layer.visibleToRole role = true
    · rw [resolveVisible_of_resolve hresolve hvisible, if_neg (by simp [hvisible])]
      change (ite _ _ _ : Except RequestError (Layer × Service)).map shown =
        if (!service.hasDataSource) = true then .error (serviceNotAvailable layer)
        else .ok (shown (layer, service))
      split <;> rfl
    · rw [resolveVisible_of_hidden hresolve hvisible, if_pos (by simpa using hvisible)]
      rfl

lemma readFrom_shown (op : ReadOp) (q : Q) (r : Except RequestError (Layer × Service)) :
    readFrom b w op q (r.map shown) = readFrom b w op q r := by
  cases r <;> rfl

variable {typeName : Str} {typeNames : List Str} {id : Str}

/-- The layer that was found is visible. -/
lemma visibleLayer_ok {unknown} {p} (h : visibleLayer b ws role unknown typeName = .ok p) :
    resolveFeatureLayer ws b.appPrefix typeName = some p ∧ p.1.visibleToRole role = true := by
  unfold visibleLayer at h
  split at h
  · cases h
  rename_i layer service hresolve
  split at h
  · cases h
  rename_i hvisible
  split at h
  · cases h
  cases h
  exact ⟨hresolve, by simpa using hvisible⟩

/-- A stable name finds the layer that it finds in the visible part. -/
lemma StableName.visibleLayer (h : StableName ws b.appPrefix role typeName)
    (unknown : RequestError) :
    (visibleLayer b ws role unknown typeName).map shown =
      (visibleLayer b (ws.visiblePart role) role unknown typeName).map shown := by
  rw [visibleLayer_shown, visibleLayer_shown, h]

variable (h : Alike role ws ws' w w')
include h

variable (op : ReadOp) (q : Q) (unknown : RequestError)

lemma readFrom_world {r} (hr : ∀ p, r = .ok p → VisibleTable ws role (lockSourceOf p.2 p.1)) :
    readFrom b w op q r = readFrom b w' op q r := by
  cases r with
  | error => rfl
  | ok p =>
    have hp := hr p rfl
    unfold readFrom readLayer
    dsimp only
    rw [h.data _ hp, h.info _ hp]

/-- A read under a name that is stable gives the answer of the visible part. -/
theorem readFrom_alike (hname : StableName ws b.appPrefix role typeName) :
    readFrom b w op q (visibleLayer b ws role unknown typeName) =
      readFrom b w' op q (visibleLayer b (ws.visiblePart role) role unknown typeName) := by
  have htable : ∀ p, visibleLayer b ws role unknown typeName = .ok p →
      VisibleTable ws role (lockSourceOf p.2 p.1) := by
    intro p hp
    rcases visibleLayer_ok hp with ⟨hresolve, hvisible⟩
    exact hname.visibleTable hresolve hvisible
  rw [readFrom_world h op q htable, ← readFrom_shown, hname.visibleLayer, readFrom_shown]

lemma executeStoredQuery_alike {target}
    (hclear : ∀ typeName, target = .ok typeName → StableName ws b.appPrefix role typeName) :
    executeStoredQuery b ws role w target q =
      executeStoredQuery b (ws.visiblePart role) role w' target q := by
  cases target with
  | error => rfl
  | ok typeName => exact readFrom_alike h .storedQuery q _ (hclear typeName rfl)

omit h in
/-- An identifier is used only as far as its layer is visible. -/
lemma handleGetFeatureById_eq (q : Q) :
    handleGetFeatureById b ws role w id q =
      if id = [] then
        .error ⟨.missingParameterValue, "ID",
          "ID parameter is required for GetFeatureById"⟩
      else
        match identifierVisible ws b.appPrefix role id with
        | none => .error (featureNotFound id).report
        | some (p, localID) =>
          readFrom b w (.byId localID) q (ofVisible (featureNotFound id) (some p)) := by
  unfold handleGetFeatureById identifierVisible
  split
  · rfl
  cases resolveFeatureIdentifier ws b.appPrefix id with
  | none => rfl
  | some found =>
    rcases found with ⟨typeName, localID⟩
    dsimp only
    rw [← readFrom_shown, visibleLayer_shown]
    cases resolveVisible ws b.appPrefix role typeName with
    | none | some => rfl

omit h in
lemma visibleTable_of_identifier {p} {localID : Str}
    (hp : identifierVisible (ws.visiblePart role) b.appPrefix role id = some (p, localID)) :
    VisibleTable ws role (lockSourceOf p.2 p.1) := by
  unfold identifierVisible at hp
  split at hp
  · cases hp
  rename_i typeName _ _
  rcases Option.map_eq_some_iff.mp hp with ⟨q, hq, heq⟩
  cases heq
  rcases resolve_of_resolveVisible hq with ⟨found, hfound, -, heq⟩
  subst heq
  exact ⟨found, mem_of_resolveFeatureLayer hfound, rfl⟩

lemma handleGetFeatureById_alike (q : Q) (hclear : StableIdentifier ws b.appPrefix role id) :
    handleGetFeatureById b ws role w id q =
      handleGetFeatureById b (ws.visiblePart role) role w' id q := by
  rw [handleGetFeatureById_eq, handleGetFeatureById_eq, ← hclear]
  split
  · rfl
  cases hp : identifierVisible ws b.appPrefix role id with
  | none => rfl
  | some found =>
    rcases found with ⟨p, localID⟩
    rw [hclear] at hp
    apply readFrom_world h
    intro q hq
    dsimp only [ofVisible] at hq
    split at hq
    · cases hq
    cases hq
    exact visibleTable_of_identifier hp

lemma describeAll_alike :
    describeAll b ws role w = describeAll b (ws.visiblePart role) role w' := by
  have hof : ∀ (v : Workspace) (u : World V I), describeAll b v role u =
      ((v.visibleLayers role).map shown).filterMap fun p =>
        if p.2.hasDataSource then
          (u.info (lockSourceOf p.2 p.1)).map fun info =>
            (publishedFeatureTypeName p.1.publicID b.appPrefix, info)
        else none := by
    intro v u
    rw [filterMap_map]
    rfl
  rw [hof, hof, visibleLayers_shown]
  apply filterMap_congr
  intro p hp
  rcases mem_map.mp hp with ⟨q, hq, rfl⟩
  have htable : VisibleTable ws role (lockSourceOf q.2 q.1) := ⟨q, (mem_filter.mp hq).1, rfl⟩
  have hinfo : w.info (lockSourceOf (shown q).2 (shown q).1) =
      w'.info (lockSourceOf (shown q).2 (shown q).1) := h.info _ htable
  rw [hinfo]

omit h in
lemma returnTypes_alike : returnTypes b ws role = returnTypes b (ws.visiblePart role) role := by
  have hof : ∀ v : Workspace, returnTypes b v role =
      ((v.visibleLayers role).map shown).map fun p =>
        publishedFeatureTypeName p.1.publicID b.appPrefix := by
    intro v
    rw [map_map]
    rfl
  rw [hof, hof, visibleLayers_shown]

variable (hclear : ∀ typeName ∈ typeNames, StableName ws b.appPrefix role typeName)
include hclear

lemma handleGetFeature_alike (q : Q) : handleGetFeature b ws role w typeNames q =
    handleGetFeature b (ws.visiblePart role) role w' typeNames q := by
  match typeNames with
  | [] => rfl
  | [typeName] => exact readFrom_alike h .features q _ (hclear typeName mem_cons_self)
  | _ :: _ :: _ => rfl

lemma handleGetPropertyValue_alike (q : Q) : handleGetPropertyValue b ws role w typeNames q =
    handleGetPropertyValue b (ws.visiblePart role) role w' typeNames q := by
  match typeNames with
  | [] => rfl
  | [typeName] => exact readFrom_alike h .propertyValue q _ (hclear typeName mem_cons_self)
  | _ :: _ :: _ => rfl

lemma describeNames_alike : describeNames b ws role w typeNames =
    describeNames b (ws.visiblePart role) role w' typeNames := by
  induction typeNames with
  | nil => rfl
  | cons typeName rest ih =>
    obtain ⟨hname, hrest⟩ := forall_mem_cons.mp hclear
    unfold describeNames
    rcases cases_of_map_eq (hname.visibleLayer (unknownTypeName typeName)) with
      ⟨e, he, he'⟩ | ⟨p, p', hp, hp', hshown⟩
    · rw [he, he']
    rcases visibleLayer_ok hp with ⟨hresolve, hvisible⟩
    have htable := hname.visibleTable hresolve hvisible
    rw [hp, hp']
    dsimp only
    rw [← (shown_inj hshown).2.2.2, ← h.info _ htable, ih hrest]

lemma handleDescribeFeatureType_alike : handleDescribeFeatureType b ws role w typeNames =
    handleDescribeFeatureType b (ws.visiblePart role) role w' typeNames := by
  unfold handleDescribeFeatureType
  rw [describeAll_alike h, describeNames_alike h hclear]

omit h in
lemma authorizeLockQuery_alike :
    (authorizeLockQuery ws b.appPrefix role typeNames).map shown =
      (authorizeLockQuery (ws.visiblePart role) b.appPrefix role typeNames).map shown := by
  have hfeature : (authorizeFeatureQuery ws b.appPrefix role typeNames).map shown =
      (authorizeFeatureQuery (ws.visiblePart role) b.appPrefix role typeNames).map shown := by
    match typeNames with
    | [] => rfl
    | [typeName] => exact (hclear typeName mem_cons_self).visibleLayer (unknownTypeName typeName)
    | _ :: _ :: _ => rfl
  unfold authorizeLockQuery
  rcases cases_of_map_eq hfeature with ⟨e, he, he'⟩ | ⟨p, p', hp, hp', hshown⟩
  · rw [he, he']
  rw [hp, hp']
  dsimp only
  have hlayer := (shown_inj hshown).1
  rw [← hlayer]
  split
  · rfl
  · exact congrArg Except.ok (hshown.trans (by rw [hlayer]))

end Reads

/-! ## Locks -/

section Locks

/-- The features of a lock are of visible tables. -/
def OfVisible (K : LockKeys) (ws : Workspace) (role : Str) (features : Features) : Prop :=
  ∀ key fid, Has features key fid → ∃ source name, VisibleTable ws role source ∧
    K.decodeLockKey key = some ⟨K.digest source, name⟩

/-- A lock that is granted on features of visible tables. -/
lemma locks_of_acquire {K : LockKeys} {locks : LockStore} {req}
    {env} (hreq : OfVisible K ws role req.features) {lock}
    (hlock : lock ∈ (locks.acquireLockOwned K req env).2.locks) :
    lock ∈ locks.locks ∨ OfVisible K ws role lock.featureIDs := by
  rcases mem_locks_of_acquire hlock with hold | ⟨locked, hok⟩
  · exact .inl hold
  · refine .inr ?_
    intro key fid hhas
    exact hreq key fid (has_of_granted hok hhas)

/-- One result, with locks that are old ones or on features of visible tables. -/
def SameLocks {α : Type} (K : LockKeys) (ws : Workspace) (role : Str) (locks : LockStore)
    (r r' : α × LockStore) : Prop :=
  r = r' ∧ ∀ lock ∈ r.2.locks, lock ∈ locks.locks ∨ OfVisible K ws role lock.featureIDs

lemma SameLocks.kept {α : Type} {K} {locks} {a : α} :
    SameLocks K ws role locks (a, locks) (a, locks) :=
  ⟨rfl, fun _ => .inl⟩

/-- A name that passed the check is open. -/
lemma openName_of_authorized {appPrefix typeNames : Str} {p}
    (hclear : ClearQuery ws appPrefix role typeNames)
    (hok : authorizeLockQuery ws appPrefix role (parseTypeNames typeNames) = .ok p) :
    OpenName ws appPrefix role typeNames := by
  by_cases hone : parseTypeNames typeNames = [typeNames]
  · have hstable := hclear.1 typeNames (by rw [hone]; exact mem_cons_self)
    rcases authorizeFeatureQuery_ok (authorizeLockQuery_ok hok).1 with
      ⟨typeName, heq, hresolve, hvisible, -⟩
    rw [hone] at heq
    cases heq
    unfold OpenName
    rw [← resolveVisible_visiblePart, ← hstable, resolveVisible_of_resolve hresolve hvisible,
      hresolve]
    rfl
  · exact hclear.2.resolve_left hone

variable {queries : List LockQuery}

lemma authorizeQueries_alike
    (hclear : ∀ query ∈ queries, ClearQuery ws b.appPrefix role query.typeNames) :
    authorizeQueries ws b.appPrefix role queries =
      authorizeQueries (ws.visiblePart role) b.appPrefix role queries := by
  induction queries with
  | nil => rfl
  | cons query rest ih =>
    obtain ⟨hquery, hrest⟩ := forall_mem_cons.mp hclear
    have hsame := authorizeLockQuery_alike (b := b) hquery.1
    unfold authorizeQueries
    rcases cases_of_map_eq hsame with ⟨e, he, he'⟩ | ⟨p, p', hp, hp', -⟩
    · rw [he, he']
    · rw [hp, hp']
      exact ih hrest

lemma openName_of_authorizeQueries {appPrefix : Str}
    (hclear : ∀ query ∈ queries, ClearQuery ws appPrefix role query.typeNames)
    (hok : authorizeQueries ws appPrefix role queries = .ok ()) :
    ∀ query ∈ queries, OpenName ws appPrefix role query.typeNames := by
  induction queries with
  | nil => exact fun _ hq => by cases hq
  | cons first rest ih =>
    unfold authorizeQueries at hok
    split at hok
    · cases hok
    rename_i p hp
    obtain ⟨hfirst, hrest⟩ := forall_mem_cons.mp hclear
    exact forall_mem_cons.mpr ⟨openName_of_authorized hfirst hp, ih hrest hok⟩

variable (h : Alike role ws ws' w w')
include h

/-- The sources give the same ids for a layer of a visible table. -/
lemma getFeatureIDsForLock_alike {p p'} (hshown : shown p = shown p')
    (htable : VisibleTable ws role (lockSourceOf p.2 p.1)) (query : LockQuery) :
    getFeatureIDsForLock (b.source w) p.2 p.1 query =
      getFeatureIDsForLock (b.source w') p'.2 p'.1 query := by
  rcases shown_inj hshown with ⟨hlayer, -, -, hsource⟩
  unfold getFeatureIDsForLock Backend.source
  dsimp only
  rw [← hsource, ← hlayer, h.info _ htable, h.data _ htable]

theorem collectFeatures_alike
    (hopen : ∀ query ∈ queries, OpenName ws b.appPrefix role query.typeNames)
    (features : Features) : collectFeatures b.keys (b.source w) ws b.appPrefix features queries =
      collectFeatures b.keys (b.source w') (ws.visiblePart role) b.appPrefix features queries := by
  induction queries generalizing features with
  | nil => rfl
  | cons query rest ih =>
    obtain ⟨hquery, hrest⟩ := forall_mem_cons.mp hopen
    unfold collectFeatures
    rcases hquery.cases with ⟨hnone, hnone'⟩ | ⟨p, p', hp, hp', hshown, htable⟩
    · rw [hnone, hnone']
    have hids := getFeatureIDsForLock_alike (b := b) h hshown htable query
    rcases shown_inj hshown with ⟨hlayer, -, hhas, -⟩
    rw [hp, hp']
    dsimp only
    rw [hids, hhas, sourceLockKey_of_shown b.keys hshown, hlayer]
    split
    · rfl
    · split
      · rfl
      · exact ih hrest _

omit h in
/-- What is collected is of visible tables. -/
lemma ofVisible_collectFeatures {K} {src} {appPrefix : Str} {features}
    (hopen : ∀ query ∈ queries, OpenName ws appPrefix role query.typeNames)
    (hok : collectFeatures K src ws appPrefix [] queries = .ok features) :
    OfVisible K ws role features := by
  intro key fid hhas
  rcases (has_collectFeatures hok).mp hhas with
    ⟨before, query, after, layer, service, ids, rfl, -, hresolve, rfl, -, -⟩ | ⟨-, found, hmem, -⟩
  · exact ⟨lockSourceOf service layer, query.typeNames,
      (hopen query (mem_append_right _ mem_cons_self)).visibleTable hresolve,
      K.decodeLockKey_sourceLockKey service layer query.typeNames⟩
  · cases hmem

omit h in
/-- The queries of a stored query, and that they are clear. -/
lemma storedQueries_alike {appPrefix : Str} {params}
    (hclear : ∀ param ∈ params, toUpper param.1 = "ID" → OpenIdentifier ws appPrefix role param.2)
    {queries} (hqueries : ∀ qs, queries = some qs → ∀ q ∈ qs,
      ClearQuery ws appPrefix role q.typeNames) :
    storedQueries ws appPrefix queries params =
        storedQueries (ws.visiblePart role) appPrefix queries params ∧
      ∀ qs, storedQueries ws appPrefix queries params = .ok qs → ∀ q ∈ qs,
        ClearQuery ws appPrefix role q.typeNames := by
  induction params generalizing queries with
  | nil =>
    cases queries with
    | none => exact ⟨rfl, nofun⟩
    | some found =>
      refine ⟨rfl, ?_⟩
      rintro qs ⟨⟩
      exact hqueries found rfl
  | cons param rest ih =>
    rcases param with ⟨name, value⟩
    obtain ⟨hparam, hrest⟩ := forall_mem_cons.mp hclear
    rw [storedQueries_cons, storedQueries_cons]
    by_cases hname : toUpper name = "ID"
    · have hid := hparam hname
      rw [if_pos hname, if_pos hname, ← hid.1]
      cases hfound : resolveFeatureIdentifier ws appPrefix value with
      | none => exact ⟨rfl, nofun⟩
      | some found =>
        rcases found with ⟨typeName, localID⟩
        apply ih hrest
        intro qs hqs q hq
        cases hqs
        rw [mem_singleton.mp hq]
        exact (hid.2 typeName localID hfound).2
    · rw [if_neg hname, if_neg hname]
      exact ih hrest hqueries

/-- Queries get the same lock, on features of visible tables. -/
lemma lockQueries_alike
    (hclear : ∀ query ∈ queries, ClearQuery ws b.appPrefix role query.typeNames)
    (env : LockFeatureEnv) (locks : LockStore) (owner : Str) (req : LockFeatureRequest) :
    SameLocks b.keys ws role locks
      (lockQueries b.keys (b.source w) ws b.appPrefix env locks role owner req queries)
      (lockQueries b.keys (b.source w') (ws.visiblePart role) b.appPrefix env locks role owner req
        queries) := by
  unfold lockQueries
  rw [← authorizeQueries_alike hclear]
  split
  · exact .kept
  rename_i hauth
  have hopen := openName_of_authorizeQueries hclear hauth
  rw [← collectFeatures_alike h hopen]
  split
  · exact .kept
  rename_i features hfeatures
  have hof := ofVisible_collectFeatures hopen hfeatures
  refine ⟨rfl, fun lock hlock => ?_⟩
  dsimp only at hlock
  split at hlock
  · exact locks_of_acquire hof hlock
  · exact locks_of_acquire hof hlock

omit h in
lemma resetLock_subset (env : LockFeatureEnv) (locks : LockStore) (lockId owner : Str) :
    (resetLock env locks lockId owner).2.locks ⊆ locks.locks := by
  have hrelease := (releaseLockOwned_sublist locks lockId owner env.delete).1.subset
  unfold resetLock
  dsimp only
  split
  · split <;> exact List.Subset.refl _
  split
  · exact List.Subset.refl _
  split
  all_goals
    rename_i heq
    rw [heq] at hrelease
    exact hrelease

section Request

variable {req : LockFeatureRequest} (hclear : Clear b ws role (.lockFeature req : WfsRequest C Q))
include hclear

omit h in
lemma requestQueries_alike :
    requestQueries ws b.appPrefix req = requestQueries (ws.visiblePart role) b.appPrefix req ∧
      ∀ qs, requestQueries ws b.appPrefix req = .ok qs → ∀ q ∈ qs,
        ClearQuery ws b.appPrefix role q.typeNames := by
  unfold requestQueries
  cases hstored : req.storedQuery with
  | none =>
    refine ⟨rfl, ?_⟩
    rintro qs ⟨⟩
    exact hclear.1
  | some stored =>
    dsimp only
    split
    · exact ⟨rfl, nofun⟩
    · exact storedQueries_alike (hclear.2 stored hstored) nofun

/-- A request for locks has the same result. -/
lemma handleLockFeature_alike (env : LockFeatureEnv) (locks : LockStore) (owner : Str) :
    SameLocks b.keys ws role locks
      (handleLockFeature b.keys (b.source w) ws b.appPrefix env locks role owner req)
      (handleLockFeature b.keys (b.source w') (ws.visiblePart role) b.appPrefix env locks role owner
        req) := by
  rcases requestQueries_alike hclear with ⟨hqueries, hof⟩
  unfold handleLockFeature
  rw [← hqueries]
  split
  · exact .kept
  split
  · exact .kept
  split
  · exact .kept
  rename_i queries hqs
  split
  · -- the request names a lock, which is released
    refine ⟨rfl, fun lock hlock => .inl (resetLock_subset env locks req.lockId owner ?_)⟩
    split at hlock
    all_goals
      rename_i heq
      rw [heq]
      exact hlock
  split
  · exact .kept
  obtain ⟨hsame, hlocks⟩ := lockQueries_alike h (hof queries hqs) env locks owner req
  rw [← hsame]
  refine ⟨rfl, fun lock hlock => hlocks lock ?_⟩
  split at hlock
  all_goals
    rename_i heq
    rw [heq]
    exact hlock

end Request

/-- The read of `GetFeatureWithLock` and its lock are those of a visible table. -/
lemma lockRows_alike {p p'} (hshown : shown p = shown p')
    (htable : VisibleTable ws role (lockSourceOf p.2 p.1)) (owner : Str) (env : WfsEnv)
    (locks : LockStore) (typeName : Str) (q : Q) (expirySeconds : Int) (action : LockAction) :
    SameLocks b.keys ws role locks
      (lockRows b ws owner env locks w typeName q expirySeconds action p)
      (lockRows b (ws.visiblePart role) owner env locks w' typeName q expirySeconds action p') := by
  rcases shown_inj hshown with ⟨hlayer, -, -, hsource⟩
  unfold lockRows
  dsimp only
  rw [← sourceLockKey_of_shown b.keys hshown, ← hsource, ← hlayer, ← h.info _ htable,
    ← h.data _ htable]
  split
  · exact .kept
  refine ⟨rfl, fun lock hlock => ?_⟩
  rename_i rows _
  have hof : OfVisible b.keys ws role
      [(b.keys.sourceLockKey p.2 p.1 typeName, rows.map Prod.fst)] := by
    rintro key fid ⟨ids, hentry, -⟩
    rcases Prod.mk.inj (mem_singleton.mp hentry) with ⟨rfl, -⟩
    exact ⟨_, typeName, htable, b.keys.decodeLockKey_sourceLockKey p.2 p.1 typeName⟩
  split at hlock
  · exact locks_of_acquire hof hlock
  · exact locks_of_acquire hof hlock

variable {expirySeconds : Int} {action : LockAction}

omit h in
/-- The names of a target are the same, and stable. -/
lemma targetNames_alike {target : Target} {q : Q} (hclear : Clear b ws role
      (.getFeatureWithLock target q expirySeconds action : WfsRequest C Q)) :
    targetNames b ws target = targetNames b (ws.visiblePart role) target ∧
      ∀ typeNames, targetNames b ws target = .ok typeNames → ∀ typeName ∈ typeNames,
        StableName ws b.appPrefix role typeName := by
  cases target with
  | names =>
    refine ⟨rfl, ?_⟩
    rintro typeNames ⟨⟩
    exact hclear
  | identifier id =>
    unfold targetNames
    dsimp only
    rw [← hclear.1]
    refine ⟨rfl, ?_⟩
    intro typeNames hnames typeName hmem
    split at hnames
    · cases hnames
    rename_i found localID hfound
    cases hnames
    rw [mem_singleton.mp hmem]
    exact (hclear.2 found localID hfound).1

lemma handleGetFeatureWithLock_alike {target : Target} {q : Q} (hclear : Clear b ws role
      (.getFeatureWithLock target q expirySeconds action : WfsRequest C Q))
    (owner : Str) (env : WfsEnv) (locks : LockStore) :
    SameLocks b.keys ws role locks
      (handleGetFeatureWithLock b ws role owner env locks w target q expirySeconds action)
      (handleGetFeatureWithLock b (ws.visiblePart role) role owner env locks w' target q
        expirySeconds action) := by
  rcases targetNames_alike hclear with ⟨hnames, hof⟩
  unfold handleGetFeatureWithLock
  rw [← hnames]
  cases hns : targetNames b ws target with
  | error => exact .kept
  | ok typeNames =>
    have hstable := hof typeNames hns
    dsimp only
    rcases cases_of_map_eq (authorizeLockQuery_alike hstable) with
      ⟨e, he, he'⟩ | ⟨p, p', hp, hp', hshown⟩
    · rw [he, he']
      exact .kept
    rw [hp, hp']
    rcases authorizeFeatureQuery_ok (authorizeLockQuery_ok hp).1 with
      ⟨typeName, rfl, hresolve, hvisible, -⟩
    have htable := (hstable typeName mem_cons_self).visibleTable hresolve hvisible
    exact lockRows_alike h hshown htable owner env locks _ q expirySeconds action

end Locks

/-! ## Transactions -/

section Transactions

variable {h : Handler C V}

/-- What a part of a transaction makes of the tables in both workspaces: the visible ones
stay the same, the others stay as they were. -/
structure Kept (ws : Workspace) (role : Str) (old old' new new' : Data V) : Prop where
  same : ∀ source, VisibleTable ws role source → new source = new' source
  hidden : ∀ source, ¬ VisibleTable ws role source →
    new source = old source ∧ new' source = old' source

variable {d d' old old' : Data V} {α ρ : Type} {mk : α → Data V → ρ}

lemma Kept.trans {e e' f f' : Data V} (hde : Kept ws role d d' e e')
    (hef : Kept ws role e e' f f') : Kept ws role d d' f f' := by
  refine ⟨hef.same, ?_⟩
  intro source hsource
  rcases hde.hidden source hsource with ⟨he, he'⟩
  rcases hef.hidden source hsource with ⟨hf, hf'⟩
  exact ⟨hf.trans he, hf'.trans he'⟩

lemma Kept.refl (hsame : ∀ source, VisibleTable ws role source → d source = d' source) :
    Kept ws role d d' d d' :=
  ⟨hsame, fun _ _ => ⟨rfl, rfl⟩⟩

lemma Kept.set
    (hsame : ∀ source, VisibleTable ws role source → d source = d' source) {source : Str}
    (hsource : VisibleTable ws role source) (table : Str → Option V) :
    Kept ws role d d' (d.set source table) (d'.set source table) := by
  refine ⟨?_, ?_⟩
  · intro s hs
    unfold Data.set
    split
    · rfl
    · exact hsame s hs
  · intro s hs
    have hne : s ≠ source := fun heq => hs (heq ▸ hsource)
    unfold Data.set
    rw [if_neg hne, if_neg hne]
    exact ⟨rfl, rfl⟩

/-- The result of a part of a transaction, with the tables after it. -/
abbrev withData {α β : Type} (a : α × β) (data : Data V) : α × β × Data V := (a.1, a.2, data)

/-- Both fail with one error, or both succeed with one result, which `mk` packs with the
tables. -/
def SameResult {α ρ : Type} (mk : α → Data V → ρ) (ws : Workspace) (role : Str)
    (old old' : Data V) (r r' : Except RequestError ρ) : Prop :=
  (∃ e, r = .error e ∧ r' = .error e) ∨
    ∃ a new new', r = .ok (mk a new) ∧ r' = .ok (mk a new') ∧ Kept ws role old old' new new'

lemma SameResult.error (e : RequestError) :
    SameResult mk ws role old old' (.error e) (.error e) :=
  .inl ⟨e, rfl, rfl⟩

lemma SameResult.ok {new new' : Data V} (a : α) (hkept : Kept ws role old old' new new') :
    SameResult mk ws role old old' (.ok (mk a new)) (.ok (mk a new')) :=
  .inr ⟨a, new, new', rfl, rfl, hkept⟩

@[elab_as_elim]
lemma SameResult.elim {motive : Except RequestError ρ → Except RequestError ρ → Prop} {r r'}
    (hsame : SameResult mk ws role old old' r r') (error : ∀ e, motive (.error e) (.error e))
    (ok : ∀ a new new', Kept ws role old old' new new' → motive (.ok (mk a new)) (.ok (mk a new'))) :
    motive r r' := by
  rcases hsame with ⟨e, rfl, rfl⟩ | ⟨a, new, new', rfl, rfl, hkept⟩
  · exact error e
  · exact ok a new new' hkept

/-- The name of an action is open, and so is the name that its locks are asked for under. -/
def ClearName (h : Handler C V) (ws : Workspace) (role typeName : Str) : Prop :=
  OpenName ws h.appPrefix role typeName ∧
    ∀ p, resolveFeatureLayer ws h.appPrefix typeName = some p →
      OpenName ws h.appPrefix role (layerNameOf h p.1)

variable {data data' : Data V} (writer : Option (Transaction.Writer C V)) (ls : LockStore)
  (readAt : Str → Nat) (lockId : Str)

lemma checkMutationLocks_alike {layerName : Str}
    (hname : OpenName ws h.appPrefix role layerName) (ids : List Str) :
    checkMutationLocks h ws ls readAt layerName lockId ids =
      checkMutationLocks h (ws.visiblePart role) ls readAt layerName lockId ids := by
  unfold checkMutationLocks
  rcases hname.cases with ⟨hnone, hnone'⟩ | ⟨p, p', hp, hp', hshown, -⟩
  · rw [hnone, hnone']
  rw [hp, hp']
  dsimp only
  rw [sourceLockKey_of_shown h.keys hshown]
  rfl

variable (hdata : ∀ source, VisibleTable ws role source → data source = data' source)
include hdata

/-- A mutation changes the same table in the same way. -/
lemma processMutation_alike {typeName : Str} (hname : ClearName h ws role typeName)
    (m : Mutation) (doc : C) :
    SameResult withData ws role data data'
      (processMutation h ws writer ls readAt lockId m typeName doc data)
      (processMutation h (ws.visiblePart role) writer ls readAt lockId m typeName doc data') := by
  unfold processMutation
  rcases hname.1.cases with ⟨hnone, hnone'⟩ | ⟨p, p', hp, hp', hshown, htable⟩
  · rw [hnone, hnone']
    exact .error _
  rcases shown_inj hshown with ⟨hlayer, -, -, hsource⟩
  have hcheck := checkMutationLocks_alike ls readAt lockId (hname.2 p hp)
  rw [hp, hp']
  dsimp only
  rw [← hsource, ← hlayer, ← hdata _ htable]
  cases writer with
  | none => exact .error _
  | some wr =>
    dsimp only
    cases wr.mutate m p.1 (layerNameOf h p.1) doc with
    | error e => exact .error e
    | ok statement =>
      dsimp only
      cases statement.run (data (lockSourceOf p.2 p.1)) with
      | error => exact .error _
      | ok result =>
        rcases result with ⟨ids, table⟩
        dsimp only
        rw [← hcheck ids]
        cases checkMutationLocks h ws ls readAt (layerNameOf h p.1) lockId ids with
        | error e => exact .error e
        | ok =>
          exact .ok (layerNameOf h p.1, ids) (Kept.set hdata htable table)

lemma insertFeature_alike {localName : Str} (hname : ClearName h ws role localName)
    (doc : C) :
    SameResult withData ws role data data'
      (insertFeature h ws writer localName doc data)
      (insertFeature h (ws.visiblePart role) writer localName doc data') := by
  unfold insertFeature
  rcases hname.1.cases with ⟨hnone, hnone'⟩ | ⟨p, p', hp, hp', hshown, htable⟩
  · rw [hnone, hnone']
    exact .error _
  rcases shown_inj hshown with ⟨hlayer, -, -, hsource⟩
  rw [hp, hp']
  dsimp only
  rw [← hsource, ← hlayer, ← hdata _ htable]
  cases writer with
  | none => exact .error _
  | some wr =>
    dsimp only
    cases wr.insert p.1 doc with
    | error e => exact .error e
    | ok statement =>
      dsimp only
      cases statement.run (data (lockSourceOf p.2 p.1)) with
      | error => exact .error _
      | ok result =>
        rcases result with ⟨ids, table⟩
        exact .ok (layerNameOf h p.1, ids) (Kept.set hdata htable table)

lemma processInsert_alike {features} (hnames : ∀ f ∈ features, ClearName h ws role f.1) :
    SameResult withData ws role data data'
      (processInsert h ws writer features data)
      (processInsert h (ws.visiblePart role) writer features data') := by
  induction features generalizing data data' with
  | nil => exact .ok ([], []) (Kept.refl hdata)
  | cons f rest ih =>
    rcases f with ⟨localName, doc⟩
    obtain ⟨hname, hrest⟩ := forall_mem_cons.mp hnames
    unfold processInsert
    refine (insertFeature_alike writer hdata hname doc).elim .error ?_
    intro a d d' hkept
    dsimp only
    refine (ih hkept.same hrest).elim .error ?_
    exact fun c f f' hkept' => .ok (_, _) (hkept.trans hkept')

/-- One action of a transaction. -/
theorem executeOperation_alike {op}
    (hnames : ∀ typeName ∈ op.names, ClearName h ws role typeName)
    (response : TransactionResponse) :
    SameResult Prod.mk ws role data data'
      (executeOperation h ws writer ls readAt lockId op response data)
      (executeOperation h (ws.visiblePart role) writer ls readAt lockId op response data') := by
  have hmutation := fun typeName hmem => processMutation_alike writer ls readAt lockId hdata
    (hnames typeName hmem)
  unfold executeOperation
  cases op with
  | insert handle features =>
    have hfeatures : ∀ f ∈ features, ClearName h ws role f.1 := fun f hf =>
      hnames f.1 (mem_map_of_mem hf)
    dsimp only
    exact (processInsert_alike writer hdata hfeatures).elim .error fun _ _ _ hkept => .ok _ hkept
  | update _ typeName doc | delete typeName doc =>
    dsimp only [processUpdate, processDelete]
    exact (hmutation typeName mem_cons_self _ doc).elim .error fun _ _ _ hkept => .ok _ hkept
  | replace handle feature doc =>
    cases feature with
    | error => exact .error _
    | ok localName =>
      dsimp only [processReplace]
      exact (hmutation localName mem_cons_self .replace doc).elim .error
        fun _ _ _ hkept => .ok _ hkept

/-- The actions from the `n`-th on. -/
lemma executeOperations_alike {ops}
    (hnames : ∀ op ∈ ops, ∀ typeName ∈ op.names, ClearName h ws role typeName)
    (checks : Nat → CheckEnv) (n : Nat) (response : TransactionResponse) :
    SameResult Prod.mk ws role data data'
      (executeOperations h ws writer checks lockId n ops response data)
      (executeOperations h (ws.visiblePart role) writer checks lockId n ops response data') := by
  induction ops generalizing n response data data' with
  | nil => exact .ok response (Kept.refl hdata)
  | cons op rest ih =>
    obtain ⟨hop, hrest⟩ := forall_mem_cons.mp hnames
    unfold executeOperations
    refine (executeOperation_alike writer (checks n).store (checks n).readAt lockId hdata
      hop response).elim .error ?_
    intro a d d' hkept
    dsimp only
    refine (ih hkept.same hrest (n + 1) a).elim .error ?_
    exact fun c f f' hkept' => .ok c (hkept.trans hkept')

omit hdata in
lemma checkService_alike {selected selected'}
    (hselected : selected.map Service.bare = selected'.map Service.bare) {c}
    (hname : ∀ typeName, c.1 = .ok typeName → OpenName ws h.appPrefix role typeName) :
    (checkService h ws selected c).map (Option.map Service.bare) =
      (checkService h (ws.visiblePart role) selected' c).map (Option.map Service.bare) := by
  unfold checkService
  cases hc : c.1 with
  | error => rfl
  | ok typeName =>
    dsimp only
    rcases (hname typeName hc).cases with ⟨hnone, hnone'⟩ | ⟨p, p', hp, hp', hshown, -⟩
    · rw [hnone, hnone']
    rcases shown_inj hshown with ⟨hlayer, hservice, -, -⟩
    have hbare : p.2.bare = p'.2.bare := (Prod.mk.inj hshown).2
    rw [hp, hp']
    dsimp only
    rw [hlayer]
    cases selected with
    | none =>
      cases selected' with
      | some => cases hselected
      | none =>
        dsimp only
        split
        · rfl
        · exact congrArg (fun s => Except.ok (some s)) hbare
    | some s =>
      cases selected' with
      | none => cases hselected
      | some s' =>
        have hsid : s.bare.id = s'.bare.id := by rw [Option.some.inj hselected]
        simp only [show s.id = s'.id from hsid, hservice]
        split
        · rfl
        · split
          · rfl
          · exact congrArg (fun s => Except.ok (some s)) hbare

omit hdata in
lemma checkServices_alike {checks : List NameCheck}
    (hnames : ∀ c ∈ checks, ∀ typeName, c.1 = .ok typeName →
      OpenName ws h.appPrefix role typeName) {selected selected' : Option Service}
    (hselected : selected.map Service.bare = selected'.map Service.bare) :
    (checkServices h ws selected checks).map (Option.map Service.bare) =
      (checkServices h (ws.visiblePart role) selected' checks).map (Option.map Service.bare) := by
  induction checks generalizing selected selected' with
  | nil => exact congrArg Except.ok hselected
  | cons c rest ih =>
    obtain ⟨hname, hrest⟩ := forall_mem_cons.mp hnames
    unfold checkServices
    rcases cases_of_map_eq (checkService_alike hselected hname) with
      ⟨e, he, he'⟩ | ⟨s, s', hs, hs', hbare⟩
    · rw [he, he']
    · rw [hs, hs']
      exact ih hrest hbare

omit hdata in
/-- The names that are checked are names of the actions. -/
lemma mem_names_of_nameChecks {ops : List (Operation C)} {c : NameCheck}
    (hc : c ∈ nameChecks ops) {typeName : Str} (hname : c.1 = .ok typeName) :
    ∃ op ∈ ops, typeName ∈ op.names := by
  unfold nameChecks at hc
  dsimp only at hc
  simp only [mem_append, mem_flatMap, mem_filterMap] at hc
  rcases hc with ((⟨op, hop, hc⟩ | ⟨op, hop, hc⟩) | ⟨op, hop, hc⟩) | ⟨op, hop, hc⟩
  all_goals refine ⟨op, hop, ?_⟩
  · cases op with
    | insert =>
      rcases mem_map.mp hc with ⟨f, hf, rfl⟩
      cases hname
      exact mem_map_of_mem hf
    | _ => cases hc
  · cases op with
    | update =>
      cases hc
      cases hname
      exact mem_cons_self
    | _ => cases hc
  · cases op with
    | delete =>
      cases hc
      cases hname
      exact mem_cons_self
    | _ => cases hc
  · cases op with
    | replace handle feature =>
      cases hc
      change feature = .ok typeName at hname
      subst hname
      exact mem_cons_self
    | _ => cases hc

/-- The whole transaction. -/
lemma executeTransaction_alike {tx : WFSTransaction C}
    (hnames : ∀ op ∈ tx.operations, ∀ typeName ∈ op.names,
      ClearName b.handler ws role typeName) (env : RequestEnv) :
    SameResult Prod.mk ws role data data' (executeTransaction b.handler ws env tx data)
      (executeTransaction b.handler (ws.visiblePart role) env tx data') := by
  have hservices : (transactionService b.handler ws tx).map (Option.map Service.bare) =
      (transactionService b.handler (ws.visiblePart role) tx).map (Option.map Service.bare) := by
    apply checkServices_alike _ rfl
    intro c hc typeName hname
    rcases mem_names_of_nameChecks hc hname with ⟨op, hop, hmem⟩
    exact (hnames op hop typeName hmem).1
  have hrun := fun writer : Option (Transaction.Writer C V) =>
    executeOperations_alike writer tx.lockId hdata hnames env.checks 0 {}
  unfold executeTransaction
  split
  · exact .error _
  rcases cases_of_map_eq hservices with ⟨e, he, he'⟩ | ⟨s, s', hs, hs', hbare⟩
  · rw [he, he']
    exact .error e
  rw [hs, hs']
  cases s with
  | none =>
    cases s' with
    | none => exact hrun none
    | some => cases hbare
  | some s =>
    cases s' with
    | none => cases hbare
    | some s' =>
      have hid : s.bare.id = s'.bare.id := by rw [Option.some.inj hbare]
      have hwriter : b.handler.atomicWriter s = b.handler.atomicWriter s' :=
        congrArg b.writers hid
      dsimp only
      rw [← hwriter]
      cases b.handler.atomicWriter s with
      | none => exact .error _
      | some writer =>
        cases env.beginTx with
        | some => exact .error _
        | none =>
          dsimp only [executeTransactionWithWriter]
          refine (hrun (some writer)).elim .error fun a d d' hkept => ?_
          cases env.commit with
          | some => exact .error _
          | none => exact .ok a hkept

/-- The answer to a transaction and its effects are the same. -/
lemma handleTransaction_alike {request}
    (hnames : ∀ tx, request = .ok tx → ∀ op ∈ tx.operations, ∀ typeName ∈ op.names,
      ClearName b.handler ws role typeName) (svc : Services) (env : RequestEnv) (owner : Str) :
    let handled := handleTransaction b.handler svc ws env owner request data
    let handled' := handleTransaction b.handler svc (ws.visiblePart role) env owner request data'
    handled.answer = handled'.answer ∧ handled.effects = handled'.effects ∧
      Kept ws role data data' handled.data handled'.data := by
  have hkeep := Kept.refl hdata
  dsimp only
  unfold handleTransaction
  dsimp only
  cases hreq : request with
  | error => exact ⟨rfl, rfl, hkeep⟩
  | ok tx =>
    dsimp only
    rw [show (ws.visiblePart role).id = ws.id from rfl]
    split
    · exact ⟨rfl, rfl, hkeep⟩
    split
    · exact ⟨rfl, rfl, hkeep⟩
    · exact (executeTransaction_alike hdata (hnames tx hreq) env).elim
        (fun _ => ⟨rfl, rfl, hkeep⟩) fun _ _ _ hkept => ⟨rfl, rfl, hkept⟩

end Transactions

/-! ## Requests -/

section Requests

variable {owner : Str} {env : WfsEnv} {locks : LockStore}

lemma Alike.refl (role : Str) (ws : Workspace) (w : World V I) : Alike role ws ws w w :=
  ⟨rfl, fun _ _ => rfl, fun _ _ => rfl⟩

/-- A request that leaves the tables and the locks. -/
lemma Confined.unchanged {K} {answer} :
    Confined K ws role w.data locks (⟨answer, w.data, locks⟩ : Outcome V B) :=
  ⟨fun _ _ => rfl, fun _ hlock => .inl hlock⟩

lemma locksAfter_subset (request : Except RequestError (WFSTransaction C)) (handled : Handled V) :
    (locksAfter owner env request handled).locks ⊆ env.transaction.release.locks := by
  unfold locksAfter
  split
  · exact List.Subset.refl _
  rename_i tx
  split
  · exact (releaseLockOwned_sublist env.transaction.release tx.lockId owner
      env.transaction.delete).1.subset
  · exact List.Subset.refl _

variable (owner env locks)

variable {req : WfsRequest C Q}

/-- A clear request changes and locks features of visible layers only. -/
lemma confined_of_clear (w : World V I) (hclear : Clear b ws role req) :
    Confined b.keys ws role w.data (locksBefore env locks req)
      (handleWFS b ws role owner env locks w req) := by
  cases req with
  | describeFeatureType | getFeature | getPropertyValue | getFeatureById | storedQuery
  | listStoredQueries => exact .unchanged
  | lockFeature =>
    have hlocks := (handleLockFeature_alike (.refl role ws w) hclear env.lock locks owner).2
    unfold handleWFS
    dsimp only
    split
    all_goals exact ⟨fun _ _ => rfl, hlocks⟩
  | getFeatureWithLock =>
    exact ⟨fun _ _ => rfl,
      (handleGetFeatureWithLock_alike (.refl role ws w) hclear owner env locks).2⟩
  | transaction request =>
    have hkept := (handleTransaction_alike (b := b) (fun source _ => Eq.refl (w.data source)) hclear
      env.services env.transaction owner).2.2
    unfold handleWFS
    dsimp only
    split
    all_goals exact ⟨fun source hsource => (hkept.hidden source hsource).1,
      fun lock hlock => .inl (locksAfter_subset request _ hlock)⟩

/-- A clear request is answered as in the visible part, and leaves alike what is visible. -/
lemma same_of_clear (halike : Alike role ws ws' w w') (hclear : Clear b ws role req) :
    let o := handleWFS b ws role owner env locks w req
    let part := handleWFS b (ws.visiblePart role) role owner env locks w' req
    o.answer = part.answer ∧ o.locks = part.locks ∧
      ∀ source, VisibleTable ws role source → o.data source = part.data source := by
  have hread : ∀ {r r' : Except ExceptionReport B}, r = r' →
      r.map Body.read = r'.map Body.read := fun heq => by rw [heq]
  cases req with
  | describeFeatureType =>
    exact ⟨hread (handleDescribeFeatureType_alike halike hclear), rfl, halike.data⟩
  | getFeature typeNames q => exact ⟨hread (handleGetFeature_alike halike hclear q), rfl, halike.data⟩
  | getPropertyValue typeNames q =>
    exact ⟨hread (handleGetPropertyValue_alike halike hclear q), rfl, halike.data⟩
  | getFeatureById id q =>
    exact ⟨hread (handleGetFeatureById_alike halike q hclear), rfl, halike.data⟩
  | storedQuery typeName q =>
    exact ⟨hread (executeStoredQuery_alike halike q hclear), rfl, halike.data⟩
  | listStoredQueries =>
    dsimp only [handleWFS]
    rw [returnTypes_alike]
    exact ⟨rfl, rfl, halike.data⟩
  | lockFeature =>
    dsimp only [handleWFS]
    rw [(handleLockFeature_alike halike hclear env.lock locks owner).1]
    split
    · exact ⟨rfl, rfl, halike.data⟩
    · exact ⟨rfl, rfl, halike.data⟩
  | getFeatureWithLock =>
    dsimp only [handleWFS]
    rw [(handleGetFeatureWithLock_alike halike hclear owner env locks).1]
    exact ⟨rfl, rfl, halike.data⟩
  | transaction request =>
    rcases handleTransaction_alike (b := b) halike.data hclear env.services env.transaction owner
      with ⟨hanswer, heffects, hkept⟩
    have hlocks : ∀ {a a' : Handled V}, a.effects = a'.effects →
        locksAfter owner env request a = locksAfter owner env request a' := by
      intro a a' heq
      unfold locksAfter
      rw [heq]
    dsimp only [handleWFS]
    rw [← hanswer, ← hlocks heffects]
    split
    · exact ⟨rfl, rfl, hkept.same⟩
    · exact ⟨rfl, rfl, hkept.same⟩

end Requests

/-- The layer, for the role `admin` only. -/
def adminAutos : Layer := { citeAutos with allowedRoles := ["admin"] }

def secretLayer : Layer :=
  { adminAutos with sourceLayer := "secret", publicID := "Secret" }

/-- A workspace whose only layer is for admins. -/
def adminWorkspace : Workspace := ⟨"w", [autosService [adminAutos]], by decide⟩

/-- A workspace with one more layer, for admins. -/
def secretWorkspace : Workspace :=
  ⟨"w", [autosService [citeAutos, secretLayer]], by decide⟩

def autosBackend : Backend Nat Nat Unit Unit Unit where
  keys := plainKeys
  appPrefix := "app"
  writers _ := some autosWriter
  schema _ := .ok ()
  read _ _ _ _ _ := .ok ()
  storedQueries _ _ := ()
  idColumn _ := .ok "id"
  select _ _ _ _ := .ok []
  rows _ _ _ _ := .ok []
  lockedRows _ _ _ _ := ()

/-- No other request is running, and no call fails. -/
def quietEnv : WfsEnv where
  lock := lockEnvAt 7 "a"
  transaction :=
    { sweptEnv with
      checks := fun _ => ⟨(emptyState 7).store, fun _ => 7⟩
      release := (emptyState 7).store }
  services := ⟨true, true⟩

def autosWorld (secret : Nat) : World Nat Unit where
  data source _ := if source = "s/secret" then some secret else some 0
  info _ := some ()

variable {C V I Q B : Type} (b : Backend C V I Q B) (role owner : Str)

/-- The requests of a caller, one after another: the answers, and the locks and tables in the end.
What others do to the locks meanwhile is in the environments. -/
def session (ws : Workspace) : List (WfsEnv × WfsRequest C Q) → LockStore → World V I →
    List (Except ExceptionReport (Body B)) × LockStore × World V I
  | [], locks, w => ([], locks, w)
  | (env, req) :: rest, locks, w =>
    let o := handleWFS b ws role owner env locks w req
    let after := session ws rest o.locks { w with data := o.data }
    (o.answer :: after.1, after.2)

/-- What a caller cannot see does not matter in a whole session of requests whose names are clear. -/
theorem session_noninterference {ws ws'} {w w'} {requests} (halike : Alike role ws ws' w w')
    (hclear : ∀ r ∈ requests, Clear b ws role r.2 ∧ Clear b ws' role r.2) (locks : LockStore) :
    let after := session b role owner ws requests locks w
    let after' := session b role owner ws' requests locks w'
    after.1 = after'.1 ∧ after.2.1 = after'.2.1 ∧ Alike role ws ws' after.2.2 after'.2.2 := by
  induction requests generalizing locks w w' with
  | nil => exact ⟨rfl, rfl, halike⟩
  | cons r rest ih =>
    obtain ⟨⟨hreq, hreq'⟩, hrest⟩ := forall_mem_cons.mp hclear
    -- both workspaces answer as their visible part, which is one
    obtain ⟨hanswer, hlocks, hdata⟩ := same_of_clear owner r.1 locks halike hreq
    obtain ⟨hanswer', hlocks', hdata'⟩ := same_of_clear owner r.1 locks (.refl role ws' w') hreq'
    rw [← halike.layers] at hanswer' hlocks' hdata'
    have hafter : ∀ source, VisibleTable ws role source → _ := fun source hsource =>
      (hdata source hsource).trans (hdata' source (by rwa [VisibleTable, ← halike.layers])).symm
    obtain ⟨hanswers, hend⟩ := @ih { w with data := _ } { w' with data := _ }
      ⟨halike.layers, hafter, halike.info⟩ hrest _
    dsimp only [session]
    rw [hanswer, hanswer', hlocks, hlocks']
    exact ⟨congrArg (_ :: ·) hanswers, hend⟩

/-- An editor asks twice for a list, next to a layer that is for admins. -/
theorem session_noninterference_sample :
    let ask := replicate 2 (quietEnv, WfsRequest.listStoredQueries ())
    (session autosBackend "editor" [] oneAutos ask (emptyState 7).store (autosWorld 0)).1 =
      (session autosBackend "editor" [] secretWorkspace ask (emptyState 7).store (autosWorld 1)).1 := by
  refine (session_noninterference autosBackend "editor" [] ⟨rfl, ?_, fun _ _ => rfl⟩
    (by simp [Clear]) _).1
  rintro source ⟨p, hp, rfl⟩
  have hp : p ∈ [(citeAutos, autosService [citeAutos])] := hp
  rw [mem_singleton.mp hp]

end NeoServer.Wfs
