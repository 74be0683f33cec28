import NeoServer.Wfs.Fes.Predicates
import NeoServer.Wfs.Names

/-!
# Wfs.Access — what a caller may query

The checks that stand before a query: the type name is resolved, and a layer that is
not visible to the caller is answered like a name that does not exist.
-/

namespace NeoServer.Wfs

/-! ## Exceptions -/

inductive ExceptionCode
  | operationNotSupported | missingParameterValue | invalidParameterValue | noApplicableCode
  | operationParsingFailed | cannotLockAllFeatures | lockHasExpired | invalidValue
  | authorizationFailed | notFound
deriving DecidableEq, Repr

inductive RequestError
  /-- `RequestError` with its code, locator and message. -/
  | request (code : ExceptionCode) (locator message : Str)
  /-- Any other error; its message is not sent. -/
  | plain (message : Str)
deriving DecidableEq, Repr

/-- An exception report. -/
structure ExceptionReport where
  code : ExceptionCode
  locator : Str
  message : Str
deriving DecidableEq, Repr

/-- `WriteExceptionFromError`. -/
def RequestError.report : RequestError → ExceptionReport
  | .request code locator message => ⟨code, locator, message⟩
  | .plain _ => ⟨.noApplicableCode, [], "internal server error"⟩

/-! ## Type names of a query -/

def parseTypeNames (s : Str) : List Str := fields (replaceAll s "," " ")

def authorizeFeatureQuery (ws : Workspace) (appPrefix role : Str) (typeNames : List Str) :
    Except RequestError (Layer × Service) :=
  match typeNames with
  | [] =>
    .error (.request .missingParameterValue "typeNames"
      "TYPENAMES parameter is required")
  | [typeName] =>
    let unknown := RequestError.request .invalidParameterValue "typeNames"
      ("Unknown type name: " ++ typeName)
    match resolveFeatureLayer ws appPrefix typeName with
    | none => .error unknown
    | some (layer, service) =>
      if !layer.visibleToRole role then .error unknown
      else if !service.hasDataSource then
        .error (.request .noApplicableCode []
          ("Service not available for layer: " ++ layer.publicID))
      else .ok (layer, service)
  | _ :: _ :: _ =>
    .error (.request .operationNotSupported "typeNames"
      ("Spatial joins (multiple type names in a single query) are not supported. " ++
        "Query each type separately.").toList)

/-- A layer that is no table of its own and cannot be written. -/
def Layer.readOnly (layer : Layer) : Bool := layer.isSQLView || layer.sqlViewReadOnly

def authorizeLockQuery (ws : Workspace) (appPrefix role : Str) (typeNames : List Str) :
    Except RequestError (Layer × Service) :=
  match authorizeFeatureQuery ws appPrefix role typeNames with
  | .error e => .error e
  | .ok (layer, service) =>
    if layer.readOnly then
      .error (.request .operationNotSupported "typeNames"
        "Read-only SQL views cannot be locked")
    else .ok (layer, service)

variable {ws : Workspace} {appPrefix role : Str} {typeNames : List Str} {p : Layer × Service}

lemma authorizeFeatureQuery_ok (h : authorizeFeatureQuery ws appPrefix role typeNames = .ok p) :
    ∃ typeName, typeNames = [typeName] ∧ resolveFeatureLayer ws appPrefix typeName = some p ∧
      p.1.visibleToRole role = true ∧ p.2.hasDataSource = true := by
  unfold authorizeFeatureQuery at h
  split at h
  · cases h
  · rename_i typeName
    split at h
    · cases h
    rename_i layer service hresolve
    split at h
    · cases h
    rename_i hvisible
    split at h
    · cases h
    rename_i hds
    cases h
    exact ⟨typeName, rfl, hresolve, by simpa using hvisible, by simpa using hds⟩
  · cases h

lemma authorizeLockQuery_ok (h : authorizeLockQuery ws appPrefix role typeNames = .ok p) :
    authorizeFeatureQuery ws appPrefix role typeNames = .ok p ∧ p.1.readOnly = false := by
  unfold authorizeLockQuery at h
  split at h
  · cases h
  rename_i layer service hauth
  split at h
  · cases h
  rename_i hro
  cases h
  exact ⟨hauth, by simpa using hro⟩

/-! ## Feature identifiers -/

/-- The dots of an identifier from the last to the first; the part before one of them
names the type. -/
def resolveIdentifierAt (ws : Workspace) (appPrefix id : Str) : Nat → Option (Str × Str)
  | 0 => none
  | n + 1 =>
    -- a dot at the end has nothing after it
    if id[n + 1]? = some '.' ∧ n + 2 ≠ id.length then
      match resolveFeatureLayer ws appPrefix (id.take (n + 1)) with
      | some _ => some (id.take (n + 1), (Fes.featureIDForType id (id.take (n + 1))).getD [])
      | none => resolveIdentifierAt ws appPrefix id n
    else resolveIdentifierAt ws appPrefix id n

/-- `resolveFeatureIdentifier`: the longest prefix before a dot that names a type, and
the local id behind it. -/
def resolveFeatureIdentifier (ws : Workspace) (appPrefix id : Str) : Option (Str × Str) :=
  resolveIdentifierAt ws appPrefix id id.length

end NeoServer.Wfs
