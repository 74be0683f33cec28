import Mathlib.Data.List.Nodup
import NeoServer.Text

/-!
# Wfs.Names — feature type names of a workspace

A workspace publishes layers under public identifiers. Requests name them by these, by
the qualified names of the capabilities document, or by the local part of a feature
identifier; `resolveFeatureLayer` finds the layer that a name stands for.

Names are byte strings here: `sanitizeXMLName` replaces every byte that is not allowed.
-/

namespace NeoServer.Wfs

/-! ## Workspaces -/

/-- What a request reads of a published layer. -/
structure Layer where
  sourceLayer : Str
  publicID : Str
  enabled : Bool
  isSQLView : Bool
  /-- `SQLViewConfig != nil && SQLViewConfig.ReadOnly`. -/
  sqlViewReadOnly : Bool
  isPublic : Bool
  allowedRoles : List Str
deriving DecidableEq, Repr

/-- `Layer.VisibleToRole`. -/
def Layer.visibleToRole (l : Layer) (role : Str) : Bool :=
  l.isPublic || role == "super_admin" || l.allowedRoles.isEmpty || role ∈ l.allowedRoles

/-- A service and what it publishes. The data source is opened on the side, by the id
of the service. -/
structure Service where
  id : Str
  enabled : Bool
  /-- Whether a data source is open (`DataSource != nil`). -/
  hasDataSource : Bool
  /-- `FeatureLockSource` of the data source, where it has one. -/
  lockSource : Option (Str → Str)
  layers : List Layer

/-- The enabled layers of the enabled services, each with its service. -/
def published (services : List Service) : List (Layer × Service) :=
  (services.filter Service.enabled).flatMap fun svc =>
    (svc.layers.filter Layer.enabled).map fun layer => (layer, svc)

/-- A workspace. The registry refuses a second publication under one identifier, so
the order in which the services are searched does not matter. -/
structure Workspace where
  id : Str
  services : List Service
  publicIDs_nodup : ((published services).map fun p => p.1.publicID).Nodup

namespace Workspace

/-- The layers a request can reach. -/
def published (ws : Workspace) : List (Layer × Service) := Wfs.published ws.services

/-- `Workspace.GetLayer`. -/
def getLayer (ws : Workspace) (publicID : Str) : Option (Layer × Service) :=
  ws.published.find? fun p => p.1.publicID == publicID

variable {ws : Workspace} {p : Layer × Service}

lemma mem_of_getLayer {id : Str}
    (h : ws.getLayer id = some p) : p ∈ ws.published ∧ p.1.publicID = id :=
  ⟨List.mem_of_find?_eq_some h, by simpa using List.find?_some h⟩

/-- Two publications with one identifier are the same one. -/
lemma eq_of_publicID {p q} (hp : p ∈ ws.published)
    (hq : q ∈ ws.published) (h : p.1.publicID = q.1.publicID) : p = q :=
  List.inj_on_of_nodup_map ws.publicIDs_nodup hp hq h

lemma getLayer_of_mem (hp : p ∈ ws.published) : ws.getLayer p.1.publicID = some p := by
  cases h : ws.getLayer p.1.publicID with
  | none =>
    have := List.find?_eq_none.mp h p hp
    simp at this
  | some =>
    rcases mem_of_getLayer h with ⟨hq, hid⟩
    rw [eq_of_publicID hq hp hid]

end Workspace

/-! ## Qualified names -/

def NSWfs : Str := "http://www.opengis.net/wfs/2.0"
def NSGml : Str := "http://www.opengis.net/gml/3.2"
def NSFes : Str := "http://www.opengis.net/fes/2.0"
def NSOws : Str := "http://www.opengis.net/ows/1.1"
def NSXlink : Str := "http://www.w3.org/1999/xlink"
def NSDefault : Str := "http://neoserver/app"
def NSCite : Str := "http://cite.opengeospatial.org/gmlsf"

def getNamespaceForPrefix (pre : Str) : Str :=
  let p := toLower pre
  if p = "cite" then NSCite
  else if p = "gml" then NSGml
  else if p = "wfs" then NSWfs
  else if p = "fes" then NSFes
  else if p = "ows" then NSOws
  else if p = "xlink" then NSXlink
  else NSDefault

structure QName where
  pre : Str
  localPart : Str
  space : Str
deriving DecidableEq, Repr

def parseQName (name : Str) : QName :=
  match cutFirst ':' name with
  | some (pre, localPart) => ⟨pre, localPart, getNamespaceForPrefix pre⟩
  | none => ⟨[], name, NSDefault⟩

/-! ## XML names -/

def isNameStart (c : Char) : Bool :=
  ('A' ≤ c && c ≤ 'Z') || ('a' ≤ c && c ≤ 'z') || c == '_'

def isNameChar (c : Char) : Bool :=
  isNameStart c || ('0' ≤ c && c ≤ '9') || c == '.' || c == '-'

def validASCIIXMLName : Str → Bool
  | [] => false
  | c :: s => isNameStart c && s.all isNameChar

def sanitizeXMLName (name : Str) : Str :=
  if validASCIIXMLName name then name
  else
    let name := replaceAll (replaceAll name ":" "_") " " "_"
    match name.map fun c => if isNameChar c then c else '_' with
    | [] => []
    | first :: rest =>
      if ('0' ≤ first ∧ first ≤ '9') ∨ first = '-' ∨ first = '.' then '_' :: first :: rest
      else first :: rest

/-- The qualified name under which a layer is advertised. -/
def publishedFeatureTypeName (publicID appPrefix : Str) : Str :=
  let qn := parseQName publicID
  if qn.pre ≠ [] ∧ qn.space ≠ NSDefault ∧ validASCIIXMLName qn.pre ∧
      validASCIIXMLName qn.localPart then publicID
  else appPrefix ++ ":" ++ sanitizeXMLName publicID

/-! ## Resolving a name -/

/-- A layer whose advertised name, its local part or its sanitized identifier is the
name asked for. -/
def nameMatches (appPrefix typeName localName : Str) (layer : Layer) : Bool :=
  let name := publishedFeatureTypeName layer.publicID appPrefix
  name == typeName || (parseQName name).localPart == localName ||
    sanitizeXMLName layer.publicID == localName

/-- The search over all layers; a name that fits two of them is refused. -/
def matchLayers (appPrefix typeName localName : Str) :
    Option Layer → List Layer → Option Layer
  | matched, [] => matched
  | matched, candidate :: rest =>
    if nameMatches appPrefix typeName localName candidate then
      match matched with
      | some m =>
        if m.publicID ≠ candidate.publicID then none
        else matchLayers appPrefix typeName localName (some candidate) rest
      | none => matchLayers appPrefix typeName localName (some candidate) rest
    else matchLayers appPrefix typeName localName matched rest

/-- `resolveFeatureLayer`; the caller's workspace is never nil. -/
def resolveFeatureLayer (ws : Workspace) (appPrefix typeName : Str) : Option (Layer × Service) :=
  if typeName = [] then none
  else
    match ws.getLayer typeName with
    | some p => some p
    | none =>
      let (direct, localName) :=
        match cutFirst ':' typeName with
        | some (pre, localPart) =>
          (if pre = appPrefix then ws.getLayer localPart else none, localPart)
        | none => (none, typeName)
      match direct with
      | some p => some p
      | none =>
        let candidates := (ws.published.map Prod.fst).filter
          fun layer => layer.visibleToRole "super_admin"
        match matchLayers appPrefix typeName localName none candidates with
        | some layer => ws.getLayer layer.publicID
        | none => none

/-- A name resolves to a publication of the workspace. -/
lemma mem_of_resolveFeatureLayer {ws} {appPrefix typeName : Str}
    {p} (h : resolveFeatureLayer ws appPrefix typeName = some p) : p ∈ ws.published := by
  unfold resolveFeatureLayer at h
  split at h
  · cases h
  split at h
  · rename_i q hq
    cases h
    exact (Workspace.mem_of_getLayer hq).1
  · dsimp only at h
    split at h
    · rename_i q hq
      cases h
      split at hq
      · split at hq
        · exact (Workspace.mem_of_getLayer hq).1
        · cases hq
      · cases hq
    · split at h
      · exact (Workspace.mem_of_getLayer h).1
      · cases h

end NeoServer.Wfs
