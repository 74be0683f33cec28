import NeoServer.Xml
import NeoServer.Sql.Syntax

/-!
# Wfs.Fes.Models — FES 2.0 filters and how a document becomes one

* `Kind` — the predicates a filter may hold; `predicateFields` lists the fields
  that `FESFilter`, `FESAnd`, `FESOr` and `FESNot` have for them, all four in the
  same order.
* `Predicate` — decoded predicates. The structs of the source have a field per kind,
  which holds the children of that kind in document order; here a container is
  the list of its children, the field of a kind being those of that kind.
* `validateFilterStructure`, `parseFESFilter` — the check on the token stream and
  the decoding.
-/

namespace NeoServer.Wfs.Fes

open NeoServer.Sql (CmpOp)

/-! ## Predicates -/

/-- Spatial predicates with one geometry operand. -/
inductive SpatialOp
  | intersects | within | contains | disjoint | touches | crosses | overlaps
deriving DecidableEq, Repr

/-- Temporal predicates. -/
inductive TemporalOp
  | after | before | during | begins | begunBy | tContains | tEquals | tOverlaps | meets
  | overlappedBy | metBy | ends | endedBy | anyInteracts
deriving DecidableEq, Repr

/-- Predicates that hold no other predicate. -/
inductive LeafKind
  | comparison (op : CmpOp)
  | like | isNull | isNil | between | bbox
  | spatial (op : SpatialOp)
  | dwithin
  | temporal (op : TemporalOp)
deriving DecidableEq, Repr

/-- The kinds of predicates. -/
inductive Kind
  | and | or | not
  | leaf (k : LeafKind)
  | resourceId
deriving DecidableEq, Repr

def SpatialOp.name : SpatialOp → Str
  | .intersects => "Intersects"
  | .within => "Within"
  | .contains => "Contains"
  | .disjoint => "Disjoint"
  | .touches => "Touches"
  | .crosses => "Crosses"
  | .overlaps => "Overlaps"

def TemporalOp.name : TemporalOp → Str
  | .after => "After"
  | .before => "Before"
  | .during => "During"
  | .begins => "Begins"
  | .begunBy => "BegunBy"
  | .tContains => "TContains"
  | .tEquals => "TEquals"
  | .tOverlaps => "TOverlaps"
  | .meets => "Meets"
  | .overlappedBy => "OverlappedBy"
  | .metBy => "MetBy"
  | .ends => "Ends"
  | .endedBy => "EndedBy"
  | .anyInteracts => "AnyInteracts"

/-- The element name of a comparison. -/
def comparisonName : CmpOp → Str
  | .eq => "PropertyIsEqualTo"
  | .neq => "PropertyIsNotEqualTo"
  | .lt => "PropertyIsLessThan"
  | .gt => "PropertyIsGreaterThan"
  | .le => "PropertyIsLessThanOrEqualTo"
  | .ge => "PropertyIsGreaterThanOrEqualTo"

/-- The element name, which is also the name of the field. -/
def Kind.name : Kind → Str
  | .and => "And"
  | .or => "Or"
  | .not => "Not"
  | .leaf (.comparison op) => comparisonName op
  | .leaf .like => "PropertyIsLike"
  | .leaf .isNull => "PropertyIsNull"
  | .leaf .isNil => "PropertyIsNil"
  | .leaf .between => "PropertyIsBetween"
  | .leaf .bbox => "BBOX"
  | .leaf (.spatial op) => op.name
  | .leaf .dwithin => "DWithin"
  | .leaf (.temporal op) => op.name
  | .resourceId => "ResourceId"

/-- The fields of `FESFilter`, `FESAnd`, `FESOr` and `FESNot`, in the order in
which they are declared and compiled. -/
def predicateFields : List Kind :=
  [.and, .or, .not,
   .leaf (.comparison .eq), .leaf (.comparison .neq), .leaf (.comparison .lt),
   .leaf (.comparison .gt), .leaf (.comparison .le), .leaf (.comparison .ge),
   .leaf .like, .leaf .isNull, .leaf .isNil, .leaf .between, .leaf .bbox,
   .leaf (.spatial .intersects), .leaf (.spatial .within), .leaf (.spatial .contains),
   .leaf (.spatial .disjoint), .leaf (.spatial .touches), .leaf (.spatial .crosses),
   .leaf (.spatial .overlaps), .leaf .dwithin,
   .leaf (.temporal .after), .leaf (.temporal .before), .leaf (.temporal .during),
   .leaf (.temporal .begins), .leaf (.temporal .begunBy), .leaf (.temporal .tContains),
   .leaf (.temporal .tEquals), .leaf (.temporal .tOverlaps), .leaf (.temporal .meets),
   .leaf (.temporal .overlappedBy), .leaf (.temporal .metBy), .leaf (.temporal .ends),
   .leaf (.temporal .endedBy), .leaf (.temporal .anyInteracts),
   .resourceId]

/-- No kind was forgotten. -/
lemma mem_predicateFields (k : Kind) : k ∈ predicateFields := by
  rcases k with _ | _ | _ | (op | _ | _ | _ | _ | _ | op | _ | op) | _
  all_goals first | decide | (cases op <;> decide)

/-- No kind is listed twice. -/
lemma nodup_predicateFields : predicateFields.Nodup := by decide

/-- The field an element is decoded into. -/
def Kind.ofName (name : Str) : Option Kind := predicateFields.find? fun k => k.name = name

lemma name_of_ofName {name : Str} {k : Kind} (h : Kind.ofName name = some k) :
    k.name = name := by
  have hk := List.find?_some h
  simpa using hk

structure FESComparison where
  valueReference : Str
  literal : Str

structure FESPropertyIsLike where
  wildCard : Str
  singleChar : Str
  escapeChar : Str
  matchCase : Str
  valueReference : Str
  literal : Str

structure FESPropertyIsBetween where
  valueReference : Str
  lowerBoundary : Str
  upperBoundary : Str

structure FESEnvelope where
  srsName : Str
  lowerCorner : Str
  upperCorner : Str

structure FESBBOX where
  valueReference : Str
  envelope : FESEnvelope

structure FESPoint where
  srsName : Str
  pos : Str

/-- A line string, or the exterior ring of a polygon. -/
structure FESPosList where
  srsName : Str
  posList : Str

structure FESSpatial where
  valueReference : Str
  point : Option FESPoint
  polygon : Option FESPosList
  lineString : Option FESPosList
  envelope : Option FESEnvelope

structure FESDWithin where
  valueReference : Str
  point : Option FESPoint
  distance : Str

structure GMLTimePeriod where
  beginPosition : Str
  endPosition : Str

/-- The operands of a temporal predicate. Predicates over periods only have no
`timeInstant` in the source; they do not look at it. -/
structure FESTemporal where
  valueReference : Str
  timeInstant : Option Str
  timePeriod : Option GMLTimePeriod

/-- Predicates that hold no other predicate, with their operands. -/
inductive Leaf
  | comparison (op : CmpOp) (comp : FESComparison)
  | like (like : FESPropertyIsLike)
  | isNull (valueReference : Str)
  | isNil (valueReference : Str)
  | between (between : FESPropertyIsBetween)
  | bbox (bbox : FESBBOX)
  | spatial (op : SpatialOp) (spatial : FESSpatial)
  | dwithin (dwithin : FESDWithin)
  | temporal (op : TemporalOp) (temporal : FESTemporal)

def Leaf.kind : Leaf → LeafKind
  | .comparison op _ => .comparison op
  | .like _ => .like
  | .isNull _ => .isNull
  | .isNil _ => .isNil
  | .between _ => .between
  | .bbox _ => .bbox
  | .spatial op _ => .spatial op
  | .dwithin _ => .dwithin
  | .temporal op _ => .temporal op

/-- Predicates. -/
inductive Predicate
  | and (children : List Predicate)
  | or (children : List Predicate)
  | not (children : List Predicate)
  | leaf (l : Leaf)
  | resourceId (rid : Str)

/-- A filter: the children of its root element. -/
abbrev FESFilter := List Predicate

def Predicate.kind : Predicate → Kind
  | .and _ => .and
  | .or _ => .or
  | .not _ => .not
  | .leaf l => .leaf l.kind
  | .resourceId _ => .resourceId

/-- The ids named by the `ResourceId` children. -/
def resourceIds (cs : List Predicate) : List Str :=
  cs.filterMap fun
    | .resourceId rid => some rid
    | _ => none

/-- The other children. -/
def predicates (cs : List Predicate) : List Predicate := cs.filter fun c => c.kind ≠ .resourceId

/-- The filters that decoding can produce: no container is empty, a negation has
one operand, and a filter is one predicate or a sequence of resource ids. -/
inductive Predicate.Valid : Predicate → Prop
  | and {cs : List Predicate} (hne : cs ≠ []) (h : ∀ c ∈ cs, Predicate.Valid c) : Predicate.Valid (.and cs)
  | or {cs : List Predicate} (hne : cs ≠ []) (h : ∀ c ∈ cs, Predicate.Valid c) : Predicate.Valid (.or cs)
  | not {c : Predicate} (h : Predicate.Valid c) : Predicate.Valid (.not [c])
  | leaf (l : Leaf) : Predicate.Valid (.leaf l)
  | resourceId (rid : Str) : Predicate.Valid (.resourceId rid)

/-- A filter is one predicate or a sequence of resource ids. -/
inductive FilterValid : FESFilter → Prop
  | single {c : Predicate} (h : c.Valid) : FilterValid [c]
  | resourceIds {cs : List Predicate} (hne : cs ≠ []) (h : ∀ c ∈ cs, c.kind = .resourceId) :
      FilterValid cs

/-! ## Decoding -/

def decodeEnvelope (e : Content) : FESEnvelope :=
  ⟨e.attr "srsName", e.text "lowerCorner", e.text "upperCorner"⟩

def decodePoint (e : Content) : FESPoint := ⟨e.attr "srsName", e.text "pos"⟩

def decodeLineString (e : Content) : FESPosList :=
  ⟨e.attr "srsName", e.text "posList"⟩

def decodePolygon (e : Content) : FESPosList :=
  ⟨e.attr "srsName",
    ((e.struct "exterior").struct "LinearRing").text "posList"⟩

def decodeTimePeriod (e : Content) : GMLTimePeriod :=
  ⟨e.text "beginPosition", e.text "endPosition"⟩

/-- The struct of a leaf, filled from its element. -/
def decodeLeaf (k : LeafKind) (e : Content) : Leaf :=
  let ref := e.text "ValueReference"
  match k with
  | .comparison op => .comparison op ⟨ref, e.text "Literal"⟩
  | .like =>
    .like ⟨e.attr "wildCard", e.attr "singleChar", e.attr "escapeChar",
      e.attr "matchCase", ref, e.text "Literal"⟩
  | .isNull => .isNull ref
  | .isNil => .isNil ref
  | .between =>
    .between ⟨ref, (e.struct "LowerBoundary").text "Literal",
      (e.struct "UpperBoundary").text "Literal"⟩
  | .bbox => .bbox ⟨ref, decodeEnvelope (e.struct "Envelope")⟩
  | .spatial op =>
    .spatial op ⟨ref, (e.pointer "Point").map decodePoint,
      (e.pointer "Polygon").map decodePolygon,
      (e.pointer "LineString").map decodeLineString,
      (e.pointer "Envelope").map decodeEnvelope⟩
  | .dwithin =>
    .dwithin ⟨ref, (e.pointer "Point").map decodePoint,
      e.text "Distance"⟩
  | .temporal op =>
    .temporal op ⟨ref,
      (e.pointer "TimeInstant").map fun i => i.text "timePosition",
      (e.pointer "TimePeriod").map decodeTimePeriod⟩

mutual

/-- A child of a container, or nothing if the container has no field for it. -/
def decodeChild : Xml → Option Predicate
  | .element _ name attrs children =>
    match Kind.ofName name with
    | some .and => some (.and (decodeChildren children))
    | some .or => some (.or (decodeChildren children))
    | some .not => some (.not (decodeChildren children))
    | some (.leaf k) => some (.leaf (decodeLeaf k ⟨attrs, children⟩))
    | some .resourceId => some (.resourceId (Content.attr ⟨attrs, children⟩ "rid"))
    | none => none
  | _ => none

def decodeChildren : List Xml → List Predicate
  | [] => []
  | x :: xs =>
    match decodeChild x with
    | some p => p :: decodeChildren xs
    | none => decodeChildren xs

end

/-! ## Validation -/

/-- Errors of `ParseFESFilter`. -/
inductive FilterError
  /-- `expected element type <Filter> as the single root` -/
  | singleRoot
  /-- `invalid FES predicate namespace %q` -/
  | namespace (space : Str)
  /-- `unsupported filter predicate %q` -/
  | unsupported (name : Str)
  /-- `ambiguous %s predicates` -/
  | ambiguous (parent : Str)
  /-- `unexpected filter end` -/
  | unexpectedEnd
  /-- `empty %s predicate` -/
  | empty (name : Str)
  /-- `XML directives are not supported` -/
  | directives
  /-- `missing Filter element` -/
  | missing
  /-- `expected element type <Filter> but have <%s>` -/
  | rootName (name : Str)
deriving DecidableEq, Repr

/-- An open element. -/
structure Container where
  name : Str
  children : Nat
  resources : Bool
deriving DecidableEq, Repr

structure Scan where
  stack : List Container
  roots : Nat
deriving DecidableEq, Repr

def isContainer (name : Str) : Bool :=
  name = "Filter" || name = "And" || name = "Or" || name = "Not"

/-- Namespaces in which a predicate may stand. -/
def fesNamespace (space : Str) : Bool :=
  space = [] || space = "http://www.opengis.net/fes/2.0" || space = "fes"

/-- A child that would make its parent ambiguous. -/
def Container.ambiguous (parent : Container) (resource : Bool) : Bool :=
  (parent.name = "Filter" && (0 < parent.children : Bool) &&
      (!resource || !parent.resources)) ||
    (parent.name = "Not" && (0 < parent.children : Bool))

/-- Record a child with the parent on top of the stack. -/
def Container.admitChild (parent : Container) (name : Str) : Except FilterError Container :=
  let resource : Bool := name = "ResourceId"
  if (Kind.ofName name).isNone then .error (.unsupported name)
  else if parent.ambiguous resource then .error (.ambiguous parent.name)
  else .ok { parent with children := parent.children + 1, resources := resource }

def Scan.startElement (st : Scan) (space name : Str) : Except FilterError Scan :=
  match st.stack with
  | [] =>
    if st.roots + 1 ≠ 1 ∨ name ≠ "Filter" then .error .singleRoot
    else if !fesNamespace space then .error (.namespace space)
    else .ok ⟨[⟨name, 0, false⟩], st.roots + 1⟩
  | parent :: rest =>
    if isContainer parent.name then
      if !fesNamespace space then .error (.namespace space)
      else (parent.admitChild name).map fun p => { st with stack := ⟨name, 0, false⟩ :: p :: rest }
    else .ok { st with stack := ⟨name, 0, false⟩ :: parent :: rest }

def Scan.endElement (st : Scan) : Except FilterError Scan :=
  match st.stack with
  | [] => .error .unexpectedEnd
  | last :: rest =>
    if isContainer last.name && last.children = 0 then .error (.empty last.name)
    else .ok { st with stack := rest }

def Scan.step (st : Scan) : XmlToken → Except FilterError Scan
  | .startElement space name => st.startElement space name
  | .endElement => st.endElement
  | .directive => .error .directives
  | .charData | .other => .ok st

def scan (st : Scan) (toks : List XmlToken) : Except FilterError Scan := toks.foldlM Scan.step st

def validateFilterStructure (toks : List XmlToken) : Except FilterError Unit :=
  match scan ⟨[], 0⟩ toks with
  | .error e => .error e
  | .ok st => if st.roots ≠ 1 then .error .missing else .ok ()

/-- The first element of a document, which `Unmarshal` reads. -/
def rootElement : List Xml → Option (Str × List Xml)
  | [] => none
  | .element _ name _ children :: _ => some (name, children)
  | _ :: xs => rootElement xs

/-- `ParseFESFilter`, from the nodes of the document. -/
def parseFESFilter (doc : List Xml) : Except FilterError FESFilter :=
  match validateFilterStructure (Xml.tokensAll doc) with
  | .error e => .error e
  | .ok () =>
    match rootElement doc with
    | none => .error .missing
    | some (name, children) =>
      if toLower name ≠ "filter" then .error (.rootName name)
      else .ok (decodeChildren children)

end NeoServer.Wfs.Fes
