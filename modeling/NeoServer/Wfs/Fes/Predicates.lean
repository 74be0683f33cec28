import NeoServer.Wfs.Fes.Models
import NeoServer.Filter.Compiler

/-!
# Wfs.Fes.Predicates — the SQL of a single predicate

Every function here checks the operands of a predicate and, if they are in order,
returns a `Fragment`: the arguments it appends, and the text it writes once the
index of the first of them is known. The compiler's state is threaded through the
containers only (`Wfs.Fes.Compiler`).
-/

namespace NeoServer.Wfs.Fes

open NeoServer.Sql (CmpOp parens spaced listText callText paramText)
open NeoServer.Filter (Arg FloatOps epsg)

/-- `datasource.SQLDialect`. -/
inductive SQLDialect
  | postgis | duckdb
deriving DecidableEq, Repr

/-- What the compiler takes from its environment. -/
structure Runtime (F : Type) extends FloatOps F where
  /-- Neither `math.IsNaN` nor `math.IsInf`. -/
  finite : F → Bool
  /-- `unicode.ToLower`. -/
  lower : Char → Char
  /-- One representative for each orbit of `unicode.SimpleFold`. -/
  fold : Char → Char
  /-- `crs.Parse`. -/
  parseCRS : Str → Option Int
  /-- `gdalmd.AuthorityAxisSwap`. -/
  authorityAxisSwap : Int → Option Bool

/-- `strings.EqualFold`. -/
def Runtime.equalFold {F : Type} (rt : Runtime F) (s t : Str) : Bool :=
  s.map rt.fold = t.map rt.fold

/-- The codes of the `RequestError`s below. -/
inductive ExceptionCode
  | invalidParameterValue | operationProcessingFailed
deriving DecidableEq, Repr

inductive FesError
  /-- `RequestError` with its code, locator and message. -/
  | request (code : ExceptionCode) (locator message : Str)
  /-- Any other error, with its message. -/
  | plain (message : Str)
  /-- `unsupported input CRS %q` -/
  | unsupportedCRS (value : Str)
  /-- `cannot resolve axis order for EPSG:%d` -/
  | axisOrder (srid : Int)
deriving DecidableEq, Repr

/-- The fields of `fesCompiler` that do not change. -/
structure Compiler where
  dialect : SQLDialect
  tableAlias : Str
  geometryExpression : Str
  sourceSRID : Int
  geomProp : Str
  allowedProperties : Option (List Str)
  collectionID : Str
  idColumn : Str

/-- The arguments a predicate appends, and what it writes when the first of them
is bound to `$n`. -/
structure Fragment (F : Type) where
  args : List (Arg F)
  sql : Nat → Str

/-- Without arguments. -/
def Fragment.const {F : Type} (sql : Str) : Fragment F := ⟨[], fun _ => sql⟩

/-- A `RequestError` about the filter. -/
def invalidFilter (message : Str) : FesError :=
  .request .invalidParameterValue "filter" message

/-- A `RequestError` for an operand of the wrong type. -/
def invalidOperand (message : Str) : FesError := .request .operationProcessingFailed [] message

/-! ## Names -/

def stripNSPrefix (name : Str) : Str :=
  match cutLast ':' name with
  | some (_, localName) => localName
  | none => name

def featureIDForType (id typeName : Str) : Option Str :=
  let strip := fun pre : Str => if pre = [] then none else afterPrefix (pre ++ ".") id
  match strip typeName with
  | some localId => some localId
  | none =>
    match strip (stripNSPrefix typeName) with
    | some localId => some localId
    | none =>
      match cutFirst ':' id with
      | none => none
      | some (_, rest) =>
        if typeName = [] then none else afterPrefix (stripNSPrefix typeName ++ ".") rest

/-- Marker for standard GML properties without a column. -/
def gmlPropertyNotMapped : Str := "__GML_NOT_MAPPED__"

/-- Marker for geometry properties. -/
def gmlGeometryProperty : Str := "__GML_GEOMETRY__"

namespace Compiler

section Predicates

variable {F : Type} (rt : Runtime F) (c : Compiler)

/-- The table part of a column reference. -/
def qualifier : Str :=
  let tableAlias := if c.tableAlias = [] then "t".toList else c.tableAlias
  if tableAlias ≠ "t" ∧ tableAlias ≠ "v" then quoteIdent tableAlias else tableAlias

def column (name : Str) : Str :=
  if name = c.geomProp ∧ c.geometryExpression ≠ [] then c.geometryExpression
  else c.qualifier ++ '.' :: quoteIdent name

def transformGeometry (expr : Str) (srid : Int) : Str :=
  if srid = c.sourceSRID then expr
  else
    match c.dialect with
    | .duckdb =>
      callText "ST_Transform" ", "
        [expr, epsg srid, epsg c.sourceSRID, spaced "always_xy" ":=" "true"]
    | .postgis => callText "ST_Transform" ", " [expr, decimal c.sourceSRID]

def geometryLiteral (index : Nat) (srid : Int) : Str :=
  let expr :=
    match c.dialect with
    | .postgis => callText "ST_GeomFromText" ", " [paramText index, decimal srid]
    | .duckdb =>
      callText "ST_GeomFromText" ", " [paramText index ++ "::VARCHAR"]
  c.transformGeometry expr srid

/-- Standard GML properties are looked up under three spellings. -/
def mapGmlProperty (prop : Str) : Str :=
  match c.allowedProperties with
  | none => prop
  | some allowed =>
    let title := (prop.take 1).map Char.toUpper ++ prop.drop 1
    if prop ∈ allowed then prop
    else if toUpper prop ∈ allowed then toUpper prop
    else if title ∈ allowed then title
    else gmlPropertyNotMapped

def validateProperty (ref : Str) : Str :=
  let prop := stripNSPrefix ref
  if prop = "boundedBy" ∧ c.geomProp ≠ [] then gmlGeometryProperty
  else if c.geomProp ≠ [] ∧ prop = c.geomProp then gmlGeometryProperty
  else if prop = "name" ∨ prop = "description" then c.mapGmlProperty prop
  else
    match c.allowedProperties with
    | none => prop
    | some allowed => if prop ∈ allowed then prop else []

def validateGeometryProperty (ref : Str) : Str :=
  let prop := stripNSPrefix ref
  if prop = "boundedBy" ∧ c.geomProp ≠ [] then c.geomProp
  else if c.geomProp ≠ [] ∧ prop = c.geomProp then c.geomProp
  else []

def unknownProperty (ref : Str) : FesError := invalidFilter ("Unknown property: " ++ ref)

def geometryOperand (ref position : Str) : FesError :=
  invalidOperand ("invalid operand: property '" ++ stripNSPrefix ref ++
    "' is a geometry and cannot be used in " ++ position)

/-- The checks that comparisons make on their property: a standard property without
a column matches nothing, and a geometry cannot be compared. -/
def onProperty (ref position : Str) (predicate : Str → Fragment F) :
    Except FesError (Fragment F) :=
  let prop := c.validateProperty ref
  if prop = [] then .error (unknownProperty ref)
  else if prop = gmlPropertyNotMapped then .ok (.const "FALSE")
  else if prop = gmlGeometryProperty then .error (geometryOperand ref position)
  else .ok (predicate prop)

/-! ## Comparisons -/

def isGmlId (ref : Str) : Bool :=
  rt.equalFold (trimSpace ref) "@gml:id" || rt.equalFold (trimSpace ref) "gml:id"

/-- The id that a literal compared with `gml:id` stands for. -/
def gmlIdLiteral (literal : Str) : Except FesError Str :=
  let featureID := trimSpace literal
  match featureIDForType featureID c.collectionID with
  | some localId => .ok localId
  | none =>
    match cutLast '.' featureID with
    | none => .ok featureID
    | some (identifierType, id) =>
      if c.collectionID ≠ [] ∧
          !rt.equalFold (stripNSPrefix identifierType) (stripNSPrefix c.collectionID) then
        .error (invalidFilter ("Feature identifier type '" ++ identifierType ++
          "' does not match requested type '" ++ c.collectionID ++ "'"))
      else .ok id

/-- The id column, cast to text. -/
def idText : Str := c.column c.idColumn ++ "::text"

def compileComparison (comp : FESComparison) (op : CmpOp) : Except FesError (Fragment F) :=
  if isGmlId rt comp.valueReference then
    (c.gmlIdLiteral rt comp.literal).map fun id =>
      ⟨[.str id], fun n => spaced c.idText op.text (paramText n)⟩
  else
    c.onProperty comp.valueReference "comparison operators" fun prop =>
      ⟨[.str comp.literal], fun n => spaced (c.column prop) op.text (paramText n)⟩

/-- The `LIKE` pattern of a literal. -/
def likePattern (like : FESPropertyIsLike) : Str :=
  let wildCard := if like.wildCard = [] then "*".toList else like.wildCard
  let singleChar := if like.singleChar = [] then "?".toList else like.singleChar
  replaceAll (replaceAll like.literal wildCard "%") singleChar "_"

def compileLike (like : FESPropertyIsLike) : Except FesError (Fragment F) :=
  c.onProperty like.valueReference "LIKE comparisons" fun prop =>
    if like.matchCase = "false" then
      ⟨[.str (likePattern like)], fun n => c.column prop ++ " ILIKE " ++ paramText n⟩
    else ⟨[.str (likePattern like)], fun n => c.column prop ++ " LIKE " ++ paramText n⟩

/-- `PropertyIsNull` and `PropertyIsNil` are compiled alike. -/
def compileNullCheck (ref : Str) : Except FesError (Fragment F) :=
  let prop := c.validateProperty ref
  if prop = [] then .error (unknownProperty ref)
  else if prop = gmlPropertyNotMapped then .ok (.const "TRUE")
  else if prop = gmlGeometryProperty then
    .ok (.const (c.column c.geomProp ++ " IS NULL"))
  else .ok (.const (c.column prop ++ " IS NULL"))

def compileIsNull (ref : Str) : Except FesError (Fragment F) := c.compileNullCheck ref

def compileIsNil (ref : Str) : Except FesError (Fragment F) := c.compileNullCheck ref

def compileBetween (between : FESPropertyIsBetween) : Except FesError (Fragment F) :=
  c.onProperty between.valueReference "BETWEEN comparisons" fun prop =>
    ⟨[.str between.lowerBoundary, .str between.upperBoundary], fun n =>
      c.column prop ++ " BETWEEN " ++ spaced (paramText n) "AND" (paramText (n + 1))⟩

/-! ## Spatial predicates -/

def normalizedInputCRS (value : Str) : Except FesError (Str × Int) :=
  let lower := (trimSpace value).map rt.lower
  if lower ∈ ["crs:84".toList, "ogc:crs84".toList, "urn:ogc:def:crs:ogc::crs84".toList,
      "urn:ogc:def:crs:ogc:1.3:crs84",
      "http://www.opengis.net/def/crs/ogc/1.3/crs84",
      "https://www.opengis.net/def/crs/ogc/1.3/crs84"] then
    .ok ("EPSG:4326", 4326)
  else
    match rt.parseCRS value with
    | none => .error (.unsupportedCRS value)
    | some srid =>
      if srid ≤ 0 then .error (.unsupportedCRS value)
      else if "epsg:".toList.isPrefixOf lower then .ok ("EPSG:".toList ++ decimal srid, srid)
      else .ok ("urn:ogc:def:crs:EPSG::" ++ decimal srid, srid)

/-- The SRID of an input geometry, and whether its axes are swapped. -/
def inputGeometryCRS (value : Str) (defaultSRID : Int) : Except FesError (Int × Bool) :=
  if trimSpace value = [] then .ok (defaultSRID, false)
  else do
    let (normalized, srid) ← normalizedInputCRS rt value
    if "EPSG:".toList.isPrefixOf normalized then return (srid, false)
    match rt.authorityAxisSwap srid with
    | none => .error (.axisOrder srid)
    | some swap => return (srid, swap)

def isNumeric (s : Str) : Bool := (rt.parse s).isSome

def validateNumericCoords (coords : List Str) : Bool := coords.all (isNumeric rt)

/-- The coordinates of a list two by two; a single last one is left out. -/
def coordPairs : List Str → List (Str × Str)
  | x :: y :: rest => (x, y) :: coordPairs rest
  | _ => []

/-- `%s %s`, in the order of the axes. -/
def coordText (swap : Bool) (p : Str × Str) : Str :=
  if swap then p.2 ++ ' ' :: p.1 else p.1 ++ ' ' :: p.2

def posListToWKTCoords (posList : Str) (closeRing swap : Bool) : Str :=
  let pairs := coordPairs (fields posList)
  if pairs.all fun p => isNumeric rt p.1 && isNumeric rt p.2 then
    let coords := pairs.map (coordText swap)
    match coords with
    | [] => []
    | first :: _ =>
      if closeRing && coords.getLast? ≠ some first then join ", " (coords ++ [first])
      else join ", " coords
  else []

def pointText (pos : Str) (swap : Bool) : Except FesError Str :=
  match fields pos with
  | x :: y :: _ =>
    if validateNumericCoords rt [x, y] then
      .ok ("POINT" ++ parens (coordText swap (x, y)))
    else .error (.plain "invalid Point: non-numeric coordinates")
  | _ => .error (.plain "invalid Point: requires 2 coordinates")

/-- `LineString` and `Polygon`, whose checks differ in the number of points. -/
def posListText (kind : Str) (points : Nat) (closeRing : Bool) (raw : Str) (swap : Bool) :
    Except FesError Str :=
  let posList := trimSpace raw
  let count := (fields posList).length
  if posList = [] then .error (.plain ("invalid " ++ kind ++ ": empty posList"))
  else if count < 2 * points then
    .error (.plain ("invalid " ++ kind ++ ": requires at least " ++
      natDecimal points ++ " points (got " ++ natDecimal count ++
      " coordinate values)"))
  else
    let coords := posListToWKTCoords rt posList closeRing swap
    if coords = [] then
      .error (.plain ("invalid " ++ kind ++ ": could not parse coordinates"))
    else .ok coords

def envelopeText (envelope : FESEnvelope) (swap : Bool) : Except FesError Str :=
  match fields envelope.lowerCorner, fields envelope.upperCorner with
  | l₀ :: l₁ :: _, u₀ :: u₁ :: _ =>
    if !validateNumericCoords rt [l₀, l₁] || !validateNumericCoords rt [u₀, u₁] then
      .error (.plain "invalid Envelope: non-numeric coordinates")
    else
      let lower := if swap then (l₁, l₀) else (l₀, l₁)
      let upper := if swap then (u₁, u₀) else (u₀, u₁)
      let corners := [lower, (upper.1, lower.2), upper, (lower.1, upper.2), lower]
      .ok ("POLYGON" ++
        parens (listText ", " (corners.map (coordText false))))
  | _, _ => .error (.plain "invalid Envelope: requires 2 coordinates for each corner")

/-- The well-known text of the first geometry present, and its SRID. -/
def buildGeometry (spatial : FESSpatial) : Except FesError (Str × Int) := do
  let srsName :=
    match spatial.point, spatial.lineString, spatial.polygon, spatial.envelope with
    | some p, _, _, _ => p.srsName
    | none, some l, _, _ => l.srsName
    | none, none, some p, _ => p.srsName
    | none, none, none, some e => e.srsName
    | none, none, none, none => []
  let (srid, swap) ← inputGeometryCRS rt srsName c.sourceSRID
  match spatial.point, spatial.lineString, spatial.polygon, spatial.envelope with
  | some p, _, _, _ => return (← pointText rt p.pos swap, srid)
  | none, some l, _, _ => do
      let coords ← posListText rt "LineString" 2 false l.posList swap
      return ("LINESTRING" ++ parens coords, srid)
  | none, none, some p, _ => do
      let coords ← posListText rt "Polygon" 3 true p.posList swap
      return ("POLYGON" ++ parens (parens coords), srid)
  | none, none, none, some e => return (← envelopeText rt e swap, srid)
  | none, none, none, none =>
    .error (.plain "unsupported geometry type in spatial filter")

/-- The column a spatial predicate is about. -/
def geometryColumn (ref : Str) : Except FesError Str :=
  if ref = [] then .ok c.geomProp
  else
    let geomCol := c.validateGeometryProperty ref
    if geomCol = [] then
      .error (invalidFilter ("invalid geometry operand: property '" ++ stripNSPrefix ref ++
        "' is not a geometry"))
    else .ok geomCol

/-- One coordinate of a bounding box. -/
def bboxCoordinate (value : Str) : Except FesError F :=
  match rt.parse value with
  | some x =>
    if rt.finite x then .ok x else .error (.plain "invalid BBOX coordinate")
  | none => .error (.plain "invalid BBOX coordinate")

/-- The envelope of a bounding box with its corners in `$n` to `$n+3`. -/
def makeEnvelope (srid : Int) (n : Nat) : Str :=
  let corners := [paramText n, paramText (n + 1), paramText (n + 2), paramText (n + 3)]
  match c.dialect with
  | .postgis => callText "ST_MakeEnvelope" ", " (corners ++ [decimal srid])
  | .duckdb => callText "ST_MakeEnvelope" ", " corners

/-- The corners of a bounding box in the order they are bound, its SRID and the
column it is about. -/
def bboxOperands (bbox : FESBBOX) : Except FesError (List F × Int × Str) :=
  match fields bbox.envelope.lowerCorner, fields bbox.envelope.upperCorner with
  | l₀ :: l₁ :: _, u₀ :: u₁ :: _ => do
      let (srid, swap) ← inputGeometryCRS rt bbox.envelope.srsName c.sourceSRID
      let geomCol ← c.geometryColumn bbox.valueReference
      let x₀ ← bboxCoordinate rt l₀
      let y₀ ← bboxCoordinate rt l₁
      let x₁ ← bboxCoordinate rt u₀
      let y₁ ← bboxCoordinate rt u₁
      if !rt.le x₀ x₁ || !rt.le y₀ y₁ then
        .error (.plain "invalid BBOX envelope bounds")
      else if swap then return ([y₀, x₀, y₁, x₁], srid, geomCol)
      else return ([x₀, y₀, x₁, y₁], srid, geomCol)
  | _, _ => .error (.plain "invalid BBOX envelope")

def compileBBOX (bbox : FESBBOX) : Except FesError (Fragment F) := do
  let (corners, srid, geomCol) ← c.bboxOperands rt bbox
  return ⟨corners.map .num, fun n =>
    callText "ST_Intersects" ", "
      [c.column geomCol, c.transformGeometry (c.makeEnvelope srid n) srid]⟩

def compileSpatial (spatial : FESSpatial) (function : Str) : Except FesError (Fragment F) := do
  let geomCol ← c.geometryColumn spatial.valueReference
  let (wkt, srid) ← c.buildGeometry rt spatial
  return ⟨[.str wkt], fun n =>
    callText function ", " [c.column geomCol, c.geometryLiteral n srid]⟩

def compileDWithin (dwithin : FESDWithin) : Except FesError (Fragment F) := do
  let geomCol ← c.geometryColumn dwithin.valueReference
  match dwithin.point with
  | none => .error (.plain "DWithin requires a Point geometry")
  | some point =>
    let (wkt, srid) ← c.buildGeometry rt ⟨[], some point, none, none, none⟩
    return ⟨[.str wkt, .str dwithin.distance], fun n =>
      callText "ST_DWithin" ", "
        [c.column geomCol, c.geometryLiteral n srid, paramText (n + 1)]⟩

/-! ## Resource ids -/

/-- The type and the feature id in a dotted resource id. -/
def splitDotted (rid : Str) : Str × Str :=
  match splitChar '.' rid with
  | schema :: table :: id :: ids =>
    (schema ++ '.' :: table, join "." (id :: ids))
  | [table, id] => (table, id)
  | _ => ([], rid)

/-- The type (empty if unknown) and the feature id in a resource id: the type that
is queried, the legacy `prefix_TypeName.id`, or a dotted name. -/
def splitResourceId (rid : Str) : Str × Str :=
  match featureIDForType rid c.collectionID with
  | some localId => (c.collectionID, localId)
  | none =>
    match cutFirst '_' rid with
    | none => splitDotted rid
    | some (pre, rest) =>
      if pre ≠ [] ∧ (pre = "cite" ∨ pre = "app" ∨
          (pre ++ ":").isPrefixOf c.collectionID) then
        match cutLast '.' rest with
        | some (typePart, id) => (pre ++ ':' :: typePart, id)
        | none => ([], rid)
      else splitDotted rid

/-- The feature id of a resource id, unless it names another type. -/
def resourceFeatureID (rid : Str) : Except FesError Str :=
  let (ridCollectionID, featureID) := c.splitResourceId rid
  if c.collectionID ≠ [] ∧ ridCollectionID ≠ [] ∧
      !rt.equalFold (stripNSPrefix ridCollectionID) (stripNSPrefix c.collectionID) then
    .error (.request .invalidParameterValue "RESOURCEID"
      ("ResourceId type '" ++ ridCollectionID ++ "' does not match requested type '"
        ++ c.collectionID ++ "'"))
  else .ok featureID

/-- `$n`, `$n+1`, …, one for each argument. -/
def placeholders (n : Nat) : List Str → List Str
  | [] => []
  | _ :: ids => paramText n :: placeholders (n + 1) ids

def compileResourceIds (rids : List Str) : Except FesError (Fragment F) :=
  if rids = [] then .ok (.const [])
  else (rids.mapM (c.resourceFeatureID rt)).map fun ids =>
    ⟨ids.map .str, fun n =>
      c.idText ++ " IN " ++ listText ", " (placeholders n ids)⟩

/-! ## Temporal predicates -/

def validateTemporalProperty (ref : Str) : Except FesError Str :=
  let prop := c.validateProperty ref
  if prop = [] then .error (unknownProperty ref)
  else if prop = gmlPropertyNotMapped then
    .error (invalidFilter ("Property '" ++ ref ++ "' is not mapped to a column"))
  else if prop = gmlGeometryProperty then
    .error (geometryOperand ref "temporal operators")
  else .ok prop

/-- Which end of a period is meant. -/
inductive TimeMode
  | start | «end»

def TimeMode.of (mode : TimeMode) (period : GMLTimePeriod) : Str :=
  match mode with
  | .start => period.beginPosition
  | .end => period.endPosition

def getTimeValue (t : FESTemporal) (mode : TimeMode) : Str :=
  match t.timeInstant, t.timePeriod with
  | some position, _ => position
  | none, some period => mode.of period
  | none, none => []

/-- `$n::timestamptz`. -/
def timestamp (n : Nat) : Str := paramText n ++ "::timestamptz"

/-- A property compared with one time. -/
def timeComparison (prop : Str) (op : CmpOp) (value : Str) : Fragment F :=
  ⟨[.str value], fun n => spaced (c.column prop) op.text (timestamp n)⟩

/-- A property between the ends of a period. -/
def timeRange (prop : Str) (lower upper : CmpOp) (period : GMLTimePeriod) : Fragment F :=
  ⟨[.str period.beginPosition, .str period.endPosition], fun n =>
    parens (spaced (spaced (c.column prop) lower.text (timestamp n)) "AND"
      (spaced (c.column prop) upper.text (timestamp (n + 1))))⟩

def requires (name operands : Str) : FesError :=
  invalidFilter (name ++ " requires " ++ operands)

/-- Predicates that compare with the instant, or with one end of the period. -/
def compileTimeValue (name : Str) (op : CmpOp) (mode : TimeMode) (t : FESTemporal) :
    Except FesError (Fragment F) := do
  let prop ← c.validateTemporalProperty t.valueReference
  let value := getTimeValue t mode
  if value = [] then .error (requires name "TimeInstant or TimePeriod")
  else return c.timeComparison prop op value

/-- Predicates that compare with one end of a period. -/
def compilePeriodEnd (name : Str) (mode : TimeMode) (t : FESTemporal) :
    Except FesError (Fragment F) := do
  let prop ← c.validateTemporalProperty t.valueReference
  match t.timePeriod with
  | none => .error (requires name "TimePeriod")
  | some period => return c.timeComparison prop .eq (mode.of period)

/-- Predicates that ask for a time within a period. -/
def compilePeriodRange (name : Str) (lower upper : CmpOp) (t : FESTemporal) :
    Except FesError (Fragment F) := do
  let prop ← c.validateTemporalProperty t.valueReference
  match t.timePeriod with
  | none => .error (requires name "TimePeriod")
  | some period => return c.timeRange prop lower upper period

/-- Predicates that take an instant or a period. -/
def compileInstantOrPeriod (name : Str) (t : FESTemporal) : Except FesError (Fragment F) := do
  let prop ← c.validateTemporalProperty t.valueReference
  match t.timeInstant, t.timePeriod with
  | some position, _ => return c.timeComparison prop .eq position
  | none, some period => return c.timeRange prop .ge .le period
  | none, none => .error (requires name "TimeInstant or TimePeriod")

variable (t : FESTemporal)

def compileAfter : Except FesError (Fragment F) :=
  c.compileTimeValue "After" .gt .end t

def compileBefore : Except FesError (Fragment F) :=
  c.compileTimeValue "Before" .lt .start t

def compileTEquals : Except FesError (Fragment F) :=
  c.compileTimeValue "TEquals" .eq .start t

def compileBegins : Except FesError (Fragment F) :=
  c.compilePeriodEnd "Begins" .start t

def compileBegunBy : Except FesError (Fragment F) :=
  c.compilePeriodEnd "BegunBy" .start t

def compileMeets : Except FesError (Fragment F) :=
  c.compilePeriodEnd "Meets" .start t

def compileMetBy : Except FesError (Fragment F) :=
  c.compilePeriodEnd "MetBy" .end t

def compileEnds : Except FesError (Fragment F) :=
  c.compilePeriodEnd "Ends" .end t

def compileEndedBy : Except FesError (Fragment F) :=
  c.compilePeriodEnd "EndedBy" .end t

def compileDuring : Except FesError (Fragment F) :=
  c.compilePeriodRange "During" .gt .lt t

def compileTOverlaps : Except FesError (Fragment F) :=
  c.compilePeriodRange "TOverlaps" .ge .le t

def compileOverlappedBy : Except FesError (Fragment F) :=
  c.compilePeriodRange "OverlappedBy" .ge .le t

def compileTContains : Except FesError (Fragment F) :=
  c.compileInstantOrPeriod "TContains" t

def compileAnyInteracts : Except FesError (Fragment F) :=
  c.compileInstantOrPeriod "AnyInteracts" t

def compileTemporal (op : TemporalOp) (t : FESTemporal) : Except FesError (Fragment F) :=
  match op with
  | .after => c.compileAfter t
  | .before => c.compileBefore t
  | .during => c.compileDuring t
  | .begins => c.compileBegins t
  | .begunBy => c.compileBegunBy t
  | .tContains => c.compileTContains t
  | .tEquals => c.compileTEquals t
  | .tOverlaps => c.compileTOverlaps t
  | .meets => c.compileMeets t
  | .overlappedBy => c.compileOverlappedBy t
  | .metBy => c.compileMetBy t
  | .ends => c.compileEnds t
  | .endedBy => c.compileEndedBy t
  | .anyInteracts => c.compileAnyInteracts t

/-- A predicate that holds no other predicate. -/
def compileLeaf : Leaf → Except FesError (Fragment F)
  | .comparison op comp => c.compileComparison rt comp op
  | .like like => c.compileLike like
  | .isNull ref => c.compileIsNull ref
  | .isNil ref => c.compileIsNil ref
  | .between between => c.compileBetween between
  | .bbox bbox => c.compileBBOX rt bbox
  | .spatial op spatial => c.compileSpatial rt spatial ("ST_" ++ op.name)
  | .dwithin dwithin => c.compileDWithin rt dwithin
  | .temporal op t => c.compileTemporal op t

end Predicates

end Compiler

end NeoServer.Wfs.Fes
