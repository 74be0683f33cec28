import Mathlib.Data.List.Basic
import NeoServer.Text

/-!
# Wcs.Request — the parameters of GetCoverage

A GetCoverage request names subsets of the axes, range components, a scaling, an interpolation,
a CRS and a format. The functions here read one kind of parameter each; `Wcs.Plan` puts them
together.

- `Env` : floating-point numbers, CRS and time parsing, and the transformations of GDAL,
- `classifySubsets`, `dimensionSelection` : SUBSET, on the spatial axes and on the dimensions,
- `parseSubsets` : the window of the native grid,
- `parseRangeSubset` : RANGESUBSET, as band numbers,
- `parseScaling` : SCALEFACTOR, SCALEAXES, SCALESIZE and SCALEEXTENT.

Sizes and offsets are `int`, of 64 bits.
-/

namespace NeoServer.Wcs

/-! ## Data -/

abbrev BBox (F : Type) := F × F × F × F

structure CoverageBand where
  band : Int64
  name : Str
  description : Str
  definition : Str
  uom : Str
  nilValues : List Str
deriving DecidableEq, Repr

structure CoverageInfo (F : Type) where
  crs : Str
  srid : Int
  axisLabels : Str × Str
  width : Int64
  height : Int64
  originX : F
  originY : F
  resolutionX : F
  resolutionY : F
  envelope : BBox F
  bands : List CoverageBand

structure CoverageWindow where
  xOff : Int64 := 0
  yOff : Int64 := 0
  width : Int64
  height : Int64
  gridLowX : Int64 := 0
  gridLowY : Int64 := 0
deriving DecidableEq, Repr

structure CoverageRangeField where
  band : Int64
  name : Str
  description : Str
  definition : Str
  uom : Str
  nilValues : Option (List Str)
deriving DecidableEq, Repr

structure Dimension where
  name : Str
  sourceAxis : Str
  default : Str
deriving DecidableEq, Repr

/-- What a request reads of a published coverage. -/
structure Coverage where
  publicID : Str
  rangeFields : List CoverageRangeField
  dimensions : List Dimension
  resampling : Str
deriving DecidableEq, Repr

inductive Extension
  | rangeSubset | scaling | crs | interpolation | multidim
deriving DecidableEq, Repr

/-- The names of the extensions in messages. -/
def Extension.name : Extension → Str
  | .rangeSubset => "range-subsetting"
  | .scaling => "scaling"
  | .crs => "crs"
  | .interpolation => "interpolation"
  | .multidim => "multidimensional"

structure CapabilityRegistry where
  extensions : List Extension
  formats : List Str
  interpolation : List Str
  subsettingCRS : List Str
  outputCRS : List Str
deriving DecidableEq, Repr

def CapabilityRegistry.enabled (c : CapabilityRegistry) (e : Extension) : Bool := e ∈ c.extensions

/-- What the code takes from its environment: floating-point numbers (`eps` is `1e-9`), Unicode,
`crs.Parse`, `time.Parse` and GDAL. Errors of GDAL are texts. -/
structure Env (F : Type) where
  parse : Str → Option F
  ofInt : Int64 → F
  toInt : F → Int64
  add : F → F → F
  sub : F → F → F
  mul : F → F → F
  div : F → F → F
  neg : F → F
  abs : F → F
  min : F → F → F
  max : F → F → F
  round : F → F
  ceil : F → F
  floor : F → F
  eps : F
  le : F → F → Bool
  lt : F → F → Bool
  isInf : F → Bool
  isNaN : F → Bool
  lower : Char → Char
  fold : Char → Char
  parseCRS : Str → Option Int
  -- RFC 3339, and a date alone
  parseInstant : Str → Option Int
  isDate : Str → Bool
  transformBBox : BBox F → Str → Str → Except Str (BBox F)
  transformBBox_parses : ∀ {bbox : BBox F} {source target : Str} {result : BBox F},
    transformBBox bbox source target = .ok result →
      (parseCRS source).isSome ∧ (parseCRS target).isSome
  -- the window of the native grid under a box in another CRS, if there is one
  nativeWindow : CoverageInfo F → Str → BBox F → Except Str (Option CoverageWindow)

/-- The values of a parameter, in order. Names are in upper case. -/
abbrev Values := Str → List Str

/-- `url.Values.Get`, without the blanks around it. -/
def Values.get (q : Values) (name : String) : Str := trimSpace ((q name.toList).headD [])

/-! ## Errors -/

inductive ExceptionCode
  | operationNotSupported | invalidParameterValue | invalidAxisLabel | invalidSubsetting
deriving DecidableEq, Repr

structure RequestError where
  code : ExceptionCode
  locator : Str
  text : Str
deriving DecidableEq, Repr

def invalid (name : String) (text : Str) : RequestError := ⟨.invalidParameterValue, name.toList, text⟩

def invalidAxis (text : Str) : RequestError := ⟨.invalidAxisLabel, "subset", text⟩

def invalidSubsetting (text : String) : RequestError := ⟨.invalidSubsetting, "subset", text.toList⟩

def extensionDisabled (locator : Str) (e : Extension) : RequestError :=
  ⟨.operationNotSupported, locator, "WCS extension " ++ e.name ++ " is not enabled"⟩

section

variable {F : Type} (env : Env F)

/-! ## Texts -/

def Env.toLower (s : Str) : Str := s.map env.lower

/-- `strings.EqualFold`. -/
def Env.equalFold (s t : Str) : Bool := s.map env.fold = t.map env.fold

def sameCRS (a b : Str) : Bool :=
  match env.parseCRS a, env.parseCRS b with
  | some ac, some bc => ac = bc
  | _, _ => false

def allowedCRS (value native : Str) (allowed : List Str) : Bool :=
  sameCRS env value native || allowed.any fun candidate => sameCRS env value candidate

/-- `strings.Trim(value, "\"'")`. -/
def trimQuotes (s : Str) : Str :=
  let isQuote := fun c => c = '"' || c = '\''
  ((s.dropWhile isQuote).reverse.dropWhile isQuote).reverse

def unquote (value : Str) : Str := trimQuotes (trimSpace value)

/-- The scan of `splitTopLevel`: the quote that is open, the depth, and the part so far. -/
def splitTopLevelFrom (separator : Char) : Option Char → Int → Str → Str → List Str
  | _, _, part, [] => [trimSpace part]
  | some quote, depth, part, c :: rest =>
    splitTopLevelFrom separator (if c = quote then none else some quote) depth (part ++ [c]) rest
  | none, depth, part, c :: rest =>
    if c = '\'' ∨ c = '"' then splitTopLevelFrom separator (some c) depth (part ++ [c]) rest
    else if c = '(' then splitTopLevelFrom separator none (depth + 1) (part ++ [c]) rest
    else if c = ')' then splitTopLevelFrom separator none (depth - 1) (part ++ [c]) rest
    else if c = separator ∧ depth = 0 then trimSpace part :: splitTopLevelFrom separator none 0 [] rest
    else splitTopLevelFrom separator none depth (part ++ [c]) rest

def splitTopLevel (value : Str) (separator : Char) : List Str :=
  splitTopLevelFrom separator none 0 [] value

/-- What stands before the first parenthesis, and what up to the last, which ends the text. -/
def cutParens (raw : Str) : Option (Str × Str) :=
  match cutFirst '(' raw with
  | some (c :: before, rest) =>
    if rest.getLast? = some ')' then some (c :: before, rest.dropLast) else none
  | _ => none

/-! ## Subsets -/

structure RawSubset where
  axis : Str
  low : Str
  high : Str
  slice : Bool
deriving DecidableEq, Repr

def parseRawSubset (raw : Str) : Except Str RawSubset :=
  match cutParens (trimSpace raw) with
  | none => .error "invalid subset syntax"
  | some (before, inside) =>
    match splitTopLevel inside ',' with
    | [low] =>
      if trimSpace low = [] then .error "invalid subset bounds"
      else .ok ⟨trimSpace before, trimSpace low, trimSpace low, true⟩
    | [low, high] =>
      if trimSpace low = [] then .error "invalid subset bounds"
      else if trimSpace high = [] then .error "invalid subset bounds"
      else .ok ⟨trimSpace before, trimSpace low, trimSpace high, false⟩
    | _ => .error "invalid subset bounds"

/-- The number of a spatial axis; the first of two with one label. -/
def spatialAxis (name : Str) (info : CoverageInfo F) : Option Nat :=
  if env.equalFold name info.axisLabels.1 then some 0
  else if env.equalFold name info.axisLabels.2 then some 1
  else none

def dimensionForAxis (coverage : Coverage) (name : Str) : Option Dimension :=
  coverage.dimensions.find? fun d =>
    env.equalFold d.name name || (d.sourceAxis ≠ [] && env.equalFold d.sourceAxis name)

def isTime (d : Dimension) : Bool := env.equalFold d.name "time"

def isElevation (d : Dimension) : Bool := env.equalFold d.name "elevation"

def validCoordinate (d : Dimension) (value : Str) : Except RequestError Unit :=
  if isTime env d then
    if (env.parseInstant (unquote value)).isSome ∨ env.isDate (unquote value) then .ok ()
    else .error (invalid "subset" "invalid time coordinate")
  else if isElevation env d ∧ env.parse (unquote value) = none then
    .error (invalid "subset" "invalid elevation coordinate")
  else .ok ()

def validateDimensionSubset (subset : RawSubset) (d : Dimension) : Except RequestError Unit := do
  validCoordinate env d subset.low
  if subset.slice then .ok () else validCoordinate env d subset.high

/-- A subset of a dimension, under the name of its axis in the source. -/
def classifyDimension (coverage : Coverage) (caps : CapabilityRegistry) (subset : RawSubset) :
    Except RequestError RawSubset :=
  match dimensionForAxis env coverage subset.axis with
  | none => .error (invalidAxis ("unknown subset axis " ++ subset.axis))
  | some d =>
    if caps.enabled .multidim = false then .error (extensionDisabled "subset" .multidim)
    else do
      validateDimensionSubset env subset d
      .ok { subset with axis := if d.sourceAxis ≠ [] then d.sourceAxis else subset.axis }

/-- The loop of `classifySubsets`, with the axes that have been seen. The spatial subsets and those
of dimensions are in the order of the request. -/
def classifySubsetsFrom (info : CoverageInfo F) (coverage : Coverage) (caps : CapabilityRegistry) :
    List Str → List Str → Except RequestError (List RawSubset × List RawSubset)
  | _, [] => .ok ([], [])
  | seen, value :: values =>
    match parseRawSubset value with
    | .error text => .error (invalid "subset" text)
    | .ok subset =>
      if env.toLower subset.axis ∈ seen then
        .error (invalidAxis ("duplicate subset axis " ++ subset.axis))
      else
        match spatialAxis env subset.axis info with
        | some _ => do
            let (spatial, dimensions) ←
              classifySubsetsFrom info coverage caps (env.toLower subset.axis :: seen) values
            .ok (subset :: spatial, dimensions)
        | none => do
            let dimension ← classifyDimension env coverage caps subset
            let (spatial, dimensions) ←
              classifySubsetsFrom info coverage caps (env.toLower subset.axis :: seen) values
            .ok (spatial, dimension :: dimensions)

def classifySubsets (values : List Str) (info : CoverageInfo F) (coverage : Coverage)
    (caps : CapabilityRegistry) : Except RequestError (List RawSubset × List RawSubset) :=
  classifySubsetsFrom env info coverage caps [] values

def RawSubset.value (subset : RawSubset) : Str :=
  if subset.slice then unquote subset.low
  else unquote subset.low ++ "/" ++ unquote subset.high

/-- Time and elevation, and the names that have been selected. -/
structure Selection where
  time : Str := []
  elevation : Str := []
  selected : List Str := []
deriving DecidableEq, Repr

def Selection.select (s : Selection) (env : Env F) (coverage : Coverage) (subset : RawSubset) : Selection :=
  match dimensionForAxis env coverage subset.axis with
  | none => { s with selected := env.toLower subset.axis :: s.selected }
  | some d =>
    { time := if isTime env d then subset.value else s.time
      elevation := if isTime env d = false ∧ isElevation env d then subset.value else s.elevation
      selected := env.toLower subset.axis :: env.toLower d.name :: env.toLower d.sourceAxis :: s.selected }

def Selection.applyDefault (s : Selection) (env : Env F) (d : Dimension) : Selection :=
  if env.toLower d.name ∈ s.selected ∨ d.default = [] then s
  else if isTime env d then { s with time := d.default }
  else if isElevation env d then { s with elevation := d.default }
  else s

def dimensionSelection (subsets : List RawSubset) (coverage : Coverage) : Str × Str :=
  let s : Selection := subsets.foldl (fun s subset => s.select env coverage subset) {}
  let s : Selection := coverage.dimensions.foldl (fun s d => s.applyDefault env d) s
  (s.time, s.elevation)

def hasRawSubset (values : List RawSubset) (axis : Str) : Bool :=
  values.any fun value => env.equalFold value.axis axis

/-- The defaults of dimensions that the request has not selected. -/
def withDefaults (coverage : Coverage) (subsets : List RawSubset) : List RawSubset :=
  coverage.dimensions.foldl (fun subsets d =>
    if d.default = [] ∨ hasRawSubset env subsets d.name ∨
        (d.sourceAxis ≠ [] ∧ hasRawSubset env subsets d.sourceAxis) then subsets
    else
      subsets ++ [⟨if d.sourceAxis = [] then d.name else d.sourceAxis, d.default, d.default, true⟩]) subsets

def subsetText (subset : RawSubset) : Str :=
  if subset.slice then subset.axis ++ "(" ++ subset.low ++ ")"
  else subset.axis ++ "(" ++ subset.low ++ "," ++ subset.high ++ ")"

structure AxisSubset (F : Type) where
  axis : Str
  low : F
  high : F
  slice : Bool

def parseCoordinate (value : Str) : Except Str F :=
  match env.parse (unquote value) with
  | some x => .ok x
  | none => .error "invalid subset coordinate"

def parseSubset (raw : Str) : Except Str (AxisSubset F) :=
  match cutParens (trimSpace raw) with
  | none => .error "invalid subset syntax"
  | some (before, inside) =>
    match splitChar ',' inside with
    | [low] => do
        let low ← parseCoordinate env low
        .ok ⟨trimSpace before, low, low, true⟩
    | [low, high] => do
        let low ← parseCoordinate env low
        let high ← parseCoordinate env high
        .ok ⟨trimSpace before, low, high, false⟩
    | _ => .error "invalid subset bounds"

/-- The number of an axis; the last of two with one label. -/
def lastAxis (name : Str) (info : CoverageInfo F) : Option Nat :=
  if env.equalFold name info.axisLabels.2 then some 1
  else if env.equalFold name info.axisLabels.1 then some 0
  else none

/-- The first and the last cell of a subset. -/
def cells (origin resolution : F) (sub : AxisSubset F) : Except RequestError (Int64 × Int64) :=
  let center := env.add origin (env.div resolution (env.ofInt 2))
  if sub.slice then
    let nearest := env.round (env.div (env.sub sub.low center) resolution)
    let tolerance := env.mul env.eps (env.abs resolution)
    if env.lt tolerance (env.abs (env.sub (env.add center (env.mul nearest resolution)) sub.low)) then
      .error (invalidSubsetting "slice does not resolve to a grid coordinate")
    else .ok (env.toInt nearest, env.toInt nearest)
  else if env.lt sub.high sub.low then
    .error (invalidSubsetting "trim lower bound exceeds upper bound")
  else
    let a := env.div (env.sub sub.low center) resolution
    let b := env.div (env.sub sub.high center) resolution
    let (a, b) := if env.lt b a then (b, a) else (a, b)
    .ok (env.toInt (env.ceil (env.sub a env.eps)), env.toInt (env.floor (env.add b env.eps)))

/-- One subset, on a window and the axes that have been seen. -/
def applySubset (info : CoverageInfo F) (seen : List Nat) (window : CoverageWindow) (raw : Str) :
    Except RequestError (List Nat × CoverageWindow) :=
  match parseSubset env raw with
  | .error text => .error (invalid "subset" text)
  | .ok sub =>
    match lastAxis env sub.axis info with
    | none => .error (invalidAxis ("unknown subset axis " ++ sub.axis))
    | some axis =>
      if axis ∈ seen then .error (invalidAxis ("duplicate subset axis " ++ sub.axis))
      else do
        let (origin, resolution, size) :=
          if axis = 1 then (info.originY, info.resolutionY, info.height)
          else (info.originX, info.resolutionX, info.width)
        let (first, last) ← cells env origin resolution sub
        if first < 0 ∨ size ≤ last ∨ last < first then
          .error (invalidSubsetting "subset is outside the coverage domain")
        else if axis = 0 then
          .ok (axis :: seen, { window with xOff := first, width := last - first + 1 })
        else .ok (axis :: seen, { window with yOff := first, height := last - first + 1 })

def parseSubsetsFrom (info : CoverageInfo F) :
    List Nat → CoverageWindow → List Str → Except RequestError CoverageWindow
  | _, window, [] => .ok window
  | seen, window, raw :: values => do
      let (seen, window) ← applySubset env info seen window raw
      parseSubsetsFrom info seen window values

def parseSubsets (values : List Str) (info : CoverageInfo F) : Except RequestError CoverageWindow :=
  parseSubsetsFrom env info [] { width := info.width, height := info.height } values

/-! ## Range components -/

def effectiveBand (coverage : Coverage) (band : CoverageBand) (index : Nat) : CoverageBand :=
  match coverage.rangeFields[index]? with
  | none => band
  | some o =>
    if o.band ≠ 0 ∧ o.band ≠ band.band then band
    else
      { band with
        name := if o.name ≠ [] then o.name else band.name
        description := if o.description ≠ [] then o.description else band.description
        definition := if o.definition ≠ [] then o.definition else band.definition
        uom := if o.uom ≠ [] then o.uom else band.uom
        nilValues := o.nilValues.getD band.nilValues }

/-- The numbers of all bands, from 1. -/
def allBands (info : CoverageInfo F) : List Nat := (List.range info.bands.length).map (· + 1)

def bandNames (info : CoverageInfo F) (coverage : Coverage) : List Str :=
  info.bands.mapIdx fun i band => (effectiveBand coverage band i).name

structure RangeSelection where
  start : Str
  stop : Str
deriving DecidableEq, Repr

/-- Start and end of a component or an interval of them. -/
def parseInterval (names : List Str) (token : Str) : Except RequestError (Nat × Nat × RangeSelection) :=
  match splitChar ':' (trimSpace token) with
  | [start] =>
    if trimSpace start = [] then .error (invalid "rangeSubset" "invalid range component interval")
    else
      match names.idxOf? (trimSpace start) with
      | none => .error (invalid "rangeSubset" ("unknown range component " ++ trimSpace start))
      | some i => .ok (i, i, ⟨names.getD i [], []⟩)
  | [start, stop] =>
    if trimSpace start = [] then .error (invalid "rangeSubset" "invalid range component interval")
    else
      match names.idxOf? (trimSpace start) with
      | none => .error (invalid "rangeSubset" ("unknown range component " ++ trimSpace start))
      | some i =>
        match names.idxOf? (trimSpace stop) with
        | none =>
          .error (invalid "rangeSubset" "range component interval is reversed or unknown")
        | some j =>
          if j < i then
            .error (invalid "rangeSubset" "range component interval is reversed or unknown")
          else .ok (i, j, ⟨names.getD i [], names.getD j []⟩)
  | _ => .error (invalid "rangeSubset" "invalid range component interval")

/-- The bands of an interval, none of which has been selected before. -/
def addBands (names : List Str) (bands : List Nat) : List Nat → Except RequestError (List Nat)
  | [] => .ok bands
  | i :: rest =>
    if i + 1 ∈ bands then .error (invalid "rangeSubset" ("duplicate range component " ++ names.getD i []))
    else addBands names (bands ++ [i + 1]) rest

def parseIntervals (names : List Str) (bands : List Nat) :
    List Str → Except RequestError (List Nat × List RangeSelection)
  | [] => .ok (bands, [])
  | token :: tokens => do
      let (start, stop, selection) ← parseInterval names token
      let bands ← addBands names bands (List.range' start (stop + 1 - start))
      let (bands, selections) ← parseIntervals names bands tokens
      .ok (bands, selection :: selections)

def parseRangeSubset (q : Values) (info : CoverageInfo F) (coverage : Coverage) (caps : CapabilityRegistry) :
    Except RequestError (List Nat × List RangeSelection) :=
  match q "RANGESUBSET" with
  | [] => .ok (allBands info, [])
  | value :: more =>
    if trimSpace value = [] then .ok (allBands info, [])
    else if caps.enabled .rangeSubset = false then
      .error (extensionDisabled "rangeSubset" .rangeSubset)
    else if more ≠ [] then .error (invalid "rangeSubset" "RANGESUBSET may occur only once")
    else parseIntervals (bandNames info coverage) [] (splitTopLevel value ',')

/-! ## Scaling -/

inductive ScaleMode
  | none | factor | axes | size | extent
deriving DecidableEq, Repr

structure ScaleAxis (F : Type) where
  axis : Str
  factor : Option F := .none
  size : Int64 := 0
  low : Int64 := 0
  high : Int64 := 0

structure CoverageScaling (F : Type) where
  mode : ScaleMode := .none
  factor : Option F := .none
  axes : List (ScaleAxis F) := []

/-- The parameters, in the order in which they are looked for. -/
def scaleParameters : List (String × ScaleMode) :=
  [("SCALEFACTOR", .factor), ("SCALEAXES", .axes), ("SCALESIZE", .size), ("SCALEEXTENT", .extent)]

/-- The parameter has a value that is not blank. -/
def Values.gives (q : Values) (name : String) : Bool := q.get name ≠ []

def selectScaling (q : Values) :
    Option (String × ScaleMode) → List (String × ScaleMode) →
      Except RequestError (Option (String × ScaleMode))
  | selected, [] => .ok selected
  | selected, p :: rest =>
    if q.gives p.1 then
      if selected ≠ none ∨ (q p.1.toList).length ≠ 1 then
        .error (invalid "scaling" "exactly one scaling method may be supplied")
      else selectScaling q (some p) rest
    else selectScaling q selected rest

def gridAxis (name : Str) (info : CoverageInfo F) : Option Nat :=
  if env.equalFold name "i" || env.equalFold name info.axisLabels.1 then some 0
  else if env.equalFold name "j" || env.equalFold name info.axisLabels.2 then some 1
  else none

/-- A positive finite number. -/
def parseFactor (raw : Str) : Option F :=
  match env.parse raw with
  | none => none
  | some factor =>
    if env.le factor (env.ofInt 0) || env.isInf factor || env.isNaN factor then none else some factor

def scaledDimension (size : Int64) (factor : F) : Option Int64 :=
  let value := env.round (env.mul (env.ofInt size) factor)
  if env.isInf value || env.isNaN value || env.lt (env.ofInt 9223372036854775807) value then none
  else some (if env.toInt value < 1 then 1 else env.toInt value)

/-- `strconv.Atoi`, as a machine integer. -/
def atoi64 (s : Str) : Option Int64 := (atoi s).map Int64.ofInt

/-- The size of an axis and the low corner of the grid there. -/
structure AxisGrid where
  size : Int64
  low : Int64
deriving DecidableEq, Repr

/-- The grid of an axis under the value of a scaling parameter. -/
def scaleAxis (mode : ScaleMode) (name value : Str) (axis : Nat) (old : AxisGrid) :
    Except RequestError (ScaleAxis F × AxisGrid) :=
  match mode with
  | .axes =>
    match parseFactor env value with
    | none => .error (invalid "scaleAxes" "axis scale factor must be positive")
    | some factor =>
      match scaledDimension env old.size factor with
      | none =>
        .error (invalid "scaleAxes"
          (if axis = 0 then "scaled width is too large".toList else "scaled height is too large".toList))
      | some size => .ok ({ axis := name, factor := factor }, { old with size := size })
  | .size =>
    match atoi64 value with
    | none => .error (invalid "scaleSize" "axis size must be positive")
    | some size =>
      if size ≤ 0 then .error (invalid "scaleSize" "axis size must be positive")
      else .ok ({ axis := name, size := size }, { old with size := size })
  | .extent =>
    match splitChar ':' value with
    | [lowText, highText] =>
      match atoi64 (trimSpace lowText), atoi64 (trimSpace highText) with
      | some low, some high =>
        if high < low then .error (invalid "scaleExtent" "axis extent is invalid")
        else .ok ({ axis := name, low := low, high := high }, ⟨high - low + 1, low⟩)
      | _, _ => .error (invalid "scaleExtent" "axis extent is invalid")
    | _ => .error (invalid "scaleExtent" "axis extent must contain low:high")
  | _ => .ok ({ axis := name }, old)

def CoverageWindow.axisGrid (w : CoverageWindow) (axis : Nat) : AxisGrid :=
  if axis = 0 then ⟨w.width, w.gridLowX⟩ else ⟨w.height, w.gridLowY⟩

def CoverageWindow.setAxis (w : CoverageWindow) (axis : Nat) (g : AxisGrid) : CoverageWindow :=
  if axis = 0 then { w with width := g.size, gridLowX := g.low }
  else { w with height := g.size, gridLowY := g.low }

/-- The loop over the axes of a scaling parameter, with those that have been seen. -/
def scaleAxes (info : CoverageInfo F) (parameter : String) (mode : ScaleMode) :
    List Nat → CoverageWindow → List Str → Except RequestError (List (ScaleAxis F) × CoverageWindow)
  | _, output, [] => .ok ([], output)
  | seen, output, token :: tokens =>
    match cutParens token with
    | none => .error (invalid parameter "invalid scaling axis syntax")
    | some (before, inside) =>
      match gridAxis env (trimSpace before) info with
      | none =>
        .error (invalid parameter ("unknown or duplicate scaling axis " ++ trimSpace before))
      | some axis =>
        if axis ∈ seen then
          .error (invalid parameter ("unknown or duplicate scaling axis " ++ trimSpace before))
        else do
          let (entry, grid) ←
            scaleAxis env mode (trimSpace before) (trimSpace inside) axis (output.axisGrid axis)
          let (entries, output) ←
            scaleAxes info parameter mode (axis :: seen) (output.setAxis axis grid) tokens
          .ok (entry :: entries, output)

/-- The names of the parameters in errors are in lower case. -/
def locator : ScaleMode → String
  | .axes => "scaleaxes"
  | .size => "scalesize"
  | .extent => "scaleextent"
  | _ => "scalefactor"

def parseScaling (q : Values) (info : CoverageInfo F) (output : CoverageWindow) (caps : CapabilityRegistry) :
    Except RequestError (CoverageScaling F × CoverageWindow) := do
  match ← selectScaling q none scaleParameters with
  | none => .ok ({}, output)
  | some (name, mode) =>
    if caps.enabled .scaling = false then
      .error (extensionDisabled (locator mode).toList .scaling)
    else if mode = .factor then
      match parseFactor env (q.get name) with
      | none => .error (invalid "scaleFactor" "scale factor must be a positive finite number")
      | some factor =>
        match scaledDimension env output.width factor with
        | none => .error (invalid "scaleFactor" "scaled width is too large")
        | some width =>
          match scaledDimension env output.height factor with
          | none => .error (invalid "scaleFactor" "scaled height is too large")
          | some height =>
            .ok ({ mode := .factor, factor := factor }, { output with width := width, height := height })
    else do
      let (axes, output) ← scaleAxes env info (locator mode) mode [] output (splitTopLevel (q.get name) ',')
      .ok ({ mode := mode, axes := axes }, output)

end

end NeoServer.Wcs
