import NeoServer.Wcs.Request

/-!
# Wcs.Plan — how GetCoverage answers

`buildCoveragePlan` turns the parameters into a plan: the window of the native grid to read, the
grid to return, and whether it has to be rendered. If not, the bytes of the source are passed on.

- `buildCoveragePlan` : as in the source, with the assignments to `requiresGrid` one after the other,
- `buildCoveragePlan_ok` : the parts that a plan was built from, and what the flag is in the end.

The handler has looked up the coverage and its metadata before.
-/

namespace NeoServer.Wcs

variable {F : Type}

/-! ## Data -/

/-- A coordinate: a number, an instant, or else a text. -/
inductive AxisValue (F : Type)
  | number (x : F)
  | time (instant : Int)
  | text (s : Str)

structure DomainSubset (F : Type) where
  axis : Str
  low : AxisValue F
  high : AxisValue F
  slice : Bool

structure TargetGrid (F : Type) where
  crs : Str
  bbox : BBox F
  width : Int64
  height : Int64
  gridLowX : Int64
  gridLowY : Int64
  bands : List Nat
  resampling : Str

structure CoverageQuery (F : Type) where
  version : Str
  coverageID : Str
  domainSubsets : List (DomainSubset F)
  rangeSubset : List RangeSelection
  scaling : CoverageScaling F
  subsettingCRS : Str
  outputCRS : Str
  interpolation : Str
  format : Str
  multipart : Bool
  targetGrid : TargetGrid F

structure CoveragePlan (F : Type) where
  query : CoverageQuery F
  source : CoverageWindow
  output : CoverageWindow
  outputInfo : CoverageInfo F
  bands : List Nat
  time : Str
  elevation : Str
  resampling : Str
  nativeCRS : Str
  requiresGrid : Bool

/-! ## The parts -/

section

variable (env : Env F)

def axisValue (value : Str) : AxisValue F :=
  match env.parse (unquote value) with
  | some x => .number x
  | none =>
    match env.parseInstant (unquote value) with
    | some instant => .time instant
    | none => .text (unquote value)

def toDomainSubsets (values : List RawSubset) : List (DomainSubset F) :=
  values.map fun value => ⟨value.axis, axisValue env value.low, axisValue env value.high, value.slice⟩

/-- SUBSETTINGCRS or OUTPUTCRS, if it is given. -/
def checkCRS (name : String) (value native : Str) (allowed : List Str) (caps : CapabilityRegistry)
    (text : String) : Except RequestError Unit :=
  if value = [] then .ok ()
  else if caps.enabled .crs = false then .error (extensionDisabled name.toList .crs)
  else if allowedCRS env value native allowed = false then .error (invalid name text.toList)
  else .ok ()

variable (info : CoverageInfo F)

/-- A subset, as bounds of a box in another CRS. -/
def selectBounds (selected : BBox F) (subset : RawSubset) :
    Except RequestError (BBox F) :=
  let (x1, y1, x2, y2) := selected
  match env.parse (unquote subset.low) with
  | none => .error (invalid "subset" "invalid spatial subset coordinate")
  | some low =>
    let bound : Except RequestError F :=
      if subset.slice then .ok low
      else
        match env.parse (unquote subset.high) with
        | none => .error (invalidSubsetting "invalid spatial trim")
        | some high => if env.lt high low then .error (invalidSubsetting "invalid spatial trim") else .ok high
    bound.bind fun high =>
      if spatialAxis env subset.axis info = some 0 then .ok (low, y1, high, y2) else .ok (x1, low, x2, high)

def selectBox (info : CoverageInfo F) : BBox F → List RawSubset → Except RequestError (BBox F)
  | selected, [] => .ok selected
  | selected, subset :: subsets => do
      let selected ← selectBounds env info selected subset
      selectBox info selected subsets

/-- The window under the subsets, which are in another CRS. -/
def foreignWindow (subsettingCRS : Str) (spatial : List RawSubset) :
    Except RequestError CoverageWindow :=
  match env.transformBBox info.envelope info.crs subsettingCRS with
  | .error text => .error (invalid "subsettingCrs" text)
  | .ok full => do
      let selected ← selectBox env info full spatial
      let (x1, y1, x2, y2) := selected
      if env.le x2 x1 || env.le y2 y1 then
        .error (invalidSubsetting "slice in a non-native CRS does not define a two-dimensional grid")
      else
        match env.nativeWindow info subsettingCRS selected with
        | .error text => .error (invalid "subset" text)
        | .ok none => .error (invalidSubsetting "subset is outside the coverage domain")
        | .ok (some window) => .ok window

/-- The window to read. -/
def sourceWindow (subsettingCRS : Str) (spatial : List RawSubset) :
    Except RequestError CoverageWindow :=
  if spatial = [] then .ok { width := info.width, height := info.height }
  else if sameCRS env subsettingCRS info.crs then parseSubsets env (spatial.map subsetText) info
  else foreignWindow env info subsettingCRS spatial

def windowBBox (window : CoverageWindow) : BBox F :=
  let at' := fun origin offset resolution => env.add origin (env.mul (env.ofInt offset) resolution)
  let x1 := at' info.originX window.xOff info.resolutionX
  let x2 := at' info.originX (window.xOff + window.width) info.resolutionX
  let y1 := at' info.originY window.yOff info.resolutionY
  let y2 := at' info.originY (window.yOff + window.height) info.resolutionY
  (env.min x1 x2, env.min y1 y2, env.max x1 x2, env.max y1 y2)

def hasSuffix (suffix value : Str) : Bool := suffix.reverse.isPrefixOf value.reverse

def canonicalInterpolation (value : Str) : Str :=
  let value := env.toLower (trimSpace value)
  if value = "nearest" ∨ value = "near" ∨ value = "nearest-neighbor" ∨
      hasSuffix "/nearest-neighbor".toList value then "nearest-neighbor".toList
  else if value = "linear" ∨ value = "bilinear" ∨ hasSuffix "/linear" value then
    "linear"
  else value

/-- INTERPOLATION in its canonical form, empty if it is not given. -/
def checkInterpolation (q : Values) (caps : CapabilityRegistry) : Except RequestError Str :=
  if q.get "INTERPOLATION" = [] then .ok []
  else if caps.enabled .interpolation = false then
    .error (extensionDisabled "interpolation" .interpolation)
  else
    let requested := canonicalInterpolation env (q.get "INTERPOLATION")
    if canonicalInterpolation env requested ∈ caps.interpolation then .ok requested
    else .error (invalid "interpolation" "unsupported interpolation method")

def resampling (coverage : Coverage) (interpolation : Str) : Str :=
  let value :=
    if interpolation = "nearest-neighbor".toList then "nearest".toList
    else if interpolation = "linear".toList then "bilinear".toList
    else coverage.resampling
  if value = [] then "bilinear".toList else value

/-- FORMAT, and whether the answer is in parts. -/
def checkFormat (q : Values) (caps : CapabilityRegistry) : Except RequestError (Str × Bool) :=
  let format := env.toLower (q.get "FORMAT")
  let format := if format = [] then "image/tiff".toList else format
  let media := env.toLower (q.get "MEDIATYPE")
  if media ≠ [] ∧ media ≠ "multipart/related" then
    .error (invalid "mediaType" "MEDIATYPE must be multipart/related")
  else
    let multipart : Bool := format = "multipart/related" ∨ media = "multipart/related"
    let format := if multipart then "multipart/related".toList else format
    if env.toLower (trimSpace format) ∈ caps.formats then .ok (format, multipart)
    else .error (invalid "format" "unsupported coverage format")

def outputCoverageInfo (source : CoverageInfo F) (outputCRS : Str) (bbox : BBox F) (window : CoverageWindow)
    (bands : List Nat) (coverage : Coverage) : CoverageInfo F :=
  let (x1, y1, x2, y2) := bbox
  { source with
    crs := outputCRS
    srid := (env.parseCRS outputCRS).getD source.srid
    width := window.width
    height := window.height
    originX := x1
    originY := y2
    resolutionX := env.div (env.sub x2 x1) (env.ofInt window.width)
    resolutionY := env.neg (env.div (env.sub y2 y1) (env.ofInt window.height))
    envelope := bbox
    bands := (bands.filterMap fun number =>
        (source.bands[number - 1]?).map fun band => effectiveBand coverage band (number - 1)).mapIdx
      fun i band => { band with band := Int64.ofNat (i + 1) } }

/-! ## The plan -/

/-- The value of an assignment under a condition. -/
def assignIf (condition value old : Bool) : Bool := if condition then value else old

lemma assignIf_true {condition old : Bool} :
    assignIf condition true old = false ↔ condition = false ∧ old = false := by
  cases condition <;> simp [assignIf]

def buildCoveragePlan (q : Values) (version : Str) (info : CoverageInfo F) (coverage : Coverage)
    (caps : CapabilityRegistry) : Except RequestError (CoveragePlan F) := do
  let (spatial, dimensions) ← classifySubsets env (q "SUBSET") info coverage caps
  let (time, elevation) := dimensionSelection env dimensions coverage
  let dimensions := if caps.enabled .multidim then withDefaults env coverage dimensions else dimensions
  let requiresGrid := assignIf (time ≠ [] ∨ elevation ≠ []) true false
  let requested := q.get "SUBSETTINGCRS"
  checkCRS env "subsettingCrs" requested info.crs caps.subsettingCRS caps "unsupported subsetting CRS"
  -- this overwrites what a selected time or elevation has set
  let requiresGrid := assignIf (requested ≠ []) (!sameCRS env requested info.crs) requiresGrid
  let subsettingCRS := if requested = [] then info.crs else requested
  let source ← sourceWindow env info subsettingCRS spatial
  let requiresGrid := assignIf (spatial ≠ [] ∧ sameCRS env subsettingCRS info.crs = false) true requiresGrid
  let (bands, rangeSubset) ← parseRangeSubset q info coverage caps
  let requiresGrid := assignIf (bands.length ≠ info.bands.length) true requiresGrid
  let requestedOutput := q.get "OUTPUTCRS"
  checkCRS env "outputCrs" requestedOutput info.crs caps.outputCRS caps "unsupported output CRS"
  let requiresGrid :=
    assignIf (requestedOutput ≠ [] ∧ sameCRS env requestedOutput info.crs = false) true requiresGrid
  let outputCRS := if requestedOutput = [] then info.crs else requestedOutput
  let outputBBox ← (env.transformBBox (windowBBox env info source) info.crs outputCRS).mapError (invalid "outputCrs")
  let (scaling, output) ←
    parseScaling env q info { width := source.width, height := source.height } caps
  let requiresGrid := assignIf (scaling.mode ≠ .none) true requiresGrid
  let interpolation ← checkInterpolation env q caps
  let requiresGrid := assignIf (q.gives "INTERPOLATION") true requiresGrid
  let (format, multipart) ← checkFormat env q caps
  let outputInfo := outputCoverageInfo env info outputCRS outputBBox output bands coverage
  .ok
    { query :=
        { version := version
          coverageID := coverage.publicID
          domainSubsets := toDomainSubsets env (spatial ++ dimensions)
          rangeSubset := rangeSubset
          scaling := scaling
          subsettingCRS := requested
          outputCRS := requestedOutput
          interpolation := interpolation
          format := format
          multipart := multipart
          targetGrid :=
            { crs := outputInfo.crs
              bbox := outputInfo.envelope
              width := output.width
              height := output.height
              gridLowX := output.gridLowX
              gridLowY := output.gridLowY
              bands := bands
              resampling := resampling coverage interpolation } }
      source := source
      output := output
      outputInfo := outputInfo
      bands := bands
      time := time
      elevation := elevation
      resampling := resampling coverage interpolation
      nativeCRS := info.crs
      requiresGrid := requiresGrid }

end

/-! ## What a plan comes from -/

variable {q : Values} {ε α : Type} {x : Except ε α} {env : Env F} {info : CoverageInfo F}

lemma bind_eq_ok {β : Type} {f : α → Except ε β} {b : β} :
    (x >>= f) = .ok b ↔ ∃ a, x = .ok a ∧ f a = .ok b := by
  cases x with
  | error | ok => simp [bind, Except.bind]

lemma mapError_eq_ok {ε' : Type} {f : ε → ε'} {a : α} : x.mapError f = .ok a ↔ x = .ok a := by
  cases x with
  | error | ok => simp [Except.mapError]

/-- What sets the flag and is not overwritten. -/
def ForcesGrid (env : Env F) (q : Values) (info : CoverageInfo F) (bands : List Nat) : Prop :=
  (q.gives "SUBSETTINGCRS" ∧ sameCRS env (q.get "SUBSETTINGCRS") info.crs = false) ∨
    bands.length ≠ info.bands.length ∨
    (q.gives "OUTPUTCRS" ∧ sameCRS env (q.get "OUTPUTCRS") info.crs = false) ∨
    (∃ p ∈ scaleParameters, q.gives p.1) ∨ q.gives "INTERPOLATION"

lemma not_forcesGrid {bands} :
    ¬ ForcesGrid env q info bands ↔
      (q.gives "SUBSETTINGCRS" → sameCRS env (q.get "SUBSETTINGCRS") info.crs) ∧
      bands.length = info.bands.length ∧ (q.gives "OUTPUTCRS" → sameCRS env (q.get "OUTPUTCRS") info.crs) ∧
      (∀ p ∈ scaleParameters, q.gives p.1 = false) ∧ q.gives "INTERPOLATION" = false := by
  simp only [ForcesGrid, not_or, not_and, not_exists, Bool.not_eq_false, Bool.not_eq_true, ne_eq, not_not]

lemma selectScaling_ok {ps} :
    ∀ {selected result}, selectScaling q selected ps = .ok result →
      (result = selected ∧ ∀ p ∈ ps, q.gives p.1 = false) ∨ ∃ p ∈ ps, result = some p ∧ q.gives p.1 := by
  induction ps with
  | nil =>
    rintro selected result ⟨⟩
    exact .inl ⟨rfl, fun p hp => absurd hp List.not_mem_nil⟩
  | cons p ps ih =>
    intro selected result h
    unfold selectScaling at h
    split at h
    · rename_i hgives
      split at h
      · cases h
      -- this is the parameter, or a later one
      rcases ih h with ⟨rfl, _⟩ | ⟨p', hp', hresult, hgives'⟩
      · exact .inr ⟨p, List.mem_cons_self, rfl, hgives⟩
      · exact .inr ⟨p', List.mem_cons_of_mem _ hp', hresult, hgives'⟩
    · rename_i hgives
      rcases ih h with ⟨hresult, hnone⟩ | ⟨p', hp', hresult, hgives'⟩
      · refine .inl ⟨hresult, ?_⟩
        intro p' hp'
        rcases List.mem_cons.mp hp' with rfl | hp'
        · simpa using hgives
        · exact hnone p' hp'
      · exact .inr ⟨p', List.mem_cons_of_mem _ hp', hresult, hgives'⟩

/-- There is a scaling if one of its parameters has a value. -/
lemma mode_of_parseScaling {output output'} {caps} {scaling}
    (h : parseScaling env q info output caps = .ok (scaling, output')) :
    scaling.mode ≠ .none ↔ ∃ p ∈ scaleParameters, q.gives p.1 := by
  have hmodes : ∀ p ∈ scaleParameters, p.2 ≠ .none := by decide
  obtain ⟨selected, hselected, h⟩ := bind_eq_ok.mp h
  rcases selectScaling_ok hselected with ⟨rfl, hnone⟩ | ⟨p, hp, rfl, hgives⟩
  · cases h
    refine iff_of_false (fun hmode => hmode rfl) ?_
    rintro ⟨p, hp, hgives⟩
    rw [hnone p hp] at hgives
    cases hgives
  · refine iff_of_true ?_ ⟨p, hp, hgives⟩
    dsimp only at h
    split at h
    · cases h
    split at h
    · repeat' (split at h)
      all_goals cases h
      exact nofun
    · obtain ⟨⟨axes, output''⟩, _, h⟩ := bind_eq_ok.mp h
      cases h
      exact hmodes _ hp

section

variable {env : Env F} {q : Values} {version : Str} {coverage : Coverage}
  {caps : CapabilityRegistry} {plan : CoveragePlan F}

/-- The parts of a plan. The flag is off if nothing forces the grid, and if no time or elevation is
selected or SUBSETTINGCRS is given. -/
theorem buildCoveragePlan_ok (h : buildCoveragePlan env q version info coverage caps = .ok plan) :
    (∃ spatial dimensions, classifySubsets env (q "SUBSET") info coverage caps = .ok (spatial, dimensions) ∧
      (plan.time, plan.elevation) = dimensionSelection env dimensions coverage) ∧
    (∃ multipart, checkFormat env q caps = .ok (plan.query.format, multipart)) ∧
    (∃ rangeSubset, parseRangeSubset q info coverage caps = .ok (plan.bands, rangeSubset)) ∧
    parseScaling env q info { width := plan.source.width, height := plan.source.height } caps =
      .ok (plan.query.scaling, plan.output) ∧
    (plan.requiresGrid = false ↔ ¬ ForcesGrid env q info plan.bands ∧
      (q.gives "SUBSETTINGCRS" ∨ (plan.time = [] ∧ plan.elevation = []))) := by
  obtain ⟨⟨spatial, dimensions⟩, hsubsets, h⟩ := bind_eq_ok.mp h
  obtain ⟨_, hcrs, h⟩ := bind_eq_ok.mp h
  obtain ⟨source, hsource, h⟩ := bind_eq_ok.mp h
  obtain ⟨⟨bands, rangeSubset⟩, hbands, h⟩ := bind_eq_ok.mp h
  obtain ⟨_, hout, h⟩ := bind_eq_ok.mp h
  obtain ⟨bbox, hbbox, h⟩ := bind_eq_ok.mp h
  obtain ⟨⟨scaling, output⟩, hscaling, h⟩ := bind_eq_ok.mp h
  obtain ⟨interpolation, hinterpolation, h⟩ := bind_eq_ok.mp h
  obtain ⟨⟨format, multipart⟩, hformat, h⟩ := bind_eq_ok.mp h
  cases h
  refine ⟨⟨spatial, dimensions, hsubsets, rfl⟩, ⟨multipart, hformat⟩, ⟨rangeSubset, hbands⟩, hscaling, ?_⟩
  have hmode := mode_of_parseScaling hscaling
  -- the native CRS has been read for the box of the output
  have hnative : sameCRS env info.crs info.crs = true := by
    have hparses := (env.transformBBox_parses (mapError_eq_ok.mp hbbox)).1
    obtain ⟨code, hcode⟩ := Option.isSome_iff_exists.mp hparses
    simp [sameCRS, hcode]
  simp only [assignIf_true, ForcesGrid, hmode, decide_eq_false_iff_not]
  generalize (∃ p ∈ scaleParameters, q.gives p.1 = true) = scaled
  generalize dimensionSelection env dimensions coverage = chosen
  by_cases hsub : q.get "SUBSETTINGCRS" = []
  · -- without SUBSETTINGCRS the selection decides
    simp only [Values.gives, hsub, if_true]
    simp [assignIf, hnative]
    constructor
    · rintro ⟨hi, hs, ho, hb, hc⟩
      exact ⟨⟨hb, ho, hs, hi⟩, hc⟩
    · rintro ⟨⟨hb, ho, hs, hi⟩, hc⟩
      exact ⟨hi, hs, ho, hb, hc⟩
  · -- with it, only whether it is the native CRS
    simp only [Values.gives, hsub, if_false]
    simp [assignIf, hsub]
    constructor
    · rintro ⟨hi, hs, ho, hb, _, hn⟩
      exact ⟨hn, hb, ho, hs, hi⟩
    · rintro ⟨hn, hb, ho, hs, hi⟩
      exact ⟨hi, hs, ho, hb, fun _ => hn, hn⟩

end

end NeoServer.Wcs
