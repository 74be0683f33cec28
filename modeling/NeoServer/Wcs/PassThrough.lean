import NeoServer.Wcs.Plan

/-!
# Wcs.PassThrough — what the native bytes answer

A plan that needs no grid is answered with the bytes of its window, whatever else the request asks
for. So the flag of the plan has to be set by everything that these bytes do not show.

- `executeCoveragePlan` : what the source is asked for, with all that it is told,
- `Exact` : the request asks for nothing but a window of the native grid,
- `passThrough_exact_iff` : when the bytes are what the request asks for.

Two kinds of request are passed through and should not be: a time or an elevation together with
SUBSETTINGCRS, which takes the flag back, and all components in another order.
-/

namespace NeoServer.Wcs

variable {F : Type}

/-! ## Execution -/

/-- The request to a source that renders. -/
structure CoverageRenderRequest (F : Type) where
  targetCRS : Str
  bbox : BBox F
  width : Int64
  height : Int64
  bands : List Nat
  resampling : Str
  time : Str
  elevation : Str

/-- The call of the source: a query to a generalized source, the bytes or the raster of a window,
or a grid. -/
inductive SourceCall (F : Type)
  | executeCoverage (query : CoverageQuery F)
  | extractCoverage (window : CoverageWindow)
  | readCoverage (window : CoverageWindow)
  | renderCoverage (request : CoverageRenderRequest F)

/-- The call that `executeCoveragePlan` makes, where the source renders. -/
def executeCoveragePlan (generalized : Bool) (plan : CoveragePlan F) : SourceCall F :=
  if generalized then .executeCoverage plan.query
  else if plan.requiresGrid = false ∧ plan.query.format = "image/tiff" then
    .extractCoverage plan.source
  else if plan.requiresGrid = false ∧ plan.query.format = "multipart/related" then
    .extractCoverage plan.source
  else if plan.requiresGrid = false ∧ plan.query.format = "application/gml+xml" then
    .readCoverage plan.source
  else
    .renderCoverage
      { targetCRS := plan.outputInfo.crs
        bbox := plan.outputInfo.envelope
        width := plan.output.width
        height := plan.output.height
        bands := plan.bands
        resampling := plan.resampling
        time := plan.time
        elevation := plan.elevation }

/-- The source is asked for a window of its native grid. -/
def SourceCall.isNative : SourceCall F → Bool
  | .extractCoverage _ => true
  | .readCoverage _ => true
  | _ => false

/-- The native pass-through. -/
def CoveragePlan.passesThrough (plan : CoveragePlan F) : Bool := (executeCoveragePlan false plan).isNative

/-- The formats that do not need a grid. -/
def nativeFormats : List Str :=
  ["image/tiff", "multipart/related", "application/gml+xml"]

lemma passesThrough_iff {plan : CoveragePlan F} :
    plan.passesThrough ↔ plan.requiresGrid = false ∧ plan.query.format ∈ nativeFormats := by
  simp only [CoveragePlan.passesThrough, executeCoveragePlan, nativeFormats, List.mem_cons, List.not_mem_nil,
    or_false, Bool.false_eq_true, if_false]
  generalize "image/tiff" = tiff
  generalize "multipart/related" = parts
  generalize "application/gml+xml" = gml
  split
  · rename_i h
    exact iff_of_true rfl ⟨h.1, .inl h.2⟩
  split
  · rename_i h
    exact iff_of_true rfl ⟨h.1, .inr (.inl h.2)⟩
  split
  · rename_i h
    exact iff_of_true rfl ⟨h.1, .inr (.inr h.2)⟩
  rename_i htiff hparts hgml
  refine iff_of_false (by simp [SourceCall.isNative]) ?_
  rintro ⟨hgrid, hformat | hformat | hformat⟩
  · exact htiff ⟨hgrid, hformat⟩
  · exact hparts ⟨hgrid, hformat⟩
  · exact hgml ⟨hgrid, hformat⟩

/-! ## What the request asks for -/

variable (env : Env F) (q : Values) (info : CoverageInfo F) (coverage : Coverage)

/-- A subset of the request is one of time or elevation. -/
def SelectsDimension : Prop :=
  ∃ value ∈ q "SUBSET", ∃ subset d, parseRawSubset value = .ok subset ∧
    spatialAxis env subset.axis info = none ∧ dimensionForAxis env coverage subset.axis = some d ∧
      (isTime env d ∨ isElevation env d)

/-- Nothing but a window of the native grid: no time and no elevation, not by a default either, all
components in their order, no scaling, no interpolation and no other CRS. -/
structure Exact (env : Env F) (q : Values) (info : CoverageInfo F) (coverage : Coverage)
    (plan : CoveragePlan F) : Prop where
  subsets : ¬ SelectsDimension env q info coverage
  time : plan.time = []
  elevation : plan.elevation = []
  bands : plan.bands = allBands info
  scaling : ∀ p ∈ scaleParameters, q.gives p.1 = false
  interpolation : q.gives "INTERPOLATION" = false
  outputCRS : q.gives "OUTPUTCRS" → sameCRS env (q.get "OUTPUTCRS") info.crs

variable (caps : CapabilityRegistry)

/-- The subsets of the request or the defaults of the dimensions give a time or an elevation. -/
def ChoosesDimension : Prop :=
  ∃ spatial dimensions, classifySubsets env (q "SUBSET") info coverage caps = .ok (spatial, dimensions) ∧
    dimensionSelection env dimensions coverage ≠ ([], [])

/-- The format of the request is one of those that do not need a grid. -/
def NativeFormat : Prop :=
  ∃ format ∈ nativeFormats, ∃ multipart, checkFormat env q caps = .ok (format, multipart)

/-- The components that the request lists, or all of them. -/
def RequestsBands (bands : List Nat) : Prop :=
  ∃ rangeSubset, parseRangeSubset q info coverage caps = .ok (bands, rangeSubset)

/-- A time or an elevation comes without SUBSETTINGCRS, and without them all components come in
their order. Where the request needs a grid for another reason, or in its format, it is free. -/
def KeepsFlag : Prop :=
  ¬ NativeFormat env q caps ∨ (∃ bands, RequestsBands q info coverage caps bands ∧ ForcesGrid env q info bands) ∨
    (ChoosesDimension env q info coverage caps ∧ q.gives "SUBSETTINGCRS" = false) ∨
    (¬ ChoosesDimension env q info coverage caps ∧ ¬ SelectsDimension env q info coverage ∧
      RequestsBands q info coverage caps (allBands info))

/-! ## A coverage with two bands and a time -/

/-- Whole numbers, one CRS, and every text is an instant. -/
def plainEnv : Env Int where
  parse := atoi
  ofInt := Int64.toInt
  toInt := Int64.ofInt
  add := (· + ·)
  sub := (· - ·)
  mul := (· * ·)
  div := (· / ·)
  neg := (- ·)
  abs := fun x => max x (-x)
  min := min
  max := max
  round := id
  ceil := id
  floor := id
  eps := 0
  le := fun x y => x ≤ y
  lt := fun x y => x < y
  isInf := fun _ => false
  isNaN := fun _ => false
  lower := id
  fold := id
  parseCRS := fun s => if s = "EPSG:4326" then some 4326 else none
  parseInstant := fun s => if s = [] then none else some 0
  isDate := fun _ => false
  transformBBox := fun bbox source target =>
    if source = "EPSG:4326" ∧ target = "EPSG:4326" then .ok bbox
    else .error "unsupported"
  transformBBox_parses := by
    intro bbox source target result h
    split at h
    · rename_i hcrs
      simp [hcrs]
    · cases h
  nativeWindow := fun _ _ _ => .ok none

def plainBand (band : Int64) (name : String) : CoverageBand := ⟨band, name.toList, [], [], [], []⟩

/-- Two bands on a grid of ten by ten. -/
def plainInfo : CoverageInfo Int where
  crs := "EPSG:4326"
  srid := 4326
  axisLabels := ("x", "y")
  width := 10
  height := 10
  originX := 0
  originY := 10
  resolutionX := 1
  resolutionY := -1
  envelope := (0, 0, 10, 10)
  bands := [plainBand 1 "red", plainBand 2 "nir"]

def timedCoverage : Coverage where
  publicID := "scene"
  rangeFields := []
  dimensions := [⟨"time", [], []⟩]
  resampling := []

def allExtensions : CapabilityRegistry where
  extensions := [.rangeSubset, .scaling, .crs, .interpolation, .multidim]
  formats := ["image/tiff"]
  interpolation := []
  subsettingCRS := []
  outputCRS := []

/-- One value for each name. -/
def valuesOf (pairs : List (String × String)) : Values := fun name =>
  (pairs.filter fun p => p.1.toList = name).map fun p => p.2.toList

/-! ## When the flag is kept -/

section

variable {env : Env F} {q : Values} {version : Str} {info : CoverageInfo F} {coverage : Coverage}
  {caps : CapabilityRegistry} {plan : CoveragePlan F}

section

variable (h : buildCoveragePlan env q version info coverage caps = .ok plan)

include h

lemma choosesDimension_iff :
    ChoosesDimension env q info coverage caps ↔ ¬ (plan.time = [] ∧ plan.elevation = []) := by
  obtain ⟨spatial, dimensions, hsubsets, hchosen⟩ := (buildCoveragePlan_ok h).1
  have hempty : (plan.time, plan.elevation) = ([], []) ↔ plan.time = [] ∧ plan.elevation = [] := by
    rw [Prod.mk.injEq]
  rw [← hempty, hchosen]
  constructor
  · rintro ⟨spatial', dimensions', hsubsets', hne⟩
    rw [hsubsets] at hsubsets'
    cases hsubsets'
    exact hne
  · intro hne
    exact ⟨spatial, dimensions, hsubsets, hne⟩

lemma nativeFormat_iff : NativeFormat env q caps ↔ plan.query.format ∈ nativeFormats := by
  obtain ⟨multipart, hformat⟩ := (buildCoveragePlan_ok h).2.1
  constructor
  · rintro ⟨format, hmem, multipart', hformat'⟩
    rw [hformat] at hformat'
    cases hformat'
    exact hmem
  · intro hmem
    exact ⟨_, hmem, multipart, hformat⟩

lemma requestsBands_iff {bands} :
    RequestsBands q info coverage caps bands ↔ plan.bands = bands := by
  obtain ⟨rangeSubset, hbands⟩ := (buildCoveragePlan_ok h).2.2.1
  constructor
  · rintro ⟨rangeSubset', hbands'⟩
    rw [hbands] at hbands'
    cases hbands'
    rfl
  · rintro rfl
    exact ⟨rangeSubset, hbands⟩

lemma requiresGrid_iff :
    plan.requiresGrid = false ↔ ¬ ForcesGrid env q info plan.bands ∧
      (q.gives "SUBSETTINGCRS" ∨ ¬ ChoosesDimension env q info coverage caps) := by
  rw [(buildCoveragePlan_ok h).2.2.2.2, choosesDimension_iff h, not_not]

end

/-- A plan without a grid is exact if the request has kept the flag. -/
theorem passThrough_exact_iff (h : buildCoveragePlan env q version info coverage caps = .ok plan) :
    (plan.passesThrough → Exact env q info coverage plan) ↔ KeepsFlag env q info coverage caps := by
  have hforces : (∃ bands, RequestsBands q info coverage caps bands ∧ ForcesGrid env q info bands) ↔
      ForcesGrid env q info plan.bands := by
    simp only [requestsBands_iff h, exists_eq_left']
  rw [passesThrough_iff, requiresGrid_iff h, KeepsFlag, nativeFormat_iff h, hforces, requestsBands_iff h]
  constructor
  · intro hexact
    by_cases hformat : plan.query.format ∈ nativeFormats
    · by_cases hforced : ForcesGrid env q info plan.bands
      · exact .inr (.inl hforced)
      by_cases hchosen : ChoosesDimension env q info coverage caps
      · refine .inr (.inr (.inl ⟨hchosen, ?_⟩))
        -- with SUBSETTINGCRS the plan would pass through
        by_contra hgives
        have hplan := hexact ⟨⟨hforced, .inl (by simpa using hgives)⟩, hformat⟩
        exact (choosesDimension_iff h).mp hchosen ⟨hplan.time, hplan.elevation⟩
      · have hplan := hexact ⟨⟨hforced, .inr hchosen⟩, hformat⟩
        exact .inr (.inr (.inr ⟨hchosen, hplan.subsets, hplan.bands⟩))
    · exact .inl hformat
  · rintro hkeeps ⟨⟨hforced, hflag⟩, hformat⟩
    rcases hkeeps with hno | hyes | ⟨hchosen, hgives⟩ | ⟨hchosen, hsubsets, hbands⟩
    · exact absurd hformat hno
    · exact absurd hyes hforced
    · rcases hflag with hflag | hflag
      · rw [hgives] at hflag
        cases hflag
      · exact absurd hchosen hflag
    · have hempty := not_not.mp (mt (choosesDimension_iff h).mpr hchosen)
      have hrest := not_forcesGrid.mp hforced
      exact ⟨hsubsets, hempty.1, hempty.2, hbands, hrest.2.2.2.1, hrest.2.2.2.2, hrest.2.2.1⟩

end

/-- A time alone. -/
theorem passThrough_exact_of_time : ∃ plan,
    buildCoveragePlan plainEnv (valuesOf [("SUBSET", "time(2024-01-01)")]) "2.1.0"
      plainInfo timedCoverage allExtensions = .ok plan ∧ ((plan.passesThrough →
        Exact plainEnv (valuesOf [("SUBSET", "time(2024-01-01)")]) plainInfo timedCoverage plan) ↔
      KeepsFlag plainEnv (valuesOf [("SUBSET", "time(2024-01-01)")]) plainInfo timedCoverage allExtensions) :=
  ⟨_, rfl, passThrough_exact_iff rfl⟩

/-- A time in the native CRS, and the components in another order. -/
theorem passThrough_not_exact :
    (∃ plan, buildCoveragePlan plainEnv
        (valuesOf [("SUBSET", "time(2024-01-01)"), ("SUBSETTINGCRS", "EPSG:4326")]) "2.1.0"
        plainInfo timedCoverage allExtensions = .ok plan ∧
      plan.passesThrough ∧ plan.time = "2024-01-01") ∧
    ∃ plan, buildCoveragePlan plainEnv (valuesOf [("RANGESUBSET", "nir,red")]) "2.1.0"
        plainInfo timedCoverage allExtensions = .ok plan ∧
      plan.passesThrough ∧ plan.bands = [2, 1] :=
  ⟨⟨_, rfl, rfl, rfl⟩, ⟨_, rfl, rfl, rfl⟩⟩

end NeoServer.Wcs
