import NeoServer.Wcs.PassThrough

/-!
# Wcs.Cells — the limit of cells

The handler multiplies width, height and the number of bands in 64 bits and compares the product
with the configured maximum. The sizes come from the request, and the size of an extent is itself
a difference in 64 bits.

- `cellCount`, `withinCellLimit` : the check of the handler,
- `requestedSize` : what the request asks for, as an exact number,
- `withinCellLimit_sound_iff` : the check bounds the exact number of cells if nothing wraps, or if
  what wraps is refused all the same.
-/

namespace NeoServer.Wcs

variable {F : Type}

/-! ## The check -/

def cellCount (plan : CoveragePlan F) : Int64 :=
  plan.output.width * plan.output.height * Int64.ofNat (max 1 plan.bands.length)

/-- The limit is the setting of the workspace if that is positive, or else the one of the server. -/
def withinCellLimit (limit : Int64) (plan : CoveragePlan F) : Bool :=
  ¬ (cellCount plan ≤ 0 ∨ limit < cellCount plan)

/-- The output is not empty and has at most `limit` cells. -/
structure Bounded (limit : Int64) (plan : CoveragePlan F) : Prop where
  width : 1 ≤ plan.output.width.toInt
  height : 1 ≤ plan.output.height.toInt
  cells : plan.output.width.toInt * plan.output.height.toInt * plan.bands.length ≤ limit.toInt

/-! ## What is asked for -/

/-- The number of cells from low to high. -/
def ScaleAxis.extent (a : ScaleAxis F) : Int := a.high.toInt - a.low.toInt + 1

variable (env : Env F) (info : CoverageInfo F)

/-- The size of an axis: under SCALEEXTENT its extent, if it has one, or else the size in the plan. -/
def requestedSize (scaling : CoverageScaling F) (axis : Nat) (size : Int64) :
    Int :=
  if scaling.mode = .extent then
    match scaling.axes.find? fun a => gridAxis env a.axis info = some axis with
    | some a => a.extent
    | none => size.toInt
  else size.toInt

variable (plan : CoveragePlan F)

def requestedWidth : Int :=
  requestedSize env info plan.query.scaling 0 plan.output.width

def requestedHeight : Int :=
  requestedSize env info plan.query.scaling 1 plan.output.height

/-- The cells of a request: the check counts a coverage without bands as one with a band. -/
def requestedCells : Int :=
  requestedWidth env info plan * requestedHeight env info plan * max 1 plan.bands.length

/-! ## The sizes of the plan -/

variable {env : Env F} {axis : Nat} {info : CoverageInfo F} {name : Str} {q : Values}
  {output' : CoverageWindow} {caps : CapabilityRegistry} {scaling : CoverageScaling F}

lemma gridAxis_lt (h : gridAxis env name info = some axis) : axis < 2 := by
  unfold gridAxis at h
  split at h
  · cases h
    omega
  split at h
  · cases h
    omega
  · cases h

lemma axisGrid_setAxis {w : CoverageWindow} {axis' : Nat} {g : AxisGrid} (haxis : axis < 2)
    (haxis' : axis' < 2) :
    (w.setAxis axis g).axisGrid axis' = if axis' = axis then g else w.axisGrid axis' := by
  rcases (by omega : axis = 0 ∨ axis = 1) with rfl | rfl <;>
    rcases (by omega : axis' = 0 ∨ axis' = 1) with rfl | rfl <;>
    simp [CoverageWindow.setAxis, CoverageWindow.axisGrid]

/-- The difference of an extent is taken in 64 bits. -/
lemma scaleAxis_extent {value : Str} {old grid} {entry}
    (h : scaleAxis env .extent name value axis old = .ok (entry, grid)) :
    entry.axis = name ∧ entry.low.toInt ≤ entry.high.toInt ∧ grid.size = Int64.ofInt entry.extent := by
  simp only [scaleAxis] at h
  split at h
  · split at h
    · split at h
      · cases h
      rename_i low high _ _ hle
      cases h
      refine ⟨rfl, ?_, ?_⟩
      · exact Int64.le_iff_toInt_le.mp (Int64.not_lt.mp hle)
      · show high - low + 1 = Int64.ofInt (high.toInt - low.toInt + 1)
        rw [Int64.ofInt_add, Int64.ofInt_sub, Int64.ofInt_toInt, Int64.ofInt_toInt]
        rfl
    · cases h
  · cases h

/-- An axis that has been seen stays, and an entry for another one gives its size. -/
lemma scaleAxes_extent {parameter : String} (haxis : axis < 2) {tokens : List Str} :
    ∀ {seen : List Nat} {output output' : CoverageWindow} {entries : List (ScaleAxis F)},
      scaleAxes env info parameter .extent seen output tokens = .ok (entries, output') →
      (axis ∈ seen → output'.axisGrid axis = output.axisGrid axis) ∧
        ∀ a ∈ entries.find? (fun a => gridAxis env a.axis info = some axis),
          a.low.toInt ≤ a.high.toInt ∧ (output'.axisGrid axis).size = Int64.ofInt a.extent := by
  induction tokens with
  | nil =>
    rintro seen output output' entries ⟨⟩
    exact ⟨fun _ => rfl, nofun⟩
  | cons token tokens ih =>
    intro seen output output' entries h
    unfold scaleAxes at h
    split at h
    · cases h
    rename_i before inside _
    split at h
    · cases h
    rename_i axis' hgrid
    split at h
    · cases h
    rename_i hseen
    obtain ⟨⟨entry, grid⟩, hentry, h⟩ := bind_eq_ok.mp h
    obtain ⟨⟨entries', output''⟩, hrest, h⟩ := bind_eq_ok.mp h
    cases h
    obtain ⟨hname, hle, hsize⟩ := scaleAxis_extent hentry
    obtain ⟨hkeep, hfound⟩ := ih hrest
    have hset := axisGrid_setAxis (w := output) (g := grid) (gridAxis_lt hgrid) haxis
    by_cases hcase : axis = axis'
    · -- this token is the one of the axis, which later ones leave
      subst hcase
      have hlast := hkeep List.mem_cons_self
      rw [hset, if_pos rfl] at hlast
      refine ⟨fun hmem => absurd hmem hseen, ?_⟩
      intro a ha
      rw [List.find?_cons_of_pos (by simpa [hname] using hgrid)] at ha
      cases ha
      exact ⟨hle, by rw [hlast, hsize]⟩
    · rw [hset, if_neg hcase] at hkeep
      refine ⟨fun hmem => hkeep (List.mem_cons_of_mem _ hmem), ?_⟩
      intro a ha
      have hother : ¬ gridAxis env entry.axis info = some axis := by
        rw [hname, hgrid]
        simpa using fun h => hcase h.symm
      rw [List.find?_cons_of_neg (by simpa using hother)] at ha
      exact hfound a ha

lemma parseScaling_extent {output}
    (h : parseScaling env q info output caps = .ok (scaling, output')) (hmode : scaling.mode = .extent) :
    ∃ parameter tokens, scaleAxes env info parameter .extent [] output tokens = .ok (scaling.axes, output') := by
  obtain ⟨selected, _, h⟩ := bind_eq_ok.mp h
  split at h
  · cases h
    cases hmode
  split at h
  · cases h
  split at h
  · repeat' (split at h)
    all_goals cases h
    cases hmode
  · obtain ⟨⟨axes, output''⟩, haxes, h⟩ := bind_eq_ok.mp h
    cases h
    cases hmode
    exact ⟨_, _, haxes⟩

lemma ofInt_extent {a : ScaleAxis F} (hle : a.low.toInt ≤ a.high.toInt) (hpos : 1 ≤ (Int64.ofInt a.extent).toInt) :
    a.extent = (Int64.ofInt a.extent).toInt := by
  have hlow := a.low.le_toInt
  have hhigh := a.high.toInt_lt
  rw [Int64.toInt_ofInt] at hpos ⊢
  unfold ScaleAxis.extent at hpos ⊢
  -- an extent is at most 2^64, so that a positive remainder is the extent itself
  rw [Int.bmod_def] at hpos ⊢
  simp only [Int64.size] at hpos ⊢
  split at hpos <;> omega

/-- The size in the plan is what is asked for, in 64 bits. If it is positive there, it is the same. -/
lemma requestedSize_ok {output : CoverageWindow} {size : Int64} (haxis : axis < 2)
    (h : parseScaling env q info output caps = .ok (scaling, output')) (hsize : (output'.axisGrid axis).size = size) :
    Int64.ofInt (requestedSize env info scaling axis size) = size ∧
      (1 ≤ size.toInt → requestedSize env info scaling axis size = size.toInt) := by
  unfold requestedSize
  split
  · rename_i hmode
    obtain ⟨parameter, tokens, haxes⟩ := parseScaling_extent h hmode
    have hfound := (scaleAxes_extent haxis haxes).2
    split
    · rename_i a ha
      obtain ⟨hle, hextent⟩ := hfound a ha
      rw [hsize] at hextent
      refine ⟨hextent.symm, fun hpos => ?_⟩
      rw [hextent] at hpos ⊢
      exact ofInt_extent hle hpos
    · exact ⟨Int64.ofInt_toInt size, fun _ => rfl⟩
  · exact ⟨Int64.ofInt_toInt size, fun _ => rfl⟩

/-! ## The limit -/

section

variable {env : Env F} {q : Values} {version : Str} {info : CoverageInfo F} {coverage : Coverage}
  {caps : CapabilityRegistry} {plan : CoveragePlan F} {limit : Int64}

section

variable (h : buildCoveragePlan env q version info coverage caps = .ok plan)

include h

lemma requestedWidth_ok :
    Int64.ofInt (requestedWidth env info plan) = plan.output.width ∧
      (1 ≤ plan.output.width.toInt → requestedWidth env info plan = plan.output.width.toInt) :=
  requestedSize_ok (by omega) (buildCoveragePlan_ok h).2.2.2.1 rfl

lemma requestedHeight_ok :
    Int64.ofInt (requestedHeight env info plan) = plan.output.height ∧
      (1 ≤ plan.output.height.toInt → requestedHeight env info plan = plan.output.height.toInt) :=
  requestedSize_ok (by omega) (buildCoveragePlan_ok h).2.2.2.1 rfl

/-- The product of the check is the exact one in 64 bits. -/
lemma cellCount_eq : cellCount plan = Int64.ofInt (requestedCells env info plan) := by
  unfold cellCount requestedCells
  rw [Int64.ofInt_mul, Int64.ofInt_mul, (requestedWidth_ok h).1, (requestedHeight_ok h).1, Int64.ofInt_eq_ofNat]

end

/-- Sizes and cells that 64 bits can hold. -/
structure Fits (env : Env F) (info : CoverageInfo F) (plan : CoveragePlan F) : Prop where
  width : 1 ≤ requestedWidth env info plan ∧ requestedWidth env info plan ≤ Int64.maxValue.toInt
  height : 1 ≤ requestedHeight env info plan ∧ requestedHeight env info plan ≤ Int64.maxValue.toInt
  cells : requestedWidth env info plan * requestedHeight env info plan * plan.bands.length ≤ Int64.maxValue.toInt

lemma toInt_ofInt_of_fits {n : Int} (hpos : 0 ≤ n) (hle : n ≤ Int64.maxValue.toInt) :
    (Int64.ofInt n).toInt = n := by
  have hmax : Int64.maxValue.toInt = 9223372036854775807 := by decide
  rw [Int64.toInt_ofInt]
  apply Int.bmod_eq_of_le <;> simp only [Int64.size] <;> omega

/-- Under the limit there are exactly as many cells as the check has counted. -/
lemma withinCellLimit_iff (h : buildCoveragePlan env q version info coverage caps = .ok plan) :
    withinCellLimit limit plan ↔ 0 < (requestedCells env info plan).bmod Int64.size ∧
      (requestedCells env info plan).bmod Int64.size ≤ limit.toInt := by
  have hcount : (cellCount plan).toInt = (requestedCells env info plan).bmod Int64.size := by
    rw [cellCount_eq h, Int64.toInt_ofInt]
  simp only [withinCellLimit, decide_eq_true_eq, not_or, Int64.not_le, Int64.not_lt]
  rw [Int64.lt_iff_toInt_lt, Int64.le_iff_toInt_le, hcount]
  rfl

section

variable (h : buildCoveragePlan env q version info coverage caps = .ok plan)

include h

/-- What is asked for is in the plan. -/
lemma Fits.output (hfits : Fits env info plan) :
    plan.output.width.toInt = requestedWidth env info plan ∧
      plan.output.height.toInt = requestedHeight env info plan := by
  obtain ⟨hwidth, hheight, _⟩ := hfits
  rw [← (requestedWidth_ok h).1, ← (requestedHeight_ok h).1]
  exact ⟨toInt_ofInt_of_fits (by omega) hwidth.2, toInt_ofInt_of_fits (by omega) hheight.2⟩

lemma Bounded.fits (hbounded : Bounded limit plan) : Fits env info plan := by
  obtain ⟨hwidth, hheight, hcells⟩ := hbounded
  have hmax : Int64.maxValue.toInt = 9223372036854775807 := by decide
  have hlimit := limit.toInt_lt
  have hwidthLt := plan.output.width.toInt_lt
  have hheightLt := plan.output.height.toInt_lt
  have hwidthEq := (requestedWidth_ok h).2 hwidth
  have hheightEq := (requestedHeight_ok h).2 hheight
  rw [← hwidthEq] at hwidth hwidthLt
  rw [← hheightEq] at hheight hheightLt
  rw [← hwidthEq, ← hheightEq] at hcells
  exact ⟨⟨hwidth, by omega⟩, ⟨hheight, by omega⟩, by omega⟩

lemma Fits.bounded (hfits : Fits env info plan) (hwithin : withinCellLimit limit plan) :
    Bounded limit plan := by
  obtain ⟨hwidth, hheight⟩ := hfits.output h
  obtain ⟨hpos, hle⟩ := (withinCellLimit_iff h).mp hwithin
  refine ⟨by rw [hwidth]; exact hfits.width.1, by rw [hheight]; exact hfits.height.1, ?_⟩
  rw [hwidth, hheight]
  rcases Nat.eq_zero_or_pos plan.bands.length with hzero | hsome
  · -- without bands there are no cells
    rw [hzero]
    omega
  · have hcells : requestedCells env info plan =
        requestedWidth env info plan * requestedHeight env info plan * plan.bands.length := by
      unfold requestedCells
      congr 1
      omega
    have hnonneg : 0 ≤ requestedCells env info plan := by
      have hwidthPos := hfits.width.1
      have hheightPos := hfits.height.1
      exact Int.mul_nonneg (Int.mul_nonneg (by omega) (by omega)) (by omega)
    have hexact := toInt_ofInt_of_fits hnonneg (hcells ▸ hfits.cells)
    rw [Int64.toInt_ofInt] at hexact
    rw [← hcells, ← hexact]
    exact hle

end

/-- The check bounds the cells if 64 bits can hold them, or if the remainder is refused. -/
theorem withinCellLimit_sound_iff (h : buildCoveragePlan env q version info coverage caps = .ok plan) :
    (withinCellLimit limit plan → Bounded limit plan) ↔
      Fits env info plan ∨ (requestedCells env info plan).bmod Int64.size ≤ 0 ∨
        limit.toInt < (requestedCells env info plan).bmod Int64.size := by
  constructor
  · intro hsound
    by_cases hwithin : withinCellLimit limit plan = true
    · exact .inl ((hsound hwithin).fits h)
    · rw [withinCellLimit_iff h] at hwithin
      right
      omega
  · intro hcases hwithin
    rcases hcases with hfits | hrefused
    · exact hfits.bounded h hwithin
    · have hcount := (withinCellLimit_iff h).mp hwithin
      omega

/-- A size of ten by ten, with two bands. -/
theorem withinCellLimit_sound_native : ∃ plan,
    buildCoveragePlan plainEnv (valuesOf []) "2.1.0" plainInfo timedCoverage allExtensions = .ok plan ∧
    ((withinCellLimit 200 plan → Bounded 200 plan) ↔
      Fits plainEnv plainInfo plan ∨ (requestedCells plainEnv plainInfo plan).bmod Int64.size ≤ 0 ∨
        Int64.toInt 200 < (requestedCells plainEnv plainInfo plan).bmod Int64.size) :=
  ⟨_, rfl, withinCellLimit_sound_iff
    (rfl : buildCoveragePlan plainEnv (valuesOf []) "2.1.0" plainInfo timedCoverage allExtensions = _)⟩

end

/-- A product of 2^65 + 2 passes as 2. An extent of 2^63 + 1 is a negative size, and two of
them pass as one cell for each band. -/
theorem cellLimit_wraps :
    (∃ plan, buildCoveragePlan plainEnv (valuesOf [("SCALESIZE", "i(274177),j(67280421310721)")])
        "2.1.0" plainInfo timedCoverage allExtensions = .ok plan ∧ withinCellLimit 100 plan ∧
      100 < plan.output.width.toInt * plan.output.height.toInt * plan.bands.length) ∧
    ∃ plan, buildCoveragePlan plainEnv
        (valuesOf [("SCALEEXTENT", "i(-1:9223372036854775807),j(-1:9223372036854775807)")])
        "2.1.0" plainInfo timedCoverage allExtensions = .ok plan ∧ withinCellLimit 100 plan ∧
      plan.output.width.toInt < 1 :=
  ⟨⟨_, rfl, rfl, by decide⟩, ⟨_, rfl, rfl, by decide⟩⟩

end NeoServer.Wcs
