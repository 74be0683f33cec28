import Mathlib
import NeoServer.Text

/-!
# Sld.Compare — an integer property against a literal

`compareValues` reads the literal as an integer of 64 bits. A literal that is none, because it has a
fraction or does not fit, is compared with the decimal text of the value.

- `literalValue` : the number that a decimal literal stands for,
- `comparisons_exact` : on literals that are integers of 64 bits every comparison is that of the numbers,
- `text_order_differs` : 10 is less than "9.5".
-/

namespace NeoServer.Sld

/-- The operations on floating-point numbers. -/
structure Floats (F : Type) where
  ParseFloat : Str → Option F
  compareFloat : F → F → Ordering

/-- A `float32` is given as a `float64`, with the text of its own type. -/
inductive PropertyValue (F : Type)
  | int (v : Int64) | int32 (v : Int32) | int64 (v : Int64)
  | float (v : F) (text : Str) | string (v : Str) | bool (v : Bool) | other (text : Str)

/-- `strings.Compare`. -/
def compareText (a b : Str) : Ordering := compareOfLessAndEq a b

def compareInt (v : Int) (literal : Str) : Ordering :=
  match atoi literal with
  | none => compareText (decimal v) literal
  | some litVal => compare v litVal

section
variable {F : Type} (fl : Floats F)

def compareValues (propValue : PropertyValue F) (literal : Str) : Ordering :=
  match propValue with
  | .int v | .int64 v => compareInt v.toInt literal
  | .int32 v => compareInt v.toInt literal
  | .float v text =>
    match fl.ParseFloat literal with
    | none => compareText text literal
    | some litVal => fl.compareFloat v litVal
  | .string v => compareText v literal
  | .bool v => compare v (toLower literal = "true" ∨ literal = "1")
  | .other text => compareText text literal

/-- A comparison of a property, which fails if the feature has no such property. -/
def evaluate (props : Str → Option (PropertyValue F)) (name : Str)
    (test : PropertyValue F → Bool) : Bool :=
  (props name).any test

variable (props : Str → Option (PropertyValue F)) (name literal : Str)

def evaluateEquals : Bool := evaluate props name fun v => compareValues fl v literal == .eq

def evaluateLessThan (orEqual : Bool) : Bool := evaluate props name fun v =>
  if orEqual then compareValues fl v literal != .gt else compareValues fl v literal == .lt

def evaluateGreaterThan (orEqual : Bool) : Bool := evaluate props name fun v =>
  if orEqual then compareValues fl v literal != .lt else compareValues fl v literal == .gt

def evaluateBetween (lower upper : Str) : Bool := evaluate props name fun v =>
  compareValues fl v lower != .lt && compareValues fl v upper != .gt

end

def PropertyValue.toInt? {F : Type} : PropertyValue F → Option Int
  | .int v | .int64 v => some v.toInt
  | .int32 v => some v.toInt
  | _ => none

/-- The number of digits with or without a fraction. -/
def unsignedValue (digits : Str) : Option ℚ :=
  let whole := digits.takeWhile (· ≠ '.')
  let fraction := (digits.dropWhile (· ≠ '.')).tail
  if whole ++ fraction ≠ [] ∧ (whole ++ fraction).all Char.isDigit then
    some (digitsValue (whole ++ fraction) / 10 ^ fraction.length)
  else none

def signed : Str → Bool × Str
  | '-' :: ds => (true, ds)
  | '+' :: ds => (false, ds)
  | ds => (false, ds)

def literalValue (literal : Str) : Option ℚ :=
  (unsignedValue (signed literal).2).map fun q => if (signed literal).1 then -q else q

section
variable {F : Type} (fl : Floats F) (props : Str → Option (PropertyValue F))

/-- The comparisons of an integer are those of the numbers. -/
def ComparesExactly (name literal lower upper : Str) (v : Int) : Prop :=
  ∀ q l u, literalValue literal = some q → literalValue lower = some l → literalValue upper = some u →
    (evaluateEquals fl props name literal ↔ v = q) ∧
    (evaluateEquals fl props name literal = false ↔ v ≠ q) ∧
    (evaluateLessThan fl props name literal false ↔ v < q) ∧
    (evaluateLessThan fl props name literal true ↔ v ≤ q) ∧
    (evaluateGreaterThan fl props name literal false ↔ v > q) ∧
    (evaluateGreaterThan fl props name literal true ↔ v ≥ q) ∧
    (evaluateBetween fl props name lower upper ↔ v ≥ l ∧ v ≤ u)

lemma literalValue_of_atoi {literal : Str} {n : Int} (h : atoi literal = some n) :
    literalValue literal = some (n : ℚ) := by
  have hatoi : (if (signed literal).2 ≠ [] ∧ _ ∧ _ then _ else _) = some n := h
  obtain ⟨⟨hne, hdigits, -⟩, hn⟩ := Option.ite_none_right_eq_some.mp hatoi
  have hwhole : ∀ c ∈ (signed literal).2, decide (c ≠ '.') = true := fun c hc =>
    decide_eq_true fun hdot => by simpa [hdot] using List.all_eq_true.mp hdigits c hc
  rw [literalValue, unsignedValue, List.takeWhile_eq_self_iff.mpr hwhole,
    List.dropWhile_eq_nil_iff.mpr hwhole, List.tail_nil, List.append_nil, if_pos ⟨hne, hdigits⟩]
  have hvalue : (if (signed literal).1 then -digitsValue (signed literal).2
      else digitsValue (signed literal).2 : ℤ) = n := Option.some.inj hn
  rw [← hvalue]
  push_cast
  simp

lemma compareValues_of_atoi {value : PropertyValue F} {v n : Int} {literal : Str}
    (hint : value.toInt? = some v) (h : atoi literal = some n) :
    compareValues fl value literal = compare (v : ℚ) n := by
  have hcompare : compareInt v literal = compare (v : ℚ) n := by
    rw [compareInt, h]
    simp only [compare, compareOfLessAndEq, Int.cast_lt, Int.cast_inj]
  cases value <;> cases hint <;> exact hcompare

/-- Comparisons are exact with literals that are integers of 64 bits. -/
theorem comparisons_exact (name literal lower upper : Str) (value : PropertyValue F) (v : Int)
    (hprop : props name = some value) (hint : value.toInt? = some v)
    (hliterals : ∀ text ∈ [literal, lower, upper], (atoi text).isSome) :
    ComparesExactly fl props name literal lower upper v := by
  intro q l u hq hl hu
  have hcompare : ∀ text ∈ [literal, lower, upper], ∀ r, literalValue text = some r →
      compareValues fl value text = compare (v : ℚ) r := by
    intro text htext r hr
    obtain ⟨n, hn⟩ := Option.isSome_iff_exists.mp (hliterals text htext)
    rw [compareValues_of_atoi fl hint hn]
    cases hr.symm.trans (literalValue_of_atoi hn)
    rfl
  simp only [evaluateEquals, evaluateLessThan, evaluateGreaterThan, evaluateBetween, evaluate,
    hprop, Option.any_some, hcompare literal (by simp) q hq, hcompare lower (by simp) l hl,
    hcompare upper (by simp) u hu, beq_iff_eq, bne_iff_ne, Bool.and_eq_true, compare_eq_iff_eq,
    beq_eq_false_iff_ne, ne_eq, compare_lt_iff_lt, compare_gt_iff_gt, not_lt, ge_iff_le, gt_iff_lt, if_true,
    Bool.false_eq_true, if_false, and_self]

end

/-- The order of the numbers 9 and 10, which is not that of their texts. -/
theorem comparisons_exact_nine : ComparesExactly (F := Unit) ⟨fun _ => none, fun _ _ => .eq⟩
    (fun _ => some (.int32 9)) "count" "10" "-1" "+12" 9 :=
  comparisons_exact _ _ _ _ _ _ _ _ rfl rfl (by decide)

/-- The number 10 is less than 9.5. -/
theorem text_order_differs : ¬ ComparesExactly (F := Unit) ⟨fun _ => none, fun _ _ => .eq⟩
    (fun _ => some (.int 10)) "count" "9.5" "0" "0" 10 := by
  intro h
  have hvalue : literalValue "9.5" = some (((95 : Nat) : ℚ) / 10 ^ 1) := rfl
  have hzero := literalValue_of_atoi (show atoi "0" = some 0 from rfl)
  have hless := (h _ _ _ hvalue hzero hzero).2.2.1.mp (by decide)
  norm_num at hless

end NeoServer.Sld
