import Mathlib.Logic.Function.Basic

/-!
# Sld.Filter — the filter of a style rule

The decoder collects the children of an element by their names: `And` and `Or` elements in lists,
comparisons in a list for each kind, and the children of all `Not` elements in one filter.
`EvaluateFilter` looks at the `And` elements if there are any, else at the `Or` elements, else at
`Not`, and takes the comparisons together only if there is none of these.

- `Predicate` : the elements as they are written, with the meaning that OGC gives them,
- `decode`, `EvaluateFilter` : what the code makes of them,
- `Uniform` : children that are decoded and evaluated without loss,
- `evaluateFilter_of_uniform` : on filters made of such children the two agree.
-/

namespace NeoServer.Sld

open List

inductive Comparison
  | PropertyIsEqualTo | PropertyIsNotEqualTo | PropertyIsLessThan | PropertyIsLessThanOrEqualTo
  | PropertyIsGreaterThan | PropertyIsGreaterThanOrEqualTo | PropertyIsLike | PropertyIsNull
  | PropertyIsBetween
deriving DecidableEq, Repr

/-- In the order in which `EvaluateFilter` takes them. -/
def Comparison.kinds : List Comparison :=
  [.PropertyIsEqualTo, .PropertyIsNotEqualTo, .PropertyIsLessThan, .PropertyIsLessThanOrEqualTo,
    .PropertyIsGreaterThan, .PropertyIsGreaterThanOrEqualTo, .PropertyIsLike, .PropertyIsNull,
    .PropertyIsBetween]

inductive Connective
  | And | Or
deriving DecidableEq, Repr

namespace Connective

def unit : Connective → Bool
  | And => true
  | Or => false

def combine : Connective → Bool → Bool → Bool
  | And => and
  | Or => or

def dual : Connective → Connective
  | And => Or
  | Or => And

end Connective

/-! ## The elements -/

inductive Predicate (C : Type)
  | comparison (kind : Comparison) (comp : C)
  | logical (op : Connective) (children : List (Predicate C))
  | Not (child : Predicate C)

/-- The comparisons of each kind, the `And` and the `Or` elements, and `Not`. -/
inductive Filter (C : Type)
  | mk (comparisons : Comparison → List C) (And Or : List (Filter C)) (Not : Option (Filter C))

def Filter.empty {C : Type} : Filter C := ⟨fun _ => [], [], [], none⟩

-- how the comparisons come out for the properties of a feature
variable {C : Type} (props : Comparison → C → Bool)

mutual

/-- What a predicate says of a feature. -/
def Predicate.holds : Predicate C → Bool
  | .comparison kind comp => props kind comp
  | .logical op children => holdsAll op children
  | .Not child => !child.holds

def holdsAll (op : Connective) : List (Predicate C) → Bool
  | [] => op.unit
  | p :: ps => op.combine p.holds (holdsAll op ps)

end

/-! ## What the code makes of them -/

mutual

/-- An element is decoded into the filter of the element around it. A second `Not` is decoded into
the filter of the first. -/
def Predicate.decode : Predicate C → Filter C → Filter C
  | .comparison kind comp, ⟨comps, as, os, n⟩ =>
    ⟨Function.update comps kind (comps kind ++ [comp]), as, os, n⟩
  | .logical .And children, ⟨comps, as, os, n⟩ => ⟨comps, as ++ [decodeAll children .empty], os, n⟩
  | .logical .Or children, ⟨comps, as, os, n⟩ => ⟨comps, as, os ++ [decodeAll children .empty], n⟩
  | .Not child, ⟨comps, as, os, n⟩ => ⟨comps, as, os, some (child.decode (n.getD .empty))⟩

def decodeAll : List (Predicate C) → Filter C → Filter C
  | [], f => f
  | p :: ps, f => decodeAll ps (p.decode f)

end

mutual

def EvaluateFilter : Filter C → Bool
  | ⟨_, f :: fs, _, _⟩ => evaluateAll .And (f :: fs)
  | ⟨_, [], f :: fs, _⟩ => evaluateAll .Or (f :: fs)
  | ⟨_, [], [], some f⟩ => !EvaluateFilter f
  | ⟨comps, [], [], none⟩ => Comparison.kinds.all fun kind => (comps kind).all (props kind)

/-- The loop over the elements, which ends early with the first one that decides. -/
def evaluateAll (op : Connective) : List (Filter C) → Bool
  | [] => op.unit
  | f :: fs => if EvaluateFilter f = op.unit then evaluateAll op fs else !op.unit

end

/-! ## Decoding without loss -/

variable (cs : List (Comparison × C))

/-- Comparisons with their kinds, as elements. -/
abbrev comparisons : List (Predicate C) :=
  cs.map fun c => .comparison c.1 c.2

lemma decodeAll_comparisons (comps : Comparison → List C) :
    decodeAll (comparisons cs) ⟨comps, [], [], none⟩ =
      ⟨fun kind => comps kind ++ (cs.filter fun c => c.1 = kind).map Prod.snd, [], [], none⟩ := by
  induction cs generalizing comps with
  | nil => simp [decodeAll]
  | cons c cs ih =>
    refine (ih _).trans (congrArg (Filter.mk · [] [] none) (funext fun kind => ?_))
    by_cases hk : c.1 = kind
    · subst hk
      simp
    · simp [hk, Function.update_of_ne (Ne.symm hk)]

/-- Comparisons are taken together, whatever element they are children of. -/
lemma evaluate_comparisons :
    EvaluateFilter props (decodeAll (comparisons cs) .empty) =
      holdsAll props .And (comparisons cs) := by
  have hkinds : ∀ kind, kind ∈ Comparison.kinds := by
    intro kind
    cases kind <;> decide
  have hholds : ∀ cs : List (Comparison × C),
      holdsAll props .And (comparisons cs) = cs.all fun c => props c.1 c.2 := by
    intro cs
    induction cs with
    | nil => rfl
    | cons c cs ih => exact congrArg (props c.1 c.2 && ·) ih
  rw [hholds, Filter.empty, decodeAll_comparisons, EvaluateFilter, Bool.eq_iff_iff]
  simp only [all_eq_true, hkinds, true_implies, nil_append, mem_map, mem_filter, decide_eq_true_eq]
  constructor
  · intro h c hc
    exact h c.1 c.2 ⟨c, ⟨hc, rfl⟩, rfl⟩
  · rintro h kind comp ⟨c, ⟨hc, rfl⟩, rfl⟩
    exact h c hc

variable (op : Connective)

/-- A filter of `op` elements only. -/
def Filter.elements (fs : List (Filter C)) : Filter C :=
  match op with
  | .And => ⟨fun _ => [], fs, [], none⟩
  | .Or => ⟨fun _ => [], [], fs, none⟩

lemma decodeAll_logical (dss : List (List (Predicate C))) (fs : List (Filter C)) :
    decodeAll (dss.map (.logical op)) (.elements op fs) =
      .elements op (fs ++ dss.map (decodeAll · .empty)) := by
  induction dss generalizing fs with
  | nil => simp [decodeAll]
  | cons ds dss ih =>
    have hdecode : Predicate.decode (.logical op ds) (.elements op fs) =
        .elements op (fs ++ [decodeAll ds .empty]) := by cases op <;> rfl
    rw [map_cons, decodeAll, hdecode, ih, map_cons, append_assoc, singleton_append]

lemma evaluate_logical {ds} {dss}
    (h : ∀ x ∈ ds :: dss, EvaluateFilter props (decodeAll x .empty) = holdsAll props op x) :
    EvaluateFilter props (decodeAll ((ds :: dss).map (.logical op)) .empty) =
      holdsAll props op ((ds :: dss).map (.logical op)) := by
  have hempty : .empty = Filter.elements (C := C) op [] := by cases op <;> rfl
  have heval : ∀ f fs, EvaluateFilter props (.elements op (f :: fs)) =
      evaluateAll props op (f :: fs) := by
    intro f fs
    cases op <;> rw [Filter.elements, EvaluateFilter]
  rw [hempty, decodeAll_logical]
  refine (heval _ _).trans ?_
  change evaluateAll props op ((ds :: dss).map (decodeAll · .empty)) = _
  generalize ds :: dss = all at h
  induction all with
  | nil => rfl
  | cons x xs ih =>
    have hx := h x mem_cons_self
    have hxs := ih fun y hy => h y (mem_cons_of_mem _ hy)
    rw [map_cons, map_cons, evaluateAll, holdsAll, Predicate.holds, hx, hxs]
    cases op <;> cases holdsAll props _ x <;> rfl

/-- The children of all `Not` elements end up in one filter. -/
lemma decodeAll_not (d : Predicate C) (ds : List (Predicate C)) :
    decodeAll ((d :: ds).map .Not) .empty =
      ⟨fun _ => [], [], [], some (decodeAll (d :: ds) .empty)⟩ := by
  change decodeAll (ds.map .Not) ⟨_, _, _, some (d.decode .empty)⟩ =
    ⟨_, _, _, some (decodeAll ds (d.decode .empty))⟩
  generalize d.decode .empty = f
  induction ds generalizing f with
  | nil => rfl
  | cons d ds ih => exact ih _

lemma holdsAll_not (ds : List (Predicate C)) :
    holdsAll props op (ds.map .Not) = !holdsAll props op.dual ds := by
  induction ds with
  | nil => cases op <;> rfl
  | cons d ds ih =>
    rw [map_cons, holdsAll, holdsAll, ih, Predicate.holds]
    cases op <;> cases d.holds props <;> rfl

/-! ## Where they agree -/

/-- Children that keep their meaning when they are taken by `op`: comparisons under `And` or a single
one, elements of `op` itself or a single one of the other connective, or `Not` elements whose
children keep theirs under the other connective. -/
inductive Uniform : Connective → List (Predicate C) → Prop
  | comparisons {op : Connective} {cs : List (Comparison × C)} (h : op = .And ∨ ∃ c, cs = [c]) :
    Uniform op (comparisons cs)
  | logical {op op' : Connective} {ds : List (Predicate C)} {dss : List (List (Predicate C))}
      (h : op = op' ∨ dss = []) (hchildren : ∀ x ∈ ds :: dss, Uniform op' x) :
    Uniform op ((ds :: dss).map (.logical op'))
  | nots {op : Connective} {d : Predicate C} {ds : List (Predicate C)}
      (h : Uniform op.dual (d :: ds)) : Uniform op ((d :: ds).map .Not)

lemma holdsAll_single (p : Predicate C) : holdsAll props op [p] = p.holds props := by
  cases op <;> simp [holdsAll, Connective.combine, Connective.unit]

lemma evaluate_uniform {ds} (h : Uniform op ds) :
    EvaluateFilter props (decodeAll ds .empty) = holdsAll props op ds := by
  induction h with
  | comparisons h =>
    rw [evaluate_comparisons]
    rcases h with rfl | ⟨c, rfl⟩
    · rfl
    · exact (holdsAll_single _ _ _).trans (holdsAll_single _ _ _).symm
  | logical h _ ih =>
    rw [evaluate_logical props _ ih]
    rcases h with rfl | rfl
    · rfl
    · exact (holdsAll_single _ _ _).trans (holdsAll_single _ _ _).symm
  | nots _ ih => rw [decodeAll_not, EvaluateFilter, ih, holdsAll_not]

/-- On a filter whose elements are uniform all the way down, `EvaluateFilter` says of every feature
what the filter says. -/
theorem evaluateFilter_of_uniform (p : Predicate C) (h : Uniform .And [p]) :
    EvaluateFilter props (p.decode .empty) = p.holds props :=
  (evaluate_uniform props .And h).trans (holdsAll_single props .And p)

/-- Two comparisons in an `And`. -/
theorem evaluateFilter_and_sample : EvaluateFilter (fun _ c => c) (Predicate.decode (.logical .And
    [.comparison .PropertyIsLike true, .comparison .PropertyIsNull false]) .empty) = false := by
  have hchildren : Uniform .And (comparisons [(.PropertyIsLike, true), (.PropertyIsNull, false)]) :=
    .comparisons (.inl rfl)
  have hand : Uniform .And ([_].map (.logical .And)) := .logical (.inl rfl) fun x hx => by
    rw [mem_singleton.mp hx]
    exact hchildren
  exact evaluateFilter_of_uniform _ _ hand

/-- An `Or` of two comparisons is taken for their conjunction. -/
theorem or_of_comparisons_lost : ∃ p : Predicate Bool,
    p = .logical .Or [.comparison .PropertyIsLike true, .comparison .PropertyIsLike false] ∧
    p.holds (fun _ c => c) = true ∧ EvaluateFilter (fun _ c => c) (p.decode .empty) = false :=
  ⟨_, rfl, by decide, by decide⟩

end NeoServer.Sld
