import NeoServer.Wfs.Fes.Structure
import NeoServer.Sql.Eval

/-!
# Wfs.Fes.Meaning — when a filter is true

A filter is read as FES 2.0 writes it, over the elements of the document: `And` is
the conjunction of all its children, `Or` their disjunction, `Not` the negation of
its operand, and the `ResourceId` elements of one container together ask for an id
among those they name. What a single predicate and a list of ids mean is a
parameter (`leaf`, `ids`), so nothing here depends on SQL.

`documentTruth_eq` connects the reading of a document with the reading of the
decoded filter: decoding loses no element of an accepted document.
-/

namespace NeoServer.Wfs.Fes

open NeoServer.Sql (Truth)

/-- The negation of the one operand. -/
def negation : List Truth → Truth
  | [t] => t.not
  | _ => none

section Meaning

variable (leaf : Leaf → Truth) (ids : List Str → Truth)

/-- The resource ids of a container count as one child. -/
def ridTruths (rids : List Str) : List Truth := if rids = [] then [] else [ids rids]

/-! ## Decoded predicates -/

mutual

def Predicate.truth : Predicate → Truth
  | .and cs => Truth.all (predicateTruths cs ++ ridTruths ids (resourceIds cs))
  | .or cs => Truth.any (predicateTruths cs ++ ridTruths ids (resourceIds cs))
  | .not cs => negation (predicateTruths cs ++ ridTruths ids (resourceIds cs))
  | .leaf l => leaf l
  | .resourceId rid => ids [rid]

/-- The children that are not resource ids. -/
def predicateTruths : List Predicate → List Truth
  | [] => []
  | .resourceId _ :: cs => predicateTruths cs
  | p :: cs => p.truth :: predicateTruths cs

end

/-- All children, the resource ids together as the last one. -/
def childTruths (cs : List Predicate) : List Truth :=
  predicateTruths leaf ids cs ++ ridTruths ids (resourceIds cs)

/-- A filter is the conjunction of its children. -/
def filterTruth (filter : FESFilter) : Truth := Truth.all (childTruths leaf ids filter)

lemma predicateTruths_eq (cs : List Predicate) :
    predicateTruths leaf ids cs = (predicates cs).map (Predicate.truth leaf ids) := by
  induction cs with
  | nil => rfl
  | cons p cs ih => cases p <;> simp [predicateTruths, predicates, Predicate.kind] <;> exact ih

/-! ## Documents -/

/-- The ids named by the `ResourceId` elements among some nodes. -/
def ridElements (xs : List Xml) : List Str :=
  xs.filterMap fun
    | .element _ name attrs children =>
      if name = "ResourceId" then some (Content.attr ⟨attrs, children⟩ "rid")
      else none
    | _ => none

mutual

/-- The truth of an element that stands for a predicate. -/
def elementTruth : Xml → Truth
  | .element _ name attrs children =>
    match Kind.ofName name with
    | some .and => Truth.all (elementTruths children ++ ridTruths ids (ridElements children))
    | some .or => Truth.any (elementTruths children ++ ridTruths ids (ridElements children))
    | some .not => negation (elementTruths children ++ ridTruths ids (ridElements children))
    | some (.leaf k) => leaf (decodeLeaf k ⟨attrs, children⟩)
    | some .resourceId => ids [Content.attr ⟨attrs, children⟩ "rid"]
    | none => none
  | _ => none

/-- Every element counts, known or not; resource ids are counted apart. -/
def elementTruths : List Xml → List Truth
  | [] => []
  | .element space name attrs children :: xs =>
    if name = "ResourceId" then elementTruths xs
    else elementTruth (.element space name attrs children) :: elementTruths xs
  | _ :: xs => elementTruths xs

end

/-- The truth of the filter in a document. -/
def documentTruth (doc : List Xml) : Truth :=
  match rootElement doc with
  | some (_, children) =>
    Truth.all (elementTruths leaf ids children ++ ridTruths ids (ridElements children))
  | none => none

end Meaning

/-! ## Decoding keeps the meaning -/

lemma ofName_resourceId_iff {name : Str} :
    Kind.ofName name = some .resourceId ↔ name = "ResourceId" := by
  constructor
  · intro h
    exact (name_of_ofName h).symm
  · rintro rfl
    rfl

/-- Any other supported element is decoded into another predicate. -/
lemma decodeChild_predicate {space name : Str} {attrs} {children}
    (h : Supported (.element space name attrs children)) (hrid : name ≠ "ResourceId") :
    ∃ p, decodeChild (.element space name attrs children) = some p ∧ p.kind ≠ .resourceId := by
  obtain ⟨k, hk⟩ := exists_ofName_of_supported h
  obtain ⟨p, hp, rfl⟩ := decodeChild_kind space attrs children hk
  refine ⟨p, hp, ?_⟩
  intro hkind
  rw [hkind] at hk
  exact hrid (ofName_resourceId_iff.mp hk)

lemma resourceIds_cons_predicate {p} (h : p.kind ≠ .resourceId)
    (cs : List Predicate) : resourceIds (p :: cs) = resourceIds cs := by
  cases p with
  | resourceId => exact absurd rfl h
  | and _ | or _ | not _ | leaf _ => rfl

lemma predicateTruths_cons_predicate (leaf : Leaf → Truth) (ids : List Str → Truth)
    {p} (h : p.kind ≠ .resourceId) (cs : List Predicate) :
    predicateTruths leaf ids (p :: cs) = p.truth leaf ids :: predicateTruths leaf ids cs := by
  cases p with
  | resourceId => exact absurd rfl h
  | and _ | or _ | not _ | leaf _ => rfl

lemma ridElements_eq {xs} (h : SupportedAll xs) :
    ridElements xs = resourceIds (decodeChildren xs) := by
  induction xs with
  | nil => rfl
  | cons x xs ih =>
    obtain ⟨hx, hxs⟩ := h
    have hrest := ih hxs
    cases x with
    | text | directive | other => exact hrest
    | element space name attrs children =>
      by_cases hrid : name = "ResourceId"
      · subst hrid
        exact congrArg (_ :: ·) hrest
      obtain ⟨p, hp, hkind⟩ := decodeChild_predicate hx hrid
      have hskip : ridElements (.element space name attrs children :: xs) =
          ridElements xs := List.filterMap_cons_none (if_neg hrid)
      rw [hskip, decodeChildren, hp, hrest]
      exact (resourceIds_cons_predicate hkind _).symm

section Decoding

variable (leaf : Leaf → Truth) (ids : List Str → Truth)

mutual

theorem elementTruth_eq : ∀ x : Xml, Supported x → ∀ p, decodeChild x = some p →
    elementTruth leaf ids x = p.truth leaf ids
  | .element space name attrs children, hx, p, hp => by
    unfold Supported at hx
    unfold decodeChild at hp
    unfold elementTruth
    rcases hk : Kind.ofName name with _ | _ | _ | _ | k | _
    · simp [hk] at hp
    all_goals simp only [hk, Option.some.injEq] at hx hp ⊢
    all_goals subst hp
    · simp only [Predicate.truth, elementTruths_eq children hx, ridElements_eq hx]
    · simp only [Predicate.truth, elementTruths_eq children hx, ridElements_eq hx]
    · simp only [Predicate.truth, elementTruths_eq children hx, ridElements_eq hx]
    · rfl
    · rfl
  | .text _, _, _, hp => by cases hp
  | .directive, _, _, hp => by cases hp
  | .other, _, _, hp => by cases hp

theorem elementTruths_eq : ∀ xs : List Xml, SupportedAll xs →
    elementTruths leaf ids xs = predicateTruths leaf ids (decodeChildren xs)
  | [], _ => rfl
  | .element space name attrs children :: xs, h => by
    obtain ⟨hx, hxs⟩ := h
    have hrest := elementTruths_eq xs hxs
    by_cases hrid : name = "ResourceId"
    · subst hrid
      exact hrest
    obtain ⟨p, hp, hkind⟩ := decodeChild_predicate hx hrid
    rw [elementTruths, if_neg hrid, decodeChildren, hp, hrest,
      elementTruth_eq _ hx p hp]
    exact (predicateTruths_cons_predicate leaf ids hkind _).symm
  | .text _ :: xs, h => elementTruths_eq xs h.2
  | .directive :: xs, h => elementTruths_eq xs h.2
  | .other :: xs, h => elementTruths_eq xs h.2

end

/-- An accepted document means what its decoded filter means. -/
theorem documentTruth_eq {doc} {filter} (h : parseFESFilter doc = .ok filter) :
    documentTruth leaf ids doc = filterTruth leaf ids filter := by
  obtain ⟨children, hroot, hsupp, rfl, -⟩ := parseFESFilter_valid h
  unfold documentTruth filterTruth childTruths
  rw [hroot]
  dsimp only
  rw [elementTruths_eq leaf ids children hsupp, ridElements_eq hsupp]

end Decoding

end NeoServer.Wfs.Fes
