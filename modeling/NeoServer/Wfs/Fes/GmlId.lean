import NeoServer.Wfs.Fes.Monotone

/-!
# Wfs.Fes.GmlId — `gml:id = v` and `ResourceId rid=v`

A comparison with `gml:id` and a resource id name a feature, both with or without the name of
its layer. Where the name is not the one that is advertised, they look for it differently: a
comparison trims the value and cuts it at the last dot; a resource id may begin with a prefix
and an underscore, or with a name of two parts.

- `ReadAlike` : values in which both find the same,
- `gmlId_selects_resourceId` : for these, the two filters select the same features,
- `legacy_resourceId_refused` : values that only one of them accepts.
-/

namespace NeoServer.Wfs.Fes

open NeoServer.Sql List
open NeoServer.Filter (Arg)

/-! ## The filters -/

def gmlIdFilter (ref v : Str) : FESFilter := [.leaf (.comparison .eq ⟨ref, v⟩)]

def resourceIdFilter (v : Str) : FESFilter := [.resourceId v]

/-- Both filters are refused, or they select the same rows of every database. -/
def SameSelection {F : Type} (rt : Runtime F) (opts : FESCompileOptions)
    (filter filter' : FESFilter) : Prop :=
  ((∃ r, compileFES rt filter opts = .ok r) ↔ ∃ r, compileFES rt filter' opts = .ok r) ∧
    Narrows rt opts filter filter' ∧ Narrows rt opts filter' filter

/-- The spelling `prefix_TypeName.id`. -/
def Legacy (collectionID v : Str) : Prop :=
  ∃ p, cutFirst '_' v = some p ∧ p.1 ≠ [] ∧
    (p.1 = "cite" ∨ p.1 = "app" ∨ (p.1 ++ ":").isPrefixOf collectionID)

/-- No blanks around it; and behind the name of the layer, without a dot, or behind a name of
at most two parts. -/
structure ReadAlike (collectionID v : Str) : Prop where
  trimmed : trimSpace v = v
  shape : (featureIDForType v collectionID).isSome ∨ '.' ∉ v ∨
    ¬ Legacy collectionID v ∧ v.head? ≠ some '.' ∧ (splitChar '.' v).length ≤ 3

section Reading

variable {F : Type} {rt : Runtime F} {c : Compiler} {v : Str}

lemma eq_of_cutFirst {d : Char} {s : Str} {p} (h : cutFirst d s = some p) :
    s = p.1 ++ d :: p.2 := by
  induction s generalizing p with
  | nil => cases h
  | cons e s ih =>
    rw [cutFirst] at h
    split at h
    · cases h
      simp [*]
    · obtain ⟨q, hq, rfl⟩ := Option.map_eq_some_iff.mp h
      exact congrArg (e :: ·) (ih hq)

lemma cutLast_eq_none {d : Char} {s : Str} (h : d ∉ s) : cutLast d s = none := by
  induction s with
  | nil => rfl
  | cons e s ih => grind [cutLast]

lemma cutLast_append {d : Char} {id : Str} (h : d ∉ id) (typeName : Str) :
    cutLast d (typeName ++ d :: id) = some (typeName, id) := by
  induction typeName with
  | nil => simp [cutLast, cutLast_eq_none h]
  | cons e s ih => simp [cutLast, ih]

/-- A value without a dot is an id. -/
lemma splitResourceId_of_plain (hfid : featureIDForType v c.collectionID = none)
    (hdot : '.' ∉ v) : c.splitResourceId v = ([], v) := by
  have hdotted : Compiler.splitDotted v = ([], v) := by
    rw [Compiler.splitDotted, splitChar_of_not_mem hdot]
  unfold Compiler.splitResourceId
  rw [hfid]
  cases hcut : cutFirst '_' v with
  | none => exact hdotted
  | some p =>
    dsimp only
    split
    · rw [eq_of_cutFirst hcut] at hdot
      rw [cutLast_eq_none (by simp_all)]
    · exact hdotted

/-- Without a legacy spelling, a name of at most two parts ends at the last dot. -/
lemma splitResourceId_of_dotted (hfid : featureIDForType v c.collectionID = none)
    (hlegacy : ¬ Legacy c.collectionID v) (hhead : v.head? ≠ some '.')
    (hparts : (splitChar '.' v).length ≤ 3) :
    '.' ∉ v ∨ ∃ typeName id, cutLast '.' v = some (typeName, id) ∧ typeName ≠ [] ∧
      c.splitResourceId v = (typeName, id) := by
  have hdotted : c.splitResourceId v = Compiler.splitDotted v := by
    unfold Compiler.splitResourceId
    rw [hfid]
    cases hcut : cutFirst '_' v with
    | none => rfl
    | some p => exact if_neg fun h => hlegacy ⟨p, hcut, h⟩
  rw [hdotted, Compiler.splitDotted]
  have hclean : ∀ part ∈ splitChar '.' v, '.' ∉ part := fun part => not_mem_of_mem_splitChar
  have hjoin := join_splitChar '.' v
  generalize splitChar '.' v = parts at hparts hclean hjoin ⊢
  match parts with
  | [] => exact .inl (by simp [← hjoin, join])
  | [part] => exact .inl (by simpa [← hjoin, join] using hclean)
  | [typeName, id] =>
    have hv : v = typeName ++ '.' :: id := by simp [← hjoin, join]
    subst hv
    refine .inr ⟨typeName, id, cutLast_append (hclean id (by simp)) typeName, ?_, rfl⟩
    rintro rfl
    exact hhead rfl
  | [schema, table, id] =>
    have hv : v = (schema ++ '.' :: table) ++ '.' :: id := by simp [← hjoin, join]
    subst hv
    exact .inr ⟨_, id, cutLast_append (hclean id (by simp)) _, by simp, by simp [join]⟩
  | _ :: _ :: _ :: _ :: _ =>
    simp only [length_cons] at hparts
    omega

/-- Both readings give the same id, or neither gives one. -/
lemma gmlIdLiteral_iff (h : ReadAlike c.collectionID v) (id : Str) :
    c.gmlIdLiteral rt v = .ok id ↔ c.resourceFeatureID rt v = .ok id := by
  unfold Compiler.gmlIdLiteral Compiler.resourceFeatureID
  rw [h.trimmed]
  cases hfid : featureIDForType v c.collectionID with
  | some => simp [Compiler.splitResourceId, hfid, Runtime.equalFold]
  | none =>
    have hplain (hdot : '.' ∉ v) := splitResourceId_of_plain hfid hdot
    rcases h.shape with hsome | hdot | ⟨hlegacy, hhead, hparts⟩
    · simp [hfid] at hsome
    · simp [hfid, cutLast_eq_none hdot, hplain hdot]
    rcases splitResourceId_of_dotted hfid hlegacy hhead hparts with
      hdot | ⟨typeName, id, hcut, hne, hsplit⟩
    · simp [hfid, cutLast_eq_none hdot, hplain hdot]
    · simp only [hfid, hcut, hsplit, hne, ne_eq, not_false_eq_true, true_and]
      split <;> simp

end Reading

/-! ## What they select -/

section Selection

variable {F : Type} {rt : Runtime F} {opts : FESCompileOptions} {ref v : Str}

lemma gmlIdFilter_accepted (hid : Compiler.isGmlId rt ref = true) :
    (∃ r, compileFES rt (gmlIdFilter ref v) opts = .ok r) ↔
      ∃ id, opts.compiler.gmlIdLiteral rt v = .ok id := by
  have hleaf : opts.compiler.compileLeaf rt (.comparison .eq ⟨ref, v⟩) = _ := if_pos hid
  cases hlit : opts.compiler.gmlIdLiteral rt v with
  | error e =>
    rw [hlit] at hleaf
    have herror : compileFES rt (gmlIdFilter ref v) opts = .error e := by
      unfold compileFES gmlIdFilter Compiler.compile Compiler.compileChildren
      rw [Compiler.compilePredicate, hleaf]
      rfl
    simp [herror]
  | ok id =>
    rw [hlit] at hleaf
    refine iff_of_true (compileFES_returns ?_) ⟨id, rfl⟩
    exact forall_mem_singleton.mpr (.leaf hleaf)

lemma resourceIdFilter_accepted :
    (∃ r, compileFES rt (resourceIdFilter v) opts = .ok r) ↔
      ∃ id, opts.compiler.resourceFeatureID rt v = .ok id := by
  cases hres : opts.compiler.resourceFeatureID rt v with
  | error e =>
    have hids : opts.compiler.compileResourceIds rt [v] = .error e := by
      simp [Compiler.compileResourceIds, hres]
      rfl
    have hparts : opts.compiler.ridParts rt (opts.compiler.compileChildren rt [.resourceId v]) =
        (emit (.error e) >>= fun sql => pure [sql]) := by
      rw [← hids]
      rfl
    have herror : compileFES rt (resourceIdFilter v) opts = .error e := by
      unfold compileFES resourceIdFilter Compiler.compile
      simp only [predicateFields, map_cons, Compiler.filterParts, hparts]
      rfl
    simp [herror]
  | ok id =>
    refine iff_of_true (compileFES_returns ?_) ⟨id, rfl⟩
    exact forall_mem_singleton.mpr (.resourceId hres)

variable {Row Val : Type} {r : CompiledFES F} (g : GeometrySql opts.compiler) (E : Engine Row Val)
  (bind : Arg F → Val) {env : Nat → Val} (row : Row)

lemma gmlIdFilter_holds (hid : Compiler.isGmlId rt ref = true)
    (hr : compileFES rt (gmlIdFilter ref v) opts = .ok r) (henv : Binds bind opts.start r.args env) :
    Holds E env row r.sql ↔ ∃ id, opts.compiler.gmlIdLiteral rt v = .ok id ∧
      E.cmp .eq (opts.compiler.idValue g E row) (bind (.str id)) = some true := by
  rw [compileFES_holds (.single (.leaf _)) g hr E bind env row henv,
    filterTruth_singleton _ _ (by simp [Predicate.kind])]
  show opts.compiler.comparisonTruth rt g E bind row .eq ⟨ref, v⟩ = _ ↔ _
  rw [Compiler.comparisonTruth, if_pos hid]
  cases opts.compiler.gmlIdLiteral rt v <;> simp

lemma resourceIdFilter_holds (hr : compileFES rt (resourceIdFilter v) opts = .ok r)
    (henv : Binds bind opts.start r.args env) :
    Holds E env row r.sql ↔ ∃ id, opts.compiler.resourceFeatureID rt v = .ok id ∧
      E.cmp .eq (opts.compiler.idValue g E row) (bind (.str id)) = some true := by
  rw [compileFES_holds (.single (.resourceId v)) g hr E bind env row henv]
  show Truth.all [opts.compiler.idsTruth rt g E bind row [v]] = some true ↔ _
  rw [Truth.all_eq_true, forall_mem_singleton, idsTruth_eq_true]
  simp only [mem_singleton, forall_eq, exists_eq_left]
  exact and_iff_right_of_imp fun ⟨id, hid, _⟩ => ⟨id, hid⟩

end Selection

/-- For every layer, the comparison with `gml:id` selects the features of the resource id, if
both find the id in the value. -/
theorem gmlId_selects_resourceId {F : Type} (rt : Runtime F) (opts : FESCompileOptions)
    (g : GeometrySql opts.compiler) (ref v : Str) (hid : Compiler.isGmlId rt ref = true)
    (h : ReadAlike opts.collectionID v) :
    SameSelection rt opts (gmlIdFilter ref v) (resourceIdFilter v) := by
  have hiff : ∀ id, opts.compiler.gmlIdLiteral rt v = .ok id ↔
      opts.compiler.resourceFeatureID rt v = .ok id := gmlIdLiteral_iff h
  refine ⟨?_, ?_, ?_⟩
  · rw [gmlIdFilter_accepted hid, resourceIdFilter_accepted]
    exact exists_congr hiff
  · intro r r' hr hr' Row Val E bind env env' row henv henv'
    rw [gmlIdFilter_holds g E bind row hid hr henv, resourceIdFilter_holds g E bind row hr' henv']
    simp only [hiff, imp_self]
  · intro r r' hr hr' Row Val E bind env env' row henv henv'
    rw [gmlIdFilter_holds g E bind row hid hr' henv', resourceIdFilter_holds g E bind row hr henv]
    simp only [hiff, imp_self]

/-- An id without the name of a layer. -/
lemma gmlId_selects_plain :
    SameSelection plainRuntime (plainOptions .duckdb) (gmlIdFilter "@gml:id" "7")
      (resourceIdFilter "7") :=
  gmlId_selects_resourceId plainRuntime _ (plainGeometry .duckdb) _ _ rfl
    ⟨rfl, .inr (.inl (by decide))⟩

/-- The legacy spelling, and an id with a dot behind a name in other letters, are resource ids
of the layer; the comparison with `gml:id` is refused. -/
theorem legacy_resourceId_refused :
    ¬ SameSelection plainRuntime { plainOptions .duckdb with collectionID := "Roads" }
      (gmlIdFilter "gml:id" "cite_Roads.1") (resourceIdFilter "cite_Roads.1") ∧
    ¬ SameSelection plainRuntime { plainOptions .duckdb with collectionID := "public.roads" }
      (gmlIdFilter "gml:id" "PUBLIC.roads.7.2") (resourceIdFilter "PUBLIC.roads.7.2") := by
  constructor
  all_goals
    rintro ⟨haccepted, -, -⟩
    rw [gmlIdFilter_accepted rfl, resourceIdFilter_accepted] at haccepted
    obtain ⟨id, hid⟩ := haccepted.mpr ⟨_, rfl⟩
    cases hid

end NeoServer.Wfs.Fes
