import NeoServer.Wfs.Fes.Correct

/-!
# Wfs.Fes.Monotone — one more child

A conjunction that gets one more child should select no more rows, a disjunction no
fewer, wherever they stand under no negation. For disjunctions this holds of every
child. For conjunctions it fails for one kind of child: the resource ids of a
container are one condition, `id IN (…)`, so a resource id added to a conjunction
that has some already adds the feature it names (`addChild_monotone_iff`).
-/

namespace NeoServer.Wfs.Fes

open NeoServer.Sql List
open NeoServer.Filter (Arg)

variable {p : Predicate} {cs : List Predicate}

/-! ## When a container is true -/

section Truth

variable {leaf : Leaf → Truth} {ids : List Str → Truth}

lemma mem_ridTruths {rids} {t : Truth} : t ∈ ridTruths ids rids ↔ rids ≠ [] ∧ t = ids rids := by
  unfold ridTruths
  split <;> simp [*]

lemma mem_childTruths {t : Truth} :
    t ∈ childTruths leaf ids cs ↔
      (∃ p ∈ predicates cs, p.truth leaf ids = t) ∨
        (resourceIds cs ≠ [] ∧ t = ids (resourceIds cs)) := by
  unfold childTruths
  rw [mem_append, predicateTruths_eq, mem_map, mem_ridTruths]

lemma and_eq_true_iff :
    (Predicate.and cs).truth leaf ids = some true ↔
      (∀ p ∈ predicates cs, p.truth leaf ids = some true) ∧
        (resourceIds cs ≠ [] → ids (resourceIds cs) = some true) := by
  have hdef : (Predicate.and cs).truth leaf ids = Truth.all (childTruths leaf ids cs) := by
    simp only [Predicate.truth, childTruths]
  rw [hdef, Truth.all_eq_true]
  simp only [mem_childTruths, or_imp, forall_and, forall_exists_index, and_imp,
    forall_apply_eq_imp_iff₂, forall_eq_apply_imp_iff]

lemma or_eq_true_iff :
    (Predicate.or cs).truth leaf ids = some true ↔
      (∃ p ∈ predicates cs, p.truth leaf ids = some true) ∨
        (resourceIds cs ≠ [] ∧ ids (resourceIds cs) = some true) := by
  have hdef : (Predicate.or cs).truth leaf ids = Truth.any (childTruths leaf ids cs) := by
    simp only [Predicate.truth, childTruths]
  rw [hdef, Truth.any_eq_true, mem_childTruths]
  exact or_congr_right (and_congr_right fun _ => eq_comm)

lemma predicates_append (cs ds : List Predicate) :
    predicates (cs ++ ds) = predicates cs ++ predicates ds := filter_append ..

lemma resourceIds_append (cs ds : List Predicate) :
    resourceIds (cs ++ ds) = resourceIds cs ++ resourceIds ds := filterMap_append ..

variable (before after : List Predicate)

lemma predicates_middle (hp : p.kind ≠ .resourceId) :
    predicates (before ++ p :: after) = predicates before ++ p :: predicates after := by
  simp [predicates, hp]

lemma resourceIds_middle (hp : p.kind ≠ .resourceId) :
    resourceIds (before ++ p :: after) = resourceIds (before ++ after) := by
  rw [resourceIds_append, resourceIds_cons_predicate hp, ← resourceIds_append]

/-- What is in a list with one more element. -/
lemma mem_middle {α : Type} {x y : α} {before after : List α} :
    x ∈ before ++ y :: after ↔ x = y ∨ x ∈ before ++ after := by
  rw [perm_middle.mem_iff, mem_cons]

end Truth

/-! ## Places under no negation -/

/-- A place in a predicate that is reached through `And` and `Or` only. -/
inductive Place
  | here
  | inAnd (before : List Predicate) (place : Place) (after : List Predicate)
  | inOr (before : List Predicate) (place : Place) (after : List Predicate)

/-- The predicate with `p` at that place. -/
def Place.fill : Place → Predicate → Predicate
  | .here, p => p
  | .inAnd before place after, p => .and (before ++ place.fill p :: after)
  | .inOr before place after, p => .or (before ++ place.fill p :: after)

variable {p q : Predicate} (place : Place)

lemma Place.kind_fill (hp : p.kind ≠ .resourceId) :
    (place.fill p).kind ≠ .resourceId := by
  cases place with
  | here => exact hp
  | inAnd | inOr => simp [Place.fill, Predicate.kind]

/-- A predicate that becomes true where another was makes every predicate around it
true where it was. -/
lemma Place.fill_mono {leaf : Leaf → Truth} {ids : List Str → Truth} (hp : p.kind ≠ .resourceId) (hq : q.kind ≠ .resourceId)
    (h : p.truth leaf ids = some true → q.truth leaf ids = some true) :
    (place.fill p).truth leaf ids = some true → (place.fill q).truth leaf ids = some true := by
  induction place with
  | here => exact h
  | inAnd before place after ih =>
    have hkp := place.kind_fill hp
    have hkq := place.kind_fill hq
    simp only [Place.fill, and_eq_true_iff, predicates_middle _ _ hkp, predicates_middle _ _ hkq,
      resourceIds_middle _ _ hkp, resourceIds_middle _ _ hkq, mem_middle, forall_eq_or_imp]
    exact fun h => ⟨⟨ih h.1.1, h.1.2⟩, h.2⟩
  | inOr before place after ih =>
    have hkp := place.kind_fill hp
    have hkq := place.kind_fill hq
    simp only [Place.fill, or_eq_true_iff, predicates_middle _ _ hkp, predicates_middle _ _ hkq,
      resourceIds_middle _ _ hkp, resourceIds_middle _ _ hkq, mem_middle, exists_eq_or_imp]
    exact Or.imp_left (Or.imp_left ih)

/-- Another valid predicate at the same place. -/
lemma Place.fill_valid (hq : q.Valid)
    (h : (place.fill p).Valid) : (place.fill q).Valid := by
  induction place with
  | here => exact hq
  | inAnd before place after ih =>
    cases h with
    | and hne hcs =>
      refine .and (by simp) ?_
      simp only [mem_middle, forall_eq_or_imp] at hcs ⊢
      exact ⟨ih hcs.1, hcs.2⟩
  | inOr before place after ih =>
    cases h with
    | or hne hcs =>
      refine .or (by simp) ?_
      simp only [mem_middle, forall_eq_or_imp] at hcs ⊢
      exact ⟨ih hcs.1, hcs.2⟩

/-- What stands at a place of a valid predicate is valid. -/
lemma Place.valid_of_fill (h : (place.fill p).Valid) : p.Valid := by
  induction place with
  | here => exact h
  | inAnd before place after ih =>
    cases h with
    | and hne hcs => exact ih (hcs _ (mem_middle.mpr (.inl rfl)))
  | inOr before place after ih =>
    cases h with
    | or hne hcs => exact ih (hcs _ (mem_middle.mpr (.inl rfl)))

/-! ## When a resource id selects a row -/

section Ids

variable {F Row Val : Type} {rt : Runtime F} {c : Compiler} {g : GeometrySql c}
  {E : Engine Row Val} {bind : Arg F → Val} {row : Row}

variable {α β ε : Type} {xs : List α} {f : α → Except ε β} {ys : List β}

lemma mapM_ok_iff : xs.mapM f = .ok ys ↔ List.Forall₂ (fun x y => f x = .ok y) xs ys := by
  induction xs generalizing ys with
  | nil =>
    constructor
    · rintro ⟨⟩
      exact .nil
    · rintro ⟨⟩
      rfl
  | cons x xs ih =>
    rw [mapM_cons, except_bind_ok]
    constructor
    · rintro ⟨y, hy, hrest⟩
      obtain ⟨ys', hys, hret⟩ := except_bind_ok.mp hrest
      cases hret
      exact .cons hy (ih.mp hys)
    · rintro (_ | ⟨hy, hys⟩)
      exact ⟨_, hy, except_bind_ok.mpr ⟨_, ih.mpr hys, rfl⟩⟩

/-- The ids of a list resolve together when each does. -/
lemma exists_mapM_ok (h : ∀ x ∈ xs, ∃ y, f x = .ok y) : ∃ ys, xs.mapM f = .ok ys := by
  induction xs with
  | nil => exact ⟨[], rfl⟩
  | cons x xs ih =>
    obtain ⟨y, hy⟩ := h x (mem_cons_self ..)
    obtain ⟨ys, hys⟩ := ih fun z hz => h z (mem_cons_of_mem _ hz)
    exact ⟨y :: ys, mapM_ok_iff.mpr (.cons hy (mapM_ok_iff.mp hys))⟩

lemma forall₂_exists_right {R : α → β → Prop}
    (h : List.Forall₂ R xs ys) {x : α} (hx : x ∈ xs) : ∃ y ∈ ys, R x y := by
  induction h with
  | nil => cases hx
  | cons hxy _ ih =>
    rcases mem_cons.mp hx with rfl | hx
    · exact ⟨_, mem_cons_self .., hxy⟩
    · obtain ⟨y, hy, hr⟩ := ih hx
      exact ⟨y, mem_cons_of_mem _ hy, hr⟩

/-- Some resource ids are true of a row if each names a feature and one of them
names this one. -/
lemma idsTruth_eq_true {rids} :
    c.idsTruth rt g E bind row rids = some true ↔
      (∀ rid ∈ rids, ∃ id, c.resourceFeatureID rt rid = .ok id) ∧
        ∃ rid ∈ rids, ∃ id, c.resourceFeatureID rt rid = .ok id ∧
          E.cmp .eq (c.idValue g E row) (bind (.str id)) = some true := by
  unfold Compiler.idsTruth
  constructor
  · intro h
    cases hids : rids.mapM (c.resourceFeatureID rt) with
    | error =>
      rw [hids] at h
      cases h
    | ok =>
      rw [hids] at h
      have hrel := mapM_ok_iff.mp hids
      rw [Truth.any_eq_true, mem_map] at h
      obtain ⟨id, hid, hcmp⟩ := h
      refine ⟨?_, ?_⟩
      · intro rid hrid
        obtain ⟨id', -, hok⟩ := forall₂_exists_right hrel hrid
        exact ⟨id', hok⟩
      · obtain ⟨rid, hrid, hok⟩ := forall₂_exists_right hrel.flip hid
        exact ⟨rid, hrid, id, hok, hcmp⟩
  · rintro ⟨hall, rid, hrid, id, hok, hcmp⟩
    obtain ⟨ids, hids⟩ := exists_mapM_ok hall
    rw [hids]
    have hrel := mapM_ok_iff.mp hids
    obtain ⟨id', hid', hok'⟩ := forall₂_exists_right hrel hrid
    rw [hok] at hok'
    cases hok'
    rw [Truth.any_eq_true, mem_map]
    exact ⟨id, hid', hcmp⟩

end Ids

/-! ## The compiler fails only where a predicate does -/

section Returns

variable {F : Type} {rt : Runtime F} {c : Compiler}

/-- `m` returns from every state. -/
def Returns {α : Type} (m : C F α) : Prop := ∀ st, ∃ r, m st = .ok r

lemma returns_pure {α : Type} (a : α) : Returns (pure a : C F α) := fun st => ⟨(a, st), rfl⟩

lemma Returns.bind {α β : Type} {m : C F α} {k : α → C F β} (hm : Returns m)
    (hk : ∀ a, Returns (k a)) : Returns (m >>= k) := by
  intro st
  obtain ⟨⟨a, st'⟩, ha⟩ := hm st
  obtain ⟨r, hr⟩ := hk a st'
  exact ⟨r, Prog.bind_eq_ok.mpr ⟨a, st', ha, hr⟩⟩

lemma returns_emit {x : Except FesError (Fragment F)} {f : Fragment F} (h : x = .ok f) :
    Returns (emit x) := by
  intro st
  subst h
  exact ⟨_, rfl⟩

lemma returns_each (skip : Bool) {ms : List (C F Str)} (h : ∀ m ∈ ms, Returns m) :
    Returns (compileEach skip ms) := by
  induction ms with
  | nil => exact returns_pure _
  | cons m ms ih =>
    refine (h m (mem_cons_self ..)).bind fun sql => ?_
    exact (ih fun m' hm' => h m' (mem_cons_of_mem _ hm')).bind fun parts => returns_pure _

lemma returns_collect {ms : List (C F (List Str))} (h : ∀ m ∈ ms, Returns m) :
    Returns (collect ms) := by
  induction ms with
  | nil => exact returns_pure _
  | cons m ms ih =>
    refine (h m (mem_cons_self ..)).bind fun parts => ?_
    exact (ih fun m' hm' => h m' (mem_cons_of_mem _ hm')).bind fun rest => returns_pure _

/-- Every operand in a predicate passes its checks. -/
inductive Compilable (rt : Runtime F) (c : Compiler) : Predicate → Prop
  | and {cs : List Predicate} (h : ∀ p ∈ cs, Compilable rt c p) : Compilable rt c (.and cs)
  | or {cs : List Predicate} (h : ∀ p ∈ cs, Compilable rt c p) : Compilable rt c (.or cs)
  | not {cs : List Predicate} (h : ∀ p ∈ cs, Compilable rt c p) : Compilable rt c (.not cs)
  | leaf {l : Leaf} {f : Fragment F} (h : c.compileLeaf rt l = .ok f) : Compilable rt c (.leaf l)
  | resourceId {rid id : Str} (h : c.resourceFeatureID rt rid = .ok id) :
      Compilable rt c (.resourceId rid)

/-- What a container needs of its children. -/
structure ChildrenReturn (rt : Runtime F) (c : Compiler) (cs : List Predicate) : Prop where
  predicates : ∀ p ∈ predicates cs, Returns (c.compilePredicate rt p)
  resourceIds : ∃ f, c.compileResourceIds rt (resourceIds cs) = .ok f

lemma compileResourceIds_ok {rids} (h : ∀ rid ∈ rids, ∃ id, c.resourceFeatureID rt rid = .ok id) :
    ∃ f, c.compileResourceIds rt rids = .ok f := by
  unfold Compiler.compileResourceIds
  split
  · exact ⟨_, rfl⟩
  · obtain ⟨ids, hids⟩ := exists_mapM_ok h
    rw [hids]
    exact ⟨_, rfl⟩

lemma childrenReturn {cs} (h : ∀ p ∈ cs, Compilable rt c p)
    (ih : ∀ p ∈ cs, Returns (c.compilePredicate rt p)) : ChildrenReturn rt c cs := by
  refine ⟨fun p hp => ih p (mem_of_mem_filter hp), compileResourceIds_ok ?_⟩
  intro rid hrid
  obtain ⟨p, hp, hpr⟩ := mem_filterMap.mp hrid
  cases p with
  | resourceId =>
    cases hpr
    cases h _ hp with
    | resourceId hok => exact ⟨_, hok⟩
  | and _ | or _ | not _ | leaf _ => cases hpr

section ChildrenReturn

variable (h : ChildrenReturn rt c cs)

include h

lemma ChildrenReturn.field (k : Kind) : ∀ m ∈ fieldOf (c.compileChildren rt cs) k, Returns m := by
  intro m hm
  rw [fieldOf_compileChildren] at hm
  obtain ⟨p, hp, rfl⟩ := mem_map.mp hm
  exact h.predicates p (mem_of_mem_filter hp)

lemma ChildrenReturn.ridParts : Returns (c.ridParts rt (c.compileChildren rt cs)) := by
  unfold Compiler.ridParts
  rw [rids_compileChildren]
  obtain ⟨f, hf⟩ := h.resourceIds
  split
  · exact returns_pure _
  · exact (returns_emit hf).bind fun sql => returns_pure _

lemma ChildrenReturn.fieldParts (k : Kind) :
    Returns (c.fieldParts rt (c.compileChildren rt cs) k) := by
  cases k with
  | resourceId => exact h.ridParts
  | and => exact returns_each true (h.field .and)
  | or => exact returns_each true (h.field .or)
  | not => exact returns_each true (h.field .not)
  | leaf k => exact returns_each false (h.field (.leaf k))

lemma ChildrenReturn.collect :
    Returns (Fes.collect (predicateFields.map (c.fieldParts rt (c.compileChildren rt cs)))) := by
  apply returns_collect
  intro m hm
  obtain ⟨k, -, rfl⟩ := mem_map.mp hm
  exact h.fieldParts k

lemma ChildrenReturn.notOperand (ks : List Kind) :
    Returns (c.notOperand rt (c.compileChildren rt cs) ks) := by
  induction ks with
  | nil => exact returns_pure _
  | cons k ks ih =>
    by_cases hk : k = .resourceId
    · subst hk
      unfold Compiler.notOperand
      rw [rids_compileChildren]
      obtain ⟨f, hf⟩ := h.resourceIds
      split
      · exact ih
      · exact returns_emit hf
    · rw [notOperand_cons hk]
      cases hm : fieldOf (c.compileChildren rt cs) k with
      | nil => exact ih
      | cons m => exact h.field k m (by rw [hm]; exact mem_cons_self)

end ChildrenReturn

/-- A predicate whose operands pass their checks is compiled. -/
lemma compilePredicate_returns {p} (h : Compilable rt c p) :
    Returns (c.compilePredicate rt p) := by
  induction h with
  | and h ih | or h ih => exact (childrenReturn h ih).collect.bind fun parts => returns_pure _
  | not h ih => exact ((childrenReturn h ih).notOperand _).bind fun sql => returns_pure _
  | leaf h => exact returns_emit h
  | @resourceId rid id h =>
    have hall : ∀ r ∈ [rid], ∃ i, c.resourceFeatureID rt r = .ok i := by
      intro r hr
      rw [mem_singleton.mp hr]
      exact ⟨id, h⟩
    obtain ⟨f, hf⟩ := compileResourceIds_ok hall
    exact returns_emit hf

/-- So is a filter. -/
lemma compileFES_returns {opts : FESCompileOptions} {filter : FESFilter}
    (h : ∀ p ∈ filter, Compilable rt opts.compiler p) : ∃ r, compileFES rt filter opts = .ok r := by
  have hchildren := childrenReturn h fun p hp => compilePredicate_returns (h p hp)
  have hparts : ∀ k, Returns
      (opts.compiler.filterParts rt (opts.compiler.compileChildren rt filter) k) := by
    intro k
    cases k with
    | resourceId => exact hchildren.ridParts
    | and | or | not | leaf _ =>
      exact returns_each false fun m hm => hchildren.field _ m (mem_of_mem_take hm)
  have hcompile : Returns (opts.compiler.compile rt filter) := by
    refine (returns_collect ?_).bind fun conditions => returns_pure _
    intro m hm
    obtain ⟨k, -, rfl⟩ := mem_map.mp hm
    exact hparts k
  obtain ⟨r, hr⟩ := hcompile ⟨opts.start, []⟩
  unfold compileFES
  rw [hr]
  exact ⟨_, rfl⟩

end Returns

/-! ## One more child -/

section Children

variable {F : Type} (rt : Runtime F) (opts : FESCompileOptions)

/-- A predicate that can be added to a container. -/
structure ValidChild (p : Predicate) : Prop where
  valid : p.Valid
  resolves : ∀ rid, p = .resourceId rid → ∃ id, opts.compiler.resourceFeatureID rt rid = .ok id

/-- Every row that `filter'` selects is selected by `filter`, in every database. -/
def Narrows (filter filter' : FESFilter) : Prop :=
  ∀ r r', compileFES rt filter opts = .ok r → compileFES rt filter' opts = .ok r' →
    ∀ (Row Val : Type) (E : Engine Row Val) (bind : Arg F → Val) (env env' : Nat → Val) (row : Row),
      Binds bind opts.start r.args env → Binds bind opts.start r'.args env' →
      Holds E env' row r'.sql → Holds E env row r.sql

/-- Adding `p` to a conjunction with the resource ids `rids`, anywhere under no
negation, selects no more rows. -/
def AndNarrows (rids : List Str) (p : Predicate) : Prop :=
  ∀ (place : Place) (before after : List Predicate), resourceIds (before ++ after) = rids →
    FilterValid [place.fill (.and (before ++ after))] →
    Narrows rt opts [place.fill (.and (before ++ after))]
      [place.fill (.and (before ++ p :: after))]

/-- Adding `p` to a disjunction, anywhere under no negation, selects no fewer rows. -/
def OrWidens (p : Predicate) : Prop :=
  ∀ (place : Place) (before after : List Predicate),
    FilterValid [place.fill (.or (before ++ after))] →
    Narrows rt opts [place.fill (.or (before ++ p :: after))]
      [place.fill (.or (before ++ after))]

/-- `p` is a resource id for a feature that is not named yet, and there are resource
ids to which it is added. -/
def NamesAnother (rids : List Str) (p : Predicate) : Prop :=
  ∃ rid id, p = .resourceId rid ∧ opts.compiler.resourceFeatureID rt rid = .ok id ∧ rids ≠ [] ∧
    ∀ r ∈ rids, ∃ i, opts.compiler.resourceFeatureID rt r = .ok i ∧ i ≠ id

variable {rt opts}

lemma resourceIds_insert (before after : List Predicate) (rid : Str) :
    resourceIds (before ++ .resourceId rid :: after) =
      resourceIds before ++ rid :: resourceIds after := by
  rw [resourceIds_append]
  rfl

lemma predicates_insert_resourceId (before after : List Predicate) (rid : Str) :
    predicates (before ++ .resourceId rid :: after) = predicates (before ++ after) := by
  rw [predicates_append, predicates_append]
  rfl

/-- Every predicate is a resource id or something else. -/
lemma Predicate.resourceId_or (p : Predicate) :
    (∃ rid, p = .resourceId rid) ∨ p.kind ≠ .resourceId := by
  cases p with
  | resourceId rid => exact .inl ⟨rid, rfl⟩
  | and _ | or _ | not _ | leaf _ => exact .inr (by simp [Predicate.kind])

section Truths

variable {Row Val : Type} (g : GeometrySql opts.compiler) (E : Engine Row Val)
  (bind : Arg F → Val) (row : Row)

/-- The truth of a predicate in a database. -/
def sqlTruth (rt : Runtime F) (p : Predicate) : Truth :=
  p.truth (opts.compiler.leafTruth rt g E bind row) (opts.compiler.idsTruth rt g E bind row)

variable {g E bind row}

variable {before after : List Predicate}

lemma and_addChild (hnot : ¬ NamesAnother rt opts (resourceIds (before ++ after)) p)
    (h : sqlTruth g E bind row rt (.and (before ++ p :: after)) = some true) :
    sqlTruth g E bind row rt (.and (before ++ after)) = some true := by
  unfold sqlTruth at h ⊢
  rw [and_eq_true_iff] at h ⊢
  obtain ⟨hpred, hrid⟩ := h
  rcases p.resourceId_or with ⟨rid, rfl⟩ | hp
  · rw [predicates_insert_resourceId] at hpred
    refine ⟨hpred, fun hne => ?_⟩
    rw [resourceIds_insert] at hrid
    obtain ⟨hall, r, hr, id, hok, hcmp⟩ := idsTruth_eq_true.mp (hrid (by simp))
    simp only [mem_middle, forall_eq_or_imp, ← resourceIds_append] at hall hr
    rw [idsTruth_eq_true]
    refine ⟨hall.2, ?_⟩
    rcases hr with rfl | hmem
    · -- the row is the one just named, which had been named before
      by_contra hnone
      refine hnot ⟨r, id, rfl, hok, hne, fun r' hr' => ?_⟩
      obtain ⟨i, hi⟩ := hall.2 r' hr'
      refine ⟨i, hi, ?_⟩
      rintro rfl
      exact hnone ⟨r', hr', i, hi, hcmp⟩
    · exact ⟨r, hmem, id, hok, hcmp⟩
  · rw [resourceIds_middle _ _ hp] at hrid
    simp only [predicates_middle _ _ hp, mem_middle, forall_eq_or_imp, ← predicates_append] at hpred
    exact ⟨hpred.2, hrid⟩

lemma or_addChild (hp : ValidChild rt opts p)
    (h : sqlTruth g E bind row rt (.or (before ++ after)) = some true) :
    sqlTruth g E bind row rt (.or (before ++ p :: after)) = some true := by
  unfold sqlTruth at h ⊢
  rw [or_eq_true_iff] at h ⊢
  rcases p.resourceId_or with ⟨rid, rfl⟩ | hkind
  · rw [predicates_insert_resourceId]
    refine h.imp_right fun ⟨_, h⟩ => ?_
    rw [resourceIds_insert]
    refine ⟨by simp, ?_⟩
    rw [idsTruth_eq_true] at h ⊢
    obtain ⟨hall, r, hr, hsel⟩ := h
    simp only [mem_middle, forall_eq_or_imp, ← resourceIds_append]
    exact ⟨⟨hp.resolves rid rfl, hall⟩, r, .inr hr, hsel⟩
  · rw [predicates_middle _ _ hkind, resourceIds_middle _ _ hkind]
    refine h.imp_left fun ⟨q, hq, ht⟩ => ⟨q, ?_, ht⟩
    rw [mem_middle, ← predicates_append]
    exact .inr hq

end Truths

variable {rids : List Str}

lemma filterTruth_singleton (leaf : Leaf → Truth) (ids : List Str → Truth)
    (hk : p.kind ≠ .resourceId) : filterTruth leaf ids [p] = p.truth leaf ids := by
  unfold filterTruth childTruths
  rw [predicateTruths_cons_predicate leaf ids hk, resourceIds_cons_predicate hk]
  simp [predicateTruths, ridTruths, resourceIds]

/-- One filter narrows another if it is true on fewer rows. -/
lemma narrows_of_truth (g : GeometrySql opts.compiler) {p q} (hp : p.Valid)
    (hq : q.Valid) (hkp : p.kind ≠ .resourceId) (hkq : q.kind ≠ .resourceId)
    (h : ∀ (Row Val : Type) (E : Engine Row Val) (bind : Arg F → Val) (row : Row),
      sqlTruth g E bind row rt q = some true → sqlTruth g E bind row rt p = some true) :
    Narrows rt opts [p] [q] := by
  intro r r' hr hr' Row Val E bind env env' row henv henv' hholds
  rw [compileFES_holds (.single hq) g hr' E bind env' row henv',
    filterTruth_singleton _ _ hkq] at hholds
  rw [compileFES_holds (.single hp) g hr E bind env row henv, filterTruth_singleton _ _ hkp]
  exact h Row Val E bind row hholds

/-- A valid connective with one more child. -/
lemma valid_insert (hp : p.Valid) {before after}
    (h : ∀ q ∈ before ++ after, q.Valid) : ∀ q ∈ before ++ p :: after, q.Valid := by
  simp only [mem_middle, forall_eq_or_imp]
  exact ⟨hp, h⟩

lemma andNarrows_of_not (g : GeometrySql opts.compiler)
    (hp : ValidChild rt opts p) (hnot : ¬ NamesAnother rt opts rids p) :
    AndNarrows rt opts rids p := by
  rintro place before after rfl hvalid
  have hand : (place.fill (.and (before ++ after))).Valid :=
    hvalid.valid.2 _ (mem_singleton.mpr rfl)
  have hmore : (Predicate.and (before ++ p :: after)).Valid := by
    have hin := place.valid_of_fill hand
    cases hin with
    | and hne hcs => exact .and (by simp) (valid_insert hp.valid hcs)
  have hk : ∀ cs, (Predicate.and cs).kind ≠ .resourceId := by simp [Predicate.kind]
  refine narrows_of_truth g hand (place.fill_valid hmore hand) (place.kind_fill (hk _))
    (place.kind_fill (hk _)) ?_
  intro Row Val E bind row
  exact place.fill_mono (hk _) (hk _) (and_addChild hnot)

lemma orWidens (g : GeometrySql opts.compiler) (hp : ValidChild rt opts p) :
    OrWidens rt opts p := by
  intro place before after hvalid
  have hor : (place.fill (.or (before ++ after))).Valid :=
    hvalid.valid.2 _ (mem_singleton.mpr rfl)
  have hmore : (Predicate.or (before ++ p :: after)).Valid := by
    have hin := place.valid_of_fill hor
    cases hin with
    | or hne hcs => exact .or (by simp) (valid_insert hp.valid hcs)
  have hk : ∀ cs, (Predicate.or cs).kind ≠ .resourceId := by simp [Predicate.kind]
  refine narrows_of_truth g (place.fill_valid hmore hor) hor (place.kind_fill (hk _))
    (place.kind_fill (hk _)) ?_
  intro Row Val E bind row
  exact place.fill_mono (hk _) (hk _) (or_addChild hp)

/-! ### Resource ids in a conjunction -/

/-- A truth value among values is read back. -/
lemma truth_inl (t : Truth) : (match (.inl t : Truth ⊕ Str) with
      | .inl t => t
      | .inr _ => none) = t := rfl

/-- A database in which every row has the id `id`. -/
def idEngine (id : Str) : Engine Unit (Truth ⊕ Str) where
  truth v := match v with
    | .inl t => t
    | .inr _ => none
  ofTruth := .inl
  truth_ofTruth := truth_inl
  col _ _ _ := .inr id
  int _ := .inl none
  str := .inr
  const := .inr
  isNull _ := false
  cmp op a b := match op with
    | .eq => some (decide (a = b))
    | _ => none
  cmp_mirror op a b := by cases op <;> simp [CmpOp.mirror, eq_comm]
  like _ _ _ := none
  arith _ a _ := a
  cast _ _ := .inr id
  call _ _ := .inl none

/-- A conjunction of resource ids. -/
def idsOnly (rids : List Str) : Predicate := .and (rids.map .resourceId)

lemma resourceIds_map (rids : List Str) : resourceIds (rids.map .resourceId) = rids := by
  induction rids with
  | nil => rfl
  | cons rid rids ih => exact congrArg (rid :: ·) ih

lemma predicates_map (rids : List Str) : predicates (rids.map Predicate.resourceId) = [] := by
  induction rids with
  | nil => rfl
  | cons rid rids ih => exact ih

lemma idsOnly_valid (hne : rids ≠ []) : (idsOnly rids).Valid := by
  refine .and (by simpa using hne) ?_
  intro p hp
  obtain ⟨rid, -, rfl⟩ := mem_map.mp hp
  exact .resourceId rid

lemma idsOnly_truth {Row Val : Type} (rt : Runtime F) (g : GeometrySql opts.compiler) (E : Engine Row Val)
    (bind : Arg F → Val) (row : Row) (hne : rids ≠ []) :
    sqlTruth g E bind row rt (idsOnly rids) = some true ↔
      opts.compiler.idsTruth rt g E bind row rids = some true := by
  unfold sqlTruth idsOnly
  rw [and_eq_true_iff, predicates_map, resourceIds_map]
  constructor
  · intro h
    exact h.2 hne
  · intro h
    refine ⟨?_, fun _ => h⟩
    intro p hp
    cases hp

/-- Resource ids that name features are compiled, and select the rows they name. -/
lemma idsOnly_selects (g : GeometrySql opts.compiler) (hne : rids ≠ [])
    (hall : ∀ r ∈ rids, ∃ i, opts.compiler.resourceFeatureID rt r = .ok i) (id : Str) :
    ∃ r, compileFES rt [idsOnly rids] opts = .ok r ∧
      ∀ env, Binds textArg opts.start r.args env →
        (Holds (idEngine id) env () r.sql ↔
          ∃ rid ∈ rids, opts.compiler.resourceFeatureID rt rid = .ok id) := by
  have hcomp : ∀ p ∈ [idsOnly rids], Compilable rt opts.compiler p := by
    intro p hp
    rw [mem_singleton.mp hp]
    refine .and ?_
    intro q hq
    obtain ⟨rid, hrid, rfl⟩ := mem_map.mp hq
    obtain ⟨i, hi⟩ := hall rid hrid
    exact .resourceId hi
  obtain ⟨r, hr⟩ := compileFES_returns hcomp
  refine ⟨r, hr, ?_⟩
  intro env henv
  have hk : (idsOnly rids).kind ≠ .resourceId := by simp [idsOnly, Predicate.kind]
  have htruth := idsOnly_truth rt g (idEngine id) textArg () hne
  unfold sqlTruth at htruth
  rw [compileFES_holds (.single (idsOnly_valid hne)) g hr (idEngine id) textArg env () henv,
    filterTruth_singleton _ _ hk, htruth, idsTruth_eq_true]
  constructor
  · rintro ⟨-, rid, hrid, i, hi, hcmp⟩
    have heq : (Sum.inr id : Truth ⊕ Str) = Sum.inr i :=
      of_decide_eq_true (Option.some.inj hcmp)
    cases heq
    exact ⟨rid, hrid, hi⟩
  · rintro ⟨rid, hrid, hi⟩
    exact ⟨hall, rid, hrid, id, hi, congrArg some (decide_eq_true rfl)⟩

/-- A resource id that names another feature is selected after it is added to a
conjunction of resource ids, and was not before. -/
lemma not_andNarrows (g : GeometrySql opts.compiler)
    (h : NamesAnother rt opts rids p) : ¬ AndNarrows rt opts rids p := by
  obtain ⟨rid, id, rfl, hid, hne, hall⟩ := h
  intro hnarrows
  have hold : ∀ r ∈ rids, ∃ i, opts.compiler.resourceFeatureID rt r = .ok i := by
    intro r hr
    obtain ⟨i, hi, -⟩ := hall r hr
    exact ⟨i, hi⟩
  have hnew : ∀ r ∈ rids ++ [rid], ∃ i, opts.compiler.resourceFeatureID rt r = .ok i := by
    intro r hr
    rcases mem_append.mp hr with hr | hr
    · exact hold r hr
    · rw [mem_singleton.mp hr]
      exact ⟨id, hid⟩
  obtain ⟨r, hr, hsel⟩ := idsOnly_selects g hne hold id
  obtain ⟨r', hr', hsel'⟩ := idsOnly_selects g (by simp) hnew id
  have hlist : (rids ++ [rid]).map Predicate.resourceId =
      rids.map .resourceId ++ .resourceId rid :: [] := by simp
  have hstep := hnarrows .here (rids.map .resourceId) []
    (by rw [append_nil, resourceIds_map])
    (by rw [append_nil]; exact .single (idsOnly_valid hne))
  rw [append_nil, ← hlist] at hstep
  have hbinds := binds_bindFrom (A := Arg F) textArg opts.start r.args (.inl none)
  have hbinds' := binds_bindFrom (A := Arg F) textArg opts.start r'.args (.inl none)
  have hholds' := (hsel' _ hbinds').mpr ⟨rid, by simp, hid⟩
  have hholds := hstep r r' hr hr' Unit _ (idEngine id) textArg _ _ () hbinds hbinds' hholds'
  obtain ⟨r₀, hr₀, hid₀⟩ := (hsel _ hbinds).mp hholds
  obtain ⟨i, hi, hi_ne⟩ := hall r₀ hr₀
  rw [hid₀] at hi
  cases hi
  exact hi_ne rfl

end Children

/-- Adding a child to a conjunction never adds a row, unless the child is a resource
id that names another feature than the resource ids already there; adding a child
to a disjunction never removes one. -/
theorem addChild_monotone_iff {F : Type} (rt : Runtime F) (opts : FESCompileOptions)
    (g : GeometrySql opts.compiler) (rids : List Str) (p : Predicate) (hp : ValidChild rt opts p) :
    (AndNarrows rt opts rids p ↔ ¬ NamesAnother rt opts rids p) ∧ OrWidens rt opts p := by
  refine ⟨⟨?_, ?_⟩, orWidens g hp⟩
  · intro hnarrows hnames
    exact not_andNarrows g hnames hnarrows
  · exact andNarrows_of_not g hp

lemma validChild_resourceId :
    ValidChild plainRuntime (plainOptions .postgis) (.resourceId "2") := by
  refine ⟨.resourceId _, ?_⟩
  rintro rid ⟨⟩
  exact ⟨"2", rfl⟩

theorem addChild_monotone_iff_sample :
    ValidChild plainRuntime (plainOptions .postgis) (.resourceId "2") ∧
    (AndNarrows plainRuntime (plainOptions .postgis) ["1"] (.resourceId "2") ↔
      ¬ NamesAnother plainRuntime (plainOptions .postgis) ["1"]
        (.resourceId "2")) ∧
    OrWidens plainRuntime (plainOptions .postgis) (.resourceId "2") :=
  ⟨validChild_resourceId,
    addChild_monotone_iff plainRuntime (plainOptions .postgis) (plainGeometry .postgis)
      ["1"] (.resourceId "2") validChild_resourceId⟩

/-- A conjunction of `ResourceId` elements. -/
def idDocument (rids : List String) : List Xml :=
  [element "Filter" [] [element "And" [] (rids.map fun rid => element "ResourceId" [("rid", rid)] [])]]

def oneId : CompiledFES Unit := ⟨"((t.\"id\"::text IN ($1)))", [.str "1"], 2⟩

def twoIds : CompiledFES Unit :=
  ⟨"((t.\"id\"::text IN ($1, $2)))", [.str "1", .str "2"], 3⟩

/-- The feature `2` is not in `And(1)`, but it is in `And(1, 2)`. -/
theorem and_resourceId_widens :
    parseFESFilter (idDocument ["1"]) = .ok [idsOnly ["1"]] ∧
    parseFESFilter (idDocument ["1", "2"]) = .ok [idsOnly ["1", "2"]] ∧
    compileFES plainRuntime [idsOnly ["1"]] (plainOptions .postgis) = .ok oneId ∧
    compileFES plainRuntime [idsOnly ["1", "2"]] (plainOptions .postgis) =
      .ok twoIds ∧
    ¬ Holds textEngine (bindFrom textArg 1 oneId.args (.inl none)) (fun _ => "2")
      oneId.sql ∧
    Holds textEngine (bindFrom textArg 1 twoIds.args (.inl none)) (fun _ => "2")
      twoIds.sql := by
  have hone : compileFES plainRuntime [idsOnly ["1"]] (plainOptions .postgis) =
      .ok oneId := rfl
  have htwo : compileFES plainRuntime [idsOnly ["1", "2"]] (plainOptions .postgis) =
      .ok twoIds := rfl
  refine ⟨rfl, rfl, hone, htwo, ?_, ?_⟩
  · rw [compileFES_holds (.single (idsOnly_valid (by simp))) (plainGeometry .postgis) hone
      textEngine textArg _ _ (binds_bindFrom textArg 1 oneId.args (.inl none))]
    decide
  · rw [compileFES_holds (.single (idsOnly_valid (by simp))) (plainGeometry .postgis) htwo
      textEngine textArg _ _ (binds_bindFrom textArg 1 twoIds.args (.inl none))]
    decide

end NeoServer.Wfs.Fes
