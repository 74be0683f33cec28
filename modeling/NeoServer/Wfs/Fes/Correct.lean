import NeoServer.Wfs.Fes.Leaves
import Mathlib.Data.List.Perm.Basic
import Mathlib.Data.List.Nodup

/-!
# Wfs.Fes.Correct — the SQL of a filter means what the filter means

A compilation `Compiles` to a truth value if, from any state, the text it returns
spells a tree that has that value whenever the arguments it appended are bound to
the placeholders it took. The rules below follow the program: a predicate emits its
fragment, a container collects the parts of its fields, a join puts them together.
Children are compiled kind by kind and not in document order; conjunction and
disjunction do not see the difference (`grouped_perm`).

Main results: `compilePredicate_compiles`, `compile_compiles`, and for documents
`compileFES_holds_iff`.
-/

namespace NeoServer.Wfs.Fes

open NeoServer.Sql List Prog
open NeoServer.Filter (Arg)

/-! ## Grouping -/

variable {α κ : Type} {keys : List κ}

/-- Putting an item in front of its group puts it in front of the list. -/
lemma flatMap_cons_perm [DecidableEq κ] (hnodup : keys.Nodup)
    {k₀ : κ} (hk₀ : k₀ ∈ keys) (x : α) (groups : κ → List α) :
    (keys.flatMap fun k => if k₀ = k then x :: groups k else groups k).Perm
      (x :: keys.flatMap groups) := by
  induction keys with
  | nil => cases hk₀
  | cons k keys ih =>
    rw [nodup_cons] at hnodup
    rw [flatMap_cons, flatMap_cons]
    by_cases hk : k₀ = k
    · subst hk
      have hrest : (keys.flatMap fun k => if k₀ = k then x :: groups k else groups k) =
          keys.flatMap groups := by
        refine flatMap_congr ?_
        intro k hmem
        refine if_neg ?_
        rintro rfl
        exact hnodup.1 hmem
      rw [if_pos rfl, hrest]
      exact List.Perm.refl _
    · have hmem : k₀ ∈ keys := (mem_cons.mp hk₀).resolve_left hk
      rw [if_neg hk]
      exact ((ih hnodup.2 hmem).append_left _).trans perm_middle

/-- Grouping a list by distinct keys that cover it only changes its order. -/
theorem grouped_perm [DecidableEq κ] (hnodup : keys.Nodup)
    (key : α → κ) {xs : List α} (hcover : ∀ x ∈ xs, key x ∈ keys) :
    (keys.flatMap fun k => xs.filter fun x => key x = k).Perm xs := by
  induction xs with
  | nil => simp
  | cons x xs ih =>
    have hx := hcover x (mem_cons_self ..)
    have hgroups : (keys.flatMap fun k => (x :: xs).filter fun x => key x = k) =
        keys.flatMap fun k => if key x = k then x :: xs.filter (fun x => key x = k)
          else xs.filter fun x => key x = k := by
      refine flatMap_congr ?_
      intro k _
      by_cases hk : key x = k <;> simp [hk]
    rw [hgroups]
    refine (flatMap_cons_perm hnodup hx x _).trans ?_
    exact (ih fun y hy => hcover y (mem_cons_of_mem _ hy)).cons x

variable {F Row Val : Type}

/-! ## Compilations and truth values -/

section Compiles

variable (E : Engine Row Val) (bind : Arg F → Val) (row : Row)

/-- Whatever `m` returns is an operand of a connective with truth value `t`. -/
def Compiles (m : C F Str) (t : Truth) : Prop :=
  ∀ ⦃st : CState F⦄ ⦃sql : Str⦄ ⦃st' : CState F⦄, m st = .ok (sql, st') →
    ∃ args e, st' = ⟨st.paramIdx + args.length, st.args ++ args⟩ ∧ SpellsConjunct sql e ∧
      ∀ env, Binds bind st.paramIdx args env → e.truth E env row = t

/-- The same for several parts. -/
def CompilesAll (m : C F (List Str)) (ts : List Truth) : Prop :=
  ∀ ⦃st : CState F⦄ ⦃parts : List Str⦄ ⦃st' : CState F⦄, m st = .ok (parts, st') →
    ∃ args es, st' = ⟨st.paramIdx + args.length, st.args ++ args⟩ ∧
      List.Forall₂ SpellsConjunct parts es ∧ es.length = ts.length ∧
      ∀ env, Binds bind st.paramIdx args env → es.map (fun e => e.truth E env row) = ts

variable {E bind row}

variable {t : Truth} {m : C F (List Str)} {ts : List Truth}

lemma compiles_emit {x}
    (h : ∀ f, x = .ok f → f.Denotes E bind row t) : Compiles E bind row (emit x) t := by
  intro st sql st' hm
  obtain ⟨f, st₁, hf, hm⟩ := bind_eq_ok.mp hm
  cases x with
  | error => cases hf
  | ok =>
    cases hf
    cases hm
    obtain ⟨e, hs, hp, ht⟩ := h f rfl st.paramIdx
    exact ⟨f.args, e, rfl, ⟨hs, hp⟩, ht⟩

lemma compilesAll_nil : CompilesAll E bind row (pure []) [] := by
  rintro st parts st' ⟨⟩
  exact ⟨[], [], by simp, .nil, rfl, fun _ _ => rfl⟩

/-- Two compilations in a row bind their arguments one after the other. -/
lemma CompilesAll.append {m₁ m₂} {ts₁ ts₂}
    (h₁ : CompilesAll E bind row m₁ ts₁) (h₂ : CompilesAll E bind row m₂ ts₂) :
    CompilesAll E bind row (do let a ← m₁; let b ← m₂; return a ++ b) (ts₁ ++ ts₂) := by
  intro st parts st' hm
  obtain ⟨a, st₁, ha, hm⟩ := bind_eq_ok.mp hm
  obtain ⟨b, st₂, hb, hm⟩ := bind_eq_ok.mp hm
  cases hm
  obtain ⟨args₁, es₁, rfl, hs₁, hl₁, ht₁⟩ := h₁ ha
  obtain ⟨args₂, es₂, rfl, hs₂, hl₂, ht₂⟩ := h₂ hb
  refine ⟨args₁ ++ args₂, es₁ ++ es₂, ?_, rel_append hs₁ hs₂, ?_, ?_⟩
  · simp [Nat.add_assoc]
  · simp [hl₁, hl₂]
  · intro env henv
    rw [binds_append] at henv
    rw [map_append, ht₁ env henv.1, ht₂ env henv.2]

lemma ne_nil_of_spells {s : Str} {e : Expr} (h : Spells s e) : s ≠ [] := by
  rintro rfl
  have hp := h.parse
  cases hp

/-- One part. -/
lemma Compiles.all {m : C F Str} (h : Compiles E bind row m t) :
    CompilesAll E bind row (do let sql ← m; return [sql]) [t] := by
  intro st parts st' hm
  obtain ⟨sql, st₁, hsql, hm⟩ := bind_eq_ok.mp hm
  cases hm
  obtain ⟨args, e, hst, hs, ht⟩ := h hsql
  refine ⟨args, [e], hst, .cons hs .nil, rfl, ?_⟩
  intro env henv
  rw [map_singleton, ht env henv]

/-- The members of a field. None of them is empty, so none is left out. -/
lemma compilesAll_each (skip : Bool) {ms} (h : List.Forall₂ (Compiles E bind row) ms ts) :
    CompilesAll E bind row (compileEach skip ms) ts := by
  induction h with
  | nil => exact compilesAll_nil
  | @cons m t ms ts hm _ ih =>
    intro st parts st' hrun
    obtain ⟨sql, st₁, hsql, hrun⟩ := bind_eq_ok.mp hrun
    obtain ⟨rest, st₂, hrest, hrun⟩ := bind_eq_ok.mp hrun
    have hne : sql ≠ [] := by
      obtain ⟨args, e, -, hs, -⟩ := hm hsql
      exact ne_nil_of_spells hs.1
    have hskip : (skip && decide (sql = [])) = false := by simp [hne]
    rw [hskip] at hrun
    -- with nothing left out, the loop appends the first part to the others
    have happ := hm.all.append ih
    refine happ ?_
    rw [bind_eq_ok]
    refine ⟨[sql], st₁, ?_, ?_⟩
    · rw [bind_eq_ok]
      exact ⟨sql, st₁, hsql, rfl⟩
    · rw [bind_eq_ok]
      exact ⟨rest, st₂, hrest, hrun⟩

lemma compilesAll_collect {ms} {tss} (h : List.Forall₂ (CompilesAll E bind row) ms tss) :
    CompilesAll E bind row (collect ms) tss.flatten := by
  induction h with
  | nil => exact compilesAll_nil
  | cons hm _ ih => exact hm.append ih

/-- Several parts have a first one. -/
lemma CompilesAll.uncons (h : CompilesAll E bind row m ts) (hne : ts ≠ []) {st st'} {parts}
    (hm : m st = .ok (parts, st')) :
    ∃ part rest e es args, parts = part :: rest ∧
      st' = ⟨st.paramIdx + args.length, st.args ++ args⟩ ∧ SpellsConjunct part e ∧
      List.Forall₂ SpellsConjunct rest es ∧
      ∀ env, Binds bind st.paramIdx args env →
        (e :: es).map (fun e => e.truth E env row) = ts := by
  obtain ⟨args, es, hst, hs, hl, ht⟩ := h hm
  cases hs with
  | nil => exact absurd (length_eq_zero_iff.mp hl.symm) hne
  | @cons part e rest es hpart hrest =>
    exact ⟨part, rest, e, es, args, rfl, hst, hpart, hrest, ht⟩

/-- Parts joined by `AND`, in parentheses. -/
lemma CompilesAll.joinAnd (h : CompilesAll E bind row m ts) (hne : ts ≠ []) :
    Compiles E bind row (do let parts ← m; return Compiler.joinParts " AND " parts)
      (Truth.all ts) := by
  intro st sql st' hm
  obtain ⟨parts, st₁, hparts, hm⟩ := bind_eq_ok.mp hm
  cases hm
  obtain ⟨part, rest, e, es, args, rfl, hst, hpart, hrest, ht⟩ := h.uncons hne hparts
  have hprec := hpart.2
  refine ⟨args, .paren (conj e es), hst, ⟨?_, by simp [Expr.prec]⟩, ?_⟩
  · exact (hpart.1.conj (by omega) hrest).parens
  · intro env henv
    rw [truth_paren, truth_conj, ht env henv]

/-- Parts joined by `OR`, in parentheses. -/
lemma CompilesAll.joinOr (h : CompilesAll E bind row m ts) (hne : ts ≠ []) :
    Compiles E bind row (do let parts ← m; return Compiler.joinParts " OR " parts)
      (Truth.any ts) := by
  intro st sql st' hm
  obtain ⟨parts, st₁, hparts, hm⟩ := bind_eq_ok.mp hm
  cases hm
  obtain ⟨part, rest, e, es, args, rfl, hst, hpart, hrest, ht⟩ := h.uncons hne hparts
  have hrest' : List.Forall₂ (fun b e => Spells b e ∧ 1 ≤ e.prec) rest es :=
    hrest.imp fun _ _ hb => ⟨hb.1, le_trans (by decide) hb.2⟩
  refine ⟨args, .paren (disj e es), hst, ⟨?_, by simp [Expr.prec]⟩, ?_⟩
  · exact (hpart.1.disj hrest').parens
  · intro env henv
    rw [truth_paren, truth_disj, ht env henv]

/-- `NOT` needs no parentheses around an operand of a connective. -/
lemma Compiles.not {m : C F Str} (h : Compiles E bind row m t) :
    Compiles E bind row
      (do let sql ← m; return if sql = [] then [] else "NOT ".toList ++ sql) t.not := by
  intro st sql st' hm
  obtain ⟨operand, st₁, hoperand, hm⟩ := bind_eq_ok.mp hm
  obtain ⟨args, e, hst, hs, ht⟩ := h hoperand
  rw [if_neg (ne_nil_of_spells hs.1)] at hm
  cases hm
  refine ⟨args, .not e, hst, ⟨hs.1.not hs.2, by simp [Expr.prec]⟩, ?_⟩
  intro env henv
  rw [truth_not, ht env henv]

end Compiles

/-! ## Containers -/

section Containers

variable {rt : Runtime F} {c : Compiler} (g : GeometrySql c) (E : Engine Row Val)
  (bind : Arg F → Val) (row : Row)

lemma rids_compileChildren (cs : List Predicate) :
    rids (c.compileChildren rt cs) = resourceIds cs := by
  induction cs with
  | nil => rfl
  | cons p cs ih =>
    cases p with
    | resourceId rid => exact congrArg (rid :: ·) ih
    | and _ | or _ | not _ | leaf _ => exact ih

/-- The field of a kind holds the children of that kind. -/
lemma fieldOf_compileChildren (cs : List Predicate) (k : Kind) :
    fieldOf (c.compileChildren rt cs) k =
      ((predicates cs).filter fun p => p.kind = k).map (c.compilePredicate rt) := by
  induction cs with
  | nil => rfl
  | cons p cs ih =>
    by_cases hrid : p.kind = .resourceId
    · cases p with
      | resourceId => exact ih
      | and _ | or _ | not _ | leaf _ => cases hrid
    · have hchild : c.compileChildren rt (p :: cs) =
          .predicate p.kind (c.compilePredicate rt p) :: c.compileChildren rt cs := by
        cases p with
        | resourceId => exact absurd rfl hrid
        | and _ | or _ | not _ | leaf _ => rfl
      have hpred : predicates (p :: cs) = p :: predicates cs := by
        simp [predicates, hrid]
      rw [hchild, hpred, filter_cons]
      by_cases hk : p.kind = k
      · rw [if_pos (decide_eq_true hk), map_cons, ← ih]
        exact filterMap_cons_some (if_pos hk)
      · rw [if_neg (by simpa using hk), ← ih]
        exact filterMap_cons_none (if_neg hk)

/-- The fields before `ResourceId`, which is the last one. -/
def predicateKinds : List Kind := predicateFields.dropLast

lemma predicateFields_eq : predicateFields = predicateKinds ++ [.resourceId] := rfl

lemma nodup_predicateKinds : predicateKinds.Nodup :=
  nodup_predicateFields.sublist (dropLast_sublist _)

lemma mem_predicateKinds {k : Kind} : k ∈ predicateKinds ↔ k ≠ .resourceId := by
  constructor
  · rintro hk rfl
    exact absurd hk (by decide)
  · intro hne
    have hmem := mem_predicateFields k
    rw [predicateFields_eq] at hmem
    simpa [hne] using hmem

/-- A predicate that is compiled to its meaning. -/
def Sound (rt : Runtime F) (p : Predicate) : Prop :=
  Compiles E bind row (c.compilePredicate rt p)
    (p.truth (c.leafTruth rt g E bind row) (c.idsTruth rt g E bind row))

variable {E bind row}

lemma compiles_rids {rids} (hne : rids ≠ []) :
    Compiles E bind row (emit (c.compileResourceIds rt rids)) (c.idsTruth rt g E bind row rids) :=
  compiles_emit fun _ hf => compileResourceIds_denotes g hne hf

/-- The resource ids of a container are one part. -/
lemma compilesAll_ridParts (cs : List Predicate) :
    CompilesAll E bind row (c.ridParts rt (c.compileChildren rt cs))
      (ridTruths (c.idsTruth rt g E bind row) (resourceIds cs)) := by
  unfold Compiler.ridParts ridTruths
  rw [rids_compileChildren]
  split
  · exact compilesAll_nil
  · rename_i hne
    exact (compiles_rids g hne).all

/-- The truth values of the children of a kind. -/
def fieldTruths (rt : Runtime F) (E : Engine Row Val) (bind : Arg F → Val) (row : Row)
    (cs : List Predicate) (k : Kind) : List Truth :=
  ((predicates cs).filter fun p => p.kind = k).map
    (Predicate.truth (c.leafTruth rt g E bind row) (c.idsTruth rt g E bind row))

variable {cs : List Predicate}

lemma compilesAll_field
    (hcs : ∀ p ∈ predicates cs, Sound g E bind row rt p) (skip : Bool) (k : Kind) :
    CompilesAll E bind row (compileEach skip (fieldOf (c.compileChildren rt cs) k))
      (fieldTruths g rt E bind row cs k) := by
  rw [fieldOf_compileChildren]
  apply compilesAll_each
  unfold fieldTruths
  rw [forall₂_map_left_iff, forall₂_map_right_iff, forall₂_same]
  intro p hp
  exact hcs p (mem_of_mem_filter hp)

/-- All parts of a container, kind by kind. -/
lemma compilesAll_fields {parts : Kind → C F (List Str)}
    (hrid : parts .resourceId = c.ridParts rt (c.compileChildren rt cs))
    (hparts : ∀ k ∈ predicateKinds,
      CompilesAll E bind row (parts k) (fieldTruths g rt E bind row cs k)) :
    CompilesAll E bind row (collect (predicateFields.map parts))
      (predicateKinds.flatMap (fieldTruths g rt E bind row cs) ++
        ridTruths (c.idsTruth rt g E bind row) (resourceIds cs)) := by
  have hall : List.Forall₂ (CompilesAll E bind row) (predicateFields.map parts)
      (predicateKinds.map (fieldTruths g rt E bind row cs) ++
        [ridTruths (c.idsTruth rt g E bind row) (resourceIds cs)]) := by
    rw [predicateFields_eq, map_append]
    refine rel_append ?_ ?_
    · rw [forall₂_map_left_iff, forall₂_map_right_iff, forall₂_same]
      exact hparts
    · rw [map_singleton, hrid]
      exact .cons (compilesAll_ridParts g cs) .nil
  have hcollect := compilesAll_collect hall
  simpa [flatMap_def] using hcollect

/-- Kind by kind or in document order, a container has the same children. -/
lemma fieldTruths_perm (rt : Runtime F) (E : Engine Row Val) (bind : Arg F → Val) (row : Row)
    (cs : List Predicate) :
    (predicateKinds.flatMap (fieldTruths g rt E bind row cs) ++
        ridTruths (c.idsTruth rt g E bind row) (resourceIds cs)).Perm
      (childTruths (c.leafTruth rt g E bind row) (c.idsTruth rt g E bind row) cs) := by
  unfold childTruths fieldTruths
  rw [predicateTruths_eq, ← map_flatMap]
  refine List.Perm.append_right _ (List.Perm.map _ ?_)
  refine grouped_perm nodup_predicateKinds Predicate.kind ?_
  intro p hp
  have hkind := of_mem_filter hp
  exact mem_predicateKinds.mpr (by simpa using hkind)

lemma childTruths_ne_nil (leaf : Leaf → Truth) (ids : List Str → Truth)
    (hne : cs ≠ []) : childTruths leaf ids cs ≠ [] := by
  obtain ⟨p, cs, rfl⟩ := exists_cons_of_ne_nil hne
  unfold childTruths
  cases p with
  | resourceId => simp [ridTruths, resourceIds]
  | and _ | or _ | not _ | leaf _ => simp [predicateTruths]

/-- The parts of a conjunction or a disjunction. -/
lemma compilesAll_fieldParts (hcs : ∀ p ∈ predicates cs, Sound g E bind row rt p) :
    CompilesAll E bind row
      (collect (predicateFields.map (c.fieldParts rt (c.compileChildren rt cs))))
      (predicateKinds.flatMap (fieldTruths g rt E bind row cs) ++
        ridTruths (c.idsTruth rt g E bind row) (resourceIds cs)) := by
  refine compilesAll_fields g rfl ?_
  intro k hk
  cases k with
  | resourceId => exact absurd hk (by decide)
  | and => exact compilesAll_field g hcs true .and
  | or => exact compilesAll_field g hcs true .or
  | not => exact compilesAll_field g hcs true .not
  | leaf k => exact compilesAll_field g hcs false (.leaf k)

/-- A permutation of a non-empty list is not empty. -/
lemma ne_nil_of_perm {α : Type} {xs ys : List α} (h : xs.Perm ys) (hne : ys ≠ []) : xs ≠ [] := by
  rintro rfl
  exact hne h.symm.eq_nil

lemma compileAnd_compiles (hne : cs ≠ []) (hcs : ∀ p ∈ predicates cs, Sound g E bind row rt p) :
    Sound g E bind row rt (.and cs) := by
  have hperm := fieldTruths_perm g rt E bind row cs
  have hjoin := (compilesAll_fieldParts g hcs).joinAnd
    (ne_nil_of_perm hperm (childTruths_ne_nil _ _ hne))
  rw [Truth.all_perm hperm] at hjoin
  exact hjoin

lemma compileOr_compiles (hne : cs ≠ []) (hcs : ∀ p ∈ predicates cs, Sound g E bind row rt p) :
    Sound g E bind row rt (.or cs) := by
  have hperm := fieldTruths_perm g rt E bind row cs
  have hjoin := (compilesAll_fieldParts g hcs).joinOr
    (ne_nil_of_perm hperm (childTruths_ne_nil _ _ hne))
  rw [Truth.any_perm hperm] at hjoin
  exact hjoin

variable {filter : FESFilter} {k : Kind} {ks : List Kind} {p : Predicate}

/-- The first predicate of a kind is the operand of a negation, if there is one. -/
lemma notOperand_cons (hk : k ≠ .resourceId) (cs : List (Child F)) (ks : List Kind) :
    c.notOperand rt cs (k :: ks) = (fieldOf cs k).head?.getD (c.notOperand rt cs ks) := by
  rw [Compiler.notOperand]
  · cases fieldOf cs k <;> rfl
  · exact hk

/-- The operand of a negation is found whatever its kind. -/
lemma notOperand_predicate (hk : k ≠ .resourceId) (m : C F Str)
    (hmem : k ∈ ks) : c.notOperand rt [.predicate k m] ks = m := by
  induction ks with
  | nil => cases hmem
  | cons k' ks ih =>
    by_cases hk' : k = k'
    · subst hk'
      have hfield : fieldOf [Child.predicate k m] k = [m] :=
        filterMap_cons_some (if_pos rfl)
      rw [notOperand_cons hk, hfield]
      rfl
    · have hrest := ih ((mem_cons.mp hmem).resolve_left hk')
      have hfield : fieldOf [Child.predicate k m] k' = [] :=
        filterMap_cons_none (if_neg hk')
      by_cases hr : k' = .resourceId
      · subst hr
        exact hrest
      · rw [notOperand_cons hr, hfield]
        exact hrest

lemma notOperand_resourceId (rid : Str) (hmem : .resourceId ∈ ks) :
    c.notOperand rt [.resourceId rid] ks = emit (c.compileResourceIds rt [rid]) := by
  induction ks with
  | nil => cases hmem
  | cons k ks ih =>
    cases k with
    | resourceId => rfl
    | and | or | not | leaf k => exact ih (by simpa using hmem)

lemma compileNot_compiles (hp : Sound g E bind row rt p) : Sound g E bind row rt (.not [p]) := by
  have hoperand : c.notOperand rt (c.compileChildren rt [p]) predicateFields =
      c.compilePredicate rt p := by
    cases p with
    | resourceId rid => exact notOperand_resourceId rid (mem_predicateFields _)
    | and _ | or _ | not _ | leaf _ =>
      exact notOperand_predicate (by simp [Predicate.kind]) _ (mem_predicateFields _)
  have htruth : ∀ (leaf : Leaf → Truth) (ids : List Str → Truth),
      (Predicate.not [p]).truth leaf ids = (p.truth leaf ids).not := by
    intro leaf ids
    cases p <;> simp [Predicate.truth, predicateTruths, ridTruths, resourceIds, negation]
  have hnot := hp.not
  rw [← hoperand, ← htruth] at hnot
  exact hnot

/-- Every valid predicate is compiled to its meaning. -/
theorem compilePredicate_compiles (h : p.Valid) : Sound g E bind row rt p := by
  induction h with
  | and hne _ ih => exact compileAnd_compiles g hne fun p hp => ih p (mem_of_mem_filter hp)
  | or hne _ ih => exact compileOr_compiles g hne fun p hp => ih p (mem_of_mem_filter hp)
  | not _ ih => exact compileNot_compiles g ih
  | leaf => exact compiles_emit fun _ hf => compileLeaf_denotes g hf
  | resourceId => exact compiles_rids g (cons_ne_nil _ _)

/-- A valid filter has at most one child that is not a resource id. -/
lemma length_predicates_le (h : FilterValid filter) : (predicates filter).length ≤ 1 := by
  cases h with
  | single =>
    exact length_filter_le _ _
  | resourceIds hne hall =>
    have hnil : predicates filter = [] := by
      refine filter_eq_nil_iff.mpr ?_
      intro p hp
      simp [hall p hp]
    simp [hnil]

lemma FilterValid.valid (h : FilterValid filter) : filter ≠ [] ∧ ∀ p ∈ filter, p.Valid := by
  cases h with
  | single hp =>
    refine ⟨cons_ne_nil _ _, ?_⟩
    intro p hmem
    rw [mem_singleton.mp hmem]
    exact hp
  | resourceIds hne hall =>
    refine ⟨hne, ?_⟩
    intro p hmem
    have hkind := hall p hmem
    cases p with
    | resourceId rid => exact .resourceId rid
    | and _ | or _ | not _ | leaf _ => cases hkind

/-- A valid filter is compiled to its meaning. -/
theorem compile_compiles (h : FilterValid filter) :
    Compiles E bind row (c.compile rt filter)
      (filterTruth (c.leafTruth rt g E bind row) (c.idsTruth rt g E bind row) filter) := by
  obtain ⟨hne, hvalid⟩ := h.valid
  have hcs : ∀ p ∈ predicates filter, Sound g E bind row rt p := fun p hp =>
    compilePredicate_compiles g (hvalid p (mem_of_mem_filter hp))
  have hparts : ∀ k ∈ predicateKinds, CompilesAll E bind row
      (c.filterParts rt (c.compileChildren rt filter) k)
      (fieldTruths g rt E bind row filter k) := by
    intro k hk
    -- the pointer field of a kind holds all there is of it
    have hone : (fieldOf (c.compileChildren rt filter) k).take 1 =
        fieldOf (c.compileChildren rt filter) k := by
      refine take_of_length_le ?_
      rw [fieldOf_compileChildren, length_map]
      exact le_trans (length_filter_le _ _) (length_predicates_le h)
    have hfield := compilesAll_field g hcs false k
    rw [← hone] at hfield
    cases k with
    | resourceId => exact absurd hk (by decide)
    | and | or | not | leaf k => exact hfield
  have hperm := fieldTruths_perm g rt E bind row filter
  have hjoin := (compilesAll_fields g rfl hparts).joinAnd
    (ne_nil_of_perm hperm (childTruths_ne_nil _ _ hne))
  rw [Truth.all_perm hperm] at hjoin
  exact hjoin

end Containers

/-! ## Filters and documents -/

section Filters

variable {rt : Runtime F} {filter : FESFilter} {opts : FESCompileOptions} {r : CompiledFES F}

/-- The rows a compiled filter selects are those on which the filter is true. -/
lemma compileFES_holds (hvalid : FilterValid filter) (g : GeometrySql opts.compiler)
    (h : compileFES rt filter opts = .ok r) (E : Engine Row Val) (bind : Arg F → Val)
    (env : Nat → Val) (row : Row) (henv : Binds bind opts.start r.args env) :
    Holds E env row r.sql ↔
      filterTruth (opts.compiler.leafTruth rt g E bind row)
        (opts.compiler.idsTruth rt g E bind row) filter = some true := by
  unfold compileFES at h
  cases hrun : opts.compiler.compile rt filter ⟨opts.start, []⟩ with
  | error =>
    rw [hrun] at h
    cases h
  | ok out =>
    rw [hrun] at h
    cases h
    obtain ⟨sql, st⟩ := out
    obtain ⟨args, e, rfl, hs, ht⟩ := compile_compiles g hvalid hrun
    rw [hs.1.holds_iff E env row, ht env (by simpa using henv)]

/-- An accepted document is compiled, for either dialect, to SQL that is true on
exactly the rows on which the filter in the document is: no element of it is left
out, repeated or moved to another connective. -/
theorem compileFES_holds_iff {doc : List Xml} (hdoc : parseFESFilter doc = .ok filter)
    (g : GeometrySql opts.compiler) (h : compileFES rt filter opts = .ok r)
    (E : Engine Row Val) (bind : Arg F → Val) (env : Nat → Val) (row : Row)
    (henv : Binds bind opts.start r.args env) :
    Holds E env row r.sql ↔
      documentTruth (opts.compiler.leafTruth rt g E bind row)
        (opts.compiler.idsTruth rt g E bind row) doc = some true := by
  obtain ⟨-, -, -, -, hvalid⟩ := parseFESFilter_valid hdoc
  rw [documentTruth_eq _ _ hdoc]
  exact compileFES_holds hvalid g h E bind env row henv

end Filters

/-! ## A document and a database -/

/-- A database of texts: a row gives the text in each column, and only equality is
known of them. -/
def textEngine : Engine (Str → Str) (Truth ⊕ Str) where
  truth v := match v with
    | .inl t => t
    | .inr _ => none
  ofTruth := .inl
  truth_ofTruth _ := rfl
  col row _ name := .inr (row name)
  int n := .inr (decimal n)
  str := .inr
  const := .inr
  isNull _ := false
  cmp op a b := match op with
    | .eq => some (decide (a = b))
    | .neq => some (decide (a ≠ b))
    | _ => none
  cmp_mirror op a b := by cases op <;> simp [CmpOp.mirror, eq_comm]
  like _ _ _ := none
  arith _ a _ := a
  cast _ v := v
  call _ _ := .inl none

/-- Arguments as texts. -/
def textArg {F : Type} : Arg F → Truth ⊕ Str
  | .str s => .inr s
  | .num _ => .inl none

def plainRuntime : Runtime Unit where
  parse _ := none
  le _ _ := true
  finite _ := true
  lower := Char.toLower
  fold := Char.toLower
  parseCRS _ := none
  authorityAxisSwap _ := none

/-- Options without a geometry and with all properties allowed. -/
def plainOptions (dialect : SQLDialect) : FESCompileOptions :=
  ⟨dialect, [], [], 1, 0, [], none, [], []⟩

def plainGeometry (dialect : SQLDialect) : GeometrySql (plainOptions dialect).compiler where
  tree := .const "NULL"
  spells h := absurd rfl h
  prec := le_refl 7
  closed _ _ _ _ := rfl

/-- An element in no namespace. -/
def element (name : String) (attrs : List (String × String)) (children : List Xml) : Xml :=
  .element [] name.toList (attrs.map fun a => (a.1.toList, a.2.toList)) children

def sampleDocument : List Xml :=
  [element "Filter" [] [element "And" []
    [element "ResourceId" [("rid", "1")] [],
      element "Not" []
        [element "PropertyIsNull" [] [element "ValueReference" [] [.text "a"]]],
      element "PropertyIsEqualTo" []
        [element "ValueReference" [] [.text "a"], element "Literal" [] [.text "x"]],
      element "ResourceId" [("rid", "2")] []]]]

def sampleFilter : FESFilter :=
  [.and [.resourceId "1", .not [.leaf (.isNull "a")],
    .leaf (.comparison .eq ⟨"a", "x"⟩), .resourceId "2"]]

def sampleCompiled : CompiledFES Unit :=
  ⟨"((NOT t.\"a\" IS NULL AND t.\"a\" = $1 AND t.\"id\"::text IN ($2, $3)))",
    [.str "x", .str "1", .str "2"], 4⟩

theorem compileFES_holds_iff_sample :
    parseFESFilter sampleDocument = .ok sampleFilter ∧
    compileFES plainRuntime sampleFilter (plainOptions .duckdb) = .ok sampleCompiled ∧
    Binds textArg 1 sampleCompiled.args (bindFrom textArg 1 sampleCompiled.args (.inl none)) ∧
    (Holds textEngine (bindFrom textArg 1 sampleCompiled.args (.inl none)) (fun _ => "x")
        sampleCompiled.sql ↔
      documentTruth
        ((plainOptions .duckdb).compiler.leafTruth plainRuntime (plainGeometry .duckdb)
          textEngine textArg fun _ => "x")
        ((plainOptions .duckdb).compiler.idsTruth plainRuntime (plainGeometry .duckdb)
          textEngine textArg fun _ => "x")
        sampleDocument = some true) :=
  have hdoc : parseFESFilter sampleDocument = .ok sampleFilter := rfl
  have hcomp : compileFES plainRuntime sampleFilter (plainOptions .duckdb) = .ok sampleCompiled :=
    rfl
  have hbinds := binds_bindFrom textArg 1 sampleCompiled.args (.inl none)
  ⟨hdoc, hcomp, hbinds,
    compileFES_holds_iff hdoc (plainGeometry .duckdb) hcomp textEngine textArg _ _ hbinds⟩

end NeoServer.Wfs.Fes
