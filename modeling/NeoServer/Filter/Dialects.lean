import NeoServer.Filter.Reparse

/-!
# Filter.Dialects — the two compilers agree

Both compilers are instances of one parser, so they accept the same filters and
report the same errors (`parse_emit`). What is left to compare is what they write
and bind: `Expr.skeleton` forgets the spellings in which the dialects differ, and
the trees of the two texts have the same skeleton.
-/

namespace NeoServer.Sql

/-! ## What a tree says in either dialect -/

/-- Whether a timestamp type has a time zone; `none` for the other types. -/
def zoneOf (ty : Str) : Option Bool :=
  if ty = "timestamptz" ∨ ty = "TIMESTAMPTZ" then some true
  else if ty = "timestamp" ∨ ty = "TIMESTAMP" then some false
  else none

/-- A cast to a timestamp, with or without zone, is kept; the casts that pass a
geometry's text to the database are not. -/
def castSkeleton (e : Expr) (ty : Str) : Expr :=
  match zoneOf ty with
  | some true => .cast e "timestamptz"
  | some false => .cast e "timestamp"
  | none => e

mutual

/-- Connectives, relations, operands and placeholders, without parentheses,
conversions from text to geometry and the CRS arguments of a transformation. -/
def Expr.skeleton : Expr → Expr
  | .or a b => .or a.skeleton b.skeleton
  | .and a b => .and a.skeleton b.skeleton
  | .not a => .not a.skeleton
  | .cmp op a b => .cmp op a.skeleton b.skeleton
  | .between neg a lo hi => .between neg a.skeleton lo.skeleton hi.skeleton
  | .inList neg a items => .inList neg a.skeleton items.skeleton
  | .like neg ci a p => .like neg ci a.skeleton p.skeleton
  | .isNull neg a => .isNull neg a.skeleton
  | .arith op a b => .arith op a.skeleton b.skeleton
  | .cast a ty => castSkeleton a.skeleton ty
  | .castFn a ty => castSkeleton a.skeleton ty
  | .paren a => a.skeleton
  | .call f args =>
    if f = "ST_GeomFromText" then args.firstSkeleton
    else if f = "ST_Transform" then .call f (.cons none args.firstSkeleton .nil)
    else .call f args.skeleton
  | .col q name => .col q name
  | .param n => .param n
  | .int n => .int n
  | .str s => .str s
  | .const w => .const w

/-- `Expr.skeleton` on every argument. -/
def Args.skeleton : Args → Args
  | .nil => .nil
  | .cons name e rest => .cons name e.skeleton rest.skeleton

/-- `Expr.skeleton` of the first argument. -/
def Args.firstSkeleton : Args → Expr
  | .nil => .const []
  | .cons _ e _ => e.skeleton

end

/-- Two texts are both empty, or SQL reads them as trees of one skeleton. -/
def SameTree (sql sql' : Str) : Prop :=
  (sql = [] ∧ sql' = []) ∨
    ∃ e e', parse sql = some e ∧ parse sql' = some e' ∧ e.skeleton = e'.skeleton

end NeoServer.Sql

namespace NeoServer.Filter

open NeoServer.Sql

/-! ## Temporal literals -/

variable {val : Str} {F : Type}

/-- A date has a hyphen. -/
lemma hyphen_mem_of_date (h : looksLikeDateOrDateTime val = true) : '-' ∈ val := by
  unfold looksLikeDateOrDateTime at h
  split at h
  · have hsep := (Bool.and_eq_true_iff.mp (Bool.and_eq_true_iff.mp h).1).1
    have hs : _ = '-' := of_decide_eq_true hsep
    simp [hs]
  · exact absurd h (by decide)

/-- The two compilers choose the cast to a timestamp with zone alike. -/
lemma zoned_agree (h : IsTemporal val) : pgZoned val = duckdbZoned val := by
  rcases h with rfl | hdate
  · decide
  · have hhyphen := hyphen_mem_of_date hdate
    simp [pgZoned, duckdbZoned, hhyphen]

/-! ## The trees have one skeleton -/

/-- DuckDB without a configured geometry expression. -/
def plainDuckdbSql (opt : Options) : DialectSql (duckdb opt []) :=
  duckdbSql opt [] (.const []) fun h => absurd rfl h

/-- Two trees say the same in their dialects. -/
def SameSkeleton (e e' : Expr) : Prop := e.skeleton = e'.skeleton

variable (b : Bool) (e : Expr) (opt : Options) (n : Nat)

lemma zoneOf_pg : zoneOf (if b then "timestamptz".toList else "timestamp".toList) = some b := by
  cases b <;> decide

lemma zoneOf_duckdb :
    zoneOf (if b then "TIMESTAMPTZ".toList else "TIMESTAMP".toList) = some b := by
  cases b <;> decide

lemma castSkeleton_geometry : castSkeleton e "geometry" = e := by
  have h : zoneOf "geometry" = none := by decide
  simp only [castSkeleton, h]

lemma castSkeleton_varchar : castSkeleton e "VARCHAR" = e := by
  have h : zoneOf "VARCHAR" = none := by decide
  simp only [castSkeleton, h]

lemma skeleton_geomFromText :
    (Expr.call "ST_GeomFromText" (Args.ofList [(none, e)])).skeleton = e.skeleton := by
  rfl

lemma skeleton_transform (rest : List (Option Str × Expr)) :
    (Expr.call "ST_Transform" (Args.ofList ((none, e) :: rest))).skeleton =
      .call "ST_Transform" (.cons none e.skeleton .nil) := by
  rfl

lemma geomLit_skeleton :
    SameSkeleton ((postgisSql opt).geomLit n) ((plainDuckdbSql opt).geomLit n) := by
  have hpg : (Expr.cast (.param n) "geometry").skeleton = .param n := by
    rw [Expr.skeleton, castSkeleton_geometry, Expr.skeleton]
  have hduck : (Expr.castFn (.param n) "VARCHAR").skeleton = .param n := by
    rw [Expr.skeleton, castSkeleton_varchar, Expr.skeleton]
  unfold SameSkeleton postgisSql plainDuckdbSql duckdbSql
  split
  · rw [skeleton_transform, skeleton_transform, skeleton_geomFromText, hpg, hduck]
  · rw [skeleton_geomFromText, hpg, hduck]

lemma temporal_skeleton (h : IsTemporal val) :
    SameSkeleton ((postgisSql opt).temporal n val) ((plainDuckdbSql opt).temporal n val) := by
  unfold SameSkeleton postgisSql plainDuckdbSql duckdbSql
  rw [Expr.skeleton, Expr.skeleton, castSkeleton, castSkeleton, zoneOf_pg, zoneOf_duckdb,
    zoned_agree h]

/-- A call of a function that is no conversion keeps its arguments. -/
lemma skeleton_call {f : Str} {args args' : Args} (h : args.skeleton = args'.skeleton)
    (hf : f ≠ "ST_GeomFromText") (hf' : f ≠ "ST_Transform") :
    SameSkeleton (.call f args) (.call f args') := by
  unfold SameSkeleton
  rw [Expr.skeleton, Expr.skeleton, if_neg hf, if_neg hf, if_neg hf', if_neg hf', h]

lemma toSqlFunction_ne : ∀ op ∈ spatialOps, toSqlFunction (toLower op) ≠ "ST_GeomFromText" ∧
    toSqlFunction (toLower op) ≠ "ST_Transform" := by
  decide

/-- Every production keeps the skeletons equal. -/
lemma related_skeleton (opt' : Options) :
    Related (F := F) opt' (sqlEmitter (postgisSql opt)) (sqlEmitter (plainDuckdbSql opt))
      SameSkeleton SameSkeleton SameSkeleton where
  ident _ := rfl
  lit _ _ := rfl
  bool _ := rfl
  now := rfl
  temporal n _ h := temporal_skeleton opt n h
  arith op _ _ _ _ ha hb := congrArg₂ (Expr.arith (arithOfRaw op.text)) ha hb
  scalarParen ha := ha
  geomProp := rfl
  geomLit n _ := geomLit_skeleton opt n
  spatial hop h₁ h₂ := by
    obtain ⟨hf, hf'⟩ := toSqlFunction_ne _ hop
    refine skeleton_call ?_ hf hf'
    simp only [Args.ofList, Args.skeleton]
    rw [h₁, h₂]
  dwithin n _ h₁ h₂ := by
    refine skeleton_call ?_ (by decide) (by decide)
    simp only [Args.ofList, Args.skeleton]
    rw [h₁, h₂]
  like _ _ _ _ _ _ := rfl
  isNull _ _ _ := rfl
  inList _ _ _ _ _ := rfl
  between neg _ _ _ _ _ _ hx hlo hhi := by
    have h := congrArg₂ (fun e p => Expr.between neg e p.1 p.2) hx (congrArg₂ Prod.mk hlo hhi)
    exact h
  compare op _ _ _ _ hx hy := congrArg₂ (Expr.cmp (cmpOfRaw op.text)) hx hy
  or ha hb := congrArg₂ Expr.or ha hb
  and ha hb := congrArg₂ Expr.and ha hb
  not ha := congrArg Expr.not ha
  paren ha := ha

/-! ## Compiled filters -/

/-- Two argument lists come from the same literals; the first binds the text of a
geometry after the prefix `SRID=n;`, the second without it. -/
def SameArgs {F : Type} (srid : Int) (args args' : List (Arg F)) : Prop :=
  ∃ lits : List (Lit F),
    args = lits.map (Lit.arg fun wkt => "SRID=" ++ decimal srid ++ ";" ++ wkt) ∧
    args' = lits.map (Lit.arg id)

/-- The two compilers fail with one error, or both succeed with arguments that agree
and texts that denote the same. -/
def Agree {F : Type} (opt : DuckDBOptions) :
    Except ParseError (Compiled F) → Except ParseError (Compiled F) → Prop
  | .error e, .error e' => e = e'
  | .ok r, .ok r' =>
    SameArgs opt.toOptions.normalize.filterSRID r.args r'.args ∧ r.nextIndex = r'.nextIndex ∧
      (opt.geometryExpression = [] → SameTree r.sql r'.sql)
  | _, _ => False

lemma Accepted.sameTree {fl} {opt : Options} {cql : Str} {t : Pred F}
    {args} {next : Nat} (h : Accepted fl opt cql t args next) :
    SameTree (t.emit (postgis opt.normalize).emitter)
      (t.emit (duckdb opt.normalize []).emitter) :=
  .inr ⟨_, _, (h.spells (postgisSql _)).1.parse, (h.spells (plainDuckdbSql _)).1.parse,
    h.related (related_skeleton _ _)⟩

end NeoServer.Filter
