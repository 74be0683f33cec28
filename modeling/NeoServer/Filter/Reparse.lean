import Mathlib.Data.List.Forall2
import NeoServer.Filter.Relate
import NeoServer.Sql.Eval

/-!
# Filter.Reparse — SQL reads the compiler's text as the filter's tree

`sqlEmitter` is the instance of the compiler that builds SQL trees, with a
parenthesis node wherever the source writes parentheses. The text of either
dialect is a spelling of that tree (`related_sql`): each precedence condition of
`Sql.Spelling` is met by the parentheses the compiler writes. Removing them leaves
the filter's own tree (`Pred.sqlTree`), also where the text is one conjunct of a
`WHERE` clause.
-/

namespace NeoServer.Filter

open NeoServer.Sql Expr

/-! ## The SQL trees of a dialect -/

/-- The trees spelled by the parts the dialects write differently. -/
structure DialectSql (d : Dialect) where
  temporal : Nat → Str → Expr
  geomProp : Str → Expr
  geomLit : Nat → Expr
  isSep : IsSep d.sep
  spells_temporal : ∀ n val, Spells (d.temporal n val) (temporal n val)
  prec_temporal : ∀ n val, 6 ≤ (temporal n val).prec
  spells_geomProp : ∀ name, Spells (d.geomProp name) (geomProp name)
  spells_geomLit : ∀ n, Spells (d.geomLit n) (geomLit n)

section Emitters

variable {F : Type} {d : Dialect} (D : DialectSql d)

/-- The compiler that builds SQL trees; `wrap` is what becomes of written
parentheses. -/
def sqlEmitterWith (wrap : Expr → Expr) : Emitter F Expr Expr Expr (Lit F) where
  arg := id
  ident name := .col .none name
  lit n _ := .param n
  bool v := .const v
  now := .call "NOW" .nil
  temporal := D.temporal
  arith left op right := wrap (.arith (arithOfRaw op) left right)
  scalarParen := wrap
  geomProp := D.geomProp
  geomLit n _ := D.geomLit n
  spatial op g₁ g₂ := .call (toSqlFunction op) (Args.ofList [(none, g₁), (none, g₂)])
  dwithin g₁ g₂ n _ :=
    .call "ST_DWithin" (Args.ofList [(none, g₁), (none, g₂), (none, .param n)])
  like neg ci prop n _ := .like neg ci (.col .none prop) (.param n)
  isNull neg prop := .isNull neg (.col .none prop)
  inList neg prop items :=
    .inList neg (.col .none prop) (Args.ofList (items.map fun i => (none, .param i.1)))
  between neg left a b := .between neg left a b
  compare left op right := .cmp (cmpOfRaw op) left right
  or left right := wrap (.or left right)
  and left right := wrap (.and left right)
  not inner := wrap (.not inner)
  paren := wrap

/-- The SQL tree with the parentheses the compiler writes. -/
def sqlEmitter : Emitter F Expr Expr Expr (Lit F) := sqlEmitterWith D .paren

/-- The SQL tree of a filter: its own connectives, comparisons and operands, in its
own nesting. -/
def Pred.sqlTree (t : Pred F) : Expr := (t.emit (sqlEmitterWith D id)).strip

lemma Scalar.strip_emit (x : Scalar F) :
    (x.emit (sqlEmitter D)).strip = (x.emit (sqlEmitterWith D id)).strip := by
  induction x with
  | arith left op right ihl ihr =>
    have h := congrArg₂ (Expr.arith (arithOfRaw op)) ihl ihr
    exact h
  | paren inner ih => exact ih
  | _ => rfl

/-- Only parentheses stand between the text's tree and the filter's. -/
lemma Pred.strip_emit (t : Pred F) : (t.emit (sqlEmitter D)).strip = t.sqlTree D := by
  induction t with
  | spatial | dwithin =>
    rfl
  | between neg x lo hi =>
    have hbounds := congrArg₂ Prod.mk (lo.strip_emit D) (hi.strip_emit D)
    have h := congrArg₂ (fun e p => Expr.between neg e p.1 p.2) (x.strip_emit D) hbounds
    exact h
  | compare x op y =>
    have h := congrArg₂ (cmp (cmpOfRaw op)) (x.strip_emit D) (y.strip_emit D)
    exact h
  | or a b iha ihb =>
    have h := congrArg₂ Expr.or iha ihb
    exact h
  | and a b iha ihb =>
    have h := congrArg₂ Expr.and iha ihb
    exact h
  | not a ih =>
    have h := congrArg Expr.not ih
    exact h
  | paren a ih => exact ih
  | _ => rfl

end Emitters

/-! ## Spelling -/

/-- The functions the compiler writes are plain words. -/
lemma lex_toSqlFunction :
    ∀ op ∈ spatialOps, lex (toSqlFunction (toLower op)) =
      some [.word (toSqlFunction (toLower op))] := by
  decide

lemma IsBool.lex {v : Str} (h : IsBool v) : Sql.lex v = some [.word v] := by
  rcases h with rfl | rfl <;> rfl

lemma spells_ident (name : Str) : Spells (quoteIdent name) (.col .none name) := by
  rw [quoteIdent_eq]
  exact .col name

lemma spells_now : Spells "NOW()" (.call "NOW" .nil) := ⟨rfl, trivial⟩

/-- Placeholders as arguments. -/
lemma forall₂_params {F : Type} (items : List (Nat × Lit F)) :
    List.Forall₂ SpellsArg (items.map fun i => paramText i.1)
      (items.map fun i => (none, param i.1)) := by
  induction items with
  | nil => exact .nil
  | cons i is ih => exact .cons (Spells.param i.1).arg ih

/-- The spelling of a scalar binds as tightly as a cast. -/
def SpellsScalar (s : Str) (e : Expr) : Prop := Spells s e ∧ 6 ≤ e.prec

/-- The spelling of a predicate binds more tightly than a connective. -/
def SpellsPred (s : Str) (e : Expr) : Prop := Spells s e ∧ 3 ≤ e.prec

/-- Every production writes a spelling of its tree. -/
theorem related_sql {F : Type} {d : Dialect} (D : DialectSql d) (opt : Options) :
    Related (F := F) opt d.emitter (sqlEmitter D) SpellsScalar Spells SpellsPred where
  ident _ := ⟨spells_ident _, by simp [sqlEmitter, sqlEmitterWith, prec]⟩
  lit n _ := ⟨.param n, by simp [sqlEmitter, sqlEmitterWith, prec]⟩
  bool h := ⟨.const h.lex, by simp [sqlEmitter, sqlEmitterWith, prec]⟩
  now := ⟨spells_now, by simp [sqlEmitter, sqlEmitterWith, prec]⟩
  temporal n val _ := ⟨D.spells_temporal n val, D.prec_temporal n val⟩
  arith op a a' b b' ha hb := by
    have hprec : op.prec ≤ 5 := by cases op <;> simp [ArithOp.prec]
    have hs := ha.1.arith op hb.1 (by have := ha.2; omega) (by have := hb.2; omega)
    refine ⟨?_, by simp [sqlEmitter, sqlEmitterWith, prec]⟩
    simpa [sqlEmitter, sqlEmitterWith, Dialect.emitter] using hs.parens
  scalarParen ha := ⟨ha.1.parens, by simp [sqlEmitter, sqlEmitterWith, prec]⟩
  geomProp := D.spells_geomProp _
  geomLit n _ := D.spells_geomLit n
  spatial hop h₁ h₂ := by
    refine ⟨.call (lex_toSqlFunction _ hop) D.isSep ?_ (by simp), by
      simp [sqlEmitter, sqlEmitterWith, prec]⟩
    exact .cons h₁.arg (.cons h₂.arg .nil)
  dwithin n _ h₁ h₂ := by
    refine ⟨.call rfl D.isSep ?_ (by simp), by simp [sqlEmitter, sqlEmitterWith, prec]⟩
    exact .cons h₁.arg (.cons h₂.arg (.cons (Spells.param n).arg .nil))
  like neg ci _ n _ _ := by
    refine ⟨(spells_ident _).like neg ci (.param n) ?_ ?_, ?_⟩ <;>
      simp [sqlEmitter, sqlEmitterWith, prec]
  isNull neg _ _ := by
    refine ⟨(spells_ident _).isNull neg ?_, ?_⟩ <;> simp [sqlEmitter, sqlEmitterWith, prec]
  inList neg _ _ _ hne := by
    refine ⟨(spells_ident _).inList neg ?_ D.isSep (forall₂_params _) ?_, ?_⟩
    · simp [prec]
    · simpa using hne
    · simp [sqlEmitter, sqlEmitterWith, prec]
  between neg x lo hi x' lo' hi' hx hlo hhi := by
    obtain ⟨hsx, hpx⟩ := hx
    obtain ⟨hslo, hplo⟩ := hlo
    obtain ⟨hshi, hphi⟩ := hhi
    refine ⟨hsx.between neg hslo hshi (by omega) (by omega) (by omega), ?_⟩
    simp [sqlEmitter, sqlEmitterWith, prec]
  compare op x y x' y' hx hy := by
    obtain ⟨hsx, hpx⟩ := hx
    obtain ⟨hsy, hpy⟩ := hy
    have hs := hsx.cmp op hsy (by omega) (by omega)
    refine ⟨?_, by simp [sqlEmitter, sqlEmitterWith, prec]⟩
    simpa [sqlEmitter, sqlEmitterWith, Dialect.emitter] using hs
  or ha hb := by
    have hp := hb.2
    exact ⟨(ha.1.or hb.1 (by omega)).parens, by simp [sqlEmitter, sqlEmitterWith, prec]⟩
  and ha hb := by
    have hpa := ha.2
    have hpb := hb.2
    exact ⟨(ha.1.and hb.1 (by omega) (by omega)).parens, by
      simp [sqlEmitter, sqlEmitterWith, prec]⟩
  not ha := by
    have hp := ha.2
    exact ⟨(ha.1.not (by omega)).parens, by simp [sqlEmitter, sqlEmitterWith, prec]⟩
  paren ha := ⟨ha.1.parens, by simp [sqlEmitter, sqlEmitterWith, prec]⟩

/-! ## The two dialects -/

lemma lex_ite_word {w₁ w₂ : Str} (b : Bool) (h₁ : lex w₁ = some [.word w₁])
    (h₂ : lex w₂ = some [.word w₂]) :
    lex (if b then w₁ else w₂) = some [.word (if b then w₁ else w₂)] := by
  cases b with
  | true => exact h₁
  | false => exact h₂

/-- `$n::ty`. -/
lemma spells_paramCast (n : Nat) {ty : Str} (hty : lex ty = some [.word ty]) :
    Spells (paramText n ++ "::" ++ ty) (.cast (.param n) ty) := by
  have h := (Spells.param n).cast (by simp [prec]) hty
  simpa using h

/-- The trees PostGIS texts spell. -/
def postgisSql (opt : Options) : DialectSql (postgis opt) where
  temporal n val :=
    .cast (.param n) (if pgZoned val then "timestamptz".toList else "timestamp".toList)
  geomProp name := .col .none name
  geomLit n :=
    let e := cast (.param n) "geometry"
    if opt.transforms then
      .call "ST_Transform" (Args.ofList [(none, e), (none, .int opt.sourceSRID)])
    else e
  isSep := .inl rfl
  spells_temporal n val := spells_paramCast n (lex_ite_word _ rfl rfl)
  prec_temporal _ _ := by simp [prec]
  spells_geomProp := spells_ident
  spells_geomLit n := by
    have hlit : Spells (paramText n ++ "::geometry") (.cast (.param n) "geometry") := by
      have h := (Spells.param n).cast (by simp [prec]) (show lex "geometry" = _ from rfl)
      simpa using h
    dsimp only [postgis]
    split
    · exact .call rfl (.inl rfl) (.cons hlit.arg (.cons (Spells.int _).arg .nil)) (by simp)
    · exact hlit

lemma spells_castText {s ty : Str} {e : Expr} (h : Spells s e) (hty : lex ty = some [.word ty]) :
    Spells (castText s ty) (.castFn e ty) := h.castFn hty

lemma not_quote_mem_decimal (n : Int) : '\'' ∉ decimal n := by
  have hnat : ∀ k : Nat, '\'' ∉ natDecimal k := fun k hmem =>
    absurd (isDigit_of_mem_natDecimal hmem) (by decide)
  cases n with
  | ofNat k => exact hnat k
  | negSucc =>
    intro hmem
    rcases List.mem_cons.mp hmem with h | h
    · exact absurd h (by decide)
    · exact hnat _ h

lemma spells_epsg (srid : Int) : Spells (epsg srid) (.str ("EPSG:" ++ decimal srid)) := by
  refine .str ?_
  have h := not_quote_mem_decimal srid
  simpa using h

/-- The trees DuckDB texts spell. A configured geometry expression must itself be
SQL. -/
def duckdbSql (opt : Options) (geometryExpression : Str) (ge : Expr)
    (hge : geometryExpression ≠ [] → Spells geometryExpression ge) :
    DialectSql (duckdb opt geometryExpression) where
  temporal n val :=
    .castFn (.param n) (if duckdbZoned val then "TIMESTAMPTZ".toList else "TIMESTAMP".toList)
  geomProp name := if geometryExpression ≠ [] then ge else .col .none name
  geomLit n :=
    let e := call "ST_GeomFromText"
      (Args.ofList [(none, .castFn (.param n) "VARCHAR")])
    if opt.transforms then
      .call "ST_Transform"
        (Args.ofList [(none, e), (none, .str ("EPSG:" ++ decimal opt.filterSRID)),
          (none, .str ("EPSG:" ++ decimal opt.sourceSRID)),
          (some "always_xy", .const "true")])
    else e
  isSep := .inr rfl
  spells_temporal n val := spells_castText (.param n) (lex_ite_word _ rfl rfl)
  prec_temporal _ _ := by simp [prec]
  spells_geomProp name := by
    dsimp only [duckdb]
    split
    · rename_i hne
      exact hge hne
    · exact spells_ident name
  spells_geomLit n := by
    have hcast : Spells (castText (paramText n) "VARCHAR") (.castFn (.param n) "VARCHAR") :=
      spells_castText (.param n) rfl
    have hlit : Spells (callText "ST_GeomFromText" ", "
        [castText (paramText n) "VARCHAR"]) (.call "ST_GeomFromText"
          (Args.ofList [(none, .castFn (.param n) "VARCHAR")])) :=
      .call rfl (.inr rfl) (.cons hcast.arg .nil) (by simp)
    have htrue : Spells "true" (.const "true") := .const rfl
    dsimp only [duckdb]
    split
    · refine .call rfl (.inr rfl) ?_ (by simp)
      exact .cons hlit.arg (.cons (spells_epsg _).arg (.cons (spells_epsg _).arg
        (.cons (htrue.namedArg rfl) .nil)))
    · exact hlit

/-! ## Reading the text back -/

section Reparse

variable {F : Type} {fl : FloatOps F} {opt : Options} {d : Dialect} {cql : Str} {t : Pred F}
  {args : List (Lit F)} {next : Nat}

/-- The text of an accepted filter can stand as one conjunct. -/
lemma Accepted.spells (h : Accepted fl opt cql t args next) (D : DialectSql d) :
    SpellsConjunct (t.emit d.emitter) (t.emit (sqlEmitter D)) := by
  obtain ⟨hs, hp⟩ := h.related (related_sql D opt.normalize)
  exact ⟨hs, by omega⟩

/-- SQL reads the text of an accepted filter as the filter's tree. -/
lemma Accepted.parse_text (h : Accepted fl opt cql t args next) (D : DialectSql d) :
    (Sql.parse (t.emit d.emitter)).map strip = some (t.sqlTree D) := by
  rw [(h.spells D).1.parse, Option.map_some, t.strip_emit]

/-- So does a `WHERE` clause in which the text is one of the predicates. -/
lemma Accepted.parse_whereBody (h : Accepted fl opt cql t args next) (D : DialectSql d)
    {before after : List (Str × Expr)} (hothers : ∀ q ∈ before ++ after, SpellsConjunct q.1 q.2) :
    (Sql.parse (whereBody (before.map Prod.fst ++ t.emit d.emitter :: after.map Prod.fst))).map
        strip =
      some (conjAll (before.map (fun q => q.2.strip) ++
        t.sqlTree D :: after.map fun q => q.2.strip)) := by
  have hpairs : ∀ qs : List (Str × Expr), (∀ q ∈ qs, SpellsConjunct q.1 q.2) →
      List.Forall₂ SpellsConjunct (qs.map Prod.fst) (qs.map Prod.snd) := by
    intro qs hqs
    rw [List.forall₂_map_left_iff, List.forall₂_map_right_iff]
    exact List.forall₂_same.mpr hqs
  have hbefore := hpairs before fun q hq => hothers q (List.mem_append_left _ hq)
  have hafter := hpairs after fun q hq => hothers q (List.mem_append_right _ hq)
  have hs := spells_whereBody (List.rel_append hbefore (.cons (h.spells D) hafter)) (by simp)
  rw [hs.parse, Option.map_some, strip_conjAll]
  simp [t.strip_emit, Function.comp_def]

end Reparse

end NeoServer.Filter
