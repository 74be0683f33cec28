import NeoServer.Filter.Compiler

/-!
# Filter.Tree — the tree a filter denotes

`treeEmitter` is the instance of the compiler that builds trees instead of
texts. Every other instance is a fold over these trees (`parse_emit`): whatever
the compiler writes, in either dialect, is read off one tree, and it fails on the
same inputs with the same errors.
-/

namespace NeoServer.Filter

open Prog

/-! ## Trees -/

/-- Scalar expressions; a literal knows its placeholder. -/
inductive Scalar (F : Type)
  | ident (name : Str)
  | lit (n : Nat) (l : Lit F)
  | bool (v : Str)
  | now
  | temporal (n : Nat) (val : Str)
  | arith (left : Scalar F) (op : Str) (right : Scalar F)
  | paren (inner : Scalar F)

/-- Geometry expressions. -/
inductive Geom
  | prop (name : Str)
  | lit (n : Nat) (wkt : Str)

/-- Boolean expressions. -/
inductive Pred (F : Type)
  | spatial (op : Str) (g₁ g₂ : Geom)
  | dwithin (g₁ g₂ : Geom) (n : Nat) (dist : F)
  | like (neg ci : Bool) (prop : Str) (n : Nat) (pattern : Str)
  | isNull (neg : Bool) (prop : Str)
  | inList (neg : Bool) (prop : Str) (items : List (Nat × Lit F))
  | between (neg : Bool) (left lo hi : Scalar F)
  | compare (left : Scalar F) (op : Str) (right : Scalar F)
  | or (left right : Pred F)
  | and (left right : Pred F)
  | not (inner : Pred F)
  | paren (inner : Pred F)

/-- The compiler that builds trees. -/
def treeEmitter (F : Type) : Emitter F (Scalar F) Geom (Pred F) (Lit F) where
  arg := id
  ident := .ident
  lit := .lit
  bool := .bool
  now := .now
  temporal := .temporal
  arith := .arith
  scalarParen := .paren
  geomProp := .prop
  geomLit := .lit
  spatial := .spatial
  dwithin := .dwithin
  like := .like
  isNull := .isNull
  inList := .inList
  between := .between
  compare := .compare
  or := .or
  and := .and
  not := .not
  paren := .paren

section Emit

variable {F S G B A : Type} (E : Emitter F S G B A)

/-- What `E` writes for a scalar expression. -/
def Scalar.emit : Scalar F → S
  | .ident name => E.ident name
  | .lit n l => E.lit n l
  | .bool v => E.bool v
  | .now => E.now
  | .temporal n val => E.temporal n val
  | .arith left op right => E.arith left.emit op right.emit
  | .paren inner => E.scalarParen inner.emit

/-- What `E` writes for a geometry expression. -/
def Geom.emit : Geom → G
  | .prop name => E.geomProp name
  | .lit n wkt => E.geomLit n wkt

/-- What `E` writes for a boolean expression. -/
def Pred.emit : Pred F → B
  | .spatial op g₁ g₂ => E.spatial op (g₁.emit E) (g₂.emit E)
  | .dwithin g₁ g₂ n dist => E.dwithin (g₁.emit E) (g₂.emit E) n dist
  | .like neg ci prop n pattern => E.like neg ci prop n pattern
  | .isNull neg prop => E.isNull neg prop
  | .inList neg prop items => E.inList neg prop items
  | .between neg left lo hi => E.between neg (left.emit E) (lo.emit E) (hi.emit E)
  | .compare left op right => E.compare (left.emit E) op (right.emit E)
  | .or left right => E.or left.emit right.emit
  | .and left right => E.and left.emit right.emit
  | .not inner => E.not inner.emit
  | .paren inner => E.paren inner.emit

/-- A parser state with the arguments `E` binds. -/
def PState.emit (st : PState (Lit F)) : PState A := ⟨st.toks, st.next, st.args.map E.arg⟩

/-! ## Every emitter follows the tree

One lemma per function of the parser, in the order of `Filter.Compiler`. -/

/-- `m'` does with the writings of `E` what `m` does with trees. -/
abbrev Emits {α β : Type} (g : α → β) (m : P (Lit F) α) (m' : P A β) : Prop :=
  Sim (PState.emit E) g m m'

variable {E}

lemma sim_cur : Emits E id cur cur := sim_gets fun _ => rfl

lemma sim_peek : Emits E id peek peek := sim_gets fun _ => rfl

lemma sim_bump : Emits E id bump bump := sim_modify fun _ => rfl

lemma sim_expect {t} : Emits E id (expect t) (expect t) :=
  sim_cur.bind fun _ =>
    sim_ite (sim_throw _) (sim_bump.bind fun _ => sim_pure rfl)

lemma sim_addArg {l : Lit F} : Emits E id (addArg l) (addArg (E.arg l)) := by
  refine (sim_gets fun _ => rfl).bind fun n => (sim_modify ?_).bind fun _ => sim_pure rfl
  intro st
  simp [PState.emit]

variable {fl : FloatOps F} {opt : Options}

lemma sim_parseFloat (raw : Str) (e : ParseError) :
    Emits E id (parseFloat fl raw e) (parseFloat fl raw e) := sim_ofOption _ _

lemma sim_assertAllowedProperty (name : Str) :
    Emits E id (assertAllowedProperty opt name) (assertAllowedProperty opt name) :=
  sim_ite (sim_pure rfl) (sim_throw _)

variable {rec : Nat → P (Lit F) (Scalar F)} {rec' : Nat → P A S}

lemma sim_parseScalarPrimary (hrec : ∀ m, Emits E (Scalar.emit E) (rec m) (rec' m)) :
    Emits E (Scalar.emit E) (parseScalarPrimary fl (treeEmitter F) opt rec)
      (parseScalarPrimary fl E opt rec') := by
  refine sim_cur.bind fun c => ?_
  rcases c with ⟨typ, raw, pos⟩
  cases typ
  case lParen =>
    exact sim_bump.bind fun _ => (hrec 0).bind fun _ =>
      sim_expect.bind fun _ => sim_pure rfl
  case ident =>
    exact (sim_assertAllowedProperty raw).bind fun _ =>
      sim_bump.bind fun _ => sim_pure rfl
  case string =>
    exact sim_addArg.bind fun _ => sim_bump.bind fun _ => sim_pure rfl
  case number =>
    exact (sim_parseFloat raw _).bind fun _ => sim_addArg.bind fun _ =>
      sim_bump.bind fun _ => sim_pure rfl
  case bool => exact sim_bump.bind fun _ => sim_pure rfl
  case temporal =>
    refine sim_peek.bind fun p => sim_ite ?_ ?_
    · exact sim_bump.bind fun _ => sim_bump.bind fun _ =>
        sim_expect.bind fun _ => sim_pure rfl
    · exact sim_addArg.bind fun _ => sim_bump.bind fun _ => sim_pure rfl
  all_goals exact sim_throw _

lemma sim_scalarLoop
    (hrec : ∀ m, Emits E (Scalar.emit E) (rec m) (rec' m)) (minPrec : Nat) :
    ∀ (k : Nat) (left : Scalar F),
      Emits E (Scalar.emit E) (scalarLoop (treeEmitter F) rec minPrec k left)
        (scalarLoop E rec' minPrec k (left.emit E))
  | 0, _ => sim_throw _
  | k + 1, left => by
    refine sim_cur.bind fun c => ?_
    simp only [id]
    cases scalarPrec c.typ with
    | none => exact sim_pure rfl
    | some =>
      refine sim_ite (sim_pure rfl) (sim_bump.bind fun _ => (hrec _).bind ?_)
      intro right
      exact sim_scalarLoop hrec minPrec k (.arith left c.raw right)

lemma sim_parseScalarExpr : ∀ k m : Nat,
    Emits E (Scalar.emit E) (parseScalarExpr fl (treeEmitter F) opt k m)
      (parseScalarExpr fl E opt k m)
  | 0, _ => sim_throw _
  | k + 1, m =>
    (sim_parseScalarPrimary (sim_parseScalarExpr k)).bind fun left =>
      sim_scalarLoop (sim_parseScalarExpr k) m k left

lemma sim_envelopeCoords : ∀ k : Nat, Emits E id (envelopeCoords k) (envelopeCoords k)
  | 0 => sim_pure rfl
  | k + 1 =>
    sim_cur.bind fun _ => sim_ite (sim_throw _) <|
      sim_bump.bind fun _ => sim_ite (sim_pure rfl) <|
        sim_expect.bind fun _ => (sim_envelopeCoords k).bind fun _ => sim_pure rfl

lemma sim_wktBody : Emits E id wktBody wktBody :=
  Sim.bind (sim_gets fun _ => rfl) fun _ => Sim.bind (sim_ofOption _ _) fun _ =>
    Sim.bind (sim_modify fun _ => rfl) fun _ => sim_pure rfl

lemma sim_parseGeomLiteralWKT :
    Emits E id (parseGeomLiteralWKT fl) (parseGeomLiteralWKT fl) := by
  refine sim_cur.bind fun c => ?_
  rcases c with ⟨typ, raw, pos⟩
  cases typ
  case envelope =>
    exact sim_bump.bind fun _ => sim_expect.bind fun _ =>
      (sim_envelopeCoords 4).bind fun _ => sim_expect.bind fun _ =>
        sim_ofExcept _
  case point | lineString | polygon | multiPoint | multiLineString | multiPolygon
      | geometryCollection =>
    exact sim_bump.bind fun _ => sim_cur.bind fun _ =>
      sim_ite (sim_throw _) (sim_wktBody.bind fun _ => sim_pure rfl)
  all_goals exact sim_throw _

lemma sim_parseGeomExpr :
    Emits E (Geom.emit E) (parseGeomExpr fl (treeEmitter F) opt)
      (parseGeomExpr fl E opt) := by
  refine sim_cur.bind fun c => sim_ite (sim_ite (sim_throw _) ?_) ?_
  · exact sim_bump.bind fun _ => sim_pure rfl
  · exact sim_parseGeomLiteralWKT.bind fun _ => sim_addArg.bind fun _ =>
      sim_pure rfl

lemma sim_inLiteral : Emits E id (inLiteral fl) (inLiteral fl) := by
  refine sim_cur.bind fun c => ?_
  rcases c with ⟨typ, raw, pos⟩
  cases typ
  case string => exact sim_pure rfl
  case number => exact (sim_parseFloat raw _).bind fun _ => sim_pure rfl
  all_goals exact sim_throw _

lemma sim_inItems : ∀ k : Nat,
    Emits E id (inItems fl (treeEmitter F) k) (inItems fl E k)
  | 0 => sim_throw _
  | k + 1 => by
    refine sim_inLiteral.bind fun l => sim_addArg.bind fun n =>
      sim_bump.bind fun _ => sim_cur.bind fun sep => sim_ite ?_ (sim_pure rfl)
    exact sim_bump.bind fun _ => (sim_inItems k).bind fun _ => sim_pure rfl

variable (fuel : Nat) (neg : Bool) (prop : Str) (left : Scalar F)

lemma sim_betweenBounds :
    Emits E (Pred.emit E) (betweenBounds fl (treeEmitter F) opt fuel neg left)
      (betweenBounds fl E opt fuel neg (left.emit E)) :=
  (sim_parseScalarExpr fuel 0).bind fun _ => sim_cur.bind fun _ =>
    sim_ite (sim_throw _) <| sim_bump.bind fun _ =>
      (sim_parseScalarExpr fuel 0).bind fun _ => sim_pure rfl

lemma sim_comparisonTail :
    Emits E (Pred.emit E) (comparisonTail fl (treeEmitter F) opt fuel left)
      (comparisonTail fl E opt fuel (left.emit E)) := by
  refine sim_cur.bind fun c => sim_peek.bind fun p => sim_ite ?_ (sim_ite ?_ ?_)
  · exact sim_bump.bind fun _ => sim_bump.bind fun _ =>
      sim_betweenBounds fuel true left
  · exact sim_bump.bind fun _ => sim_betweenBounds fuel false left
  · rcases c with ⟨typ, raw, pos⟩
    cases typ
    case eq | neq | lt | gt | lte | gte =>
      exact sim_bump.bind fun _ => (sim_parseScalarExpr fuel 0).bind fun _ =>
        sim_pure rfl
    all_goals exact sim_throw _

lemma sim_nullAfterIs :
    Emits E (Pred.emit E) (nullAfterIs (treeEmitter F) neg prop)
      (nullAfterIs E neg prop) :=
  sim_cur.bind fun _ => sim_ite (sim_throw _) <| sim_bump.bind fun _ =>
    sim_pure rfl

lemma sim_propertyTail (neg : Bool) :
    Emits E (Pred.emit E) (propertyTail fl (treeEmitter F) opt fuel prop neg)
      (propertyTail fl E opt fuel prop neg) := by
  refine sim_cur.bind fun c => ?_
  rcases c with ⟨typ, raw, pos⟩
  cases typ
  case like | iLike =>
    exact sim_bump.bind fun _ => sim_cur.bind fun _ => sim_ite (sim_throw _) <|
      sim_addArg.bind fun _ => sim_bump.bind fun _ => sim_pure rfl
  case is =>
    exact sim_bump.bind fun _ => sim_cur.bind fun _ => sim_ite
      (sim_bump.bind fun _ => sim_nullAfterIs true prop) (sim_nullAfterIs false prop)
  case in_ =>
    exact sim_bump.bind fun _ => sim_expect.bind fun _ =>
      (sim_inItems fuel).bind fun _ => sim_expect.bind fun _ => sim_pure rfl
  all_goals exact sim_comparisonTail fuel (.ident prop)

lemma sim_parseComparison :
    Emits E (Pred.emit E) (parseComparison fl (treeEmitter F) opt fuel)
      (parseComparison fl E opt fuel) := by
  refine sim_cur.bind fun c => sim_ite ?_ ?_
  · refine (sim_assertAllowedProperty _).bind fun _ => sim_bump.bind fun _ =>
      sim_cur.bind fun _ => sim_peek.bind fun _ => sim_ite ?_ ?_
    · exact sim_bump.bind fun _ => sim_propertyTail fuel _ true
    · exact sim_propertyTail fuel _ false
  · exact (sim_parseScalarExpr fuel 0).bind fun left =>
      sim_comparisonTail fuel left

lemma sim_parsePredicate :
    Emits E (Pred.emit E) (parsePredicate fl (treeEmitter F) opt fuel)
      (parsePredicate fl E opt fuel) := by
  refine sim_cur.bind fun c => ?_
  rcases c with ⟨typ, raw, pos⟩
  cases typ
  case spatialOp =>
    exact sim_bump.bind fun _ => sim_expect.bind fun _ =>
      sim_parseGeomExpr.bind fun _ => sim_expect.bind fun _ =>
        sim_parseGeomExpr.bind fun _ => sim_expect.bind fun _ =>
          sim_pure rfl
  case dWithin =>
    exact sim_bump.bind fun _ => sim_expect.bind fun _ =>
      sim_parseGeomExpr.bind fun _ => sim_expect.bind fun _ =>
        sim_parseGeomExpr.bind fun _ => sim_expect.bind fun _ =>
          sim_cur.bind fun _ => sim_ite (sim_throw _) <|
            (sim_parseFloat _ _).bind fun _ => sim_addArg.bind fun _ =>
              sim_bump.bind fun _ => sim_expect.bind fun _ => sim_pure rfl
  all_goals exact sim_parseComparison fuel

section Connectives

variable (fuel : Nat) {rec : P (Lit F) (Pred F)} {rec' : P A B}

lemma sim_parsePrimary (hrec : Emits E (Pred.emit E) rec rec') :
    Emits E (Pred.emit E) (parsePrimary fl (treeEmitter F) opt fuel rec)
      (parsePrimary fl E opt fuel rec') :=
  sim_cur.bind fun _ => sim_ite
    (sim_bump.bind fun _ => hrec.bind fun _ => sim_expect.bind fun _ =>
      sim_pure rfl)
    (sim_parsePredicate fuel)

lemma sim_parseNot (hrec : Emits E (Pred.emit E) rec rec') : ∀ k : Nat,
    Emits E (Pred.emit E) (parseNot fl (treeEmitter F) opt fuel rec k)
      (parseNot fl E opt fuel rec' k)
  | 0 => sim_throw _
  | k + 1 =>
    sim_cur.bind fun _ => sim_ite
      (sim_bump.bind fun _ => (sim_parseNot hrec k).bind fun _ => sim_pure rfl)
      (sim_parsePrimary fuel hrec)

lemma sim_connectLoop (t : TokenType) {combine : Pred F → Pred F → Pred F} {combine' : B → B → B}
    (hc : ∀ a b, combine' (a.emit E) (b.emit E) = (combine a b).emit E)
    (hrec : Emits E (Pred.emit E) rec rec') :
    ∀ (k : Nat) (left : Pred F),
      Emits E (Pred.emit E) (connectLoop t combine rec k left)
        (connectLoop t combine' rec' k (left.emit E))
  | 0, _ => sim_throw _
  | k + 1, left => by
    refine sim_cur.bind fun c => sim_ite ?_ (sim_pure rfl)
    refine sim_bump.bind fun _ => hrec.bind fun right => ?_
    rw [hc left right]
    exact sim_connectLoop t hc hrec k (combine left right)

lemma sim_parseAnd (hrec : Emits E (Pred.emit E) rec rec') :
    Emits E (Pred.emit E) (parseAnd fl (treeEmitter F) opt fuel rec)
      (parseAnd fl E opt fuel rec') :=
  (sim_parseNot fuel hrec fuel).bind fun left =>
    sim_connectLoop .and (fun _ _ => rfl) (sim_parseNot fuel hrec fuel) fuel left

end Connectives

lemma sim_parseOr (fuel : Nat) : ∀ k : Nat,
    Emits E (Pred.emit E) (parseOr fl (treeEmitter F) opt fuel k)
      (parseOr fl E opt fuel k)
  | 0 => sim_throw _
  | k + 1 =>
    (sim_parseAnd fuel (sim_parseOr fuel k)).bind fun left =>
      sim_connectLoop .or (fun _ _ => rfl) (sim_parseAnd fuel (sim_parseOr fuel k))
        fuel left

variable (E fl opt)

lemma sim_parseAll (fuel : Nat) :
    Emits E (Pred.emit E) (parseAll fl (treeEmitter F) opt fuel)
      (parseAll fl E opt fuel) :=
  (sim_parseOr fuel fuel).bind fun _ => sim_cur.bind fun _ =>
    sim_ite (sim_throw _) (sim_pure rfl)

/-- What an emitter writes is a fold over the tree, and it fails exactly where the
tree cannot be built, with the same error. -/
theorem parse_emit (cql : Str) :
    parse fl E opt cql =
      (parse fl (treeEmitter F) opt cql).map fun r =>
        (r.1.map (Pred.emit E), r.2.1.map E.arg, r.2.2) := by
  unfold parse
  dsimp only
  split
  · rfl
  have hsim := sim_parseAll E fl opt.normalize ((tokenize cql).length + 1)
    ⟨tokenize cql, opt.normalize.startParamIndex.toNat, []⟩
  simp only [PState.emit, List.map_nil] at hsim
  rw [hsim]
  cases parseAll fl (treeEmitter F) opt.normalize ((tokenize cql).length + 1)
    ⟨tokenize cql, opt.normalize.startParamIndex.toNat, []⟩ <;> rfl

end Emit

end NeoServer.Filter
