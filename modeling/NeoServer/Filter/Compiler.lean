import NeoServer.Prog
import NeoServer.Filter.Token
import NeoServer.Sqlutil

/-!
# Filter.Compiler — from CQL2 text to SQL

The recursive-descent compiler. The source has it twice, once for PostGIS and
once for DuckDB, and the two differ only in the SQL they write; here the parser
is written once, over an `Emitter` that says what is written for each production,
and `compile` and `compileForDuckDB` are its two instances.

The parser reads a list of tokens. Recursive calls that consume no token first do
not occur, so a bound `fuel` above the number of tokens is never reached; that is
proved in `Filter.Grammar`.
-/

namespace NeoServer.Filter

open NeoServer.Sql (parens spaced listText callText paramText negText likeKw strText)
open Prog

/-- `strconv.ParseFloat(s, 64)` (`none` on an error) and the order of the result. -/
structure FloatOps (F : Type) where
  parse : Str → Option F
  le : F → F → Bool

structure Options where
  startParamIndex : Int
  filterSRID : Int
  sourceSRID : Int
  allowedProperties : List Str
  geometryProperty : Str

structure DuckDBOptions extends Options where
  geometryExpression : Str

/-- The defaults of `newParser`. -/
def Options.normalize (opt : Options) : Options :=
  { opt with
    startParamIndex := if opt.startParamIndex ≤ 0 then 1 else opt.startParamIndex
    filterSRID := if opt.filterSRID = 0 then 4326 else opt.filterSRID
    geometryProperty := if opt.geometryProperty = [] then "geom".toList else opt.geometryProperty }

/-- The errors of the parser, with the data their messages show. -/
inductive ParseError
  /-- `unexpected token %q at %d` -/
  | unexpectedToken (raw : Str) (pos : Nat)
  /-- `expected %v at %d, got %q` -/
  | expected (typ : TokenType) (pos : Nat) (raw : Str)
  /-- `expected numeric distance at %d` -/
  | expectedDistance (pos : Nat)
  /-- `invalid numeric distance %q` -/
  | invalidDistance (raw : Str)
  /-- `LIKE requires string literal at %d` -/
  | likeRequiresString (pos : Nat)
  /-- `expected NULL after IS at %d` -/
  | expectedNull (pos : Nat)
  /-- `invalid number %q` -/
  | invalidNumber (raw : Str)
  /-- `expected literal in IN list at %d` -/
  | expectedInLiteral (pos : Nat)
  /-- `expected AND in BETWEEN at %d` -/
  | expectedAnd (pos : Nat)
  /-- `expected comparison operator at %d` -/
  | expectedComparison (pos : Nat)
  /-- `unexpected scalar token %q at %d` -/
  | unexpectedScalar (raw : Str) (pos : Nat)
  /-- `unsupported geometry property %q (allowed: %q)` -/
  | unsupportedGeometry (name allowed : Str)
  /-- `expected number in ENVELOPE at %d` -/
  | expectedEnvelopeNumber (pos : Nat)
  /-- `expected '(' after %s at %d` -/
  | expectedParenAfter (kw : Str) (pos : Nat)
  /-- `unterminated geometry literal` -/
  | unterminatedGeometry
  /-- `expected geometry literal at %d` -/
  | expectedGeometry (pos : Nat)
  /-- `unknown property %q` -/
  | unknownProperty (name : Str)
  /-- `BBOX requires four coordinates` -/
  | bboxCoordinates
  /-- `invalid BBOX minimum x: %w` -/
  | invalidMinX (raw : Str)
  /-- `invalid BBOX maximum x: %w` -/
  | invalidMaxX (raw : Str)
  /-- The bound of the model was reached; the source has no such error. -/
  | outOfFuel
deriving DecidableEq, Repr

/-- The state of the parser: the tokens from the current one on, the index of the
next placeholder and the arguments bound so far. -/
structure PState (A : Type) where
  toks : List Token
  next : Nat
  args : List A

/-- What a literal of the filter is, before a dialect binds it. -/
inductive Lit (F : Type)
  | str (s : Str)
  | num (x : F)
  | temporal (s : Str)
  | wkt (s : Str)

/-- What the compiler writes for each production: `S`, `G` and `B` are its scalar,
geometry and boolean results, `A` the arguments it binds. -/
structure Emitter (F S G B A : Type) where
  arg : Lit F → A
  ident : Str → S
  lit : Nat → Lit F → S
  bool : Str → S
  now : S
  temporal : Nat → Str → S
  arith : S → Str → S → S
  scalarParen : S → S
  geomProp : Str → G
  geomLit : Nat → Str → G
  spatial : Str → G → G → B
  dwithin : G → G → Nat → F → B
  like : Bool → Bool → Str → Nat → Str → B
  isNull : Bool → Str → B
  inList : Bool → Str → List (Nat × Lit F) → B
  between : Bool → S → S → S → B
  compare : S → Str → S → B
  or : B → B → B
  and : B → B → B
  not : B → B
  paren : B → B

/-! ## Tokens -/

section Parser

variable {F S G B A : Type}

abbrev P (A : Type) := Prog (PState A) ParseError

/-- No production consumes the last token, so this one is never looked at. -/
def eofToken : Token := ⟨.eof, [], 0⟩

def PState.cur (st : PState A) : Token := st.toks.headD eofToken

def PState.peek (st : PState A) : Token := st.toks.tail.headD eofToken

def cur : P A Token := gets PState.cur

def peek : P A Token := gets PState.peek

def bump : P A Unit := modify fun st => { st with toks := st.toks.tail }

def expect (t : TokenType) : P A Token := do
  let tok ← cur
  if tok.typ ≠ t then throw (.expected t tok.pos tok.raw)
  else do
    bump
    pure tok

/-- Bind an argument; the result is the index of its placeholder. -/
def addArg (v : A) : P A Nat := do
  let n ← gets PState.next
  modify fun st => { st with next := st.next + 1, args := st.args ++ [v] }
  pure n

variable (fl : FloatOps F) (E : Emitter F S G B A) (opt : Options)

def parseFloat (raw : Str) (e : ParseError) : P A F := ofOption (fl.parse raw) e

def assertAllowedProperty (name : Str) : P A Unit :=
  if name ∈ opt.allowedProperties then pure () else throw (.unknownProperty name)

/-! ## Scalar expressions -/

def scalarPrec : TokenType → Option Nat
  | .mul | .div => some 20
  | .plus | .minus => some 10
  | _ => none

def parseScalarPrimary (parseScalarExpr : Nat → P A S) : P A S := do
  let c ← cur
  match c.typ with
  | .lParen => do
      bump
      let inner ← parseScalarExpr 0
      let _ ← expect .rParen
      pure (E.scalarParen inner)
  | .ident => do
      assertAllowedProperty opt c.raw
      bump
      pure (E.ident c.raw)
  | .string => do
      let n ← addArg (E.arg (.str c.raw))
      bump
      pure (E.lit n (.str c.raw))
  | .number => do
      let x ← parseFloat fl c.raw (.invalidNumber c.raw)
      let n ← addArg (E.arg (.num x))
      bump
      pure (E.lit n (.num x))
  | .bool => do
      bump
      pure (E.bool (toLower c.raw))
  | .temporal => do
      let p ← peek
      if toUpper c.raw = "NOW" ∧ p.typ = .lParen then do
        bump
        bump
        let _ ← expect .rParen
        pure E.now
      else do
        let n ← addArg (E.arg (.temporal c.raw))
        bump
        pure (E.temporal n c.raw)
  | _ => throw (.unexpectedScalar c.raw c.pos)

/-- The operators after a first operand. -/
def scalarLoop (parseScalarExpr : Nat → P A S) (minPrec : Nat) : Nat → S → P A S
  | 0, _ => throw .outOfFuel
  | k + 1, left => do
      let c ← cur
      match scalarPrec c.typ with
      | none => pure left
      | some prec =>
        if prec < minPrec then pure left
        else do
          bump
          let right ← parseScalarExpr (prec + 1)
          scalarLoop parseScalarExpr minPrec k (E.arith left c.raw right)

def parseScalarExpr : Nat → Nat → P A S
  | 0, _ => throw .outOfFuel
  | k + 1, minPrec => do
      let left ← parseScalarPrimary fl E opt (parseScalarExpr k)
      scalarLoop E (parseScalarExpr k) minPrec k left

/-! ## Geometry expressions -/

/-- The four coordinates of an envelope; `k` of them are still to be read. -/
def envelopeCoords : Nat → P A (List Str)
  | 0 => pure []
  | k + 1 => do
      let c ← cur
      if c.typ ≠ .number then throw (.expectedEnvelopeNumber c.pos)
      else do
        bump
        if k = 0 then pure [c.raw]
        else do
          let _ ← expect .comma
          let rest ← envelopeCoords k
          pure (c.raw :: rest)

def envelopeWKT : List Str → Except ParseError Str
  | [c₀, c₁, c₂, c₃] =>
    match fl.parse c₀, fl.parse c₂ with
    | none, _ => .error (.invalidMinX c₀)
    | some _, none => .error (.invalidMaxX c₂)
    | some minX, some maxX =>
      if fl.le minX maxX then
        .ok ("POLYGON((" ++ c₀ ++ " " ++ c₁ ++ "," ++ c₂ ++ " " ++
          c₁ ++ "," ++ c₂ ++ " " ++ c₃ ++ "," ++ c₀ ++ " " ++ c₃ ++
          "," ++ c₀ ++ " " ++ c₁ ++ "))")
      else
        -- a west value greater than the east one crosses the antimeridian
        .ok ("MULTIPOLYGON(((" ++ c₀ ++ " " ++ c₁ ++ ",180 " ++ c₁ ++
          ",180 " ++ c₃ ++ "," ++ c₀ ++ " " ++ c₃ ++ "," ++ c₀ ++
          " " ++ c₁ ++ ")),((-180 " ++ c₁ ++ "," ++ c₂ ++ " " ++
          c₁ ++ "," ++ c₂ ++ " " ++ c₃ ++ ",-180 " ++ c₃ ++
          ",-180 " ++ c₁ ++ ")))")
  | _ => .error .bboxCoordinates

/-- The parenthesis depth after a token. -/
def depthAfter (depth : Int) (t : Token) : Int :=
  if t.typ = .lParen then depth + 1 else if t.typ = .rParen then depth - 1 else depth

/-- A token's text in a geometry literal: a blank separates two numbers. -/
def wktText (prevNum : Bool) (t : Token) : Str :=
  (if prevNum && t.typ = .number then " ".toList else []) ++ t.raw

/-- The text of a geometry literal from its first parenthesis to the matching one,
and the tokens after it. -/
def wktLoop : Int → Bool → List Token → Option (Str × List Token)
  | _, _, [] => none
  | depth, prevNum, t :: ts =>
    if depthAfter depth t = 0 then some (wktText prevNum t, ts)
    else if (ts.headD eofToken).typ = .eof then none
    else
      (wktLoop (depthAfter depth t) (t.typ = .number) ts).map fun r =>
        (wktText prevNum t ++ r.1, r.2)

def wktBody : P A Str := do
  let toks ← gets PState.toks
  let r ← ofOption (wktLoop 0 false toks) .unterminatedGeometry
  modify fun st => { st with toks := r.2 }
  pure r.1

def parseGeomLiteralWKT : P A Str := do
  let c ← cur
  match c.typ with
  | .envelope => do
      bump
      let _ ← expect .lParen
      let coords ← envelopeCoords 4
      let _ ← expect .rParen
      ofExcept (envelopeWKT fl coords)
  | .point | .lineString | .polygon | .multiPoint | .multiLineString | .multiPolygon
  | .geometryCollection => do
      bump
      let p ← cur
      if p.typ ≠ .lParen then throw (.expectedParenAfter c.raw p.pos)
      else do
        let body ← wktBody
        pure (toUpper c.raw ++ body)
  | _ => throw (.expectedGeometry c.pos)

def parseGeomExpr : P A G := do
  let c ← cur
  if c.typ = .ident then
    if c.raw ≠ opt.geometryProperty then
      throw (.unsupportedGeometry c.raw opt.geometryProperty)
    else do
      bump
      pure (E.geomProp c.raw)
  else do
    let wkt ← parseGeomLiteralWKT fl
    let n ← addArg (E.arg (.wkt wkt))
    pure (E.geomLit n wkt)

/-! ## Comparisons -/

/-- One literal of an `IN` list; its token is still the current one. -/
def inLiteral : P A (Lit F) := do
  let c ← cur
  match c.typ with
  | .string => pure (.str c.raw)
  | .number => do
      let x ← parseFloat fl c.raw (.invalidNumber c.raw)
      pure (.num x)
  | _ => throw (.expectedInLiteral c.pos)

/-- The literals of an `IN` list. -/
def inItems : Nat → P A (List (Nat × Lit F))
  | 0 => throw .outOfFuel
  | k + 1 => do
      let l ← inLiteral fl
      let n ← addArg (E.arg l)
      bump
      let sep ← cur
      if sep.typ = .comma then do
        bump
        let rest ← inItems k
        pure ((n, l) :: rest)
      else pure [(n, l)]

variable (fuel : Nat)

/-- `scalarExpr AND scalarExpr`, after `BETWEEN`. -/
def betweenBounds (neg : Bool) (left : S) : P A B := do
  let a ← parseScalarExpr fl E opt fuel 0
  let c ← cur
  if c.typ ≠ .and then throw (.expectedAnd c.pos)
  else do
    bump
    let b ← parseScalarExpr fl E opt fuel 0
    pure (E.between neg left a b)

/-- `(NOT)? BETWEEN` or a comparison operator, after the left operand. -/
def comparisonTail (left : S) : P A B := do
  let c ← cur
  let p ← peek
  if c.typ = .not ∧ p.typ = .between then do
    bump
    bump
    betweenBounds fl E opt fuel true left
  else if c.typ = .between then do
    bump
    betweenBounds fl E opt fuel false left
  else
    match c.typ with
    | .eq | .neq | .lt | .gt | .lte | .gte => do
        bump
        let right ← parseScalarExpr fl E opt fuel 0
        pure (E.compare left c.raw right)
    | _ => throw (.expectedComparison c.pos)

/-- `NULL`, after `IS` or `IS NOT`. -/
def nullAfterIs (neg : Bool) (prop : Str) : P A B := do
  let c ← cur
  if c.typ ≠ .null then throw (.expectedNull c.pos)
  else do
    bump
    pure (E.isNull neg prop)

/-- `LIKE`, `IS NULL`, `IN` or a comparison, after a property name. -/
def propertyTail (prop : Str) (neg : Bool) : P A B := do
  let c ← cur
  match c.typ with
  | .like | .iLike => do
      bump
      let s ← cur
      if s.typ ≠ .string then throw (.likeRequiresString s.pos)
      else do
        let n ← addArg (E.arg (.str s.raw))
        bump
        pure (E.like neg (c.typ = .iLike) prop n s.raw)
  | .is => do
      bump
      let p ← cur
      if p.typ = .not then do
        bump
        nullAfterIs E true prop
      else nullAfterIs E false prop
  | .in_ => do
      bump
      let _ ← expect .lParen
      let items ← inItems fl E fuel
      let _ ← expect .rParen
      pure (E.inList neg prop items)
  | _ => comparisonTail fl E opt fuel (E.ident prop)

def parseComparison : P A B := do
  let c ← cur
  if c.typ = .ident then do
    assertAllowedProperty opt c.raw
    bump
    let n ← cur
    let p ← peek
    if n.typ = .not ∧ (p.typ = .like ∨ p.typ = .iLike ∨ p.typ = .in_) then do
      bump
      propertyTail fl E opt fuel c.raw true
    else propertyTail fl E opt fuel c.raw false
  else do
    let left ← parseScalarExpr fl E opt fuel 0
    comparisonTail fl E opt fuel left

/-! ## Predicates and connectives -/

def parsePredicate : P A B := do
  let c ← cur
  match c.typ with
  | .spatialOp => do
      bump
      let _ ← expect .lParen
      let g₁ ← parseGeomExpr fl E opt
      let _ ← expect .comma
      let g₂ ← parseGeomExpr fl E opt
      let _ ← expect .rParen
      pure (E.spatial (toLower c.raw) g₁ g₂)
  | .dWithin => do
      bump
      let _ ← expect .lParen
      let g₁ ← parseGeomExpr fl E opt
      let _ ← expect .comma
      let g₂ ← parseGeomExpr fl E opt
      let _ ← expect .comma
      let d ← cur
      if d.typ ≠ .number then throw (.expectedDistance d.pos)
      else do
        let dist ← parseFloat fl d.raw (.invalidDistance d.raw)
        let n ← addArg (E.arg (.num dist))
        bump
        let _ ← expect .rParen
        pure (E.dwithin g₁ g₂ n dist)
  | _ => parseComparison fl E opt fuel

def parsePrimary (parseOr : P A B) : P A B := do
  let c ← cur
  if c.typ = .lParen then do
    bump
    let inner ← parseOr
    let _ ← expect .rParen
    pure (E.paren inner)
  else parsePredicate fl E opt fuel

def parseNot (fuel : Nat) (parseOr : P A B) : Nat → P A B
  | 0 => throw .outOfFuel
  | k + 1 => do
      let c ← cur
      if c.typ = .not then do
        bump
        let expr ← parseNot fuel parseOr k
        pure (E.not expr)
      else parsePrimary fl E opt fuel parseOr

/-- `operand (t operand)*`, combined from the left. -/
def connectLoop (t : TokenType) (combine : B → B → B) (operand : P A B) : Nat → B → P A B
  | 0, _ => throw .outOfFuel
  | k + 1, left => do
      let c ← cur
      if c.typ = t then do
        bump
        let right ← operand
        connectLoop t combine operand k (combine left right)
      else pure left

def parseAnd (fuel : Nat) (parseOr : P A B) : P A B := do
  let left ← parseNot fl E opt fuel parseOr fuel
  connectLoop .and E.and (parseNot fl E opt fuel parseOr fuel) fuel left

def parseOr (fuel : Nat) : Nat → P A B
  | 0 => throw .outOfFuel
  | k + 1 => do
      let left ← parseAnd fl E opt fuel (parseOr fuel k)
      connectLoop .or E.or (parseAnd fl E opt fuel (parseOr fuel k)) fuel left

/-- The whole input; a blank one has no tree. -/
def parseAll (fuel : Nat) : P A B := do
  let sql ← parseOr fl E opt fuel fuel
  let c ← cur
  if c.typ ≠ .eof then throw (.unexpectedToken c.raw c.pos)
  else pure sql

/-- The encodings of the runes above U+007F that `unicode.IsSpace` accepts, without
their first byte. -/
def spaceTail (c : Char) (s : Str) : Option Str :=
  match c, s with
  | '\xc2', d :: s => if d = '\x85' ∨ d = '\xa0' then some s else none
  | '\xe1', '\x9a' :: '\x80' :: s => some s
  | '\xe2', '\x80' :: d :: s =>
    if ('\x80' ≤ d ∧ d ≤ '\x8a') ∨ d = '\xa8' ∨ d = '\xa9' ∨ d = '\xaf' then some s else none
  | '\xe2', '\x81' :: '\x9f' :: s => some s
  | '\xe3', '\x80' :: '\x80' :: s => some s
  | _, _ => none

/-- `strings.TrimSpace(s) == ""` for an input of at most `k` bytes. -/
def isBlankFrom : Nat → Str → Bool
  | _, [] => true
  | 0, _ => false
  | k + 1, c :: s =>
    if c.toNat < 0x80 then isSpace c && isBlankFrom k s
    else
      match spaceTail c s with
      | some s => isBlankFrom k s
      | none => false

def isBlank (s : Str) : Bool := isBlankFrom s.length s

/-- `newParser` and `parse`: what is emitted (nothing for a blank input), the
arguments and the next placeholder index. -/
def parse (cql : Str) : Except ParseError (Option B × List A × Nat) :=
  let opt := opt.normalize
  let toks := tokenize cql
  if isBlank cql then .ok (none, [], opt.startParamIndex.toNat)
  else
    match parseAll fl E opt (toks.length + 1) ⟨toks, opt.startParamIndex.toNat, []⟩ with
    | .error e => .error e
    | .ok (out, st) => .ok (some out, st.args, st.next)

end Parser

/-! ## The two dialects -/

/-- An argument bound to a placeholder. -/
inductive Arg (F : Type)
  | str (s : Str)
  | num (x : F)

/-- `pgFunctionForCql` and `duckdbFunctionForCql`, which have the same entries. -/
def functionForCql : List (Str × Str) :=
  [("crosses", "ST_Crosses"), ("contains", "ST_Contains"),
    ("disjoint", "ST_Disjoint"), ("equals", "ST_Equals"),
    ("intersects", "ST_Intersects"),
    ("s_intersects", "ST_Intersects"), ("overlaps", "ST_Overlaps"),
    ("touches", "ST_Touches"), ("within", "ST_Within"),
    ("dwithin", "ST_DWithin")]

/-- `toPostGISFunction` and `toDuckDBFunction`. -/
def toSqlFunction (cqlFunName : Str) : Str :=
  match functionForCql.lookup (toLower cqlFunName) with
  | some f => f
  | none => "UNKNOWN_" ++ cqlFunName

/-- What the dialects write differently. -/
structure Dialect where
  sep : Str
  temporal : Nat → Str → Str
  geomProp : Str → Str
  geomLit : Nat → Str
  geomArg : Str → Str

/-- The argument bound for a literal; `geomArg` is what becomes of a geometry's
text. -/
def Lit.arg {F : Type} (geomArg : Str → Str) : Lit F → Arg F
  | .str s => .str s
  | .num x => .num x
  | .temporal s => .str s
  | .wkt s => .str (geomArg s)

/-- The SQL texts of a dialect. -/
def Dialect.emitter {F : Type} (d : Dialect) : Emitter F Str Str Str (Arg F) where
  arg := Lit.arg d.geomArg
  ident := quoteIdent
  lit n _ := paramText n
  bool v := v
  now := "NOW()"
  temporal := d.temporal
  arith left op right := parens (spaced left op right)
  scalarParen := parens
  geomProp := d.geomProp
  geomLit n _ := d.geomLit n
  spatial op g₁ g₂ := callText (toSqlFunction op) d.sep [g₁, g₂]
  dwithin g₁ g₂ n _ := callText "ST_DWithin" d.sep [g₁, g₂, paramText n]
  like neg ci prop n _ :=
    quoteIdent prop ++ ' ' :: (negText neg ++ ((likeKw ci).text ++ ' ' :: paramText n))
  isNull neg prop :=
    quoteIdent prop ++ ' ' :: ("IS" ++ ' ' :: (negText neg ++ "NULL"))
  inList neg prop items :=
    quoteIdent prop ++ ' ' :: (negText neg ++ ("IN" ++ ' ' ::
      listText d.sep (items.map fun i => paramText i.1)))
  between neg left a b :=
    left ++ ' ' :: (negText neg ++ ("BETWEEN" ++ ' ' :: spaced a "AND" b))
  compare left op right := spaced left op right
  or left right := parens (spaced left "OR" right)
  and left right := parens (spaced left "AND" right)
  not expr := parens ("NOT" ++ ' ' :: expr)
  paren := parens

/-- Whether `Compile` casts a temporal literal to a timestamp with time zone. -/
def pgZoned (val : Str) : Bool :=
  val.any (fun c => c = 'Z' || c = '+') ||
    (val.contains 'T' && val.contains ':' &&
      (val.contains 'Z' || val.contains '+' || val.contains '-'))

/-- Whether `CompileForDuckDB` casts a temporal literal to a timestamp with time
zone. -/
def duckdbZoned (val : Str) : Bool :=
  val.any (fun c => c = 'Z' || c = '+') || (val.contains 'T' && val.contains ':')

/-- Whether a geometry literal is transformed to the CRS of the source. -/
def Options.transforms (opt : Options) : Bool :=
  opt.sourceSRID ≠ 0 && opt.sourceSRID ≠ opt.filterSRID

def postgis (opt : Options) : Dialect where
  sep := ","
  temporal n val :=
    paramText n ++ "::".toList ++ if pgZoned val then "timestamptz".toList else "timestamp".toList
  geomProp := quoteIdent
  geomLit n :=
    let sql := paramText n ++ "::geometry"
    if opt.transforms then callText "ST_Transform" "," [sql, decimal opt.sourceSRID]
    else sql
  geomArg wkt := "SRID=" ++ decimal opt.filterSRID ++ ";" ++ wkt

def epsg (srid : Int) : Str := strText ("EPSG:" ++ decimal srid)

def castText (expr ty : Str) : Str := "CAST" ++ parens (spaced expr "AS" ty)

def duckdb (opt : Options) (geometryExpression : Str) : Dialect where
  sep := ", "
  temporal n val :=
    castText (paramText n) (if duckdbZoned val then "TIMESTAMPTZ".toList else "TIMESTAMP".toList)
  geomProp name := if geometryExpression ≠ [] then geometryExpression else quoteIdent name
  geomLit n :=
    let sql := callText "ST_GeomFromText" ", " [castText (paramText n) "VARCHAR"]
    if opt.transforms then
      callText "ST_Transform" ", "
        [sql, epsg opt.filterSRID, epsg opt.sourceSRID,
          spaced "always_xy" ":=" "true"]
    else sql
  geomArg wkt := wkt

/-- What `Compile` and `CompileForDuckDB` return without an error. -/
structure Compiled (F : Type) where
  sql : Str
  args : List (Arg F)
  nextIndex : Nat

/-- Run the parser with the texts of a dialect; a blank filter has the empty text. -/
def compileWith {F : Type} (fl : FloatOps F) (d : Dialect) (opt : Options) (cql : Str) :
    Except ParseError (Compiled F) :=
  (parse fl d.emitter opt cql).map fun r => ⟨r.1.getD [], r.2.1, r.2.2⟩

def compile {F : Type} (fl : FloatOps F) (cql : Str) (opt : Options) :
    Except ParseError (Compiled F) :=
  compileWith fl (postgis opt.normalize) opt cql

def compileForDuckDB {F : Type} (fl : FloatOps F) (cql : Str) (opt : DuckDBOptions) :
    Except ParseError (Compiled F) :=
  compileWith fl (duckdb opt.toOptions.normalize opt.geometryExpression) opt.toOptions cql

end NeoServer.Filter
