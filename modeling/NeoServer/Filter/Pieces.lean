import NeoServer.Filter.Relate

/-!
# Filter.Pieces — what the emitted SQL is made of

`Piece` lists everything the compiler ever writes: its own fixed texts, quoted
identifiers, placeholders, the SRIDs of the options and the configured geometry
expression. The SQL of every accepted filter is a concatenation of such pieces
(`related_pieces`), and its placeholders are the literals of the filter, from left
to right (`Pred.placeholders_pieces`).
-/

namespace NeoServer.Filter

open NeoServer.Sql (parens spaced listText callText paramText negText likeKw strText CmpOp ArithOp)
open List

/-! ## Pieces -/

inductive Piece
  | text (s : Str)
  | ident (name : Str)
  | placeholder (n : Nat)
  | srid (n : Int)
  | geometryExpression

/-- The fixed texts of the two compilers. -/
def fixedTexts : List Str :=
  ["(", ")", " ", ",", ", ", "OR", "AND", "NOT", "NOT ", "LIKE", "ILIKE", "IS", "NULL", "IN",
    "BETWEEN",
    "=", "<>", "<", ">", "<=", ">=", "+", "-", "*", "/", "true", "false", "NOW()",
    "::", "timestamptz", "timestamp", "::geometry",
    "CAST", "AS", "TIMESTAMPTZ", "TIMESTAMP", "VARCHAR", "ST_GeomFromText",
    "ST_Transform", "'EPSG:", "'", "always_xy", ":=",
    "ST_Crosses", "ST_Contains", "ST_Disjoint", "ST_Equals", "ST_Intersects", "ST_Overlaps",
    "ST_Touches", "ST_Within", "ST_DWithin"].map String.toList

/-- What a piece may be under the given options. -/
def Piece.Allowed (opt : Options) : Piece → Prop
  | .text s => s ∈ fixedTexts
  | .ident name => name ∈ opt.allowedProperties ∨ name = opt.geometryProperty
  | .placeholder _ => True
  | .srid n => n = opt.filterSRID ∨ n = opt.sourceSRID
  | .geometryExpression => True

/-- The text of a piece; `ge` is the configured geometry expression. -/
def Piece.render (ge : Str) : Piece → Str
  | .text s => s
  | .ident name => quoteIdent name
  | .placeholder n => paramText n
  | .srid n => decimal n
  | .geometryExpression => ge

def render (ge : Str) (ps : List Piece) : Str := ps.flatMap (Piece.render ge)

/-- The placeholders among some pieces, from left to right. -/
def placeholders (ps : List Piece) : List Nat :=
  ps.filterMap fun
    | .placeholder n => some n
    | _ => none

/-! ## Formats -/

def pieceParens (ps : List Piece) : List Piece := .text "(" :: (ps ++ [.text ")"])

def pieceSpaced (a : List Piece) (w : Str) (b : List Piece) : List Piece :=
  a ++ .text " " :: .text w :: .text " " :: b

def pieceJoin (sep : Str) : List (List Piece) → List Piece
  | [] => []
  | [ps] => ps
  | ps :: rest => ps ++ .text sep :: pieceJoin sep rest

def pieceCall (f sep : Str) (args : List (List Piece)) : List Piece :=
  .text f :: pieceParens (pieceJoin sep args)

def pieceNeg (neg : Bool) : List Piece := if neg then [.text "NOT "] else []

/-- `ps` are allowed pieces of the text `s`. -/
def Writes (opt : Options) (ge s : Str) (ps : List Piece) : Prop :=
  s = render ge ps ∧ ∀ p ∈ ps, p.Allowed opt

section Writes

variable {opt : Options} {ge a b : Str} {pa pb : List Piece}

lemma Writes.nil : Writes opt ge [] [] := ⟨rfl, by simp⟩

lemma Writes.append (ha : Writes opt ge a pa) (hb : Writes opt ge b pb) :
    Writes opt ge (a ++ b) (pa ++ pb) := by
  refine ⟨by simp [render, ha.1, hb.1], fun p hp => ?_⟩
  rcases mem_append.mp hp with h | h
  · exact ha.2 p h
  · exact hb.2 p h

lemma Writes.single {p : Piece} (hp : p.Allowed opt) : Writes opt ge (p.render ge) [p] :=
  ⟨by simp [render], by simpa using hp⟩

variable {s sep : Str} {items : List Str} {ps : List (List Piece)}

lemma Writes.text (hs : s ∈ fixedTexts) : Writes opt ge s [.text s] :=
  Writes.single (p := .text s) hs

lemma Writes.cons (hs : s ∈ fixedTexts) (hb : Writes opt ge b pb) :
    Writes opt ge (s ++ b) (.text s :: pb) := (Writes.text hs).append hb

lemma Writes.ident {name : Str} (h : name ∈ opt.allowedProperties) :
    Writes opt ge (quoteIdent name) [.ident name] := Writes.single (p := .ident name) (.inl h)

lemma Writes.placeholder (n : Nat) : Writes opt ge (paramText n) [.placeholder n] :=
  Writes.single (p := .placeholder n) trivial

lemma Writes.parens (ha : Writes opt ge a pa) : Writes opt ge (parens a) (pieceParens pa) := by
  have h := Writes.cons (show "(".toList ∈ fixedTexts by decide)
    (ha.append (Writes.text (show ")".toList ∈ fixedTexts by decide)))
  exact h

lemma Writes.blank (hb : Writes opt ge b pb) : Writes opt ge (' ' :: b) (.text " " :: pb) :=
  Writes.cons (show " ".toList ∈ fixedTexts by decide) hb

lemma Writes.spaced {w : Str} (hw : w ∈ fixedTexts) (ha : Writes opt ge a pa)
    (hb : Writes opt ge b pb) : Writes opt ge (spaced a w b) (pieceSpaced pa w pb) :=
  ha.append (.blank (.cons hw (.blank hb)))

lemma Writes.neg (neg : Bool) : Writes opt ge (negText neg) (pieceNeg neg) := by
  cases neg with
  | false => exact .nil
  | true => exact .text (by decide)

lemma Writes.join (hsep : sep ∈ fixedTexts) (h : List.Forall₂ (Writes opt ge) items ps) :
    Writes opt ge (join sep items) (pieceJoin sep ps) := by
  induction h with
  | nil => exact .nil
  | cons hx hxs ih =>
    cases hxs with
    | nil => exact hx
    | cons =>
      have h := hx.append (.cons hsep ih)
      simpa [NeoServer.join, pieceJoin] using h

lemma Writes.call {f : Str} (hf : f ∈ fixedTexts) (hsep : sep ∈ fixedTexts) (h : List.Forall₂ (Writes opt ge) items ps) :
    Writes opt ge (callText f sep items) (pieceCall f sep ps) :=
  .cons hf (Writes.join hsep h).parens

end Writes

/-! ## The compiler that lists pieces -/

/-- The pieces of the parts the dialects write differently. -/
structure DialectPieces (d : Dialect) (opt : Options) (ge : Str) where
  temporal : Nat → Str → List Piece
  geomProp : Str → List Piece
  geomLit : Nat → List Piece
  sep_mem : d.sep ∈ fixedTexts
  writes_temporal : ∀ n val, Writes opt ge (d.temporal n val) (temporal n val)
  writes_geomProp :
    Writes opt ge (d.geomProp opt.geometryProperty) (geomProp opt.geometryProperty)
  writes_geomLit : ∀ n, Writes opt ge (d.geomLit n) (geomLit n)
  placeholders_temporal : ∀ n val, placeholders (temporal n val) = [n]
  placeholders_geomProp : ∀ name, placeholders (geomProp name) = []
  placeholders_geomLit : ∀ n, placeholders (geomLit n) = [n]

section Emitter

variable {F : Type} {d : Dialect} {opt : Options} {ge : Str} (D : DialectPieces d opt ge)

def pieceEmitter : Emitter F (List Piece) (List Piece) (List Piece) (Lit F) where
  arg := id
  ident name := [.ident name]
  lit n _ := [.placeholder n]
  bool v := [.text v]
  now := [.text "NOW()"]
  temporal := D.temporal
  arith left op right := pieceParens (pieceSpaced left op right)
  scalarParen := pieceParens
  geomProp := D.geomProp
  geomLit n _ := D.geomLit n
  spatial op g₁ g₂ := pieceCall (toSqlFunction op) d.sep [g₁, g₂]
  dwithin g₁ g₂ n _ := pieceCall "ST_DWithin" d.sep [g₁, g₂, [.placeholder n]]
  like neg ci prop n _ :=
    .ident prop :: .text " " :: (pieceNeg neg ++
      [.text (likeKw ci).text, .text " ", .placeholder n])
  isNull neg prop :=
    .ident prop :: .text " " :: .text "IS" :: .text " " ::
      (pieceNeg neg ++ [.text "NULL"])
  inList neg prop items :=
    .ident prop :: .text " " :: (pieceNeg neg ++ .text "IN" :: .text " " ::
      pieceParens (pieceJoin d.sep (items.map fun i => [.placeholder i.1])))
  between neg left a b :=
    left ++ .text " " :: (pieceNeg neg ++ .text "BETWEEN" :: .text " " ::
      pieceSpaced a "AND" b)
  compare left op right := pieceSpaced left op right
  or left right := pieceParens (pieceSpaced left "OR" right)
  and left right := pieceParens (pieceSpaced left "AND" right)
  not inner := pieceParens (.text "NOT" :: .text " " :: inner)
  paren := pieceParens

lemma toSqlFunction_mem : ∀ op ∈ spatialOps, toSqlFunction (toLower op) ∈ fixedTexts := by
  decide

lemma cmpOp_text_mem (op : CmpOp) : op.text ∈ fixedTexts := by
  cases op <;> decide

lemma arithOp_text_mem (op : ArithOp) : op.text ∈ fixedTexts := by
  cases op <;> decide

lemma likeKw_text_mem (ci : Bool) : (likeKw ci).text ∈ fixedTexts := by
  cases ci <;> decide

lemma IsBool.mem_fixedTexts {v : Str} (h : IsBool v) : v ∈ fixedTexts := by
  rcases h with rfl | rfl <;> decide

lemma writes_placeholders (items : List (Nat × Lit F)) :
    List.Forall₂ (Writes opt ge) (items.map fun i => paramText i.1)
      (items.map fun i => [.placeholder i.1]) := by
  induction items with
  | nil => exact .nil
  | cons i is ih => exact .cons (.placeholder i.1) ih

/-- Every production writes allowed pieces around those of its parts. -/
theorem related_pieces :
    Related (F := F) opt d.emitter (pieceEmitter D) (Writes opt ge) (Writes opt ge)
      (Writes opt ge) where
  ident h := .ident h
  lit n _ := .placeholder n
  bool h := .text h.mem_fixedTexts
  now := Writes.text (show "NOW()".toList ∈ fixedTexts by decide)
  temporal n val _ := D.writes_temporal n val
  arith op _ _ _ _ ha hb := (Writes.spaced (arithOp_text_mem op) ha hb).parens
  scalarParen ha := ha.parens
  geomProp := D.writes_geomProp
  geomLit n _ := D.writes_geomLit n
  spatial hop h₁ h₂ := .call (toSqlFunction_mem _ hop) D.sep_mem (.cons h₁ (.cons h₂ .nil))
  dwithin n _ h₁ h₂ :=
    .call (by decide) D.sep_mem (.cons h₁ (.cons h₂ (.cons (.placeholder n) .nil)))
  like neg ci _ n _ h :=
    (Writes.ident h).append (.blank ((Writes.neg neg).append
      (.cons (likeKw_text_mem ci) (.blank (.placeholder n)))))
  isNull neg _ h :=
    (Writes.ident h).append (.blank (.cons (by decide) (.blank ((Writes.neg neg).append
      (.text (by decide))))))
  inList neg _ items h _ :=
    (Writes.ident h).append (.blank ((Writes.neg neg).append (.cons (by decide)
      (.blank (Writes.join D.sep_mem (writes_placeholders items)).parens))))
  between neg _ _ _ _ _ _ hx hlo hhi :=
    hx.append (.blank ((Writes.neg neg).append (.cons (by decide)
      (.blank (Writes.spaced (by decide) hlo hhi)))))
  compare op _ _ _ _ hx hy := Writes.spaced (cmpOp_text_mem op) hx hy
  or ha hb := (Writes.spaced (by decide) ha hb).parens
  and ha hb := (Writes.spaced (by decide) ha hb).parens
  not ha := (Writes.cons (by decide) ha.blank).parens
  paren ha := ha.parens

/-! ## Placeholders -/

@[simp] lemma placeholders_nil : placeholders [] = [] := rfl

@[simp] lemma placeholders_append (ps qs : List Piece) :
    placeholders (ps ++ qs) = placeholders ps ++ placeholders qs := filterMap_append

@[simp] lemma placeholders_text (s : Str) (ps : List Piece) :
    placeholders (.text s :: ps) = placeholders ps := rfl

@[simp] lemma placeholders_ident (name : Str) (ps : List Piece) :
    placeholders (.ident name :: ps) = placeholders ps := rfl

@[simp] lemma placeholders_srid (n : Int) (ps : List Piece) :
    placeholders (.srid n :: ps) = placeholders ps := rfl

@[simp] lemma placeholders_placeholder (n : Nat) (ps : List Piece) :
    placeholders (.placeholder n :: ps) = n :: placeholders ps := rfl

@[simp] lemma placeholders_pieceParens (ps : List Piece) :
    placeholders (pieceParens ps) = placeholders ps := by
  simp [pieceParens]

@[simp] lemma placeholders_pieceSpaced (a b : List Piece) (w : Str) :
    placeholders (pieceSpaced a w b) = placeholders a ++ placeholders b := by
  simp [pieceSpaced]

@[simp] lemma placeholders_pieceNeg (neg : Bool) : placeholders (pieceNeg neg) = [] := by
  cases neg <;> rfl

@[simp] lemma placeholders_pieceJoin (sep : Str) (ps : List (List Piece)) :
    placeholders (pieceJoin sep ps) = ps.flatMap placeholders := by
  induction ps with
  | nil => rfl
  | cons p ps ih =>
    cases ps with
    | nil => simp [pieceJoin]
    | cons => simpa [pieceJoin] using ih

@[simp] lemma placeholders_pieceCall (f sep : Str) (args : List (List Piece)) :
    placeholders (pieceCall f sep args) = args.flatMap placeholders := by
  simp [pieceCall]

lemma Scalar.placeholders_pieces (x : Scalar F) :
    placeholders (x.emit (pieceEmitter D)) = x.lits.map Prod.fst := by
  induction x with
  | ident | lit | bool | now => rfl
  | temporal n val => exact D.placeholders_temporal n val
  | arith left op right ihl ihr =>
    rw [Scalar.lits, map_append, ← ihl, ← ihr]
    simp [Scalar.emit, pieceEmitter]
  | paren inner ih =>
    rw [Scalar.lits, ← ih]
    simp [Scalar.emit, pieceEmitter]

lemma Geom.placeholders_pieces (g : Geom) :
    placeholders (g.emit (pieceEmitter (F := F) D)) = (g.lits (F := F)).map Prod.fst := by
  cases g with
  | prop name => exact D.placeholders_geomProp name
  | lit n => exact D.placeholders_geomLit n

/-- The placeholders are the literals of the filter, from left to right. -/
theorem Pred.placeholders_pieces (t : Pred F) :
    placeholders (t.emit (pieceEmitter D)) = t.lits.map Prod.fst := by
  induction t with
  | spatial op g₁ g₂ =>
    rw [Pred.lits, map_append, ← g₁.placeholders_pieces D, ← g₂.placeholders_pieces D]
    simp [Pred.emit, pieceEmitter]
  | dwithin g₁ g₂ =>
    rw [Pred.lits, map_append, map_append, ← g₁.placeholders_pieces D, ← g₂.placeholders_pieces D]
    simp [Pred.emit, pieceEmitter]
  | like | isNull => simp [Pred.emit, pieceEmitter, Pred.lits]
  | inList neg prop items =>
    have hitems : (items.map fun i => [Piece.placeholder i.1]).flatMap placeholders =
        items.map Prod.fst := by
      rw [flatMap_map, map_eq_flatMap]
      rfl
    simpa [Pred.emit, pieceEmitter, Pred.lits] using hitems
  | between neg x lo hi =>
    rw [Pred.lits, map_append, map_append, ← x.placeholders_pieces D,
      ← lo.placeholders_pieces D, ← hi.placeholders_pieces D]
    simp [Pred.emit, pieceEmitter]
  | compare x op y =>
    rw [Pred.lits, map_append, ← x.placeholders_pieces D, ← y.placeholders_pieces D]
    simp [Pred.emit, pieceEmitter]
  | or a b iha ihb | and a b iha ihb =>
    rw [Pred.lits, map_append, ← iha, ← ihb]
    simp [Pred.emit, pieceEmitter]
  | not a ih | paren a ih =>
    rw [Pred.lits, ← ih]
    simp [Pred.emit, pieceEmitter]

end Emitter

/-! ## The two dialects -/

section Dialects

variable {opt : Options} {ge : Str}

lemma Writes.srid {n : Int} (h : n = opt.filterSRID ∨ n = opt.sourceSRID) :
    Writes opt ge (decimal n) [.srid n] := Writes.single (p := .srid n) h

lemma Writes.epsg {n : Int} (h : n = opt.filterSRID ∨ n = opt.sourceSRID) :
    Writes opt ge (epsg n) [.text "'EPSG:", .srid n, .text "'"] :=
  .cons (show "'EPSG:".toList ∈ fixedTexts by decide)
    ((Writes.srid h).append (.text (show "'".toList ∈ fixedTexts by decide)))

def pieceCast (ps : List Piece) (ty : Str) : List Piece :=
  .text "CAST" :: pieceParens (pieceSpaced ps "AS" [.text ty])

lemma Writes.cast {s ty : Str} {ps} (hs : Writes opt ge s ps)
    (hty : ty ∈ fixedTexts) : Writes opt ge (castText s ty) (pieceCast ps ty) :=
  .cons (show "CAST".toList ∈ fixedTexts by decide)
    (Writes.spaced (by decide) hs (.text hty)).parens

lemma ite_mem_fixedTexts {w₁ w₂ : Str} (b : Bool) (h₁ : w₁ ∈ fixedTexts)
    (h₂ : w₂ ∈ fixedTexts) : (if b then w₁ else w₂) ∈ fixedTexts := by
  cases b with
  | true => exact h₁
  | false => exact h₂

variable (opt ge)

def postgisPieces : DialectPieces (postgis opt) opt ge where
  temporal n val :=
    [.placeholder n, .text "::",
      .text (if pgZoned val then "timestamptz".toList else "timestamp".toList)]
  geomProp name := [.ident name]
  geomLit n :=
    let ps := [.placeholder n, .text "::geometry"]
    if opt.transforms then
      pieceCall "ST_Transform" "," [ps, [.srid opt.sourceSRID]]
    else ps
  sep_mem := show ",".toList ∈ fixedTexts by decide
  writes_temporal n val := by
    have h : Writes opt ge (paramText n ++ "::") [.placeholder n, .text "::"] :=
      (Writes.placeholder n).append (.text (by decide))
    exact h.append (.text (ite_mem_fixedTexts _ (by decide) (by decide)))
  writes_geomProp := Writes.single (p := .ident opt.geometryProperty) (.inr rfl)
  writes_geomLit n := by
    have hlit : Writes opt ge (paramText n ++ "::geometry")
        [.placeholder n, .text "::geometry"] :=
      (Writes.placeholder n).append (.text (by decide))
    dsimp only [postgis]
    split
    · exact .call (by decide) (by decide) (.cons hlit (.cons (.srid (.inr rfl)) .nil))
    · exact hlit
  placeholders_temporal _ _ := rfl
  placeholders_geomProp _ := rfl
  placeholders_geomLit n := by
    split <;> rfl

def duckdbPieces : DialectPieces (duckdb opt ge) opt ge where
  temporal n val :=
    pieceCast [.placeholder n]
      (if duckdbZoned val then "TIMESTAMPTZ".toList else "TIMESTAMP".toList)
  geomProp name := if ge ≠ [] then [.geometryExpression] else [.ident name]
  geomLit n :=
    let ps := pieceCall "ST_GeomFromText" ", "
      [pieceCast [.placeholder n] "VARCHAR"]
    if opt.transforms then
      pieceCall "ST_Transform" ", "
        [ps, [.text "'EPSG:", .srid opt.filterSRID, .text "'"],
          [.text "'EPSG:", .srid opt.sourceSRID, .text "'"],
          pieceSpaced [.text "always_xy"] ":=" [.text "true"]]
    else ps
  sep_mem := show ", ".toList ∈ fixedTexts by decide
  writes_temporal n val :=
    (Writes.placeholder n).cast (ite_mem_fixedTexts _ (by decide) (by decide))
  writes_geomProp := by
    dsimp only [duckdb]
    split
    · exact Writes.single (p := .geometryExpression) trivial
    · exact Writes.single (p := .ident opt.geometryProperty) (.inr rfl)
  writes_geomLit n := by
    have hcast : Writes opt ge (castText (paramText n) "VARCHAR")
        (pieceCast [.placeholder n] "VARCHAR") := (Writes.placeholder n).cast (by decide)
    have hlit := Writes.call (show "ST_GeomFromText".toList ∈ fixedTexts by decide)
      (show ", ".toList ∈ fixedTexts by decide) (.cons hcast .nil)
    have hxy : Writes opt ge (spaced "always_xy" ":=" "true")
        (pieceSpaced [.text "always_xy"] ":=" [.text "true"]) :=
      Writes.spaced (by decide) (.text (by decide)) (.text (by decide))
    dsimp only [duckdb]
    split
    · exact .call (by decide) (by decide) (.cons hlit (.cons (.epsg (.inl rfl))
        (.cons (.epsg (.inr rfl)) (.cons hxy .nil))))
    · exact hlit
  placeholders_temporal _ _ := rfl
  placeholders_geomProp _ := by
    split <;> rfl
  placeholders_geomLit n := by
    split <;> rfl

end Dialects

/-! ## Compiled filters -/

/-- The SQL of a compiled filter consists of allowed pieces, its placeholders are
numbered one by one from the start index, and there is one argument for each. -/
def SafeText {F : Type} (opt : Options) (ge : Str) (r : Compiled F) : Prop :=
  ∃ ps : List Piece, r.sql = render ge ps ∧ (∀ p ∈ ps, p.Allowed opt.normalize) ∧
    placeholders ps = range' opt.start r.args.length ∧
    r.nextIndex = opt.start + r.args.length

variable {opt : Options} {s rest : Str}

lemma CompiledAs.safeText {F : Type} {fl : FloatOps F} {d : Dialect} {ge : Str}
    (D : DialectPieces d opt.normalize ge) {cql : Str} {r : Compiled F}
    (h : CompiledAs fl d opt cql r) : SafeText opt ge r := by
  cases h with
  | blank => exact ⟨[], rfl, by simp, rfl, rfl⟩
  | tree hblank hacc =>
    rename_i t args next
    obtain ⟨htext, hallowed⟩ := hacc.related (related_pieces D)
    refine ⟨t.emit (pieceEmitter D), htext, hallowed, ?_, ?_⟩
    · rw [t.placeholders_pieces, hacc.nums]
      simp [hacc.args_eq]
    · simp [hacc.next_eq, hacc.args_eq]

/-- Whatever the filter, both compilers write only their fixed texts, quoted names
that are allowed or the geometry property, placeholders, and the SRIDs of the
options. -/
theorem compile_safeText {F : Type} (fl : FloatOps F) (cql : Str) (opt : DuckDBOptions) :
    (∀ r, compile fl cql opt.toOptions = .ok r → SafeText opt.toOptions [] r) ∧
    ∀ r, compileForDuckDB fl cql opt = .ok r →
      SafeText opt.toOptions opt.geometryExpression r := by
  constructor
  · intro r h
    exact (compileWith_ok h).safeText (postgisPieces _ _)
  · intro r h
    exact (compileWith_ok h).safeText (duckdbPieces _ _)

theorem compile_safeText_sample :
    (compile sampleFloats sampleFilter sampleOptions = .ok sampleCompiled ∧
      SafeText sampleOptions [] sampleCompiled) ∧
    compileForDuckDB sampleFloats sampleFilter ⟨sampleOptions, []⟩ = .ok sampleCompiled ∧
      SafeText sampleOptions [] sampleCompiled := by
  obtain ⟨hpg, hduck⟩ := compile_safeText sampleFloats sampleFilter ⟨sampleOptions, []⟩
  exact ⟨⟨compile_sampleFilter, hpg _ compile_sampleFilter⟩,
    compileForDuckDB_sampleFilter, hduck _ compileForDuckDB_sampleFilter⟩

/-! ## An SRID is written into the text -/

/-- Every digit stands in a placeholder; `inside` says whether the text before ends
in one. -/
def digitsInPlaceholders : Bool → Str → Bool
  | _, [] => true
  | inside, c :: s =>
    if c.isDigit then inside && digitsInPlaceholders true s
    else digitsInPlaceholders (c = '$') s

lemma digitsInPlaceholders_digits (hs : ∀ c ∈ s, c.isDigit)
    (hrest : ∀ inside, digitsInPlaceholders inside rest = true) :
    digitsInPlaceholders true (s ++ rest) = true := by
  induction s with
  | nil => exact hrest true
  | cons c s ih =>
    have hc : c.isDigit := hs c (by simp)
    have htail := ih fun c hc => hs c (by simp [hc])
    simpa [digitsInPlaceholders, hc] using htail

/-- The text holds no digit. -/
def noDigit (s : Str) : Bool := s.all fun c => !c.isDigit

lemma digitsInPlaceholders_noDigit (hs : noDigit s = true)
    (hrest : ∀ inside, digitsInPlaceholders inside rest = true) (inside : Bool) :
    digitsInPlaceholders inside (s ++ rest) = true := by
  induction s generalizing inside with
  | nil => exact hrest inside
  | cons c s ih =>
    obtain ⟨hc, hs⟩ := Bool.and_eq_true_iff.mp hs
    have hdigit : c.isDigit = false := by simpa using hc
    have htail := ih hs (c = '$')
    simpa [digitsInPlaceholders, hdigit] using htail

/-- The pieces without SRIDs and geometry expressions. -/
def Piece.Listed (opt : Options) (p : Piece) : Prop :=
  p.Allowed opt ∧ (∀ n, p ≠ .srid n) ∧ p ≠ .geometryExpression

lemma fixedTexts_noDigit : ∀ s ∈ fixedTexts, noDigit s = true := by
  decide

/-- Where the names hold no digit, all digits of listed pieces stand in
placeholders. -/
lemma digitsInPlaceholders_render
    (hnames : ∀ name, Piece.Allowed opt (.ident name) → noDigit (quoteIdent name) = true)
    {ps} (h : ∀ p ∈ ps, p.Listed opt) (inside : Bool) :
    digitsInPlaceholders inside (render [] ps) = true := by
  induction ps generalizing inside with
  | nil => rfl
  | cons p ps ih =>
    have hrest := ih fun q hq => h q (by simp [hq])
    obtain ⟨hallowed, hsrid, hge⟩ := h p (by simp)
    have hcons : render [] (p :: ps) = p.render [] ++ render [] ps := rfl
    rw [hcons]
    cases p with
    | text s => exact digitsInPlaceholders_noDigit (fixedTexts_noDigit s hallowed) hrest inside
    | ident name => exact digitsInPlaceholders_noDigit (hnames name hallowed) hrest inside
    | placeholder n =>
      have hdigits := digitsInPlaceholders_digits
        (fun c hc => isDigit_of_mem_natDecimal (n := n) hc) hrest
      simpa [Piece.render, paramText, digitsInPlaceholders] using hdigits
    | srid n => exact absurd rfl (hsrid n)
    | geometryExpression => exact absurd rfl hge

def transformOptions : Options := ⟨1, 0, 3857, [], []⟩

def transformFilter : Str := "INTERSECTS(geom,POINT(1 2))"

def transformCompiled : Compiled Unit :=
  ⟨"ST_Intersects(\"geom\",ST_Transform($1::geometry,3857))",
    [.str "SRID=4326;POINT(1 2)"], 2⟩

set_option maxRecDepth 20000 in
lemma tokenize_transformFilter : tokenize transformFilter =
    [⟨.spatialOp, "intersects", 0⟩, ⟨.lParen, "(", 10⟩, ⟨.ident, "geom", 11⟩,
      ⟨.comma, ",", 15⟩, ⟨.point, "POINT", 16⟩, ⟨.lParen, "(", 21⟩,
      ⟨.number, "1", 22⟩, ⟨.number, "2", 24⟩, ⟨.rParen, ")", 25⟩,
      ⟨.rParen, ")", 26⟩, ⟨.eof, [], 27⟩] := rfl

/-- A geometry literal of a source in another CRS puts the SRID of that CRS into the
text, which is none of the fixed texts, quoted names and placeholders. -/
theorem compile_writes_srid :
    compile sampleFloats transformFilter transformOptions = .ok transformCompiled ∧
    ¬∃ ps : List Piece, transformCompiled.sql = render [] ps ∧
      ∀ p ∈ ps, p.Listed transformOptions.normalize := by
  constructor
  · have hblank : isBlank transformFilter = false := rfl
    unfold compile compileWith parse
    rw [tokenize_transformFilter, hblank]
    rfl
  · rintro ⟨ps, htext, hps⟩
    have hnames : ∀ name, Piece.Allowed transformOptions.normalize (.ident name) →
        noDigit (quoteIdent name) = true := by
      intro name hname
      rcases hname with h | rfl
      · exact absurd h (by simp [transformOptions, Options.normalize])
      · decide
    have hdigits := digitsInPlaceholders_render hnames hps false
    rw [← htext] at hdigits
    exact absurd hdigits (by decide)

end NeoServer.Filter
