import NeoServer.Wfs.Fes.Compiler
import NeoServer.Wfs.Fes.Meaning
import NeoServer.Filter.Reparse

/-!
# Wfs.Fes.Leaves — single predicates in SQL

What each predicate means to a database (`leafTruth`, `idsTruth`), written with the
operations of an `Engine` on the values of columns and arguments, and the proof that
the text its compiler writes means just that, whatever placeholders its arguments
are given (`Denotes`).
-/

namespace NeoServer.Wfs.Fes

open NeoServer.Sql Compiler
open NeoServer.Filter (Arg epsg spells_epsg spells_paramCast)

/-- The geometry expression of an adapter: SQL for a primary without parameters,
such as a column or `ST_GeomFromWKB(column)`. -/
structure GeometrySql (c : Compiler) where
  tree : Expr
  spells : c.geometryExpression ≠ [] → Spells c.geometryExpression tree
  prec : 7 ≤ tree.prec
  closed : ∀ {Row Val : Type} (E : Engine Row Val) (env env' : Nat → Val) (row : Row),
    tree.eval E env row = tree.eval E env' row

namespace Compiler

variable (c : Compiler)

/-- The table part of a column reference, as SQL reads it. -/
def qualTree : Qual :=
  let tableAlias := if c.tableAlias = [] then "t".toList else c.tableAlias
  if tableAlias ≠ "t" ∧ tableAlias ≠ "v" then .quoted tableAlias
  else .word tableAlias

/-- A column reference, as SQL reads it. -/
def columnTree (g : GeometrySql c) (name : Str) : Expr :=
  if name = c.geomProp ∧ c.geometryExpression ≠ [] then g.tree else .col c.qualTree name

variable (g : GeometrySql c) (name : Str)

lemma spells_qualified :
    Spells (c.qualifier ++ '.' :: quoteIdent name) (.col c.qualTree name) := by
  unfold qualifier qualTree
  rw [quoteIdent_eq]
  generalize (if c.tableAlias = [] then "t".toList else c.tableAlias) = tableAlias
  by_cases halias : tableAlias ≠ "t".toList ∧ tableAlias ≠ "v".toList
  · rw [if_pos halias, if_pos halias, quoteIdent_eq]
    exact .colQuoted _ name
  -- the two aliases the adapters use are written without quotes
  rcases not_and_or.mp halias with h | h
  · rw [not_not.mp h]
    exact .colWord rfl name
  · rw [not_not.mp h]
    exact .colWord rfl name

lemma spells_column : Spells (c.column name) (c.columnTree g name) := by
  unfold column columnTree
  split
  · rename_i h
    exact g.spells h.2
  · exact c.spells_qualified name

lemma prec_columnTree : 7 ≤ (c.columnTree g name).prec := by
  unfold columnTree
  split
  · exact g.prec
  · exact le_refl 7

section Values

variable {F Row Val : Type} (rt : Runtime F) (g : GeometrySql c) (E : Engine Row Val)
  (bind : Arg F → Val) (row : Row)

/-- The value of a column. -/
def columnValue (name : Str) : Val := (c.columnTree g name).eval E (fun _ => E.const []) row

lemma eval_columnTree (name : Str) (env : Nat → Val) :
    (c.columnTree g name).eval E env row = c.columnValue g E row name := by
  unfold columnValue columnTree
  split
  · exact g.closed E env _ row
  · rfl

/-- The id of a row, as text. -/
def idValue : Val := E.cast "text" (c.columnValue g E row c.idColumn)

/-- A time, from the text of an argument. -/
def timeValue (value : Str) : Val := E.cast "timestamptz" (bind (.str value))

/-- A geometry in the SRID of the table. -/
def transformValue (v : Val) (srid : Int) : Val :=
  if srid = c.sourceSRID then v
  else
    match c.dialect with
    | .duckdb =>
      E.call "ST_Transform"
        [(none, v), (none, E.str ("EPSG:" ++ decimal srid)),
          (none, E.str ("EPSG:" ++ decimal c.sourceSRID)),
          (some "always_xy", E.const "true")]
    | .postgis => E.call "ST_Transform" [(none, v), (none, E.int c.sourceSRID)]

/-- A geometry given by its well-known text. -/
def geometryValue (wkt : Str) (srid : Int) : Val :=
  let v :=
    match c.dialect with
    | .postgis =>
      E.call "ST_GeomFromText" [(none, bind (.str wkt)), (none, E.int srid)]
    | .duckdb =>
      E.call "ST_GeomFromText" [(none, E.cast "VARCHAR" (bind (.str wkt)))]
  c.transformValue E v srid

/-- An envelope given by its corners. -/
def envelopeValue (corners : List F) (srid : Int) : Val :=
  let corners := corners.map fun x => ((none : Option Str), bind (.num x))
  let v :=
    match c.dialect with
    | .postgis => E.call "ST_MakeEnvelope" (corners ++ [(none, E.int srid)])
    | .duckdb => E.call "ST_MakeEnvelope" corners
  c.transformValue E v srid

/-- A predicate on a property; `unmapped` is what is asked of a standard property
without a column. -/
def propertyTruth (ref unmapped : Str) (t : Str → Truth) : Truth :=
  if c.validateProperty ref = gmlPropertyNotMapped then E.truth (E.const unmapped)
  else t (c.validateProperty ref)

/-- A property compared with one time. -/
def timeTruth (t : FESTemporal) (op : CmpOp) (value : Str) : Truth :=
  E.cmp op (c.columnValue g E row (c.validateProperty t.valueReference))
    (timeValue E bind value)

/-- A property between the ends of a period. -/
def rangeTruth (t : FESTemporal) (lower upper : CmpOp) (period : GMLTimePeriod) : Truth :=
  Truth.and (c.timeTruth g E bind row t lower period.beginPosition)
    (c.timeTruth g E bind row t upper period.endPosition)

/-- What a temporal predicate asks of a property. -/
def temporalTruth (op : TemporalOp) (t : FESTemporal) : Truth :=
  let at_ := c.timeTruth g E bind row t
  let within := c.rangeTruth g E bind row t
  match op, t.timeInstant, t.timePeriod with
  | .after, _, _ => at_ .gt (getTimeValue t .end)
  | .before, _, _ => at_ .lt (getTimeValue t .start)
  | .tEquals, _, _ => at_ .eq (getTimeValue t .start)
  | .begins, _, some p | .begunBy, _, some p | .meets, _, some p => at_ .eq p.beginPosition
  | .metBy, _, some p | .ends, _, some p | .endedBy, _, some p => at_ .eq p.endPosition
  | .during, _, some p => within .gt .lt p
  | .tOverlaps, _, some p | .overlappedBy, _, some p => within .ge .le p
  | .tContains, some i, _ | .anyInteracts, some i, _ => at_ .eq i
  | .tContains, none, some p | .anyInteracts, none, some p => within .ge .le p
  | _, _, _ => none

def comparisonTruth (op : CmpOp) (comp : FESComparison) : Truth :=
  if isGmlId rt comp.valueReference then
    match c.gmlIdLiteral rt comp.literal with
    | .ok id => E.cmp op (c.idValue g E row) (bind (.str id))
    | .error _ => none
  else
    c.propertyTruth E comp.valueReference "FALSE" fun prop =>
      E.cmp op (c.columnValue g E row prop) (bind (.str comp.literal))

def likeTruth (like : FESPropertyIsLike) : Truth :=
  c.propertyTruth E like.valueReference "FALSE" fun prop =>
    E.like (like.matchCase = "false") (c.columnValue g E row prop)
      (bind (.str (likePattern like)))

def nullTruth (ref : Str) : Truth :=
  c.propertyTruth E ref "TRUE" fun prop =>
    some (E.isNull (c.columnValue g E row
      (if prop = gmlGeometryProperty then c.geomProp else prop)))

def betweenTruth (between : FESPropertyIsBetween) : Truth :=
  c.propertyTruth E between.valueReference "FALSE" fun prop =>
    Truth.and
      (E.cmp .ge (c.columnValue g E row prop) (bind (.str between.lowerBoundary)))
      (E.cmp .le (c.columnValue g E row prop) (bind (.str between.upperBoundary)))

def bboxTruth (bbox : FESBBOX) : Truth :=
  match c.bboxOperands rt bbox with
  | .ok (corners, srid, geomCol) =>
    E.truth (E.call "ST_Intersects"
      [(none, c.columnValue g E row geomCol), (none, c.envelopeValue E bind corners srid)])
  | .error _ => none

def spatialTruth (op : SpatialOp) (spatial : FESSpatial) : Truth :=
  match c.geometryColumn spatial.valueReference, c.buildGeometry rt spatial with
  | .ok geomCol, .ok (wkt, srid) =>
    E.truth (E.call ("ST_" ++ op.name)
      [(none, c.columnValue g E row geomCol), (none, c.geometryValue E bind wkt srid)])
  | _, _ => none

def dwithinTruth (dwithin : FESDWithin) : Truth :=
  match c.geometryColumn dwithin.valueReference,
      c.buildGeometry rt ⟨[], dwithin.point, none, none, none⟩ with
  | .ok geomCol, .ok (wkt, srid) =>
    E.truth (E.call "ST_DWithin"
      [(none, c.columnValue g E row geomCol), (none, c.geometryValue E bind wkt srid),
        (none, bind (.str dwithin.distance))])
  | _, _ => none

/-- What a predicate asks of a row. -/
def leafTruth : Leaf → Truth
  | .comparison op comp => c.comparisonTruth rt g E bind row op comp
  | .like like => c.likeTruth g E bind row like
  | .isNull ref => c.nullTruth g E row ref
  | .isNil ref => c.nullTruth g E row ref
  | .between between => c.betweenTruth g E bind row between
  | .bbox bbox => c.bboxTruth rt g E bind row bbox
  | .spatial op spatial => c.spatialTruth rt g E bind row op spatial
  | .dwithin dwithin => c.dwithinTruth rt g E bind row dwithin
  | .temporal op t => c.temporalTruth g E bind row op t

/-- The row is one of those named. -/
def idsTruth (rids : List Str) : Truth :=
  match rids.mapM (c.resourceFeatureID rt) with
  | .ok ids => Truth.any (ids.map fun id => E.cmp .eq (c.idValue g E row) (bind (.str id)))
  | .error _ => none

end Values

end Compiler

/-! ## Operands -/

section Denotes

variable {F Row Val : Type} (E : Engine Row Val) (bind : Arg F → Val) (row : Row)

/-- Wherever the arguments are bound, the text is a primary with value `v`. -/
def Operand (args : List (Arg F)) (s : Nat → Str) (v : Val) : Prop :=
  ∀ n, ∃ e, Spells (s n) e ∧ 6 ≤ e.prec ∧
    ∀ env, Binds bind n args env → e.eval E env row = v

/-- The same for an argument of a function. -/
def ArgOperand (args : List (Arg F)) (s : Nat → Str) (a : Option Str × Val) : Prop :=
  ∀ n, ∃ e, SpellsArg (s n) (a.1, e) ∧ ∀ env, Binds bind n args env → e.eval E env row = a.2

/-- Wherever the arguments are bound, the predicate is true as `t` says. Its text can
stand as an operand of any connective. -/
def Fragment.Denotes (f : Fragment F) (t : Truth) : Prop :=
  ∀ n, ∃ e, Spells (f.sql n) e ∧ 2 ≤ e.prec ∧
    ∀ env, Binds bind n f.args env → e.truth E env row = t

variable {E bind row}

lemma operand_column {c} (g : GeometrySql c) (args : List (Arg F)) (name : Str) :
    Operand E bind row args (fun _ => c.column name) (c.columnValue g E row name) := by
  intro n
  refine ⟨c.columnTree g name, c.spells_column g name, ?_, ?_⟩
  · exact le_trans (by decide) (c.prec_columnTree g name)
  · intro env _
    exact c.eval_columnTree g E row name env

variable {args : List (Arg F)} {a s : Nat → Str} {v : Val} {b : Nat → Str} {t : FESTemporal}
  {ref name : Str}

/-- The `i`-th argument. -/
lemma operand_param {i : Nat} {a : Arg F} (h : args[i]? = some a) :
    Operand E bind row args (fun n => paramText (n + i)) (bind a) := by
  intro n
  refine ⟨.param (n + i), .param _, by simp [Expr.prec], ?_⟩
  intro env henv
  exact henv i a h

lemma Operand.cast (h : Operand E bind row args s v) (ty : Str) (hty : lex ty = some [.word ty]) :
    Operand E bind row args (fun n => s n ++ ':' :: ':' :: ty) (E.cast ty v) := by
  intro n
  obtain ⟨e, hs, hp, hv⟩ := h n
  refine ⟨.cast e ty, hs.cast hp hty, le_refl 6, ?_⟩
  intro env henv
  rw [Expr.eval, hv env henv]

lemma operand_int (args : List (Arg F)) (k : Int) :
    Operand E bind row args (fun _ => decimal k) (E.int k) := by
  intro n
  exact ⟨.int k, .int k, by simp [Expr.prec], fun env _ => rfl⟩

lemma operand_epsg (args : List (Arg F)) (srid : Int) :
    Operand E bind row args (fun _ => epsg srid) (E.str ("EPSG:" ++ decimal srid)) := by
  intro n
  exact ⟨_, spells_epsg srid, by simp [Expr.prec], fun env _ => rfl⟩

lemma Operand.arg (h : Operand E bind row args s v) : ArgOperand E bind row args s (none, v) := by
  intro n
  obtain ⟨e, hs, -, hv⟩ := h n
  exact ⟨e, hs.arg, hv⟩

/-- Arguments of a function, one by one. -/
lemma argOperands {items : List (Nat → Str)} {vals}
    (h : List.Forall₂ (ArgOperand E bind row args) items vals) (n : Nat) :
    ∃ es : List (Option Str × Expr), List.Forall₂ SpellsArg (items.map (· n)) es ∧
      ∀ env, Binds bind n args env → es.map (fun a => (a.1, a.2.eval E env row)) = vals := by
  induction h with
  | nil => exact ⟨[], .nil, fun _ _ => rfl⟩
  | @cons s a items vals ha _ ih =>
    obtain ⟨es, hes, hvals⟩ := ih
    obtain ⟨e, he, hv⟩ := ha n
    refine ⟨(a.1, e) :: es, .cons he hes, ?_⟩
    intro env henv
    rw [List.map_cons, hvals env henv, hv env henv]

lemma operand_call (items : List (Nat → Str)) {f : Str} (hf : lex f = some [.word f]) {vals}
    (h : List.Forall₂ (ArgOperand E bind row args) items vals) (hne : items ≠ []) :
    Operand E bind row args (fun n => callText f ", " (items.map (· n)))
      (E.call f vals) := by
  intro n
  obtain ⟨es, hes, hvals⟩ := argOperands h n
  refine ⟨.call f (Args.ofList es), ?_, by simp [Expr.prec], ?_⟩
  · exact .call hf (.inr rfl) hes (by simpa using hne)
  · intro env henv
    rw [Expr.eval, eval_ofList, hvals env henv]

/-! ## Predicates from operands -/

lemma denotes_const {w : Str} (hw : lex w = some [.word w]) :
    (Fragment.const w).Denotes E bind row (E.truth (E.const w)) := by
  intro n
  exact ⟨.const w, .const hw, by simp [Expr.prec], fun env _ => rfl⟩

lemma denotes_cmp {v w : Val} (op : CmpOp)
    (ha : Operand E bind row args a v) (hb : Operand E bind row args b w) :
    (Fragment.mk args fun n => spaced (a n) op.text (b n)).Denotes E bind row (E.cmp op v w) := by
  intro n
  obtain ⟨ea, hsa, hpa, hva⟩ := ha n
  obtain ⟨eb, hsb, hpb, hvb⟩ := hb n
  refine ⟨.cmp op ea eb, hsa.cmp op hsb (by omega) (by omega), by simp [Expr.prec], ?_⟩
  intro env henv
  rw [truth_cmp, hva env henv, hvb env henv]

/-- Texts may be associated in any way. -/
lemma denotes_append {a b d : Nat → Str} {t : Truth}
    (h : (Fragment.mk args fun n => a n ++ (b n ++ d n)).Denotes E bind row t) :
    (Fragment.mk args fun n => a n ++ b n ++ d n).Denotes E bind row t := by
  have htext : (fun n => a n ++ b n ++ d n) = fun n => a n ++ (b n ++ d n) :=
    funext fun n => List.append_assoc _ _ _
  rw [htext]
  exact h

lemma denotes_like {v w : Val} (ci : Bool)
    (ha : Operand E bind row args a v) (hb : Operand E bind row args b w) :
    (Fragment.mk args fun n => a n ++ ' ' :: ((likeKw ci).text ++ ' ' :: b n)).Denotes E bind row
      (E.like ci v w) := by
  intro n
  obtain ⟨ea, hsa, hpa, hva⟩ := ha n
  obtain ⟨eb, hsb, hpb, hvb⟩ := hb n
  refine ⟨.like false ci ea eb, hsa.like false ci hsb (by omega) (by omega), by simp [Expr.prec], ?_⟩
  intro env henv
  simp [Expr.truth, Expr.eval, E.truth_ofTruth, Truth.negIf, hva env henv, hvb env henv]

lemma denotes_isNull (ha : Operand E bind row args a v) :
    (Fragment.mk args fun n => a n ++ " IS NULL").Denotes E bind row
      (some (E.isNull v)) := by
  intro n
  obtain ⟨ea, hsa, hpa, hva⟩ := ha n
  refine ⟨.isNull false ea, hsa.isNull false (by omega), by simp [Expr.prec], ?_⟩
  intro env henv
  simp [Expr.truth, Expr.eval, E.truth_ofTruth, Truth.negIf, hva env henv]

lemma denotes_between {a b d : Nat → Str} {v lo hi : Val}
    (ha : Operand E bind row args a v) (hb : Operand E bind row args b lo)
    (hd : Operand E bind row args d hi) :
    (Fragment.mk args fun n =>
        a n ++ " BETWEEN " ++ spaced (b n) "AND" (d n)).Denotes E bind row
      (Truth.and (E.cmp .ge v lo) (E.cmp .le v hi)) := by
  intro n
  obtain ⟨ea, hsa, hpa, hva⟩ := ha n
  obtain ⟨eb, hsb, hpb, hvb⟩ := hb n
  obtain ⟨ed, hsd, hpd, hvd⟩ := hd n
  have hspell := hsa.between false hsb hsd (by omega) (by omega) (by omega)
  refine ⟨.between false ea eb ed, ?_, by simp [Expr.prec], ?_⟩
  · dsimp only
    rw [List.append_assoc]
    exact hspell
  · intro env henv
    simp [Expr.truth, Expr.eval, E.truth_ofTruth, Truth.negIf, hva env henv, hvb env henv,
      hvd env henv]

/-- A function call as a predicate. -/
lemma Operand.denotes
    (h : Operand E bind row args s v) : (Fragment.mk args s).Denotes E bind row (E.truth v) := by
  intro n
  obtain ⟨e, hs, hp, hv⟩ := h n
  refine ⟨e, hs, by omega, ?_⟩
  intro env henv
  rw [Expr.truth, hv env henv]

/-- Two predicates over the same arguments, in parentheses. -/
lemma denotes_both {s u : Nat → Str} {t t' : Truth}
    (hs : (Fragment.mk args s).Denotes E bind row t)
    (hu : (Fragment.mk args u).Denotes E bind row t') :
    (Fragment.mk args fun n => parens (spaced (s n) "AND" (u n))).Denotes E bind row
      (Truth.and t t') := by
  intro n
  obtain ⟨e, hse, hpe, hte⟩ := hs n
  obtain ⟨e', hse', hpe', hte'⟩ := hu n
  refine ⟨.paren (.and e e'), (hse.and hse' (by omega) hpe').parens, by simp [Expr.prec], ?_⟩
  intro env henv
  rw [truth_paren, truth_and, hte env henv, hte' env henv]

/-! ## Every predicate denotes its meaning -/

variable {rt : Runtime F} {c : Compiler} {f : Fragment F} (g : GeometrySql c)

lemma except_bind_ok {ε α β : Type} {x} {k : α → Except ε β} {b : β} :
    (x >>= k) = .ok b ↔ ∃ a, x = .ok a ∧ k a = .ok b := bind_ok_iff

lemma operand_id (args : List (Arg F)) :
    Operand E bind row args (fun _ => c.idText) (c.idValue g E row) :=
  (operand_column g args c.idColumn).cast "text" rfl

/-- Predicates on a property. -/
lemma onProperty_denotes {ref position : Str} {predicate : Str → Fragment F}
    {t : Str → Truth} (hpred : ∀ prop, (predicate prop).Denotes E bind row (t prop))
    (h : c.onProperty ref position predicate = .ok f) :
    f.Denotes E bind row (c.propertyTruth E ref "FALSE" t) := by
  unfold onProperty at h
  unfold propertyTruth
  dsimp only at h
  split at h
  case isTrue => cases h
  split at h
  case isTrue hunmapped =>
    rw [if_pos hunmapped]
    cases h
    exact denotes_const rfl
  case isFalse hmapped =>
    rw [if_neg hmapped]
    split at h
    case isTrue => cases h
    cases h
    exact hpred _

variable {op : CmpOp} {bbox : FESBBOX} {mode : Compiler.TimeMode}

lemma compileComparison_denotes {comp} (h : c.compileComparison rt comp op = .ok f) :
    f.Denotes E bind row (c.comparisonTruth rt g E bind row op comp) := by
  unfold compileComparison at h
  unfold comparisonTruth
  split at h
  case isTrue hid =>
    rw [if_pos hid]
    cases hlit : c.gmlIdLiteral rt comp.literal with
    | error =>
      rw [hlit] at h
      cases h
    | ok =>
      rw [hlit] at h
      cases h
      exact denotes_cmp op (operand_id g _) (operand_param (i := 0) rfl)
  case isFalse hid =>
    rw [if_neg hid]
    refine onProperty_denotes (fun prop => ?_) h
    exact denotes_cmp op (operand_column g _ prop) (operand_param (i := 0) rfl)

lemma compileLike_denotes {like} (h : c.compileLike like = .ok f) :
    f.Denotes E bind row (c.likeTruth g E bind row like) := by
  refine onProperty_denotes (fun prop => ?_) h
  by_cases hcase : like.matchCase = "false"
  · rw [if_pos hcase, decide_eq_true hcase]
    exact denotes_append (denotes_like true (operand_column g _ prop) (operand_param (i := 0) rfl))
  · rw [if_neg hcase, decide_eq_false hcase]
    exact denotes_append (denotes_like false (operand_column g _ prop) (operand_param (i := 0) rfl))

lemma compileNullCheck_denotes (h : c.compileNullCheck ref = .ok f) :
    f.Denotes E bind row (c.nullTruth g E row ref) := by
  unfold compileNullCheck at h
  unfold nullTruth propertyTruth
  dsimp only at h
  split at h
  case isTrue => cases h
  split at h
  case isTrue hunmapped =>
    rw [if_pos hunmapped]
    cases h
    exact denotes_const rfl
  case isFalse hmapped =>
    rw [if_neg hmapped]
    dsimp only
    split at h
    case isTrue hgeom =>
      rw [if_pos hgeom]
      cases h
      exact denotes_isNull (operand_column g [] c.geomProp)
    case isFalse hplain =>
      rw [if_neg hplain]
      cases h
      exact denotes_isNull (operand_column g [] _)

lemma compileBetween_denotes {between} (h : c.compileBetween between = .ok f) :
    f.Denotes E bind row (c.betweenTruth g E bind row between) := by
  refine onProperty_denotes (fun prop => ?_) h
  exact denotes_between (operand_column g _ prop) (operand_param (i := 0) rfl)
    (operand_param (i := 1) rfl)

/-! ### Spatial predicates -/

lemma operand_transform (h : Operand E bind row args s v) (srid : Int) :
    Operand E bind row args (fun n => c.transformGeometry (s n) srid)
      (c.transformValue E v srid) := by
  unfold transformGeometry transformValue
  by_cases hsrid : srid = c.sourceSRID
  · simp only [if_pos hsrid]
    exact h
  simp only [if_neg hsrid]
  cases c.dialect with
  | postgis =>
    exact operand_call [s, fun _ => decimal c.sourceSRID] rfl
      (.cons h.arg (.cons (operand_int _ _).arg .nil)) (by simp)
  | duckdb =>
    have hnamed : ArgOperand E bind row args
        (fun _ => spaced "always_xy" ":=" "true")
        (some "always_xy", E.const "true") := by
      intro n
      exact ⟨.const "true", Spells.namedArg rfl (.const rfl), fun env _ => rfl⟩
    exact operand_call
      [s, fun _ => epsg srid, fun _ => epsg c.sourceSRID,
        fun _ => spaced "always_xy" ":=" "true"] rfl
      (.cons h.arg (.cons (operand_epsg _ _).arg (.cons (operand_epsg _ _).arg
        (.cons hnamed .nil)))) (by simp)

lemma operand_geometryLiteral {wkt : Str} (h : args[0]? = some (.str wkt)) (srid : Int) :
    Operand E bind row args (fun n => c.geometryLiteral n srid)
      (c.geometryValue E bind wkt srid) := by
  refine operand_transform ?_ srid
  cases c.dialect with
  | postgis =>
    exact operand_call [paramText, fun _ => decimal srid] rfl
      (.cons (operand_param h).arg (.cons (operand_int _ _).arg .nil)) (by simp)
  | duckdb =>
    exact operand_call [fun n => paramText n ++ "::VARCHAR"] rfl
      (.cons ((operand_param h).cast "VARCHAR" rfl).arg .nil) (by simp)

/-- The corners of a bounding box are four. -/
lemma length_corners {corners : List F} {srid : Int} {geomCol : Str}
    (h : c.bboxOperands rt bbox = .ok (corners, srid, geomCol)) :
    ∃ x₀ y₀ x₁ y₁, corners = [x₀, y₀, x₁, y₁] := by
  unfold bboxOperands at h
  split at h
  case h_2 => cases h
  case h_1 l₀ l₁ lrest u₀ u₁ urest _ _ =>
    obtain ⟨⟨srid', swap⟩, -, h⟩ := except_bind_ok.mp h
    obtain ⟨col, -, h⟩ := except_bind_ok.mp h
    obtain ⟨x₀, -, h⟩ := except_bind_ok.mp h
    obtain ⟨y₀, -, h⟩ := except_bind_ok.mp h
    obtain ⟨x₁, -, h⟩ := except_bind_ok.mp h
    obtain ⟨y₁, -, h⟩ := except_bind_ok.mp h
    split at h
    case isTrue => cases h
    split at h
    case isTrue =>
      cases h
      exact ⟨y₀, x₀, y₁, x₁, rfl⟩
    case isFalse =>
      cases h
      exact ⟨x₀, y₀, x₁, y₁, rfl⟩

lemma operand_envelope (x₀ y₀ x₁ y₁ : F) (srid : Int) :
    Operand E bind row ([x₀, y₀, x₁, y₁].map .num)
      (fun n => c.transformGeometry (c.makeEnvelope srid n) srid)
      (c.envelopeValue E bind [x₀, y₀, x₁, y₁] srid) := by
  refine operand_transform ?_ srid
  unfold makeEnvelope
  have hcorners : ∀ (i : Nat) (a : Arg F), ([x₀, y₀, x₁, y₁].map Arg.num)[i]? = some a →
      ArgOperand E bind row ([x₀, y₀, x₁, y₁].map .num) (fun n => paramText (n + i))
        (none, bind a) :=
    fun i a h => (operand_param h).arg
  cases c.dialect with
  | postgis =>
    exact operand_call
      [paramText, fun n => paramText (n + 1), fun n => paramText (n + 2),
        fun n => paramText (n + 3), fun _ => decimal srid] rfl
      (.cons (hcorners 0 _ rfl) (.cons (hcorners 1 _ rfl) (.cons (hcorners 2 _ rfl)
        (.cons (hcorners 3 _ rfl) (.cons (operand_int _ _).arg .nil))))) (by simp)
  | duckdb =>
    exact operand_call
      [paramText, fun n => paramText (n + 1), fun n => paramText (n + 2),
        fun n => paramText (n + 3)] rfl
      (.cons (hcorners 0 _ rfl) (.cons (hcorners 1 _ rfl) (.cons (hcorners 2 _ rfl)
        (.cons (hcorners 3 _ rfl) .nil)))) (by simp)

lemma compileBBOX_denotes (h : c.compileBBOX rt bbox = .ok f) :
    f.Denotes E bind row (c.bboxTruth rt g E bind row bbox) := by
  obtain ⟨⟨corners, srid, geomCol⟩, hops, h⟩ := except_bind_ok.mp h
  cases h
  obtain ⟨x₀, y₀, x₁, y₁, rfl⟩ := length_corners hops
  unfold bboxTruth
  rw [hops]
  exact (operand_call [fun _ => c.column geomCol, _] rfl
    (.cons (operand_column g _ _).arg (.cons (operand_envelope x₀ y₀ x₁ y₁ srid).arg .nil))
    (by simp)).denotes

lemma lex_spatialFunction (op : SpatialOp) :
    lex ("ST_" ++ op.name) = some [.word ("ST_" ++ op.name)] := by
  cases op <;> rfl

lemma compileSpatial_denotes {spatial} {op}
    (h : c.compileSpatial rt spatial ("ST_" ++ op.name) = .ok f) :
    f.Denotes E bind row (c.spatialTruth rt g E bind row op spatial) := by
  obtain ⟨geomCol, hcol, h⟩ := except_bind_ok.mp h
  obtain ⟨⟨wkt, srid⟩, hgeom, h⟩ := except_bind_ok.mp h
  cases h
  unfold spatialTruth
  rw [hcol, hgeom]
  exact (operand_call [fun _ => c.column geomCol, fun n => c.geometryLiteral n srid]
    (lex_spatialFunction op)
    (.cons (operand_column g _ _).arg (.cons (operand_geometryLiteral rfl srid).arg .nil))
    (by simp)).denotes

lemma compileDWithin_denotes {dwithin} (h : c.compileDWithin rt dwithin = .ok f) :
    f.Denotes E bind row (c.dwithinTruth rt g E bind row dwithin) := by
  obtain ⟨geomCol, hcol, h⟩ := except_bind_ok.mp h
  unfold dwithinTruth
  cases hpoint : dwithin.point with
  | none =>
    rw [hpoint] at h
    cases h
  | some =>
    rw [hpoint] at h
    obtain ⟨⟨wkt, srid⟩, hgeom, h⟩ := except_bind_ok.mp h
    cases h
    rw [hcol, hgeom]
    exact (operand_call
      [fun _ => c.column geomCol, fun n => c.geometryLiteral n srid, fun n => paramText (n + 1)]
      rfl
      (.cons (operand_column g _ _).arg (.cons (operand_geometryLiteral rfl srid).arg
        (.cons (operand_param rfl).arg .nil))) (by simp)).denotes

/-! ### Temporal predicates -/

lemma validateTemporalProperty_ok {ref prop : Str}
    (h : c.validateTemporalProperty ref = .ok prop) : prop = c.validateProperty ref := by
  unfold validateTemporalProperty at h
  dsimp only at h
  split at h
  case isTrue => cases h
  split at h
  case isTrue => cases h
  split at h
  case isTrue => cases h
  cases h
  rfl

/-- The `i`-th argument, as a time. -/
lemma operand_time {i : Nat} {value : Str} (h : args[i]? = some (.str value)) :
    Operand E bind row args (fun n => timestamp (n + i))
      (timeValue E bind value) :=
  (operand_param h).cast "timestamptz" rfl

lemma timeComparison_denotes (t : FESTemporal) (op : CmpOp) (value : Str) :
    (c.timeComparison (F := F) (c.validateProperty t.valueReference) op value).Denotes E bind row
      (c.timeTruth g E bind row t op value) :=
  denotes_cmp op (operand_column g _ _) (operand_time (i := 0) rfl)

lemma timeRange_denotes (t : FESTemporal) (lower upper : CmpOp) (period : GMLTimePeriod) :
    (c.timeRange (F := F) (c.validateProperty t.valueReference) lower upper period).Denotes
      E bind row (c.rangeTruth g E bind row t lower upper period) :=
  denotes_both
    (denotes_cmp lower (operand_column g _ _) (operand_time (i := 0) rfl))
    (denotes_cmp upper (operand_column g _ _) (operand_time (i := 1) rfl))

lemma compileTimeValue_denotes (h : c.compileTimeValue name op mode t = .ok f) :
    f.Denotes E bind row (c.timeTruth g E bind row t op (getTimeValue t mode)) := by
  obtain ⟨prop, hprop, h⟩ := except_bind_ok.mp h
  obtain rfl := validateTemporalProperty_ok hprop
  dsimp only at h
  split at h
  case isTrue => cases h
  cases h
  exact timeComparison_denotes g t op _

lemma compilePeriodEnd_denotes (h : c.compilePeriodEnd name mode t = .ok f) :
    ∃ p, t.timePeriod = some p ∧
      f.Denotes E bind row (c.timeTruth g E bind row t .eq (mode.of p)) := by
  obtain ⟨prop, hprop, h⟩ := except_bind_ok.mp h
  obtain rfl := validateTemporalProperty_ok hprop
  cases hp : t.timePeriod with
  | none =>
    rw [hp] at h
    cases h
  | some p =>
    rw [hp] at h
    cases h
    exact ⟨p, rfl, timeComparison_denotes g t .eq _⟩

lemma compilePeriodRange_denotes {lower upper : CmpOp}
    (h : c.compilePeriodRange name lower upper t = .ok f) :
    ∃ p, t.timePeriod = some p ∧
      f.Denotes E bind row (c.rangeTruth g E bind row t lower upper p) := by
  obtain ⟨prop, hprop, h⟩ := except_bind_ok.mp h
  obtain rfl := validateTemporalProperty_ok hprop
  cases hp : t.timePeriod with
  | none =>
    rw [hp] at h
    cases h
  | some p =>
    rw [hp] at h
    cases h
    exact ⟨p, rfl, timeRange_denotes g t lower upper p⟩

lemma compileInstantOrPeriod_denotes (h : c.compileInstantOrPeriod name t = .ok f) :
    (∃ i, t.timeInstant = some i ∧ f.Denotes E bind row (c.timeTruth g E bind row t .eq i)) ∨
      (t.timeInstant = none ∧ ∃ p, t.timePeriod = some p ∧
        f.Denotes E bind row (c.rangeTruth g E bind row t .ge .le p)) := by
  obtain ⟨prop, hprop, h⟩ := except_bind_ok.mp h
  obtain rfl := validateTemporalProperty_ok hprop
  cases hi : t.timeInstant with
  | some i =>
    rw [hi] at h
    cases h
    exact .inl ⟨i, rfl, timeComparison_denotes g t .eq _⟩
  | none =>
    cases hp : t.timePeriod with
    | none =>
      rw [hi, hp] at h
      cases h
    | some p =>
      rw [hi, hp] at h
      cases h
      exact .inr ⟨rfl, p, rfl, timeRange_denotes g t .ge .le p⟩

lemma compileTemporal_denotes {op} (h : c.compileTemporal op t = .ok f) :
    f.Denotes E bind row (c.temporalTruth g E bind row op t) := by
  cases op
  case after => exact compileTimeValue_denotes g h
  case before => exact compileTimeValue_denotes g h
  case tEquals => exact compileTimeValue_denotes g h
  case begins | begunBy | meets | metBy | ends | endedBy =>
    obtain ⟨p, hp, hd⟩ := compilePeriodEnd_denotes (E := E) g h
    unfold temporalTruth
    rw [hp]
    exact hd
  case during | tOverlaps | overlappedBy =>
    obtain ⟨p, hp, hd⟩ := compilePeriodRange_denotes (E := E) g h
    unfold temporalTruth
    rw [hp]
    exact hd
  case tContains | anyInteracts =>
    unfold temporalTruth
    rcases compileInstantOrPeriod_denotes (E := E) g h with ⟨i, hi, hd⟩ | ⟨hi, p, hp, hd⟩
    · rw [hi]
      exact hd
    · rw [hi, hp]
      exact hd

/-- The text of any predicate means what the predicate asks of a row. -/
lemma compileLeaf_denotes {l : Leaf} (h : c.compileLeaf rt l = .ok f) :
    f.Denotes E bind row (c.leafTruth rt g E bind row l) := by
  cases l with
  | comparison => exact compileComparison_denotes g h
  | like => exact compileLike_denotes g h
  | isNull | isNil => exact compileNullCheck_denotes g h
  | between => exact compileBetween_denotes g h
  | bbox => exact compileBBOX_denotes g h
  | spatial => exact compileSpatial_denotes g h
  | dwithin => exact compileDWithin_denotes g h
  | temporal => exact compileTemporal_denotes g h

/-! ### Resource ids -/

/-- One placeholder for each id. -/
lemma placeholders_spell (E : Engine Row Val) (bind : Arg F → Val) (row : Row) (n : Nat)
    (ids : List Str) :
    ∃ es : List (Option Str × Expr), List.Forall₂ SpellsArg (placeholders n ids) es ∧
      ∀ env, Binds bind n (ids.map .str) env →
        es.map (fun a => a.2.eval E env row) = ids.map fun id => bind (.str id) := by
  induction ids generalizing n with
  | nil => exact ⟨[], .nil, fun _ _ => rfl⟩
  | cons id ids ih =>
    obtain ⟨es, hes, hvals⟩ := ih (n + 1)
    refine ⟨(none, .param n) :: es, .cons (Spells.param n).arg hes, ?_⟩
    intro env henv
    rw [List.map_cons, binds_cons] at henv
    rw [List.map_cons, List.map_cons, hvals env henv.2]
    exact congrArg (· :: _) henv.1

lemma denotes_idIn (id : Str) (ids : List Str) :
    (Fragment.mk ((id :: ids).map Arg.str) fun n =>
        c.idText ++ " IN " ++
          listText ", " (placeholders n (id :: ids))).Denotes E bind row
      (Truth.any ((id :: ids).map fun i => E.cmp .eq (c.idValue g E row) (bind (.str i)))) := by
  intro n
  have hid : Operand E bind row ((id :: ids).map .str) (fun _ => c.idText) (c.idValue g E row) :=
    operand_id g _
  obtain ⟨e, hs, hp, hv⟩ := hid n
  obtain ⟨es, hes, hvals⟩ := placeholders_spell E bind row n (id :: ids)
  have hspell := hs.inList false (by omega) (.inr rfl) hes (by simp [placeholders])
  refine ⟨.inList false e (Args.ofList es), ?_, by simp [Expr.prec], ?_⟩
  · dsimp only
    rw [List.append_assoc]
    exact hspell
  · intro env henv
    have hcmp : (es.map fun a => E.cmp .eq (c.idValue g E row) (a.2.eval E env row)) =
        (id :: ids).map fun i => E.cmp .eq (c.idValue g E row) (bind (.str i)) := by
      have h := congrArg (List.map (E.cmp .eq (c.idValue g E row))) (hvals env henv)
      rw [List.map_map, List.map_map] at h
      exact h
    rw [← hcmp]
    simp [Expr.truth, Expr.eval, E.truth_ofTruth, Truth.negIf, hv env henv, Function.comp_def]

/-- The resource ids of a container select the rows that have one of them. -/
lemma compileResourceIds_denotes {rids} (hne : rids ≠ [])
    (h : c.compileResourceIds rt rids = .ok f) :
    f.Denotes E bind row (c.idsTruth rt g E bind row rids) := by
  unfold compileResourceIds at h
  rw [if_neg hne] at h
  unfold idsTruth
  cases hids : rids.mapM (c.resourceFeatureID rt) with
  | error =>
    rw [hids] at h
    cases h
  | ok =>
    rw [hids] at h
    cases h
    obtain ⟨rid, rids, rfl⟩ := List.exists_cons_of_ne_nil hne
    rw [List.mapM_cons] at hids
    obtain ⟨id, -, hids⟩ := except_bind_ok.mp hids
    obtain ⟨ids', -, hids⟩ := except_bind_ok.mp hids
    cases hids
    exact denotes_idIn g id ids'

end Denotes

end NeoServer.Wfs.Fes
