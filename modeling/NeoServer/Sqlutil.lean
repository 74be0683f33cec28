import NeoServer.Sql.Spelling

/-!
# Sqlutil — identifier quoting and the clause builders of the adapters
-/

namespace NeoServer

/-- `sqlutil.QuoteIdent`. -/
def quoteIdent (name : Str) : Str :=
  "\"" ++ replaceAll name "\"" "\"\"" ++ "\""

/-- A quoted identifier is a quoted identifier of SQL. -/
lemma quoteIdent_eq (name : Str) : quoteIdent name = Sql.quotedText name := by
  have hbody : replaceAll name ['"'] ['"', '"'] = Sql.doubled '"' name :=
    replaceAll_singleton name '"' ['"', '"']
  simp [quoteIdent, Sql.quotedText, hbody]

/-- The body of `datasource.WhereClause`: what follows `WHERE `. -/
def whereBody (predicates : List Str) : Str := join " AND " predicates

/-- `datasource.WhereClause`. -/
def whereClause (predicates : List Str) : Str :=
  if predicates = [] then [] else "WHERE ".toList ++ whereBody predicates

/-- The adapters append a filter's SQL to their other predicates unless it is
empty. -/
def appendFilter (predicates : List Str) (sql : Str) : List Str :=
  if sql = [] then predicates else predicates ++ [sql]

/-! ## What a `WHERE` clause denotes -/

/-- The conjunction of the trees of several predicates. -/
def conjAll : List Sql.Expr → Sql.Expr
  | [] => .const "TRUE"
  | e :: es => Sql.conj e es

lemma strip_conj (e : Sql.Expr) (es : List Sql.Expr) :
    (Sql.conj e es).strip = Sql.conj e.strip (es.map Sql.Expr.strip) := by
  induction es generalizing e with
  | nil => rfl
  | cons e' es ih => exact ih (.and e e')

lemma strip_conjAll (es : List Sql.Expr) :
    (conjAll es).strip = conjAll (es.map Sql.Expr.strip) := by
  cases es with
  | nil => rfl
  | cons e es => exact strip_conj e es

/-- A predicate that can stand as one conjunct: its text spells a tree whose
outermost operator is neither `AND` nor `OR`. -/
def SpellsConjunct (s : Str) (e : Sql.Expr) : Prop := Sql.Spells s e ∧ 2 ≤ e.prec

lemma spells_whereBody {predicates} {es}
    (h : List.Forall₂ SpellsConjunct predicates es) (hne : predicates ≠ []) :
    Sql.Spells (whereBody predicates) (conjAll es) := by
  cases h with
  | nil => exact absurd rfl hne
  | cons hp hps =>
    have hprec := hp.2
    exact hp.1.conj (by omega) hps

end NeoServer
