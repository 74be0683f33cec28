import NeoServer.Sql.Nesting

/-!
# Duckdbsqlview — SQL views as derived tables

A SQL view is a text that its author writes. It is checked by a few patterns and then put in
parentheses, on lines of its own, into each statement that reads it.

- `checkText` : the checks of `ValidateSQLView` that come before the database is asked,
- `subquery` : the view as a derived table,
- `subquery_encloses_iff` : when the parenthesis of `subquery` is the one that closes it.
-/

namespace NeoServer.Duckdbsqlview

open NeoServer.Sql

/-! ## Patterns -/

/-- The characters of `\w`, which are those that `\b` looks at. -/
def isWord (c : Char) : Bool := c.isAlphanum || c = '_'

/-- `\b` between two characters. -/
def boundary (before after : Option Char) : Bool := before.any isWord != after.any isWord

/-- The characters of `\s`. -/
def isSpace (c : Char) : Bool := c = '\t' || c = '\n' || c.toNat = 0x0C || c = '\r' || c = ' '

/-- A character under `(?i)`: two letters of ASCII also stand for one outside of it. -/
def foldIs (p c : Char) : Bool :=
  p.toLower = c.toLower || (p.toLower = 'k' && c.toNat = 0x212A) || (p.toLower = 's' && c.toNat = 0x17F)

/-- What is behind a pattern of letters. -/
def afterFold : Str → Str → Option Str
  | [], s => some s
  | _ :: _, [] => none
  | p :: ps, c :: s => if foldIs p c then afterFold ps s else none

/-- `MatchString`: the pattern fits at some place, with the character before it. -/
def somewhere (fits : Option Char → Str → Bool) : Option Char → Str → Bool
  | before, [] => fits before []
  | before, c :: s => fits before (c :: s) || somewhere fits (some c) s

def forbiddenSQLKeywords : List String :=
  ["INSERT", "UPDATE", "DELETE", "DROP", "CREATE", "ALTER", "TRUNCATE", "GRANT", "REVOKE", "COPY", "VACUUM",
    "ATTACH", "DETACH", "LOAD", "INSTALL", "PRAGMA", "EXPORT", "IMPORT"]

def forbiddenSQLFunctions : List String :=
  ["read_csv", "read_csv_auto", "read_parquet", "parquet_scan", "read_json", "read_json_auto",
    "read_json_objects", "read_ndjson", "read_ndjson_auto", "read_text", "read_blob", "read_xlsx", "glob",
    "csv_scan", "sniff_csv", "parquet_metadata", "parquet_schema", "st_read", "st_readosm", "st_read_meta"]

def forbiddenSchemes : List String := ["http", "https", "s3", "gs", "gcs", "azure", "az", "r2", "file"]

/-- `\bWORD\b`. -/
def wordAt (word : String) (before : Option Char) (s : Str) : Bool :=
  match afterFold word.toList s with
  | none => false
  | some rest => boundary before s.head? && boundary (s.take word.length).getLast? rest.head?

/-- `\bname\s*\(`. -/
def functionAt (name : String) (before : Option Char) (s : Str) : Bool :=
  match afterFold name.toList s with
  | none => false
  | some rest => boundary before s.head? && (rest.dropWhile isSpace).head? = some '('

/-- `\bscheme://`. -/
def schemeAt (scheme : String) (before : Option Char) (s : Str) : Bool :=
  (afterFold (scheme ++ "://").toList s).isSome && boundary before s.head?

/-! ## The checks and the statement -/

/-- `strings.ToUpper` of a character, as far as it gives a letter of ASCII. -/
def upperIs (p c : Char) : Bool := p = c.toUpper || (p = 'S' && c.toNat = 0x17F)

def beginsWithSelect (s : Str) : Bool :=
  6 ≤ s.length && ("SELECT".toList.zip s).all fun p => upperIs p.1 p.2

/-- The textual checks of `ValidateSQLView`. -/
def checkText (sql : Str) : Except Str Unit :=
  let trimmed := trimSpace sql
  if beginsWithSelect trimmed = false then .error "SQL view must be a SELECT statement"
  else
    match forbiddenSQLKeywords.find? fun word => somewhere (wordAt word) none trimmed with
    | some word => .error ("SQL view cannot contain " ++ word).toList
    | none =>
      match forbiddenSQLFunctions.find? fun name => somewhere (functionAt name) none trimmed with
      | some name => .error ("SQL view cannot call " ++ name ++ "()").toList
      | none =>
        if forbiddenSchemes.any fun scheme => somewhere (schemeAt scheme) none trimmed then
          .error "SQL view cannot reference remote URLs"
        else .ok ()

def subquery (sql : Str) : Str := "(\n" ++ sql ++ "\n)"

/-- Behind the parenthesis that closes the first one of `subquery sql` stands what the statement has
after it. So the text closes no more than it opens and all that it opens, has no separator, and
leaves nothing open that would take the last parenthesis. -/
def Encloses (sql rest : Str) : Prop := closing (subquery sql ++ rest).tail = some rest

/-- The text of a view is one derived table, in every statement, if it is nested. -/
theorem subquery_encloses_iff (sql rest : Str) : Encloses sql rest ↔ Nested 0 sql := by
  have hstatement : (subquery sql ++ rest).tail = '\n' :: sql ++ '\n' :: ')' :: rest := by
    simp [subquery]
  unfold Encloses
  rw [hstatement]
  exact closing_line_iff

/-- These are accepted. The first closes the parenthesis early and opens another, the second ends
the statement, and the third is a comment up to the end. -/
theorem checkText_not_enclosed :
    (checkText "SELECT 1) AS a, (SELECT 2".toList = .ok () ∧
      closing (subquery "SELECT 1) AS a, (SELECT 2".toList ++ " AS v".toList).tail =
        some " AS a, (SELECT 2\n) AS v".toList) ∧
    (checkText "SELECT 1; SELECT 2".toList = .ok () ∧
      closing (subquery "SELECT 1; SELECT 2".toList ++ " AS v".toList).tail = none) ∧
    checkText "SELECT 1 /*".toList = .ok () ∧
      closing (subquery "SELECT 1 /*".toList ++ " AS v".toList).tail = none := by
  refine ⟨⟨?_, ?_⟩, ⟨?_, ?_⟩, ?_, ?_⟩ <;> decide +kernel

end NeoServer.Duckdbsqlview
