import NeoServer.Text

/-!
# Sql.Lexer — tokens of an SQL expression

A lexer for the scalar/boolean expression language of SQL: unquoted words,
double-quoted identifiers and single-quoted strings (a doubled quote stands for
itself), `$n` parameters, integers and operator symbols. Reserved words are recognised in
either case.

The lexer is a machine over characters. Its only lookahead is the mode it is
in, so lexing a concatenation is lexing the parts, provided the second part
begins with a character that ends every pending token (`lex_append`). That rule
and one lemma per token class are all later proofs use.
-/

namespace NeoServer.Sql

open List

/-- Operator and punctuation symbols. -/
inductive Sym
  | lparen | rparen | comma | dot | cast | assign
  | eq | neq | lt | gt | le | ge
  | plus | minus | star | slash
deriving DecidableEq, Repr

/-- Reserved words. -/
inductive Kw
  | or | and | not | between | in_ | like | ilike | is | null | cast | as
deriving DecidableEq, Repr

/-- How a reserved word is written. -/
def Kw.text : Kw → Str
  | .or => "OR"
  | .and => "AND"
  | .not => "NOT"
  | .between => "BETWEEN"
  | .in_ => "IN"
  | .like => "LIKE"
  | .ilike => "ILIKE"
  | .is => "IS"
  | .null => "NULL"
  | .cast => "CAST"
  | .as => "AS"

/-- The reserved word written by `w`, in either case. -/
def keyword? (w : Str) : Option Kw :=
  [Kw.or, .and, .not, .between, .in_, .like, .ilike, .is, .null, .cast, .as].find?
    fun k => k.text = toUpper w

/-- Tokens of an SQL expression. -/
inductive Tok
  | kw (k : Kw)
  | word (w : Str)
  | quoted (name : Str)
  | param (n : Nat)
  | num (n : Nat)
  | str (s : Str)
  | sym (s : Sym)
deriving DecidableEq, Repr

/-- What the lexer is in the middle of. -/
inductive Mode
  | start
  | word (acc : Str)
  | quoted (acc : Str)
  | quotedEnd (acc : Str)
  | str (acc : Str)
  | strEnd (acc : Str)
  | param (acc : Str)
  | num (acc : Str)
  | colon
  | lt
  | gt

/-- Characters of an unquoted word. -/
def isWordChar (c : Char) : Bool := c.isAlphanum || c == '_'

/-- The value of a run of decimal digits. -/
def digitsValue (ds : Str) : Nat := Nat.ofDigitChars 10 ds 0

/-- The token of a finished word. -/
def wordTok (w : Str) : Tok :=
  match keyword? w with
  | some k => .kw k
  | none => .word w

/-- One character read between tokens. -/
def stepStart (c : Char) : Option (List Tok × Mode) :=
  if c = ' ' then some ([], .start)
  else if c = '(' then some ([.sym .lparen], .start)
  else if c = ')' then some ([.sym .rparen], .start)
  else if c = ',' then some ([.sym .comma], .start)
  else if c = '.' then some ([.sym .dot], .start)
  else if c = '=' then some ([.sym .eq], .start)
  else if c = '+' then some ([.sym .plus], .start)
  else if c = '-' then some ([.sym .minus], .start)
  else if c = '*' then some ([.sym .star], .start)
  else if c = '/' then some ([.sym .slash], .start)
  else if c = ':' then some ([], .colon)
  else if c = '<' then some ([], .lt)
  else if c = '>' then some ([], .gt)
  else if c = '"' then some ([], .quoted [])
  else if c = '\'' then some ([], .str [])
  else if c = '$' then some ([], .param [])
  else if c.isDigit then some ([], .num [c])
  else if isWordChar c then some ([], .word [c])
  else none

/-- The token pending when the input ends; `none` inside a quoted text or
after a lone colon or dollar sign. -/
def finish : Mode → Option (List Tok)
  | .start => some []
  | .word acc => some [wordTok acc]
  | .quotedEnd acc => some [.quoted acc]
  | .strEnd acc => some [.str acc]
  | .param [] => none
  | .param (d :: ds) => some [.param (digitsValue (d :: ds))]
  | .num acc => some [.num (digitsValue acc)]
  | .lt => some [.sym .lt]
  | .gt => some [.sym .gt]
  | .quoted _ => none
  | .str _ => none
  | .colon => none

/-- End the pending token and read `c` between tokens. -/
def flush (m : Mode) (c : Char) : Option (List Tok × Mode) := do
  let pending ← finish m
  let (out, m') ← stepStart c
  pure (pending ++ out, m')

/-- One character of input. -/
def step : Mode → Char → Option (List Tok × Mode)
  | .start, c => stepStart c
  | .word acc, c => if isWordChar c then some ([], .word (acc ++ [c])) else flush (.word acc) c
  | .quoted acc, c =>
    if c = '"' then some ([], .quotedEnd acc) else some ([], .quoted (acc ++ [c]))
  | .quotedEnd acc, c =>
    if c = '"' then some ([], .quoted (acc ++ ['"'])) else flush (.quotedEnd acc) c
  | .str acc, c => if c = '\'' then some ([], .strEnd acc) else some ([], .str (acc ++ [c]))
  | .strEnd acc, c =>
    if c = '\'' then some ([], .str (acc ++ ['\''])) else flush (.strEnd acc) c
  | .param acc, c => if c.isDigit then some ([], .param (acc ++ [c])) else flush (.param acc) c
  | .num acc, c => if c.isDigit then some ([], .num (acc ++ [c])) else flush (.num acc) c
  | .colon, c =>
    if c = ':' then some ([.sym .cast], .start)
    else if c = '=' then some ([.sym .assign], .start) else none
  | .lt, c =>
    if c = '=' then some ([.sym .le], .start)
    else if c = '>' then some ([.sym .neq], .start) else flush .lt c
  | .gt, c => if c = '=' then some ([.sym .ge], .start) else flush .gt c

/-- Lex from a mode to the end of the input. -/
def lexFrom : Mode → Str → Option (List Tok)
  | m, [] => finish m
  | m, c :: cs => do
      let (out, m') ← step m c
      let rest ← lexFrom m' cs
      pure (out ++ rest)

/-- Lex an SQL expression. -/
def lex (s : Str) : Option (List Tok) := lexFrom .start s

/-! ## Composition -/

/-- Characters that end every pending token. -/
def IsDelim (c : Char) : Prop :=
  c = ' ' ∨ c = '(' ∨ c = ')' ∨ c = ',' ∨ c = ':' ∨ c = '.'

variable {c : Char}

/-- Reading a delimiter in a mode that can finish is finishing, then reading it
between tokens. -/
lemma step_delim {m : Mode} {p} (hc : IsDelim c) (hm : finish m = some p) :
    step m c = (stepStart c).map fun r => (p ++ r.1, r.2) := by
  have hflush : flush m c = (stepStart c).map fun r => (p ++ r.1, r.2) := by
    unfold flush
    rw [hm]
    cases stepStart c <;> rfl
  have hw : isWordChar c = false := by
    rcases hc with rfl | rfl | rfl | rfl | rfl | rfl <;> rfl
  have hd : c.isDigit = false := by
    rcases hc with rfl | rfl | rfl | rfl | rfl | rfl <;> rfl
  have hq : c ≠ '"' := by rcases hc with rfl | rfl | rfl | rfl | rfl | rfl <;> decide
  have hs : c ≠ '\'' := by rcases hc with rfl | rfl | rfl | rfl | rfl | rfl <;> decide
  have he : c ≠ '=' := by rcases hc with rfl | rfl | rfl | rfl | rfl | rfl <;> decide
  have hg : c ≠ '>' := by rcases hc with rfl | rfl | rfl | rfl | rfl | rfl <;> decide
  have hw' : ¬ isWordChar c = true := by simp [hw]
  have hd' : ¬ c.isDigit = true := by simp [hd]
  cases m with
  | start =>
    cases hm
    exact Option.map_id'.symm
  | word => exact (if_neg hw').trans hflush
  | quoted | str | colon => cases hm
  | quotedEnd => exact (if_neg hq).trans hflush
  | strEnd => exact (if_neg hs).trans hflush
  | param | num => exact (if_neg hd').trans hflush
  | lt => exact (if_neg he).trans ((if_neg hg).trans hflush)
  | gt => exact (if_neg he).trans hflush

/-- Lexing `a ++ c :: b` for a delimiter `c` is lexing `a` and then `c :: b`. -/
lemma lexFrom_append (hc : IsDelim c) (b : Str) {tb} (hb : lex (c :: b) = some tb) (a : Str) :
    ∀ (m : Mode) {ta}, lexFrom m a = some ta →
      lexFrom m (a ++ c :: b) = some (ta ++ tb) := by
  induction a with
  | nil =>
    intro m ta ha
    have hfin : finish m = some ta := ha
    have hb' : ((stepStart c).bind fun r => (lexFrom r.2 b).map (r.1 ++ ·)) = some tb := by
      simpa [lex, lexFrom, step, Option.map_eq_bind, Function.comp_def] using hb
    simp only [nil_append, lexFrom, step_delim hc hfin]
    cases hs : stepStart c with
    | none => simp [hs] at hb'
    | some r =>
      cases hr : lexFrom r.2 b with
      | none => simp [hs, hr] at hb'
      | some =>
        simp [hs, hr] at hb'
        simp [hr, ← hb', append_assoc]
  | cons d a ih =>
    intro m ta ha
    simp only [lexFrom, cons_append] at ha ⊢
    cases hs : step m d with
    | none => simp [hs] at ha
    | some r =>
      cases hr : lexFrom r.2 a with
      | none => simp [hs, hr] at ha
      | some =>
        simp [hs, hr] at ha
        simp [ih r.2 hr, ← ha, append_assoc]

/-- The rule by which the tokens of a text are found part by part. -/
theorem lex_append {a b : Str} {ta tb} (hc : IsDelim c)
    (ha : lex a = some ta) (hb : lex (c :: b) = some tb) : lex (a ++ c :: b) = some (ta ++ tb) :=
  lexFrom_append hc b hb a .start ha

/-- A character that ends no token. -/
lemma lexFrom_silent {m m' : Mode} (hstep : step m c = some ([], m')) (s : Str) :
    lexFrom m (c :: s) = lexFrom m' s := by
  change (step m c).bind _ = _
  rw [hstep]
  change (lexFrom m' s).bind some = _
  cases lexFrom m' s <;> rfl

/-- A character that is a whole token, or no token at all. -/
lemma lex_cons {out ts} {s : Str} (hc : stepStart c = some (out, .start)) (hs : lex s = some ts) :
    lex (c :: s) = some (out ++ ts) := by
  change (stepStart c).bind _ = _
  rw [hc]
  change (lex s).bind _ = _
  rw [hs]
  rfl

/-! ## Token classes -/

/-- The body of a quoted text: the quote character is doubled. -/
def doubled (q : Char) (s : Str) : Str := s.flatMap fun c => if c = q then [q, q] else [c]

variable (n : Nat) (name : Str)

lemma lexFrom_quoted :
    ∀ acc, lexFrom (.quoted acc) (doubled '"' name ++ ['"']) = some [.quoted (acc ++ name)] := by
  induction name with
  | nil =>
    intro acc
    rw [append_nil]
    rfl
  | cons c cs ih =>
    intro acc
    have hcons : doubled '"' (c :: cs) = (if c = '"' then ['"', '"'] else [c]) ++ doubled '"' cs :=
      rfl
    have hrest := ih (acc ++ [c])
    rw [append_assoc] at hrest
    by_cases hc : c = '"'
    · -- the quote is doubled: the first one ends the text, the second goes on
      subst hc
      have hfirst : step (.quoted acc) '"' = some ([], .quotedEnd acc) := rfl
      have hsecond : step (.quotedEnd acc) '"' = some ([], .quoted (acc ++ ['"'])) := rfl
      exact (lexFrom_silent hfirst _).trans ((lexFrom_silent hsecond _).trans hrest)
    · have hstep : step (.quoted acc) c = some ([], .quoted (acc ++ [c])) := if_neg hc
      rw [hcons, if_neg hc]
      exact (lexFrom_silent hstep _).trans hrest

/-- A double-quoted identifier is one token. -/
lemma lex_quoted : lex ('"' :: (doubled '"' name ++ ['"'])) = some [.quoted name] := by
  have hstep : step .start '"' = some ([], .quoted []) := rfl
  exact (lexFrom_silent hstep _).trans (lexFrom_quoted name [])

/-- Characters that a mode collects. -/
lemma lexFrom_collect {m : Str → Mode} {s : Str} (rest : Str)
    (hstep : ∀ c ∈ s, ∀ acc, step (m acc) c = some ([], m (acc ++ [c]))) :
    ∀ acc, lexFrom (m acc) (s ++ rest) = lexFrom (m (acc ++ s)) rest := by
  induction s with
  | nil =>
    intro acc
    rw [append_nil]
    rfl
  | cons c cs ih =>
    intro acc
    have hrest := ih (fun d hd => hstep d (mem_cons_of_mem c hd)) (acc ++ [c])
    rw [append_assoc] at hrest
    exact (lexFrom_silent (hstep c mem_cons_self acc) _).trans hrest

/-- A single-quoted string without quotes inside is one token. -/
lemma lex_str {s : Str} (hs : '\'' ∉ s) : lex ('\'' :: (s ++ ['\''])) = some [.str s] := by
  have hstep : step .start '\'' = some ([], .str []) := rfl
  have hcollect := lexFrom_collect (m := .str) ['\'']
    (fun c hc _ => if_neg fun h : c = '\'' => hs (h ▸ hc)) []
  exact (lexFrom_silent hstep _).trans hcollect

lemma digitsValue_natDecimal : digitsValue (natDecimal n) = n :=
  Nat.ofDigitChars_ten_toDigits

/-- A parameter is one token. -/
lemma lex_param : lex ('$' :: natDecimal n) = some [.param n] := by
  have hstep : step .start '$' = some ([], .param []) := rfl
  have hcollect := lexFrom_collect (m := .param) []
    (fun c hc _ => if_pos (isDigit_of_mem_natDecimal (n := n) hc)) []
  rw [append_nil, nil_append] at hcollect
  refine (lexFrom_silent hstep _).trans (hcollect.trans ?_)
  have hval := digitsValue_natDecimal n
  cases hds : natDecimal n with
  | nil => exact absurd hds (natDecimal_ne_nil n)
  | cons =>
    rw [hds] at hval
    rw [← hval]
    rfl

/-- Between tokens a digit starts a number. -/
lemma stepStart_digit (hc : c.isDigit = true) : stepStart c = some ([], .num [c]) := by
  have hne : ∀ d : Char, d.isDigit = false → c ≠ d := by
    intro d hd h
    rw [h, hd] at hc
    cases hc
  simp [stepStart, hc, hne]

/-- A natural number is one token. -/
lemma lex_num : lex (natDecimal n) = some [.num n] := by
  have hdig : ∀ c ∈ natDecimal n, c.isDigit := fun c hc => isDigit_of_mem_natDecimal hc
  have hval := digitsValue_natDecimal n
  cases hds : natDecimal n with
  | nil => exact absurd hds (natDecimal_ne_nil n)
  | cons c cs =>
    rw [hds] at hdig hval
    have hstep : step .start c = some ([], .num [c]) := stepStart_digit (hdig c (by simp))
    have hcollect := lexFrom_collect (m := .num) []
      (fun d hd _ => if_pos (hdig d (mem_cons_of_mem c hd))) [c]
    rw [append_nil] at hcollect
    rw [← hval]
    exact (lexFrom_silent hstep cs).trans hcollect

/-- An integer is one token, or a minus sign and one token. -/
lemma lex_decimal (n : Int) :
    lex (decimal n) =
      some (if n < 0 then [.sym .minus, .num n.natAbs] else [.num n.toNat]) := by
  cases n with
  | ofNat k =>
    have hk : ¬ ((Int.ofNat k) < 0) := by simp
    exact lex_num k
  | negSucc k =>
    have hk : Int.negSucc k < 0 := Int.negSucc_lt_zero k
    rw [if_pos hk]
    have hminus : stepStart '-' = some ([.sym .minus], .start) := rfl
    exact lex_cons hminus (lex_num (k + 1))

end NeoServer.Sql
