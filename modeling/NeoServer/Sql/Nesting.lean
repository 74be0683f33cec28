import NeoServer.Text

/-!
# Sql.Nesting — parentheses under SQL lexing

What a parenthesis closes depends on what stands around it: in a quoted text, behind a dash or in a
comment it is no parenthesis. The lexing here is that of the PostgreSQL family: texts in single
quotes, with escapes behind an `E`, or in dollar quotes with a tag, identifiers in double quotes,
comments to the end of the line, and nested comments.

- `lexeme` : the next piece of a statement,
- `closing` : what stands behind the parenthesis that closes the open one,
- `Nested` : a text whose parentheses close one another, with nothing left open and no separator,
- `closing_line_iff` : a text on lines of its own is enclosed by the parenthesis after it if it is
  nested.

A newline ends every piece that is not open, so that a text is lexed the same on its own.
-/

namespace NeoServer.Sql

open List

/-! ## Literals -/

/-- What is read up to an end of its own: a quoted text, one with escapes, a comment, or a text
between two tags. -/
inductive Literal
  | quoted (quote : Char)
  | escaped
  | block
  | dollar (tag : Str)
deriving DecidableEq, Repr

/-- A doubled quote ends a text and begins the next. -/
def skipQuoted (quote : Char) : Str → Option Str
  | [] => none
  | c :: s => if c = quote then some s else skipQuoted quote s

/-- A backslash escapes what follows, and a doubled quote stands for itself. -/
def skipEscaped : Str → Option Str
  | [] => none
  | [c] => if c = '\'' then some [] else none
  | c :: d :: s =>
    if c = '\\' then skipEscaped s
    else if c = '\'' then if d = '\'' then skipEscaped s else some (d :: s)
    else skipEscaped (d :: s)

/-- The comments that are open are counted. -/
def skipBlock : Nat → Str → Option Str
  | _, [] => none
  | _, [_] => none
  | n, c :: d :: s =>
    if c = '*' ∧ d = '/' then
      match n with
      | 0 => some s
      | n + 1 => skipBlock n s
    else if c = '/' ∧ d = '*' then skipBlock (n + 1) s
    else skipBlock n (d :: s)

def skipDollar (delimiter : Str) : Str → Option Str
  | [] => none
  | c :: s =>
    match afterPrefix delimiter (c :: s) with
    | some rest => some rest
    | none => skipDollar delimiter s

/-- What is behind the end, if there is one. -/
def Literal.skip : Literal → Str → Option Str
  | .quoted quote => skipQuoted quote
  | .escaped => skipEscaped
  | .block => skipBlock 0
  | .dollar tag => skipDollar ('$' :: tag ++ ['$'])

def isIdentStart (c : Char) : Bool := c.isAlpha || c = '_' || 0x80 ≤ c.toNat

def isTagChar (c : Char) : Bool := isIdentStart c || c.isDigit

def isIdentChar (c : Char) : Bool := isTagChar c || c = '$'

/-- A tag is empty or an identifier. -/
def beginsTag (s : Str) : Bool := s.head?.all fun c => c = '$' || isIdentStart c

/-- The tag behind a dollar sign and what is behind the next one. -/
def dollarTag (s : Str) : Option (Str × Str) :=
  match s.dropWhile isTagChar with
  | [] => none
  | c :: rest => if c = '$' ∧ beginsTag s then some (s.takeWhile isTagChar, rest) else none

/-- The literal that begins here, and what is behind its beginning. -/
def literalAt : Str → Option (Literal × Str)
  | [] => none
  | c :: s =>
    if c = '\'' ∨ c = '"' then some (.quoted c, s)
    else if c = '/' ∧ s.head? = some '*' then some (.block, s.tail)
    else if (c = 'e' ∨ c = 'E') ∧ s.head? = some '\'' then some (.escaped, s.tail)
    else if c = '$' then (dollarTag s).map fun p => (.dollar p.1, p.2)
    else none

/-! ## Pieces -/

inductive Lexeme
  | lparen | rparen | separator | other
deriving DecidableEq, Repr

def isNewline (c : Char) : Bool := c = '\n' || c = '\r'

/-- A piece that is no literal: a symbol, a comment up to its newline, or an identifier. -/
def symbol (c : Char) (s : Str) : Lexeme × Str :=
  if c = '(' then (.lparen, s)
  else if c = ')' then (.rparen, s)
  else if c = ';' then (.separator, s)
  else if c = '-' ∧ s.head? = some '-' then (.other, s.dropWhile fun d => !isNewline d)
  else if isIdentStart c then (.other, s.dropWhile isIdentChar)
  else (.other, s)

/-- The next piece and what is behind it. There is none at the end, and none if a literal is left
open. -/
def lexeme (s : Str) : Option (Lexeme × Str) :=
  match literalAt s with
  | some (literal, rest) => (literal.skip rest).map fun rest => (.other, rest)
  | none =>
    match s with
    | [] => none
    | c :: s => some (symbol c s)

/-- The search for the parenthesis that closes the outermost of `depth + 1` open ones. -/
def closingFrom : Nat → Nat → Str → Option Str
  | 0, _, _ => none
  | fuel + 1, depth, s =>
    match lexeme s with
    | none => none
    | some (.separator, _) => none
    | some (.other, rest) => closingFrom fuel depth rest
    | some (.lparen, rest) => closingFrom fuel (depth + 1) rest
    | some (.rparen, rest) =>
      match depth with
      | 0 => some rest
      | depth + 1 => closingFrom fuel depth rest

/-- What is behind the parenthesis that closes the one before `s`. There is none if the end or a
separator comes first. -/
def closing (s : Str) : Option Str := closingFrom s.length 0 s

/-- The pieces of a text at a depth of parentheses: they close one another, with no separator and
no literal left open. -/
inductive Nested : Nat → Str → Prop
  | done : Nested 0 []
  | lparen {depth : Nat} {s rest : Str} (h : lexeme s = some (.lparen, rest)) (hrest : Nested (depth + 1) rest) :
      Nested depth s
  | rparen {depth : Nat} {s rest : Str} (h : lexeme s = some (.rparen, rest)) (hrest : Nested depth rest) :
      Nested (depth + 1) s
  | other {depth : Nat} {s rest : Str} (h : lexeme s = some (.other, rest)) (hrest : Nested depth rest) :
      Nested depth s

/-! ## A newline ends what is not open -/

/-- What is closed stays, and what is open goes on behind the newline. -/
structure Local (skip : Str → Option Str) : Prop where
  shorter : ∀ {s rest : Str}, skip s = some rest → rest.length < s.length
  closed : ∀ {s rest : Str} (t : Str), skip s = some rest → skip (s ++ '\n' :: t) = some (rest ++ '\n' :: t)
  unclosed : ∀ {s t rest : Str}, skip s = none → skip (s ++ '\n' :: t) = some rest → rest.length < t.length

lemma skipEscaped_newline (t : Str) : skipEscaped ('\n' :: t) = skipEscaped t := by
  cases t with
  | nil => rfl
  | cons => simp [skipEscaped]

lemma skipEscaped_local : Local skipEscaped := by
  have hshorter : ∀ {s rest : Str}, skipEscaped s = some rest → rest.length < s.length := by
    intro s rest h
    fun_induction skipEscaped s <;> simp_all <;> omega
  refine ⟨hshorter, ?_, ?_⟩
  · intro s rest t h
    fun_induction skipEscaped s with
    | case1 => cases h
    | case2 => simp_all [skipEscaped]
    | case3 => cases h
    | case6 d s hd =>
      cases h
      simp [skipEscaped, hd]
    | case4 => simp_all [skipEscaped]
    | case5 => simp_all [skipEscaped]
    | case7 => simp_all [skipEscaped]
  · intro s t rest hnone h
    fun_induction skipEscaped s with
    | case1 =>
      rw [nil_append, skipEscaped_newline] at h
      exact hshorter h
    | case2 => cases hnone
    | case3 c hc =>
      -- a backslash may stand before the newline
      rw [singleton_append] at h
      simp only [skipEscaped, hc, if_false] at h
      split at h
      · exact hshorter h
      · rw [skipEscaped_newline] at h
        exact hshorter h
    | case6 => cases hnone
    | case4 => simp_all [skipEscaped]
    | case5 => simp_all [skipEscaped]
    | case7 => simp_all [skipEscaped]

variable {c : Char} {s rest t : Str} {x : Lexeme} {depth : Nat}

lemma skipBlock_skip {n : Nat} {c d : Char} (hend : ¬ (c = '*' ∧ d = '/')) (hbegin : ¬ (c = '/' ∧ d = '*')) :
    skipBlock n (c :: d :: s) = skipBlock n (d :: s) := by
  cases n <;> rw [skipBlock, if_neg hend, if_neg hbegin]

lemma skipBlock_local (n : Nat) : Local (skipBlock n) := by
  have hshorter : ∀ {n : Nat} {s rest : Str}, skipBlock n s = some rest → rest.length < s.length := by
    intro n s rest h
    fun_induction skipBlock n s <;> simp_all <;> omega
  have hnewline : ∀ (n : Nat) (t : Str), skipBlock n ('\n' :: t) = skipBlock n t := by
    intro n t
    cases t with
    | nil => rfl
    | cons => simp [skipBlock]
  refine ⟨hshorter, ?_, ?_⟩
  · intro s rest t h
    fun_induction skipBlock n s with
    | case6 n c d s hend hbegin ih =>
      rw [cons_append, cons_append, skipBlock_skip hend hbegin]
      exact ih h
    | _ => simp_all [skipBlock]
  · intro s t rest hnone h
    fun_induction skipBlock n s with
    | case1 n =>
      rw [nil_append, hnewline] at h
      exact hshorter h
    | case2 n c =>
      rw [singleton_append, skipBlock_skip (by simp) (by simp), hnewline] at h
      exact hshorter h
    | case6 n c d s hend hbegin ih =>
      rw [cons_append, cons_append, skipBlock_skip hend hbegin] at h
      exact ih hnone h
    | _ => simp_all [skipBlock]

lemma afterPrefix_eq_some {pre s rest : Str} : afterPrefix pre s = some rest ↔ s = pre ++ rest := by
  unfold afterPrefix
  split
  · rename_i hpre
    obtain ⟨rest', rfl⟩ := isPrefixOf_iff_prefix.mp hpre
    simp [eq_comm]
  · rename_i hpre
    refine iff_of_false (by simp) ?_
    rintro rfl
    exact hpre ( isPrefixOf_iff_prefix.mpr ⟨rest, rfl⟩)

/-- What has no newline does not reach over one. -/
lemma afterPrefix_newline {pre : Str} (hline : '\n' ∉ pre) (s t : Str) :
    afterPrefix pre (s ++ '\n' :: t) = (afterPrefix pre s).map (· ++ '\n' :: t) := by
  apply Option.ext
  intro rest
  rw [afterPrefix_eq_some, Option.map_eq_some_iff]
  constructor
  · intro h
    rcases append_eq_append_iff.mp h with ⟨more, hpre, hrest⟩ | ⟨rest', hs, hrest⟩
    · cases more with
      | nil => exact ⟨[], by rw [afterPrefix_eq_some]; simpa using hpre.symm, by simpa using hrest⟩
      | cons =>
        rw [cons_append, cons.injEq] at hrest
        refine absurd ?_ hline
        rw [hpre, ← hrest.1]
        simp
    · exact ⟨rest', afterPrefix_eq_some.mpr hs, hrest.symm⟩
  · rintro ⟨rest', hs, rfl⟩
    rw [afterPrefix_eq_some.mp hs, append_assoc]

lemma skipDollar_local {delimiter : Str} (hne : delimiter ≠ []) (hline : '\n' ∉ delimiter) :
    Local (skipDollar delimiter) := by
  have hpos := length_pos_iff.mpr hne
  have hshorter : ∀ {s rest : Str}, skipDollar delimiter s = some rest → rest.length < s.length := by
    intro s rest h
    induction s with
    | nil => cases h
    | cons c s ih =>
      unfold skipDollar at h
      split at h
      · rename_i hrest
        cases h
        rw [afterPrefix_eq_some.mp hrest, length_append]
        omega
      · exact (ih h).trans (Nat.lt_succ_self _)
  refine ⟨hshorter, ?_, ?_⟩
  · intro s rest t h
    induction s with
    | nil => cases h
    | cons c s ih =>
      unfold skipDollar at h
      rw [cons_append, skipDollar, ← cons_append, afterPrefix_newline hline]
      split at h
      · rename_i hrest
        cases h
        rw [hrest]
        rfl
      · rename_i hrest
        rw [hrest]
        exact ih h
  · intro s t rest hnone h
    induction s with
    | nil =>
      have hbegin : afterPrefix delimiter ('\n' :: t) = none := by
        have := afterPrefix_newline hline [] t
        cases delimiter with
        | nil => exact absurd rfl hne
        | cons => simpa [afterPrefix] using this
      rw [nil_append, skipDollar, hbegin] at h
      exact hshorter h
    | cons c s ih =>
      rw [cons_append, skipDollar, ← cons_append, afterPrefix_newline hline] at h
      unfold skipDollar at hnone
      split at hnone
      · cases hnone
      rename_i hrest
      rw [hrest] at h
      exact ih hnone h

/-- A quote is a delimiter of one character. -/
lemma skipQuoted_eq (quote : Char) : skipQuoted quote = skipDollar [quote] := by
  funext s
  induction s with
  | nil => rfl
  | cons c s ih =>
    rw [skipQuoted, skipDollar, ih]
    by_cases hc : c = quote
    · simp [afterPrefix, hc]
    · simp [afterPrefix, hc, Ne.symm hc]

lemma skipQuoted_local {quote : Char} (hquote : quote ≠ '\n') : Local (skipQuoted quote) := by
  rw [skipQuoted_eq]
  exact skipDollar_local (cons_ne_nil _ _) (by simpa using hquote.symm)

lemma dropWhile_newline {p : Char → Bool} (hp : p '\n' = false) (s t : Str) :
    (s ++ '\n' :: t).dropWhile p = s.dropWhile p ++ '\n' :: t := by
  induction s with
  | nil => simp [hp]
  | cons c s ih =>
    rw [cons_append, dropWhile_cons, dropWhile_cons]
    split
    · exact ih
    · rfl

lemma takeWhile_newline {p : Char → Bool} (hp : p '\n' = false) (s t : Str) :
    (s ++ '\n' :: t).takeWhile p = s.takeWhile p := by
  induction s with
  | nil => simp [hp]
  | cons c s ih =>
    rw [cons_append, takeWhile_cons, takeWhile_cons]
    split
    · rw [ih]
    · rfl

/-- The parts behind a beginning, with the rest of the statement. -/
def withRest {α : Type} (t : Str) (p : α × Str) : α × Str := (p.1, p.2 ++ '\n' :: t)

lemma dollarTag_newline (s t : Str) : dollarTag (s ++ '\n' :: t) = (dollarTag s).map (withRest t) := by
  have htag : isTagChar '\n' = false := by decide
  unfold dollarTag
  rw [dropWhile_newline htag, takeWhile_newline htag]
  cases s with
  | nil => simp
  | cons d s =>
    cases (d :: s).dropWhile isTagChar with
    | nil => simp
    | cons c rest =>
      show (if c = '$' ∧ beginsTag (d :: s) then some ((d :: s).takeWhile isTagChar, rest ++ '\n' :: t) else none) = _
      dsimp only
      split <;> rfl

lemma head?_newline (hc : c ≠ '\n') : (s ++ '\n' :: t).head? = some c ↔ s.head? = some c := by
  cases s with
  | nil => simpa using hc.symm
  | cons => simp

lemma tail_newline (h : s.head? = some c) : (s ++ '\n' :: t).tail = s.tail ++ '\n' :: t := by
  cases s with
  | nil => cases h
  | cons => rfl

lemma literalAt_newline (s t : Str) : literalAt (s ++ '\n' :: t) = (literalAt s).map (withRest t) := by
  cases s with
  | nil => rfl
  | cons c s =>
    have hstar : (s ++ '\n' :: t).head? = some '*' ↔ s.head? = some '*' := head?_newline (by decide)
    have hquote : (s ++ '\n' :: t).head? = some '\'' ↔ s.head? = some '\'' := head?_newline (by decide)
    rw [cons_append]
    simp only [literalAt, hstar, hquote, dollarTag_newline]
    split
    · rfl
    split
    · rename_i h
      rw [tail_newline h.2]
      rfl
    · split
      · rename_i h
        rw [tail_newline h.2]
        rfl
      · split
        · cases dollarTag s <;> rfl
        · rfl

lemma dollarTag_spec {s tag rest : Str} (h : dollarTag s = some (tag, rest)) :
    '\n' ∉ tag ∧ rest.length < s.length := by
  unfold dollarTag at h
  split at h
  · cases h
  rename_i c rest' hdrop
  split at h
  · cases h
    constructor
    · intro hmem
      exact absurd (all_eq_true.mp (all_takeWhile (p := isTagChar) (l := s)) _ hmem) (by decide)
    · have hle := (dropWhile_suffix isTagChar (l := s)).length_le
      rw [hdrop, length_cons] at hle
      omega
  · cases h

/-- The literals of a statement are local. -/
lemma literalAt_spec {literal : Literal} (h : literalAt s = some (literal, rest)) :
    Local literal.skip ∧ rest.length < s.length := by
  cases s with
  | nil => cases h
  | cons c s =>
    have htail : s.tail.length < (c :: s).length := by
      rw [length_tail, length_cons]
      omega
    simp only [literalAt] at h
    split at h
    · rename_i hc
      cases h
      refine ⟨skipQuoted_local ?_, Nat.lt_succ_self _⟩
      rcases hc with rfl | rfl <;> decide
    · split at h
      · cases h
        exact ⟨skipBlock_local 0, htail⟩
      split at h
      · cases h
        exact ⟨skipEscaped_local, htail⟩
      split at h
      · obtain ⟨⟨tag, rest'⟩, htag, heq⟩ := Option.map_eq_some_iff.mp h
        cases heq
        obtain ⟨hline, hlt⟩ := dollarTag_spec htag
        exact ⟨skipDollar_local (by simp) (by simpa using hline), hlt.trans (Nat.lt_succ_self _)⟩
      · cases h

lemma symbol_length_le (c : Char) (s : Str) : (symbol c s).2.length ≤ s.length := by
  have hdrop : ∀ p : Char → Bool, (s.dropWhile p).length ≤ s.length := by
    intro p
    exact (dropWhile_suffix p).length_le
  unfold symbol
  repeat' split
  all_goals first | exact hdrop _ | exact le_rfl

lemma symbol_newline (c : Char) (s t : Str) : symbol c (s ++ '\n' :: t) = withRest t (symbol c s) := by
  have hdash : (s ++ '\n' :: t).head? = some '-' ↔ s.head? = some '-' := head?_newline (by decide)
  have hcomment : (s ++ '\n' :: t).dropWhile (fun d => !isNewline d) =
    s.dropWhile (fun d => !isNewline d) ++ '\n' :: t := dropWhile_newline (by decide) s t
  have hident : (s ++ '\n' :: t).dropWhile isIdentChar = s.dropWhile isIdentChar ++ '\n' :: t :=
    dropWhile_newline (by decide) s t
  simp only [symbol, hdash, hcomment, hident]
  repeat' split
  all_goals rfl

lemma lexeme_shorter (h : lexeme s = some (x, rest)) : rest.length < s.length := by
  unfold lexeme at h
  split at h
  · rename_i literal rest' hliteral
    obtain ⟨hlocal, hlt⟩ := literalAt_spec hliteral
    obtain ⟨rest'', hskip, heq⟩ := Option.map_eq_some_iff.mp h
    cases heq
    exact (hlocal.shorter hskip).trans hlt
  · split at h
    · cases h
    rename_i c s _
    have hle := symbol_length_le c s
    rw [Option.some.inj h] at hle
    exact Nat.lt_succ_of_le hle

/-- A piece is the same before a newline. -/
lemma lexeme_newline (t : Str) (h : lexeme s = some (x, rest)) :
    lexeme (s ++ '\n' :: t) = some (x, rest ++ '\n' :: t) := by
  unfold lexeme at h ⊢
  rw [literalAt_newline]
  split at h
  · rename_i literal rest' hliteral
    obtain ⟨rest'', hskip, heq⟩ := Option.map_eq_some_iff.mp h
    cases heq
    rw [hliteral]
    show (literal.skip (rest' ++ '\n' :: t)).map _ = _
    rw [(literalAt_spec hliteral).1.closed t hskip]
    rfl
  · rename_i hliteral
    rw [hliteral]
    cases s with
    | nil => cases h
    | cons c s =>
      show some (symbol c (s ++ '\n' :: t)) = _
      rw [symbol_newline, Option.some.inj h]
      rfl

/-- A literal that is left open goes on behind the newline. -/
lemma lexeme_unclosed (hs : s ≠ []) (hnone : lexeme s = none)
    (h : lexeme (s ++ '\n' :: t) = some (x, rest)) : x = .other ∧ rest.length < t.length := by
  unfold lexeme at h hnone
  rw [literalAt_newline] at h
  split at hnone
  · rename_i literal rest' hliteral
    rw [hliteral] at h
    obtain ⟨rest'', hskip, heq⟩ := Option.map_eq_some_iff.mp h
    cases heq
    exact ⟨rfl, (literalAt_spec hliteral).1.unclosed (Option.map_eq_none_iff.mp hnone) hskip⟩
  · split at hnone
    · exact absurd rfl hs
    · cases hnone

/-! ## Enclosing -/

lemma closingFrom_shorter {fuel depth : Nat} (h : closingFrom fuel depth s = some rest) :
    rest.length < s.length := by
  induction fuel generalizing depth s with
  | zero => cases h
  | succ fuel ih =>
    unfold closingFrom at h
    split at h
    · cases h
    · cases h
    · rename_i hlexeme
      exact (ih h).trans (lexeme_shorter hlexeme)
    · rename_i hlexeme
      exact (ih h).trans (lexeme_shorter hlexeme)
    rename_i hlexeme
    split at h
    · cases h
      exact lexeme_shorter hlexeme
    · exact (ih h).trans (lexeme_shorter hlexeme)

/-- A text that ends in a literal has no parentheses that close one another. -/
lemma Nested.eq_nil (h : Nested depth s) (hnone : lexeme s = none) : depth = 0 ∧ s = [] := by
  cases h with
  | done => exact ⟨rfl, rfl⟩
  | lparen h | rparen h | other h => rw [hnone] at h; cases h

lemma nested_iff (h : lexeme s = some (x, rest)) :
    Nested depth s ↔
      match x with
      | .lparen => Nested (depth + 1) rest
      | .rparen => 0 < depth ∧ Nested (depth - 1) rest
      | .separator => False
      | .other => Nested depth rest := by
  constructor
  · intro hnested
    cases hnested with
    | done => cases h
    | lparen h' hrest | other h' hrest =>
      rw [h] at h'
      cases h'
      exact hrest
    | rparen h' hrest =>
      rw [h] at h'
      cases h'
      exact ⟨Nat.succ_pos _, hrest⟩
  · cases x with
    | lparen => exact fun hrest => .lparen h hrest
    | rparen =>
      rintro ⟨hpos, hrest⟩
      obtain ⟨depth, rfl⟩ : ∃ n, depth = n + 1 := ⟨depth - 1, by omega⟩
      exact .rparen h hrest
    | separator => exact False.elim
    | other => exact fun hrest => .other h hrest

/-- The parenthesis on the next line closes the open one if the text before it is nested. -/
lemma closingFrom_line_iff {fuel : Nat} (hfuel : s.length + 2 ≤ fuel) :
    closingFrom fuel depth (s ++ '\n' :: ')' :: t) = some t ↔ Nested depth s := by
  induction fuel generalizing s depth with
  | zero => omega
  | succ fuel ih =>
    cases hlexeme : lexeme s with
    | none =>
      by_cases hs : s = []
      · -- the newline and the parenthesis are next
        subst hs
        obtain ⟨fuel, rfl⟩ : ∃ n, fuel = n + 1 := ⟨fuel - 1, by omega⟩
        cases depth with
        | zero => exact iff_of_true rfl .done
        | succ depth =>
          refine iff_of_false ?_ fun hnested => absurd (hnested.eq_nil hlexeme).1 (Nat.succ_ne_zero _)
          intro h
          have hshorter : t.length < t.length := closingFrom_shorter (h : closingFrom fuel depth t = some t)
          omega
      · -- the parenthesis is in the literal
        refine iff_of_false ?_ fun hnested => hs (hnested.eq_nil hlexeme).2
        intro h
        unfold closingFrom at h
        cases hnext : lexeme (s ++ '\n' :: ')' :: t) with
        | none =>
          rw [hnext] at h
          cases h
        | some p =>
          obtain ⟨x, rest⟩ := p
          obtain ⟨rfl, hlt⟩ := lexeme_unclosed hs hlexeme hnext
          rw [hnext] at h
          have hshorter : t.length < rest.length := closingFrom_shorter h
          rw [length_cons] at hlt
          omega
    | some p =>
      obtain ⟨x, rest⟩ := p
      have hnext := lexeme_newline (')' :: t) hlexeme
      have hlt := lexeme_shorter hlexeme
      unfold closingFrom
      rw [hnext, nested_iff hlexeme]
      cases x with
      | lparen | other => exact ih (by omega)
      | separator => simp
      | rparen =>
        cases depth with
        | zero =>
          refine iff_of_false ?_ (fun h => absurd h.1 (Nat.lt_irrefl 0))
          intro h
          have hrest : rest ++ '\n' :: ')' :: t = t := Option.some.inj h
          have hlength := congrArg length hrest
          rw [length_append, length_cons, length_cons] at hlength
          omega
        | succ =>
          simp only [Nat.succ_pos, true_and]
          exact ih (by omega)

/-- A text on lines of its own is enclosed if it is nested. -/
theorem closing_line_iff : closing ('\n' :: s ++ '\n' :: ')' :: t) = some t ↔ Nested 0 s := by
  have hfuel : ('\n' :: s ++ '\n' :: ')' :: t).length = (s.length + 2 + t.length) + 1 := by
    simp
    omega
  have hline : closingFrom (s.length + 2 + t.length) 0 (s ++ '\n' :: ')' :: t) = some t ↔ Nested 0 s :=
    closingFrom_line_iff (by omega)
  unfold closing
  rw [hfuel]
  exact hline

end NeoServer.Sql
