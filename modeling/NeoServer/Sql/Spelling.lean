import NeoServer.Sql.Parser

/-!
# Sql.Spelling — texts built from texts

Each rule says that a text put together from spellings of trees is a spelling
of the tree put together from them. A program that writes SQL is verified by
applying these rules along its own structure; the precedence side conditions are
where a missing parenthesis would show.
-/

namespace NeoServer.Sql

/-! ## Formats -/

/-- `"(" + s + ")"`. -/
def parens (s : Str) : Str := '(' :: (s ++ [')'])

/-- `a + " " + w + " " + b`. -/
def spaced (a w b : Str) : Str := a ++ ' ' :: (w ++ ' ' :: b)

/-- `"(" + strings.Join(items, sep) + ")"`. -/
def listText (sep : Str) (items : List Str) : Str := parens (join sep items)

/-- A function name and its arguments. -/
def callText (f sep : Str) (args : List Str) : Str := f ++ listText sep args

/-- A `$n` parameter. -/
def paramText (n : Nat) : Str := '$' :: natDecimal n

/-- A double-quoted identifier. -/
def quotedText (name : Str) : Str := '"' :: (doubled '"' name ++ ['"'])

/-- A single-quoted string; the body must hold no quote. -/
def strText (s : Str) : Str := '\'' :: (s ++ ['\''])

/-- How a comparison operator is written. -/
def CmpOp.text : CmpOp → Str
  | .eq => "="
  | .neq => "<>"
  | .lt => "<"
  | .gt => ">"
  | .le => "<="
  | .ge => ">="

/-- How an arithmetic operator is written. -/
def ArithOp.text : ArithOp → Str
  | .add => "+"
  | .sub => "-"
  | .mul => "*"
  | .div => "/"

/-! ## Lexing the formats -/

variable {s : Str} {ts ta : List Tok}

lemma lex_space (hs : lex s = some ts) : lex (' ' :: s) = some ts := by
  have hc : stepStart ' ' = some ([], .start) := rfl
  simpa using lex_cons hc hs

lemma lex_append_space {a b : Str} {ta tb} (ha : lex a = some ta)
    (hb : lex b = some tb) : lex (a ++ ' ' :: b) = some (ta ++ tb) :=
  lex_append (.inl rfl) ha (lex_space hb)

lemma lex_spaced {a w b : Str} {ta tw tb} (ha : lex a = some ta)
    (hw : lex w = some tw) (hb : lex b = some tb) : lex (spaced a w b) = some (ta ++ (tw ++ tb)) :=
  lex_append_space ha (lex_append_space hw hb)

lemma lex_append_rparen {a : Str} (ha : lex a = some ta) :
    lex (a ++ [')']) = some (ta ++ [.sym .rparen]) :=
  lex_append (.inr (.inr (.inl rfl))) ha rfl

lemma lex_lparen (hs : lex s = some ts) : lex ('(' :: s) = some (.sym .lparen :: ts) := by
  have hc : stepStart '(' = some ([.sym .lparen], .start) := rfl
  exact lex_cons hc hs

lemma lex_append_lparen {a s : Str} (ha : lex a = some ta)
    (hs : lex s = some ts) : lex (a ++ '(' :: s) = some (ta ++ .sym .lparen :: ts) :=
  lex_append (.inr (.inl rfl)) ha (lex_lparen hs)

lemma lex_append_comma {a s : Str} (ha : lex a = some ta)
    (hs : lex s = some ts) : lex (a ++ ',' :: s) = some (ta ++ .sym .comma :: ts) := by
  have hc : stepStart ',' = some ([.sym .comma], .start) := rfl
  exact lex_append (.inr (.inr (.inr (.inl rfl)))) ha (lex_cons hc hs)

lemma lex_append_dot {a s : Str} (ha : lex a = some ta)
    (hs : lex s = some ts) : lex (a ++ '.' :: s) = some (ta ++ .sym .dot :: ts) := by
  have hc : stepStart '.' = some ([.sym .dot], .start) := rfl
  exact lex_append (.inr (.inr (.inr (.inr (.inr rfl))))) ha (lex_cons hc hs)

lemma lex_append_colons {a s : Str} (ha : lex a = some ta)
    (hs : lex s = some ts) : lex (a ++ ':' :: ':' :: s) = some (ta ++ .sym .cast :: ts) := by
  have hs' : lexFrom .start s = some ts := hs
  have hcolons : lex (':' :: ':' :: s) = some (.sym .cast :: ts) := by
    simp [lex, lexFrom, step, stepStart, hs']
  exact lex_append (.inr (.inr (.inr (.inr (.inl rfl))))) ha hcolons

@[simp] lemma lex_cmpOp (op : CmpOp) : lex op.text = some [.sym op.sym] := by
  cases op <;> rfl

@[simp] lemma lex_arithOp (op : ArithOp) : lex op.text = some [.sym op.sym] := by
  cases op <;> rfl

@[simp] lemma lex_kw (k : Kw) : lex k.text = some [.kw k] := by
  cases k <;> rfl

/-! ## Boolean connectives and relations -/

section Rules

variable {a b c : Str} {ea eb ec : Expr}

lemma Spells.parens (h : Spells a ea) : Spells (parens a) (.paren ea) :=
  ⟨lex_lparen (lex_append_rparen h.lexes), h.wf⟩

lemma Spells.or (ha : Spells a ea) (hb : Spells b eb) (hp : 1 ≤ eb.prec) :
    Spells (spaced a "OR" b) (.or ea eb) :=
  ⟨lex_spaced ha.lexes (lex_kw .or) hb.lexes, ha.wf, hb.wf, hp⟩

lemma Spells.and (ha : Spells a ea) (hb : Spells b eb) (hpa : 1 ≤ ea.prec)
    (hpb : 2 ≤ eb.prec) : Spells (spaced a "AND" b) (.and ea eb) :=
  ⟨lex_spaced ha.lexes (lex_kw .and) hb.lexes, ha.wf, hb.wf, hpa, hpb⟩

lemma Spells.not (ha : Spells a ea) (hp : 2 ≤ ea.prec) : Spells ("NOT" ++ ' ' :: a) (.not ea) :=
  ⟨lex_append_space (lex_kw .not) ha.lexes, ha.wf, hp⟩

lemma Spells.cmp (op : CmpOp) (ha : Spells a ea) (hb : Spells b eb) (hpa : 4 ≤ ea.prec)
    (hpb : 4 ≤ eb.prec) : Spells (spaced a op.text b) (.cmp op ea eb) :=
  ⟨lex_spaced ha.lexes (lex_cmpOp op) hb.lexes, ha.wf, hb.wf, hpa, hpb⟩

lemma Spells.arith (op : ArithOp) (ha : Spells a ea) (hb : Spells b eb)
    (hpa : op.prec ≤ ea.prec) (hpb : op.prec < eb.prec) :
    Spells (spaced a op.text b) (.arith op ea eb) :=
  ⟨lex_spaced ha.lexes (lex_arithOp op) hb.lexes, ha.wf, hb.wf, hpa, hpb⟩

/-- `NOT ` where a relation is negated. -/
def negText (neg : Bool) : Str := if neg then "NOT ".toList else []

lemma lex_negText {ts} (neg : Bool) (hs : lex s = some ts) :
    lex (negText neg ++ s) = some (negTokens neg ++ ts) := by
  cases neg with
  | false => exact hs
  | true => exact lex_append_space (lex_kw .not) hs

lemma Spells.between (neg : Bool) (ha : Spells a ea) (hb : Spells b eb) (hc : Spells c ec)
    (hpa : 4 ≤ ea.prec) (hpb : 4 ≤ eb.prec) (hpc : 4 ≤ ec.prec) :
    Spells (a ++ ' ' :: (negText neg ++ ("BETWEEN" ++ ' ' :: spaced b "AND" c)))
      (.between neg ea eb ec) := by
  refine ⟨?_, ha.wf, hb.wf, hc.wf, hpa, hpb, hpc⟩
  exact lex_append_space ha.lexes
    (lex_negText neg (lex_append_space (lex_kw .between)
      (lex_spaced hb.lexes (lex_kw .and) hc.lexes)))

lemma Spells.like (neg ci : Bool) (ha : Spells a ea) (hb : Spells b eb)
    (hpa : 4 ≤ ea.prec) (hpb : 4 ≤ eb.prec) :
    Spells (a ++ ' ' :: (negText neg ++ ((likeKw ci).text ++ ' ' :: b)))
      (.like neg ci ea eb) := by
  refine ⟨?_, ha.wf, hb.wf, hpa, hpb⟩
  exact lex_append_space ha.lexes (lex_negText neg (lex_append_space (lex_kw (likeKw ci)) hb.lexes))

lemma Spells.isNull (neg : Bool) (ha : Spells a ea) (hp : 4 ≤ ea.prec) :
    Spells (a ++ ' ' :: ("IS" ++ ' ' :: (negText neg ++ "NULL")))
      (.isNull neg ea) := by
  refine ⟨?_, ha.wf, hp⟩
  exact lex_append_space ha.lexes (lex_append_space (lex_kw .is) (lex_negText neg (lex_kw .null)))

/-! ## Primaries -/

variable {ty w : Str}

lemma Spells.cast (ha : Spells a ea) (hp : 6 ≤ ea.prec)
    (hty : lex ty = some [.word ty]) : Spells (a ++ ':' :: ':' :: ty) (.cast ea ty) :=
  ⟨lex_append_colons ha.lexes hty, ha.wf, hp⟩

lemma Spells.castFn (ha : Spells a ea) (hty : lex ty = some [.word ty]) :
    Spells ("CAST" ++ Sql.parens (spaced a "AS" ty)) (.castFn ea ty) := by
  refine ⟨?_, ha.wf⟩
  have hin := lex_append_rparen (lex_spaced ha.lexes (lex_kw .as) hty)
  have htokens : (Expr.castFn ea ty).tokens =
      [.kw .cast] ++ .sym .lparen :: (ea.tokens ++ ([.kw .as] ++ [.word ty]) ++ [.sym .rparen]) := by
    simp [Expr.tokens]
  rw [htokens]
  exact lex_append_lparen (lex_kw .cast) hin

lemma Spells.col (name : Str) : Spells (quotedText name) (.col .none name) :=
  ⟨lex_quoted name, trivial⟩

lemma Spells.colWord (hw : lex w = some [.word w]) (name : Str) :
    Spells (w ++ '.' :: quotedText name) (.col (.word w) name) :=
  ⟨lex_append_dot hw (lex_quoted name), trivial⟩

lemma Spells.colQuoted (table name : Str) :
    Spells (quotedText table ++ '.' :: quotedText name) (.col (.quoted table) name) :=
  ⟨lex_append_dot (lex_quoted table) (lex_quoted name), trivial⟩

lemma Spells.param (n : Nat) : Spells (paramText n) (.param n) :=
  ⟨lex_param n, trivial⟩

lemma Spells.int (n : Int) : Spells (decimal n) (.int n) :=
  ⟨lex_decimal n, trivial⟩

lemma Spells.str (hs : '\'' ∉ s) : Spells (strText s) (.str s) :=
  ⟨lex_str hs, trivial⟩

lemma Spells.const (hw : lex w = some [.word w]) : Spells w (.const w) :=
  ⟨hw, trivial⟩

end Rules

/-! ## Lists -/

/-- Arguments from a list of possibly named expressions. -/
def Args.ofList : List (Option Str × Expr) → Args
  | [] => .nil
  | (name, e) :: rest => .cons name e (Args.ofList rest)

/-- The text of one argument. -/
structure SpellsArg (s : Str) (arg : Option Str × Expr) : Prop where
  lexes : lex s = some (nameTokens arg.1 ++ arg.2.tokens)
  wf : arg.2.WF

variable {s : Str} {e : Expr} {sep : Str} {items : List Str} {args : List (Option Str × Expr)}

lemma Spells.arg (h : Spells s e) : SpellsArg s (none, e) :=
  ⟨h.lexes, h.wf⟩

/-- `name := e`. -/
lemma Spells.namedArg {w s : Str} (hw : lex w = some [.word w]) (h : Spells s e) :
    SpellsArg (spaced w ":=" s) (some w, e) := by
  have hassign : lex ":=" = some [.sym .assign] := rfl
  exact ⟨lex_spaced hw hassign h.lexes, h.wf⟩

/-- Separators between arguments. -/
def IsSep (sep : Str) : Prop := sep = "," ∨ sep = ", "

variable {a : Str} {bs : List Str} {es : List Expr}

lemma lex_append_sep {s sep : Str} {ta ts} (hsep : IsSep sep)
    (ha : lex a = some ta) (hs : lex s = some ts) :
    lex (a ++ sep ++ s) = some (ta ++ .sym .comma :: ts) := by
  rcases hsep with rfl | rfl
  · simpa using lex_append_comma ha hs
  · simpa using lex_append_comma ha (lex_space hs)

/-- A non-empty list of arguments, with its closing parenthesis. -/
lemma lex_args (hsep : IsSep sep) (h : List.Forall₂ SpellsArg items args)
    (hne : items ≠ []) : lex (join sep items ++ [')']) = some (Args.ofList args).tokens := by
  induction h with
  | nil => exact absurd rfl hne
  | cons hx hxs ih =>
    rename_i x arg xs args'
    by_cases hnil : xs = []
    · subst hnil
      cases hxs
      simpa [Args.ofList, Args.tokens] using lex_append_rparen hx.lexes
    · have htl := ih hnil
      have hargs : args' ≠ [] := by
        rintro rfl
        cases hxs
        exact hnil rfl
      have happ := lex_append_sep hsep hx.lexes htl
      obtain ⟨⟨name, e⟩, more, rfl⟩ := List.exists_cons_of_ne_nil hargs
      rw [join_cons sep x hnil]
      simpa [Args.ofList, Args.tokens, List.append_assoc] using happ

lemma wf_ofList (h : List.Forall₂ SpellsArg items args) : (Args.ofList args).WF := by
  induction h with
  | nil => trivial
  | cons hx _ ih => exact ⟨hx.wf, ih⟩

lemma Spells.call {f sep : Str} (hf : lex f = some [.word f]) (hsep : IsSep sep)
    (h : List.Forall₂ SpellsArg items args) (hne : items ≠ []) :
    Spells (callText f sep items) (.call f (Args.ofList args)) :=
  ⟨lex_append_lparen hf (lex_args hsep h hne), wf_ofList h⟩

lemma Spells.inList (neg : Bool) {ea : Expr} (ha : Spells a ea)
    (hp : 4 ≤ ea.prec) (hsep : IsSep sep) (h : List.Forall₂ SpellsArg items args)
    (hne : items ≠ []) :
    Spells (a ++ ' ' :: (negText neg ++ ("IN" ++ ' ' :: listText sep items)))
      (.inList neg ea (Args.ofList args)) := by
  refine ⟨?_, ha.wf, wf_ofList h, hp, ?_⟩
  · exact lex_append_space ha.lexes
      (lex_negText neg (lex_append_space (lex_kw .in_) (lex_lparen (lex_args hsep h hne))))
  · cases h with
    | nil => exact absurd rfl hne
    | cons => simp [Args.ofList]

/-! ## Conjunctions and disjunctions of several texts -/

/-- A conjunction of several trees, as `a AND b AND c` is read. -/
def conj : Expr → List Expr → Expr
  | e, [] => e
  | e, e' :: es => conj (.and e e') es

/-- A disjunction of several trees, as `a OR b OR c` is read. -/
def disj : Expr → List Expr → Expr
  | e, [] => e
  | e, e' :: es => disj (.or e e') es

/-- Texts joined by ` AND ` spell the conjunction of their trees, provided no
one of them is an open disjunction or conjunction. -/
lemma Spells.conj (ha : Spells a e) (hp : 1 ≤ e.prec) (h : List.Forall₂ (fun b e => Spells b e ∧ 2 ≤ e.prec) bs es) :
    Spells (join " AND " (a :: bs)) (conj e es) := by
  induction h generalizing a e with
  | nil => exact ha
  | cons hb hbs ih =>
    rename_i b eb bs' es'
    have hstep := ih (ha.and hb.1 hp hb.2) (by simp [Expr.prec])
    have htext : join " AND " (a :: b :: bs') =
        join " AND " (spaced a "AND" b :: bs') := by
      cases bs' <;> simp [join, spaced]
    rw [htext]
    exact hstep

/-- Texts joined by ` OR ` spell the disjunction of their trees. -/
lemma Spells.disj (ha : Spells a e) (h : List.Forall₂ (fun b e => Spells b e ∧ 1 ≤ e.prec) bs es) :
    Spells (join " OR " (a :: bs)) (disj e es) := by
  induction h generalizing a e with
  | nil => exact ha
  | cons hb hbs ih =>
    rename_i b eb bs' es'
    have hstep := ih (ha.or hb.1 hb.2)
    have htext : join " OR " (a :: b :: bs') =
        join " OR " (spaced a "OR" b :: bs') := by
      cases bs' <;> simp [join, spaced]
    rw [htext]
    exact hstep

end NeoServer.Sql
