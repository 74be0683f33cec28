import NeoServer.Filter.Complete
import NeoServer.Filter.Reparse

/-!
# Filter.Mirror — comparisons and their mirror images

The right operand of a comparison is any scalar expression; the left one is read by
another path, which takes a parenthesis for a boolean group and an identifier for a
property name. `LeftOk` says which expressions that path reads: a comparison is
accepted exactly when its left operand is one of them (`accepts_compare_iff`), so a
comparison and its mirror image are accepted together exactly when both operands are
or neither is. Where both are accepted they select the same rows.
-/

namespace NeoServer.Filter

open Prog NeoServer.Sql List

variable {F : Type}

/-! ## Scalar expressions and comparisons as texts -/

/-- A text the compiler accepts on the right-hand side of a comparison. -/
def ScalarText (fl : FloatOps F) (opt : Options) (e : Str) : Prop :=
  ∃ x st, parseScalarExpr fl (treeEmitter F) opt.normalize ((tokenize e).length + 1) 0
    ⟨tokenize e, opt.start, []⟩ = .ok (x, st) ∧ st.cur.typ = .eof

/-- `e₁ op e₂`. -/
def comparison (e₁ : Str) (op : CmpOp) (e₂ : Str) : Str := spaced e₁ op.text e₂

/-- The scalar expressions the compiler reads on the left of a comparison: those that
do not start with a parenthesis and, if they start with a property name, consist of
it. -/
def leftReadable : List (TokenType × Str) → Bool
  | (.lParen, _) :: _ => false
  | (.ident, _) :: rest => rest.isEmpty
  | _ => true

def LeftOk (e : Str) : Prop := leftReadable (lexemes e) = true

variable {fl : FloatOps F} {opt : Options} {ts : List Token} {x : Scalar F}

/-! ## The tokens of a scalar expression -/

section Tokens

variable {p : Nat}

lemma ScalarG.types (h : ScalarG fl opt p ts x) : ∀ t ∈ ts, t.typ ≠ .eof ∧ t.typ ≠ .invalid := by
  induction h with
  | ident ht _ | str _ ht | num _ ht _ | bool ht | temporal _ ht => simp [ht]
  | now ht _ hlp hrp => simp [ht, hlp, hrp]
  | paren hlp _ hrp ih =>
    intro t ht
    simp only [mem_cons, mem_append, not_mem_nil, or_false] at ht
    rcases ht with rfl | ht | rfl
    · simp [hlp]
    · exact ih t ht
    · simp [hrp]
  | arith _ hop _ ihx ihy =>
    rename_i p op ts us x y _ _
    intro t ht
    simp only [mem_append, mem_cons] at ht
    rcases ht with ht | rfl | ht
    · exact ihx t ht
    · constructor <;>
        · intro h
          simp [h, scalarPrec] at hop
    · exact ihy t ht
  | mono _ _ ih => exact ih

/-- The tokens of a text derive a scalar expression. -/
def Derives (fl : FloatOps F) (opt : Options) (e : Str) (x : Scalar F) : Prop :=
  ∃ ts, ScalarG fl opt.normalize 0 ts x ∧ ts.map Token.lexeme = lexemes e

/-- What an accepted scalar expression is derived from. -/
lemma ScalarText.derives {e : Str} (h : ScalarText fl opt e) : ∃ x, Derives fl opt e x := by
  obtain ⟨x, st, hrun, heof⟩ := h
  have hrec : ScalarRec fl opt.normalize ((tokenize e).length + 1) _ := parseScalarExpr_runs _
  obtain ⟨⟨pre, -, hc, hg⟩, -⟩ :=
    (hrec 0 ⟨tokenize e, opt.start, []⟩ (by omega) (by simp)).of_ok hrun
  refine ⟨x, pre, hg, ?_⟩
  have htoks : tokenize e = pre ++ st.toks := hc.toks
  have hlex := tokenize_lexemes e
  rw [htoks, map_append] at hlex
  -- what is left starts at the end of the input
  cases hst : st.toks with
  | nil =>
    rw [hst, map_nil, append_nil] at hlex
    have hmem : (TokenType.eof, ([] : Str)) ∈ pre.map Token.lexeme := by
      rw [hlex]
      simp
    obtain ⟨t, ht, htlex⟩ := mem_map.mp hmem
    exact absurd (congrArg Prod.fst htlex) (hg.types t ht).1
  | cons t =>
    have ht : t.typ = .eof := by
      simpa [PState.cur, hst] using heof
    rw [hst, map_cons] at hlex
    rcases append_eq_append_iff.mp hlex with ⟨us, hus, hvs⟩ | ⟨us, hus, hvs⟩
    · cases us with
      | nil => simpa using hus.symm
      | cons u =>
        have hu : t.lexeme = u := (cons.inj hvs).1
        have hmem : u ∈ lexemes e := by
          rw [hus]
          simp
        exact absurd (by rw [← hu]; exact ht) (lexemes_ne_eof e u hmem)
    · cases us with
      | nil => simpa using hus
      | cons =>
        have hlen := congrArg length hvs
        simp at hlen

/-- How a scalar expression starts: with a literal, with a property name that is the
whole of it or is followed by an operator, or with a group. -/
inductive Starts (fl : FloatOps F) (opt : Options) : List Token → Prop
  | literal {t : Token} {ts : List Token} :
      t.typ ∈ [.string, .number, .bool, .temporal] → Starts fl opt (t :: ts)
  | name {t : Token} : t.typ = .ident → t.raw ∈ opt.allowedProperties → Starts fl opt [t]
  | nameOp {t op : Token} {ts : List Token} {q : Nat} : t.typ = .ident →
      scalarPrec op.typ = some q → Starts fl opt (t :: op :: ts)
  | group {lp rp : Token} {ts us : List Token} {x : Scalar F} : lp.typ = .lParen →
      ScalarG fl opt 0 ts x → rp.typ = .rParen → Starts fl opt (lp :: (ts ++ rp :: us))

lemma ScalarG.starts (h : ScalarG fl opt p ts x) : Starts fl opt ts := by
  induction h with
  | ident ht hmem => exact .name ht hmem
  | str _ ht | num _ ht | bool ht | temporal _ ht | now ht => exact .literal (by simp [ht])
  | paren hlp hx hrp => exact .group hlp hx hrp
  | arith _ hop _ ihx _ =>
    -- only the left operand matters, and the operator after a property name
    cases ihx with
    | literal ht => exact .literal ht
    | name ht => exact .nameOp ht hop
    | nameOp ht hop' => exact .nameOp ht hop'
    | group hlp hx hrp =>
      rw [cons_append, append_assoc]
      exact .group hlp hx hrp
  | mono _ _ ih => exact ih

/-- A property name by itself is read as that name. -/
lemma ScalarG.eq_ident {t : Token} (h : ScalarG fl opt p ts x) (hts : ts = [t])
    (ht : t.typ = .ident) : x = .ident t.raw := by
  induction h with
  | ident =>
    cases hts
    rfl
  | str _ h | num _ h _ | bool h | temporal _ h =>
    cases hts
    rw [ht] at h
    cases h
  | now => cases hts
  | paren hlp =>
    obtain ⟨rfl, -⟩ := cons.inj hts
    rw [ht] at hlp
    cases hlp
  | arith hx =>
    have hlen := congrArg length hts
    have hpos := length_pos_of_ne_nil hx.ne_nil
    simp only [length_append, length_cons, length_nil] at hlen
    omega
  | mono _ _ ih => exact ih hts

end Tokens

/-! ## Running the parser on a comparison -/

/-- The program does not return. -/
def Fails {σ ε α : Type} (m : Prog σ ε α) (s : σ) : Prop := ∀ r, m s ≠ .ok r

variable {σ ε α β : Type} {m : Prog σ ε α} {f : α → Prog σ ε β}

lemma fails_throw (e : ε) (s : σ) : Fails (throw e : Prog σ ε α) s := by
  intro r h
  cases h

lemma fails_bind {s : σ} (h : Fails m s) : Fails (m >>= f) s := by
  intro r hr
  obtain ⟨a, s', hm, -⟩ := bind_eq_ok.mp hr
  exact h _ hm

lemma fails_bind_ok {s s' : σ} {a : α}
    (hm : m s = .ok (a, s')) (h : Fails (f a) s') : Fails (m >>= f) s := by
  intro r hr
  rw [bind_ok hm] at hr
  exact h r hr

section Run

variable {fuel n : Nat} {args : List (Lit F)}

/-- Where the left operand is followed by neither a comparison operator nor
`BETWEEN`. -/
def StopsComparison (typ : TokenType) : Prop := typ ∈ [.rParen, .plus, .minus, .mul, .div]

lemma stopsComparison_of_prec {typ} {q : Nat} (h : scalarPrec typ = some q) :
    StopsComparison typ := by
  cases typ <;> simp [scalarPrec] at h <;> simp [StopsComparison]

variable {t : Token} {us : List Token} {st : PState (Lit F)} {op eof : Token} {y : Scalar F}

variable {pOr : P (Lit F) (Pred F)} {a : Pred F}

lemma comparisonTail_fails (ht : StopsComparison t.typ)
    (left : Scalar F) : Fails (comparisonTail fl (treeEmitter F) opt fuel left) ⟨t :: ts, n, args⟩ := by
  obtain ⟨typ, raw, pos⟩ := t
  simp only [StopsComparison, mem_cons, not_mem_nil, or_false] at ht
  refine fails_bind_ok (m := cur) rfl (fails_bind_ok (m := peek) rfl ?_)
  rcases ht with rfl | rfl | rfl | rfl | rfl <;>
    · intro r h
      cases h

lemma propertyTail_fails (ht : StopsComparison t.typ) (prop : Str) :
    Fails (propertyTail fl (treeEmitter F) opt fuel prop false) ⟨t :: ts, n, args⟩ := by
  have htail : Fails (comparisonTail fl (treeEmitter F) opt fuel (.ident prop)) ⟨t :: ts, n, args⟩ :=
    comparisonTail_fails ht _
  obtain ⟨typ, raw, pos⟩ := t
  simp only [StopsComparison, mem_cons, not_mem_nil, or_false] at ht
  refine fails_bind_ok (m := cur) rfl ?_
  rcases ht with rfl | rfl | rfl | rfl | rfl <;> exact htail

lemma parseComparison_name_fails {t u : Token} (ht : t.typ = .ident)
    (hu : StopsComparison u.typ) :
    Fails (parseComparison fl (treeEmitter F) opt fuel) ⟨t :: u :: ts, n, args⟩ := by
  have htail : Fails (propertyTail fl (treeEmitter F) opt fuel t.raw false) ⟨u :: ts, n, args⟩ :=
    propertyTail_fails hu _
  have hnot : u.typ ≠ .not := by
    intro h
    simp [StopsComparison, h] at hu
  refine fails_bind_ok (m := cur) rfl ?_
  intro r hr
  have hr := (congrFun (if_pos ht) _).symm.trans hr
  obtain ⟨a, st₁, hallowed, hr⟩ := bind_eq_ok.mp hr
  have hst₁ : st₁ = ⟨t :: u :: ts, n, args⟩ := by
    unfold assertAllowedProperty at hallowed
    split at hallowed
    · exact (Prod.mk.inj (Except.ok.inj hallowed)).2.symm
    · cases hallowed
  subst hst₁
  have hr := (bind_ok (m := bump) rfl).symm.trans hr
  have hr := (bind_ok (m := cur) rfl).symm.trans hr
  have hr := (bind_ok (m := peek) rfl).symm.trans hr
  exact htail r ((congrFun (if_neg fun h => hnot h.1) _).symm.trans hr)

/-- A literal and what follows it, up to a parenthesis, is no comparison. -/
lemma parseComparison_literal_fails {t rp : Token} {us}
    (ht : t.typ ≠ .ident) (hx : ScalarG fl opt 0 (t :: ts) x) (hrp : rp.typ = .rParen)
    (hfuel : (t :: ts ++ rp :: us).length < fuel) :
    Fails (parseComparison fl (treeEmitter F) opt fuel) ⟨t :: ts ++ rp :: us, n, args⟩ := by
  have hread := parseScalarExpr_reads hx n args hfuel (by simp [hrp]) (by simp [hrp, scalarPrec])
  refine fails_bind_ok (m := cur) rfl ?_
  intro r hr
  have hr := (congrFun (if_neg ht) _).symm.trans hr
  rw [bind_ok hread] at hr
  exact comparisonTail_fails (by simp [StopsComparison, hrp]) _ r hr

/-- A predicate that does not start with a spatial operator is a comparison. -/
lemma parsePrimary_comparison (ht : st.cur.typ ∉ [.lParen, .spatialOp, .dWithin]) :
    parsePrimary fl (treeEmitter F) opt fuel pOr st =
      parseComparison fl (treeEmitter F) opt fuel st := by
  simp only [mem_cons, not_mem_nil, or_false, not_or] at ht
  refine (bind_ok (m := cur) rfl).trans ((congrFun (if_neg ht.1) _).trans ?_)
  unfold parsePredicate
  rw [bind_ok (show cur st = .ok (st.cur, st) from rfl)]
  cases hc : st.cur.typ <;> first | rfl | simp [hc] at ht

lemma parsePrimary_fails (ht : st.cur.typ ∉ [.lParen, .spatialOp, .dWithin])
    (h : Fails (parseComparison fl (treeEmitter F) opt fuel) st) :
    Fails (parsePrimary fl (treeEmitter F) opt fuel pOr) st := by
  intro r hr
  rw [parsePrimary_comparison ht] at hr
  exact h r hr

lemma parseOr_fails {k : Nat} (hnot : st.cur.typ ≠ .not) (h : ∀ j, k = j + 1 →
      Fails (parsePrimary fl (treeEmitter F) opt fuel (parseOr fl (treeEmitter F) opt fuel j)) st) :
    Fails (parseOr fl (treeEmitter F) opt fuel k) st := by
  cases k with
  | zero => exact fails_throw _ _
  | succ k =>
    refine fails_bind (fails_bind ?_)
    cases hfuel : fuel with
    | zero => exact fails_throw _ _
    | succ =>
      refine fails_bind_ok (m := cur) rfl ?_
      intro r hr
      have hr := (congrFun (if_neg hnot) _).symm.trans hr
      rw [← hfuel] at hr
      exact h k rfl r hr

lemma exists_cons_of_headD {rest} (h : (rest.headD eofToken).typ = .rParen) :
    ∃ t us, rest = t :: us ∧ t.typ = .rParen := by
  cases rest with
  | nil => cases h
  | cons t us => exact ⟨t, us, rfl, h⟩

/-- A scalar expression is no boolean expression: the parser stops in it, or at the
parenthesis after it. -/
lemma parseOr_scalar_fails : ∀ (k : Nat) {n : Nat} {args} {ts rest}
    {x}, ScalarG fl opt 0 ts x → (ts ++ rest).length < fuel →
    leftReadable (ts.map Token.lexeme) = false ∨ (rest.headD eofToken).typ = .rParen →
    Fails (parseOr fl (treeEmitter F) opt fuel k) ⟨ts ++ rest, n, args⟩ := by
  intro k
  induction k with
  | zero => exact fun _ _ _ => fails_throw _ _
  | succ k ih =>
    intro n args ts rest x hx hfuel hbad
    -- the parser does not take the first token for `NOT` or a spatial operator
    have hhead : ∀ {t : Token} {us : List Token}, ts = t :: us →
        t.typ ∈ [.string, .number, .bool, .temporal, .ident] →
        Fails (parseComparison fl (treeEmitter F) opt fuel) ⟨ts ++ rest, n, args⟩ →
        Fails (parseOr fl (treeEmitter F) opt fuel (k + 1)) ⟨ts ++ rest, n, args⟩ := by
      rintro t us rfl ht hfails
      have hcur : (⟨t :: us ++ rest, n, args⟩ : PState (Lit F)).cur = t := rfl
      refine parseOr_fails ?_ fun j _ => parsePrimary_fails ?_ hfails
      · rw [hcur]
        rintro h
        simp [h] at ht
      · rw [hcur]
        intro h
        simp only [mem_cons, not_mem_nil, or_false] at h
        rcases h with h | h | h <;> simp [h] at ht
    cases hx.starts with
    | literal ht =>
      rename_i t us
      have hleft : leftReadable ((t :: us).map Token.lexeme) = true := by
        simp only [mem_cons, not_mem_nil, or_false] at ht
        obtain ⟨typ, raw, pos⟩ := t
        rcases ht with rfl | rfl | rfl | rfl <;> rfl
      obtain ⟨rp, vs, rfl, hrp⟩ := exists_cons_of_headD (hbad.resolve_left (by rw [hleft]; decide))
      refine hhead rfl (mem_append_left [TokenType.ident] ht) ?_
      refine parseComparison_literal_fails ?_ hx hrp hfuel
      intro h
      simp [h] at ht
    | name ht hmem =>
      rename_i t
      obtain ⟨typ, raw, pos⟩ := t
      cases ht
      obtain ⟨rp, vs, rfl, hrp⟩ :=
        exists_cons_of_headD (hbad.resolve_left (by simp [leftReadable, Token.lexeme]))
      exact hhead rfl (by simp) (parseComparison_name_fails rfl (by simp [StopsComparison, hrp]))
    | nameOp ht hop =>
      exact hhead rfl (by simp [ht]) (parseComparison_name_fails ht (stopsComparison_of_prec hop))
    | group hlp hin hrp =>
      rename_i lp rp us vs y
      have htoks : lp :: (us ++ rp :: vs) ++ rest = lp :: (us ++ rp :: (vs ++ rest)) := by simp
      have hcur : (⟨lp :: (us ++ rp :: (vs ++ rest)), n, args⟩ : PState (Lit F)).cur = lp := rfl
      rw [htoks] at hfuel ⊢
      refine parseOr_fails (by rw [hcur, hlp]; decide) ?_
      rintro j hj r hr
      obtain rfl : k = j := Nat.succ.inj hj
      have hr := (bind_ok (m := cur) rfl).symm.trans hr
      have hr := (congrFun (if_pos hlp) _).symm.trans hr
      have hr := (bind_ok (m := bump) rfl).symm.trans hr
      -- the group is read as a boolean expression, which it is not
      simp only [length_cons] at hfuel
      have hfails : Fails (parseOr fl (treeEmitter F) opt fuel k)
          ⟨us ++ rp :: (vs ++ rest), n, args⟩ := ih hin (by omega) (.inr hrp)
      exact fails_bind hfails r hr

/-- A comparison operator and its right operand, up to the end. -/
lemma comparisonTail_ok (hop : IsCmp op.typ)
    (hy : ScalarG fl opt 0 us y) (heof : eof.typ = .eof) (hfuel : (us ++ [eof]).length < fuel)
    (left : Scalar F) :
    comparisonTail fl (treeEmitter F) opt fuel left ⟨op :: (us ++ [eof]), n, args⟩ =
      .ok (.compare left op.raw (y.renumber n), .after [eof] n args y) := by
  have hread := parseScalarExpr_reads hy n args hfuel (by simp [heof]) (by simp [heof, scalarPrec])
  obtain ⟨typ, raw, pos⟩ := op
  simp only [IsCmp, mem_cons, not_mem_nil, or_false] at hop
  refine (bind_ok (m := cur) rfl).trans ((bind_ok (m := peek) rfl).trans ?_)
  rcases hop with rfl | rfl | rfl | rfl | rfl | rfl <;>
    exact (bind_ok (m := bump) rfl).trans (bind_ok hread)

lemma propertyTail_cmp (hop : IsCmp op.typ) (prop : Str) :
    propertyTail fl (treeEmitter F) opt fuel prop false ⟨op :: us, n, args⟩ =
      comparisonTail fl (treeEmitter F) opt fuel (.ident prop) ⟨op :: us, n, args⟩ := by
  obtain ⟨typ, raw, pos⟩ := op
  simp only [IsCmp, mem_cons, not_mem_nil, or_false] at hop
  rcases hop with rfl | rfl | rfl | rfl | rfl | rfl <;> rfl

/-- The left operand a comparison is read with. -/
lemma parseComparison_ok {us} {y}
    (hleft : leftReadable (ts.map Token.lexeme) = true) (hx : ScalarG fl opt 0 ts x)
    (hop : IsCmp op.typ) (hy : ScalarG fl opt 0 us y) (heof : eof.typ = .eof)
    (hfuel : (ts ++ op :: (us ++ [eof])).length < fuel) :
    parseComparison fl (treeEmitter F) opt fuel ⟨ts ++ op :: (us ++ [eof]), n, args⟩ =
      .ok (.compare (x.renumber n) op.raw (y.renumber (n + x.lits.length)),
        .after [eof] (n + x.lits.length) (args ++ x.lits.map Prod.snd) y) := by
  have hnot : op.typ ≠ .lParen ∧ op.typ ≠ .not ∧ scalarPrec op.typ = none := by
    simp only [IsCmp, mem_cons, not_mem_nil, or_false] at hop
    rcases hop with h | h | h | h | h | h <;> simp [h, scalarPrec]
  have hlen : (us ++ [eof]).length < fuel := by
    simp only [length_append, length_cons] at hfuel ⊢
    omega
  have htail : ∀ left, comparisonTail fl (treeEmitter F) opt fuel left
      (.after (op :: (us ++ [eof])) n args x) = _ := comparisonTail_ok hop hy heof hlen
  have hread := parseScalarExpr_reads hx n args hfuel hnot.1 hnot.2.2
  cases hx.starts with
  | literal ht =>
    rename_i t ts
    have hident : t.typ ≠ .ident := by
      intro h
      simp [h] at ht
    refine (bind_ok (m := cur) rfl).trans ((congrFun (if_neg hident) _).trans ?_)
    exact (bind_ok hread).trans (htail _)
  | name ht hmem =>
    rename_i t
    obtain rfl := hx.eq_ident rfl ht
    have hallowed : assertAllowedProperty opt t.raw ⟨[t] ++ op :: (us ++ [eof]), n, args⟩ =
        .ok ((), ⟨[t] ++ op :: (us ++ [eof]), n, args⟩) := congrFun (if_pos hmem) _
    simp only [PState.after, Scalar.lits, length_nil, Nat.add_zero, map_nil, append_nil] at htail ⊢
    have hprop := (propertyTail_cmp hop t.raw).trans (htail (.ident t.raw))
    refine (bind_ok (m := cur) rfl).trans ((congrFun (if_pos ht) _).trans ?_)
    refine (bind_ok hallowed).trans ((bind_ok (m := bump) rfl).trans
      ((bind_ok (m := cur) rfl).trans ((bind_ok (m := peek) rfl).trans ?_)))
    exact (congrFun (if_neg fun h => hnot.2.1 h.1) _).trans hprop
  | nameOp ht => simp [leftReadable, Token.lexeme, ht] at hleft
  | group hlp => simp [leftReadable, Token.lexeme, hlp] at hleft

lemma connectLoop_eof {t} (ht : t ≠ .eof) {combine : Pred F → Pred F → Pred F} {operand} {j : Nat}
    (heof : st.cur.typ = .eof) : connectLoop t combine operand (j + 1) a st = .ok (a, st) := by
  refine (bind_ok (m := cur) rfl).trans ?_
  exact congrFun (if_neg fun h => ht (h.symm.trans heof)) _

/-- A predicate that reaches the end is the whole boolean expression. -/
lemma parseAll_of_primary {st st'} (hnot : st.cur.typ ≠ .not)
    (heof : st'.cur.typ = .eof) (hfuel : 0 < fuel)
    (h : ∀ pOr, parsePrimary fl (treeEmitter F) opt fuel pOr st = .ok (a, st')) :
    parseAll fl (treeEmitter F) opt fuel st = .ok (a, st') := by
  obtain ⟨k, rfl⟩ : ∃ k, fuel = k + 1 := ⟨fuel - 1, by omega⟩
  have hparseNot : ∀ pOr, parseNot fl (treeEmitter F) opt (k + 1) pOr (k + 1) st = .ok (a, st') :=
    fun pOr => (bind_ok (m := cur) rfl).trans ((congrFun (if_neg hnot) _).trans (h pOr))
  have hparseAnd : ∀ pOr, parseAnd fl (treeEmitter F) opt (k + 1) pOr st = .ok (a, st') :=
    fun pOr => (bind_ok (hparseNot pOr)).trans (connectLoop_eof (by decide) heof)
  have hparseOr : parseOr fl (treeEmitter F) opt (k + 1) (k + 1) st = .ok (a, st') :=
    (bind_ok (hparseAnd _)).trans (connectLoop_eof (by decide) heof)
  refine (bind_ok hparseOr).trans ((bind_ok (m := cur) rfl).trans ?_)
  exact congrFun (if_neg (not_not.mpr heof)) _

/-- A comparison of two scalar expressions is read exactly when its left operand is
readable on the left. -/
lemma parseAll_comparison (n : Nat) (args : List (Lit F)) {us} {y}
    (hx : ScalarG fl opt 0 ts x) (hop : IsCmp op.typ) (hy : ScalarG fl opt 0 us y)
    (heof : eof.typ = .eof) (hfuel : (ts ++ op :: (us ++ [eof])).length < fuel) :
    if leftReadable (ts.map Token.lexeme) then
      parseAll fl (treeEmitter F) opt fuel ⟨ts ++ op :: (us ++ [eof]), n, args⟩ =
        .ok (.compare (x.renumber n) op.raw (y.renumber (n + x.lits.length)),
          .after [eof] (n + x.lits.length) (args ++ x.lits.map Prod.snd) y)
    else Fails (parseAll fl (treeEmitter F) opt fuel) ⟨ts ++ op :: (us ++ [eof]), n, args⟩ := by
  split
  · rename_i hleft
    have hhead : (⟨ts ++ op :: (us ++ [eof]), n, args⟩ : PState (Lit F)).cur.typ ∈
        [.string, .number, .bool, .temporal, .ident] := by
      cases hx.starts with
      | literal ht => exact mem_append_left [TokenType.ident] ht
      | name ht | nameOp ht => simp [PState.cur, ht]
      | group hlp => simp [leftReadable, Token.lexeme, hlp] at hleft
    refine parseAll_of_primary ?_ (by simp [PState.after, PState.cur, heof]) (by omega) ?_
    · intro h
      simp [h] at hhead
    · intro pOr
      rw [parsePrimary_comparison]
      · exact parseComparison_ok hleft hx hop hy heof hfuel
      · intro h
        simp only [mem_cons, not_mem_nil, or_false] at h
        rcases h with h | h | h <;> simp [h] at hhead
  · rename_i hleft
    exact fails_bind (parseOr_scalar_fails fuel hx hfuel (.inl (by simpa using hleft)))

end Run

/-! ## Comparisons as texts -/

/-- What `TrimSpace` removes has no ASCII character that is not a space. -/
lemma spaceTail_eq {c : Char} {s s' : Str} (h : spaceTail c s = some s') :
    ∃ pre, s = pre ++ s' ∧ ∀ d ∈ pre, 0x80 ≤ d.toNat := by
  unfold spaceTail at h
  split at h
  · rename_i d s
    split at h
    · rename_i hd
      cases h
      refine ⟨[d], rfl, ?_⟩
      rcases hd with rfl | rfl <;> simp
    · cases h
  · cases h
    exact ⟨['\x9a', '\x80'], rfl, by simp⟩
  · rename_i d s
    split at h
    · rename_i hd
      cases h
      refine ⟨['\x80', d], rfl, ?_⟩
      intro c hc
      rcases mem_cons.mp hc with rfl | hc
      · decide
      rw [mem_singleton.mp hc]
      rcases hd with ⟨hd, -⟩ | rfl | rfl | rfl
      · exact hd
      all_goals decide
    · cases h
  · cases h
    exact ⟨['\x81', '\x9f'], rfl, by simp⟩
  · cases h
    exact ⟨['\x80', '\x80'], rfl, by simp⟩
  · cases h

lemma space_of_isBlankFrom : ∀ (k : Nat) (s : Str), isBlankFrom k s = true →
    ∀ c ∈ s, c.toNat < 0x80 → isSpace c = true
  | _, [], _, _, hc, _ => absurd hc (by simp)
  | 0, _ :: _, h, _, _, _ => absurd h (by simp [isBlankFrom])
  | k + 1, d :: s, h, c, hc, hlt => by
    unfold isBlankFrom at h
    split at h
    · obtain ⟨hd, hs⟩ := Bool.and_eq_true_iff.mp h
      rcases mem_cons.mp hc with rfl | hc
      · exact hd
      · exact space_of_isBlankFrom k s hs c hc hlt
    · rename_i hge
      split at h
      · rename_i s' htail
        obtain ⟨pre, rfl, hpre⟩ := spaceTail_eq htail
        rcases mem_cons.mp hc with rfl | hc
        · exact absurd hlt hge
        rcases mem_append.mp hc with hc | hc
        · have := hpre c hc
          omega
        · exact space_of_isBlankFrom k s' h c hc hlt
      · cases h

/-- The type of the token of a comparison operator. -/
def cmpType : CmpOp → TokenType
  | .eq => .eq
  | .neq => .neq
  | .lt => .lt
  | .gt => .gt
  | .le => .lte
  | .ge => .gte

lemma isCmp_cmpType (op : CmpOp) : IsCmp (cmpType op) := by
  cases op <;> simp [cmpType, IsCmp]

lemma lexemes_cmpOp (op : CmpOp) : lexemes op.text = [(cmpType op, op.text)] := by
  cases op <;> rfl

lemma isBlank_comparison (e₁ : Str) (op : CmpOp) (e₂ : Str) :
    isBlank (comparison e₁ op e₂) = false := by
  obtain ⟨c, hc, hspace, hlt⟩ : ∃ c ∈ op.text, isSpace c = false ∧ c.toNat < 0x80 := by
    cases op <;> simp [CmpOp.text, isSpace]
  cases hblank : isBlank (comparison e₁ op e₂) with
  | false => rfl
  | true =>
    have h := space_of_isBlankFrom _ _ hblank c (by simp [comparison, spaced, hc]) hlt
    rw [hspace] at h
    cases h

variable {x₁ x₂ : Scalar F} {e₁ e₂ : Str}

section Texts

lemma parse_of_not_blank {cql : Str} (h : isBlank cql = false) :
    parse fl (treeEmitter F) opt cql =
      (parseAll fl (treeEmitter F) opt.normalize ((tokenize cql).length + 1)
        ⟨tokenize cql, opt.start, []⟩).map fun r => (some r.1, r.2.args, r.2.next) := by
  simp only [parse, h, Bool.false_eq_true, if_false, Options.start]
  cases parseAll fl (treeEmitter F) opt.normalize ((tokenize cql).length + 1)
    ⟨tokenize cql, opt.normalize.startParamIndex.toNat, []⟩ <;> rfl

lemma lexemes_comparison (h₁ : Derives fl opt e₁ x₁) (op : CmpOp) :
    lexemes (comparison e₁ op e₂) = lexemes e₁ ++ (cmpType op, op.text) :: lexemes e₂ := by
  have hval₁ : ∀ l ∈ lexemes e₁, l.1 ≠ .invalid := by
    obtain ⟨ts₁, hg₁, hl₁⟩ := h₁
    intro l hl
    rw [← hl₁] at hl
    obtain ⟨t, ht, rfl⟩ := mem_map.mp hl
    exact (hg₁.types t ht).2
  have hval : ∀ l ∈ lexemes op.text, l.1 ≠ .invalid := by
    rw [lexemes_cmpOp]
    cases op <;> simp [cmpType]
  unfold comparison spaced
  rw [lexemes_append _ _ hval₁, lexemes_append _ _ hval, lexemes_cmpOp]
  rfl

/-- The tree of a comparison. -/
def cmpTree (x₁ : Scalar F) (op : CmpOp) (x₂ : Scalar F) (n : Nat) : Pred F :=
  .compare (x₁.renumber n) op.text (x₂.renumber (n + x₁.lits.length))

/-- What parsing a comparison of two scalar expressions comes to. -/
lemma parse_comparison (h₁ : Derives fl opt e₁ x₁) (h₂ : Derives fl opt e₂ x₂)
    (op : CmpOp) :
    if leftReadable (lexemes e₁) then
      parse fl (treeEmitter F) opt (comparison e₁ op e₂) =
        .ok (some (cmpTree x₁ op x₂ opt.start), (x₁.lits ++ x₂.lits).map Prod.snd,
          opt.start + (x₁.lits ++ x₂.lits).length)
    else ∀ r, parse fl (treeEmitter F) opt (comparison e₁ op e₂) ≠ .ok r := by
  -- the tokens of the operands stand in the input, only elsewhere
  have hlex := tokenize_lexemes (comparison e₁ op e₂)
  rw [lexemes_comparison h₁] at hlex
  obtain ⟨ts₁, hg₁, hl₁⟩ := h₁
  obtain ⟨ts₂, hg₂, hl₂⟩ := h₂
  rw [← hl₁, ← hl₂, append_assoc] at hlex
  obtain ⟨us₁, more, htoks, hus₁, hmore⟩ := map_eq_append_iff.mp hlex
  obtain ⟨opTok, more', rfl, hopTok, hmore'⟩ := map_eq_cons_iff.mp hmore
  obtain ⟨us₂, last, rfl, hus₂, hlast⟩ := map_eq_append_iff.mp hmore'
  obtain ⟨eof, rfl, heof⟩ := map_eq_singleton_iff.mp hlast
  have htyp : opTok.typ = cmpType op := congrArg Prod.fst hopTok
  have hraw : opTok.raw = op.text := congrArg Prod.snd hopTok
  have hall := parseAll_comparison opt.start [] (hg₁.congr hus₁) (htyp ▸ isCmp_cmpType op)
    (hg₂.congr hus₂) (congrArg Prod.fst heof) (Nat.lt_succ_self _)
  rw [hus₁, hl₁] at hall
  rw [parse_of_not_blank (isBlank_comparison e₁ op e₂), htoks]
  split at hall
  · rw [if_pos (by assumption), hall, hraw]
    simp [cmpTree, PState.after, Nat.add_assoc, Except.map]
  rw [if_neg (by assumption)]
  intro r hr
  cases hp : parseAll fl (treeEmitter F) opt.normalize
      ((us₁ ++ opTok :: (us₂ ++ [eof])).length + 1)
      ⟨us₁ ++ opTok :: (us₂ ++ [eof]), opt.start, []⟩ with
  | error e =>
    rw [hp] at hr
    cases hr
  | ok out => exact hall out hp

end Texts

/-! ## The rows a comparison selects -/

section Rows

variable {Row Val : Type} (E : Engine Row Val) (row : Row) (opt : Options)

variable {env env' : Nat → Val}

/-- The value of a scalar expression depends on the values bound to its literals, not
on their numbers. -/
lemma eval_renumber (x : Scalar F) (n n' : Nat)
    (h : ∀ i, i < x.lits.length → env (n + i) = env' (n' + i)) :
    ((x.renumber n).emit (sqlEmitter (postgisSql opt))).eval E env row =
      ((x.renumber n').emit (sqlEmitter (postgisSql opt))).eval E env' row := by
  induction x generalizing n n' with
  | ident | bool | now => rfl
  | lit =>
    have h₀ : env n = env' n' := h 0 (by simp [Scalar.lits])
    exact h₀
  | temporal =>
    have h₀ : env n = env' n' := h 0 (by simp [Scalar.lits])
    exact congrArg (E.cast _) h₀
  | arith left op right ihl ihr =>
    have hleft := ihl n n' fun i hi => h i (by simp [Scalar.lits]; omega)
    have hright := ihr (n + left.lits.length) (n' + left.lits.length) fun i hi => by
      have := h (left.lits.length + i) (by simp [Scalar.lits]; omega)
      simpa [Nat.add_assoc] using this
    exact congrArg₂ (E.arith (arithOfRaw op)) hleft hright
  | paren inner ih => exact ih n n' h

/-- A comparison and its mirror image are true of the same rows. -/
lemma truth_cmpTree_mirror (x₁ x₂ : Scalar F) (op : CmpOp) (n : Nat)
    (h₁ : ∀ i, i < x₁.lits.length → env (n + i) = env' (n + x₂.lits.length + i))
    (h₂ : ∀ i, i < x₂.lits.length → env (n + x₁.lits.length + i) = env' (n + i)) :
    ((cmpTree x₁ op x₂ n).emit (sqlEmitter (postgisSql opt))).truth E env row =
      ((cmpTree x₂ op.mirror x₁ n).emit (sqlEmitter (postgisSql opt))).truth E env' row := by
  have hx₁ := eval_renumber E row opt x₁ _ _ h₁
  have hx₂ := eval_renumber E row opt x₂ _ _ h₂
  have hcmp : ∀ (e : Nat → Val) (a b : Scalar F) (o : CmpOp) (m : Nat),
      ((cmpTree a o b m).emit (sqlEmitter (postgisSql opt))).truth E e row =
        E.cmp o (((a.renumber m).emit (sqlEmitter (postgisSql opt))).eval E e row)
          (((b.renumber (m + a.lits.length)).emit (sqlEmitter (postgisSql opt))).eval E e row) := by
    intro e a b o m
    have htree : (cmpTree a o b m).emit (sqlEmitter (postgisSql opt)) =
        .cmp (cmpOfRaw o.text) ((a.renumber m).emit (sqlEmitter (postgisSql opt)))
          ((b.renumber (m + a.lits.length)).emit (sqlEmitter (postgisSql opt))) := rfl
    rw [htree, truth_cmp, cmpOfRaw_cmpOp]
  rw [hcmp, hcmp, hx₁, hx₂, E.cmp_mirror]

end Rows

/-! ## The mirror law -/

/-- A comparison is accepted exactly when its mirror image is, and where both are
accepted they hold of the same rows. -/
def MirrorLaw (fl : FloatOps F) (opt : Options) (e₁ : Str) (op : CmpOp) (e₂ : Str) : Prop :=
  ((∃ r, compile fl (comparison e₁ op e₂) opt = .ok r) ↔
    ∃ r, compile fl (comparison e₂ op.mirror e₁) opt = .ok r) ∧
  ∀ r r', compile fl (comparison e₁ op e₂) opt = .ok r →
    compile fl (comparison e₂ op.mirror e₁) opt = .ok r' →
    ∀ (Row Val : Type) (E : Engine Row Val) (bind : Arg F → Val) (env env' : Nat → Val) (row : Row),
      Binds bind opt.start r.args env → Binds bind opt.start r'.args env' →
      (Holds E env row r.sql ↔ Holds E env' row r'.sql)

section Law

variable {Val : Type} {r : Compiled F} {bind : Arg F → Val} {start i : Nat}
  {l₁ l₂ : List (Nat × Lit F)} {arg : Lit F → Arg F} {env : Nat → Val}

/-- What compiling a comparison of two scalar expressions comes to. -/
lemma compile_comparison (h₁ : Derives fl opt e₁ x₁) (h₂ : Derives fl opt e₂ x₂)
    (op : CmpOp) :
    compile fl (comparison e₁ op e₂) opt = .ok r ↔
      LeftOk e₁ ∧ r = ⟨(cmpTree x₁ op x₂ opt.start).emit (postgis opt.normalize).emitter,
        ((x₁.lits ++ x₂.lits).map Prod.snd).map (postgis opt.normalize).emitter.arg,
        opt.start + (x₁.lits ++ x₂.lits).length⟩ := by
  have hparse := parse_comparison h₁ h₂ op
  unfold compile compileWith LeftOk
  rw [parse_emit]
  split at hparse
  · rename_i hleft
    rw [hparse]
    constructor
    · intro h
      exact ⟨hleft, (Except.ok.inj h).symm⟩
    · rintro ⟨-, rfl⟩
      rfl
  · rename_i hleft
    constructor
    · intro h
      cases hp : parse fl (treeEmitter F) opt (comparison e₁ op e₂) with
      | error =>
        rw [hp] at h
        cases h
      | ok out => exact absurd hp (hparse out)
    · rintro ⟨h, -⟩
      exact absurd h hleft

/-- A comparison of two scalar expressions is accepted exactly when its left operand
can stand on the left. -/
lemma accepts_comparison_iff (h₁ : ScalarText fl opt e₁) (h₂ : ScalarText fl opt e₂)
    (op : CmpOp) : (∃ r, compile fl (comparison e₁ op e₂) opt = .ok r) ↔ LeftOk e₁ := by
  obtain ⟨x₁, h₁⟩ := h₁.derives
  obtain ⟨x₂, h₂⟩ := h₂.derives
  constructor
  · rintro ⟨r, hr⟩
    exact ((compile_comparison h₁ h₂ op).mp hr).1
  · intro hleft
    exact ⟨_, (compile_comparison h₁ h₂ op).mpr ⟨hleft, rfl⟩⟩

/-- The text of a compiled comparison holds where its tree is true. -/
lemma holds_comparison (h₁ : Derives fl opt e₁ x₁) (h₂ : Derives fl opt e₂ x₂)
    (op : CmpOp) (hr : compile fl (comparison e₁ op e₂) opt = .ok r)
    {Row : Type} (E : Engine Row Val) (env : Nat → Val) (row : Row) :
    Holds E env row r.sql ↔ ((cmpTree x₁ op x₂ opt.start).emit
      (sqlEmitter (postgisSql opt.normalize))).truth E env row = some true := by
  obtain ⟨hleft, rfl⟩ := (compile_comparison h₁ h₂ op).mp hr
  have hparse := parse_comparison h₁ h₂ op
  rw [if_pos (show leftReadable (lexemes e₁) = true from hleft)] at hparse
  have hout := parse_grammar fl opt (comparison e₁ op e₂)
  rw [hparse] at hout
  exact (hout.2.spells (postgisSql opt.normalize)).1.holds_iff E env row

/-- The literals of the first operand are bound first. -/
lemma binds_left (h : Binds bind start (((l₁ ++ l₂).map Prod.snd).map arg) env)
    (hi : i < l₁.length) : env (start + i) = bind (arg (l₁.get ⟨i, hi⟩).2) :=
  h i _ (by simp [getElem?_append_left, hi])

lemma binds_right (h : Binds bind start (((l₁ ++ l₂).map Prod.snd).map arg) env)
    (hi : i < l₂.length) : env (start + l₁.length + i) = bind (arg (l₂.get ⟨i, hi⟩).2) := by
  rw [Nat.add_assoc]
  exact h (l₁.length + i) _ (by simp [hi])

end Law

/-- The mirror law holds for two scalar expressions exactly when both can stand on the
left of a comparison or neither can. -/
theorem mirrorLaw_iff (fl : FloatOps F) (opt : Options) (e₁ e₂ : Str) (op : CmpOp)
    (h₁ : ScalarText fl opt e₁) (h₂ : ScalarText fl opt e₂) :
    MirrorLaw fl opt e₁ op e₂ ↔ (LeftOk e₁ ↔ LeftOk e₂) := by
  unfold MirrorLaw
  rw [accepts_comparison_iff h₁ h₂, accepts_comparison_iff h₂ h₁]
  constructor
  · exact fun h => h.1
  · intro hboth
    refine ⟨hboth, ?_⟩
    intro r r' hr hr' Row Val E bind env env' row hbind hbind'
    obtain ⟨x₁, h₁⟩ := h₁.derives
    obtain ⟨x₂, h₂⟩ := h₂.derives
    rw [holds_comparison h₁ h₂ op hr, holds_comparison h₂ h₁ op.mirror hr']
    obtain ⟨-, rfl⟩ := (compile_comparison h₁ h₂ op).mp hr
    obtain ⟨-, rfl⟩ := (compile_comparison h₂ h₁ op.mirror).mp hr'
    rw [truth_cmpTree_mirror E row opt.normalize x₁ x₂ op opt.start]
    · -- the literals of the first operand are bound first here and last there
      intro i hi
      rw [binds_left hbind hi, binds_right hbind' hi]
    · intro i hi
      rw [binds_right hbind hi, binds_left hbind' hi]

lemma scalarText_literal : ScalarText sampleFloats sampleOptions "'x'" := by
  have htoks : tokenize "'x'" = [⟨.string, "x", 0⟩, ⟨.eof, [], 3⟩] := rfl
  unfold ScalarText
  rw [htoks]
  exact ⟨_, _, rfl, rfl⟩

lemma scalarText_group : ScalarText sampleFloats sampleOptions "(a)" := by
  have htoks : tokenize "(a)" = [⟨.lParen, "(", 0⟩, ⟨.ident, "a", 1⟩,
      ⟨.rParen, ")", 2⟩, ⟨.eof, [], 3⟩] := rfl
  unfold ScalarText
  rw [htoks]
  exact ⟨_, _, rfl, rfl⟩

theorem mirrorLaw_iff_sample :
    ScalarText sampleFloats sampleOptions "'x'" ∧
    ScalarText sampleFloats sampleOptions "(a)" ∧
    (MirrorLaw sampleFloats sampleOptions "'x'" .eq "(a)" ↔
      (LeftOk "'x'" ↔ LeftOk "(a)")) :=
  ⟨scalarText_literal, scalarText_group,
    mirrorLaw_iff sampleFloats sampleOptions "'x'" "(a)" .eq scalarText_literal
      scalarText_group⟩

/-- Both operands are scalar expressions, but the group is read only on the right. -/
theorem comparison_group_rejected :
    ScalarText sampleFloats sampleOptions "(a)" ∧
    ScalarText sampleFloats sampleOptions "'x'" ∧
    compile sampleFloats "'x' = (a)" sampleOptions =
      .ok ⟨"$1 = (\"a\")", [.str "x"], 2⟩ ∧
    compile sampleFloats "(a) = 'x'" sampleOptions = .error (.expectedComparison 2) := by
  refine ⟨scalarText_group, scalarText_literal, ?_, ?_⟩
  · have htoks : tokenize "'x' = (a)" =
        [⟨.string, "x", 0⟩, ⟨.eq, "=", 4⟩, ⟨.lParen, "(", 6⟩,
          ⟨.ident, "a", 7⟩, ⟨.rParen, ")", 8⟩, ⟨.eof, [], 9⟩] := rfl
    unfold compile compileWith parse
    rw [htoks]
    rfl
  · have htoks : tokenize "(a) = 'x'" =
        [⟨.lParen, "(", 0⟩, ⟨.ident, "a", 1⟩, ⟨.rParen, ")", 2⟩,
          ⟨.eq, "=", 4⟩, ⟨.string, "x", 6⟩, ⟨.eof, [], 9⟩] := rfl
    unfold compile compileWith parse
    rw [htoks]
    rfl

end NeoServer.Filter
