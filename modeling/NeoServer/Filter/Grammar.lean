import NeoServer.Filter.Tree

/-!
# Filter.Grammar — the CQL2 grammar, and that the compiler follows it

The grammar is stated as derivations of token sequences, independent of the
parser: `ScalarG p ts x` (operators that bind at least as tightly as `p`),
`GeomG`, `PredG` and `BoolG p ts t` (`OR` 0, `AND` 1, `NOT` 2, primaries 3).

The main result is `parse_grammar`: what the compiler accepts is derived by the
grammar, its placeholders are numbered from left to right and its arguments are
the literals in that order; and the bound of the model is never reached.
-/

namespace NeoServer.Filter

open Prog List

variable {F : Type}

/-! ## Literals of a tree, from left to right -/

def Scalar.lits : Scalar F → List (Nat × Lit F)
  | .ident _ => []
  | .lit n l => [(n, l)]
  | .bool _ => []
  | .now => []
  | .temporal n val => [(n, .temporal val)]
  | .arith left _ right => left.lits ++ right.lits
  | .paren inner => inner.lits

def Geom.lits : Geom → List (Nat × Lit F)
  | .prop _ => []
  | .lit n wkt => [(n, .wkt wkt)]

def Pred.lits : Pred F → List (Nat × Lit F)
  | .spatial _ g₁ g₂ => g₁.lits ++ g₂.lits
  | .dwithin g₁ g₂ n dist => g₁.lits ++ (g₂.lits ++ [(n, .num dist)])
  | .like _ _ _ n pattern => [(n, .str pattern)]
  | .isNull _ _ => []
  | .inList _ _ items => items
  | .between _ left lo hi => left.lits ++ (lo.lits ++ hi.lits)
  | .compare left _ right => left.lits ++ right.lits
  | .or left right => left.lits ++ right.lits
  | .and left right => left.lits ++ right.lits
  | .not inner => inner.lits
  | .paren inner => inner.lits

/-! ## The grammar -/

section Grammar

variable (fl : FloatOps F) (opt : Options)

/-- Scalar expressions. -/
inductive ScalarG : Nat → List Token → Scalar F → Prop
  | ident {t : Token} : t.typ = .ident → t.raw ∈ opt.allowedProperties →
      ScalarG 30 [t] (.ident t.raw)
  | str {t : Token} (n : Nat) : t.typ = .string → ScalarG 30 [t] (.lit n (.str t.raw))
  | num {t : Token} (n : Nat) {x} : t.typ = .number → fl.parse t.raw = some x →
      ScalarG 30 [t] (.lit n (.num x))
  | bool {t : Token} : t.typ = .bool → ScalarG 30 [t] (.bool (toLower t.raw))
  | now {t lp rp : Token} : t.typ = .temporal → toUpper t.raw = "NOW" →
      lp.typ = .lParen → rp.typ = .rParen → ScalarG 30 [t, lp, rp] .now
  | temporal {t : Token} (n : Nat) : t.typ = .temporal → ScalarG 30 [t] (.temporal n t.raw)
  | paren {lp rp : Token} {ts x} : lp.typ = .lParen → ScalarG 0 ts x →
      rp.typ = .rParen → ScalarG 30 (lp :: (ts ++ [rp])) (.paren x)
  | arith {p} {op : Token} {ts us x y} : ScalarG p ts x →
      scalarPrec op.typ = some p → ScalarG (p + 1) us y →
      ScalarG p (ts ++ op :: us) (.arith x op.raw y)
  | mono {p q} {ts : List Token} {x} : q ≤ p → ScalarG p ts x → ScalarG q ts x

/-- Keywords that start a geometry literal. -/
def IsGeomKw (typ : TokenType) : Prop :=
  typ ∈ [.point, .lineString, .polygon, .multiPoint, .multiLineString, .multiPolygon,
    .geometryCollection]

/-- The tokens after the keyword of an envelope. -/
def envelopeTypes : List TokenType :=
  [.lParen, .number, .comma, .number, .comma, .number, .comma, .number, .rParen]

/-- The texts of the numbers among some tokens. -/
def numbers (ts : List Token) : List Str := (ts.filter fun t => t.typ = .number).map Token.raw

/-- Geometry expressions. -/
inductive GeomG : List Token → Geom → Prop
  | prop {t : Token} : t.typ = .ident → t.raw = opt.geometryProperty → GeomG [t] (.prop t.raw)
  | envelope {kw : Token} {ts : List Token} (n : Nat) {wkt} : kw.typ = .envelope →
      ts.map Token.typ = envelopeTypes → envelopeWKT fl (numbers ts) = .ok wkt →
      GeomG (kw :: ts) (.lit n wkt)
  | literal {kw : Token} {ts} (n : Nat) {body} : IsGeomKw kw.typ →
      wktLoop 0 false ts = some (body, []) → GeomG (kw :: ts) (.lit n (toUpper kw.raw ++ body))

/-- The literals of an `IN` list. -/
inductive ItemsG : List Token → List (Nat × Lit F) → Prop
  | str {t : Token} (n : Nat) : t.typ = .string → ItemsG [t] [(n, .str t.raw)]
  | num {t : Token} (n : Nat) {x} : t.typ = .number → fl.parse t.raw = some x →
      ItemsG [t] [(n, .num x)]
  | cons {ts us} {c : Token} {i is} :
      ItemsG ts [i] → c.typ = .comma → ItemsG us is → ItemsG (ts ++ c :: us) (i :: is)

/-- `NOT` before a relation. -/
inductive NegG : List Token → Bool → Prop
  | plain : NegG [] false
  | not {t : Token} : t.typ = .not → NegG [t] true

/-- Comparison operators. -/
def IsCmp (typ : TokenType) : Prop := typ ∈ [.eq, .neq, .lt, .gt, .lte, .gte]

/-- Predicates. -/
inductive PredG : List Token → Pred F → Prop
  | spatial {op lp c rp : Token} {ts us g₁ g₂} : op.typ = .spatialOp →
      lp.typ = .lParen → GeomG fl opt ts g₁ → c.typ = .comma → GeomG fl opt us g₂ →
      rp.typ = .rParen →
      PredG (op :: lp :: (ts ++ c :: (us ++ [rp]))) (.spatial (toLower op.raw) g₁ g₂)
  | dwithin {op lp c₁ c₂ d rp : Token} {ts us g₁ g₂} (n : Nat) {x} :
      op.typ = .dWithin → lp.typ = .lParen → GeomG fl opt ts g₁ → c₁.typ = .comma →
      GeomG fl opt us g₂ → c₂.typ = .comma → d.typ = .number → fl.parse d.raw = some x →
      rp.typ = .rParen →
      PredG (op :: lp :: (ts ++ c₁ :: (us ++ [c₂, d, rp]))) (.dwithin g₁ g₂ n x)
  | like {t kw s : Token} {ns neg} (n : Nat) : t.typ = .ident →
      t.raw ∈ opt.allowedProperties → NegG ns neg → kw.typ = .like ∨ kw.typ = .iLike →
      s.typ = .string → PredG (t :: (ns ++ [kw, s])) (.like neg (kw.typ = .iLike) t.raw n s.raw)
  | isNull {t is null : Token} {ns neg} : t.typ = .ident →
      t.raw ∈ opt.allowedProperties → is.typ = .is → NegG ns neg → null.typ = .null →
      PredG (t :: is :: (ns ++ [null])) (.isNull neg t.raw)
  | inList {t kw lp rp : Token} {ns ts neg items} :
      t.typ = .ident → t.raw ∈ opt.allowedProperties → NegG ns neg → kw.typ = .in_ →
      lp.typ = .lParen → ItemsG fl ts items → rp.typ = .rParen →
      PredG (t :: (ns ++ kw :: lp :: (ts ++ [rp]))) (.inList neg t.raw items)
  | between {kw c : Token} {ts ns us vs neg x lo hi} :
      ScalarG fl opt 0 ts x → NegG ns neg → kw.typ = .between → ScalarG fl opt 0 us lo →
      c.typ = .and → ScalarG fl opt 0 vs hi →
      PredG (ts ++ (ns ++ kw :: (us ++ c :: vs))) (.between neg x lo hi)
  | compare {op : Token} {ts us x y} : ScalarG fl opt 0 ts x →
      IsCmp op.typ → ScalarG fl opt 0 us y → PredG (ts ++ op :: us) (.compare x op.raw y)

/-- Boolean expressions. -/
inductive BoolG : Nat → List Token → Pred F → Prop
  | or {ts us} {op : Token} {a b} : BoolG 0 ts a → op.typ = .or →
      BoolG 1 us b → BoolG 0 (ts ++ op :: us) (.or a b)
  | and {ts us} {op : Token} {a b} : BoolG 1 ts a → op.typ = .and →
      BoolG 2 us b → BoolG 1 (ts ++ op :: us) (.and a b)
  | not {ts} {op : Token} {a} : op.typ = .not → BoolG 2 ts a →
      BoolG 2 (op :: ts) (.not a)
  | paren {ts} {lp rp : Token} {a} : lp.typ = .lParen → BoolG 0 ts a →
      rp.typ = .rParen → BoolG 3 (lp :: (ts ++ [rp])) (.paren a)
  | pred {ts a} : PredG fl opt ts a → BoolG 3 ts a
  | mono {p q ts a} : q ≤ p → BoolG p ts a → BoolG q ts a

end Grammar

/-! ## What a parsing step does to the state -/

/-- From `st` to `st'` the tokens `pre` were read and the literals `lits` were
bound, numbered from the next placeholder on. -/
structure Consumes (st st' : PState (Lit F)) (pre : List Token) (lits : List (Nat × Lit F)) :
    Prop where
  toks : st.toks = pre ++ st'.toks
  next : st'.next = st.next + lits.length
  args : st'.args = st.args ++ lits.map Prod.snd
  nums : lits.map Prod.fst = range' st.next lits.length

lemma Consumes.refl (st : PState (Lit F)) : Consumes st st [] [] :=
  ⟨rfl, rfl, by simp, rfl⟩

lemma Consumes.trans {st st₁ st₂ : PState (Lit F)} {pre₁ pre₂ : List Token}
    {l₁ l₂ : List (Nat × Lit F)} (h₁ : Consumes st st₁ pre₁ l₁) (h₂ : Consumes st₁ st₂ pre₂ l₂) :
    Consumes st st₂ (pre₁ ++ pre₂) (l₁ ++ l₂) where
  toks := by rw [h₁.toks, h₂.toks, append_assoc]
  next := by rw [h₂.next, h₁.next, length_append, Nat.add_assoc]
  args := by rw [h₂.args, h₁.args, map_append, append_assoc]
  nums := by
    rw [map_append, h₁.nums, h₂.nums, h₁.next, length_append, range'_append_1]

variable {lits : List (Nat × Lit F)}

variable {st st' : PState (Lit F)} {pre : List Token} {t : Token}

/-- The tokens left are fewer by those read. -/
lemma Consumes.length
    (h : Consumes st st' pre lits) : st.toks.length = pre.length + st'.toks.length := by
  rw [h.toks, length_append]

lemma Consumes.length_cons
    (h : Consumes st st' (t :: pre) lits) : st.toks.length = pre.length + 1 + st'.toks.length := h.length

lemma Consumes.length_lt
    (h : Consumes st st' pre lits) (hne : pre ≠ []) : st'.toks.length < st.toks.length := by
  have hlen := h.length
  have hpos := length_pos_of_ne_nil hne
  omega

/-- A step that reads no token leaves the current one in place. -/
lemma Consumes.cur_eq (h : Consumes st st' [] lits) : st'.cur = st.cur := by
  have htoks : st.toks = st'.toks := h.toks
  simp [PState.cur, htoks]

/-- After one token is read, the one looked ahead to is the current one. -/
lemma Consumes.cur_eq_peek (h : Consumes st st' [t] lits) : st'.cur = st.peek := by
  have htail : st.toks.tail = st'.toks := congrArg tail h.toks
  simp [PState.cur, PState.peek, htail]

lemma toks_eq_cons (h : st.cur.typ ≠ .eof) : st.toks = st.cur :: st.toks.tail := by
  cases htoks : st.toks with
  | nil => simp [PState.cur, htoks, eofToken] at h
  | cons => simp [PState.cur, htoks]

/-- An error of the source, not of the model. -/
def NotFuel (e : ParseError) : Prop := e ≠ .outOfFuel

section Steps

variable {α : Type} {st : PState (Lit F)} {Q : α → PState (Lit F) → Prop}

lemma runs_cur {f} (h : Runs NotFuel (f st.cur) st Q) : Runs NotFuel (cur >>= f) st Q :=
  runs_bind h

lemma runs_peek {f} (h : Runs NotFuel (f st.peek) st Q) : Runs NotFuel (peek >>= f) st Q :=
  runs_bind h

lemma runs_bump {f} {t} (hcur : st.cur.typ = t) (ht : decide (t = .eof) = false)
    (h : ∀ st', Consumes st st' [st.cur] [] → Runs NotFuel (f ()) st' Q) :
    Runs NotFuel (bump >>= f) st Q := by
  refine runs_bind (h _ ⟨?_, rfl, ?_, rfl⟩)
  · exact toks_eq_cons (hcur ▸ of_decide_eq_false ht)
  · simp

lemma runs_expect {t} {f} (ht : decide (t = .eof) = false)
    (h : ∀ tok st', tok.typ = t → Consumes st st' [tok] [] → Runs NotFuel (f tok) st' Q) :
    Runs NotFuel (expect t >>= f) st Q := by
  refine runs_bind (runs_cur ?_)
  by_cases hc : st.cur.typ = t
  · rw [if_neg (not_not.mpr hc)]
    exact runs_bump hc ht fun st' hst' => runs_pure (h st.cur st' hc hst')
  · rw [if_pos hc]
    exact runs_throw nofun

lemma runs_addArg (l : Lit F) {f}
    (h : ∀ st', Consumes st st' [] [(st.next, l)] → Runs NotFuel (f st.next) st' Q) :
    Runs NotFuel (addArg l >>= f) st Q := by
  refine runs_bind (h _ ⟨rfl, rfl, ?_, rfl⟩)
  simp

/-- The current token is bound as a literal and read. -/
lemma runs_literal (l : Lit F) {f : Nat → Unit → P (Lit F) α} {t} (hcur : st.cur.typ = t)
    (ht : decide (t = .eof) = false)
    (h : ∀ st', Consumes st st' [st.cur] [(st.next, l)] → Runs NotFuel (f st.next ()) st' Q) :
    Runs NotFuel (addArg l >>= fun n => bump >>= f n) st Q := by
  refine runs_addArg l fun st₁ h₁ => ?_
  rw [← h₁.cur_eq] at hcur h
  exact runs_bump hcur ht fun st₂ h₂ => h st₂ (h₁.trans h₂)

lemma runs_parseFloat (fl : FloatOps F) {raw : Str} {e f} (he : NotFuel e)
    (h : ∀ x, fl.parse raw = some x → Runs NotFuel (f x) st Q) :
    Runs NotFuel (parseFloat fl raw e >>= f) st Q := runs_bind (runs_ofOption he h)

lemma runs_assertAllowedProperty (opt : Options) {name : Str} {f}
    (h : name ∈ opt.allowedProperties → Runs NotFuel (f ()) st Q) :
    Runs NotFuel (assertAllowedProperty opt name >>= f) st Q := by
  refine runs_bind ?_
  unfold assertAllowedProperty
  split
  · rename_i hmem
    exact runs_pure (h hmem)
  · exact runs_throw nofun

end Steps

/-! ## Scalar expressions follow the grammar -/

section Scalars

variable (fl : FloatOps F) (opt : Options)

/-- A scalar expression `x` was read, of operators that bind at least as tightly
as `m`. -/
def ReadScalar (m : Nat) (st : PState (Lit F)) (x : Scalar F) (st' : PState (Lit F)) : Prop :=
  ∃ pre, pre ≠ [] ∧ Consumes st st' pre x.lits ∧ ScalarG fl opt m pre x

/-- `rec` reads scalar expressions from fewer than `k` tokens, up to an operator
that binds less tightly. -/
def ScalarRec (k : Nat) (rec : Nat → P (Lit F) (Scalar F)) : Prop :=
  ∀ (m : Nat) (st : PState (Lit F)), m ≤ 30 → st.toks.length < k →
    Runs NotFuel (rec m) st fun x st' =>
      ReadScalar fl opt m st x st' ∧ ∀ q, scalarPrec st'.cur.typ = some q → q < m

variable {fl opt}

variable {m k : Nat} {st : PState (Lit F)} {rec : Nat → P (Lit F) (Scalar F)}

lemma ReadScalar.length_lt {st'} {x}
    (h : ReadScalar fl opt m st x st') : st'.toks.length < st.toks.length := by
  obtain ⟨pre, hne, hc, -⟩ := h
  exact hc.length_lt hne

lemma parseScalarPrimary_runs (hrec : ScalarRec fl opt k rec) (hst : st.toks.length < k + 1) :
    Runs NotFuel (parseScalarPrimary fl (treeEmitter F) opt rec) st
      (ReadScalar fl opt 30 st) := by
  refine runs_cur ?_
  split
  · rename_i hc
    refine runs_bump hc rfl fun st₁ h₁ => ?_
    have hlen := h₁.length_cons
    refine runs_seq (hrec 0 st₁ (by omega) (by omega)) ?_
    rintro x st₂ ⟨⟨pre, -, h₂, hx⟩, -⟩
    refine runs_expect rfl fun rp st₃ hrp h₃ => runs_pure ?_
    refine ⟨_, ?_, ?_, .paren hc hx hrp⟩
    · simp
    · simpa [treeEmitter, Scalar.lits] using (h₁.trans h₂).trans h₃
  · rename_i hc
    refine runs_assertAllowedProperty opt fun hmem => ?_
    refine runs_bump hc rfl fun st₁ h₁ => runs_pure ?_
    exact ⟨_, by simp, h₁, .ident hc hmem⟩
  · rename_i hc
    refine runs_literal _ hc rfl fun st₁ h₁ => runs_pure ?_
    exact ⟨_, by simp, h₁, .str _ hc⟩
  · rename_i hc
    refine runs_parseFloat fl (by simp [NotFuel]) fun v hv => ?_
    refine runs_literal _ hc rfl fun st₁ h₁ => runs_pure ?_
    exact ⟨_, by simp, h₁, .num _ hc hv⟩
  · rename_i hc
    refine runs_bump hc rfl fun st₁ h₁ => runs_pure ?_
    exact ⟨_, by simp, h₁, .bool hc⟩
  · rename_i hc
    refine runs_peek ?_
    split
    · rename_i hnow
      refine runs_bump hc rfl fun st₁ h₁ => ?_
      have hcur := h₁.cur_eq_peek
      refine runs_bump (hcur ▸ hnow.2) rfl fun st₂ h₂ => ?_
      refine runs_expect rfl fun rp st₃ hrp h₃ => runs_pure ?_
      refine ⟨_, ?_, (h₁.trans h₂).trans h₃, .now hc hnow.1 ?_ hrp⟩
      · simp
      · rw [hcur]
        exact hnow.2
    · refine runs_literal _ hc rfl fun st₁ h₁ => runs_pure ?_
      exact ⟨_, by simp, h₁, .temporal _ hc⟩
  · exact runs_throw nofun

/-- The loop over the operators. `left` has been read since `st₀` and binds at
level `l`; the operator that may follow binds no tighter than that. -/
lemma scalarLoop_runs (hrec : ScalarRec fl opt k rec) (hm : m ≤ 30) {st₀ : PState (Lit F)} :
    ∀ (j : Nat) (left : Scalar F) (st : PState (Lit F)) (l : Nat),
      ReadScalar fl opt l st₀ left st → m ≤ l →
      (∀ q, scalarPrec st.cur.typ = some q → q ≤ l) →
      st.toks.length < j → st.toks.length < k + 1 →
      Runs NotFuel (scalarLoop (treeEmitter F) rec m j left) st fun x st' =>
        ReadScalar fl opt m st₀ x st' ∧ ∀ q, scalarPrec st'.cur.typ = some q → q < m
  | 0, _, _, _, _, _, _, hj, _ => absurd hj (by omega)
  | j + 1, left, st, l, hleft, hml, hop, hj, hk => by
    obtain ⟨pre, hne, hc, hg⟩ := hleft
    refine runs_cur ?_
    cases hprec : scalarPrec st.cur.typ with
    | none =>
      refine runs_pure ⟨⟨pre, hne, hc, .mono hml hg⟩, ?_⟩
      intro q hq
      rw [hprec] at hq
      cases hq
    | some prec =>
      have hle : prec ≤ l := hop prec hprec
      by_cases hlt : prec < m
      · dsimp only
        rw [if_pos hlt]
        refine runs_pure ⟨⟨pre, hne, hc, .mono hml hg⟩, ?_⟩
        intro q hq
        rw [hprec] at hq
        cases hq
        exact hlt
      · dsimp only
        rw [if_neg hlt]
        have hprec30 : prec + 1 ≤ 30 := by
          revert hprec
          cases st.cur.typ <;> simp [scalarPrec] <;> omega
        have hne_eof : st.cur.typ ≠ .eof := by
          intro h
          simp [h, scalarPrec] at hprec
        refine runs_bump rfl (decide_eq_false hne_eof) fun st₁ h₁ => ?_
        have hlen := h₁.length_cons
        refine runs_seq (hrec (prec + 1) st₁ hprec30 (by omega)) ?_
        rintro right st₂ ⟨⟨pre₂, hne₂, h₂, hg₂⟩, hstop⟩
        have hlen₂ := h₂.length
        refine scalarLoop_runs hrec hm j (.arith left st.cur.raw right) st₂ prec
          ⟨pre ++ st.cur :: pre₂, by simp, ?_, ?_⟩ (by omega) ?_ (by omega) (by omega)
        · simpa [Scalar.lits] using (hc.trans h₁).trans h₂
        · exact .arith (.mono hle hg) hprec hg₂
        · intro q hq
          exact Nat.lt_succ_iff.mp (hstop q hq)

lemma parseScalarExpr_runs : ∀ k : Nat,
    ScalarRec fl opt k (parseScalarExpr fl (treeEmitter F) opt k)
  | 0 => fun _ _ _ h => absurd h (by omega)
  | k + 1 => by
    intro m st hm hst
    refine runs_seq (parseScalarPrimary_runs (parseScalarExpr_runs k) hst) ?_
    intro left st₁ hleft
    have hlt := hleft.length_lt
    refine scalarLoop_runs (parseScalarExpr_runs k) hm k left st₁ 30 hleft hm ?_ (by omega)
      (by omega)
    intro q hq
    revert hq
    cases st₁.cur.typ <;> simp [scalarPrec] <;> omega

end Scalars

variable {fl : FloatOps F} {opt : Options}

/-! ## Geometry expressions follow the grammar -/

section Geometry

/-- A geometry expression `g` was read. -/
def ReadGeom (fl : FloatOps F) (opt : Options) (st : PState (Lit F)) (g : Geom)
    (st' : PState (Lit F)) : Prop :=
  ∃ pre, Consumes st st' pre g.lits ∧ GeomG fl opt pre g

/-- Types of `k` coordinates with commas between them. -/
def coordTypes : Nat → List TokenType
  | 0 => []
  | 1 => [.number]
  | k + 2 => .number :: .comma :: coordTypes (k + 1)

lemma envelopeCoords_runs : ∀ (k : Nat) (st : PState (Lit F)),
    Runs NotFuel (envelopeCoords k) st fun cs st' =>
      ∃ pre, Consumes st st' pre [] ∧ pre.map Token.typ = coordTypes k ∧ numbers pre = cs
  | 0, st => runs_pure ⟨[], .refl st, rfl, rfl⟩
  | k + 1, st => by
    refine runs_cur ?_
    by_cases hc : st.cur.typ = .number
    · rw [if_neg (not_not.mpr hc)]
      refine runs_bump hc rfl fun st₁ h₁ => ?_
      by_cases hk : k = 0
      · rw [if_pos hk]
        subst hk
        exact runs_pure ⟨_, h₁, by simp [hc, coordTypes], by simp [numbers, hc]⟩
      · rw [if_neg hk]
        refine runs_expect rfl fun c st₂ hcomma h₂ => ?_
        refine runs_seq (envelopeCoords_runs k st₂) ?_
        rintro cs st₃ ⟨pre, h₃, htypes, hnums⟩
        refine runs_pure ⟨_, (h₁.trans h₂).trans h₃, ?_, ?_⟩
        · obtain ⟨j, rfl⟩ := Nat.exists_eq_succ_of_ne_zero hk
          simp [hc, hcomma, htypes, coordTypes]
        · simp [numbers, hc, hcomma] at hnums ⊢
          exact hnums
    · rw [if_pos hc]
      exact runs_throw nofun

/-- The loop over a geometry literal reads a sequence that it would read to the
end by itself. -/
lemma wktLoop_prefix : ∀ (ts : List Token) (d : Int) (b : Bool) {text : Str} {rest},
    wktLoop d b ts = some (text, rest) → ∃ pre, ts = pre ++ rest ∧ wktLoop d b pre = some (text, [])
  | [], _, _, _, _, h => by simp [wktLoop] at h
  | t :: ts, d, b, text, rest, h => by
    simp only [wktLoop] at h
    split at h
    · rename_i hd
      obtain ⟨rfl, rfl⟩ := h
      refine ⟨[t], rfl, ?_⟩
      simp only [wktLoop]
      rw [if_pos hd]
    · rename_i hd
      split at h
      · cases h
      rename_i heof
      simp only [Option.map_eq_some_iff] at h
      obtain ⟨⟨text', rest'⟩, hin, heq⟩ := h
      obtain ⟨pre, rfl, hpre⟩ := wktLoop_prefix ts _ _ hin
      cases heq
      refine ⟨t :: pre, rfl, ?_⟩
      -- the loop went on, so what follows `t` is not the end
      have hpre_ne : pre ≠ [] := by
        rintro rfl
        simp [wktLoop] at hpre
      obtain ⟨u, us, rfl⟩ := exists_cons_of_ne_nil hpre_ne
      rw [wktLoop, if_neg hd, if_neg (by simpa using heof), hpre]
      rfl

lemma wktBody_runs (st : PState (Lit F)) :
    Runs NotFuel wktBody st fun body st' =>
      ∃ pre, Consumes st st' pre [] ∧ wktLoop 0 false pre = some (body, []) := by
  refine runs_bind (runs_gets ?_)
  refine runs_bind (runs_ofOption (by simp [NotFuel]) ?_)
  rintro ⟨text, rest⟩ hloop
  obtain ⟨pre, htoks, hpre⟩ := wktLoop_prefix _ _ _ hloop
  refine runs_bind (runs_modify (runs_pure ?_))
  exact ⟨pre, ⟨htoks, rfl, by simp, rfl⟩, hpre⟩

lemma envelopeWKT_not_fuel (coords : List Str) (e : ParseError)
    (h : envelopeWKT fl coords = .error e) : NotFuel e := by
  unfold envelopeWKT at h
  split at h
  · split at h
    · cases h
      simp [NotFuel]
    · cases h
      simp [NotFuel]
    · split at h <;> cases h
  · cases h
    simp [NotFuel]

/-- A geometry literal, before its argument is bound. -/
lemma parseGeomLiteralWKT_runs (opt : Options) (st : PState (Lit F)) :
    Runs NotFuel (parseGeomLiteralWKT fl) st fun wkt st' =>
      ∃ pre, Consumes st st' pre [] ∧ ∀ n, GeomG fl opt pre (.lit n wkt) := by
  refine runs_cur ?_
  split
  · rename_i hc
    refine runs_bump hc rfl fun st₁ h₁ => ?_
    refine runs_expect rfl fun lp st₂ hlp h₂ => ?_
    refine runs_seq (envelopeCoords_runs 4 st₂) ?_
    rintro cs st₃ ⟨pre, h₃, htypes, hnums⟩
    refine runs_expect rfl fun rp st₄ hrp h₄ => ?_
    refine runs_ofExcept (envelopeWKT_not_fuel cs) fun wkt hwkt => ?_
    refine ⟨st.cur :: ([lp] ++ pre ++ [rp]), ?_, fun n => .envelope n hc ?_ ?_⟩
    · simpa using ((h₁.trans h₂).trans h₃).trans h₄
    · simp [hlp, hrp, htypes, coordTypes, envelopeTypes]
    · have hall : numbers ([lp] ++ pre ++ [rp]) = cs := by
        simp [numbers, hlp, hrp] at hnums ⊢
        exact hnums
      rw [hall]
      exact hwkt
  iterate 7
    · rename_i hc
      refine runs_bump hc rfl fun st₁ h₁ => runs_cur ?_
      split
      · exact runs_throw nofun
      · refine runs_seq (wktBody_runs st₁) ?_
        rintro body st₂ ⟨pre, h₂, hloop⟩
        exact runs_pure ⟨_, h₁.trans h₂, fun n => .literal n (by simp [IsGeomKw, hc]) hloop⟩
  · exact runs_throw nofun

lemma parseGeomExpr_runs (st : PState (Lit F)) :
    Runs NotFuel (parseGeomExpr fl (treeEmitter F) opt) st (ReadGeom fl opt st) := by
  refine runs_cur ?_
  split
  · rename_i hc
    split
    · exact runs_throw nofun
    · rename_i hname
      refine runs_bump hc rfl fun st₁ h₁ => runs_pure ?_
      exact ⟨_, h₁, .prop hc (not_not.mp hname)⟩
  · refine runs_seq (parseGeomLiteralWKT_runs opt st) ?_
    rintro wkt st₁ ⟨pre, h₁, hg⟩
    refine runs_addArg _ fun st₂ h₂ => runs_pure ?_
    exact ⟨_, h₁.trans h₂, by simpa [treeEmitter] using hg _⟩

end Geometry

/-! ## Predicates follow the grammar -/

section Predicates

/-- A predicate `a` was read. -/
def ReadPred (fl : FloatOps F) (opt : Options) (st : PState (Lit F)) (a : Pred F)
    (st' : PState (Lit F)) : Prop :=
  ∃ pre, pre ≠ [] ∧ Consumes st st' pre a.lits ∧ PredG fl opt pre a

attribute [local simp] treeEmitter Pred.lits

/-- The tokens and literals of the steps are those of the predicate. -/
lemma ReadPred.of {pre pre' : List Token} {a}
    (h : Consumes st st' pre' lits) (ha : PredG fl opt pre a)
    (hsame : pre' = pre ∧ lits = a.lits ∧ pre ≠ []) : ReadPred fl opt st a st' := by
  obtain ⟨rfl, rfl, hne⟩ := hsame
  exact ⟨_, hne, h, ha⟩

lemma inLiteral_runs (st : PState (Lit F)) :
    Runs NotFuel (inLiteral fl) st fun l st' =>
      st' = st ∧ st.cur.typ ≠ .eof ∧ ∀ n, ItemsG fl [st.cur] [(n, l)] := by
  refine runs_cur ?_
  split
  · rename_i hc
    exact runs_pure ⟨rfl, by simp [hc], fun n => .str n hc⟩
  · rename_i hc
    refine runs_parseFloat fl (by simp [NotFuel]) fun x hx => runs_pure ?_
    exact ⟨rfl, by simp [hc], fun n => .num n hc hx⟩
  · exact runs_throw nofun

lemma inItems_runs : ∀ (k : Nat) (st : PState (Lit F)), st.toks.length < k →
    Runs NotFuel (inItems fl (treeEmitter F) k) st fun items st' =>
      ∃ pre, Consumes st st' pre items ∧ ItemsG fl pre items
  | 0, _, h => absurd h (by omega)
  | k + 1, st, hk => by
    refine runs_seq (inLiteral_runs st) ?_
    rintro l st₀ ⟨rfl, heof, hitem⟩
    refine runs_literal _ rfl (decide_eq_false heof) fun st₁ h₁ => runs_cur ?_
    split
    · rename_i hcomma
      refine runs_bump hcomma rfl fun st₂ h₂ => ?_
      have hlen₁ := h₁.length_cons
      have hlen₂ := h₂.length_cons
      refine runs_seq (inItems_runs k st₂ (by omega)) ?_
      rintro rest st₃ ⟨pre, h₃, hrest⟩
      refine runs_pure ⟨_, (h₁.trans h₂).trans h₃, ?_⟩
      exact .cons (hitem st₀.next) hcomma hrest
    · exact runs_pure ⟨_, h₁, hitem st₀.next⟩

variable {ns : List Token} {neg : Bool} {fuel : Nat}

variable {st st₀ : PState (Lit F)} {left : Scalar F} {t : Token}

lemma betweenBounds_runs {ts ns : List Token} {kw : Token} (hc : Consumes st₀ st (ts ++ (ns ++ [kw])) left.lits)
    (hleft : ScalarG fl opt 0 ts left) (hneg : NegG ns neg) (hkw : kw.typ = .between)
    (hst : st.toks.length < fuel) :
    Runs NotFuel (betweenBounds fl (treeEmitter F) opt fuel neg left) st (ReadPred fl opt st₀) := by
  refine runs_seq (parseScalarExpr_runs fuel 0 st (by omega) hst) ?_
  rintro lo st₁ ⟨⟨us, hus, h₁, hlo⟩, -⟩
  refine runs_cur ?_
  split
  · exact runs_throw nofun
  rename_i hand
  have hand' : st₁.cur.typ = .and := not_not.mp hand
  refine runs_bump hand' rfl fun st₂ h₂ => ?_
  have hlen₁ := h₁.length
  have hlen₂ := h₂.length
  refine runs_seq (parseScalarExpr_runs fuel 0 st₂ (by omega) (by omega)) ?_
  rintro hi st₃ ⟨⟨vs, hvs, h₃, hhi⟩, -⟩
  exact runs_pure (.of (((hc.trans h₁).trans h₂).trans h₃)
    (.between hleft hneg hkw hlo hand' hhi) (by simp))

lemma comparisonTail_runs
    (hleft : ReadScalar fl opt 0 st₀ left st) (hst : st.toks.length < fuel) :
    Runs NotFuel (comparisonTail fl (treeEmitter F) opt fuel left) st (ReadPred fl opt st₀) := by
  obtain ⟨ts, -, hc, hg⟩ := hleft
  refine runs_cur (runs_peek ?_)
  split
  · rename_i hnb
    refine runs_bump hnb.1 rfl fun st₁ h₁ => ?_
    have hcur := h₁.cur_eq_peek
    refine runs_bump (hcur ▸ hnb.2) rfl fun st₂ h₂ => ?_
    have hlen₁ := h₁.length
    have hlen₂ := h₂.length
    rw [hcur] at h₂
    refine betweenBounds_runs ?_ hg (.not hnb.1) hnb.2 (by omega)
    simpa using (hc.trans h₁).trans h₂
  · split
    · rename_i hb
      refine runs_bump hb rfl fun st₁ h₁ => ?_
      have hlen₁ := h₁.length
      refine betweenBounds_runs ?_ hg .plain hb (by omega)
      simpa using hc.trans h₁
    · split
      iterate 6
        · rename_i hop
          refine runs_bump hop rfl fun st₁ h₁ => ?_
          have hlen₁ := h₁.length
          refine runs_seq (parseScalarExpr_runs fuel 0 st₁ (by omega) (by omega)) ?_
          rintro right st₂ ⟨⟨us, hus, h₂, hright⟩, -⟩
          exact runs_pure (.of ((hc.trans h₁).trans h₂) (.compare hg (by simp [IsCmp, hop]) hright)
            (by simp))
      · exact runs_throw nofun

lemma nullAfterIs_runs {is : Token}
    (hc : Consumes st₀ st (t :: is :: ns) []) (ht : t.typ = .ident)
    (hmem : t.raw ∈ opt.allowedProperties) (his : is.typ = .is) (hneg : NegG ns neg) :
    Runs NotFuel (nullAfterIs (treeEmitter F) neg t.raw) st (ReadPred fl opt st₀) := by
  refine runs_cur ?_
  split
  · exact runs_throw nofun
  rename_i hnull
  have hnull' : st.cur.typ = .null := not_not.mp hnull
  refine runs_bump hnull' rfl fun st₁ h₁ => runs_pure ?_
  exact .of (hc.trans h₁) (.isNull ht hmem his hneg hnull') (by simp)

/-- What follows a property name `t` and, possibly, a `NOT`. -/
lemma propertyTail_runs (hc : Consumes st₀ st (t :: ns) []) (ht : t.typ = .ident)
    (hmem : t.raw ∈ opt.allowedProperties) (hneg : NegG ns neg)
    (hnot : neg = true → st.cur.typ = .like ∨ st.cur.typ = .iLike ∨ st.cur.typ = .in_)
    (hst : st.toks.length < fuel) :
    Runs NotFuel (propertyTail fl (treeEmitter F) opt fuel t.raw neg) st
      (ReadPred fl opt st₀) := by
  refine runs_cur ?_
  split
  iterate 2
    · rename_i hkw
      refine runs_bump hkw rfl fun st₁ h₁ => runs_cur ?_
      split
      · exact runs_throw nofun
      rename_i hstr
      have hstr' : st₁.cur.typ = .string := not_not.mp hstr
      refine runs_literal _ hstr' rfl fun st₂ h₂ => runs_pure ?_
      exact .of ((hc.trans h₁).trans h₂) (.like st₁.next ht hmem hneg (by simp [hkw]) hstr')
        (by simp)
  · rename_i his
    cases hneg with
    | not => simp [his] at hnot
    | plain =>
      refine runs_bump his rfl fun st₁ h₁ => runs_cur ?_
      split
      · rename_i hn
        refine runs_bump hn rfl fun st₂ h₂ => ?_
        refine nullAfterIs_runs ?_ ht hmem his (.not hn)
        simpa using (hc.trans h₁).trans h₂
      · refine nullAfterIs_runs ?_ ht hmem his .plain
        simpa using hc.trans h₁
  · rename_i hin
    refine runs_bump hin rfl fun st₁ h₁ => ?_
    refine runs_expect rfl fun lp st₂ hlp h₂ => ?_
    have hlen₁ := h₁.length
    have hlen₂ := h₂.length
    refine runs_seq (inItems_runs fuel st₂ (by omega)) ?_
    rintro items st₃ ⟨pre, h₃, hitems⟩
    refine runs_expect rfl fun rp st₄ hrp h₄ => runs_pure ?_
    exact .of ((((hc.trans h₁).trans h₂).trans h₃).trans h₄)
      (.inList ht hmem hneg hin hlp hitems hrp) (by simp)
  · rename_i hlike hilike his hin
    cases hneg with
    | not =>
      rcases hnot rfl with h | h | h
      · exact absurd h hlike
      · exact absurd h hilike
      · exact absurd h hin
    | plain =>
      refine comparisonTail_runs ⟨[t], by simp, hc, ?_⟩ hst
      exact .mono (by omega) (.ident ht hmem)

lemma parseComparison_runs (hst : st.toks.length < fuel) :
    Runs NotFuel (parseComparison fl (treeEmitter F) opt fuel) st (ReadPred fl opt st) := by
  refine runs_cur ?_
  split
  · rename_i ht
    refine runs_assertAllowedProperty opt fun hmem => ?_
    refine runs_bump ht rfl fun st₁ h₁ => ?_
    have hlen₁ := h₁.length
    refine runs_cur (runs_peek ?_)
    split
    · rename_i hn
      refine runs_bump hn.1 rfl fun st₂ h₂ => ?_
      have hlen₂ := h₂.length
      refine propertyTail_runs (by simpa using h₁.trans h₂) ht hmem (.not hn.1) ?_ (by omega)
      intro _
      rw [h₂.cur_eq_peek]
      exact hn.2
    · exact propertyTail_runs h₁ ht hmem .plain (by simp) (by omega)
  · refine runs_seq (parseScalarExpr_runs fuel 0 st (by omega) hst) ?_
    rintro left st₁ ⟨hleft, -⟩
    have hlt := hleft.length_lt
    exact comparisonTail_runs hleft (by omega)

lemma parsePredicate_runs (hst : st.toks.length < fuel) :
    Runs NotFuel (parsePredicate fl (treeEmitter F) opt fuel) st (ReadPred fl opt st) := by
  refine runs_cur ?_
  split
  · rename_i hop
    refine runs_bump hop rfl fun st₁ h₁ => ?_
    refine runs_expect rfl fun lp st₂ hlp h₂ => ?_
    refine runs_seq (parseGeomExpr_runs st₂) ?_
    rintro g₁ st₃ ⟨ts, h₃, hg₁⟩
    refine runs_expect rfl fun c st₄ hcm h₄ => ?_
    refine runs_seq (parseGeomExpr_runs st₄) ?_
    rintro g₂ st₅ ⟨us, h₅, hg₂⟩
    refine runs_expect rfl fun rp st₆ hrp h₆ => runs_pure ?_
    exact .of (((((h₁.trans h₂).trans h₃).trans h₄).trans h₅).trans h₆)
      (.spatial hop hlp hg₁ hcm hg₂ hrp) (by simp)
  · rename_i hop
    refine runs_bump hop rfl fun st₁ h₁ => ?_
    refine runs_expect rfl fun lp st₂ hlp h₂ => ?_
    refine runs_seq (parseGeomExpr_runs st₂) ?_
    rintro g₁ st₃ ⟨ts, h₃, hg₁⟩
    refine runs_expect rfl fun c₁ st₄ hc₁ h₄ => ?_
    refine runs_seq (parseGeomExpr_runs st₄) ?_
    rintro g₂ st₅ ⟨us, h₅, hg₂⟩
    refine runs_expect rfl fun c₂ st₆ hc₂ h₆ => runs_cur ?_
    split
    · exact runs_throw nofun
    rename_i hnum
    have hnum' : st₆.cur.typ = .number := not_not.mp hnum
    refine runs_parseFloat fl (by simp [NotFuel]) fun x hx => ?_
    refine runs_literal _ hnum' rfl fun st₇ h₇ => ?_
    refine runs_expect rfl fun rp st₈ hrp h₈ => runs_pure ?_
    exact .of (((((((h₁.trans h₂).trans h₃).trans h₄).trans h₅).trans h₆).trans h₇).trans h₈)
      (.dwithin st₆.next hop hlp hg₁ hc₁ hg₂ hc₂ hnum' hx hrp) (by simp)
  · exact parseComparison_runs hst

end Predicates

/-! ## Connectives follow the grammar -/

section Connectives

/-- A boolean expression `a` was read. -/
def ReadBool (fl : FloatOps F) (opt : Options) (p : Nat) (st : PState (Lit F)) (a : Pred F)
    (st' : PState (Lit F)) : Prop :=
  ∃ pre, pre ≠ [] ∧ Consumes st st' pre a.lits ∧ BoolG fl opt p pre a

/-- `rec` reads boolean expressions from fewer than `k` tokens. -/
def BoolRec (fl : FloatOps F) (opt : Options) (p k : Nat) (rec : P (Lit F) (Pred F)) : Prop :=
  ∀ st : PState (Lit F), st.toks.length < k → Runs NotFuel rec st (ReadBool fl opt p st)

lemma ReadBool.length_lt {p : Nat} {st st'} {a : Pred F}
    (h : ReadBool fl opt p st a st') : st'.toks.length < st.toks.length := by
  obtain ⟨pre, hne, hc, -⟩ := h
  exact hc.length_lt hne

variable {fuel k : Nat} {rec : P (Lit F) (Pred F)}

lemma parsePrimary_runs (hrec : BoolRec fl opt 0 k rec) (hk : k < fuel) :
    BoolRec fl opt 3 (k + 1) (parsePrimary fl (treeEmitter F) opt fuel rec) := by
  intro st hst
  refine runs_cur ?_
  split
  · rename_i hlp
    refine runs_bump hlp rfl fun st₁ h₁ => ?_
    have hlen₁ := h₁.length_cons
    refine runs_seq (hrec st₁ (by omega)) ?_
    rintro a st₂ ⟨pre, -, h₂, ha⟩
    refine runs_expect rfl fun rp st₃ hrp h₃ => runs_pure ?_
    refine ⟨_, ?_, ?_, .paren hlp ha hrp⟩
    · simp
    · simpa [treeEmitter, Pred.lits] using (h₁.trans h₂).trans h₃
  · refine runs_mono (parsePredicate_runs (by omega)) ?_
    rintro a st₁ ⟨pre, hne, h₁, ha⟩
    exact ⟨pre, hne, h₁, .pred ha⟩

lemma parseNot_runs (hrec : BoolRec fl opt 0 k rec)
    (hk : k < fuel) : ∀ (j : Nat) (st : PState (Lit F)), st.toks.length < j →
      st.toks.length < k + 1 →
      Runs NotFuel (parseNot fl (treeEmitter F) opt fuel rec j) st (ReadBool fl opt 2 st)
  | 0, _, h, _ => absurd h (by omega)
  | j + 1, st, hj, hst => by
    refine runs_cur ?_
    split
    · rename_i hn
      refine runs_bump hn rfl fun st₁ h₁ => ?_
      have hlen₁ := h₁.length_cons
      refine runs_seq (parseNot_runs hrec hk j st₁ (by omega) (by omega)) ?_
      rintro a st₂ ⟨pre, -, h₂, ha⟩
      exact runs_pure ⟨_, by simp, h₁.trans h₂, .not hn ha⟩
    · refine runs_mono (parsePrimary_runs hrec hk st hst) ?_
      rintro a st₁ ⟨pre, hne, h₁, ha⟩
      exact ⟨pre, hne, h₁, .mono (by omega) ha⟩

section Loop

variable {p q : Nat} {t : TokenType} (ht : t ≠ .eof) {combine : Pred F → Pred F → Pred F}
  {operand : P (Lit F) (Pred F)} (hop : BoolRec fl opt q k operand)
  (hlits : ∀ a b, (combine a b).lits = a.lits ++ b.lits)
  (hstep : ∀ {ts us op a b}, BoolG fl opt p ts a → op.typ = t → BoolG fl opt q us b →
    BoolG fl opt p (ts ++ op :: us) (combine a b))

include ht hop hlits hstep

/-- The loop over `AND` or `OR`. `left` has been read since `st₀`. -/
lemma connectLoop_runs {st₀ : PState (Lit F)} :
    ∀ (j : Nat) (left : Pred F) (st : PState (Lit F)), ReadBool fl opt p st₀ left st →
      st.toks.length < j → st.toks.length < k + 1 →
      Runs NotFuel (connectLoop t combine operand j left) st (ReadBool fl opt p st₀)
  | 0, _, _, _, h, _ => absurd h (by omega)
  | j + 1, left, st, hleft, hj, hk => by
    obtain ⟨pre, hne, hc, hg⟩ := hleft
    refine runs_cur ?_
    split
    · rename_i hcur
      refine runs_bump hcur (decide_eq_false ht) fun st₁ h₁ => ?_
      have hlen₁ := h₁.length_cons
      refine runs_seq (hop st₁ (by omega)) ?_
      intro right st₂ hright
      have hlt := hright.length_lt
      obtain ⟨us, -, h₂, hg₂⟩ := hright
      refine connectLoop_runs j _ st₂ ⟨_, ?_, ?_, hstep hg hcur hg₂⟩
        (by omega) (by omega)
      · simp
      · simpa [hlits] using (hc.trans h₁).trans h₂
    · exact runs_pure ⟨pre, hne, hc, hg⟩

/-- An operand, and then the loop. -/
lemma connect_runs (hpq : p ≤ q) (hfuel : k ≤ fuel) :
    BoolRec fl opt p k (operand >>= connectLoop t combine operand fuel) := by
  intro st hst
  refine runs_seq (hop st hst) ?_
  intro left st₁ hleft
  have hlt := hleft.length_lt
  obtain ⟨pre, hne, h₁, hg⟩ := hleft
  exact connectLoop_runs ht hop hlits hstep fuel left st₁ ⟨pre, hne, h₁, .mono hpq hg⟩ (by omega)
    (by omega)

end Loop

lemma parseAnd_runs (hrec : BoolRec fl opt 0 k rec) (hk : k < fuel) :
    BoolRec fl opt 1 (k + 1) (parseAnd fl (treeEmitter F) opt fuel rec) := by
  have hnot : BoolRec fl opt 2 (k + 1) (parseNot fl (treeEmitter F) opt fuel rec fuel) :=
    fun st hst => parseNot_runs hrec hk fuel st (by omega) hst
  exact connect_runs (by decide) hnot (fun _ _ => rfl) .and (by omega) hk

lemma parseOr_runs (fuel : Nat) : ∀ k : Nat, k ≤ fuel →
    BoolRec fl opt 0 k (parseOr fl (treeEmitter F) opt fuel k)
  | 0, _ => fun _ h => absurd h (by omega)
  | k + 1, hk => by
    have hand := parseAnd_runs (parseOr_runs fuel k (by omega)) (show k < fuel by omega)
    exact connect_runs (by decide) hand (fun _ _ => rfl) .or (by omega) hk

lemma parseAll_runs (fl : FloatOps F) (opt : Options) (fuel : Nat) (st : PState (Lit F))
    (hst : st.toks.length < fuel) :
    Runs NotFuel (parseAll fl (treeEmitter F) opt fuel) st fun a st' =>
      ReadBool fl opt 0 st a st' ∧ st'.cur.typ = .eof := by
  refine runs_seq (parseOr_runs fuel fuel le_rfl st hst) ?_
  intro a st₁ ha
  refine runs_cur ?_
  split
  · exact runs_throw nofun
  · rename_i heof
    exact runs_pure ⟨ha, not_not.mp heof⟩

end Connectives

/-! ## Accepted filters -/

section Accepted

variable (fl : FloatOps F) (opt : Options)

/-- The index of the first placeholder. -/
def Options.start (opt : Options) : Nat := opt.normalize.startParamIndex.toNat

/-- What the compiler knows of a filter it accepts: the tokens before the end are
derived by the grammar, the literals are numbered from left to right starting at
the first index, and the arguments are the literals in that order. -/
structure Accepted (cql : Str) (t : Pred F) (args : List (Lit F)) (next : Nat) : Prop where
  grammar : ∃ ts rest, tokenize cql = ts ++ rest ∧ (rest.headD eofToken).typ = .eof ∧
    BoolG fl opt.normalize 0 ts t
  args_eq : args = t.lits.map Prod.snd
  nums : t.lits.map Prod.fst = range' opt.start t.lits.length
  next_eq : next = opt.start + t.lits.length

/-- What can come of compiling a filter. -/
def Outcome (cql : Str) : Except ParseError (Option (Pred F) × List (Lit F) × Nat) → Prop
  | .error e => e ≠ .outOfFuel
  | .ok (none, args, next) => isBlank cql = true ∧ args = [] ∧ next = opt.start
  | .ok (some t, args, next) => isBlank cql = false ∧ Accepted fl opt cql t args next

/-- The compiler follows the grammar, and the bound of the model is not reached. -/
theorem parse_grammar (cql : Str) : Outcome fl opt cql (parse fl (treeEmitter F) opt cql) := by
  cases hblank : isBlank cql with
  | true =>
    simp only [parse, hblank, if_true]
    exact ⟨hblank, rfl, rfl⟩
  | false =>
    have hruns := parseAll_runs fl opt.normalize ((tokenize cql).length + 1)
      ⟨tokenize cql, opt.normalize.startParamIndex.toNat, []⟩ (by simp)
    simp only [parse, hblank, Bool.false_eq_true, if_false]
    cases hp : parseAll fl (treeEmitter F) opt.normalize ((tokenize cql).length + 1)
        ⟨tokenize cql, opt.normalize.startParamIndex.toNat, []⟩ with
    | error e => exact hruns.of_error hp
    | ok r =>
      obtain ⟨t, st'⟩ := r
      obtain ⟨⟨pre, -, hc, hg⟩, heof⟩ := hruns.of_ok hp
      refine ⟨hblank, ⟨pre, st'.toks, hc.toks, heof, hg⟩, ?_, hc.nums, hc.next⟩
      simpa using hc.args

end Accepted

end NeoServer.Filter
