import NeoServer.Filter.Grammar

/-!
# Filter.Complete — the compiler reads every scalar expression of the grammar

`parse_grammar` says that what is read is derived by the grammar. Here is the
converse for scalar expressions: a derivation is read in full wherever the token
after it is neither an operator nor a parenthesis (`parseScalarExpr_reads`), with
its literals numbered from the next placeholder on. Derivations do not depend on
where in the input their tokens stand (`ScalarG.congr`).
-/

namespace NeoServer.Filter

open Prog List

variable {F : Type}

/-! ## Renumbering -/

/-- The literals of an expression, renumbered from `n` on. -/
def Scalar.renumber : Scalar F → Nat → Scalar F
  | .ident name, _ => .ident name
  | .lit _ l, n => .lit n l
  | .bool v, _ => .bool v
  | .now, _ => .now
  | .temporal _ val, n => .temporal n val
  | .arith left op right, n =>
    .arith (left.renumber n) op (right.renumber (n + (left.lits).length))
  | .paren inner, n => .paren (inner.renumber n)

/-- The state after `ts` was read up to `rest` and the literals of `x` were bound. -/
def PState.after (rest : List Token) (n : Nat) (args : List (Lit F)) (x : Scalar F) :
    PState (Lit F) :=
  ⟨rest, n + x.lits.length, args ++ x.lits.map Prod.snd⟩

/-! ## Derivations and positions -/

section Congr

variable {fl : FloatOps F} {opt : Options}

lemma lexeme_eq {t u : Token} (h : t.lexeme = u.lexeme) : t.typ = u.typ ∧ t.raw = u.raw :=
  Prod.mk.inj h

variable {p : Nat} {ts : List Token} {x : Scalar F}

/-- A derivation depends only on the types and texts of its tokens. -/
theorem ScalarG.congr {us} (h : ScalarG fl opt p ts x)
    (hus : us.map Token.lexeme = ts.map Token.lexeme) : ScalarG fl opt p us x := by
  induction h generalizing us with
  | ident ht hmem =>
    obtain ⟨u, rfl, hu⟩ := map_eq_singleton_iff.mp hus
    obtain ⟨htyp, hraw⟩ := lexeme_eq hu
    rw [← hraw] at hmem ⊢
    exact .ident (htyp.trans ht) hmem
  | str n ht =>
    obtain ⟨u, rfl, hu⟩ := map_eq_singleton_iff.mp hus
    obtain ⟨htyp, hraw⟩ := lexeme_eq hu
    rw [← hraw]
    exact .str n (htyp.trans ht)
  | num n ht hx =>
    obtain ⟨u, rfl, hu⟩ := map_eq_singleton_iff.mp hus
    obtain ⟨htyp, hraw⟩ := lexeme_eq hu
    rw [← hraw] at hx
    exact .num n (htyp.trans ht) hx
  | bool ht =>
    obtain ⟨u, rfl, hu⟩ := map_eq_singleton_iff.mp hus
    obtain ⟨htyp, hraw⟩ := lexeme_eq hu
    rw [← hraw]
    exact .bool (htyp.trans ht)
  | now ht hnow hlp hrp =>
    obtain ⟨u, us, rfl, hu, hus⟩ := map_eq_cons_iff.mp hus
    obtain ⟨ulp, us, rfl, hulp, hus⟩ := map_eq_cons_iff.mp hus
    obtain ⟨urp, rfl, hurp⟩ := map_eq_singleton_iff.mp hus
    obtain ⟨htyp, hraw⟩ := lexeme_eq hu
    rw [← hraw] at hnow
    exact .now (htyp.trans ht) hnow ((lexeme_eq hulp).1.trans hlp) ((lexeme_eq hurp).1.trans hrp)
  | temporal n ht =>
    obtain ⟨u, rfl, hu⟩ := map_eq_singleton_iff.mp hus
    obtain ⟨htyp, hraw⟩ := lexeme_eq hu
    rw [← hraw]
    exact .temporal n (htyp.trans ht)
  | paren hlp _ hrp ih =>
    obtain ⟨ulp, us, rfl, hulp, hus⟩ := map_eq_cons_iff.mp hus
    rw [map_append] at hus
    obtain ⟨us₁, us₂, rfl, hus₁, hus₂⟩ := map_eq_append_iff.mp hus
    obtain ⟨urp, rfl, hurp⟩ := map_eq_singleton_iff.mp hus₂
    exact .paren ((lexeme_eq hulp).1.trans hlp) (ih hus₁) ((lexeme_eq hurp).1.trans hrp)
  | arith _ hop _ ihx ihy =>
    rw [map_append] at hus
    obtain ⟨us₁, us₂, rfl, hus₁, hus₂⟩ := map_eq_append_iff.mp hus
    obtain ⟨uop, us₃, rfl, huop, hus₃⟩ := map_eq_cons_iff.mp hus₂
    obtain ⟨htyp, hraw⟩ := lexeme_eq huop
    rw [← hraw]
    exact .arith (ihx hus₁) (by rw [htyp]; exact hop) (ihy hus₃)
  | mono hle _ ih => exact .mono hle (ih hus)

lemma ScalarG.ne_nil (h : ScalarG fl opt p ts x) : ts ≠ [] := by
  induction h with
  | mono _ _ ih => exact ih
  | _ => simp

end Congr

/-! ## Running one step -/

lemma bind_ok {σ ε α β : Type} {m} {f : α → Prog σ ε β} {s s' : σ} {a : α}
    (h : m s = .ok (a, s')) : (m >>= f) s = f a s' := by
  rw [bind_apply, h]

section Reads

variable {fl : FloatOps F} {opt : Options}

variable {x : Scalar F} {p : Nat} {ts : List Token} {t : Token}

variable {m j n k : Nat} {rec : Nat → P (Lit F) (Scalar F)} {st : PState (Lit F)}
  {args : List (Lit F)} {lp rp : Token} {rest : List Token}

/-- The loop stops at a token that binds less tightly. -/
lemma scalarLoop_stop (h : ∀ q, scalarPrec st.cur.typ = some q → q < m) :
    scalarLoop (treeEmitter F) rec m (j + 1) x st = .ok (x, st) := by
  unfold scalarLoop
  rw [bind_ok (show cur st = .ok (st.cur, st) from rfl)]
  cases hq : scalarPrec st.cur.typ with
  | none => rfl
  | some q =>
    dsimp only
    rw [if_pos (h q hq)]
    rfl

/-- The loop reads an operator that binds tightly enough and its right operand. -/
lemma scalarLoop_step {x y} {op : Token}
    (hop : scalarPrec op.typ = some p) (hm : m ≤ p) (hrec : rec (p + 1) ⟨ts, n, args⟩ = .ok (y, st)) :
    scalarLoop (treeEmitter F) rec m (j + 1) x ⟨op :: ts, n, args⟩ =
      scalarLoop (treeEmitter F) rec m j (.arith x op.raw y) st := by
  conv_lhs => unfold scalarLoop
  rw [bind_ok (show cur ⟨op :: ts, n, args⟩ = .ok (op, ⟨op :: ts, n, args⟩) from rfl), hop]
  dsimp only
  rw [if_neg (by omega), bind_ok (show bump ⟨op :: ts, n, args⟩ = .ok ((), ⟨ts, n, args⟩) from rfl),
    bind_ok hrec]
  rfl

/-- What reading the primary `ts` amounts to. -/
def ReadsPrimary (fl : FloatOps F) (opt : Options) (ts : List Token) (x : Scalar F) : Prop :=
  ∀ (k n : Nat) (args : List (Lit F)) (rest : List Token), (ts ++ rest).length ≤ k →
    (rest.headD eofToken).typ ≠ .lParen →
    parseScalarPrimary fl (treeEmitter F) opt (parseScalarExpr fl (treeEmitter F) opt k)
      ⟨ts ++ rest, n, args⟩ = .ok (x.renumber n, .after rest n args x)

lemma readsPrimary_ident (ht : t.typ = .ident)
    (hmem : t.raw ∈ opt.allowedProperties) : ReadsPrimary fl opt [t] (.ident t.raw) := by
  intro k n args rest _ _
  obtain ⟨typ, raw, pos⟩ := t
  cases ht
  have hallowed : assertAllowedProperty (A := Lit F) opt raw = pure () := if_pos hmem
  unfold parseScalarPrimary
  rw [bind_ok (show cur _ = .ok _ from rfl)]
  dsimp only [cons_append, PState.cur, headD_cons]
  rw [hallowed]
  simp [PState.after, Scalar.lits, Scalar.renumber, bind_apply, pure_apply, bump, modify_apply,
    treeEmitter]

lemma readsPrimary_str (i : Nat) (ht : t.typ = .string) :
    ReadsPrimary fl opt [t] (.lit i (.str t.raw)) := by
  intro k n args rest _ _
  obtain ⟨typ, raw, pos⟩ := t
  cases ht
  rfl

lemma readsPrimary_num (i : Nat) {v : F} (ht : t.typ = .number)
    (hv : fl.parse t.raw = some v) : ReadsPrimary fl opt [t] (.lit i (.num v)) := by
  intro k n args rest _ _
  obtain ⟨typ, raw, pos⟩ := t
  cases ht
  have hfloat : parseFloat (A := Lit F) fl raw (.invalidNumber raw) = pure v := by
    unfold parseFloat
    rw [hv]
    rfl
  unfold parseScalarPrimary
  rw [bind_ok (show cur _ = .ok _ from rfl)]
  dsimp only [cons_append, PState.cur, headD_cons]
  rw [hfloat]
  rfl

lemma readsPrimary_bool (ht : t.typ = .bool) :
    ReadsPrimary fl opt [t] (.bool (toLower t.raw)) := by
  intro k n args rest _ _
  obtain ⟨typ, raw, pos⟩ := t
  cases ht
  simp [parseScalarPrimary, PState.after, Scalar.lits, Scalar.renumber, bind_apply, pure_apply, cur,
    gets_apply, PState.cur, bump, modify_apply, treeEmitter]

lemma readsPrimary_now (ht : t.typ = .temporal)
    (hnow : toUpper t.raw = "NOW") (hlp : lp.typ = .lParen) (hrp : rp.typ = .rParen) :
    ReadsPrimary fl opt [t, lp, rp] .now := by
  intro k n args rest _ _
  obtain ⟨typ, raw, pos⟩ := t
  obtain ⟨lptyp, lpraw, lppos⟩ := lp
  obtain ⟨rptyp, rpraw, rppos⟩ := rp
  cases ht
  cases hlp
  cases hrp
  refine (bind_ok (m := cur) rfl).trans ((bind_ok (m := peek) rfl).trans ?_)
  refine (congrFun (if_pos ⟨hnow, rfl⟩) _).trans ?_
  simp [PState.after, Scalar.lits, Scalar.renumber, bind_apply, pure_apply, cur, gets_apply,
    PState.cur, bump, modify_apply, expect, treeEmitter]

lemma readsPrimary_temporal (i : Nat) (ht : t.typ = .temporal) :
    ReadsPrimary fl opt [t] (.temporal i t.raw) := by
  intro k n args rest _ hrest
  obtain ⟨typ, raw, pos⟩ := t
  cases ht
  refine (bind_ok (m := cur) rfl).trans ((bind_ok (m := peek) rfl).trans ?_)
  exact congrFun (if_neg fun h => hrest h.2) _

/-- What reading `ts` amounts to: the loop goes on after it, with as much fuel left as
there are tokens. -/
def ReadsLoop (fl : FloatOps F) (opt : Options) (p : Nat) (ts : List Token) (x : Scalar F) : Prop :=
  ∀ (m k n : Nat) (args : List (Lit F)) (rest : List Token), m ≤ p → (ts ++ rest).length ≤ k →
    (rest.headD eofToken).typ ≠ .lParen →
    (∀ q, scalarPrec (rest.headD eofToken).typ = some q → q ≤ p) →
    ∃ j, rest.length < j ∧
      parseScalarExpr fl (treeEmitter F) opt (k + 1) m ⟨ts ++ rest, n, args⟩ =
        scalarLoop (treeEmitter F) (parseScalarExpr fl (treeEmitter F) opt k) m j (x.renumber n)
          (.after rest n args x)

lemma ReadsPrimary.loop (hne : ts ≠ [])
    (h : ReadsPrimary fl opt ts x) : ReadsLoop fl opt p ts x := by
  intro m k n args rest _ hk hrest _
  have hpos := length_pos_of_ne_nil hne
  rw [length_append] at hk
  refine ⟨k, by omega, ?_⟩
  exact bind_ok (h k n args rest (by rw [length_append]; omega) hrest)

/-- Where no operator follows that binds as tightly as `m`, the expression is read and
nothing else. -/
lemma ReadsLoop.ok (h : ReadsLoop fl opt p ts x) (hm : m ≤ p)
    (hk : (ts ++ rest).length < k) (hrest : (rest.headD eofToken).typ ≠ .lParen)
    (hp : ∀ q, scalarPrec (rest.headD eofToken).typ = some q → q < m) :
    parseScalarExpr fl (treeEmitter F) opt k m ⟨ts ++ rest, n, args⟩ =
      .ok (x.renumber n, .after rest n args x) := by
  obtain ⟨k, rfl⟩ : ∃ k', k = k' + 1 := ⟨k - 1, by omega⟩
  obtain ⟨j, hj, heq⟩ := h m k n args rest hm (by omega) hrest fun q hq => by
    have := hp q hq
    omega
  obtain ⟨j, rfl⟩ : ∃ j', j = j' + 1 := ⟨j - 1, by omega⟩
  rw [heq]
  exact scalarLoop_stop hp

lemma readsPrimary_paren
    (hlp : lp.typ = .lParen) (hx : ReadsLoop fl opt 0 ts x) (hrp : rp.typ = .rParen) :
    ReadsPrimary fl opt (lp :: (ts ++ [rp])) (.paren x) := by
  intro k n args rest hk _
  obtain ⟨lptyp, lpraw, lppos⟩ := lp
  obtain ⟨rptyp, rpraw, rppos⟩ := rp
  cases hlp
  cases hrp
  have hinner : parseScalarExpr fl (treeEmitter F) opt k 0
      ⟨ts ++ ⟨.rParen, rpraw, rppos⟩ :: rest, n, args⟩ =
        .ok (x.renumber n, .after (⟨.rParen, rpraw, rppos⟩ :: rest) n args x) := by
    refine hx.ok (Nat.le_refl 0) ?_ (by simp) (by simp [scalarPrec])
    simp only [length_append, length_cons, cons_append, nil_append, append_assoc] at hk ⊢
    omega
  have htoks : (⟨.lParen, lpraw, lppos⟩ :: (ts ++ [⟨.rParen, rpraw, rppos⟩]) : List Token) ++ rest =
      ⟨.lParen, lpraw, lppos⟩ :: (ts ++ ⟨.rParen, rpraw, rppos⟩ :: rest) := by simp
  rw [htoks]
  refine (bind_ok (m := cur) rfl).trans ((bind_ok (m := bump) rfl).trans ?_)
  refine (bind_ok hinner).trans ?_
  rfl

/-- Every derivation is read. -/
lemma ScalarG.reads (h : ScalarG fl opt p ts x) : ReadsLoop fl opt p ts x := by
  induction h with
  | ident ht hmem => exact (readsPrimary_ident ht hmem).loop (by simp)
  | str i ht => exact (readsPrimary_str i ht).loop (by simp)
  | num i ht hv => exact (readsPrimary_num i ht hv).loop (by simp)
  | bool ht => exact (readsPrimary_bool ht).loop (by simp)
  | now ht hnow hlp hrp => exact (readsPrimary_now ht hnow hlp hrp).loop (by simp)
  | temporal i ht => exact (readsPrimary_temporal i ht).loop (by simp)
  | paren hlp _ hrp ih => exact (readsPrimary_paren hlp ih hrp).loop (by simp)
  | arith hx hop hy ihx ihy =>
    rename_i p op ts us x y
    intro m k n args rest hm hk hrest hp
    have hop_ne : op.typ ≠ .lParen := by
      intro h
      simp [h, scalarPrec] at hop
    simp only [length_append, length_cons, append_assoc] at hk
    -- the left operand is read up to the operator
    obtain ⟨j, hj, heq⟩ := ihx m k n args (op :: (us ++ rest)) hm
      (by simp only [length_append, length_cons]; omega) hop_ne
      (fun q hq => by
        have hq' : scalarPrec op.typ = some q := hq
        rw [hop] at hq'
        exact Nat.le_of_eq (Option.some.inj hq').symm)
    simp only [length_append, length_cons] at hj
    obtain ⟨j, rfl⟩ : ∃ j', j = j' + 1 := ⟨j - 1, by omega⟩
    -- the right one up to what follows
    have hright : parseScalarExpr fl (treeEmitter F) opt k (p + 1)
        (.after (us ++ rest) n args x) = .ok (y.renumber (n + x.lits.length),
          .after rest (n + x.lits.length) (args ++ x.lits.map Prod.snd) y) :=
      ihy.ok le_rfl (by simp only [length_append]; omega) hrest
        fun q hq => Nat.lt_succ_of_le (hp q hq)
    refine ⟨j, by omega, ?_⟩
    have htoks : ts ++ op :: us ++ rest = ts ++ op :: (us ++ rest) := by simp
    rw [htoks, heq]
    refine (scalarLoop_step hop hm hright).trans ?_
    simp [Scalar.renumber, PState.after, Scalar.lits, Nat.add_assoc]
  | mono hle _ ih =>
    intro m k n args rest hm hk hrest hp
    exact ih m k n args rest (by omega) hk hrest fun q hq => by
      have := hp q hq
      omega

/-- A scalar expression of the grammar is read in full where neither an operator nor a
parenthesis follows. -/
theorem parseScalarExpr_reads (h : ScalarG fl opt 0 ts x) (n : Nat) (args : List (Lit F)) (hk : (ts ++ rest).length < k)
    (hrest : (rest.headD eofToken).typ ≠ .lParen)
    (hop : scalarPrec (rest.headD eofToken).typ = none) :
    parseScalarExpr fl (treeEmitter F) opt k 0 ⟨ts ++ rest, n, args⟩ =
      .ok (x.renumber n, .after rest n args x) := by
  refine h.reads.ok (Nat.le_refl 0) hk hrest ?_
  intro q hq
  rw [hop] at hq
  cases hq

end Reads

end NeoServer.Filter
