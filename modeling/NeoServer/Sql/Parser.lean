import NeoServer.Sql.Syntax

/-!
# Sql.Parser — reading tokens back with SQL operator precedence

A precedence-climbing parser. `pExpr n p` reads an expression whose outermost
operator binds at least as tightly as `p`; `n` bounds the nesting and every
nested call is made on a shorter input, so `n` one larger than the number of
tokens is always enough.

The result later proofs use is `Spells.parse`: a text whose tokens are those of a
well-formed tree is read as that tree.
-/

namespace NeoServer.Sql

open List

/-- A parser reads a prefix of the tokens. -/
abbrev Parser (α : Type) := List Tok → Option (α × List Tok)

/-- Read one given token. -/
def eat (t : Tok) : List Tok → Option (List Tok)
  | [] => none
  | u :: ts => if u = t then some ts else none

/-- The comparison operator of a symbol. -/
def cmpOf : Sym → Option CmpOp
  | .eq => some .eq
  | .neq => some .neq
  | .lt => some .lt
  | .gt => some .gt
  | .le => some .le
  | .ge => some .ge
  | _ => none

/-- The arithmetic operator of a symbol. -/
def arithOf : Sym → Option ArithOp
  | .plus => some .add
  | .minus => some .sub
  | .star => some .mul
  | .slash => some .div
  | _ => none

/-- How tightly the infix operator at the head of the input binds. -/
def infixPrec : List Tok → Option Nat
  | .sym s :: _ =>
    match cmpOf s, arithOf s with
    | some _, _ => some 3
    | none, some op => some op.prec
    | none, none => if s = .cast then some 6 else none
  | .kw k :: _ =>
    match k with
    | .or => some 0
    | .and => some 1
    | .not | .between | .in_ | .like | .ilike | .is => some 3
    | _ => none
  | _ => none

/-! ## The parser

The parts take the parser for nested expressions as a parameter: `rhs p` reads
an operand that binds at least as tightly as `p`. -/

section Parts

variable (rhs : Nat → Parser Expr)

/-- One argument, possibly named. -/
def pArg : Parser (Option Str × Expr) := fun ts => do
  let (e, ts) ← rhs 0 ts
  match e, ts with
  | .const w, .sym .assign :: ts =>
    let (e, ts) ← rhs 0 ts
    pure ((some w, e), ts)
  | e, ts => pure ((none, e), ts)

/-- One or more arguments and the closing parenthesis. -/
def pItems : Nat → Parser Args
  | 0, _ => none
  | n + 1, ts => do
      let ((name, e), ts) ← pArg rhs ts
      match ts with
      | .sym .rparen :: ts => pure (.cons name e .nil, ts)
      | .sym .comma :: ts =>
        let (rest, ts) ← pItems n ts
        pure (.cons name e rest, ts)
      | _ => none

/-- What follows an unreserved word. -/
def pWord (n : Nat) (w : Str) : Parser Expr
  | .sym .lparen :: .sym .rparen :: ts => some (.call w .nil, ts)
  | .sym .lparen :: ts => do
      let (args, ts) ← pItems rhs n ts
      pure (.call w args, ts)
  | .sym .dot :: .quoted c :: ts => some (.col (.word w) c, ts)
  | ts => some (.const w, ts)

/-- An operand: a primary, or `NOT` where the context allows it. -/
def pPrefix (n p : Nat) : Parser Expr
  | .kw .not :: ts => do
      if 2 < p then none
      let (a, ts) ← rhs 2 ts
      pure (.not a, ts)
  | .kw .cast :: .sym .lparen :: ts => do
      let (a, ts) ← rhs 0 ts
      let ts ← eat (.kw .as) ts
      match ts with
      | .word ty :: .sym .rparen :: ts => pure (.castFn a ty, ts)
      | _ => none
  | .sym .lparen :: ts => do
      let (a, ts) ← rhs 0 ts
      let ts ← eat (.sym .rparen) ts
      pure (.paren a, ts)
  | .sym .minus :: .num k :: ts => some (.int (-k), ts)
  | .num k :: ts => some (.int k, ts)
  | .param k :: ts => some (.param k, ts)
  | .str s :: ts => some (.str s, ts)
  | .quoted t :: .sym .dot :: .quoted c :: ts => some (.col (.quoted t) c, ts)
  | .quoted c :: ts => some (.col .none c, ts)
  | .word w :: ts => pWord rhs n w ts
  | _ => none

/-- The rest of a relation that `NOT` may precede. -/
def pRel (n : Nat) (neg : Bool) (a : Expr) : Parser Expr
  | .kw .between :: ts => do
      let (lo, ts) ← rhs 4 ts
      let ts ← eat (.kw .and) ts
      let (hi, ts) ← rhs 4 ts
      pure (.between neg a lo hi, ts)
  | .kw .in_ :: .sym .lparen :: ts => do
      let (items, ts) ← pItems rhs n ts
      pure (.inList neg a items, ts)
  | .kw .like :: ts => do
      let (p, ts) ← rhs 4 ts
      pure (.like neg false a p, ts)
  | .kw .ilike :: ts => do
      let (p, ts) ← rhs 4 ts
      pure (.like neg true a p, ts)
  | _ => none

/-- An infix operator and what stands to its right. -/
def pInfix (n : Nat) (a : Expr) : Parser Expr
  | .kw .or :: ts => do
      let (b, ts) ← rhs 1 ts
      pure (.or a b, ts)
  | .kw .and :: ts => do
      let (b, ts) ← rhs 2 ts
      pure (.and a b, ts)
  | .kw .not :: ts => pRel rhs n true a ts
  | .kw .is :: .kw .null :: ts => some (.isNull false a, ts)
  | .kw .is :: .kw .not :: .kw .null :: ts => some (.isNull true a, ts)
  | .kw k :: ts => pRel rhs n false a (.kw k :: ts)
  | .sym .cast :: .word ty :: ts => some (.cast a ty, ts)
  | .sym s :: ts =>
    match cmpOf s, arithOf s with
    | some op, _ => do
        let (b, ts) ← rhs 4 ts
        pure (.cmp op a b, ts)
    | none, some op => do
        let (b, ts) ← rhs (op.prec + 1) ts
        pure (.arith op a b, ts)
    | none, none => none
  | _ => none

/-- Extend `a` by the infix operators that bind at least as tightly as `p`.
Comparisons and their relatives do not associate. -/
def pLoop (n p : Nat) : Nat → Expr → Parser Expr
  | 0, _, _ => none
  | m + 1, a, ts =>
    match infixPrec ts with
    | none => some (a, ts)
    | some q =>
      if q < p then some (a, ts)
      else if q = 3 ∧ a.prec ≤ 3 then none
      else do
        let (a', ts') ← pInfix rhs n a ts
        pLoop n p m a' ts'

end Parts

/-- An expression that binds at least as tightly as `p`. -/
def pExpr : Nat → Nat → Parser Expr
  | 0, _, _ => none
  | n + 1, p, ts => do
      let (a, ts) ← pPrefix (pExpr n) n p ts
      pLoop (pExpr n) n p (n + 1) a ts

/-- Read a whole token sequence as one expression. -/
def parseTokens (ts : List Tok) : Option Expr :=
  match pExpr (ts.length + 1) 0 ts with
  | some (e, []) => some e
  | _ => none

/-- Read a text as one SQL expression. -/
def parse (s : Str) : Option Expr := do
  let ts ← lex s
  parseTokens ts

/-! ## Reading a tree back -/

/-- What may follow a tree whose outermost operator binds at level `k`: no
infix operator that binds tighter, nothing that would turn a word into a call or
a column into a qualified one. -/
structure Ends (k : Nat) (rest : List Tok) : Prop where
  op : ∀ q, infixPrec rest = some q → q ≤ k
  lparen : ∀ ts, rest ≠ .sym .lparen :: ts
  dot : ∀ ts, rest ≠ .sym .dot :: ts

variable {rest : List Tok} {s : Sym} {e : Expr} {n : Nat} {a b : Expr}

lemma Ends.mono {k k' : Nat} (h : Ends k rest) (hk : k ≤ k') : Ends k' rest :=
  ⟨fun q hq => Nat.le_trans (h.op q hq) hk, h.lparen, h.dot⟩

variable (k : Nat) (name : Option Str) (neg : Bool) (ts : List Tok)

lemma Ends.nil : Ends k [] := ⟨nofun, nofun, nofun⟩

lemma Ends.kw (w : Kw) (ts : List Tok)
    (h : ∀ q, infixPrec (.kw w :: ts) = some q → q ≤ k) : Ends k (.kw w :: ts) :=
  ⟨h, by simp, by simp⟩

lemma Ends.sym (s : Sym) (ts : List Tok)
    (h : ∀ q, infixPrec (.sym s :: ts) = some q → q ≤ k) (h₁ : s ≠ .lparen) (h₂ : s ≠ .dot) :
    Ends k (.sym s :: ts) :=
  ⟨h, by simp [h₁], by simp [h₂]⟩

/-- Closing parentheses, commas and `:=` end every expression. -/
lemma Ends.closer (hs : s = .rparen ∨ s = .comma ∨ s = .assign) : Ends k (.sym s :: ts) := by
  rcases hs with rfl | rfl | rfl <;>
    exact Ends.sym k _ ts nofun (by decide) (by decide)

/-- No infix operator binds at the level of `NOT`. -/
lemma infixPrec_ne_two : infixPrec ts ≠ some 2 := by
  intro h
  unfold infixPrec at h
  split at h
  · split at h
    · simp at h
    · rename_i op _ _
      simp only [ArithOp.prec, Option.some.injEq] at h
      split at h <;> omega
    · split at h <;> simp at h
  · split at h <;> simp at h
  · simp at h

/-- The parser, started on the tokens of `e`, gets to the point where it has
read `e` and looks for further infix operators. -/
def Reads (e : Expr) : Prop :=
  ∀ (n p : Nat) (rest : List Tok), p ≤ e.prec → Ends e.prec rest →
    (e.tokens ++ rest).length ≤ n →
    ∃ m, rest.length < m ∧
      pExpr (n + 1) p (e.tokens ++ rest) = pLoop (pExpr n) n p m e rest

/-- Where no further operator applies, the parser stops at `e`. -/
lemma Reads.read (he : Reads e) {n p : Nat} (hp : p ≤ e.prec) (hend : Ends e.prec rest)
    (hstop : ∀ q, infixPrec rest = some q → q < p) (hlen : (e.tokens ++ rest).length < n) :
    pExpr n p (e.tokens ++ rest) = some (e, rest) := by
  obtain ⟨k, rfl⟩ : ∃ k, n = k + 1 := ⟨n - 1, by omega⟩
  obtain ⟨m, hm, heq⟩ := he k p rest hp hend (by omega)
  obtain ⟨m', rfl⟩ : ∃ m', m = m' + 1 := ⟨m - 1, by omega⟩
  rw [heq, pLoop]
  cases hq : infixPrec rest with
  | none => rfl
  | some q => simp [hstop q hq]

/-- `Reads.read` for an operand that ends at a comma or a closing parenthesis. -/
lemma Reads.read_closed (he : Reads e) (ts : List Tok)
    (hs : s = .rparen ∨ s = .comma ∨ s = .assign) (hlen : (e.tokens ++ .sym s :: ts).length < n) :
    pExpr n 0 (e.tokens ++ .sym s :: ts) = some (e, .sym s :: ts) := by
  refine he.read (Nat.zero_le _) (Ends.closer _ ts hs) ?_ hlen
  intro q hq
  rcases hs with rfl | rfl | rfl <;> cases hq

/-- A primary is read by the prefix parser alone. -/
lemma reads_of_prefix (h : ∀ (n p : Nat) (rest : List Tok), Ends e.prec rest → p ≤ e.prec →
      (e.tokens ++ rest).length ≤ n →
      pPrefix (pExpr n) n p (e.tokens ++ rest) = some (e, rest)) : Reads e := by
  intro n p rest hp hend hlen
  refine ⟨n + 1, ?_, ?_⟩
  · simp only [length_append] at hlen
    omega
  · change (pPrefix (pExpr n) n p (e.tokens ++ rest)).bind _ = _
    rw [h n p rest hend hp hlen]
    rfl

/-- An infix operator at level `q` extends the tree already read. -/
lemma reads_of_infix (t : Tok) (ts : List Tok) (ha : Reads a)
    (htok : e.tokens = a.tokens ++ t :: ts) (hle : e.prec ≤ a.prec)
    (hassoc : e.prec = 3 → 4 ≤ a.prec) (hq : ∀ rest, infixPrec (t :: (ts ++ rest)) = some e.prec)
    (hopen : t ≠ .sym .lparen ∧ t ≠ .sym .dot)
    (hin : ∀ (n : Nat) (rest : List Tok), Ends e.prec rest → (ts ++ rest).length < n →
      pInfix (pExpr n) n a (t :: (ts ++ rest)) = some (e, rest)) : Reads e := by
  intro n p rest hp hend hlen
  have hends : Ends a.prec (t :: (ts ++ rest)) := by
    refine ⟨?_, ?_, ?_⟩
    · intro q hq'
      rw [hq rest] at hq'
      cases hq'
      exact hle
    · intro us h
      exact hopen.1 (by injection h)
    · intro us h
      exact hopen.2 (by injection h)
  rw [htok] at hlen ⊢
  simp only [append_assoc, cons_append] at hlen ⊢
  obtain ⟨m, hm, heq⟩ := ha n p (t :: (ts ++ rest)) (Nat.le_trans hp hle) hends hlen
  obtain ⟨m', rfl⟩ : ∃ m', m = m' + 1 := ⟨m - 1, by omega⟩
  simp only [length_append, length_cons] at hm hlen
  refine ⟨m', by omega, ?_⟩
  have hnot3 : ¬ (e.prec = 3 ∧ a.prec ≤ 3) := by
    rintro ⟨h3, hle3⟩
    omega
  have hnlt : ¬ e.prec < p := by omega
  rw [heq, pLoop, hq rest]
  simp only [hnlt, hnot3, if_false]
  rw [hin n rest hend (by simp only [length_append]; omega)]
  rfl

/-! ### Primaries -/

lemma reads_const (w : Str) : Reads (.const w) := by
  refine reads_of_prefix ?_
  intro n p rest hend _ _
  -- a word is a constant unless a parenthesis or a dot follows
  cases rest with
  | nil => rfl
  | cons t ts =>
    cases t with
    | sym s =>
      cases s with
      | lparen => exact absurd rfl (hend.lparen ts)
      | dot => exact absurd rfl (hend.dot ts)
      | _ => rfl
    | _ => rfl

lemma reads_col (q : Qual) (name : Str) : Reads (.col q name) := by
  refine reads_of_prefix ?_
  intro n p rest hend _ _
  cases q with
  | word | quoted => rfl
  | none =>
    cases rest with
    | nil => rfl
    | cons t ts =>
      cases t with
      | sym s =>
        cases s with
        | dot => exact absurd rfl (hend.dot ts)
        | _ => rfl
      | _ => rfl

lemma reads_int (k : Int) : Reads (.int k) := by
  refine reads_of_prefix ?_
  intro n p rest _ _ _
  by_cases hk : k < 0
  · have habs : -(k.natAbs : Int) = k := by omega
    have htokens : (Expr.int k).tokens = [.sym .minus, .num k.natAbs] := if_pos hk
    have hread : pPrefix (pExpr n) n p ([.sym .minus, .num k.natAbs] ++ rest) =
        some (.int (-(k.natAbs : Int)), rest) := rfl
    rw [htokens, hread, habs]
  · have habs : (k.toNat : Int) = k := by omega
    have htokens : (Expr.int k).tokens = [.num k.toNat] := if_neg hk
    have hread : pPrefix (pExpr n) n p ([.num k.toNat] ++ rest) =
        some (.int (k.toNat : Int), rest) := rfl
    rw [htokens, hread, habs]

lemma reads_paren (ha : Reads a) : Reads (.paren a) := by
  refine reads_of_prefix ?_
  intro n p rest _ _ hlen
  have htokens : (Expr.paren a).tokens = .sym .lparen :: (a.tokens ++ [.sym .rparen]) := rfl
  rw [htokens] at hlen ⊢
  simp only [cons_append, append_assoc, nil_append, length_cons] at hlen ⊢
  have hin := ha.read_closed (n := n) rest (.inl rfl) (by omega)
  change (pExpr n 0 (a.tokens ++ .sym .rparen :: rest)).bind _ = _
  rw [hin]
  rfl

lemma reads_castFn (ha : Reads a) (ty : Str) : Reads (.castFn a ty) := by
  refine reads_of_prefix ?_
  intro n p rest _ _ hlen
  have htokens : (Expr.castFn a ty).tokens =
      .kw .cast :: .sym .lparen :: (a.tokens ++ [.kw .as, .word ty, .sym .rparen]) := rfl
  rw [htokens] at hlen ⊢
  simp only [cons_append, append_assoc, nil_append, length_cons] at hlen ⊢
  have hends : Ends a.prec (.kw .as :: .word ty :: .sym .rparen :: rest) :=
    Ends.kw _ _ _ nofun
  have hin := ha.read (n := n) (Nat.zero_le _) hends nofun (by omega)
  change (pExpr n 0 (a.tokens ++ .kw .as :: .word ty :: .sym .rparen :: rest)).bind _ = _
  rw [hin]
  rfl

lemma reads_not (ha : Reads a) (hp : 2 ≤ a.prec) : Reads (.not a) := by
  refine reads_of_prefix ?_
  intro n p rest hend hle hlen
  have htokens : (Expr.not a).tokens = .kw .not :: a.tokens := rfl
  rw [htokens, cons_append] at hlen ⊢
  rw [length_cons] at hlen
  have hin : pExpr n 2 (a.tokens ++ rest) = some (a, rest) := by
    refine ha.read hp (hend.mono hp) ?_ (by omega)
    intro q hq
    have h2 : q ≤ 2 := hend.op q hq
    have hne : q ≠ 2 := fun h => infixPrec_ne_two rest (h ▸ hq)
    omega
  have hnlt : ¬ 2 < p := by
    have : p ≤ 2 := hle
    omega
  simp [pPrefix, hin, hnlt]

/-! ### Infix operators -/

lemma reads_or (ha : Reads a) (hb : Reads b) (hp : 1 ≤ b.prec) : Reads (.or a b) := by
  refine reads_of_infix (.kw .or) (b.tokens) ha rfl (Nat.zero_le _)
    nofun (fun _ => rfl) (by simp) ?_
  intro n rest hend hlen
  have hin : pExpr n 1 (b.tokens ++ rest) = some (b, rest) :=
    hb.read hp (hend.mono (Nat.zero_le _)) (fun q hq => Nat.lt_succ_of_le (hend.op q hq)) hlen
  change (pExpr n 1 (b.tokens ++ rest)).bind _ = _
  rw [hin]
  rfl

lemma reads_and (ha : Reads a) (hb : Reads b) (hpa : 1 ≤ a.prec)
    (hpb : 2 ≤ b.prec) : Reads (.and a b) := by
  refine reads_of_infix (.kw .and) (b.tokens) ha rfl hpa nofun (fun _ => rfl) (by simp) ?_
  intro n rest hend hlen
  have hin : pExpr n 2 (b.tokens ++ rest) = some (b, rest) :=
    hb.read hpb (hend.mono (Nat.le_trans (show 1 ≤ 2 by omega) hpb))
      (fun q hq => Nat.lt_succ_of_le (hend.op q hq)) hlen
  change (pExpr n 2 (b.tokens ++ rest)).bind _ = _
  rw [hin]
  rfl

/-- The right operand of a relation. -/
lemma Reads.operand (hb : Reads b) (hp : 4 ≤ b.prec)
    (hend : Ends 3 rest) (hlen : (b.tokens ++ rest).length < n) :
    pExpr n 4 (b.tokens ++ rest) = some (b, rest) :=
  hb.read hp (hend.mono (by omega)) (fun q hq => Nat.lt_succ_of_le (hend.op q hq)) hlen

lemma reads_cmp (op : CmpOp) (ha : Reads a) (hb : Reads b) (hpa : 4 ≤ a.prec)
    (hpb : 4 ≤ b.prec) : Reads (.cmp op a b) := by
  refine reads_of_infix (.sym op.sym) (b.tokens) ha rfl
    (Nat.le_trans (show 3 ≤ 4 by omega) hpa) (fun _ => hpa) (fun _ => by cases op <;> rfl)
    (by cases op <;> decide) ?_
  intro n rest hend hlen
  have hin := hb.operand hpb hend hlen
  have hstep : pInfix (pExpr n) n a (.sym op.sym :: (b.tokens ++ rest)) =
      (pExpr n 4 (b.tokens ++ rest)).bind fun r => some (.cmp op a r.1, r.2) := by
    cases op <;> rfl
  rw [hstep, hin]
  rfl

lemma reads_arith (op : ArithOp) (ha : Reads a) (hb : Reads b)
    (hpa : op.prec ≤ a.prec) (hpb : op.prec < b.prec) : Reads (.arith op a b) := by
  refine reads_of_infix (.sym op.sym) (b.tokens) ha rfl hpa ?_
    (fun _ => by cases op <;> rfl) (by cases op <;> decide) ?_
  · intro h3
    cases op <;> cases h3
  · intro n rest hend hlen
    have hin : pExpr n (op.prec + 1) (b.tokens ++ rest) = some (b, rest) :=
      hb.read hpb (hend.mono (Nat.le_of_lt hpb)) (fun q hq => Nat.lt_succ_of_le (hend.op q hq)) hlen
    have hstep : pInfix (pExpr n) n a (.sym op.sym :: (b.tokens ++ rest)) =
        (pExpr n (op.prec + 1) (b.tokens ++ rest)).bind fun r => some (.arith op a r.1, r.2) := by
      cases op <;> rfl
    rw [hstep, hin]
    rfl

lemma reads_cast (ha : Reads a) (hp : 6 ≤ a.prec) (ty : Str) : Reads (.cast a ty) := by
  refine reads_of_infix (.sym .cast) ([.word ty]) ha rfl hp nofun (fun _ => rfl) (by simp) ?_
  intro n rest _ _
  rfl

lemma reads_isNull (ha : Reads a) (hp : 4 ≤ a.prec) : Reads (.isNull neg a) := by
  refine reads_of_infix (.kw .is) (negTokens neg ++ [.kw .null]) ha rfl
    (Nat.le_trans (show 3 ≤ 4 by omega) hp) (fun _ => hp) (fun _ => rfl) (by simp) ?_
  intro n rest _ _
  cases neg <;> rfl

/-- A relation that `NOT` may precede. -/
lemma reads_rel (k : Kw) (ts : List Tok) (ha : Reads a)
    (hp : 4 ≤ a.prec) (hprec : e.prec = 3) (hk : k = .between ∨ k = .in_ ∨ k = .like ∨ k = .ilike)
    (htok : e.tokens = a.tokens ++ (negTokens neg ++ .kw k :: ts))
    (hin : ∀ (n : Nat) (rest : List Tok), Ends 3 rest → (ts ++ rest).length < n →
      pRel (pExpr n) n neg a (.kw k :: (ts ++ rest)) = some (e, rest)) : Reads e := by
  cases neg with
  | false =>
    refine reads_of_infix (.kw k) (ts) ha htok (by omega) (fun _ => hp) ?_ (by simp) ?_
    · intro rest
      rw [hprec]
      rcases hk with rfl | rfl | rfl | rfl <;> rfl
    · intro n rest hend hlen
      rw [hprec] at hend
      rcases hk with rfl | rfl | rfl | rfl <;> exact hin n rest hend hlen
  | true =>
    refine reads_of_infix (.kw .not) (.kw k :: ts) ha htok (by omega) (fun _ => hp) ?_ (by simp) ?_
    · intro rest
      rw [hprec]
      rfl
    · intro n rest hend hlen
      rw [hprec] at hend
      simp only [cons_append, length_cons] at hlen
      exact hin n rest hend (by omega)

lemma reads_between {a lo hi : Expr} (ha : Reads a) (hlo : Reads lo)
    (hhi : Reads hi) (hpa : 4 ≤ a.prec) (hplo : 4 ≤ lo.prec) (hphi : 4 ≤ hi.prec) :
    Reads (.between neg a lo hi) := by
  refine reads_rel neg .between (lo.tokens ++ .kw .and :: hi.tokens) ha hpa rfl (.inl rfl) rfl ?_
  intro n rest hend hlen
  simp only [append_assoc, cons_append, length_append, length_cons] at hlen ⊢
  -- the `AND` between the bounds ends the lower one
  have hends : Ends 3 (.kw .and :: (hi.tokens ++ rest)) := Ends.kw _ _ _ fun q hq => by
    cases hq
    omega
  have h₁ := hlo.operand hplo (n := n) hends (by simp; omega)
  have h₂ := hhi.operand hphi (n := n) hend (by simp; omega)
  change (pExpr n 4 (lo.tokens ++ .kw .and :: (hi.tokens ++ rest))).bind _ = _
  rw [h₁]
  change (pExpr n 4 (hi.tokens ++ rest)).bind _ = _
  rw [h₂]
  rfl

lemma reads_like (ci : Bool) {a p : Expr} (ha : Reads a) (hpat : Reads p)
    (hpa : 4 ≤ a.prec) (hpp : 4 ≤ p.prec) : Reads (.like neg ci a p) := by
  refine reads_rel neg (likeKw ci) (p.tokens) ha hpa rfl (by cases ci <;> simp [likeKw]) rfl ?_
  intro n rest hend hlen
  have hin := hpat.operand hpp hend hlen
  have hstep : pRel (pExpr n) n neg a (.kw (likeKw ci) :: (p.tokens ++ rest)) =
      (pExpr n 4 (p.tokens ++ rest)).bind fun r => some (.like neg ci a r.1, r.2) := by
    cases ci <;> rfl
  rw [hstep, hin]
  rfl

/-! ### Argument lists -/

/-- An argument list with at least one argument is read back. -/
def ReadsArgs (as : Args) : Prop :=
  ∀ (n m : Nat) (rest : List Tok), (as.tokens ++ rest).length < n →
    (as.tokens ++ rest).length < m → pItems (pExpr n) m (as.tokens ++ rest) = some (as, rest)

/-- One argument, up to the comma or parenthesis after it. -/
lemma pArg_tokens (he : Reads e) {ts} (hs : s = .rparen ∨ s = .comma)
    (hlen : (nameTokens name ++ (e.tokens ++ .sym s :: ts)).length < n) :
    pArg (pExpr n) (nameTokens name ++ (e.tokens ++ .sym s :: ts)) =
      some ((name, e), .sym s :: ts) := by
  have hs' : s = .rparen ∨ s = .comma ∨ s = .assign := by tauto
  cases name with
  | none =>
    have hin := he.read_closed ts hs' hlen
    simp only [nameTokens, nil_append, pArg, hin]
    rcases hs with rfl | rfl <;> cases e <;> rfl
  | some w =>
    simp only [nameTokens, cons_append, nil_append, length_cons] at hlen ⊢
    have hname : pExpr n 0 (.word w :: .sym .assign :: (e.tokens ++ .sym s :: ts)) =
        some (.const w, .sym .assign :: (e.tokens ++ .sym s :: ts)) :=
      (reads_const w).read_closed _ (.inr (.inr rfl)) hlen
    have hin := he.read_closed (n := n) ts hs' (by omega)
    simp [pArg, hname, hin]

lemma readsArgs_cons {rest : Args} (he : Reads e)
    (hrest : rest ≠ .nil → ReadsArgs rest) : ReadsArgs (.cons name e rest) := by
  intro n m ts hn hm
  obtain ⟨m', rfl⟩ : ∃ m', m = m' + 1 := ⟨m - 1, by omega⟩
  cases rest with
  | nil =>
    simp only [Args.tokens, append_assoc, cons_append, nil_append] at hn ⊢
    simp [pItems, pArg_tokens name he (.inl rfl) hn]
  | cons =>
    simp only [Args.tokens, append_assoc, cons_append] at hn hm ⊢
    rw [pItems, pArg_tokens name he (.inr rfl) hn]
    simp only [length_append, length_cons] at hn hm
    have hr := hrest (by simp) n m' ts (by simp only [length_append]; omega)
      (by simp only [length_append]; omega)
    simp [hr]

lemma reads_inList {items : Args} (ha : Reads a)
    (hp : 4 ≤ a.prec) (hitems : ReadsArgs items) : Reads (.inList neg a items) := by
  refine reads_rel neg .in_ (.sym .lparen :: items.tokens) ha hp rfl (by simp) rfl ?_
  intro n rest _ hlen
  simp only [cons_append, length_cons] at hlen ⊢
  have hin := hitems n n rest (by omega) (by omega)
  change (pItems (pExpr n) n (items.tokens ++ rest)).bind _ = _
  rw [hin]
  rfl

/-- No expression starts with a closing parenthesis. -/
lemma pItems_rparen (n m : Nat) (ts : List Tok) :
    pItems (pExpr n) m (.sym .rparen :: ts) = none := by
  cases m with
  | zero => rfl
  | succ => cases n <;> rfl

lemma reads_call (f : Str) {args : Args} (h : args ≠ .nil → ReadsArgs args) :
    Reads (.call f args) := by
  refine reads_of_prefix ?_
  intro n p rest _ _ hlen
  have htokens : (Expr.call f args).tokens = .word f :: .sym .lparen :: args.tokens := rfl
  rw [htokens] at hlen ⊢
  simp only [cons_append, length_cons] at hlen ⊢
  by_cases hnil : args = .nil
  · subst hnil
    rfl
  have hin := h hnil n n rest (by omega) (by omega)
  have hne : ∀ us, args.tokens ++ rest ≠ .sym .rparen :: us := by
    intro us hus
    rw [hus, pItems_rparen] at hin
    cases hin
  rw [pPrefix, pWord]
  · simp [hin]
  · exact hne

/-! ### Every well-formed tree -/

mutual

theorem reads_of_wf : ∀ e : Expr, e.WF → Reads e
  | .or a b, ⟨ha, hb, hp⟩ => reads_or (reads_of_wf a ha) (reads_of_wf b hb) hp
  | .and a b, ⟨ha, hb, hpa, hpb⟩ => reads_and (reads_of_wf a ha) (reads_of_wf b hb) hpa hpb
  | .not a, ⟨ha, hp⟩ => reads_not (reads_of_wf a ha) hp
  | .cmp op a b, ⟨ha, hb, hpa, hpb⟩ =>
    reads_cmp op (reads_of_wf a ha) (reads_of_wf b hb) hpa hpb
  | .between neg a lo hi, ⟨ha, hlo, hhi, hpa, hplo, hphi⟩ =>
    reads_between neg (reads_of_wf a ha) (reads_of_wf lo hlo) (reads_of_wf hi hhi)
      hpa hplo hphi
  | .inList neg a items, ⟨ha, hitems, hp, hne⟩ =>
    reads_inList neg (reads_of_wf a ha) hp (readsArgs_of_wf items hitems hne)
  | .like neg ci a p, ⟨ha, hpat, hpa, hpp⟩ =>
    reads_like neg ci (reads_of_wf a ha) (reads_of_wf p hpat) hpa hpp
  | .isNull neg a, ⟨ha, hp⟩ => reads_isNull neg (reads_of_wf a ha) hp
  | .arith op a b, ⟨ha, hb, hpa, hpb⟩ =>
    reads_arith op (reads_of_wf a ha) (reads_of_wf b hb) hpa hpb
  | .cast a ty, ⟨ha, hp⟩ => reads_cast (reads_of_wf a ha) hp ty
  | .castFn a ty, ha => reads_castFn (reads_of_wf a ha) ty
  | .paren a, ha => reads_paren (reads_of_wf a ha)
  | .col q name, _ => reads_col q name
  | .param k, _ => reads_of_prefix (by intros; rfl)
  | .int k, _ => reads_int k
  | .str s, _ => reads_of_prefix (by intros; rfl)
  | .const w, _ => reads_const w
  | .call f args, h => reads_call f (readsArgs_of_wf args h)

theorem readsArgs_of_wf : ∀ as : Args, as.WF → as ≠ .nil → ReadsArgs as
  | .nil, _, hne => absurd rfl hne
  | .cons name e rest, ⟨he, hrest⟩, _ =>
    readsArgs_cons name (reads_of_wf e he) (readsArgs_of_wf rest hrest)

end

/-- A well-formed tree is what the parser reads from its tokens. -/
lemma parseTokens_tokens (h : e.WF) : parseTokens e.tokens = some e := by
  have hr : pExpr (e.tokens.length + 1) 0 (e.tokens ++ []) = some (e, []) :=
    (reads_of_wf e h).read (Nat.zero_le _) (Ends.nil _) nofun (by simp)
  rw [append_nil] at hr
  simp [parseTokens, hr]

/-- The text `s` is a spelling of the tree `e`: the tokens of `s` are those of
`e`, and `e` needs no further parentheses. -/
structure Spells (s : Str) (e : Expr) : Prop where
  lexes : lex s = some e.tokens
  wf : e.WF

/-- SQL reads a spelling of `e` as `e`. -/
theorem Spells.parse {s : Str} (h : Spells s e) : parse s = some e := by
  simp [Sql.parse, h.lexes, parseTokens_tokens h.wf]

end NeoServer.Sql
