import NeoServer.Sql.Spelling

/-!
# Sql.Eval — what an SQL expression means on a row

Predicates have three truth values; connectives are those of strong Kleene
logic, as SQL has them. What columns hold and what comparisons, functions, casts
and literals compute is left to an `Engine`, the parameter standing for the
database: the only laws asked of it are that a truth value survives being a
value, and that a comparison read from right to left is the mirrored one.
-/

namespace NeoServer.Sql

/-! ## Three-valued logic -/

/-- True, false, or unknown (`none`). -/
abbrev Truth := Option Bool

namespace Truth

def and : Truth → Truth → Truth
  | some false, _ => some false
  | _, some false => some false
  | some true, some true => some true
  | _, _ => none

def or : Truth → Truth → Truth
  | some true, _ => some true
  | _, some true => some true
  | some false, some false => some false
  | _, _ => none

def not (t : Truth) : Truth := t.map (!·)

/-- A relation, negated where `NOT` precedes it. -/
def negIf (neg : Bool) (t : Truth) : Truth := if neg then t.not else t

variable {ts us : List Truth} {a b : Truth}

lemma and_eq_true : and a b = some true ↔ a = some true ∧ b = some true := by
  rcases a with _ | _ | _ <;> rcases b with _ | _ | _ <;> simp [and]

lemma or_eq_true : or a b = some true ↔ a = some true ∨ b = some true := by
  rcases a with _ | _ | _ <;> rcases b with _ | _ | _ <;> simp [or]

lemma and_assoc (a b c : Truth) : and (and a b) c = and a (and b c) := by
  rcases a with _ | _ | _ <;> rcases b with _ | _ | _ <;> rcases c with _ | _ | _ <;> rfl

lemma or_assoc (a b c : Truth) : or (or a b) c = or a (or b c) := by
  rcases a with _ | _ | _ <;> rcases b with _ | _ | _ <;> rcases c with _ | _ | _ <;> rfl

lemma and_comm (a b : Truth) : and a b = and b a := by
  rcases a with _ | _ | _ <;> rcases b with _ | _ | _ <;> rfl

lemma or_comm (a b : Truth) : or a b = or b a := by
  rcases a with _ | _ | _ <;> rcases b with _ | _ | _ <;> rfl

@[simp] lemma and_true (a : Truth) : and a (some true) = a := by
  rcases a with _ | _ | _ <;> rfl

@[simp] lemma or_false (a : Truth) : or a (some false) = a := by
  rcases a with _ | _ | _ <;> rfl

/-- Conjunction of a list. -/
def all (ts : List Truth) : Truth := ts.foldr and (some true)

/-- Disjunction of a list. -/
def any (ts : List Truth) : Truth := ts.foldr or (some false)

@[simp] lemma all_nil : all [] = some true := rfl

@[simp] lemma any_nil : any [] = some false := rfl

@[simp] lemma all_cons (t : Truth) (ts : List Truth) : all (t :: ts) = and t (all ts) := rfl

@[simp] lemma any_cons (t : Truth) (ts : List Truth) : any (t :: ts) = or t (any ts) := rfl

lemma all_eq_true : all ts = some true ↔ ∀ t ∈ ts, t = some true := by
  induction ts with
  | nil => simp
  | cons t ts ih => simp [and_eq_true, ih]

lemma any_eq_true : any ts = some true ↔ some true ∈ ts := by
  induction ts with
  | nil => simp
  | cons t ts ih =>
    rw [any_cons, or_eq_true, ih, List.mem_cons]
    exact or_congr_left eq_comm

/-- A conjunction does not depend on the order of its members. -/
lemma all_perm (h : ts.Perm us) : all ts = all us := by
  induction h with
  | nil => rfl
  | cons t _ ih => simp [ih]
  | swap t u => simp [← and_assoc, and_comm t u]
  | trans _ _ ih₁ ih₂ => exact ih₁.trans ih₂

/-- A disjunction does not depend on the order of its members. -/
lemma any_perm (h : ts.Perm us) : any ts = any us := by
  induction h with
  | nil => rfl
  | cons t _ ih => simp [ih]
  | swap t u => simp [← or_assoc, or_comm t u]
  | trans _ _ ih₁ ih₂ => exact ih₁.trans ih₂

end Truth

/-! ## Evaluation -/

/-- The comparison read from right to left. -/
def CmpOp.mirror : CmpOp → CmpOp
  | .eq => .eq
  | .neq => .neq
  | .lt => .gt
  | .gt => .lt
  | .le => .ge
  | .ge => .le

/-- What the database computes. -/
structure Engine (Row Val : Type) where
  truth : Val → Truth
  ofTruth : Truth → Val
  truth_ofTruth : ∀ t, truth (ofTruth t) = t
  col : Row → Qual → Str → Val
  int : Int → Val
  str : Str → Val
  const : Str → Val
  isNull : Val → Bool
  cmp : CmpOp → Val → Val → Truth
  cmp_mirror : ∀ op a b, cmp op.mirror b a = cmp op a b
  like : Bool → Val → Val → Truth
  arith : ArithOp → Val → Val → Val
  cast : Str → Val → Val
  call : Str → List (Option Str × Val) → Val

/-- The arguments are bound to the placeholders from `start` on. -/
def Binds {A Val : Type} (bind : A → Val) (start : Nat) (args : List A) (env : Nat → Val) : Prop :=
  ∀ i a, args[i]? = some a → env (start + i) = bind a

section Binds

variable {A Val : Type} {bind : A → Val} {start : Nat} {env : Nat → Val}

lemma binds_cons {a : A} {args : List A} :
    Binds bind start (a :: args) env ↔ env start = bind a ∧ Binds bind (start + 1) args env := by
  constructor
  · intro h
    refine ⟨h 0 a rfl, ?_⟩
    intro i b hb
    have hi := h (i + 1) b hb
    rwa [← Nat.add_assoc, Nat.add_right_comm] at hi
  · rintro ⟨h₀, h⟩ i b hb
    cases i with
    | zero =>
      cases hb
      exact h₀
    | succ i =>
      have hi := h i b hb
      rwa [Nat.add_right_comm] at hi

lemma binds_append {args args' : List A} :
    Binds bind start (args ++ args') env ↔
      Binds bind start args env ∧ Binds bind (start + args.length) args' env := by
  induction args generalizing start with
  | nil => simp [Binds]
  | cons a args ih =>
    rw [List.cons_append, binds_cons, binds_cons, ih, and_assoc, List.length_cons,
      Nat.add_right_comm, Nat.add_assoc start]

/-- Bind the arguments from `start` on, and everything else to `d`. -/
def bindFrom (bind : A → Val) (start : Nat) (args : List A) (d : Val) (n : Nat) : Val :=
  match args[n - start]? with
  | some a => bind a
  | none => d

lemma binds_bindFrom (bind : A → Val) (start : Nat) (args : List A) (d : Val) :
    Binds bind start args (bindFrom bind start args d) := by
  intro i a ha
  simp [bindFrom, ha]

end Binds

section Eval

variable {Row Val : Type} (E : Engine Row Val) (env : Nat → Val) (row : Row)

mutual

/-- The value of an expression on a row; `env n` is the argument bound to `$n`. -/
def Expr.eval : Expr → Val
  | .or a b => E.ofTruth (Truth.or (E.truth a.eval) (E.truth b.eval))
  | .and a b => E.ofTruth (Truth.and (E.truth a.eval) (E.truth b.eval))
  | .not a => E.ofTruth (E.truth a.eval).not
  | .cmp op a b => E.ofTruth (E.cmp op a.eval b.eval)
  | .between neg a lo hi =>
    E.ofTruth ((Truth.and (E.cmp .ge a.eval lo.eval) (E.cmp .le a.eval hi.eval)).negIf neg)
  | .inList neg a items =>
    E.ofTruth ((Truth.any (items.eval.map fun v => E.cmp .eq a.eval v.2)).negIf neg)
  | .like neg ci a p => E.ofTruth ((E.like ci a.eval p.eval).negIf neg)
  | .isNull neg a => E.ofTruth (Truth.negIf neg (some (E.isNull a.eval)))
  | .arith op a b => E.arith op a.eval b.eval
  | .cast a ty => E.cast ty a.eval
  | .castFn a ty => E.cast ty a.eval
  | .paren a => a.eval
  | .col q name => E.col row q name
  | .param n => env n
  | .int n => E.int n
  | .str s => E.str s
  | .const w => E.const w
  | .call f args => E.call f args.eval

/-- The values of an argument list. -/
def Args.eval : Args → List (Option Str × Val)
  | .nil => []
  | .cons name e rest => (name, e.eval) :: rest.eval

end

/-- The truth of a predicate on a row. -/
def Expr.truth (e : Expr) : Truth := E.truth (e.eval E env row)

/-- The rows a `WHERE` clause keeps are those on which its text is true. -/
def Holds (sql : Str) : Prop := ∃ e, parse sql = some e ∧ e.truth E env row = some true

variable (e a : Expr) (es : List Expr) (b : Expr)

@[simp] lemma truth_or :
    (Expr.or a b).truth E env row = Truth.or (a.truth E env row) (b.truth E env row) := by
  simp [Expr.truth, Expr.eval, E.truth_ofTruth]

@[simp] lemma truth_and :
    (Expr.and a b).truth E env row = Truth.and (a.truth E env row) (b.truth E env row) := by
  simp [Expr.truth, Expr.eval, E.truth_ofTruth]

@[simp] lemma truth_not : (Expr.not a).truth E env row = (a.truth E env row).not := by
  simp [Expr.truth, Expr.eval, E.truth_ofTruth]

@[simp] lemma truth_cmp (op : CmpOp) (a b : Expr) :
    (Expr.cmp op a b).truth E env row = E.cmp op (a.eval E env row) (b.eval E env row) := by
  simp [Expr.truth, Expr.eval, E.truth_ofTruth]

@[simp] lemma truth_paren : (Expr.paren a).truth E env row = a.truth E env row := by
  simp [Expr.truth, Expr.eval]

@[simp] lemma eval_ofList (args : List (Option Str × Expr)) :
    (Args.ofList args).eval E env row = args.map fun a => (a.1, a.2.eval E env row) := by
  induction args with
  | nil => rfl
  | cons a args ih => simp [Args.ofList, Args.eval, ih]

lemma truth_conj :
    (conj e es).truth E env row = Truth.all ((e :: es).map fun x => x.truth E env row) := by
  induction es generalizing e with
  | nil => simp [conj]
  | cons e' es ih => simp [conj, ih, Truth.and_assoc]

lemma truth_disj :
    (disj e es).truth E env row = Truth.any ((e :: es).map fun x => x.truth E env row) := by
  induction es generalizing e with
  | nil => simp [disj]
  | cons e' es ih => simp [disj, ih, Truth.or_assoc]

/-- A spelled predicate holds exactly where its tree is true. -/
lemma Spells.holds_iff {s : Str} {e : Expr} (h : Spells s e) :
    Holds E env row s ↔ e.truth E env row = some true := by
  constructor
  · rintro ⟨e', he', ht⟩
    rw [h.parse] at he'
    cases he'
    exact ht
  · intro ht
    exact ⟨e, h.parse, ht⟩

end Eval

end NeoServer.Sql
