import NeoServer.Sql.Lexer

/-!
# Sql.Syntax — expression trees and their canonical token sequences

* `Expr`, `Args` — SQL scalar and boolean expressions. Parentheses are nodes of
  the tree, so that `tokens` is a function of it; `Expr.strip` removes them.
* `Expr.prec` — how tightly the outermost operator of a tree binds:
  `OR` 0, `AND` 1, `NOT` 2, comparisons and their relatives 3, `+ -` 4, `* /` 5,
  `::` 6, primaries 7.
* `Expr.WF` — operands bind at least as tightly as their position demands. A
  tree is well formed exactly when it needs no further parentheses.
-/

namespace NeoServer.Sql

/-- Comparison operators. -/
inductive CmpOp
  | eq | neq | lt | gt | le | ge
deriving DecidableEq, Repr

/-- Arithmetic operators. -/
inductive ArithOp
  | add | sub | mul | div
deriving DecidableEq, Repr

/-- The symbol of a comparison operator. -/
def CmpOp.sym : CmpOp → Sym
  | .eq => .eq
  | .neq => .neq
  | .lt => .lt
  | .gt => .gt
  | .le => .le
  | .ge => .ge

/-- The symbol of an arithmetic operator. -/
def ArithOp.sym : ArithOp → Sym
  | .add => .plus
  | .sub => .minus
  | .mul => .star
  | .div => .slash

/-- How tightly an arithmetic operator binds. -/
def ArithOp.prec (op : ArithOp) : Nat := if op = .add ∨ op = .sub then 4 else 5

/-- The table part of a column reference. -/
inductive Qual
  | none
  | word (w : Str)
  | quoted (name : Str)
deriving DecidableEq, Repr

mutual

/-- SQL expressions. -/
inductive Expr
  | or (a b : Expr)
  | and (a b : Expr)
  | not (a : Expr)
  | cmp (op : CmpOp) (a b : Expr)
  | between (neg : Bool) (a lo hi : Expr)
  | inList (neg : Bool) (a : Expr) (items : Args)
  | like (neg ci : Bool) (a p : Expr)
  | isNull (neg : Bool) (a : Expr)
  | arith (op : ArithOp) (a b : Expr)
  | cast (a : Expr) (ty : Str)
  | castFn (a : Expr) (ty : Str)
  | paren (a : Expr)
  | col (q : Qual) (name : Str)
  | param (n : Nat)
  | int (n : Int)
  | str (s : Str)
  | const (w : Str)
  | call (f : Str) (args : Args)

/-- Argument lists; an argument may be named. -/
inductive Args
  | nil
  | cons (name : Option Str) (e : Expr) (rest : Args)

end

/-- Binding strength of the outermost operator. -/
def Expr.prec : Expr → Nat
  | .or _ _ => 0
  | .and _ _ => 1
  | .not _ => 2
  | .cmp _ _ _ | .between _ _ _ _ | .inList _ _ _ | .like _ _ _ _ | .isNull _ _ => 3
  | .arith op _ _ => op.prec
  | .cast _ _ => 6
  | _ => 7

/-! ## Tokens -/

/-- `NOT`, where a negated relation is written. -/
def negTokens (neg : Bool) : List Tok := if neg then [.kw .not] else []

/-- The keyword of a pattern match. -/
def likeKw (ci : Bool) : Kw := if ci then .ilike else .like

/-- Tokens of a column reference's table part. -/
def Qual.tokens : Qual → List Tok
  | .none => []
  | .word w => [.word w, .sym .dot]
  | .quoted name => [.quoted name, .sym .dot]

/-- Tokens of an integer. -/
def intTokens (n : Int) : List Tok :=
  if n < 0 then [.sym .minus, .num n.natAbs] else [.num n.toNat]

/-- Tokens of an argument's name. -/
def nameTokens : Option Str → List Tok
  | none => []
  | some w => [.word w, .sym .assign]

mutual

/-- The canonical token sequence of an expression. -/
def Expr.tokens : Expr → List Tok
  | .or a b => a.tokens ++ .kw .or :: b.tokens
  | .and a b => a.tokens ++ .kw .and :: b.tokens
  | .not a => .kw .not :: a.tokens
  | .cmp op a b => a.tokens ++ .sym op.sym :: b.tokens
  | .between neg a lo hi =>
    a.tokens ++ (negTokens neg ++ .kw .between :: (lo.tokens ++ .kw .and :: hi.tokens))
  | .inList neg a items =>
    a.tokens ++ (negTokens neg ++ .kw .in_ :: .sym .lparen :: items.tokens)
  | .like neg ci a p => a.tokens ++ (negTokens neg ++ .kw (likeKw ci) :: p.tokens)
  | .isNull neg a => a.tokens ++ .kw .is :: (negTokens neg ++ [.kw .null])
  | .arith op a b => a.tokens ++ .sym op.sym :: b.tokens
  | .cast a ty => a.tokens ++ [.sym .cast, .word ty]
  | .castFn a ty =>
    .kw .cast :: .sym .lparen :: (a.tokens ++ [.kw .as, .word ty, .sym .rparen])
  | .paren a => .sym .lparen :: (a.tokens ++ [.sym .rparen])
  | .col q name => q.tokens ++ [.quoted name]
  | .param n => [.param n]
  | .int n => intTokens n
  | .str s => [.str s]
  | .const w => [.word w]
  | .call f args => .word f :: .sym .lparen :: args.tokens

/-- The tokens of an argument list, closing parenthesis included. -/
def Args.tokens : Args → List Tok
  | .nil => [.sym .rparen]
  | .cons name e .nil => nameTokens name ++ (e.tokens ++ [.sym .rparen])
  | .cons name e rest => nameTokens name ++ (e.tokens ++ .sym .comma :: rest.tokens)

end

/-! ## Well-formed trees -/

mutual

/-- Operands bind as tightly as their positions demand. -/
def Expr.WF : Expr → Prop
  | .or a b => a.WF ∧ b.WF ∧ 1 ≤ b.prec
  | .and a b => a.WF ∧ b.WF ∧ 1 ≤ a.prec ∧ 2 ≤ b.prec
  | .not a => a.WF ∧ 2 ≤ a.prec
  | .cmp _ a b => a.WF ∧ b.WF ∧ 4 ≤ a.prec ∧ 4 ≤ b.prec
  | .between _ a lo hi =>
    a.WF ∧ lo.WF ∧ hi.WF ∧ 4 ≤ a.prec ∧ 4 ≤ lo.prec ∧ 4 ≤ hi.prec
  | .inList _ a items => a.WF ∧ items.WF ∧ 4 ≤ a.prec ∧ items ≠ .nil
  | .like _ _ a p => a.WF ∧ p.WF ∧ 4 ≤ a.prec ∧ 4 ≤ p.prec
  | .isNull _ a => a.WF ∧ 4 ≤ a.prec
  | .arith op a b => a.WF ∧ b.WF ∧ op.prec ≤ a.prec ∧ op.prec < b.prec
  | .cast a _ => a.WF ∧ 6 ≤ a.prec
  | .castFn a _ => a.WF
  | .paren a => a.WF
  | .call _ args => args.WF
  | _ => True

/-- Every argument is well formed. -/
def Args.WF : Args → Prop
  | .nil => True
  | .cons _ e rest => e.WF ∧ rest.WF

end

/-! ## The tree without parentheses -/

mutual

/-- The tree a text denotes: parentheses removed, both spellings of a cast
identified. -/
def Expr.strip : Expr → Expr
  | .or a b => .or a.strip b.strip
  | .and a b => .and a.strip b.strip
  | .not a => .not a.strip
  | .cmp op a b => .cmp op a.strip b.strip
  | .between neg a lo hi => .between neg a.strip lo.strip hi.strip
  | .inList neg a items => .inList neg a.strip items.strip
  | .like neg ci a p => .like neg ci a.strip p.strip
  | .isNull neg a => .isNull neg a.strip
  | .arith op a b => .arith op a.strip b.strip
  | .cast a ty => .cast a.strip ty
  | .castFn a ty => .cast a.strip ty
  | .paren a => a.strip
  | .col q name => .col q name
  | .param n => .param n
  | .int n => .int n
  | .str s => .str s
  | .const w => .const w
  | .call f args => .call f args.strip

/-- `Expr.strip` on every argument. -/
def Args.strip : Args → Args
  | .nil => .nil
  | .cons name e rest => .cons name e.strip rest.strip

end

end NeoServer.Sql
