import NeoServer.Filter.Token
import NeoServer.Sqlutil

/-!
# Filter.Quoted — quoted text is read back, and the lexer comes to an end

- `lexQuoted_doubled` : a text whose quotes are doubled is read up to the quote that closes it,
- `lexes_quoted` : the literals and identifiers that the server writes are one token each, and the
  lexer takes a character of the input with every call.
-/

namespace NeoServer.Filter

open List
open Sql (doubled)

/-- `sqlutil.QuoteLiteral`. -/
def quoteLiteral (value : Str) : Str := "'" ++ replaceAll value "'" "''" ++ "'"

/-- What follows a quoted text does not go on with its quote. -/
def Delimits (q : Char) (rest : Str) : Prop := rest.head? ≠ some q

lemma lexQuoted_doubled {q : Char} {rest : Str} (h : Delimits q rest) (s : Str) :
    lexQuoted q (doubled q s ++ q :: rest) = some (s, rest) := by
  induction s with
  | nil =>
    cases rest with
    | nil => simp [doubled, lexQuoted]
    | cons d rest =>
      have hd : d ≠ q := fun heq => h (congrArg some heq)
      simp [doubled, lexQuoted, hd]
  | cons c s ih =>
    have hcons : doubled q (c :: s) = (if c = q then [q, q] else [c]) ++ doubled q s := rfl
    rw [hcons]
    by_cases hc : c = q
    · simp [hc, lexQuoted, ih]
    · -- the closing quote is still to come
      obtain ⟨d, cs, hrest⟩ : ∃ d cs, doubled q s ++ q :: rest = d :: cs :=
        exists_cons_of_ne_nil (by simp)
      rw [if_neg hc, append_assoc, hrest]
      rw [hrest] at ih
      simp [lexQuoted, hc, ih]

lemma quotedToken_doubled {q : Char} {rest : Str} (h : Delimits q rest) (typ : TokenType) (s : Str) :
    quotedToken q typ (doubled q s ++ q :: rest) = (typ, s, rest) := by
  rw [quotedToken, lexQuoted_doubled h]

/-- A literal and an identifier are read back as one token, wherever they stand, and the lexer
reads every input in at most one call for each character and one more. -/
theorem lexes_quoted (s rest : Str) (n k : Nat) :
    (Delimits '\'' rest → tokenizeFrom n (k + 1) (quoteLiteral s ++ rest) =
      ⟨.string, s, n - (quoteLiteral s ++ rest).length⟩ :: tokenizeFrom n k rest) ∧
    (Delimits '"' rest → tokenizeFrom n (k + 1) (quoteIdent s ++ rest) =
      ⟨.ident, s, n - (quoteIdent s ++ rest).length⟩ :: tokenizeFrom n k rest) ∧
    (∀ input c cs, skipWS input = c :: cs → (scan c cs).2.2.length < input.length) ∧
    ∀ input fuel, input.length < fuel →
      tokenizeFrom n fuel input = tokenizeFrom n (input.length + 1) input ∧
      (tokenizeFrom n fuel input).length ≤ input.length + 1 := by
  refine ⟨?_, ?_, fun _ _ _ => scan_lt, ?_⟩
  · intro h
    have htext : quoteLiteral s ++ rest = '\'' :: (doubled '\'' s ++ '\'' :: rest) := by
      simp [quoteLiteral, replaceAll_singleton s '\'' ['\'', '\''], doubled]
    rw [htext, tokenizeFrom_succ rfl, scan, quotedToken_doubled h]
  · intro h
    have htext : quoteIdent s ++ rest = '"' :: (doubled '"' s ++ '"' :: rest) := by
      simp [quoteIdent_eq, Sql.quotedText]
    rw [htext, tokenizeFrom_succ rfl, scan, quotedToken_doubled h]
  · exact fun input fuel h => tokenizeFrom_bound n fuel _ input h (Nat.lt_succ_self _)

end NeoServer.Filter
