import NeoServer.Text

/-!
# Filter.Token — tokens of CQL2 text and the lexer

The lexer works on bytes; byte `b` is the character with code `b`. It never
fails: what it cannot read becomes an `invalid` token, which no production of the
grammar accepts.

* `scan` — one token from an input that starts with no white space.
* `tokenize` — all tokens, the last one being `eof`.
* `Token.WF` — what the type of a token says about its text.
* `tokenize_append` — a blank ends every token.
-/

namespace NeoServer.Filter

open List

inductive TokenType
  | eof
  | invalid
  | ident
  | string
  | number
  | bool
  | temporal
  | lParen
  | rParen
  | comma
  | and
  | or
  | not
  | eq
  | neq
  | lt
  | gt
  | lte
  | gte
  | plus
  | minus
  | mul
  | div
  | like
  | iLike
  | between
  | in_
  | is
  | null
  | spatialOp
  | dWithin
  | point
  | lineString
  | polygon
  | multiPoint
  | multiLineString
  | multiPolygon
  | geometryCollection
  | envelope
deriving DecidableEq, Repr

structure Token where
  typ : TokenType
  raw : Str
  pos : Nat
deriving DecidableEq, Repr

/-! ## Character classes -/

def isAlpha (c : Char) : Bool := c.isAlpha

def isDigit (c : Char) : Bool := c.isDigit

/-- `unicode.IsSpace(rune(b))` for a byte `b`. -/
def isSpace (c : Char) : Bool :=
  c = '\t' || c = '\n' || c = '\x0b' || c = '\x0c' || c = '\r' || c = ' ' ||
    c = '\x85' || c = '\xa0'

/-- `string(b)` for a byte `b`: the UTF-8 encoding of the rune with that code. -/
def runeBytes (c : Char) : Str :=
  if c.toNat < 0x80 then [c]
  else [Char.ofNat (0xc0 + c.toNat / 64), Char.ofNat (0x80 + c.toNat % 64)]

/-! ## Words -/

/-- The reserved words, in upper case. -/
def keywords : List (Str × TokenType) :=
  [("AND", .and), ("OR", .or), ("NOT", .not), ("LIKE", .like),
    ("ILIKE", .iLike), ("BETWEEN", .between), ("IN", .in_),
    ("IS", .is), ("NULL", .null), ("TRUE", .bool),
    ("FALSE", .bool), ("NOW", .temporal), ("EQUALS", .spatialOp),
    ("DISJOINT", .spatialOp), ("TOUCHES", .spatialOp),
    ("WITHIN", .spatialOp), ("OVERLAPS", .spatialOp),
    ("CROSSES", .spatialOp), ("INTERSECTS", .spatialOp),
    ("CONTAINS", .spatialOp), ("S_INTERSECTS", .spatialOp),
    ("DWITHIN", .dWithin), ("POINT", .point),
    ("LINESTRING", .lineString), ("POLYGON", .polygon),
    ("MULTIPOINT", .multiPoint), ("MULTILINESTRING", .multiLineString),
    ("MULTIPOLYGON", .multiPolygon),
    ("GEOMETRYCOLLECTION", .geometryCollection), ("ENVELOPE", .envelope),
    ("BBOX", .envelope)]

/-- The text of a reserved word's token. -/
def keywordRaw (typ : TokenType) (raw up : Str) : Str :=
  match typ with
  | .bool | .spatialOp | .dWithin => toLower up
  | .temporal => "NOW"
  | .envelope => "ENVELOPE"
  | .point | .lineString | .polygon | .multiPoint | .multiLineString | .multiPolygon
  | .geometryCollection => up
  | _ => raw

/-- `YYYY-MM-DD`, with anything after it. -/
def looksLikeDateOrDateTime : Str → Bool
  | y₁ :: y₂ :: y₃ :: y₄ :: s₁ :: m₁ :: m₂ :: s₂ :: d₁ :: d₂ :: _ =>
    s₁ = '-' && s₂ = '-' && [y₁, y₂, y₃, y₄, m₁, m₂, d₁, d₂].all isDigit
  | _ => false

/-- The type and text of a word. -/
def wordToken (raw : Str) : TokenType × Str :=
  match keywords.find? fun k => k.1 = toUpper raw with
  | some (up, typ) => (typ, keywordRaw typ raw up)
  | none => if looksLikeDateOrDateTime raw then (.temporal, raw) else (.ident, raw)

def isWordChar (c : Char) : Bool := isAlpha c || isDigit c || c = '_' || c = ':' || c = '$'

/-! ## Scanners

Each returns the text it read and what is left of the input. -/

/-- The text up to the closing quote `q`, a doubled quote standing for itself;
`none` if there is no closing quote. -/
def lexQuoted (q : Char) : Str → Option (Str × Str)
  | [] => none
  | [c] => if c = q then some ([], []) else none
  | c :: d :: cs =>
    if c = q then
      if d = q then (lexQuoted q cs).map fun r => (q :: r.1, r.2)
      else some ([], d :: cs)
    else (lexQuoted q (d :: cs)).map fun r => (c :: r.1, r.2)

/-- A string or a quoted identifier; the opening quote has been read. -/
def quotedToken (q : Char) (typ : TokenType) (cs : Str) : TokenType × Str × Str :=
  match lexQuoted q cs with
  | some (raw, rest) => (typ, raw, rest)
  | none => (.invalid, q :: cs, [])

/-- An optional sign. -/
def takeSign : Str → Str × Str
  | [] => ([], [])
  | c :: cs => if c = '+' || c = '-' then ([c], cs) else ([], c :: cs)

/-- An optional exponent. -/
def takeExponent : Str → Str × Str
  | [] => ([], [])
  | c :: cs =>
    if c = 'e' || c = 'E' then
      let (sign, cs) := takeSign cs
      (c :: (sign ++ cs.takeWhile isDigit), cs.dropWhile isDigit)
    else ([], c :: cs)

def isNumberChar (c : Char) : Bool := isDigit c || c = '.'

def lexNumber (s : Str) : Str × Str :=
  let (sign, s) := takeSign s
  let (exponent, rest) := takeExponent (s.dropWhile isNumberChar)
  (sign ++ s.takeWhile isNumberChar ++ exponent, rest)

def isTemporalChar (c : Char) : Bool :=
  isDigit c || isAlpha c || c = '-' || c = '+' || c = ':' || c = '.'

def lexTemporalCandidate (s : Str) : Option (Str × Str) :=
  let raw := s.takeWhile isTemporalChar
  if looksLikeDateOrDateTime raw then some (raw, s.dropWhile isTemporalChar) else none

/-- Whether a minus sign starts a number. -/
def peekNumberStart : Str → Bool
  | [] => false
  | c :: _ => isDigit c || c = '.'

/-- `<=`, `<>` or `<`. -/
def lexLess : Str → TokenType × Str × Str
  | '=' :: cs => (.lte, "<=", cs)
  | '>' :: cs => (.neq, "<>", cs)
  | cs => (.lt, "<", cs)

/-- `>=` or `>`. -/
def lexGreater : Str → TokenType × Str × Str
  | '=' :: cs => (.gte, ">=", cs)
  | cs => (.gt, ">", cs)

/-- A token that starts with a digit or a period. -/
def lexDigits (s : Str) : TokenType × Str × Str :=
  match lexTemporalCandidate s with
  | some (raw, rest) => (.temporal, raw, rest)
  | none => (.number, lexNumber s)

/-- A token that starts with the letter `c`. -/
def lexWord (c : Char) (cs : Str) : TokenType × Str × Str :=
  let (typ, raw) := wordToken (c :: cs.takeWhile isWordChar)
  (typ, raw, cs.dropWhile isWordChar)

/-- The token that starts with `c`: its type, its text and the rest of the input. -/
def scan (c : Char) (cs : Str) : TokenType × Str × Str :=
  match c with
  | '(' => (.lParen, "(", cs)
  | ')' => (.rParen, ")", cs)
  | ',' => (.comma, ",", cs)
  | '+' => (.plus, "+", cs)
  | '-' => if peekNumberStart cs then (.number, lexNumber ('-' :: cs)) else (.minus, "-", cs)
  | '*' => (.mul, "*", cs)
  | '/' => (.div, "/", cs)
  | '<' => lexLess cs
  | '>' => lexGreater cs
  | '=' => (.eq, "=", cs)
  | '\'' => quotedToken '\'' .string cs
  | '"' => quotedToken '"' .ident cs
  | c =>
    if isDigit c || c = '.' then lexDigits (c :: cs)
    else if isAlpha c then lexWord c cs
    else (.invalid, runeBytes c, cs)

/-! ## The token stream -/

def skipWS (s : Str) : Str := s.dropWhile isSpace

/-- The tokens of what is left of an input of length `n`. Every token but the
last takes at least one byte, so a bound above the length of `s` is never
reached. -/
def tokenizeFrom (n : Nat) : Nat → Str → List Token
  | 0, _ => [⟨.eof, [], n⟩]
  | k + 1, s =>
    match skipWS s with
    | [] => [⟨.eof, [], n⟩]
    | c :: cs =>
      let (typ, raw, rest) := scan c cs
      ⟨typ, raw, n - (c :: cs).length⟩ :: tokenizeFrom n k rest

/-- All tokens of an input. -/
def tokenize (s : Str) : List Token := tokenizeFrom s.length (s.length + 1) s

/-! ## What a token's type says about its text -/

/-- The spatial operators, as the lexer writes them. -/
def spatialOps : List Str :=
  ["equals", "disjoint", "touches", "within", "overlaps",
    "crosses", "intersects", "contains", "s_intersects"]

/-- Texts a token of a type can have. -/
def TokenType.Admits (typ : TokenType) (raw : Str) : Prop :=
  match typ with
  | .eq => raw = "="
  | .neq => raw = "<>"
  | .lt => raw = "<"
  | .gt => raw = ">"
  | .lte => raw = "<="
  | .gte => raw = ">="
  | .plus => raw = "+"
  | .minus => raw = "-"
  | .mul => raw = "*"
  | .div => raw = "/"
  | .bool => raw = "true" ∨ raw = "false"
  | .spatialOp => raw ∈ spatialOps
  | .temporal => raw = "NOW" ∨ looksLikeDateOrDateTime raw = true
  | _ => True

/-- A token as the lexer makes it. -/
def Token.WF (t : Token) : Prop := t.typ.Admits t.raw

/-- What the reserved words of the constrained types are. -/
lemma keywords_admit :
    ∀ k ∈ keywords, (k.2 = .bool → toLower k.1 = "true" ∨ toLower k.1 = "false") ∧
      (k.2 = .spatialOp → toLower k.1 ∈ spatialOps) ∧
      k.2 ∉ [.eq, .neq, .lt, .gt, .lte, .gte, .plus, .minus, .mul, .div, .eof] := by
  decide

lemma keywordRaw_admits {raw up : Str} {typ} (h : (up, typ) ∈ keywords) :
    typ.Admits (keywordRaw typ raw up) ∧ typ ≠ .eof := by
  obtain ⟨hbool, hspatial, hop⟩ := keywords_admit _ h
  cases typ with
  | bool => exact ⟨hbool rfl, nofun⟩
  | spatialOp => exact ⟨hspatial rfl, nofun⟩
  | temporal => exact ⟨.inl rfl, nofun⟩
  | eq | neq | lt | gt | lte | gte | plus | minus | mul | div | eof => simp at hop
  | _ => exact ⟨trivial, nofun⟩

lemma wordToken_admits (raw : Str) :
    (wordToken raw).1.Admits (wordToken raw).2 ∧ (wordToken raw).1 ≠ .eof := by
  unfold wordToken
  split
  · rename_i up typ hfind
    exact keywordRaw_admits (mem_of_find?_eq_some hfind)
  split
  · rename_i hdate
    exact ⟨.inr hdate, nofun⟩
  · exact ⟨trivial, nofun⟩

/-- A scanned token's text is one its type admits. -/
def Admitted (r : TokenType × Str × Str) : Prop := r.1.Admits r.2.1

lemma length_dropWhile_le (p : Char → Bool) (s : Str) : (s.dropWhile p).length ≤ s.length :=
  (dropWhile_suffix p).length_le

lemma takeSign_length (s : Str) : (takeSign s).2.length ≤ s.length := by
  cases s with
  | nil => simp [takeSign]
  | cons =>
    simp only [takeSign]
    split <;> simp

lemma takeExponent_length (s : Str) : (takeExponent s).2.length ≤ s.length := by
  cases s with
  | nil => simp [takeExponent]
  | cons c cs =>
    simp only [takeExponent]
    split
    · have h₁ := takeSign_length cs
      have h₂ := length_dropWhile_le isDigit (takeSign cs).2
      simp only [length_cons]
      omega
    · simp

/-- A number takes at least its first character. -/
lemma lexNumber_length {c : Char} {cs : Str} (h : c = '-' ∨ isNumberChar c = true) :
    (lexNumber (c :: cs)).2.length ≤ cs.length := by
  have hexp : ∀ s : Str, (takeExponent (s.dropWhile isNumberChar)).2.length ≤ s.length := fun s =>
    (takeExponent_length _).trans (length_dropWhile_le _ _)
  unfold lexNumber
  by_cases hsign : c = '+' ∨ c = '-'
  · simpa [takeSign, hsign] using hexp cs
  · have hc : isNumberChar c = true := by tauto
    have hdrop : (c :: cs).dropWhile isNumberChar = cs.dropWhile isNumberChar := by simp [hc]
    simpa [takeSign, hsign, hdrop] using hexp cs

lemma lexQuoted_length (q : Char) :
    ∀ (s : Str) {raw rest : Str}, lexQuoted q s = some (raw, rest) → rest.length ≤ s.length
  | [], _, _, h => by simp [lexQuoted] at h
  | [c], raw, rest, h => by
    simp only [lexQuoted] at h
    split at h
    · cases h
      simp
    · cases h
  | c :: d :: cs, raw, rest, h => by
    simp only [lexQuoted] at h
    split at h
    · split at h
      · simp only [Option.map_eq_some_iff] at h
        obtain ⟨⟨raw', rest'⟩, hin, heq⟩ := h
        have ih := lexQuoted_length q cs hin
        cases heq
        simp only [length_cons]
        omega
      · cases h
        simp
    · simp only [Option.map_eq_some_iff] at h
      obtain ⟨⟨raw', rest'⟩, hin, heq⟩ := h
      have ih := lexQuoted_length q (d :: cs) hin
      cases heq
      simp only [length_cons] at ih ⊢
      omega

/-- What `scan` makes of a character and the text `cs` after it. Every token takes at least
one character. -/
structure Scanned (cs : Str) (r : TokenType × Str × Str) : Prop where
  admitted : Admitted r
  ne_eof : r.1 ≠ .eof
  length : r.2.2.length ≤ cs.length

lemma quotedToken_scanned (q : Char) (typ : TokenType) (h : ∀ raw, typ.Admits raw)
    (hne : typ ≠ .eof) (cs : Str) : Scanned cs (quotedToken q typ cs) := by
  unfold quotedToken
  split
  · rename_i hquoted
    exact ⟨h _, hne, lexQuoted_length q cs hquoted⟩
  · exact ⟨trivial, nofun, Nat.zero_le _⟩

lemma lexDigits_scanned {c : Char} {cs : Str} (h : isNumberChar c = true) :
    Scanned cs (lexDigits (c :: cs)) := by
  unfold lexDigits
  split
  · rename_i raw rest htemp
    have hc : isTemporalChar c = true := by
      simp only [isNumberChar, isTemporalChar, Bool.or_eq_true] at h ⊢
      tauto
    unfold lexTemporalCandidate at htemp
    dsimp only at htemp
    split at htemp
    · rename_i hdate
      cases htemp
      refine ⟨.inr hdate, nofun, ?_⟩
      simpa [hc] using length_dropWhile_le isTemporalChar cs
    · cases htemp
  · exact ⟨trivial, nofun, lexNumber_length (.inr h)⟩

lemma scan_scanned (c : Char) (cs : Str) : Scanned cs (scan c cs) := by
  unfold scan
  split
  case h_5 =>
    -- a minus sign is an operator or the start of a number
    split
    · exact ⟨trivial, nofun, lexNumber_length (.inl rfl)⟩
    · exact ⟨rfl, nofun, le_rfl⟩
  case h_8 =>
    unfold lexLess
    split <;> exact ⟨rfl, nofun, by simp⟩
  case h_9 =>
    unfold lexGreater
    split <;> exact ⟨rfl, nofun, by simp⟩
  case h_11 => exact quotedToken_scanned '\'' .string (fun _ => trivial) nofun cs
  case h_12 => exact quotedToken_scanned '"' .ident (fun _ => trivial) nofun cs
  case h_13 =>
    split
    · rename_i hd
      exact lexDigits_scanned (by simpa [isNumberChar] using hd)
    split
    · obtain ⟨hadmits, hne⟩ := wordToken_admits (c :: cs.takeWhile isWordChar)
      exact ⟨hadmits, hne, length_dropWhile_le isWordChar cs⟩
    · exact ⟨trivial, nofun, le_rfl⟩
  all_goals exact ⟨by first | rfl | trivial, nofun, le_rfl⟩

lemma tokenizeFrom_wf (n : Nat) : ∀ (k : Nat) (s : Str), ∀ t ∈ tokenizeFrom n k s, t.WF
  | 0, s, t, ht => by
    simp only [tokenizeFrom, mem_singleton] at ht
    subst ht
    trivial
  | k + 1, s, t, ht => by
    unfold tokenizeFrom at ht
    split at ht
    · simp only [mem_singleton] at ht
      subst ht
      trivial
    · rename_i c cs _
      rcases mem_cons.mp ht with rfl | ht
      · exact (scan_scanned c cs).admitted
      · exact tokenizeFrom_wf n k _ t ht

/-- Every token of an input is well formed. -/
lemma tokenize_wf (s : Str) : ∀ t ∈ tokenize s, t.WF := tokenizeFrom_wf _ _ _

/-! ## A blank ends every token -/

section Blank

variable (b : Str)

lemma takeWhile_blank {p : Char → Bool} (hp : p ' ' = false) (a : Str) :
    (a ++ ' ' :: b).takeWhile p = a.takeWhile p := by
  induction a with
  | nil => simp [hp]
  | cons c cs ih => cases hc : p c <;> simp [hc, ih]

lemma dropWhile_blank {p : Char → Bool} (hp : p ' ' = false) (a : Str) :
    (a ++ ' ' :: b).dropWhile p = a.dropWhile p ++ ' ' :: b := by
  induction a with
  | nil => simp [hp]
  | cons c cs ih => cases hc : p c <;> simp [hc, ih]

/-- What a scanner reads does not change when a blank and more text follow. -/
def blankAfter (r : TokenType × Str × Str) : TokenType × Str × Str :=
  (r.1, r.2.1, r.2.2 ++ ' ' :: b)

lemma takeSign_blank (s : Str) :
    takeSign (s ++ ' ' :: b) = ((takeSign s).1, (takeSign s).2 ++ ' ' :: b) := by
  cases s with
  | nil => simp [takeSign]
  | cons =>
    simp only [takeSign, cons_append]
    split <;> rfl

lemma takeExponent_blank (s : Str) :
    takeExponent (s ++ ' ' :: b) = ((takeExponent s).1, (takeExponent s).2 ++ ' ' :: b) := by
  cases s with
  | nil => simp [takeExponent]
  | cons =>
    simp only [takeExponent, cons_append, takeSign_blank]
    split
    · simp [takeWhile_blank b (p := isDigit) rfl, dropWhile_blank b (p := isDigit) rfl]
    · rfl

lemma lexNumber_blank (s : Str) :
    lexNumber (s ++ ' ' :: b) = ((lexNumber s).1, (lexNumber s).2 ++ ' ' :: b) := by
  simp only [lexNumber, takeSign_blank, takeWhile_blank b (p := isNumberChar) rfl,
    dropWhile_blank b (p := isNumberChar) rfl, takeExponent_blank]

lemma lexQuoted_blank {q : Char} (hq : ' ' ≠ q) :
    ∀ (s : Str) {raw rest : Str}, lexQuoted q s = some (raw, rest) →
      lexQuoted q (s ++ ' ' :: b) = some (raw, rest ++ ' ' :: b)
  | [], _, _, h => by simp [lexQuoted] at h
  | [c], raw, rest, h => by
    by_cases hc : c = q
    · simp only [lexQuoted, hc, if_true, Option.some.injEq, Prod.mk.injEq] at h
      obtain ⟨rfl, rfl⟩ := h
      simp [lexQuoted, hc, hq]
    · simp [lexQuoted, hc] at h
  | c :: d :: cs, raw, rest, h => by
    by_cases hc : c = q
    · by_cases hd : d = q
      · simp only [lexQuoted, hc, hd, if_true, Option.map_eq_some_iff] at h
        obtain ⟨⟨raw', rest'⟩, hin, heq⟩ := h
        have ih := lexQuoted_blank hq cs hin
        cases heq
        simp [lexQuoted, hc, hd, ih]
      · simp only [lexQuoted, hc, hd, if_true, if_false, Option.some.injEq,
          Prod.mk.injEq] at h
        obtain ⟨rfl, rfl⟩ := h
        simp [lexQuoted, hc, hd]
    · simp only [lexQuoted, hc, if_false, Option.map_eq_some_iff] at h
      obtain ⟨⟨raw', rest'⟩, hin, heq⟩ := h
      have ih := lexQuoted_blank hq (d :: cs) hin
      cases heq
      simp only [cons_append] at ih ⊢
      simp [lexQuoted, hc, ih]

lemma quotedToken_blank (q : Char) (typ : TokenType) (hq : ' ' ≠ q) (cs : Str)
    (h : (quotedToken q typ cs).1 ≠ .invalid) :
    quotedToken q typ (cs ++ ' ' :: b) = blankAfter b (quotedToken q typ cs) := by
  unfold quotedToken at h ⊢
  cases hl : lexQuoted q cs with
  | none => simp [hl] at h
  | some => simp [lexQuoted_blank b hq cs hl, blankAfter]

lemma lexDigits_blank (s : Str) : lexDigits (s ++ ' ' :: b) = blankAfter b (lexDigits s) := by
  unfold lexDigits lexTemporalCandidate
  dsimp only
  rw [takeWhile_blank b (p := isTemporalChar) rfl, dropWhile_blank b (p := isTemporalChar) rfl,
    lexNumber_blank]
  cases looksLikeDateOrDateTime (s.takeWhile isTemporalChar) <;> rfl

/-- A scanned token does not change when a blank and more text follow, unless it
is a quoted text without its closing quote. -/
lemma scan_blank (c : Char) (cs : Str) (h : (scan c cs).1 ≠ .invalid) :
    scan c (cs ++ ' ' :: b) = blankAfter b (scan c cs) := by
  unfold scan at h ⊢
  split
  case h_5 =>
    have hpeek : peekNumberStart (cs ++ ' ' :: b) = peekNumberStart cs := by
      cases cs <;> rfl
    rw [hpeek]
    split
    · have hnum := lexNumber_blank b ('-' :: cs)
      simp only [cons_append] at hnum
      rw [hnum]
      rfl
    · rfl
  case h_8 =>
    cases cs with
    | nil => rfl
    | cons =>
      unfold lexLess
      split <;> simp_all [blankAfter]
  case h_9 =>
    cases cs with
    | nil => rfl
    | cons =>
      unfold lexGreater
      split <;> simp_all [blankAfter]
  case h_11 => exact quotedToken_blank b '\'' .string (by decide) cs h
  case h_12 => exact quotedToken_blank b '"' .ident (by decide) cs h
  case h_13 =>
    split
    · exact lexDigits_blank b (_ :: cs)
    split
    · simp only [lexWord, takeWhile_blank b (p := isWordChar) rfl,
        dropWhile_blank b (p := isWordChar) rfl, blankAfter]
    · rfl
  all_goals rfl

end Blank

/-! ## Lexemes

Types and texts of the tokens, without positions and without the last one. -/

def lexemesFrom : Nat → Str → List (TokenType × Str)
  | 0, _ => []
  | k + 1, s =>
    match skipWS s with
    | [] => []
    | c :: cs => ((scan c cs).1, (scan c cs).2.1) :: lexemesFrom k (scan c cs).2.2

def lexemes (s : Str) : List (TokenType × Str) := lexemesFrom (s.length + 1) s

def Token.lexeme (t : Token) : TokenType × Str := (t.typ, t.raw)

lemma tokenizeFrom_lexemes (n : Nat) :
    ∀ (k : Nat) (s : Str),
      (tokenizeFrom n k s).map Token.lexeme = lexemesFrom k s ++ [(.eof, [])]
  | 0, _ => rfl
  | k + 1, s => by
    unfold tokenizeFrom lexemesFrom
    split
    · rfl
    · simp [Token.lexeme, tokenizeFrom_lexemes n k]

lemma tokenize_lexemes (s : Str) : (tokenize s).map Token.lexeme = lexemes s ++ [(.eof, [])] :=
  tokenizeFrom_lexemes _ _ _

/-- One call of the lexer. -/
lemma tokenizeFrom_succ {s cs : Str} {c : Char} (h : skipWS s = c :: cs) (n k : Nat) :
    tokenizeFrom n (k + 1) s = ⟨(scan c cs).1, (scan c cs).2.1, n - (c :: cs).length⟩ ::
      tokenizeFrom n k (scan c cs).2.2 := by
  rw [tokenizeFrom, h]

lemma scan_lt {s cs : Str} {c : Char} (h : skipWS s = c :: cs) :
    (scan c cs).2.2.length < s.length := by
  have hlen : (c :: cs).length ≤ s.length := h ▸ length_dropWhile_le isSpace s
  have hscan := (scan_scanned c cs).length
  simp only [length_cons] at hlen
  omega

/-- The bound does not matter once it exceeds the input. -/
lemma tokenizeFrom_bound (n : Nat) : ∀ (k k' : Nat) (s : Str), s.length < k → s.length < k' →
    tokenizeFrom n k s = tokenizeFrom n k' s ∧ (tokenizeFrom n k s).length ≤ s.length + 1
  | 0, _, _, h, _ => absurd h (Nat.not_lt_zero _)
  | _ + 1, 0, _, _, h => absurd h (Nat.not_lt_zero _)
  | k + 1, k' + 1, s, h, h' => by
    cases hs : skipWS s with
    | nil => simp [tokenizeFrom, hs]
    | cons c cs =>
      have hlt := scan_lt hs
      have hrest := tokenizeFrom_bound n k k' (scan c cs).2.2 (by omega) (by omega)
      rw [tokenizeFrom_succ hs, tokenizeFrom_succ hs, hrest.1]
      rw [hrest.1] at hrest
      exact ⟨rfl, Nat.succ_le_succ (hrest.2.trans hlt)⟩

lemma lexemesFrom_bound {k k' : Nat} {s : Str} (h : s.length < k) (h' : s.length < k') :
    lexemesFrom k s = lexemesFrom k' s := by
  have htokens := congrArg (map Token.lexeme) (tokenizeFrom_bound 0 k k' s h h').1
  rw [tokenizeFrom_lexemes, tokenizeFrom_lexemes] at htokens
  exact append_cancel_right htokens

lemma lexemesFrom_append (b : Str) :
    ∀ (k : Nat) (a : Str), (a ++ ' ' :: b).length < k →
      (∀ l ∈ lexemesFrom k a, l.1 ≠ .invalid) →
      lexemesFrom k (a ++ ' ' :: b) = lexemesFrom k a ++ lexemes b
  | 0, _, h, _ => absurd h (by omega)
  | k + 1, a, h, hval => by
    simp only [length_append, length_cons] at h
    have hskip : skipWS (a ++ ' ' :: b) =
        if (skipWS a).isEmpty then skipWS b else skipWS a ++ ' ' :: b := by
      simp only [skipWS, dropWhile_append]
      rfl
    cases ha : skipWS a with
    | nil =>
      have hb : lexemesFrom (k + 1) b = lexemes b :=
        lexemesFrom_bound (by omega) (by omega)
      rw [← hb]
      simp [lexemesFrom, hskip, ha]
    | cons c cs =>
      have hlt := scan_lt ha
      simp only [lexemesFrom, ha, mem_cons, forall_eq_or_imp] at hval
      have hrest := lexemesFrom_append b k (scan c cs).2.2
        (by simp only [length_append, length_cons]; omega) hval.2
      simp [lexemesFrom, hskip, ha, scan_blank b c cs hval.1, blankAfter, hrest]

/-- A blank separates the tokens before it from those after it, unless a quoted
text before it is not closed. -/
lemma lexemes_append (a b : Str) (h : ∀ l ∈ lexemes a, l.1 ≠ .invalid) :
    lexemes (a ++ ' ' :: b) = lexemes a ++ lexemes b := by
  have hbound : lexemesFrom ((a ++ ' ' :: b).length + 1) a = lexemes a :=
    lexemesFrom_bound (by simp only [length_append]; omega) (by omega)
  have happ := lexemesFrom_append b ((a ++ ' ' :: b).length + 1) a (by omega)
    (by rw [hbound]; exact h)
  rw [hbound] at happ
  exact happ

/-! ## The end comes last -/

lemma lexemesFrom_ne_eof : ∀ (k : Nat) (s : Str), ∀ l ∈ lexemesFrom k s, l.1 ≠ .eof
  | 0, _, _, hl => absurd hl (by simp [lexemesFrom])
  | k + 1, s, l, hl => by
    unfold lexemesFrom at hl
    split at hl
    · exact absurd hl (by simp)
    rename_i c cs _
    rcases mem_cons.mp hl with rfl | hl
    · exact (scan_scanned c cs).ne_eof
    · exact lexemesFrom_ne_eof k _ l hl

/-- No token before the last is the end of the input. -/
lemma lexemes_ne_eof (s : Str) : ∀ l ∈ lexemes s, l.1 ≠ .eof := lexemesFrom_ne_eof _ _

end NeoServer.Filter
