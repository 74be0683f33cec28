import Mathlib.Data.List.Basic
import Mathlib.Data.List.Infix

/-!
# Text — strings as lists of characters

A Go string is modelled as the list of its elements. Code that indexes bytes
(the CQL2 lexer, the name sanitizer) reads it as the list of its bytes, byte
`b` being the character with code `b`; text that comes out of an XML decoder is
valid UTF-8 and is read as the list of its code points. Only the operations of
`strings`, `strconv` and `fmt` that the modelled code calls are here.
-/

namespace NeoServer

open List

/-- A string, as the list of its elements. -/
abbrev Str := List Char

instance : Coe String Str := ⟨String.toList⟩

instance instLawfulBEqStr : LawfulBEq Str := instLawfulBEq

/-- `strings.Join`. -/
def join (sep : Str) : List Str → Str
  | [] => []
  | [x] => x
  | x :: y :: xs => x ++ sep ++ join sep (y :: xs)

@[simp] lemma join_nil (sep : Str) : join sep [] = [] := rfl

@[simp] lemma join_singleton (sep x : Str) : join sep [x] = x := rfl

variable {xs : List Str} {c : Char} {s : Str}

lemma join_cons (sep x : Str) (h : xs ≠ []) : join sep (x :: xs) = x ++ sep ++ join sep xs := by
  cases xs with
  | nil => exact absurd rfl h
  | cons => rfl

/-- `fmt.Sprintf("%d", n)` for a natural number. -/
def natDecimal (n : Nat) : Str := Nat.toDigits 10 n

/-- `fmt.Sprintf("%d", n)`. -/
def decimal : Int → Str
  | .ofNat n => natDecimal n
  | .negSucc n => '-' :: natDecimal (n + 1)

lemma isDigit_of_mem_natDecimal {n : Nat} (h : c ∈ natDecimal n) : c.isDigit :=
  Nat.isDigit_of_mem_toDigits (by decide) (by decide) h

lemma natDecimal_ne_nil (n : Nat) : natDecimal n ≠ [] := Nat.toDigits_ne_nil

lemma natDecimal_injective : Function.Injective natDecimal := by
  intro m n h
  have hread := congrArg (Nat.ofDigitChars 10 · 0) h
  simpa [natDecimal, Nat.ofDigitChars_ten_toDigits] using hread

/-- The value of digits, most significant first. -/
def digitsValue (digits : Str) : Nat :=
  digits.foldl (fun n c => 10 * n + (c.toNat - '0'.toNat)) 0

/-- `strconv.Atoi`. -/
def atoi (s : Str) : Option Int :=
  let (negative, digits) := match s with
    | '-' :: ds => (true, ds)
    | '+' :: ds => (false, ds)
    | ds => (false, ds)
  let n : Int := if negative then -digitsValue digits else digitsValue digits
  -- what an `int` holds
  if digits ≠ [] ∧ digits.all Char.isDigit ∧
      -9223372036854775808 ≤ n ∧ n < 9223372036854775808 then some n else none

/-- `strings.ToUpper` on ASCII text. -/
def toUpper (s : Str) : Str := s.map Char.toUpper

/-- `strings.ToLower` on ASCII text. -/
def toLower (s : Str) : Str := s.map Char.toLower

/-- The scan of `strings.ReplaceAll`: `skip` elements of the last match are
still to be passed over. -/
def replaceAllFrom (old new : Str) : Nat → Str → Str
  | _, [] => []
  | skip + 1, _ :: cs => replaceAllFrom old new skip cs
  | 0, c :: cs =>
    if old.isPrefixOf (c :: cs) then new ++ replaceAllFrom old new (old.length - 1) cs
    else c :: replaceAllFrom old new 0 cs

/-- `strings.ReplaceAll` for a non-empty `old`: matches are replaced from left
to right without overlap. -/
def replaceAll (s old new : Str) : Str := replaceAllFrom old new 0 s

/-- Replacing a single character maps over the string. -/
lemma replaceAll_singleton (s : Str) (a : Char) (new : Str) :
    replaceAll s [a] new = s.flatMap fun c => if c = a then new else [c] := by
  unfold replaceAll
  induction s with
  | nil => rfl
  | cons c cs ih =>
    by_cases hc : c = a
    · subst hc
      simp [replaceAllFrom, isPrefixOf, ih]
    · have hac : ¬ a = c := fun h => hc h.symm
      simp [replaceAllFrom, isPrefixOf, hc, hac, ih]

/-! ## Code points -/

/-- `unicode.IsSpace`. -/
def isSpaceRune (c : Char) : Bool :=
  let n := c.toNat
  (9 ≤ n && n ≤ 13) || n == 0x20 || n == 0x85 || n == 0xa0 || n == 0x1680 ||
    (0x2000 ≤ n && n ≤ 0x200a) || n == 0x2028 || n == 0x2029 || n == 0x202f || n == 0x205f ||
    n == 0x3000

/-- `strings.TrimSpace`. -/
def trimSpace (s : Str) : Str :=
  ((s.dropWhile isSpaceRune).reverse.dropWhile isSpaceRune).reverse

/-- The scan of `strings.Fields`, with the field read so far. -/
def fieldsFrom : Str → Str → List Str
  | w, [] => if w = [] then [] else [w]
  | w, c :: s =>
    if isSpaceRune c then if w = [] then fieldsFrom [] s else w :: fieldsFrom [] s
    else fieldsFrom (w ++ [c]) s

/-- `strings.Fields`. -/
def fields (s : Str) : List Str := fieldsFrom [] s

/-- What stands before and after the first `c` (`strings.Index`). -/
def cutFirst (c : Char) : Str → Option (Str × Str)
  | [] => none
  | d :: s => if d = c then some ([], s) else (cutFirst c s).map fun p => (d :: p.1, p.2)

/-- What stands before and after the last `c` (`strings.LastIndex`). -/
def cutLast (c : Char) : Str → Option (Str × Str)
  | [] => none
  | d :: s =>
    match cutLast c s with
    | some p => some (d :: p.1, p.2)
    | none => if d = c then some ([], s) else none

/-- `strings.Split` at a single character. -/
def splitChar (c : Char) : Str → List Str
  | [] => [[]]
  | d :: s =>
    if d = c then [] :: splitChar c s
    else
      match splitChar c s with
      | [] => [[d]]
      | w :: ws => (d :: w) :: ws

lemma splitChar_ne_nil (c : Char) (s : Str) : splitChar c s ≠ [] := by
  cases s with
  | nil => simp [splitChar]
  | cons =>
    unfold splitChar
    split
    · simp
    · split <;> simp

lemma splitChar_of_not_mem (h : c ∉ s) : splitChar c s = [s] := by
  induction s with
  | nil => rfl
  | cons d s ih =>
    have hne : ¬ d = c := fun heq => h (heq ▸ mem_cons_self)
    have hrest : c ∉ s := fun hmem => h (mem_cons_of_mem _ hmem)
    simp [splitChar, hne, ih hrest]

lemma not_mem_of_mem_splitChar {s part : Str} (h : part ∈ splitChar c s) : c ∉ part := by
  induction s generalizing part with
  | nil =>
    rw [splitChar, mem_singleton] at h
    simp [h]
  | cons d s ih =>
    by_cases hd : d = c
    · rw [splitChar, if_pos hd] at h
      rcases mem_cons.mp h with rfl | h
      · exact not_mem_nil
      · exact ih h
    · cases hs : splitChar c s with
      | nil => exact absurd hs (splitChar_ne_nil c s)
      | cons =>
        rw [splitChar, if_neg hd, hs] at h
        rw [hs] at ih
        rcases mem_cons.mp h with rfl | h
        · have hw := ih mem_cons_self
          simp [Ne.symm hd, hw]
        · exact ih (mem_cons_of_mem _ h)

/-- The text is cut at a separator. -/
lemma splitChar_append_cons (c : Char) (s t : Str) :
    splitChar c (s ++ c :: t) = splitChar c s ++ splitChar c t := by
  induction s with
  | nil => simp [splitChar]
  | cons d s ih =>
    by_cases hd : d = c
    · simp [splitChar, hd, ih]
    cases hs : splitChar c s with
    | nil => exact absurd hs (splitChar_ne_nil c s)
    | cons =>
      simp [splitChar, hd, ih, hs]

/-- What was joined is split again, further if a part has the separator in it. -/
lemma splitChar_join (c : Char) (h : xs ≠ []) :
    splitChar c (join [c] xs) = xs.flatMap (splitChar c) := by
  induction xs with
  | nil => exact absurd rfl h
  | cons x xs ih =>
    by_cases hxs : xs = []
    · simp [hxs]
    · rw [join_cons _ x hxs, append_assoc, singleton_append, splitChar_append_cons,
        ih hxs, flatMap_cons]

lemma join_splitChar (c : Char) (s : Str) : join [c] (splitChar c s) = s := by
  induction s with
  | nil => rfl
  | cons d s ih =>
    by_cases hd : d = c
    · rw [splitChar, if_pos hd, join_cons _ _ (splitChar_ne_nil c s), ih, hd]
      rfl
    cases hs : splitChar c s with
    | nil => exact absurd hs (splitChar_ne_nil c s)
    | cons w ws =>
      rw [hs] at ih
      rw [splitChar, if_neg hd, hs]
      cases ws with
      | nil => simpa using ih
      | cons => simpa [join] using ih

lemma splitChar_injective (c : Char) : Function.Injective (splitChar c) := by
  intro s t h
  rw [← join_splitChar c s, h, join_splitChar]

/-- Parts without the separator are known from the joined text, and so is one part that may
have it. -/
lemma join_inj_of_not_mem {xs xs' ys ys'} {s t : Str}
    (hxs : ∀ x ∈ xs ++ ys, c ∉ x) (hxs' : ∀ x ∈ xs' ++ ys', c ∉ x)
    (hlen : xs.length = xs'.length) (hlen' : ys.length = ys'.length)
    (h : join [c] (xs ++ s :: ys) = join [c] (xs' ++ t :: ys')) : xs = xs' ∧ s = t ∧ ys = ys' := by
  have hparts : ∀ zs : List Str, (∀ x ∈ zs, c ∉ x) → zs.flatMap (splitChar c) = zs := by
    intro zs hzs
    induction zs with
    | nil => rfl
    | cons z zs ih =>
      rw [flatMap_cons, splitChar_of_not_mem (hzs z mem_cons_self),
        ih fun x hx => hzs x (mem_cons_of_mem _ hx)]
      rfl
  have hsplit := congrArg (splitChar c) h
  rw [splitChar_join c (by simp), splitChar_join c (by simp), flatMap_append,
    flatMap_append, flatMap_cons, flatMap_cons,
    hparts xs fun x hx => hxs x (mem_append_left _ hx),
    hparts xs' fun x hx => hxs' x (mem_append_left _ hx),
    hparts ys fun x hx => hxs x (mem_append_right _ hx),
    hparts ys' fun x hx => hxs' x (mem_append_right _ hx)] at hsplit
  have hleft := append_inj hsplit hlen
  have hright := append_inj' hleft.2 hlen'
  exact ⟨hleft.1, splitChar_injective c hright.1, hright.2⟩

/-- What follows `pre` in `s` (`strings.HasPrefix`). -/
def afterPrefix (pre s : Str) : Option Str :=
  if pre.isPrefixOf s then some (s.drop pre.length) else none

end NeoServer
