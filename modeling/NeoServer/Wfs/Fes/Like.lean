import NeoServer.Glob
import NeoServer.Wfs.Fes.Predicates

/-!
# Wfs.Fes.Like — what a `LIKE` pattern matches

`PropertyIsLike` has three characters of its own: `wildCard` for any text,
`singleChar` for one character and `escapeChar` before a character that stands for
itself. `likePattern` rewrites the first two one after the other and leaves the third,
and the text between them, as they are.

- `likeItems` reads a pattern as a database does, `fesItems` a literal as the filter
  standard does; both are patterns of `Glob`,
- `LikeLaw` : the two accept the same strings,
- `likeSafe` : the literals for which they do (`likeLaw_iff`).
-/

namespace NeoServer.Wfs.Fes

open NeoServer.Glob (Item accepts letters ones isOpen Near)
open List
open Compiler (likePattern)

/-! ## Two readings -/

/-- The escape character of `LIKE` without an `ESCAPE` clause. -/
def SQLDialect.likeEscape : SQLDialect → Option Char
  | .postgis => some '\\'
  | .duckdb => none

def likeItem (c : Char) : Item Char :=
  if c = '%' then .any else if c = '_' then .one else .lit c

/-- A `LIKE` pattern; it must not end with its escape character. -/
def likeItems (esc : Option Char) : Str → Option (List (Item Char))
  | [] => some []
  | [c] => if esc = some c then none else some [likeItem c]
  | c :: d :: s =>
    if esc = some c then (likeItems esc s).map (.lit d :: ·)
    else (likeItems esc (d :: s)).map (likeItem c :: ·)

/-- The operator `LIKE`; a malformed pattern is an error and matches nothing. -/
def sqlLike (esc : Option Char) (pattern s : Str) : Bool :=
  match likeItems esc pattern with
  | some items => accepts items s
  | none => false

def fesItem (w sc c : Char) : Item Char :=
  if c = w then .any else if c = sc then .one else .lit c

/-- The literal of a `PropertyIsLike` with the characters `w`, `sc` and `e`; an
escape character at the end stands for itself. -/
def fesItems (w sc e : Char) : Str → List (Item Char)
  | [] => []
  | [c] => if c = e then [.lit c] else [fesItem w sc c]
  | c :: d :: s =>
    if c = e then .lit d :: fesItems w sc e s
    else fesItem w sc c :: fesItems w sc e (d :: s)

/-- The characters of a `PropertyIsLike` that has three different ones. -/
structure MetaChars (like : FESPropertyIsLike) where
  wildCard : Char
  singleChar : Char
  escapeChar : Char
  wildCard_eq : like.wildCard = [wildCard]
  singleChar_eq : like.singleChar = [singleChar]
  escapeChar_eq : like.escapeChar = [escapeChar]
  wild_ne_single : wildCard ≠ singleChar
  wild_ne_escape : wildCard ≠ escapeChar
  single_ne_escape : singleChar ≠ escapeChar

/-- The compiled pattern matches the strings that match the literal. -/
def LikeLaw (dialect : SQLDialect) {like : FESPropertyIsLike} (m : MetaChars like) : Prop :=
  ∀ s, sqlLike dialect.likeEscape (likePattern like) s = true ↔
    accepts (fesItems m.wildCard m.singleChar m.escapeChar like.literal) s = true

/-! ## The pattern, character by character -/

/-- What the two replacements make of one character. The second one also sees what
the first one wrote. -/
def likeChar (w sc c : Char) : Char :=
  if c = w then if sc = '%' then '_' else '%' else if c = sc then '_' else c

lemma likePattern_eq {like} {w sc : Char} (hw : like.wildCard = [w])
    (hsc : like.singleChar = [sc]) : likePattern like = like.literal.map (likeChar w sc) := by
  have hwild : (if like.wildCard = [] then "*".toList else like.wildCard) = [w] := by
    rw [if_neg (by simp [hw]), hw]
  have hsingle : (if like.singleChar = [] then "?".toList else like.singleChar) = [sc] := by
    rw [if_neg (by simp [hsc]), hsc]
  unfold likePattern
  simp only [hwild, hsingle]
  rw [replaceAll_singleton, replaceAll_singleton]
  induction like.literal with
  | nil => rfl
  | cons c s ih =>
    rw [flatMap_cons, flatMap_append, ih, map_cons]
    have hpct : '%' = sc ↔ sc = '%' := eq_comm
    by_cases hcw : c = w
    · by_cases hs : sc = '%' <;> simp [likeChar, hcw, hs, hpct]
    by_cases hs : c = sc
    · subst hs
      simp [likeChar, hcw]
    · simp [likeChar, hcw, hs]

/-! ## The literals whose pattern is right -/

/-- A character that both readings take for itself. -/
def likePlain (esc : Option Char) (w sc c : Char) : Bool :=
  c ≠ w && c ≠ sc && c ≠ '%' && c ≠ '_' && esc ≠ some c

/-- The literals whose pattern means what they mean. Outside escapes, text is plain, and
there is no wildcard if `singleChar` is `%`. An escape is right in two cases: its
character is also the one of `LIKE`, and the next character is left as it is; or its
character is `%`, and a wildcard stands before it with no text between (`wild`). -/
def likeSafe (esc : Option Char) (w sc e : Char) : Bool → Str → Bool
  | _, [] => true
  | _, [c] =>
    if c = e then likePlain esc w sc e
    else if c = w then sc ≠ '%'
    else c = sc || likePlain esc w sc c
  | wild, c :: d :: s =>
    if c = e then
      (if esc = some e then likeChar w sc d = d else e = '%' && wild && likePlain esc w sc d) &&
        likeSafe esc w sc e false s
    else if c = w then sc ≠ '%' && likeSafe esc w sc e true (d :: s)
    else if c = sc then likeSafe esc w sc e wild (d :: s)
    else likePlain esc w sc c && likeSafe esc w sc e false (d :: s)

section Readings

variable {esc : Option Char} {w sc e c d : Char} {s : Str}

/-- Induction on a text as an escape character divides it. -/
lemma escape_induction {P : Str → Prop} (nil : P []) (last : P [e])
    (escape : ∀ d s, P s → P (e :: d :: s)) (other : ∀ c s, c ≠ e → P s → P (c :: s)) : ∀ s, P s
  | [] => nil
  | [c] => by
    by_cases hc : c = e
    · rw [hc]
      exact last
    · exact other c [] hc nil
  | c :: d :: s => by
    by_cases hc : c = e
    · rw [hc]
      exact escape d s (escape_induction nil last escape other s)
    · exact other c (d :: s) hc (escape_induction nil last escape other (d :: s))

lemma likeItems_cons (h : esc ≠ some c) :
    likeItems esc (c :: s) = (likeItems esc s).map (likeItem c :: ·) := by
  cases s with
  | nil => simp [likeItems, h]
  | cons => rw [likeItems, if_neg h]

lemma likeItems_escape (h : esc = some c) :
    likeItems esc (c :: d :: s) = (likeItems esc s).map (.lit d :: ·) := by
  rw [likeItems, if_pos h]

lemma fesItems_cons (h : c ≠ e) :
    fesItems w sc e (c :: s) = fesItem w sc c :: fesItems w sc e s := by
  cases s with
  | nil => simp [fesItems, h]
  | cons => rw [fesItems, if_neg h]

@[simp] lemma fesItems_last : fesItems w sc e [e] = [.lit e] := by
  rw [fesItems, if_pos rfl]

@[simp] lemma fesItems_escape : fesItems w sc e (e :: d :: s) = .lit d :: fesItems w sc e s := by
  rw [fesItems, if_pos rfl]

lemma fesItem_wild : fesItem w sc w = .any := if_pos rfl

lemma fesItem_single (h : sc ≠ w) : fesItem w sc sc = .one := by
  rw [fesItem, if_neg h, if_pos rfl]

lemma fesItem_of_ne (hw : c ≠ w) (hsc : c ≠ sc) : fesItem w sc c = .lit c := by
  rw [fesItem, if_neg hw, if_neg hsc]

variable {wild : Bool} {items : List (Item Char)} {L : Str}

lemma likeSafe_escape : likeSafe esc w sc e wild (e :: d :: s) = true ↔
    (if esc = some e then likeChar w sc d = d
      else e = '%' ∧ wild = true ∧ likePlain esc w sc d = true) ∧
      likeSafe esc w sc e false s = true := by
  rw [likeSafe, if_pos rfl]
  split <;> simp [and_assoc]

lemma likeSafe_cons (h : c ≠ e) : likeSafe esc w sc e wild (c :: s) = true ↔
    if c = w then sc ≠ '%' ∧ likeSafe esc w sc e true s = true
    else if c = sc then likeSafe esc w sc e wild s = true
    else likePlain esc w sc c = true ∧ likeSafe esc w sc e false s = true := by
  cases s with
  | nil =>
    simp only [likeSafe, if_neg h]
    split
    · simp
    · split <;> simp [*]
  | cons =>
    rw [likeSafe, if_neg h]
    split
    · simp
    · split <;> simp

/-- A plain character: not one of the filter's, nor one of `LIKE`'s. -/
lemma likePlain_iff : likePlain esc w sc c = true ↔
    c ≠ w ∧ c ≠ sc ∧ c ≠ '%' ∧ c ≠ '_' ∧ esc ≠ some c := by
  simp [likePlain, and_assoc]

lemma likeItem_plain (h : likePlain esc w sc c = true) : likeItem c = .lit c := by
  rw [likePlain_iff] at h
  rw [likeItem, if_neg h.2.2.1, if_neg h.2.2.2.1]

lemma likeChar_plain (h : likePlain esc w sc c = true) : likeChar w sc c = c := by
  rw [likePlain_iff] at h
  rw [likeChar, if_neg h.1, if_neg h.2.1]

lemma likeChar_of_ne (hw : c ≠ w) (hsc : c ≠ sc) : likeChar w sc c = c := by
  rw [likeChar, if_neg hw, if_neg hsc]

lemma likeItems_plain (h : likePlain esc w sc c = true) :
    likeItems esc (likeChar w sc c :: s) = (likeItems esc s).map (.lit c :: ·) := by
  rw [likeChar_plain h, likeItems_cons (likePlain_iff.mp h).2.2.2.2, likeItem_plain h]

lemma likeItems_wild (hpct : esc ≠ some '%') (hsc : sc ≠ '%') :
    likeItems esc (likeChar w sc w :: s) = (likeItems esc s).map (.any :: ·) := by
  have hchar : likeChar w sc w = '%' := by rw [likeChar, if_pos rfl, if_neg hsc]
  rw [hchar, likeItems_cons hpct]
  rfl

lemma likeItems_single (hus : esc ≠ some '_') (hw : sc ≠ w) :
    likeItems esc (likeChar w sc sc :: s) = (likeItems esc s).map (.one :: ·) := by
  have hchar : likeChar w sc sc = '_' := by rw [likeChar, if_neg hw, if_pos rfl]
  rw [hchar, likeItems_cons hus]
  rfl

/-- The pattern of a safe literal is read as the literal is. -/
lemma near_of_likeSafe (hew : e ≠ w) (hes : e ≠ sc) (hpct : esc ≠ some '%')
    (hus : esc ≠ some '_') (L : Str) (h : likeSafe esc w sc e wild L = true) :
    ∃ items, likeItems esc (L.map (likeChar w sc)) = some items ∧
      Near wild (fesItems w sc e L) items := by
  induction L using escape_induction (e := e) generalizing wild with
  | nil => exact ⟨[], rfl, Glob.near_refl⟩
  | last =>
    have hplain : likePlain esc w sc e = true := by simpa [likeSafe] using h
    refine ⟨[.lit e], ?_, by simp⟩
    rw [map_cons, likeItems_plain hplain]
    rfl
  | escape d s ih =>
    rw [likeSafe_escape] at h
    rcases ih h.2 with ⟨items, hitems, hnear⟩
    rw [map_cons, likeChar_of_ne hew hes, map_cons]
    by_cases hesc : esc = some e
    · -- the database reads the same escape
      rw [if_pos hesc] at h
      refine ⟨.lit d :: items, ?_, by simpa using hnear⟩
      rw [likeItems_escape hesc, hitems, h.1]
      rfl
    · -- the escape is read as one more wildcard
      rw [if_neg hesc] at h
      rcases h with ⟨⟨he, hwild, hplain⟩, -⟩
      refine ⟨.any :: .lit d :: items, ?_, by simpa [hwild] using hnear⟩
      rw [likeItems_cons hesc, likeItems_plain hplain, hitems, he]
      rfl
  | other c s hce ih =>
    rw [likeSafe_cons hce] at h
    rw [map_cons, fesItems_cons hce]
    by_cases hcw : c = w
    · rw [if_pos hcw] at h
      rcases ih h.2 with ⟨items, hitems, hnear⟩
      subst hcw
      refine ⟨.any :: items, ?_, by simpa [fesItem_wild] using hnear⟩
      rw [likeItems_wild hpct h.1, hitems]
      rfl
    · rw [if_neg hcw] at h
      by_cases hcs : c = sc
      · rw [if_pos hcs] at h
        rcases ih h with ⟨items, hitems, hnear⟩
        subst hcs
        refine ⟨.one :: items, ?_, by simpa [fesItem_single hcw] using hnear⟩
        rw [likeItems_single hus hcw, hitems]
        rfl
      · rw [if_neg hcs] at h
        rcases ih h.2 with ⟨items, hitems, hnear⟩
        refine ⟨.lit c :: items, ?_, by simpa [fesItem_of_ne hcw hcs] using hnear⟩
        rw [likeItems_plain h.1, hitems]
        rfl

/-! ## The converse

The normal form of a pattern keeps its letters, so each character that only one reading
takes for itself shows in the letters of one pattern and not of the other. -/

/-- Induction on the characters of a pattern, with the items read so far. -/
lemma likeItems_induction {P : Str → List (Item Char) → Prop} (nil : P [] [])
    (escape : ∀ c d s items, esc = some c → P s items → P (c :: d :: s) (.lit d :: items))
    (other : ∀ c s items, esc ≠ some c → P s items → P (c :: s) (likeItem c :: items)) :
    ∀ s items, likeItems esc s = some items → P s items
  | [], items, h => by
    rw [← Option.some.inj h]
    exact nil
  | [c], items, h => by
    by_cases hc : esc = some c
    · simp [likeItems, hc] at h
    · rw [likeItems, if_neg hc] at h
      rw [← Option.some.inj h]
      exact other c [] [] hc nil
  | c :: d :: s, items, h => by
    by_cases hc : esc = some c
    · rw [likeItems_escape hc] at h
      rcases Option.map_eq_some_iff.mp h with ⟨rest, hrest, rfl⟩
      exact escape c d s rest hc (likeItems_induction nil escape other s rest hrest)
    · rw [likeItems_cons hc] at h
      rcases Option.map_eq_some_iff.mp h with ⟨rest, hrest, rfl⟩
      exact other c (d :: s) rest hc (likeItems_induction nil escape other (d :: s) rest hrest)

lemma letters_likeItem_cons :
    letters (likeItem c :: items) = if c = '%' ∨ c = '_' then letters items
      else c :: letters items := by
  unfold likeItem
  by_cases h1 : c = '%'
  · simp [h1]
  · by_cases h2 : c = '_' <;> simp [h1, h2]

/-- A character without a meaning of its own in `LIKE` is always a letter. -/
lemma count_letters_likeItems (hpct : c ≠ '%') (hus : c ≠ '_') (hesc : esc ≠ some c) :
    ∀ s items, likeItems esc s = some items → (letters items).count c = s.count c := by
  refine likeItems_induction (by simp) ?_ ?_
  · intro b d s items hb ih
    have hbc : b ≠ c := by
      intro h
      exact hesc (h ▸ hb)
    rw [Glob.letters_lit, count_cons, count_cons_of_ne hbc, count_cons, ih]
  · intro b s items hb ih
    rw [letters_likeItem_cons]
    split
    · rename_i h
      have hbc : b ≠ c := by
        rintro rfl
        exact h.elim hpct hus
      rw [count_cons_of_ne hbc, ih]
    · rw [count_cons, count_cons, ih]

lemma mem_letters_likeItems {c : Char} :
    ∀ s items, likeItems esc s = some items → c ∈ letters items → c ∈ s := by
  refine likeItems_induction (by simp) ?_ ?_
  · intro b d s items _ ih h
    rcases mem_cons.mp h with rfl | h
    · simp
    · simp [ih h]
  · intro b s items _ ih h
    rw [letters_likeItem_cons] at h
    split at h
    · simp [ih h]
    · rcases mem_cons.mp h with rfl | h
      · simp
      · simp [ih h]

/-- The escape character of `LIKE` is written twice for each time it is a letter. -/
lemma count_escape_likeItems (hc : esc = some c) :
    ∀ s items, likeItems esc s = some items → 2 * (letters items).count c ≤ s.count c := by
  refine likeItems_induction (by simp) ?_ ?_
  · intro b d s items hb ih
    obtain rfl : b = c := Option.some.inj (hb.symm.trans hc)
    rw [Glob.letters_lit, count_cons, count_cons_self, count_cons]
    split <;> omega
  · intro b s items hb ih
    have hbc : b ≠ c := by
      intro h
      exact hb (h ▸ hc)
    rw [count_cons_of_ne hbc, letters_likeItem_cons]
    split
    · exact ih
    · rwa [count_cons_of_ne hbc]

/-- Without its escape character, a pattern is read character by character. -/
lemma likeItems_eq_map (h : ∀ c ∈ s, esc ≠ some c) : likeItems esc s = some (s.map likeItem) := by
  induction s with
  | nil => rfl
  | cons c s ih =>
    rw [likeItems_cons (h c (by simp)), ih fun d hd => h d (by simp [hd])]
    rfl

lemma mem_letters_map_likeItem (h : c ∈ letters (s.map likeItem)) :
    c ∈ s ∧ c ≠ '%' ∧ c ≠ '_' := by
  induction s with
  | nil => simp at h
  | cons d s ih =>
    rw [map_cons, letters_likeItem_cons] at h
    split at h
    · exact ⟨mem_cons_of_mem d (ih h).1, (ih h).2⟩
    rename_i hd
    rcases mem_cons.mp h with rfl | h
    · exact ⟨by simp, not_or.mp hd⟩
    · exact ⟨mem_cons_of_mem d (ih h).1, (ih h).2⟩

/-- The number of escapes in a literal. -/
def escapes (e : Char) : Str → Nat
  | [] => 0
  | [_] => 0
  | c :: d :: s => if c = e then escapes e s + 1 else escapes e (d :: s)

@[simp] lemma escapes_escape : escapes e (e :: d :: s) = escapes e s + 1 := by
  rw [escapes, if_pos rfl]

lemma escapes_cons (h : c ≠ e) : escapes e (c :: s) = escapes e s := by
  cases s with
  | nil => rfl
  | cons => rw [escapes, if_neg h]

lemma letters_fesItem_cons :
    letters (fesItem w sc c :: items) = if c = w ∨ c = sc then letters items
      else c :: letters items := by
  unfold fesItem
  by_cases h1 : c = w
  · simp [h1]
  by_cases h2 : c = sc
  · subst h2
    simp [h1]
  · simp [h1, h2]

lemma count_escape_fesItems (w sc e : Char) (L : Str) :
    (letters (fesItems w sc e L)).count e + escapes e L = L.count e := by
  induction L using escape_induction (e := e) with
  | nil => rfl
  | last => simp [escapes]
  | escape =>
    rw [fesItems_escape, Glob.letters_lit, escapes_escape, count_cons, count_cons_self, count_cons]
    omega
  | other c s hce ih =>
    rw [fesItems_cons hce, escapes_cons hce, letters_fesItem_cons, count_cons_of_ne hce]
    split
    · exact ih
    · rwa [count_cons_of_ne hce]

/-- Any character other than the filter's own is a letter wherever it stands. -/
lemma count_letters_fesItems (hw : c ≠ w) (hsc : c ≠ sc) (he : c ≠ e) (L : Str) :
    (letters (fesItems w sc e L)).count c = L.count c := by
  induction L using escape_induction (e := e) with
  | nil => rfl
  | last => rw [fesItems_last, Glob.letters_lit, Glob.letters_nil]
  | escape d s ih =>
    rw [fesItems_escape, Glob.letters_lit, count_cons_of_ne he.symm, count_cons, count_cons, ih]
  | other b s hbe ih =>
    rw [fesItems_cons hbe, letters_fesItem_cons]
    split
    · rename_i h
      have hbc : b ≠ c := by
        rintro rfl
        exact h.elim hw hsc
      rw [count_cons_of_ne hbc, ih]
    · rw [count_cons, count_cons, ih]

lemma mem_letters_fesItems (h : c ∈ letters (fesItems w sc e L)) : c ∈ L := by
  induction L using escape_induction (e := e) with
  | nil => simp [fesItems] at h
  | last => simpa using h
  | escape d s ih =>
    rw [fesItems_escape, Glob.letters_lit] at h
    rcases mem_cons.mp h with rfl | h
    · simp
    · simp [ih h]
  | other b s hbe ih =>
    rw [fesItems_cons hbe, letters_fesItem_cons] at h
    split at h
    · simp [ih h]
    · rcases mem_cons.mp h with rfl | h
      · simp
      · simp [ih h]

lemma likeChar_eq_iff (hw : c ≠ w) (hsc : c ≠ sc) (hpct : c ≠ '%') (hus : c ≠ '_') :
    likeChar w sc d = c ↔ d = c := by
  constructor
  · intro h
    unfold likeChar at h
    split at h
    · split at h
      · exact absurd h.symm hus
      · exact absurd h.symm hpct
    · split at h
      · exact absurd h.symm hus
      · exact h
  · rintro rfl
    exact likeChar_of_ne hw hsc

/-- A character the replacements leave is one they leave wherever it stands. -/
lemma mem_map_likeChar (h : c ∈ L.map (likeChar w sc)) (hpct : c ≠ '%')
    (hus : c ≠ '_') : c ∈ L ∧ c ≠ w ∧ c ≠ sc := by
  rcases mem_map.mp h with ⟨d, hd, hdc⟩
  unfold likeChar at hdc
  split at hdc
  · split at hdc
    · exact absurd hdc.symm hus
    · exact absurd hdc.symm hpct
  · rename_i hdw
    split at hdc
    · exact absurd hdc.symm hus
    · rename_i hds
      subst hdc
      exact ⟨hd, hdw, hds⟩

lemma count_map_likeChar (hw : c ≠ w) (hsc : c ≠ sc) (hpct : c ≠ '%') (hus : c ≠ '_')
    (L : Str) : (L.map (likeChar w sc)).count c = L.count c := by
  induction L with
  | nil => rfl
  | cons d s ih =>
    rw [map_cons, count_cons, count_cons, ih]
    simp [likeChar_eq_iff hw hsc hpct hus]

/-- If `singleChar` is `%`, both replacements end in `_`. -/
lemma pct_not_mem_map_likeChar (hsc : sc = '%') (L : Str) : '%' ∉ L.map (likeChar w sc) := by
  subst hsc
  intro h
  rcases mem_map.mp h with ⟨d, -, hd⟩
  unfold likeChar at hd
  split at hd
  · exact absurd hd (by simp)
  · split at hd
    · exact absurd hd (by decide)
    · contradiction

lemma isOpen_likeItems :
    ∀ s items, likeItems esc s = some items → '%' ∉ s → isOpen items = false := by
  refine likeItems_induction (fun _ => rfl) ?_ ?_
  · intro c d s items _ ih h
    exact ih fun hs => h (by simp [hs])
  · intro c s items _ ih h
    have hc : c ≠ '%' := by
      rintro rfl
      exact h (by simp)
    have hrest := ih fun hs => h (by simp [hs])
    unfold likeItem
    rw [if_neg hc]
    split <;> simpa using hrest

/-! ### The escape character of the filter is the one of `LIKE` -/

lemma likeItems_map_other (hesc : esc = some c) (hpct : c ≠ '%') (hus : c ≠ '_')
    (hcw : c ≠ w) (hcs : c ≠ sc) (hdc : d ≠ c) :
    likeItems esc ((d :: s).map (likeChar w sc)) =
      (likeItems esc (s.map (likeChar w sc))).map (likeItem (likeChar w sc d) :: ·) := by
  have hne : esc ≠ some (likeChar w sc d) := by
    intro h
    exact hdc ((likeChar_eq_iff hcw hcs hpct hus).mp (Option.some.inj (h.symm.trans hesc)))
  rw [map_cons, likeItems_cons hne]

lemma likeItem_likeChar_single (hsw : sc ≠ w) : likeItem (likeChar w sc sc) = .one := by
  rw [likeChar, if_neg hsw, if_pos rfl]
  rfl

lemma letters_wild_cons : letters (likeItem (likeChar w sc w) :: items) = letters items := by
  rw [likeChar, if_pos rfl]
  split <;> rfl

/-- The pattern has no more letters than the literal. -/
lemma letters_length_le (hesc : esc = some e) (hpct : e ≠ '%') (hus : e ≠ '_') (hew : e ≠ w)
    (hes : e ≠ sc) (hsw : sc ≠ w) (L : Str) (items : List (Item Char))
    (h : likeItems esc (L.map (likeChar w sc)) = some items) :
    (letters items).length ≤ (letters (fesItems w sc e L)).length := by
  induction L using escape_induction (e := e) generalizing items with
  | nil =>
    obtain rfl := Option.some.inj h
    simp
  | last => simp [likeChar_of_ne hew hes, likeItems, hesc] at h
  | escape d s ih =>
    rw [map_cons, likeChar_of_ne hew hes, map_cons, likeItems_escape hesc] at h
    rcases Option.map_eq_some_iff.mp h with ⟨rest, hrest, rfl⟩
    simpa using ih rest hrest
  | other c s hce ih =>
    rw [likeItems_map_other hesc hpct hus hew hes hce] at h
    rcases Option.map_eq_some_iff.mp h with ⟨rest, hrest, rfl⟩
    have hle := ih rest hrest
    rw [fesItems_cons hce]
    by_cases hcw : c = w
    · rw [hcw, letters_wild_cons, fesItem_wild]
      exact hle
    by_cases hcs : c = sc
    · rw [hcs, likeItem_likeChar_single hsw, fesItem_single hsw]
      exact hle
    rw [fesItem_of_ne hcw hcs, Glob.letters_lit, length_cons, letters_likeItem_cons]
    split
    · omega
    · rw [length_cons]
      omega

lemma likeSafe_of_letters (hesc : esc = some e) (hpct : e ≠ '%') (hus : e ≠ '_') (hew : e ≠ w)
    (hes : e ≠ sc) (hsw : sc ≠ w) (L : Str) (items : List (Item Char))
    (h : likeItems esc (L.map (likeChar w sc)) = some items)
    (hletters : letters (fesItems w sc e L) = letters items)
    (hopen : sc = '%' → isOpen (fesItems w sc e L) = false) :
    likeSafe esc w sc e wild L = true := by
  induction L using escape_induction (e := e) generalizing items wild with
  | nil => rfl
  | last => simp [likeChar_of_ne hew hes, likeItems, hesc] at h
  | escape d s ih =>
    rw [map_cons, likeChar_of_ne hew hes, map_cons, likeItems_escape hesc] at h
    rcases Option.map_eq_some_iff.mp h with ⟨rest, hrest, rfl⟩
    rw [fesItems_escape] at hletters hopen
    rcases cons.inj hletters with ⟨hd, hletters⟩
    rw [likeSafe_escape, if_pos hesc]
    exact ⟨hd.symm, ih rest hrest hletters (by simpa using hopen)⟩
  | other c s hce ih =>
    have hle := letters_length_le hesc hpct hus hew hes hsw s
    rw [likeItems_map_other hesc hpct hus hew hes hce] at h
    rcases Option.map_eq_some_iff.mp h with ⟨rest, hrest, rfl⟩
    rw [fesItems_cons hce] at hletters hopen
    rw [likeSafe_cons hce]
    by_cases hcw : c = w
    · rw [if_pos hcw]
      rw [hcw, fesItem_wild] at hletters hopen
      rw [letters_wild_cons] at hletters
      refine ⟨fun hs => by simpa using hopen hs, ih rest hrest hletters ?_⟩
      intro hs
      simpa using hopen hs
    · by_cases hcs : c = sc
      · rw [if_neg hcw, if_pos hcs]
        rw [hcs, fesItem_single hsw] at hletters hopen
        rw [likeItem_likeChar_single hsw] at hletters
        exact ih rest hrest hletters (by simpa using hopen)
      · rw [if_neg hcw, if_neg hcs]
        rw [fesItem_of_ne hcw hcs] at hletters hopen
        rw [likeChar_of_ne hcw hcs, letters_likeItem_cons] at hletters
        split at hletters
        · -- a letter of the literal only: the other letters cannot make up for it
          have hlen := congrArg length hletters
          have := hle rest hrest
          rw [Glob.letters_lit, length_cons] at hlen
          omega
        · rename_i hc
          rcases cons.inj hletters with ⟨-, hletters⟩
          have hplain : likePlain esc w sc c = true := by
            rw [likePlain_iff]
            refine ⟨hcw, hcs, (not_or.mp hc).1, (not_or.mp hc).2, ?_⟩
            intro h
            exact hce (Option.some.inj (h.symm.trans hesc))
          exact ⟨hplain, ih rest hrest hletters (by simpa using hopen)⟩

/-! ### The escape character of the filter is another one -/

/-- The escape character of `LIKE` does not occur: of two in a row only one is a
letter of the pattern, and both are letters of the literal. -/
lemma not_escape_of_letters (hpct : esc ≠ some '%') (hus : esc ≠ some '_') (hesc : esc ≠ some e)
    (h : likeItems esc (L.map (likeChar w sc)) = some items)
    (hletters : letters (fesItems w sc e L) = letters items) :
    ∀ c ∈ L.map (likeChar w sc), esc ≠ some c := by
  intro c hc hec
  have hcp : c ≠ '%' := fun h => hpct (h ▸ hec)
  have hcu : c ≠ '_' := fun h => hus (h ▸ hec)
  have hce : c ≠ e := fun h => hesc (h ▸ hec)
  rcases mem_map_likeChar hc hcp hcu with ⟨hcL, hcw, hcs⟩
  have hpos : 0 < L.count c := count_pos_iff.mpr hcL
  have hfes := count_letters_fesItems hcw hcs hce L
  have hsql := count_escape_likeItems hec _ _ h
  rw [count_map_likeChar hcw hcs hcp hcu, ← hletters] at hsql
  omega

/-- If the escape character is `_`, each escape is one more free character. -/
lemma ones_escape_le (he : e = '_') (hew : e ≠ w) (hes : e ≠ sc) (hsw : sc ≠ w) (L : Str) :
    ones (fesItems w sc e L) + escapes e L ≤
      ones ((L.map (likeChar w sc)).map likeItem) := by
  have hle : ∀ (i : Item Char) (p : List (Item Char)), ones p ≤ ones (i :: p) := by
    intro i p
    cases i <;> simp
  induction L using escape_induction (e := e) with
  | nil => simp [fesItems, escapes]
  | last => simp [escapes]
  | escape d s =>
    have hone : likeItem e = .one := by
      rw [he]
      rfl
    rw [fesItems_escape, escapes_escape, map_cons, map_cons, map_cons,
      map_cons, likeChar_of_ne hew hes, hone, Glob.ones_one, Glob.ones_lit]
    have := hle (likeItem (likeChar w sc d)) ((s.map (likeChar w sc)).map likeItem)
    omega
  | other c s hce =>
    have := hle (likeItem (likeChar w sc c)) ((s.map (likeChar w sc)).map likeItem)
    rw [fesItems_cons hce, escapes_cons hce, map_cons, map_cons]
    by_cases hcw : c = w
    · rw [hcw] at this ⊢
      rw [fesItem_wild, Glob.ones_any]
      omega
    · by_cases hcs : c = sc
      · rw [hcs, likeItem_likeChar_single hsw, fesItem_single hsw, Glob.ones_one, Glob.ones_one]
        omega
      · rw [fesItem_of_ne hcw hcs, Glob.ones_lit]
        omega

lemma escapes_eq_zero (hesc : esc ≠ some e) (hew : e ≠ w) (hes : e ≠ sc)
    (hsw : sc ≠ w) (hpct : e ≠ '%')
    (h : likeItems esc (L.map (likeChar w sc)) = some ((L.map (likeChar w sc)).map likeItem))
    (hletters : letters (fesItems w sc e L) = letters ((L.map (likeChar w sc)).map likeItem))
    (hones : ones (fesItems w sc e L) = ones ((L.map (likeChar w sc)).map likeItem)) :
    escapes e L = 0 := by
  by_cases hus : e = '_'
  · have hle := ones_escape_le hus hew hes hsw L
    omega
  have hfes := count_escape_fesItems w sc e L
  have hsql := count_letters_likeItems hpct hus hesc _ _ h
  rw [count_map_likeChar hew hes hpct hus, ← hletters] at hsql
  omega

lemma likeSafe_of_near (hesc : esc ≠ some e) (hew : e ≠ w) (hes : e ≠ sc) (hsw : sc ≠ w)
    (L : Str) (hplain : ∀ c ∈ letters (fesItems w sc e L), likePlain esc w sc c = true)
    (hescapes : e ≠ '%' → escapes e L = 0) (hopen : sc = '%' → isOpen (fesItems w sc e L) = false)
    (hnear : Near wild (fesItems w sc e L) ((L.map (likeChar w sc)).map likeItem)) :
    likeSafe esc w sc e wild L = true := by
  induction L using escape_induction (e := e) generalizing wild with
  | nil => rfl
  | last => simpa [likeSafe] using hplain e (by simp)
  | escape d s ih =>
    have he : e = '%' := by
      by_contra h
      simpa using hescapes h
    have hd : likePlain esc w sc d = true := hplain d (by simp)
    have hany : likeItem e = .any := by
      rw [he]
      rfl
    rw [fesItems_escape] at hplain hopen hnear
    rw [map_cons, map_cons, map_cons, map_cons, likeChar_of_ne hew hes,
      likeChar_plain hd, likeItem_plain hd, hany, Glob.near_lit_any] at hnear
    rw [likeSafe_escape, if_neg hesc]
    refine ⟨⟨he, hnear.1, hd⟩, ih ?_ ?_ ?_ hnear.2.2⟩
    · intro c hc
      exact hplain c (by simp [hc])
    · intro h
      exact absurd he h
    · simpa using hopen
  | other c s hce ih =>
    rw [fesItems_cons hce] at hplain hopen hnear
    rw [escapes_cons hce] at hescapes
    rw [map_cons, map_cons] at hnear
    rw [likeSafe_cons hce]
    by_cases hcw : c = w
    · rw [hcw, fesItem_wild] at hplain hopen hnear
      have hsc : sc ≠ '%' := by
        intro hs
        simpa using hopen hs
      have hany : likeItem (likeChar w sc w) = .any := by
        rw [likeChar, if_pos rfl, if_neg hsc]
        rfl
      rw [hany, Glob.near_any] at hnear
      rw [if_pos hcw]
      exact ⟨hsc, ih hplain hescapes (fun hs => absurd hs hsc) hnear⟩
    · by_cases hcs : c = sc
      · rw [hcs, fesItem_single hsw] at hplain hopen hnear
        rw [likeItem_likeChar_single hsw, Glob.near_one] at hnear
        rw [if_neg hcw, if_pos hcs]
        exact ih hplain hescapes hopen hnear
      · rw [fesItem_of_ne hcw hcs] at hplain hopen hnear
        have hc : likePlain esc w sc c = true := hplain c (by simp)
        rw [likeChar_plain hc, likeItem_plain hc, Glob.near_lit] at hnear
        rw [if_neg hcw, if_neg hcs]
        refine ⟨hc, ih ?_ hescapes (by simpa using hopen) hnear.2⟩
        intro b hb
        exact hplain b (by simp [hb])

lemma likeSafe_of_gaps_eq (hpct : esc ≠ some '%')
    (hus : esc ≠ some '_') (hew : e ≠ w) (hes : e ≠ sc) (hsw : sc ≠ w)
    (h : likeItems esc (L.map (likeChar w sc)) = some items)
    (hgaps : Glob.gaps (fesItems w sc e L) = Glob.gaps items) :
    likeSafe esc w sc e false L = true := by
  have hletters : letters (fesItems w sc e L) = letters items := by simp only [letters, hgaps]
  have hones : ones (fesItems w sc e L) = ones items := by simp only [ones, hgaps]
  have hopen : sc = '%' → isOpen (fesItems w sc e L) = false := by
    intro hsc
    have hsql := isOpen_likeItems _ _ h (pct_not_mem_map_likeChar hsc L)
    simpa only [isOpen, hgaps] using hsql
  by_cases hesc : esc = some e
  · have hep : e ≠ '%' := fun he => hpct (he ▸ hesc)
    have heu : e ≠ '_' := fun he => hus (he ▸ hesc)
    exact likeSafe_of_letters hesc hep heu hew hes hsw L items h hletters hopen
  · have hfree := not_escape_of_letters hpct hus hesc h hletters
    have hmap := likeItems_eq_map hfree
    obtain rfl : (L.map (likeChar w sc)).map likeItem = items :=
      Option.some.inj (hmap.symm.trans h)
    -- the letters of the pattern are plain, and the literal has the same ones
    have hplain : ∀ c ∈ letters (fesItems w sc e L), likePlain esc w sc c = true := by
      intro c hc
      rw [hletters] at hc
      rcases mem_letters_map_likeItem hc with ⟨hmem, hcp, hcu⟩
      rcases mem_map_likeChar hmem hcp hcu with ⟨-, hcw, hcs⟩
      exact likePlain_iff.mpr ⟨hcw, hcs, hcp, hcu, hfree c hmem⟩
    refine likeSafe_of_near hesc hew hes hsw L hplain ?_ hopen (Glob.near_false.mpr hgaps)
    intro hep
    exact escapes_eq_zero hesc hew hes hsw hep h hletters hones

end Readings

/-! ## The law -/

lemma SQLDialect.likeEscape_ne_pct (d : SQLDialect) : d.likeEscape ≠ some '%' := by
  cases d <;> decide

lemma SQLDialect.likeEscape_ne_us (d : SQLDialect) : d.likeEscape ≠ some '_' := by
  cases d <;> decide

/-- A character that no document contains, and so no literal. -/
lemma ne_of_isInCharacterRange {c : Char} (h : isInCharacterRange c = true) :
    c ≠ Char.ofNat 1 := by
  rintro rfl
  exact absurd h (by decide)

/-- The strings a compiled pattern matches are those of the literal just for the literals
of `likeSafe`. -/
theorem likeLaw_iff (dialect : SQLDialect) (like : FESPropertyIsLike) (m : MetaChars like)
    (hxml : ∀ c ∈ like.literal, isInCharacterRange c = true) :
    LikeLaw dialect m ↔
      likeSafe dialect.likeEscape m.wildCard m.singleChar m.escapeChar false like.literal =
        true := by
  have hpct := dialect.likeEscape_ne_pct
  have hus := dialect.likeEscape_ne_us
  have hew := m.wild_ne_escape.symm
  have hes := m.single_ne_escape.symm
  have hsw := m.wild_ne_single.symm
  unfold LikeLaw sqlLike
  rw [likePattern_eq m.wildCard_eq m.singleChar_eq]
  constructor
  · intro hlaw
    cases hitems : likeItems dialect.likeEscape
        (like.literal.map (likeChar m.wildCard m.singleChar)) with
    | none =>
      -- a pattern that is an error matches nothing, and every literal matches something
      rcases Glob.exists_accepts
        (fesItems m.wildCard m.singleChar m.escapeChar like.literal) with ⟨s, hs⟩
      rw [hitems] at hlaw
      exact absurd ((hlaw s).mpr hs) (by simp)
    | some items =>
      rw [hitems] at hlaw
      refine likeSafe_of_gaps_eq hpct hus hew hes hsw hitems ?_
      refine Glob.gaps_eq_of_accepts_iff (z := Char.ofNat 1) ?_ ?_ fun s => (hlaw s).symm
      · intro x hx
        have hmem : x.1 ∈ letters (fesItems m.wildCard m.singleChar m.escapeChar like.literal) :=
          mem_map_of_mem hx
        exact ne_of_isInCharacterRange (hxml _ (mem_letters_fesItems hmem))
      · intro x hx
        have hmem : x.1 ∈ letters items := mem_map_of_mem hx
        rcases mem_map.mp (mem_letters_likeItems _ _ hitems hmem) with ⟨d, hd, hdx⟩
        rw [← hdx]
        unfold likeChar
        have hdz := ne_of_isInCharacterRange (hxml d hd)
        split
        · split <;> decide
        · split
          · decide
          · exact hdz
  · intro hsafe s
    rcases near_of_likeSafe hew hes hpct hus like.literal hsafe with ⟨items, hitems, hnear⟩
    rw [hitems, Glob.accepts_eq_of_gaps_eq (Glob.near_false.mp hnear)]

/-- A `PropertyIsLike` with the characters `*`, `?` and `!`. -/
def starLike (literal : Str) : FESPropertyIsLike where
  wildCard := ['*']
  singleChar := ['?']
  escapeChar := ['!']
  matchCase := []
  valueReference := "name"
  literal := literal

def starChars (literal : Str) : MetaChars (starLike literal) where
  wildCard := '*'
  singleChar := '?'
  escapeChar := '!'
  wildCard_eq := rfl
  singleChar_eq := rfl
  escapeChar_eq := rfl
  wild_ne_single := by decide
  wild_ne_escape := by decide
  single_ne_escape := by decide

theorem likeLaw_iff_sample :
    LikeLaw .postgis (starChars "Mai?*") ∧ LikeLaw .duckdb (starChars "Mai?*") := by
  have hchars : ∀ c ∈ "Mai?*".toList, isInCharacterRange c = true := all_eq_true.mp rfl
  exact ⟨(likeLaw_iff .postgis _ (starChars "Mai?*") hchars).mpr (by decide),
    (likeLaw_iff .duckdb _ (starChars "Mai?*") hchars).mpr (by decide)⟩

/-- `100%` also matches `100 km`, and `5!*` does not match `5*`. -/
theorem like_ignores_escapes :
    (sqlLike SQLDialect.postgis.likeEscape (likePattern (starLike "100%"))
        "100 km" = true ∧
      accepts (fesItems '*' '?' '!' "100%") "100 km" = false) ∧
    (sqlLike SQLDialect.postgis.likeEscape (likePattern (starLike "5!*"))
        "5*" = false ∧
      accepts (fesItems '*' '?' '!' "5!*") "5*" = true) := by
  decide

end NeoServer.Wfs.Fes
