import Mathlib.Order.Basic
import Mathlib.Tactic.Tauto
import NeoServer.Text

/-!
# Tilecache.Identity — the keys of tiles

A tile of the persistent cache has an identity, and the index finds it by the text that
`CanonicalKey` makes of the identity: its fields, joined by bars. The style name is left out
of the key. Some of the fields are numbers or are checked by `Validate`; five of them hold any
text.

- `Validate`, `CanonicalKey`, `ObjectKey` : as in the source,
- `Field` : the five fields that hold any text,
- `canonicalKey_inj` : identities with bars in one field at most are known from their keys,
- `canonicalKey_inj_iff` : bars in two fields are one too many,
- `shared_key` : two resources whose tiles have one key.
-/

namespace NeoServer.Tilecache

/-- The identity of one tile. -/
structure Identity where
  workspaceID : Str
  workspaceRevision : Int
  resourceID : Str
  resourceKind : Str
  generation : Int
  tileType : Str
  matrixSet : Str
  zoom : Int
  column : Int
  row : Int
  styleDigest : Str
  styleName : Str
  format : Str
deriving DecidableEq, Repr

/-- `unicode.ToLower`, of which only what it does to ASCII is given. -/
structure Lower where
  rune : Char → Char
  ascii : ∀ c, c.toNat < 128 → rune c = c.toLower

def extensionForFormat (lower : Lower) (format : Str) : Str :=
  let name := (trimSpace format).map lower.rune
  if name ∈ ["image/png".toList, "png".toList] then "png".toList
  else if name ∈ ["image/jpeg".toList, "image/jpg".toList, "jpeg".toList, "jpg".toList] then
    "jpg"
  else if name ∈ ["image/webp".toList, "webp".toList] then "webp".toList
  else if name ∈ ["application/vnd.mapbox-vector-tile".toList, "application/x-protobuf".toList,
      "mvt", "pbf"] then
    "mvt"
  else []

/-- Why an identity is refused. -/
inductive IdentityError
  | incomplete
  | tileType (value : Str)
  | format (value : Str)
deriving DecidableEq, Repr

namespace Identity

/-- No error for an identity that is accepted. -/
def Validate (lower : Lower) (i : Identity) : Option IdentityError :=
  if i.workspaceID = [] ∨ i.workspaceRevision ≤ 0 ∨ i.resourceID = [] ∨ i.generation ≤ 0 ∨
      i.matrixSet = [] ∨ i.zoom < 0 ∨ i.column < 0 ∨ i.row < 0 then
    some .incomplete
  else if i.tileType ≠ "map" ∧ i.tileType ≠ "vector" then some (.tileType i.tileType)
  else if extensionForFormat lower i.format = [] then some (.format i.format)
  else none

def cacheLayoutVersion : Str := "v1"

def CanonicalKey (i : Identity) : Str :=
  join "|" [cacheLayoutVersion, i.workspaceID, decimal i.workspaceRevision, i.resourceID,
    i.resourceKind, decimal i.generation, i.tileType, i.matrixSet, decimal i.zoom,
    decimal i.column, decimal i.row, i.styleDigest, i.format]

def sanitizePathPart (value : Str) : Str :=
  let value := replaceAll (trimSpace value) ".." "_"
  value.map fun c => if c = '/' ∨ c = '\\' ∨ c = '\x00' then '_' else c

/-- `strings.Trim(s, "/")`. -/
def trimSlashes (s : Str) : Str :=
  ((s.dropWhile (· = '/')).reverse.dropWhile (· = '/')).reverse

/-- The name of the payload in the blob store. `digest` gives the first sixteen bytes of the
SHA-256 of a text, in hexadecimal. -/
def ObjectKey (lower : Lower) (digest : Str → Str) (root : Str) (i : Identity) : Str :=
  let style := if i.styleDigest = [] then "default".toList else i.styleDigest
  let leaf := digest i.CanonicalKey ++ "." ++ extensionForFormat lower i.format
  let parts := [trimSlashes root, cacheLayoutVersion, i.workspaceID,
    "w" ++ decimal i.workspaceRevision, i.resourceID, decimal i.generation, i.tileType,
    i.matrixSet, decimal i.zoom, decimal i.row, decimal i.column, style, leaf]
  join "/" ((parts.filter (· ≠ [])).map sanitizePathPart)

/-- All fields but the style name are the same. -/
def SameTile (i j : Identity) : Prop := i = { j with styleName := i.styleName }

/-! ## Fields without a bar -/

lemma bar_mem_trimSpace {s : Str} (h : '|' ∈ s) : '|' ∈ trimSpace s := by
  have hkeep : ∀ t : Str, '|' ∈ t → '|' ∈ t.dropWhile isSpaceRune := by
    intro t ht
    induction t with
    | nil => exact ht
    | cons c t ih =>
      rw [List.dropWhile_cons]
      split
      · rename_i hspace
        rcases List.mem_cons.mp ht with rfl | ht
        · exact absurd hspace (by decide)
        · exact ih ht
      · exact ht
  have hfront := hkeep s h
  have hback := hkeep _ (List.mem_reverse.mpr hfront)
  exact List.mem_reverse.mpr hback

variable {lower : Lower} {i : Identity}

/-- No format that is accepted has a bar in it. -/
lemma bar_not_mem_format {format : Str}
    (h : extensionForFormat lower format ≠ []) : '|' ∉ format := by
  intro hbar
  have hlower : lower.rune '|' = '|' := lower.ascii '|' (by decide)
  have hmem : '|' ∈ (trimSpace format).map lower.rune :=
    List.mem_map.mpr ⟨'|', bar_mem_trimSpace hbar, hlower⟩
  have hnames : ∀ names : List Str, (∀ n ∈ names, '|' ∉ n) →
      (trimSpace format).map lower.rune ∉ names := fun names hn hin => hn _ hin hmem
  apply h
  unfold extensionForFormat
  rw [if_neg (hnames _ (by decide)), if_neg (hnames _ (by decide)), if_neg (hnames _ (by decide)),
    if_neg (hnames _ (by decide))]

lemma bar_not_mem_decimal {n : Int} : '|' ∉ decimal n := by
  have hnat : ∀ m : Nat, '|' ∉ natDecimal m := by
    intro m hmem
    exact absurd (isDigit_of_mem_natDecimal hmem) (by decide)
  cases n with
  | ofNat m => exact hnat m
  | negSucc =>
    intro hmem
    rcases List.mem_cons.mp hmem with heq | hmem
    · exact absurd heq (by decide)
    · exact hnat _ hmem

/-- Numbers that are not negative are known from their digits. -/
lemma eq_of_decimal_eq {m n : Int} (hm : 0 ≤ m) (hn : 0 ≤ n) (h : decimal m = decimal n) :
    m = n := by
  obtain ⟨a, rfl⟩ := Int.eq_ofNat_of_zero_le hm
  obtain ⟨b, rfl⟩ := Int.eq_ofNat_of_zero_le hn
  exact congrArg _ (natDecimal_injective h)

/-- What `Validate` has checked of the fields. -/
structure Valid (lower : Lower) (i : Identity) : Prop where
  workspaceID : i.workspaceID ≠ []
  workspaceRevision : 0 < i.workspaceRevision
  resourceID : i.resourceID ≠ []
  generation : 0 < i.generation
  matrixSet : i.matrixSet ≠ []
  zoom : 0 ≤ i.zoom
  column : 0 ≤ i.column
  row : 0 ≤ i.row
  tileType : i.tileType = "map" ∨ i.tileType = "vector"
  format : extensionForFormat lower i.format ≠ []

lemma validate_eq_none : i.Validate lower = none ↔ i.Valid lower := by
  unfold Validate
  constructor
  · intro h
    split at h
    · exact absurd h (by simp)
    rename_i hfields
    split at h
    · exact absurd h (by simp)
    rename_i htype
    split at h
    · exact absurd h (by simp)
    rename_i hformat
    simp only [not_or, Int.not_le, Int.not_lt] at hfields
    rcases hfields with ⟨h1, h2, h3, h4, h5, h6, h7, h8⟩
    exact ⟨h1, h2, h3, h4, h5, h6, h7, h8, by tauto, hformat⟩
  · intro h
    have hfields : ¬ (i.workspaceID = [] ∨ i.workspaceRevision ≤ 0 ∨ i.resourceID = [] ∨
        i.generation ≤ 0 ∨ i.matrixSet = [] ∨ i.zoom < 0 ∨ i.column < 0 ∨ i.row < 0) := by
      simp only [not_or, Int.not_le, Int.not_lt]
      exact ⟨h.workspaceID, h.workspaceRevision, h.resourceID, h.generation, h.matrixSet, h.zoom,
        h.column, h.row⟩
    have htype : ¬ (i.tileType ≠ "map" ∧ i.tileType ≠ "vector") := by
      have := h.tileType
      tauto
    rw [if_neg hfields, if_neg htype, if_neg h.format]

lemma Valid.bar_not_mem_tileType (h : i.Valid lower) : '|' ∉ i.tileType := by
  rcases h.tileType with heq | heq
  · rw [heq]
    decide
  · rw [heq]
    decide

/-! ## Keys -/

/-- The fields that hold any text. -/
inductive Field
  | workspaceID | resourceID | resourceKind | matrixSet | styleDigest
deriving DecidableEq, Repr

def Field.get (i : Identity) : Field → Str
  | .workspaceID => i.workspaceID
  | .resourceID => i.resourceID
  | .resourceKind => i.resourceKind
  | .matrixSet => i.matrixSet
  | .styleDigest => i.styleDigest

def Field.set (i : Identity) (value : Str) : Field → Identity
  | .workspaceID => { i with workspaceID := value }
  | .resourceID => { i with resourceID := value }
  | .resourceKind => { i with resourceKind := value }
  | .matrixSet => { i with matrixSet := value }
  | .styleDigest => { i with styleDigest := value }

/-- Only the fields in `S` may have a bar. -/
def BarsIn (S : Field → Prop) (i : Identity) : Prop := ∀ f, '|' ∈ Field.get i f → S f

/-- The parts of the key before a field, in it and after it. -/
def partsBefore (i : Identity) : Field → List Str
  | .workspaceID => [cacheLayoutVersion]
  | .resourceID => [cacheLayoutVersion, i.workspaceID, decimal i.workspaceRevision]
  | .resourceKind => [cacheLayoutVersion, i.workspaceID, decimal i.workspaceRevision, i.resourceID]
  | .matrixSet => [cacheLayoutVersion, i.workspaceID, decimal i.workspaceRevision, i.resourceID,
      i.resourceKind, decimal i.generation, i.tileType]
  | .styleDigest => [cacheLayoutVersion, i.workspaceID, decimal i.workspaceRevision, i.resourceID,
      i.resourceKind, decimal i.generation, i.tileType, i.matrixSet, decimal i.zoom,
      decimal i.column, decimal i.row]

def partsAfter (i : Identity) : Field → List Str
  | .workspaceID => [decimal i.workspaceRevision, i.resourceID, i.resourceKind,
      decimal i.generation, i.tileType, i.matrixSet, decimal i.zoom, decimal i.column,
      decimal i.row, i.styleDigest, i.format]
  | .resourceID => [i.resourceKind, decimal i.generation, i.tileType, i.matrixSet, decimal i.zoom,
      decimal i.column, decimal i.row, i.styleDigest, i.format]
  | .resourceKind => [decimal i.generation, i.tileType, i.matrixSet, decimal i.zoom,
      decimal i.column, decimal i.row, i.styleDigest, i.format]
  | .matrixSet => [decimal i.zoom, decimal i.column, decimal i.row, i.styleDigest, i.format]
  | .styleDigest => [i.format]

lemma canonicalKey_eq (i : Identity) (f : Field) :
    i.CanonicalKey = join "|" (i.partsBefore f ++ Field.get i f :: i.partsAfter f) := by
  cases f <;> rfl

/-- The parts around a field have no bar, if the other fields have none. -/
lemma Valid.bar_not_mem_parts {f : Field} (h : i.Valid lower)
    (hbars : i.BarsIn (· = f)) : ∀ x ∈ i.partsBefore f ++ i.partsAfter f, '|' ∉ x := by
  have hother : ∀ g, f ≠ g → '|' ∉ Field.get i g := fun g hne hmem => hne (hbars g hmem).symm
  have hversion : '|' ∉ cacheLayoutVersion := by decide
  have htype := h.bar_not_mem_tileType
  have hformat := bar_not_mem_format h.format
  have hws := hother .workspaceID
  have hres := hother .resourceID
  have hkind := hother .resourceKind
  have hms := hother .matrixSet
  have hstyle := hother .styleDigest
  cases f <;> simp_all [partsBefore, partsAfter, Field.get, bar_not_mem_decimal]

/-- Identities that are accepted, with bars in at most one field, are known from their
keys. -/
theorem canonicalKey_inj {i j : Identity} (hi : i.Valid lower)
    (hj : j.Valid lower) (hbi : i.BarsIn (· = f)) (hbj : j.BarsIn (· = f))
    (h : i.CanonicalKey = j.CanonicalKey) : i.SameTile j := by
  rw [canonicalKey_eq i f, canonicalKey_eq j f] at h
  have hlen : (i.partsBefore f).length = (j.partsBefore f).length := by cases f <;> rfl
  have hlen' : (i.partsAfter f).length = (j.partsAfter f).length := by cases f <;> rfl
  rcases join_inj_of_not_mem (hi.bar_not_mem_parts hbi) (hj.bar_not_mem_parts hbj) hlen hlen' h
    with ⟨hbefore, hfield, hafter⟩
  have hrev := eq_of_decimal_eq (Int.le_of_lt hi.workspaceRevision)
    (Int.le_of_lt hj.workspaceRevision)
  have hgen := eq_of_decimal_eq (Int.le_of_lt hi.generation) (Int.le_of_lt hj.generation)
  have hzoom := eq_of_decimal_eq hi.zoom hj.zoom
  have hcol := eq_of_decimal_eq hi.column hj.column
  have hrow := eq_of_decimal_eq hi.row hj.row
  cases i
  cases j
  cases f <;> simp_all [SameTile, partsBefore, partsAfter, Field.get]

lemma SameTile.get_eq {i j} (h : i.SameTile j) (f : Field) : Field.get i f = Field.get j f := by
  rw [h]
  cases f <;> rfl

/-! ## Bars in two fields -/

/-- An identity without bars. -/
def plain : Identity where
  workspaceID := "x"
  workspaceRevision := 1
  resourceID := "x"
  resourceKind := "x"
  generation := 1
  tileType := "map"
  matrixSet := "x"
  zoom := 1
  column := 1
  row := 1
  styleDigest := "x"
  styleName := []
  format := "png"

/-- What stands between two fields in the key of `plain`, with the text of a field on both
sides. It may stand in either of them. -/
def straddling (f g : Field) : Str :=
  let before := plain.partsBefore f
  let after := plain.partsAfter f
  let count := (plain.partsBefore g).length - before.length - 1
  join "|".toList ("x".toList :: after.take count ++ ["x".toList])

/-- The two fields in the order in which the key has them. -/
def Field.Precedes (f g : Field) : Prop :=
  (plain.partsBefore f).length < (plain.partsBefore g).length

instance (f g : Field) : Decidable (f.Precedes g) :=
  inferInstanceAs (Decidable ((plain.partsBefore f).length < (plain.partsBefore g).length))

lemma canonicalKey_straddling {f g : Field} (h : f.Precedes g) :
    (Field.set plain (straddling f g) f).CanonicalKey =
      (Field.set plain (straddling f g) g).CanonicalKey := by
  cases f <;> cases g <;> revert h <;> decide

lemma bar_mem_straddling (f g : Field) : '|' ∈ straddling f g := by
  cases f <;> cases g <;> decide

lemma valid_set_plain (lower : Lower) {value : Str} (hvalue : value ≠ []) (f : Field) :
    (Field.set plain value f).Valid lower := by
  have hformat : extensionForFormat lower "png" ≠ [] := by
    have hname : (trimSpace "png").map lower.rune = "png" := by
      change [lower.rune 'p', lower.rune 'n', lower.rune 'g'] = _
      rw [lower.ascii _ (by decide), lower.ascii _ (by decide), lower.ascii _ (by decide)]
      decide
    unfold extensionForFormat
    rw [hname]
    decide
  have hplain : plain.Valid lower :=
    ⟨by decide, by decide, by decide, by decide, by decide, by decide, by decide, by decide,
      .inl rfl, hformat⟩
  cases f with
  | workspaceID => exact { hplain with workspaceID := hvalue }
  | resourceID => exact { hplain with resourceID := hvalue }
  | resourceKind | styleDigest => exact { hplain with }
  | matrixSet => exact { hplain with matrixSet := hvalue }

lemma barsIn_set_plain (value : Str) (f : Field) : (Field.set plain value f).BarsIn (· = f) := by
  intro g hg
  by_contra hne
  have hsame : Field.get (Field.set plain value f) g = "x" := by
    cases f <;> cases g <;> first | rfl | exact absurd rfl hne
  rw [hsame] at hg
  exact absurd hg (by decide)

/-- Identities with bars in two fields do not have keys of their own. -/
lemma exists_shared_key (lower : Lower) {f g : Field} (h : f ≠ g) :
    ∃ i j : Identity, i.Valid lower ∧ j.Valid lower ∧ i.BarsIn (· = f) ∧ j.BarsIn (· = g) ∧
      i.CanonicalKey = j.CanonicalKey ∧ ¬ i.SameTile j := by
  have hne : ∀ f g, straddling f g ≠ [] := fun f g heq => by
    have := bar_mem_straddling f g
    rw [heq] at this
    exact absurd this (by simp)
  have hdiffer : ∀ f g a b, a ≠ b → ¬ (Field.set plain (straddling f g) a).SameTile
      (Field.set plain (straddling f g) b) := by
    intro f g a b hab hsame
    have hbar : '|' ∈ Field.get (Field.set plain (straddling f g) a) a := by
      have hget : Field.get (Field.set plain (straddling f g) a) a = straddling f g := by
        cases a <;> rfl
      rw [hget]
      exact bar_mem_straddling f g
    rw [hsame.get_eq] at hbar
    exact hab (barsIn_set_plain _ b a hbar)
  have horder : f.Precedes g ∨ g.Precedes f := by
    revert h
    cases f <;> cases g <;> decide
  rcases horder with horder | horder
  · exact ⟨_, _, valid_set_plain lower (hne f g) f, valid_set_plain lower (hne f g) g,
      barsIn_set_plain _ f, barsIn_set_plain _ g, canonicalKey_straddling horder,
      hdiffer f g f g h⟩
  · exact ⟨_, _, valid_set_plain lower (hne g f) f, valid_set_plain lower (hne g f) g,
      barsIn_set_plain _ f, barsIn_set_plain _ g, (canonicalKey_straddling horder).symm,
      hdiffer g f f g h⟩

/-- Keys tell the accepted identities with bars in some fields apart, if and only if there is
one such field at most. -/
theorem canonicalKey_inj_iff (lower : Lower) (S : Field → Prop) :
    (∀ i j : Identity, i.Validate lower = none → j.Validate lower = none → i.BarsIn S →
      j.BarsIn S → i.CanonicalKey = j.CanonicalKey → i.SameTile j) ↔
    ∀ f g, S f → S g → f = g := by
  constructor
  · intro hinj f g hf hg
    by_contra hne
    rcases exists_shared_key lower hne with ⟨i, j, hi, hj, hbi, hbj, hkey, hdiffer⟩
    apply hdiffer
    apply hinj i j (validate_eq_none.mpr hi) (validate_eq_none.mpr hj) _ _ hkey
    · intro a ha
      exact hbi a ha ▸ hf
    · intro a ha
      exact hbj a ha ▸ hg
  · intro hone i j hi hj hbi hbj hkey
    -- if no field may have a bar, any of them may be taken for the one
    have hfield : ∃ f, ∀ a, S a → a = f := by
      by_cases hsome : ∃ f, S f
      · rcases hsome with ⟨f, hf⟩
        exact ⟨f, fun a ha => hone a f ha hf⟩
      · exact ⟨.resourceID, fun a ha => absurd ⟨a, ha⟩ hsome⟩
    rcases hfield with ⟨f, hf⟩
    exact canonicalKey_inj (validate_eq_none.mp hi) (validate_eq_none.mp hj)
      (fun a ha => hf a (hbi a ha)) (fun a ha => hf a (hbj a ha)) hkey

/-! ### One key for two resources -/

def asciiLower : Lower := ⟨Char.toLower, fun _ _ => rfl⟩

/-- A tile of the resource `roads`, in a matrix set with a name of many parts. -/
def tileOfRoads : Identity :=
  { plain with resourceID := "roads", resourceKind := "feature",
               matrixSet := "a|feature|1|map|b" }

/-- A tile of another resource, in the matrix set `b`. -/
def tileOfOther : Identity :=
  { plain with resourceID := "roads|feature|1|map|a", resourceKind := "feature",
               matrixSet := "b" }

/-- Both are accepted, and their tiles have one key. -/
theorem shared_key :
    tileOfRoads.Validate asciiLower = none ∧ tileOfOther.Validate asciiLower = none ∧
    tileOfRoads.CanonicalKey = tileOfOther.CanonicalKey ∧
    tileOfRoads.resourceID ≠ tileOfOther.resourceID ∧ ¬ tileOfRoads.SameTile tileOfOther := by
  refine ⟨by decide +kernel, by decide +kernel, by decide +kernel, by decide, ?_⟩
  intro hsame
  exact absurd (hsame.get_eq .matrixSet) (by decide)

end Identity

end NeoServer.Tilecache
