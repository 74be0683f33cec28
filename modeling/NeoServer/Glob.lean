import Mathlib.Algebra.Order.Ring.Int
import Mathlib.Data.List.Count
import Mathlib.Data.List.Forall2
import Mathlib.Data.List.Infix

/-!
# Glob — wildcard patterns

Patterns over an alphabet `α` in which an item stands for any word, for any single
letter, or for one given letter.

- `accepts` decides whether a word matches a pattern,
- `gaps` is the normal form of a pattern: how many letters are free before, between
  and after its given letters, and where more may stand,
- `accepts_iff_fills` : the words of a pattern are read off its normal form,
- `gaps_eq_of_accepts_iff` : two patterns with the same words have the same normal
  form, if some letter occurs in neither.
-/

namespace NeoServer.Glob

open List

/-- One item of a pattern. -/
inductive Item (α : Type) where
  | any
  | one
  | lit (a : α)
  deriving DecidableEq, Repr

variable {α : Type}

/-- Some suffix of the word satisfies `f`. -/
def someSuffix (f : List α → Bool) : List α → Bool
  | [] => f []
  | a :: s => f (a :: s) || someSuffix f s

/-- Whether a word matches a pattern. -/
def accepts [DecidableEq α] : List (Item α) → List α → Bool
  | [], s => s.isEmpty
  | .any :: p, s => someSuffix (accepts p) s
  | .one :: _, [] => false
  | .one :: p, _ :: s => accepts p s
  | .lit _ :: _, [] => false
  | .lit a :: p, b :: s => decide (a = b) && accepts p s

lemma someSuffix_iff {f : List α → Bool} {s : List α} :
    someSuffix f s = true ↔ ∃ u v, s = u ++ v ∧ f v = true := by
  induction s with
  | nil =>
    constructor
    · intro h
      exact ⟨[], [], rfl, h⟩
    · rintro ⟨u, v, huv, hv⟩
      obtain ⟨-, rfl⟩ := append_eq_nil_iff.mp huv.symm
      exact hv
  | cons a s ih =>
    rw [someSuffix, Bool.or_eq_true, ih]
    constructor
    · rintro (h | ⟨u, v, rfl, hv⟩)
      · exact ⟨[], a :: s, rfl, h⟩
      · exact ⟨a :: u, v, rfl, hv⟩
    · rintro ⟨u, v, huv, hv⟩
      cases u with
      | nil =>
        subst huv
        exact .inl hv
      | cons b u =>
        obtain ⟨rfl, rfl⟩ := cons.inj huv
        exact .inr ⟨u, v, rfl, hv⟩

/-! ## The normal form -/

/-- The free letters at one place of a pattern: how many there are at least, and
whether there may be more. -/
@[ext]
structure Gap where
  ones : Nat
  more : Bool
  deriving DecidableEq, Repr

namespace Gap

def Fits (g : Gap) (n : Nat) : Prop := n = g.ones ∨ (g.more = true ∧ g.ones ≤ n)

def empty : Gap := ⟨0, false⟩

/-- One more free letter. -/
def widen (g : Gap) : Gap := ⟨g.ones + 1, g.more⟩

/-- Any number of further letters, if `b`. -/
def openIf (g : Gap) (b : Bool) : Gap := ⟨g.ones, g.more || b⟩

variable {g h : Gap} {n : Nat}

@[simp] lemma fits_empty : empty.Fits n ↔ n = 0 := by
  simp [Fits, empty]

lemma fits_ones : g.Fits g.ones := .inl rfl

lemma ones_le (h : g.Fits n) : g.ones ≤ n := by
  rcases h with h | ⟨-, h⟩ <;> omega

@[simp] lemma fits_widen_succ : g.widen.Fits (n + 1) ↔ g.Fits n := by
  simp [Fits, widen]

lemma fits_open : (g.openIf true).Fits n ↔ ∃ m ≤ n, g.Fits m := by
  constructor
  · intro h
    exact ⟨g.ones, ones_le (g := g.openIf true) h, fits_ones⟩
  · rintro ⟨m, hm, hfit⟩
    have hle := ones_le hfit
    exact .inr ⟨by simp [openIf], by simp only [openIf]; omega⟩

/-- A gap is known by the numbers that fit it. -/
lemma eq_of_fits_iff (hgh : ∀ n, g.Fits n ↔ h.Fits n) : g = h := by
  have hones : g.ones = h.ones :=
    Nat.le_antisymm (ones_le ((hgh _).mpr fits_ones)) (ones_le ((hgh _).mp fits_ones))
  have hopen : g.more = true ↔ h.more = true := by
    have := hgh (g.ones + 1)
    simp only [Fits, hones] at this
    constructor <;> intro hb <;> simp_all
  obtain ⟨n, a⟩ := g
  simp only at hones hopen
  rw [hones, Bool.eq_iff_iff.mpr hopen]

end Gap

/-- The normal form of a pattern: the gap before its first given letter, and each
given letter with the gap after it. -/
def gaps : List (Item α) → Gap × List (α × Gap)
  | [] => (.empty, [])
  | .any :: p => ((gaps p).1.openIf true, (gaps p).2)
  | .one :: p => ((gaps p).1.widen, (gaps p).2)
  | .lit a :: p => (.empty, (a, (gaps p).1) :: (gaps p).2)

/-- A word has the given letters in their order, and the rest of it fits the gaps. -/
def Fills : Gap → List (α × Gap) → List α → Prop
  | g, [], s => g.Fits s.length
  | g, (a, h) :: r, s => ∃ u v, s = u ++ a :: v ∧ g.Fits u.length ∧ Fills h r v

/-! ### Reading words off the normal form -/

variable {r : List (α × Gap)} {s : List α}

variable {g : Gap} {p : List (Item α)}

lemma fills_widen_nil : ¬ Fills g.widen r [] := by
  cases r with
  | nil => simp [Fills, Gap.Fits, Gap.widen]
  | cons =>
    rintro ⟨u, v, huv, -, -⟩
    simp at huv

lemma fills_widen_cons {a : α} : Fills g.widen r (a :: s) ↔ Fills g r s := by
  cases r with
  | nil => simp [Fills]
  | cons =>
    constructor
    · rintro ⟨u, v, huv, hfit, hrest⟩
      cases u with
      | nil => simp [Gap.Fits, Gap.widen] at hfit
      | cons b u =>
        obtain ⟨rfl, rfl⟩ := cons.inj huv
        exact ⟨u, v, rfl, Gap.fits_widen_succ.mp hfit, hrest⟩
    · rintro ⟨u, v, rfl, hfit, hrest⟩
      exact ⟨a :: u, v, rfl, Gap.fits_widen_succ.mpr hfit, hrest⟩

/-- An open gap takes a prefix of the word. -/
lemma fills_open : Fills (g.openIf true) r s ↔ ∃ u v, s = u ++ v ∧ Fills g r v := by
  cases r with
  | nil =>
    simp only [Fills, Gap.fits_open]
    constructor
    · rintro ⟨m, hm, hfit⟩
      refine ⟨s.take (s.length - m), s.drop (s.length - m), by simp, ?_⟩
      rwa [length_drop, Nat.sub_sub_self hm]
    · rintro ⟨u, v, rfl, hfit⟩
      exact ⟨v.length, by simp, hfit⟩
  | cons x =>
    simp only [Fills, Gap.fits_open]
    constructor
    · rintro ⟨u, v, rfl, ⟨m, hm, hfit⟩, hrest⟩
      refine ⟨u.take (u.length - m), u.drop (u.length - m) ++ x.1 :: v, ?_,
        u.drop (u.length - m), v, rfl, ?_, hrest⟩
      · rw [← append_assoc, take_append_drop]
      · rwa [length_drop, Nat.sub_sub_self hm]
    · rintro ⟨w, _, rfl, u, v, rfl, hfit, hrest⟩
      exact ⟨w ++ u, v, by simp, ⟨u.length, by simp, hfit⟩, hrest⟩

/-- The words of a pattern are those that fill its gaps. -/
theorem accepts_iff_fills [DecidableEq α] : accepts p s = true ↔ Fills (gaps p).1 (gaps p).2 s := by
  induction p generalizing s with
  | nil => simp [accepts, gaps, Fills]
  | cons i p ih =>
    cases i with
    | any =>
      rw [accepts, gaps, someSuffix_iff, fills_open]
      simp only [ih]
    | one =>
      cases s with
      | nil => simp [accepts, gaps, fills_widen_nil]
      | cons => rw [accepts, gaps, fills_widen_cons, ih]
    | lit =>
      cases s with
      | nil => simp [accepts, gaps, Fills]
      | cons b s =>
        rw [accepts, gaps, Bool.and_eq_true, decide_eq_true_iff, ih, Fills]
        constructor
        · rintro ⟨rfl, hrest⟩
          exact ⟨[], s, rfl, Gap.fits_empty.mpr rfl, hrest⟩
        · rintro ⟨u, v, huv, hfit, hrest⟩
          rw [Gap.fits_empty, length_eq_zero_iff] at hfit
          subst hfit
          obtain ⟨rfl, rfl⟩ := cons.inj huv
          exact ⟨rfl, hrest⟩

/-- Patterns with one normal form have the same words. -/
lemma accepts_eq_of_gaps_eq [DecidableEq α] {q} (h : gaps p = gaps q) :
    accepts p = accepts q := by
  funext s
  rw [Bool.eq_iff_iff, accepts_iff_fills, accepts_iff_fills, h]

/-! ### Words of a given shape

A letter `z` that is not one of the given letters marks the free ones: in a word with
as many other letters as the pattern has, each of those stands for a given letter. -/

/-- `n` free letters, and then each letter of the list with the free letters after it. -/
def spread (z : α) : Nat → List (α × Nat) → List α
  | n, [] => replicate n z
  | n, (a, m) :: ws => replicate n z ++ a :: spread z m ws

/-- The shape fits a normal form place by place. -/
def Shaped : Gap → List (α × Gap) → Nat → List (α × Nat) → Prop
  | g, [], n, [] => g.Fits n
  | g, (a, h) :: r, n, (b, m) :: ws => g.Fits n ∧ a = b ∧ Shaped h r m ws
  | _, _, _, _ => False

/-- The shape a normal form has at least. -/
def least (r : List (α × Gap)) : List (α × Nat) := r.map fun x => (x.1, x.2.ones)

lemma shaped_least (g : Gap) (r : List (α × Gap)) : Shaped g r g.ones (least r) := by
  induction r generalizing g with
  | nil => exact Gap.fits_ones
  | cons x r ih => exact ⟨Gap.fits_ones, rfl, ih x.2⟩

lemma Shaped.length_eq {n : Nat} {ws} (h : Shaped g r n ws) : r.length = ws.length := by
  induction r generalizing g n ws with
  | nil =>
    cases ws with
    | nil => rfl
    | cons => exact h.elim
  | cons x r ih =>
    cases ws with
    | nil => exact h.elim
    | cons => simp [ih h.2.2]

section Fresh

variable {z : α}

variable {ws : List (α × Nat)}

lemma least_ne (hr : ∀ x ∈ r, x.1 ≠ z) : ∀ y ∈ least r, y.1 ≠ z := by
  intro y hy
  obtain ⟨x, hx, rfl⟩ := mem_map.mp hy
  exact hr x hx

variable {n : Nat} {g : Gap}

lemma count_spread [DecidableEq α] (hz : ∀ y ∈ ws, y.1 ≠ z) :
    (spread z n ws).countP (· ≠ z) = ws.length := by
  induction ws generalizing n with
  | nil => simp [spread, countP_replicate]
  | cons y ws ih =>
    have hy : y.1 ≠ z := hz y (by simp)
    have hws : ∀ x ∈ ws, x.1 ≠ z := fun x hx => hz x (by simp [hx])
    rw [spread, countP_append, countP_cons_of_pos (by simpa using hy), ih hws]
    simp [countP_replicate]

lemma length_le_count [DecidableEq α]
    (hz : ∀ x ∈ r, x.1 ≠ z) (h : Fills g r s) : r.length ≤ s.countP (· ≠ z) := by
  induction r generalizing g s with
  | nil => simp
  | cons x r ih =>
    obtain ⟨u, v, rfl, -, hrest⟩ := h
    have hx : x.1 ≠ z := hz x (by simp)
    have hle := ih (fun y hy => hz y (by simp [hy])) hrest
    rw [countP_append, countP_cons_of_pos (by simpa using hx), length_cons]
    omega

lemma fills_spread_of_shaped (h : Shaped g r n ws) : Fills g r (spread z n ws) := by
  induction r generalizing g n ws with
  | nil =>
    cases ws with
    | nil =>
      have hfit : g.Fits n := h
      simpa [spread, Fills] using hfit
    | cons => exact h.elim
  | cons x r ih =>
    cases ws with
    | nil => exact h.elim
    | cons y ws =>
      obtain ⟨hfit, heq, hrest⟩ := h
      refine ⟨replicate n z, spread z y.2 ws, ?_, by simpa using hfit, ih hrest⟩
      rw [spread, heq]

/-- A run of free letters ends at the first other letter. -/
lemma replicate_append_cons_inj {a b : α} {u v t : List α} (hu : ∀ c ∈ u, c = z)
    (ha : a ≠ z) (hb : b ≠ z) (h : replicate n z ++ b :: t = u ++ a :: v) :
    u.length = n ∧ a = b ∧ v = t := by
  induction n generalizing u with
  | zero =>
    cases u with
    | nil =>
      obtain ⟨rfl, rfl⟩ := cons.inj h
      exact ⟨rfl, rfl, rfl⟩
    | cons =>
      obtain ⟨rfl, -⟩ := cons.inj h
      exact absurd (hu b (by simp)) hb
  | succ n ih =>
    cases u with
    | nil =>
      obtain ⟨hza, -⟩ := cons.inj h
      exact absurd hza.symm ha
    | cons =>
      obtain ⟨-, htail⟩ := cons.inj h
      obtain ⟨hlen, hab, hvt⟩ := ih (fun d hd => hu d (by simp [hd])) htail
      exact ⟨by simp [hlen], hab, hvt⟩

lemma shaped_of_fills_spread [DecidableEq α]
    (hr : ∀ x ∈ r, x.1 ≠ z) (hws : ∀ y ∈ ws, y.1 ≠ z) (hlen : ws.length = r.length)
    (h : Fills g r (spread z n ws)) : Shaped g r n ws := by
  induction r generalizing g n ws with
  | nil =>
    obtain rfl := length_eq_zero_iff.mp hlen
    have hfit : g.Fits n := by simpa [spread, Fills] using h
    exact hfit
  | cons x r ih =>
    cases ws with
    | nil => simp at hlen
    | cons y ws =>
      have hxz : x.1 ≠ z := hr x (by simp)
      have hyz : y.1 ≠ z := hws y (by simp)
      have hr' : ∀ x ∈ r, x.1 ≠ z := fun x hx => hr x (by simp [hx])
      have hws' : ∀ y ∈ ws, y.1 ≠ z := fun y hy => hws y (by simp [hy])
      have hlen' : ws.length = r.length := by simpa using hlen
      have hcount := count_spread (n := n) hws
      obtain ⟨u, v, huv, hfit, hrest⟩ := h
      -- the rest of the pattern needs every letter that is left, so `u` is free
      have hle := length_le_count hr' hrest
      rw [huv, countP_append, countP_cons_of_pos (by simpa using hxz), length_cons] at hcount
      have hu0 : u.countP (· ≠ z) = 0 := by omega
      have hu : ∀ c ∈ u, c = z := by simpa [countP_eq_zero] using hu0
      obtain ⟨hn, hxy, hv⟩ := replicate_append_cons_inj hu hxz hyz huv
      subst hv
      rw [hn] at hfit
      exact ⟨hfit, hxy, ih hr' hws' hlen' hrest⟩

/-- Normal forms that fit the same shapes are equal. -/
lemma eq_of_shaped_iff {h : Gap} {r q}
    (hiff : ∀ n ws, (∀ y ∈ ws, y.1 ≠ z) → (Shaped g r n ws ↔ Shaped h q n ws))
    (hr : ∀ x ∈ r, x.1 ≠ z) : g = h ∧ r = q := by
  induction r generalizing g h q with
  | nil =>
    have hq : q = [] := by
      have := ((hiff g.ones [] (by simp)).mp (shaped_least g [])).length_eq
      simpa using this
    subst hq
    exact ⟨Gap.eq_of_fits_iff fun n => hiff n [] (by simp), rfl⟩
  | cons x r ih =>
    have hr' : ∀ x ∈ r, x.1 ≠ z := fun x hx => hr x (by simp [hx])
    have hx := (hiff g.ones (least (x :: r)) (least_ne hr)).mp (shaped_least g (x :: r))
    cases q with
    | nil => exact hx.elim
    | cons y q =>
      obtain ⟨hfit, hyx, hshape⟩ := hx
      have hyx' : y.1 = x.1 := hyx
      -- the first gap: the other places keep their least shape
      have hgh : g = h := by
        refine Gap.eq_of_fits_iff fun n => ?_
        have := hiff n (least (x :: r)) (least_ne hr)
        constructor
        · intro hg
          exact (this.mp ⟨hg, rfl, shaped_least x.2 r⟩).1
        · intro hh
          exact (this.mpr ⟨hh, hyx, hshape⟩).1
      subst hgh
      -- the other places: the first gap keeps its least shape
      have hrest : x.2 = y.2 ∧ r = q := by
        refine ih (fun n ws hws => ?_) hr'
        have := hiff g.ones ((x.1, n) :: ws) (by simpa [hr x (by simp)] using hws)
        constructor
        · intro hs
          exact (this.mp ⟨Gap.fits_ones, rfl, hs⟩).2.2
        · intro hs
          exact (this.mpr ⟨Gap.fits_ones, hyx', hs⟩).2.2
      obtain ⟨h2, rfl⟩ := hrest
      exact ⟨rfl, by rw [show x = y from Prod.ext hyx'.symm h2]⟩

/-- Two patterns with the same words have one normal form, if `z` is a given letter of
neither. -/
theorem gaps_eq_of_accepts_iff [DecidableEq α] {p q}
    (hp : ∀ x ∈ (gaps p).2, x.1 ≠ z) (hq : ∀ x ∈ (gaps q).2, x.1 ≠ z)
    (h : ∀ s, accepts p s = true ↔ accepts q s = true) : gaps p = gaps q := by
  have hfills : ∀ s, Fills (gaps p).1 (gaps p).2 s ↔ Fills (gaps q).1 (gaps q).2 s := by
    intro s
    rw [← accepts_iff_fills, ← accepts_iff_fills]
    exact h s
  -- the least word of one pattern matches the other, so neither has more given letters
  have hle : ∀ {g g' : Gap} {r r' : List (α × Gap)}, (∀ x ∈ r, x.1 ≠ z) → (∀ x ∈ r', x.1 ≠ z) →
      (∀ s, Fills g r s ↔ Fills g' r' s) → r'.length ≤ r.length := by
    intro g g' r r' hr hr' hiff
    have hword := (hiff _).mp (fills_spread_of_shaped (z := z) (shaped_least g r))
    have hcount := length_le_count hr' hword
    rwa [count_spread (least_ne hr), least, length_map] at hcount
  have hlen : (gaps p).2.length = (gaps q).2.length :=
    Nat.le_antisymm (hle hq hp fun s => (hfills s).symm) (hle hp hq hfills)
  have hshape : ∀ n ws, (∀ y ∈ ws, y.1 ≠ z) →
      (Shaped (gaps p).1 (gaps p).2 n ws ↔ Shaped (gaps q).1 (gaps q).2 n ws) := by
    intro n ws hws
    constructor
    · intro hs
      exact shaped_of_fills_spread hq hws (hs.length_eq.symm.trans hlen)
        ((hfills _).mp (fills_spread_of_shaped hs))
    · intro hs
      exact shaped_of_fills_spread hp hws (hs.length_eq.symm.trans hlen.symm)
        ((hfills _).mpr (fills_spread_of_shaped hs))
  obtain ⟨hgap, hrest⟩ := eq_of_shaped_iff hshape hp
  exact Prod.ext hgap hrest

end Fresh

/-- Every pattern has a word. -/
lemma exists_accepts [DecidableEq α] [Inhabited α] (p : List (Item α)) :
    ∃ s, accepts p s = true :=
  ⟨_, accepts_iff_fills.mpr
    (fills_spread_of_shaped (z := default) (shaped_least (gaps p).1 (gaps p).2))⟩

/-! ## What the normal form keeps of a pattern -/

/-- The given letters of a pattern, in order. -/
def letters (p : List (Item α)) : List α := (gaps p).2.map Prod.fst

/-- The number of single free letters. -/
def ones (p : List (Item α)) : Nat := (gaps p).1.ones + ((gaps p).2.map fun x => x.2.ones).sum

/-- Whether a longer word can match somewhere. -/
def isOpen (p : List (Item α)) : Bool := (gaps p).1.more || (gaps p).2.any fun x => x.2.more

section Keeps

variable {a : α}

@[simp] lemma letters_nil : letters ([] : List (Item α)) = [] := rfl

@[simp] lemma letters_any : letters (.any :: p) = letters p := rfl

@[simp] lemma letters_one : letters (.one :: p) = letters p := rfl

@[simp] lemma letters_lit : letters (.lit a :: p) = a :: letters p := rfl

@[simp] lemma ones_nil : ones ([] : List (Item α)) = 0 := rfl

@[simp] lemma ones_any : ones (.any :: p) = ones p := rfl

@[simp] lemma ones_one : ones (.one :: p) = ones p + 1 := by
  simp only [ones, gaps, Gap.widen]
  omega

@[simp] lemma ones_lit : ones (.lit a :: p) = ones p := by
  simp [ones, gaps, Gap.empty]

@[simp] lemma isOpen_nil : isOpen ([] : List (Item α)) = false := rfl

@[simp] lemma isOpen_any : isOpen (.any :: p) = true := by
  simp [isOpen, gaps, Gap.openIf]

@[simp] lemma isOpen_one : isOpen (.one :: p) = isOpen p := rfl

@[simp] lemma isOpen_lit : isOpen (.lit a :: p) = isOpen p := by
  simp [isOpen, gaps, Gap.empty]

end Keeps

/-- Two patterns have the same words after a pattern that ends in any word, if `b`, and
after any pattern otherwise. -/
def Near (b : Bool) (p q : List (Item α)) : Prop :=
  (gaps p).1.openIf b = (gaps q).1.openIf b ∧ (gaps p).2 = (gaps q).2

section Near

variable {b : Bool} {p q : List (Item α)} {a c : α}

lemma near_false : Near false p q ↔ gaps p = gaps q := by
  simp [Near, Gap.openIf, Prod.ext_iff, Gap.ext_iff]

@[simp] lemma near_refl : Near b p p := ⟨rfl, rfl⟩

@[simp] lemma near_any : Near b (.any :: p) (.any :: q) ↔ Near true p q := by
  simp [Near, gaps, Gap.openIf]

@[simp] lemma near_one : Near b (.one :: p) (.one :: q) ↔ Near b p q := by
  simp [Near, gaps, Gap.openIf, Gap.widen]

@[simp] lemma near_lit : Near b (.lit a :: p) (.lit c :: q) ↔ a = c ∧ Near false p q := by
  rw [near_false]
  simp [Near, gaps, Prod.ext_iff, and_assoc]

/-- Any word before a letter adds nothing only where any word may stand already. -/
@[simp] lemma near_lit_any : Near b (.lit a :: p) (.any :: .lit c :: q) ↔
    b = true ∧ a = c ∧ Near false p q := by
  rw [near_false]
  simp [Near, gaps, Gap.openIf, Gap.empty, Prod.ext_iff, and_assoc]

end Near

end NeoServer.Glob
