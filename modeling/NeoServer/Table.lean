import Mathlib.Data.List.Nodup

/-!
# Table — rows with a primary key

A table is the list of its rows; `key` gives the primary key of a row. `put` is an
insert that replaces the row of the same key, `delete` removes the row of a key. The
order of the rows means nothing: what is proved about them is which rows there are
(`mem_put`, `mem_delete`) and that keys stay unique (`Keyed`).
-/

namespace NeoServer.Table

open List

variable {α κ : Type}

/-- `INSERT OR REPLACE`. -/
def put [DecidableEq κ] (key : α → κ) (row : α) (rows : List α) : List α :=
  row :: rows.filter fun r => key r ≠ key row

/-- `DELETE ... WHERE key = k`. -/
def delete [DecidableEq κ] (key : α → κ) (k : κ) (rows : List α) : List α :=
  rows.filter fun r => key r ≠ k

/-- `SELECT ... WHERE key = k`. -/
def get [DecidableEq κ] (key : α → κ) (k : κ) (rows : List α) : Option α :=
  rows.find? fun r => key r = k

/-- `UPDATE ... SET ... WHERE p`. -/
def update (p : α → Prop) [DecidablePred p] (f : α → α) (rows : List α) : List α :=
  rows.map fun r => if p r then f r else r

/-- No two rows have one key. -/
def Keyed (key : α → κ) (rows : List α) : Prop := (rows.map key).Nodup

variable {key : α → κ} {row r : α} {k : κ} {rows : List α}

@[simp] theorem mem_put [DecidableEq κ] :
    r ∈ put key row rows ↔ r = row ∨ (r ∈ rows ∧ key r ≠ key row) := by
  simp [put]

@[simp] theorem mem_delete [DecidableEq κ] : r ∈ delete key k rows ↔ r ∈ rows ∧ key r ≠ k := by
  simp [delete]

variable {p : α → Prop} {f : α → α}

/-- A row after the statement: one that it left, or one that it changed. -/
lemma of_mem_update [DecidablePred p] (h : r ∈ update p f rows) :
    (r ∈ rows ∧ ¬ p r) ∨ ∃ old ∈ rows, p old ∧ r = f old := by
  rcases mem_map.mp h with ⟨old, hold, rfl⟩
  by_cases hp : p old
  · rw [if_pos hp]
    exact .inr ⟨old, hold, hp, rfl⟩
  · rw [if_neg hp]
    exact .inl ⟨hold, hp⟩

lemma mem_update_of_pos [DecidablePred p] (hr : r ∈ rows) (hp : p r) : f r ∈ update p f rows :=
  mem_map.mpr ⟨r, hr, if_pos hp⟩

lemma mem_update_of_neg [DecidablePred p] (hr : r ∈ rows) (hp : ¬ p r) : r ∈ update p f rows :=
  mem_map.mpr ⟨r, hr, if_neg hp⟩

lemma Keyed.map (hf : ∀ r, key (f r) = key r) (h : Keyed key rows) : Keyed key (rows.map f) := by
  have hkeys : (rows.map f).map key = rows.map key := by
    rw [map_map]
    exact map_congr_left fun r _ => hf r
  unfold Keyed
  rw [hkeys]
  exact h

lemma Keyed.update [DecidablePred p] (hf : ∀ r, key (f r) = key r)
    (h : Keyed key rows) : Keyed key (update p f rows) := by
  refine Keyed.map ?_ h
  intro r
  split
  · exact hf r
  · rfl

lemma Keyed.filter (h : Keyed key rows) (p : α → Bool) : Keyed key (rows.filter p) :=
  h.sublist (filter_sublist.map key)

theorem Keyed.put [DecidableEq κ] (h : Keyed key rows) (row : α) : Keyed key (put key row rows) := by
  unfold Keyed Table.put
  rw [map_cons, nodup_cons]
  refine ⟨?_, h.filter _⟩
  intro hmem
  rcases mem_map.mp hmem with ⟨r, hr, hkey⟩
  have := (mem_filter.mp hr).2
  simp [hkey] at this

lemma Keyed.eq_of_key (h : Keyed key rows) {a b : α} (ha : a ∈ rows) (hb : b ∈ rows)
    (hkey : key a = key b) : a = b :=
  inj_on_of_nodup_map h ha hb hkey

section Get

variable [DecidableEq κ]

lemma mem_of_get (h : get key k rows = some r) : r ∈ rows ∧ key r = k :=
  ⟨mem_of_find?_eq_some h, by simpa using find?_some h⟩

lemma get_eq_none : get key k rows = none ↔ ∀ r ∈ rows, key r ≠ k := by
  simp [get]

lemma get_of_mem (h : Keyed key rows) (hr : r ∈ rows) : get key (key r) rows = some r := by
  cases hget : get key (key r) rows with
  | none => exact absurd rfl (get_eq_none.mp hget r hr)
  | some =>
    rcases mem_of_get hget with ⟨hr', hkey⟩
    rw [h.eq_of_key hr' hr hkey]

@[simp] lemma get_put_self : get key (key row) (put key row rows) = some row := by
  simp [get, put]

lemma get_filter_of_forall {p : α → Bool} (h : ∀ r, key r = k → p r = true) :
    get key k (rows.filter p) = get key k rows := by
  unfold get
  rw [find?_filter]
  congr 1
  funext r
  by_cases hk : key r = k
  · simp [hk, h r hk]
  · simp [hk]

lemma get_put_of_ne (hne : k ≠ key row) : get key k (put key row rows) = get key k rows := by
  unfold put get
  rw [find?_cons_of_neg (by simpa using hne.symm)]
  exact get_filter_of_forall fun r hr => by simp [hr, hne]

lemma delete_put_self : delete key (key row) (put key row rows) = delete key (key row) rows := by
  unfold delete put
  simp

lemma get_delete_self : get key k (delete key k rows) = none := by
  rw [get_eq_none]
  intro r hr
  exact (mem_delete.mp hr).2

lemma get_delete_of_ne {k' : κ} (hne : k' ≠ k) :
    get key k' (delete key k rows) = get key k' rows :=
  get_filter_of_forall fun r hr => by simp [hr, hne]

/-- A row less, if there is one with the key. -/
lemma length_delete_lt (h : ∃ r ∈ rows, key r = k) :
    (delete key k rows).length < rows.length := by
  rcases h with ⟨r, hr, hkey⟩
  apply length_filter_lt_length_iff_exists.mpr
  exact ⟨r, hr, by simp [hkey]⟩

lemma length_put_le : (put key row rows).length ≤ rows.length + 1 :=
  Nat.succ_le_succ (length_filter_le _ _)

/-- The row of a key is replaced. -/
lemma length_put_of_mem (h : ∃ r ∈ rows, key r = key row) :
    (put key row rows).length ≤ rows.length :=
  length_delete_lt h

end Get

/-- Rows that were put one by one, with keys of their own, are all there, and the other
rows are those with other keys. -/
lemma mem_foldl_put [DecidableEq κ] {new : List α} (hnew : Keyed key new) :
    r ∈ new.foldl (fun rows row => put key row rows) rows ↔
      r ∈ new ∨ (r ∈ rows ∧ ∀ a ∈ new, key a ≠ key r) := by
  induction new generalizing rows with
  | nil => simp
  | cons a new ih =>
    have hkeys := nodup_cons.mp (by simpa [Keyed] using hnew : (key a :: new.map key).Nodup)
    have hrest : ∀ x ∈ new, key x ≠ key a := fun x hx heq =>
      hkeys.1 (mem_map.mpr ⟨x, hx, heq⟩)
    rw [foldl_cons, ih hkeys.2, mem_put, mem_cons]
    constructor
    · rintro (h | ⟨rfl | ⟨h, hne⟩, hother⟩)
      · exact .inl (.inr h)
      · exact .inl (.inl rfl)
      · refine .inr ⟨h, ?_⟩
        exact forall_mem_cons.mpr ⟨hne.symm, hother⟩
    · rintro ((rfl | h) | ⟨h, hother⟩)
      · exact .inr ⟨.inl rfl, hrest⟩
      · exact .inl h
      · exact .inr ⟨.inr ⟨h, (hother a mem_cons_self).symm⟩,
          fun x hx => hother x (mem_cons_of_mem _ hx)⟩

lemma Keyed.foldl_put [DecidableEq κ] (h : Keyed key rows) (new : List α) :
    Keyed key (new.foldl (fun rows row => Table.put key row rows) rows) := by
  induction new generalizing rows with
  | nil => exact h
  | cons a new ih => exact ih (h.put a)

end NeoServer.Table
