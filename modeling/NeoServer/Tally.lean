import Mathlib
import NeoServer.Table

/-!
# Tally — recorded totals

A table of rows with weights, and beside it a table of recorded totals, one for each scope. A
change of a row goes with an adjustment of the records of its scopes. A record that is missing
counts as zero and is created by its first adjustment; an existing one is never let below zero.

- `total` : the sum of the weights of the rows,
- `recorded`, `adjust` : the record of a scope and its adjustment,
- `total_put`, `total_delete` : what a change of one row does to the sum,
- `recorded_foldl_adjust` : what an adjustment does to the records, if none gets below zero,
- `recorded_adjust_back` : when an adjustment is undone by the opposite one.
-/

namespace NeoServer.Tally

open Table List

variable {α κ M : Type} [AddCommGroup M]

/-- The sum of the weights of the rows. -/
def total (w : α → M) (rows : List α) : M := (rows.map w).sum

section Total

variable {w : α → M} {rows : List α}

@[simp] lemma total_nil : total w [] = 0 := rfl

@[simp] lemma total_cons (row : α) : total w (row :: rows) = w row + total w rows :=
  sum_cons

lemma total_eq_zero (h : ∀ r ∈ rows, w r = 0) : total w rows = 0 := by
  induction rows with
  | nil => rfl
  | cons r rows ih =>
    rw [total_cons, h r mem_cons_self, ih fun x hx => h x (mem_cons_of_mem _ hx), add_zero]

lemma total_nonneg [PartialOrder M] [IsOrderedAddMonoid M] (h : ∀ r ∈ rows, 0 ≤ w r) :
    0 ≤ total w rows := by
  apply sum_nonneg
  intro x hx
  rcases mem_map.mp hx with ⟨r, hr, rfl⟩
  exact h r hr

/-- Rows of no weight do not matter. -/
lemma total_filter_le_filter [PartialOrder M] [IsOrderedAddMonoid M] {p q : α → Bool}
    (h : ∀ r ∈ rows, 0 ≤ w r) (hpq : ∀ r ∈ rows, p r → w r ≠ 0 → q r) :
    total w (rows.filter p) ≤ total w (rows.filter q) := by
  induction rows with
  | nil => exact le_rfl
  | cons r rows ih =>
    rw [forall_mem_cons] at h hpq
    have hrest := ih h.2 hpq.2
    have hone : (if p r then w r else 0) ≤ if q r then w r else 0 := by
      by_cases hw : w r = 0
      · simp [hw]
      · have := h.1
        have := hpq.1
        split <;> split <;> simp_all
    have hcons : ∀ p : α → Bool,
        total w ((r :: rows).filter p) = (if p r then w r else 0) + total w (rows.filter p) := by
      intro p
      rw [filter_cons]
      split <;> simp
    rw [hcons, hcons]
    exact add_le_add hone hrest

lemma total_filter_add_filter (w : α → M) (rows : List α) (p : α → Bool) :
    total w (rows.filter p) + total w (rows.filter fun r => !p r) = total w rows := by
  have hperm := (filter_append_perm p rows).map w
  rw [map_append] at hperm
  exact sum_append.symm.trans hperm.sum_eq

lemma total_le_of_subperm [PartialOrder M] [IsOrderedAddMonoid M] {rows' : List α}
    (h : rows <+~ rows') (hw : ∀ r ∈ rows', 0 ≤ w r) : total w rows ≤ total w rows' := by
  obtain ⟨l, hperm, hsub⟩ := h
  rw [total, ← (hperm.map w).sum_eq]
  refine (hsub.map w).sum_le_sum fun x hx => ?_
  rcases mem_map.mp hx with ⟨r, hr, rfl⟩
  exact hw r hr

variable [DecidableEq κ] {key : α → κ}

theorem total_put (row : α) :
    total w (put key row rows) = w row + total w (delete key (key row) rows) :=
  total_cons row

/-- The row of the key is taken out of the sum. -/
theorem total_delete (h : Table.Keyed key rows) (k : κ) :
    total w (delete key k rows) + (get key k rows).elim 0 w = total w rows := by
  induction rows with
  | nil => exact add_zero _
  | cons r rows ih =>
    have hkeys : (key r :: rows.map key).Nodup := h
    rw [nodup_cons] at hkeys
    by_cases hk : key r = k
    · have hother : ∀ x ∈ rows, key x ≠ k := by
        intro x hx heq
        exact hkeys.1 (mem_map.mpr ⟨x, hx, heq.trans hk.symm⟩)
      have hdelete : delete key k (r :: rows) = rows := by
        unfold delete
        rw [filter_cons_of_neg (by simpa using hk), filter_eq_self]
        intro x hx
        simpa using hother x hx
      have hget : get key k (r :: rows) = some r := find?_cons_of_pos (by simpa using hk)
      rw [hdelete, hget, total_cons, add_comm]
      rfl
    · have hdelete : delete key k (r :: rows) = r :: delete key k rows :=
        filter_cons_of_pos (by simpa using hk)
      have hget : get key k (r :: rows) = get key k rows :=
        find?_cons_of_neg (by simpa using hk)
      rw [hdelete, hget, total_cons, total_cons, add_assoc, ih hkeys.2]

end Total

/-! ## Records -/

section Records

variable [DecidableEq κ] {records : List (κ × M)} {d : M}

/-- The record of a scope; a missing one counts as zero. -/
def recorded (k : κ) (records : List (κ × M)) : M :=
  ((get Prod.fst k records).map Prod.snd).getD 0

/-- The record of a scope, if there is one. -/
def record (k : κ) (records : List (κ × M)) : Option M := (get Prod.fst k records).map Prod.snd

omit [AddCommGroup M] in
lemma record_put (k k' : κ) (m : M) :
    record k' (put Prod.fst (k, m) records) = if k' = k then some m else record k' records := by
  unfold record
  split
  · rename_i h
    subst h
    have hget : get Prod.fst k' (put Prod.fst (k', m) records) = some (k', m) :=
      get_put_self
    rw [hget]
    rfl
  · rename_i h
    rw [get_put_of_ne h]

/-- Records that are deleted count as zero. -/
lemma recorded_filter (p : κ → Bool) (k : κ) :
    recorded k (records.filter fun r => p r.1) = if p k then recorded k records else 0 := by
  unfold recorded
  split
  · rename_i hp
    rw [get_filter_of_forall fun r hr => by rw [hr]; exact hp]
  rename_i hp
  have hnone : get Prod.fst k (records.filter fun r => p r.1) = none := by
    rw [get_eq_none]
    intro r hr heq
    exact hp (heq ▸ (mem_filter.mp hr).2)
  rw [hnone]
  rfl

variable [Lattice M]

/-- An insert, or an update that keeps the record from falling below zero. -/
def adjust (d : M) (records : List (κ × M)) (k : κ) : List (κ × M) :=
  match get Prod.fst k records with
  | none => put Prod.fst (k, d) records
  | some r => put Prod.fst (k, 0 ⊔ (r.2 + d)) records

/-- What an adjustment makes of a record. -/
def adjusted (d : M) (m : Option M) : M := m.elim d fun m => 0 ⊔ (m + d)

lemma record_adjust (k k' : κ) : record k' (adjust d records k) =
    if k' = k then some (adjusted d (record k records)) else record k' records := by
  have hrecord : record k records = (get Prod.fst k records).map Prod.snd := rfl
  unfold adjust
  rw [hrecord]
  cases get Prod.fst k records with
  | none | some => exact record_put k k' _

/-- All scopes of a row are adjusted alike. -/
lemma record_foldl_adjust {ks : List κ} (hks : ks.Nodup) (k' : κ) :
    record k' (ks.foldl (adjust d) records) =
      if k' ∈ ks then some (adjusted d (record k' records)) else record k' records := by
  induction ks generalizing records with
  | nil => simp
  | cons k ks ih =>
    rw [nodup_cons] at hks
    rw [foldl_cons, ih hks.2, record_adjust]
    by_cases heq : k' = k
    · subst heq
      simp [hks.1]
    · simp [heq]

theorem recorded_foldl_adjust {ks : List κ} (hks : ks.Nodup)
    (h : ∀ k ∈ ks, 0 ≤ recorded k records + d) (k' : κ) :
    recorded k' (ks.foldl (adjust d) records) = recorded k' records + if k' ∈ ks then d else 0 := by
  change (record k' _).getD 0 = (record k' records).getD 0 + _
  rw [record_foldl_adjust hks]
  split
  · rename_i hk
    have hnonneg : 0 ≤ (record k' records).getD 0 + d := h k' hk
    cases hrecord : record k' records with
    | none => simp [adjusted]
    | some m =>
      rw [hrecord] at hnonneg
      exact sup_eq_right.mpr hnonneg
  · rw [add_zero]

/-- An adjustment that is taken back leaves a record as it was if the record allowed it. -/
theorem recorded_adjust_back [IsOrderedAddMonoid M] {ks : List κ} (hks : ks.Nodup) (k : κ) :
    recorded k (ks.foldl (adjust d) (ks.foldl (adjust (-d)) records)) = recorded k records ↔
      (k ∈ ks → ∀ m ∈ record k records, 0 ≤ m ∧ d ≤ m) := by
  change (record k _).getD 0 = (record k records).getD 0 ↔ _
  rw [record_foldl_adjust hks, record_foldl_adjust hks]
  by_cases hk : k ∈ ks
  · cases hrecord : record k records with
    | none => simp [hk, adjusted]
    | some m =>
      have hback : 0 ⊔ (0 ⊔ (m + -d) + d) = 0 ⊔ d ⊔ m := by
        rw [sup_add, zero_add, neg_add_cancel_right, sup_assoc]
      simp [hk, adjusted, hback]
  · simp [hk]

end Records

end NeoServer.Tally
