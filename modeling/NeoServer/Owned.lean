import NeoServer.Machine

/-!
# Owned — an index beside a table

`rows` is a table by primary key, `key` a column without duplicates and `holder` an index, kept elsewhere,
that says who has a key. The index may be behind the table; it never gives a key that is stored to another
row.
-/

namespace NeoServer

variable {ρ κ : Type}

structure Owned (rows : Nat → Option ρ) (key : ρ → κ) (holder : κ → Option Nat) : Prop where
  unique : ∀ i j a b, rows i = some a → rows j = some b → key a = key b → i = j
  own : ∀ i a, rows i = some a → ∀ j, holder (key a) = some j → j = i

namespace Owned

variable {rows : Nat → Option ρ} {key : ρ → κ} {holder : κ → Option Nat}

/-- A row is written or deleted. -/
lemma store (h : Owned rows key holder) {id : Nat} {row}
    (hown : ∀ a, row = some a → ∀ j, holder (key a) = some j → j = id)
    (hkey : ∀ a, row = some a → ∀ j b, j ≠ id → rows j = some b → key b ≠ key a) :
    Owned (Function.update rows id row) key holder where
  unique := by
    intro i j a b hi hj heq
    rw [update_eq_some_iff] at hi hj
    rcases hi with ⟨rfl, hrow⟩ | ⟨hi, ha⟩ <;> rcases hj with ⟨rfl, hrow'⟩ | ⟨hj, hb⟩
    · rfl
    · exact absurd heq.symm (hkey a hrow j b hj hb)
    · exact absurd heq (hkey b hrow' i a hi ha)
    · exact h.unique i j a b ha hb heq
  own := by
    intro i a hi
    rcases update_eq_some_iff.1 hi with ⟨rfl, hrow⟩ | ⟨_, ha⟩
    · exact hown a hrow
    · exact h.own i a ha

/-- The index forgets keys, or takes one as it is stored. -/
lemma hold (h : Owned rows key holder) {holder' : κ → Option Nat}
    (hholder : ∀ k j, holder' k = some j → holder k = some j ∨ ∃ a, rows j = some a ∧ key a = k) :
    Owned rows key holder' where
  unique := h.unique
  own := by
    intro i a hi j hj
    rcases hholder _ j hj with hold | ⟨b, hb, heq⟩
    · exact h.own i a hi j hold
    · exact h.unique j i b a hb hi heq

end Owned

end NeoServer
