import Mathlib.Data.List.Chain

/-!
# Lineage — values that are each written over one other value

The values that a register has had, the last one first. Each was written over the one before
it, and each names the value that it is written over. Then no value is written twice: a value
that has been replaced does not come back.

- `Lineage` : the values are such a history,
- `Lineage.nodup` : no value comes back.
-/

namespace NeoServer

open List

variable {β : Type}

/-- Every value but the first was written over the one before it, and the first over none. -/
def Lineage (onto : β → β → Prop) (values : List β) : Prop :=
  values.IsChain onto ∧ ∀ first ∈ values.getLast?, ∀ b, ¬ onto first b

namespace Lineage

variable {onto : β → β → Prop} {b c : β} {values : List β}

/-- The value that another one is written over was there before that one. -/
lemma mem_tail (hfun : ∀ a b c, onto a b → onto a c → b = c) (h : Lineage onto values)
    (hb : b ∈ values) (hover : onto b c) : c ∈ values.tail := by
  induction values with
  | nil => cases hb
  | cons a values ih =>
    cases values with
    | nil =>
      rcases mem_singleton.mp hb with rfl
      exact absurd hover (h.2 b rfl c)
    | cons d =>
      rcases h with ⟨hchain, hlast⟩
      rcases isChain_cons_cons.mp hchain with ⟨hover', hrest⟩
      rcases mem_cons.mp hb with rfl | hb
      · rw [hfun b c d hover hover']
        exact mem_cons_self
      · exact mem_cons_of_mem _ (ih ⟨hrest, hlast⟩ hb)

/-- No value comes back. -/
lemma nodup (hfun : ∀ a b c, onto a b → onto a c → b = c) (h : Lineage onto values) :
    values.Nodup := by
  induction values with
  | nil => exact nodup_nil
  | cons b values ih =>
    cases values with
    | nil => exact pairwise_singleton _ b
    | cons c values =>
      rcases h with ⟨hchain, hlast⟩
      rcases isChain_cons_cons.mp hchain with ⟨hover, hrest⟩
      have hlineage : Lineage onto (c :: values) := ⟨hrest, hlast⟩
      have hnodup := ih hlineage
      refine nodup_cons.mpr ⟨?_, hnodup⟩
      intro hb
      -- then `c` was there before `b` was there first
      exact (nodup_cons.mp hnodup).1 (hlineage.mem_tail hfun hb hover)

end Lineage

end NeoServer
