import NeoServer.Mosaic.Generations

/-!
# Mosaic.Changes — how the active set of granules changes

The active set changes when a job or a deletion activates the generation it has built, and when an
activation is taken back because the registry could not read the mosaic again.

- `Owner.Yields` : what a job or a deletion is to make of the set before it,
- `Recorded` : a history of such changes, each starting where the one before it ended,
- `Contents` : the active set is what the history says, the rows of the next generation what its owner
  has written so far,
- `Contents.work` : so it stays with every step of the holder of the lock.
-/

namespace NeoServer.Mosaic

open List

variable {F : Type}

/-! ## The granules of a generation -/

/-- A set of granules with one added, in place of the one of the same source. -/
def upsert (granules : List (Granule F)) (item : Granule F) : List (Granule F) :=
  (granules.filter fun other => other.sourceURI ≠ item.sourceURI) ++ [item]

lemma mem_upsert {granules} {item x : Granule F} :
    x ∈ upsert granules item ↔ x ∈ granules ∧ x.sourceURI ≠ item.sourceURI ∨ x = item := by
  rw [upsert, mem_append, mem_filter, mem_singleton, decide_eq_true_eq]

lemma mem_foldl_upsert {harvested : List (Granule F)} (hnodup : (harvested.map Granule.sourceURI).Nodup)
    {base : List (Granule F)} {x : Granule F} :
    x ∈ harvested.foldl upsert base ↔
      x ∈ harvested ∨ x ∈ base ∧ x.sourceURI ∉ harvested.map Granule.sourceURI := by
  induction harvested generalizing base with
  | nil => simp
  | cons item rest ih =>
    rw [map_cons, nodup_cons] at hnodup
    rw [foldl_cons, ih hnodup.2, mem_upsert, map_cons, mem_cons, mem_cons, not_or]
    constructor
    · rintro (hx | ⟨⟨hx, hne⟩ | rfl, hrest⟩)
      · exact Or.inl (Or.inr hx)
      · exact Or.inr ⟨hx, hne, hrest⟩
      · exact Or.inl (Or.inl rfl)
    · rintro ((rfl | hx) | ⟨hx, hne, hrest⟩)
      · exact Or.inr ⟨Or.inr rfl, hnodup.1⟩
      · exact Or.inl hx
      · exact Or.inr ⟨Or.inl ⟨hx, hne⟩, hrest⟩

namespace Catalog

variable {c : Catalog F} {generation : Nat}

lemma granulesOf_congr {d : Catalog F}
    (h : d.rowsOf generation = c.rowsOf generation) : d.granulesOf generation = c.granulesOf generation := by
  rw [granulesOf, h, granulesOf]

lemma granulesOf_beginGeneration (h : c.Numbered) (preserve : Bool) (uuid : Nat → Nat) :
    (c.beginGeneration preserve uuid).granulesOf (c.active + 1) =
      if preserve then c.granulesOf c.active else [] := by
  have hkept : ({ c with rows := c.rows.filter fun row => row.generation ≠ c.active + 1 } : Catalog F).rowsOf
      (c.active + 1) = [] :=
    rowsOf_eq_nil fun row hrow => of_decide_eq_true (mem_filter.1 hrow).2
  unfold beginGeneration
  split
  · rename_i hpreserve
    have hcopies : ∀ row ∈ c.activeRows.map fun row => (⟨uuid row.id, c.active + 1, row.granule⟩ : Row F),
        row.generation = c.active + 1 := by
      intro row hrow
      obtain ⟨old, _, rfl⟩ := mem_map.1 hrow
      rfl
    rw [if_pos (Bool.and_eq_true_iff.1 hpreserve).1, granulesOf, rowsOf_append, hkept, nil_append,
      rowsOf_eq_self hcopies, map_map]
    rfl
  · rename_i hpreserve
    rw [granulesOf, hkept, map_nil]
    split
    · -- nothing is active yet
      rename_i hpreserve'
      have hzero : c.active = 0 := by
        by_contra hne
        exact hpreserve (Bool.and_eq_true_iff.2 ⟨hpreserve', decide_eq_true (Nat.pos_of_ne_zero hne)⟩)
      rw [hzero, granulesOf, h.rowsOf_zero, map_nil]
    · rfl

/-- A statement that looks only at the granules of a generation. -/
lemma granulesOf_filter {p : Row F → Bool} {keep : Granule F → Bool}
    (h : ∀ row : Row F, row.generation = generation → p row = keep row.granule) :
    ({ c with rows := c.rows.filter p } : Catalog F).granulesOf generation =
      (c.granulesOf generation).filter keep := by
  rw [granulesOf, rowsOf, filter_filter, granulesOf, filter_map, rowsOf, filter_filter]
  refine congrArg _ (filter_congr fun row _ => ?_)
  by_cases hrow : row.generation = generation
  · rw [h row hrow, Bool.and_comm]
    rfl
  · rw [decide_eq_false hrow, Bool.false_and, Bool.and_false]

lemma granulesOf_upsertGranule (c : Catalog F) (generation id : Nat) (item : Granule F) :
    (c.upsertGranule generation id item).granulesOf generation = upsert (c.granulesOf generation) item := by
  rw [upsertGranule, granulesOf, rowsOf_append, map_append, upsert]
  congr 1
  · refine granulesOf_filter fun row hrow => ?_
    show (!(decide (row.generation = generation) && decide (row.granule.sourceURI = item.sourceURI))) = _
    rw [decide_eq_true hrow, Bool.true_and, decide_not]
  · rw [rowsOf_eq_self]
    · rfl
    · intro row hrow
      rw [mem_singleton.1 hrow]

lemma granulesOf_deleteSource (c : Catalog F) (generation : Nat) (uri : Str) :
    (c.deleteSource generation uri).granulesOf generation =
      (c.granulesOf generation).filter fun item => item.sourceURI ≠ uri := by
  refine granulesOf_filter fun row hrow => ?_
  rw [decide_eq_true hrow, Bool.true_and, decide_not]

end Catalog

/-! ## Changes of the active set -/

def Owner.jobID : Owner → Option Nat
  | .job id _ _ => some id
  | .deletion _ => none

def Owner.candidates : Owner → List Str
  | .job _ _ candidates => candidates
  | .deletion _ => []

/-- What a change makes of the active set. A job harvests its candidates and nothing else; one that
appends keeps the granules of other sources. -/
def Owner.Yields (harvested before after : List (Granule F)) : Owner → Prop
  | .job _ mode candidates =>
    harvested.map Granule.sourceURI = candidates ∧
      ∀ x, x ∈ after ↔ x ∈ harvested ∨ mode = .append ∧ x ∈ before ∧ x.sourceURI ∉ candidates
  | .deletion uri => ∀ x, x ∈ after ↔ x ∈ before ∧ x.sourceURI ≠ uri

/-- The set after the changes. -/
def current : List (Change F) → List (Granule F)
  | [] => []
  | .activated _ _ _ after :: _ => after
  | .restored _ _ after :: _ => after

def Change.activates (id : Nat) : Change F → Bool
  | .activated owner _ _ _ => owner.jobID = some id
  | .restored _ _ _ => false

def Change.restores (id : Nat) : Change F → Bool
  | .activated _ _ _ _ => false
  | .restored owner _ _ => owner.jobID = some id

/-- The job has activated its generation. -/
def Activated (history : List (Change F)) (id : Nat) : Bool := history.any (Change.activates id)

/-- An activation of the job was taken back. -/
def TakenBack (history : List (Change F)) (id : Nat) : Bool := history.any (Change.restores id)

section

variable (owner : Owner) (harvested before after : List (Granule F)) (history : List (Change F))
  (id : Nat)

lemma activated_activated :
    Activated (.activated owner harvested before after :: history) id =
      (decide (owner.jobID = some id) || Activated history id) := rfl

lemma activated_restored :
    Activated (.restored owner before after :: history) id = Activated history id := rfl

lemma takenBack_activated :
    TakenBack (.activated owner harvested before after :: history) id = TakenBack history id := rfl

lemma takenBack_restored :
    TakenBack (.restored owner before after :: history) id =
      (decide (owner.jobID = some id) || TakenBack history id) := rfl

end

/-- Every change starts from the set that the changes before it have left; a job activates once; what is
taken back is the last activation, and the set before it comes back. -/
inductive Recorded : List (Change F) → Prop
  | nil : Recorded []
  | activated {owner : Owner} {harvested after : List (Granule F)} {history : List (Change F)}
      (h : Recorded history) (hyields : owner.Yields harvested (current history) after)
      (hfirst : ∀ id, owner.jobID = some id → Activated history id = false) :
      Recorded (.activated owner harvested (current history) after :: history)
  | restored {owner : Owner} {harvested before after : List (Granule F)} {history : List (Change F)}
      (h : Recorded (.activated owner harvested before after :: history)) :
      Recorded (.restored owner after before :: .activated owner harvested before after :: history)

variable {history : List (Change F)} {id : Nat}

lemma Recorded.activated_of_takenBack (h : Recorded history)
    (hback : TakenBack history id) : Activated history id := by
  induction h with
  | nil => cases hback
  | activated h hyields hfirst ih =>
    rw [activated_activated, ih hback, Bool.or_true]
  | restored h ih =>
    rw [takenBack_restored, Bool.or_eq_true] at hback
    rw [activated_restored]
    rcases hback with hback | hback
    · rw [activated_activated, hback, Bool.true_or]
    · exact ih hback

/-- The last activation of a job stands. -/
lemma Recorded.not_takenBack {owner : Owner} {harvested before after} (h : Recorded (.activated owner harvested before after :: history))
    (hid : owner.jobID = some id) :
    TakenBack (.activated owner harvested before after :: history) id = false := by
  cases h with
  | activated h hyields hfirst =>
    by_contra hback
    have hactivated := h.activated_of_takenBack (Bool.not_eq_false _ ▸ hback)
    rw [hfirst id hid] at hactivated
    cases hactivated

/-! ## What holds of the holder of the lock -/

/-- The job has activated nothing. -/
def Owner.Fresh (history : List (Change F)) (owner : Owner) : Prop :=
  ∀ id, owner.jobID = some id → Activated history id = false

variable (c : Catalog F)

/-- The set that a new generation starts from. -/
def Owner.base (owner : Owner) : List (Granule F) :=
  if owner.preserve then c.granulesOf c.active else []

/-- The job has left no change, and its number is not the active one. -/
def Holder.Settled (history : List (Change F)) (h : Holder F) : Prop :=
  ∀ id, h.owner.jobID = some id → (Activated history id → TakenBack history id) ∧
    (h.generation = none ∨ h.generation = some (c.active + 1))

/-- The last change is the activation of the holder. -/
def Holder.Last (history : List (Change F)) (h : Holder F) : Prop :=
  c.active ≠ 0 ∧ h.generation = some c.active ∧
    ∃ harvested before after rest, history = .activated h.owner harvested before after :: rest

/-- The rows of the next generation and the last change, by the phase of the holder. -/
def Holder.Accounts (history : List (Change F)) (h : Holder F) : Prop :=
  match h.phase with
  | .ready => h.owner.Fresh history ∧ h.owner.candidates.Nodup
  | .begun => h.owner.Fresh history ∧ h.owner.candidates.Nodup ∧
      c.granulesOf (c.active + 1) = h.owner.base c
  | .building harvested rest => h.owner.Fresh history ∧ h.owner.candidates.Nodup ∧
      c.granulesOf (c.active + 1) = harvested.foldl upsert (h.owner.base c) ∧
      harvested.map Granule.sourceURI ++ rest = h.owner.candidates
  | .reduced => ∃ uri, h.owner = .deletion uri ∧
      c.granulesOf (c.active + 1) = (c.granulesOf c.active).filter fun item => item.sourceURI ≠ uri
  | .activated previous | .restoring previous => c.active ≠ 0 ∧
      ∃ harvested rest, history = .activated h.owner harvested (c.granulesOf previous)
        (c.granulesOf c.active) :: rest
  | .refreshed | .ending .succeed => h.Last c history
  | .discarding ending => ending ≠ .succeed ∧ h.Settled c history
  | .ending _ => h.Settled c history

/-! ## The granules along a run -/

/-- The tables of granules with the history and the holder of the lock. -/
structure Contents (c : Catalog F) (history : List (Change F)) (holder : Option (Holder F)) : Prop where
  generations : Generations c holder
  current : c.granulesOf c.active = current history
  recorded : Recorded history
  holder : ∀ h, holder = some h → h.Accounts c history

variable {c d : Catalog F} {h : Holder F} {owner : Owner} {harvested : List (Granule F)}

lemma settled_of_fresh
    (hfresh : h.owner.Fresh history) (hgeneration : h.generation = none ∨ h.generation = some (c.active + 1)) :
    h.Settled c history := by
  intro id hid
  refine ⟨fun hactivated => ?_, hgeneration⟩
  rw [hfresh id hid] at hactivated
  cases hactivated

/-- A deletion is no job. -/
lemma settled_of_deletion {uri : Str}
    (howner : h.owner = .deletion uri) : h.Settled c history := by
  intro id hid
  rw [howner] at hid
  cases hid

lemma accounts_ending {generation} {ending : Ending} (hne : ending ≠ .succeed)
    (h : (⟨owner, generation, .ending ending⟩ : Holder F).Settled c history) :
    (⟨owner, generation, .ending ending⟩ : Holder F).Accounts c history := by
  cases ending with
  | succeed => exact absurd rfl hne
  | _ => exact h

lemma Owner.failure_ne_succeed (owner : Owner) : owner.failure ≠ .succeed := by
  cases owner <;> exact nofun

section

variable {holder : Option (Holder F)} (hc : Contents c history holder)

include hc

/-- The changes stay, the active generation stays with its rows. -/
lemma Contents.rewrite (hgenerations : Generations d (some h)) (hactive : d.active = c.active)
    (hrows : d.rowsOf c.active = c.rowsOf c.active) (haccounts : h.Accounts d history) :
    Contents d history (some h) where
  generations := hgenerations
  current := by rw [hactive, Catalog.granulesOf_congr hrows, hc.current]
  recorded := hc.recorded
  holder := by
    rintro _ ⟨⟩
    exact haccounts

lemma Contents.move (hgenerations : Generations c (some h)) (haccounts : h.Accounts c history) :
    Contents c history (some h) :=
  hc.rewrite hgenerations rfl rfl haccounts

lemma Contents.free : Contents c history none :=
  { hc with generations := hc.generations.free, holder := nofun }

lemma Contents.activate {generation : Nat}
    (hgenerations : Generations (c.activate generation)
      (some ⟨owner, some generation, .activated c.active⟩))
    (hplaced : some generation = some (c.active + 1)) (hfresh : owner.Fresh history)
    (hyields : owner.Yields harvested (c.granulesOf c.active) (c.granulesOf generation)) :
    Contents (c.activate generation)
      (.activated owner harvested (c.granulesOf c.active) (c.granulesOf generation) :: history)
      (some ⟨owner, some generation, .activated c.active⟩) where
  generations := hgenerations
  current := rfl
  recorded := by
    rw [hc.current] at hyields ⊢
    exact .activated hc.recorded hyields hfresh
  holder := by
    rintro _ ⟨⟩
    refine ⟨?_, harvested, history, rfl⟩
    rw [Option.some.inj hplaced]
    exact Nat.succ_ne_zero _

end

/-- The base of a new generation is the active set, which nobody moves. -/
lemma Owner.base_congr (owner : Owner) (hactive : d.active = c.active)
    (hrows : d.rowsOf c.active = c.rowsOf c.active) : owner.base d = owner.base c := by
  rw [base, base, hactive, Catalog.granulesOf_congr hrows]

/-- The complete generation of a job has its candidates, and for one that appends the set before. -/
lemma yields_of_foldl {mode : Mode} {candidates : List Str}
    {after : List (Granule F)} (hnodup : candidates.Nodup)
    (hharvested : harvested.map Granule.sourceURI = candidates)
    (hafter : after = harvested.foldl upsert ((Owner.job id mode candidates).base c)) :
    (Owner.job id mode candidates).Yields harvested (c.granulesOf c.active) after := by
  refine ⟨hharvested, fun x => ?_⟩
  rw [hafter, mem_foldl_upsert (hharvested ▸ hnodup), hharvested]
  cases mode with
  | append => exact or_congr_right ⟨fun hx => ⟨rfl, hx⟩, fun hx => hx.2⟩
  | synchronize =>
    refine or_congr_right ⟨fun hx => ?_, fun hx => ?_⟩
    · cases hx.1
    · cases hx.1

theorem Contents.work {s t : State F} {label : Label} (h : Contents s.catalog s.history s.holder)
    (hwork : Work s label t) : Contents t.catalog t.history t.holder := by
  have hgenerations := h.generations.work hwork
  have hne : s.catalog.active ≠ s.catalog.active + 1 := (Nat.succ_ne_self _).symm
  cases hwork with
  | @begin owner hholder uuid =>
    obtain ⟨hfresh, hnodup⟩ := h.holder _ hholder
    have hactive := s.catalog.active_beginGeneration owner.preserve uuid
    have hrows := s.catalog.rowsOf_beginGeneration_of_ne owner.preserve uuid hne
    refine h.rewrite hgenerations hactive hrows ⟨hfresh, hnodup, ?_⟩
    rw [owner.base_congr hactive hrows, hactive,
      Catalog.granulesOf_beginGeneration h.generations.numbered]
    rfl
  | @beginFailed owner hholder =>
    obtain ⟨hfresh, hnodup⟩ := h.holder _ hholder
    exact h.move hgenerations
      (accounts_ending owner.failure_ne_succeed (settled_of_fresh hfresh (Or.inl rfl)))
  | record hholder =>
    obtain ⟨hfresh, hnodup, hbase⟩ := h.holder _ hholder
    exact h.move hgenerations ⟨hfresh, hnodup, hbase, rfl⟩
  | recordFailed hholder | buildFailed hholder | buildCancelled hholder =>
    have hplaced := h.generations.holder _ hholder
    exact h.move hgenerations
      ⟨nofun, settled_of_fresh (h.holder _ hholder).1 (Or.inr hplaced)⟩
  | @harvest id generation mode candidates rest harvested item hholder uuid =>
    obtain ⟨hfresh, hnodup, hgranules, hcandidates⟩ := h.holder _ hholder
    have hplaced := Option.some.inj (h.generations.holder _ hholder)
    subst hplaced
    have hrows := s.catalog.rowsOf_upsertGranule_of_ne uuid item hne
    refine h.rewrite hgenerations rfl hrows ⟨hfresh, hnodup, ?_, ?_⟩
    · have hbase : (Owner.job id mode candidates).base
          (s.catalog.upsertGranule (s.catalog.active + 1) uuid item) =
            (Owner.job id mode candidates).base s.catalog := Owner.base_congr _ rfl hrows
      rw [hbase, foldl_append]
      exact (s.catalog.granulesOf_upsertGranule _ uuid item).trans (congrArg (upsert · item) hgranules)
    · rw [map_append, append_assoc]
      exact hcandidates
  | progress => exact h
  | activateJob hholder =>
    obtain ⟨hfresh, hnodup, hgranules, hcandidates⟩ := h.holder _ hholder
    have hplaced := h.generations.holder _ hholder
    have hgeneration := Option.some.inj hplaced
    rw [append_nil] at hcandidates
    refine h.activate hgenerations hplaced hfresh ?_
    rw [hgeneration]
    exact yields_of_foldl hnodup hcandidates hgranules
  | @remove generation uri hholder =>
    obtain ⟨hfresh, hnodup, hbase⟩ := h.holder _ hholder
    have hplaced := Option.some.inj (h.generations.holder _ hholder)
    subst hplaced
    have hrows := s.catalog.rowsOf_deleteSource_of_ne uri hne
    refine h.rewrite hgenerations rfl hrows ⟨uri, rfl, ?_⟩
    show (s.catalog.deleteSource (s.catalog.active + 1) uri).granulesOf (s.catalog.active + 1) =
      ((s.catalog.deleteSource (s.catalog.active + 1) uri).granulesOf s.catalog.active).filter _
    rw [Catalog.granulesOf_deleteSource, Catalog.granulesOf_congr hrows, hbase]
    rfl
  | removeFailed hholder | activateFailed hholder =>
    exact h.move hgenerations ⟨nofun, settled_of_deletion rfl⟩
  | activateDeletion hholder =>
    obtain ⟨uri, howner, hgranules⟩ := h.holder _ hholder
    have hplaced := h.generations.holder _ hholder
    have hgeneration := Option.some.inj hplaced
    refine h.activate hgenerations hplaced (fun id hid => by cases hid) ?_
    cases howner
    intro x
    rw [hgeneration, hgranules, mem_filter, decide_eq_true_eq]
  | refresh hholder =>
    obtain ⟨hactive, harvested, rest, hhistory⟩ := h.holder _ hholder
    have hplaced := h.generations.holder _ hholder
    exact h.move hgenerations ⟨hactive, hplaced.1, harvested, _, _, rest, hhistory⟩
  | refreshFailed hholder =>
    have haccounts := h.holder _ hholder
    exact h.move hgenerations haccounts
  | @prune owner generation hholder =>
    have hlast := h.holder _ hholder
    have hplaced := Option.some.inj (h.generations.holder _ hholder)
    subst hplaced
    refine h.rewrite hgenerations rfl (s.catalog.rowsOf_pruneInactiveGenerations _) ?_
    cases owner with
    | job => exact hlast
    | deletion => exact settled_of_deletion rfl
  | @pruneFailed owner generation hholder =>
    have hlast := h.holder _ hholder
    refine h.move hgenerations ?_
    cases owner with
    | job => exact hlast
    | deletion => exact settled_of_deletion rfl
  | @restore owner generation previous hholder hactive =>
    obtain ⟨hnonzero, harvested, rest, hhistory⟩ := h.holder _ hholder
    obtain ⟨hgeneration, hprevious, hrows⟩ := h.generations.holder _ hholder
    have hrecorded := h.recorded
    rw [hhistory] at hrecorded
    refine ⟨hgenerations, rfl, ?_, fun other hother => ?_⟩
    · show Recorded (.restored owner (s.catalog.granulesOf generation) _ :: s.history)
      rw [hhistory, ← hactive]
      exact .restored hrecorded
    · cases hother
      refine ⟨owner.failure_ne_succeed, fun id hid => ⟨fun _ => ?_, Or.inr ?_⟩⟩
      · rw [takenBack_restored, decide_eq_true hid, Bool.true_or]
      · exact hgeneration.trans (congrArg some hprevious.symm)
  | @discard owner generation ending hholder =>
    obtain ⟨hending, hsettled⟩ := h.holder _ hholder
    have hplaced := Option.some.inj (h.generations.holder _ hholder)
    subst hplaced
    exact h.rewrite hgenerations rfl (s.catalog.rowsOf_discardGeneration_of_ne hne)
      (accounts_ending hending hsettled)
  | discardFailed hholder =>
    obtain ⟨hending, hsettled⟩ := h.holder _ hholder
    exact h.move hgenerations (accounts_ending hending hsettled)
  | failRead hholder | failCancelled hholder hjob hid hcancel =>
    have hsettled := h.holder _ hholder
    exact h.move hgenerations hsettled
  | persist | persistFailed | release => exact h.free

end NeoServer.Mosaic
