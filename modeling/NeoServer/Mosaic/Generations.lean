import NeoServer.Mosaic.Catalog

/-!
# Mosaic.Generations — which generation is being built

While the lock is held nobody else moves the active generation, so the holder builds the generation
after the active one until it activates it.

- `Catalog.rowsOf_*` : what each statement does to the rows of a generation,
- `Generations` : rows have a generation, an active generation has rows, the holder knows where it is.
-/

namespace NeoServer.Mosaic

open List

variable {F : Type}

/-! ## Rows of a generation -/

namespace Catalog

variable {c : Catalog F} {generation active : Nat} {rows : List (Row F)} {other : Nat}

/-- Rows that a statement keeps for sure are all still there. -/
lemma rowsOf_filter {keep : Row F → Bool}
    (hkeep : ∀ row ∈ c.rows, row.generation = generation → keep row) :
    ({ c with rows := c.rows.filter keep } : Catalog F).rowsOf generation = c.rowsOf generation := by
  rw [rowsOf, rowsOf, filter_filter]
  refine filter_congr fun row hrow => ?_
  by_cases h : row.generation = generation
  · rw [hkeep row hrow h, Bool.and_true]
  · rw [decide_eq_false h, Bool.false_and]

lemma rowsOf_append (active : Nat) (rows more : List (Row F)) (generation : Nat) :
    (⟨active, rows ++ more⟩ : Catalog F).rowsOf generation =
      (⟨active, rows⟩ : Catalog F).rowsOf generation ++ (⟨active, more⟩ : Catalog F).rowsOf generation :=
  filter_append ..

lemma rowsOf_eq_nil (h : ∀ row ∈ rows, row.generation ≠ generation) :
    (⟨active, rows⟩ : Catalog F).rowsOf generation = [] :=
  filter_eq_nil_iff.2 fun row hrow => by simpa using h row hrow

lemma rowsOf_append_of_ne {rows more} (h : ∀ row ∈ more, row.generation ≠ generation) :
    (⟨active, rows ++ more⟩ : Catalog F).rowsOf generation =
      (⟨active, rows⟩ : Catalog F).rowsOf generation := by
  have hmore : (⟨active, more⟩ : Catalog F).rowsOf generation = [] := rowsOf_eq_nil h
  rw [rowsOf_append, hmore, append_nil]

lemma rowsOf_eq_self (h : ∀ row ∈ rows, row.generation = generation) :
    (⟨active, rows⟩ : Catalog F).rowsOf generation = rows :=
  filter_eq_self.2 fun row hrow => by simpa using h row hrow

lemma active_beginGeneration (c : Catalog F) (preserve : Bool) (uuid : Nat → Nat) :
    (c.beginGeneration preserve uuid).active = c.active := by
  unfold beginGeneration
  split <;> rfl

/-- A new generation changes no other. -/
lemma rowsOf_beginGeneration_of_ne (c : Catalog F) (preserve : Bool) (uuid : Nat → Nat) (hne : generation ≠ c.active + 1) :
    (c.beginGeneration preserve uuid).rowsOf generation = c.rowsOf generation := by
  have hkept : ({ c with rows := c.rows.filter fun row => row.generation ≠ c.active + 1 } : Catalog F).rowsOf
      generation = c.rowsOf generation := by
    refine rowsOf_filter fun row _ hrow => ?_
    rw [decide_eq_true_eq, hrow]
    exact hne
  unfold beginGeneration
  split
  · rw [rowsOf_append_of_ne, hkept]
    intro row hrow
    obtain ⟨old, _, rfl⟩ := mem_map.1 hrow
    exact hne.symm
  · exact hkept

lemma rowsOf_upsertGranule_of_ne (c : Catalog F) (id : Nat)
    (item : Granule F) (hne : other ≠ generation) :
    (c.upsertGranule generation id item).rowsOf other = c.rowsOf other := by
  rw [upsertGranule, rowsOf_append_of_ne, rowsOf_filter]
  · intro row _ hrow
    show (!(decide (row.generation = generation) && _)) = true
    rw [hrow, decide_eq_false hne]
    rfl
  · intro row hrow
    rw [mem_singleton.1 hrow]
    exact hne.symm

lemma rowsOf_deleteSource_of_ne (c : Catalog F) (uri : Str)
    (hne : other ≠ generation) : (c.deleteSource generation uri).rowsOf other = c.rowsOf other := by
  refine rowsOf_filter fun row _ hrow => ?_
  rw [hrow, decide_eq_false hne]
  rfl

lemma rowsOf_pruneInactiveGenerations (c : Catalog F) (active : Nat) :
    (c.pruneInactiveGenerations active).rowsOf active = c.rowsOf active :=
  rowsOf_filter fun _ _ hrow => decide_eq_true hrow

lemma rowsOf_discardGeneration_of_ne (c : Catalog F)
    (hne : other ≠ generation) : (c.discardGeneration generation).rowsOf other = c.rowsOf other := by
  refine rowsOf_filter fun row _ hrow => ?_
  rw [decide_eq_true_eq, hrow]
  exact hne

/-- Rows with a generation: none is of generation 0. -/
def Numbered (c : Catalog F) : Prop := ∀ row ∈ c.rows, row.generation ≠ 0

lemma Numbered.rowsOf_zero (h : c.Numbered) : c.rowsOf 0 = [] := rowsOf_eq_nil h

lemma Numbered.filter (h : c.Numbered) (keep : Row F → Bool) :
    ({ c with rows := c.rows.filter keep } : Catalog F).Numbered :=
  fun row hrow => h row (mem_of_mem_filter hrow)

lemma Numbered.append {rows more} (h : ({ c with rows } : Catalog F).Numbered)
    (hmore : ∀ row ∈ more, row.generation ≠ 0) : ({ c with rows := rows ++ more } : Catalog F).Numbered := by
  intro row hrow
  rcases mem_append.1 hrow with hrow | hrow
  · exact h row hrow
  · exact hmore row hrow

lemma Numbered.beginGeneration (h : c.Numbered) (preserve : Bool)
    (uuid : Nat → Nat) : (c.beginGeneration preserve uuid).Numbered := by
  unfold Catalog.beginGeneration
  split
  · refine (h.filter _).append fun row hrow => ?_
    obtain ⟨old, _, rfl⟩ := mem_map.1 hrow
    exact Nat.succ_ne_zero _
  · exact h.filter _

lemma Numbered.upsertGranule (h : c.Numbered)
    (hgeneration : generation ≠ 0) (id : Nat) (item : Granule F) :
    (c.upsertGranule generation id item).Numbered := by
  refine (h.filter _).append fun row hrow => ?_
  rw [mem_singleton.1 hrow]
  exact hgeneration

end Catalog

/-! ## Where the holder of the lock is -/

/-- The generation of the holder, by its phase: the one after the active one, then the active one. -/
def Holder.Placed (c : Catalog F) (h : Holder F) : Prop :=
  match h.phase with
  | .ready => h.generation = none
  | .begun | .building _ _ | .reduced | .discarding _ => h.generation = some (c.active + 1)
  | .activated previous | .restoring previous =>
    h.generation = some c.active ∧ previous + 1 = c.active ∧ (previous ≠ 0 → c.rowsOf previous ≠ [])
  | .refreshed => h.generation = some c.active
  | .ending _ => True

/-- The tables of granules with the holder of the lock. -/
structure Generations (c : Catalog F) (holder : Option (Holder F)) : Prop where
  numbered : c.Numbered
  active : c.active ≠ 0 → c.activeRows ≠ []
  holder : ∀ h, holder = some h → h.Placed c

section

variable {c d : Catalog F} {holder : Option (Holder F)} {h : Holder F}

/-- The active generation stays, with all its rows. -/
lemma Generations.rewrite (hc : Generations c holder) (hnumbered : d.Numbered)
    (hactive : d.active = c.active) (hrows : d.rowsOf c.active = c.activeRows)
    (hplaced : h.Placed d) : Generations d (some h) where
  numbered := hnumbered
  active := by
    rw [Catalog.activeRows, hactive, hrows]
    exact hc.active
  holder := by
    rintro _ ⟨⟩
    exact hplaced

/-- The holder moves on and the tables of granules stay. -/
lemma Generations.move (hc : Generations c holder) (hplaced : h.Placed c) :
    Generations c (some h) :=
  hc.rewrite hc.numbered rfl rfl hplaced

/-- The holder lets go. -/
lemma Generations.free (hc : Generations c holder) : Generations c none := { hc with holder := nofun }

lemma Generations.activate (hc : Generations c holder) {owner : Owner} {generation : Nat}
    (hplaced : some generation = some (c.active + 1)) (hcount : (c.rowsOf generation).isEmpty = false) :
    Generations (c.activate generation) (some ⟨owner, some generation, .activated c.active⟩) where
  numbered := hc.numbered
  active := by
    intro _ hnil
    rw [show c.rowsOf generation = [] from hnil] at hcount
    cases hcount
  holder := by
    rintro _ ⟨⟩
    exact ⟨rfl, (Option.some.inj hplaced).symm, hc.active⟩

end

variable {s t : State F}

lemma Generations.work {label : Label} (h : Generations s.catalog s.holder)
    (hwork : Work s label t) : Generations t.catalog t.holder := by
  have hne : s.catalog.active ≠ s.catalog.active + 1 := (Nat.succ_ne_self _).symm
  cases hwork with
  | begin hholder uuid =>
    refine h.rewrite (h.numbered.beginGeneration _ uuid) (s.catalog.active_beginGeneration _ uuid)
      (s.catalog.rowsOf_beginGeneration_of_ne _ uuid hne) ?_
    exact congrArg (fun active => some (active + 1)) (s.catalog.active_beginGeneration _ uuid).symm
  | beginFailed | pruneFailed | discardFailed | failRead | failCancelled =>
    exact h.move trivial
  | record hholder | recordFailed hholder | buildFailed hholder | buildCancelled hholder
  | removeFailed hholder | activateFailed hholder | refreshFailed hholder =>
    have hplaced := h.holder _ hholder
    exact h.move hplaced
  | harvest hholder uuid =>
    have hplaced := Option.some.inj (h.holder _ hholder)
    subst hplaced
    exact h.rewrite (h.numbered.upsertGranule (Nat.succ_ne_zero _) uuid _) rfl
      (s.catalog.rowsOf_upsertGranule_of_ne uuid _ hne) rfl
  | progress => exact h
  | activateJob hholder hjob hid hstatus hcancel hcount | activateDeletion hholder hcount =>
    exact h.activate (h.holder _ hholder) hcount
  | remove hholder =>
    have hplaced := Option.some.inj (h.holder _ hholder)
    subst hplaced
    exact h.rewrite (h.numbered.filter _) rfl (s.catalog.rowsOf_deleteSource_of_ne _ hne) rfl
  | refresh hholder => exact h.move (h.holder _ hholder).1
  | prune hholder =>
    have hplaced := Option.some.inj (h.holder _ hholder)
    subst hplaced
    exact h.rewrite (h.numbered.filter _) rfl (s.catalog.rowsOf_pruneInactiveGenerations _) trivial
  | restore hholder =>
    -- the rows of the previous generation have been kept for this
    obtain ⟨hgeneration, hprevious, hrows⟩ := h.holder _ hholder
    refine ⟨h.numbered, hrows, ?_⟩
    rintro other ⟨⟩
    exact hgeneration.trans (congrArg some hprevious.symm)
  | discard hholder =>
    have hplaced := Option.some.inj (h.holder _ hholder)
    subst hplaced
    exact h.rewrite (h.numbered.filter _) rfl (s.catalog.rowsOf_discardGeneration_of_ne hne) trivial
  | persist | persistFailed | release => exact h.free

lemma Generations.empty : Generations (⟨0, []⟩ : Catalog F) none where
  numbered := nofun
  active := fun hne => absurd rfl hne
  holder := nofun

variable [LE F] [DecidableLE F] [DecidableEq F]

lemma Generations.step {label : Label} (h : Generations s.catalog s.holder)
    (hstep : Step s label t) : Generations t.catalog t.holder := by
  cases hstep with
  | work hwork => exact h.work hwork
  | start | startDelete => exact h.move rfl
  | startFailed | restoreFailed => exact h.move trivial
  | restart => exact h.free
  | _ => exact h

/-! ## A harvest of two granules -/

def tile (name : String) : Granule Int := ⟨name.toList, 0, 0, 1, 1, [], none, 0⟩

/-- The state after a job has activated two granules. -/
def activating : State Int where
  catalog := ⟨1, [⟨0, 1, tile "a"⟩, ⟨1, 1, tile "b"⟩]⟩
  jobs := [⟨7, .synchronize, .running, 1, false⟩]
  claimed := []
  holder := some ⟨.job 7 .synchronize ["a", "b"], some 1, .activated 0⟩
  readings := []
  answers := []
  history := [.activated (.job 7 .synchronize ["a", "b"]) [tile "a", tile "b"] []
    [tile "a", tile "b"]]

/-- The state after the job. -/
def harvested : State Int :=
  { activating with jobs := [⟨7, .synchronize, .succeeded, 1, false⟩], holder := none }

/-- Steps that are no cancellation, restart or failed restoration. -/
def Label.plain : Label → Bool
  | .cancel _ | .restart | .restoreFailed => false
  | _ => true

variable {P : State Int → Label → State Int → Prop}

/-- It is reached without them and without any reading. -/
lemma activating_reachable (hP : ∀ s label t, s.readings = [] → label.plain → P s label t) :
    ((machine Int).restrict P).Reachable activating := by
  have next {s label t} (h : ((machine Int).restrict P).Reachable s) (hstep : Step s label t)
      (hs : s.readings = []) (hl : label.plain) : ((machine Int).restrict P).Reachable t.observe :=
    h.step ⟨⟨t, hstep, rfl⟩, hP _ _ _ hs hl⟩
  have h0 : ((machine Int).restrict P).Reachable (State.empty Int) := .init rfl
  have h1 := next h0 (@Step.createJob _ _ _ _ _ 7 .synchronize (by decide)) rfl rfl
  have h2 := next h1 (.claim mem_cons_self rfl rfl (by decide)) rfl rfl
  have h3 := next h2 (@Step.start _ _ _ _ _ ⟨7, .synchronize, .running, 0, false⟩ ["a", "b"] rfl
    mem_cons_self mem_cons_self (by decide) (by decide)) rfl rfl
  have h4 := next h3 (.work (.begin rfl id)) rfl rfl
  have h5 := next h4 (.work (.record rfl)) rfl rfl
  have h6 := next h5 (.work (@Work.harvest _ _ _ _ _ _ _ _ (tile "a") rfl 0)) rfl rfl
  have h7 := next h6 (.work (@Work.harvest _ _ _ _ _ _ _ _ (tile "b") rfl 1)) rfl rfl
  exact next h7 (.work (.activateJob rfl mem_cons_self rfl rfl rfl rfl)) rfl rfl

lemma harvested_reachable (hP : ∀ s label t, s.readings = [] → label.plain → P s label t) :
    ((machine Int).restrict P).Reachable harvested := by
  have h0 := activating_reachable hP
  have h1 := h0.step ⟨⟨_, .work (.refresh rfl), rfl⟩, hP _ _ _ rfl rfl⟩
  have h2 := h1.step ⟨⟨_, .work (.prune rfl), rfl⟩, hP _ _ _ rfl rfl⟩
  exact h2.step ⟨⟨_, .work (.persist rfl rfl), rfl⟩, hP _ _ _ rfl rfl⟩

/-- In every run rows have a generation, the active generation has rows, and so has the one that a
failed job would go back to. -/
theorem generations_of_reachable (h : (machine F).Reachable s) :
    Generations s.catalog s.holder := by
  induction h with
  | init h =>
    cases h
    exact .empty
  | step _ h hs =>
    obtain ⟨u, hstep, rfl⟩ := h
    exact hs.step (t := u) hstep

theorem generations_of_activating : Generations activating.catalog activating.holder :=
  generations_of_reachable (activating_reachable fun _ _ _ _ _ => trivial).of_restrict

end NeoServer.Mosaic
