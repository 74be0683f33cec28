import NeoServer.Mosaic.Generations

/-!
# Mosaic.Listing — what a listing or lookup returns

A listing reads the number of the active generation first and the rows of that generation in a second
statement. In between another generation may become active and the rows of the first one may be
deleted: by the pruning after an activation, by the discarding of a generation that was taken back, or
by a new generation that takes its number.

- `Answer.Consistent` : the answer is what the query selects from the active rows of one instant,
- `Spares` : a step deletes no row of a generation that is being read,
- `consistent_of_reachable` : every answer is consistent in the runs whose steps spare the readings,
- `listing_inconsistent` : a run in which a granule is deleted and a listing comes back empty.
-/

namespace NeoServer.Mosaic

open List

variable {F : Type}

/-- A step deletes nothing of a generation that a listing or lookup has read as the active one. -/
def Spares (s : State F) : Label → Prop
  | .begin generation | .discard generation =>
    ∀ reading ∈ s.readings, reading.generation = generation →
      s.catalog.rowsOf reading.generation = []
  | .prune active =>
    ∀ reading ∈ s.readings, reading.generation ≠ active → s.catalog.rowsOf reading.generation = []
  | _ => True

/-- Rows of the next generation are written in these phases. -/
def Phase.writing : Phase F → Bool
  | .begun | .building _ _ | .reduced => true
  | _ => false

variable {c d : Catalog F} {holder holder' : Option (Holder F)} {generation : Nat}

/-- A generation that is read: its rows are those it had when it was active, and nobody writes them. -/
structure Reading.Stable (c : Catalog F) (holder : Option (Holder F)) (generation : Nat) : Prop where
  rows : generation ≠ 0 → c.rowsOf generation ≠ []
  unwritten : ∀ h, holder = some h → h.phase.writing → generation ≠ c.active + 1

/-- A step after which the generation has the rows it had before. -/
def Reading.Kept (c d : Catalog F) (holder : Option (Holder F)) (generation : Nat) : Prop :=
  d.rowsOf generation = c.rowsOf generation ∧ Reading.Stable d holder generation

/-- The holder writes rows of the next generation, which is not the one that is read. -/
lemma Reading.Stable.write (h : Reading.Stable c holder generation)
    (hrows : d.rowsOf generation = c.rowsOf generation) (hactive : d.active = c.active)
    (hne : generation ≠ c.active + 1) : Reading.Kept c d holder' generation := by
  refine ⟨hrows, ?_, fun _ _ _ => ?_⟩
  · rw [hrows]
    exact h.rows
  · rw [hactive]
    exact hne

/-- The holder writes no rows, or has let go. -/
lemma Reading.Stable.rest (h : Reading.Stable c holder generation)
    (hrows : d.rowsOf generation = c.rowsOf generation)
    (hholder : ∀ h, holder' = some h → h.phase.writing = false) :
    Reading.Kept c d holder' generation := by
  refine ⟨hrows, ?_, fun h hother hwrites => ?_⟩
  · rw [hrows]
    exact h.rows
  · rw [hholder h hother] at hwrites
    cases hwrites

/-- The rows that a statement keeps: all those of the generation, or it has none. -/
lemma Reading.Stable.rowsOf_filter (hs : Generations c holder)
    (h : Reading.Stable c holder generation) {keep : Row F → Bool}
    (hkeep : c.rowsOf generation = [] ∨ ∀ row : Row F, row.generation = generation → keep row) :
    ({ c with rows := c.rows.filter keep } : Catalog F).rowsOf generation = c.rowsOf generation := by
  rcases hkeep with hnil | hkeep
  · have hzero : generation = 0 := by
      by_contra hne
      exact h.rows hne hnil
    rw [hnil, hzero]
    exact (hs.numbered.filter keep).rowsOf_zero
  · exact Catalog.rowsOf_filter fun row _ => hkeep row

variable {s t : State F}

/-- The step lemma: a generation that is read keeps its rows. -/
lemma Reading.Stable.work {label : Label} (hs : Generations s.catalog s.holder)
    (hwork : Work s label t) {reading} (hreading : reading ∈ s.readings)
    (h : Reading.Stable s.catalog s.holder reading.generation) (hspares : Spares s label) :
    Reading.Kept s.catalog t.catalog t.holder reading.generation := by
  cases hwork with
  | begin hholder uuid =>
    -- a generation without rows is 0, and that is never the next one
    have hne : reading.generation ≠ s.catalog.active + 1 := by
      intro heq
      exact h.rows (by omega) (hspares reading hreading heq)
    exact h.write (s.catalog.rowsOf_beginGeneration_of_ne _ uuid hne)
      (s.catalog.active_beginGeneration _ uuid) hne
  | record hholder | progress hholder => exact h.write rfl rfl (h.unwritten _ hholder rfl)
  | harvest hholder uuid =>
    have hplaced := Option.some.inj (hs.holder _ hholder)
    have hne := h.unwritten _ hholder rfl
    subst hplaced
    exact h.write (s.catalog.rowsOf_upsertGranule_of_ne uuid _ hne) rfl hne
  | remove hholder =>
    have hplaced := Option.some.inj (hs.holder _ hholder)
    have hne := h.unwritten _ hholder rfl
    subst hplaced
    exact h.write (s.catalog.rowsOf_deleteSource_of_ne _ hne) rfl hne
  | @prune owner generation =>
    refine h.rest (h.rowsOf_filter hs ?_) (by rintro holder ⟨⟩; rfl)
    by_cases heq : reading.generation = generation
    · exact Or.inr fun row hrow => decide_eq_true (hrow.trans heq)
    · exact Or.inl (hspares reading hreading heq)
  | @discard owner generation =>
    refine h.rest (h.rowsOf_filter hs ?_) (by rintro holder ⟨⟩; rfl)
    by_cases heq : reading.generation = generation
    · exact Or.inl (hspares reading hreading heq)
    · exact Or.inr fun row hrow => decide_eq_true fun hrow' => heq (hrow.symm.trans hrow')
  | persist hholder hstatus | persistFailed hholder hstatus | release hholder =>
    exact h.rest rfl nofun
  | _ => exact h.rest rfl (by rintro holder ⟨⟩; rfl)

lemma Work.frame {label : Label} (hwork : Work s label t) :
    t.readings = s.readings ∧ t.answers = s.answers := by
  cases hwork <;> exact ⟨rfl, rfl⟩

lemma mem_of_mem_remove {α : Type} {all before after : List α} {a b : α}
    (h : all = before ++ a :: after) (hb : b ∈ before ++ after) : b ∈ all := by
  rw [h]
  rcases mem_append.1 hb with hb | hb
  · exact mem_append_left _ hb
  · exact mem_append_right _ (mem_cons_of_mem _ hb)

/-! ## Answers -/

section Answers

variable [LE F] [DecidableLE F] [DecidableEq F]

/-- The answer is what the query selects from the rows of the generation that was active at one instant
of the call; it is not empty when the query selects something at every instant. -/
structure Answer.Consistent (a : Answer F) : Prop where
  exact : ∃ rows ∈ a.seen, a.result = a.query.select rows
  nonempty : (∀ rows ∈ a.seen, a.query.select rows ≠ []) → a.result ≠ []

lemma consistent_of_mem {query : Query F} {rows} {seen}
    (h : rows ∈ seen) : Answer.Consistent ⟨query, query.select rows, seen⟩ where
  exact := ⟨rows, h, rfl⟩
  nonempty := fun hall => hall rows h

lemma Query.select_list_nil (filter : GranuleFilter F) : (Query.list filter).select [] = [] := by
  show (((List.filter _ []).mergeSort _).drop _).take _ = []
  rw [filter_nil, mergeSort_nil, drop_nil, take_nil]

/-- The invariant: readings hold a stable generation, whose rows they have seen to be active. -/
structure Listed (s : State F) : Prop where
  generations : Generations s.catalog s.holder
  readings : ∀ reading ∈ s.readings, Reading.Stable s.catalog s.holder reading.generation ∧
    s.catalog.rowsOf reading.generation ∈ reading.seen
  answers : ∀ a ∈ s.answers, a.Consistent

variable {s t : State F}

lemma Listed.observe (hgenerations : Generations t.catalog t.holder)
    (hreadings : ∀ reading ∈ t.readings, Reading.Stable t.catalog t.holder reading.generation ∧
      t.catalog.rowsOf reading.generation ∈ t.catalog.activeRows :: reading.seen)
    (hanswers : ∀ a ∈ t.answers, a.Consistent) : Listed t.observe :=
  ⟨hgenerations, forall_mem_map.mpr hreadings, hanswers⟩

/-- A reading that keeps its rows. -/
lemma Listed.keep (h : Listed s) {reading} (hreading : reading ∈ s.readings)
    (hkept : Reading.Kept s.catalog t.catalog t.holder reading.generation) :
    Reading.Stable t.catalog t.holder reading.generation ∧
      t.catalog.rowsOf reading.generation ∈ t.catalog.activeRows :: reading.seen :=
  ⟨hkept.2, hkept.1 ▸ mem_cons_of_mem _ (h.readings reading hreading).2⟩

lemma Listed.step {label : Label} (h : Listed s) (hstep : Step s label t)
    (hspares : Spares s label) : Listed t.observe := by
  have hgenerations := h.generations.step hstep
  have hsame : ∀ reading ∈ s.readings, Reading.Stable s.catalog s.holder reading.generation ∧
      s.catalog.rowsOf reading.generation ∈ s.catalog.activeRows :: reading.seen :=
    fun reading hreading => h.keep hreading ⟨rfl, (h.readings reading hreading).1⟩
  cases hstep with
  | work hwork =>
    obtain ⟨hreadings, hanswers⟩ := hwork.frame
    refine .observe hgenerations (hreadings ▸ fun reading hreading => ?_) (hanswers ▸ h.answers)
    exact h.keep hreading
      ((h.readings reading hreading).1.work h.generations hwork hreading hspares)
  | start hlock hclaimed hjob hcandidates hfound | startFailed hlock hclaimed hjob
  | startDelete hlock hrow | restoreFailed hholder =>
    refine .observe hgenerations (fun reading hreading => ?_) h.answers
    exact h.keep hreading ((h.readings reading hreading).1.rest rfl (by rintro holder ⟨⟩; rfl))
  | restart => exact .observe hgenerations nofun h.answers
  | readActive =>
    refine .observe hgenerations (forall_mem_cons.mpr ⟨⟨⟨h.generations.active, ?_⟩, ?_⟩, hsame⟩) h.answers
    · exact fun _ _ _ => (Nat.succ_ne_self _).symm
    · exact mem_cons_self
  | @readRows reading before after hreading =>
    refine .observe hgenerations (fun r hother => hsame r (mem_of_mem_remove hreading hother)) ?_
    have hmem : reading ∈ s.readings := hreading ▸ mem_append_right _ mem_cons_self
    exact forall_mem_cons.mpr ⟨consistent_of_mem (h.readings reading hmem).2, h.answers⟩
  | @listNothing reading filter before after hreading hquery hgeneration =>
    refine .observe hgenerations (fun r hother => hsame r (mem_of_mem_remove hreading hother)) ?_
    have hmem : reading ∈ s.readings := hreading ▸ mem_append_right _ mem_cons_self
    -- generation 0 has no rows, and from none nothing is selected
    have hseen : [] ∈ reading.seen := by
      have hseen := (h.readings reading hmem).2
      rwa [hgeneration, h.generations.numbered.rowsOf_zero] at hseen
    refine forall_mem_cons.mpr ⟨?_, h.answers⟩
    have hconsistent : Answer.Consistent ⟨reading.query, reading.query.select [], reading.seen⟩ :=
      consistent_of_mem hseen
    rwa [hquery, Query.select_list_nil, ← hquery] at hconsistent
  | readFailed hreading =>
    exact .observe hgenerations (fun r hother => hsame r (mem_of_mem_remove hreading hother)) h.answers
  | _ => exact .observe hgenerations hsame h.answers

lemma Listed.empty : Listed (State.empty F) := ⟨Generations.empty, nofun, nofun⟩

/-- In every run in which no statement deletes rows of a generation that is being read, all answers
are consistent. -/
theorem consistent_of_reachable {s : State F}
    (h : ((machine F).restrict fun s label _ => Spares s label).Reachable s) :
    ∀ a ∈ s.answers, a.Consistent := by
  have hlisted : Listed s := by
    refine Machine.Reachable.induct (I := Listed) ?_ ?_ h
    · rintro s rfl
      exact Listed.empty
    · rintro s label t _ hs ⟨⟨u, hstep, rfl⟩, hspares⟩
      exact hs.step hstep hspares
  exact hlisted.answers

end Answers

/-! ## A deletion during a listing -/

/-- Everything, with the default page. -/
def everything : Query Int := .list ⟨none, [], none, 0, 0⟩

lemma spares_of_no_readings {s : State F} {label : Label} (h : s.readings = []) : Spares s label := by
  unfold Spares
  split <;> simp only [h, not_mem_nil, false_implies, implies_true]

lemma select_everything_ne_nil {rows} (h : rows ≠ []) : everything.select rows ≠ [] := by
  have hall : (rows.filter fun row => GranuleFilter.accepts ⟨none, [], none, 0, 0⟩ row.granule) = rows :=
    filter_eq_self.2 fun _ _ => rfl
  show ((_ : List (Row Int)).drop 0).take 1000 ≠ []
  rw [hall, drop_zero]
  intro hnil
  have hlength := congrArg length hnil
  rw [length_take, length_mergeSort, length_nil] at hlength
  have hpositive := length_pos_iff.2 h
  omega

/-- A listing of two granules that nobody disturbs. -/
theorem consistent_of_listing :
    Answer.Consistent (⟨everything, everything.select harvested.catalog.activeRows,
      [harvested.catalog.activeRows]⟩ : Answer Int) := by
  let M := (machine Int).restrict fun s label _ => Spares s label
  have h0 : M.Reachable harvested :=
    harvested_reachable fun _ _ _ hreadings _ => spares_of_no_readings hreadings
  have h1 : M.Reachable
      { harvested with readings := [⟨everything, 1, [harvested.catalog.activeRows]⟩] } :=
    h0.step ⟨⟨_, .readActive, rfl⟩, trivial⟩
  have h2 := h1.step ⟨⟨_, .readRows (show _ = [] ++ _ :: [] from rfl), rfl⟩, trivial⟩
  exact consistent_of_reachable h2 _ mem_cons_self

/-- While one of two granules is deleted, a listing of everything comes back empty. -/
theorem listing_inconsistent :
    ∃ s : State Int, (machine Int).Reachable s ∧ ∃ a ∈ s.answers, ¬ a.Consistent := by
  have h0 : ((machine Int).restrict fun _ _ _ => True).Reachable harvested :=
    harvested_reachable fun _ _ _ _ _ => trivial
  have h1 : (machine Int).Reachable
      { harvested with readings := [⟨everything, 1, [harvested.catalog.activeRows]⟩] } :=
    h0.of_restrict.step ⟨_, .readActive, rfl⟩
  -- the other granule is copied into generation 2, which becomes active
  have h2 := h1.step ⟨_, .startDelete rfl (show ⟨0, 1, tile "a"⟩ ∈ _ from mem_cons_self), rfl⟩
  have h3 := h2.step ⟨_, .work (.begin rfl (· + 2)), rfl⟩
  have h4 := h3.step ⟨_, .work (.remove rfl), rfl⟩
  have h5 := h4.step ⟨_, .work (.activateDeletion rfl rfl), rfl⟩
  have h6 := h5.step ⟨_, .work (.refresh rfl), rfl⟩
  -- the rows of generation 1 go before the listing reads them
  have h7 := h6.step ⟨_, .work (.prune rfl), rfl⟩
  have h8 := h7.step ⟨_, .readRows (show _ = [] ++ _ :: [] from rfl), rfl⟩
  refine ⟨_, h8, _, mem_cons_self, fun h => ?_⟩
  refine h.nonempty (fun rows hrows => select_everything_ne_nil (isEmpty_eq_false_iff.1 ?_))
    (Query.select_list_nil _)
  revert rows
  decide

end NeoServer.Mosaic
