import Mathlib
import NeoServer.Tilejobs.Cancel

/-!
# Tilejobs.Complete — what a job that has succeeded has done

The offset of a chunk goes on after every tile, whether the tile failed or not, and the next run of
the job starts there. `run` decides by the failures it has counted itself. A tile that fails in a
run that is interrupted is therefore forgotten: the next run never sees it, and the job succeeds.

- `Tracks` : what a run knows while it works on its chunks,
- `Sound` : the invariant of the tables and the runs,
- `succeeded_complete` : a job that succeeds has processed every tile and has counted no failure,
  if no job is claimed that has had one,
- `succeeded_with_failure` : the job that has.
-/

namespace NeoServer.Tilejobs

open List Table Function

/-- The tiles of a chunk before an offset have been processed without an error. -/
def Below (done : List (Chunk.ID × Int)) (id : Chunk.ID) (n : Int) : Prop :=
  ∀ o, 0 ≤ o → o < n → (id, o) ∈ done

/-- All tiles of the chunk have been. -/
def Chunk.Complete (done : List (Chunk.ID × Int)) (c : Chunk) : Prop := Below done c.id c.total

lemma Below.mono {done done'} {id} {n : Int}
    (h : Below done id n) (hsub : done ⊆ done') : Below done' id n :=
  fun o h0 ho => hsub (h o h0 ho)

/-- A chunk that says so has come to its end. -/
def Chunk.Honest (c : Chunk) : Prop := c.status = .succeeded → c.total ≤ c.nextOffset

/-- No job is claimed of which a tile has failed: no failure has been recorded, and the chunks
have passed only tiles that were processed without an error. -/
def NoOldFailure (s : State) (l : Label) (_ : State) : Prop :=
  ∀ id, l = .claim id → (∀ job ∈ s.jobs, job.id = id → job.failedTiles = 0) ∧
    ∀ c ∈ s.rows, c.jobID = id → Below s.done c.id c.nextOffset

/-! ## What a step does to the chunks -/

/-- Steps that write the rows of a job, or its counters. -/
def Label.writes : Label → Str → Prop
  | .create job, id => job.id = id
  | .replaceChunks i, id => i = id
  | .startChunk i, id => i = id
  | .interrupt i, id => i = id
  | .cancelChunk i, id => i = id
  | .saveChunk i, id => i = id
  | .progress i _, id => i = id
  | .endChunk i, id => i = id
  | .conclude i, id => i = id
  | .restart, _ => True
  | _, _ => False

/-- The rows of the chunks after a step. -/
inductive RowsStep (s : State) (l : Label) : List Chunk → Prop
  | same : RowsStep s l s.rows
  | replace {id : Str} {plan : List Chunk} (hl : l = .replaceChunks id)
      (hplan : s.creating id = some (.planned plan)) :
      RowsStep s l (ReplaceTileCacheJobChunks id plan s.rows)
  | update {id : Str} {r : Run} {x : ChunkRun} {c : Chunk} (hl : l.writes id)
      (hrun : s.runs id = some r) (hworking : r.phase = .working) (hx : x ∈ r.chunks)
      (hblock : c.SameBlock x.chunk) (hhonest : x.chunk.Honest → c.Honest) :
      RowsStep s l (UpdateTileCacheJobChunk c s.rows)
  | purge (p : Job → Bool) : RowsStep s l (purgeChunks p s.jobs s.rows)
  | reset (hl : l = .restart) : RowsStep s l (resetChunks s.rows)

lemma RowsStep.written {s : State} {l : Label} {id : Str} {r : Run} {x} {c : Chunk}
    (written : Bool) (hl : l.writes id) (hrun : s.runs id = some r) (hworking : r.phase = .working)
    (hx : x ∈ r.chunks) (hblock : c.SameBlock x.chunk) (hhonest : x.chunk.Honest → c.Honest) :
    RowsStep s l (if written = true then UpdateTileCacheJobChunk c s.rows else s.rows) := by
  cases written with
  | true => exact .update hl hrun hworking hx hblock hhonest
  | false => exact .same

lemma rows_step {s t : State} {l : Label} (h : Step s l t) : RowsStep s l t.rows := by
  cases h with
  | replaceChunks written reported hplan =>
    cases written with
    | true => exact .replace rfl hplan
    | false => exact .same
  | purge p => exact .purge p
  | startChunk written hrun hworking hx | interrupt written hrun hworking hx
  | cancelChunk written hrun hworking hx =>
    exact .written written rfl hrun hworking hx ⟨rfl, rfl⟩ fun _ => nofun
  | saveChunk written hrun hworking hx =>
    exact .written written rfl hrun hworking hx ⟨rfl, rfl⟩ id
  | endChunk written hrun hworking hx hphase hend =>
    exact .written written rfl hrun hworking hx ⟨rfl, rfl⟩ fun _ _ => hend
  | restart => exact .reset rfl
  | _ => exact .same

/-! ## The invariant -/

/-- The run has not listed its chunks yet. -/
def Run.Early (r : Run) : Prop := r.phase = .blocked ∨ r.phase = .starting

/-- Then no tile of its job has failed. -/
structure Fresh (s : State) (id : Str) (r : Run) : Prop where
  chunks : r.chunks = []
  failed : r.failed = 0
  jobs : ∀ job ∈ s.jobs, job.id = id → job.failedTiles = 0
  rows : ∀ c ∈ s.rows, c.jobID = id → Below s.done c.id c.nextOffset

/-- A chunk that a run works on. -/
structure ChunkRun.Tracked (s : State) (id : Str) (r : Run) (x : ChunkRun) : Prop where
  owns : x.chunk.jobID = id
  agrees : ∀ c ∈ s.rows, c.id = x.id → c.total = x.chunk.total
  honest : x.chunk.Honest
  below : r.failed = 0 → Below s.done x.id x.chunk.nextOffset
  finished : x.phase = .finished →
    r.cancelled = true ∨ r.interrupted = true ∨ x.chunk.total ≤ x.chunk.nextOffset

/-- A run that works on its chunks. -/
structure Tracks (s : State) (id : Str) (r : Run) : Prop where
  counted : 0 ≤ r.failed
  chunks : ∀ x ∈ r.chunks, x.Tracked s id r
  -- every chunk of the job is worked on, or complete
  covers : ∀ c ∈ s.rows, c.jobID = id → (∃ x ∈ r.chunks, x.id = c.id) ∨ c.Complete s.done
  closed : ∀ b, r.phase = .closing b → ∀ x ∈ r.chunks, x.phase = .finished

structure RunSound (s : State) (id : Str) (r : Run) : Prop where
  clean : r.job.failedTiles = 0
  early : r.Early → Fresh s id r
  late : ¬ r.Early → Tracks s id r

/-- A job whose chunks are still to be written has not been worked on. -/
structure Unwritten (s : State) (id : Str) (plan : List Chunk) : Prop where
  planned : Planned id plan
  rows : ∀ c ∈ s.rows, c.jobID ≠ id
  jobs : ∀ job ∈ s.jobs, job.id = id → job.sweeps = false
  runs : ∀ r, s.runs id = some r → r.job.sweeps = false ∧ r.Early

/-- What is true of a job that has succeeded. -/
structure Finished (s : State) (job : Job) : Prop where
  idle : s.runs job.id = none
  failed : job.failedTiles = 0
  complete : ∀ c ∈ s.rows, c.jobID = job.id → c.Complete s.done
  created : ∀ plan, s.creating job.id ≠ some (.planned plan)

structure Sound (s : State) : Prop where
  queue : Queue s
  keyed : Table.Keyed Chunk.id s.rows
  honest : ∀ c ∈ s.rows, c.Honest
  unwritten : ∀ id plan, s.creating id = some (.planned plan) → Unwritten s id plan
  runs : ∀ id r, s.runs id = some r → RunSound s id r
  succeeded : ∀ job ∈ s.jobs, job.status = .succeeded → Finished s job

variable {s t : State} {l : Label}

/-! ## The rows -/

section Rows

variable {rows : List Chunk}

lemma Run.not_early {r : Run} (h : r.phase = .working) : ¬ r.Early := by
  simp [Run.Early, h]

lemma RowsStep.keyed (h : RowsStep s l rows) (hs : Sound s) : Table.Keyed Chunk.id rows := by
  cases h with
  | same => exact hs.keyed
  | @replace id plan hl hplan =>
    have hplanned := (hs.unwritten id plan hplan).planned
    unfold ReplaceTileCacheJobChunks Table.Keyed
    rw [map_append]
    refine List.Nodup.append (hs.keyed.filter _) hplanned.2 ?_
    intro key hold hnew
    rcases mem_map.mp hold with ⟨c, hc, rfl⟩
    rcases mem_map.mp hnew with ⟨d, hd, hid⟩
    have hjob : d.jobID = c.jobID := congrArg Prod.fst hid
    have hne := (mem_filter.mp hc).2
    simp [← hjob, (hplanned.1 d hd).1] at hne
  | update | reset => exact hs.keyed.update fun _ => rfl
  | purge => exact hs.keyed.filter _

lemma RowsStep.honest (h : RowsStep s l rows) (hs : Sound s) : ∀ c ∈ rows, c.Honest := by
  intro c hc
  cases h with
  | same => exact hs.honest c hc
  | @replace id plan hl hplan =>
    rcases mem_append.mp hc with hold | hnew
    · exact hs.honest c (mem_filter.mp hold).1
    · intro hstatus
      rw [((hs.unwritten id plan hplan).planned.1 c hnew).2.2] at hstatus
      cases hstatus
  | @update id r x d hl hrun hworking hx hblock hhonest =>
    have htracks := (hs.runs id r hrun).late (Run.not_early hworking)
    rcases of_mem_update hc with ⟨hold, _⟩ | ⟨old, hold, hid, rfl⟩
    · exact hs.honest c hold
    -- the row has the size of the chunk that is written over it
    intro hstatus
    have hd : d.total ≤ d.nextOffset := hhonest ((htracks.chunks x hx).honest) hstatus
    have htotal : old.total = x.chunk.total := (htracks.chunks x hx).agrees old hold (hid.trans hblock.1)
    show old.total ≤ d.nextOffset
    rw [htotal, ← hblock.2]
    exact hd
  | purge => exact hs.honest c (mem_filter.mp hc).1
  | reset =>
    rcases of_mem_update hc with ⟨hold, _⟩ | ⟨old, _, _, rfl⟩
    · exact hs.honest c hold
    · exact nofun

/-- A row after a step is one from before, or one of a plan that has been written. -/
lemma RowsStep.block (h : RowsStep s l rows) {c : Chunk} (hc : c ∈ rows) :
    (∃ d ∈ s.rows, c.SameBlock d) ∨
      ∃ id plan, l = .replaceChunks id ∧ s.creating id = some (.planned plan) ∧ c ∈ plan := by
  cases h with
  | same => exact .inl ⟨c, hc, rfl, rfl⟩
  | @replace id plan hl hplan =>
    rcases mem_append.mp hc with hold | hnew
    · exact .inl ⟨c, (mem_filter.mp hold).1, rfl, rfl⟩
    · exact .inr ⟨id, plan, hl, hplan, hnew⟩
  | update | reset =>
    rcases of_mem_update hc with ⟨hold, _⟩ | ⟨old, hold, _, rfl⟩
    · exact .inl ⟨c, hold, rfl, rfl⟩
    · exact .inl ⟨old, hold, rfl, rfl⟩
  | purge => exact .inl ⟨c, (mem_filter.mp hc).1, rfl, rfl⟩

/-- The rows of a job that the step does not write. -/
lemma RowsStep.kept (h : RowsStep s l rows) (hs : Sound s) {id : Str} (hl : ¬ l.writes id) {c : Chunk}
    (hc : c ∈ rows) (hjob : c.jobID = id) : c ∈ s.rows := by
  cases h with
  | same => exact hc
  | @replace id' plan hlabel hplan =>
    rcases mem_append.mp hc with hold | hnew
    · exact (mem_filter.mp hold).1
    · have hid : c.jobID = id' := ((hs.unwritten id' plan hplan).planned.1 c hnew).1
      subst hlabel
      exact absurd (hid.symm.trans hjob) hl
  | @update id' r x d hwrites hrun hworking hx hblock =>
    have htracks := (hs.runs id' r hrun).late (Run.not_early hworking)
    rcases of_mem_update hc with ⟨hold, _⟩ | ⟨old, _, hid, rfl⟩
    · exact hold
    have hold : old.id = x.chunk.id := hid.trans hblock.1
    have hid' : old.jobID = id' := (congrArg Prod.fst hold).trans ((htracks.chunks x hx).owns)
    rw [← hjob] at hl
    exact absurd (hid' ▸ hwrites) hl
  | purge => exact (mem_filter.mp hc).1
  | reset hlabel =>
    subst hlabel
    exact absurd trivial hl

lemma done_step (h : Step s l t) : s.done ⊆ t.done := by
  cases h with
  | tile result =>
    cases result with
    | stored | skipped => exact subset_cons_self _ _
    | failed => exact List.Subset.refl _
  | _ => exact List.Subset.refl _

end Rows

/-! ## The jobs -/

section Jobs

variable {s : State} {jobs : List Job} {job : Job}

lemma Job.reset_fields (job : Job) :
    job.reset.failedTiles = job.failedTiles ∧ job.reset.sweeps = job.sweeps := by
  cases hstatus : job.status <;> simp [Job.reset, hstatus, Job.sweeps]

/-- What a job is does not change. -/
lemma JobsStep.sweeps (h : JobsStep s l jobs) (hjob : job ∈ jobs) :
    (∃ old ∈ s.jobs, old.id = job.id ∧ old.sweeps = job.sweeps) ∨ l = .create job := by
  cases h with
  | same => exact .inl ⟨job, hjob, rfl, rfl⟩
  | create hl =>
    rcases mem_cons.mp hjob with rfl | hold
    · exact .inr hl
    · exact .inl ⟨job, hold, rfl, rfl⟩
  | purge => exact .inl ⟨job, (mem_filter.mp hjob).1, rfl, rfl⟩
  | reset =>
    rcases mem_map.mp hjob with ⟨old, hold, rfl⟩
    exact .inl ⟨old, hold, old.reset_id.symm, old.reset_fields.2.symm⟩
  | _ =>
    -- the statements that set columns leave operation and bounds
    rcases of_mem_update hjob with ⟨hold, _⟩ | ⟨old, hold, _, rfl⟩
    · exact .inl ⟨job, hold, rfl, rfl⟩
    · exact .inl ⟨old, hold, rfl, rfl⟩

/-- The failures that are recorded for a job that the step does not write. -/
lemma JobsStep.failedTiles (h : JobsStep s l jobs) (hl : ¬ l.writes job.id) (hjob : job ∈ jobs) :
    ∃ old ∈ s.jobs, old.id = job.id ∧ old.failedTiles = job.failedTiles := by
  cases h with
  | same => exact ⟨job, hjob, rfl, rfl⟩
  | create hlabel =>
    rcases mem_cons.mp hjob with rfl | hold
    · rw [hlabel] at hl
      exact absurd rfl hl
    · exact ⟨job, hold, rfl, rfl⟩
  | @update id u status hu hsets hcancel howner hfailed =>
    rcases of_mem_update hjob with ⟨hold, _⟩ | ⟨old, hold, hid, rfl⟩
    · exact ⟨job, hold, rfl, rfl⟩
    have hwritten : l.writes id → False := fun hwrites => hl (by
      rw [show (u.apply old).id = id from hid]
      exact hwrites)
    rcases hfailed with hnone | rfl | rfl
    · refine ⟨old, hold, rfl, ?_⟩
      simp [JobUpdate.apply, hnone]
    · exact absurd rfl hwritten
    · exact absurd rfl hwritten
  | purge => exact ⟨job, (mem_filter.mp hjob).1, rfl, rfl⟩
  | reset hlabel =>
    rw [hlabel] at hl
    exact absurd trivial hl
  | _ =>
    rcases of_mem_update hjob with ⟨hold, _⟩ | ⟨old, hold, _, rfl⟩
    · exact ⟨job, hold, rfl, rfl⟩
    · exact ⟨old, hold, rfl, rfl⟩

/-- A job has succeeded before, or it succeeds at the end of its run. -/
lemma JobsStep.succeeded (h : JobsStep s l jobs) (hjob : job ∈ jobs)
    (hsucceeded : job.status = .succeeded) :
    job ∈ s.jobs ∨ l = .sweep job.id ∨ l = .conclude job.id := by
  cases h with
  | same => exact .inl hjob
  | create hl hstatus =>
    rcases mem_cons.mp hjob with rfl | hold
    · rw [hstatus] at hsucceeded
      cases hsucceeded
    · exact .inl hold
  | @update id u status hu hsets =>
    rcases of_mem_update hjob with ⟨hold, _⟩ | ⟨old, _, hid, rfl⟩
    · exact .inl hold
    rw [JobUpdate.apply_status hu] at hsucceeded
    subst hsucceeded
    rw [show (u.apply old).id = id from hid]
    exact .inr hsets
  | cancel =>
    rcases of_mem_update hjob with ⟨hold, _⟩ | ⟨old, _, _, rfl⟩
    · exact .inl hold
    · simp only [Job.requestCancel] at hsucceeded
      split at hsucceeded <;> cases hsucceeded
  | purge => exact .inl (mem_filter.mp hjob).1
  | claim =>
    rcases of_mem_update hjob with ⟨hold, _⟩ | ⟨old, _, _, rfl⟩
    · exact .inl hold
    · cases hsucceeded
  | reset =>
    rcases mem_map.mp hjob with ⟨old, hold, rfl⟩
    cases hstatus : old.status <;> simp only [Job.reset, hstatus] at hsucceeded ⊢ <;> simp_all

end Jobs

/-! ## Runs that a step leaves -/

/-- The step does nothing to the job `id` but process tiles. -/
structure Keeps (s t : State) (id : Str) : Prop where
  done : s.done ⊆ t.done
  rows : ∀ c ∈ t.rows, c.jobID = id → c ∈ s.rows
  failed : ∀ job ∈ t.jobs, job.id = id → ∃ old ∈ s.jobs, old.id = id ∧ old.failedTiles = job.failedTiles

variable {id : Str} {r : Run}

lemma keeps_step (hs : Sound s) (h : Step s l t)
    (hl : ¬ l.writes id) : Keeps s t id where
  done := done_step h
  rows c hc hjob := (rows_step h).kept hs hl hc hjob
  failed := by
    rintro job hjob rfl
    exact (jobs_step h).failedTiles hl hjob

lemma Fresh.keep (h : Fresh s id r) (hk : Keeps s t id) : Fresh t id r where
  chunks := h.chunks
  failed := h.failed
  jobs := by
    intro job hjob hid
    rcases hk.failed job hjob hid with ⟨old, hold, hid, hfailed⟩
    rw [← hfailed]
    exact h.jobs old hold hid
  rows c hc hid := (h.rows c (hk.rows c hc hid) hid).mono hk.done

/-- While a run works, its rows may change, but not which they are. -/
lemma Tracks.keep (h : Tracks s id r) (hdone : s.done ⊆ t.done)
    (hrows : ∀ c ∈ t.rows, c.jobID = id → ∃ d ∈ s.rows, c.SameBlock d) : Tracks t id r where
  counted := h.counted
  chunks := by
    intro x hx
    have htracked := h.chunks x hx
    refine { htracked with agrees := ?_, below := fun hfailed => (htracked.below hfailed).mono hdone }
    intro c hc hid
    have hjob : c.jobID = id := (congrArg Prod.fst hid).trans htracked.owns
    rcases hrows c hc hjob with ⟨d, hd, hblock⟩
    rw [hblock.2]
    exact htracked.agrees d hd (hblock.1.symm.trans hid)
  covers := by
    intro c hc hjob
    rcases hrows c hc hjob with ⟨d, hd, hblock⟩
    have hd' : d.jobID = id := (congrArg Prod.fst hblock.1).symm.trans hjob
    rcases h.covers d hd hd' with ⟨x, hx, hid⟩ | hcomplete
    · exact .inl ⟨x, hx, hid.trans hblock.1.symm⟩
    right
    unfold Chunk.Complete
    rw [hblock.1, hblock.2]
    exact hcomplete.mono hdone
  closed := h.closed

lemma RunSound.keep (h : RunSound s id r) (hk : Keeps s t id) : RunSound t id r where
  clean := h.clean
  early hearly := (h.early hearly).keep hk
  late hlate := (h.late hlate).keep hk.done fun c hc hjob => ⟨c, hk.rows c hc hjob, rfl, rfl⟩

/-! ## Runs that a step moves -/

/-- The chunk `x` of a run has gone on to `y`. -/
structure Moves (done : List (Chunk.ID × Int)) (r r' : Run) (x y : ChunkRun) : Prop where
  job : r'.job = r.job
  phase : r'.phase = r.phase
  chunks : r'.chunks = put ChunkRun.id y r.chunks
  failed : r.failed ≤ r'.failed
  cancelled : r.cancelled = true → r'.cancelled = true
  interrupted : r.interrupted = true → r'.interrupted = true
  block : y.chunk.SameBlock x.chunk
  honest : x.chunk.Honest → y.chunk.Honest
  below : r'.failed = 0 → Below done x.id x.chunk.nextOffset → Below done x.id y.chunk.nextOffset
  finished : y.phase = .finished → r'.cancelled = true ∨ r'.interrupted = true ∨
    y.chunk.total ≤ y.chunk.nextOffset

lemma Tracks.move {r' : Run} {x y} (h : Tracks s id r) (hworking : r.phase = .working)
    (hx : x ∈ r.chunks) (hm : Moves s.done r r' x y) : Tracks s id r' := by
  have hid : y.id = x.id := hm.block.1
  have hbefore : r'.failed = 0 → r.failed = 0 := fun hzero =>
    le_antisymm (hm.failed.trans_eq hzero) h.counted
  refine ⟨le_trans h.counted hm.failed, ?_, ?_, ?_⟩
  · intro z hz
    rw [hm.chunks, mem_put] at hz
    rcases hz with rfl | ⟨hz, _⟩
    · have hold := h.chunks x hx
      refine ⟨(congrArg Prod.fst hid).trans hold.owns, ?_, hm.honest hold.honest, ?_, hm.finished⟩
      · intro c hc hcid
        rw [hm.block.2]
        exact hold.agrees c hc (hcid.trans hid)
      · intro hzero
        rw [hid]
        exact hm.below hzero (hold.below (hbefore hzero))
    · have hold := h.chunks z hz
      exact { hold with
        below := fun hzero => hold.below (hbefore hzero)
        finished := fun hphase =>
          (hold.finished hphase).imp hm.cancelled (Or.imp_left hm.interrupted) }
  · -- whoever was worked on still is
    intro c hc hjob
    rcases h.covers c hc hjob with ⟨z, hz, hzid⟩ | hcomplete
    · left
      rw [hm.chunks]
      by_cases hzy : z.id = y.id
      · exact ⟨y, mem_put.mpr (.inl rfl), hzy.symm.trans hzid⟩
      · exact ⟨z, mem_put.mpr (.inr ⟨hz, hzy⟩), hzid⟩
    · exact .inr hcomplete
  · intro b hclosing
    rw [hm.phase, hworking] at hclosing
    cases hclosing

/-- The chunks of a job that has been claimed without an old failure. -/
lemma Fresh.list (hs : Sound s) (h : Fresh s id r) :
    Tracks s id { r with
      phase := .working
      chunks := ((rowsOf id s.rows).filter fun c => c.status ≠ .succeeded).map
        fun c => ⟨c, .waiting⟩ } := by
  refine ⟨h.failed.ge, ?_, ?_, fun b hclosing => by cases hclosing⟩
  · intro x hx
    rcases mem_map.mp hx with ⟨c, hc, rfl⟩
    have hrow := mem_filter.mp (mem_filter.mp hc).1
    have hjob : c.jobID = id := by simpa using hrow.2
    refine ⟨hjob, ?_, hs.honest c hrow.1, fun _ => h.rows c hrow.1 hjob, fun hphase => by cases hphase⟩
    intro d hd hid
    rw [hs.keyed.eq_of_key hd hrow.1 hid]
  · intro c hc hjob
    by_cases hstatus : c.status = .succeeded
    · right
      intro o h0 ho
      exact h.rows c hc hjob o h0 (lt_of_lt_of_le ho (hs.honest c hc hstatus))
    · left
      refine ⟨⟨c, .waiting⟩, mem_map.mpr ⟨c, ?_, rfl⟩, rfl⟩
      simp [rowsOf, hc, hjob, hstatus]

section Runs

lemma runs_update {v} (hs : Sound s) (hruns : t.runs = update s.runs id v)
    (hkeep : ∀ id', id' ≠ id → Keeps s t id') (hnew : ∀ r, v = some r → RunSound t id r) :
    ∀ id' r', t.runs id' = some r' → RunSound t id' r' := by
  intro id' r' hr'
  rw [hruns] at hr'
  rcases update_eq_some_iff.1 hr' with ⟨rfl, hv⟩ | ⟨hid, hold⟩
  · exact hnew r' hv
  · exact (hs.runs id' r' hold).keep (hkeep id' hid)

variable {r r' : Run} {plan : List Chunk}

/-- A run that works before the step, as the state after it has it. -/
lemma tracks_step (hs : Sound s) (h : Step s l t) (hl : ∀ i, l ≠ .replaceChunks i)
    (hrun : s.runs id = some r) (hworking : r.phase = .working) : Tracks t id r := by
  refine ((hs.runs id r hrun).late (Run.not_early hworking)).keep (done_step h) ?_
  intro c hc _
  rcases (rows_step h).block hc with hold | ⟨i, _, hreplace, _⟩
  · exact hold
  · exact absurd hreplace (hl i)

lemma RunSound.of_tracks (h : RunSound s id r) (hjob : r'.job = r.job)
    (hlate : ¬ r'.Early) (ht : Tracks t id r') : RunSound t id r' where
  clean := by
    rw [hjob]
    exact h.clean
  early hearly := absurd hearly hlate
  late _ := ht

/-- A chunk of a run moves. -/
lemma runs_chunk {x y} (hs : Sound s) (h : Step s l t)
    (hl : ∀ i, l ≠ .replaceChunks i) (hothers : ∀ i, l.writes i → i = id) (hrun : s.runs id = some r)
    (hworking : r.phase = .working) (hx : x ∈ r.chunks) (hruns : t.runs = update s.runs id (some r'))
    (hm : Moves t.done r r' x y) : ∀ id' r', t.runs id' = some r' → RunSound t id' r' := by
  refine runs_update hs hruns (fun id' hne => keeps_step hs h fun hw => hne (hothers id' hw)) ?_
  rintro r'' ⟨⟩
  exact (hs.runs id r hrun).of_tracks hm.job (Run.not_early (hm.phase.trans hworking))
    ((tracks_step hs h hl hrun hworking).move hworking hx hm)

/-- A tile. If it fails the run has counted a failure; else it is among those that are done. -/
lemma moves_tile {done} {x : ChunkRun} {result} (hcounted : 0 ≤ r.failed)
    (hdone : (∃ message, result = .failed message) ∨ (x.id, x.chunk.nextOffset) ∈ done) :
    Moves done r ((r.count result).setChunk ⟨x.chunk.advance result, .processed⟩) x
      ⟨x.chunk.advance result, .processed⟩ := by
  have hnext : (x.chunk.advance result).nextOffset = x.chunk.nextOffset + 1 := by
    cases result <;> rfl
  have hblock : (x.chunk.advance result).SameBlock x.chunk := by
    cases result <;> exact ⟨rfl, rfl⟩
  refine ⟨?_, ?_, ?_, ?_, ?_, ?_, hblock, ?_, ?_, fun h => by cases h⟩
  · cases result <;> rfl
  · cases result <;> rfl
  · cases result <;> rfl
  · cases result with
    | stored | skipped => exact le_rfl
    | failed => exact (lt_add_one r.failed).le
  · cases result <;> exact id
  · cases result <;> exact id
  · intro hhonest hstatus
    have hend := hhonest (by cases result <;> exact hstatus)
    rw [hblock.2, hnext]
    omega
  · intro hzero hbelow o h0 ho
    rcases hdone with ⟨message, rfl⟩ | hdone
    · have : r.failed + 1 = 0 := hzero
      omega
    by_cases hlast : o = x.chunk.nextOffset
    · rw [hlast]
      exact hdone
    · exact hbelow o h0 (by
        change o < (x.chunk.advance result).nextOffset at ho
        omega)

/-- The plan of a job that has been claimed already is written. -/
lemma runs_replace (hs : Sound s) (h : Step s (.replaceChunks id) t)
    (hplan : s.creating id = some (.planned plan)) (hruns : t.runs = s.runs) (hjobs : t.jobs = s.jobs) :
    ∀ id' r', t.runs id' = some r' → RunSound t id' r' := by
  intro id' r hr
  rw [hruns] at hr
  by_cases hid : id = id'
  · subst hid
    have hunwritten := hs.unwritten id plan hplan
    have hearly := (hunwritten.runs r hr).2
    have hsound := hs.runs id r hr
    have hfresh := hsound.early hearly
    refine ⟨hsound.clean, fun _ => ⟨hfresh.chunks, hfresh.failed, ?_, ?_⟩, fun hlate => absurd hearly hlate⟩
    · rw [hjobs]
      exact hfresh.jobs
    · intro c hc hjob
      have hnew : c.nextOffset = 0 := by
        have hrows := rows_step h
        generalize t.rows = rows at hrows hc
        cases hrows with
        | same => exact absurd hjob (hunwritten.rows c hc)
        | @replace i plan' hl hplan' =>
          cases hl
          rcases mem_append.mp hc with hold | hmem
          · exact absurd hjob (by simpa using (mem_filter.mp hold).2)
          · exact ((hs.unwritten id plan' hplan').planned.1 c hmem).2.1
        | update hl hrun' hworking =>
          cases hl
          rw [hr] at hrun'
          cases hrun'
          exact absurd hearly (Run.not_early hworking)
        | purge => exact absurd hjob (hunwritten.rows c (mem_filter.mp hc).1)
        | reset hl => cases hl
      intro o h0 ho
      omega
  · exact (hs.runs id' r hr).keep (keeps_step hs h hid)

lemma RunSound.new {job : Job} (hclean : ∀ j ∈ t.jobs, j.id = job.id → j.failedTiles = 0)
    (hjob : job.failedTiles = 0) (hrows : ∀ c ∈ t.rows, c.jobID = job.id → Below t.done c.id c.nextOffset)
    (blocked : Bool) : RunSound t job.id (newRun job.claim blocked) := by
  have hearly : (newRun job.claim blocked).Early := by
    cases blocked with
    | true => exact .inl rfl
    | false => exact .inr rfl
  exact ⟨hjob, fun _ => ⟨rfl, rfl, hclean, hrows⟩, fun hlate => absurd hearly hlate⟩

lemma Sound.runs_step (hs : Sound s) (hstep : Step s l t) (hold : NoOldFailure s l t) :
    ∀ id r, t.runs id = some r → RunSound t id r := by
  have hkeep : ∀ id, ¬ l.writes id → Keeps s t id := fun id hl => keeps_step hs hstep hl
  have hmoved := hstep
  cases hstep with
  | create operation bounded createdAt totalTiles hjob hfresh =>
    intro id r hr
    refine (hs.runs id r hr).keep (hkeep id ?_)
    rintro rfl
    have hr : s.runs _ = some r := hr
    rw [hfresh.2.2.1] at hr
    cases hr
  | replaceChunks written reported hplan => exact runs_replace hs hmoved hplan rfl rfl
  | @claim job blocked hup hnext =>
    refine runs_update hs rfl (fun id' _ => hkeep id' fun hw => hw) ?_
    rintro r ⟨⟩
    rcases hold job.id rfl with ⟨hjobs, hrows⟩
    refine RunSound.new ?_ (hjobs job hnext.1 rfl) ?_ blocked
    · intro j hj hid
      rcases (hkeep job.id fun hw => hw).failed j hj hid with ⟨old, hold, hid, hfailed⟩
      rw [← hfailed]
      exact hjobs old hold hid
    · exact hrows
  | refuse | giveUp | sweep =>
    exact runs_update hs rfl (fun id' _ => hkeep id' fun hw => hw) fun r heq => by cases heq
  | @list id r hrun hphase =>
    refine runs_update hs rfl (fun id' _ => hkeep id' fun hw => hw) ?_
    rintro r' ⟨⟩
    have hsound := hs.runs id r hrun
    have hlisted := (hsound.early (.inr hphase)).list hs
    exact hsound.of_tracks rfl (Run.not_early rfl)
      (hlisted.keep (List.Subset.refl _) fun c hc _ => ⟨c, hc, rfl, rfl⟩)
  | startChunk written hrun hworking hx =>
    exact runs_chunk hs hmoved nofun (fun _ => Eq.symm) hrun hworking hx rfl
      ⟨rfl, rfl, rfl, le_rfl, id, id, ⟨rfl, rfl⟩, fun _ => nofun, fun _ => id, nofun⟩
  | interrupt written hrun hworking hx =>
    exact runs_chunk hs hmoved nofun (fun _ => Eq.symm) hrun hworking hx rfl
      ⟨rfl, rfl, rfl, le_rfl, id, fun _ => rfl, ⟨rfl, rfl⟩, fun _ => nofun, fun _ => id,
        fun _ => .inr (.inl rfl)⟩
  | cancelChunk written hrun hworking hx =>
    exact runs_chunk hs hmoved nofun (fun _ => Eq.symm) hrun hworking hx rfl
      ⟨rfl, rfl, rfl, le_rfl, fun _ => rfl, id, ⟨rfl, rfl⟩, fun _ => nofun, fun _ => id,
        fun _ => .inl rfl⟩
  | @tile id r x result hrun hworking hx =>
    have hcounted := ((hs.runs id r hrun).late (Run.not_early hworking)).counted
    refine runs_chunk hs hmoved nofun (fun _ hw => by cases hw) hrun hworking hx rfl
      (moves_tile hcounted ?_)
    cases result with
    | failed message => exact .inl ⟨message, rfl⟩
    | _ => exact .inr mem_cons_self
  | saveChunk written hrun hworking hx hphase | progress written hrun hworking hx hphase =>
    exact runs_chunk hs hmoved nofun (fun _ => Eq.symm) hrun hworking hx rfl
      ⟨rfl, rfl, rfl, le_rfl, id, id, ⟨rfl, rfl⟩, id, fun _ => id, nofun⟩
  | endChunk written hrun hworking hx hphase hend =>
    exact runs_chunk hs hmoved nofun (fun _ => Eq.symm) hrun hworking hx rfl
      ⟨rfl, rfl, rfl, le_rfl, id, id, ⟨rfl, rfl⟩, fun _ _ => hend, fun _ => id,
        fun _ => .inr (.inr hend)⟩
  | @close id r cancelRequested hrun hworking hfinished =>
    refine runs_update hs rfl (fun id' _ => hkeep id' fun hw => hw) ?_
    rintro r' ⟨⟩
    have htracks : Tracks _ id r := tracks_step hs hmoved nofun hrun hworking
    refine (hs.runs id r hrun).of_tracks rfl ?_ { htracks with
      chunks := fun x hx => { htracks.chunks x hx with }, closed := fun _ _ => hfinished }
    rintro (hblocked | hstarting)
    · cases hblocked
    · cases hstarting
  | interrupted | conclude =>
    exact runs_update hs rfl (fun id' hne => hkeep id' fun hw => hne (Eq.symm hw))
      fun r heq => by cases heq
  | exit | restart => exact fun id r hr => by cases hr
  | _ => exact fun id r hr => (hs.runs id r hr).keep (hkeep id fun hw => hw)

/-! ## Jobs whose chunks are not written yet -/

lemma creating_step (h : Step s l t) (hplan : t.creating id = some (.planned plan)) :
    (s.creating id = some (.planned plan) ∧ l ≠ .replaceChunks id) ∨
      ∃ job, l = .create job ∧ job.id = id ∧ job.sweeps = false ∧ Planned id plan := by
  cases h with
  | @create job plan' operation bounded createdAt totalTiles hjob hfresh hplanned =>
    by_cases hsweeps : job.sweeps = true
    · simp only [hsweeps, if_true] at hplan
      exact .inl ⟨hplan, nofun⟩
    simp only [hsweeps] at hplan
    rcases update_eq_some_iff.1 hplan with ⟨rfl, hnew⟩ | ⟨_, hold⟩
    · cases hnew
      exact .inr ⟨job, rfl, rfl, by simpa using hsweeps, hplanned⟩
    · exact .inl ⟨hold, nofun⟩
  | @replaceChunks id' plan' written reported =>
    rcases update_eq_some_iff.1 hplan with ⟨rfl, hnew⟩ | ⟨hid, hold⟩
    · cases reported <;> cases hnew
    · exact .inl ⟨hold, fun heq => hid (Label.replaceChunks.inj heq).symm⟩
  | @createFailed id' =>
    rcases update_eq_some_iff.1 hplan with ⟨_, hnone⟩ | ⟨_, hold⟩
    · cases hnone
    · exact .inl ⟨hold, nofun⟩
  | exit | restart => cases hplan
  | _ => exact .inl ⟨hplan, nofun⟩

/-- Where a run comes from. -/
inductive RunFrom (s : State) (id : Str) (r' : Run) : Prop
  | there (h : s.runs id = some r')
  | claimed {job} (hjob : job ∈ s.jobs) (hid : job.id = id) (blocked : Bool)
      (hr : r' = newRun job.claim blocked)
  -- a run that moves has found rows
  | moved {r : Run} (hr : s.runs id = some r) (hrows : r.Early → rowsOf id s.rows ≠ [])

lemma run_step (h : Step s l t) (hr' : t.runs id = some r') : RunFrom s id r' := by
  have hmoved : ∀ {id' r v}, update s.runs id' v id = some r' → s.runs id' = some r →
      (r.Early → rowsOf id' s.rows ≠ []) → RunFrom s id r' := by
    intro id' r v hupdate hrun hearly
    rcases update_eq_some_iff.1 hupdate with ⟨rfl, _⟩ | ⟨_, hsame⟩
    · exact .moved hrun hearly
    · exact .there hsame
  have hgone : ∀ {id'}, update s.runs id' none id = some r' → RunFrom s id r' := by
    intro id' hupdate
    rcases update_eq_some_iff.1 hupdate with ⟨_, hnone⟩ | ⟨_, hsame⟩
    · cases hnone
    · exact .there hsame
  cases h with
  | @claim job blocked hup hnext =>
    rcases update_eq_some_iff.1 hr' with ⟨rfl, hnew⟩ | ⟨_, hsame⟩
    · cases hnew
      exact .claimed hnext.1 rfl blocked rfl
    · exact .there hsame
  | list hrun hphase hrows => exact hmoved hr' hrun fun _ => hrows
  | startChunk written hrun hworking | interrupt written hrun hworking | cancelChunk written hrun hworking
  | tile written hrun hworking | saveChunk written hrun hworking | progress written hrun hworking
  | endChunk written hrun hworking | close written hrun hworking =>
    exact hmoved hr' hrun fun he => absurd he (Run.not_early hworking)
  | refuse | giveUp | sweep | interrupted | conclude => exact hgone hr'
  | exit | restart => cases hr'
  | _ => exact .there hr'

lemma Unwritten.step (hs : Sound s) (hu : Unwritten s id plan)
    (hcreating : s.creating id = some (.planned plan)) (hstep : Step s l t)
    (hl : l ≠ .replaceChunks id) : Unwritten t id plan where
  planned := hu.planned
  rows := by
    intro c hc hjob
    rcases (rows_step hstep).block hc with ⟨d, hd, hblock⟩ | ⟨id', plan', hlabel, hplan', hmem⟩
    · exact hu.rows d hd ((congrArg Prod.fst hblock.1).symm.trans hjob)
    · have hid : c.jobID = id' := ((hs.unwritten id' plan' hplan').planned.1 c hmem).1
      rw [hjob] at hid
      exact hl (hlabel.trans (congrArg Label.replaceChunks hid.symm))
  jobs := by
    rintro job hjob rfl
    rcases (jobs_step hstep).sweeps hjob with ⟨old, hold, hid, hsweeps⟩ | rfl
    · rw [← hsweeps]
      exact hu.jobs old hold hid
    cases hstep with
    | create operation bounded createdAt totalTiles hnew hfresh =>
      rw [hfresh.2.2.2] at hcreating
      cases hcreating
  runs := by
    intro r' hr'
    rcases run_step hstep hr' with hsame | @⟨job, hjob, hid, blocked, rfl⟩ | ⟨hr, hrows⟩
    · exact hu.runs r' hsame
    · refine ⟨hu.jobs job hjob hid, ?_⟩
      cases blocked with
      | true => exact .inl rfl
      | false => exact .inr rfl
    · -- a run that is early cannot have found rows
      have hnone : rowsOf id s.rows = [] := by
        simpa [rowsOf] using hu.rows
      exact absurd hnone (hrows (hu.runs _ hr).2)

lemma Unwritten.new {job : Job} (hstep : Step s (.create job) t)
    (hsweeps : job.sweeps = false) (hplan : Planned job.id plan) : Unwritten t job.id plan := by
  cases hstep with
  | create operation bounded createdAt totalTiles hjob hfresh =>
    rcases hfresh with ⟨hjobs, hrows, hidle, hcreating⟩
    refine ⟨hplan, ?_, ?_, ?_⟩
    · simpa [rowsOf] using hrows
    · exact forall_mem_cons.mpr
        ⟨fun _ => hsweeps, fun other hother hid => absurd hid (hjobs other hother)⟩
    · intro r hr
      have hr : s.runs job.id = some r := hr
      rw [hidle] at hr
      cases hr

lemma Sound.unwritten_step (hs : Sound s) (hstep : Step s l t) :
    ∀ id plan, t.creating id = some (.planned plan) → Unwritten t id plan := by
  intro id plan hplan
  rcases creating_step hstep hplan with ⟨hbefore, hl⟩ | ⟨job, rfl, rfl, hsweeps, hplanned⟩
  · exact (hs.unwritten id plan hbefore).step hs hbefore hstep hl
  · exact .new hstep hsweeps hplanned

end Runs

/-! ## Jobs that have succeeded -/

section Succeeded

variable {job : Job}

lemma Finished.step (hs : Sound s) (hjob : job ∈ s.jobs) (hsucceeded : job.status = .succeeded)
    (h : Finished s job) (hstep : Step s l t) : Finished t job where
  idle := by
    refine runs_step hstep ?_ h.idle
    intro hclaim
    cases hstep with
    | @claim next blocked hup hnext =>
      have hid : next.id = job.id := Label.claim.inj hclaim
      have heq : next = job := hs.queue.keyed.eq_of_key hnext.1 hjob hid
      subst heq
      rw [hnext.2.1.1] at hsucceeded
      cases hsucceeded
    | _ => cases hclaim
  failed := h.failed
  complete := by
    intro c hc hid
    rcases (rows_step hstep).block hc with ⟨d, hd, hblock⟩ | ⟨id', plan, _, hplan, hmem⟩
    · have hd' : d.jobID = job.id := (congrArg Prod.fst hblock.1).symm.trans hid
      unfold Chunk.Complete
      rw [hblock.1, hblock.2]
      exact (h.complete d hd hd').mono (done_step hstep)
    · have hid' : c.jobID = id' := ((hs.unwritten id' plan hplan).planned.1 c hmem).1
      rw [← hid', hid] at hplan
      exact absurd hplan (h.created plan)
  created := by
    intro plan hplan
    rcases creating_step hstep hplan with ⟨hbefore, _⟩ | ⟨new, rfl, hid, _, _⟩
    · exact h.created plan hbefore
    · cases hstep with
      | create operation bounded createdAt totalTiles hnew hfresh =>
        exact hfresh.1 job hjob hid.symm

variable {r : Run} {b : Bool}

/-- A run that ends without a failure, a cancellation or an interruption has processed every tile. -/
lemma Tracks.complete (h : Tracks s id r)
    (hclosing : r.phase = .closing b) (hcancelled : r.cancelled = false)
    (hinterrupted : r.interrupted = false) (hfailed : r.failed = 0) :
    ∀ c ∈ s.rows, c.jobID = id → c.Complete s.done := by
  intro c hc hjob
  rcases h.covers c hc hjob with ⟨x, hx, hid⟩ | hcomplete
  · have hend : x.chunk.total ≤ x.chunk.nextOffset := by
      rcases (h.chunks x hx).finished (h.closed b hclosing x hx) with hc | hi | hend
      · rw [hcancelled] at hc
        cases hc
      · rw [hinterrupted] at hi
        cases hi
      · exact hend
    intro o h0 ho
    rw [(h.chunks x hx).agrees c hc hid.symm] at ho
    rw [← hid]
    exact (h.chunks x hx).below hfailed o h0 (lt_of_lt_of_le ho hend)
  · exact hcomplete

lemma Run.conclusion_succeeded (h : (r.conclusion b).status = some .succeeded) :
    r.cancelled = false ∧ r.failed ≤ 0 ∧ r.conclusion b = r.update .succeeded [] := by
  unfold Run.conclusion at h ⊢
  split at h
  · cases h
  rename_i hcancelled
  split at h
  · cases h
  rename_i hfailed
  rw [if_neg hcancelled, if_neg hfailed]
  exact ⟨by simpa using (not_or.mp hcancelled).1, not_lt.mp hfailed, rfl⟩

/-- The row that a worker has written. -/
lemma of_mem_updateJob {u} {written : Bool}
    (h : job ∈ (s.updateJob id u written).jobs) (hnew : job ∉ s.jobs) :
    ∃ old ∈ s.jobs, old.id = id ∧ job = u.apply old := by
  cases written with
  | false => exact absurd h hnew
  | true =>
    rcases of_mem_update h with ⟨hold, _⟩ | ⟨old, hold, hid, rfl⟩
    · exact absurd hold hnew
    · exact ⟨old, hold, hid, rfl⟩

lemma Sound.succeeded_step (hs : Sound s) (hstep : Step s l t) :
    ∀ job ∈ t.jobs, job.status = .succeeded → Finished t job := by
  intro job hjob hsucceeded
  by_cases hbefore : job ∈ s.jobs
  · exact (hs.succeeded job hbefore hsucceeded).step hs hbefore hsucceeded hstep
  have hl := ((jobs_step hstep).succeeded hjob hsucceeded).resolve_left hbefore
  cases hstep with
  | @sweep id r entries written hrun hphase hsweeps hrows =>
    rcases of_mem_updateJob hjob hbefore with ⟨old, hold, rfl, rfl⟩
    have hfresh := (hs.runs old.id r hrun).early (.inr hphase)
    refine ⟨State.runs_setRun _ _ _, hfresh.jobs old hold rfl, ?_, ?_⟩
    · intro c hc hid
      have hc : c ∈ rowsOf old.id s.rows := by
        simpa [rowsOf] using ⟨hc, hid⟩
      rw [hrows] at hc
      cases hc
    · intro plan hplan
      have hfalse := ((hs.unwritten old.id plan hplan).runs r hrun).1
      rw [hsweeps] at hfalse
      cases hfalse
  | @conclude id r b written hrun hclosing hinterrupted =>
    rcases of_mem_updateJob hjob hbefore with ⟨old, hold, rfl, rfl⟩
    have hlate : ¬ r.Early := by simp [Run.Early, hclosing]
    have hsound := hs.runs old.id r hrun
    have htracks := hsound.late hlate
    have hstatus : (r.conclusion b).status = some .succeeded := by
      rcases r.conclusion_status b with ⟨_, status, hstatus, _⟩
      rw [JobUpdate.apply_status hstatus] at hsucceeded
      rw [hstatus, hsucceeded]
    rcases Run.conclusion_succeeded hstatus with ⟨hcancelled, hfailed, hupdate⟩
    have hzero : r.failed = 0 := le_antisymm hfailed htracks.counted
    refine ⟨State.runs_setRun _ _ _, ?_, htracks.complete hclosing hcancelled hinterrupted hzero, ?_⟩
    · rw [hupdate]
      show r.job.failedTiles + r.failed = 0
      rw [hsound.clean, hzero]
      rfl
    · intro plan hplan
      exact hlate ((hs.unwritten old.id plan hplan).runs r hrun).2
  | interrupted => exact absurd hjob hbefore
  | _ => rcases hl with hl | hl <;> cases hl

end Succeeded

lemma Sound.step (hs : Sound s) (hstep : Step s l t)
    (hold : NoOldFailure s l t) : Sound t where
  queue := hs.queue.step hstep
  keyed := (rows_step hstep).keyed hs
  honest := (rows_step hstep).honest hs
  unwritten := hs.unwritten_step hstep
  runs := hs.runs_step hstep hold
  succeeded := hs.succeeded_step hstep

lemma sound_of_reachable {s : State} (h : (machine.restrict NoOldFailure).Reachable s) : Sound s := by
  refine Machine.Reachable.induct ?_ ?_ h
  · rintro s rfl
    refine ⟨queue_of_reachable (.init rfl), nodup_nil, ?_, ?_, ?_, ?_⟩
    · intro c hc
      exact absurd hc not_mem_nil
    · rintro id plan ⟨⟩
    · rintro id r ⟨⟩
    · intro job hjob
      exact absurd hjob not_mem_nil
  · intro s l t _ hs hstep
    exact hs.step hstep.1 hstep.2

/-- A job that has ended has processed every tile and counts no failure, or it has failed or was
cancelled. -/
theorem succeeded_complete {s : State} (h : (machine.restrict NoOldFailure).Reachable s) :
    ∀ job ∈ s.jobs, job.status.isTerminal = true →
      ((∀ c ∈ rowsOf job.id s.rows, ∀ o, 0 ≤ o → o < c.total → (c.id, o) ∈ s.done) ∧
        job.failedTiles = 0) ∨ job.status = .failed ∨ job.status = .cancelled := by
  intro job hjob hend
  have hs := sound_of_reachable h
  cases hstatus : job.status with
  | succeeded =>
    have hfinished := hs.succeeded job hjob hstatus
    left
    refine ⟨?_, hfinished.failed⟩
    intro c hc
    have hrow := mem_filter.mp hc
    exact hfinished.complete c hrow.1 (by simpa using hrow.2)
  | failed => exact .inr (.inl rfl)
  | cancelled => exact .inr (.inr rfl)
  | _ =>
    rw [hstatus] at hend
    cases hend

def oneTile : Chunk := { twoTiles with maxCol := 0 }

/-- A job of one tile that is stored. -/
theorem seeded_complete :
    ∃ s, (machine.restrict NoOldFailure).Reachable s ∧
      ∃ job ∈ s.jobs, job.status = .succeeded ∧ rowsOf job.id s.rows ≠ [] ∧
        ∀ c ∈ rowsOf job.id s.rows, ∀ o, 0 ≤ o → o < c.total → (c.id, o) ∈ s.done := by
  have h : (machine.restrict NoOldFailure).Reachable State.empty := .init rfl
  have h := next h (.restart rfl) nofun
  have h := next h (l := .create seeding) (.create .seed true 0 2 rfl ⟨fun _ => nofun, rfl, rfl, rfl⟩
    (planned_single (c := oneTile) ⟨rfl, rfl⟩)) nofun
  have h := next h (l := .replaceChunks ['j']) (.replaceChunks true true rfl fun _ => rfl) nofun
  have h := next h (.claim false rfl (isNext_single (by decide)) rfl) (by
    intro id hid
    refine ⟨?_, ?_⟩
    · intro job hjob _
      rw [mem_singleton.mp hjob]
      rfl
    · intro c hc _ o h0 ho
      rw [mem_singleton.mp hc] at ho
      exact absurd (lt_of_le_of_lt h0 ho) (lt_irrefl 0))
  have h := next h (l := .list ['j']) (.list rfl rfl (cons_ne_nil _ _)) nofun
  have h := next h (l := .startChunk ['j']) (.startChunk true rfl rfl mem_cons_self rfl) nofun
  have h := next h (l := .tile ['j'] .stored) (.tile _ rfl rfl mem_cons_self rfl (by decide)) nofun
  have h := next h (l := .saveChunk ['j']) (.saveChunk true rfl rfl mem_cons_self rfl) nofun
  have h := next h (l := .progress ['j'] true) (.progress _ rfl rfl mem_cons_self rfl) nofun
  have h := next h (l := .endChunk ['j']) (.endChunk true rfl rfl mem_cons_self rfl (by decide)) nofun
  have h := next h (l := .close ['j']) (.close false rfl rfl (by decide) nofun) nofun
  have h := next h (l := .conclude ['j']) (.conclude true rfl rfl rfl) nofun
  rcases succeeded_complete h _ (mem_singleton_self _) rfl with ⟨hcomplete, _⟩ | hfailed | hcancelled
  · exact ⟨_, h, _, mem_singleton_self _, rfl, by decide, hcomplete⟩
  · cases hfailed
  · cases hcancelled

/-- The first tile fails, then the process ends. In the next run the second tile is stored. -/
theorem succeeded_with_failure :
    ∃ s, machine.Reachable s ∧ ∃ job ∈ s.jobs, job.status = .succeeded ∧ job.failedTiles = 1 ∧
      ∃ c ∈ rowsOf job.id s.rows, 0 < c.total ∧ (c.id, 0) ∉ s.done := by
  have h : machine.Reachable State.empty := .init rfl
  have h := go h (.restart rfl)
  have h := go h (l := .create seeding) (.create .seed true 0 2 rfl ⟨fun _ => nofun, rfl, rfl, rfl⟩
    (planned_single (c := twoTiles) ⟨rfl, rfl⟩))
  have h := go h (l := .replaceChunks ['j']) (.replaceChunks true true rfl fun _ => rfl)
  have h := go h (.claim false rfl (isNext_single (by decide)) rfl)
  have h := go h (l := .list ['j']) (.list rfl rfl (cons_ne_nil _ _))
  have h := go h (l := .startChunk ['j']) (.startChunk true rfl rfl mem_cons_self rfl)
  have h := go h (l := .tile ['j'] (.failed [])) (.tile _ rfl rfl mem_cons_self rfl (by decide))
  have h := go h (l := .saveChunk ['j']) (.saveChunk true rfl rfl mem_cons_self rfl)
  have h := go h (l := .progress ['j'] true) (.progress _ rfl rfl mem_cons_self rfl)
  have h := go (go h .exit) (.restart rfl)
  have h := go h (.claim false rfl (isNext_single (by decide)) rfl)
  have h := go h (l := .list ['j']) (.list rfl rfl (cons_ne_nil _ _))
  have h := go h (l := .startChunk ['j']) (.startChunk true rfl rfl mem_cons_self rfl)
  have h := go h (l := .tile ['j'] .stored) (.tile _ rfl rfl mem_cons_self rfl (by decide))
  have h := go h (l := .saveChunk ['j']) (.saveChunk true rfl rfl mem_cons_self rfl)
  have h := go h (l := .progress ['j'] true) (.progress _ rfl rfl mem_cons_self rfl)
  have h := go h (l := .endChunk ['j']) (.endChunk true rfl rfl mem_cons_self rfl (by decide))
  have h := go h (l := .close ['j']) (.close false rfl rfl (by decide) nofun)
  have h := go h (l := .conclude ['j']) (.conclude true rfl rfl rfl)
  exact ⟨_, h, _, mem_singleton_self _, rfl, rfl, _, mem_singleton_self _, by decide, by decide⟩

end NeoServer.Tilejobs
