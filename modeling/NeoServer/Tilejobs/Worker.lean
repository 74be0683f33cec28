import Mathlib
import NeoServer.Machine
import NeoServer.Tilejobs.Jobs

/-!
# Tilejobs.Worker — the workers and the process

A worker claims a job, and its chunks are processed at the same time, each tile by tile. After
every tile the chunk and then the job are written. Errors of these writes are ignored: a write
may be lost. The process may be asked to stop, which the chunks see before their next tile, and
it may end at any time; when it starts again, the jobs that were running are put back.

- `Run`, `ChunkRun` : a job in flight, and a chunk of it,
- `State` : the tables, the jobs in flight, and which tiles have been processed,
- `Step` : what happens.
-/

namespace NeoServer.Tilejobs

open List Table

/-- Where `runChunk` is. -/
inductive ChunkPhase
  | waiting
  | head
  -- the tile has been processed; then the chunk has been written
  | processed
  | saved
  | finished
deriving DecidableEq, Repr

structure ChunkRun where
  chunk : Chunk
  phase : ChunkPhase
deriving DecidableEq, Repr

def ChunkRun.id (x : ChunkRun) : Chunk.ID := x.chunk.id

/-- Where `run` is. -/
inductive RunPhase
  -- `claimNext` has found the resource quiesced
  | blocked
  | starting
  | working
  -- the chunks are finished; whether a cancellation was seen then
  | closing (cancelRequested : Bool)
deriving DecidableEq, Repr

/-- A job in flight, as it was claimed, with the counters of this run. -/
structure Run where
  job : Job
  phase : RunPhase
  chunks : List ChunkRun
  processed : Int
  succeeded : Int
  skipped : Int
  failed : Int
  cancelled : Bool
  interrupted : Bool
deriving DecidableEq, Repr

def newRun (job : Job) (blocked : Bool) : Run where
  job := job
  phase := if blocked then .blocked else .starting
  chunks := []
  processed := 0
  succeeded := 0
  skipped := 0
  failed := 0
  cancelled := false
  interrupted := false

/-- The counters of the earlier runs, and of this one. -/
def Run.update (r : Run) (status : JobStatus) (message : Str) : JobUpdate where
  status := some status
  processedTiles := some (r.job.processedTiles + r.processed)
  succeededTiles := some (r.job.succeededTiles + r.succeeded)
  skippedTiles := some (r.job.skippedTiles + r.skipped)
  failedTiles := some (r.job.failedTiles + r.failed)
  errorMessage := some message

inductive TileResult
  | stored
  | skipped
  | failed (message : Str)
deriving DecidableEq, Repr

def Run.count (r : Run) : TileResult → Run
  | .stored => { r with processed := r.processed + 1, succeeded := r.succeeded + 1 }
  | .skipped => { r with processed := r.processed + 1, skipped := r.skipped + 1 }
  | .failed _ => { r with processed := r.processed + 1, failed := r.failed + 1 }

def Chunk.advance (c : Chunk) : TileResult → Chunk
  | .failed message => { c with nextOffset := c.nextOffset + 1, attempts := c.attempts + 1,
                                lastError := message }
  | _ => { c with nextOffset := c.nextOffset + 1 }

def Run.setChunk (r : Run) (x : ChunkRun) : Run :=
  { r with chunks := put ChunkRun.id x r.chunks }

/-- The last update of a run that was not interrupted. -/
def Run.conclusion (r : Run) (cancelRequested : Bool) : JobUpdate :=
  if r.cancelled = true ∨ cancelRequested = true then { status := some .cancelled }
  else if 0 < r.failed then r.update .failed "one or more tiles failed"
  else r.update .succeeded []

/-- A request that creates a job: the chunks are to be written, or writing them has failed. -/
inductive Creation
  | planned (chunks : List Chunk)
  | failed
deriving DecidableEq, Repr

structure State where
  jobs : List Job
  rows : List Chunk
  creating : Str → Option Creation
  runs : Str → Option Run
  up : Bool
  stopping : Bool
  -- the tiles that have been processed without an error, in any run
  done : List (Chunk.ID × Int)

def State.empty : State where
  jobs := []
  rows := []
  creating _ := none
  runs _ := none
  up := false
  stopping := false
  done := []

namespace State

variable (s : State)

def setRun (id : Str) (r : Option Run) : State :=
  { s with runs := Function.update s.runs id r }

lemma runs_setRun (id : Str) (r : Option Run) : (s.setRun id r).runs id = r := by
  simp [setRun]

/-- A write that may be lost. -/
def updateJob (id : Str) (u : JobUpdate) (written : Bool) : State :=
  { s with jobs := if written then UpdateTileCacheJob id u s.jobs else s.jobs }

def updateChunk (c : Chunk) (written : Bool) : State :=
  { s with rows := if written then UpdateTileCacheJobChunk c s.rows else s.rows }

def CancelRequested (id : Str) : Prop :=
  ∃ job ∈ s.jobs, job.id = id ∧ job.cancelRequested = true

/-- The state after a step of a chunk: the chunk is now `x`, and it is written. -/
def chunkStep (id : Str) (r : Run) (x : ChunkRun) (written : Bool) : State :=
  (s.setRun id (some (r.setChunk x))).updateChunk x.chunk written

end State

/-- What the plan of a new job looks like. -/
def Planned (id : Str) (plan : List Chunk) : Prop :=
  (∀ c ∈ plan, c.jobID = id ∧ c.nextOffset = 0 ∧ c.status = .queued) ∧ Table.Keyed Chunk.id plan

inductive Label
  | create (job : Job)
  | replaceChunks (id : Str)
  | createFailed (id : Str)
  | cancel (p : Job → Bool)
  | purge (p : Job → Bool)
  | claim (id : Str)
  | refuse (id : Str)
  | giveUp (id : Str)
  | sweep (id : Str)
  | list (id : Str)
  | startChunk (id : Str)
  | interrupt (id : Str)
  | cancelChunk (id : Str)
  | tile (id : Str) (result : TileResult)
  | saveChunk (id : Str)
  | progress (id : Str) (written : Bool)
  | endChunk (id : Str)
  | close (id : Str)
  | conclude (id : Str)
  | shutdown
  | exit
  | restart

/-- Steps of the workers and of the process, and not of a request. -/
def Label.isWorker : Label → Bool
  | .create _ | .replaceChunks _ | .createFailed _ | .cancel _ | .purge _ => false
  | _ => true

inductive Step : State → Label → State → Prop
  -- `Create`: the job first, then its chunks
  | create {s : State} {job : Job} {plan} (operation : Operation) (bounded : Bool)
      (createdAt totalTiles : Int) (hjob : job = newJob job.id operation bounded createdAt totalTiles)
      (hfresh : (∀ other ∈ s.jobs, other.id ≠ job.id) ∧ rowsOf job.id s.rows = [] ∧
        s.runs job.id = none ∧ s.creating job.id = none)
      (hplan : Planned job.id plan) :
      Step s (.create job)
        { s with jobs := job :: s.jobs,
                 creating := if job.sweeps then s.creating
                   else Function.update s.creating job.id (some (.planned plan)) }
  | replaceChunks {s : State} {id plan} (written reported : Bool)
      (hplan : s.creating id = some (.planned plan)) (hreported : reported = true → written = true) :
      Step s (.replaceChunks id)
        { s with rows := if written then ReplaceTileCacheJobChunks id plan s.rows else s.rows,
                 creating := Function.update s.creating id (if reported then none else some .failed) }
  | createFailed {s : State} {id} (message : Str) (written : Bool)
      (hfailed : s.creating id = some .failed) :
      Step s (.createFailed id)
        { s.updateJob id { status := some .failed, errorMessage := some message } written with
          creating := Function.update s.creating id none }
  -- `Cancel` and `QuiesceLifecycle`
  | cancel {s : State} (p : Job → Bool) :
      Step s (.cancel p) { s with jobs := cancelJobs p s.jobs }
  | purge {s : State} (p : Job → Bool)
      (hdone : ∀ job ∈ s.jobs, p job = true → job.status.isTerminal = true) :
      Step s (.purge p)
        { s with jobs := purgeLifecycleJobs p s.jobs, rows := purgeChunks p s.jobs s.rows }
  -- `claimNext`
  | claim {s : State} {job : Job} (blocked : Bool) (hup : s.up = true) (hnext : IsNext s.jobs job)
      (hidle : s.runs job.id = none) :
      Step s (.claim job.id)
        ({ s with jobs := ClaimNextTileCacheJob job.id s.jobs }.setRun job.id
          (some (newRun job.claim blocked)))
  | refuse {s : State} {id} {r : Run} (written : Bool) (hrun : s.runs id = some r)
      (hphase : r.phase = .blocked) :
      Step s (.refuse id) ((s.updateJob id { status := some .cancelled } written).setRun id none)
  -- `run`: `finishFailed`, a truncation without chunks, or the chunks that are left
  | giveUp {s : State} {id} {r : Run} (message : Str) (written : Bool)
      (hrun : s.runs id = some r) (hphase : r.phase = .starting) :
      Step s (.giveUp id)
        ((s.updateJob id { status := some .failed, errorMessage := some message } written).setRun id
          none)
  | sweep {s : State} {id} {r : Run} (entries : Int) (written : Bool)
      (hrun : s.runs id = some r) (hphase : r.phase = .starting) (hsweeps : r.job.sweeps = true)
      (hrows : rowsOf id s.rows = []) :
      Step s (.sweep id)
        ((s.updateJob id { status := some .succeeded, totalTiles := some entries,
                           processedTiles := some entries, succeededTiles := some entries }
          written).setRun id none)
  | list {s : State} {id} {r : Run} (hrun : s.runs id = some r) (hphase : r.phase = .starting)
      (hrows : rowsOf id s.rows ≠ []) :
      Step s (.list id)
        (s.setRun id (some { r with
          phase := .working
          chunks := ((rowsOf id s.rows).filter fun c => c.status ≠ .succeeded).map
            fun c => ⟨c, .waiting⟩ }))
  -- `runChunk`
  | startChunk {s : State} {id} {r : Run} {x : ChunkRun} (written : Bool)
      (hrun : s.runs id = some r) (hworking : r.phase = .working) (hx : x ∈ r.chunks)
      (hphase : x.phase = .waiting) :
      Step s (.startChunk id)
        (s.chunkStep id r ⟨{ x.chunk with status := .running }, .head⟩ written)
  | interrupt {s : State} {id} {r : Run} {x : ChunkRun} (written : Bool)
      (hrun : s.runs id = some r) (hworking : r.phase = .working) (hx : x ∈ r.chunks)
      (hphase : x.phase = .head) (hmore : x.chunk.nextOffset < x.chunk.total)
      (hstopping : s.stopping = true) :
      Step s (.interrupt id)
        (s.chunkStep id { r with interrupted := true } ⟨{ x.chunk with status := .queued }, .finished⟩
          written)
  | cancelChunk {s : State} {id} {r : Run} {x : ChunkRun} (written : Bool)
      (hrun : s.runs id = some r) (hworking : r.phase = .working) (hx : x ∈ r.chunks)
      (hphase : x.phase = .head) (hmore : x.chunk.nextOffset < x.chunk.total)
      (hcancel : s.CancelRequested id) :
      Step s (.cancelChunk id)
        (s.chunkStep id { r with cancelled := true }
          ⟨{ x.chunk with status := .cancelled }, .finished⟩ written)
  | tile {s : State} {id} {r : Run} {x : ChunkRun} (result : TileResult)
      (hrun : s.runs id = some r) (hworking : r.phase = .working) (hx : x ∈ r.chunks)
      (hphase : x.phase = .head) (hmore : x.chunk.nextOffset < x.chunk.total) :
      Step s (.tile id result)
        { s.setRun id (some ((r.count result).setChunk ⟨x.chunk.advance result, .processed⟩)) with
          done := match result with
            | .failed _ => s.done
            | _ => (x.id, x.chunk.nextOffset) :: s.done }
  | saveChunk {s : State} {id} {r : Run} {x : ChunkRun} (written : Bool)
      (hrun : s.runs id = some r) (hworking : r.phase = .working) (hx : x ∈ r.chunks)
      (hphase : x.phase = .processed) :
      Step s (.saveChunk id) (s.chunkStep id r ⟨x.chunk, .saved⟩ written)
  | progress {s : State} {id} {r : Run} {x : ChunkRun} (written : Bool)
      (hrun : s.runs id = some r) (hworking : r.phase = .working) (hx : x ∈ r.chunks)
      (hphase : x.phase = .saved) :
      Step s (.progress id written)
        ((s.updateJob id (r.update .running []) written).setRun id (some (r.setChunk ⟨x.chunk, .head⟩)))
  | endChunk {s : State} {id} {r : Run} {x : ChunkRun} (written : Bool)
      (hrun : s.runs id = some r) (hworking : r.phase = .working) (hx : x ∈ r.chunks)
      (hphase : x.phase = .head) (hend : x.chunk.total ≤ x.chunk.nextOffset) :
      Step s (.endChunk id)
        (s.chunkStep id r ⟨{ x.chunk with status := .succeeded }, .finished⟩ written)
  -- the end of `run`
  | close {s : State} {id} {r : Run} (cancelRequested : Bool) (hrun : s.runs id = some r)
      (hworking : r.phase = .working) (hfinished : ∀ x ∈ r.chunks, x.phase = .finished)
      (hcancel : cancelRequested = true → s.CancelRequested id) :
      Step s (.close id) (s.setRun id (some { r with phase := .closing cancelRequested }))
  | interrupted {s : State} {id} {r : Run} {cancelRequested} (hrun : s.runs id = some r)
      (hclosing : r.phase = .closing cancelRequested) (hinterrupted : r.interrupted = true) :
      Step s (.conclude id) (s.setRun id none)
  | conclude {s : State} {id} {r : Run} {cancelRequested} (written : Bool)
      (hrun : s.runs id = some r) (hclosing : r.phase = .closing cancelRequested)
      (hinterrupted : r.interrupted = false) :
      Step s (.conclude id) ((s.updateJob id (r.conclusion cancelRequested) written).setRun id none)
  -- the process
  | shutdown {s} : Step s .shutdown { s with stopping := true }
  | exit {s} :
      Step s .exit { s with up := false, stopping := false, runs := fun _ => none,
                            creating := fun _ => none }
  | restart {s : State} (hdown : s.up = false) :
      Step s .restart { s with up := true, runs := fun _ => none, creating := fun _ => none,
                               jobs := ResetInterruptedTileCacheJobs s.jobs,
                               rows := resetChunks s.rows }

def machine : Machine State Label where
  init s := s = State.empty
  step := Step

/-! ## What a step does to the jobs -/

/-- A status that the workers and `Create` set. Only the progress of a tile sets `running`. -/
def Sets (l : Label) (id : Str) : JobStatus → Prop
  | .running => l = .progress id true
  | .succeeded => l = .sweep id ∨ l = .conclude id
  | .cancelled => True
  | .failed => True
  | .queued => False
  | .cancelling => False

/-- The jobs after a step. -/
inductive JobsStep (s : State) (l : Label) : List Job → Prop
  | same : JobsStep s l s.jobs
  | create {job : Job} (hl : l = .create job) (hstatus : job.status = .queued)
      (hcancel : job.cancelRequested = false) (hfresh : ∀ other ∈ s.jobs, other.id ≠ job.id)
      (hidle : s.runs job.id = none) : JobsStep s l (job :: s.jobs)
  | update {id} {u : JobUpdate} {status} (hstatus : u.status = some status)
      (hsets : Sets l id status) (hcancel : u.cancelRequested = none)
      (howner : s.runs id = none → l = .createFailed id)
      (hfailed : u.failedTiles = none ∨ l = .progress id true ∨ l = .conclude id) :
      JobsStep s l (UpdateTileCacheJob id u s.jobs)
  | cancel (p : Job → Bool) (hl : l = .cancel p) : JobsStep s l (cancelJobs p s.jobs)
  | purge (p : Job → Bool) (hl : l = .purge p) : JobsStep s l (purgeLifecycleJobs p s.jobs)
  | claim {job : Job} (hl : l = .claim job.id) (hnext : IsNext s.jobs job) :
      JobsStep s l (ClaimNextTileCacheJob job.id s.jobs)
  | reset (hl : l = .restart) : JobsStep s l (ResetInterruptedTileCacheJobs s.jobs)

variable {s : State} {l : Label} {id : Str} {t : State}

/-- A worker writes the job it has in flight, or the write is lost. -/
lemma JobsStep.written {u} (status : JobStatus)
    (hstatus : u.status = some status) (hcancel : u.cancelRequested = none) {r : Run}
    (hrun : s.runs id = some r) (written : Bool)
    (hfailed : u.failedTiles = none ∨ l = .progress id written ∨ l = .conclude id)
    (hsets : written = true → Sets l id status) :
    JobsStep s l (if written = true then UpdateTileCacheJob id u s.jobs else s.jobs) := by
  cases written with
  | true =>
    refine .update hstatus (hsets rfl) hcancel ?_ hfailed
    intro hnone
    rw [hrun] at hnone
    cases hnone
  | false => exact .same

lemma Run.conclusion_status (r : Run) (cancelRequested : Bool) :
    (r.conclusion cancelRequested).cancelRequested = none ∧
    ∃ status, (r.conclusion cancelRequested).status = some status ∧
      (status = .cancelled ∨ status = .failed ∨ status = .succeeded) := by
  unfold Run.conclusion
  split
  · exact ⟨rfl, _, rfl, .inl rfl⟩
  · split
    · exact ⟨rfl, _, rfl, .inr (.inl rfl)⟩
    · exact ⟨rfl, _, rfl, .inr (.inr rfl)⟩

lemma jobs_step (h : Step s l t) : JobsStep s l t.jobs := by
  cases h with
  | create operation bounded createdAt totalTiles hjob hfresh =>
    refine .create rfl ?_ ?_ hfresh.1 hfresh.2.2.1
    · rw [hjob]
      rfl
    · rw [hjob]
      rfl
  | createFailed message written =>
    cases written with
    | true => exact .update rfl trivial rfl (fun _ => rfl) (.inl rfl)
    | false => exact .same
  | cancel p => exact .cancel p rfl
  | purge p => exact .purge p rfl
  | claim blocked hup hnext => exact .claim rfl hnext
  | refuse written hrun => exact .written .cancelled rfl rfl hrun written (.inl rfl) fun _ => trivial
  | giveUp message written hrun => exact .written .failed rfl rfl hrun written (.inl rfl) fun _ => trivial
  | sweep entries written hrun =>
    exact .written .succeeded rfl rfl hrun written (.inl rfl) fun _ => .inl rfl
  | progress written hrun =>
    refine .written .running rfl rfl hrun written (.inr (.inl rfl)) ?_
    rintro rfl
    rfl
  | @conclude id r cancelRequested written hrun =>
    rcases r.conclusion_status cancelRequested with ⟨hcancel, status, hstatus, hend⟩
    refine .written status hstatus hcancel hrun written (.inr (.inr rfl)) fun _ => ?_
    rcases hend with rfl | rfl | rfl
    · trivial
    · trivial
    · exact .inr rfl
  | restart => exact .reset rfl
  | _ => exact .same

/-! ## A job that may be claimed is not in flight -/

lemma update_runs_eq_none {runs : Str → Option Run} {id id' : Str} {r : Run} (h : runs id' = some r)
    (hidle : runs id = none) (v : Option Run) : Function.update runs id' v id = none := by
  have hne : id ≠ id' := by
    rintro rfl
    rw [h] at hidle
    cases hidle
  rw [Function.update_of_ne hne]
  exact hidle

/-- Only a claim puts a job in flight. -/
lemma runs_step (h : Step s l t) (hl : l ≠ .claim id)
    (hidle : s.runs id = none) : t.runs id = none := by
  cases h with
  | @claim job =>
    have hne : id ≠ job.id := fun heq => hl (congrArg Label.claim heq.symm)
    exact (Function.update_of_ne hne _ _).trans hidle
  | refuse written hrun | giveUp message written hrun | sweep entries written hrun | list hrun
  | startChunk written hrun | interrupt written hrun | cancelChunk written hrun
  | tile result hrun | saveChunk written hrun | progress written hrun | endChunk written hrun
  | close cancelRequested hrun | interrupted hrun | conclude written hrun =>
    exact update_runs_eq_none hrun hidle _
  | exit | restart => rfl
  | _ => exact hidle

/-- Jobs have identifiers of their own, and none that is queued is in flight. -/
structure Queue (s : State) : Prop where
  keyed : Table.Keyed Job.id s.jobs
  idle : ∀ job ∈ s.jobs, job.status = .queued → s.runs job.id = none

lemma Job.reset_id (job : Job) : job.reset.id = job.id := by
  unfold Job.reset
  split <;> rfl

lemma JobsStep.keyed {jobs} (h : JobsStep s l jobs)
    (hkeyed : Table.Keyed Job.id s.jobs) : Table.Keyed Job.id jobs := by
  cases h with
  | same => exact hkeyed
  | @create job hl hstatus hcancel hfresh =>
    refine nodup_cons.mpr ⟨?_, hkeyed⟩
    intro hmem
    rcases mem_map.mp hmem with ⟨other, hother, hid⟩
    exact hfresh other hother hid
  | update | cancel | claim => exact hkeyed.update fun _ => rfl
  | purge => exact hkeyed.filter _
  | reset => exact hkeyed.map Job.reset_id

/-- A job that is queued after a step was queued, or is new, or has been put back. -/
lemma JobsStep.queued {jobs} (h : JobsStep s l jobs) {job : Job}
    (hjob : job ∈ jobs) (hqueued : job.status = .queued) :
    job ∈ s.jobs ∨ s.runs job.id = none ∨ l = .restart := by
  cases h with
  | same => exact .inl hjob
  | create hl hstatus hcancel hfresh hidle =>
    rcases mem_cons.mp hjob with rfl | hjob
    · exact .inr (.inl hidle)
    · exact .inl hjob
  | update hstatus hsets =>
    rcases of_mem_update hjob with ⟨hold, _⟩ | ⟨old, _, _, rfl⟩
    · exact .inl hold
    · rw [JobUpdate.apply_status hstatus] at hqueued
      rw [hqueued] at hsets
      exact hsets.elim
  | cancel =>
    rcases of_mem_update hjob with ⟨hold, _⟩ | ⟨old, _, _, rfl⟩
    · exact .inl hold
    · exact absurd hqueued old.requestCancel_status
  | purge => exact .inl (mem_filter.mp hjob).1
  | claim =>
    rcases of_mem_update hjob with ⟨hold, _⟩ | ⟨old, _, _, rfl⟩
    · exact .inl hold
    · cases hqueued
  | reset hl => exact .inr (.inr hl)

/-- The job that is claimed is running then. -/
lemma Queue.not_queued_of_claim (hq : Queue s) {next job : Job}
    (hnext : IsNext s.jobs next) (hjob : job ∈ ClaimNextTileCacheJob next.id s.jobs)
    (hid : job.id = next.id) : job.status ≠ .queued := by
  rcases of_mem_update hjob with ⟨hold, hne⟩ | ⟨old, _, _, rfl⟩
  · have heq : job = next := hq.keyed.eq_of_key hold hnext.1 hid
    subst heq
    exact absurd ⟨rfl, hnext.2.1⟩ hne
  · exact nofun

lemma Queue.step (hq : Queue s) (hstep : Step s l t) : Queue t := by
  have hjobs := jobs_step hstep
  refine ⟨hjobs.keyed hq.keyed, ?_⟩
  intro job hjob hqueued
  by_cases hclaim : l = .claim job.id
  · cases hstep with
    | @claim next blocked hup hnext =>
      have hid : job.id = next.id := (Label.claim.inj hclaim).symm
      exact absurd hqueued (hq.not_queued_of_claim hnext hjob hid)
    | _ => cases hclaim
  · rcases hjobs.queued hjob hqueued with hbefore | hidle | hrestart
    · exact runs_step hstep hclaim (hq.idle job hbefore hqueued)
    · exact runs_step hstep hclaim hidle
    · cases hstep with
      | restart => rfl
      | _ => cases hrestart

lemma queue_of_reachable (h : machine.Reachable s) : Queue s := by
  refine Machine.Reachable.induct ?_ ?_ h
  · rintro s rfl
    refine ⟨nodup_nil, ?_⟩
    intro job hjob
    exact absurd hjob not_mem_nil
  · intro s l t _ hs hstep
    exact hs.step hstep

/-! ## One job with one chunk -/

lemma isNext_single (h : job.Claimable) : IsNext [job] job := by
  refine ⟨mem_singleton_self job, h, ?_⟩
  intro other hother _
  rw [mem_singleton.mp hother]
  exact .inr ⟨rfl, le_rfl⟩

lemma planned_single {c : Chunk} (h : c.nextOffset = 0 ∧ c.status = .queued) :
    Planned c.jobID [c] := by
  refine ⟨?_, nodup_singleton _⟩
  intro d hd
  rw [mem_singleton.mp hd]
  exact ⟨rfl, h⟩

/-- One more step of a run, if only some steps are restricted. -/
lemma next {P : State → Label → State → Prop} (h : (machine.restrict P).Reachable s)
    (hstep : Step s l t) (hP : P s l t) : (machine.restrict P).Reachable t :=
  h.step ⟨hstep, hP⟩

lemma go (h : machine.Reachable s) (hstep : Step s l t) : machine.Reachable t := h.step hstep

end NeoServer.Tilejobs
