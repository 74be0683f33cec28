import Mathlib
import NeoServer.Table
import NeoServer.Text

/-!
# Tilejobs.Jobs — the tables of the tile jobs

A job and its chunks are rows of two tables. Every function here is one statement, or one
transaction, of the store. The statements that the workers, the management API and the start of
the server send know nothing of each other.

- `ClaimNextTileCacheJob`, `UpdateTileCacheJob`, `cancelJobs`, `ResetInterruptedTileCacheJobs`,
  `purgeLifecycleJobs` : the jobs,
- `ReplaceTileCacheJobChunks`, `UpdateTileCacheJobChunk`, `resetChunks` : the chunks.
-/

namespace NeoServer.Tilejobs

inductive Operation
  | seed | reseed | truncate
deriving DecidableEq, Repr

inductive JobStatus
  | queued | running | cancelling | cancelled | succeeded | failed
deriving DecidableEq, Repr

/-- The job will not be worked on any more. -/
def JobStatus.isTerminal : JobStatus → Bool
  | .cancelled | .succeeded | .failed => true
  | .queued | .running | .cancelling => false

/-- A row of `tile_cache_jobs`. -/
structure Job where
  id : Str
  operation : Operation
  -- whether the request has bounds
  bounded : Bool
  createdAt : Int
  status : JobStatus
  totalTiles : Int
  processedTiles : Int
  succeededTiles : Int
  skippedTiles : Int
  failedTiles : Int
  cancelRequested : Bool
  errorMessage : Str
deriving DecidableEq, Repr

/-- A truncation without bounds has no chunks: it deletes what its selector finds. -/
def Job.sweeps (job : Job) : Bool := job.operation = .truncate ∧ job.bounded = false

def newJob (id : Str) (operation : Operation) (bounded : Bool) (createdAt totalTiles : Int) : Job where
  id := id
  operation := operation
  bounded := bounded
  createdAt := createdAt
  status := .queued
  totalTiles := totalTiles
  processedTiles := 0
  succeededTiles := 0
  skippedTiles := 0
  failedTiles := 0
  cancelRequested := false
  errorMessage := []

/-- What a statement sets; the other columns stay. -/
structure JobUpdate where
  status : Option JobStatus := none
  totalTiles : Option Int := none
  processedTiles : Option Int := none
  succeededTiles : Option Int := none
  skippedTiles : Option Int := none
  failedTiles : Option Int := none
  cancelRequested : Option Bool := none
  errorMessage : Option Str := none

def JobUpdate.apply (u : JobUpdate) (job : Job) : Job :=
  { job with
    status := u.status.getD job.status
    totalTiles := u.totalTiles.getD job.totalTiles
    processedTiles := u.processedTiles.getD job.processedTiles
    succeededTiles := u.succeededTiles.getD job.succeededTiles
    skippedTiles := u.skippedTiles.getD job.skippedTiles
    failedTiles := u.failedTiles.getD job.failedTiles
    cancelRequested := u.cancelRequested.getD job.cancelRequested
    errorMessage := u.errorMessage.getD job.errorMessage }

lemma JobUpdate.apply_status {u : JobUpdate} {status : JobStatus} (h : u.status = some status)
    (job : Job) : (u.apply job).status = status := by
  simp [JobUpdate.apply, h]

lemma JobUpdate.apply_cancelRequested {u : JobUpdate} (h : u.cancelRequested = none) (job : Job) :
    (u.apply job).cancelRequested = job.cancelRequested := by
  simp [JobUpdate.apply, h]

def UpdateTileCacheJob (id : Str) (u : JobUpdate) (jobs : List Job) : List Job :=
  Table.update (fun job => job.id = id) u.apply jobs

/-- `status='queued' AND cancel_requested=false`. -/
def Job.Claimable (job : Job) : Prop := job.status = .queued ∧ job.cancelRequested = false

instance : DecidablePred Job.Claimable := fun job => by
  unfold Job.Claimable
  infer_instance

/-- `ORDER BY created_at, id`. -/
def Job.Before (a b : Job) : Prop :=
  a.createdAt < b.createdAt ∨ (a.createdAt = b.createdAt ∧ a.id ≤ b.id)

/-- The job that is claimed next. -/
def IsNext (jobs : List Job) (job : Job) : Prop :=
  job ∈ jobs ∧ job.Claimable ∧ ∀ other ∈ jobs, other.Claimable → job.Before other

def Job.claim (job : Job) : Job := { job with status := .running }

def ClaimNextTileCacheJob (id : Str) (jobs : List Job) : List Job :=
  Table.update (fun job => job.id = id ∧ job.Claimable) Job.claim jobs

/-- A queued job is cancelled at once, one that is running is to be cancelled by its worker. -/
def Job.requestCancel (job : Job) : Job :=
  { job with
    cancelRequested := true
    status := if job.status = .queued then .cancelled else .cancelling }

lemma Job.requestCancel_status (job : Job) : job.requestCancel.status ≠ .queued := by
  simp only [Job.requestCancel]
  split <;> exact nofun

/-- The statement of `cancelLifecycleJobs`, for the jobs of a workspace or of some resources, and
of `RequestTileCacheJobCancel`, for one job. -/
def cancelJobs (p : Job → Bool) (jobs : List Job) : List Job :=
  Table.update (fun job => p job = true ∧ job.status.isTerminal = false) Job.requestCancel jobs

def RequestTileCacheJobCancel (id : Str) (jobs : List Job) : List Job :=
  cancelJobs (fun job => job.id = id) jobs

def Job.reset (job : Job) : Job :=
  match job.status with
  | .running => { job with status := .queued }
  | .cancelling => { job with status := .cancelled }
  | _ => job

def ResetInterruptedTileCacheJobs (jobs : List Job) : List Job := jobs.map Job.reset

inductive ChunkStatus
  | queued | running | cancelled | succeeded
deriving DecidableEq, Repr

/-- A row of `tile_cache_job_chunks`: a block of tiles, and how far it has been processed. The
identifier is new for every row; here it is the job and a number. -/
structure Chunk where
  jobID : Str
  number : Nat
  zoom : Int
  minCol : Int
  maxCol : Int
  minRow : Int
  maxRow : Int
  nextOffset : Int
  status : ChunkStatus
  attempts : Int
  lastError : Str
deriving DecidableEq, Repr

namespace Chunk

abbrev ID := Str × Nat

variable (c : Chunk)

def id : ID := (c.jobID, c.number)

def width : Int := c.maxCol - c.minCol + 1

def total : Int := c.width * (c.maxRow - c.minRow + 1)

/-- Column and row of a tile of the chunk. -/
def tile (offset : Int) : Int × Int :=
  (c.minCol + offset % c.width, c.minRow + offset / c.width)

/-- What a worker does not change. -/
def SameBlock (c d : Chunk) : Prop := c.id = d.id ∧ c.total = d.total

end Chunk

/-- The rows of a job. -/
def rowsOf (jobID : Str) (rows : List Chunk) : List Chunk := rows.filter fun c => c.jobID = jobID

def ReplaceTileCacheJobChunks (jobID : Str) (chunks rows : List Chunk) : List Chunk :=
  (rows.filter fun c => c.jobID ≠ jobID) ++ chunks

def UpdateTileCacheJobChunk (chunk : Chunk) (rows : List Chunk) : List Chunk :=
  Table.update (fun c => c.id = chunk.id)
    (fun c => { c with nextOffset := chunk.nextOffset, status := chunk.status,
                       attempts := chunk.attempts, lastError := chunk.lastError }) rows

/-- The chunks that `ResetInterruptedTileCacheJobs` puts back. -/
def resetChunks (rows : List Chunk) : List Chunk :=
  Table.update (fun c => c.status = .running) (fun c => { c with status := .queued }) rows

/-- Jobs that are still to be worked on keep `purgeLifecycleJobs` from deleting. -/
def purgeLifecycleJobs (p : Job → Bool) (jobs : List Job) : List Job := jobs.filter fun job => !p job

def purgeChunks (p : Job → Bool) (jobs : List Job) (rows : List Chunk) : List Chunk :=
  rows.filter fun c => ∀ job ∈ jobs, p job = true → job.id ≠ c.jobID

end NeoServer.Tilejobs
