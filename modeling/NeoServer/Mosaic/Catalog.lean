import Mathlib.Data.List.Basic
import NeoServer.Machine
import NeoServer.Text

/-!
# Mosaic.Catalog — the granules of a mosaic and the calls that change them

The granules of a mosaic are rows with a generation number; one generation is the active one. A
harvest job, or the deletion of a granule, builds the rows of the next generation, activates it, lets
the registry read the mosaic again and removes the rows of the other generations. Both hold the lock
of the service from begin to end. Listings and lookups hold no lock: they read the number of the active
generation and, in a second statement, its rows.

- `Catalog` : the tables `mosaic_services` and `mosaic_granules` for one service, with their statements,
- `Job` : the table `mosaic_harvest_jobs` and its statements,
- `Work` : what the holder of the service's lock does, a statement at a time,
- `machine` : jobs, deletions, cancellations, restarts and readings, in any order.

Every statement commits or leaves no trace; a statement that fails is a step of its own.
-/

namespace NeoServer.Mosaic

variable {F : Type}

/-! ## Granules and generations -/

/-- A granule, with the columns that listings filter and sort by. `F` are the floating-point numbers. -/
structure Granule (F : Type) where
  sourceURI : Str
  minX : F
  minY : F
  maxX : F
  maxY : F
  time : Str
  elevation : Option F
  priority : Int

structure Row (F : Type) where
  id : Nat
  generation : Nat
  granule : Granule F

/-- Generation 0 is none. -/
structure Catalog (F : Type) where
  active : Nat
  rows : List (Row F)

namespace Catalog

variable (c : Catalog F)

def rowsOf (generation : Nat) : List (Row F) :=
  c.rows.filter fun row => row.generation = generation

def activeRows : List (Row F) := c.rowsOf c.active

def granulesOf (generation : Nat) : List (Granule F) :=
  (c.rowsOf generation).map Row.granule

/-- The next generation: empty, or a copy of the active one under new ids. -/
def beginGeneration (preserve : Bool) (uuid : Nat → Nat) : Catalog F :=
  let next := c.active + 1
  let kept := c.rows.filter fun row => row.generation ≠ next
  if preserve && c.active > 0 then
    { c with rows := kept ++ c.activeRows.map fun row => ⟨uuid row.id, next, row.granule⟩ }
  else { c with rows := kept }

/-- A row of the same source keeps its id. -/
def upsertGranule (generation id : Nat) (item : Granule F) : Catalog F :=
  let same (row : Row F) : Bool := row.generation = generation && row.granule.sourceURI = item.sourceURI
  { c with
    rows := (c.rows.filter fun row => !same row) ++
      [⟨((c.rows.find? same).map Row.id).getD id, generation, item⟩] }

def deleteSource (generation : Nat) (uri : Str) : Catalog F :=
  { c with rows := c.rows.filter fun row => !(row.generation = generation && row.granule.sourceURI = uri) }

def activate (generation : Nat) : Catalog F := { c with active := generation }

def pruneInactiveGenerations (active : Nat) : Catalog F :=
  { c with rows := c.rows.filter fun row => row.generation = active }

def discardGeneration (generation : Nat) : Catalog F :=
  { c with rows := c.rows.filter fun row => row.generation ≠ generation }

end Catalog

/-! ## Listings and lookups -/

structure GranuleFilter (F : Type) where
  bbox : Option (F × F × F × F)
  time : Str
  elevation : Option F
  limit : Int
  offset : Int

section Queries

variable [LE F] [DecidableLE F] [DecidableEq F]

def GranuleFilter.accepts (filter : GranuleFilter F) (item : Granule F) : Bool :=
  (match filter.bbox with
    | none => true
    | some (x0, y0, x1, y1) => x0 ≤ item.maxX && item.minX ≤ x1 && y0 ≤ item.maxY && item.minY ≤ y1) &&
    (filter.time = [] || item.time = filter.time) &&
    match filter.elevation with
    | none => true
    | some elevation => item.elevation = some elevation

def textLE : Str → Str → Bool
  | [], _ => true
  | _ :: _, [] => false
  | a :: as, b :: bs => a.val < b.val || (a = b && textLE as bs)

/-- The order of a listing. -/
def Row.before (a b : Row F) : Bool :=
  a.granule.priority < b.granule.priority ||
    (a.granule.priority = b.granule.priority && textLE a.granule.sourceURI b.granule.sourceURI)

def GranuleFilter.pageSize (filter : GranuleFilter F) : Nat :=
  if filter.limit ≤ 0 ∨ filter.limit > 1000000 then 1000 else filter.limit.toNat

/-- `listGranules` and `getGranule`. -/
inductive Query (F : Type)
  | list (filter : GranuleFilter F)
  | get (id : Nat)

/-- What a query selects from the rows of a generation. -/
def Query.select : Query F → List (Row F) → List (Row F)
  | .list filter, rows =>
    (((rows.filter fun row => filter.accepts row.granule).mergeSort Row.before).drop
      filter.offset.toNat).take filter.pageSize
  | .get id, rows => (rows.find? fun row => row.id = id).toList

end Queries

/-- A call between its two statements. `seen` holds the rows of the active generation at every instant
since the first of them. -/
structure Reading (F : Type) where
  query : Query F
  generation : Nat
  seen : List (List (Row F))

structure Answer (F : Type) where
  query : Query F
  result : List (Row F)
  seen : List (List (Row F))

/-! ## Jobs -/

inductive Mode
  | append | synchronize
deriving DecidableEq, Repr

inductive Status
  | queued | running | cancelling | succeeded | failed | cancelled
deriving DecidableEq, Repr

/-- `status IN ('queued','running','cancelling')`. -/
def Status.unfinished : Status → Bool
  | .queued | .running | .cancelling => true
  | _ => false

/-- `status IN ('running','cancelling')`. -/
def Status.taken : Status → Bool
  | .running | .cancelling => true
  | _ => false

structure Job where
  id : Nat
  mode : Mode
  status : Status
  generation : Nat
  cancelRequested : Bool
deriving DecidableEq, Repr

namespace Job

/-- The row after `updateJob`, for the status, generation and flag of the worker's copy. A copy that
has begun no generation carries the one it read. -/
def update (job : Job) (status : Status) (generation : Option Nat) (cancel : Bool) : Job :=
  if job.status.unfinished then
    { job with
      status := if job.cancelRequested && status != .cancelled then .cancelling else status
      generation := generation.getD job.generation
      cancelRequested := job.cancelRequested || cancel }
  else job

/-- The row after the update of `requestCancel`. -/
def cancel (job : Job) : Job :=
  if job.status.unfinished then
    { job with
      status := match job.status with
        | .queued => .cancelled
        | .running => .cancelling
        | status => status
      cancelRequested := true }
  else job

/-- The row after `resetInterrupted`. -/
def reset (job : Job) : Job :=
  if job.status.taken && !job.cancelRequested then { job with status := .queued }
  else if job.status.unfinished && job.cancelRequested then { job with status := .cancelled }
  else job

end Job

/-- Change the row of an id. -/
def modifyJob (jobs : List Job) (id : Nat) (f : Job → Job) : List Job :=
  jobs.map fun job => if job.id = id then f job else job

/-! ## The holder of the service's lock -/

inductive Owner
  | job (id : Nat) (mode : Mode) (candidates : List Str)
  | deletion (uri : Str)
deriving DecidableEq, Repr

/-- How a call ends: `fail` is `failJob` before it reads the job, `failing` after. -/
inductive Ending
  | fail | failing | cancel | succeed | release
deriving DecidableEq, Repr

/-- The status that is written at the end. -/
def Ending.status : Ending → Option Status
  | .failing => some .failed
  | .cancel => some .cancelled
  | .succeed => some .succeeded
  | .fail | .release => none

namespace Owner

def preserve : Owner → Bool
  | .job _ mode _ => mode = .append
  | .deletion _ => true

def failure : Owner → Ending
  | .job _ _ _ => .fail
  | .deletion _ => .release

def success : Owner → Ending
  | .job _ _ _ => .succeed
  | .deletion _ => .release

end Owner

inductive Phase (F : Type)
  | ready
  | begun
  | building (harvested : List (Granule F)) (rest : List Str)
  | reduced
  | activated (previous : Nat)
  | refreshed
  | restoring (previous : Nat)
  | discarding (ending : Ending)
  | ending (ending : Ending)

/-- `generation` is what `beginGeneration` returned. -/
structure Holder (F : Type) where
  owner : Owner
  generation : Option Nat
  phase : Phase F

/-- A change of the active set of granules. -/
inductive Change (F : Type)
  | activated (owner : Owner) (harvested before after : List (Granule F))
  | restored (owner : Owner) (before after : List (Granule F))

/-! ## The system -/

/-- `claimed` are the jobs of workers that wait for the lock; `history` has the latest change first. -/
structure State (F : Type) where
  catalog : Catalog F
  jobs : List Job
  claimed : List Nat
  holder : Option (Holder F)
  readings : List (Reading F)
  answers : List (Answer F)
  history : List (Change F)

/-- The steps that a condition on runs may speak of have a label of their own; `begin`, `prune` and
`discard` say which generation is made, kept or deleted. -/
inductive Label
  | createJob | claim | start | startFailed | startDelete
  | cancel (id : Nat)
  | restart
  | begin (generation : Nat)
  | prune (active : Nat)
  | discard (generation : Nat)
  | restoreFailed
  | work
  | readActive | readRows | readFailed
deriving DecidableEq, Repr

/-- The steps of the holder of the lock. -/
inductive Work : State F → Label → State F → Prop
  | begin {s : State F} {owner : Owner} (hholder : s.holder = some ⟨owner, none, .ready⟩)
      (uuid : Nat → Nat) :
      Work s (.begin (s.catalog.active + 1)) { s with
        catalog := s.catalog.beginGeneration owner.preserve uuid
        holder := some ⟨owner, some (s.catalog.active + 1), .begun⟩ }
  | beginFailed {s : State F} {owner : Owner} (hholder : s.holder = some ⟨owner, none, .ready⟩) :
      Work s .work { s with holder := some ⟨owner, none, .ending owner.failure⟩ }
  | record {s : State F} {id generation mode candidates}
      (hholder : s.holder = some ⟨.job id mode candidates, some generation, .begun⟩) :
      Work s .work { s with
        jobs := modifyJob s.jobs id fun job => job.update .running (some generation) false
        holder := some ⟨.job id mode candidates, some generation, .building [] candidates⟩ }
  | recordFailed {s : State F} {id generation mode candidates}
      (hholder : s.holder = some ⟨.job id mode candidates, some generation, .begun⟩) :
      Work s .work { s with
        holder := some ⟨.job id mode candidates, some generation, .discarding .fail⟩ }
  /-- A candidate is inspected, compatible and written. -/
  | harvest {s : State F} {id generation mode candidates rest harvested} {item : Granule F}
      (hholder : s.holder = some ⟨.job id mode candidates, some generation,
        .building harvested (item.sourceURI :: rest)⟩) (uuid : Nat) :
      Work s .work { s with
        catalog := s.catalog.upsertGranule generation uuid item
        holder := some ⟨.job id mode candidates, some generation, .building (harvested ++ [item]) rest⟩ }
  /-- The progress of the job is written, at the end of a batch. -/
  | progress {s : State F} {id generation mode candidates rest harvested}
      (hholder : s.holder = some ⟨.job id mode candidates, some generation, .building harvested rest⟩) :
      Work s .work { s with
        jobs := modifyJob s.jobs id fun job => job.update .running (some generation) false }
  /-- A candidate fails, or a write, or the activation. -/
  | buildFailed {s : State F} {id generation mode candidates rest harvested}
      (hholder : s.holder = some ⟨.job id mode candidates, some generation, .building harvested rest⟩) :
      Work s .work { s with
        holder := some ⟨.job id mode candidates, some generation, .discarding .fail⟩ }
  /-- The job is found to be cancelled, or cannot be read. -/
  | buildCancelled {s : State F} {id generation mode candidates rest harvested}
      (hholder : s.holder = some ⟨.job id mode candidates, some generation, .building harvested rest⟩) :
      Work s .work { s with
        holder := some ⟨.job id mode candidates, some generation, .discarding .cancel⟩ }
  | activateJob {s : State F} {id generation mode candidates harvested} {job : Job}
      (hholder : s.holder = some ⟨.job id mode candidates, some generation, .building harvested []⟩)
      (hjob : job ∈ s.jobs) (hid : job.id = id) (hstatus : job.status = .running)
      (hcancel : job.cancelRequested = false)
      (hcount : (s.catalog.rowsOf generation).isEmpty = false) :
      Work s .work { s with
        catalog := s.catalog.activate generation
        holder := some ⟨.job id mode candidates, some generation, .activated s.catalog.active⟩
        history := .activated (.job id mode candidates) harvested
          (s.catalog.granulesOf s.catalog.active) (s.catalog.granulesOf generation) :: s.history }
  | remove {s : State F} {generation uri}
      (hholder : s.holder = some ⟨.deletion uri, some generation, .begun⟩) :
      Work s .work { s with
        catalog := s.catalog.deleteSource generation uri
        holder := some ⟨.deletion uri, some generation, .reduced⟩ }
  | removeFailed {s : State F} {generation uri}
      (hholder : s.holder = some ⟨.deletion uri, some generation, .begun⟩) :
      Work s .work { s with holder := some ⟨.deletion uri, some generation, .discarding .release⟩ }
  | activateDeletion {s : State F} {generation uri}
      (hholder : s.holder = some ⟨.deletion uri, some generation, .reduced⟩)
      (hcount : (s.catalog.rowsOf generation).isEmpty = false) :
      Work s .work { s with
        catalog := s.catalog.activate generation
        holder := some ⟨.deletion uri, some generation, .activated s.catalog.active⟩
        history := .activated (.deletion uri) []
          (s.catalog.granulesOf s.catalog.active) (s.catalog.granulesOf generation) :: s.history }
  | activateFailed {s : State F} {generation uri}
      (hholder : s.holder = some ⟨.deletion uri, some generation, .reduced⟩) :
      Work s .work { s with holder := some ⟨.deletion uri, some generation, .discarding .release⟩ }
  | refresh {s : State F} {owner generation previous}
      (hholder : s.holder = some ⟨owner, some generation, .activated previous⟩) :
      Work s .work { s with holder := some ⟨owner, some generation, .refreshed⟩ }
  | refreshFailed {s : State F} {owner generation previous}
      (hholder : s.holder = some ⟨owner, some generation, .activated previous⟩) :
      Work s .work { s with holder := some ⟨owner, some generation, .restoring previous⟩ }
  | prune {s : State F} {owner : Owner} {generation}
      (hholder : s.holder = some ⟨owner, some generation, .refreshed⟩) :
      Work s (.prune generation) { s with
        catalog := s.catalog.pruneInactiveGenerations generation
        holder := some ⟨owner, some generation, .ending owner.success⟩ }
  | pruneFailed {s : State F} {owner : Owner} {generation}
      (hholder : s.holder = some ⟨owner, some generation, .refreshed⟩) :
      Work s .work { s with holder := some ⟨owner, some generation, .ending owner.success⟩ }
  | restore {s : State F} {owner : Owner} {generation previous}
      (hholder : s.holder = some ⟨owner, some generation, .restoring previous⟩)
      (hactive : s.catalog.active = generation) :
      Work s .work { s with
        catalog := s.catalog.activate previous
        holder := some ⟨owner, some generation, .discarding owner.failure⟩
        history := .restored owner (s.catalog.granulesOf generation)
          (s.catalog.granulesOf previous) :: s.history }
  | discard {s : State F} {owner generation ending}
      (hholder : s.holder = some ⟨owner, some generation, .discarding ending⟩) :
      Work s (.discard generation) { s with
        catalog := s.catalog.discardGeneration generation
        holder := some ⟨owner, some generation, .ending ending⟩ }
  | discardFailed {s : State F} {owner generation ending}
      (hholder : s.holder = some ⟨owner, some generation, .discarding ending⟩) :
      Work s .work { s with holder := some ⟨owner, some generation, .ending ending⟩ }
  /-- `failJob` finds no request to cancel, or cannot read the job. -/
  | failRead {s : State F} {owner generation}
      (hholder : s.holder = some ⟨owner, generation, .ending .fail⟩) :
      Work s .work { s with holder := some ⟨owner, generation, .ending .failing⟩ }
  | failCancelled {s : State F} {id mode candidates generation} {job : Job}
      (hholder : s.holder = some ⟨.job id mode candidates, generation, .ending .fail⟩)
      (hjob : job ∈ s.jobs) (hid : job.id = id) (hcancel : job.cancelRequested) :
      Work s .work { s with holder := some ⟨.job id mode candidates, generation, .ending .cancel⟩ }
  | persist {s : State F} {id mode candidates generation} {ending : Ending} {status}
      (hholder : s.holder = some ⟨.job id mode candidates, generation, .ending ending⟩)
      (hstatus : ending.status = some status) :
      Work s .work { s with
        jobs := modifyJob s.jobs id fun job => job.update status generation (status = .cancelled)
        holder := none }
  | persistFailed {s : State F} {id mode candidates generation} {ending : Ending} {status}
      (hholder : s.holder = some ⟨.job id mode candidates, generation, .ending ending⟩)
      (hstatus : ending.status = some status) :
      Work s .work { s with holder := none }
  | release {s : State F} {owner generation}
      (hholder : s.holder = some ⟨owner, generation, .ending .release⟩) :
      Work s .work { s with holder := none }

/-- A cancellation is refused: the generation of the job is the active one. -/
def State.refuses (s : State F) (job : Job) : Bool :=
  job.generation > 0 && job.status.taken && s.catalog.active = job.generation

section Steps

variable [LE F] [DecidableLE F] [DecidableEq F]

inductive Step : State F → Label → State F → Prop
  | createJob {s : State F} {id mode} (hid : ∀ job ∈ s.jobs, job.id ≠ id) :
      Step s .createJob { s with jobs := ⟨id, mode, .queued, 0, false⟩ :: s.jobs }
  | claim {s : State F} {job : Job} (hjob : job ∈ s.jobs) (hstatus : job.status = .queued)
      (hcancel : job.cancelRequested = false) (htaken : ∀ job ∈ s.jobs, job.status.taken = false) :
      Step s .claim { s with
        jobs := modifyJob s.jobs job.id fun job => { job with status := .running }
        claimed := job.id :: s.claimed }
  /-- A worker gets the lock and collects the candidates, each source once. -/
  | start {s : State F} {job : Job} {candidates : List Str} (hlock : s.holder = none)
      (hclaimed : job.id ∈ s.claimed) (hjob : job ∈ s.jobs) (hcandidates : candidates.Nodup)
      (hfound : candidates ≠ []) :
      Step s .start { s with
        claimed := s.claimed.erase job.id
        holder := some ⟨.job job.id job.mode candidates, none, .ready⟩ }
  /-- Or finds none, too many, or an error. -/
  | startFailed {s : State F} {job : Job} (hlock : s.holder = none)
      (hclaimed : job.id ∈ s.claimed) (hjob : job ∈ s.jobs) :
      Step s .startFailed { s with
        claimed := s.claimed.erase job.id
        holder := some ⟨.job job.id job.mode [], none, .ending .fail⟩ }
  | startDelete {s : State F} {row : Row F} (hlock : s.holder = none)
      (hrow : row ∈ s.catalog.activeRows) :
      Step s .startDelete { s with
        holder := some ⟨.deletion row.granule.sourceURI, none, .ready⟩ }
  | cancel {s : State F} {job : Job} (hjob : job ∈ s.jobs) (hrefuses : s.refuses job = false) :
      Step s (.cancel job.id) { s with jobs := modifyJob s.jobs job.id Job.cancel }
  | cancelRefused {s : State F} {job : Job} (hjob : job ∈ s.jobs) (hrefuses : s.refuses job) :
      Step s (.cancel job.id) s
  /-- The process ends, at any point, and starts again. -/
  | restart {s : State F} :
      Step s .restart { s with
        jobs := s.jobs.map Job.reset
        claimed := []
        holder := none
        readings := [] }
  | work {s t label} (hwork : Work s label t) : Step s label t
  | restoreFailed {s : State F} {owner : Owner} {generation previous}
      (hholder : s.holder = some ⟨owner, some generation, .restoring previous⟩) :
      Step s .restoreFailed { s with
        holder := some ⟨owner, some generation, .ending owner.failure⟩ }
  | readActive {s : State F} {query} :
      Step s .readActive { s with readings := ⟨query, s.catalog.active, []⟩ :: s.readings }
  | readRows {s : State F} {reading : Reading F} {before after}
      (hreading : s.readings = before ++ reading :: after) :
      Step s .readRows { s with
        readings := before ++ after
        answers := ⟨reading.query, reading.query.select (s.catalog.rowsOf reading.generation),
          reading.seen⟩ :: s.answers }
  /-- A listing finds no active generation and makes no second statement. -/
  | listNothing {s : State F} {reading : Reading F} {filter before after} (hreading : s.readings = before ++ reading :: after)
      (hquery : reading.query = .list filter) (hgeneration : reading.generation = 0) :
      Step s .readRows { s with
        readings := before ++ after
        answers := ⟨reading.query, [], reading.seen⟩ :: s.answers }
  | readFailed {s : State F} {reading : Reading F} {before after}
      (hreading : s.readings = before ++ reading :: after) :
      Step s .readFailed { s with readings := before ++ after }

/-- The readings see the active rows after each step. -/
def State.observe (s : State F) : State F :=
  { s with readings := s.readings.map fun reading =>
      { reading with seen := s.catalog.activeRows :: reading.seen } }

/-- A new catalog. -/
def State.empty (F : Type) : State F := ⟨⟨0, []⟩, [], [], none, [], [], []⟩

def machine (F : Type) [LE F] [DecidableLE F] [DecidableEq F] : Machine (State F) Label where
  init s := s = .empty F
  step s label t := ∃ u, Step s label u ∧ t = u.observe

end Steps

end NeoServer.Mosaic
