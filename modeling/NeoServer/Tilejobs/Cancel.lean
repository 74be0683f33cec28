import Mathlib
import NeoServer.Tilejobs.Worker

/-!
# Tilejobs.Cancel — can every job still end?

A cancellation sets the status and a flag. After every tile a worker writes the status `running`
again, whatever it is by then, and the flag stays. As long as the process lives this does no harm,
since the worker looks at the flag. When the process starts again it looks at the status only: the
job is queued with the flag set, and `ClaimNextTileCacheJob` never takes it.

- `Heard` : the flag of a job that is queued or running is not set,
- `Ready.canEnd` : a job that may be claimed can be brought to its end by the workers,
- `every_job_can_end` : so can every job, if no progress is written over a cancellation,
- `cancelled_job_stuck` : the job that cannot.
-/

namespace NeoServer.Tilejobs

open List Table

/-- No worker writes its progress over a cancellation. -/
def NoLateProgress (s : State) (l : Label) (_ : State) : Prop :=
  ∀ id, l = .progress id true → ¬ s.CancelRequested id

/-- A job with the flag is being cancelled, or has ended. -/
def Heard (jobs : List Job) : Prop :=
  ∀ job ∈ jobs, job.status = .queued ∨ job.status = .running → job.cancelRequested = false

variable {s : State} {l : Label} {jobs : List Job} {t : State} {job next : Job}

lemma JobsStep.heard (h : JobsStep s l jobs)
    (hs : Heard s.jobs) (hlate : ∀ id, l = .progress id true → ¬ s.CancelRequested id) :
    Heard jobs := by
  intro job hjob hstatus
  cases h with
  | same => exact hs job hjob hstatus
  | create hl hqueued hcancel =>
    rcases mem_cons.mp hjob with rfl | hjob
    · exact hcancel
    · exact hs job hjob hstatus
  | @update id u status hu hsets hcancel =>
    rcases of_mem_update hjob with ⟨hold, _⟩ | ⟨old, hold, hid, rfl⟩
    · exact hs job hold hstatus
    -- `running` is written by the progress only, and then the flag is not set
    rw [JobUpdate.apply_cancelRequested hcancel]
    rw [JobUpdate.apply_status hu] at hstatus
    rcases hstatus with rfl | rfl
    · exact hsets.elim
    have hflag : ¬ s.CancelRequested id := hlate id hsets
    cases hold' : old.cancelRequested with
    | false => rfl
    | true => exact absurd ⟨old, hold, hid, hold'⟩ hflag
  | cancel =>
    rcases of_mem_update hjob with ⟨hold, _⟩ | ⟨old, _, _, rfl⟩
    · exact hs job hold hstatus
    have hrunning : old.requestCancel.status ≠ .running := by
      simp only [Job.requestCancel]
      split <;> simp
    rcases hstatus with hqueued | hrunning'
    · exact absurd hqueued old.requestCancel_status
    · exact absurd hrunning' hrunning
  | purge => exact hs job (mem_filter.mp hjob).1 hstatus
  | claim =>
    rcases of_mem_update hjob with ⟨hold, _⟩ | ⟨old, _, hclaimable, rfl⟩
    · exact hs job hold hstatus
    · exact hclaimable.2.2
  | reset =>
    rcases mem_map.mp hjob with ⟨old, hold, rfl⟩
    cases hold' : old.status <;> simp only [Job.reset, hold'] at hstatus ⊢
    · exact hs old hold (.inl hold')
    · exact hs old hold (.inr hold')
    all_goals simp_all

lemma heard_of_reachable (h : (machine.restrict NoLateProgress).Reachable s) : Heard s.jobs := by
  refine Machine.Reachable.induct (I := fun s => Heard s.jobs) ?_ ?_ h
  · rintro s rfl job hjob
    exact absurd hjob not_mem_nil
  · intro s l t _ hs hstep
    exact (jobs_step hstep.1).heard hs hstep.2

/-! ## What the workers can do -/

/-- Steps of the workers and of the process, without a request. -/
def WorkerStep (s t : State) : Prop := ∃ l, l.isWorker = true ∧ Step s l t

def WorkerRun : State → State → Prop := Relation.ReflTransGen WorkerStep

lemma WorkerRun.head {s t u : State} (h : Step s l t) (hl : l.isWorker = true)
    (hrun : WorkerRun t u) : WorkerRun s u :=
  Relation.ReflTransGen.head ⟨l, hl, h⟩ hrun

/-- The workers can bring the job to its end. -/
def CanEnd (s : State) (id : Str) : Prop :=
  ∃ t, WorkerRun s t ∧ ∃ job ∈ t.jobs, job.id = id ∧ job.status.isTerminal = true

lemma CanEnd.of_run {id : Str} (h : WorkerRun s t) (ht : CanEnd t id) : CanEnd s id := by
  rcases ht with ⟨u, hrun, hend⟩
  exact ⟨u, h.trans hrun, hend⟩

lemma exists_next (hjob : job ∈ jobs) (h : job.Claimable) : ∃ next, IsNext jobs next := by
  have hne : (jobs.toFinset.filter Job.Claimable).Nonempty := ⟨job, by simp [hjob, h]⟩
  rcases Finset.exists_min_image _ (fun j => toLex (j.createdAt, j.id)) hne with ⟨next, hmem, hmin⟩
  rw [Finset.mem_filter, mem_toFinset] at hmem
  refine ⟨next, hmem.1, hmem.2, ?_⟩
  intro other hother hclaimable
  have hle := hmin other (by simp [hother, hclaimable])
  exact Prod.Lex.toLex_le_toLex.mp hle

/-- The process is up and no job is in flight. -/
structure Ready (s : State) : Prop where
  up : s.up = true
  idle : ∀ id, s.runs id = none

/-- What `finishFailed` writes. -/
def failure : JobUpdate := { status := some .failed, errorMessage := some [] }

/-- The jobs after the next one has been claimed and has failed. -/
def failNext (next : Job) (jobs : List Job) : List Job :=
  UpdateTileCacheJob next.id failure (ClaimNextTileCacheJob next.id jobs)

lemma Ready.fail (hs : Ready s) (hnext : IsNext s.jobs next) :
    ∃ t, WorkerRun s t ∧ Ready t ∧ t.jobs = failNext next s.jobs := by
  have hclaim := Step.claim false hs.up hnext (hs.idle next.id)
  have hrun := State.runs_setRun { s with jobs := ClaimNextTileCacheJob next.id s.jobs } next.id
    (some (newRun next.claim false))
  have hfail := Step.giveUp [] true hrun rfl
  refine ⟨_, .head hclaim rfl (.head hfail rfl .refl), ⟨hs.up, ?_⟩, rfl⟩
  intro id
  by_cases hid : id = next.id
  · rw [hid]
    exact State.runs_setRun _ _ _
  · simp [State.setRun, State.updateJob, hid, hs.idle]

lemma mem_failNext_of_ne (hjob : job ∈ jobs)
    (hne : job.id ≠ next.id) : job ∈ failNext next jobs := by
  have hclaimed := mem_update_of_neg (p := fun job => job.id = next.id ∧ job.Claimable)
    (f := Job.claim) hjob fun h => hne h.1
  exact mem_update_of_neg hclaimed hne

lemma mem_of_failNext (hjob : job ∈ failNext next jobs)
    (hclaimable : job.Claimable) : job ∈ jobs ∧ job.id ≠ next.id := by
  rcases of_mem_update hjob with ⟨hold, hne⟩ | ⟨old, _, _, rfl⟩
  · rcases of_mem_update hold with ⟨hold, _⟩ | ⟨old, _, hid, rfl⟩
    · exact ⟨hold, hne⟩
    · exact absurd hid.1 hne
  · cases hclaimable.1

/-- The jobs that may be claimed before this one fail one after the other, then it fails. -/
theorem Ready.canEnd (hs : Ready s) (hjob : job ∈ s.jobs)
    (hclaimable : job.Claimable) : CanEnd s job.id := by
  -- the number of jobs that may be claimed gets smaller
  induction hn : (s.jobs.toFinset.filter Job.Claimable).card using Nat.strong_induction_on
    generalizing s with
  | _ n ih =>
    rcases exists_next hjob hclaimable with ⟨next, hnext⟩
    rcases hs.fail hnext with ⟨t, hrun, ht, hjobs⟩
    by_cases hid : job.id = next.id
    · have hclaimed : job.claim ∈ ClaimNextTileCacheJob next.id s.jobs :=
        mem_update_of_pos hjob ⟨hid, hclaimable⟩
      have hfailed : failure.apply job.claim ∈ t.jobs := by
        rw [hjobs]
        exact mem_update_of_pos hclaimed hid
      exact ⟨t, hrun, _, hfailed, rfl, rfl⟩
    · have hstill : job ∈ t.jobs := by
        rw [hjobs]
        exact mem_failNext_of_ne hjob hid
      have hfewer : (t.jobs.toFinset.filter Job.Claimable).card < n := by
        rw [← hn, hjobs]
        apply Finset.card_lt_card
        rw [Finset.ssubset_iff_of_subset]
        · refine ⟨next, by simp [hnext.1, hnext.2.1], ?_⟩
          intro hmem
          rw [Finset.mem_filter, mem_toFinset] at hmem
          exact (mem_of_failNext hmem.1 hmem.2).2 rfl
        · intro other hmem
          rw [Finset.mem_filter, mem_toFinset] at hmem ⊢
          exact ⟨(mem_of_failNext hmem.1 hmem.2).1, hmem.2⟩
      exact .of_run hrun (ih _ hfewer ht hstill rfl)

/-- No job is queued with the flag set, and the workers can bring every job to its end. -/
theorem every_job_can_end {s : State} (h : (machine.restrict NoLateProgress).Reachable s) :
    ∀ job ∈ s.jobs, ¬ (job.status = .queued ∧ job.cancelRequested = true) ∧
      (job.status.isTerminal = false → CanEnd s job.id) := by
  intro job hjob
  have hheard := heard_of_reachable h job hjob
  constructor
  · rintro ⟨hqueued, hcancel⟩
    rw [hheard (.inl hqueued)] at hcancel
    cases hcancel
  · intro hopen
    -- the process ends and starts again: the job is queued, or cancelled
    have hrestarted : WorkerRun s _ := .head .exit rfl (.head (.restart rfl) rfl .refl)
    have hreset : job.reset ∈ ResetInterruptedTileCacheJobs s.jobs := mem_map_of_mem hjob
    refine .of_run hrestarted ?_
    rw [← job.reset_id]
    by_cases hcancelling : job.status = .cancelling
    · refine ⟨_, .refl, job.reset, hreset, rfl, ?_⟩
      simp [Job.reset, hcancelling, JobStatus.isTerminal]
    have hclaimable : job.reset.Claimable := by
      cases hstatus : job.status with
      | queued => simp [Job.Claimable, Job.reset, hstatus, hheard (.inl hstatus)]
      | running => simp [Job.Claimable, Job.reset, hstatus, hheard (.inr hstatus)]
      | cancelling => exact absurd hstatus hcancelling
      | _ => rw [hstatus] at hopen; cases hopen
    exact Ready.canEnd ⟨rfl, fun _ => rfl⟩ hreset hclaimable

def seeding : Job := newJob ['j'] .seed true 0 2

def twoTiles : Chunk where
  jobID := ['j']
  number := 0
  zoom := 1
  minCol := 0
  maxCol := 1
  minRow := 0
  maxRow := 0
  nextOffset := 0
  status := .queued
  attempts := 0
  lastError := []

/-- A job that is cancelled after it has been claimed. -/
theorem cancelling_job_can_end :
    ∃ s, (machine.restrict NoLateProgress).Reachable s ∧
      ∃ job ∈ s.jobs, job.status = .cancelling ∧ CanEnd s job.id := by
  have h : (machine.restrict NoLateProgress).Reachable State.empty := .init rfl
  have h := next h (.restart rfl) nofun
  have h := next h (l := .create seeding) (.create .seed true 0 2 rfl ⟨fun _ => nofun, rfl, rfl, rfl⟩
    (planned_single (c := twoTiles) ⟨rfl, rfl⟩)) nofun
  have h := next h (.claim false rfl (isNext_single (by decide)) rfl) nofun
  have h := next h (.cancel fun _ => true) nofun
  have hmem : seeding.claim.requestCancel ∈ [seeding.claim.requestCancel] := mem_singleton_self _
  exact ⟨_, h, _, hmem, rfl, (every_job_can_end h _ hmem).2 rfl⟩

/-! ## The job that cannot end -/

/-- A job that is queued with the flag set stays so, whatever the workers do. -/
structure Stuck (s : State) (job : Job) : Prop where
  queue : Queue s
  mem : job ∈ s.jobs
  queued : job.status = .queued
  cancelRequested : job.cancelRequested = true

lemma Stuck.idle (h : Stuck s job) : s.runs job.id = none :=
  h.queue.idle job h.mem h.queued

lemma JobsStep.stuck (h : JobsStep s l jobs)
    (hl : l.isWorker = true) (hs : Stuck s job) : job ∈ jobs := by
  cases h with
  | same => exact hs.mem
  | create hlabel | cancel p hlabel | purge p hlabel => rw [hlabel] at hl; cases hl
  | update hu hsets hcancel howner =>
    refine mem_update_of_neg hs.mem ?_
    -- its row is written by nobody: it is not in flight
    rintro rfl
    rw [howner hs.idle] at hl
    cases hl
  | claim =>
    refine mem_update_of_neg hs.mem ?_
    rintro ⟨_, hclaimable⟩
    have hflag := hs.cancelRequested
    rw [hclaimable.2] at hflag
    cases hflag
  | reset =>
    have hreset : job.reset = job := by simp [Job.reset, hs.queued]
    exact mem_map.mpr ⟨job, hs.mem, hreset⟩

lemma Stuck.run (hs : Stuck s job) (h : WorkerRun s t) : Stuck t job := by
  induction h with
  | refl => exact hs
  | tail _ hstep ih =>
    rcases hstep with ⟨l, hl, hstep⟩
    exact ⟨ih.queue.step hstep, (jobs_step hstep).stuck hl ih, ih.queued, ih.cancelRequested⟩

/-- The job is cancelled while a tile is processed. The worker writes `running` over it, then the
process ends. -/
theorem cancelled_job_stuck :
    ∃ s job, machine.Reachable s ∧ job ∈ s.jobs ∧ job.status = .queued ∧ job.cancelRequested = true ∧
      ¬ CanEnd s job.id ∧ ∀ t, WorkerRun s t → t.runs job.id = none := by
  have h : machine.Reachable State.empty := .init rfl
  have h := go h (.restart rfl)
  have h := go h (l := .create seeding) (.create .seed true 0 2 rfl ⟨fun _ => nofun, rfl, rfl, rfl⟩
    (planned_single (c := twoTiles) ⟨rfl, rfl⟩))
  have h := go h (l := .replaceChunks ['j']) (.replaceChunks true true rfl fun _ => rfl)
  have h := go h (.claim false rfl (isNext_single (by decide)) rfl)
  have h := go h (l := .list ['j']) (.list rfl rfl (cons_ne_nil _ _))
  have h := go h (l := .startChunk ['j']) (.startChunk true rfl rfl mem_cons_self rfl)
  have h := go h (l := .tile ['j'] .stored) (.tile _ rfl rfl mem_cons_self rfl (by decide))
  have h := go h (l := .saveChunk ['j']) (.saveChunk true rfl rfl mem_cons_self rfl)
  have h := go h (.cancel fun _ => true)
  have h := go h (l := .progress ['j'] true) (.progress _ rfl rfl mem_cons_self rfl)
  have h := go (go h .exit) (.restart rfl)
  have hstuck : Stuck _ _ := ⟨queue_of_reachable h, mem_singleton_self _, rfl, rfl⟩
  refine ⟨_, _, h, hstuck.mem, hstuck.queued, hstuck.cancelRequested, ?_, ?_⟩
  · rintro ⟨t, hrun, job, hjob, hid, hend⟩
    have ht := hstuck.run hrun
    rw [ht.queue.keyed.eq_of_key hjob ht.mem hid, ht.queued] at hend
    cases hend
  · intro t hrun
    exact (hstuck.run hrun).idle

end NeoServer.Tilejobs
