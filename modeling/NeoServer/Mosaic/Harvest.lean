import Mathlib.Data.List.Nodup
import NeoServer.Mosaic.Changes

/-!
# Mosaic.Harvest — what a job leaves behind

Whether a cancellation comes too late is read off the generation number in the row of the job. After a
restart an unfinished job is queued again, with the number of its last attempt.

- `Accounted` : the active set is what its changes have made of it, failed and cancelled jobs have left
  no change, a cancellation is refused exactly after the activation,
- `Careful` : no restart while an activated job is unfinished, an activation can be taken back, no
  cancellation of a job whose number is left over from another attempt,
- `accounted_of_reachable` : so it is in every run of careful steps,
- `harvest_unaccounted` : a run with a restart at the wrong time.
-/

namespace NeoServer.Mosaic

open List

variable {F : Type}

/-- A cancellation that the number in the job's row can answer: the job is unfinished, no activation of
it was taken back, and if it has been taken by a worker, its number is that of the attempt under way. -/
def CancelInTime (s : State F) (job : Job) : Prop :=
  job.status.unfinished ∧ TakenBack s.history job.id = false ∧
    (job.status.taken → job.generation = 0 ∨
      ∃ h, s.holder = some h ∧ h.owner.jobID = some job.id ∧ h.generation = some job.generation)

def Careful (s : State F) : Label → Prop
  | .cancel id => ∀ job ∈ s.jobs, job.id = id → CancelInTime s job
  | .restart => ∀ job ∈ s.jobs, job.status.taken → Activated s.history job.id = false
  | .restoreFailed => False
  | _ => True

structure Accounted (s : State F) : Prop where
  current : s.catalog.granulesOf s.catalog.active = current s.history
  recorded : Recorded s.history
  ended : ∀ job ∈ s.jobs, job.status = .failed ∨ job.status = .cancelled →
    Activated s.history job.id → TakenBack s.history job.id
  cancel : ∀ job ∈ s.jobs, CancelInTime s job → (s.refuses job ↔ Activated s.history job.id)

/-! ## The jobs along a run -/

/-- The row of the job has the number of the generation. -/
def Phase.numbered : Phase F → Bool
  | .building _ _ => true
  | _ => false

/-- A row of a job: taken as long as a worker has it; after the activation, unless it was taken back,
only the end of the job is still to be written. -/
structure Job.Good (s : State F) (job : Job) : Prop where
  claimed : job.id ∈ s.claimed → job.status.taken ∧ Activated s.history job.id = false
  held : ∀ h, s.holder = some h → h.owner.jobID = some job.id →
    job.status.taken ∧ job.id ∉ s.claimed ∧ (h.phase.numbered → job.generation ≠ 0)
  activated : Activated s.history job.id → job.status ≠ .queued ∧ job.generation ≠ 0 ∧
    (TakenBack s.history job.id = false →
      (job.status = .running ∨ job.status = .succeeded) ∧ job.cancelRequested = false)

/-- A job is spoken of outside its row. -/
def State.Mentions (s : State F) (id : Nat) : Prop :=
  Activated s.history id ∨ id ∈ s.claimed ∨ ∃ h, s.holder = some h ∧ h.owner.jobID = some id

structure Jobs (s : State F) : Prop where
  ids : (s.jobs.map Job.id).Nodup
  claimed : s.claimed.Nodup
  known : ∀ id, s.Mentions id → ∃ job ∈ s.jobs, job.id = id
  good : ∀ job ∈ s.jobs, job.Good s

variable {s : State F} {job : Job} {id : Nat} {f : Job → Job} {t : State F} {owner : Owner}
  {generation generation' : Option Nat} {phase phase' : Phase F} {status : Status} {mode : Mode}
  {candidates : List Str} {catalog : Catalog F} {holder : Option (Holder F)}
  {readings : List (Reading F)} {answers : List (Answer F)} {history : List (Change F)}

lemma Jobs.eq_of_id (h : Jobs s) {job other : Job} (hjob : job ∈ s.jobs)
    (hother : other ∈ s.jobs) (hid : other.id = job.id) : other = job :=
  inj_on_of_nodup_map h.ids hother hjob hid

lemma mem_modifyJob {jobs} :
    job ∈ modifyJob jobs id f ↔ ∃ old ∈ jobs, (if old.id = id then f old else old) = job :=
  mem_map

lemma map_id_modifyJob {jobs} (hf : ∀ job, (f job).id = job.id) :
    (modifyJob jobs id f).map Job.id = jobs.map Job.id := by
  rw [modifyJob, map_map]
  refine map_congr_left fun job _ => ?_
  show (if job.id = id then f job else job).id = job.id
  split
  · exact hf job
  · rfl

/-- The row of one job changes. -/
lemma Jobs.modify (h : Jobs s) (hf : ∀ job, (f job).id = job.id)
    (hjobs : t.jobs = modifyJob s.jobs id f) (hclaimed : t.claimed.Nodup)
    (hknown : ∀ other, t.Mentions other → ∃ job ∈ s.jobs, job.id = other)
    (hgood : ∀ job ∈ s.jobs, job.id = id → (f job).Good t)
    (hothers : ∀ job ∈ s.jobs, job.id ≠ id → job.Good t) : Jobs t where
  ids := by rw [hjobs, map_id_modifyJob hf]; exact h.ids
  claimed := hclaimed
  known := by
    intro other hother
    obtain ⟨job, hjob, rfl⟩ := hknown other hother
    rw [hjobs]
    refine ⟨_, mem_modifyJob.2 ⟨job, hjob, rfl⟩, ?_⟩
    split
    · exact hf job
    · rfl
  good := by
    intro job hjob
    rw [hjobs] at hjob
    obtain ⟨old, hold, rfl⟩ := mem_modifyJob.1 hjob
    split
    · rename_i hid
      exact hgood old hold hid
    · rename_i hid
      exact hothers old hold hid

/-- No job is newly spoken of: the holder stays or goes, and what was not activated is the holder's. -/
lemma mentions_of_owner {jobs} (hactivated : ∀ id, Activated history id → s.Mentions id)
    (hholder : ∀ after, holder = some after → ∃ before, s.holder = some before ∧
      after.owner = before.owner) :
    ∀ id, State.Mentions ⟨catalog, jobs, s.claimed, holder, readings, answers, history⟩ id →
      s.Mentions id := by
  rintro id (hid | hid | ⟨after, hafter, hid⟩)
  · exact hactivated id hid
  · exact Or.inr (Or.inl hid)
  · obtain ⟨before, hbefore, howner⟩ := hholder after hafter
    exact Or.inr (Or.inr ⟨before, hbefore, howner ▸ hid⟩)

lemma same_owner (hs : s.holder = some ⟨owner, generation, phase⟩) :
    ∀ after, some (⟨owner, generation', phase'⟩ : Holder F) = some after →
      ∃ before, s.holder = some before ∧ after.owner = before.owner := by
  rintro after ⟨⟩
  exact ⟨_, hs, rfl⟩

/-- The holder goes on, or lets go, with its number if it has written it. -/
def GoesOn (s : State F) (holder : Option (Holder F)) : Prop :=
  ∀ after, holder = some after → ∃ before, s.holder = some before ∧ after.owner = before.owner ∧
    (after.phase.numbered → before.phase.numbered)

lemma Job.Good.continues {jobs} (h : job.Good s) (hholder : GoesOn s holder) :
    job.Good ⟨catalog, jobs, s.claimed, holder, readings, answers, s.history⟩ where
  claimed := h.claimed
  held := by
    intro after hafter hid
    obtain ⟨before, hbefore, howner, hnumbered⟩ := hholder after hafter
    obtain ⟨htaken, hother, hgeneration⟩ := h.held before hbefore (howner ▸ hid)
    exact ⟨htaken, hother, fun hphase => hgeneration (hnumbered hphase)⟩
  activated := h.activated

lemma Jobs.continues (h : Jobs s) (hholder : GoesOn s holder) :
    Jobs ⟨catalog, s.jobs, s.claimed, holder, readings, answers, s.history⟩ where
  ids := h.ids
  claimed := h.claimed
  known := by
    intro id hid
    refine h.known id (mentions_of_owner (fun _ hother => Or.inl hother) ?_ id hid)
    intro after hafter
    obtain ⟨before, hbefore, howner, _⟩ := hholder after hafter
    exact ⟨before, hbefore, howner⟩
  good := fun job hjob => (h.good job hjob).continues hholder

/-- The same owner in a phase in which nothing is claimed of the number. -/
lemma continues_of_owner (hs : s.holder = some ⟨owner, generation, phase⟩)
    (hphase : phase'.numbered → phase.numbered) :
    GoesOn s (some ⟨owner, generation', phase'⟩) := by
  rintro after ⟨⟩
  exact ⟨_, hs, rfl, hphase⟩

lemma Job.update_id (job : Job) (status : Status) (generation : Option Nat) (cancel : Bool) :
    (job.update status generation cancel).id = job.id := by
  unfold update
  split <;> rfl

lemma unfinished_of_taken (h : status.taken) : status.unfinished := by
  cases status <;> first | rfl | cases h

/-- The worker writes its progress. -/
lemma Job.taken_update (htaken : job.status.taken) (generation : Nat) :
    (job.update .running (some generation) false).status.taken ∧
      (job.update .running (some generation) false).generation = generation := by
  rw [update, if_pos (unfinished_of_taken htaken)]
  refine ⟨?_, rfl⟩
  split <;> rfl

lemma Job.Good.other {jobs} (h : job.Good s)
    (hholder : ∀ after, holder = some after → after.owner.jobID ≠ some job.id) :
    job.Good ⟨catalog, jobs, s.claimed, holder, readings, answers, s.history⟩ where
  claimed := h.claimed
  held := fun after hother hid => absurd hid (hholder after hother)
  activated := h.activated

lemma Jobs.progress (h : Jobs s) {id generation : Nat} {candidates rest} {harvested}
    (hs : s.holder = some ⟨.job id mode candidates, some generation, phase⟩)
    (hfresh : Activated s.history id = false) (hgeneration : generation ≠ 0) :
    Jobs ⟨catalog, modifyJob s.jobs id fun job => job.update .running (some generation) false,
      s.claimed, some ⟨.job id mode candidates, some generation, .building harvested rest⟩, readings,
      answers, s.history⟩ := by
  refine h.modify (fun job => job.update_id _ _ _) rfl h.claimed
    (fun other hother => h.known other (mentions_of_owner (fun _ hid => Or.inl hid) (same_owner hs)
      other hother)) ?_ ?_
  · rintro job hjob rfl
    obtain ⟨htaken, hother, _⟩ := (h.good job hjob).held _ hs rfl
    obtain ⟨htaken', hgeneration'⟩ := Job.taken_update htaken generation
    constructor
    · rw [Job.update_id]
      exact fun hmem => absurd hmem hother
    · intro holder _ _
      rw [Job.update_id, hgeneration']
      exact ⟨htaken', hother, fun _ => hgeneration⟩
    · rw [Job.update_id, hfresh]
      exact nofun
  · intro job hjob hne
    refine (h.good job hjob).other ?_
    rintro holder ⟨⟩ hid
    exact hne (Option.some.inj hid).symm

/-- A job without a change of its own ends in any way, with a number. -/
lemma Holder.Settled.generation_ne_zero {c : Catalog F} {history} {h : Holder F}
    (hsettled : h.Settled c history) (hid : h.owner.jobID = some id) {recorded : Nat} (hrecorded : recorded ≠ 0) :
    h.generation.getD recorded ≠ 0 := by
  rcases (hsettled id hid).2 with hgeneration | hgeneration
  · rw [hgeneration]
    exact hrecorded
  · rw [hgeneration]
    exact Nat.succ_ne_zero _

lemma Job.status_update_ne_queued (htaken : job.status.taken)
    (hstatus : status ≠ .queued) (generation : Option Nat) (cancel : Bool) :
    (job.update status generation cancel).status ≠ .queued := by
  rw [update, if_pos (unfinished_of_taken htaken)]
  split
  · exact nofun
  · exact hstatus

lemma Job.generation_update (htaken : job.status.taken) (status : Status)
    (generation : Option Nat) (cancel : Bool) :
    (job.update status generation cancel).generation = generation.getD job.generation := by
  rw [update, if_pos (unfinished_of_taken htaken)]

/-- The end of a job is written, as its generation stands. -/
lemma Jobs.persist (h : Jobs s) (hcontents : Contents s.catalog s.history s.holder) {ending : Ending}
    (hs : s.holder = some ⟨.job id mode candidates, generation, .ending ending⟩)
    (hstatus : ending.status = some status) :
    Jobs ⟨catalog, modifyJob s.jobs id fun job => job.update status generation (status = .cancelled),
      s.claimed, none, readings, answers, s.history⟩ := by
  refine h.modify (fun job => job.update_id _ _ _) rfl h.claimed
    (fun other hother => h.known other (mentions_of_owner (fun _ hid => Or.inl hid)
      (fun _ hafter => by cases hafter) other hother)) ?_ ?_
  · rintro job hjob rfl
    obtain ⟨htaken, hother, _⟩ := (h.good job hjob).held _ hs rfl
    have hgood := (h.good job hjob).activated
    constructor
    · rw [Job.update_id]
      exact fun hmem => absurd hmem hother
    · exact nofun
    · rw [Job.update_id]
      intro hactivated
      obtain ⟨_, hnumber, hstands⟩ := hgood hactivated
      cases ending with
      | succeed =>
        cases hstatus
        obtain ⟨hactive, hgeneration, harvested, before, after, rest, hlast⟩ := hcontents.holder _ hs
        have hback : TakenBack s.history job.id = false := by
          have hrecorded := hcontents.recorded
          rw [hlast] at hrecorded ⊢
          exact hrecorded.not_takenBack rfl
        obtain ⟨_, hcancel⟩ := hstands hback
        refine ⟨Job.status_update_ne_queued htaken (by decide) _ _, ?_, fun _ => ?_⟩
        · rw [Job.generation_update htaken, show generation = _ from hgeneration]
          exact hactive
        · rw [Job.update, if_pos (unfinished_of_taken htaken), hcancel]
          exact ⟨Or.inr rfl, rfl⟩
      | failing | cancel =>
        cases hstatus
        have hsettled := hcontents.holder _ hs
        refine ⟨Job.status_update_ne_queued htaken (by decide) _ _, ?_, fun hback => ?_⟩
        · rw [Job.generation_update htaken]
          exact Holder.Settled.generation_ne_zero hsettled rfl hnumber
        · rw [(hsettled job.id rfl).1 hactivated] at hback
          cases hback
      | fail | release => cases hstatus
  · exact fun job hjob _ => (h.good job hjob).other nofun

/-- The job of the holder activates its generation. -/
lemma Jobs.activate (h : Jobs s) {generation previous : Nat} {harvested before after}
    (hs : s.holder = some ⟨.job id mode candidates, some generation, .building harvested []⟩)
    (hjob : job ∈ s.jobs) (hid : job.id = id) (hstatus : job.status = .running)
    (hcancel : job.cancelRequested = false) :
    Jobs ⟨catalog, s.jobs, s.claimed,
      some ⟨.job id mode candidates, some generation, .activated previous⟩, readings, answers,
      .activated (.job id mode candidates) harvested before after :: s.history⟩ := by
  have hactivated : ∀ other, Activated (.activated (.job id mode candidates) harvested before after ::
      s.history) other = (decide (id = other) || Activated s.history other) := by
    intro other
    rw [activated_activated]
    congr 1
    exact decide_eq_decide.2 Option.some_inj
  constructor
  · exact h.ids
  · exact h.claimed
  · intro other hother
    refine h.known other (mentions_of_owner (fun id' hid' => ?_) (same_owner hs) other hother)
    rw [hactivated, Bool.or_eq_true, decide_eq_true_eq] at hid'
    rcases hid' with rfl | hid'
    · exact Or.inr (Or.inr ⟨_, hs, rfl⟩)
    · exact Or.inl hid'
  · intro other hother
    have hgood := h.good other hother
    constructor
    · -- the job of the holder is not claimed by another worker
      intro hmem
      obtain ⟨htaken, hfresh⟩ := hgood.claimed hmem
      have hne : id ≠ other.id := by
        rintro rfl
        exact (hgood.held _ hs rfl).2.1 hmem
      rw [hactivated, hfresh, decide_eq_false hne]
      exact ⟨htaken, rfl⟩
    · rintro holder ⟨⟩ howner
      obtain ⟨htaken, hmem, _⟩ := hgood.held _ hs howner
      exact ⟨htaken, hmem, nofun⟩
    · intro hact
      rw [hactivated, Bool.or_eq_true, decide_eq_true_eq] at hact
      rw [takenBack_activated]
      rcases hact with hown | hact
      · -- the row that the activation has just read
        have heq := h.eq_of_id hjob hother (hown.symm.trans hid.symm)
        subst heq
        obtain ⟨_, _, hnumber⟩ := hgood.held _ hs (congrArg some hown)
        refine ⟨?_, hnumber rfl, fun _ => ⟨Or.inl hstatus, hcancel⟩⟩
        rw [hstatus]
        exact nofun
      · exact hgood.activated hact

/-- A change that is no activation of a job. -/
lemma Jobs.change (h : Jobs s) (hs : s.holder = some ⟨owner, generation, phase⟩)
    (hactivated : ∀ id, Activated history id = Activated s.history id)
    (hback : ∀ id, TakenBack history id = false → TakenBack s.history id = false)
    (hphase : phase'.numbered = false) :
    Jobs ⟨catalog, s.jobs, s.claimed, some ⟨owner, generation', phase'⟩, readings, answers,
      history⟩ where
  ids := h.ids
  claimed := h.claimed
  known := by
    intro id hid
    refine h.known id (mentions_of_owner (fun id' hid' => ?_) (same_owner hs) id hid)
    exact Or.inl (hactivated id' ▸ hid')
  good := by
    intro job hjob
    have hgood := h.good job hjob
    constructor
    · rw [hactivated]
      exact hgood.claimed
    · rintro holder ⟨⟩ howner
      obtain ⟨htaken, hmem, _⟩ := hgood.held _ hs howner
      refine ⟨htaken, hmem, fun hnumbered => ?_⟩
      rw [hphase] at hnumbered
      cases hnumbered
    · rw [hactivated]
      intro hact
      obtain ⟨hqueued, hnumber, hstands⟩ := hgood.activated hact
      exact ⟨hqueued, hnumber, fun hnot => hstands (hback job.id hnot)⟩

lemma Jobs.work {label : Label} (h : Jobs s) (hcontents : Contents s.catalog s.history s.holder)
    (hwork : Work s label t) : Jobs t := by
  cases hwork with
  | record hholder =>
    have hplaced := Option.some.inj (hcontents.generations.holder _ hholder)
    exact h.progress hholder ((hcontents.holder _ hholder).1 _ rfl) (by omega)
  | progress hholder =>
    have hplaced := Option.some.inj (hcontents.generations.holder _ hholder)
    rw [hholder]
    exact h.progress hholder ((hcontents.holder _ hholder).1 _ rfl) (by omega)
  | activateJob hholder hjob hid hstatus hcancel =>
    exact h.activate hholder hjob hid hstatus hcancel
  | activateDeletion hholder =>
    exact h.change hholder (fun _ => rfl) (fun _ hback => hback) rfl
  | restore hholder =>
    refine h.change hholder (fun _ => rfl) (fun id hback => ?_) rfl
    rw [takenBack_restored, Bool.or_eq_false_iff] at hback
    exact hback.2
  | persist hholder hstatus => exact h.persist hcontents hholder hstatus
  | persistFailed hholder hstatus | release hholder => exact h.continues nofun
  | harvest hholder => exact h.continues (continues_of_owner hholder fun _ => rfl)
  | begin hholder | failCancelled hholder | beginFailed hholder | recordFailed hholder
  | buildFailed hholder | buildCancelled hholder | remove hholder | removeFailed hholder
  | activateFailed hholder | refresh hholder | refreshFailed hholder | prune hholder
  | pruneFailed hholder | discard hholder | discardFailed hholder | failRead hholder =>
    exact h.continues (continues_of_owner hholder nofun)

/-! ## Cancellations -/

/-- The number of an attempt: the next one until the activation, then the active one. -/
lemma Contents.attempt (h : Contents s.catalog s.history s.holder) {holder} {id generation : Nat}
    (hholder : s.holder = some holder) (howner : holder.owner.jobID = some id)
    (hgeneration : holder.generation = some generation) :
    generation = s.catalog.active + 1 ∧ (Activated s.history id → TakenBack s.history id) ∨
      generation = s.catalog.active ∧ s.catalog.active ≠ 0 ∧ Activated s.history id := by
  have hplaced := h.generations.holder holder hholder
  have haccounts := h.holder holder hholder
  obtain ⟨owner, number, phase⟩ := holder
  have hfirst (hfresh : owner.Fresh s.history) : Activated s.history id → TakenBack s.history id := by
    rw [hfresh id howner]
    exact nofun
  have hlast {harvested before after : List (Granule F)} {rest : List (Change F)}
      (hhistory : s.history = .activated owner harvested before after :: rest) :
      Activated s.history id := by
    rw [hhistory, activated_activated, decide_eq_true howner, Bool.true_or]
  cases phase with
  | ready => cases hgeneration.symm.trans hplaced
  | begun | building harvested rest =>
    exact Or.inl ⟨Option.some.inj (hgeneration.symm.trans hplaced), hfirst haccounts.1⟩
  | reduced =>
    obtain ⟨uri, hdeletion, _⟩ := haccounts
    rw [show owner = _ from hdeletion] at howner
    cases howner
  | activated previous | restoring previous =>
    obtain ⟨hactive, harvested, rest, hhistory⟩ := haccounts
    exact Or.inr ⟨Option.some.inj (hgeneration.symm.trans hplaced.1), hactive, hlast hhistory⟩
  | refreshed =>
    obtain ⟨hactive, hnumber, harvested, before, after, rest, hhistory⟩ := haccounts
    exact Or.inr ⟨Option.some.inj (hgeneration.symm.trans hnumber), hactive, hlast hhistory⟩
  | discarding =>
    exact Or.inl ⟨Option.some.inj (hgeneration.symm.trans hplaced), (haccounts.2 id howner).1⟩
  | ending ending =>
    by_cases hending : ending = .succeed
    · subst hending
      obtain ⟨hactive, hnumber, harvested, before, after, rest, hhistory⟩ := haccounts
      exact Or.inr ⟨Option.some.inj (hgeneration.symm.trans hnumber), hactive, hlast hhistory⟩
    · have hsettled : Holder.Settled s.catalog s.history ⟨owner, number, .ending ending⟩ := by
        cases ending with
        | succeed => exact absurd rfl hending
        | _ => exact haccounts
      obtain ⟨hback, hnone | hnumber⟩ := hsettled id howner
      · cases hgeneration.symm.trans hnone
      · exact Or.inl ⟨Option.some.inj (hgeneration.symm.trans hnumber), hback⟩

/-- A cancellation in time is refused exactly after the activation. -/
lemma refuses_iff (hcontents : Contents s.catalog s.history s.holder) (hjobs : Jobs s) (hjob : job ∈ s.jobs)
    (h : CancelInTime s job) : s.refuses job ↔ Activated s.history job.id := by
  obtain ⟨hunfinished, hback, hattempt⟩ := h
  have hgood := (hjobs.good job hjob).activated
  rw [State.refuses, Bool.and_eq_true, Bool.and_eq_true, decide_eq_true_eq, decide_eq_true_eq]
  by_cases htaken : job.status.taken
  · rcases hattempt htaken with hzero | ⟨holder, hholder, howner, hgeneration⟩
    · -- no number yet, so no activation
      refine iff_of_false (fun hrefuses => by omega) fun hactivated => ?_
      exact (hgood hactivated).2.1 hzero
    · rcases hcontents.attempt hholder howner hgeneration with ⟨hnext, hstands⟩ | ⟨hactive, hne, hactivated⟩
      · refine iff_of_false (fun hrefuses => by omega) fun hactivated => ?_
        rw [hstands hactivated] at hback
        cases hback
      · exact iff_of_true ⟨⟨by omega, htaken⟩, hactive.symm⟩ hactivated
  · -- an unfinished job that no worker has taken is queued
    refine iff_of_false (fun hrefuses => htaken hrefuses.1.2) fun hactivated => ?_
    have hqueued : job.status = .queued := by
      cases hstatus : job.status <;> rw [hstatus] at hunfinished htaken <;>
        first | rfl | exact absurd rfl htaken | cases hunfinished
    exact (hgood hactivated).1 hqueued

/-! ## Every step -/

lemma Job.cancel_id (job : Job) : job.cancel.id = job.id := by
  unfold Job.cancel
  split <;> rfl

lemma Job.taken_cancel (htaken : job.status.taken) : job.cancel.status.taken := by
  unfold Job.cancel
  cases hstatus : job.status <;> rw [hstatus] at htaken <;> first | rfl | cases htaken

lemma Job.generation_cancel (job : Job) : job.cancel.generation = job.generation := by
  unfold Job.cancel
  split <;> rfl

lemma Job.reset_id (job : Job) : job.reset.id = job.id := by
  unfold Job.reset
  split
  · rfl
  · split <;> rfl

/-- A restart leaves alone what no worker has and nobody cancels. -/
lemma Job.reset_of_activated (htaken : job.status.taken = false) (hqueued : job.status ≠ .queued) :
    job.reset = job := by
  unfold Job.reset
  cases hstatus : job.status <;> rw [hstatus] at htaken hqueued <;>
    first | exact absurd rfl hqueued | rfl | cases htaken

lemma Jobs.createJob (h : Jobs s) (hid : ∀ job ∈ s.jobs, job.id ≠ id) :
    Jobs { s with jobs := ⟨id, mode, .queued, 0, false⟩ :: s.jobs } := by
  -- nothing speaks of the new id
  have hnew : ¬ s.Mentions id := by
    intro hmentions
    obtain ⟨job, hjob, heq⟩ := h.known id hmentions
    exact hid job hjob heq
  constructor
  · refine nodup_cons.2 ⟨fun hmem => ?_, h.ids⟩
    obtain ⟨job, hjob, heq⟩ := mem_map.1 hmem
    exact hid job hjob heq
  · exact h.claimed
  · intro other hother
    obtain ⟨job, hjob, heq⟩ := h.known other hother
    exact ⟨job, mem_cons_of_mem _ hjob, heq⟩
  · intro job hjob
    rcases mem_cons.1 hjob with rfl | hjob
    · constructor
      · exact fun hmem => absurd (Or.inr (Or.inl hmem)) hnew
      · exact fun holder hholder howner => absurd (Or.inr (Or.inr ⟨holder, hholder, howner⟩)) hnew
      · exact fun hactivated => absurd (Or.inl hactivated) hnew
    · exact ⟨(h.good job hjob).claimed, (h.good job hjob).held, (h.good job hjob).activated⟩

lemma Jobs.claim (h : Jobs s) (hjob : job ∈ s.jobs) (hstatus : job.status = .queued) :
    Jobs { s with
      jobs := modifyJob s.jobs job.id fun job => { job with status := .running }
      claimed := job.id :: s.claimed } := by
  have hgood := h.good job hjob
  -- a queued job is with no worker and has activated nothing
  have hclaimed : job.id ∉ s.claimed := by
    intro hmem
    have htaken := (hgood.claimed hmem).1
    rw [hstatus] at htaken
    cases htaken
  have hheld : ∀ holder, s.holder = some holder → holder.owner.jobID ≠ some job.id := by
    intro holder hholder howner
    have htaken := (hgood.held holder hholder howner).1
    rw [hstatus] at htaken
    cases htaken
  have hfresh : Activated s.history job.id = false := by
    by_contra hactivated
    exact (hgood.activated (Bool.not_eq_false _ ▸ hactivated)).1 hstatus
  have hid : ∀ job : Job, ({ job with status := .running } : Job).id = job.id := fun _ => rfl
  refine h.modify hid rfl (nodup_cons.2 ⟨hclaimed, h.claimed⟩) ?_ ?_ ?_
  · rintro other (hother | hother | hother)
    · exact h.known other (Or.inl hother)
    · rcases mem_cons.1 hother with rfl | hother
      · exact ⟨job, hjob, rfl⟩
      · exact h.known other (Or.inr (Or.inl hother))
    · exact h.known other (Or.inr (Or.inr hother))
  · intro other hother hid
    constructor
    · rw [show Job.id { other with status := .running } = job.id from hid]
      exact fun _ => ⟨rfl, hfresh⟩
    · exact fun holder hholder howner => absurd (howner.trans (congrArg some hid)) (hheld holder hholder)
    · rw [show Job.id { other with status := .running } = job.id from hid]
      intro hactivated
      rw [hfresh] at hactivated
      cases hactivated
  · intro other hother hne
    have hgood := h.good other hother
    constructor
    · intro hmem
      rcases mem_cons.1 hmem with heq | hmem
      · exact absurd heq hne
      · exact hgood.claimed hmem
    · intro holder hholder howner
      obtain ⟨htaken, hmem, hnumbered⟩ := hgood.held holder hholder howner
      refine ⟨htaken, fun hmem' => ?_, hnumbered⟩
      rcases mem_cons.1 hmem' with heq | hmem'
      · exact hne heq
      · exact hmem hmem'
    · exact hgood.activated

/-- A worker gets the lock for a job that it has claimed. -/
lemma Jobs.start (h : Jobs s) (hclaimed : job.id ∈ s.claimed) (hphase : phase.numbered = false) :
    Jobs ⟨catalog, s.jobs, s.claimed.erase job.id,
      some ⟨.job job.id job.mode candidates, none, phase⟩, readings, answers, s.history⟩ := by
  constructor
  · exact h.ids
  · exact h.claimed.erase _
  · rintro other (hother | hother | ⟨holder, ⟨⟩, howner⟩)
    · exact h.known other (Or.inl hother)
    · exact h.known other (Or.inr (Or.inl (mem_of_mem_erase hother)))
    · exact h.known other (Or.inr (Or.inl (Option.some.inj howner ▸ hclaimed)))
  · intro other hother
    have hgood := h.good other hother
    constructor
    · exact fun hother => hgood.claimed (mem_of_mem_erase hother)
    · rintro holder ⟨⟩ howner
      have hid : job.id = other.id := Option.some.inj howner
      refine ⟨(hgood.claimed (hid ▸ hclaimed)).1, ?_, ?_⟩
      · rw [← hid]
        exact h.claimed.not_mem_erase
      · rw [show Phase.numbered _ = false from hphase]
        exact nofun
    · exact hgood.activated

lemma Jobs.startDelete (h : Jobs s) {uri : Str} :
    Jobs ⟨catalog, s.jobs, s.claimed, some ⟨.deletion uri, none, phase⟩, readings, answers,
      s.history⟩ where
  ids := h.ids
  claimed := h.claimed
  known := by
    rintro other (hother | hother | ⟨holder, ⟨⟩, howner⟩)
    · exact h.known other (Or.inl hother)
    · exact h.known other (Or.inr (Or.inl hother))
    · cases howner
  good := by
    intro job hjob
    refine (h.good job hjob).other ?_
    rintro holder ⟨⟩
    exact nofun

/-- A cancellation that is not refused comes before the activation. -/
lemma Jobs.cancel (h : Jobs s) (hfresh : Activated s.history job.id = false) :
    Jobs { s with jobs := modifyJob s.jobs job.id Job.cancel } := by
  refine h.modify Job.cancel_id rfl h.claimed h.known ?_ ?_
  · intro other hother hid
    have hgood := h.good other hother
    constructor
    · rw [Job.cancel_id]
      exact fun hmem => ⟨Job.taken_cancel (hgood.claimed hmem).1, (hgood.claimed hmem).2⟩
    · rw [Job.cancel_id]
      intro holder hholder howner
      obtain ⟨htaken, hmem, hnumbered⟩ := hgood.held holder hholder howner
      rw [Job.generation_cancel]
      exact ⟨Job.taken_cancel htaken, hmem, hnumbered⟩
    · rw [Job.cancel_id, hid]
      intro hactivated
      rw [show Activated s.history job.id = false from hfresh] at hactivated
      cases hactivated
  · intro other hother _
    exact ⟨(h.good other hother).claimed, (h.good other hother).held, (h.good other hother).activated⟩

lemma Jobs.restart (h : Jobs s)
    (hcareful : ∀ job ∈ s.jobs, job.status.taken → Activated s.history job.id = false) :
    Jobs { s with jobs := s.jobs.map Job.reset, claimed := [], holder := none, readings := [] } := by
  have hids : (s.jobs.map Job.reset).map Job.id = s.jobs.map Job.id := by
    rw [map_map]
    exact map_congr_left fun job _ => job.reset_id
  constructor
  · show ((s.jobs.map Job.reset).map Job.id).Nodup
    rw [hids]
    exact h.ids
  · exact nodup_nil
  · rintro other (hother | hother | ⟨holder, hholder, _⟩)
    · obtain ⟨job, hjob, rfl⟩ := h.known other (Or.inl hother)
      exact ⟨job.reset, mem_map_of_mem hjob, job.reset_id⟩
    · cases hother
    · cases hholder
  · intro job hjob
    obtain ⟨old, hold, rfl⟩ := mem_map.1 hjob
    constructor
    · exact nofun
    · exact nofun
    · rw [Job.reset_id]
      intro hactivated
      have hgood := (h.good old hold).activated hactivated
      -- an activated job is with no worker, by the condition, and so finished
      have htaken : old.status.taken = false := by
        by_contra htaken
        have hfresh := hcareful old hold (Bool.not_eq_false _ ▸ htaken)
        rw [show Activated s.history old.id = true from hactivated] at hfresh
        cases hfresh
      rw [Job.reset_of_activated htaken hgood.1]
      exact hgood

/-! ## Whole runs -/

/-- The invariant. -/
structure Harvests (s : State F) : Prop where
  contents : Contents s.catalog s.history s.holder
  jobs : Jobs s

lemma Harvests.observe (h : Harvests s) : Harvests s.observe :=
  ⟨h.contents,
    h.jobs.continues fun after hafter => ⟨after, hafter, rfl, fun hphase => hphase⟩⟩

lemma Harvests.empty : Harvests (State.empty F) where
  contents := ⟨Generations.empty, rfl, .nil, nofun⟩
  jobs := by
    refine ⟨nodup_nil, nodup_nil, ?_, nofun⟩
    rintro id (hid | hid | ⟨_, hid, _⟩) <;> cases hid

lemma Harvests.accounted (h : Harvests s) : Accounted s where
  current := h.contents.current
  recorded := h.contents.recorded
  ended := by
    intro job hjob hended hactivated
    by_contra hback
    obtain ⟨hstatus, _⟩ := ((h.jobs.good job hjob).activated hactivated).2.2 (Bool.not_eq_true _ ▸ hback)
    rcases hended with hended | hended <;> rcases hstatus with hstatus | hstatus <;>
      cases hended.symm.trans hstatus
  cancel := fun job hjob hcancel => refuses_iff h.contents h.jobs hjob hcancel

section Runs

variable [LE F] [DecidableLE F] [DecidableEq F]

lemma Harvests.step {s t : State F} {label : Label} (h : Harvests s) (hstep : Step s label t)
    (hcareful : Careful s label) : Harvests t := by
  have hgenerations := h.contents.generations.step hstep
  cases hstep with
  | work hwork => exact ⟨h.contents.work hwork, h.jobs.work h.contents hwork⟩
  | createJob hid => exact ⟨h.contents, h.jobs.createJob hid⟩
  | claim hjob hstatus => exact ⟨h.contents, h.jobs.claim hjob hstatus⟩
  | @start job candidates hlock hclaimed hjob hcandidates =>
    refine ⟨h.contents.move hgenerations ⟨?_, hcandidates⟩,
      h.jobs.start hclaimed rfl⟩
    rintro id ⟨⟩
    exact ((h.jobs.good job hjob).claimed hclaimed).2
  | @startFailed job hlock hclaimed hjob =>
    refine ⟨h.contents.move hgenerations (settled_of_fresh ?_ (Or.inl rfl)),
      h.jobs.start hclaimed rfl⟩
    rintro id ⟨⟩
    exact ((h.jobs.good job hjob).claimed hclaimed).2
  | startDelete =>
    exact ⟨h.contents.move hgenerations ⟨nofun, nodup_nil⟩, h.jobs.startDelete⟩
  | @cancel job hjob hrefuses =>
    refine ⟨h.contents, h.jobs.cancel ?_⟩
    by_contra hactivated
    rw [(refuses_iff h.contents h.jobs hjob (hcareful job hjob rfl)).2 (Bool.not_eq_false _ ▸ hactivated)]
      at hrefuses
    cases hrefuses
  | cancelRefused => exact h
  | restart =>
    exact ⟨h.contents.free, h.jobs.restart hcareful⟩
  | restoreFailed => exact absurd hcareful id
  | readActive | readRows hreading | listNothing hreading hquery hgeneration | readFailed hreading =>
    exact ⟨h.contents,
      h.jobs.continues fun after hafter => ⟨after, hafter, rfl, fun hphase => hphase⟩⟩

/-- In every run of careful steps the active set is accounted for, by whole activations that stand or
were taken back. -/
theorem accounted_of_reachable {s : State F}
    (h : ((machine F).restrict fun s label _ => Careful s label).Reachable s) : Accounted s := by
  have hharvests : Harvests s := by
    refine Machine.Reachable.induct (I := Harvests) ?_ ?_ h
    · rintro s rfl
      exact Harvests.empty
    · rintro s label t _ hs ⟨⟨u, hstep, rfl⟩, hcareful⟩
      exact (hs.step hstep hcareful).observe
  exact hharvests.accounted

end Runs

lemma careful_of_plain {label : Label} (h : label.plain) : Careful s label := by
  cases label with
  | cancel id | restart | restoreFailed => cases h
  | _ => trivial

/-- A harvest that nobody disturbs. -/
theorem accounted_of_harvest : Accounted harvested := by
  refine accounted_of_reachable (harvested_reachable fun _ _ _ _ hplain => ?_)
  exact careful_of_plain hplain

/-- After a crash behind its activation a job is queued again, is cancelled and has changed the set. -/
theorem harvest_unaccounted : ∃ s : State Int, (machine Int).Reachable s ∧ ¬ Accounted s := by
  have h0 : ((machine Int).restrict fun _ _ _ => True).Reachable activating :=
    activating_reachable fun _ _ _ _ _ => trivial
  have h1 := h0.of_restrict.step ⟨_, .restart, rfl⟩
  have h2 := h1.step ⟨_, .cancel (show (⟨7, .synchronize, .queued, 1, false⟩ : Job) ∈ _ from
    mem_cons_self) rfl, rfl⟩
  refine ⟨_, h2, fun h => ?_⟩
  have hback := h.ended ⟨7, .synchronize, .cancelled, 1, true⟩ mem_cons_self (Or.inr rfl) rfl
  cases hback

end NeoServer.Mosaic
