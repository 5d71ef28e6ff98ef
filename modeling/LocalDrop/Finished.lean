import LocalDrop.Expiry
import LocalDrop.Files

/-! Finished transfers and their staged files. A completed transfer deletes its
file; a failed one leaves it until the job is pruned or the file expires. -/
namespace LocalDrop
open Lib

/-- The job in `slot` has reached its end, and was enqueued with `path`. -/
def Process.Finished (process : Process) (slot : Slot) (path : CString) : Prop :=
  (process.world.queue.jobs slot).inUse = true ∧
    (process.world.queue.jobs slot).terminal = true ∧
    (QueueOrder.origin process.world.queue slot).map TransferRequest.filepath = some path

instance (process : Process) (slot : Slot) (path : CString) :
    Decidable (process.Finished slot path) := by
  unfold Process.Finished
  infer_instance

def FinishedGone (process : Process) : Prop :=
  ∀ slot path, process.Finished slot path → process.world.fs path = none

/-- A send that fails finds its file already gone. -/
def FailsWithoutFile (process : Process) : Event → Prop
  | .workerDone false => ∀ slot, process.world.queue.worker = .sending slot →
      process.world.fs (process.world.queue.jobs slot).filepath.str = none
  | _ => True

/-- The step stages nothing under the name a finished job's file had. -/
def StagesElsewhere (process : Process) (event : Event) : Prop :=
  ∀ after entries, next process event = some (after, entries) →
    ∀ path ∈ stagedPaths entries, ∀ slot, ¬ process.Finished slot path

def LeavesNothing (process : Process) (event : Event) : Prop :=
  FailsWithoutFile process event ∧ StagesElsewhere process event

/-- Every job stems from a request whose file was staged, and has the file's path
until it completes. -/
def JobsStaged (process : Process) : Prop :=
  ∀ slot, (process.world.queue.jobs slot).inUse = true →
    ∃ request, QueueOrder.origin process.world.queue slot = some request ∧
      isStagingEntry request.filepath = true ∧
      ((process.world.queue.jobs slot).status ≠ .completed →
        (process.world.queue.jobs slot).filepath.str = request.filepath)

theorem jobsStaged_next {process after : Process} {event : Event} {entries : List Entry}
    (htracked : Tracked process) (hjobs : JobsStaged process)
    (h : next process event = some (after, entries)) : JobsStaged after := by
  intro slot huse
  rcases next_queue htracked.wellformed htracked.queue.requests h with
    heq | ⟨queueEvent, hevent, hqueue⟩
  · rw [heq] at huse ⊢
    exact hjobs slot huse
  · cases QueueOrder.jobChange_step slot htracked.queue.inv hqueue with
    | kept job same =>
        rw [job] at huse ⊢
        obtain ⟨request, horigin, hrest⟩ := hjobs slot huse
        exact ⟨request, same request horigin, hrest⟩
    | worked active status inUse jobId filepath same =>
        have hwas : (process.world.queue.jobs slot).inUse = true := by
          rw [htracked.queue.inv.inUse]
          rcases active with hstatus | hstatus <;> simp [hstatus]
        obtain ⟨request, horigin, hentry, hpath⟩ := hjobs slot hwas
        refine ⟨request, same.trans horigin, hentry, fun _ => ?_⟩
        rw [filepath]
        refine hpath ?_
        rcases active with hstatus | hstatus <;> simp [hstatus]
    | ended success now done worker job same =>
        have hstatus := (htracked.queue.inv.progress slot).mpr (.inr worker)
        obtain ⟨request, horigin, hentry, hpath⟩ :=
          hjobs slot (htracked.queue.inv.busy_inUse (.inr worker))
        refine ⟨request, same.trans horigin, hentry, fun hnot => ?_⟩
        cases success with
        | true => exact absurd (by rw [job]; rfl) hnot
        | false =>
            rw [job]
            exact hpath (by simp [hstatus])
    | pruned request now random enqueue due job =>
        rw [job] at huse
        contradiction
    | created request token now random enqueue free answer job new =>
        subst enqueue
        obtain ⟨id, giver, hgiver, hhanding, hfilepath⟩ := hevent
        obtain ⟨hfilename, hne, -⟩ :=
          (htracked.wellformed.requests id giver hgiver).handing hhanding
        have hheld : process.ledger.held (.request id) =
            some giver.info.uploadStage.stagingPath.str := by
          simp [Process.ledger, ledgerOf, hgiver, Request.holds, hhanding, hne]
        refine ⟨request, new, ?_, fun _ => ?_⟩
        · rw [hfilepath, hfilename]
          exact htracked.entries _ _ hheld
        · rw [job]
          change (copyString request.filepath : Chars 512).str = request.filepath
          rw [hfilepath, copyString_str]

theorem absent_next {process after : Process} {event : Event} {entries : List Entry}
    (htracked : Tracked process) (h : next process event = some (after, entries))
    {path : CString} (hentry : isStagingEntry path = true)
    (habsent : process.world.fs path = none) (hstaged : path ∉ stagedPaths entries) :
    after.world.fs path = none := by
  cases next_files htracked.wellformed htracked.entries h path with
  | same creator => simpa [habsent] using creator
  | gone entry absent => exact absent
  | staged id route logged creator =>
      exact absurd (mem_stagedPaths logged) hstaged
  | committed id name source logged target held was creator =>
      rw [target, isStagingEntry_committedPath] at hentry
      contradiction

theorem JobsStaged.finished {process : Process} (h : JobsStaged process) {slot : Slot}
    {path : CString} (hfinished : process.Finished slot path) : isStagingEntry path = true := by
  obtain ⟨huse, -, hpath⟩ := hfinished
  obtain ⟨request, horigin, hentry, -⟩ := h slot huse
  rw [horigin, Option.map_some, Option.some.injEq] at hpath
  exact hpath ▸ hentry

theorem workerDone_sending {queue : TransferQueue} {slot : Slot} (hinv : QueueOrder.Inv queue)
    (hworker : queue.worker = .sending slot) (success : Bool) (now : Int) :
    workerDone queue success now = some (
      { queue with
        worker := .idle
        jobs := Function.update queue.jobs slot
          (if success then (queue.jobs slot).completed now else (queue.jobs slot).failed now) },
      if success ∧ (queue.jobs slot).filepath.str ≠ CString.empty then
        [(slot, (queue.jobs slot).filepath.str)] else []) := by
  have huse := hinv.busy_inUse (.inr hworker)
  cases success <;> simp [workerDone, hworker, huse]

structure Finishing (process : Process) : Prop where
  tracked : Tracked process
  jobs : JobsStaged process

theorem Started.not_inUse {process : Process} (h : Started process) (slot : Slot) :
    (process.world.queue.jobs slot).inUse ≠ true := by
  rw [h.queue]
  change (default : TransferJob).inUse ≠ true
  decide

theorem Started.finishing {process : Process} (h : Started process) : Finishing process where
  tracked := h.tracked
  jobs slot huse := absurd huse (h.not_inUse slot)

theorem finishing_step (process : Process) (event : Event) (after : Process)
    (h : Finishing process) (hstep : step process event = some after) : Finishing after := by
  refine ⟨tracked_step process event after h.tracked hstep, ?_⟩
  obtain ⟨settled, entries, hnext, rfl⟩ := step_eq_some hstep
  have hjobs := jobsStaged_next h.tracked h.jobs hnext
  exact hjobs

theorem done_next {process after : Process} {success : Bool} {entries : List Entry} {slot : Slot}
    (path : CString) (h : Finishing process)
    (hworker : process.world.queue.worker = .sending slot)
    (hpath : (QueueOrder.origin process.world.queue slot).map TransferRequest.filepath = some path)
    (hnext : next process (.workerDone success) = some (after, entries)) :
    after.Finished slot path ∧ path = (process.world.queue.jobs slot).filepath.str ∧
      (after.world.fs path = none ↔ success = true ∨ process.world.fs path = none) := by
  have hinv := h.tracked.queue.inv
  have huse := hinv.busy_inUse (.inr hworker)
  obtain ⟨request, horigin, hentry, hfile⟩ := h.jobs slot huse
  rw [horigin, Option.map_some, Option.some.injEq] at hpath
  subst hpath
  have hfile := hfile (by simp [(hinv.progress slot).mpr (.inr hworker)])
  have hne := isStagingEntry_ne_empty hentry
  cases next_steps hnext with
  | workerDone _ result ends =>
      rw [workerDone_sending hinv hworker, Option.some.injEq] at ends
      subst ends
      refine ⟨⟨?_, ?_, ?_⟩, hfile.symm, ?_⟩
      · cases success <;> simp [TransferJob.completed, TransferJob.failed, huse]
      · cases success <;> simp [TransferJob.terminal, TransferJob.completed, TransferJob.failed]
      · change (QueueOrder.origin process.world.queue slot).map TransferRequest.filepath = _
        rw [horigin]
        rfl
      · simp only [deleteAll_apply, hfile]
        cases success <;> simp [hne]

theorem finishedGone_step_iff (process : Process) (event : Event) (after : Process)
    (h : Finishing process) (hgone : FinishedGone process)
    (hstep : step process event = some after) :
    FinishedGone after ↔ LeavesNothing process event := by
  obtain ⟨settled, entries, hnext, rfl⟩ := step_eq_some hstep
  constructor
  · intro hafter
    refine ⟨?_, ?_⟩
    · unfold FailsWithoutFile
      split
      · intro slot hworker
        obtain ⟨request, horigin, -, -⟩ :=
          h.jobs slot (h.tracked.queue.inv.busy_inUse (.inr hworker))
        obtain ⟨hfinished, hfile, hiff⟩ := done_next request.filepath h hworker
          (by rw [horigin]; rfl) hnext
        rw [← hfile]
        simpa using hiff.mp (hafter slot _ hfinished)
      · trivial
    · intro found foundEntries hfound path hstaged slot hfinished
      rw [hnext, Option.some.injEq, Prod.mk.injEq] at hfound
      obtain ⟨rfl, rfl⟩ := hfound
      cases next_moves h.tracked.wellformed hnext with
      | creates id staged entry move names creator queue =>
          rw [names, List.mem_singleton] at hstaged
          subst hstaged
          have hstill : settled.Finished slot path := by
            unfold Process.Finished at hfinished ⊢
            rw [queue]
            exact hfinished
          have hnone : settled.world.fs path = none := hafter slot path hstill
          simp [hnone] at creator
      | drops move names => simp [names] at hstaged
      | handsOver middle id slot' staged drop move names => simp [names] at hstaged
      | expires move cleanup names => simp [names] at hstaged
  · rintro ⟨hfails, hstages⟩ slot path hfinished
    change settled.Finished slot path at hfinished
    change settled.world.fs path = none
    -- A job that had finished before the step.
    have hold : process.Finished slot path → settled.world.fs path = none := by
      intro hwas
      exact absent_next h.tracked hnext (h.jobs.finished hwas) (hgone slot path hwas)
        fun hstaged => hstages settled entries hnext path hstaged slot hwas
    obtain ⟨huse, hterminal, hpath⟩ := hfinished
    rcases next_queue h.tracked.wellformed h.tracked.queue.requests hnext with
      heq | ⟨queueEvent, hevent, hqueue⟩
    · rw [heq] at huse hterminal hpath
      exact hold ⟨huse, hterminal, hpath⟩
    · cases QueueOrder.jobChange_step slot h.tracked.queue.inv hqueue with
      | kept job same =>
          rw [job] at huse hterminal
          obtain ⟨request, horigin, -, -⟩ := h.jobs slot huse
          rw [same request horigin] at hpath
          exact hold ⟨huse, hterminal, by rw [horigin]; exact hpath⟩
      | worked active status inUse jobId filepath same =>
          simp [TransferJob.terminal, status] at hterminal
      | ended success now done worker job same =>
          subst done
          cases hevent
          rw [same] at hpath
          obtain ⟨-, hfile, hiff⟩ := done_next _ h worker hpath hnext
          refine hiff.mpr ?_
          cases success with
          | true => exact .inl rfl
          | false => exact .inr (hfile ▸ hfails slot worker)
      | pruned request now random enqueue due job =>
          rw [job] at huse
          contradiction
      | created request token now random enqueue free answer job new =>
          rw [job] at hterminal
          contradiction

/-- Along every run the finished transfers leave nothing in `staging/` exactly when
every send that fails finds its file already gone, and no upload reuses the name of
a finished transfer's file. -/
theorem finished_gone_iff {start : Process} {events : List Event} (hstart : Started start) :
    Always step FinishedGone start events ↔ Meets step LeavesNothing start events := by
  apply always_iff_meets_of_invariant finishing_step finishedGone_step_iff hstart.finishing
  intro slot path hfinished
  exact absurd hfinished.1 (hstart.not_inUse slot)

instance (process : Process) (event : Event) : Decidable (FailsWithoutFile process event) := by
  unfold FailsWithoutFile
  split <;> infer_instance

instance (process : Process) (event : Event) : Decidable (StagesElsewhere process event) :=
  decidable_of_iff (∀ result ∈ next process event, ∀ path ∈ stagedPaths result.2,
      ∀ slot, ¬ process.Finished slot path)
    ⟨fun h after entries hnext => h (after, entries) hnext, fun h result => h result.1 result.2⟩

instance (process : Process) (event : Event) : Decidable (LeavesNothing process event) :=
  inferInstanceAs (Decidable (_ ∧ _))

def sendOne (success : Bool) : List Event :=
  unlocking 0 7 ++ exchanging 1 8 ++ sending 2 (sampleToken 7) "a.txt" 9 ++
    [sampleProceed 2 0, sampleProceed 2 11, .completed 2, .workerTake, .workerCall,
      .workerDone success]

theorem sendOne_gone : (run step sampleStart (sendOne true)).isSome = true ∧
    Always step FinishedGone sampleStart (sendOne true) :=
  ⟨by decide +kernel, (finished_gone_iff sampleStart_started).mpr (by decide +kernel)⟩

def sentPath : CString := .lit "staging/1000_0909090909090909_a.txt"

theorem sendOne_failed_kept : ∃ process, run step sampleStart (sendOne false) = some process ∧
    (process.world.queue.jobs 0).status = .failed ∧ process.Finished 0 sentPath ∧
    process.world.fs sentPath ≠ none ∧ ¬ FinishedGone process := by
  obtain ⟨process, hrun⟩ : ∃ process, run step sampleStart (sendOne false) = some process :=
    Option.isSome_iff_exists.mp (by decide +kernel)
  have hfacts : (run step sampleStart (sendOne false)).all (fun process =>
      (process.world.queue.jobs 0).status = .failed ∧ process.Finished 0 sentPath ∧
        process.world.fs sentPath ≠ none) = true := by decide +kernel
  rw [hrun] at hfacts
  simp only [Option.all_some, decide_eq_true_eq] at hfacts
  obtain ⟨hfailed, hfinished, hkept⟩ := hfacts
  exact ⟨process, hrun, hfailed, hfinished, hkept, fun hgone => hkept (hgone 0 _ hfinished)⟩

end LocalDrop
