import Mathlib.Algebra.BigOperators.Group.Finset.Basic
import LocalDrop.Finished
import LocalDrop.ProcessQueue

/-! The end of `main`: the server has stopped, every request comes to its end, then the queue is
shut down and its worker is joined. What is left to do is counted, nothing that happens adds to
it, and as long as there is anything left some thread can go on. -/
namespace LocalDrop
open Lib

/-- Steps until the request is released, and those of the worker for the job it may still
enqueue. -/
def Phase.remaining : Phase → Nat
  | .receiving => 1
  | .exchangeAdd _ _ _ => 3
  | .exchangeMark _ _ _ => 2
  | .pairRemote _ _ => 4
  | .pairStore _ _ _ _ => 3
  | .pairMark _ => 2
  | .sendCleanup _ _ => 6
  | .sendEnqueue _ _ => 5
  | .answered _ => 1

def Worker.remaining : Worker → Nat
  | .idle => 1
  | .claimed _ => 3
  | .sending _ => 2
  | .exited => 0

def TransferQueue.remaining (queue : TransferQueue) : Nat :=
  3 * queue.queueCount + queue.worker.remaining + queue.running.toNat

def requestRemaining : Option Request → Nat
  | none => 0
  | some request => request.phase.remaining

def Process.remaining (process : Process) : Nat :=
  (Finset.range process.nextId).sum (fun id => requestRemaining (process.requests id)) +
    process.world.queue.remaining

/-- The steps of the request threads and of the worker; a progress report ends nothing. -/
def Event.advances : Event → Bool
  | .proceed _ _ => true
  | .completed _ => true
  | .workerTake => true
  | .workerCall => true
  | .workerDone _ => true
  | .workerExit => true
  | _ => false

def Process.Ended (process : Process) : Prop :=
  (∀ id, process.requests id = none) ∧ process.world.queue.worker = .exited

theorem Request.remaining_of_releasable {request : Request} (h : request.releasable = true) :
    request.phase.remaining = 1 := by
  unfold Request.releasable at h
  split at h
  · rename_i hphase
    rw [hphase]
    rfl
  · rename_i hphase
    rw [hphase]
    rfl
  · contradiction

theorem sum_requestRemaining_update {requests : Nat → Option Request} {id count : Nat}
    (hid : id < count) (changed : Option Request) :
    (Finset.range count).sum
          (fun other => requestRemaining (Function.update requests id changed other)) +
        requestRemaining (requests id) =
      (Finset.range count).sum (fun other => requestRemaining (requests other)) +
        requestRemaining changed := by
  have hmem := Finset.mem_range.mpr hid
  have hsame : ∀ other ∈ (Finset.range count).erase id,
      requestRemaining (Function.update requests id changed other) =
        requestRemaining (requests other) := by
    intro other hother
    rw [Function.update_of_ne (Finset.ne_of_mem_erase hother)]
  rw [← Finset.add_sum_erase _ _ hmem, ← Finset.add_sum_erase _ _ hmem,
    Finset.sum_congr rfl hsame, Function.update_self]
  omega

section queue
variable {queue queue' : TransferQueue} {now : Int}

theorem workerTake_remaining (h : workerTake queue now = some queue') :
    queue'.remaining + 1 ≤ queue.remaining := by
  unfold workerTake at h
  split at h
  · rename_i henabled
    dsimp only at h
    split at h <;> cases Option.some.inj h <;>
      simp only [TransferQueue.remaining, Worker.remaining, henabled.1] <;> omega
  · contradiction

theorem workerCall_remaining (h : workerCall queue = some queue') :
    queue'.remaining + 1 ≤ queue.remaining := by
  unfold workerCall at h
  split at h
  · rename_i hworker
    cases Option.some.inj h
    simp only [TransferQueue.remaining, Worker.remaining, hworker]
    omega
  · contradiction

theorem transferJobProgress_remaining {bytesSent totalBytes : Nat}
    (h : transferJobProgress queue bytesSent totalBytes now = some queue') :
    queue'.remaining = queue.remaining := by
  unfold transferJobProgress at h
  split at h
  · split at h <;> cases Option.some.inj h <;> rfl
  · contradiction

theorem workerDone_remaining {success : Bool} {result : TransferQueue × Deletions}
    (h : workerDone queue success now = some result) :
    result.1.remaining + 1 ≤ queue.remaining := by
  unfold workerDone at h
  split at h
  · rename_i hworker
    dsimp only at h
    repeat' split at h
    all_goals
      cases Option.some.inj h
      simp only [TransferQueue.remaining, Worker.remaining, hworker]
      omega
  · contradiction

theorem workerExit_remaining (h : workerExit queue = some queue') :
    queue'.remaining + 1 ≤ queue.remaining := by
  unfold workerExit at h
  split at h
  · rename_i henabled
    cases Option.some.inj h
    simp only [TransferQueue.remaining, Worker.remaining, henabled.1]
    omega
  · contradiction

theorem transferEnqueue_remaining (queue : TransferQueue) (request : TransferRequest) (now : Int)
    (random : RandomBytes 8) :
    (transferEnqueue queue request now random).1.remaining ≤ queue.remaining +
      if (transferEnqueue queue request now random).2.2.isSome then 3 else 0 := by
  rcases transferEnqueue_cases queue request now random with
    heq | heq | ⟨slot, token, -, -, heq⟩ <;> rw [heq]
  · exact Nat.le_refl _
  · exact Nat.le_refl _
  · simp only [TransferQueue.remaining, appendPending, Option.isSome_some, if_true]
    omega

end queue

/-- The server has stopped; what comes is the end of what has been begun. -/
structure Stopping (process : Process) : Prop where
  stopped : process.serving = false
  wellformed : Wellformed process
  queue : QueueOk process

theorem stopping_step (process : Process) (event : Event) (after : Process)
    (h : Stopping process) (hstep : step process event = some after) : Stopping after := by
  obtain ⟨settled, entries, hnext, rfl⟩ := step_eq_some hstep
  have hwf := next_wellformed h.wellformed hnext
  have hok := queueOk_next h.wellformed h.queue hnext
  refine ⟨?_, ⟨hwf.requests, hwf.ids⟩, ⟨hok.inv, hok.requests, hok.serving⟩⟩
  rw [Bool.eq_false_iff]
  intro hserving
  have hwas := (next_requests hnext).1 hserving
  rw [h.stopped] at hwas
  contradiction

/-- A handler that goes on has one step less to do, or leaves some of them to the worker. -/
theorem proceed_remaining {world : World} {id : Nat} {request : Request} {env : ProceedEnv}
    {outcome : Outcome} (h : proceed world id request env = some outcome) :
    outcome.2.1.phase.remaining + outcome.1.queue.remaining + 1 ≤
      request.phase.remaining + world.queue.remaining := by
  cases proceed_proceeds h with
  | exchangeAdd phase | exchangeMark phase | pairAccepted phase | pairStore phase | pairMark phase
  | pairRefused phase | sendCleanup phase =>
      rw [phase]
      simp only [Phase.remaining, Request.answer]
      omega
  | @sendRefused port token queue deleted phase refused =>
      have henqueue := transferEnqueue_remaining world.queue ⟨request.info.filename.str,
        request.info.targetIp.str, port, token⟩ world.clock env.random
      rw [refused] at henqueue
      rw [phase]
      simp only [Phase.remaining, Request.answer, Option.isSome_none, Bool.false_eq_true,
        if_false] at henqueue ⊢
      omega
  | @sendEnqueued port token jobId queue deleted phase enqueued =>
      have henqueue := transferEnqueue_remaining world.queue ⟨request.info.filename.str,
        request.info.targetIp.str, port, token⟩ world.clock env.random
      rw [enqueued] at henqueue
      rw [phase]
      simp only [Phase.remaining, Request.answer, Option.isSome_some, if_true] at henqueue ⊢
      omega

theorem next_remaining {process after : Process} {event : Event} {entries : List Entry}
    (hstopping : Stopping process) (h : next process event = some (after, entries)) :
    after.remaining + (if event.advances then 1 else 0) ≤ process.remaining := by
  have hids : ∀ {id : Nat} {request : Request}, process.requests id = some request →
      id < process.nextId := fun hid => hstopping.wellformed.lt hid
  unfold Process.remaining
  cases next_steps h with
  | accept url method clientIp headers serving =>
      rw [hstopping.stopped] at serving
      contradiction
  | call id upload env request was phase =>
      -- a stopped server makes no more calls
      simp [next, was, hstopping.stopped] at h
  | proceed id env request outcome was continues =>
      have hproceed := proceed_remaining continues
      have hsum := @sum_requestRemaining_update process.requests _ _ (hids was) (some outcome.2.1)
      rw [was] at hsum
      simp only [Event.advances, if_true, Process.settle, requestRemaining] at hsum ⊢
      omega
  | completed id request was releasable =>
      have hsum := @sum_requestRemaining_update process.requests _ _ (hids was) none
      have hqueue : (requestCompleted process.world id request).1.queue = process.world.queue := by
        unfold requestCompleted
        split <;> rfl
      rw [was] at hsum
      simp only [Event.advances, if_true, requestRemaining, hqueue,
        Request.remaining_of_releasable releasable] at hsum ⊢
      omega
  | workerTake queue takes =>
      have hqueue := workerTake_remaining takes
      simp only [Event.advances, if_true, Process.withQueue]
      omega
  | workerCall queue calls =>
      have hqueue := workerCall_remaining calls
      simp only [Event.advances, if_true, Process.withQueue]
      omega
  | workerProgress bytesSent totalBytes queue advances =>
      have hqueue := transferJobProgress_remaining advances
      simp only [Event.advances, Bool.false_eq_true, if_false, Process.withQueue]
      omega
  | workerDone success result ends =>
      have hqueue := workerDone_remaining ends
      simp only [Event.advances, if_true]
      omega
  | workerExit queue exits =>
      have hqueue := workerExit_remaining exits
      simp only [Event.advances, if_true, Process.withQueue]
      omega
  | tick | resolved | removed | serverStop => exact Nat.le_refl _
  | queueShutdown stopped released =>
      simp only [Event.advances, Bool.false_eq_true, if_false, Process.withQueue,
        transferQueueShutdown, TransferQueue.remaining, Bool.toNat_false]
      omega

theorem proceed_isSome {world : World} {id : Nat} {request : Request} {env : ProceedEnv}
    (h : request.releasable = false) : ∃ outcome, proceed world id request env = some outcome := by
  unfold proceed
  cases hphase : request.phase with
  | receiving | answered => simp [Request.releasable, hphase] at h
  | exchangeAdd | exchangeMark | pairStore | pairMark | sendCleanup => exact ⟨_, rfl⟩
  | pairRemote | sendEnqueue =>
      dsimp only
      split
      · exact ⟨_, rfl⟩
      · exact ⟨_, rfl⟩

theorem worker_goesOn {queue : TransferQueue} (now : Int) (hexited : queue.worker ≠ .exited)
    (hrunning : queue.running = false) : (workerTake queue now).isSome = true ∨
      (workerCall queue).isSome = true ∨ (workerDone queue true now).isSome = true ∨
      (workerExit queue).isSome = true := by
  cases hworker : queue.worker with
  | idle =>
      rcases Nat.eq_zero_or_pos queue.queueCount with hempty | hcount
      · exact .inr (.inr (.inr (by simp [workerExit, hworker, hrunning, hempty])))
      · left
        unfold workerTake
        rw [if_pos ⟨hworker, hcount⟩]
        dsimp only
        split <;> rfl
  | claimed slot => exact .inr (.inl (by simp [workerCall, hworker]))
  | sending slot =>
      refine .inr (.inr (.inl ?_))
      unfold workerDone
      rw [hworker]
      dsimp only
      repeat' split
      all_goals rfl
  | exited => exact absurd hworker hexited

/-- An event that is enabled and ends something brings the end closer. -/
theorem Stopping.lowers {process : Process} (h : Stopping process) {event : Event}
    (hadvances : event.advances = true) (henabled : (next process event).isSome = true) :
    ∃ event after, step process event = some after ∧ after.remaining < process.remaining := by
  obtain ⟨⟨settled, entries⟩, hnext⟩ := Option.isSome_iff_exists.mp henabled
  have hremaining := next_remaining h hnext
  rw [hadvances, if_pos rfl] at hremaining
  refine ⟨event, { settled with log := process.log ++ entries }, ?_, hremaining⟩
  rw [step, hnext]
  rfl

theorem Stopping.goesOn {process : Process} (h : Stopping process) (hnot : ¬ process.Ended) :
    ∃ event after, step process event = some after ∧ after.remaining < process.remaining := by
  by_cases hopen : ∃ id request, process.requests id = some request
  · obtain ⟨id, request, hid⟩ := hopen
    cases hreleasable : request.releasable with
    | true => exact @Stopping.lowers _ h (.completed id) rfl (by simp [next, hid, hreleasable])
    | false =>
        let env : ProceedEnv := ⟨.unavailable, CString.empty, none⟩
        obtain ⟨outcome, houtcome⟩ := @proceed_isSome process.world id request env hreleasable
        exact @Stopping.lowers _ h (.proceed id env) rfl (by simp [next, hid, houtcome])
  · have hnone : ∀ id, process.requests id = none := by
      intro id
      cases hid : process.requests id with
      | none => rfl
      | some request => exact absurd ⟨id, request, hid⟩ hopen
    have hexited : process.world.queue.worker ≠ .exited := fun hexited => hnot ⟨hnone, hexited⟩
    cases hrunning : process.world.queue.running with
    | true =>
        refine ⟨.queueShutdown, process.withQueue (transferQueueShutdown process.world.queue),
          ?_, ?_⟩
        · simp [step, next, h.stopped, hnone, Process.withQueue]
        · simp only [Process.remaining, TransferQueue.remaining, Process.withQueue,
            transferQueueShutdown, hrunning, Bool.toNat_true, Bool.toNat_false]
          omega
    | false =>
        rcases worker_goesOn process.world.clock hexited hrunning with htake | hcall | hdone | hexit
        · exact @Stopping.lowers _ h .workerTake rfl (by simpa [next] using htake)
        · exact @Stopping.lowers _ h .workerCall rfl (by simpa [next] using hcall)
        · exact @Stopping.lowers _ h (.workerDone true) rfl (by simpa [next] using hdone)
        · exact @Stopping.lowers _ h .workerExit rfl (by simpa [next] using hexit)

theorem Stopping.ended {process : Process} (h : Stopping process) (hzero : process.remaining = 0) :
    process.Ended := by
  by_contra hnot
  obtain ⟨event, after, -, hless⟩ := h.goesOn hnot
  omega

theorem stopping_of_run {start before : Process} {events : List Event} (hstart : Started start)
    (hbefore : run step start events = some before) (hstopped : before.serving = false) :
    Stopping before := by
  have hkept : Wellformed before ∧ QueueOk before := by
    refine @run_invariant _ _ step _ _ _ (fun process => Wellformed process ∧ QueueOk process) ?_
      ⟨hstart.wellformed, hstart.queueOk⟩ hbefore
    intro process event after h hstep
    obtain ⟨settled, entries, hnext, rfl⟩ := step_eq_some hstep
    have hwf := next_wellformed h.1 hnext
    have hok := queueOk_next h.1 h.2 hnext
    exact ⟨⟨hwf.requests, hwf.ids⟩, ⟨hok.inv, hok.requests, hok.serving⟩⟩
  exact ⟨hstopped, hkept.1, hkept.2⟩

/-- Once the server has stopped, the handlers and the worker together make no more steps than were
left to do, in whatever order they come and whatever their sends and pairings end with; and as
long as `main` has to wait, one of them can make a step, or the queue can be told to stop. -/
theorem shutdown_ends {start before process : Process} {events more : List Event}
    (hstart : Started start) (hbefore : run step start events = some before)
    (hstopped : before.serving = false) (hrun : run step before more = some process) :
    more.countP Event.advances + process.remaining ≤ before.remaining ∧
      (process.Ended ∨
        ∃ event after, step process event = some after ∧ after.remaining < process.remaining) := by
  have hstopping := stopping_of_run hstart hbefore hstopped
  constructor
  · rw [Nat.add_comm]
    refine run_measure stopping_step (fun process event after h hstep => ?_) hstopping hrun
    obtain ⟨settled, entries, hnext, rfl⟩ := step_eq_some hstep
    have hremaining := next_remaining h hnext
    exact hremaining
  · have hreached := run_invariant stopping_step hstopping hrun
    by_cases hended : process.Ended
    · exact .inl hended
    · exact .inr (hreached.goesOn hended)

def lastSteps : List Event :=
  [.completed 3, .completed 2, .queueShutdown, .workerTake, .workerCall, .workerDone false,
    .workerExit]

theorem lastSteps_end : ∃ before process,
    run step sampleStart (handOverRun ++ [.serverStop]) = some before ∧
      run step before lastSteps = some process ∧ process.remaining = 0 ∧
      lastSteps.countP Event.advances + process.remaining ≤ before.remaining := by
  obtain ⟨before, hbefore⟩ :
      ∃ before, run step sampleStart (handOverRun ++ [.serverStop]) = some before :=
    Option.isSome_iff_exists.mp (by decide +kernel)
  have hfacts : (run step sampleStart (handOverRun ++ [.serverStop])).all (fun before =>
      before.serving = false ∧ (run step before lastSteps).any (fun process =>
        process.remaining = 0)) = true := by decide +kernel
  rw [hbefore] at hfacts
  simp only [Option.all_some, Bool.decide_and, Bool.and_eq_true, decide_eq_true_eq,
    Option.any_eq_true] at hfacts
  obtain ⟨hstopped, process, hrun, hzero⟩ := hfacts
  exact ⟨before, process, hbefore, hrun, hzero,
    (shutdown_ends sampleStart_started hbefore hstopped hrun).1⟩

def SentCleared (process : Process) : Prop :=
  ∀ slot, (process.world.queue.jobs slot).status = .completed →
    (process.world.queue.jobs slot).filepath.str = CString.empty

structure Settling (process : Process) : Prop where
  wellformed : Wellformed process
  queue : QueueOk process
  cleared : SentCleared process

theorem sentCleared_next {process after : Process} {event : Event} {entries : List Entry}
    (h : Settling process) (hnext : next process event = some (after, entries)) :
    SentCleared after := by
  intro slot hstatus
  rcases next_queue h.wellformed h.queue.requests hnext with hsame | ⟨queueEvent, -, hqueue⟩
  · rw [hsame] at hstatus ⊢
    exact h.cleared slot hstatus
  · cases QueueOrder.jobChange_step slot h.queue.inv hqueue with
    | kept job same =>
        rw [job] at hstatus ⊢
        exact h.cleared slot hstatus
    | worked active status inUse jobId filepath same =>
        rw [status] at hstatus
        contradiction
    | ended success now done worker job same =>
        rw [job] at hstatus ⊢
        cases success with
        | true => exact copyString_str_of_lt CString.empty (by decide)
        | false => contradiction
    | pruned request now random enqueue due job =>
        rw [job] at hstatus
        contradiction
    | created request token now random enqueue free answer job new =>
        rw [job] at hstatus
        contradiction

theorem settling_step (process : Process) (event : Event) (after : Process) (h : Settling process)
    (hstep : step process event = some after) : Settling after := by
  obtain ⟨settled, entries, hnext, rfl⟩ := step_eq_some hstep
  have hwf := next_wellformed h.wellformed hnext
  have hok := queueOk_next h.wellformed h.queue hnext
  have hcleared := sentCleared_next h hnext
  exact ⟨⟨hwf.requests, hwf.ids⟩, ⟨hok.inv, hok.requests, hok.serving⟩, hcleared⟩

theorem Started.settling {process : Process} (h : Started process) : Settling process where
  wellformed := h.wellformed
  queue := h.queueOk
  cleared slot hstatus := by
    rw [h.queue] at hstatus
    contradiction

/-- When `main` returns, every job in the table has been sent or has failed, and of all the files
the process has put into `staging/` only those of failed transfers are left. -/
theorem shutdown_leaves {start process : Process} {events : List Event} (hstart : Started start)
    (hfresh : Meets step FreshNames start events) (hrun : run step start events = some process)
    (hended : process.Ended) :
    (∀ slot, (process.world.queue.jobs slot).inUse = true →
      (process.world.queue.jobs slot).status = .completed ∨
        (process.world.queue.jobs slot).status = .failed) ∧
    ∀ path, process.world.fs.Staged path → ∃ slot,
      (process.world.queue.jobs slot).status = .failed ∧
        (process.world.queue.jobs slot).filepath.str = path := by
  have hsettling := run_invariant settling_step hstart.settling hrun
  have hterminal : ∀ slot, (process.world.queue.jobs slot).inUse = true →
      (process.world.queue.jobs slot).status = .completed ∨
        (process.world.queue.jobs slot).status = .failed := by
    intro slot huse
    obtain ⟨hqueued, hprogress⟩ := (hsettling.queue.inv.drained hended.2).2 slot
    have hused := (hsettling.queue.inv.inUse slot).mp huse
    cases hstatus : (process.world.queue.jobs slot).status with
    | unused => exact absurd hstatus hused
    | queued => exact absurd hstatus hqueued
    | inProgress => exact absurd hstatus hprogress
    | completed => exact .inl rfl
    | failed => exact .inr rfl
  refine ⟨hterminal, fun path hpath => ?_⟩
  obtain ⟨owner, howner⟩ := (owned_run hstart hfresh hrun).ledger.covered path hpath
  cases owner with
  | request id =>
      obtain ⟨request, hid, -⟩ := owns_iff.mpr howner
      rw [hended.1 id] at hid
      contradiction
  | job slot =>
      obtain ⟨huse, hheld, hne⟩ := owns_iff.mpr howner
      refine ⟨slot, ?_, hheld⟩
      rcases hterminal slot huse with hcompleted | hfailed
      · rw [hsettling.cleared slot hcompleted] at hheld
        exact absurd hheld.symm hne
      · exact hfailed

theorem lastSteps_leave : ∃ process,
    run step sampleStart (handOverRun ++ .serverStop :: lastSteps) = some process ∧
      (process.world.fs.Staged sentPath ∧ process.remaining = 0) ∧
      ∀ path, process.world.fs.Staged path → ∃ slot,
        (process.world.queue.jobs slot).status = .failed ∧
          (process.world.queue.jobs slot).filepath.str = path := by
  obtain ⟨process, hrun⟩ :
      ∃ process, run step sampleStart (handOverRun ++ .serverStop :: lastSteps) = some process :=
    Option.isSome_iff_exists.mp (by decide +kernel)
  have hfacts : (run step sampleStart (handOverRun ++ .serverStop :: lastSteps)).all
      (fun process => process.serving = false ∧ process.remaining = 0 ∧
        isStagingEntry sentPath = true ∧
        (process.world.fs sentPath).map File.creator = some (some 2)) = true := by
    decide +kernel
  rw [hrun] at hfacts
  simp only [Option.all_some, decide_eq_true_eq] at hfacts
  obtain ⟨hstopped, hzero, hentry, hcreator⟩ := hfacts
  have hended := (stopping_of_run sampleStart_started hrun hstopped).ended hzero
  exact ⟨process, hrun, ⟨⟨hentry, 2, hcreator⟩, hzero⟩,
    (shutdown_leaves sampleStart_started (by decide +kernel) hrun hended).2⟩

end LocalDrop
