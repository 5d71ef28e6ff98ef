import LocalDrop.Lib.Runs
import LocalDrop.TransferQueue

/-! Runs of the transfer queue. Request threads, the worker and status queries
interleave at the granularity of the queue lock; the worker reads the job it
claimed after releasing it. The ring of pending slots is read as a list, and the
requests still to be sent are always those of the claimed slot and the pending
slots, in that order. -/
namespace LocalDrop.QueueOrder
open Lib

/-- `now` is the clock reading of the critical section. -/
inductive QueueEvent where
  | enqueue (request : TransferRequest) (now : Int) (random : RandomBytes 8)
  | take (now : Int)
  | call
  | progress (bytesSent totalBytes : Nat) (now : Int)
  | done (success : Bool) (now : Int)
  | statusGet (jobId : CString)
  | statusList
  | shutdown
  | exit

/-- `main.c` stops the server before it shuts the queue down, so nothing is
enqueued once `queue_running` is cleared. -/
def step (queue : TransferQueue) : QueueEvent → Option TransferQueue
  | .enqueue request now random =>
      if queue.running then some (transferEnqueue queue request now random).1 else none
  | .take now => workerTake queue now
  | .call => workerCall queue
  | .progress bytesSent totalBytes now => transferJobProgress queue bytesSent totalBytes now
  | .done success now => (workerDone queue success now).map Prod.fst
  | .statusGet _ => some queue
  | .statusList => some queue
  | .shutdown => some (transferQueueShutdown queue)
  | .exit => workerExit queue

def stored (request : TransferRequest) : TransferRequest where
  filepath := (copyString request.filepath : Chars 512).str
  targetIp := (copyString request.targetIp : Chars 46).str
  targetPort := request.targetPort
  pairToken := (copyString request.pairToken : Chars 65).str

/-- The caller's buffers: `filename[512]`, a numeric address, `pair_token[65]`. -/
structure Fits (request : TransferRequest) : Prop where
  filepath : request.filepath.length < 512
  targetIp : request.targetIp.length < 46
  pairToken : request.pairToken.length < 65

theorem stored_of_fits {request : TransferRequest} (h : Fits request) :
    stored request = request := by
  unfold stored
  rw [copyString_str_of_lt _ h.filepath, copyString_str_of_lt _ h.targetIp,
    copyString_str_of_lt _ h.pairToken]

def QueueEvent.Fits : QueueEvent → Prop
  | .enqueue request _ _ => QueueOrder.Fits request
  | _ => True

def pending (queue : TransferQueue) : List Slot :=
  ringList queue.pendingQueue queue.queueHead queue.queueCount

def claimed : Worker → List Slot
  | .claimed slot => [slot]
  | _ => []

def unsent (queue : TransferQueue) : List Slot := claimed queue.worker ++ pending queue

def requestOf (queue : TransferQueue) (slot : Slot) : TransferRequest :=
  (queue.jobs slot).request

def busyWith (worker : Worker) (slot : Slot) : Prop :=
  worker = .claimed slot ∨ worker = .sending slot

structure Inv (queue : TransferQueue) : Prop where
  tail : queue.queueTail = (queue.queueHead + queue.queueCount) % maxTransferJobs
  count : queue.queueCount ≤ maxTransferJobs
  inUse : ∀ slot, (queue.jobs slot).inUse = true ↔ (queue.jobs slot).status ≠ .unused
  nodup : (pending queue).Nodup
  queued : ∀ slot, slot ∈ pending queue ↔ (queue.jobs slot).status = .queued
  progress : ∀ slot, (queue.jobs slot).status = .inProgress ↔ busyWith queue.worker slot
  order : queue.accepted.map stored = queue.sent ++ (unsent queue).map (requestOf queue)
  tickets : (unsent queue).map queue.ticket = List.range' queue.sent.length (unsent queue).length
  sending : ∀ slot, queue.worker = .sending slot →
    queue.sent.getLast? = some (requestOf queue slot) ∧
      queue.ticket slot + 1 = queue.sent.length
  exited : queue.worker = .exited → queue.running = false ∧ queue.queueCount = 0

theorem inv_init : Inv transferQueueInit where
  tail := rfl
  count := by decide
  inUse slot := by decide +revert
  nodup := List.nodup_nil
  queued slot := by decide +revert
  progress slot := by
    unfold busyWith
    decide +revert
  order := rfl
  tickets := rfl
  sending slot h := by simp [transferQueueInit] at h
  exited h := by simp [transferQueueInit] at h

theorem Inv.notMem_pending {queue : TransferQueue} (h : Inv queue) {slot : Slot}
    (hbusy : busyWith queue.worker slot) : slot ∉ pending queue := by
  intro hmem
  rw [h.queued, (h.progress slot).mpr hbusy] at hmem
  contradiction

theorem prune_of_active {jobs : Slot → TransferJob} {now : Int} {slot : Slot}
    (h : (jobs slot).status = .queued ∨ (jobs slot).status = .inProgress) :
    (pruneTerminalJobsLocked jobs now).1 slot = jobs slot := by
  rw [prune_jobs, if_neg]
  rcases h with h | h <;> simp [TransferJob.prunable, TransferJob.terminal, h]

theorem prune_status {jobs : Slot → TransferJob} {now : Int} {slot : Slot}
    {status : TransferJobStatus} (hstatus : status = .queued ∨ status = .inProgress) :
    ((pruneTerminalJobsLocked jobs now).1 slot).status = status ↔
      (jobs slot).status = status := by
  constructor
  · intro h
    rw [prune_jobs] at h
    split at h
    · rcases hstatus with rfl | rfl <;> exact absurd h (by decide)
    · exact h
  · rintro rfl
    rw [prune_of_active hstatus]

theorem prune_inUse {jobs : Slot → TransferJob} {now : Int}
    (h : ∀ slot, (jobs slot).inUse = true ↔ (jobs slot).status ≠ .unused) (slot : Slot) :
    ((pruneTerminalJobsLocked jobs now).1 slot).inUse = true ↔
      ((pruneTerminalJobsLocked jobs now).1 slot).status ≠ .unused := by
  rw [prune_jobs]
  split
  · decide
  · exact h slot

theorem Inv.prune {queue : TransferQueue} (h : Inv queue) (now : Int) :
    Inv { queue with jobs := (pruneTerminalJobsLocked queue.jobs now).1 } := by
  have hrequest : ∀ slot, slot ∈ unsent queue ∨ queue.worker = .sending slot →
      (pruneTerminalJobsLocked queue.jobs now).1 slot = queue.jobs slot := by
    intro slot hslot
    apply prune_of_active
    rcases hslot with hslot | hslot
    · rcases List.mem_append.mp hslot with hclaimed | hpending
      · right
        rw [h.progress]
        cases hw : queue.worker <;> simp_all [claimed, busyWith]
      · exact .inl ((h.queued slot).mp hpending)
    · exact .inr ((h.progress slot).mpr (.inr hslot))
  refine ⟨h.tail, h.count, prune_inUse h.inUse, h.nodup, ?_, ?_, ?_, h.tickets, ?_, h.exited⟩
  · intro slot
    exact (h.queued slot).trans (prune_status (.inl rfl)).symm
  · intro slot
    exact (prune_status (.inr rfl)).trans (h.progress slot)
  · refine h.order.trans (congrArg (queue.sent ++ ·) (List.map_congr_left ?_))
    intro slot hslot
    simp only [requestOf, hrequest slot (.inl hslot)]
  · intro slot hslot
    obtain ⟨hlast, hticket⟩ := h.sending slot hslot
    refine ⟨hlast.trans ?_, hticket⟩
    simp only [requestOf, hrequest slot (.inr hslot)]

theorem pending_appendPending {queue : TransferQueue}
    (htail : queue.queueTail = (queue.queueHead + queue.queueCount) % maxTransferJobs)
    (hcount : queue.queueCount < maxTransferJobs) (slot : Slot) (request : TransferRequest) :
    pending (appendPending queue slot request) = pending queue ++ [slot] := by
  have hcell : Fin.ofNat maxTransferJobs queue.queueTail =
      Fin.ofNat maxTransferJobs (queue.queueHead + queue.queueCount) := by
    rw [htail]
    apply Fin.ext
    simp
  simp only [pending, appendPending, hcell]
  exact ringList_push _ _ _ _ hcount

theorem Inv.push {queue : TransferQueue} (h : Inv queue) {slot : Slot}
    (hcount : queue.queueCount < maxTransferJobs) (hfree : (queue.jobs slot).inUse = false)
    (hrunning : queue.running = true) (request : TransferRequest) (token : CString) (now : Int) :
    Inv (appendPending
      { queue with
        jobs := Function.update queue.jobs slot (newTransferJob request token now) }
      slot request) := by
  set after := appendPending
    { queue with
      jobs := Function.update queue.jobs slot (newTransferJob request token now) }
    slot request with hafter
  have hunused : (queue.jobs slot).status = .unused := by
    by_contra hne
    rw [← ne_eq, ← h.inUse, hfree] at hne
    contradiction
  have hnew : after.jobs slot = newTransferJob request token now := Function.update_self ..
  have hold : ∀ other, other ≠ slot → after.jobs other = queue.jobs other :=
    fun other hne => Function.update_of_ne hne ..
  have hnotPending : slot ∉ pending queue := by
    rw [h.queued, hunused]
    decide
  have hnotBusy : ¬ busyWith queue.worker slot := by
    rw [← h.progress, hunused]
    decide
  have hpending : pending after = pending queue ++ [slot] :=
    pending_appendPending h.tail hcount slot request
  have hunsent : unsent after = unsent queue ++ [slot] := by
    simp only [unsent, hpending, List.append_assoc]
    rfl
  have hnotUnsent : slot ∉ unsent queue := by
    intro hmem
    rcases List.mem_append.mp hmem with hclaimed | hmem
    · cases hw : queue.worker <;> simp_all [claimed, busyWith]
    · exact hnotPending hmem
  have hlength : queue.accepted.length = queue.sent.length + (unsent queue).length := by
    simpa using congrArg List.length h.order
  refine ⟨?_, hcount, ?_, ?_, ?_, ?_, ?_, ?_, ?_, ?_⟩
  · simp only [hafter, appendPending, h.tail, Nat.mod_add_mod]
    rfl
  · intro other
    by_cases hother : other = slot
    · rw [hother, hnew]
      simp [newTransferJob]
    · rw [hold other hother]
      exact h.inUse other
  · rw [hpending, List.nodup_append_comm]
    simpa using ⟨hnotPending, h.nodup⟩
  · intro other
    rw [hpending, List.mem_append, List.mem_singleton]
    by_cases hother : other = slot
    · rw [hother, hnew]
      simp [newTransferJob]
    · rw [hold other hother, ← h.queued]
      simp [hother]
  · intro other
    by_cases hother : other = slot
    · rw [hother, hnew]
      simp only [newTransferJob, reduceCtorEq, false_iff]
      exact hnotBusy
    · rw [hold other hother]
      exact h.progress other
  · have hkeep : (unsent queue).map (requestOf after) = (unsent queue).map (requestOf queue) := by
      refine List.map_congr_left fun other hmem => ?_
      have hne : other ≠ slot := fun he => hnotUnsent (he ▸ hmem)
      simp only [requestOf, hold other hne]
    have hthis : requestOf after slot = stored request := by
      simp only [requestOf, hnew]
      rfl
    have hrequests : (unsent after).map (requestOf after) =
        (unsent queue).map (requestOf queue) ++ [stored request] := by
      rw [hunsent, List.map_append, hkeep, List.map_singleton, hthis]
    rw [hrequests]
    simp only [hafter, appendPending, List.map_append, List.map_singleton, h.order,
      List.append_assoc]
  · have hkeep : (unsent queue).map after.ticket = (unsent queue).map queue.ticket := by
      refine List.map_congr_left fun other hmem => ?_
      have hne : other ≠ slot := fun he => hnotUnsent (he ▸ hmem)
      exact Function.update_of_ne hne ..
    have hthis : after.ticket slot = queue.accepted.length := Function.update_self ..
    rw [hunsent, List.map_append, hkeep, h.tickets, List.map_singleton, hthis,
      List.length_append, List.length_singleton, List.range'_concat, hlength]
    simp [hafter, appendPending]
  · intro other hworker
    have hne : other ≠ slot := by
      rintro rfl
      exact hnotBusy (.inr hworker)
    obtain ⟨hlast, hticket⟩ := h.sending other hworker
    refine ⟨?_, ?_⟩
    · simp only [requestOf, hold other hne]
      exact hlast
    · simp only [hafter, appendPending, Function.update_of_ne hne]
      exact hticket
  · intro hworker
    have hstopped := (h.exited hworker).1
    rw [hrunning] at hstopped
    contradiction

theorem inv_enqueue {queue : TransferQueue} (h : Inv queue) (hrunning : queue.running = true)
    (request : TransferRequest) (now : Int) (random : RandomBytes 8) :
    Inv (transferEnqueue queue request now random).1 := by
  rcases transferEnqueue_cases queue request now random with
    heq | heq | ⟨slot, token, hcount, hfree, heq⟩
  · rw [heq]
    exact h
  · rw [heq]
    exact h.prune now
  · rw [heq]
    exact (h.prune now).push hcount hfree hrunning request token now

theorem Inv.head_mem {queue : TransferQueue} (hcount : 0 < queue.queueCount) :
    pending queue = queue.front ::
      ringList queue.pendingQueue ((queue.queueHead + 1) % maxTransferJobs)
        (queue.queueCount - 1) :=
  ringList_pop _ _ _ hcount

theorem Inv.head_queued {queue : TransferQueue} (h : Inv queue) (hcount : 0 < queue.queueCount) :
    (queue.jobs queue.front).status = .queued := by
  rw [← h.queued, Inv.head_mem hcount]
  simp

theorem Inv.busy_inUse {queue : TransferQueue} (h : Inv queue) {slot : Slot}
    (hbusy : busyWith queue.worker slot) : (queue.jobs slot).inUse = true := by
  rw [h.inUse, (h.progress slot).mpr hbusy]
  decide

theorem Inv.rewrite {queue : TransferQueue} (h : Inv queue) {slot : Slot}
    (hworker : queue.worker = .sending slot) (job : TransferJob) (worker : Worker)
    (hinUse : job.inUse = true)
    (hjob : worker = .sending slot ∧ job.status = .inProgress ∧
        job.request = (queue.jobs slot).request ∨
      worker = .idle ∧ (job.status = .completed ∨ job.status = .failed)) :
    Inv { queue with jobs := Function.update queue.jobs slot job, worker := worker } := by
  have hbusy : busyWith queue.worker slot := .inr hworker
  have hnotPending := h.notMem_pending hbusy
  have hstatus : job.status ≠ .unused ∧ job.status ≠ .queued := by
    rcases hjob with ⟨-, hs, -⟩ | ⟨-, hs | hs⟩ <;> simp [hs]
  have hclaimed : claimed worker = claimed queue.worker := by
    rcases hjob with ⟨rfl, -⟩ | ⟨rfl, -⟩ <;> simp [hworker, claimed]
  have hunsent : unsent { queue with
      jobs := Function.update queue.jobs slot job, worker := worker } = unsent queue := by
    simp only [unsent, hclaimed]
    rfl
  refine ⟨h.tail, h.count, ?_, h.nodup, ?_, ?_, ?_, ?_, ?_, ?_⟩
  · intro other
    by_cases hother : other = slot
    · simp [hother, hinUse, hstatus.1]
    · simpa [Function.update_of_ne hother] using h.inUse other
  · intro other
    by_cases hother : other = slot
    · simp only [hother, Function.update_self, hstatus.2, iff_false]
      exact hnotPending
    · simp only [Function.update_of_ne hother]
      exact h.queued other
  · intro other
    by_cases hother : other = slot
    · subst hother
      simp only [Function.update_self]
      rcases hjob with ⟨rfl, hs, -⟩ | ⟨rfl, hs | hs⟩ <;> simp [busyWith, hs]
    · have hidle : ¬ busyWith queue.worker other := by
        simp [busyWith, hworker, Ne.symm hother]
      simp only [Function.update_of_ne hother, h.progress, hidle, false_iff]
      rcases hjob with ⟨rfl, -⟩ | ⟨rfl, -⟩ <;> simp [busyWith, Ne.symm hother]
  · rw [hunsent]
    refine h.order.trans (congrArg (queue.sent ++ ·) (List.map_congr_left ?_))
    intro other hmem
    have hne : other ≠ slot := by
      rintro rfl
      simp [unsent, claimed, hworker, hnotPending] at hmem
    simp [requestOf, Function.update_of_ne hne]
  · rw [hunsent]
    exact h.tickets
  · intro other hother
    rcases hjob with ⟨rfl, -, hrequest⟩ | ⟨rfl, -⟩
    · simp only [Worker.sending.injEq] at hother
      subst hother
      simpa [requestOf, hrequest] using h.sending slot hworker
    · simp at hother
  · intro hexit
    rcases hjob with ⟨rfl, -⟩ | ⟨rfl, -⟩ <;> simp at hexit

theorem inv_take {queue queue' : TransferQueue} {now : Int} (h : Inv queue)
    (hstep : workerTake queue now = some queue') : Inv queue' := by
  unfold workerTake at hstep
  split at hstep
  · rename_i henabled
    obtain ⟨hidle, hcount⟩ := henabled
    have hhead := h.head_queued hcount
    have hpop := Inv.head_mem hcount
    set slot := queue.front
    have hinUse : (queue.jobs slot).inUse = true := by
      rw [h.inUse, hhead]
      decide
    simp only at hstep
    rw [if_pos hinUse] at hstep
    cases Option.some.inj hstep
    -- The ring loses its head to the worker, so nothing leaves the unsent slots.
    have hunsent : unsent queue = slot :: ringList queue.pendingQueue
        ((queue.queueHead + 1) % maxTransferJobs) (queue.queueCount - 1) := by
      simp [unsent, claimed, hidle, hpop]
    have hrequest : ∀ other, (Function.update queue.jobs slot
        ((queue.jobs slot).begun now) other).request = (queue.jobs other).request := by
      intro other
      by_cases hother : other = slot
      · simp [hother, TransferJob.request, TransferJob.begun]
      · rw [Function.update_of_ne hother]
    have hrest := hpop ▸ h.nodup
    rw [List.nodup_cons] at hrest
    refine ⟨?_, ?_, ?_, hrest.2, ?_, ?_, ?_, ?_, ?_, ?_⟩
    · dsimp only
      rw [h.tail, Nat.mod_add_mod]
      congr 1
      omega
    · have := h.count
      dsimp only
      omega
    · intro other
      by_cases hother : other = slot
      · simp [hother, TransferJob.begun, hinUse]
      · simpa [Function.update_of_ne hother] using h.inUse other
    · intro other
      have hmem : other ∈ pending queue ↔ _ := h.queued other
      rw [hpop, List.mem_cons] at hmem
      by_cases hother : other = slot
      · simp only [hother, Function.update_self, TransferJob.begun, reduceCtorEq, iff_false]
        exact hrest.1
      · simp only [Function.update_of_ne hother, ← hmem, hother, false_or]
        rfl
    · intro other
      by_cases hother : other = slot
      · simp [hother, busyWith, TransferJob.begun]
      · have hnot : ¬ busyWith queue.worker other := by simp [busyWith, hidle]
        simp only [Function.update_of_ne hother, h.progress, hnot, false_iff]
        simp [busyWith, Ne.symm hother]
    · refine h.order.trans (congrArg (queue.sent ++ ·) ?_)
      rw [hunsent]
      exact List.map_congr_left fun other _ => (hrequest other).symm
    · have htickets := h.tickets
      rw [hunsent] at htickets
      exact htickets
    · intro other hother
      simp at hother
    · intro hexit
      simp at hexit
  · contradiction

theorem inv_call {queue queue' : TransferQueue} (h : Inv queue)
    (hstep : workerCall queue = some queue') : Inv queue' := by
  unfold workerCall at hstep
  split at hstep
  · rename_i slot hworker
    cases Option.some.inj hstep
    have hunsent : unsent queue = slot :: pending queue := by simp [unsent, claimed, hworker]
    have horder := h.order
    have htickets := h.tickets
    rw [hunsent, List.map_cons] at horder htickets
    rw [List.length_cons, List.range'_succ, List.cons.injEq] at htickets
    refine ⟨h.tail, h.count, h.inUse, h.nodup, h.queued, ?_, ?_, ?_, ?_, ?_⟩
    · intro other
      rw [h.progress]
      simp [busyWith, hworker]
    · rw [List.append_cons] at horder
      exact horder
    · rw [List.length_append]
      exact htickets.2
    · intro other hother
      cases hother
      exact ⟨by simp [requestOf], by simp [htickets.1]⟩
    · intro hexit
      simp at hexit
  · contradiction

theorem inv_progress {queue queue' : TransferQueue} {bytesSent totalBytes : Nat} {now : Int}
    (h : Inv queue)
    (hstep : transferJobProgress queue bytesSent totalBytes now = some queue') : Inv queue' := by
  unfold transferJobProgress at hstep
  split at hstep
  · rename_i slot hworker
    have hinUse := h.busy_inUse (.inr hworker)
    rw [if_pos hinUse] at hstep
    cases Option.some.inj hstep
    have hkeep := h.rewrite hworker ((queue.jobs slot).advanced bytesSent totalBytes now) _
      hinUse (.inl ⟨rfl, rfl, rfl⟩)
    rw [← hworker] at hkeep
    exact hkeep
  · contradiction

theorem inv_done {queue : TransferQueue} {success : Bool} {now : Int}
    {result : TransferQueue × Deletions} (h : Inv queue)
    (hstep : workerDone queue success now = some result) : Inv result.1 := by
  unfold workerDone at hstep
  split at hstep
  · rename_i slot hworker
    have hinUse := h.busy_inUse (.inr hworker)
    dsimp only at hstep
    rw [if_neg (by simp [hinUse])] at hstep
    split at hstep
    · cases Option.some.inj hstep
      exact h.rewrite hworker _ _ hinUse (.inr ⟨rfl, .inl rfl⟩)
    · cases Option.some.inj hstep
      exact h.rewrite hworker _ _ hinUse (.inr ⟨rfl, .inr rfl⟩)
  · contradiction

theorem inv_exit {queue queue' : TransferQueue} (h : Inv queue)
    (hstep : workerExit queue = some queue') : Inv queue' := by
  unfold workerExit at hstep
  split at hstep
  · rename_i henabled
    obtain ⟨hidle, hstopped, hempty⟩ := henabled
    cases Option.some.inj hstep
    have hunsent : unsent { queue with worker := .exited } = unsent queue := by
      simp [unsent, claimed, hidle, pending]
    refine ⟨h.tail, h.count, h.inUse, h.nodup, h.queued, ?_, ?_, ?_, ?_, fun _ =>
      ⟨hstopped, hempty⟩⟩
    · intro other
      rw [h.progress]
      simp [busyWith, hidle]
    · rw [hunsent]
      exact h.order
    · rw [hunsent]
      exact h.tickets
    · intro other hother
      simp at hother
  · contradiction

theorem inv_step (queue : TransferQueue) (event : QueueEvent) (queue' : TransferQueue)
    (h : Inv queue) (hstep : step queue event = some queue') : Inv queue' := by
  cases event with
  | enqueue request now random =>
      simp only [step] at hstep
      split at hstep
      · rename_i hrunning
        cases Option.some.inj hstep
        exact inv_enqueue h hrunning request now random
      · contradiction
  | take now => exact inv_take h hstep
  | call => exact inv_call h hstep
  | progress bytesSent totalBytes now => exact inv_progress h hstep
  | done success now =>
      obtain ⟨result, hresult, rfl⟩ := Option.map_eq_some_iff.mp hstep
      exact inv_done h hresult
  | statusGet jobId => exact Option.some.inj hstep ▸ h
  | statusList => exact Option.some.inj hstep ▸ h
  | shutdown =>
      cases Option.some.inj hstep
      exact ⟨h.tail, h.count, h.inUse, h.nodup, h.queued, h.progress, h.order, h.tickets,
        h.sending, fun hexit => ⟨rfl, (h.exited hexit).2⟩⟩
  | exit => exact inv_exit h hstep

theorem inv_run {events : List QueueEvent} {queue : TransferQueue}
    (hrun : run step transferQueueInit events = some queue) : Inv queue :=
  run_invariant inv_step inv_init hrun

/-- Only enqueueing writes the history of acceptance, and only the shutdown clears
`queue_running`. -/
theorem step_frame {queue queue' : TransferQueue} {event : QueueEvent}
    (hstep : step queue event = some queue') :
    (∃ request now random, event = .enqueue request now random) ∨
      queue'.accepted = queue.accepted ∧ queue'.ticket = queue.ticket ∧
        (event = .shutdown ∨ queue'.running = queue.running) := by
  cases event with
  | enqueue request now random => exact .inl ⟨request, now, random, rfl⟩
  | take now =>
      simp only [step, workerTake] at hstep
      split at hstep
      · split at hstep <;> cases Option.some.inj hstep <;> exact .inr ⟨rfl, rfl, .inr rfl⟩
      · contradiction
  | call =>
      simp only [step, workerCall] at hstep
      split at hstep
      · cases Option.some.inj hstep
        exact .inr ⟨rfl, rfl, .inr rfl⟩
      · contradiction
  | progress bytesSent totalBytes now =>
      simp only [step, transferJobProgress] at hstep
      split at hstep
      · split at hstep <;> cases Option.some.inj hstep <;> exact .inr ⟨rfl, rfl, .inr rfl⟩
      · contradiction
  | done success now =>
      obtain ⟨result, hresult, rfl⟩ := Option.map_eq_some_iff.mp hstep
      simp only [workerDone] at hresult
      split at hresult
      · split at hresult
        · cases Option.some.inj hresult
          exact .inr ⟨rfl, rfl, .inr rfl⟩
        · split at hresult <;> cases Option.some.inj hresult <;>
            exact .inr ⟨rfl, rfl, .inr rfl⟩
      · contradiction
  | statusGet jobId =>
      cases Option.some.inj hstep
      exact .inr ⟨rfl, rfl, .inr rfl⟩
  | statusList =>
      cases Option.some.inj hstep
      exact .inr ⟨rfl, rfl, .inr rfl⟩
  | shutdown =>
      cases Option.some.inj hstep
      exact .inr ⟨rfl, rfl, .inl rfl⟩
  | exit =>
      simp only [step, workerExit] at hstep
      split at hstep
      · cases Option.some.inj hstep
        exact .inr ⟨rfl, rfl, .inr rfl⟩
      · contradiction

theorem enqueue_frame (queue : TransferQueue) (request : TransferRequest) (now : Int)
    (random : RandomBytes 8) :
    (transferEnqueue queue request now random).1.running = queue.running ∧
      ((transferEnqueue queue request now random).1.accepted = queue.accepted ∨
        (transferEnqueue queue request now random).1.accepted = queue.accepted ++ [request]) := by
  rcases transferEnqueue_cases queue request now random with
    heq | heq | ⟨slot, token, -, -, heq⟩ <;> rw [heq]
  · exact ⟨rfl, .inl rfl⟩
  · exact ⟨rfl, .inl rfl⟩
  · exact ⟨rfl, .inr rfl⟩

theorem accepted_step {queue queue' : TransferQueue} {event : QueueEvent}
    (hstep : step queue event = some queue') :
    queue'.accepted = queue.accepted ∨
      ∃ request now random, event = .enqueue request now random ∧
        queue'.accepted = queue.accepted ++ [request] := by
  rcases step_frame hstep with ⟨request, now, random, rfl⟩ | ⟨hsame, -⟩
  · simp only [step] at hstep
    split at hstep
    · cases Option.some.inj hstep
      rcases (enqueue_frame queue request now random).2 with heq | heq
      · exact .inl heq
      · exact .inr ⟨request, now, random, rfl, heq⟩
    · contradiction
  · exact .inl hsame

theorem running_step {queue queue' : TransferQueue} {event : QueueEvent}
    (hstep : step queue event = some queue') (hevent : event ≠ .shutdown) :
    queue'.running = queue.running := by
  rcases step_frame hstep with ⟨request, now, random, rfl⟩ | ⟨-, -, hshutdown | hrunning⟩
  · simp only [step] at hstep
    split at hstep
    · cases Option.some.inj hstep
      exact (enqueue_frame queue request now random).1
    · contradiction
  · exact absurd hshutdown hevent
  · exact hrunning

theorem accepted_stored {events : List QueueEvent} {queue : TransferQueue}
    (hrun : run step transferQueueInit events = some queue)
    (hfits : ∀ event ∈ events, event.Fits) :
    queue.accepted.map stored = queue.accepted := by
  have haccepted : ∀ request ∈ queue.accepted, ∃ now random,
      QueueEvent.enqueue request now random ∈ [] ++ events := by
    let Known (past : List QueueEvent) (queue : TransferQueue) : Prop :=
      ∀ request ∈ queue.accepted, ∃ now random, QueueEvent.enqueue request now random ∈ past
    suffices hstep : ∀ past queue event queue', Known past queue → step queue event = some queue' →
        Known (past ++ [event]) queue' from
      run_history hstep (by simp [Known, transferQueueInit]) hrun
    intro past queue event queue' hpast hstep request hmem
    rcases accepted_step hstep with heq | ⟨added, now, random, rfl, heq⟩
    · obtain ⟨now, random, h⟩ := hpast request (heq ▸ hmem)
      exact ⟨now, random, List.mem_append_left _ h⟩
    · rw [heq, List.mem_append, List.mem_singleton] at hmem
      rcases hmem with hmem | hmem
      · obtain ⟨now', random', h⟩ := hpast request hmem
        exact ⟨now', random', List.mem_append_left _ h⟩
      · exact ⟨now, random, by simp [hmem]⟩
  refine (List.map_congr_left fun request hmem => ?_).trans (List.map_id _)
  obtain ⟨now, random, hevent⟩ := haccepted request hmem
  exact stored_of_fits (hfits _ hevent)

/-- What the queue promises in every state: a sound ring, at most one transfer
under way, and the accepted requests handed to the sender one by one, in order. -/
structure ExactlyOnce (queue : TransferQueue) : Prop where
  tail : queue.queueTail = (queue.queueHead + queue.queueCount) % maxTransferJobs
  count : queue.queueCount ≤ maxTransferJobs
  queued : ∀ slot, slot ∈ pending queue ↔ (queue.jobs slot).status = .queued
  once : (pending queue).Nodup
  /-- The ring follows the order of acceptance, behind what was taken from it. -/
  enqueueOrder : (pending queue).map queue.ticket =
    List.range' (queue.accepted.length - queue.queueCount) queue.queueCount
  oneInProgress : ∀ slot other, (queue.jobs slot).status = .inProgress →
    (queue.jobs other).status = .inProgress → slot = other
  /-- Every accepted request has been sent once, in order, or still waits. -/
  fifo : queue.accepted = queue.sent ++ (unsent queue).map (requestOf queue)
  /-- While a send is under way the slot still holds what it was called with. -/
  sending : ∀ slot, queue.worker = .sending slot →
    queue.sent.getLast? = some (requestOf queue slot)
  takeInUse : 0 < queue.queueCount → (queue.jobs queue.front).inUse = true
  doneInUse : ∀ slot, busyWith queue.worker slot → (queue.jobs slot).inUse = true
  drained : queue.worker = .exited → queue.sent = queue.accepted ∧
    ∀ slot, (queue.jobs slot).status ≠ .queued ∧ (queue.jobs slot).status ≠ .inProgress

theorem Inv.enqueueOrder {queue : TransferQueue} (h : Inv queue) :
    (pending queue).map queue.ticket =
      List.range' (queue.accepted.length - queue.queueCount) queue.queueCount := by
  have hlength : queue.accepted.length =
      queue.sent.length + ((claimed queue.worker).length + queue.queueCount) := by
    simpa [unsent, pending] using congrArg List.length h.order
  have htickets := h.tickets
  rw [unsent, List.map_append, List.length_append, List.range'_append_1.symm] at htickets
  have hpending := (List.append_inj htickets (by simp)).2
  rw [hpending]
  simp only [pending, ringList_length]
  congr 1
  omega

theorem Inv.drained {queue : TransferQueue} (h : Inv queue) (hexit : queue.worker = .exited) :
    unsent queue = [] ∧
      ∀ slot, (queue.jobs slot).status ≠ .queued ∧ (queue.jobs slot).status ≠ .inProgress := by
  have hpending : pending queue = [] := by
    rw [← List.length_eq_zero_iff, pending, ringList_length]
    exact (h.exited hexit).2
  refine ⟨by simp [unsent, claimed, hexit, hpending], fun slot => ⟨?_, ?_⟩⟩
  · rw [ne_eq, ← h.queued, hpending]
    simp
  · rw [ne_eq, h.progress]
    simp [busyWith, hexit]

/-- Every run of the queue hands each accepted request to the sender exactly
once and in order of acceptance. -/
theorem transferQueue_exactlyOnce {events : List QueueEvent} {queue : TransferQueue}
    (hrun : run step transferQueueInit events = some queue)
    (hfits : ∀ event ∈ events, event.Fits) : ExactlyOnce queue := by
  have h := inv_run hrun
  have hfifo : queue.accepted = queue.sent ++ (unsent queue).map (requestOf queue) := by
    rw [← h.order, accepted_stored hrun hfits]
  refine ⟨h.tail, h.count, h.queued, h.nodup, h.enqueueOrder, ?_, hfifo,
    fun slot hslot => (h.sending slot hslot).1, ?_, fun slot => h.busy_inUse, ?_⟩
  · intro slot other hslot hother
    rw [h.progress] at hslot hother
    rcases hslot with hslot | hslot <;> rcases hother with hother | hother <;>
      simp_all
  · intro hcount
    rw [h.inUse, h.head_queued hcount]
    decide
  · intro hexit
    obtain ⟨hnone, hstatus⟩ := h.drained hexit
    rw [hnone] at hfifo
    exact ⟨by simpa using hfifo.symm, hstatus⟩

def sampleRequest (filepath : String) : TransferRequest where
  filepath := .lit filepath
  targetIp := .lit "192.168.0.7"
  targetPort := 8080
  pairToken := .lit "00ff"

/-- Two requests, the second accepted while the first is being sent. -/
def twoTransfers : List QueueEvent :=
  [.enqueue (sampleRequest "staging/1_a_x") 100 (some (Vector.replicate 8 1)),
    .take 101, .call, .progress 5 10 102,
    .enqueue (sampleRequest "staging/2_b_y") 103 (some (Vector.replicate 8 2)),
    .done true 104, .shutdown, .take 105, .call, .done false 106, .exit]

theorem twoTransfers_exactlyOnce :
    ∃ queue, run step transferQueueInit twoTransfers = some queue ∧
      queue.worker = .exited ∧
      queue.sent = [sampleRequest "staging/1_a_x", sampleRequest "staging/2_b_y"] ∧
      ExactlyOnce queue := by
  obtain ⟨queue, hrun⟩ : ∃ queue, run step transferQueueInit twoTransfers = some queue :=
    Option.isSome_iff_exists.mp (by decide +kernel)
  have hfinal : (run step transferQueueInit twoTransfers).all (fun queue =>
      queue.worker = .exited ∧
      queue.sent = [sampleRequest "staging/1_a_x", sampleRequest "staging/2_b_y"]) = true := by
    decide +kernel
  have hfits : ∀ event ∈ twoTransfers, event.Fits := by
    simp only [twoTransfers, List.forall_mem_cons, QueueEvent.Fits, true_and]
    refine ⟨⟨by decide, by decide, by decide⟩, ⟨by decide, by decide, by decide⟩, ?_⟩
    simp
  rw [hrun] at hfinal
  simp only [Option.all_some, decide_eq_true_eq] at hfinal
  exact ⟨queue, hrun, hfinal.1, hfinal.2, transferQueue_exactlyOnce hrun hfits⟩

end LocalDrop.QueueOrder
