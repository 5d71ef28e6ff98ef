import LocalDrop.JsonUtils
import LocalDrop.Lib.Ring

/-! `transfer_queue.c`: the job table, the ring of pending slots and the worker
thread. Each function is one critical section of `queue_lock`. Calls to
`storage_delete_file` are returned as the list of paths to delete, in order and
with the slot whose job held them, so that the queue can be studied without a
file system. -/
namespace LocalDrop
open Lib

def maxTransferJobs : Nat := 128
def jobRetentionSeconds : Int := 3600

abbrev Slot := Fin maxTransferJobs
abbrev Deletions := List (Slot × CString)

instance : NeZero maxTransferJobs := ⟨by decide⟩

inductive TransferJobStatus where
  | unused
  | queued
  | inProgress
  | completed
  | failed
deriving DecidableEq, Inhabited

/-- `default` is the slot after `memset`. -/
structure TransferJob where
  inUse : Bool
  jobId : Chars 65
  filepath : Chars 512
  targetIp : Chars 46
  targetPort : UInt16
  pairToken : Chars 65
  status : TransferJobStatus
  errorMessage : Chars 256
  bytesSent : Nat
  totalBytes : Nat
  createdAt : Int
  updatedAt : Int
deriving DecidableEq, Inhabited

/-- The arguments of `transfer_enqueue`, and those of `transfer_send_file`. -/
structure TransferRequest where
  filepath : CString
  targetIp : CString
  targetPort : UInt16
  pairToken : CString
deriving DecidableEq

/-- Where the worker thread is: at the top of its loop, past the dequeue with the
lock released, inside `transfer_send_file`, or returned. -/
inductive Worker where
  | idle
  | claimed (slot : Slot)
  | sending (slot : Slot)
  | exited
deriving DecidableEq

/-- `accepted`, `sent` and `ticket` are history: the requests accepted so far, the
calls of `transfer_send_file` made so far, and for each slot the position among
the accepted requests of the one its job was created for. No function reads
them. -/
structure TransferQueue where
  running : Bool
  jobs : Slot → TransferJob
  pendingQueue : Slot → Slot
  queueHead : Nat
  queueTail : Nat
  queueCount : Nat
  worker : Worker
  accepted : List TransferRequest
  sent : List TransferRequest
  ticket : Slot → Nat

def transferQueueInit : TransferQueue where
  running := true
  jobs := fun _ => default
  pendingQueue := fun _ => 0
  queueHead := 0
  queueTail := 0
  queueCount := 0
  worker := .idle
  accepted := []
  sent := []
  ticket := fun _ => 0

def transferJobCleanup (job : TransferJob) : TransferJob × List CString :=
  if job.inUse then
    (default, if job.filepath.str ≠ CString.empty then [job.filepath.str] else [])
  else (job, [])

def TransferJob.terminal (job : TransferJob) : Bool :=
  job.status = .completed || job.status = .failed

def TransferJob.prunable (now : Int) (job : TransferJob) : Bool :=
  job.inUse && job.terminal && job.updatedAt + jobRetentionSeconds ≤ now

/-- The loop visits every slot once and looks at no other slot on the way. -/
def pruneTerminalJobsLocked (jobs : Slot → TransferJob) (now : Int) :
    (Slot → TransferJob) × Deletions :=
  (fun slot =>
      if (jobs slot).prunable now then (transferJobCleanup (jobs slot)).1 else jobs slot,
    (List.finRange maxTransferJobs).flatMap fun slot =>
      if (jobs slot).prunable now then (transferJobCleanup (jobs slot)).2.map (slot, ·)
      else [])

def newTransferJob (request : TransferRequest) (token : CString) (now : Int) : TransferJob :=
  { (default : TransferJob) with
    inUse := true
    jobId := copyString (CString.ofLong now ++ .lit "-" ++ token)
    filepath := copyString request.filepath
    targetIp := copyString request.targetIp
    pairToken := copyString request.pairToken
    targetPort := request.targetPort
    status := .queued
    createdAt := now
    updatedAt := now }

/-- Pruning happens whether or not a slot is found afterwards. -/
def transferJobCreate (jobs : Slot → TransferJob) (request : TransferRequest) (now : Int)
    (random : RandomBytes 8) :
    (Slot → TransferJob) × Deletions × Option Slot :=
  let (jobs, deleted) := pruneTerminalJobsLocked jobs now
  match (List.finRange maxTransferJobs).find? fun slot => !(jobs slot).inUse with
  | none => (jobs, deleted, none)
  | some slot =>
      match cryptoRandomToken random with
      | none => (jobs, deleted, none)
      | some token =>
          (Function.update jobs slot (newTransferJob request token now), deleted, some slot)

/-- The tail of `transfer_enqueue`, once the job exists. -/
def appendPending (queue : TransferQueue) (slot : Slot) (request : TransferRequest) :
    TransferQueue :=
  { queue with
    pendingQueue := Function.update queue.pendingQueue
      (Fin.ofNat maxTransferJobs queue.queueTail) slot
    queueTail := (queue.queueTail + 1) % maxTransferJobs
    queueCount := queue.queueCount + 1
    accepted := queue.accepted ++ [request]
    ticket := Function.update queue.ticket slot queue.accepted.length }

/-- The part of `transfer_enqueue` under the lock; the answer is the job id. -/
def transferEnqueue (queue : TransferQueue) (request : TransferRequest) (now : Int)
    (random : RandomBytes 8) : TransferQueue × Deletions × Option CString :=
  if maxTransferJobs ≤ queue.queueCount then (queue, [], none)
  else
    match transferJobCreate queue.jobs request now random with
    | (jobs, deleted, none) => ({ queue with jobs := jobs }, deleted, none)
    | (jobs, deleted, some slot) =>
        (appendPending { queue with jobs := jobs } slot request, deleted,
          some (jobs slot).jobId.str)

def TransferJob.begun (job : TransferJob) (now : Int) : TransferJob :=
  { job with status := .inProgress, updatedAt := now }

def TransferJob.advanced (job : TransferJob) (bytesSent totalBytes : Nat) (now : Int) :
    TransferJob :=
  { job with
    bytesSent := bytesSent
    totalBytes := totalBytes
    status := .inProgress
    updatedAt := now }

def TransferJob.completed (job : TransferJob) (now : Int) : TransferJob :=
  { job with
    updatedAt := now
    status := .completed
    errorMessage := copyString CString.empty
    filepath := copyString CString.empty }

def TransferJob.failed (job : TransferJob) (now : Int) : TransferJob :=
  { job with
    updatedAt := now
    status := .failed
    errorMessage := copyString (.lit "Falha ao enviar o arquivo para o peer remoto") }

def TransferQueue.front (queue : TransferQueue) : Slot :=
  queue.pendingQueue (Fin.ofNat maxTransferJobs queue.queueHead)

/-- The worker's first critical section; it waits while the queue is empty. -/
def workerTake (queue : TransferQueue) (now : Int) : Option TransferQueue :=
  if queue.worker = .idle ∧ 0 < queue.queueCount then
    let slot := queue.front
    let queue := { queue with
      queueHead := (queue.queueHead + 1) % maxTransferJobs
      queueCount := queue.queueCount - 1 }
    if (queue.jobs slot).inUse then
      some { queue with
        jobs := Function.update queue.jobs slot ((queue.jobs slot).begun now)
        worker := .claimed slot }
    else some queue
  else none

def TransferJob.request (job : TransferJob) : TransferRequest where
  filepath := job.filepath.str
  targetIp := job.targetIp.str
  targetPort := job.targetPort
  pairToken := job.pairToken.str

/-- The call of `transfer_send_file`, which reads the slot without the lock. -/
def workerCall (queue : TransferQueue) : Option TransferQueue :=
  match queue.worker with
  | .claimed slot =>
      some { queue with
        worker := .sending slot
        sent := queue.sent ++ [(queue.jobs slot).request] }
  | _ => none

def transferJobProgress (queue : TransferQueue) (bytesSent totalBytes : Nat) (now : Int) :
    Option TransferQueue :=
  match queue.worker with
  | .sending slot =>
      if (queue.jobs slot).inUse then
        some { queue with
          jobs := Function.update queue.jobs slot
            ((queue.jobs slot).advanced bytesSent totalBytes now) }
      else some queue
  | _ => none

def workerDone (queue : TransferQueue) (success : Bool) (now : Int) :
    Option (TransferQueue × Deletions) :=
  match queue.worker with
  | .sending slot =>
      let job := queue.jobs slot
      let queue := { queue with worker := .idle }
      if !job.inUse then some (queue, [])
      else if success then
        some ({ queue with jobs := Function.update queue.jobs slot (job.completed now) },
          if job.filepath.str ≠ CString.empty then [(slot, job.filepath.str)] else [])
      else some ({ queue with jobs := Function.update queue.jobs slot (job.failed now) }, [])
  | _ => none

def workerExit (queue : TransferQueue) : Option TransferQueue :=
  if queue.worker = .idle ∧ queue.running = false ∧ queue.queueCount = 0 then
    some { queue with worker := .exited }
  else none

def transferQueueShutdown (queue : TransferQueue) : TransferQueue :=
  { queue with running := false }

def transferStatusName : TransferJobStatus → CString
  | .queued => .lit "queued"
  | .inProgress => .lit "in_progress"
  | .completed => .lit "completed"
  | .failed => .lit "failed"
  | .unused => .lit "unused"

def appendJobJson (job : TransferJob) : Bytes :=
  (CString.lit "\x7b\"job_id\":\"").bytes ++ jsonEscape job.jobId.str ++
    (CString.lit "\",\"status\":\"").bytes ++ jsonEscape (transferStatusName job.status) ++
    (CString.lit "\",\"target_ip\":\"").bytes ++ jsonEscape job.targetIp.str ++
    (CString.lit "\",\"target_port\":").bytes ++ decimal job.targetPort.toNat ++
    (CString.lit ",\"bytes_sent\":").bytes ++ decimal job.bytesSent ++
    (CString.lit ",\"total_bytes\":").bytes ++ decimal job.totalBytes ++
    (CString.lit ",\"created_at\":").bytes ++ formatLong job.createdAt ++
    (CString.lit ",\"updated_at\":").bytes ++ formatLong job.updatedAt ++
    (CString.lit ",\"error_message\":\"").bytes ++ jsonEscape job.errorMessage.str ++
    (CString.lit "\"\x7d").bytes

def transferStatusGet (queue : TransferQueue) (jobId : CString) : Option Bytes :=
  ((List.finRange maxTransferJobs).find? fun slot =>
      (queue.jobs slot).inUse && (queue.jobs slot).jobId.str = jobId).map fun slot =>
    appendJobJson (queue.jobs slot)

/-- A comma goes in front of a job unless the list was only just opened. -/
def transferStatusListJson (queue : TransferQueue) : Bytes :=
  (List.finRange maxTransferJobs).foldl
    (fun payload slot =>
      if (queue.jobs slot).inUse then
        (if payload.getLast? ≠ some 91 then payload ++ [44] else payload) ++
          appendJobJson (queue.jobs slot)
      else payload)
    [91] ++ [93]

theorem prune_jobs (jobs : Slot → TransferJob) (now : Int) (slot : Slot) :
    (pruneTerminalJobsLocked jobs now).1 slot =
      if (jobs slot).prunable now then default else jobs slot := by
  unfold pruneTerminalJobsLocked
  dsimp only
  split
  · rename_i h
    have huse : (jobs slot).inUse = true := by
      simp only [TransferJob.prunable, Bool.and_eq_true] at h
      exact h.1.1
    simp [transferJobCleanup, huse]
  · rfl

theorem mem_prune_deleted (jobs : Slot → TransferJob) (now : Int) (slot : Slot)
    (path : CString) :
    (slot, path) ∈ (pruneTerminalJobsLocked jobs now).2 ↔
      path ≠ CString.empty ∧ (jobs slot).prunable now = true ∧
        (jobs slot).filepath.str = path := by
  unfold pruneTerminalJobsLocked
  simp only [List.mem_flatMap, List.mem_finRange, true_and]
  constructor
  · rintro ⟨other, hmem⟩
    split at hmem
    · rename_i hprune
      obtain ⟨found, hfound, heq⟩ := List.mem_map.mp hmem
      cases heq
      unfold transferJobCleanup at hfound
      split at hfound
      · split at hfound
        · rename_i hne
          rw [List.mem_singleton] at hfound
          exact ⟨hfound ▸ hne, hprune, hfound.symm⟩
        · simp at hfound
      · simp at hfound
    · simp at hmem
  · rintro ⟨hne, hprune, rfl⟩
    have huse : (jobs slot).inUse = true := by
      simp only [TransferJob.prunable, Bool.and_eq_true] at hprune
      exact hprune.1.1
    exact ⟨slot, by simp [hprune, transferJobCleanup, huse, hne]⟩

/-- Everything `transfer_enqueue` can do: refuse at once, refuse after pruning, or
prune and put the request into a free slot at the end of the ring. -/
theorem transferEnqueue_cases (queue : TransferQueue) (request : TransferRequest) (now : Int)
    (random : RandomBytes 8) :
    let pruned := pruneTerminalJobsLocked queue.jobs now
    transferEnqueue queue request now random = (queue, [], none) ∨
    transferEnqueue queue request now random =
      ({ queue with jobs := pruned.1 }, pruned.2, none) ∨
    ∃ slot token, queue.queueCount < maxTransferJobs ∧ (pruned.1 slot).inUse = false ∧
      transferEnqueue queue request now random =
        (appendPending
            { queue with
              jobs := Function.update pruned.1 slot (newTransferJob request token now) }
            slot request,
          pruned.2, some (newTransferJob request token now).jobId.str) := by
  dsimp only
  unfold transferEnqueue
  split
  · exact .inl rfl
  · rename_i hcount
    right
    unfold transferJobCreate
    dsimp only
    split
    · rename_i hfind
      split at hfind
      · rename_i hnone
        simp only [Prod.mk.injEq] at hfind
        obtain ⟨rfl, rfl, -⟩ := hfind
        exact .inl rfl
      · split at hfind
        · simp only [Prod.mk.injEq] at hfind
          obtain ⟨rfl, rfl, -⟩ := hfind
          exact .inl rfl
        · simp at hfind
    · rename_i jobs deleted slot hfind
      split at hfind
      · simp at hfind
      · rename_i free hfree
        split at hfind
        · simp at hfind
        · rename_i token htoken
          simp only [Prod.mk.injEq, Option.some.injEq] at hfind
          obtain ⟨rfl, rfl, rfl⟩ := hfind
          have hunused := List.find?_some hfree
          refine .inr ⟨free, token, by omega, by simpa using hunused, ?_⟩
          simp

section enqueue
variable {queue queue' : TransferQueue} {request : TransferRequest} {now : Int}
  {random : RandomBytes 8} {deleted : Deletions}

theorem transferEnqueue_refused
    (h : transferEnqueue queue request now random = (queue', deleted, none)) :
    queue' = queue ∧ deleted = [] ∨
      queue' = { queue with jobs := (pruneTerminalJobsLocked queue.jobs now).1 } ∧
        deleted = (pruneTerminalJobsLocked queue.jobs now).2 := by
  rcases transferEnqueue_cases queue request now random with heq | heq | ⟨_, _, -, -, heq⟩ <;>
    rw [h] at heq
  · cases heq
    exact .inl ⟨rfl, rfl⟩
  · cases heq
    exact .inr ⟨rfl, rfl⟩
  · cases heq

theorem transferEnqueue_accepted {jobId : CString}
    (h : transferEnqueue queue request now random = (queue', deleted, some jobId)) :
    ∃ slot token, queue.queueCount < maxTransferJobs ∧
      ((pruneTerminalJobsLocked queue.jobs now).1 slot).inUse = false ∧
      queue' = appendPending { queue with
        jobs := Function.update (pruneTerminalJobsLocked queue.jobs now).1 slot
          (newTransferJob request token now) } slot request ∧
      deleted = (pruneTerminalJobsLocked queue.jobs now).2 ∧
      jobId = (newTransferJob request token now).jobId.str := by
  rcases transferEnqueue_cases queue request now random with
    heq | heq | ⟨slot, token, hcount, hfree, heq⟩ <;> rw [h] at heq
  · cases heq
  · cases heq
  · cases heq
    exact ⟨slot, token, hcount, hfree, rfl, rfl, rfl⟩

end enqueue

end LocalDrop
