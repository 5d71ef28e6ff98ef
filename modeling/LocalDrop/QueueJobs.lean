import LocalDrop.QueueOrder

/-! What one step of the queue does to the job in one slot, and which request the
job was created for. -/
namespace LocalDrop.QueueOrder
open Lib

def origin (queue : TransferQueue) (slot : Slot) : Option TransferRequest :=
  queue.accepted[queue.ticket slot]?

inductive JobChange (queue : TransferQueue) (event : QueueEvent) (queue' : TransferQueue)
    (slot : Slot) : Prop where
  | kept (job : queue'.jobs slot = queue.jobs slot)
      (same : ∀ request, origin queue slot = some request → origin queue' slot = some request)
  | worked (active : (queue.jobs slot).status = .queued ∨ (queue.jobs slot).status = .inProgress)
      (status : (queue'.jobs slot).status = .inProgress)
      (inUse : (queue'.jobs slot).inUse = true)
      (jobId : (queue'.jobs slot).jobId = (queue.jobs slot).jobId)
      (filepath : (queue'.jobs slot).filepath = (queue.jobs slot).filepath)
      (same : origin queue' slot = origin queue slot)
  | ended (success : Bool) (now : Int) (done : event = .done success now)
      (worker : queue.worker = .sending slot)
      (job : queue'.jobs slot = if success then (queue.jobs slot).completed now
        else (queue.jobs slot).failed now)
      (same : origin queue' slot = origin queue slot)
  | pruned (request : TransferRequest) (now : Int) (random : RandomBytes 8)
      (enqueue : event = .enqueue request now random)
      (due : (queue.jobs slot).prunable now = true) (job : queue'.jobs slot = default)
  | created (request : TransferRequest) (token : CString) (now : Int) (random : RandomBytes 8)
      (enqueue : event = .enqueue request now random)
      (free : (queue.jobs slot).inUse = true → (queue.jobs slot).prunable now = true)
      (answer : (transferEnqueue queue request now random).2.2 =
        some (newTransferJob request token now).jobId.str)
      (job : queue'.jobs slot = newTransferJob request token now)
      (new : origin queue' slot = some request)

section
variable {queue queue' : TransferQueue} {event : QueueEvent} {slot : Slot}

theorem JobChange.same (hjobs : queue'.jobs = queue.jobs)
    (haccepted : queue'.accepted = queue.accepted) (hticket : queue'.ticket = queue.ticket) :
    JobChange queue event queue' slot := by
  refine .kept (by rw [hjobs]) fun request h => ?_
  rw [origin, haccepted, hticket]
  exact h

theorem JobChange.update {target : Slot} {job : TransferJob}
    (hjobs : queue'.jobs = Function.update queue.jobs target job)
    (haccepted : queue'.accepted = queue.accepted) (hticket : queue'.ticket = queue.ticket)
    (htarget : queue'.jobs target = job → origin queue' target = origin queue target →
      JobChange queue event queue' target) : JobChange queue event queue' slot := by
  have horigin : ∀ other, origin queue' other = origin queue other := by
    intro other
    rw [origin, origin, haccepted, hticket]
  by_cases hslot : slot = target
  · subst hslot
    exact htarget (by rw [hjobs, Function.update_self]) (horigin slot)
  · refine .kept (by rw [hjobs, Function.update_of_ne hslot]) fun request h => ?_
    rw [horigin, h]

theorem enqueue_jobChange (request : TransferRequest) (now : Int) (random : RandomBytes 8) :
    JobChange queue (.enqueue request now random)
      (transferEnqueue queue request now random).1 slot := by
  -- Pruning empties the slot or leaves it; the history only grows.
  have hprune : ∀ {after : TransferQueue},
      after.jobs slot = (pruneTerminalJobsLocked queue.jobs now).1 slot →
      (∀ request, origin queue slot = some request → origin after slot = some request) →
      JobChange queue (.enqueue request now random) after slot := by
    intro after hjob hsame
    rw [prune_jobs] at hjob
    split at hjob
    · rename_i hprunable
      exact .pruned request now random rfl hprunable hjob
    · exact .kept hjob hsame
  rcases transferEnqueue_cases queue request now random with
    heq | heq | ⟨created, token, -, hfree, heq⟩
  · rw [heq]
    exact .same rfl rfl rfl
  · rw [heq]
    exact hprune rfl fun _ h => h
  · by_cases hslot : slot = created
    · subst hslot
      refine .created request token now random rfl ?_ (by rw [heq]) ?_ ?_
      · intro huse
        by_contra hnot
        rw [prune_jobs, if_neg hnot, huse] at hfree
        contradiction
      · rw [heq]
        simp [appendPending]
      · rw [heq]
        simp [origin, appendPending]
    · rw [heq]
      refine hprune ?_ fun old hold => ?_
      · simp [appendPending, Function.update_of_ne hslot]
      · simp only [origin, appendPending, Function.update_of_ne hslot]
        exact List.getElem?_append_left (List.getElem?_eq_some_iff.mp hold).1 ▸ hold

theorem jobChange_step (slot : Slot) (hinv : Inv queue) (h : step queue event = some queue') :
    JobChange queue event queue' slot := by
  cases event with
  | enqueue request now random =>
      simp only [step] at h
      split at h
      · cases Option.some.inj h
        exact enqueue_jobChange request now random
      · contradiction
  | take now =>
      simp only [step, workerTake] at h
      split at h
      · rename_i henabled
        split at h
        · rename_i huse
          cases Option.some.inj h
          refine .update rfl rfl rfl (fun hjob hsame => ?_)
          refine .worked (.inl (hinv.head_queued henabled.2)) ?_ ?_ ?_ ?_ hsame <;> rw [hjob]
          · rfl
          · exact huse
          · rfl
          · rfl
        · cases Option.some.inj h
          exact .same rfl rfl rfl
      · contradiction
  | call =>
      simp only [step, workerCall] at h
      split at h
      · cases Option.some.inj h
        exact .same rfl rfl rfl
      · contradiction
  | progress bytesSent totalBytes now =>
      simp only [step, transferJobProgress] at h
      split at h
      · rename_i sending hworker
        split at h
        · rename_i huse
          cases Option.some.inj h
          refine .update rfl rfl rfl (fun hjob hsame => ?_)
          refine .worked (.inr ((hinv.progress sending).mpr (.inr hworker))) ?_ ?_ ?_ ?_ hsame <;>
            rw [hjob]
          · rfl
          · exact huse
          · rfl
          · rfl
        · cases Option.some.inj h
          exact .same rfl rfl rfl
      · contradiction
  | done success now =>
      obtain ⟨result, hresult, rfl⟩ := Option.map_eq_some_iff.mp h
      simp only [workerDone] at hresult
      split at hresult
      · rename_i sending hworker
        split at hresult
        · cases Option.some.inj hresult
          exact .same rfl rfl rfl
        · split at hresult <;> rename_i hsuccess <;> cases Option.some.inj hresult <;>
            refine .update rfl rfl rfl (fun hjob hsame => ?_) <;>
            exact .ended success now rfl hworker (by rw [hjob]; simp [hsuccess]) hsame
      · contradiction
  | statusGet jobId =>
      cases Option.some.inj h
      exact .same rfl rfl rfl
  | statusList =>
      cases Option.some.inj h
      exact .same rfl rfl rfl
  | shutdown =>
      cases Option.some.inj h
      exact .same rfl rfl rfl
  | exit =>
      simp only [step, workerExit] at h
      split at h
      · cases Option.some.inj h
        exact .same rfl rfl rfl
      · contradiction

end

end LocalDrop.QueueOrder
