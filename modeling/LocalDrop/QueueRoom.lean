import Mathlib.Data.Fintype.Card
import LocalDrop.QueueOrder

/-! When the queue has room. Pruning, the search for a slot and the test of the ring are one
critical section; that the ring is never the tighter of the two bounds is the queue's
invariant. -/
namespace LocalDrop.QueueOrder
open Lib

def expired (now : Int) (job : TransferJob) : Prop :=
  job.terminal = true ∧ job.updatedAt + jobRetentionSeconds ≤ now

instance (now : Int) (job : TransferJob) : Decidable (expired now job) :=
  inferInstanceAs (Decidable (_ ∧ _))

def occupied (queue : TransferQueue) (now : Int) : Finset Slot :=
  Finset.univ.filter fun slot =>
    (queue.jobs slot).status = .queued ∨ (queue.jobs slot).status = .inProgress ∨
      ((queue.jobs slot).terminal = true ∧ now < (queue.jobs slot).updatedAt + jobRetentionSeconds)

def retained (jobs : Slot → TransferJob) (now : Int) (slot : Slot) : TransferJob :=
  if expired now (jobs slot) then default else jobs slot

structure LeftOut (queue after : TransferQueue) (now : Int) : Prop where
  jobs : after.jobs = retained queue.jobs now
  head : after.queueHead = queue.queueHead
  tail : after.queueTail = queue.queueTail
  count : after.queueCount = queue.queueCount
  ring : after.pendingQueue = queue.pendingQueue

structure TakenIn (queue after : TransferQueue) (request : TransferRequest) (now : Int)
    (slot : Slot) : Prop where
  free : (retained queue.jobs now slot).status = .unused
  others : ∀ other, other ≠ slot → after.jobs other = retained queue.jobs now other
  queued : (after.jobs slot).status = .queued
  stored : (after.jobs slot).request = stored request
  whole : Fits request → (after.jobs slot).request = request
  head : after.queueHead = queue.queueHead
  tail : after.queueTail = (queue.queueTail + 1) % maxTransferJobs
  count : after.queueCount = queue.queueCount + 1
  ring : pending after = pending queue ++ [slot]

section room
variable {queue : TransferQueue} {now : Int}

theorem Inv.prunable_iff (h : Inv queue) (slot : Slot) :
    (queue.jobs slot).prunable now = true ↔ expired now (queue.jobs slot) := by
  have huse := h.inUse slot
  unfold TransferJob.prunable expired TransferJob.terminal
  cases hstatus : (queue.jobs slot).status <;> simp_all

theorem Inv.prune_eq (h : Inv queue) :
    (pruneTerminalJobsLocked queue.jobs now).1 = retained queue.jobs now := by
  funext slot
  rw [prune_jobs, retained]
  by_cases hexpired : expired now (queue.jobs slot)
  · rw [if_pos ((h.prunable_iff slot).mpr hexpired), if_pos hexpired]
  · rw [if_neg fun hprunable => hexpired ((h.prunable_iff slot).mp hprunable), if_neg hexpired]

theorem Inv.inUse_retained (h : Inv queue) (slot : Slot) :
    (retained queue.jobs now slot).inUse = true ↔ slot ∈ occupied queue now := by
  rw [retained, occupied, Finset.mem_filter]
  by_cases hexpired : expired now (queue.jobs slot)
  · rw [if_pos hexpired]
    obtain ⟨hterminal, hold⟩ := hexpired
    refine iff_of_false (by decide) ?_
    rintro ⟨-, hstatus | hstatus | ⟨-, hyoung⟩⟩
    · simp [TransferJob.terminal, hstatus] at hterminal
    · simp [TransferJob.terminal, hstatus] at hterminal
    · omega
  · rw [if_neg hexpired, h.inUse]
    simp only [expired, not_and, not_le] at hexpired
    constructor
    · intro hused
      refine ⟨Finset.mem_univ slot, ?_⟩
      cases hstatus : (queue.jobs slot).status with
      | unused => exact absurd hstatus hused
      | queued => exact .inl rfl
      | inProgress => exact .inr (.inl rfl)
      | completed | failed =>
          have hterminal : (queue.jobs slot).terminal = true := by
            simp [TransferJob.terminal, hstatus]
          exact .inr (.inr ⟨hterminal, hexpired hterminal⟩)
    · rintro ⟨-, hstatus | hstatus | ⟨hterminal, -⟩⟩ hunused
      · rw [hstatus] at hunused
        contradiction
      · rw [hstatus] at hunused
        contradiction
      · simp [TransferJob.terminal, hunused] at hterminal

theorem Inv.pending_occupied (h : Inv queue) (now : Int) :
    (pending queue).toFinset ⊆ occupied queue now := by
  intro slot hslot
  rw [List.mem_toFinset, h.queued] at hslot
  rw [occupied, Finset.mem_filter]
  exact ⟨Finset.mem_univ slot, .inl hslot⟩

theorem Inv.count_le (h : Inv queue) (now : Int) :
    queue.queueCount ≤ (occupied queue now).card := by
  have hcard := Finset.card_le_card (h.pending_occupied now)
  rwa [List.toFinset_card_of_nodup h.nodup, pending, ringList_length] at hcard

theorem Inv.queued_of_full (h : Inv queue) (hfull : maxTransferJobs ≤ queue.queueCount)
    (slot : Slot) : (queue.jobs slot).status = .queued := by
  rw [← h.queued, ← List.mem_toFinset]
  have hall : (pending queue).toFinset = Finset.univ := by
    apply Finset.eq_univ_of_card
    rw [List.toFinset_card_of_nodup h.nodup, pending, ringList_length, Fintype.card_fin]
    exact Nat.le_antisymm h.count hfull
  rw [hall]
  exact Finset.mem_univ slot

theorem Inv.find_eq_none_iff (h : Inv queue) :
    ((List.finRange maxTransferJobs).find? fun slot => !(retained queue.jobs now slot).inUse) =
        none ↔ (occupied queue now).card = maxTransferJobs := by
  rw [List.find?_eq_none]
  constructor
  · intro hall
    have hunivers : occupied queue now = Finset.univ := by
      ext slot
      have hused := hall slot (List.mem_finRange slot)
      rw [Bool.not_eq_true, Bool.not_eq_false'] at hused
      exact iff_of_true ((h.inUse_retained slot).mp hused) (Finset.mem_univ slot)
    rw [hunivers, Finset.card_univ, Fintype.card_fin]
  · intro hcard slot _
    have hunivers : occupied queue now = Finset.univ := by
      apply Finset.eq_univ_of_card
      rw [hcard, Fintype.card_fin]
    rw [(h.inUse_retained slot).mpr (hunivers ▸ Finset.mem_univ slot)]
    decide

/-- The test of `queue_count` refuses nothing that the search for a slot would let in, and
pruning would not have removed anything either. -/
theorem Inv.create_of_full (h : Inv queue) (hfull : maxTransferJobs ≤ queue.queueCount)
    (request : TransferRequest) (random : RandomBytes 8) :
    transferJobCreate queue.jobs request now random = (queue.jobs, [], none) := by
  have hqueued := h.queued_of_full hfull
  have hkept : ∀ slot, (queue.jobs slot).prunable now = false := by
    intro slot
    simp [TransferJob.prunable, TransferJob.terminal, hqueued slot]
  have hjobs : (pruneTerminalJobsLocked queue.jobs now).1 = queue.jobs := by
    funext slot
    rw [prune_jobs, hkept slot]
    rfl
  have hdeleted : (pruneTerminalJobsLocked queue.jobs now).2 = [] := by
    simp [pruneTerminalJobsLocked, hkept]
  have hcard : (occupied queue now).card = maxTransferJobs :=
    Nat.le_antisymm (card_finset_fin_le _) (hfull.trans (h.count_le now))
  have hfind := h.find_eq_none_iff.mpr hcard
  rw [← h.prune_eq, hjobs] at hfind
  unfold transferJobCreate
  simp only [hjobs, hdeleted, hfind]

theorem Inv.enqueue_full (h : Inv queue) (hfull : (occupied queue now).card = maxTransferJobs)
    (request : TransferRequest) (random : RandomBytes 8) :
    ∃ deleted, transferEnqueue queue request now random =
      ({ queue with jobs := retained queue.jobs now }, deleted, none) := by
  have hfind := h.find_eq_none_iff.mpr hfull
  have hcreate : transferJobCreate queue.jobs request now random =
      (retained queue.jobs now, (pruneTerminalJobsLocked queue.jobs now).2, none) := by
    rw [← h.prune_eq] at hfind ⊢
    unfold transferJobCreate
    simp only [hfind]
  unfold transferEnqueue
  split
  · rename_i hcount
    rw [h.create_of_full hcount, Prod.mk.injEq] at hcreate
    exact ⟨[], by rw [← hcreate.1]⟩
  · rw [hcreate]
    exact ⟨_, rfl⟩

theorem Inv.enqueue_room (h : Inv queue) (hroom : (occupied queue now).card < maxTransferJobs)
    (request : TransferRequest) (random : Vector UInt8 8) :
    ∃ slot token deleted jobId, (retained queue.jobs now slot).inUse = false ∧
      transferEnqueue queue request now (some random) =
        (appendPending
            { queue with
              jobs := Function.update (retained queue.jobs now) slot
                (newTransferJob request token now) }
            slot request,
          deleted, some jobId) := by
  have hcount := h.count_le now
  obtain ⟨slot, hfind⟩ := Option.ne_none_iff_exists'.mp fun hnone =>
    Nat.ne_of_lt hroom (h.find_eq_none_iff.mp hnone)
  have hfree := List.find?_some hfind
  obtain ⟨token, htoken⟩ : ∃ token, cryptoRandomToken (some random) = some token := ⟨_, rfl⟩
  have hcreate : transferJobCreate queue.jobs request now (some random) =
      (Function.update (retained queue.jobs now) slot (newTransferJob request token now),
        (pruneTerminalJobsLocked queue.jobs now).2, some slot) := by
    rw [← h.prune_eq] at hfind ⊢
    unfold transferJobCreate
    simp only [hfind, htoken]
  refine ⟨slot, token, (pruneTerminalJobsLocked queue.jobs now).2,
    (newTransferJob request token now).jobId.str, by simpa using hfree, ?_⟩
  rw [transferEnqueue, if_neg (by omega), hcreate]
  simp only [Function.update_self]

theorem Inv.takenIn (h : Inv queue) (hroom : (occupied queue now).card < maxTransferJobs)
    {slot : Slot} (hfree : (retained queue.jobs now slot).inUse = false)
    (request : TransferRequest) (token : CString) :
    TakenIn queue
      (appendPending
        { queue with
          jobs := Function.update (retained queue.jobs now) slot
            (newTransferJob request token now) }
        slot request) request now slot := by
  have hcount := h.count_le now
  have hinUse := (h.prune now).inUse slot
  rw [h.prune_eq] at hinUse
  have hnew : (appendPending
      { queue with
        jobs := Function.update (retained queue.jobs now) slot
          (newTransferJob request token now) }
      slot request).jobs slot = newTransferJob request token now := Function.update_self ..
  constructor
  · by_contra hused
    rw [hinUse.mpr hused] at hfree
    contradiction
  · exact fun other hother => Function.update_of_ne hother ..
  · rw [hnew]
    rfl
  · rw [hnew]
    rfl
  · intro hfits
    rw [hnew]
    exact stored_of_fits hfits
  · rfl
  · rfl
  · rfl
  · exact pending_appendPending h.tail (Nat.lt_of_le_of_lt hcount hroom) slot request

end room

/-- In every state the queue can reach, and at every time, an enqueue succeeds exactly when fewer
than 128 slots are occupied. It removes the expired jobs and changes nothing else, except that a
success adds one job. Where the ring is full, the search for a slot fails as well. -/
theorem transferEnqueue_iff_room {events : List QueueEvent} {queue : TransferQueue}
    (hrun : run step transferQueueInit events = some queue) (request : TransferRequest)
    (now : Int) (random : Vector UInt8 8) :
    let outcome := transferEnqueue queue request now (some random)
    (outcome.2.2.isSome = true ↔ (occupied queue now).card < maxTransferJobs) ∧
      (outcome.2.2.isSome = false → LeftOut queue outcome.1 now) ∧
      (outcome.2.2.isSome = true → ∃ slot, TakenIn queue outcome.1 request now slot) ∧
      (maxTransferJobs ≤ queue.queueCount →
        transferJobCreate queue.jobs request now (some random) = (queue.jobs, [], none)) := by
  have h := inv_run hrun
  have hle : (occupied queue now).card ≤ maxTransferJobs := card_finset_fin_le _
  dsimp only
  rcases Nat.lt_or_eq_of_le hle with hroom | hfull
  · obtain ⟨slot, token, deleted, jobId, hfree, heq⟩ := h.enqueue_room hroom request random
    rw [heq]
    refine ⟨iff_of_true rfl hroom, fun hnone => by contradiction, fun _ => ⟨slot, ?_⟩,
      fun hcount => h.create_of_full hcount request _⟩
    exact h.takenIn hroom hfree request token
  · obtain ⟨deleted, heq⟩ := h.enqueue_full hfull request (some random)
    rw [heq]
    refine ⟨iff_of_false Bool.false_ne_true (by omega), fun _ => ⟨rfl, rfl, rfl, rfl, rfl⟩,
      fun hsome => by contradiction, fun hcount => h.create_of_full hcount request _⟩

/-- A third request, an hour after the first was completed. -/
theorem lateTransfer_takenIn : ∃ queue slot,
    run step transferQueueInit twoTransfers = some queue ∧
      (occupied queue 3704).card < maxTransferJobs ∧
      TakenIn queue (transferEnqueue queue (sampleRequest "staging/3_c_z") 3704
        (some (Vector.replicate 8 3))).1 (sampleRequest "staging/3_c_z") 3704 slot := by
  obtain ⟨queue, hrun⟩ : ∃ queue, run step transferQueueInit twoTransfers = some queue :=
    Option.isSome_iff_exists.mp (by decide +kernel)
  have hanswer : (run step transferQueueInit twoTransfers).all (fun queue =>
      (transferEnqueue queue (sampleRequest "staging/3_c_z") 3704
        (some (Vector.replicate 8 3))).2.2.isSome) = true := by
    decide +kernel
  rw [hrun, Option.all_some] at hanswer
  obtain ⟨hiff, -, htaken, -⟩ := transferEnqueue_iff_room hrun (sampleRequest "staging/3_c_z") 3704
    (Vector.replicate 8 3)
  obtain ⟨slot, hslot⟩ := htaken hanswer
  exact ⟨queue, slot, hrun, hiff.mp hanswer, hslot⟩

end LocalDrop.QueueOrder
