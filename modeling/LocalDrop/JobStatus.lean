import LocalDrop.JsonViews
import LocalDrop.QueueJobs

/-! What clients that poll `transfer_status_get` see of a job. Every event happens at a
time that does not run backwards, and what clients learn is noted in a log. -/
namespace LocalDrop.QueueOrder
open Lib

def QueueEvent.reading : QueueEvent → Option Int
  | .enqueue _ now _ => some now
  | .take now => some now
  | .progress _ _ now => some now
  | .done _ now => some now
  | _ => none

/-- A request was accepted under an id, the worker finished with a job, or a query was
answered with a document or not at all. -/
inductive JobNote where
  | accepted (jobId : CString)
  | ended (jobId : CString) (now : Int)
  | answered (jobId : CString) (now : Int) (document : Option Bytes)
deriving DecidableEq

def notes (queue : TransferQueue) (now : Int) : QueueEvent → List JobNote
  | .enqueue request time random =>
      ((transferEnqueue queue request time random).2.2.map .accepted).toList
  | .done _ time =>
      match queue.worker with
      | .sending slot =>
          if (queue.jobs slot).inUse then [.ended (queue.jobs slot).jobId.str time] else []
      | _ => []
  | .statusGet jobId => [.answered jobId now (transferStatusGet queue jobId)]
  | _ => []

structure Polled where
  queue : TransferQueue
  clock : Int
  log : List JobNote

def pollStep (state : Polled) (event : Int × QueueEvent) : Option Polled :=
  if state.clock ≤ event.1 ∧ ∀ reading ∈ event.2.reading, reading = event.1 then
    (step state.queue event.2).map fun queue =>
      ⟨queue, event.1, state.log ++ notes state.queue event.1 event.2⟩
  else none

def acceptedIds (log : List JobNote) : List CString :=
  log.filterMap fun
    | .accepted jobId => some jobId
    | _ => none

def answersFor (jobId : CString) (log : List JobNote) : List (Option (Option Bytes)) :=
  log.filterMap fun
    | .answered asked _ document =>
        if asked = jobId then some (document.map statusField) else none
    | _ => none

/-- Answers in the order they may come in, each any number of times. -/
def forward (terminal : Bytes) (queued inProgress ended gone : Nat) :
    List (Option (Option Bytes)) :=
  List.replicate queued (some (some (CString.lit "queued").bytes)) ++
    List.replicate inProgress (some (some (CString.lit "in_progress").bytes)) ++
    List.replicate ended (some (some terminal)) ++ List.replicate gone none

def Holds (queue : TransferQueue) (jobId : CString) (slot : Slot) : Prop :=
  (queue.jobs slot).inUse = true ∧ (queue.jobs slot).jobId.str = jobId

structure OnlyAt (queue : TransferQueue) (jobId : CString) (slot : Slot) : Prop where
  holds : Holds queue jobId slot
  only : ∀ other, Holds queue jobId other → other = slot

section
variable {queue queue' : TransferQueue} {event : QueueEvent} {jobId : CString} {slot : Slot}

theorem find_of_onlyAt (h : OnlyAt queue jobId slot) :
    ((List.finRange maxTransferJobs).find? fun slot =>
      (queue.jobs slot).inUse && (queue.jobs slot).jobId.str = jobId) = some slot := by
  rcases hfind : ((List.finRange maxTransferJobs).find? fun slot =>
    (queue.jobs slot).inUse && (queue.jobs slot).jobId.str = jobId) with _ | found
  · have hnot := List.find?_eq_none.mp hfind slot (List.mem_finRange slot)
    simp [h.holds.1, h.holds.2] at hnot
  · have hhit := List.find?_some hfind
    simp only [Bool.and_eq_true, decide_eq_true_eq] at hhit
    rw [h.only found hhit]

theorem transferStatusGet_of_onlyAt (h : OnlyAt queue jobId slot) :
    transferStatusGet queue jobId = some (appendJobJson (queue.jobs slot)) := by
  rw [transferStatusGet, find_of_onlyAt h]
  rfl

theorem transferStatusGet_of_absent (h : ∀ slot, ¬ Holds queue jobId slot) :
    transferStatusGet queue jobId = none := by
  rw [transferStatusGet, Option.map_eq_none_iff, List.find?_eq_none]
  intro slot _
  simpa [Holds] using h slot

theorem JobChange.holds (hinv : Inv queue) (h : JobChange queue event queue' slot)
    (hfresh : ∀ request now random, event = .enqueue request now random →
      (transferEnqueue queue request now random).2.2 ≠ some jobId)
    (hholds : Holds queue' jobId slot) : Holds queue jobId slot := by
  cases h with
  | kept job same =>
      unfold Holds at hholds
      rw [job] at hholds
      exact hholds
  | worked active status inUse id filepath same =>
      refine ⟨?_, id ▸ hholds.2⟩
      rw [hinv.inUse]
      rcases active with hstatus | hstatus <;> simp [hstatus]
  | ended success now done worker job same =>
      refine ⟨hinv.busy_inUse (.inr worker), ?_⟩
      have hid := hholds.2
      rw [job] at hid
      cases success <;> exact hid
  | pruned request now random enqueue due job =>
      have huse := hholds.1
      rw [job] at huse
      contradiction
  | created request token now random enqueue free answer job new =>
      have hid := hholds.2
      rw [job] at hid
      exact absurd (hid ▸ answer) (hfresh request now random enqueue)

end

inductive HeldChange (queue : TransferQueue) (event : QueueEvent) (queue' : TransferQueue)
    (jobId : CString) (slot : Slot) : Prop where
  | kept (position : OnlyAt queue' jobId slot) (job : queue'.jobs slot = queue.jobs slot)
  | worked (position : OnlyAt queue' jobId slot)
      (active : (queue.jobs slot).status = .queued ∨ (queue.jobs slot).status = .inProgress)
      (status : (queue'.jobs slot).status = .inProgress)
  | ended (position : OnlyAt queue' jobId slot) (success : Bool) (now : Int)
      (done : event = .done success now) (worker : queue.worker = .sending slot)
      (was : (queue.jobs slot).status = .inProgress)
      (status : (queue'.jobs slot).status = if success then .completed else .failed)
      (updated : (queue'.jobs slot).updatedAt = now)
  | pruned (absent : ∀ slot, ¬ Holds queue' jobId slot) (now : Int)
      (reading : event.reading = some now)
      (was : (queue.jobs slot).status ≠ .queued ∧ (queue.jobs slot).status ≠ .inProgress)
      (due : (queue.jobs slot).updatedAt + jobRetentionSeconds ≤ now)

theorem status_of_prunable {job : TransferJob} {now : Int}
    (h : job.prunable now = true) :
    (job.status ≠ .queued ∧ job.status ≠ .inProgress) ∧
      job.updatedAt + jobRetentionSeconds ≤ now := by
  simp only [TransferJob.prunable, TransferJob.terminal, Bool.and_eq_true, Bool.or_eq_true,
    decide_eq_true_eq] at h
  refine ⟨?_, h.2⟩
  rcases h.1.2 with hstatus | hstatus <;> simp [hstatus]

theorem OnlyAt.step {queue queue' : TransferQueue} {event : QueueEvent} {jobId : CString}
    {slot : Slot} (hinv : Inv queue) (h : OnlyAt queue jobId slot)
    (hfresh : ∀ request now random, event = .enqueue request now random →
      (transferEnqueue queue request now random).2.2 ≠ some jobId)
    (hstep : step queue event = some queue') : HeldChange queue event queue' jobId slot := by
  have honly : ∀ other, Holds queue' jobId other → other = slot := fun other hholds =>
    h.only other ((jobChange_step other hinv hstep).holds hinv hfresh hholds)
  have habsent : ¬ Holds queue' jobId slot → ∀ other, ¬ Holds queue' jobId other := by
    intro hnot other hholds
    exact hnot (honly other hholds ▸ hholds)
  cases jobChange_step slot hinv hstep with
  | kept job same =>
      refine .kept ⟨?_, honly⟩ job
      unfold Holds
      rw [job]
      exact h.holds
  | worked active status inUse id filepath same =>
      exact .worked ⟨⟨inUse, id ▸ h.holds.2⟩, honly⟩ active status
  | ended success now done worker job same =>
      have hheld := h.holds
      refine .ended ⟨?_, honly⟩ success now done worker
        ((hinv.progress slot).mpr (.inr worker)) ?_ ?_
      · unfold Holds
        rw [job]
        cases success <;> exact hheld
      · rw [job]
        cases success <;> rfl
      · rw [job]
        cases success <;> rfl
  | pruned request now random enqueue due job =>
      obtain ⟨hwas, hdue⟩ := status_of_prunable due
      refine .pruned (habsent fun hholds => ?_) now (by rw [enqueue]; rfl) hwas hdue
      have huse := hholds.1
      rw [job] at huse
      contradiction
  | created request token now random enqueue free answer job new =>
      obtain ⟨hwas, hdue⟩ := status_of_prunable (free h.holds.1)
      refine .pruned (habsent fun hholds => ?_) now (by rw [enqueue]; rfl) hwas hdue
      have hid := hholds.2
      rw [job] at hid
      exact hfresh request now random enqueue (hid ▸ answer)

/-- How far an accepted job has come, with the answers given about it since. -/
inductive Watched (state : Polled) (jobId : CString) (after : List JobNote) : Prop where
  | queued (slot : Slot) (position : OnlyAt state.queue jobId slot)
      (status : (state.queue.jobs slot).status = .queued) (a : Nat)
      (answers : answersFor jobId after = forward (statusText .completed) a 0 0 0)
  | inProgress (slot : Slot) (position : OnlyAt state.queue jobId slot)
      (status : (state.queue.jobs slot).status = .inProgress) (a b : Nat)
      (answers : answersFor jobId after = forward (statusText .completed) a b 0 0)
  | ended (slot : Slot) (position : OnlyAt state.queue jobId slot)
      (terminal : TransferJobStatus) (isTerminal : terminal = .completed ∨ terminal = .failed)
      (status : (state.queue.jobs slot).status = terminal)
      (noted : .ended jobId (state.queue.jobs slot).updatedAt ∈ after) (a b c : Nat)
      (answers : answersFor jobId after = forward (statusText terminal) a b c 0)
  | gone (absent : ∀ slot, ¬ Holds state.queue jobId slot)
      (terminal : TransferJobStatus) (isTerminal : terminal = .completed ∨ terminal = .failed)
      (time : Int) (noted : .ended jobId time ∈ after)
      (late : time + jobRetentionSeconds ≤ state.clock) (a b c d : Nat)
      (answers : answersFor jobId after = forward (statusText terminal) a b c d)

/-- Whenever the id was not found, its job had ended long before. -/
def FoundInTime (jobId : CString) (after : List JobNote) : Prop :=
  ∀ pre now post, after = pre ++ .answered jobId now none :: post →
    ∃ time, .ended jobId time ∈ pre ∧ time + jobRetentionSeconds ≤ now

theorem answersFor_append (jobId : CString) (log log' : List JobNote) :
    answersFor jobId (log ++ log') = answersFor jobId log ++ answersFor jobId log' :=
  List.filterMap_append ..

theorem acceptedIds_append (log log' : List JobNote) :
    acceptedIds (log ++ log') = acceptedIds log ++ acceptedIds log' :=
  List.filterMap_append ..

theorem mem_acceptedIds {jobId : CString} {log : List JobNote} :
    jobId ∈ acceptedIds log ↔ .accepted jobId ∈ log := by
  unfold acceptedIds
  rw [List.mem_filterMap]
  constructor
  · rintro ⟨note, hnote, heq⟩
    cases note <;> simp at heq
    exact heq ▸ hnote
  · exact fun h => ⟨_, h, rfl⟩

section watch
variable {state after' : Polled} {event : QueueEvent} {now : Int} {jobId : CString}
  {after : List JobNote}

theorem pollStep_eq_some (h : pollStep state (now, event) = some after') :
    state.clock ≤ now ∧ (∀ reading ∈ event.reading, reading = now) ∧
      step state.queue event = some after'.queue ∧ after'.clock = now ∧
      after'.log = state.log ++ notes state.queue now event := by
  unfold pollStep at h
  split at h
  · rename_i hclock
    obtain ⟨queue, hstep, rfl⟩ := Option.map_eq_some_iff.mp h
    exact ⟨hclock.1, hclock.2, hstep, rfl, rfl⟩
  · contradiction

theorem answersFor_notes (hevent : event ≠ .statusGet jobId) :
    answersFor jobId (notes state.queue now event) = [] := by
  cases event with
  | statusGet asked =>
      have hne : asked ≠ jobId := fun heq => hevent (heq ▸ rfl)
      simp [notes, answersFor, hne]
  | enqueue request time random =>
      simp only [notes]
      cases (transferEnqueue state.queue request time random).2.2 <;> simp [answersFor]
  | done success time =>
      simp only [notes]
      split
      · split <;> simp [answersFor]
      · simp [answersFor]
  | take | call | progress | statusList | shutdown | exit => simp [notes, answersFor]

theorem forward_queued (terminal : Bytes) (a : Nat) :
    forward terminal a 0 0 0 ++ [some (some (statusText .queued))] =
      forward terminal (a + 1) 0 0 0 := by
  simp [forward, statusText, List.replicate_succ']

theorem forward_inProgress (terminal : Bytes) (a b : Nat) :
    forward terminal a b 0 0 ++ [some (some (statusText .inProgress))] =
      forward terminal a (b + 1) 0 0 := by
  simp [forward, statusText, List.replicate_succ']

theorem forward_ended (terminal : Bytes) (a b c : Nat) :
    forward terminal a b c 0 ++ [some (some terminal)] = forward terminal a b (c + 1) 0 := by
  simp [forward, List.replicate_succ']

theorem forward_gone (terminal : Bytes) (a b c d : Nat) :
    forward terminal a b c d ++ [none] = forward terminal a b c (d + 1) := by
  simp [forward, List.replicate_succ']

theorem Watched.query (h : Watched state jobId after) (hclock : state.clock ≤ after'.clock)
    (hqueue : after'.queue = state.queue) :
    Watched after' jobId (after ++ notes state.queue now (.statusGet jobId)) := by
  have hanswer : answersFor jobId (after ++ notes state.queue now (.statusGet jobId)) =
      answersFor jobId after ++ [(transferStatusGet state.queue jobId).map statusField] := by
    rw [answersFor_append]
    simp [notes, answersFor]
  have hshown : ∀ {slot}, OnlyAt state.queue jobId slot →
      (transferStatusGet state.queue jobId).map statusField =
        some (some (statusText (state.queue.jobs slot).status)) := by
    intro slot position
    rw [transferStatusGet_of_onlyAt position, Option.map_some, statusField_appendJobJson]
  cases h with
  | queued slot position status a answers =>
      refine .queued slot (hqueue ▸ position) (hqueue ▸ status) (a + 1) ?_
      rw [hanswer, answers, hshown position, status, forward_queued]
  | inProgress slot position status a b answers =>
      refine .inProgress slot (hqueue ▸ position) (hqueue ▸ status) a (b + 1) ?_
      rw [hanswer, answers, hshown position, status, forward_inProgress]
  | ended slot position terminal isTerminal status noted a b c answers =>
      refine .ended slot (hqueue ▸ position) terminal isTerminal (hqueue ▸ status)
        (by rw [hqueue]; exact List.mem_append_left _ noted) a b (c + 1) ?_
      rw [hanswer, answers, hshown position, status, forward_ended]
  | gone absent terminal isTerminal time noted late a b c d answers =>
      refine .gone (hqueue ▸ absent) terminal isTerminal time (List.mem_append_left _ noted)
        (le_trans late hclock) a b c (d + 1) ?_
      rw [hanswer, answers, transferStatusGet_of_absent absent, Option.map_none, forward_gone]

theorem Watched.step (hinv : Inv state.queue) (h : Watched state jobId after)
    (hevent : event ≠ .statusGet jobId)
    (hfresh : ∀ request now random, event = .enqueue request now random →
      (transferEnqueue state.queue request now random).2.2 ≠ some jobId)
    (hstep : pollStep state (now, event) = some after') :
    Watched after' jobId (after ++ notes state.queue now event) := by
  obtain ⟨hclock, hreading, hqueue, hafter, -⟩ := pollStep_eq_some hstep
  have hanswers : answersFor jobId (after ++ notes state.queue now event) =
      answersFor jobId after := by
    rw [answersFor_append, answersFor_notes hevent, List.append_nil]
  cases h with
  | queued slot position status a answers =>
      cases position.step hinv hfresh hqueue with
      | kept position' job =>
          exact .queued slot position' (job ▸ status) a (hanswers.trans answers)
      | worked position' active status' =>
          exact .inProgress slot position' status' a 0 (hanswers.trans answers)
      | ended position' success time done worker was status' updated =>
          rw [status] at was
          contradiction
      | pruned absent time reading was due => exact absurd status was.1
  | inProgress slot position status a b answers =>
      cases position.step hinv hfresh hqueue with
      | kept position' job =>
          exact .inProgress slot position' (job ▸ status) a b (hanswers.trans answers)
      | worked position' active status' =>
          exact .inProgress slot position' status' a b (hanswers.trans answers)
      | ended position' success time done worker was status' updated =>
          refine .ended slot position' _ ?_ status' ?_ a b 0 ?_
          · cases success <;> simp
          · rw [updated, done]
            simp [notes, worker, position.holds.1, position.holds.2]
          · rw [hanswers, answers]
            simp [forward]
      | pruned absent time reading was due => exact absurd status was.2
  | ended slot position terminal isTerminal status noted a b c answers =>
      have hnot : (state.queue.jobs slot).status ≠ .queued ∧
          (state.queue.jobs slot).status ≠ .inProgress := by
        rcases isTerminal with rfl | rfl <;> simp [status]
      cases position.step hinv hfresh hqueue with
      | kept position' job =>
          refine .ended slot position' terminal isTerminal (job ▸ status) ?_ a b c
            (hanswers.trans answers)
          rw [job]
          exact List.mem_append_left _ noted
      | worked position' active status' =>
          rcases active with hstatus | hstatus
          · exact absurd hstatus hnot.1
          · exact absurd hstatus hnot.2
      | ended position' success time done worker was status' updated => exact absurd was hnot.2
      | pruned absent time reading was due =>
          refine .gone absent terminal isTerminal _ (List.mem_append_left _ noted) ?_ a b c 0
            (hanswers.trans answers)
          rw [hafter, ← hreading time reading]
          exact due
  | gone absent terminal isTerminal time noted late a b c d answers =>
      refine .gone (fun slot hholds => ?_) terminal isTerminal time
        (List.mem_append_left _ noted) (hafter ▸ le_trans late hclock) a b c d
        (hanswers.trans answers)
      exact absent slot ((jobChange_step slot hinv hqueue).holds hinv hfresh hholds)

end watch

structure Polling (state : Polled) : Prop where
  inv : Inv state.queue
  known : ∀ slot, (state.queue.jobs slot).inUse = true →
    .accepted (state.queue.jobs slot).jobId.str ∈ state.log
  watched : (acceptedIds state.log).Nodup → ∀ jobId before after,
    state.log = before ++ .accepted jobId :: after →
    Watched state jobId after ∧ FoundInTime jobId after

theorem split_append {log new before after : List JobNote} {note : JobNote}
    (hnew : new.length ≤ 1) (h : log ++ new = before ++ note :: after) :
    (new = [note] ∧ before = log ∧ after = []) ∨
      ∃ old, log = before ++ note :: old ∧ after = old ++ new := by
  rcases List.append_eq_append_iff.mp h with ⟨more, hbefore, hrest⟩ | ⟨more, hlog, hrest⟩
  · have hlength := congrArg List.length hrest
    simp only [List.length_append, List.length_cons] at hlength
    have hmore : more = [] := List.length_eq_zero_iff.mp (by omega)
    have hafter : after = [] := List.length_eq_zero_iff.mp (by omega)
    subst hmore hafter
    exact .inl ⟨hrest, by simpa using hbefore, rfl⟩
  · cases more with
    | nil =>
        rw [List.nil_append] at hrest
        rw [← hrest, List.length_cons] at hnew
        have hafter : after = [] := List.length_eq_zero_iff.mp (by omega)
        exact .inl ⟨by rw [← hrest, hafter], by simpa using hlog.symm, hafter⟩
    | cons first old =>
        rw [List.cons_append, List.cons.injEq] at hrest
        exact .inr ⟨old, by rw [hlog, hrest.1], hrest.2⟩

theorem notes_length (queue : TransferQueue) (now : Int) (event : QueueEvent) :
    (notes queue now event).length ≤ 1 := by
  cases event with
  | enqueue request time random =>
      simp only [notes]
      cases (transferEnqueue queue request time random).2.2 <;> simp
  | done success time =>
      simp only [notes]
      split
      · split <;> simp
      · simp
  | statusGet | take | call | progress | statusList | shutdown | exit => simp [notes]

theorem accepted_of_notes {queue : TransferQueue} {now : Int} {event : QueueEvent}
    {jobId : CString} (h : .accepted jobId ∈ notes queue now event) :
    ∃ request time random, event = .enqueue request time random ∧
      (transferEnqueue queue request time random).2.2 = some jobId := by
  cases event with
  | enqueue request time random =>
      refine ⟨request, time, random, rfl, ?_⟩
      simpa [notes] using h
  | done success time =>
      simp only [notes] at h
      split at h
      · split at h <;> simp at h
      · simp at h
  | statusGet | take | call | progress | statusList | shutdown | exit => simp [notes] at h

theorem answered_of_notes {queue : TransferQueue} {now time : Int} {event : QueueEvent}
    {jobId : CString} {document : Option Bytes}
    (h : .answered jobId time document ∈ notes queue now event) :
    event = .statusGet jobId ∧ time = now ∧ document = transferStatusGet queue jobId := by
  cases event with
  | statusGet asked =>
      simp only [notes, List.mem_singleton, JobNote.answered.injEq] at h
      obtain ⟨rfl, rfl, rfl⟩ := h
      exact ⟨rfl, rfl, rfl⟩
  | enqueue request time random => simp [notes] at h
  | done success time =>
      simp only [notes] at h
      split at h
      · split at h <;> simp at h
      · simp at h
  | take | call | progress | statusList | shutdown | exit => simp [notes] at h

section run
variable {state after' : Polled} {event : QueueEvent} {now : Int} {jobId : CString}

theorem known_step (h : Polling state) (hstep : pollStep state (now, event) = some after')
    (slot : Slot) (huse : (after'.queue.jobs slot).inUse = true) :
    .accepted (after'.queue.jobs slot).jobId.str ∈ after'.log := by
  obtain ⟨-, -, hqueue, -, hlog⟩ := pollStep_eq_some hstep
  by_cases hnew : .accepted (after'.queue.jobs slot).jobId.str ∈ notes state.queue now event
  · rw [hlog]
    exact List.mem_append_right _ hnew
  · have hfresh : ∀ request time random, event = .enqueue request time random →
        (transferEnqueue state.queue request time random).2.2 ≠
          some (after'.queue.jobs slot).jobId.str := by
      intro request time random hevent hanswer
      exact hnew (by simp [hevent, notes, hanswer])
    have hheld := (jobChange_step slot h.inv hqueue).holds h.inv hfresh ⟨huse, rfl⟩
    rw [hlog, ← hheld.2]
    exact List.mem_append_left _ (h.known slot hheld.1)

/-- Right after its acceptance a job is queued, under an id of its own. -/
theorem accepted_queued (h : Polling state) {request : TransferRequest} {time : Int}
    {random : RandomBytes 8} (hnew : .accepted jobId ∉ state.log)
    (hanswer : (transferEnqueue state.queue request time random).2.2 = some jobId)
    (hafter : after'.queue = (transferEnqueue state.queue request time random).1) :
    Watched after' jobId [] := by
  rcases transferEnqueue_cases state.queue request time random with
    heq | heq | ⟨slot, token, -, -, heq⟩
  · rw [heq] at hanswer
    contradiction
  · rw [heq] at hanswer
    contradiction
  · rw [heq, Option.some.injEq] at hanswer
    have hjobs : after'.queue.jobs = Function.update
        (pruneTerminalJobsLocked state.queue.jobs time).1 slot
        (newTransferJob request token time) := by
      rw [hafter, heq]
      rfl
    have hjob : after'.queue.jobs slot = newTransferJob request token time := by
      rw [hjobs, Function.update_self]
    refine .queued slot ⟨⟨by rw [hjob]; rfl, by rw [hjob]; exact hanswer⟩, ?_⟩
      (by rw [hjob]; rfl) 0 rfl
    intro other hholds
    by_contra hother
    unfold Holds at hholds
    rw [hjobs, Function.update_of_ne hother, prune_jobs] at hholds
    split at hholds
    · exact absurd hholds.1 (by decide)
    · exact hnew (hholds.2 ▸ h.known other hholds.1)

theorem Watched.late {after : List JobNote} (h : Watched state jobId after)
    (hnone : transferStatusGet state.queue jobId = none) :
    ∃ time, .ended jobId time ∈ after ∧ time + jobRetentionSeconds ≤ state.clock := by
  cases h with
  | queued slot position _ _ _ =>
      rw [transferStatusGet_of_onlyAt position] at hnone
      contradiction
  | inProgress slot position _ _ _ _ =>
      rw [transferStatusGet_of_onlyAt position] at hnone
      contradiction
  | ended slot position _ _ _ _ _ _ _ _ =>
      rw [transferStatusGet_of_onlyAt position] at hnone
      contradiction
  | gone absent terminal isTerminal time noted late a b c d answers => exact ⟨time, noted, late⟩

theorem polling_step (state : Polled) (timed : Int × QueueEvent) (after' : Polled)
    (h : Polling state) (hstep : pollStep state timed = some after') : Polling after' := by
  obtain ⟨now, event⟩ := timed
  obtain ⟨hclock, -, hqueue, hafter, hlog⟩ := pollStep_eq_some hstep
  refine ⟨inv_step state.queue event after'.queue h.inv hqueue, known_step h hstep, ?_⟩
  intro hnodup jobId before after heq
  rw [hlog, acceptedIds_append] at hnodup
  rw [hlog] at heq
  rcases split_append (notes_length state.queue now event) heq with
    ⟨hnote, -, rfl⟩ | ⟨old, hold, rfl⟩
  · obtain ⟨request, time, random, rfl, hanswer⟩ :=
      accepted_of_notes (hnote ▸ List.mem_singleton_self (JobNote.accepted jobId))
    have hnew : .accepted jobId ∉ state.log := by
      rw [← mem_acceptedIds]
      intro hmem
      refine (List.nodup_append.mp hnodup).2.2 jobId hmem jobId ?_ rfl
      rw [hnote]
      simp [acceptedIds]
    refine ⟨accepted_queued h hnew hanswer ?_, fun pre time post hpre => by simp at hpre⟩
    simp only [QueueOrder.step] at hqueue
    split at hqueue
    · exact (Option.some.inj hqueue).symm
    · contradiction
  · obtain ⟨hwatched, hfound⟩ := h.watched (List.nodup_append.mp hnodup).1 jobId before old hold
    have hfresh : ∀ request time random, event = .enqueue request time random →
        (transferEnqueue state.queue request time random).2.2 ≠ some jobId := by
      intro request time random hevent hanswer
      refine (List.nodup_append.mp hnodup).2.2 jobId (mem_acceptedIds.mpr (by simp [hold])) jobId
        (mem_acceptedIds.mpr ?_) rfl
      simp [hevent, notes, hanswer]
    refine ⟨?_, ?_⟩
    · by_cases hevent : event = .statusGet jobId
      · subst hevent
        exact hwatched.query (hafter ▸ hclock) (Option.some.inj hqueue).symm
      · exact hwatched.step h.inv hevent hfresh hstep
    · intro pre time post hpre
      rcases split_append (notes_length state.queue now event) hpre with
        ⟨hnote, rfl, -⟩ | ⟨rest, hrest, -⟩
      · obtain ⟨-, rfl, hnone⟩ :=
          answered_of_notes (hnote ▸ List.mem_singleton_self (JobNote.answered jobId time none))
        obtain ⟨ended, hended, hlate⟩ := hwatched.late hnone.symm
        exact ⟨ended, hended, le_trans hlate hclock⟩
      · exact hfound pre time rest hrest

end run

structure Polled.Initial (state : Polled) : Prop where
  queue : state.queue = transferQueueInit
  log : state.log = []

theorem Polled.Initial.polling {state : Polled} (h : state.Initial) : Polling state := by
  refine ⟨h.queue ▸ inv_init, ?_, by simp [h.log]⟩
  intro slot huse
  rw [h.queue] at huse
  contradiction

theorem Watched.forward {state : Polled} {jobId : CString} {after : List JobNote}
    (h : Watched state jobId after) :
    ∃ terminal, (terminal = (CString.lit "completed").bytes ∨
        terminal = (CString.lit "failed").bytes) ∧
      ∃ a b c d, answersFor jobId after = forward terminal a b c d := by
  have hterminal : ∀ {terminal : TransferJobStatus}, terminal = .completed ∨ terminal = .failed →
      statusText terminal = (CString.lit "completed").bytes ∨
        statusText terminal = (CString.lit "failed").bytes := by
    rintro terminal (rfl | rfl)
    · exact .inl rfl
    · exact .inr rfl
  cases h with
  | queued _ _ _ a answers => exact ⟨_, .inl rfl, a, 0, 0, 0, answers⟩
  | inProgress _ _ _ a b answers => exact ⟨_, .inl rfl, a, b, 0, 0, answers⟩
  | ended _ _ terminal isTerminal _ _ a b c answers =>
      exact ⟨_, hterminal isTerminal, a, b, c, 0, answers⟩
  | gone _ terminal isTerminal _ _ _ a b c d answers =>
      exact ⟨_, hterminal isTerminal, a, b, c, d, answers⟩

/-- In every run in which no id is given out twice, the documents that queries about an accepted
job are answered with show queued, then in progress, then one final status, and from some point
on there is none; and that only once the job had ended an hour before. -/
theorem jobStatus_forward {start state : Polled} {events : List (Int × QueueEvent)}
    (hstart : start.Initial) (hrun : run pollStep start events = some state)
    (hunique : (acceptedIds state.log).Nodup) {jobId : CString} {before after : List JobNote}
    (hlog : state.log = before ++ .accepted jobId :: after) :
    (∃ terminal, (terminal = (CString.lit "completed").bytes ∨
        terminal = (CString.lit "failed").bytes) ∧
      ∃ a b c d, answersFor jobId after = forward terminal a b c d) ∧
    ∀ pre now post, after = pre ++ .answered jobId now none :: post →
      ∃ time, .ended jobId time ∈ pre ∧ time + 3600 ≤ now := by
  have h := run_invariant polling_step hstart.polling hrun
  obtain ⟨hwatched, hfound⟩ := h.watched hunique jobId before after hlog
  exact ⟨hwatched.forward, hfound⟩

def pollingRun (jobId : CString) : List (Int × QueueEvent) :=
  [(100, .enqueue (sampleRequest "staging/1_a_x") 100 (some (Vector.replicate 8 1))),
    (100, .statusGet jobId), (101, .take 101), (101, .call), (102, .progress 5 10 102),
    (103, .statusGet jobId), (104, .done false 104), (105, .statusGet jobId),
    (3704, .enqueue (sampleRequest "staging/2_b_y") 3704 (some (Vector.replicate 8 2))),
    (3704, .statusGet jobId)]

theorem pollingRun_forward :
    ∃ state after, run pollStep ⟨transferQueueInit, 0, []⟩
        (pollingRun (.lit "100-0101010101010101")) = some state ∧
      state.log = [] ++ .accepted (.lit "100-0101010101010101") :: after ∧
      answersFor (.lit "100-0101010101010101") after =
        [some (some (CString.lit "queued").bytes), some (some (CString.lit "in_progress").bytes),
          some (some (CString.lit "failed").bytes), none] ∧
      (∃ terminal a b c d,
        answersFor (.lit "100-0101010101010101") after = forward terminal a b c d) ∧
      ∀ pre now post, after = pre ++ .answered (.lit "100-0101010101010101") now none :: post →
        ∃ time, .ended (.lit "100-0101010101010101") time ∈ pre ∧ time + 3600 ≤ now := by
  obtain ⟨state, hrun⟩ := Option.isSome_iff_exists.mp
    (show (run pollStep ⟨transferQueueInit, 0, []⟩
      (pollingRun (.lit "100-0101010101010101"))).isSome = true by decide +kernel)
  have hfinal : (run pollStep ⟨transferQueueInit, 0, []⟩
      (pollingRun (.lit "100-0101010101010101"))).all (fun state =>
      (acceptedIds state.log).Nodup ∧
        state.log.head? = some (.accepted (.lit "100-0101010101010101")) ∧
        answersFor (.lit "100-0101010101010101") state.log.tail =
          [some (some (CString.lit "queued").bytes), some (some (CString.lit "in_progress").bytes),
            some (some (CString.lit "failed").bytes), none]) = true := by
    decide +kernel
  rw [hrun] at hfinal
  simp only [Option.all_some, decide_eq_true_eq] at hfinal
  obtain ⟨hnodup, haccepted, hanswers⟩ := hfinal
  obtain ⟨after, hhead⟩ := List.head?_eq_some_iff.mp haccepted
  have hlog : state.log = [] ++ .accepted (.lit "100-0101010101010101") :: after := hhead
  rw [hhead, List.tail_cons] at hanswers
  obtain ⟨⟨terminal, -, hforward⟩, hfound⟩ := jobStatus_forward ⟨rfl, rfl⟩ hrun hnodup hlog
  exact ⟨state, after, hrun, hlog, hanswers, ⟨terminal, hforward⟩, hfound⟩

end LocalDrop.QueueOrder
