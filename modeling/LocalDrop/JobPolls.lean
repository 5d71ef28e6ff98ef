import LocalDrop.Expiry
import LocalDrop.JobStatus
import LocalDrop.Replies

/-! Following a transfer. The answer to `/api/send` names a job; whoever asks for that job under
`/api/transfers/<id>` is told about the file that was sent, and what is told of its status only
goes forward, until the transfer has been over for an hour. -/
namespace LocalDrop
open Lib

inductive StatusForward : Bytes → Bytes → Prop
  | same (status : Bytes) : StatusForward status status
  | started : StatusForward (CString.lit "queued").bytes (CString.lit "in_progress").bytes
  | ended (was now : Bytes)
      (open_ : was = (CString.lit "queued").bytes ∨ was = (CString.lit "in_progress").bytes)
      (final : now = (CString.lit "completed").bytes ∨ now = (CString.lit "failed").bytes) :
      StatusForward was now

theorem StatusForward.trans {first second third : Bytes} (h : StatusForward first second)
    (h' : StatusForward second third) : StatusForward first third := by
  generalize hmid : second = mid at h
  cases h with
  | same => exact hmid ▸ h'
  | started =>
      cases h' with
      | same => exact hmid ▸ .started
      | started => contradiction
      | ended _ _ _ final => exact .ended _ _ (.inl rfl) final
  | ended _ _ open_ final =>
      subst hmid
      cases h' with
      | same => exact .ended _ _ open_ final
      | started => rcases final with final | final <;> contradiction
      | ended _ _ again _ => rcases final with rfl | rfl <;> rcases again with again | again <;>
          contradiction

def TransferJob.target (job : TransferJob) : CString × UInt16 := (job.targetIp.str, job.targetPort)

theorem step_target {queue queue' : TransferQueue} {event : QueueOrder.QueueEvent} {slot : Slot}
    (hinv : QueueOrder.Inv queue)
    (hactive : (queue.jobs slot).status = .queued ∨ (queue.jobs slot).status = .inProgress)
    (h : QueueOrder.step queue event = some queue') :
    (queue'.jobs slot).target = (queue.jobs slot).target := by
  have hupdate : ∀ {target : Slot} {job : TransferJob}, job.target = (queue.jobs target).target →
      (Function.update queue.jobs target job slot).target = (queue.jobs slot).target := by
    intro target job hsame
    by_cases hslot : slot = target
    · rw [hslot, Function.update_self, hsame]
    · rw [Function.update_of_ne hslot]
  cases event with
  | enqueue request now random =>
      have hpruned := @QueueOrder.prune_of_active queue.jobs now slot hactive
      simp only [QueueOrder.step] at h
      split at h
      · cases Option.some.inj h
        rcases transferEnqueue_cases queue request now random with
          heq | heq | ⟨created, token, -, hfree, heq⟩
        · rw [heq]
        · rw [heq]
          exact congrArg TransferJob.target hpruned
        · have hslot : slot ≠ created := by
            rintro rfl
            have huse : (queue.jobs slot).inUse = true := by
              rw [hinv.inUse]
              rcases hactive with hstatus | hstatus <;> simp [hstatus]
            rw [hpruned, huse] at hfree
            contradiction
          rw [heq]
          change (Function.update (pruneTerminalJobsLocked queue.jobs now).1 created _ slot).target
            = _
          rw [Function.update_of_ne hslot, hpruned]
      · contradiction
  | take now =>
      simp only [QueueOrder.step, workerTake] at h
      split at h
      · split at h
        · cases Option.some.inj h
          exact hupdate rfl
        · cases Option.some.inj h
          rfl
      · contradiction
  | call =>
      rw [workerCall_jobs h]
  | progress bytesSent totalBytes now =>
      simp only [QueueOrder.step, transferJobProgress] at h
      split at h
      · split at h
        · cases Option.some.inj h
          exact hupdate rfl
        · cases Option.some.inj h
          rfl
      · contradiction
  | done success now =>
      obtain ⟨result, hresult, rfl⟩ := Option.map_eq_some_iff.mp h
      simp only [workerDone] at hresult
      split at hresult
      · split at hresult
        · cases Option.some.inj hresult
          rfl
        · split at hresult
          · cases Option.some.inj hresult
            exact hupdate rfl
          · cases Option.some.inj hresult
            exact hupdate rfl
      · contradiction
  | exit => rw [workerExit_jobs h]
  | statusGet | statusList | shutdown =>
      cases Option.some.inj h
      rfl

/-- The slot holds the job with this id, which was accepted for this transfer. -/
structure JobAt (queue : TransferQueue) (slot : Slot) (jobId : CString)
    (transfer : TransferRequest) : Prop where
  holds : QueueOrder.Holds queue jobId slot
  accepted : QueueOrder.origin queue slot = some transfer
  target : (queue.jobs slot).target = ((QueueOrder.stored transfer).targetIp, transfer.targetPort)

theorem enqueued_jobAt {queue queue' : TransferQueue} {transfer : TransferRequest} {now : Time}
    {random : RandomBytes 8} {deleted : Deletions} {jobId : CString}
    (h : transferEnqueue queue transfer now random = (queue', deleted, some jobId)) :
    ∃ slot, JobAt queue' slot jobId transfer := by
  obtain ⟨slot, token, -, -, rfl, -, rfl⟩ := transferEnqueue_accepted h
  have hjob : (appendPending { queue with
      jobs := Function.update (pruneTerminalJobsLocked queue.jobs now).1 slot
        (newTransferJob transfer token now) } slot transfer).jobs slot =
      newTransferJob transfer token now := Function.update_self ..
  refine ⟨slot, ?_, ?_, ?_⟩
  · unfold QueueOrder.Holds
    rw [hjob]
    exact ⟨rfl, rfl⟩
  · simp [QueueOrder.origin, appendPending]
  · rw [hjob]
    rfl

def Process.jobStatus (process : Process) (slot : Slot) : TransferJobStatus :=
  (process.world.queue.jobs slot).status

def Process.statusShown (process : Process) (slot : Slot) : Bytes :=
  statusText (process.jobStatus slot)

def Process.Due (process : Process) (slot : Slot) (now : Time) : Prop :=
  (process.jobStatus slot = .completed ∨ process.jobStatus slot = .failed) ∧
    (process.world.queue.jobs slot).updatedAt + jobRetentionSeconds ≤ now

section steps
variable {process after : Process} {event : Event} {entries : List Entry} {slot : Slot}
  {jobId : CString} {transfer : TransferRequest}

theorem due_of_prunable {now : Time}
    (h : (process.world.queue.jobs slot).prunable now = true) : process.Due slot now := by
  simp only [TransferJob.prunable, TransferJob.terminal, Bool.and_eq_true, Bool.or_eq_true,
    decide_eq_true_eq] at h
  exact ⟨h.1.2, h.2⟩

theorem jobAt_next (hwf : Wellformed process) (hok : QueueOk process)
    (h : JobAt process.world.queue slot jobId transfer)
    (hnext : next process event = some (after, entries)) :
    JobAt after.world.queue slot jobId transfer ∧
        StatusForward (process.statusShown slot) (after.statusShown slot) ∨
      process.Due slot process.world.clock := by
  have hheld := h.holds
  have htarget := h.target
  rcases next_queueAt hwf hok.requests hnext with hqueue | ⟨queueEvent, -, hreads, hqueue⟩
  · left
    unfold Process.statusShown Process.jobStatus
    rw [hqueue]
    exact ⟨⟨hqueue ▸ hheld, hqueue ▸ h.accepted, hqueue ▸ htarget⟩, .same _⟩
  · cases QueueOrder.jobChange_step slot hok.inv hqueue with
    | kept job same =>
        left
        unfold Process.statusShown Process.jobStatus
        refine ⟨⟨?_, same transfer h.accepted, job ▸ htarget⟩, job ▸ .same _⟩
        unfold QueueOrder.Holds
        rw [job]
        exact hheld
    | worked active status inUse id path same =>
        refine .inl ⟨⟨⟨inUse, id ▸ hheld.2⟩, same.trans h.accepted,
          (step_target hok.inv active hqueue).trans htarget⟩, ?_⟩
        unfold Process.statusShown Process.jobStatus
        rw [status]
        rcases active with hstatus | hstatus <;> rw [hstatus]
        · exact .started
        · exact .same _
    | ended success now done worker job same =>
        have hwas := (hok.inv.progress slot).mpr (.inr worker)
        refine .inl ⟨⟨?_, same.trans h.accepted,
          (step_target hok.inv (.inr hwas) hqueue).trans htarget⟩,
          .ended _ _ (.inr (congrArg statusText hwas)) ?_⟩
        · unfold QueueOrder.Holds
          rw [job]
          cases success <;> exact hheld
        · unfold Process.statusShown Process.jobStatus
          rw [job]
          cases success
          · exact .inr rfl
          · exact .inl rfl
    | pruned request now random enqueue due job =>
        rw [enqueue] at hreads
        exact .inr (hreads ▸ due_of_prunable due)
    | created request token now random enqueue free answer job new =>
        rw [enqueue] at hreads
        exact .inr (hreads ▸ due_of_prunable (free hheld.1))

theorem jobAt_told {id : Nat} {env : ProceedEnv} {waiting request : Request} {port : UInt16}
    {token message : CString} {body : Bytes}
    (hwaiting : process.requests id = some waiting)
    (hphase : waiting.phase = .sendEnqueue port token)
    (hnext : next process (.proceed id env) = some (after, entries))
    (hrequest : after.requests id = some request)
    (hanswer : request.phase = .answered (.json 200 body))
    (hread : Carries body (okValue [messageMember message,
      ((CString.lit "job_id").bytes, .str jobId.bytes)])) :
    ∃ slot, JobAt after.world.queue slot jobId
      ⟨waiting.info.filename.str, waiting.info.targetIp.str, port, token⟩ := by
  cases next_steps hnext with
  | proceed _ _ request' outcome was continues =>
      rw [hwaiting] at was
      cases Option.some.inj was
      have hself : (process.settle id outcome).1.requests id = some outcome.2.1 :=
        Function.update_self ..
      have hanswered := Option.some.inj (hself.symm.trans hrequest)
      subst hanswered
      cases proceed_proceeds continues with
      | sendRefused =>
          have hreply := Phase.answered.inj hanswer
          simp [errorReply, queueJsonStatusMessage] at hreply
      | @sendEnqueued port' token' jobId' queue deleted phase enqueued =>
          rw [hphase] at phase
          cases phase
          have hreply := Phase.answered.inj hanswer
          obtain ⟨body', heq, hcarries⟩ := transferResponse_carries
            (.lit "Transferencia enfileirada com sucesso") jobId'
          rw [heq, Reply.json.injEq] at hreply
          rw [hreply.2] at hcarries
          have hvalue := Option.some.inj (hcarries.symm.trans hread)
          have hid : jobId'.bytes = jobId.bytes := by
            simp only [okValue, Json.obj.injEq, List.cons.injEq, Prod.mk.injEq, Json.str.injEq]
              at hvalue
            exact hvalue.2.2.1.2
          rw [← CString.ext hid]
          exact enqueued_jobAt enqueued
      | sendCleanup phase | exchangeAdd phase | exchangeMark phase | pairRefused phase
      | pairAccepted phase | pairStore phase | pairMark phase => rw [hphase] at phase; contradiction

theorem transferCall_answered {id : Nat} {upload : Option Body} {env : CallEnv}
    {asking : Request} (honly : QueueOrder.OnlyAt process.world.queue jobId slot)
    (hwas : process.requests id = some asking) (hroute : asking.route = .transfer jobId)
    (hgranted : (authorizeUiRequest process.world.auth asking.info asking.headers
      (.lit "transfer_status") 30 process.world.clock env.unwritten).2.2 = true)
    (hnext : next process (.call id upload env) = some (after, entries)) :
    ∃ answered json, after.requests id = some answered ∧
      answered.phase = .answered (.json 200 json) ∧
      Carries json (jobValue (process.world.queue.jobs slot)) ∧
      statusField json = some (process.statusShown slot) := by
  cases next_steps hnext with
  | call _ _ _ request was phase =>
      rw [hwas] at was
      cases Option.some.inj was
      have hcall : answerToConnection process.world id asking upload env =
          transfersCall process.world id asking env
            (transferStatusGet process.world.queue jobId) := by
        unfold answerToConnection
        rw [hroute]
      have hself : (process.settle id
          (answerToConnection process.world id asking upload env)).1.requests id =
          some (answerToConnection process.world id asking upload env).2.1 :=
        Function.update_self ..
      have hjson : transferStatusGet process.world.queue jobId =
          some (appendJobJson (process.world.queue.jobs slot)) :=
        Option.map_eq_some_iff.mpr ⟨slot, QueueOrder.find_of_onlyAt honly, rfl⟩
      rw [hself, hcall, hjson]
      refine ⟨_, _, rfl, ?_, parse_appendJobJson _, statusField_appendJobJson _⟩
      unfold transfersCall
      dsimp only
      split <;> rename_i hgate <;> rw [hgate] at hgranted
      · contradiction
      · rfl

/-- What a client that asks for the job gets to know, from some state on. -/
theorem jobAt_run {told : Process} {later : List Event} (htracked : Tracked told)
    (h : JobAt told.world.queue slot jobId transfer) (hlater : run step told later = some process) :
    (JobAt process.world.queue slot jobId transfer ∧ ∀ mid rest, Passes step told later mid rest →
      StatusForward (mid.statusShown slot) (process.statusShown slot)) ∨
    ∃ mid rest, Passes step told later mid rest ∧ JobAt mid.world.queue slot jobId transfer ∧
      mid.Due slot process.world.clock := by
  induction later generalizing told with
  | nil =>
      cases Option.some.inj hlater
      refine .inl ⟨h, fun mid rest hpasses => ?_⟩
      obtain ⟨earlier, hsplit, hmid⟩ := hpasses
      rw [(List.append_eq_nil_iff.mp hsplit.symm).1] at hmid
      cases Option.some.inj hmid
      exact .same _
  | cons event later ih =>
      obtain ⟨after, hstep, hrest⟩ := run_cons_eq_some hlater
      have hnow : JobAt after.world.queue slot jobId transfer ∧
            StatusForward (told.statusShown slot) (after.statusShown slot) ∨
          told.Due slot told.world.clock := by
        obtain ⟨settled, entries, hnext, rfl⟩ := step_eq_some hstep
        have hjob := jobAt_next htracked.wellformed htracked.queue h hnext
        exact hjob
      rcases hnow with ⟨hat, hstatus⟩ | ⟨hover, hdue⟩
      · rcases ih (tracked_step told event after htracked hstep) hat hrest with
          ⟨hfinal, hforward⟩ | ⟨mid, rest, hpasses, hmid⟩
        · refine .inl ⟨hfinal, fun mid rest hpasses => ?_⟩
          rcases hpasses.cases_cons with rfl | ⟨second, hsecond, hlast⟩
          · exact hstatus.trans (hforward after later ⟨[], rfl, rfl⟩)
          · cases Option.some.inj (hstep.symm.trans hsecond)
            exact hforward mid rest hlast
        · exact .inr ⟨mid, rest, hpasses.cons hstep, hmid⟩
      · have hclock := clock_run hlater
        exact .inr ⟨told, event :: later, ⟨[], rfl, rfl⟩, h, hover, le_trans hdue hclock⟩

theorem routeOf_transfer (jobId : CString) :
    routeOf (transfersUrl ++ jobId) (.lit "GET") = .transfer jobId := by
  have hprefixed : transfersUrl.bytes.isPrefixOf (transfersUrl ++ jobId).bytes = true :=
    List.isPrefixOf_iff_prefix.mpr ⟨jobId.bytes, rfl⟩
  have hne : ∀ url : CString, transfersUrl.bytes.isPrefixOf url.bytes = false →
      transfersUrl ++ jobId ≠ url := by
    rintro url hnot rfl
    rw [hprefixed] at hnot
    contradiction
  unfold routeOf
  dsimp only
  rw [if_neg fun h => hne _ (by decide) h.1, if_neg fun h => hne _ (by decide) h.1,
    if_neg fun h => hne _ (by decide) h.1, if_neg fun h => hne _ (by decide) h.1,
    if_neg fun h => hne _ (by decide) h.1, if_neg fun h => hne _ (by decide) h.1,
    if_pos ⟨hprefixed, rfl⟩]
  refine congrArg Route.transfer (CString.ext ?_)
  change (transfersUrl.bytes ++ jobId.bytes).drop transfersUrl.bytes.length = jobId.bytes
  exact List.drop_left

end steps

section runs
variable {start before told process : Process} {events later : List Event} {id : Nat}
  {env : ProceedEnv} {waiting request : Request} {port : UInt16} {token message jobId : CString}
  {body : Bytes}

/-- Of the ids in the table this one stands for one job. -/
def OneJob (queue : TransferQueue) (jobId : CString) : Prop :=
  ∀ slot slot', QueueOrder.Holds queue jobId slot → QueueOrder.Holds queue jobId slot' →
    slot = slot'

def Process.Shows (process : Process) (slot : Slot) (status : Bytes) : Prop :=
  statusField (appendJobJson (process.world.queue.jobs slot)) = some status

/-- A granted poll for the job with this id is answered with the document of the slot, which
shows this status. -/
def Process.Tells (process : Process) (jobId : CString) (slot : Slot) (status : Bytes) : Prop :=
  ∀ asking other upload callEnv after, process.requests asking = some other →
    other.route = routeOf (transfersUrl ++ jobId) (.lit "GET") →
    (authorizeUiRequest process.world.auth other.info other.headers (.lit "transfer_status") 30
      process.world.clock callEnv.unwritten).2.2 = true →
    step process (.call asking upload callEnv) = some after →
    ∃ answered json, after.requests asking = some answered ∧
      answered.phase = .answered (.json 200 json) ∧
      Carries json (jobValue (process.world.queue.jobs slot)) ∧ statusField json = some status

/-- The client that sent a file can follow it under the id it was told: it is shown that
transfer's target and a status that has only gone forward, or the transfer had been over for an
hour. -/
theorem sentTransfer_followed (hstart : Started start) (hrun : run step start events = some before)
    (hwaiting : before.requests id = some waiting)
    (hphase : waiting.phase = .sendEnqueue port token)
    (htold : step before (.proceed id env) = some told)
    (hrequest : told.requests id = some request)
    (hanswer : request.phase = .answered (.json 200 body))
    (hread : Carries body (okValue [messageMember message,
      ((CString.lit "job_id").bytes, .str jobId.bytes)]))
    (hlater : run step told later = some process) (hone : OneJob process.world.queue jobId) :
    ∃ slot, (JobAt process.world.queue slot jobId
          ⟨waiting.info.filename.str, waiting.info.targetIp.str, port, token⟩ ∧
        ∃ status, process.Tells jobId slot status ∧ ∀ mid rest, Passes step told later mid rest →
          ∃ earlier, mid.Shows slot earlier ∧ StatusForward earlier status) ∨
      ∃ mid rest, Passes step told later mid rest ∧ JobAt mid.world.queue slot jobId
          ⟨waiting.info.filename.str, waiting.info.targetIp.str, port, token⟩ ∧
        mid.Due slot process.world.clock := by
  have hbefore := run_invariant tracked_step hstart.tracked hrun
  have htracked := tracked_step before _ told hbefore htold
  obtain ⟨slot, hat⟩ : ∃ slot, JobAt told.world.queue slot jobId
      ⟨waiting.info.filename.str, waiting.info.targetIp.str, port, token⟩ := by
    obtain ⟨settled, entries, hnext, rfl⟩ := step_eq_some htold
    have hjob := jobAt_told hwaiting hphase hnext hrequest hanswer hread
    exact hjob
  refine ⟨slot, ?_⟩
  rcases jobAt_run htracked hat hlater with ⟨hnow, hforward⟩ | hover
  · refine .inl ⟨hnow, process.statusShown slot, ?_, fun mid rest hpasses =>
      ⟨_, statusField_appendJobJson _, hforward mid rest hpasses⟩⟩
    intro asking other upload callEnv after hwas hroute hgranted hcall
    rw [routeOf_transfer] at hroute
    obtain ⟨settled, entries, hnext, rfl⟩ := step_eq_some hcall
    have honly : QueueOrder.OnlyAt process.world.queue jobId slot :=
      ⟨hnow.holds, fun other hother => hone other slot hother hnow.holds⟩
    have htells := transferCall_answered honly hwas hroute hgranted hnext
    exact htells
  · exact .inr hover

end runs

def beforeEnqueue : List Event :=
  unlocking 0 7 ++ exchanging 1 8 ++ sending 2 (sampleToken 7) "a.txt" 9 ++ [sampleProceed 2 0]

theorem oneSend_followed : ∃ before told process waiting,
    run step sampleStart beforeEnqueue = some before ∧
    step before (sampleProceed 2 11) = some told ∧
    run step told [.workerTake, .workerCall, .workerDone true] = some process ∧
    before.requests 2 = some waiting ∧
    ∃ slot, (JobAt process.world.queue slot (.lit "1000-0b0b0b0b0b0b0b0b")
          ⟨waiting.info.filename.str, waiting.info.targetIp.str, 8080, sampleToken 8⟩ ∧
        ∃ status, process.Tells (.lit "1000-0b0b0b0b0b0b0b0b") slot status ∧
          ∀ mid rest, Passes step told [.workerTake, .workerCall, .workerDone true] mid rest →
            ∃ earlier, mid.Shows slot earlier ∧ StatusForward earlier status) ∨
      ∃ mid rest, Passes step told [.workerTake, .workerCall, .workerDone true] mid rest ∧
        JobAt mid.world.queue slot (.lit "1000-0b0b0b0b0b0b0b0b")
          ⟨waiting.info.filename.str, waiting.info.targetIp.str, 8080, sampleToken 8⟩ ∧
        mid.Due slot process.world.clock := by
  obtain ⟨before, hrun⟩ : ∃ before, run step sampleStart beforeEnqueue = some before :=
    Option.isSome_iff_exists.mp (by decide +kernel)
  have hfacts : (run step sampleStart beforeEnqueue).all (fun before =>
      (before.requests 2).map Request.phase = some (.sendEnqueue 8080 (sampleToken 8)) ∧
      (step before (sampleProceed 2 11)).any (fun told =>
        (told.requests 2).map Request.phase = some (.answered (queueJsonTransferResponse
          (.lit "Transferencia enfileirada com sucesso") (.lit "1000-0b0b0b0b0b0b0b0b"))) ∧
        (run step told [.workerTake, .workerCall, .workerDone true]).any fun process =>
          (List.finRange maxTransferJobs).all fun slot =>
            slot = 0 || (process.world.queue.jobs slot).inUse = false)) = true := by
    decide +kernel
  rw [hrun] at hfacts
  simp only [Option.all_some, decide_eq_true_eq, Option.any_eq_true, List.all_eq_true,
    List.mem_finRange, forall_const, Bool.or_eq_true, Bool.decide_and, Bool.and_eq_true] at hfacts
  obtain ⟨hwaiting, told, htold, hanswered, process, hlater, hunused⟩ := hfacts
  obtain ⟨waiting, hwas, hphase⟩ := Option.map_eq_some_iff.mp hwaiting
  obtain ⟨request, hrequest, hanswer⟩ := Option.map_eq_some_iff.mp hanswered
  obtain ⟨body, hbody, hcarries⟩ := transferResponse_carries
    (.lit "Transferencia enfileirada com sucesso") (.lit "1000-0b0b0b0b0b0b0b0b")
  rw [hbody] at hanswer
  have hone : OneJob process.world.queue (.lit "1000-0b0b0b0b0b0b0b0b") := by
    have hzero : ∀ slot, QueueOrder.Holds process.world.queue (.lit "1000-0b0b0b0b0b0b0b0b") slot →
        slot = 0 := by
      intro slot hholds
      rcases hunused slot with hslot | hfree
      · exact hslot
      · rw [hholds.1] at hfree
        contradiction
    intro slot slot' h h'
    rw [hzero slot h, hzero slot' h']
  exact ⟨before, told, process, waiting, hrun, htold, hlater, hwas,
    sentTransfer_followed sampleStart_started hrun hwas hphase htold hrequest hanswer hcarries
      hlater hone⟩

end LocalDrop
