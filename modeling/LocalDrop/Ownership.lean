import LocalDrop.Staging

/-! Every staging file has one owner. Each step of the process is a move of the
ledger of `Staging`, so the ledger stays sound along every run in which staging
names do not repeat. -/
namespace LocalDrop
open Lib

def stagedPaths (log : List Entry) : List CString :=
  log.filterMap fun
    | .staged _ _ path => some path
    | _ => none

/-- Staging names carry 64 random bits; this step does not reuse one. -/
def FreshNames (process : Process) (event : Event) : Prop :=
  ∀ after entries, next process event = some (after, entries) →
    ∀ path ∈ stagedPaths entries, path ∉ stagedPaths process.log

/-- The event is the `cleanup_expired_staging_files` of a `transfer_enqueue`. -/
def CleansUp (process : Process) (event : Event) : Prop :=
  ∃ id env request port token, event = .proceed id env ∧
    process.requests id = some request ∧ request.phase = .sendCleanup port token

inductive Moves (before : Process) (event : Event) (after : Process) (entries : List Entry) :
    Prop where
  | drops (move : before.ledger.Drops after.ledger) (names : stagedPaths entries = [])
  | creates (id : Nat) (path : CString) (entry : isStagingEntry path = true)
      (move : before.ledger.Creates after.ledger (.request id) path)
      (names : stagedPaths entries = [path])
      (creator : (after.world.fs path).map File.creator = some (some id))
      (queue : after.world.queue = before.world.queue)
  | handsOver (middle : Ledger Owner CString) (id : Nat) (slot : Slot) (path : CString)
      (drop : before.ledger.Drops middle)
      (move : middle.HandsOver after.ledger (.request id) (.job slot) path)
      (names : stagedPaths entries = [])
  | expires (move : before.ledger.Expires after.ledger) (cleanup : CleansUp before event)
      (names : stagedPaths entries = [])

theorem stagedPaths_append (log entries : List Entry) :
    stagedPaths (log ++ entries) = stagedPaths log ++ stagedPaths entries :=
  List.filterMap_append ..

theorem mem_stagedPaths {log : List Entry} {id : Nat} {route : Route} {path : CString}
    (h : Entry.staged id route path ∈ log) : path ∈ stagedPaths log :=
  List.mem_filterMap.mpr ⟨_, h, rfl⟩

theorem stagedPaths_of_idle {entries : List Entry}
    (h : ∀ entry ∈ entries, entry.isFileEntry = false) : stagedPaths entries = [] := by
  refine List.filterMap_eq_nil_iff.mpr fun entry hentry => ?_
  have hidle := h entry hentry
  cases entry <;> first | rfl | contradiction

theorem staged_creates {fs fs' : FileSystem} {path : CString} {id : Nat}
    (h : fs.Creates fs' path id) (hentry : isStagingEntry path = true) (other : CString) :
    fs'.Staged other ↔ fs.Staged other ∨ other = path := by
  unfold FileSystem.Staged
  by_cases hother : other = path
  · subst hother
    simp [hentry, h.self]
  · simp [h.others other hother, hother]

theorem staged_rename {fs : FileSystem} {source target : CString}
    (htarget : isStagingEntry target = false) (other : CString) :
    (fs.rename source target).Staged other ↔ fs.Staged other ∧ other ≠ source := by
  unfold FileSystem.Staged
  by_cases hother : other = target
  · subst hother
    simp [htarget]
  · simp only [FileSystem.rename, Function.update_of_ne hother, FileSystem.unlink]
    by_cases hsource : other = source
    · simp [hsource]
    · simp [hsource]

theorem deleteAll_apply (paths : List CString) (fs : FileSystem) (path : CString) :
    deleteAll fs paths path =
      if path ∈ paths ∧ path ≠ CString.empty then none else fs path := by
  unfold deleteAll
  induction paths generalizing fs with
  | nil => simp
  | cons first rest ih =>
      rw [List.foldl_cons, ih, storageDeleteFile]
      by_cases hempty : path = CString.empty
      · simp only [hempty, ne_eq, not_true_eq_false, and_false, if_false]
        split
        · rfl
        · rename_i hfirst
          exact Function.update_of_ne (Ne.symm hfirst) ..
      · by_cases hrest : path ∈ rest
        · simp [hrest, hempty]
        · by_cases hfirst : path = first
          · subst hfirst
            simp [hrest, hempty, FileSystem.unlink]
          · simp only [hrest, false_and, if_false, List.mem_cons, hfirst, or_self]
            split
            · rfl
            · exact Function.update_of_ne hfirst ..

theorem staged_deleteAll (paths : List CString) (fs : FileSystem) (path : CString) :
    (deleteAll fs paths).Staged path ↔ fs.Staged path ∧ path ∉ paths := by
  unfold FileSystem.Staged
  rw [deleteAll_apply]
  by_cases hentry : isStagingEntry path = true
  · have hne := isStagingEntry_ne_empty hentry
    by_cases hmem : path ∈ paths
    · simp [hmem, hne]
    · simp [hmem]
  · simp [hentry]

theorem staged_abort (fs : FileSystem) (stage : UploadStage) (path : CString) :
    (uploadStageAbort fs stage).1.Staged path ↔
      fs.Staged path ∧ path ≠ stage.stagingPath.str := by
  have habort : (uploadStageAbort fs stage).1 = deleteAll fs [stage.stagingPath.str] := rfl
  rw [habort, staged_deleteAll]
  simp

theorem staged_cleanup {fs : FileSystem} {maxAge now : Time} {path : CString}
    (h : (cleanupExpiredStagingFiles fs maxAge now).Staged path) : fs.Staged path := by
  unfold cleanupExpiredStagingFiles at h
  split at h
  · exact h
  · refine ⟨h.1, ?_⟩
    obtain ⟨id, hid⟩ := h.2
    dsimp only at hid
    split at hid
    · simp at hid
    · exact ⟨id, hid⟩

theorem cleanup_apply (fs : FileSystem) (now : Time) (path : CString) :
    cleanupExpiredStagingFiles fs stagingRetentionSeconds now path =
      if isStagingEntry path && (fs path).any (File.expired stagingRetentionSeconds now) then none
      else fs path := by
  unfold cleanupExpiredStagingFiles
  rw [if_neg (by decide)]

section moves
variable {fs fs' : FileSystem} {requests : Nat → Option Request} {jobs jobs' : Slot → TransferJob}
  {id : Nat} {request request' : Request}

theorem ledgerOf_request_update (changed : Option Request) (other : Owner)
    (hother : other ≠ .request id) :
    (ledgerOf fs' (Function.update requests id changed) jobs).held other =
      (ledgerOf fs requests jobs).held other := by
  cases other with
  | request k =>
      have hk : k ≠ id := fun h => hother (h ▸ rfl)
      simp [ledgerOf, Function.update_of_ne hk]
  | job slot => rfl

theorem drops_same (hwas : requests id = some request) (hholds : request'.holds = request.holds)
    (hfiles : ∀ path, fs'.Staged path ↔ fs.Staged path) :
    (ledgerOf fs requests jobs).Drops
      (ledgerOf fs' (Function.update requests id (some request')) jobs) := by
  refine .of_same (fun owner => ?_) hfiles
  by_cases howner : owner = .request id
  · subst howner
    simp [ledgerOf, hwas, hholds]
  · exact ledgerOf_request_update _ _ howner

theorem drops_request {changed : Option Request} (hwas : requests id = some request)
    (hfree : changed.bind Request.holds = none)
    (hfiles : ∀ path, fs'.Staged path ↔ fs.Staged path ∧ request.holds ≠ some path) :
    (ledgerOf fs requests jobs).Drops
      (ledgerOf fs' (Function.update requests id changed) jobs) := by
  have hself : (ledgerOf fs' (Function.update requests id changed) jobs).held (.request id) =
      none := by
    simp [ledgerOf, hfree]
  have hheld : (ledgerOf fs requests jobs).held (.request id) = request.holds := by
    simp [ledgerOf, hwas]
  refine .intro (fun owner => ?_) fun path => ?_
  · by_cases howner : owner = .request id
    · exact .inr (howner ▸ hself)
    · exact .inl (ledgerOf_request_update _ _ howner)
  · rw [show (ledgerOf fs' (Function.update requests id changed) jobs).present path ↔
      fs'.Staged path from Iff.rfl, hfiles]
    refine and_congr_right fun _ => ⟨fun hne owner howner => ?_, fun hall hpath => ?_⟩
    · by_cases hid : owner = .request id
      · subst hid
        rw [hheld] at howner
        exact absurd howner hne
      · rw [ledgerOf_request_update _ _ hid, howner]
        simp
    · exact hall _ (hheld.trans hpath) hself

theorem drops_jobs (hjobs : ∀ slot, (jobs' slot).holds = (jobs slot).holds ∨
      (jobs' slot).holds = none)
    (hfiles : ∀ path, fs'.Staged path ↔ fs.Staged path ∧
      ∀ slot, (jobs slot).holds = some path → (jobs' slot).holds ≠ none) :
    (ledgerOf fs requests jobs).Drops (ledgerOf fs' requests jobs') := by
  refine .intro (fun owner => ?_) fun path => ?_
  · cases owner with
    | request k => exact .inl rfl
    | job slot => exact hjobs slot
  · rw [show (ledgerOf fs' requests jobs').present path ↔ fs'.Staged path from Iff.rfl, hfiles]
    refine and_congr_right fun _ => ⟨fun hall owner howner => ?_, fun hall slot hslot => ?_⟩
    · cases owner with
      | request k =>
          rw [show (ledgerOf fs' requests jobs').held (.request k) =
            (ledgerOf fs requests jobs).held (.request k) from rfl, howner]
          simp
      | job slot => exact hall slot howner
    · exact hall (.job slot) hslot

theorem drops_jobs_same (hjobs : ∀ slot, (jobs' slot).holds = (jobs slot).holds) :
    (ledgerOf fs requests jobs).Drops (ledgerOf fs requests jobs') := by
  refine .of_same (fun owner => ?_) fun _ => Iff.rfl
  cases owner with
  | request k => rfl
  | job slot => exact hjobs slot

end moves

theorem TransferJob.holds_eq_some {job : TransferJob} {path : CString} :
    job.holds = some path ↔
      job.inUse = true ∧ job.filepath.str = path ∧ path ≠ CString.empty := by
  unfold TransferJob.holds
  split
  · rename_i h
    rw [Option.some.injEq]
    constructor
    · rintro rfl
      exact ⟨h.1, rfl, h.2⟩
    · exact fun hpath => hpath.2.1
  · rename_i h
    simp only [reduceCtorEq, false_iff]
    rintro ⟨huse, rfl, hne⟩
    exact h ⟨huse, hne⟩

theorem TransferJob.prunable_inUse {job : TransferJob} {now : Int}
    (h : job.prunable now = true) : job.inUse = true := by
  simp only [TransferJob.prunable, Bool.and_eq_true] at h
  exact h.1.1

theorem prune_holds (jobs : Slot → TransferJob) (now : Int) (slot : Slot) :
    ((pruneTerminalJobsLocked jobs now).1 slot).holds =
      if (jobs slot).prunable now = true then none else (jobs slot).holds := by
  rw [prune_jobs]
  split
  · rfl
  · rfl

theorem prune_drops (fs : FileSystem) (requests : Nat → Option Request)
    (jobs : Slot → TransferJob) (now : Int) :
    (ledgerOf fs requests jobs).Drops
      (ledgerOf (deleteAll fs ((pruneTerminalJobsLocked jobs now).2.map Prod.snd)) requests
        (pruneTerminalJobsLocked jobs now).1) := by
  refine drops_jobs (fun slot => ?_) fun path => ?_
  · rw [prune_holds]
    split
    · exact .inr rfl
    · exact .inl rfl
  · rw [staged_deleteAll]
    refine and_congr_right fun hstaged => ⟨fun hnot slot hslot hnone => hnot ?_, ?_⟩
    · obtain ⟨-, hpath, hne⟩ := TransferJob.holds_eq_some.mp hslot
      have hprune : (jobs slot).prunable now = true := by
        by_contra hkeep
        rw [prune_holds, if_neg hkeep, hslot] at hnone
        contradiction
      exact List.mem_map.mpr ⟨(slot, path),
        (mem_prune_deleted jobs now slot path).mpr ⟨hne, hprune, hpath⟩, rfl⟩
    · intro hall hmem
      obtain ⟨⟨slot, deleted⟩, hdeleted, rfl⟩ := List.mem_map.mp hmem
      obtain ⟨hne, hprune, hpath⟩ := (mem_prune_deleted jobs now slot deleted).mp hdeleted
      refine hall slot (TransferJob.holds_eq_some.mpr
        ⟨TransferJob.prunable_inUse hprune, hpath, hne⟩) ?_
      rw [prune_holds, if_pos hprune]

theorem stagedPaths_jobUnlinks (deleted : Deletions) : stagedPaths (jobUnlinks deleted) = [] := by
  simp [stagedPaths, jobUnlinks, List.filterMap_map]

theorem stagedPaths_abortUnlinks (id : Nat) (stage : UploadStage) :
    stagedPaths (abortUnlinks id stage) = [] := by
  unfold abortUnlinks
  split <;> rfl

/-- The worker's end of a transfer: success deletes the job's file and lets go of
it, failure keeps both. -/
theorem workerDone_drops {queue : TransferQueue} {success : Bool} {now : Int}
    {result : TransferQueue × Deletions} (h : workerDone queue success now = some result)
    (fs : FileSystem) (requests : Nat → Option Request) :
    (ledgerOf fs requests queue.jobs).Drops
      (ledgerOf (deleteAll fs (result.2.map Prod.snd)) requests result.1.jobs) := by
  unfold workerDone at h
  split at h
  · rename_i slot hworker
    dsimp only at h
    split at h
    · cases Option.some.inj h
      exact drops_jobs_same fun _ => rfl
    · rename_i huse
      have huse : (queue.jobs slot).inUse = true := by simpa using huse
      split at h
      · cases Option.some.inj h
        have hnone : ((queue.jobs slot).completed now).holds = none := by
          simp [TransferJob.holds, TransferJob.completed, copyString, CString.take,
            CString.eq_empty_iff]
        refine drops_jobs (fun other => ?_) fun path => ?_
        · by_cases hother : other = slot
          · exact .inr (by simp [hother, hnone])
          · exact .inl (by simp [Function.update_of_ne hother])
        · rw [staged_deleteAll]
          refine and_congr_right fun hstaged => ⟨fun hnot other hheld hfree => ?_, ?_⟩
          · by_cases hother : other = slot
            · subst hother
              obtain ⟨-, hpath, hne⟩ := TransferJob.holds_eq_some.mp hheld
              subst hpath
              exact hnot (by simp [hne])
            · simp [Function.update_of_ne hother, hheld] at hfree
          · intro hall hmem
            split at hmem
            · rename_i hne
              simp only [List.map_cons, List.map_nil, List.mem_singleton] at hmem
              subst hmem
              exact hall slot (TransferJob.holds_eq_some.mpr ⟨huse, rfl, hne⟩)
                (by simp [hnone])
            · simp at hmem
      · cases Option.some.inj h
        refine drops_jobs_same fun other => ?_
        by_cases hother : other = slot
        · subst hother
          simp [TransferJob.holds, TransferJob.failed]
        · simp [Function.update_of_ne hother]
  · contradiction

theorem holds_update {jobs : Slot → TransferJob} {slot : Slot} (job : TransferJob)
    (h : job.holds = (jobs slot).holds) (other : Slot) :
    (Function.update jobs slot job other).holds = (jobs other).holds := by
  by_cases hother : other = slot
  · rw [hother, Function.update_self, h]
  · rw [Function.update_of_ne hother]

theorem workerTake_holds {queue queue' : TransferQueue} {now : Int}
    (h : workerTake queue now = some queue') (slot : Slot) :
    (queue'.jobs slot).holds = (queue.jobs slot).holds := by
  unfold workerTake at h
  split at h
  · dsimp only at h
    split at h
    · cases Option.some.inj h
      exact holds_update ((queue.jobs queue.front).begun now) rfl slot
    · cases Option.some.inj h
      rfl
  · contradiction

theorem transferJobProgress_holds {queue queue' : TransferQueue} {bytesSent totalBytes : Nat}
    {now : Int} (h : transferJobProgress queue bytesSent totalBytes now = some queue')
    (slot : Slot) : (queue'.jobs slot).holds = (queue.jobs slot).holds := by
  unfold transferJobProgress at h
  split at h
  · rename_i sending hworker
    split at h
    · cases Option.some.inj h
      exact holds_update ((queue.jobs sending).advanced bytesSent totalBytes now) rfl slot
    · cases Option.some.inj h
      rfl
  · contradiction

theorem workerCall_jobs {queue queue' : TransferQueue} (h : workerCall queue = some queue') :
    queue'.jobs = queue.jobs := by
  unfold workerCall at h
  split at h
  · cases Option.some.inj h
    rfl
  · contradiction

theorem workerExit_jobs {queue queue' : TransferQueue} (h : workerExit queue = some queue') :
    queue'.jobs = queue.jobs := by
  unfold workerExit at h
  split at h
  · cases Option.some.inj h
    rfl
  · contradiction

structure Wellformed (process : Process) : Prop where
  requests : ∀ id request, process.requests id = some request → request.Sound
  ids : ∀ id, process.nextId ≤ id → process.requests id = none

theorem enqueueRefused_drops {fs fs' : FileSystem} {requests : Nat → Option Request}
    {jobs jobs' : Slot → TransferJob} {id : Nat} {request request' : Request}
    (hwas : requests id = some request)
    (hholds : request.holds = some request.info.uploadStage.stagingPath.str)
    (hfree : request'.holds = none)
    (hprune : (ledgerOf fs requests jobs).Drops (ledgerOf fs' requests jobs')) :
    (ledgerOf fs requests jobs).Drops
      (ledgerOf (uploadStageAbort fs' request.info.uploadStage).1
        (Function.update requests id (some request')) jobs') := by
  refine hprune.trans (drops_request hwas hfree fun path => ?_)
  rw [staged_abort, hholds, ne_eq, ne_eq, Option.some.injEq, eq_comm]

theorem enqueueAccepted_handsOver {fs : FileSystem} {requests : Nat → Option Request}
    {jobs : Slot → TransferJob} {id : Nat} {request request' : Request} {slot : Slot}
    {job : TransferJob} {path : CString} (hwas : requests id = some request)
    (hholds : request.holds = some path) (hfree : request'.holds = none)
    (hslot : (jobs slot).inUse = false) (hjob : job.holds = some path) :
    (ledgerOf fs requests jobs).HandsOver
      (ledgerOf fs (Function.update requests id (some request')) (Function.update jobs slot job))
      (.request id) (.job slot) path where
  was := by simp [ledgerOf, hwas, hholds]
  free := by simp [ledgerOf, TransferJob.holds, hslot]
  giver := by simp [ledgerOf, hfree]
  taker := by simp [ledgerOf, hjob]
  others owner hrequest hother := by
    cases owner with
    | request k =>
        have hk : k ≠ id := fun h => hrequest (h ▸ rfl)
        simp [ledgerOf, Function.update_of_ne hk]
    | job k =>
        have hk : k ≠ slot := fun h => hother (h ▸ rfl)
        simp [ledgerOf, Function.update_of_ne hk]
  present _ := Iff.rfl

section handingOver
variable {process : Process} {id : Nat} {request : Request} {env : ProceedEnv} {port : UInt16}
  {token : CString} {queue : TransferQueue} {deleted : Deletions}

theorem Request.Sound.holds (hsound : request.Sound) (hhanding : request.handingOver = true) :
    request.holds = some request.info.uploadStage.stagingPath.str := by
  simp [Request.holds, (hsound.handing hhanding).2.1, hhanding]

theorem ledger_request {path : CString} (hwas : process.requests id = some request)
    (hholds : request.holds = some path) : process.ledger.held (.request id) = some path := by
  simp [Process.ledger, ledgerOf, hwas, hholds]

theorem sendRefused_moves (hwas : process.requests id = some request)
    (hholds : request.holds = some request.info.uploadStage.stagingPath.str)
    (hrefused : transferEnqueue process.world.queue
      ⟨request.info.filename.str, request.info.targetIp.str, port, token⟩ process.world.clock
      env.random = (queue, deleted, none)) (reply : Reply) :
    Moves process (.proceed id env)
      (process.settle id ({ process.world with
          queue := queue
          fs := (uploadStageAbort (deleteAll process.world.fs (deleted.map Prod.snd))
            request.info.uploadStage).1 },
        { request with info := { request.info with
            fileSaved := false
            uploadStage := (uploadStageAbort (deleteAll process.world.fs (deleted.map Prod.snd))
              request.info.uploadStage).2 } }.answer reply,
        jobUnlinks deleted ++ abortUnlinks id request.info.uploadStage)).1
      (jobUnlinks deleted ++ abortUnlinks id request.info.uploadStage) := by
  refine .drops ?_ ?_
  · rcases transferEnqueue_refused hrefused with ⟨rfl, rfl⟩ | ⟨rfl, rfl⟩
    · exact enqueueRefused_drops hwas hholds rfl (.of_same (fun _ => rfl) fun _ => Iff.rfl)
    · exact enqueueRefused_drops hwas hholds rfl (prune_drops _ _ _ _)
  · rw [stagedPaths_append, stagedPaths_jobUnlinks, stagedPaths_abortUnlinks]
    rfl

theorem sendEnqueued_moves {jobId : CString} (hwas : process.requests id = some request)
    (hsound : request.Sound) (hhanding : request.handingOver = true)
    (henqueued : transferEnqueue process.world.queue
      ⟨request.info.filename.str, request.info.targetIp.str, port, token⟩ process.world.clock
      env.random = (queue, deleted, some jobId)) (reply : Reply) :
    Moves process (.proceed id env)
      (process.settle id ({ process.world with
          queue := queue
          fs := deleteAll process.world.fs (deleted.map Prod.snd) },
        request.answer reply,
        jobUnlinks deleted ++ [.jobCreated id request.info.filename.str])).1
      (jobUnlinks deleted ++ [.jobCreated id request.info.filename.str]) := by
  obtain ⟨hfilename, hne, hsaved⟩ := hsound.handing hhanding
  obtain ⟨slot, fresh, -, hslot, rfl, rfl, -⟩ := transferEnqueue_accepted henqueued
  refine .handsOver _ id slot request.info.uploadStage.stagingPath.str (prune_drops _ _ _ _)
    (enqueueAccepted_handsOver hwas (hsound.holds hhanding) ?_ hslot ?_) ?_
  · simp [Request.holds, Request.answer, Request.handingOver, hsaved]
  · rw [TransferJob.holds_eq_some]
    refine ⟨rfl, ?_, hne⟩
    simp [newTransferJob, hfilename]
  · rw [stagedPaths_append, stagedPaths_jobUnlinks]
    rfl

end handingOver

theorem settle_moves {process : Process} {id : Nat} {request : Request} {outcome : Outcome}
    (hwas : process.requests id = some request)
    (heffect : CallEffect id process.world request outcome)
    (hqueue : outcome.1.queue = process.world.queue) (event : Event) :
    Moves process event (process.settle id outcome).1 outcome.2.2 := by
  have hafter : (process.settle id outcome).1.ledger =
      ledgerOf outcome.1.fs (Function.update process.requests id (some outcome.2.1))
        process.world.queue.jobs := by
    simp only [Process.ledger, Process.settle, hqueue]
  cases heffect with
  | quiet files holds entries =>
      refine .drops ?_ (stagedPaths_of_idle entries)
      rw [hafter]
      exact drops_same hwas holds files.staged
  | opened path free holds entry creates entries =>
      obtain ⟨others, hentries, hidle⟩ := entries
      refine .creates id path entry ?_ ?_ creates.self hqueue
      · rw [hafter]
        refine ⟨?_, ?_, fun owner howner => ledgerOf_request_update _ _ howner,
          staged_creates creates entry⟩
        · simp [Process.ledger, ledgerOf, hwas, free]
        · simp [ledgerOf, holds]
      · rw [hentries, stagedPaths_append, stagedPaths_of_idle hidle]
        rfl
  | committed fs file source held holds files was renamed entries =>
      refine .drops ?_ (by rw [entries]; rfl)
      rw [hafter]
      refine drops_request hwas holds fun path => ?_
      rw [renamed, staged_rename (isStagingEntry_committedPath _ _), files.staged, held, ne_eq,
        ne_eq, Option.some.injEq, eq_comm]

theorem proceed_moves {process : Process} {id : Nat} {request : Request} {env : ProceedEnv}
    (hwas : process.requests id = some request) (hsound : request.Sound)
    {outcome : Outcome} (h : proceed process.world id request env = some outcome) :
    Moves process (.proceed id env) (process.settle id outcome).1 outcome.2.2 := by
  cases hhanding : request.handingOver with
  | false =>
      have hquiet := proceed_quiet hhanding h
      have hopen := hsound.open_ (fun reply hreply => by
        rw [proceed_answered hreply] at h
        contradiction) hhanding
      obtain ⟨heffect, -, hqueue⟩ := hquiet.effect id hopen
      exact settle_moves hwas heffect hqueue _
  | true =>
      cases proceed_proceeds h with
      | @sendCleanup port token phase =>
          refine .expires ⟨funext fun owner => ?_, fun path hpath => @staged_cleanup _
            stagingRetentionSeconds process.world.clock _ hpath⟩
            ⟨id, env, request, port, token, rfl, hwas, phase⟩ rfl
          by_cases howner : owner = .request id
          · subst howner
            simp [Process.ledger, Process.settle, ledgerOf, hwas, Request.holds,
              Request.handingOver, phase]
          · exact ledgerOf_request_update _ _ howner
      | sendRefused _ refused =>
          exact sendRefused_moves hwas (hsound.holds hhanding) refused _
      | sendEnqueued _ enqueued => exact sendEnqueued_moves hwas hsound hhanding enqueued _
      | exchangeAdd phase | exchangeMark phase | pairRefused phase | pairAccepted phase
      | pairStore phase | pairMark phase => simp [Request.handingOver, phase] at hhanding

theorem completed_moves {process : Process} {id : Nat} {request : Request}
    (hwas : process.requests id = some request) (hreleasable : request.releasable = true) :
    process.ledger.Drops (ledgerOf (requestCompleted process.world id request).1.fs
      (Function.update process.requests id none)
      (requestCompleted process.world id request).1.queue.jobs) := by
  have hhanding : request.handingOver = false := by
    unfold Request.releasable at hreleasable
    unfold Request.handingOver
    split at hreleasable <;> simp_all
  unfold requestCompleted
  split
  · rename_i hsaved
    refine drops_request hwas rfl fun path => ?_
    simp [Request.holds, hsaved, hhanding]
  · rename_i hsaved
    refine drops_request hwas rfl fun path => ?_
    have hiff : path ≠ request.info.uploadStage.stagingPath.str ∨ path = CString.empty ↔
        request.holds ≠ some path := by
      unfold Request.holds
      by_cases hempty : request.info.uploadStage.stagingPath.str = CString.empty
      · simp only [hempty, true_or, if_true]
        by_cases hpath : path = CString.empty <;> simp [hpath]
      · simp only [hempty, hsaved, false_or, Bool.false_eq_true, false_and, if_false, ne_eq,
          Option.some.injEq]
        constructor
        · rintro (hne | rfl)
          · exact fun h => hne h.symm
          · exact hempty
        · exact fun hne => .inl fun h => hne h.symm
    rw [staged_abort, ← hiff]
    refine and_congr_right fun hstaged => ?_
    simp [isStagingEntry_ne_empty hstaged.1]

theorem accept_moves {process : Process} (hids : process.requests process.nextId = none)
    {request : Request} (hholds : request.holds = none) :
    process.ledger.Drops (ledgerOf process.world.fs
      (Function.update process.requests process.nextId (some request))
      process.world.queue.jobs) := by
  refine .of_same (fun owner => ?_) fun _ => Iff.rfl
  by_cases howner : owner = .request process.nextId
  · subst howner
    simp [Process.ledger, ledgerOf, hids, hholds]
  · exact ledgerOf_request_update _ _ howner

/-- Every step is one move of the ledger. -/
theorem next_moves {process after : Process} {event : Event} {entries : List Entry}
    (hwf : Wellformed process) (h : next process event = some (after, entries)) :
    Moves process event after entries := by
  cases next_steps h with
  | accept url method clientIp headers serving =>
      exact .drops (accept_moves (hwf.ids _ le_rfl) rfl) rfl
  | call id upload env request was phase =>
      obtain ⟨heffect, -, hqueue⟩ := @answerToConnection_effect id process.world _ env
        (hwf.requests id request was) phase upload
      exact settle_moves was heffect hqueue _
  | proceed id env request outcome was continues =>
      exact proceed_moves was (hwf.requests id request was) continues
  | completed id request was releasable =>
      refine .drops (completed_moves was releasable) ?_
      unfold requestCompleted
      split
      · rfl
      · exact stagedPaths_abortUnlinks _ _
  | workerTake queue takes => exact .drops (drops_jobs_same (workerTake_holds takes)) rfl
  | workerCall queue calls =>
      exact .drops (drops_jobs_same fun slot => by
        simp [Process.withQueue, workerCall_jobs calls]) rfl
  | workerProgress bytesSent totalBytes queue advances =>
      exact .drops (drops_jobs_same (transferJobProgress_holds advances)) rfl
  | workerDone success result ends =>
      exact .drops (workerDone_drops ends _ _) (stagedPaths_jobUnlinks _)
  | workerExit queue exits =>
      exact .drops (drops_jobs_same fun slot => by
        simp [Process.withQueue, workerExit_jobs exits]) rfl
  | tick | resolved | removed | serverStop | queueShutdown =>
      exact .drops (.of_same (fun _ => rfl) fun _ => Iff.rfl) rfl

theorem proceed_sound {world : World} {id : Nat} {request : Request} {env : ProceedEnv}
    {outcome : Outcome} (hsound : request.Sound)
    (h : proceed world id request env = some outcome) : outcome.2.1.Sound := by
  cases hhanding : request.handingOver with
  | false =>
      have hopen := hsound.open_ (fun reply hreply => by
        rw [proceed_answered hreply] at h
        contradiction) hhanding
      exact ((proceed_quiet hhanding h).effect id hopen).2.1
  | true =>
      have hkept := hsound.handing hhanding
      cases proceed_proceeds h with
      | sendCleanup => exact ⟨fun _ hnot => by simp [Request.handingOver] at hnot, fun _ => hkept⟩
      | sendRefused | sendEnqueued => exact Request.sound_answer _ _
      | exchangeAdd phase | exchangeMark phase | pairRefused phase | pairAccepted phase
      | pairStore phase | pairMark phase => simp [Request.handingOver, phase] at hhanding

theorem Wellformed.update {process after : Process} {id : Nat} {changed : Option Request}
    (hwf : Wellformed process) (hlt : id < after.nextId) (hle : process.nextId ≤ after.nextId)
    (hrequests : after.requests = Function.update process.requests id changed)
    (hsound : ∀ request, changed = some request → request.Sound) : Wellformed after where
  requests k request hk := by
    rw [hrequests] at hk
    by_cases hkid : k = id
    · subst hkid
      rw [Function.update_self] at hk
      exact hsound request hk
    · rw [Function.update_of_ne hkid] at hk
      exact hwf.requests k request hk
  ids k hk := by
    have hkid : k ≠ id := by omega
    rw [hrequests, Function.update_of_ne hkid]
    exact hwf.ids k (by omega)

theorem Wellformed.lt {process : Process} (hwf : Wellformed process) {id : Nat}
    {request : Request} (h : process.requests id = some request) : id < process.nextId := by
  by_contra hge
  rw [hwf.ids id (by omega)] at h
  contradiction

theorem next_wellformed {process after : Process} {event : Event} {entries : List Entry}
    (hwf : Wellformed process) (h : next process event = some (after, entries)) :
    Wellformed after := by
  -- All but the request events leave the requests alone.
  have hsame : after.requests = process.requests → after.nextId = process.nextId →
      Wellformed after := by
    intro hrequests hids
    exact ⟨fun id request hid => hwf.requests id request (hrequests ▸ hid),
      fun id hid => hrequests ▸ hwf.ids id (hids ▸ hid)⟩
  cases next_steps h with
  | accept url method clientIp headers serving =>
      refine hwf.update (Nat.lt_succ_self _) (Nat.le_succ _) rfl ?_
      intro request hrequest
      cases Option.some.inj hrequest
      exact ⟨fun _ _ => ⟨.inl ⟨⟨rfl, rfl, rfl⟩, rfl⟩, rfl⟩,
        fun hhand => by simp [Request.handingOver] at hhand⟩
  | call id upload env request was phase =>
      refine hwf.update (hwf.lt was) le_rfl rfl ?_
      intro request' hrequest'
      cases Option.some.inj hrequest'
      exact (@answerToConnection_effect id process.world _ env (hwf.requests id request was) phase
        upload).2.1
  | proceed id env request outcome was continues =>
      refine hwf.update (hwf.lt was) le_rfl rfl ?_
      intro request' hrequest'
      cases Option.some.inj hrequest'
      exact proceed_sound (hwf.requests id request was) continues
  | completed id request was releasable =>
      exact hwf.update (hwf.lt was) le_rfl rfl (by simp)
  | tick | workerTake | workerCall | workerProgress | workerDone | workerExit | resolved | removed
  | serverStop | queueShutdown => exact hsame rfl rfl

theorem mem_jobUnlinks {deleted : Deletions} {owner : Owner} {path : CString}
    (h : Entry.unlinked owner path ∈ jobUnlinks deleted) :
    ∃ slot, owner = .job slot ∧ (slot, path) ∈ deleted := by
  obtain ⟨⟨slot, found⟩, hmem, heq⟩ := List.mem_map.mp h
  simp only [Entry.unlinked.injEq] at heq
  obtain ⟨rfl, rfl⟩ := heq
  exact ⟨slot, rfl, hmem⟩

theorem mem_abortUnlinks {id : Nat} {stage : UploadStage} {owner : Owner} {path : CString}
    (h : Entry.unlinked owner path ∈ abortUnlinks id stage) :
    owner = .request id ∧ path = stage.stagingPath.str ∧ path ≠ CString.empty := by
  unfold abortUnlinks at h
  split at h
  · simp at h
  · rename_i hne
    simp only [List.mem_singleton, Entry.unlinked.injEq] at h
    obtain ⟨rfl, rfl⟩ := h
    exact ⟨rfl, rfl, hne⟩

theorem notMem_of_idle {entries : List Entry}
    (h : ∀ entry ∈ entries, entry.isFileEntry = false) {owner : Owner} {path : CString} :
    Entry.unlinked owner path ∉ entries := by
  intro hmem
  exact absurd (h _ hmem) (by simp [Entry.isFileEntry])

theorem CallEffect.not_unlinked {id : Nat} {world : World} {request : Request}
    {outcome : Outcome} (h : CallEffect id world request outcome) {owner : Owner}
    {path : CString} : Entry.unlinked owner path ∉ outcome.2.2 := by
  cases h with
  | quiet files holds entries => exact notMem_of_idle entries
  | opened path free holds entry creates entries =>
      obtain ⟨others, hentries, hidle⟩ := entries
      rw [hentries]
      simp [notMem_of_idle hidle]
  | committed fs file source held holds files was renamed entries =>
      rw [entries]
      simp

theorem prune_unlinked {jobs : Slot → TransferJob} {now : Int} {owner : Owner}
    {path : CString} {fs : FileSystem} {requests : Nat → Option Request}
    (h : Entry.unlinked owner path ∈ jobUnlinks (pruneTerminalJobsLocked jobs now).2) :
    (ledgerOf fs requests jobs).held owner = some path := by
  obtain ⟨slot, rfl, hmem⟩ := mem_jobUnlinks h
  obtain ⟨hne, hprune, hpath⟩ := (mem_prune_deleted jobs now slot path).mp hmem
  exact TransferJob.holds_eq_some.mpr ⟨TransferJob.prunable_inUse hprune, hpath, hne⟩

theorem proceed_unlinked {process : Process} {id : Nat} {request : Request}
    {env : ProceedEnv} {outcome : Outcome} (hwas : process.requests id = some request)
    (hsound : request.Sound) (h : proceed process.world id request env = some outcome)
    {owner : Owner} {path : CString} (hmem : Entry.unlinked owner path ∈ outcome.2.2) :
    process.ledger.held owner = some path := by
  cases hhanding : request.handingOver with
  | false => exact absurd hmem (notMem_of_idle (proceed_quiet hhanding h).entries)
  | true =>
      have hholds := ledger_request hwas (hsound.holds hhanding)
      cases proceed_proceeds h with
      | sendCleanup => simp at hmem
      | sendRefused _ refused =>
          rcases List.mem_append.mp hmem with hpruned | habort
          · rcases transferEnqueue_refused refused with ⟨rfl, rfl⟩ | ⟨rfl, rfl⟩
            · simp [jobUnlinks] at hpruned
            · exact prune_unlinked hpruned
          · obtain ⟨rfl, rfl, -⟩ := mem_abortUnlinks habort
            exact hholds
      | sendEnqueued _ enqueued =>
          obtain ⟨slot, fresh, -, -, rfl, rfl, -⟩ := transferEnqueue_accepted enqueued
          rcases List.mem_append.mp hmem with hpruned | hcreated
          · exact prune_unlinked hpruned
          · simp at hcreated
      | exchangeAdd phase | exchangeMark phase | pairRefused phase | pairAccepted phase
      | pairStore phase | pairMark phase => simp [Request.handingOver, phase] at hhanding

theorem workerDone_unlinked {queue : TransferQueue} {success : Bool} {now : Int}
    {result : TransferQueue × Deletions} (h : workerDone queue success now = some result)
    {slot : Slot} {path : CString} (hmem : (slot, path) ∈ result.2) :
    (queue.jobs slot).holds = some path := by
  unfold workerDone at h
  split at h
  · dsimp only at h
    split at h
    · cases Option.some.inj h
      simp at hmem
    · rename_i huse
      split at h
      · cases Option.some.inj h
        dsimp only at hmem
        split at hmem
        · rename_i hne
          simp only [List.mem_singleton, Prod.mk.injEq] at hmem
          obtain ⟨rfl, rfl⟩ := hmem
          exact TransferJob.holds_eq_some.mpr ⟨by simpa using huse, rfl, hne⟩
        · simp at hmem
      · cases Option.some.inj h
        simp at hmem
  · contradiction

theorem next_unlinked {process after : Process} {event : Event} {entries : List Entry}
    (hwf : Wellformed process) (h : next process event = some (after, entries))
    {owner : Owner} {path : CString} (hmem : Entry.unlinked owner path ∈ entries) :
    process.ledger.held owner = some path := by
  cases next_steps h with
  | call id upload env request was phase =>
      have heffect := (@answerToConnection_effect id process.world _ env
        (hwf.requests id request was) phase upload).1
      exact absurd hmem heffect.not_unlinked
  | proceed id env request outcome was continues =>
      exact proceed_unlinked was (hwf.requests id request was) continues hmem
  | completed id request was releasable =>
      unfold requestCompleted at hmem
      split at hmem
      · simp at hmem
      · rename_i hsaved
        obtain ⟨rfl, rfl, hne⟩ := mem_abortUnlinks hmem
        simp [Process.ledger, ledgerOf, was, Request.holds, hne, hsaved]
  | workerDone success result ends =>
      obtain ⟨slot, rfl, hdeleted⟩ := mem_jobUnlinks hmem
      exact workerDone_unlinked ends hdeleted
  | tick | accept | workerTake | workerCall | workerProgress | workerExit | resolved | removed
  | serverStop | queueShutdown => simp at hmem

def HeldEntries (process : Process) : Prop :=
  ∀ owner path, process.ledger.held owner = some path → isStagingEntry path = true

theorem heldEntries_next {process after : Process} {event : Event} {entries : List Entry}
    (hwf : Wellformed process) (hheld : HeldEntries process)
    (h : next process event = some (after, entries)) : HeldEntries after := by
  intro owner path howner
  cases next_moves hwf h with
  | drops move names => exact hheld owner path (move.held_of_held howner)
  | creates id staged entry move names =>
      by_cases hid : owner = .request id
      · rw [hid, move.self, Option.some.injEq] at howner
        exact howner ▸ entry
      · rw [move.others owner hid] at howner
        exact hheld owner path howner
  | handsOver middle id slot staged drop move names =>
      by_cases hslot : owner = .job slot
      · rw [hslot, move.taker, Option.some.injEq] at howner
        exact howner ▸ hheld _ _ (drop.held_of_held move.was)
      · by_cases hid : owner = .request id
        · rw [hid, move.giver] at howner
          contradiction
        · rw [move.others owner hid hslot] at howner
          exact hheld owner path (drop.held_of_held howner)
  | expires move cleanup names => exact hheld owner path (move.held ▸ howner)

structure Owned (process : Process) : Prop where
  wellformed : Wellformed process
  ledger : process.ledger.Sound (· ∈ stagedPaths process.log)

theorem Started.wellformed {process : Process} (h : Started process) : Wellformed process :=
  ⟨fun id request hid => by simp [h.requests] at hid, fun id _ => by simp [h.requests]⟩

theorem Started.held {process : Process} (h : Started process) (owner : Owner) :
    process.ledger.held owner = none := by
  cases owner with
  | request id => simp [Process.ledger, ledgerOf, h.requests]
  | job slot =>
      simp only [Process.ledger, ledgerOf, h.queue]
      rfl

theorem Started.owned {process : Process} (h : Started process) : Owned process where
  wellformed := h.wellformed
  ledger := by
    refine ⟨fun a b x ha => ?_, fun path hpath => ?_, fun a x ha => ?_⟩
    · rw [h.held] at ha
      contradiction
    · obtain ⟨id, hid⟩ := hpath.2
      obtain ⟨file, hfile, hcreator⟩ := Option.map_eq_some_iff.mp hid
      rw [h.leftovers path file hfile] at hcreator
      contradiction
    · rw [h.held] at ha
      contradiction

theorem step_eq_some {process after : Process} {event : Event}
    (h : step process event = some after) :
    ∃ settled entries, next process event = some (settled, entries) ∧
      after = { settled with log := process.log ++ entries } := by
  obtain ⟨⟨settled, entries⟩, hnext, rfl⟩ := Option.map_eq_some_iff.mp h
  exact ⟨settled, entries, hnext, rfl⟩

theorem wellformed_step {process after : Process} {event : Event} (h : Wellformed process)
    (hstep : step process event = some after) : Wellformed after := by
  obtain ⟨settled, entries, hnext, rfl⟩ := step_eq_some hstep
  have hwf := next_wellformed h hnext
  exact ⟨hwf.requests, hwf.ids⟩

theorem log_run {process final : Process} {events : List Event}
    (hrun : run step process events = some final) : process.log <+: final.log := by
  refine @run_invariant _ _ step process final events (fun later => process.log <+: later.log)
    (fun later event after hlog hstep => ?_) (List.prefix_refl _) hrun
  obtain ⟨settled, entries, -, rfl⟩ := step_eq_some hstep
  exact hlog.trans (List.prefix_append _ _)

theorem owned_step (process : Process) (event : Event) (after : Process)
    (h : Owned process) (hfresh : FreshNames process event)
    (hstep : step process event = some after) : Owned after := by
  obtain ⟨settled, entries, hnext, rfl⟩ := step_eq_some hstep
  have hwf := next_wellformed h.wellformed hnext
  refine ⟨⟨hwf.requests, hwf.ids⟩, ?_⟩
  change settled.ledger.Sound (· ∈ stagedPaths (process.log ++ entries))
  have hmono : ∀ path, path ∈ stagedPaths process.log →
      path ∈ stagedPaths (process.log ++ entries) := by
    intro path hpath
    rw [stagedPaths_append]
    exact List.mem_append_left _ hpath
  cases next_moves h.wellformed hnext with
  | drops move names => exact (h.ledger.drops move).weaken hmono
  | creates id path entry move names =>
      refine h.ledger.creates move ?_ hmono ?_
      · exact hfresh _ _ hnext path (by simp [names])
      · rw [stagedPaths_append, names]
        simp
  | handsOver middle id slot path drop move names =>
      exact ((h.ledger.drops drop).handsOver move).weaken hmono
  | expires move cleanup names => exact (h.ledger.expires move).weaken hmono

theorem owned_run {start process : Process} {events : List Event} (hstart : Started start)
    (hfresh : Meets step FreshNames start events)
    (hrun : run step start events = some process) : Owned process :=
  hfresh.invariant owned_step hstart.owned hrun

/-- Ownership in the terms of the records: a request owns its `staging_path` while
`file_saved` is 0 and during the hand-over; a job in use owns its `filepath`. -/
def Process.Owns (process : Process) (path : CString) : Owner → Prop
  | .request id => ∃ request, process.requests id = some request ∧
      request.info.uploadStage.stagingPath.str = path ∧ path ≠ CString.empty ∧
      (request.info.fileSaved = false ∨ request.handingOver = true)
  | .job slot => (process.world.queue.jobs slot).inUse = true ∧
      (process.world.queue.jobs slot).filepath.str = path ∧ path ≠ CString.empty

theorem owns_iff {process : Process} {path : CString} {owner : Owner} :
    process.Owns path owner ↔ process.ledger.held owner = some path := by
  cases owner with
  | request id =>
      simp only [Process.Owns, Process.ledger, ledgerOf, Option.bind_eq_some_iff]
      refine exists_congr fun request => and_congr_right fun _ => ?_
      unfold Request.holds
      split
      · rename_i hfree
        simp only [reduceCtorEq, iff_false]
        rintro ⟨rfl, hne, howned⟩
        rcases hfree with hempty | ⟨hsaved, hhanding⟩
        · exact hne hempty
        · simp [hsaved, hhanding] at howned
      · rename_i hheld
        rw [not_or, not_and, Bool.not_eq_false] at hheld
        rw [Option.some.injEq]
        constructor
        · exact And.left
        · rintro rfl
          refine ⟨rfl, hheld.1, ?_⟩
          cases hsaved : request.info.fileSaved with
          | false => exact .inl rfl
          | true => exact .inr (hheld.2 hsaved)
  | job slot => exact TransferJob.holds_eq_some.symm

/-- How a file of the process can leave `staging/`: its owner unlinks it, the request that owns
it commits it, or it has become too old when somebody cleans up. -/
inductive Leaves (process : Process) (event : Event) (after : Process) (entries : List Entry)
    (path : CString) : Prop
  | unlinked (owner : Owner) (owns : process.Owns path owner)
      (logged : Entry.unlinked owner path ∈ entries)
  | committed (id : Nat) (now : Time) (name target : CString)
      (owns : process.Owns path (.request id))
      (logged : Entry.committed id now name target ∈ entries)
      (moved : after.world.fs target ≠ none)
  | aged (cleanup : CleansUp process event)
      (expired : (process.world.fs path).any
        (File.expired stagingRetentionSeconds process.world.clock) = true)

theorem mem_jobUnlinks_of_mem {deleted : Deletions} {path : CString}
    (h : path ∈ deleted.map Prod.snd) :
    ∃ owner, Entry.unlinked owner path ∈ jobUnlinks deleted := by
  obtain ⟨⟨slot, found⟩, hmem, rfl⟩ := List.mem_map.mp h
  exact ⟨.job slot, List.mem_map.mpr ⟨_, hmem, rfl⟩⟩

theorem mem_abortUnlinks_self {stage : UploadStage} (id : Nat)
    (h : isStagingEntry stage.stagingPath.str = true) :
    Entry.unlinked (.request id) stage.stagingPath.str ∈ abortUnlinks id stage := by
  rw [abortUnlinks, if_neg (isStagingEntry_ne_empty h)]
  exact List.mem_singleton_self _

theorem proceed_leaves {process : Process} {id : Nat} {request : Request} {env : ProceedEnv}
    {outcome : Outcome} {path : CString} (hwas : process.requests id = some request)
    (h : proceed process.world id request env = some outcome)
    (hstaged : process.world.fs.Staged path) (hgone : ¬ outcome.1.fs.Staged path) :
    (∃ owner, Entry.unlinked owner path ∈ outcome.2.2) ∨
      CleansUp process (.proceed id env) ∧ (process.world.fs path).any
        (File.expired stagingRetentionSeconds process.world.clock) = true := by
  cases proceed_proceeds h with
  | exchangeAdd | exchangeMark | pairRefused | pairAccepted | pairStore | pairMark =>
      exact absurd hstaged hgone
  | sendCleanup phase =>
      refine .inr ⟨⟨id, env, request, _, _, rfl, hwas, phase⟩, ?_⟩
      by_contra hyoung
      refine hgone ⟨hstaged.1, ?_⟩
      dsimp only
      rw [cleanup_apply, if_neg (by simp [hyoung])]
      exact hstaged.2
  | sendRefused phase refused =>
      rw [staged_abort, staged_deleteAll, not_and_or, not_and_or, not_not, not_not] at hgone
      rcases hgone with (hnot | hpruned) | habort
      · exact absurd hstaged hnot
      · obtain ⟨owner, hmem⟩ := mem_jobUnlinks_of_mem hpruned
        exact .inl ⟨owner, List.mem_append_left _ hmem⟩
      · subst habort
        exact .inl ⟨.request id, List.mem_append_right _ (mem_abortUnlinks_self id hstaged.1)⟩
  | sendEnqueued phase enqueued =>
      rw [staged_deleteAll, not_and_or, not_not] at hgone
      rcases hgone with hnot | hpruned
      · exact absurd hstaged hnot
      · obtain ⟨owner, hmem⟩ := mem_jobUnlinks_of_mem hpruned
        exact .inl ⟨owner, List.mem_append_left _ hmem⟩

/-- No file of the process is gone for another reason. -/
theorem next_leaves {process after : Process} {event : Event} {entries : List Entry}
    {path : CString} (hwf : Wellformed process) (h : next process event = some (after, entries))
    (hstaged : process.world.fs.Staged path) (hgone : ¬ after.world.fs.Staged path) :
    Leaves process event after entries path := by
  have howner : ∀ {owner : Owner}, Entry.unlinked owner path ∈ entries →
      Leaves process event after entries path := fun hmem =>
    .unlinked _ (owns_iff.mpr (next_unlinked hwf h hmem)) hmem
  cases next_steps h with
  | call id upload env request was phase =>
      have heffect := (@answerToConnection_effect id process.world _ env
        (hwf.requests id request was) phase upload).1
      change ¬ (answerToConnection process.world id request upload env).1.fs.Staged path at hgone
      cases heffect with
      | quiet files holds idle => exact absurd ((files.staged path).mpr hstaged) hgone
      | opened opened free holds entry creates logged =>
          exact absurd ((staged_creates creates entry path).mpr (.inl hstaged)) hgone
      | committed fs file source held holds files was' renamed logged =>
          rw [renamed, staged_rename (isStagingEntry_committedPath ..), not_and_or, not_not]
            at hgone
          rcases hgone with hnot | rfl
          · exact absurd ((files.staged path).mpr hstaged) hnot
          · refine .committed id _ _ _ (owns_iff.mpr (ledger_request was held))
              (by rw [logged]; exact List.mem_singleton_self _) ?_
            change (answerToConnection process.world id request upload env).1.fs _ ≠ none
            rw [renamed, FileSystem.rename, Function.update_self, was']
            exact Option.some_ne_none _
  | proceed id env request outcome was continues =>
      rcases proceed_leaves was continues hstaged hgone with ⟨owner, hmem⟩ | ⟨hcleanup, hexpired⟩
      · exact howner hmem
      · exact .aged hcleanup hexpired
  | completed id request was releasable =>
      refine @howner (.request id) ?_
      unfold requestCompleted at hgone ⊢
      split at hgone
      · exact absurd hstaged hgone
      · rename_i hsaved
        dsimp only at hgone
        rw [staged_abort, not_and_or, not_not] at hgone
        rw [if_neg hsaved]
        rcases hgone with hnot | rfl
        · exact absurd hstaged hnot
        · exact mem_abortUnlinks_self id hstaged.1
  | workerDone success result ends =>
      dsimp only at hgone
      rw [staged_deleteAll, not_and_or, not_not] at hgone
      rcases hgone with hnot | hdeleted
      · exact absurd hstaged hnot
      · obtain ⟨owner, hmem⟩ := mem_jobUnlinks_of_mem hdeleted
        exact howner hmem
  | tick | accept | workerTake | workerCall | workerProgress | workerExit | resolved | removed
  | serverStop | queueShutdown => exact absurd hstaged hgone

/-- In every run that does not repeat a staging name, every file the process made
in `staging/` has exactly one owner, nothing is owned twice, and a step only
unlinks a file on behalf of its one owner. A file that is gone after a step has been
unlinked so, or committed by the request that owned it, or was too old. -/
theorem stagingFiles_one_owner {start process : Process} {events : List Event}
    (hstart : Started start) (hfresh : Meets step FreshNames start events)
    (hrun : run step start events = some process) :
    (∀ path, process.world.fs.Staged path → ∃! owner, process.Owns path owner) ∧
    (∀ path owner other, process.Owns path owner → process.Owns path other → owner = other) ∧
    (∀ event after entries owner path, next process event = some (after, entries) →
      Entry.unlinked owner path ∈ entries →
      process.Owns path owner ∧ ∀ other, process.Owns path other → other = owner) ∧
    ∀ event after entries path, next process event = some (after, entries) →
      process.world.fs.Staged path → ¬ after.world.fs.Staged path →
      Leaves process event after entries path := by
  have howned := owned_run hstart hfresh hrun
  have hone : ∀ path owner other, process.Owns path owner → process.Owns path other →
      owner = other := by
    intro path owner other howner hother
    exact howned.ledger.exclusive owner other path (owns_iff.mp howner) (owns_iff.mp hother)
  refine ⟨fun path hpath => ?_, hone, ?_, fun event after entries path hnext =>
    next_leaves howned.wellformed hnext⟩
  · obtain ⟨owner, howner⟩ := howned.ledger.covered path hpath
    exact ⟨owner, owns_iff.mpr howner, fun other hother =>
      hone path other owner hother (owns_iff.mpr howner)⟩
  · intro event after entries owner path hnext hmem
    have howner := owns_iff.mpr (next_unlinked howned.wellformed hnext hmem)
    exact ⟨howner, fun other hother => hone path other owner hother howner⟩

instance (process : Process) (event : Event) : Decidable (FreshNames process event) :=
  decidable_of_iff (∀ result ∈ next process event,
      ∀ path ∈ stagedPaths result.2, path ∉ stagedPaths process.log)
    ⟨fun h after entries hnext => h (after, entries) hnext, fun h result => h result.1 result.2⟩

def handOverRun : List Event :=
  unlocking 0 7 ++ exchanging 1 8 ++ sending 2 (sampleToken 7) "a.txt" 9 ++
    [sampleProceed 2 0, acceptPost "/upload" ⟨some (sampleToken 7), none⟩,
      sendFields 3 [fileItem "b.txt" [4] 10], sampleProceed 2 11]

theorem handOverRun_one_owner : ∃ process, run step sampleStart handOverRun = some process ∧
    (stagedPaths process.log).length = 2 ∧
    ∀ path, process.world.fs.Staged path → ∃! owner, process.Owns path owner := by
  obtain ⟨process, hrun⟩ : ∃ process, run step sampleStart handOverRun = some process :=
    Option.isSome_iff_exists.mp (by decide +kernel)
  have hstaged : (run step sampleStart handOverRun).all (fun process =>
      (stagedPaths process.log).length = 2) = true := by decide +kernel
  rw [hrun] at hstaged
  simp only [Option.all_some, decide_eq_true_eq] at hstaged
  exact ⟨process, hrun, hstaged,
    (stagingFiles_one_owner sampleStart_started (by decide +kernel) hrun).1⟩

end LocalDrop
