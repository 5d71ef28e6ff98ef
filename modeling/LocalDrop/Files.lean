import LocalDrop.Ownership

/-! What a step can do to one path, in `staging/` or in `downloads/`. -/
namespace LocalDrop
open Lib

/-- The file at `path` is the one that was there; or it is gone, which happens to
entries of `staging/` only; or it was staged or committed in this step. -/
inductive FileChange (before after : Process) (entries : List Entry) (path : CString) :
    Prop where
  | same (creator : (after.world.fs path).map File.creator =
      (before.world.fs path).map File.creator)
  | gone (entry : isStagingEntry path = true) (absent : after.world.fs path = none)
  | staged (id : Nat) (route : Route) (logged : Entry.staged id route path ∈ entries)
      (creator : (after.world.fs path).map File.creator = some (some id))
  | committed (id : Nat) (name source : CString)
      (logged : Entry.committed id before.world.clock name path ∈ entries)
      (target : path = (committedPath before.world.clock name).str)
      (held : before.ledger.held (.request id) = some source)
      (was : before.world.fs source ≠ none)
      (creator : (after.world.fs path).map File.creator =
        (before.world.fs source).map File.creator)

theorem rename_apply (fs : FileSystem) (source target path : CString) :
    fs.rename source target path =
      if path = target then fs source else if path = source then none else fs path := by
  unfold FileSystem.rename FileSystem.unlink
  by_cases htarget : path = target
  · simp [htarget]
  · rw [Function.update_of_ne htarget, if_neg htarget]
    by_cases hsource : path = source
    · simp [hsource]
    · rw [Function.update_of_ne hsource, if_neg hsource]

theorem settle_files {process : Process} {id : Nat} {request : Request} {outcome : Outcome}
    (hheld : HeldEntries process) (hwas : process.requests id = some request)
    (heffect : CallEffect id process.world request outcome) (path : CString) :
    FileChange process (process.settle id outcome).1 outcome.2.2 path := by
  have hfs : (process.settle id outcome).1.world.fs = outcome.1.fs := rfl
  cases heffect with
  | quiet files holds entries => exact .same (files path)
  | opened opened free holds entry creates entries =>
      by_cases hpath : path = opened
      · subst hpath
        obtain ⟨others, hentries, -⟩ := entries
        exact .staged id request.route (by simp [hentries]) creates.self
      · exact .same (by rw [hfs, creates.others path hpath])
  | committed fs file source held holds files was renamed entries =>
      have howner : process.ledger.held (.request id) = some source := by
        simp [Process.ledger, ledgerOf, hwas, held]
      by_cases htarget : path =
          (committedPath process.world.clock request.info.uploadStage.commitName).str
      · refine .committed id request.info.uploadStage.commitName source
          (by simp [entries, htarget]) htarget howner ?_ ?_
        · intro hnone
          have := files source
          simp [was, hnone] at this
        · rw [hfs, renamed, rename_apply, if_pos htarget, files source]
      · by_cases hsource : path = source
        · subst hsource
          refine .gone (hheld _ _ howner) ?_
          rw [hfs, renamed, rename_apply, if_neg htarget, if_pos rfl]
        · refine .same ?_
          rw [hfs, renamed, rename_apply, if_neg htarget, if_neg hsource, files path]

theorem deleteAll_files {process after : Process} {entries : List Entry} (paths : List CString)
    (hheld : HeldEntries process)
    (howned : ∀ path ∈ paths, ∃ owner, process.ledger.held owner = some path)
    (hfs : after.world.fs = deleteAll process.world.fs paths) (path : CString) :
    FileChange process after entries path := by
  by_cases hpath : path ∈ paths ∧ path ≠ CString.empty
  · obtain ⟨owner, howner⟩ := howned path hpath.1
    exact .gone (hheld owner path howner) (by rw [hfs, deleteAll_apply, if_pos hpath])
  · exact .same (by rw [hfs, deleteAll_apply, if_neg hpath])

theorem abort_eq_deleteAll (fs : FileSystem) (paths : List CString) (stage : UploadStage) :
    (uploadStageAbort (deleteAll fs paths) stage).1 =
      deleteAll fs (paths ++ [stage.stagingPath.str]) := by
  simp [uploadStageAbort, deleteAll]

theorem prune_deletes_held {process : Process} {now : Int} {path : CString}
    (h : path ∈ (pruneTerminalJobsLocked process.world.queue.jobs now).2.map Prod.snd) :
    ∃ owner, process.ledger.held owner = some path := by
  obtain ⟨⟨slot, deleted⟩, hmem, rfl⟩ := List.mem_map.mp h
  exact ⟨.job slot, prune_unlinked (List.mem_map.mpr ⟨(slot, deleted), hmem, rfl⟩)⟩

theorem proceed_files {process : Process} {id : Nat} {request : Request} {env : ProceedEnv}
    (hheld : HeldEntries process) (hwas : process.requests id = some request)
    (hsound : request.Sound) {outcome : Outcome}
    (h : proceed process.world id request env = some outcome) (path : CString) :
    FileChange process (process.settle id outcome).1 outcome.2.2 path := by
  cases hhanding : request.handingOver with
  | false =>
      have hopen := hsound.open_ (fun reply hreply => by
        rw [proceed_answered hreply] at h
        contradiction) hhanding
      exact settle_files hheld hwas ((proceed_quiet hhanding h).effect id hopen).1 path
  | true =>
      have howner := ledger_request hwas (hsound.holds hhanding)
      cases proceed_proceeds h with
      | sendCleanup =>
          by_cases hremoved : isStagingEntry path && (process.world.fs path).any
              (File.expired stagingRetentionSeconds process.world.clock)
          · refine .gone (by simp only [Bool.and_eq_true] at hremoved; exact hremoved.1) ?_
            simp only [Process.settle, cleanupExpiredStagingFiles]
            rw [if_neg (by decide), if_pos hremoved]
          · refine .same ?_
            simp only [Process.settle, cleanupExpiredStagingFiles]
            rw [if_neg (by decide), if_neg hremoved]
      | sendRefused _ refused =>
          refine deleteAll_files _ hheld ?_ (abort_eq_deleteAll _ _ _) path
          intro deleted hdeleted
          rcases List.mem_append.mp hdeleted with hpruned | hown
          · rcases transferEnqueue_refused refused with ⟨rfl, rfl⟩ | ⟨rfl, rfl⟩
            · simp at hpruned
            · exact prune_deletes_held hpruned
          · exact ⟨_, (List.mem_singleton.mp hown) ▸ howner⟩
      | sendEnqueued _ enqueued =>
          obtain ⟨slot, fresh, -, -, rfl, rfl, -⟩ := transferEnqueue_accepted enqueued
          exact deleteAll_files _ hheld (fun deleted => prune_deletes_held) rfl path
      | exchangeAdd phase | exchangeMark phase | pairRefused phase | pairAccepted phase
      | pairStore phase | pairMark phase => simp [Request.handingOver, phase] at hhanding

theorem next_files {process after : Process} {event : Event} {entries : List Entry}
    (hwf : Wellformed process) (hheld : HeldEntries process)
    (h : next process event = some (after, entries)) (path : CString) :
    FileChange process after entries path := by
  cases next_steps h with
  | call id upload env request was phase =>
      exact settle_files hheld was (@answerToConnection_effect id process.world _ env
        (hwf.requests id request was) phase upload).1 path
  | proceed id env request outcome was continues =>
      exact proceed_files hheld was (hwf.requests id request was) continues path
  | completed id request was releasable =>
      unfold requestCompleted
      split
      · exact .same rfl
      · rename_i hsaved
        by_cases hempty : request.info.uploadStage.stagingPath.str = CString.empty
        · refine .same ?_
          simp [uploadStageAbort, storageDeleteFile, hempty]
        · refine deleteAll_files [request.info.uploadStage.stagingPath.str] hheld
            ?_ rfl path
          intro deleted hdeleted
          rw [List.mem_singleton] at hdeleted
          refine ⟨.request id, ?_⟩
          simp [Process.ledger, ledgerOf, was, Request.holds, hempty, hsaved, hdeleted]
  | workerDone success result ends =>
      refine deleteAll_files _ hheld ?_ rfl path
      intro deleted hdeleted
      obtain ⟨⟨slot, found⟩, hmem, rfl⟩ := List.mem_map.mp hdeleted
      exact ⟨.job slot, workerDone_unlinked ends hmem⟩
  | tick | accept | workerTake | workerCall | workerProgress | workerExit | resolved | removed
  | serverStop | queueShutdown => exact .same rfl

end LocalDrop
