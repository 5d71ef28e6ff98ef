import LocalDrop.Authorization
import LocalDrop.Failures
import LocalDrop.FileNames

/-! The file system outside `staging/`. Whatever the clients send and however the steps
interleave, nothing changes there but the entries of `downloads/` that uploads commit. -/
namespace LocalDrop
open Lib

inductive OutsideCall (id : Nat) (world : World) (request : Request) (outcome : Outcome) : Prop
  | same (files : ∀ path, isStagingEntry path = false → outcome.1.fs path = world.fs path)
  | committed (target : CString) (reply : Reply)
      (named : target = (committedPath world.clock request.info.uploadStage.commitName).str)
      (progress : request.info.uploadInProgress = true)
      (answered : outcome.2.1.phase = .answered reply) (ok : reply.status = 200)
      (logged : outcome.2.2 =
        [.committed id world.clock request.info.uploadStage.commitName target])
      (there : outcome.1.fs target ≠ none)
      (others : ∀ path, isStagingEntry path = false → path ≠ target →
        outcome.1.fs path = world.fs path)

section calls
variable {world : World} {id : Nat} {request : Request} {env : CallEnv}

theorem FileSystem.Touches.outside {fs fs' : FileSystem} {path other : CString}
    (h : fs.Touches fs' path) (hpath : isStagingEntry path = true)
    (hother : isStagingEntry other = false) : fs' other = fs other := by
  apply h.others
  rintro rfl
  rw [hpath] at hother
  contradiction

theorem ConnectionInfo.Receiving.entry {info : ConnectionInfo} (h : info.Receiving)
    (hprogress : info.uploadInProgress = true) :
    isStagingEntry info.uploadStage.stagingPath.str = true := by
  rcases h with ⟨-, hclosed⟩ | ⟨hopen, -⟩
  · rw [hprogress] at hclosed
    contradiction
  · exact hopen.2.2

theorem chunkStep_outside (hreceiving : request.info.Receiving) (body : Body) {path : CString}
    (hpath : isStagingEntry path = false) :
    (chunkStep world id request body env).1.fs path = world.fs path := by
  have hgate := @chunkGate_gated world.auth request.info request.headers world.clock env.unwritten
    request.route
  unfold chunkStep
  dsimp only
  split
  · rfl
  · rename_i auth info heq
    rw [heq] at hgate
    have hparsed := @postProcess_parsed id world.fs info world.clock
      (hgate.receiving hreceiving) request.route body.items body.processed
    exact hparsed.outside hpath

theorem uploadFinal_outside (hreceiving : request.info.Receiving) :
    OutsideCall id world request (uploadFinal world id request env) := by
  unfold uploadFinal
  dsimp only
  split
  · exact .same fun _ _ => rfl
  · split
    · exact .same fun _ _ => rfl
    · rename_i hprogress
      have hprogress : request.info.uploadInProgress = true := by simpa using hprogress
      have hentry := hreceiving.entry hprogress
      rcases uploadStageCommit_cases world.fs request.info.uploadStage world.clock env.sealing with
        ⟨fs', stage, error, -, htouch, heq⟩ | ⟨fs', stage, file, -, htouch, hfile, heq⟩
      · rw [heq]
        exact .same fun path hpath => htouch.outside hentry hpath
      · rw [heq]
        refine .committed _ _ rfl hprogress rfl rfl rfl ?_ fun path hpath htarget => ?_
        · change fs'.rename _ _ _ ≠ none
          rw [rename_apply, if_pos rfl, hfile]
          exact Option.some_ne_none file
        · change fs'.rename _ _ path = world.fs path
          rw [rename_apply, if_neg htarget, if_neg, htouch.outside hentry hpath]
          rintro rfl
          rw [hentry] at hpath
          contradiction

theorem sendFinal_outside (hreceiving : request.info.Receiving) {path : CString}
    (hpath : isStagingEntry path = false) :
    (sendFinal world request env).1.fs path = world.fs path := by
  have hgate := validateTargetPeer_gated world.auth world.registry request.info world.clock
  unfold sendFinal
  dsimp only
  split
  · rfl
  · split
    · rfl
    · rename_i hprogress
      have hentry := hreceiving.entry (by simpa using hprogress)
      split
      · rfl
      · rename_i heq
        rw [heq] at hgate
        obtain ⟨status, message, checked, authorized, rfl⟩ := hgate
        split
        · rename_i hseal
          exact (uploadStageSeal_spec hseal).2.2.outside hentry hpath
        · rename_i hseal
          exact (uploadStageSeal_spec hseal).2.2.outside hentry hpath

theorem answerToConnection_outside (hsound : request.Sound) (hphase : request.phase = .receiving)
    (upload : Option Body) :
    OutsideCall id world request (answerToConnection world id request upload env) := by
  obtain ⟨hreceiving, -⟩ := hsound.open_ (by simp [hphase]) (by simp [Request.handingOver, hphase])
  have hdispatch := answerToConnection_dispatch world id request upload env
  generalize answerToConnection world id request upload env = outcome at hdispatch ⊢
  cases hdispatch with
  | index | devices | notFound => exact .same fun _ _ => rfl
  | localCode => exact .same fun _ _ => by rw [localCodeCall_quiet.fs]
  | transfers | transfer => exact .same fun _ _ => by rw [(transfersCall_quiet _).fs]
  | chunk body => exact .same fun _ hpath => chunkStep_outside hreceiving body hpath
  | unlock => exact .same fun _ _ => by rw [unlockFinal_quiet.fs]
  | exchange => exact .same fun _ _ => by rw [exchangeFinal_quiet.fs]
  | upload => exact uploadFinal_outside hreceiving
  | pair => exact .same fun _ _ => by rw [pairFinal_quiet.fs]
  | send => exact .same fun _ hpath => sendFinal_outside hreceiving hpath

end calls

section steps
variable {process after : Process} {event : Event} {entries : List Entry} {id : Nat}
  {request : Request}

theorem deleteAll_outside {fs : FileSystem} {paths : List CString}
    (hentries : ∀ path ∈ paths, isStagingEntry path = true) {path : CString}
    (hpath : isStagingEntry path = false) : deleteAll fs paths path = fs path := by
  rw [deleteAll_apply, if_neg]
  rintro ⟨hmem, -⟩
  rw [hentries path hmem] at hpath
  contradiction

theorem proceed_outside {env : ProceedEnv} {outcome : Outcome} (hheld : HeldEntries process)
    (hwas : process.requests id = some request) (hsound : request.Sound)
    (h : proceed process.world id request env = some outcome) {path : CString}
    (hpath : isStagingEntry path = false) : outcome.1.fs path = process.world.fs path := by
  have hpruned : ∀ pruned ∈ (pruneTerminalJobsLocked process.world.queue.jobs
      process.world.clock).2.map Prod.snd, isStagingEntry pruned = true := by
    intro pruned hmem
    obtain ⟨owner, howner⟩ := prune_deletes_held hmem
    exact hheld owner pruned howner
  cases hhanding : request.handingOver with
  | false => rw [(proceed_quiet hhanding h).fs]
  | true =>
      have hown := hheld _ _ (ledger_request hwas (hsound.holds hhanding))
      cases proceed_proceeds h with
      | sendCleanup =>
          simp only [cleanupExpiredStagingFiles]
          rw [if_neg (by decide), hpath]
          rfl
      | sendRefused _ refused =>
          change (uploadStageAbort (deleteAll process.world.fs _) request.info.uploadStage).1 path =
            _
          rw [abort_eq_deleteAll]
          refine deleteAll_outside (fun deleted hdeleted => ?_) hpath
          rcases List.mem_append.mp hdeleted with hmem | hmem
          · rcases transferEnqueue_refused refused with ⟨rfl, rfl⟩ | ⟨rfl, rfl⟩
            · simp at hmem
            · exact hpruned deleted hmem
          · rw [List.mem_singleton.mp hmem]
            exact hown
      | sendEnqueued _ enqueued =>
          obtain ⟨slot, fresh, -, -, rfl, rfl, -⟩ := transferEnqueue_accepted enqueued
          exact deleteAll_outside hpruned hpath
      | exchangeAdd phase | exchangeMark phase | pairRefused phase | pairAccepted phase
      | pairStore phase | pairMark phase => simp [Request.handingOver, phase] at hhanding

theorem completed_outside (hheld : HeldEntries process) (hwas : process.requests id = some request)
    {path : CString} (hpath : isStagingEntry path = false) :
    (requestCompleted process.world id request).1.fs path = process.world.fs path := by
  unfold requestCompleted
  split
  · rfl
  · rename_i hsaved
    by_cases hempty : request.info.uploadStage.stagingPath.str = CString.empty
    · simp [uploadStageAbort, storageDeleteFile, hempty]
    · have hown : process.ledger.held (.request id) =
          some request.info.uploadStage.stagingPath.str := by
        simp [Process.ledger, ledgerOf, hwas, Request.holds, hempty, hsaved]
      change deleteAll process.world.fs [request.info.uploadStage.stagingPath.str] path = _
      refine deleteAll_outside (fun deleted hdeleted => ?_) hpath
      rw [List.mem_singleton.mp hdeleted]
      exact hheld _ _ hown

inductive OutsideChange (process : Process) (event : Event) (after : Process)
    (entries : List Entry) : Prop
  | same (files : ∀ path, isStagingEntry path = false →
      after.world.fs path = process.world.fs path)
  | committed (id : Nat) (upload : Option Body) (env : CallEnv) (request : Request)
      (target : CString) (call : event = .call id upload env)
      (was : process.requests id = some request)
      (named : target =
        (committedPath process.world.clock request.info.uploadStage.commitName).str)
      (progress : request.info.uploadInProgress = true)
      (ok : ∃ answered reply, after.requests id = some answered ∧
        answered.phase = .answered reply ∧ reply.status = 200)
      (logged : entries =
        [.committed id process.world.clock request.info.uploadStage.commitName target])
      (there : after.world.fs target ≠ none)
      (others : ∀ path, isStagingEntry path = false → path ≠ target →
        after.world.fs path = process.world.fs path)

theorem next_outside (hwf : Wellformed process) (hheld : HeldEntries process)
    (h : next process event = some (after, entries)) :
    OutsideChange process event after entries := by
  cases next_steps h with
  | call id upload env request was phase =>
      have hcall := @answerToConnection_outside process.world id request env
        (hwf.requests id request was) phase upload
      cases hcall with
      | same files => exact .same files
      | committed target reply named progress answered ok logged there others =>
          exact .committed id upload env request target rfl was named progress
            ⟨_, reply, Function.update_self .., answered, ok⟩ logged there others
  | proceed id env request outcome was continues =>
      exact .same fun _ => proceed_outside hheld was (hwf.requests id request was) continues
  | completed id request was releasable => exact .same fun _ => completed_outside hheld was
  | workerDone success result ends =>
      refine .same fun path => deleteAll_outside fun deleted hdeleted => ?_
      obtain ⟨⟨slot, found⟩, hmem, rfl⟩ := List.mem_map.mp hdeleted
      exact hheld (.job slot) found (workerDone_unlinked ends hmem)
  | tick | accept | workerTake | workerCall | workerProgress | workerExit | resolved | removed
  | serverStop | queueShutdown => exact .same fun _ _ => rfl

end steps

def UploadStage.SafelyNamed (stage : UploadStage) : Prop :=
  stage.originalName.str = CString.empty ∨
    ∃ filename, stage.originalName = sanitizeFilename filename

theorem UploadStage.SafelyNamed.commitName {stage : UploadStage} (h : stage.SafelyNamed) :
    ∃ filename, stage.commitName = (sanitizeFilename filename).str := by
  rcases h with hempty | ⟨filename, hname⟩
  · refine ⟨some (.lit "upload.bin"), ?_⟩
    rw [UploadStage.commitName, if_neg (fun hne => hne hempty)]
    decide +kernel
  · exact ⟨filename, commitName_of_sanitized hname⟩

section parsing
variable {fs : FileSystem} {id : Nat} {info : ConnectionInfo} {now : Time}

theorem uploadStageOpen_safelyNamed {filename : Option CString} {random : RandomBytes 8}
    {opened : Bool} : (uploadStageOpen fs id filename now random opened).2.1.SafelyNamed := by
  unfold uploadStageOpen
  dsimp only
  split
  · exact .inr ⟨filename, rfl⟩
  · split <;> exact .inr ⟨filename, rfl⟩

theorem openStage_safelyNamed (h : info.uploadStage.SafelyNamed) (item : PostItem) :
    (openStage fs id info now item).2.1.uploadStage.SafelyNamed := by
  have hopened := @uploadStageOpen_safelyNamed fs id now item.filename item.random item.opened
  unfold openStage
  split
  · split <;> rename_i heq <;> rw [heq] at hopened <;> exact hopened
  · exact h

theorem writeStage_safelyNamed (h : info.uploadStage.SafelyNamed) (item : PostItem) :
    (writeStage fs info now item).2.uploadStage.SafelyNamed := by
  unfold writeStage
  split
  · split <;> rename_i hwrite <;> obtain ⟨-, -, -, hname, -⟩ := uploadStageWrite_spec hwrite
    · rwa [UploadStage.SafelyNamed, hname]
    · rwa [UploadStage.SafelyNamed, hname]
  · exact h

theorem iteratePost_safelyNamed (h : info.uploadStage.SafelyNamed) (item : PostItem) :
    (iteratePost fs id info now item).2.uploadStage.SafelyNamed := by
  unfold iteratePost
  split
  · exact h
  · split
    · have hopen := @openStage_safelyNamed fs id info now h item
      split <;> rename_i heq <;> rw [heq] at hopen
      · exact hopen
      · exact writeStage_safelyNamed hopen item
    · rwa [(copyField_frame info item).1]

theorem parseFields_safelyNamed (h : info.uploadStage.SafelyNamed) (items : List PostItem) :
    (parseFields fs id info now items).2.uploadStage.SafelyNamed := by
  induction items generalizing fs info with
  | nil => exact h
  | cons item rest ih =>
      rw [parseFields_cons]
      exact ih (iteratePost_safelyNamed h item)

theorem postProcess_safelyNamed (h : info.uploadStage.SafelyNamed) (route : Route)
    (items : List PostItem) (processed : Bool) :
    (postProcess fs id info route now items processed).2.uploadStage.SafelyNamed := by
  have hall := @parseFields_safelyNamed fs id info now h items
  unfold parseFields at hall
  unfold postProcess
  split
  · exact h
  · dsimp only
    split <;> exact hall

end parsing

section naming
variable {world : World} {id : Nat} {request : Request} {env : CallEnv}

theorem chunkStep_safelyNamed (h : request.info.uploadStage.SafelyNamed) (body : Body) :
    (chunkStep world id request body env).2.1.info.uploadStage.SafelyNamed := by
  have hgate := @chunkGate_gated world.auth request.info request.headers world.clock env.unwritten
    request.route
  unfold chunkStep
  dsimp only
  split
  · rename_i auth info heq
    rw [heq] at hgate
    obtain ⟨status, message, checked, authorized, rfl⟩ := hgate
    exact h
  · rename_i auth info heq
    rw [heq] at hgate
    have hstage : info.uploadStage = request.info.uploadStage := by
      obtain ⟨status, message, checked, authorized, rfl⟩ := hgate
      rfl
    exact postProcess_safelyNamed (hstage ▸ h) request.route body.items body.processed

theorem safelyNamed_call (h : request.info.uploadStage.SafelyNamed) (upload : Option Body)
    (hafter : (answerToConnection world id request upload env).2.1.phase = .receiving) :
    (answerToConnection world id request upload env).2.1.info.uploadStage.SafelyNamed := by
  have hdispatch := answerToConnection_dispatch world id request upload env
  generalize answerToConnection world id request upload env = outcome at hdispatch hafter ⊢
  cases hdispatch with
  | chunk body => exact chunkStep_safelyNamed h body
  | index | devices | notFound => contradiction
  | localCode | transfers | transfer | unlock | exchange | upload | pair | send =>
      refine absurd hafter ?_
      simp only [localCodeCall, transfersCall, unlockFinal, exchangeFinal, uploadFinal, pairFinal,
        sendFinal]
      repeat' split
      all_goals exact Phase.noConfusion

end naming

def StagesNamed (process : Process) : Prop :=
  ∀ id request, process.requests id = some request → request.phase = .receiving →
    request.info.uploadStage.SafelyNamed

theorem stagesNamed_next {process after : Process} {event : Event} {entries : List Entry}
    (hnamed : StagesNamed process) (h : next process event = some (after, entries)) :
    StagesNamed after := by
  intro id request' hid hreceiving
  cases next_origin h hid with
  | kept was => exact hnamed id request' was hreceiving
  | accepted url method clientIp headers fresh quiet new =>
      rw [new]
      exact .inl rfl
  | called upload env request was phase call settled logged new =>
      rw [new] at hreceiving ⊢
      exact safelyNamed_call (hnamed id request was phase) upload hreceiving
  | proceeded env request outcome was continues call settled logged new =>
      rw [new] at hreceiving
      exact absurd hreceiving (proceed_phase continues)

def Process.Received (process : Process) (path : CString) : Prop :=
  process.world.fs path ≠ none ∧ ∃ id now filename,
    InDirectory (.lit "downloads") (sanitizeFilename filename).str path ∧
      Entry.committed id now (sanitizeFilename filename).str path ∈ process.log

structure Confined (start process : Process) : Prop where
  wellformed : Wellformed process
  held : HeldEntries process
  clock : WholeClock process
  named : StagesNamed process
  outside : ∀ path, isStagingEntry path = false →
    process.world.fs path = start.world.fs path ∨ process.Received path

theorem Started.confined {start : Process} (h : Started start) : Confined start start where
  wellformed := h.wellformed
  held := h.tidy.held
  clock := h.clock
  named id request hid := by simp [h.requests] at hid
  outside _ _ := .inl rfl

theorem committedPath_inDirectory {now : Time} (hnow : 0 ≤ now ∧ now ≤ timeMax)
    (filename : Option CString) :
    InDirectory (.lit "downloads") (sanitizeFilename filename).str
      (committedPath now (sanitizeFilename filename).str).str := by
  have hlong : IsLong now :=
    ⟨le_trans (by decide) hnow.1, lt_of_le_of_lt hnow.2 (by decide)⟩
  obtain ⟨-, hbytes⟩ := committedPath_whole hlong (sanitizeFilename filename).fits
  exact inDirectory_of_safe hbytes (by decide)
    (committedComponent_bytes (sanitizeFilename_bytes filename)) ⟨formatLong now, rfl⟩

theorem confined_step {start : Process} (process : Process) (event : Event) (after : Process)
    (h : Confined start process) (hstep : step process event = some after) :
    Confined start after := by
  obtain ⟨settled, entries, hnext, rfl⟩ := step_eq_some hstep
  have hwf := next_wellformed h.wellformed hnext
  have hheld := heldEntries_next h.wellformed h.held hnext
  have hclock := wholeClock_next h.clock hnext
  have hnamed := stagesNamed_next h.named hnext
  refine ⟨⟨hwf.requests, hwf.ids⟩, hheld, hclock, hnamed, fun path hpath => ?_⟩
  have hkept : settled.world.fs path = process.world.fs path →
      settled.world.fs path = start.world.fs path ∨
        ({ settled with log := process.log ++ entries } : Process).Received path := by
    intro hsame
    rcases h.outside path hpath with hstart | ⟨hthere, id, now, filename, hin, hlogged⟩
    · exact .inl (hsame.trans hstart)
    · exact .inr ⟨fun hnone => hthere (hsame ▸ hnone), id, now, filename, hin,
        List.mem_append_left _ hlogged⟩
  cases next_outside h.wellformed h.held hnext with
  | same files => exact hkept (files path hpath)
  | committed id upload env request target call was named progress ok logged there others =>
      by_cases htarget : path = target
      · right
        have hreceiving : request.phase = .receiving := by
          subst call
          cases next_steps hnext with
          | call _ _ _ called was' phase =>
              rw [was] at was'
              cases Option.some.inj was'
              exact phase
        obtain ⟨filename, hname⟩ := (h.named id request was hreceiving).commitName
        rw [hname] at named logged
        subst htarget
        refine ⟨there, id, process.world.clock, filename, ?_, ?_⟩
        · rw [named]
          exact committedPath_inDirectory h.clock filename
        · rw [logged]
          exact List.mem_append_right _ (List.mem_singleton_self _)
      · exact hkept (others path hpath htarget)

/-- Whatever clients send, in whatever order: a file that is not what it was when the process
came up is in `staging/`, or it is in `downloads/`, under a safe name, and an authorized upload
has put it there. -/
theorem files_confined {start process : Process} {events : List Event} (hstart : Started start)
    (hrun : run step start events = some process) {path : CString}
    (hchanged : process.world.fs path ≠ start.world.fs path) :
    isStagingEntry path = true ∨ process.world.fs path ≠ none ∧ ∃ id now filename,
      InDirectory (.lit "downloads") (sanitizeFilename filename).str path ∧
      Entry.committed id now (sanitizeFilename filename).str path ∈ process.log ∧
      UploadAuthorized process.log id := by
  have hconfined := run_invariant confined_step hstart.confined hrun
  have htraced := run_invariant traced_step hstart.traced hrun
  cases hpath : isStagingEntry path with
  | true => exact .inl rfl
  | false =>
      rcases hconfined.outside path hpath with hsame | ⟨hthere, id, now, filename, hin, hlogged⟩
      · exact absurd hsame hchanged
      · obtain ⟨pre, post, hsplit⟩ := List.append_of_mem hlogged
        have hallowed : UploadAuthorized pre id := htraced.justified pre _ post hsplit
        refine .inr ⟨hthere, id, now, filename, hin, hlogged, ?_⟩
        rw [hsplit]
        exact hallowed.append _

theorem upload_confined : ∃ process,
    run step sampleStart
      (unlocking 0 7 ++ uploading 1 (sampleToken 7) "../../a.txt" [1, 2, 3] 9) = some process ∧
    (isStagingEntry (.lit "downloads/1000_a.txt") = true ∨
      process.world.fs (.lit "downloads/1000_a.txt") ≠ none ∧ ∃ id now filename,
        InDirectory (.lit "downloads") (sanitizeFilename filename).str
          (.lit "downloads/1000_a.txt") ∧
        Entry.committed id now (sanitizeFilename filename).str (.lit "downloads/1000_a.txt") ∈
          process.log ∧
        UploadAuthorized process.log id) := by
  obtain ⟨process, hrun⟩ : ∃ process, run step sampleStart
      (unlocking 0 7 ++ uploading 1 (sampleToken 7) "../../a.txt" [1, 2, 3] 9) = some process :=
    Option.isSome_iff_exists.mp (by decide +kernel)
  have hthere : (run step sampleStart
      (unlocking 0 7 ++ uploading 1 (sampleToken 7) "../../a.txt" [1, 2, 3] 9)).all
      (fun process => process.world.fs (.lit "downloads/1000_a.txt") ≠ none) = true := by
    decide +kernel
  rw [hrun] at hthere
  simp only [Option.all_some, decide_eq_true_eq] at hthere
  exact ⟨process, hrun, files_confined sampleStart_started hrun hthere⟩

end LocalDrop
