import LocalDrop.FileNames
import LocalDrop.Files
import LocalDrop.Requests

/-! Received files. `upload_stage_commit` names the received file after the clock,
in seconds, and the sanitised name the client gave. Whether a later commit replaces
it depends on whether that pair comes up again. -/
namespace LocalDrop
open Lib

def committedPaths (log : List Entry) : List CString :=
  log.filterMap fun
    | .committed _ _ _ path => some path
    | _ => none

theorem committedPaths_append (log entries : List Entry) :
    committedPaths (log ++ entries) = committedPaths log ++ committedPaths entries :=
  List.filterMap_append ..

theorem mem_committedPaths {log : List Entry} {path : CString} :
    path ∈ committedPaths log ↔ ∃ id now name, Entry.committed id now name path ∈ log := by
  unfold committedPaths
  rw [List.mem_filterMap]
  constructor
  · rintro ⟨entry, hentry, hpath⟩
    cases entry <;> simp only [reduceCtorEq, Option.some.injEq] at hpath
    subst hpath
    exact ⟨_, _, _, hentry⟩
  · rintro ⟨id, now, name, hentry⟩
    exact ⟨_, hentry, rfl⟩

/-- The last call of an upload moves the file: no error so far, and the system calls
succeed. -/
def Request.commits (request : Request) (fs : FileSystem) (env : SealEnv) : Bool :=
  request.route = .upload && request.info.responseStatus < 400 &&
    request.info.uploadInProgress && env.flushed && env.closed && env.renamed &&
    (fs request.info.uploadStage.stagingPath.str).isSome

/-- The name under which an event moves an upload into `downloads/`. -/
def committingName (process : Process) : Event → Option CString
  | .call id none env =>
      (process.requests id).bind fun request =>
        if request.commits process.world.fs env.sealing then
          some request.info.uploadStage.commitName
        else none
  | _ => none

/-- No upload was committed under this name in this second before. -/
def UnusedName (process : Process) (event : Event) : Prop :=
  ∀ name, committingName process event = some name →
    ∀ id path, Entry.committed id process.world.clock name path ∉ process.log

/-- Every upload answered 200 was committed, no two commits used one path, and every
committed file is still there and is the one its request uploaded. -/
structure ReceivedKept (process : Process) : Prop where
  answered : ∀ id request reply, process.requests id = some request → request.route = .upload →
    request.phase = .answered reply → reply.status = 200 →
    ∃ now name path, Entry.committed id now name path ∈ process.log
  distinct : (committedPaths process.log).Nodup
  kept : ∀ id now name path, Entry.committed id now name path ∈ process.log →
    ∃ file, process.world.fs path = some file ∧ file.creator = some id

theorem UploadStage.commitName_length (stage : UploadStage) : stage.commitName.length < 256 := by
  unfold UploadStage.commitName
  split
  · exact stage.originalName.fits
  · decide

theorem isLong_of_time {now : Time} (h : 0 ≤ now ∧ now ≤ timeMax) : IsLong now := by
  have hmax : timeMax < 2 ^ 63 := by decide
  exact ⟨le_trans (by decide) h.1, lt_of_le_of_lt h.2 hmax⟩

/-- The path is never cut, so it determines the second and the name. -/
theorem committedPath_bytes {now : Time} {name : CString} (hnow : 0 ≤ now ∧ now ≤ timeMax)
    (hname : name.length < 256) : (committedPath now name).str.bytes =
      (CString.lit "downloads/").bytes ++ committedComponent now name :=
  (committedPath_whole (isLong_of_time hnow) hname).2

theorem committedPath_injective {now now' : Time} {name name' : CString}
    (hnow : 0 ≤ now ∧ now ≤ timeMax) (hname : name.length < 256)
    (hnow' : 0 ≤ now' ∧ now' ≤ timeMax) (hname' : name'.length < 256)
    (h : (committedPath now name).str = (committedPath now' name').str) :
    now = now' ∧ name = name' := by
  have hbytes := congrArg CString.bytes h
  rw [committedPath_bytes hnow hname, committedPath_bytes hnow' hname'] at hbytes
  have hclock : ∀ time : Time, (95 : UInt8) ∉ formatLong time := fun time =>
    notMem_formatLong _ _ (by decide) (by decide)
  obtain ⟨htime, htext⟩ := append_stop_injective (hclock now) (hclock now')
    (List.append_cancel_left hbytes)
  exact ⟨formatLong_injective htime, CString.ext htext⟩

theorem committedPaths_of_idle {entries : List Entry}
    (h : ∀ entry ∈ entries, entry.isFileEntry = false) : committedPaths entries = [] := by
  refine List.filterMap_eq_nil_iff.mpr fun entry hentry => ?_
  have hidle := h entry hentry
  cases entry <;> first | rfl | contradiction

theorem committedPaths_jobUnlinks (deleted : Deletions) :
    committedPaths (jobUnlinks deleted) = [] := by
  simp [committedPaths, jobUnlinks, List.filterMap_map]

theorem committedPaths_abortUnlinks (id : Nat) (stage : UploadStage) :
    committedPaths (abortUnlinks id stage) = [] := by
  unfold abortUnlinks
  split <;> rfl

theorem stagedEntries_not_committed (id : Nat) (route : Route) (before after : ConnectionInfo) :
    committedPaths (stagedEntries id route before after) = [] := by
  unfold stagedEntries
  split <;> rfl

theorem chunkStep_not_committed (world : World) (id : Nat) (request : Request) (body : Body)
    (env : CallEnv) : committedPaths (chunkStep world id request body env).2.2 = [] := by
  have hcharged := committedPaths_of_idle
    (@chargedEntries_idle id request world.auth world.clock)
  unfold chunkStep
  dsimp only
  split
  · exact hcharged
  · rw [committedPaths_append, stagedEntries_not_committed, List.append_nil]
    exact hcharged

theorem commit_isOk {fs : FileSystem} {stage : UploadStage} (hopen : stage.Open) (now : Time)
    (env : SealEnv) : (uploadStageCommit fs stage now env).2.2.isOk =
      (env.flushed && env.closed && env.renamed && (fs stage.stagingPath.str).isSome) := by
  have hmodify : ∀ f : File → File,
      (fs.modify stage.stagingPath.str f stage.stagingPath.str).isSome =
        (fs stage.stagingPath.str).isSome := by
    intro f
    simp [FileSystem.modify]
  unfold uploadStageCommit uploadStageSeal
  simp only [hopen.1, hopen.2.1, Bool.false_eq_true, if_false, Bool.not_true]
  cases env.flushed with
  | false => rfl
  | true =>
      cases env.closed with
      | false => rfl
      | true =>
          simp only [Bool.not_true, Bool.false_eq_true, if_false, hmodify, Bool.true_and]
          split
          · rename_i hmoved
            rw [hmoved]
            rfl
          · rename_i hkept
            rw [Bool.not_eq_true] at hkept
            rw [hkept]
            rfl

theorem uploadFinal_commits {world : World} {id : Nat} {request : Request} {env : CallEnv}
    (hroute : request.route = .upload) (hreceiving : request.info.Receiving) :
    (request.commits world.fs env.sealing = false ∧
      (uploadFinal world id request env).2.2 = [] ∧
      ∃ reply, (uploadFinal world id request env).2.1.phase = .answered reply ∧
        reply.status ≠ 200) ∨
    (request.commits world.fs env.sealing = true ∧
      (uploadFinal world id request env).2.2 = [.committed id world.clock
        request.info.uploadStage.commitName
        (committedPath world.clock request.info.uploadStage.commitName).str] ∧
      ∃ reply, (uploadFinal world id request env).2.1.phase = .answered reply) := by
  unfold uploadFinal
  dsimp only
  split
  · rename_i hfailed
    refine .inl ⟨?_, rfl, _, rfl, ?_⟩
    · simp [Request.commits, Nat.not_lt.mpr hfailed]
    · change request.info.responseStatus ≠ 200
      omega
  · rename_i hstatus
    split
    · rename_i hprogress
      refine .inl ⟨?_, rfl, _, rfl, by decide⟩
      simp only [Bool.not_eq_true'] at hprogress
      simp [Request.commits, hprogress]
    · rename_i hprogress
      have hprogress : request.info.uploadInProgress = true := by simpa using hprogress
      have hopen : request.info.uploadStage.Open := by
        rcases hreceiving with ⟨-, hclosed⟩ | ⟨hopen, -⟩
        · rw [hprogress] at hclosed
          contradiction
        · exact hopen
      have hcommits : request.commits world.fs env.sealing =
          (uploadStageCommit world.fs request.info.uploadStage world.clock
            env.sealing).2.2.isOk := by
        rw [commit_isOk hopen]
        simp [Request.commits, hroute, hprogress, Nat.lt_of_not_le hstatus]
      rw [hcommits]
      rcases uploadStageCommit_cases world.fs request.info.uploadStage world.clock env.sealing with
        ⟨fs', stage, error, -, -, heq⟩ | ⟨fs', stage, file, -, -, -, heq⟩ <;> rw [heq]
      · exact .inl ⟨rfl, rfl, _, rfl, show 500 ≠ 200 by decide⟩
      · exact .inr ⟨rfl, rfl, _, rfl⟩

theorem answerToConnection_not_committed {world : World} {id : Nat} {request : Request}
    {upload : Option Body} {env : CallEnv} (h : request.route = .upload → upload ≠ none) :
    committedPaths (answerToConnection world id request upload env).2.2 = [] := by
  have hdispatch := answerToConnection_dispatch world id request upload env
  generalize answerToConnection world id request upload env = outcome at hdispatch ⊢
  cases hdispatch with
  | index | devices | notFound => rfl
  | localCode => exact committedPaths_of_idle localCodeCall_quiet.entries
  | transfers | transfer => exact committedPaths_of_idle (transfersCall_quiet _).entries
  | chunk body => exact chunkStep_not_committed ..
  | unlock => exact committedPaths_of_idle unlockFinal_quiet.entries
  | exchange => exact committedPaths_of_idle exchangeFinal_quiet.entries
  | upload route => exact absurd rfl (h route)
  | pair => exact committedPaths_of_idle pairFinal_quiet.entries
  | send =>
      unfold sendFinal
      dsimp only
      repeat' split
      all_goals rfl

theorem proceed_not_committed {world : World} {id : Nat} {request : Request}
    {env : ProceedEnv} {outcome : Outcome} (h : proceed world id request env = some outcome) :
    committedPaths outcome.2.2 = [] := by
  cases proceed_proceeds h with
  | exchangeAdd | exchangeMark | pairRefused | pairAccepted | pairMark | sendCleanup => rfl
  | pairStore =>
      dsimp only
      split <;> rfl
  | sendRefused =>
      rw [committedPaths_append, committedPaths_jobUnlinks, committedPaths_abortUnlinks]
      rfl
  | sendEnqueued =>
      rw [committedPaths_append, committedPaths_jobUnlinks]
      rfl

theorem next_commits {process after : Process} {event : Event} {entries : List Entry}
    (hwf : Wellformed process) (h : next process event = some (after, entries)) :
    (committingName process event = none ∧ committedPaths entries = []) ∨
    ∃ id name, committingName process event = some name ∧ name.length < 256 ∧
      entries = [.committed id process.world.clock name
        (committedPath process.world.clock name).str] := by
  cases next_steps h with
  | call id upload env request was phase =>
      cases upload with
      | some body => exact .inl ⟨rfl, answerToConnection_not_committed (by simp)⟩
      | none =>
          by_cases hroute : request.route = .upload
          · have hopen := (hwf.requests id request was).open_ (by simp [phase])
              (by simp [Request.handingOver, phase])
            rw [answerToConnection_upload hroute]
            rcases @uploadFinal_commits process.world id _ env hroute hopen.1 with
              ⟨hcommits, hentries, -⟩ | ⟨hcommits, hentries, -⟩
            · exact .inl ⟨by simp [committingName, was, hcommits], by rw [hentries]; rfl⟩
            · exact .inr ⟨id, request.info.uploadStage.commitName,
                by simp [committingName, was, hcommits],
                request.info.uploadStage.commitName_length, hentries⟩
          · refine .inl ⟨?_, answerToConnection_not_committed fun h => absurd h hroute⟩
            simp [committingName, was, Request.commits, hroute]
  | proceed id env request outcome was continues =>
      exact .inl ⟨rfl, proceed_not_committed continues⟩
  | completed id request was releasable =>
      refine .inl ⟨rfl, ?_⟩
      unfold requestCompleted
      split
      · rfl
      · exact committedPaths_abortUnlinks _ _
  | workerDone success result ends => exact .inl ⟨rfl, committedPaths_jobUnlinks _⟩
  | tick | accept | workerTake | workerCall | workerProgress | workerExit | resolved | removed
  | serverStop | queueShutdown => exact .inl ⟨rfl, rfl⟩

def WholeClock (process : Process) : Prop :=
  0 ≤ process.world.clock ∧ process.world.clock ≤ timeMax

theorem wholeClock_next {process after : Process} {event : Event} {entries : List Entry}
    (hclock : WholeClock process) (h : next process event = some (after, entries)) :
    WholeClock after :=
  ⟨le_trans hclock.1 (next_clock h).1, (next_clock h).2.1 hclock.2⟩

def CommitsNamed (process : Process) : Prop :=
  ∀ id now name path, Entry.committed id now name path ∈ process.log →
    path = (committedPath now name).str ∧ (0 ≤ now ∧ now ≤ timeMax) ∧ name.length < 256

theorem commitsNamed_step {process after : Process} {event : Event} (hwf : Wellformed process)
    (hclock : WholeClock process) (hnamed : CommitsNamed process)
    (h : step process event = some after) : CommitsNamed after := by
  obtain ⟨settled, entries, hnext, rfl⟩ := step_eq_some h
  intro id now name path hentry
  rcases List.mem_append.mp hentry with hold | hnew
  · exact hnamed id now name path hold
  · rcases next_commits hwf hnext with ⟨-, hnone⟩ | ⟨committer, committed, -, hlength, heq⟩
    · have hmem := mem_committedPaths.mpr ⟨id, now, name, hnew⟩
      rw [hnone] at hmem
      contradiction
    · rw [heq, List.mem_singleton, Entry.committed.injEq] at hnew
      obtain ⟨rfl, rfl, rfl, rfl⟩ := hnew
      exact ⟨rfl, hclock, hlength⟩

def HoldsOwn (process : Process) : Prop :=
  ∀ id path file, process.ledger.held (.request id) = some path →
    process.world.fs path = some file → file.creator = some id

theorem staged_isStagingEntry {process after : Process} {event : Event} {entries : List Entry}
    (hwf : Wellformed process) (h : next process event = some (after, entries)) {path : CString}
    (hpath : path ∈ stagedPaths entries) : isStagingEntry path = true := by
  cases next_moves hwf h with
  | creates id staged entry move names =>
      rw [names, List.mem_singleton] at hpath
      exact hpath ▸ entry
  | drops move names => simp [names] at hpath
  | handsOver middle id slot staged drop move names => simp [names] at hpath
  | expires move cleanup names => simp [names] at hpath

theorem holdsOwn_step {process after : Process} {event : Event} (howned : Owned process)
    (hheld : HeldEntries process) (hfresh : FreshNames process event) (hown : HoldsOwn process)
    (h : step process event = some after) : HoldsOwn after := by
  obtain ⟨settled, entries, hnext, rfl⟩ := step_eq_some h
  intro id path file hafter hfile
  change settled.ledger.held (.request id) = some path at hafter
  change settled.world.fs path = some file at hfile
  -- A file the request already held may have been rewritten, but not replaced.
  have hkept : process.ledger.held (.request id) = some path → file.creator = some id := by
    intro hbefore
    cases next_files howned.wellformed hheld hnext path with
    | same creator =>
        rw [hfile, Option.map_some, eq_comm] at creator
        obtain ⟨old, hold, hcreator⟩ := Option.map_eq_some_iff.mp creator
        rw [← hcreator]
        exact hown id path old hbefore hold
    | gone entry absent =>
        rw [hfile] at absent
        contradiction
    | staged other route logged creator =>
        exact absurd (howned.ledger.known _ _ hbefore)
          (hfresh _ _ hnext path (mem_stagedPaths logged))
    | committed other name source logged target held was creator =>
        have hentry := hheld _ _ hbefore
        rw [target, isStagingEntry_committedPath] at hentry
        contradiction
  cases next_moves howned.wellformed hnext with
  | drops move names => exact hkept (move.held_of_held hafter)
  | creates creatorId staged entry move names creator =>
      by_cases hid : id = creatorId
      · subst hid
        rw [move.self, Option.some.injEq] at hafter
        subst hafter
        simpa [hfile] using creator
      · rw [move.others _ (by simpa using hid)] at hafter
        exact hkept hafter
  | handsOver middle giver slot staged drop move names =>
      by_cases hid : id = giver
      · rw [hid, move.giver] at hafter
        contradiction
      · rw [move.others _ (by simpa using hid) (by simp)] at hafter
        exact hkept (drop.held_of_held hafter)
  | expires move cleanup names => exact hkept (move.held ▸ hafter)

def UploadsAnswered (process : Process) : Prop :=
  ∀ id request, process.requests id = some request → request.route = .upload →
    request.phase = .receiving ∨ ∃ reply, request.phase = .answered reply ∧
      (reply.status = 200 → ∃ now name path, Entry.committed id now name path ∈ process.log)

theorem uploadsAnswered_step {process after : Process} {event : Event}
    (hwf : Wellformed process) (hanswered : UploadsAnswered process)
    (h : step process event = some after) : UploadsAnswered after := by
  obtain ⟨settled, entries, hnext, rfl⟩ := step_eq_some h
  intro id request' hid hroute
  change settled.requests id = some request' at hid
  cases next_origin hnext hid with
  | kept was =>
      rcases hanswered id request' was hroute with hreceiving | ⟨reply, hphase, hlogged⟩
      · exact .inl hreceiving
      · refine .inr ⟨reply, hphase, fun hok => ?_⟩
        obtain ⟨now, name, path, hmem⟩ := hlogged hok
        exact ⟨now, name, path, List.mem_append_left _ hmem⟩
  | accepted url method clientIp headers fresh quiet new => exact .inl (new ▸ rfl)
  | called upload env request was phase call settled logged new =>
      have hbefore : request.route = .upload := by
        rw [← hroute, new]
        exact (answerToConnection_keeps upload).route.symm
      cases upload with
      | some body =>
          rw [new, answerToConnection_body (by simp [hbefore])]
          left
          exact (chunkStep_phase body).trans phase
      | none =>
          have hopen := (hwf.requests id request was).open_ (by simp [phase])
            (by simp [Request.handingOver, phase])
          rw [answerToConnection_upload hbefore] at new logged
          right
          rcases @uploadFinal_commits process.world id _ env hbefore hopen.1 with
            ⟨-, -, reply, hphase, hstatus⟩ | ⟨-, hentries, reply, hphase⟩
          · exact ⟨reply, new ▸ hphase, fun hok => absurd hok hstatus⟩
          · have hmem := List.mem_singleton_self (Entry.committed id process.world.clock
              request.info.uploadStage.commitName
              (committedPath process.world.clock request.info.uploadStage.commitName).str)
            rw [← hentries, ← logged] at hmem
            exact ⟨reply, new ▸ hphase, fun _ => ⟨_, _, _, List.mem_append_right _ hmem⟩⟩
  | proceeded env request outcome was continues call settled logged new =>
      have hbefore : request.route = .upload := by
        rw [← hroute, new]
        exact (proceed_keeps continues).route.symm
      rcases hanswered id request was hbefore with hphase | ⟨reply, hphase, -⟩
      · simp [proceed, hphase] at continues
      · rw [proceed_answered hphase] at continues
        contradiction

structure Receives (process : Process) : Prop where
  owned : Owned process
  held : HeldEntries process
  clock : WholeClock process
  named : CommitsNamed process
  own : HoldsOwn process
  answered : UploadsAnswered process

theorem Started.receives {process : Process} (h : Started process) : Receives process where
  owned := h.owned
  held owner path howner := by rw [h.held] at howner; contradiction
  clock := h.clock
  named id now name path hentry := by simp [h.log] at hentry
  own id path file howner := by rw [h.held] at howner; contradiction
  answered id request hid := by simp [h.requests] at hid

theorem receives_step (process : Process) (event : Event) (after : Process)
    (h : Receives process) (hfresh : FreshNames process event)
    (hstep : step process event = some after) : Receives after where
  owned := owned_step process event after h.owned hfresh hstep
  held := by
    obtain ⟨settled, entries, hnext, rfl⟩ := step_eq_some hstep
    have hheld := heldEntries_next h.owned.wellformed h.held hnext
    exact hheld
  clock := by
    obtain ⟨settled, entries, hnext, rfl⟩ := step_eq_some hstep
    have hclock := wholeClock_next h.clock hnext
    exact hclock
  named := commitsNamed_step h.owned.wellformed h.clock h.named hstep
  own := holdsOwn_step h.owned h.held hfresh h.own hstep
  answered := uploadsAnswered_step h.owned.wellformed h.answered hstep

theorem UploadsAnswered.committed {process : Process} (h : UploadsAnswered process) {id : Nat}
    {request : Request} {reply : Reply} (hid : process.requests id = some request)
    (hroute : request.route = .upload) (hphase : request.phase = .answered reply)
    (hstatus : reply.status = 200) :
    ∃ now name path, Entry.committed id now name path ∈ process.log := by
  rcases h id request hid hroute with hreceiving | ⟨found, hfound, hlogged⟩
  · rw [hphase] at hreceiving
    contradiction
  · rw [hphase, Phase.answered.injEq] at hfound
    subst hfound
    exact hlogged hstatus

theorem kept_next {process after : Process} {event : Event} {entries : List Entry}
    (h : Receives process) (hnext : next process event = some (after, entries))
    {now : Time} {name path : CString} {file : File}
    (hpath : path = (committedPath now name).str) (hfile : process.world.fs path = some file)
    (hother : path ∉ committedPaths entries) :
    ∃ file', after.world.fs path = some file' ∧ file'.creator = file.creator := by
  have hnot : isStagingEntry path = false := hpath ▸ isStagingEntry_committedPath now name
  cases next_files h.owned.wellformed h.held hnext path with
  | same creator =>
      rw [hfile, Option.map_some] at creator
      exact Option.map_eq_some_iff.mp creator
  | gone entry absent =>
      rw [hnot] at entry
      contradiction
  | staged other route logged creator =>
      have hentry := staged_isStagingEntry h.owned.wellformed hnext (mem_stagedPaths logged)
      rw [hnot] at hentry
      contradiction
  | committed other name source logged target held was creator =>
      exact absurd (mem_committedPaths.mpr ⟨_, _, _, logged⟩) hother

theorem committed_next {process after : Process} {event : Event} {entries : List Entry}
    (h : Receives process) (hnext : next process event = some (after, entries))
    {id : Nat} {name committed path : CString} (hname : committingName process event = some name)
    (hentries : entries = [.committed id process.world.clock committed path]) :
    ∃ file, after.world.fs path = some file ∧ file.creator = some id := by
  cases next_steps hnext with
  | call caller upload env request was phase =>
      have hsound := h.owned.wellformed.requests caller request was
      cases (@answerToConnection_effect caller process.world _ env hsound phase upload).1 with
      | quiet files holds entries =>
          have hidle := entries (.committed id process.world.clock committed path)
            (by rw [hentries]; exact List.mem_singleton_self _)
          contradiction
      | opened staged free holds entry creates entries =>
          obtain ⟨others, heq, -⟩ := entries
          rw [hentries] at heq
          cases others <;> simp at heq
      | committed fs file source held holds files was' renamed entries =>
          rw [hentries, List.cons.injEq, Entry.committed.injEq] at entries
          obtain ⟨⟨rfl, -, -, rfl⟩, -⟩ := entries
          refine ⟨file, ?_, ?_⟩
          · change (answerToConnection process.world id request upload env).1.fs _ = _
            rw [renamed, rename_apply, if_pos rfl, was']
          · have hsource := files source
            rw [was', Option.map_some, eq_comm] at hsource
            obtain ⟨old, hold, hcreator⟩ := Option.map_eq_some_iff.mp hsource
            rw [← hcreator]
            exact h.own id source old (by simp [Process.ledger, ledgerOf, was, held]) hold
  | _ => simp [committingName] at hname

/-- One step: the files received so far stay, and are joined by a new one, exactly
when the new name is unused. -/
theorem receivedKept_step_iff (process : Process) (event : Event) (after : Process)
    (h : Receives process) (hfresh : FreshNames process event) (hkept : ReceivedKept process)
    (hstep : step process event = some after) :
    ReceivedKept after ↔ UnusedName process event := by
  have hafter := receives_step process event after h hfresh hstep
  obtain ⟨settled, entries, hnext, rfl⟩ := step_eq_some hstep
  rcases next_commits h.owned.wellformed hnext with
    ⟨hname, hnone⟩ | ⟨id, name, hname, hlength, hentries⟩
  · refine ⟨fun _ name hsome => by rw [hname] at hsome; contradiction, fun _ => ⟨?_, ?_, ?_⟩⟩
    · exact fun id request reply => hafter.answered.committed
    · rw [committedPaths_append, hnone, List.append_nil]
      exact hkept.distinct
    · intro id now name path hentry
      have hold : Entry.committed id now name path ∈ process.log := by
        rcases List.mem_append.mp hentry with hold | hnew
        · exact hold
        · have hmem := mem_committedPaths.mpr ⟨id, now, name, hnew⟩
          rw [hnone] at hmem
          contradiction
      obtain ⟨file, hfile, hcreator⟩ := hkept.kept id now name path hold
      obtain ⟨file', hfile', hsame⟩ := kept_next h hnext (h.named id now name path hold).1 hfile
        (by simp [hnone])
      exact ⟨file', hfile', hsame.trans hcreator⟩
  · have hpaths : committedPaths entries = [(committedPath process.world.clock name).str] := by
      rw [hentries]
      rfl
    constructor
    · intro hkept' other hother id' path hentry
      rw [hname, Option.some.injEq] at hother
      subst hother
      have hdistinct := hkept'.distinct
      rw [committedPaths_append, hpaths, List.nodup_append] at hdistinct
      refine hdistinct.2.2 _ (mem_committedPaths.mpr ⟨id', process.world.clock, name, hentry⟩) _
        (List.mem_singleton_self _) ?_
      exact (h.named id' process.world.clock name path hentry).1
    · intro hunused
      -- An earlier path differs in its second or in its name.
      have hother : ∀ id' now name' path, Entry.committed id' now name' path ∈ process.log →
          path ≠ (committedPath process.world.clock name).str := by
        intro id' now name' path hentry hpath
        obtain ⟨hnamed, hnow, hlength'⟩ := h.named id' now name' path hentry
        obtain ⟨rfl, rfl⟩ := committedPath_injective hnow hlength' h.clock hlength
          (hnamed.symm.trans hpath)
        exact hunused name' hname id' path hentry
      refine ⟨fun id request reply => hafter.answered.committed, ?_, ?_⟩
      · rw [committedPaths_append, hpaths, List.nodup_append]
        refine ⟨hkept.distinct, List.nodup_singleton _, fun path hpath new hnew => ?_⟩
        obtain ⟨id', now, name', hentry⟩ := mem_committedPaths.mp hpath
        rw [List.mem_singleton.mp hnew]
        exact hother id' now name' path hentry
      · intro id' now name' path hentry
        rcases List.mem_append.mp hentry with hold | hnew
        · obtain ⟨file, hfile, hcreator⟩ := hkept.kept id' now name' path hold
          obtain ⟨file', hfile', hsame⟩ := kept_next h hnext (h.named id' now name' path hold).1
            hfile (by rw [hpaths, List.mem_singleton]; exact hother id' now name' path hold)
          exact ⟨file', hfile', hsame.trans hcreator⟩
        · rw [hentries, List.mem_singleton, Entry.committed.injEq] at hnew
          obtain ⟨rfl, rfl, rfl, rfl⟩ := hnew
          have hnew := committed_next h hnext hname hentries
          exact hnew

/-- Along every run that does not repeat a staging name, received files are kept
exactly when no two uploads are committed in one second under one sanitised name. -/
theorem receivedFiles_kept_iff {start : Process} {events : List Event}
    (hstart : Started start) (hfresh : Meets step FreshNames start events) :
    Always step ReceivedKept start events ↔ Meets step UnusedName start events := by
  refine always_iff_meets receives_step receivedKept_step_iff hfresh hstart.receives ?_
  refine ⟨fun id request reply hid => ?_, ?_, fun id now name path hentry => ?_⟩
  · simp [hstart.requests] at hid
  · simp [hstart.log, committedPaths]
  · simp [hstart.log] at hentry

def Entry.committedAs : Entry → Option (Time × CString)
  | .committed _ now name _ => some (now, name)
  | _ => none

instance (process : Process) (event : Event) : Decidable (UnusedName process event) :=
  decidable_of_iff (∀ name ∈ committingName process event, ∀ entry ∈ process.log,
      entry.committedAs ≠ some (process.world.clock, name))
    ⟨fun h name hname _ _ hentry => h name hname _ hentry rfl, fun h name hname entry hentry => by
      intro has
      cases entry <;> simp only [Entry.committedAs, Option.some.injEq, Prod.mk.injEq,
        reduceCtorEq] at has
      obtain ⟨rfl, rfl⟩ := has
      exact h _ hname _ _ hentry⟩

def uploading (id : Nat) (token : CString) (name : String) (data : Bytes) (seed : UInt8) :
    List Event :=
  [acceptPost "/upload" ⟨some token, none⟩, sendFields id [fileItem name data seed], sendEnd id 0]

theorem twoUploads_kept :
    let events := unlocking 0 7 ++ uploading 1 (sampleToken 7) "a.txt" [1] 9 ++
      uploading 2 (sampleToken 7) "b.txt" [2] 10
    (run step sampleStart events).isSome = true ∧ Always step ReceivedKept sampleStart events :=
  ⟨by decide +kernel,
    (receivedFiles_kept_iff sampleStart_started (by decide +kernel)).mpr (by decide +kernel)⟩

def sameSecond : List Event :=
  unlocking 0 7 ++ uploading 1 (sampleToken 7) "a.txt" [1] 9 ++
    uploading 2 (sampleToken 7) "a.txt" [2] 10

def sharedPath : CString := .lit "downloads/1000_a.txt"

theorem sameSecond_replaced : Meets step FreshNames sampleStart sameSecond ∧
    ∃ process, run step sampleStart sameSecond = some process ∧
      (∀ id ∈ [1, 2], ∃ request reply, process.requests id = some request ∧
        request.phase = .answered reply ∧ reply.status = 200 ∧
        Entry.committed id 1000 (.lit "a.txt") sharedPath ∈ process.log) ∧
      (process.world.fs sharedPath).map File.creator = some (some 2) ∧
      ¬ ReceivedKept process := by
  obtain ⟨process, hrun⟩ : ∃ process, run step sampleStart sameSecond = some process :=
    Option.isSome_iff_exists.mp (by decide +kernel)
  have hfacts : (run step sampleStart sameSecond).all (fun process =>
      (∀ id ∈ [1, 2], (process.requests id).any (fun request =>
        request.phase = .answered (queueJsonStatusMessage 200 (.lit "ok")
          (.lit "Arquivo recebido com sucesso"))) ∧
        Entry.committed id 1000 (.lit "a.txt") sharedPath ∈ process.log) ∧
      (process.world.fs sharedPath).map File.creator = some (some 2)) = true := by
    decide +kernel
  rw [hrun] at hfacts
  simp only [Option.all_some, decide_eq_true_eq, Option.any_eq_true] at hfacts
  obtain ⟨hanswered, hcreator⟩ := hfacts
  refine ⟨by decide +kernel, process, hrun, fun id hid => ?_, hcreator, fun hkept => ?_⟩
  · obtain ⟨⟨request, hrequest, hphase⟩, hlogged⟩ := hanswered id hid
    exact ⟨request, _, hrequest, hphase, rfl, hlogged⟩
  · obtain ⟨file, hfile, hfirst⟩ := hkept.kept 1 1000 _ _ (hanswered 1 (by simp)).2
    simp [hfile, hfirst] at hcreator

end LocalDrop
