import LocalDrop.Finished
import LocalDrop.StoredFiles

/-! The file of a job. From the moment a request hands it to the queue until the worker is done
with it, it holds what that request brought, unless it is gone. -/
namespace LocalDrop
open Lib

/-- Request `id` handed `path` to the queue, and these calls are all that wrote to it. -/
structure Handed (events : List Event) (process : Process) (id : Nat) (path : CString)
    (items : List PostItem) : Prop where
  created : Entry.jobCreated id path ∈ process.log
  closed : Tracks id (fun request => request.phase ≠ .receiving) process
  items : storedItems (receivedItems id events) = items

theorem staysOver (id : Nat) : KeptByCalls id fun request => request.phase ≠ .receiving where
  call _ _ _ _ hover hphase := absurd hphase hover
  proceed _ _ _ _ _ continues := proceed_phase continues

section handed
variable {events : List Event} {process after : Process} {event : Event} {id : Nat}
  {path : CString} {items : List PostItem}

theorem Handed.step (h : Handed events process id path items)
    (hstep : step process event = some after) : Handed (events ++ [event]) after id path items where
  created := by
    obtain ⟨settled, entries, hnext, rfl⟩ := step_eq_some hstep
    exact List.mem_append_left _ h.created
  closed := tracks_step (staysOver id) _ _ _ h.closed hstep
  items := by
    have hquiet : event.items id = [] := by
      cases event with
      | call target upload env =>
          obtain ⟨settled, entries, hnext, rfl⟩ := step_eq_some hstep
          cases next_steps hnext with
          | call _ _ _ request was phase =>
              apply items_of_other
              rintro ⟨⟩
              exact h.closed.has request was phase
      | tick | accept | proceed | completed | workerTake | workerCall | workerProgress | workerDone
      | workerExit | resolved | removed | serverStop | queueShutdown => rfl
    rw [receivedItems_concat, hquiet, List.append_nil]
    exact h.items

end handed

/-- Request `id` brought the file at `path` for `/api/send` and was told 200 for it. -/
def Brings (start : Process) (events : List Event) (id : Nat) (path : CString) : Prop :=
  ∃ told rest request reply, Passes step start events told rest ∧
    told.requests id = some request ∧ request.route = .send ∧ request.phase = .answered reply ∧
    reply.status = 200 ∧ request.info.filename.str = path

theorem Brings.concat {start : Process} {events : List Event} {event : Event} {id : Nat}
    {path : CString} (h : Brings start events id path) :
    Brings start (events ++ [event]) id path := by
  obtain ⟨told, rest, request, reply, ⟨earlier, rfl, hearlier⟩, hfacts⟩ := h
  exact ⟨told, rest ++ [event], request, reply, ⟨earlier, by simp, hearlier⟩, hfacts⟩

/-- What requests hold, and what they were told 200 for, they have staged. -/
structure SendsStaged (process : Process) : Prop where
  wellformed : Wellformed process
  onRoutes : OnRoutes process
  holds : ∀ id request path, process.requests id = some request → request.holds = some path →
    ∃ route, Entry.staged id route path ∈ process.log
  told : ∀ id request reply, process.requests id = some request → request.route = .send →
    request.phase = .answered reply → reply.status = 200 →
    ∃ route, Entry.staged id route request.info.filename.str ∈ process.log

theorem proceed_holds {world : World} {id : Nat} {request : Request} {env : ProceedEnv}
    {outcome : Outcome} {path : CString} (h : proceed world id request env = some outcome)
    (hholds : outcome.2.1.holds = some path) (hsound : request.Sound) :
    request.holds = some path := by
  cases hhanding : request.handingOver with
  | false =>
      have hquiet := proceed_quiet hhanding h
      unfold Request.holds at hholds ⊢
      rw [hquiet.stage, hquiet.saved, hquiet.handing] at hholds
      rw [hhanding]
      exact hholds
  | true =>
      obtain ⟨-, -, hsaved⟩ := hsound.handing hhanding
      cases proceed_proceeds h with
      | sendCleanup =>
          unfold Request.holds at hholds ⊢
          rw [hhanding]
          exact hholds
      | sendRefused =>
          have hempty : (default : UploadStage).stagingPath.str = CString.empty :=
            Buffer.zero_str 512
          simp [Request.holds, Request.answer, uploadStageAbort, hempty] at hholds
      | sendEnqueued =>
          simp [Request.holds, Request.answer, Request.handingOver, hsaved] at hholds
      | exchangeAdd phase | exchangeMark phase | pairRefused phase | pairAccepted phase
      | pairStore phase | pairMark phase => simp [Request.handingOver, phase] at hhanding

theorem sendsStaged_step (process : Process) (event : Event) (after : Process)
    (h : SendsStaged process) (hstep : step process event = some after) : SendsStaged after := by
  have hwf := wellformed_step h.wellformed hstep
  obtain ⟨settled, entries, hnext, rfl⟩ := step_eq_some hstep
  have honroutes := onRoutes_next h.onRoutes hnext
  have hlog : ∀ {id : Nat} {path : CString},
      (∃ route, Entry.staged id route path ∈ process.log) →
      ∃ route, Entry.staged id route path ∈ process.log ++ entries := fun hstaged =>
    hstaged.imp fun _ => List.mem_append_left _
  refine ⟨hwf, honroutes, fun id request' path hid hholds => ?_,
    fun id request' reply hid hroute hphase hok => ?_⟩
  · cases next_origin hnext hid with
    | kept was => exact hlog (h.holds id request' path was hholds)
    | accepted url method clientIp headers fresh quiet new =>
        have hempty : (default : UploadStage).stagingPath.str = CString.empty :=
          Buffer.zero_str 512
        rw [new, Request.holds, if_pos (.inl hempty)] at hholds
        contradiction
    | called upload env request was phase call settled logged new =>
        subst new logged
        cases (@answerToConnection_effect id process.world request env
          (h.wellformed.requests id request was) phase upload).1 with
        | quiet files holds quiet => exact hlog (h.holds id request path was (holds ▸ hholds))
        | opened opened free holds entry creates logged =>
            obtain ⟨others, heq, -⟩ := logged
            rw [holds, Option.some.injEq] at hholds
            exact ⟨request.route, by simp [heq, hholds]⟩
        | committed fs moved source held holds files was' renamed logged =>
            rw [holds] at hholds
            contradiction
    | proceeded env request outcome was continues call settled logged new =>
        subst new
        exact hlog (h.holds id request path was
          (proceed_holds continues hholds (h.wellformed.requests id request was)))
  · cases next_origin hnext hid with
    | kept was => exact hlog (h.told id request' reply was hroute hphase hok)
    | accepted url method clientIp headers fresh quiet new =>
        rw [new] at hphase
        contradiction
    | called upload env request was phase call settled logged new =>
        subst new
        rw [(answerToConnection_keeps upload).route] at hroute
        cases upload with
        | some body =>
            rw [answerToConnection_chunk (by rw [hroute]; rfl), chunkStep_phase, phase] at hphase
            contradiction
        | none =>
            rw [answerToConnection_send hroute] at hphase
            exact absurd hok (sendFinal_not_ok hphase)
    | proceeded env request outcome was continues call settled logged new =>
        subst new
        rw [(proceed_keeps continues).route] at hroute
        obtain ⟨hhanding, hinfo, -⟩ := proceed_ok continues (by rw [hroute]; rfl)
          (h.onRoutes id request was) hphase hok
        have hsound := h.wellformed.requests id request was
        rw [hinfo, (hsound.handing hhanding).1]
        exact hlog (h.holds id request _ was (hsound.holds hhanding))

theorem Started.sendsStaged {process : Process} (h : Started process) : SendsStaged process where
  wellformed := h.wellformed
  onRoutes := h.onRoutes
  holds id request path hid := by simp [h.requests] at hid
  told id request reply hid := by simp [h.requests] at hid

theorem stagedPaths_step (process : Process) (event : Event) (after : Process)
    (h : Wellformed process ∧ (stagedPaths process.log).Nodup) (hfresh : FreshNames process event)
    (hstep : step process event = some after) :
    Wellformed after ∧ (stagedPaths after.log).Nodup := by
  refine ⟨wellformed_step h.1 hstep, ?_⟩
  obtain ⟨settled, entries, hnext, rfl⟩ := step_eq_some hstep
  rw [stagedPaths_append, List.nodup_append]
  refine ⟨h.2, ?_, fun path hpath other hother heq => ?_⟩
  · cases next_moves h.1 hnext with
    | creates id path entry move names => rw [names]; exact List.nodup_singleton path
    | drops move names | handsOver middle id slot path drop move names
    | expires move cleanup names => rw [names]; exact List.nodup_nil
  · exact hfresh settled entries hnext other hother (heq ▸ hpath)

theorem staged_unique {log : List Entry} {id other : Nat} {route route' : Route} {path : CString}
    (hnodup : (stagedPaths log).Nodup) (h : Entry.staged id route path ∈ log)
    (h' : Entry.staged other route' path ∈ log) : id = other := by
  obtain ⟨pre, post, rfl⟩ := List.append_of_mem h
  have hpaths : stagedPaths (pre ++ Entry.staged id route path :: post) =
      stagedPaths pre ++ path :: stagedPaths post := stagedPaths_append ..
  rw [hpaths, List.nodup_middle, List.nodup_cons, List.mem_append, not_or] at hnodup
  rw [List.mem_append, List.mem_cons] at h'
  rcases h' with hpre | hsame | hpost
  · exact absurd (mem_stagedPaths hpre) hnodup.1.1
  · exact (Entry.staged.inj hsame).1.symm
  · exact absurd (mem_stagedPaths hpost) hnodup.1.2

theorem Brings.unique {start process : Process} {events : List Event} {id other : Nat}
    {path : CString} (hstart : Started start) (hfresh : Meets step FreshNames start events)
    (hrun : run step start events = some process) (h : Brings start events id path)
    (h' : Brings start events other path) : id = other := by
  have hnodup := (hfresh.invariant stagedPaths_step
    ⟨hstart.wellformed, by simp [hstart.log, stagedPaths]⟩ hrun).2
  have hstaged : ∀ {id : Nat}, Brings start events id path →
      ∃ route, Entry.staged id route path ∈ process.log := by
    rintro id ⟨told, rest, request, reply, hpasses, hid, hroute, hphase, hok, rfl⟩
    obtain ⟨route, hlogged⟩ := (hpasses.invariant sendsStaged_step hstart.sendsStaged).told id
      request reply hid hroute hphase hok
    exact ⟨route, (log_run (hpasses.run hrun)).subset hlogged⟩
  obtain ⟨route, hlogged⟩ := hstaged h
  obtain ⟨route', hlogged'⟩ := hstaged h'
  exact staged_unique hnodup hlogged hlogged'

/-- A job holds what it held, or a request has just handed it over. -/
inductive JobHolds (process : Process) (event : Event) (after : Process) (entries : List Entry)
    (slot : Slot) (path : CString) : Prop
  | held (was : (process.world.queue.jobs slot).holds = some path)
  | handed (id : Nat) (env : ProceedEnv) (request : Request) (reply : Reply)
      (was : process.requests id = some request) (handing : request.handingOver = true)
      (call : event = .proceed id env) (isAt : path = request.info.filename.str)
      (answered : after.requests id = some (request.answer reply)) (ok : reply.status = 200)
      (logged : Entry.jobCreated id path ∈ entries)

theorem prune_held {jobs : Slot → TransferJob} {now : Int} {slot : Slot} {path : CString}
    (h : ((pruneTerminalJobsLocked jobs now).1 slot).holds = some path) :
    (jobs slot).holds = some path := by
  rw [prune_holds] at h
  split at h
  · contradiction
  · exact h

theorem jobHolds_next {process after : Process} {event : Event} {entries : List Entry}
    {slot : Slot} {path : CString} (hnext : next process event = some (after, entries))
    (hwellformed : Wellformed process)
    (h : (after.world.queue.jobs slot).holds = some path) :
    JobHolds process event after entries slot path := by
  have hsame : after.world.queue.jobs = process.world.queue.jobs →
      JobHolds process event after entries slot path := fun hjobs => .held (hjobs ▸ h)
  cases next_steps hnext with
  | call id upload env request was phase =>
      refine hsame (congrArg TransferQueue.jobs ?_)
      exact (@answerToConnection_effect id process.world _ env (hwellformed.requests id request was)
        phase upload).2.2
  | proceed id env request outcome was continues =>
      cases hhanding : request.handingOver with
      | false => exact hsame (congrArg TransferQueue.jobs (proceed_quiet hhanding continues).queue)
      | true =>
          cases proceed_proceeds continues with
          | sendCleanup => exact hsame rfl
          | sendRefused phase refused =>
              rcases transferEnqueue_refused refused with ⟨rfl, rfl⟩ | ⟨rfl, rfl⟩
              · exact hsame rfl
              · exact .held (prune_held h)
          | @sendEnqueued port pairToken jobId queue deleted phase enqueued =>
              obtain ⟨created, token, -, -, rfl, -, -⟩ := transferEnqueue_accepted enqueued
              change (Function.update
                (pruneTerminalJobsLocked process.world.queue.jobs process.world.clock).1 created
                (newTransferJob ⟨request.info.filename.str, request.info.targetIp.str, port,
                  pairToken⟩ token process.world.clock) slot).holds = some path at h
              by_cases hslot : slot = created
              · rw [hslot, Function.update_self, TransferJob.holds_eq_some] at h
                have hpath : path = request.info.filename.str := by
                  rw [← h.2.1]
                  simp [newTransferJob]
                exact .handed id env request _ was hhanding rfl hpath (Function.update_self ..) rfl
                  (hpath ▸ List.mem_append_right _ (List.mem_singleton_self _))
              · rw [Function.update_of_ne hslot] at h
                exact .held (prune_held h)
          | exchangeAdd phase | exchangeMark phase | pairRefused phase | pairAccepted phase
          | pairStore phase | pairMark phase => simp [Request.handingOver, phase] at hhanding
  | completed id request was releasable =>
      refine hsame ?_
      change (requestCompleted process.world id request).1.queue.jobs = _
      unfold requestCompleted
      split <;> rfl
  | workerTake queue takes => exact .held ((workerTake_holds takes slot).symm.trans h)
  | workerCall queue calls => exact hsame (workerCall_jobs calls)
  | workerProgress bytesSent totalBytes queue advances =>
      exact .held ((transferJobProgress_holds advances slot).symm.trans h)
  | workerDone success result ends =>
      have hdrops := workerDone_drops ends process.world.fs process.requests
      have hwas : (ledgerOf process.world.fs process.requests process.world.queue.jobs).held
          (.job slot) = some path := hdrops.held_of_held h
      exact .held hwas
  | workerExit queue exits => exact hsame (workerExit_jobs exits)
  | tick | accept | resolved | removed | serverStop | queueShutdown => exact hsame rfl

theorem Request.unanswered_of_handing (request : Request) (h : request.handingOver = true)
    (reply : Reply) : request.phase ≠ .answered reply := by
  intro hphase
  simp [Request.handingOver, hphase] at h

structure JobsFilled (start : Process) (events : List Event) (process : Process) : Prop where
  reached : run step start events = some process
  collects : Collects events process
  filled : ∀ slot path, (process.world.queue.jobs slot).holds = some path →
    ∃ id first rest, Handed events process id path (first :: rest) ∧
      Brings start events id path ∧ NamedAfter path (sanitizeFilename first.filename).str ∧
      ∀ file, process.world.fs path = some file →
        file.content = (first :: rest).flatMap PostItem.data

theorem jobsFilled_step {start : Process} (past : List Event) (process : Process) (event : Event)
    (after : Process) (h : JobsFilled start past process) (hfresh : FreshNames process event)
    (hstep : step process event = some after) : JobsFilled start (past ++ [event]) after where
  reached := run_concat h.reached hstep
  collects := collects_step past process event after h.collects hfresh hstep
  filled := by
    have howned := owned_step process event after h.collects.owned hfresh hstep
    have hsettled := step_eq_some hstep
    obtain ⟨settled, entries, hnext, rfl⟩ := hsettled
    intro slot path hholds
    cases jobHolds_next hnext h.collects.owned.wellformed hholds with
    | held was =>
        obtain ⟨id, first, rest, hhanded, hbrings, hnamed, hcontent⟩ := h.filled slot path was
        refine ⟨id, first, rest, hhanded.step hstep, hbrings.concat, hnamed, fun file hfile => ?_⟩
        have hbefore : process.ledger.held (.job slot) = some path := was
        rcases owner_frame h.collects.owned h.collects.held hnext howned.ledger.exclusive (by simp)
          hbefore hholds with hsame | hgone
        · exact hcontent file (hsame ▸ hfile)
        · rw [hgone] at hfile
          contradiction
    | handed id env request reply was handing call isAt answered ok logged =>
        have hanswersOk : AnswersOk process event { settled with log := process.log ++ entries } id
            (request.answer reply) := {
          step := hstep
          pending := ⟨request, was, request.unanswered_of_handing handing⟩
          request := answered
          route := by
            rw [show (request.answer reply).route = .send from
              (h.collects.onRoutes id request was).send handing]
            rfl
          ok := ⟨reply, rfl, ok⟩ }
        obtain ⟨-, -, first, rest, hstored, hnamed, hcontent⟩ :=
          stored_file h.collects hanswersOk
        have hpath : (request.answer reply).info.filename.str = path := isAt.symm
        rw [hpath] at hnamed hcontent
        rw [hstored] at hcontent
        have hroute : (request.answer reply).route = .send :=
          (h.collects.onRoutes id request was).send handing
        have htold : Brings start (past ++ [event]) id path :=
          ⟨_, [], _, reply, ⟨past ++ [event], by simp, run_concat h.reached hstep⟩, answered,
            hroute, rfl, ok, hpath⟩
        refine ⟨id, first, rest, ⟨List.mem_append_right _ logged, ?_, ?_⟩, htold, hnamed, hcontent⟩
        · exact howned.wellformed.tracks answered (by simp [Request.answer])
        · subst call
          rw [receivedItems_concat]
          change storedItems (receivedItems id past ++ []) = first :: rest
          rw [List.append_nil, hstored]

theorem Started.jobsFilled {process : Process} (h : Started process) :
    JobsFilled process [] process where
  reached := rfl
  collects := h.collects
  filled slot path hholds := by
    rw [h.queue] at hholds
    contradiction

theorem Finishing.sending_holds {process : Process} (h : Finishing process) {slot : Slot}
    (hworker : process.world.queue.worker = .sending slot) :
    (process.world.queue.jobs slot).holds =
      some (process.world.queue.jobs slot).request.filepath := by
  have hinv := h.tracked.queue.inv
  have huse := hinv.busy_inUse (.inr hworker)
  obtain ⟨request, -, hentry, hfile⟩ := h.jobs slot huse
  have hsame := hfile (by simp [(hinv.progress slot).mpr (.inr hworker)])
  rw [TransferJob.holds_eq_some]
  refine ⟨huse, rfl, ?_⟩
  rw [← hsame] at hentry
  exact isStagingEntry_ne_empty hentry

/-- In every run that does not repeat a staging name, a job that waits or is being sent refers to
a file that exactly one request brought, which was told 200 for it; and as long as that file is
there, it has exactly the bytes that the request brought for it, in order, under the first name
it gave. -/
theorem jobFile_content {start process : Process} {events : List Event} (hstart : Started start)
    (hfresh : Meets step FreshNames start events) (hrun : run step start events = some process)
    {slot : Slot} {path : CString}
    (hholds : (process.world.queue.jobs slot).holds = some path) :
    ∃ id first rest, Brings start events id path ∧
      (∀ other, Brings start events other path → other = id) ∧
      Entry.jobCreated id path ∈ process.log ∧
      storedItems (receivedItems id events) = first :: rest ∧
      NamedAfter path (sanitizeFilename first.filename).str ∧
      ∀ file, process.world.fs path = some file →
        file.content = (first :: rest).flatMap PostItem.data := by
  have hfilled := hfresh.history jobsFilled_step hstart.jobsFilled hrun
  obtain ⟨id, first, rest, hhanded, hbrings, hnamed, hcontent⟩ := hfilled.filled slot path hholds
  exact ⟨id, first, rest, hbrings, fun other hother => hother.unique hstart hfresh hrun hbrings,
    hhanded.created, hhanded.items, hnamed, hcontent⟩

theorem handOverRun_content : ∃ process, run step sampleStart handOverRun = some process ∧
    (∃ file, process.world.fs sentPath = some file) ∧
    ∃ id first rest, Brings sampleStart handOverRun id sentPath ∧
      (∀ other, Brings sampleStart handOverRun other sentPath → other = id) ∧
      Entry.jobCreated id sentPath ∈ process.log ∧
      storedItems (receivedItems id handOverRun) = first :: rest ∧
      NamedAfter sentPath (sanitizeFilename first.filename).str ∧
      ∀ file, process.world.fs sentPath = some file →
        file.content = (first :: rest).flatMap PostItem.data := by
  obtain ⟨process, hrun⟩ : ∃ process, run step sampleStart handOverRun = some process :=
    Option.isSome_iff_exists.mp (by decide +kernel)
  have hfacts : (run step sampleStart handOverRun).all (fun process =>
      (process.world.queue.jobs 0).holds = some sentPath ∧
        (process.world.fs sentPath).isSome) = true := by decide +kernel
  rw [hrun] at hfacts
  simp only [Option.all_some, decide_eq_true_eq] at hfacts
  exact ⟨process, hrun, Option.isSome_iff_exists.mp hfacts.2,
    jobFile_content sampleStart_started (by decide +kernel) hrun hfacts.1⟩

end LocalDrop
