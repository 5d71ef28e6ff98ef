import LocalDrop.Expiry
import LocalDrop.Failures
import LocalDrop.Replies

/-! The effects of requests, each with the credential that was presented for it: the files that
appear, the jobs that are created, the pairings that are started and the answers that give
something away. None of them is without its entry in the log. -/
namespace LocalDrop
open Lib

/-- The answer is a success of a route that discloses, or reads like one whatever the route. -/
inductive Request.Discloses (request : Request) : Prop where
  | granted (reply : Reply) (answered : request.phase = .answered reply)
      (ok : reply.status = 200) (route : request.route.answersAtOnce = true)
  | code (body code : Bytes) (expiresAt : Int)
      (answered : request.phase = .answered (.json 200 body))
      (carries : Carries body (okValue [((CString.lit "code").bytes, .str code),
        ((CString.lit "expires_at").bytes, .num expiresAt 0)]))
  | jobs (body : Bytes) (job : TransferJob) (rest : List TransferJob)
      (answered : request.phase = .answered (.json 200 body))
      (carries : Carries body (.arr (jobValue job :: rest.map jobValue)))
  | job (body : Bytes) (job : TransferJob) (answered : request.phase = .answered (.json 200 body))
      (carries : Carries body (jobValue job))

/-- A slot's job is not the one that was in it: its id is another, or it waits anew. -/
def TransferJob.Replaced (job job' : TransferJob) : Prop :=
  job'.inUse = true ∧ ¬ (job.inUse = true ∧ job'.jobId = job.jobId ∧
    (job'.status = .queued → job' = job))

def codeKeys : List Bytes :=
  [(CString.lit "status").bytes, (CString.lit "code").bytes, (CString.lit "expires_at").bytes]

def jobKeys : List Bytes := (jobValue default).keys

theorem keys_okValue (members : List (Bytes × Json)) :
    (okValue members).keys = (CString.lit "status").bytes :: members.map Prod.fst := rfl

theorem keys_peerValue (peer : PeerInfo) : (peerValue peer).keys =
    [(CString.lit "name").bytes, (CString.lit "ip").bytes, (CString.lit "port").bytes,
      (CString.lit "active").bytes, (CString.lit "paired").bytes,
      (CString.lit "last_seen").bytes] := rfl

theorem keys_jobValue (job : TransferJob) : (jobValue job).keys = jobKeys := rfl

theorem Answers.route_of_keys {route : Route} {body : Bytes} {value : Json}
    (h : Answers route (.json 200 body)) (hcarries : Carries body value)
    (hkeys : value.keys = codeKeys ∨ value.keys = jobKeys) : route.answersAtOnce = true := by
  have hread : ∀ {other : Json}, Carries body other →
      other.keys = codeKeys ∨ other.keys = jobKeys := fun hother =>
    Option.some.inj (hother.symm.trans hcarries) ▸ hkeys
  have hok : ∀ {message : CString} {rest : List (Bytes × Json)},
      Carries body (okValue (messageMember message :: rest)) → False := by
    intro message rest hother
    rcases hread hother with heq | heq <;> rw [keys_okValue] at heq
    · have hsecond := (List.cons.inj (List.cons.inj heq).2).1
      change (CString.lit "message").bytes = _ at hsecond
      exact absurd hsecond (by decide)
    · exact absurd (List.cons.inj heq).1 (by decide)
  cases h with
  | transfers | transfer | localCode => rfl
  | devices registry _ carries =>
      rcases hread carries with heq | heq
      · exact absurd (show ([] : List Bytes) = codeKeys from heq) (by decide)
      · exact absurd (show ([] : List Bytes) = jobKeys from heq) (by decide)
  | unlock _ _ _ carries | exchange _ _ _ _ carries | done _ _ _ _ carries
  | send _ _ _ carries => exact (hok carries).elim
  | refused _ _ _ _ known => exact absurd known (by decide)

theorem Answers.route_of_jobs {route : Route} {body : Bytes} {job : TransferJob}
    {rest : List TransferJob} (h : Answers route (.json 200 body))
    (hcarries : Carries body (.arr (jobValue job :: rest.map jobValue))) :
    route.answersAtOnce = true := by
  have hread : ∀ {other : Json}, Carries body other →
      other = .arr (jobValue job :: rest.map jobValue) := fun hother =>
    Option.some.inj (hother.symm.trans hcarries)
  cases h with
  | transfers | transfer | localCode => rfl
  | devices registry _ carries =>
      have hitems := Json.arr.inj (hread carries)
      cases hentries : registry.entries with
      | nil => simp [hentries] at hitems
      | cons peer entries =>
          rw [hentries, List.map_cons] at hitems
          have hkeys := congrArg Json.keys (List.cons.inj hitems).1
          rw [keys_peerValue, keys_jobValue] at hkeys
          exact absurd hkeys (by decide)
  | unlock _ _ _ carries | exchange _ _ _ _ carries | done _ _ _ _ carries
  | send _ _ _ carries => cases hread carries
  | refused _ _ _ _ known => exact absurd known (by decide)

theorem Request.Discloses.granted_of_conforms {request : Request} (h : request.Discloses)
    (hconforms : request.Conforms) : ∃ reply, request.phase = .answered reply ∧
      reply.status = 200 ∧ request.route.answersAtOnce = true := by
  cases h with
  | granted reply answered ok route => exact ⟨reply, answered, ok, route⟩
  | code body code expiresAt answered carries =>
      exact ⟨_, answered, rfl, (hconforms.answered _ answered).route_of_keys carries (.inl rfl)⟩
  | jobs body job rest answered carries =>
      exact ⟨_, answered, rfl, (hconforms.answered _ answered).route_of_jobs carries⟩
  | job body job answered carries =>
      exact ⟨_, answered, rfl, (hconforms.answered _ answered).route_of_keys carries (.inr rfl)⟩

section disclosing
variable {world : World} {id : Nat} {request : Request} {env : CallEnv} {reply : Reply}

theorem localCodeCall_disclosed (hunchecked : request.info.authChecked = false)
    (hanswered : (localCodeCall world id request env).2.1.phase = .answered reply)
    (hok : reply.status = 200) :
    Entry.codeDisclosed id ∈ (localCodeCall world id request env).2.2 := by
  have hgate := @authorizeUiRequest_records world.auth request.info request.headers
    (.lit "pair_code") 20 world.clock env.unwritten
  revert hanswered
  unfold localCodeCall
  dsimp only
  split <;> rename_i heq <;> rw [heq] at hgate
  · rintro ⟨⟩
    rw [ConnectionInfo.errorReply_status] at hok
    have hstatus := hgate.refused hunchecked rfl
    rw [hok] at hstatus
    exact absurd hstatus (by decide)
  · split
    · rintro ⟨⟩
      contradiction
    · exact fun _ => by simp

theorem transfersCall_disclosed {status : Option Bytes}
    (hunchecked : request.info.authChecked = false)
    (hanswered : (transfersCall world id request env status).2.1.phase = .answered reply)
    (hok : reply.status = 200) :
    Entry.statusDisclosed id ∈ (transfersCall world id request env status).2.2 := by
  have hgate := @authorizeUiRequest_records world.auth request.info request.headers
    (.lit "transfer_status") 30 world.clock env.unwritten
  revert hanswered
  unfold transfersCall
  dsimp only
  split <;> rename_i heq <;> rw [heq] at hgate
  · rintro ⟨⟩
    rw [ConnectionInfo.errorReply_status] at hok
    have hstatus := hgate.refused hunchecked rfl
    rw [hok] at hstatus
    exact absurd hstatus (by decide)
  · split
    · rintro ⟨⟩
      contradiction
    · exact fun _ => by simp

end disclosing

def DisclosuresLogged (process : Process) : Prop :=
  ∀ id request reply, process.requests id = some request → request.route.answersAtOnce = true →
    request.phase = .answered reply → reply.status = 200 →
    Entry.codeDisclosed id ∈ process.log ∨ Entry.statusDisclosed id ∈ process.log

theorem disclosuresLogged_step (process : Process) (event : Event) (after : Process)
    (h : Traced process ∧ DisclosuresLogged process) (hstep : step process event = some after) :
    Traced after ∧ DisclosuresLogged after := by
  refine ⟨traced_step process event after h.1 hstep, ?_⟩
  obtain ⟨settled, entries, hnext, rfl⟩ := step_eq_some hstep
  intro id request' reply hid hroute hanswered hok
  cases next_origin hnext hid with
  | kept was =>
      exact (h.2 id request' reply was hroute hanswered hok).imp (List.mem_append_left _)
        (List.mem_append_left _)
  | accepted url method clientIp headers fresh quiet new =>
      rw [new] at hanswered
      contradiction
  | called upload env request was phase call settled logged new =>
      subst new logged
      have hunchecked : request.route.answersAtOnce = true → request.info.authChecked = false :=
        fun hatOnce => (h.1.fresh id request was hatOnce phase).1
      have hdispatch := answerToConnection_dispatch process.world id request upload env
      rw [(answerToConnection_keeps upload).route] at hroute
      generalize answerToConnection process.world id request upload env = outcome
        at hdispatch hanswered ⊢
      cases hdispatch with
      | localCode =>
          exact .inl (List.mem_append_right _
            (localCodeCall_disclosed (hunchecked hroute) hanswered hok))
      | transfers | transfer =>
          exact .inr (List.mem_append_right _
            (transfersCall_disclosed (hunchecked hroute) hanswered hok))
      | chunk body route =>
          cases hcase : request.route <;> simp [hcase, Route.answersAtOnce] at route hroute
      | index route | devices route | notFound route | unlock route | exchange route
      | upload route | pair route | send route =>
          rw [route] at hroute
          contradiction
  | proceeded env request outcome was continues call settled logged new =>
      subst new
      rw [(proceed_keeps continues).route,
        proceed_not_atOnce (h.1.onRoutes id request was) continues] at hroute
      contradiction

theorem Started.disclosuresLogged {process : Process} (h : Started process) :
    Traced process ∧ DisclosuresLogged process := by
  refine ⟨h.traced, fun id request reply hid => ?_⟩
  simp [h.requests] at hid

section jobs
variable {job job' : TransferJob} {process after : Process} {event : Event}
  {entries : List Entry} {slot : Slot}

theorem TransferJob.Replaced.ne (h : job.Replaced job') : job' ≠ job := by
  rintro rfl
  exact h.2 ⟨h.1, rfl, fun _ => rfl⟩

theorem not_replaced_prune (jobs : Slot → TransferJob) (now : Int) (slot : Slot) :
    ¬ (jobs slot).Replaced ((pruneTerminalJobsLocked jobs now).1 slot) := by
  intro hreplaced
  rw [prune_jobs] at hreplaced
  split at hreplaced
  · exact absurd hreplaced.1 (by decide)
  · exact hreplaced.ne rfl

theorem replaced_enqueue {queue queue' : TransferQueue} {queueEvent : QueueOrder.QueueEvent}
    (hinv : QueueOrder.Inv queue) (hstep : QueueOrder.step queue queueEvent = some queue')
    (hreplaced : (queue.jobs slot).Replaced (queue'.jobs slot)) :
    ∃ request now random, queueEvent = .enqueue request now random := by
  cases QueueOrder.jobChange_step slot hinv hstep with
  | kept job same => exact absurd job hreplaced.ne
  | worked active status inUse jobId filepath same =>
      have huse : (queue.jobs slot).inUse = true := by
        rw [hinv.inUse]
        rcases active with hstatus | hstatus <;> simp [hstatus]
      exact absurd ⟨huse, jobId, fun hqueued => by simp [status] at hqueued⟩ hreplaced.2
  | ended success now done worker job same =>
      refine absurd ⟨hinv.busy_inUse (.inr worker), ?_, fun hqueued => ?_⟩ hreplaced.2
      · rw [job]
        split <;> rfl
      · rw [job] at hqueued
        split at hqueued <;> contradiction
  | pruned request now random enqueue due job => exact ⟨request, now, random, enqueue⟩
  | created request token now random enqueue free answer job new =>
      exact ⟨request, now, random, enqueue⟩

theorem replaced_logged (h : Tracked process) (honroutes : OnRoutes process)
    (hnext : next process event = some (after, entries))
    (hreplaced : (process.world.queue.jobs slot).Replaced (after.world.queue.jobs slot)) :
    ∃ id request, event.request = some id ∧ process.requests id = some request ∧
      request.route = .send ∧
      Entry.jobCreated id (after.world.queue.jobs slot).filepath.str ∈ entries := by
  have hsame : after.world.queue.jobs ≠ process.world.queue.jobs := fun hjobs =>
    hreplaced.ne (congrFun hjobs slot)
  have hworker : ∀ queueEvent, (∀ request now random,
      queueEvent ≠ QueueOrder.QueueEvent.enqueue request now random) →
      QueueOrder.step process.world.queue queueEvent ≠ some after.world.queue := by
    intro queueEvent hother hstep
    obtain ⟨request, now, random, henqueue⟩ := replaced_enqueue h.queue.inv hstep hreplaced
    exact hother request now random henqueue
  cases next_steps hnext with
  | call id upload env request was phase =>
      refine absurd (congrArg TransferQueue.jobs ?_) hsame
      exact (@answerToConnection_effect id process.world _ env
        (h.wellformed.requests id request was) phase upload).2.2
  | proceed id env request outcome was continues =>
      cases hhanding : request.handingOver with
      | false =>
          exact absurd (congrArg TransferQueue.jobs (proceed_quiet hhanding continues).queue) hsame
      | true =>
          have hroute := (honroutes id request was).send hhanding
          cases proceed_proceeds continues with
          | sendCleanup => exact absurd rfl hsame
          | sendRefused phase refused =>
              rcases transferEnqueue_refused refused with ⟨rfl, rfl⟩ | ⟨rfl, rfl⟩
              · exact absurd rfl hsame
              · exact absurd hreplaced (not_replaced_prune _ _ _)
          | @sendEnqueued port pairToken jobId queue deleted phase enqueued =>
              obtain ⟨created, token, -, -, rfl, -, -⟩ := transferEnqueue_accepted enqueued
              by_cases hslot : slot = created
              · subst hslot
                refine ⟨id, request, rfl, was, hroute, List.mem_append_right _ ?_⟩
                simp [Process.settle, appendPending, newTransferJob]
              · refine absurd hreplaced ?_
                simp only [Process.settle, appendPending, Function.update_of_ne hslot]
                exact not_replaced_prune _ _ _
          | exchangeAdd phase | exchangeMark phase | pairRefused phase | pairAccepted phase
          | pairStore phase | pairMark phase => simp [Request.handingOver, phase] at hhanding
  | completed id request was releasable =>
      refine absurd ?_ hsame
      change (requestCompleted process.world id request).1.queue.jobs = _
      unfold requestCompleted
      split <;> rfl
  | workerTake queue takes => exact absurd takes (hworker (.take process.world.clock) (by simp))
  | workerCall queue calls => exact absurd calls (hworker .call (by simp))
  | workerProgress bytesSent totalBytes queue advances =>
      exact absurd advances (hworker (.progress bytesSent totalBytes process.world.clock) (by simp))
  | workerDone success result ends =>
      exact absurd (by simp [QueueOrder.step, ends])
        (hworker (.done success process.world.clock) (by simp))
  | workerExit queue exits => exact absurd exits (hworker .exit (by simp))
  | tick | accept | resolved | removed | serverStop | queueShutdown => exact absurd rfl hsame

end jobs

/-- A path gets a file, or another's file, only in a step of a request that may store it. -/
theorem appears_allowed {process after : Process} {event : Event} {entries : List Entry}
    (h : Tracked process) (hjustified : ∀ entry ∈ entries, Allowed (process.log ++ entries) entry)
    (hnext : next process event = some (after, entries)) {path : CString}
    (hother : (after.world.fs path).map File.creator ≠ (process.world.fs path).map File.creator)
    (hpresent : after.world.fs path ≠ none) :
    ∃ id request, event.request = some id ∧ process.requests id = some request ∧
      (request.route = .upload → UploadAuthorized (process.log ++ entries) id) ∧
      (request.route = .send → UiAuthorized (process.log ++ entries) id .send) ∧
      ((∃ route, Entry.staged id route path ∈ entries) ∨
        ∃ now name, Entry.committed id now name path ∈ entries) := by
  cases next_files h.wellformed h.entries hnext path with
  | same creator => exact absurd creator hother
  | gone entry absent => exact absurd absent hpresent
  | staged id route logged creator =>
      obtain ⟨hevent, request, hid, rfl⟩ := staged_route h.wellformed hnext logged
      have hallowed := hjustified _ logged
      refine ⟨id, request, hevent, hid, fun hupload => ?_, fun hsend => ?_, .inl ⟨_, logged⟩⟩
      · rw [hupload] at hallowed
        exact hallowed
      · rw [hsend] at hallowed
        exact hallowed
  | committed id name source logged target held was creator =>
      obtain ⟨hevent, request, hid, hupload⟩ := committed_route h.wellformed hnext logged
      refine ⟨id, request, hevent, hid, fun _ => hjustified _ logged, fun hsend => ?_,
        .inr ⟨_, name, logged⟩⟩
      rw [hupload] at hsend
      contradiction

/-- A step of the server is as the log has it, and leaves no effect out. -/
structure AuthorizedStep (adminCode : CString) (process : Process) (event : Event)
    (after : Process) (entries : List Entry) : Prop where
  genuine : ∀ entry ∈ entries, Genuine adminCode process event entry
  files : ∀ path,
    (after.world.fs path).map File.creator ≠ (process.world.fs path).map File.creator →
    after.world.fs path ≠ none →
    ∃ id request, event.request = some id ∧ process.requests id = some request ∧
      (request.route = .upload → UploadAuthorized (process.log ++ entries) id) ∧
      (request.route = .send → UiAuthorized (process.log ++ entries) id .send) ∧
      ((∃ route, Entry.staged id route path ∈ entries) ∨
        ∃ now name, Entry.committed id now name path ∈ entries)
  jobs : ∀ slot,
    (process.world.queue.jobs slot).Replaced (after.world.queue.jobs slot) →
    ∃ id request, event.request = some id ∧ process.requests id = some request ∧
      request.route = .send ∧ UiAuthorized (process.log ++ entries) id .send ∧
      Entry.jobCreated id (after.world.queue.jobs slot).filepath.str ∈ entries

/-- What is there of a request has been allowed. -/
structure AuthorizedState (process : Process) : Prop where
  justified : Justified Allowed process.log
  pairings : ∀ id request port peer, process.requests id = some request →
    request.phase = .pairRemote port peer → UiAuthorized process.log id .pair
  disclosures : ∀ id request, process.requests id = some request → request.Discloses →
    UiCalled process.log id

/-- Authorization soundness over every run: what is staged, committed, enqueued, paired or
disclosed was allowed by a credential presented at the request's first chunk (or its only call),
no file, job, started pairing or telling answer lacks its entry, and every step reports truly
who called, which credentials came into being and for which secret. -/
theorem authorization_sound {start process : Process} {events : List Event}
    (hstart : Started start) (hrun : run step start events = some process) :
    AuthorizedState process ∧
    ∀ event after entries, next process event = some (after, entries) →
      AuthorizedStep start.world.auth.adminCode.str process event after entries := by
  have htraced : Traced process := run_invariant traced_step hstart.traced hrun
  have htracked : Tracked process := run_invariant tracked_step hstart.tracked hrun
  have hlogged := (run_invariant disclosuresLogged_step hstart.disclosuresLogged hrun).2
  have hconforming := run_invariant conforming_step hstart.conforming hrun
  refine ⟨⟨htraced.justified, fun id request port peer hid hphase => ?_,
    fun id request hid hdiscloses => ?_⟩, fun event after entries hnext => ?_⟩
  · have honroute := htraced.onRoutes id request hid
    unfold Request.OnRoute at honroute
    rw [hphase] at honroute
    have hearned := htraced.gated id request hid (by rw [honroute.1]; rfl)
    have hadmitted := hearned.earned (hearned.authorized (.inr (.inr (by
      simp [Request.releasable, hphase]))))
    rw [honroute.1] at hadmitted
    exact hadmitted
  · obtain ⟨reply, hanswered, hok, hroute⟩ :=
      hdiscloses.granted_of_conforms (hconforming.requests id request hid)
    rcases hlogged id request reply hid hroute hanswered hok with hcode | hstatus
    · exact htraced.allowed hcode
    · exact htraced.allowed hstatus
  · have hstep : step process event = some { after with log := process.log ++ entries } := by
      simp [step, hnext]
    have hafter := traced_step process event _ htraced hstep
    have hallowed : ∀ entry ∈ entries, Allowed (process.log ++ entries) entry :=
      fun entry hentry => hafter.allowed (List.mem_append_right _ hentry)
    refine ⟨fun entry hentry => ?_, fun path hother hpresent => ?_, fun slot hreplaced => ?_⟩
    · rw [← adminCode_run hrun]
      exact next_genuine htraced.onRoutes hnext hentry
    · exact appears_allowed htracked hallowed hnext hother hpresent
    · obtain ⟨id, request, hevent, hid, hroute, hcreated⟩ :=
        replaced_logged htracked htraced.onRoutes hnext hreplaced
      exact ⟨id, request, hevent, hid, hroute, hallowed _ hcreated, hcreated⟩

theorem handOverRun_authorized : ∃ process, run step sampleStart handOverRun = some process ∧
    (∃ path, Entry.jobCreated 2 path ∈ process.log) ∧ AuthorizedState process := by
  obtain ⟨process, hrun⟩ : ∃ process, run step sampleStart handOverRun = some process :=
    Option.isSome_iff_exists.mp (by decide +kernel)
  have hcreated : (run step sampleStart handOverRun).all (fun process =>
      Entry.jobCreated 2 (.lit "staging/1000_0909090909090909_a.txt") ∈ process.log) = true := by
    decide +kernel
  rw [hrun] at hcreated
  simp only [Option.all_some, decide_eq_true_eq] at hcreated
  exact ⟨process, hrun, ⟨_, hcreated⟩, (authorization_sound sampleStart_started hrun).1⟩

end LocalDrop
