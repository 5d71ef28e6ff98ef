import LocalDrop.Parts
import LocalDrop.Failures

/-! What a staging file holds. Along a run in which staging names do not repeat, nobody writes
to a request's staging file but the request itself, so the file holds what the calls for its
body brought. -/
namespace LocalDrop
open Lib

section frames
variable {world : World} {id : Nat} {request : Request} {env : CallEnv} {path : CString}

theorem chunkStep_frame (hopen : request.info.Receiving ∧ request.info.fileSaved = false)
    (body : Body) (hafter : (chunkStep world id request body env).2.1.holds ≠ some path) :
    (chunkStep world id request body env).1.fs path = world.fs path := by
  have hgate := @chunkGate_gated world.auth request.info request.headers world.clock env.unwritten
    request.route
  unfold chunkStep at hafter ⊢
  dsimp only at hafter ⊢
  split at hafter
  · rfl
  · rename_i auth info heq
    rw [heq] at hgate
    have hparsed := @postProcess_parsed id world.fs info world.clock (hgate.receiving hopen.1)
      request.route body.items body.processed
    have hsaved : (postProcess world.fs id info request.route world.clock body.items
        body.processed).2.fileSaved = false := by
      rw [hparsed.fileSaved]
      obtain ⟨status, message, checked, authorized, rfl⟩ := hgate
      exact hopen.2
    apply hparsed.frame
    rintro hprogress rfl
    apply hafter
    rw [Request.holds_of_receiving hparsed.receiving hsaved]
    exact if_pos hprogress

theorem ne_stagingPath (hopen : request.info.Receiving ∧ request.info.fileSaved = false)
    (hprogress : request.info.uploadInProgress = true) (hbefore : request.holds ≠ some path) :
    path ≠ request.info.uploadStage.stagingPath.str := by
  rintro rfl
  apply hbefore
  rw [Request.holds_of_receiving hopen.1 hopen.2]
  exact if_pos hprogress

theorem uploadFinal_frame (hopen : request.info.Receiving ∧ request.info.fileSaved = false)
    (hentry : isStagingEntry path = true) (hbefore : request.holds ≠ some path) :
    (uploadFinal world id request env).1.fs path = world.fs path := by
  unfold uploadFinal
  dsimp only
  split
  · rfl
  · split
    · rfl
    · rename_i hprogress
      have hpath := ne_stagingPath hopen (by simpa using hprogress) hbefore
      rcases uploadStageCommit_cases world.fs request.info.uploadStage world.clock env.sealing with
        ⟨fs', stage, error, -, htouch, heq⟩ | ⟨fs', stage, file, -, htouch, -, heq⟩ <;> rw [heq]
      · exact htouch.others path hpath
      · change fs'.rename _ _ path = _
        rw [rename_apply, if_neg, if_neg hpath, htouch.others path hpath]
        rintro rfl
        rw [isStagingEntry_committedPath] at hentry
        contradiction

theorem sendFinal_frame (hopen : request.info.Receiving ∧ request.info.fileSaved = false)
    (hbefore : request.holds ≠ some path) :
    (sendFinal world request env).1.fs path = world.fs path := by
  unfold sendFinal
  dsimp only
  split
  · rfl
  · split
    · rfl
    · rename_i hprogress
      have hpath := ne_stagingPath hopen (by simpa using hprogress) hbefore
      have hgate := validateTargetPeer_gated world.auth world.registry request.info world.clock
      split
      · rfl
      · rename_i heq
        rw [heq] at hgate
        obtain ⟨status, message, checked, authorized, rfl⟩ := hgate
        split <;> rename_i hseal <;> exact (uploadStageSeal_spec hseal).2.2.others path hpath

theorem answerToConnection_frame (hopen : request.info.Receiving ∧ request.info.fileSaved = false)
    (upload : Option Body) (hentry : isStagingEntry path = true)
    (hbefore : request.holds ≠ some path)
    (hafter : (answerToConnection world id request upload env).2.1.holds ≠ some path) :
    (answerToConnection world id request upload env).1.fs path = world.fs path := by
  have hdispatch := answerToConnection_dispatch world id request upload env
  generalize answerToConnection world id request upload env = outcome at hdispatch hafter ⊢
  cases hdispatch with
  | index | devices | notFound => rfl
  | localCode => exact congrFun localCodeCall_quiet.fs path
  | transfers | transfer => exact congrFun (transfersCall_quiet _).fs path
  | chunk body => exact chunkStep_frame hopen body hafter
  | unlock => exact congrFun unlockFinal_quiet.fs path
  | exchange => exact congrFun exchangeFinal_quiet.fs path
  | upload => exact uploadFinal_frame hopen hentry hbefore
  | pair => exact congrFun pairFinal_quiet.fs path
  | send => exact sendFinal_frame hopen hbefore

theorem deleteAll_cases (fs : FileSystem) (paths : List CString) (path : CString) :
    deleteAll fs paths path = fs path ∨ deleteAll fs paths path = none := by
  rw [deleteAll_apply]
  split
  · exact .inr rfl
  · exact .inl rfl

theorem proceed_frame {proceedEnv : ProceedEnv} {outcome : Outcome}
    (h : proceed world id request proceedEnv = some outcome) (path : CString) :
    outcome.1.fs path = world.fs path ∨ outcome.1.fs path = none := by
  cases proceed_proceeds h with
  | exchangeAdd | exchangeMark | pairRefused | pairAccepted | pairStore | pairMark =>
      exact .inl rfl
  | sendCleanup =>
      simp only [cleanupExpiredStagingFiles]
      rw [if_neg (by decide)]
      split
      · exact .inr rfl
      · exact .inl rfl
  | sendRefused =>
      rw [abort_eq_deleteAll]
      exact deleteAll_cases ..
  | sendEnqueued => exact deleteAll_cases ..

end frames

theorem owner_frame {process after : Process} {event : Event} {entries : List Entry}
    {owner : Owner} {path : CString} (howned : Owned process) (hheld : HeldEntries process)
    (hnext : next process event = some (after, entries))
    (hexclusive : ∀ a b x, after.ledger.held a = some x → after.ledger.held b = some x → a = b)
    (hother : ∀ id, owner = .request id → event.request ≠ some id)
    (hbefore : process.ledger.held owner = some path)
    (hafter : after.ledger.held owner = some path) :
    after.world.fs path = process.world.fs path ∨ after.world.fs path = none := by
  have hentry := hheld _ _ hbefore
  cases next_steps hnext with
  | call target upload env request was phase =>
      left
      have hne : Owner.request target ≠ owner := fun heq => hother target heq.symm rfl
      have hsound := howned.wellformed.requests target request was
      apply answerToConnection_frame (hsound.open_ (by simp [phase])
        (by simp [Request.handingOver, phase])) upload hentry
      · intro hholds
        refine hne (howned.ledger.exclusive _ _ path ?_ hbefore)
        exact Option.bind_eq_some_iff.mpr ⟨request, was, hholds⟩
      · intro hholds
        refine hne (hexclusive _ _ path ?_ hafter)
        exact Option.bind_eq_some_iff.mpr ⟨_, Function.update_self .., hholds⟩
  | proceed target env request outcome was continues => exact proceed_frame continues path
  | completed target request was releasable =>
      change (requestCompleted process.world target request).1.fs path = _ ∨
        (requestCompleted process.world target request).1.fs path = none
      unfold requestCompleted
      split
      · exact .inl rfl
      · exact deleteAll_cases process.world.fs [request.info.uploadStage.stagingPath.str] path
  | workerDone success result ends => exact deleteAll_cases ..
  | tick | accept | workerTake | workerCall | workerProgress | workerExit | resolved | removed
  | serverStop | queueShutdown => exact .inl rfl

theorem others_frame {process after : Process} {event : Event} {entries : List Entry} {id : Nat}
    {path : CString} (howned : Owned process) (hheld : HeldEntries process)
    (hnext : next process event = some (after, entries))
    (hexclusive : ∀ a b x, after.ledger.held a = some x → after.ledger.held b = some x → a = b)
    (hother : event.request ≠ some id)
    (hbefore : process.ledger.held (.request id) = some path)
    (hafter : after.ledger.held (.request id) = some path) :
    after.world.fs path = process.world.fs path ∨ after.world.fs path = none :=
  owner_frame howned hheld hnext hexclusive (fun target heq => by cases heq; exact hother)
    hbefore hafter

def Event.items (id : Nat) : Event → List PostItem
  | .call target (some body) _ => if target = id then body.items else []
  | _ => []

/-- The calls of `iterate_post` for request `id`, over all its chunks. -/
def receivedItems (id : Nat) (events : List Event) : List PostItem :=
  events.flatMap (Event.items id)

theorem receivedItems_concat (id : Nat) (events : List Event) (event : Event) :
    receivedItems id (events ++ [event]) = receivedItems id events ++ event.items id := by
  simp [receivedItems]

def Event.called : Event → Option Nat
  | .call id _ _ => some id
  | _ => none

theorem items_of_not_called {event : Event} {id : Nat} (h : event.called ≠ some id) :
    event.items id = [] := by
  unfold Event.items
  split
  · rename_i target body env
    rw [if_neg]
    rintro rfl
    exact h rfl
  · rfl

theorem items_of_other {event : Event} {id : Nat} (h : event.request ≠ some id) :
    event.items id = [] := by
  apply items_of_not_called
  cases event <;> first | exact h | simp [Event.called]

theorem unseen_step {past : List Event} {process after : Process} {event : Event}
    (hwellformed : Wellformed process)
    (h : ∀ id, process.nextId ≤ id → receivedItems id past = [])
    (hstep : step process event = some after) :
    ∀ id, after.nextId ≤ id → receivedItems id (past ++ [event]) = [] := by
  intro id hid
  have hids : process.nextId ≤ after.nextId := by
    obtain ⟨settled, entries, hnext, rfl⟩ := step_eq_some hstep
    have hsettled := next_nextId hnext
    exact hsettled
  rw [receivedItems_concat, h id (hids.trans hid), List.nil_append]
  apply items_of_other
  intro hevent
  obtain ⟨request, hrequest⟩ := exists_request hevent hstep
  exact absurd (hwellformed.lt hrequest) (by omega)

def Route.stores : Route → Bool
  | .upload | .send => true
  | _ => false

theorem Route.gated_of_stores {route : Route} (h : route.stores = true) : route.gated = true := by
  cases route <;> first | rfl | contradiction

/-- The request still has its file: it is receiving its body, or handing the file over. -/
def Request.keeping (request : Request) : Prop :=
  request.phase = .receiving ∨ request.handingOver = true

def HandsOver (process : Process) : Prop :=
  ∀ id request, process.requests id = some request → request.handingOver = true →
    request.info.responseStatus < 400 ∧ request.info.uploadInProgress = true

structure Collects (events : List Event) (process : Process) : Prop where
  owned : Owned process
  held : HeldEntries process
  clock : WholeClock process
  screened : BodiesScreened process
  onRoutes : OnRoutes process
  handing : HandsOver process
  unseen : ∀ id, process.nextId ≤ id → receivedItems id events = []
  received : ∀ id request, process.requests id = some request → request.route.stores = true →
    request.keeping → request.info.responseStatus < 400 →
    Received (receivedItems id events) process.world.fs request.info

theorem Received.of_frame {items : List PostItem} {fs fs' : FileSystem}
    {info info' : ConnectionInfo}
    (h : Received items fs info) (hprogress : info'.uploadInProgress = info.uploadInProgress)
    (hname : info'.uploadStage.originalName = info.uploadStage.originalName)
    (hpath : info'.uploadStage.stagingPath = info.uploadStage.stagingPath)
    (hframe : info.uploadInProgress = true → ∀ file,
      fs' info.uploadStage.stagingPath.str = some file →
      ∃ old, fs info.uploadStage.stagingPath.str = some old ∧ file.content = old.content) :
    Received items fs' info' where
  closed hnone := hprogress.trans (h.closed hnone)
  open_ first rest hsome := by
    obtain ⟨hopen, hstage, hnamed, hcontent⟩ := h.open_ first rest hsome
    refine ⟨hprogress.trans hopen, hname.trans hstage, ?_, fun file hfile => ?_⟩
    · unfold StageNamed at hnamed ⊢
      rwa [hname, hpath]
    · rw [hpath] at hfile
      obtain ⟨old, hold, hsame⟩ := hframe hopen file hfile
      rw [hsame, hcontent old hold]

theorem Request.holds_of_keeping {request : Request} (hsound : request.Sound)
    (hkeeping : request.keeping) (hprogress : request.info.uploadInProgress = true) :
    request.holds = some request.info.uploadStage.stagingPath.str := by
  rcases hkeeping with hphase | hhanding
  · obtain ⟨hreceiving, hsaved⟩ := hsound.open_ (by simp [hphase])
      (by simp [Request.handingOver, hphase])
    rw [Request.holds_of_receiving hreceiving hsaved]
    exact if_pos hprogress
  · obtain ⟨-, hne, -⟩ := hsound.handing hhanding
    unfold Request.holds
    rw [if_neg]
    rintro (hempty | ⟨-, hnot⟩)
    · exact hne hempty
    · rw [hhanding] at hnot
      contradiction

theorem chunkStep_received {world : World} {id : Nat} {request : Request} {body : Body}
    {env : CallEnv} {items : List PostItem} (hroute : request.route.gated = true)
    (hscreened : request.Screened) (hreceiving : request.info.Receiving)
    (hnow : 0 ≤ world.clock ∧ world.clock ≤ timeMax)
    (h : request.info.responseStatus < 400 → Received items world.fs request.info)
    (hok : (chunkStep world id request body env).2.1.info.responseStatus < 400) :
    Received (items ++ body.items) (chunkStep world id request body env).1.fs
      (chunkStep world id request body env).2.1.info := by
  cases (@chunkStep_outcome world id request body env hroute hscreened).1 with
  | refused status kept files => omega
  | parsed auth info gate gated same files result =>
      rw [result] at hok ⊢
      rw [files]
      have hstatus : info.responseStatus < 400 := by
        by_contra hrefused
        rw [postProcess_refused (Nat.le_of_not_lt hrefused)] at hok
        exact hrefused hok
      have hbefore := h (same ▸ hstatus)
      refine postProcess_received hnow (gated.receiving hreceiving) ?_ ?_ _ _ _ hok
      · obtain ⟨status, message, checked, authorized, rfl⟩ := gated
        exact hscreened.parses
      · obtain ⟨status, message, checked, authorized, rfl⟩ := gated
        exact hbefore.of_frame rfl rfl rfl fun _ file hfile => ⟨file, hfile, rfl⟩

theorem uploadStageSeal_content {fs fs' : FileSystem} {stage stage' : UploadStage} {now : Time}
    {env : SealEnv} {error : Option CString} {path : CString} {file : File}
    (h : uploadStageSeal fs stage now env = (fs', stage', error))
    (hfile : fs' path = some file) : ∃ old, fs path = some old ∧ file.content = old.content := by
  have hmodify : ∀ touched : Bool,
      fs.modify stage.stagingPath.str (File.append [] touched now) path = some file →
      ∃ old, fs path = some old ∧ file.content = old.content := by
    intro touched hfile
    unfold FileSystem.modify at hfile
    by_cases hpath : path = stage.stagingPath.str
    · subst hpath
      rw [Function.update_self] at hfile
      obtain ⟨old, hold, rfl⟩ := Option.map_eq_some_iff.mp hfile
      exact ⟨old, hold, List.append_nil _⟩
    · rw [Function.update_of_ne hpath] at hfile
      exact ⟨file, hfile, rfl⟩
  unfold uploadStageSeal at h
  split at h
  · cases h
    exact ⟨file, hfile, rfl⟩
  · split at h
    · cases h
      exact ⟨file, hfile, rfl⟩
    · dsimp only at h
      split at h
      · cases h
        exact hmodify _ hfile
      · split at h <;> cases h <;> exact hmodify _ hfile

theorem sendFinal_received {world : World} {request : Request} {env : CallEnv}
    {items : List PostItem}
    (h : request.info.responseStatus < 400 → Received items world.fs request.info)
    (hhanding : (sendFinal world request env).2.1.handingOver = true) :
    Received items (sendFinal world request env).1.fs
      (sendFinal world request env).2.1.info := by
  have hgate := validateTargetPeer_gated world.auth world.registry request.info world.clock
  revert hhanding
  unfold sendFinal
  dsimp only
  split
  · exact fun hhanding => by simp [Request.handingOver, Request.answer] at hhanding
  · rename_i hstatus
    split
    · exact fun hhanding => by simp [Request.handingOver, Request.answer] at hhanding
    · split
      · exact fun hhanding => by simp [Request.handingOver, Request.answer] at hhanding
      · rename_i heq
        rw [heq] at hgate
        obtain ⟨status, message, checked, authorized, rfl⟩ := hgate
        split
        · exact fun hhanding => by simp [Request.handingOver, Request.answer] at hhanding
        · rename_i hseal
          intro _
          obtain ⟨hpath, hname, -⟩ := uploadStageSeal_spec hseal
          exact (h (Nat.lt_of_not_le hstatus)).of_frame rfl hname hpath
            fun _ file hfile => uploadStageSeal_content hseal hfile

section collecting
variable {events : List Event} {process after : Process} {event : Event} {entries : List Entry}
  {id : Nat} {request' : Request}

theorem received_of_other (h : Collects events process)
    (hnext : next process event = some (after, entries))
    (hexclusive : ∀ a b x, after.ledger.held a = some x → after.ledger.held b = some x → a = b)
    (hother : event.request ≠ some id)
    (hid : after.requests id = some request') (hroute : request'.route.stores = true)
    (hkeeping : request'.keeping) (hok : request'.info.responseStatus < 400) :
    Received (receivedItems id (events ++ [event])) after.world.fs request'.info := by
  rw [receivedItems_concat, items_of_other hother, List.append_nil]
  cases next_origin hnext hid with
  | kept was =>
      refine (h.received id request' was hroute hkeeping hok).of_frame rfl rfl rfl ?_
      intro hprogress file hfile
      have hholds := Request.holds_of_keeping (h.owned.wellformed.requests id request' was)
        hkeeping hprogress
      have hframe := others_frame h.owned h.held hnext hexclusive hother
        (Option.bind_eq_some_iff.mpr ⟨request', was, hholds⟩)
        (Option.bind_eq_some_iff.mpr ⟨request', hid, hholds⟩)
      rcases hframe with hsame | hgone
      · exact ⟨file, hsame ▸ hfile, rfl⟩
      · rw [hfile] at hgone
        contradiction
  | accepted url method clientIp headers fresh quiet new =>
      rw [h.unseen id (by omega), new]
      exact ⟨fun _ => rfl, fun first rest hsome => by simp [storedItems, fileItems] at hsome⟩
  | called upload env request was phase call settled logged new =>
      rw [call] at hother
      exact absurd rfl hother
  | proceeded env request outcome was continues call settled logged new =>
      rw [call] at hother
      exact absurd rfl hother

theorem uploadFinal_not_handing {world : World} {request : Request} {env : CallEnv} :
    (uploadFinal world id request env).2.1.handingOver = false := by
  unfold uploadFinal
  dsimp only
  repeat' split
  all_goals rfl

theorem proceed_handing {world : World} {request : Request} {env : ProceedEnv} {outcome : Outcome}
    (h : proceed world id request env = some outcome)
    (hhanding : outcome.2.1.handingOver = true) :
    request.handingOver = true ∧ outcome.2.1.info = request.info := by
  cases proceed_proceeds h with
  | sendCleanup phase => exact ⟨by simp [Request.handingOver, phase], rfl⟩
  | exchangeAdd | exchangeMark | pairRefused | pairAccepted | pairStore | pairMark | sendRefused
  | sendEnqueued => contradiction

theorem received_of_own (h : Collects events process)
    (hnext : next process event = some (after, entries)) (hown : event.request = some id)
    (hid : after.requests id = some request') (hroute : request'.route.stores = true)
    (hkeeping : request'.keeping) (hok : request'.info.responseStatus < 400) :
    Received (receivedItems id (events ++ [event])) after.world.fs request'.info := by
  cases next_own hnext hown hid with
  | call upload env request was phase =>
      have hkeeps := @answerToConnection_keeps process.world id request env upload
      rw [hkeeps.route] at hroute
      have hgated := Route.gated_of_stores hroute
      have hbefore := fun hstatus => h.received id request was hroute (.inl phase) hstatus
      obtain ⟨hreceiving, -⟩ := (h.owned.wellformed.requests id request was).open_
        (by simp [phase]) (by simp [Request.handingOver, phase])
      rw [receivedItems_concat]
      cases upload with
      | some body =>
          have hitems : Event.items id (.call id (some body) env) = body.items := if_pos rfl
          have hreceived := @chunkStep_received process.world id request body env _ hgated
            (h.screened id request was hgated phase) hreceiving h.clock hbefore
          rw [← answerToConnection_chunk hgated] at hreceived
          rw [hitems]
          exact hreceived hok
      | none =>
          have hitems : Event.items id (.call id none env) = [] := rfl
          rw [hitems, List.append_nil]
          have hhanding := hkeeping.resolve_left (final_phase hgated)
          cases hcase : request.route <;>
            simp only [hcase, Route.stores, Bool.false_eq_true] at hroute
          · rw [answerToConnection_upload hcase, uploadFinal_not_handing] at hhanding
            contradiction
          · rw [answerToConnection_send hcase] at hhanding
            have hreceived := sendFinal_received hbefore hhanding
            rw [← answerToConnection_send hcase] at hreceived
            exact hreceived
  | proceed env request outcome was continues =>
      have hhanding := hkeeping.resolve_left (proceed_phase continues)
      obtain ⟨hwas, hinfo⟩ := proceed_handing continues hhanding
      rw [(proceed_keeps continues).route] at hroute
      have hitems : Event.items id (.proceed id env) = [] := rfl
      rw [receivedItems_concat, hitems, List.append_nil, hinfo]
      rw [hinfo] at hok
      refine (h.received id request was hroute (.inr hwas) hok).of_frame rfl rfl rfl ?_
      intro _ file hfile
      change outcome.1.fs _ = some file at hfile
      rcases proceed_frame continues request.info.uploadStage.stagingPath.str with hsame | hgone
      · exact ⟨file, hsame ▸ hfile, rfl⟩
      · rw [hfile] at hgone
        contradiction

theorem validateTargetPeer_accepted {auth auth' : Auth} {registry : PeerRegistry}
    {info info' : ConnectionInfo} {now : Time} {target : UInt16 × CString}
    (h : validateTargetPeer auth registry info now = (auth', info', some target)) :
    info' = info := by
  have hcheck := validateTargetPeer_check auth registry info now
  rw [h] at hcheck
  cases hcheck
  rfl

theorem sendFinal_handing {world : World} {request : Request} {env : CallEnv}
    (hhanding : (sendFinal world request env).2.1.handingOver = true) :
    (sendFinal world request env).2.1.info.responseStatus < 400 ∧
      (sendFinal world request env).2.1.info.uploadInProgress = true := by
  revert hhanding
  unfold sendFinal
  dsimp only
  split
  · rintro ⟨⟩
  · rename_i hstatus
    split
    · rintro ⟨⟩
    · rename_i hprogress
      split
      · rintro ⟨⟩
      · rename_i haccepted
        cases validateTargetPeer_accepted haccepted
        split
        · rintro ⟨⟩
        · exact fun _ => ⟨Nat.lt_of_not_le hstatus, by simpa using hprogress⟩

theorem handsOver_next (h : HandsOver process)
    (hnext : next process event = some (after, entries)) : HandsOver after := by
  intro id request' hid hhanding
  cases next_origin hnext hid with
  | kept was => exact h id request' was hhanding
  | accepted url method clientIp headers fresh quiet new =>
      rw [new] at hhanding
      contradiction
  | called upload env request was phase call settled logged new =>
      subst new
      have honroute := @answerToConnection_onRoute process.world id request env phase upload
      have hsend : request.route = .send := by
        rw [← (answerToConnection_keeps upload).route]
        exact honroute.send hhanding
      cases upload with
      | some body =>
          rw [answerToConnection_chunk (by rw [hsend]; rfl)] at hhanding
          unfold chunkStep at hhanding
          dsimp only at hhanding
          split at hhanding <;> simp [Request.handingOver, phase] at hhanding
      | none =>
          rw [answerToConnection_send hsend] at hhanding ⊢
          exact sendFinal_handing hhanding
  | proceeded env request outcome was continues call settled logged new =>
      subst new
      obtain ⟨hwas, hinfo⟩ := proceed_handing continues hhanding
      rw [hinfo]
      exact h id request was hwas

theorem Started.collects (h : Started process) : Collects [] process where
  owned := h.owned
  held owner path howner := by rw [h.held] at howner; contradiction
  clock := h.clock
  screened id request hid := by simp [h.requests] at hid
  onRoutes := h.onRoutes
  handing id request hid := by simp [h.requests] at hid
  unseen id _ := rfl
  received id request hid := by simp [h.requests] at hid

theorem collects_step (past : List Event) (process : Process) (event : Event) (after : Process)
    (h : Collects past process) (hfresh : FreshNames process event)
    (hstep : step process event = some after) : Collects (past ++ [event]) after := by
  have howned := owned_step process event after h.owned hfresh hstep
  have hunseen := unseen_step h.owned.wellformed h.unseen hstep
  obtain ⟨settled, entries, hnext, rfl⟩ := step_eq_some hstep
  have hheld := heldEntries_next h.owned.wellformed h.held hnext
  have hclock := wholeClock_next h.clock hnext
  have hscreened := bodiesScreened_next h.screened hnext
  have honroutes := onRoutes_next h.onRoutes hnext
  have hhanding := handsOver_next h.handing hnext
  refine ⟨howned, hheld, hclock, hscreened, honroutes, hhanding, hunseen, ?_⟩
  intro id request' hid hroute hkeeping hok
  by_cases hevent : event.request = some id
  · have hreceived := received_of_own h hnext hevent hid hroute hkeeping hok
    exact hreceived
  · have hreceived := received_of_other h hnext howned.ledger.exclusive hevent hid hroute hkeeping
      hok
    exact hreceived

theorem collects_run {start : Process} (hstart : Started start)
    (hfresh : Meets step FreshNames start events) (hrun : run step start events = some process) :
    Collects events process := by
  have hcollects := hfresh.history collects_step hstart.collects hrun
  rwa [List.nil_append] at hcollects

end collecting

end LocalDrop
