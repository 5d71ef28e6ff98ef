import LocalDrop.Ownership

/-! What a request keeps from call to call: its route, its headers and the address
of its client. A call reads the clock and does not move it. -/
namespace LocalDrop
open Lib

structure Keeps (world : World) (request : Request) (outcome : Outcome) : Prop where
  clock : outcome.1.clock = world.clock
  route : outcome.2.1.route = request.route
  headers : outcome.2.1.headers = request.headers
  clientIp : outcome.2.1.info.clientIp = request.info.clientIp

theorem keeps_answer (world : World) (request : Request) (reply : Reply) :
    Keeps world request (world, request.answer reply, []) := ⟨rfl, rfl, rfl, rfl⟩

structure ConnectionInfo.SameClient (info info' : ConnectionInfo) : Prop where
  clientIp : info'.clientIp = info.clientIp
  authChecked : info'.authChecked = info.authChecked
  requestAuthorized : info'.requestAuthorized = info.requestAuthorized

theorem ConnectionInfo.SameClient.trans {info info' info'' : ConnectionInfo}
    (h : info.SameClient info') (h' : info'.SameClient info'') : info.SameClient info'' :=
  ⟨h'.clientIp.trans h.clientIp, h'.authChecked.trans h.authChecked,
    h'.requestAuthorized.trans h.requestAuthorized⟩

section parsing
variable {fs : FileSystem} {id : Nat} {info : ConnectionInfo} {now : Time}

theorem openStage_sameClient (item : PostItem) :
    info.SameClient (openStage fs id info now item).2.1 := by
  unfold openStage
  split
  · split <;> exact ⟨rfl, rfl, rfl⟩
  · exact ⟨rfl, rfl, rfl⟩

theorem writeStage_sameClient (item : PostItem) :
    info.SameClient (writeStage fs info now item).2 := by
  unfold writeStage
  split
  · split <;> exact ⟨rfl, rfl, rfl⟩
  · exact ⟨rfl, rfl, rfl⟩

theorem iteratePost_sameClient (item : PostItem) :
    info.SameClient (iteratePost fs id info now item).2 := by
  unfold iteratePost
  split
  · exact ⟨rfl, rfl, rfl⟩
  · split
    · have hopen := @openStage_sameClient fs id info now item
      split <;> rename_i heq <;> rw [heq] at hopen
      · exact hopen
      · exact hopen.trans (writeStage_sameClient item)
    · obtain ⟨-, -, -, hclient, hchecked, hauthorized, -⟩ := copyField_frame info item
      exact ⟨hclient, hchecked, hauthorized⟩

theorem foldl_iteratePost_sameClient (items : List PostItem) :
    info.SameClient (items.foldl (fun state item => iteratePost state.1 id state.2 now item)
      (fs, info)).2 := by
  induction items generalizing fs info with
  | nil => exact ⟨rfl, rfl, rfl⟩
  | cons item rest ih =>
      rw [List.foldl_cons]
      exact (iteratePost_sameClient item).trans ih

theorem postProcess_sameClient (route : Route) (items : List PostItem) (processed : Bool) :
    info.SameClient (postProcess fs id info route now items processed).2 := by
  unfold postProcess
  split
  · exact ⟨rfl, rfl, rfl⟩
  · have hall := @foldl_iteratePost_sameClient fs id info now items
    dsimp only
    split
    · exact hall.trans ⟨rfl, rfl, rfl⟩
    · exact hall

end parsing

theorem ConnectionInfo.Gated.clientIp {info info' : ConnectionInfo} (h : info.Gated info') :
    info'.clientIp = info.clientIp := by
  obtain ⟨status, message, checked, authorized, rfl⟩ := h
  rfl

section calls
variable {world : World} {id : Nat} {request : Request} {env : CallEnv}

theorem chunkStep_keeps (body : Body) :
    Keeps world request (chunkStep world id request body env) := by
  have hgate := @chunkGate_gated world.auth request.info request.headers world.clock env.unwritten
    request.route
  unfold chunkStep
  dsimp only
  split
  · rename_i heq
    rw [heq] at hgate
    exact ⟨rfl, rfl, rfl, hgate.clientIp⟩
  · rename_i heq
    rw [heq] at hgate
    exact ⟨rfl, rfl, rfl, (postProcess_sameClient ..).clientIp.trans hgate.clientIp⟩

theorem unlockFinal_keeps : Keeps world request (unlockFinal world id request env) := by
  unfold unlockFinal
  dsimp only
  repeat' split
  all_goals exact ⟨rfl, rfl, rfl, rfl⟩

theorem exchangeFinal_keeps : Keeps world request (exchangeFinal world id request env) := by
  unfold exchangeFinal
  dsimp only
  repeat' split
  all_goals exact ⟨rfl, rfl, rfl, rfl⟩

theorem uploadFinal_keeps : Keeps world request (uploadFinal world id request env) := by
  unfold uploadFinal
  dsimp only
  repeat' split
  all_goals exact ⟨rfl, rfl, rfl, rfl⟩

theorem pairFinal_keeps : Keeps world request (pairFinal world id request) := by
  unfold pairFinal
  dsimp only
  repeat' split
  all_goals exact ⟨rfl, rfl, rfl, rfl⟩

theorem sendFinal_keeps : Keeps world request (sendFinal world request env) := by
  have hgate := validateTargetPeer_gated world.auth world.registry request.info world.clock
  unfold sendFinal
  dsimp only
  split
  · exact ⟨rfl, rfl, rfl, rfl⟩
  · split
    · exact ⟨rfl, rfl, rfl, rfl⟩
    · split <;> rename_i heq <;> rw [heq] at hgate
      · exact ⟨rfl, rfl, rfl, hgate.clientIp⟩
      · split <;> exact ⟨rfl, rfl, rfl, hgate.clientIp⟩

theorem localCodeCall_keeps : Keeps world request (localCodeCall world id request env) := by
  have hgate := @authorizeUiRequest_gated world.auth request.info request.headers
    (.lit "pair_code") 20 world.clock env.unwritten
  unfold localCodeCall
  dsimp only
  split <;> rename_i heq <;> rw [heq] at hgate
  · exact ⟨rfl, rfl, rfl, hgate.clientIp⟩
  · split <;> exact ⟨rfl, rfl, rfl, hgate.clientIp⟩

theorem transfersCall_keeps (status : Option Bytes) :
    Keeps world request (transfersCall world id request env status) := by
  have hgate := @authorizeUiRequest_gated world.auth request.info request.headers
    (.lit "transfer_status") 30 world.clock env.unwritten
  unfold transfersCall
  dsimp only
  split <;> rename_i heq <;> rw [heq] at hgate
  · exact ⟨rfl, rfl, rfl, hgate.clientIp⟩
  · split <;> exact ⟨rfl, rfl, rfl, hgate.clientIp⟩

theorem answerToConnection_keeps (upload : Option Body) :
    Keeps world request (answerToConnection world id request upload env) := by
  have hdispatch := answerToConnection_dispatch world id request upload env
  generalize answerToConnection world id request upload env = outcome at hdispatch ⊢
  cases hdispatch with
  | index | devices | notFound => exact keeps_answer ..
  | localCode => exact localCodeCall_keeps
  | transfers | transfer => exact transfersCall_keeps _
  | chunk body => exact chunkStep_keeps body
  | unlock => exact unlockFinal_keeps
  | exchange => exact exchangeFinal_keeps
  | upload => exact uploadFinal_keeps
  | pair => exact pairFinal_keeps
  | send => exact sendFinal_keeps

theorem proceed_keeps {outcome : Outcome} {proceedEnv : ProceedEnv}
    (h : proceed world id request proceedEnv = some outcome) : Keeps world request outcome := by
  cases proceed_proceeds h <;> exact ⟨rfl, rfl, rfl, rfl⟩

end calls

/-- A request inside a handler came in on its route; a pairing that has been started
goes to a numeric address, and what it stores fits a record. -/
def Request.OnRoute (request : Request) : Prop :=
  match request.phase with
  | .receiving => True
  | .exchangeAdd _ _ _ => request.route = .exchange
  | .exchangeMark _ _ _ => request.route = .exchange
  | .pairRemote _ _ => request.route = .pair ∧ request.info.targetIp.str.length < 46
  | .pairStore _ _ token _ => request.route = .pair ∧
      request.info.targetIp.str.length < 46 ∧ token.length < 65
  | .pairMark _ => request.route = .pair ∧ request.info.targetIp.str.length < 46
  | .sendCleanup _ _ => request.route = .send
  | .sendEnqueue _ _ => request.route = .send
  | .answered _ => True

theorem Request.onRoute_answer (request : Request) (reply : Reply) :
    (request.answer reply).OnRoute := trivial

theorem Request.OnRoute.send {request : Request} (h : request.OnRoute)
    (hhanding : request.handingOver = true) : request.route = .send := by
  unfold Request.OnRoute at h
  unfold Request.handingOver at hhanding
  cases hcase : request.phase with
  | sendCleanup port token | sendEnqueue port token =>
      rw [hcase] at h
      exact h
  | receiving | exchangeAdd | exchangeMark | pairRemote | pairStore | pairMark | answered =>
      simp [hcase] at hhanding

section onRoute
variable {world : World} {id : Nat} {request : Request} {env : CallEnv}

theorem chunkStep_onRoute (hphase : request.phase = .receiving) (body : Body) :
    (chunkStep world id request body env).2.1.OnRoute := by
  unfold chunkStep
  dsimp only
  split <;> simp only [Request.OnRoute, hphase]

theorem exchangeFinal_onRoute (hroute : request.route = .exchange) :
    (exchangeFinal world id request env).2.1.OnRoute := by
  unfold exchangeFinal
  dsimp only
  repeat' split
  all_goals first | exact Request.onRoute_answer _ _ | exact hroute

theorem unlockFinal_onRoute : (unlockFinal world id request env).2.1.OnRoute := by
  unfold unlockFinal
  dsimp only
  repeat' split
  all_goals exact Request.onRoute_answer _ _

theorem uploadFinal_onRoute : (uploadFinal world id request env).2.1.OnRoute := by
  unfold uploadFinal
  dsimp only
  repeat' split
  all_goals exact Request.onRoute_answer _ _

theorem pairFinal_onRoute (hroute : request.route = .pair) :
    (pairFinal world id request).2.1.OnRoute := by
  unfold pairFinal
  dsimp only
  split
  · exact Request.onRoute_answer _ _
  · split
    · exact Request.onRoute_answer _ _
    · rename_i hvalid
      simp only [Bool.or_eq_true, Bool.not_eq_true', decide_eq_true_eq, not_or,
        Bool.not_eq_false] at hvalid
      split
      · exact Request.onRoute_answer _ _
      · split
        · exact Request.onRoute_answer _ _
        · split
          · exact Request.onRoute_answer _ _
          · exact ⟨hroute, validateIpAddress_length hvalid.1⟩

theorem sendFinal_onRoute (hroute : request.route = .send) :
    (sendFinal world request env).2.1.OnRoute := by
  unfold sendFinal
  dsimp only
  repeat' split
  all_goals first | exact Request.onRoute_answer _ _ | exact hroute

theorem localCodeCall_onRoute : (localCodeCall world id request env).2.1.OnRoute := by
  unfold localCodeCall
  dsimp only
  repeat' split
  all_goals exact Request.onRoute_answer _ _

theorem transfersCall_onRoute (status : Option Bytes) :
    (transfersCall world id request env status).2.1.OnRoute := by
  unfold transfersCall
  dsimp only
  repeat' split
  all_goals exact Request.onRoute_answer _ _

theorem answerToConnection_onRoute (hphase : request.phase = .receiving)
    (upload : Option Body) : (answerToConnection world id request upload env).2.1.OnRoute := by
  have hdispatch := answerToConnection_dispatch world id request upload env
  generalize answerToConnection world id request upload env = outcome at hdispatch ⊢
  cases hdispatch with
  | index | devices | notFound => exact Request.onRoute_answer _ _
  | localCode => exact localCodeCall_onRoute
  | transfers | transfer => exact transfersCall_onRoute _
  | chunk body => exact chunkStep_onRoute hphase body
  | unlock => exact unlockFinal_onRoute
  | exchange route => exact exchangeFinal_onRoute route
  | upload => exact uploadFinal_onRoute
  | pair route => exact pairFinal_onRoute route
  | send route => exact sendFinal_onRoute route

theorem proceed_onRoute {outcome : Outcome} {proceedEnv : ProceedEnv}
    (honroute : request.OnRoute) (h : proceed world id request proceedEnv = some outcome) :
    outcome.2.1.OnRoute := by
  unfold Request.OnRoute at honroute
  cases proceed_proceeds h with
  | exchangeMark | pairRefused | pairMark | sendRefused | sendEnqueued =>
      exact Request.onRoute_answer _ _
  | exchangeAdd phase | sendCleanup phase =>
      rw [phase] at honroute
      exact honroute
  | pairAccepted phase paired =>
      rw [phase] at honroute
      exact ⟨honroute.1, honroute.2, transferPairPeer_length (by decide) paired⟩
  | pairStore phase =>
      rw [phase] at honroute
      exact ⟨honroute.1, honroute.2.1⟩

end onRoute

def OnRoutes (process : Process) : Prop :=
  ∀ id request, process.requests id = some request → request.OnRoute

inductive Origin (process : Process) (event : Event) (after : Process) (entries : List Entry)
    (id : Nat) (request' : Request) : Prop where
  | kept (was : process.requests id = some request')
  | accepted (url method : CString) (clientIp : Chars 46) (headers : Headers)
      (fresh : id = process.nextId) (quiet : entries = [])
      (new : request' = ⟨routeOf url method, headers, newConnectionInfo method clientIp, 0,
        .receiving⟩)
  | called (upload : Option Body) (env : CallEnv) (request : Request)
      (was : process.requests id = some request) (phase : request.phase = .receiving)
      (call : event = .call id upload env)
      (settled : after =
        (process.settle id (answerToConnection process.world id request upload env)).1)
      (logged : entries = (answerToConnection process.world id request upload env).2.2)
      (new : request' = (answerToConnection process.world id request upload env).2.1)
  | proceeded (env : ProceedEnv) (request : Request) (outcome : Outcome)
      (was : process.requests id = some request)
      (continues : proceed process.world id request env = some outcome)
      (call : event = .proceed id env) (settled : after = (process.settle id outcome).1)
      (logged : entries = outcome.2.2)
      (new : request' = outcome.2.1)

theorem next_origin {process after : Process} {event : Event} {entries : List Entry}
    (h : next process event = some (after, entries)) {id : Nat} {request' : Request}
    (hid : after.requests id = some request') :
    Origin process event after entries id request' := by
  -- The step may have replaced one request, `target`.
  have hupdate : ∀ {target : Nat} {changed : Option Request},
      after.requests = Function.update process.requests target changed →
      process.requests id = some request' ∨ id = target ∧ changed = some request' := by
    intro target changed heq
    rw [heq] at hid
    by_cases htarget : id = target
    · subst htarget
      rw [Function.update_self] at hid
      exact .inr ⟨rfl, hid⟩
    · rw [Function.update_of_ne htarget] at hid
      exact .inl hid
  cases next_steps h with
  | accept url method clientIp headers serving =>
      rcases hupdate rfl with hwas | ⟨rfl, hnew⟩
      · exact .kept hwas
      · exact .accepted url method clientIp headers rfl rfl (Option.some.inj hnew).symm
  | call target upload env request was phase =>
      rcases hupdate rfl with hwas | ⟨rfl, hnew⟩
      · exact .kept hwas
      · exact .called upload env request was phase rfl rfl rfl (Option.some.inj hnew).symm
  | proceed target env request outcome was continues =>
      rcases hupdate rfl with hwas | ⟨rfl, hnew⟩
      · exact .kept hwas
      · exact .proceeded env request outcome was continues rfl rfl rfl (Option.some.inj hnew).symm
  | completed target request was releasable =>
      rcases hupdate rfl with hwas | ⟨rfl, hnew⟩
      · exact .kept hwas
      · contradiction
  | tick | workerTake | workerCall | workerProgress | workerDone | workerExit | resolved | removed
  | serverStop | queueShutdown => exact .kept hid

theorem onRoutes_next {process after : Process} {event : Event} {entries : List Entry}
    (honroutes : OnRoutes process) (h : next process event = some (after, entries)) :
    OnRoutes after := by
  intro id request' hid
  cases next_origin h hid with
  | kept was => exact honroutes id request' was
  | accepted url method clientIp headers fresh quiet new => exact new ▸ trivial
  | called upload env request was phase call settled logged new =>
      exact new ▸ answerToConnection_onRoute phase upload
  | proceeded env request outcome was continues call settled logged new =>
      exact new ▸ proceed_onRoute (honroutes id request was) continues

theorem Started.onRoutes {process : Process} (h : Started process) : OnRoutes process := by
  intro id request hid
  rw [h.requests] at hid
  contradiction

theorem next_clock {process after : Process} {event : Event} {entries : List Entry}
    (h : next process event = some (after, entries)) :
    process.world.clock ≤ after.world.clock ∧
      (process.world.clock ≤ timeMax → after.world.clock ≤ timeMax) ∧
      ((∀ seconds, event ≠ .tick seconds) → after.world.clock = process.world.clock) := by
  have hsame : after.world.clock = process.world.clock →
      process.world.clock ≤ after.world.clock ∧
        (process.world.clock ≤ timeMax → after.world.clock ≤ timeMax) ∧
        ((∀ seconds, event ≠ .tick seconds) → after.world.clock = process.world.clock) := by
    intro heq
    exact ⟨heq.ge, fun hmax => heq ▸ hmax, fun _ => heq⟩
  cases next_steps h with
  | tick seconds bound =>
      exact ⟨Int.le_add_of_nonneg_right (Int.natCast_nonneg seconds), fun _ => bound,
        fun hne => absurd rfl (hne seconds)⟩
  | call id upload env request was phase => exact hsame (answerToConnection_keeps upload).clock
  | proceed id env request outcome was continues => exact hsame (proceed_keeps continues).clock
  | completed id request was releasable =>
      refine hsame ?_
      unfold requestCompleted
      split <;> rfl
  | accept | workerTake | workerCall | workerProgress | workerDone | workerExit | resolved
  | removed | serverStop | queueShutdown => exact hsame rfl

theorem clock_run {start process : Process} {events : List Event}
    (hrun : run step start events = some process) : start.world.clock ≤ process.world.clock := by
  refine @run_invariant _ _ step _ _ _ (fun current => start.world.clock ≤ current.world.clock)
    ?_ ?_ hrun
  · intro before event after h hstep
    obtain ⟨settled, entries, hnext, rfl⟩ := step_eq_some hstep
    exact le_trans h (next_clock hnext).1
  · exact le_rfl

end LocalDrop
