import LocalDrop.Credentials

/-! The two pairing handlers step by step: what a call begins, which endpoint a
later step stores or marks, and what the registry makes of it. -/
namespace LocalDrop
open Lib

def Request.marking (request : Request) : Option (CString × UInt16) :=
  match request.phase with
  | .exchangeMark port _ _ => some (request.info.clientIp.str, port)
  | .pairMark port => some (request.info.targetIp.str, port)
  | _ => none

def Request.storing (request : Request) : Option ((CString × UInt16) × Time) :=
  match request.phase with
  | .pairStore port _ _ expiresAt => some ((request.info.targetIp.str, port), expiresAt)
  | _ => none

theorem Request.storing_eq_none {request : Request} {endpoint : CString × UInt16}
    (h : request.marking = some endpoint) : request.storing = none := by
  unfold Request.marking at h
  split at h <;> simp_all [Request.storing]

theorem Request.storing_eq_some {request : Request} {store : (CString × UInt16) × Time}
    (h : request.storing = some store) : ∃ port peer token expiresAt,
      request.phase = .pairStore port peer token expiresAt ∧
        store = ((request.info.targetIp.str, port), expiresAt) := by
  unfold Request.storing at h
  split at h
  · rename_i port peer token expiresAt hphase
    exact ⟨port, peer, token, expiresAt, hphase, (Option.some.inj h).symm⟩
  · contradiction

section calls
variable {world : World} {id : Nat} {request : Request} {env : CallEnv}

theorem answerToConnection_registry (upload : Option Body) :
    (answerToConnection world id request upload env).1.registry = world.registry := by
  have hdispatch := answerToConnection_dispatch world id request upload env
  generalize answerToConnection world id request upload env = outcome at hdispatch ⊢
  cases hdispatch with
  | index | devices | notFound => rfl
  | chunk | localCode | transfers | transfer | unlock | exchange | upload | pair | send =>
      simp only [chunkStep, localCodeCall, transfersCall, unlockFinal, exchangeFinal, uploadFinal,
        pairFinal, sendFinal]
      repeat' split
      all_goals rfl

/-- Where a call of `answer_to_connection` leaves its request: still receiving,
answered, or inside one of the handlers that leave a lock. -/
inductive CallPhase (world : World) (request : Request) (env : CallEnv) (outcome : Outcome) :
    Prop where
  | receiving (phase : outcome.2.1.phase = .receiving)
  | answered (reply : Reply) (phase : outcome.2.1.phase = .answered reply)
  | issued (port : UInt16) (token : CString) (expiresAt : Time) (auth : Auth)
      (route : request.route = .exchange)
      (parsed : parsePort request.info.peerPort.str = some port)
      (created : authIssuePairToken world.auth request.info.clientIp.str
        request.info.peerName.str port request.info.pairCode.str world.clock env.codeRandom
        env.random = (auth, some (token, expiresAt)))
      (shared : outcome.1 = { world with auth := auth })
      (moved : outcome.2.1 = { request with phase := .exchangeAdd port token expiresAt })
  | pairing (port : UInt16) (peer : PeerInfo) (route : request.route = .pair)
      (valid : validateIpAddress request.info.targetIp.str = true)
      (parsed : parsePort request.info.targetPort.str = some port)
      (known : peerRegistryFindByEndpoint world.registry request.info.targetIp.str port =
        some peer)
      (shared : outcome.1 = world)
      (moved : outcome.2.1 = { request with phase := .pairRemote port peer })
  | queued (port : UInt16) (token : CString) (route : request.route = .send)
      (phase : outcome.2.1.phase = .sendCleanup port token)

theorem exchangeFinal_callPhase (hroute : request.route = .exchange) :
    CallPhase world request env (exchangeFinal world id request env) := by
  unfold exchangeFinal
  dsimp only
  split
  · exact .answered _ rfl
  · split
    · exact .answered _ rfl
    · split
      · exact .answered _ rfl
      · rename_i port hport
        split
        · exact .answered _ rfl
        · rename_i auth token expiresAt hcreated
          exact .issued port token expiresAt auth hroute hport hcreated rfl rfl

theorem pairFinal_callPhase (hroute : request.route = .pair) :
    CallPhase world request env (pairFinal world id request) := by
  unfold pairFinal
  dsimp only
  split
  · exact .answered _ rfl
  · split
    · exact .answered _ rfl
    · rename_i hvalid
      simp only [Bool.or_eq_true, Bool.not_eq_true', decide_eq_true_eq, not_or,
        Bool.not_eq_false] at hvalid
      split
      · exact .answered _ rfl
      · rename_i port hport
        split
        · exact .answered _ rfl
        · rename_i peer hpeer
          split
          · exact .answered _ rfl
          · exact .pairing port peer hroute hvalid.1 hport hpeer rfl rfl

theorem sendFinal_callPhase (hroute : request.route = .send) :
    CallPhase world request env (sendFinal world request env) := by
  unfold sendFinal
  dsimp only
  repeat' split
  all_goals first | exact .answered _ rfl | exact .queued _ _ hroute rfl

theorem answerToConnection_callPhase (hphase : request.phase = .receiving)
    (upload : Option Body) :
    CallPhase world request env (answerToConnection world id request upload env) := by
  have hdispatch := answerToConnection_dispatch world id request upload env
  generalize answerToConnection world id request upload env = outcome at hdispatch ⊢
  cases hdispatch with
  | index | devices | notFound => exact .answered _ rfl
  | chunk body => exact .receiving ((chunkStep_phase body).trans hphase)
  | localCode | transfers | transfer | unlock | upload =>
      simp only [localCodeCall, transfersCall, unlockFinal, uploadFinal]
      repeat' split
      all_goals exact .answered _ rfl
  | exchange route => exact exchangeFinal_callPhase route
  | pair route => exact pairFinal_callPhase route
  | send route => exact sendFinal_callPhase route

end calls

inductive RegistryChange (process : Process) (event : Event) (after : Process) : Prop where
  | kept (same : after.world.registry = process.world.registry)
      (unmarked : ∀ id env request, event = .proceed id env →
        process.requests id = some request → request.marking = none)
  | added (name ip : CString) (port : UInt16)
      (same : after.world.registry = (peerRegistryAddOrUpdate process.world.registry name ip port
        process.world.clock).1)
      (unmarked : ∀ id env request, event = .proceed id env →
        process.requests id = some request → request.marking = none)
  | removed (name : CString) (call : event = .removed name)
      (same : after.world.registry = (peerRegistryMarkInactive process.world.registry name).1)
  | marked (id : Nat) (env : ProceedEnv) (request : Request) (ip : CString) (port : UInt16)
      (call : event = .proceed id env) (was : process.requests id = some request)
      (marking : request.marking = some (ip, port))
      (same : after.world.registry =
        (peerRegistrySetPaired process.world.registry ip port true).1)

theorem proceed_registryChange {process : Process} {id : Nat} {request : Request}
    {env : ProceedEnv} {outcome : Outcome} (hwas : process.requests id = some request)
    (h : proceed process.world id request env = some outcome) :
    RegistryChange process (.proceed id env) (process.settle id outcome).1 := by
  -- The request an event proceeds with is this one, so its phase decides.
  have hunmarked : request.marking = none → ∀ id' env' request',
      Event.proceed id env = .proceed id' env' → process.requests id' = some request' →
      request'.marking = none := by
    intro hnone id' env' request' hevent hwas'
    cases hevent
    rw [hwas, Option.some.injEq] at hwas'
    exact hwas' ▸ hnone
  cases proceed_proceeds h with
  | exchangeAdd phase =>
      exact .added _ _ _ rfl (hunmarked (by simp [Request.marking, phase]))
  | exchangeMark phase | pairMark phase =>
      exact .marked id env request _ _ rfl hwas (by simp [Request.marking, phase]) rfl
  | pairRefused phase | pairAccepted phase | pairStore phase | sendCleanup phase
  | sendRefused phase | sendEnqueued phase =>
      exact .kept rfl (hunmarked (by simp [Request.marking, phase]))

theorem next_registry {process after : Process} {event : Event} {entries : List Entry}
    (h : next process event = some (after, entries)) : RegistryChange process event after := by
  cases next_steps h with
  | call id upload env request was phase =>
      exact .kept (answerToConnection_registry upload) (by simp)
  | proceed id env request outcome was continues => exact proceed_registryChange was continues
  | completed id request was releasable =>
      refine .kept ?_ (by simp)
      unfold requestCompleted
      split <;> rfl
  | resolved name ip port => exact .added name ip port rfl (by simp)
  | removed name => exact .removed name rfl rfl
  | tick | accept | workerTake | workerCall | workerProgress | workerDone | workerExit
  | serverStop | queueShutdown => exact .kept rfl (by simp)

theorem RegistryChange.grows {process after : Process} {event : Event}
    (h : RegistryChange process event after) :
    process.world.registry.Grows after.world.registry := by
  cases h with
  | kept same unmarked => exact .inl (by rw [same])
  | added name ip port same unmarked =>
      rw [same]
      exact grows_addOrUpdate
  | removed name call same =>
      rw [same]
      exact .inl endpoints_markInactive
  | marked id env request ip port call was marking same =>
      rw [same]
      exact grows_setPaired

theorem proceed_marking {world : World} {id : Nat} {request : Request} {env : ProceedEnv}
    {outcome : Outcome} {ip : CString} {port : UInt16}
    (hmarking : request.marking = some (ip, port))
    (h : proceed world id request env = some outcome) :
    outcome.1 = { world with
      registry := (peerRegistrySetPaired world.registry ip port true).1 } := by
  unfold Request.marking at hmarking
  unfold proceed at h
  split at hmarking <;> rename_i hphase
  · simp only [Option.some.injEq, Prod.mk.injEq] at hmarking
    obtain ⟨rfl, rfl⟩ := hmarking
    simp only [hphase, Option.some.injEq] at h
    rw [← h]
  · simp only [Option.some.injEq, Prod.mk.injEq] at hmarking
    obtain ⟨rfl, rfl⟩ := hmarking
    simp only [hphase, Option.some.injEq] at h
    rw [← h]
  · contradiction

end LocalDrop
