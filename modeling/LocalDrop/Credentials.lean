import LocalDrop.Gates
import LocalDrop.Requests

/-! How the tables of `auth.c` change along a run: a session comes from
`/api/session/unlock`, a peer token from `/api/pair/exchange` or from `/api/pair`,
and every other step at most looks things up. -/
namespace LocalDrop
open Lib

def Entry.isCredential : Entry → Bool
  | .session _ _ _ => true
  | .issued _ _ _ _ => true
  | .recorded _ _ _ _ _ => true
  | _ => false

theorem authIssuePairToken_none {auth auth' : Auth} {peerIp peerName : CString}
    {peerPort : UInt16} {provided : CString} {now : Time} {codeRandom : RandomBytes 6}
    {random : RandomBytes 32}
    (h : authIssuePairToken auth peerIp peerName peerPort provided now codeRandom random =
      (auth', none)) : auth.Consulted now auth' := by
  unfold authIssuePairToken at h
  split at h
  · cases h
    exact .refl now auth
  · rename_i current hcurrent
    have hconsulted := ensurePairingCodeLocked_consulted hcurrent
    split at h
    · cases h
      exact hconsulted
    · split at h
      · cases h
        exact hconsulted
      · dsimp only at h
        split at h
        · cases h
          exact hconsulted
        · simp at h

theorem authStorePeerToken_false {auth auth' : Auth} {peerIp : CString} {peerPort : UInt16}
    {peerName token : CString} {expiresAt : Time}
    (h : authStorePeerToken auth peerIp peerPort peerName token expiresAt = (auth', false)) :
    auth' = auth := by
  unfold authStorePeerToken at h
  split at h
  · exact (congrArg Prod.fst h).symm
  · simp at h

theorem proceed_pairStore {world : World} {id : Nat} {request : Request} {env : ProceedEnv}
    {port : UInt16} {peer : PeerInfo} {token : CString} {expiresAt : Time}
    (hphase : request.phase = .pairStore port peer token expiresAt) :
    let stored := authStorePeerToken world.auth request.info.targetIp.str port
      (pairedName request peer) token expiresAt
    proceed world id request env = some ({ world with auth := stored.1 },
      { request with phase := .pairMark port },
      if stored.2 then [.recorded id request.info.targetIp.str port token expiresAt] else []) := by
  simp only [proceed, hphase]
  rfl

/-- What a step does to the tables. -/
inductive AuthChange (process : Process) (event : Event) (after : Process)
    (entries : List Entry) : Prop where
  | consulted (lookups : process.world.auth.Consulted process.world.clock after.world.auth)
      (quiet : ∀ entry ∈ entries, entry.isCredential = false)
  | session (id : Nat) (request : Request) (env : CallEnv) (token : CString)
      (call : event = .call id none env) (was : process.requests id = some request)
      (route : request.route = .unlock)
      (created : authCreateUiSession process.world.auth request.info.clientIp.str
        request.info.adminCode.str process.world.clock env.random =
          (after.world.auth, some token))
      (logged : entries = [.compared id request.info.clientIp.str (.lit "session_unlock")
          process.world.clock,
        .session request.info.clientIp.str token (process.world.clock + uiSessionTtlSeconds)])
  | issued (id : Nat) (request : Request) (env : CallEnv) (port : UInt16) (token : CString)
      (expiresAt : Time) (call : event = .call id none env)
      (was : process.requests id = some request) (route : request.route = .exchange)
      (created : authIssuePairToken process.world.auth request.info.clientIp.str
        request.info.peerName.str port request.info.pairCode.str process.world.clock
        env.codeRandom env.random = (after.world.auth, some (token, expiresAt)))
      (logged : entries = [.compared id request.info.clientIp.str (.lit "pair_exchange")
          process.world.clock,
        .issued request.info.clientIp.str port token expiresAt])
  | stored (id : Nat) (request : Request) (env : ProceedEnv) (port : UInt16) (peer : PeerInfo)
      (token : CString) (expiresAt : Time) (call : event = .proceed id env)
      (was : process.requests id = some request)
      (phase : request.phase = .pairStore port peer token expiresAt)
      (created : authStorePeerToken process.world.auth request.info.targetIp.str port
        (pairedName request peer) token expiresAt = (after.world.auth, true))
      (logged : entries = [.recorded id request.info.targetIp.str port token expiresAt])

section calls
variable {process : Process} {id : Nat} {request : Request} {env : CallEnv}

theorem chunkStep_consulted (body : Body) : process.world.auth.Consulted process.world.clock
    (chunkStep process.world id request body env).1.auth := by
  have hgate := @chunkGate_consulted process.world.auth request.info request.headers
    process.world.clock env.unwritten request.route
  unfold chunkStep
  dsimp only
  split <;> rename_i heq <;> rw [heq] at hgate <;> exact hgate

theorem chunkStep_not_credential (body : Body) :
    ∀ entry ∈ (chunkStep process.world id request body env).2.2,
      entry.isCredential = false := by
  intro entry hentry
  rcases eq_of_mem_chunkStep body hentry with rfl | ⟨scope, rfl⟩ | ⟨path, rfl⟩
  · rfl
  · rfl
  · rfl

theorem AuthChange.of_consulted {event : Event} {outcome : Outcome}
    (hauth : process.world.auth.Consulted process.world.clock outcome.1.auth)
    (hquiet : ∀ entry ∈ outcome.2.2, entry.isCredential = false) :
    AuthChange process event (process.settle id outcome).1 outcome.2.2 :=
  .consulted hauth hquiet

theorem unlockFinal_authChange (hwas : process.requests id = some request)
    (hroute : request.route = .unlock) :
    AuthChange process (.call id none env)
      (process.settle id (unlockFinal process.world id request env)).1
      (unlockFinal process.world id request env).2.2 := by
  unfold unlockFinal
  dsimp only
  split
  · exact .of_consulted (.refl _ _) (by simp)
  · split
    · exact .of_consulted (.refl _ _) (by simp)
    · split
      · rename_i auth' hcreated
        refine .of_consulted ?_ (by simp [Entry.isCredential])
        rw [authCreateUiSession_none hcreated]
        exact .refl _ _
      · rename_i auth' token hcreated
        exact .session id request env token rfl hwas hroute hcreated rfl

theorem exchangeFinal_authChange (hwas : process.requests id = some request)
    (hroute : request.route = .exchange) :
    AuthChange process (.call id none env)
      (process.settle id (exchangeFinal process.world id request env)).1
      (exchangeFinal process.world id request env).2.2 := by
  unfold exchangeFinal
  dsimp only
  split
  · exact .of_consulted (.refl _ _) (by simp)
  · split
    · exact .of_consulted (.refl _ _) (by simp)
    · split
      · exact .of_consulted (.refl _ _) (by simp)
      · rename_i port hport
        split
        · rename_i auth' hcreated
          exact .of_consulted (authIssuePairToken_none hcreated) (by simp [Entry.isCredential])
        · rename_i auth' token expiresAt hcreated
          exact .issued id request env port token expiresAt rfl hwas hroute hcreated rfl

theorem uploadFinal_consulted {world : World} :
    (uploadFinal world id request env).1.auth = world.auth ∧
      ∀ entry ∈ (uploadFinal world id request env).2.2, entry.isCredential = false := by
  unfold uploadFinal
  dsimp only
  repeat' split
  all_goals exact ⟨rfl, by simp [Entry.isCredential]⟩

theorem pairFinal_consulted {world : World} :
    (pairFinal world id request).1.auth = world.auth ∧
      ∀ entry ∈ (pairFinal world id request).2.2, entry.isCredential = false := by
  unfold pairFinal
  dsimp only
  repeat' split
  all_goals exact ⟨rfl, by simp [Entry.isCredential]⟩

theorem sendFinal_consulted {world : World} :
    world.auth.Consulted world.clock (sendFinal world request env).1.auth ∧
      ∀ entry ∈ (sendFinal world request env).2.2, entry.isCredential = false := by
  have hpeer := validateTargetPeer_consulted world.auth world.registry request.info world.clock
  unfold sendFinal
  dsimp only
  split
  · exact ⟨.refl _ _, by simp⟩
  · split
    · exact ⟨.refl _ _, by simp⟩
    · split <;> rename_i heq <;> rw [heq] at hpeer
      · exact ⟨hpeer, by simp⟩
      · split <;> exact ⟨hpeer, by simp⟩

theorem localCodeCall_consulted {world : World} :
    world.auth.Consulted world.clock (localCodeCall world id request env).1.auth ∧
      ∀ entry ∈ (localCodeCall world id request env).2.2, entry.isCredential = false := by
  have hgate := @authorizeUiRequest_consulted world.auth request.info request.headers
    (.lit "pair_code") 20 world.clock env.unwritten
  unfold localCodeCall
  dsimp only
  split <;> rename_i heq <;> rw [heq] at hgate
  · exact ⟨hgate, by simp [Entry.isCredential]⟩
  · rename_i auth' info'
    have hcode := @authGetPairingCode_consulted auth' world.clock env.codeRandom
    split <;> rename_i heq' <;> rw [heq'] at hcode <;>
      exact ⟨hgate.trans hcode, by simp [Entry.isCredential]⟩

theorem transfersCall_consulted {world : World} (status : Option Bytes) :
    world.auth.Consulted world.clock (transfersCall world id request env status).1.auth ∧
      ∀ entry ∈ (transfersCall world id request env status).2.2,
        entry.isCredential = false := by
  have hgate := @authorizeUiRequest_consulted world.auth request.info request.headers
    (.lit "transfer_status") 30 world.clock env.unwritten
  unfold transfersCall
  dsimp only
  split <;> rename_i heq <;> rw [heq] at hgate
  · exact ⟨hgate, by simp [Entry.isCredential]⟩
  · split <;> exact ⟨hgate, by simp [Entry.isCredential]⟩

theorem answerToConnection_authChange (hwas : process.requests id = some request)
    (upload : Option Body) :
    AuthChange process (.call id upload env)
      (process.settle id (answerToConnection process.world id request upload env)).1
      (answerToConnection process.world id request upload env).2.2 := by
  have hdispatch := answerToConnection_dispatch process.world id request upload env
  generalize answerToConnection process.world id request upload env = outcome at hdispatch ⊢
  cases hdispatch with
  | index | devices | notFound => exact .of_consulted (.refl _ _) (by simp)
  | localCode => exact .of_consulted localCodeCall_consulted.1 localCodeCall_consulted.2
  | transfers | transfer =>
      exact .of_consulted (transfersCall_consulted _).1 (transfersCall_consulted _).2
  | chunk body => exact .of_consulted (chunkStep_consulted body) (chunkStep_not_credential body)
  | unlock route => exact unlockFinal_authChange hwas route
  | exchange route => exact exchangeFinal_authChange hwas route
  | upload =>
      exact .of_consulted (by rw [uploadFinal_consulted.1]; exact .refl _ _)
        uploadFinal_consulted.2
  | pair =>
      exact .of_consulted (by rw [pairFinal_consulted.1]; exact .refl _ _) pairFinal_consulted.2
  | send => exact .of_consulted sendFinal_consulted.1 sendFinal_consulted.2

end calls

theorem proceed_authChange {process : Process} {id : Nat} {request : Request}
    {env : ProceedEnv} {outcome : Outcome} (hwas : process.requests id = some request)
    (h : proceed process.world id request env = some outcome) :
    AuthChange process (.proceed id env) (process.settle id outcome).1 outcome.2.2 := by
  cases proceed_proceeds h with
  | exchangeAdd | exchangeMark | pairRefused | pairAccepted | pairMark | sendCleanup =>
      exact .of_consulted (.refl _ _) (by simp)
  | @pairStore port peer token expiresAt phase =>
      cases hstore : authStorePeerToken process.world.auth request.info.targetIp.str port
        (pairedName request peer) token expiresAt with
      | mk auth' stored =>
          cases stored with
          | false =>
              refine .of_consulted ?_ (by simp)
              rw [authStorePeerToken_false hstore]
              exact .refl _ _
          | true =>
              exact .stored id request env port peer token expiresAt rfl hwas phase hstore rfl
  | sendRefused phase | sendEnqueued phase =>
      refine .of_consulted (.refl _ _) ((proceed_proceeds h).entries ?_ (fun _ _ => rfl)
        fun _ _ _ => rfl)
      intro _ _ _ _ hother
      rw [phase] at hother
      contradiction

/-- Every step either looks things up or adds one credential. -/
theorem next_auth {process after : Process} {event : Event} {entries : List Entry}
    (h : next process event = some (after, entries)) :
    AuthChange process event after entries := by
  cases next_steps h with
  | call id upload env request was phase => exact answerToConnection_authChange was upload
  | proceed id env request outcome was continues => exact proceed_authChange was continues
  | completed id request was releasable =>
      unfold requestCompleted
      split
      · exact .consulted (.refl _ _) (by simp)
      · exact .consulted (.refl _ _) (forall_mem_abortUnlinks (fun _ _ => rfl) _ _)
  | workerDone success result ends =>
      exact .consulted (.refl _ _) (forall_mem_jobUnlinks (fun _ _ => rfl) _)
  | tick | accept | workerTake | workerCall | workerProgress | workerExit | resolved | removed
  | serverStop | queueShutdown => exact .consulted (.refl _ _) (by simp)

theorem uniqueEndpoints_next {process after : Process} {event : Event} {entries : List Entry}
    (honroutes : OnRoutes process) (hunique : UniqueEndpoints process.world.auth.peerTokens)
    (h : next process event = some (after, entries)) :
    UniqueEndpoints after.world.auth.peerTokens := by
  cases next_auth h with
  | consulted lookups quiet => exact lookups.unique hunique
  | session id request env token call was route created logged =>
      obtain ⟨-, -, sessions, hauth, -⟩ := authCreateUiSession_some created
      rw [hauth]
      exact hunique
  | issued id request env port token expiresAt call was route created logged =>
      obtain ⟨current, table, -, -, -, -, hupsert, hauth⟩ := authIssuePairToken_eq_some created
      rw [hauth]
      exact uniqueEndpoints_upsert hupsert request.info.clientIp.fits hunique
  | stored id request env port peer token expiresAt call was phase created logged =>
      obtain ⟨table, hupsert, hauth⟩ := authStorePeerToken_eq_true created
      have honroute := honroutes id request was
      simp only [Request.OnRoute, phase] at honroute
      rw [hauth]
      exact uniqueEndpoints_upsert hupsert honroute.2.1 hunique

theorem uniqueEndpoints_step (process : Process) (event : Event) (after : Process)
    (h : OnRoutes process ∧ UniqueEndpoints process.world.auth.peerTokens)
    (hstep : step process event = some after) :
    OnRoutes after ∧ UniqueEndpoints after.world.auth.peerTokens := by
  obtain ⟨settled, entries, hnext, rfl⟩ := step_eq_some hstep
  have honroutes := onRoutes_next h.1 hnext
  have hunique := uniqueEndpoints_next h.1 h.2 hnext
  exact ⟨honroutes, hunique⟩

theorem Started.unique {process : Process} (h : Started process) :
    UniqueEndpoints process.world.auth.peerTokens := by
  obtain ⟨adminRandom, pairingRandom, hinit⟩ := h.auth
  rw [(authInit_tables hinit).2.1]
  exact uniqueEndpoints_replicate

theorem Started.tokens_inactive {process : Process} (h : Started process) :
    (∀ session ∈ process.world.auth.uiSessions.slots, session.active = false) ∧
      ∀ record ∈ process.world.auth.peerTokens.slots, record.active = false := by
  obtain ⟨adminRandom, pairingRandom, hinit⟩ := h.auth
  obtain ⟨hsessions, htokens, -⟩ := authInit_tables hinit
  rw [hsessions, htokens]
  refine ⟨fun session hmem => ?_, fun record hmem => ?_⟩
  · rw [List.eq_of_mem_replicate hmem]
    rfl
  · rw [List.eq_of_mem_replicate hmem]
    rfl

theorem next_adminCode {process after : Process} {event : Event} {entries : List Entry}
    (h : next process event = some (after, entries)) :
    after.world.auth.adminCode = process.world.auth.adminCode := by
  cases next_auth h with
  | consulted lookups quiet => exact lookups.adminCode
  | session id request env token call was route created logged =>
      obtain ⟨-, -, sessions, hauth, -⟩ := authCreateUiSession_some created
      rw [hauth]
  | issued id request env port token expiresAt call was route created logged =>
      obtain ⟨current, table, hcurrent, -, -, -, -, hauth⟩ := authIssuePairToken_eq_some created
      rw [hauth]
      exact (ensurePairingCodeLocked_consulted hcurrent).adminCode
  | stored id request env port peer token expiresAt call was phase created logged =>
      obtain ⟨table, -, hauth⟩ := authStorePeerToken_eq_true created
      rw [hauth]

end LocalDrop
