import LocalDrop.Process

/-! What a call of `answer_to_connection` and a step inside a handler come down to. -/
namespace LocalDrop
open Lib

/-- The function that takes a call, by route and by whether the call brings a chunk. -/
inductive Dispatch (world : World) (id : Nat) (request : Request) (env : CallEnv) :
    Option Body → Outcome → Prop
  | index {upload : Option Body} (route : request.route = .index) :
      Dispatch world id request env upload (world, request.answer .indexPage, [])
  | devices {upload : Option Body} (route : request.route = .devices) :
      Dispatch world id request env upload
        (world, request.answer (.json 200 (peerRegistrySnapshotJson world.registry)), [])
  | notFound {upload : Option Body} (route : request.route = .notFound) :
      Dispatch world id request env upload (world, request.answer .notFound, [])
  | localCode {upload : Option Body} (route : request.route = .localCode) :
      Dispatch world id request env upload (localCodeCall world id request env)
  | transfers {upload : Option Body} (route : request.route = .transfers) :
      Dispatch world id request env upload
        (transfersCall world id request env (some (transferStatusListJson world.queue)))
  | transfer {upload : Option Body} {jobId : CString} (route : request.route = .transfer jobId) :
      Dispatch world id request env upload
        (transfersCall world id request env (transferStatusGet world.queue jobId))
  | chunk (body : Body) (route : request.route ∈ [.unlock, .exchange, .upload, .pair, .send]) :
      Dispatch world id request env (some body) (chunkStep world id request body env)
  | unlock (route : request.route = .unlock) :
      Dispatch world id request env none (unlockFinal world id request env)
  | exchange (route : request.route = .exchange) :
      Dispatch world id request env none (exchangeFinal world id request env)
  | upload (route : request.route = .upload) :
      Dispatch world id request env none (uploadFinal world id request env)
  | pair (route : request.route = .pair) :
      Dispatch world id request env none (pairFinal world id request)
  | send (route : request.route = .send) :
      Dispatch world id request env none (sendFinal world request env)

theorem answerToConnection_dispatch (world : World) (id : Nat) (request : Request)
    (upload : Option Body) (env : CallEnv) :
    Dispatch world id request env upload (answerToConnection world id request upload env) := by
  unfold answerToConnection
  cases hroute : request.route with
  | index => exact .index hroute
  | devices => exact .devices hroute
  | localCode => exact .localCode hroute
  | transfers => exact .transfers hroute
  | transfer jobId => exact .transfer hroute
  | notFound => exact .notFound hroute
  | unlock =>
      cases upload with
      | some body => exact .chunk body (by simp [hroute])
      | none => exact .unlock hroute
  | exchange =>
      cases upload with
      | some body => exact .chunk body (by simp [hroute])
      | none => exact .exchange hroute
  | upload =>
      cases upload with
      | some body => exact .chunk body (by simp [hroute])
      | none => exact .upload hroute
  | pair =>
      cases upload with
      | some body => exact .chunk body (by simp [hroute])
      | none => exact .pair hroute
  | send =>
      cases upload with
      | some body => exact .chunk body (by simp [hroute])
      | none => exact .send hroute

section dispatch
variable {world : World} {id : Nat} {request : Request} {env : CallEnv}

theorem answerToConnection_body
    (hroute : request.route ∈ [.unlock, .exchange, .upload, .pair, .send]) (body : Body) :
    answerToConnection world id request (some body) env =
      chunkStep world id request body env := by
  unfold answerToConnection
  cases hcase : request.route <;> simp [hcase] at hroute ⊢

theorem eq_charged_of_mem {auth : Auth} {now : Time} {entry : Entry}
    (h : entry ∈ chargedEntries auth id request now) :
    ∃ scope, entry = .charged id request.info.clientIp.str scope now := by
  unfold chargedEntries at h
  split at h
  · simp at h
  · split at h
    · exact ⟨_, List.mem_singleton.mp h⟩
    · simp at h

theorem eq_staged_of_mem {route : Route} {before after : ConnectionInfo} {entry : Entry}
    (h : entry ∈ stagedEntries id route before after) :
    entry = .staged id route after.uploadStage.stagingPath.str := by
  unfold stagedEntries at h
  split at h
  · exact List.mem_singleton.mp h
  · simp at h

theorem eq_of_mem_chunkStep (body : Body) {entry : Entry}
    (h : entry ∈ (chunkStep world id request body env).2.2) :
    entry = .chunk id request.chunks request.route request.info.clientIp.str request.headers
        world.clock ∨
      (∃ scope, entry = .charged id request.info.clientIp.str scope world.clock) ∨
      ∃ path, entry = .staged id request.route path := by
  unfold chunkStep at h
  dsimp only at h
  split at h
  · rcases List.mem_cons.mp h with harrived | hcharged
    · exact .inl harrived
    · exact .inr (.inl (eq_charged_of_mem hcharged))
  · rcases List.mem_append.mp h with hfirst | hstaged
    · rcases List.mem_cons.mp hfirst with harrived | hcharged
      · exact .inl harrived
      · exact .inr (.inl (eq_charged_of_mem hcharged))
    · exact .inr (.inr ⟨_, eq_staged_of_mem hstaged⟩)

theorem chunkStep_phase (body : Body) :
    (chunkStep world id request body env).2.1.phase = request.phase := by
  unfold chunkStep
  dsimp only
  split <;> rfl

theorem answerToConnection_upload (hroute : request.route = .upload) :
    answerToConnection world id request none env = uploadFinal world id request env := by
  simp [answerToConnection, hroute]

theorem answerToConnection_send (hroute : request.route = .send) :
    answerToConnection world id request none env = sendFinal world request env := by
  simp [answerToConnection, hroute]

end dispatch

def pairedName (request : Request) (peer : PeerInfo) : CString :=
  if request.info.targetName.str ≠ CString.empty then request.info.targetName.str
  else peer.name.str

/-- What a handler does next, by the lock it stands before. -/
inductive Proceeds (world : World) (id : Nat) (request : Request) (env : ProceedEnv) :
    Outcome → Prop
  | exchangeAdd {port : UInt16} {token : CString} {expiresAt : Time}
      (phase : request.phase = .exchangeAdd port token expiresAt) :
      Proceeds world id request env
        ({ world with registry := (peerRegistryAddOrUpdate world.registry
            request.info.peerName.str request.info.clientIp.str port world.clock).1 },
          { request with phase := .exchangeMark port token expiresAt }, [])
  | exchangeMark {port : UInt16} {token : CString} {expiresAt : Time}
      (phase : request.phase = .exchangeMark port token expiresAt) :
      Proceeds world id request env
        ({ world with registry :=
            (peerRegistrySetPaired world.registry request.info.clientIp.str port true).1 },
          request.answer (.json 200 (pairResponse pairMessage token expiresAt)), [])
  | pairRefused {port : UInt16} {peer : PeerInfo} {written : Option CString} {reply : Reply}
      (phase : request.phase = .pairRemote port peer)
      (refused : transferPairPeer env.transport 65 256 = .refused written)
      (bad : reply.status = 502) :
      Proceeds world id request env (world, request.answer reply, [])
  | pairAccepted {port : UInt16} {peer : PeerInfo} {token : CString} {expiresAt : Time}
      {message : CString} (phase : request.phase = .pairRemote port peer)
      (paired : transferPairPeer env.transport 65 256 = .paired token expiresAt message) :
      Proceeds world id request env
        (world, { request with phase := .pairStore port peer token expiresAt }, [])
  | pairStore {port : UInt16} {peer : PeerInfo} {token : CString} {expiresAt : Time}
      (phase : request.phase = .pairStore port peer token expiresAt) :
      Proceeds world id request env
        ({ world with auth := (authStorePeerToken world.auth request.info.targetIp.str port
            (pairedName request peer) token expiresAt).1 },
          { request with phase := .pairMark port },
          if (authStorePeerToken world.auth request.info.targetIp.str port
              (pairedName request peer) token expiresAt).2 then
            [.recorded id request.info.targetIp.str port token expiresAt]
          else [])
  | pairMark {port : UInt16} (phase : request.phase = .pairMark port) :
      Proceeds world id request env
        ({ world with registry :=
            (peerRegistrySetPaired world.registry request.info.targetIp.str port true).1 },
          request.answer (queueJsonStatusMessage 200 (.lit "ok")
            (.lit "Peer pareado com sucesso")), [])
  | sendCleanup {port : UInt16} {token : CString}
      (phase : request.phase = .sendCleanup port token) :
      Proceeds world id request env
        ({ world with
            fs := cleanupExpiredStagingFiles world.fs stagingRetentionSeconds world.clock },
          { request with phase := .sendEnqueue port token }, [])
  | sendRefused {port : UInt16} {token : CString} {queue : TransferQueue} {deleted : Deletions}
      (phase : request.phase = .sendEnqueue port token)
      (refused : transferEnqueue world.queue
        ⟨request.info.filename.str, request.info.targetIp.str, port, token⟩ world.clock
        env.random = (queue, deleted, none)) :
      Proceeds world id request env
        ({ world with
            queue := queue
            fs := (uploadStageAbort (deleteAll world.fs (deleted.map Prod.snd))
              request.info.uploadStage).1 },
          { request with info := { request.info with
              fileSaved := false
              uploadStage := (uploadStageAbort (deleteAll world.fs (deleted.map Prod.snd))
                request.info.uploadStage).2 } }.answer
            (errorReply 503 "Fila de transferencia indisponivel"),
          jobUnlinks deleted ++ abortUnlinks id request.info.uploadStage)
  | sendEnqueued {port : UInt16} {token jobId : CString} {queue : TransferQueue}
      {deleted : Deletions} (phase : request.phase = .sendEnqueue port token)
      (enqueued : transferEnqueue world.queue
        ⟨request.info.filename.str, request.info.targetIp.str, port, token⟩ world.clock
        env.random = (queue, deleted, some jobId)) :
      Proceeds world id request env
        ({ world with queue := queue, fs := deleteAll world.fs (deleted.map Prod.snd) },
          request.answer (queueJsonTransferResponse
            (.lit "Transferencia enfileirada com sucesso") jobId),
          jobUnlinks deleted ++ [.jobCreated id request.info.filename.str])

theorem proceed_proceeds {world : World} {id : Nat} {request : Request} {env : ProceedEnv}
    {outcome : Outcome} (h : proceed world id request env = some outcome) :
    Proceeds world id request env outcome := by
  unfold proceed at h
  cases hphase : request.phase with
  | receiving | answered reply => simp [hphase] at h
  | exchangeAdd port token expiresAt =>
      rw [hphase] at h
      cases Option.some.inj h
      exact .exchangeAdd hphase
  | exchangeMark port token expiresAt =>
      rw [hphase] at h
      cases Option.some.inj h
      exact .exchangeMark hphase
  | pairRemote port peer =>
      simp only [hphase] at h
      split at h <;> cases Option.some.inj h
      · rename_i hrefused
        exact .pairRefused hphase hrefused rfl
      · rename_i hpaired
        exact .pairAccepted hphase hpaired
  | pairStore port peer token expiresAt =>
      rw [hphase] at h
      cases Option.some.inj h
      exact .pairStore hphase
  | pairMark port =>
      rw [hphase] at h
      cases Option.some.inj h
      exact .pairMark hphase
  | sendCleanup port token =>
      rw [hphase] at h
      cases Option.some.inj h
      exact .sendCleanup hphase
  | sendEnqueue port token =>
      simp only [hphase] at h
      generalize henqueue : transferEnqueue world.queue
        ⟨request.info.filename.str, request.info.targetIp.str, port, token⟩ world.clock
        env.random = enqueue at h
      obtain ⟨queue, deleted, jobId⟩ := enqueue
      cases jobId with
      | none =>
          cases Option.some.inj h
          exact .sendRefused hphase henqueue
      | some jobId =>
          cases Option.some.inj h
          exact .sendEnqueued hphase henqueue

theorem forall_mem_jobUnlinks {P : Entry → Prop} (h : ∀ owner path, P (.unlinked owner path))
    (deleted : Deletions) : ∀ entry ∈ jobUnlinks deleted, P entry := by
  intro entry hentry
  obtain ⟨deletion, -, rfl⟩ := List.mem_map.mp hentry
  exact h _ _

theorem forall_mem_abortUnlinks {P : Entry → Prop} (h : ∀ owner path, P (.unlinked owner path))
    (id : Nat) (stage : UploadStage) : ∀ entry ∈ abortUnlinks id stage, P entry := by
  intro entry hentry
  unfold abortUnlinks at hentry
  split at hentry
  · simp at hentry
  · rw [List.mem_singleton] at hentry
    exact hentry ▸ h _ _

/-- A handler logs the token it records, the files it deletes and the job it makes. -/
theorem Proceeds.entries {world : World} {id : Nat} {request : Request} {env : ProceedEnv}
    {outcome : Outcome} (h : Proceeds world id request env outcome) {P : Entry → Prop}
    (hrecorded : ∀ port peer token expiresAt, request.phase = .pairStore port peer token expiresAt →
      P (.recorded id request.info.targetIp.str port token expiresAt))
    (hunlinked : ∀ owner path, P (.unlinked owner path))
    (hcreated : ∀ port token, request.phase = .sendEnqueue port token →
      P (.jobCreated id request.info.filename.str)) :
    ∀ entry ∈ outcome.2.2, P entry := by
  intro entry hentry
  cases h with
  | exchangeAdd | exchangeMark | pairRefused | pairAccepted | pairMark | sendCleanup =>
      simp at hentry
  | pairStore phase =>
      dsimp only at hentry
      split at hentry
      · rw [List.mem_singleton] at hentry
        exact hentry ▸ hrecorded _ _ _ _ phase
      · simp at hentry
  | sendRefused =>
      rcases List.mem_append.mp hentry with hpruned | haborted
      · exact forall_mem_jobUnlinks hunlinked _ entry hpruned
      · exact forall_mem_abortUnlinks hunlinked _ _ entry haborted
  | sendEnqueued phase =>
      rcases List.mem_append.mp hentry with hpruned | hjob
      · exact forall_mem_jobUnlinks hunlinked _ entry hpruned
      · rw [List.mem_singleton] at hjob
        exact hjob ▸ hcreated _ _ phase

end LocalDrop
