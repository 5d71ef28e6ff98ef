import LocalDrop.Lib.Runs
import LocalDrop.Server

/-! One LocalDrop process: the request threads of the server, the transfer worker,
discovery and the clock, interleaving. A call of `answer_to_connection` is one
step, except where a handler leaves one lock and takes another or waits for the
network: there it continues in a later step, and anything may happen in between.
What happened is kept in a log that no function reads. -/
namespace LocalDrop
open Lib

/-- Where a request is: between calls, inside the final call of a handler, or
answered and about to be released. -/
inductive Phase where
  | receiving
  | exchangeAdd (port : UInt16) (token : CString) (expiresAt : Time)
  | exchangeMark (port : UInt16) (token : CString) (expiresAt : Time)
  | pairRemote (port : UInt16) (peer : PeerInfo)
  | pairStore (port : UInt16) (peer : PeerInfo) (token : CString) (expiresAt : Time)
  | pairMark (port : UInt16)
  | sendCleanup (port : UInt16) (token : CString)
  | sendEnqueue (port : UInt16) (token : CString)
  | answered (reply : Reply)
deriving DecidableEq

/-- `chunks` is history: how many body chunks the request has had. -/
structure Request where
  route : Route
  headers : Headers
  info : ConnectionInfo
  chunks : Nat
  phase : Phase

/-- Who deletes a file, or may. -/
inductive Owner where
  | request (id : Nat)
  | job (slot : Slot)
deriving DecidableEq

inductive Entry where
  | chunk (id index : Nat) (route : Route) (clientIp : CString) (headers : Headers) (now : Time)
  | call (id : Nat) (clientIp : CString) (headers : Headers) (now : Time)
  | charged (id : Nat) (clientIp scope : CString) (now : Time)
  | compared (id : Nat) (clientIp scope : CString) (now : Time)
  | session (clientIp token : CString) (expiresAt : Time)
  | issued (clientIp : CString) (port : UInt16) (token : CString) (expiresAt : Time)
  | recorded (id : Nat) (peerIp : CString) (port : UInt16) (token : CString) (expiresAt : Time)
  | staged (id : Nat) (route : Route) (path : CString)
  | committed (id : Nat) (now : Time) (name path : CString)
  | jobCreated (id : Nat) (path : CString)
  | pairStarted (id : Nat) (peerIp : CString) (port : UInt16)
  | codeDisclosed (id : Nat)
  | statusDisclosed (id : Nat)
  | unlinked (owner : Owner) (path : CString)
deriving DecidableEq

structure World where
  clock : Time
  auth : Auth
  registry : PeerRegistry
  queue : TransferQueue
  fs : FileSystem

structure Process where
  world : World
  requests : Nat → Option Request
  nextId : Nat
  serving : Bool
  log : List Entry

structure Body where
  items : List PostItem
  processed : Bool
deriving DecidableEq

/-- What the environment contributes to a call. -/
structure CallEnv where
  unwritten : CString
  codeRandom : RandomBytes 6
  random : RandomBytes 32
  sealing : SealEnv
deriving DecidableEq

structure ProceedEnv where
  transport : PairTransport
  unwritten : CString
  random : RandomBytes 8
deriving DecidableEq

abbrev Outcome := World × Request × List Entry

def Request.answer (request : Request) (reply : Reply) : Request :=
  { request with phase := .answered reply }

def chargedEntries (auth : Auth) (id : Nat) (request : Request) (now : Time) : List Entry :=
  match request.route.secretLimit with
  | none => []
  | some (scope, limit) =>
      if request.info.authChecked = false ∧
          (authRateLimitAllow auth request.info.clientIp.str scope limit 60 now).2 = .allowed then
        [.charged id request.info.clientIp.str scope now]
      else []

def stagedEntries (id : Nat) (route : Route) (before after : ConnectionInfo) : List Entry :=
  if before.uploadInProgress = false ∧ after.uploadInProgress = true then
    [.staged id route after.uploadStage.stagingPath.str]
  else []

def chunkStep (world : World) (id : Nat) (request : Request) (body : Body) (env : CallEnv) :
    Outcome :=
  let now := world.clock
  let charged := chargedEntries world.auth id request now
  let arrived := Entry.chunk id request.chunks request.route request.info.clientIp.str
    request.headers now
  match chunkGate world.auth request.info request.route request.headers now env.unwritten with
  | (auth, info, false) =>
      ({ world with auth := auth },
        { request with info := info, chunks := request.chunks + 1 }, arrived :: charged)
  | (auth, info, true) =>
      let (fs, info') := postProcess world.fs id info request.route now body.items body.processed
      ({ world with auth := auth, fs := fs },
        { request with info := info', chunks := request.chunks + 1 },
        arrived :: charged ++ stagedEntries id request.route info info')

def unlockFinal (world : World) (id : Nat) (request : Request) (env : CallEnv) : Outcome :=
  let info := request.info
  if 400 ≤ info.responseStatus then (world, request.answer info.errorReply, [])
  else if info.adminCode.str = CString.empty then
    (world, request.answer (errorReply 400 "Codigo administrativo ausente"), [])
  else
    let compared := Entry.compared id info.clientIp.str (.lit "session_unlock") world.clock
    match authCreateUiSession world.auth info.clientIp.str info.adminCode.str world.clock
        env.random with
    | (auth, none) =>
        ({ world with auth := auth },
          request.answer (errorReply 401 "Codigo administrativo invalido"), [compared])
    | (auth, some token) =>
        ({ world with auth := auth },
          request.answer
            (queueJsonSessionResponse 200 (.lit "Sessao destravada com sucesso") token),
          [compared,
            .session info.clientIp.str token (world.clock + uiSessionTtlSeconds)])

def exchangeFinal (world : World) (id : Nat) (request : Request) (env : CallEnv) : Outcome :=
  let info := request.info
  let invalid := (world, request.answer (errorReply 400 "Dados de pareamento invalidos"), [])
  if 400 ≤ info.responseStatus then (world, request.answer info.errorReply, [])
  else if info.pairCode.str = CString.empty ∨ info.peerName.str = CString.empty then invalid
  else
    match parsePort info.peerPort.str with
    | none => invalid
    | some port =>
        let compared := Entry.compared id info.clientIp.str (.lit "pair_exchange") world.clock
        match authIssuePairToken world.auth info.clientIp.str info.peerName.str port
            info.pairCode.str world.clock env.codeRandom env.random with
        | (auth, none) =>
            ({ world with auth := auth },
              request.answer (errorReply 403 "Codigo de pareamento invalido ou expirado"),
              [compared])
        | (auth, some (token, expiresAt)) =>
            ({ world with auth := auth },
              { request with phase := .exchangeAdd port token expiresAt },
              [compared, .issued info.clientIp.str port token expiresAt])

def uploadFinal (world : World) (id : Nat) (request : Request) (env : CallEnv) : Outcome :=
  let info := request.info
  if 400 ≤ info.responseStatus then (world, request.answer info.errorReply, [])
  else if !info.uploadInProgress then
    (world, request.answer (errorReply 400 "Nenhum arquivo foi enviado"), [])
  else
    match uploadStageCommit world.fs info.uploadStage world.clock env.sealing with
    | (fs, stage, .error error) =>
        let info := { info with
          uploadStage := stage
          responseMessage := copyString error
          responseStatus := 500 }
        ({ world with fs := fs }, { request with info := info }.answer info.errorReply, [])
    | (fs, stage, .ok path) =>
        let info' := { info with uploadStage := stage, filename := path, fileSaved := true }
        ({ world with fs := fs },
          { request with info := info' }.answer
            (queueJsonStatusMessage 200 (.lit "ok") (.lit "Arquivo recebido com sucesso")),
          [.committed id world.clock info.uploadStage.commitName path.str])

def pairFinal (world : World) (id : Nat) (request : Request) : Outcome :=
  let info := request.info
  if 400 ≤ info.responseStatus then (world, request.answer info.errorReply, [])
  else if !validateIpAddress info.targetIp.str || info.pairCode.str = CString.empty then
    (world, request.answer (errorReply 400 "Destino ou codigo de pareamento invalido"), [])
  else
    match parsePort info.targetPort.str with
    | none => (world, request.answer (errorReply 400 "Porta do peer remoto invalida"), [])
    | some port =>
        let refused := (world, request.answer
          (errorReply 403 "Pareamento permitido apenas com peers descobertos e ativos"), [])
        match peerRegistryFindByEndpoint world.registry info.targetIp.str port with
        | none => refused
        | some peer =>
            if !peer.active then refused
            else
              (world, { request with phase := .pairRemote port peer },
                [.pairStarted id info.targetIp.str port])

def sendFinal (world : World) (request : Request) (env : CallEnv) : Outcome :=
  let info := request.info
  if 400 ≤ info.responseStatus then (world, request.answer info.errorReply, [])
  else if !info.uploadInProgress then
    (world, request.answer (errorReply 400 "Nenhum arquivo foi enviado"), [])
  else
    match validateTargetPeer world.auth world.registry info world.clock with
    | (auth, info, none) =>
        ({ world with auth := auth }, { request with info := info }.answer info.errorReply, [])
    | (auth, info, some (port, token)) =>
        match uploadStageSeal world.fs info.uploadStage world.clock env.sealing with
        | (fs, stage, some error) =>
            let info := { info with
              uploadStage := stage
              responseMessage := copyString error
              responseStatus := 500 }
            ({ world with auth := auth, fs := fs },
              { request with info := info }.answer info.errorReply, [])
        | (fs, stage, none) =>
            let info := { info with
              uploadStage := stage
              filename := stage.stagingPath
              fileSaved := true }
            ({ world with auth := auth, fs := fs },
              { request with info := info, phase := .sendCleanup port token }, [])

def localCodeCall (world : World) (id : Nat) (request : Request) (env : CallEnv) : Outcome :=
  let called := Entry.call id request.info.clientIp.str request.headers world.clock
  match authorizeUiRequest world.auth request.info request.headers (.lit "pair_code") 20
      world.clock env.unwritten with
  | (auth, info, false) =>
      ({ world with auth := auth }, { request with info := info }.answer info.errorReply, [called])
  | (auth, info, true) =>
      match authGetPairingCode auth world.clock env.codeRandom with
      | (auth, none) =>
          ({ world with auth := auth },
            { request with info := info }.answer
              (errorReply 500 "Nao foi possivel gerar o codigo de pareamento"), [called])
      | (auth, some (code, expiresAt)) =>
          ({ world with auth := auth },
            { request with info := info }.answer (queueJsonPairCodeResponse code expiresAt),
            [called, .codeDisclosed id])

/-- `/api/transfers` and `/api/transfers/<id>`, told apart by the answer. -/
def transfersCall (world : World) (id : Nat) (request : Request) (env : CallEnv)
    (status : Option Bytes) : Outcome :=
  let called := Entry.call id request.info.clientIp.str request.headers world.clock
  match authorizeUiRequest world.auth request.info request.headers (.lit "transfer_status") 30
      world.clock env.unwritten with
  | (auth, info, false) =>
      ({ world with auth := auth }, { request with info := info }.answer info.errorReply, [called])
  | (auth, info, true) =>
      match status with
      | none =>
          ({ world with auth := auth },
            { request with info := info }.answer (errorReply 404 "Transferencia nao encontrada"),
            [called])
      | some json =>
          ({ world with auth := auth }, { request with info := info }.answer (.json 200 json),
            [called, .statusDisclosed id])

/-- One call after the first; `upload` is the chunk it brings, if it brings one. -/
def answerToConnection (world : World) (id : Nat) (request : Request) (upload : Option Body)
    (env : CallEnv) : Outcome :=
  match request.route with
  | .index => (world, request.answer .indexPage, [])
  | .devices =>
      (world, request.answer (.json 200 (peerRegistrySnapshotJson world.registry)), [])
  | .localCode => localCodeCall world id request env
  | .transfers =>
      transfersCall world id request env (some (transferStatusListJson world.queue))
  | .transfer jobId =>
      transfersCall world id request env (transferStatusGet world.queue jobId)
  | .notFound => (world, request.answer .notFound, [])
  | .unlock =>
      match upload with
      | some body => chunkStep world id request body env
      | none => unlockFinal world id request env
  | .exchange =>
      match upload with
      | some body => chunkStep world id request body env
      | none => exchangeFinal world id request env
  | .upload =>
      match upload with
      | some body => chunkStep world id request body env
      | none => uploadFinal world id request env
  | .pair =>
      match upload with
      | some body => chunkStep world id request body env
      | none => pairFinal world id request
  | .send =>
      match upload with
      | some body => chunkStep world id request body env
      | none => sendFinal world request env

def deleteAll (fs : FileSystem) (paths : List CString) : FileSystem :=
  paths.foldl storageDeleteFile fs

def jobUnlinks (deleted : Deletions) : List Entry :=
  deleted.map fun deletion => .unlinked (.job deletion.1) deletion.2

def abortUnlinks (id : Nat) (stage : UploadStage) : List Entry :=
  if stage.stagingPath.str = CString.empty then []
  else [.unlinked (.request id) stage.stagingPath.str]

/-- The rest of a handler, one lock at a time. -/
def proceed (world : World) (id : Nat) (request : Request) (env : ProceedEnv) :
    Option Outcome :=
  let info := request.info
  match request.phase with
  | .exchangeAdd port token expiresAt =>
      some ({ world with registry := (peerRegistryAddOrUpdate world.registry info.peerName.str
          info.clientIp.str port world.clock).1 },
        { request with phase := .exchangeMark port token expiresAt }, [])
  | .exchangeMark port token expiresAt =>
      some ({ world with
          registry := (peerRegistrySetPaired world.registry info.clientIp.str port true).1 },
        request.answer (.json 200 (pairResponse pairMessage token expiresAt)), [])
  | .pairRemote port peer =>
      match transferPairPeer env.transport 65 256 with
      | .refused written =>
          let message := (written.getD env.unwritten).take 255
          some (world, request.answer (queueJsonStatusMessage 502 (.lit "error")
            (if message ≠ CString.empty then message
              else .lit "Peer remoto recusou o pareamento")), [])
      | .paired token expiresAt _ =>
          some (world, { request with phase := .pairStore port peer token expiresAt }, [])
  | .pairStore port peer token expiresAt =>
      let name := if info.targetName.str ≠ CString.empty then info.targetName.str
        else peer.name.str
      let (auth, stored) :=
        authStorePeerToken world.auth info.targetIp.str port name token expiresAt
      some ({ world with auth := auth }, { request with phase := .pairMark port },
        if stored then [.recorded id info.targetIp.str port token expiresAt] else [])
  | .pairMark port =>
      some ({ world with
          registry := (peerRegistrySetPaired world.registry info.targetIp.str port true).1 },
        request.answer (queueJsonStatusMessage 200 (.lit "ok") (.lit "Peer pareado com sucesso")),
        [])
  | .sendCleanup port token =>
      some ({ world with
          fs := cleanupExpiredStagingFiles world.fs stagingRetentionSeconds world.clock },
        { request with phase := .sendEnqueue port token }, [])
  | .sendEnqueue port token =>
      let enqueued := transferEnqueue world.queue
        ⟨info.filename.str, info.targetIp.str, port, token⟩ world.clock env.random
      let fs := deleteAll world.fs (enqueued.2.1.map Prod.snd)
      match enqueued.2.2 with
      | none =>
          let aborted := uploadStageAbort fs info.uploadStage
          some ({ world with queue := enqueued.1, fs := aborted.1 },
            { request with info := { info with
                fileSaved := false, uploadStage := aborted.2 } }.answer
              (errorReply 503 "Fila de transferencia indisponivel"),
            jobUnlinks enqueued.2.1 ++ abortUnlinks id info.uploadStage)
      | some jobId =>
          some ({ world with queue := enqueued.1, fs := fs },
            request.answer (queueJsonTransferResponse
              (.lit "Transferencia enfileirada com sucesso") jobId),
            jobUnlinks enqueued.2.1 ++ [.jobCreated id info.filename.str])
  | _ => none

/-- Called when the response is out or the client is gone. -/
def requestCompleted (world : World) (id : Nat) (request : Request) : World × List Entry :=
  if request.info.fileSaved then (world, [])
  else
    ({ world with fs := (uploadStageAbort world.fs request.info.uploadStage).1 },
      abortUnlinks id request.info.uploadStage)

inductive Event where
  | tick (seconds : Nat)
  | accept (url method : CString) (clientIp : Chars 46) (headers : Headers)
  | call (id : Nat) (upload : Option Body) (env : CallEnv)
  | proceed (id : Nat) (env : ProceedEnv)
  | completed (id : Nat)
  | workerTake
  | workerCall
  | workerProgress (bytesSent totalBytes : Nat)
  | workerDone (success : Bool)
  | workerExit
  | resolved (name ip : CString) (port : UInt16)
  | removed (name : CString)
  | serverStop
  | queueShutdown
deriving DecidableEq

/-- Largest clock reading of a 64-bit `time_t`. -/
def timeMax : Time := 2 ^ 63 - 1

/-- A request may be released between calls and after its answer, not from inside
a handler. -/
def Request.releasable (request : Request) : Bool :=
  match request.phase with
  | .receiving => true
  | .answered _ => true
  | _ => false

def Process.settle (process : Process) (id : Nat) (outcome : Outcome) :
    Process × List Entry :=
  ({ process with
      world := outcome.1
      requests := Function.update process.requests id (some outcome.2.1) },
    outcome.2.2)

def Process.withQueue (process : Process) (queue : TransferQueue) : Process :=
  { process with world := { process.world with queue := queue } }

/-- The state after an event and the entries it adds to the log. `main` stops the
server, which ends every request, before it shuts the queue down. -/
def next (process : Process) : Event → Option (Process × List Entry)
  | .tick seconds =>
      if process.world.clock + seconds ≤ timeMax then
        some ({ process with
          world := { process.world with clock := process.world.clock + seconds } }, [])
      else none
  | .accept url method clientIp headers =>
      if process.serving then
        some ({ process with
            requests := Function.update process.requests process.nextId (some {
              route := routeOf url method
              headers := headers
              info := newConnectionInfo method clientIp
              chunks := 0
              phase := .receiving })
            nextId := process.nextId + 1 }, [])
      else none
  | .call id upload env =>
      match process.requests id with
      | some request =>
          if process.serving ∧ request.phase = .receiving then
            some (process.settle id
              (answerToConnection process.world id request upload env))
          else none
      | none => none
  | .proceed id env =>
      match process.requests id with
      | some request => (proceed process.world id request env).map (process.settle id)
      | none => none
  | .completed id =>
      match process.requests id with
      | some request =>
          if request.releasable then
            let released := requestCompleted process.world id request
            some ({ process with
                world := released.1
                requests := Function.update process.requests id none }, released.2)
          else none
      | none => none
  | .workerTake =>
      (workerTake process.world.queue process.world.clock).map fun queue =>
        (process.withQueue queue, [])
  | .workerCall =>
      (workerCall process.world.queue).map fun queue => (process.withQueue queue, [])
  | .workerProgress bytesSent totalBytes =>
      (transferJobProgress process.world.queue bytesSent totalBytes process.world.clock).map
        fun queue => (process.withQueue queue, [])
  | .workerDone success =>
      (workerDone process.world.queue success process.world.clock).map fun result =>
        ({ process with world := { process.world with
            queue := result.1
            fs := deleteAll process.world.fs (result.2.map Prod.snd) } },
          jobUnlinks result.2)
  | .workerExit =>
      (workerExit process.world.queue).map fun queue => (process.withQueue queue, [])
  | .resolved name ip port =>
      some ({ process with world := { process.world with
        registry := (peerRegistryAddOrUpdate process.world.registry name ip port
          process.world.clock).1 } }, [])
  | .removed name =>
      some ({ process with world := { process.world with
        registry := (peerRegistryMarkInactive process.world.registry name).1 } }, [])
  | .serverStop => some ({ process with serving := false }, [])
  | .queueShutdown =>
      if process.serving = false ∧ ∀ id < process.nextId, process.requests id = none then
        some (process.withQueue (transferQueueShutdown process.world.queue), [])
      else none

def step (process : Process) (event : Event) : Option Process :=
  (next process event).map fun result => { result.1 with log := process.log ++ result.2 }

/-- Everything an event can do, with the conditions under which it is enabled. -/
inductive Steps (process : Process) : Event → Process → List Entry → Prop
  | tick (seconds : Nat) (bound : process.world.clock + seconds ≤ timeMax) :
      Steps process (.tick seconds) { process with
        world := { process.world with clock := process.world.clock + seconds } } []
  | accept (url method : CString) (clientIp : Chars 46) (headers : Headers)
      (serving : process.serving = true) :
      Steps process (.accept url method clientIp headers) { process with
        requests := Function.update process.requests process.nextId (some {
          route := routeOf url method
          headers := headers
          info := newConnectionInfo method clientIp
          chunks := 0
          phase := .receiving })
        nextId := process.nextId + 1 } []
  | call (id : Nat) (upload : Option Body) (env : CallEnv) (request : Request)
      (was : process.requests id = some request) (phase : request.phase = .receiving) :
      Steps process (.call id upload env)
        (process.settle id (answerToConnection process.world id request upload env)).1
        (answerToConnection process.world id request upload env).2.2
  | proceed (id : Nat) (env : ProceedEnv) (request : Request) (outcome : Outcome)
      (was : process.requests id = some request)
      (continues : proceed process.world id request env = some outcome) :
      Steps process (.proceed id env) (process.settle id outcome).1 outcome.2.2
  | completed (id : Nat) (request : Request) (was : process.requests id = some request)
      (releasable : request.releasable = true) :
      Steps process (.completed id) { process with
          world := (requestCompleted process.world id request).1
          requests := Function.update process.requests id none }
        (requestCompleted process.world id request).2
  | workerTake (queue : TransferQueue)
      (takes : workerTake process.world.queue process.world.clock = some queue) :
      Steps process .workerTake (process.withQueue queue) []
  | workerCall (queue : TransferQueue) (calls : workerCall process.world.queue = some queue) :
      Steps process .workerCall (process.withQueue queue) []
  | workerProgress (bytesSent totalBytes : Nat) (queue : TransferQueue)
      (advances : transferJobProgress process.world.queue bytesSent totalBytes
        process.world.clock = some queue) :
      Steps process (.workerProgress bytesSent totalBytes) (process.withQueue queue) []
  | workerDone (success : Bool) (result : TransferQueue × Deletions)
      (ends : workerDone process.world.queue success process.world.clock = some result) :
      Steps process (.workerDone success) { process with world := { process.world with
          queue := result.1
          fs := deleteAll process.world.fs (result.2.map Prod.snd) } }
        (jobUnlinks result.2)
  | workerExit (queue : TransferQueue) (exits : workerExit process.world.queue = some queue) :
      Steps process .workerExit (process.withQueue queue) []
  | resolved (name ip : CString) (port : UInt16) :
      Steps process (.resolved name ip port) { process with world := { process.world with
        registry := (peerRegistryAddOrUpdate process.world.registry name ip port
          process.world.clock).1 } } []
  | removed (name : CString) :
      Steps process (.removed name) { process with world := { process.world with
        registry := (peerRegistryMarkInactive process.world.registry name).1 } } []
  | serverStop : Steps process .serverStop { process with serving := false } []
  | queueShutdown (stopped : process.serving = false)
      (released : ∀ id < process.nextId, process.requests id = none) :
      Steps process .queueShutdown
        (process.withQueue (transferQueueShutdown process.world.queue)) []

theorem next_steps {process after : Process} {event : Event} {entries : List Entry}
    (h : next process event = some (after, entries)) : Steps process event after entries := by
  cases event with
  | tick seconds =>
      simp only [next] at h
      split at h
      · rename_i hbound
        cases Option.some.inj h
        exact .tick seconds hbound
      · contradiction
  | accept url method clientIp headers =>
      simp only [next] at h
      split at h
      · rename_i hserving
        cases Option.some.inj h
        exact .accept url method clientIp headers hserving
      · contradiction
  | call id upload env =>
      simp only [next] at h
      split at h
      · rename_i request hwas
        split at h
        · rename_i henabled
          cases Option.some.inj h
          exact .call id upload env request hwas henabled.2
        · contradiction
      · contradiction
  | proceed id env =>
      simp only [next] at h
      split at h
      · rename_i request hwas
        obtain ⟨outcome, houtcome, heq⟩ := Option.map_eq_some_iff.mp h
        cases heq
        exact .proceed id env request outcome hwas houtcome
      · contradiction
  | completed id =>
      simp only [next] at h
      split at h
      · rename_i request hwas
        split at h
        · rename_i hreleasable
          cases Option.some.inj h
          exact .completed id request hwas hreleasable
        · contradiction
      · contradiction
  | workerTake =>
      obtain ⟨queue, hqueue, heq⟩ := Option.map_eq_some_iff.mp h
      cases heq
      exact .workerTake queue hqueue
  | workerCall =>
      obtain ⟨queue, hqueue, heq⟩ := Option.map_eq_some_iff.mp h
      cases heq
      exact .workerCall queue hqueue
  | workerProgress bytesSent totalBytes =>
      obtain ⟨queue, hqueue, heq⟩ := Option.map_eq_some_iff.mp h
      cases heq
      exact .workerProgress bytesSent totalBytes queue hqueue
  | workerDone success =>
      obtain ⟨result, hresult, heq⟩ := Option.map_eq_some_iff.mp h
      cases heq
      exact .workerDone success result hresult
  | workerExit =>
      obtain ⟨queue, hqueue, heq⟩ := Option.map_eq_some_iff.mp h
      cases heq
      exact .workerExit queue hqueue
  | resolved name ip port =>
      cases Option.some.inj h
      exact .resolved name ip port
  | removed name =>
      cases Option.some.inj h
      exact .removed name
  | serverStop =>
      cases Option.some.inj h
      exact .serverStop
  | queueShutdown =>
      simp only [next] at h
      split at h
      · rename_i hstopped
        cases Option.some.inj h
        exact .queueShutdown hstopped.1 hstopped.2
      · contradiction

/-- A process that `main` has just brought up, with whatever files it found. -/
structure Started (process : Process) : Prop where
  clock : 0 ≤ process.world.clock ∧ process.world.clock ≤ timeMax
  auth : ∃ adminRandom pairingRandom,
    authInit adminRandom pairingRandom process.world.clock = some process.world.auth
  registry : process.world.registry = peerRegistryInit
  queue : process.world.queue = transferQueueInit
  leftovers : ∀ path file, process.world.fs path = some file → file.creator = none
  requests : process.requests = fun _ => none
  nextId : process.nextId = 0
  serving : process.serving = true
  log : process.log = []

/-- Admin code 111111 and pairing code 222222. -/
def sampleStart : Process where
  world := {
    clock := 1000
    auth := {
      adminCode := copyString (.lit "111111")
      pairingCode := copyString (.lit "222222")
      pairingCodeExpiresAt := 1300
      uiSessions := .replicate maxUiSessions default
      peerTokens := .replicate maxPeerTokens default
      rateLimits := .replicate maxRateLimits default }
    registry := peerRegistryInit
    queue := transferQueueInit
    fs := fun _ => none }
  requests := fun _ => none
  nextId := 0
  serving := true
  log := []

theorem sampleStart_started : Started sampleStart where
  clock := by decide
  auth := ⟨some (.replicate 6 1), some (.replicate 6 2), rfl⟩
  registry := rfl
  queue := rfl
  leftovers := fun _ _ h => by simp [sampleStart] at h
  requests := rfl
  nextId := rfl
  serving := rfl
  log := rfl

def sampleIp : Chars 46 := copyString (.lit "10.0.0.9")

def fieldItem (key value : String) : PostItem :=
  ⟨.lit key, none, (CString.lit value).bytes, 0, none, false, 0, false⟩

def fileItem (name : String) (data : Bytes) (seed : UInt8) : PostItem :=
  ⟨.lit "file", some (.lit name), data, 0, some (.replicate 8 seed), true, data.length, true⟩

def sampleEnv (seed : UInt8) : CallEnv where
  unwritten := CString.empty
  codeRandom := some (.replicate 6 seed)
  random := some (.replicate 32 seed)
  sealing := ⟨true, true, true, true⟩

def acceptPost (url : String) (headers : Headers) : Event :=
  .accept (.lit url) (.lit "POST") sampleIp headers

def sendFields (id : Nat) (items : List PostItem) : Event :=
  .call id (some ⟨items, true⟩) (sampleEnv 0)

def sendEnd (id : Nat) (seed : UInt8) : Event := .call id none (sampleEnv seed)

def sampleProceed (id : Nat) (seed : UInt8) : Event :=
  .proceed id ⟨.unavailable, CString.empty, some (.replicate 8 seed)⟩

def unlocking (id : Nat) (seed : UInt8) : List Event :=
  [acceptPost "/api/session/unlock" ⟨none, none⟩,
    sendFields id [fieldItem "admin_code" "111111"], sendEnd id seed, .completed id]

def exchanging (id : Nat) (seed : UInt8) : List Event :=
  [acceptPost "/api/pair/exchange" ⟨none, none⟩,
    sendFields id [fieldItem "pair_code" "222222", fieldItem "peer_name" "peer",
      fieldItem "peer_port" "8080"],
    sendEnd id seed, sampleProceed id 0, sampleProceed id 0, .completed id]

def beforePair : List Event :=
  unlocking 0 7 ++ [.resolved (.lit "peer") sampleIp.str 8080,
    acceptPost "/api/pair" ⟨some (sampleToken 7), none⟩,
    sendFields 1 [fieldItem "target_ip" "10.0.0.9", fieldItem "target_port" "8080",
      fieldItem "pair_code" "222222"]]

def sending (id : Nat) (token : CString) (name : String) (seed : UInt8) : List Event :=
  [acceptPost "/api/send" ⟨some token, none⟩,
    sendFields id [fieldItem "target_ip" "10.0.0.9", fieldItem "target_port" "8080",
      fileItem name [1, 2, 3] seed],
    sendEnd id seed]

end LocalDrop
