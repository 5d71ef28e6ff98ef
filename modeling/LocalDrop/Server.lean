import LocalDrop.Lib.InetAddress
import LocalDrop.PeerRegistry
import LocalDrop.Storage
import LocalDrop.Transfer
import LocalDrop.TransferQueue

/-! `server.c`: what one request carries from call to call, the field parser, the
authorization gates and the answers. libmicrohttpd is outside the sources; the
values its post processor delivers are arguments. -/
namespace LocalDrop
open Lib

structure ConnectionInfo where
  postprocessor : Bool
  uploadStage : UploadStage
  filename : Chars 512
  targetIp : Buffer 64
  targetPort : Buffer 16
  targetName : Buffer 256
  adminCode : Buffer 16
  pairCode : Buffer 16
  peerName : Buffer 256
  peerPort : Buffer 16
  clientIp : Chars 46
  uploadInProgress : Bool
  fileSaved : Bool
  responseStatus : Nat
  authChecked : Bool
  requestAuthorized : Bool
  responseMessage : Chars 256
deriving DecidableEq

def newConnectionInfo (method : CString) (clientIp : Chars 46) : ConnectionInfo where
  postprocessor := method = .lit "POST"
  uploadStage := default
  filename := default
  targetIp := .zero 64
  targetPort := .zero 16
  targetName := .zero 256
  adminCode := .zero 16
  pairCode := .zero 16
  peerName := .zero 256
  peerPort := .zero 16
  clientIp := clientIp
  uploadInProgress := false
  fileSaved := false
  responseStatus := 200
  authChecked := false
  requestAuthorized := false
  responseMessage := copyString (.lit "OK")

def ConnectionInfo.setError (info : ConnectionInfo) (status : Nat) (message : CString) :
    ConnectionInfo :=
  { info with responseStatus := status, responseMessage := copyString message }

def copyFormValue (dest : Buffer n) (data : Bytes) (off : Nat) : Buffer n :=
  if h : n = 0 ∨ n - 1 ≤ off then dest
  else
    let copySize := if n ≤ off + data.length then n - off - 1 else data.length
    { bytes := dest.bytes.take off ++ data.take copySize ++
        0 :: dest.bytes.drop (off + copySize + 1)
      size := by
        have hsize := dest.size
        have hcopy : copySize ≤ data.length ∧ off + copySize < n := by
          simp only [copySize]
          split <;> omega
        simp only [List.length_append, List.length_take, List.length_cons, List.length_drop]
        omega }

def validateIpAddress (value : CString) : Bool :=
  value ≠ CString.empty && (inetPton4 value.bytes || inetPton6 value.bytes)

theorem validateIpAddress_length {value : CString} (h : validateIpAddress value = true) :
    value.length < 46 := by
  simp only [validateIpAddress, Bool.and_eq_true, Bool.or_eq_true] at h
  rcases h.2 with h4 | h6
  · have := inetPton4_length h4
    rw [CString.length]
    omega
  · have := inetPton6_length h6
    rw [CString.length]
    omega

/-- The test the handlers make on `target_port` and `peer_port`. -/
def parsePort (value : CString) : Option UInt16 :=
  let (port, rest) := strtol value.bytes
  if value = CString.empty ∨ rest ≠ [] ∨ port ≤ 0 ∨ 65535 < port then none
  else some (UInt16.ofNat port.toNat)

inductive Route where
  | index
  | devices
  | localCode
  | unlock
  | exchange
  | transfers
  | transfer (jobId : CString)
  | upload
  | pair
  | send
  | notFound
deriving DecidableEq

def transfersUrl : CString := .lit "/api/transfers/"

/-- The comparisons at the head of each branch, in their order. -/
def routeOf (url method : CString) : Route :=
  let get := method = .lit "GET"
  let post := method = .lit "POST"
  if url = .lit "/" ∧ get then .index
  else if url = .lit "/api/devices" ∧ get then .devices
  else if url = .lit "/api/pair/local-code" ∧ get then .localCode
  else if url = .lit "/api/session/unlock" ∧ post then .unlock
  else if url = .lit "/api/pair/exchange" ∧ post then .exchange
  else if url = .lit "/api/transfers" ∧ get then .transfers
  else if transfersUrl.bytes.isPrefixOf url.bytes ∧ get then
    .transfer ⟨url.bytes.drop transfersUrl.length, fun h => url.nulFree (List.mem_of_mem_drop h)⟩
  else if url = .lit "/upload" ∧ post then .upload
  else if url = .lit "/api/pair" ∧ post then .pair
  else if url = .lit "/api/send" ∧ post then .send
  else .notFound

/-- Scope and limit of the two routes that compare a secret; they charge their
limit and check nothing else while the body arrives. -/
def Route.secretLimit : Route → Option (CString × Nat)
  | .unlock => some (.lit "session_unlock", 8)
  | .exchange => some (.lit "pair_exchange", 12)
  | _ => none

/-- What a failed `MHD_post_process` is reported as. -/
def Route.postFailure : Route → CString
  | .unlock => .lit "Falha ao processar os dados de autenticacao"
  | .exchange => .lit "Falha ao processar a requisicao de pareamento"
  | .upload => .lit "Falha ao processar os dados do upload"
  | .pair => .lit "Falha ao processar o pareamento remoto"
  | .send => .lit "Falha ao processar os dados do envio"
  | _ => CString.empty

inductive Reply where
  | json (status : Nat) (body : Bytes)
  | indexPage
  | notFound
deriving DecidableEq

def Reply.status : Reply → Nat
  | .json status _ => status
  | .indexPage => 200
  | .notFound => 404

def queueJsonStatusMessage (status : Nat) (statusText message : CString) : Reply :=
  .json status ((CString.lit "\x7b\"status\":\"").bytes ++ jsonEscape statusText ++
    (CString.lit "\",\"message\":\"").bytes ++ jsonEscape message ++ (CString.lit "\"\x7d").bytes)

def errorReply (status : Nat) (message : String) : Reply :=
  queueJsonStatusMessage status (.lit "error") (.lit message)

def ConnectionInfo.errorReply (info : ConnectionInfo) : Reply :=
  queueJsonStatusMessage info.responseStatus (.lit "error") info.responseMessage.str

def queueJsonSessionResponse (status : Nat) (message token : CString) : Reply :=
  .json status ((CString.lit "\x7b\"status\":\"ok\",\"message\":\"").bytes ++ jsonEscape message ++
    (CString.lit "\",\"token\":\"").bytes ++ jsonEscape token ++ (CString.lit "\"\x7d").bytes)

def queueJsonPairCodeResponse (code : CString) (expiresAt : Time) : Reply :=
  .json 200 ((CString.lit "\x7b\"status\":\"ok\",\"code\":\"").bytes ++ jsonEscape code ++
    (CString.lit "\",\"expires_at\":").bytes ++ formatLong expiresAt ++ (CString.lit "\x7d").bytes)

def queueJsonTransferResponse (message jobId : CString) : Reply :=
  .json 200 ((CString.lit "\x7b\"status\":\"ok\",\"message\":\"").bytes ++ jsonEscape message ++
    (CString.lit "\",\"job_id\":\"").bytes ++ jsonEscape jobId ++ (CString.lit "\"\x7d").bytes)

@[simp] theorem Reply.json_status (status : Nat) (body : Bytes) :
    (Reply.json status body).status = status := rfl

@[simp] theorem queueJsonStatusMessage_status (status : Nat) (statusText message : CString) :
    (queueJsonStatusMessage status statusText message).status = status := rfl

@[simp] theorem errorReply_status (status : Nat) (message : String) :
    (errorReply status message).status = status := rfl

@[simp] theorem ConnectionInfo.errorReply_status (info : ConnectionInfo) :
    info.errorReply.status = info.responseStatus := rfl

@[simp] theorem queueJsonPairCodeResponse_status (code : CString) (expiresAt : Time) :
    (queueJsonPairCodeResponse code expiresAt).status = 200 := rfl

@[simp] theorem queueJsonTransferResponse_status (message jobId : CString) :
    (queueJsonTransferResponse message jobId).status = 200 := rfl

/-- The local buffer `message[128]` is not initialised, and `auth_rate_limit_allow` does not
always write it; `unwritten` is the text found there in that case. -/
def rateLimitRequest (auth : Auth) (info : ConnectionInfo) (scope : CString) (limit : Nat)
    (now : Time) (unwritten : CString) : Auth × ConnectionInfo × Bool :=
  match authRateLimitAllow auth info.clientIp.str scope limit 60 now with
  | (auth, .allowed) => (auth, info, true)
  | (auth, .refused written) =>
      let message := (written.getD unwritten).take 127
      (auth,
        info.setError 429 (if message ≠ CString.empty then message
          else .lit "Limite de requisicoes atingido"),
        false)

structure Headers where
  uiToken : Option CString
  pairToken : Option CString
deriving DecidableEq

def validUiToken (auth : Auth) (clientIp : CString) (headers : Headers) (now : Time) :
    Auth × Bool :=
  match headers.uiToken with
  | none => (auth, false)
  | some token => authValidateUiSession auth clientIp token now

def validPairToken (auth : Auth) (clientIp : CString) (headers : Headers) (now : Time) :
    Auth × Bool :=
  match headers.pairToken with
  | none => (auth, false)
  | some token => authValidatePeerToken auth clientIp token now

def authorizeUiRequest (auth : Auth) (info : ConnectionInfo) (headers : Headers)
    (scope : CString) (limit : Nat) (now : Time) (unwritten : CString) :
    Auth × ConnectionInfo × Bool :=
  if info.authChecked then (auth, info, info.requestAuthorized)
  else
    match rateLimitRequest auth { info with authChecked := true } scope limit now unwritten with
    | (auth, info, false) => (auth, info, false)
    | (auth, info, true) =>
        match validUiToken auth info.clientIp.str headers now with
        | (auth, true) => (auth, { info with requestAuthorized := true }, true)
        | (auth, false) =>
            (auth,
              { info.setError 401 (.lit "Sessao administrativa invalida ou expirada") with
                requestAuthorized := false },
              false)

def authorizeUploadRequest (auth : Auth) (info : ConnectionInfo) (headers : Headers)
    (now : Time) (unwritten : CString) : Auth × ConnectionInfo × Bool :=
  if info.authChecked then (auth, info, info.requestAuthorized)
  else
    match rateLimitRequest auth { info with authChecked := true } (.lit "upload") 20 now
        unwritten with
    | (auth, info, false) => (auth, info, false)
    | (auth, info, true) =>
        match validUiToken auth info.clientIp.str headers now with
        | (auth, true) => (auth, { info with requestAuthorized := true }, true)
        | (auth, false) =>
            match validPairToken auth info.clientIp.str headers now with
            | (auth, true) => (auth, { info with requestAuthorized := true }, true)
            | (auth, false) =>
                (auth,
                  { info.setError 401
                      (.lit "Upload bloqueado: peer nao pareado ou sessao local ausente") with
                    requestAuthorized := false },
                  false)

def limitChunk (auth : Auth) (info : ConnectionInfo) (scope : CString) (limit : Nat)
    (now : Time) (unwritten : CString) : Auth × ConnectionInfo × Bool :=
  if info.authChecked then (auth, info, info.responseStatus < 400)
  else
    match rateLimitRequest auth { info with authChecked := true } scope limit now unwritten with
    | (auth, info, false) => (auth, info, false)
    | (auth, info, true) => (auth, info, info.responseStatus < 400)

/-- What a body chunk has to pass before it is parsed. -/
def chunkGate (auth : Auth) (info : ConnectionInfo) (route : Route) (headers : Headers)
    (now : Time) (unwritten : CString) : Auth × ConnectionInfo × Bool :=
  match route.secretLimit with
  | some (scope, limit) => limitChunk auth info scope limit now unwritten
  | none =>
      match route with
      | .upload => authorizeUploadRequest auth info headers now unwritten
      | .pair => authorizeUiRequest auth info headers (.lit "pair_initiate") 10 now unwritten
      | .send => authorizeUiRequest auth info headers (.lit "send_file") 12 now unwritten
      | _ => (auth, info, false)

def validateTargetPeer (auth : Auth) (registry : PeerRegistry) (info : ConnectionInfo)
    (now : Time) : Auth × ConnectionInfo × Option (UInt16 × CString) :=
  let refuse (auth : Auth) (status : Nat) (message : String) :=
    (auth, info.setError status (.lit message), none)
  if !validateIpAddress info.targetIp.str then
    refuse auth 400 "Endereco IP de destino invalido"
  else
    match parsePort info.targetPort.str with
    | none => refuse auth 400 "Porta de destino invalida"
    | some port =>
        match peerRegistryFindByEndpoint registry info.targetIp.str port with
        | none => refuse auth 403 "Destino nao pertence a um peer descoberto ativo"
        | some peer =>
            if !peer.active then refuse auth 403 "Destino nao pertence a um peer descoberto ativo"
            else if !peer.paired then refuse auth 403 "Peer remoto ainda nao foi pareado"
            else
              match authGetPeerToken auth info.targetIp.str port now with
              | (auth, none) =>
                  refuse auth 403 "Nao existe token de pareamento valido para o peer remoto"
              | (auth, some token) => (auth, info, some (port, token))

/-- Everything `validate_target_peer` can do: record an error, at most after having looked
for a token, or let the request pass with the token of a paired and active peer. -/
inductive TargetCheck (auth : Auth) (registry : PeerRegistry) (info : ConnectionInfo)
    (now : Time) : Auth × ConnectionInfo × Option (UInt16 × CString) → Prop
  | refused (auth' : Auth) (status : Nat) (message : CString) (bad : 400 ≤ status)
      (looked : auth' = auth ∨
        ∃ port, auth' = (authGetPeerToken auth info.targetIp.str port now).1) :
      TargetCheck auth registry info now (auth', info.setError status message, none)
  | accepted (auth' : Auth) (port : UInt16) (peer : PeerInfo) (token : CString)
      (parsed : parsePort info.targetPort.str = some port)
      (found : peerRegistryFindByEndpoint registry info.targetIp.str port = some peer)
      (usable : peer.active = true ∧ peer.paired = true)
      (known : authGetPeerToken auth info.targetIp.str port now = (auth', some token)) :
      TargetCheck auth registry info now (auth', info, some (port, token))

theorem validateTargetPeer_check (auth : Auth) (registry : PeerRegistry) (info : ConnectionInfo)
    (now : Time) :
    TargetCheck auth registry info now (validateTargetPeer auth registry info now) := by
  unfold validateTargetPeer
  dsimp only
  split
  · exact .refused auth 400 _ (by decide) (.inl rfl)
  · split
    · exact .refused auth 400 _ (by decide) (.inl rfl)
    · rename_i port hport
      split
      · exact .refused auth 403 _ (by decide) (.inl rfl)
      · rename_i peer hpeer
        split
        · exact .refused auth 403 _ (by decide) (.inl rfl)
        · rename_i hactive
          split
          · exact .refused auth 403 _ (by decide) (.inl rfl)
          · rename_i hpaired
            split
            · rename_i auth' hnone
              exact .refused auth' 403 _ (by decide) (.inr ⟨port, by rw [hnone]⟩)
            · rename_i auth' token hsome
              exact .accepted auth' port peer token hport hpeer
                ⟨by simpa using hactive, by simpa using hpaired⟩ hsome

/-- One call of `iterate_post`, with what the system calls it makes answer. -/
structure PostItem where
  key : CString
  filename : Option CString
  data : Bytes
  off : Nat
  random : RandomBytes 8
  opened : Bool
  written : Nat
  touched : Bool
deriving DecidableEq

def maxFileSize : Nat := 1024 * 1024 * 100

/-- The first half of the "file" branch: open a stage unless there is one. -/
def openStage (fs : FileSystem) (id : Nat) (info : ConnectionInfo) (now : Time)
    (item : PostItem) : FileSystem × ConnectionInfo × Bool :=
  if item.filename.isSome ∧ info.uploadStage.fp = false ∧ info.uploadStage.sealed = false then
    match uploadStageOpen fs id item.filename now item.random item.opened with
    | (fs, stage, some error) =>
        (fs,
          { info with
            uploadStage := stage
            responseMessage := copyString error
            responseStatus := 500 },
          false)
    | (fs, stage, none) =>
        (fs, { info with uploadStage := stage, uploadInProgress := true }, true)
  else (fs, info, true)

/-- The second half: append the data. The status is read off the error text. -/
def writeStage (fs : FileSystem) (info : ConnectionInfo) (now : Time) (item : PostItem) :
    FileSystem × ConnectionInfo :=
  if (info.uploadStage.fp ∨ info.uploadStage.sealed) ∧ item.data ≠ [] then
    match uploadStageWrite fs info.uploadStage item.data maxFileSize now item.written
        item.touched with
    | (fs, stage, some error) =>
        let message : Chars 256 := copyString error
        (fs,
          { info with
            uploadStage := stage
            responseMessage := message
            responseStatus :=
              if (strstr (CString.lit "limite").bytes message.str.bytes).isSome then 413 else 500 })
    | (fs, stage, none) => (fs, { info with uploadStage := stage })
  else (fs, info)

def copyField (info : ConnectionInfo) (item : PostItem) : ConnectionInfo :=
  if item.key = .lit "target_ip" then
    { info with targetIp := copyFormValue info.targetIp item.data item.off }
  else if item.key = .lit "target_port" then
    { info with targetPort := copyFormValue info.targetPort item.data item.off }
  else if item.key = .lit "target_name" then
    { info with targetName := copyFormValue info.targetName item.data item.off }
  else if item.key = .lit "admin_code" then
    { info with adminCode := copyFormValue info.adminCode item.data item.off }
  else if item.key = .lit "pair_code" then
    { info with pairCode := copyFormValue info.pairCode item.data item.off }
  else if item.key = .lit "peer_name" then
    { info with peerName := copyFormValue info.peerName item.data item.off }
  else if item.key = .lit "peer_port" then
    { info with peerPort := copyFormValue info.peerPort item.data item.off }
  else info

def iteratePost (fs : FileSystem) (id : Nat) (info : ConnectionInfo) (now : Time)
    (item : PostItem) : FileSystem × ConnectionInfo :=
  if 400 ≤ info.responseStatus then (fs, info)
  else if item.key = .lit "file" then
    match openStage fs id info now item with
    | (fs, info, false) => (fs, info)
    | (fs, info, true) => writeStage fs info now item
  else (fs, copyField info item)

/-- `MHD_post_process` on one chunk: the fields it delivers, and its result. -/
def postProcess (fs : FileSystem) (id : Nat) (info : ConnectionInfo) (route : Route)
    (now : Time) (items : List PostItem) (processed : Bool) : FileSystem × ConnectionInfo :=
  if !info.postprocessor then (fs, info)
  else
    let (fs, info) := items.foldl (fun state item => iteratePost state.1 id state.2 now item)
      (fs, info)
    if !processed ∧ info.responseStatus < 400 then (fs, info.setError 400 route.postFailure)
    else (fs, info)

end LocalDrop
