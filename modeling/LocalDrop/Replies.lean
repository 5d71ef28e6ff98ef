import LocalDrop.Authorization
import LocalDrop.Bodies
import LocalDrop.JsonViews

/-! What a client is answered. Texts that come from outside (a remote's message, an error of
libcurl, what the stack held) end up in some of the answers; each is one JSON value all the
same, and its `status` tells success from error as the status of the answer does. -/
namespace LocalDrop
open Lib

def errorStatuses : List Nat := [400, 401, 403, 404, 413, 429, 500, 502, 503]

def okValue (members : List (Bytes × Json)) : Json :=
  .obj (((CString.lit "status").bytes, .str (CString.lit "ok").bytes) :: members)

def messageMember (message : CString) : Bytes × Json :=
  ((CString.lit "message").bytes, .str message.bytes)

def errorValue (message : CString) : Json :=
  .obj [((CString.lit "status").bytes, .str (CString.lit "error").bytes), messageMember message]

def Carries (body : Bytes) (value : Json) : Prop := Json.parse body = some value

/-- What each route may be answered. -/
inductive Answers : Route → Reply → Prop
  | index : Answers .index .indexPage
  | notFound : Answers .notFound .notFound
  | devices (registry : PeerRegistry) (body : Bytes)
      (carries : Carries body (.arr (registry.entries.map peerValue))) :
      Answers .devices (.json 200 body)
  | transfers (queue : TransferQueue) (body : Bytes)
      (carries : Carries body
        (.arr ((inUseSlots queue).map fun slot => jobValue (queue.jobs slot)))) :
      Answers .transfers (.json 200 body)
  | transfer (jobId : CString) (job : TransferJob) (body : Bytes) (inUse : job.inUse = true)
      (named : job.jobId.str = jobId) (carries : Carries body (jobValue job)) :
      Answers (.transfer jobId) (.json 200 body)
  | localCode (code : CString) (expiresAt : Time) (body : Bytes)
      (carries : Carries body (okValue [((CString.lit "code").bytes, .str code.bytes),
        ((CString.lit "expires_at").bytes, .num expiresAt 0)])) :
      Answers .localCode (.json 200 body)
  | unlock (message token : CString) (body : Bytes)
      (carries : Carries body (okValue [messageMember message,
        ((CString.lit "token").bytes, .str token.bytes)])) :
      Answers .unlock (.json 200 body)
  | exchange (message token : CString) (expiresAt : Time) (body : Bytes)
      (carries : Carries body (okValue [messageMember message,
        ((CString.lit "token").bytes, .str token.bytes),
        ((CString.lit "expires_at").bytes, .num expiresAt 0)])) :
      Answers .exchange (.json 200 body)
  | done (route : Route) (message : CString) (body : Bytes)
      (either : route = .upload ∨ route = .pair)
      (carries : Carries body (okValue [messageMember message])) :
      Answers route (.json 200 body)
  | send (message jobId : CString) (body : Bytes)
      (carries : Carries body (okValue [messageMember message,
        ((CString.lit "job_id").bytes, .str jobId.bytes)])) :
      Answers .send (.json 200 body)
  | refused (route : Route) (status : Nat) (message : CString) (body : Bytes)
      (known : status ∈ errorStatuses) (carries : Carries body (errorValue message)) :
      Answers route (.json status body)

theorem Answers.status {route : Route} {reply : Reply} (h : Answers route reply) :
    reply.status = 200 ∨ reply.status ∈ errorStatuses := by
  cases h with
  | refused _ status message body known => exact .inr known
  | notFound => exact .inr (by decide)
  | index | devices | transfers | transfer | localCode | unlock | exchange | done | send =>
      exact .inl rfl

/-- A member with a fixed name and a value that is read back. -/
structure ReadsMember (member : Bytes × Bytes) (value : Bytes × Json) : Prop where
  name : ∀ rest, Json.readString (member.1 ++ 34 :: rest) = some (value.1, rest)
  value : ∀ fuel, Json.Reads (Json.readValue (fuel + 1)) member.2 value.2

theorem readsMember_text {name : CString} (h : ∀ b ∈ name.bytes, b ≠ 34 ∧ b ≠ 92 ∧ ¬ b < 32)
    (text : CString) :
    ReadsMember (name.bytes, Json.quoted (jsonEscape text)) (name.bytes, .str text.bytes) :=
  ⟨Json.readString_verbatim h, fun _ => reads_jsonEscape text⟩

theorem readsMember_integer {name : CString} (h : ∀ b ∈ name.bytes, b ≠ 34 ∧ b ≠ 92 ∧ ¬ b < 32)
    (value : Int) :
    ReadsMember (name.bytes, formatLong value) (name.bytes, .num value 0) :=
  ⟨Json.readString_verbatim h, fun _ => Json.reads_integer value⟩

theorem carries_objectText {members : List (Bytes × Bytes)} {values : List (Bytes × Json)}
    (h : List.Forall₂ ReadsMember members values) :
    Carries (Json.objectText members) (.obj values) := by
  have hlength : ∃ fuel, (Json.objectText members).length + 1 = fuel + 1 + 1 :=
    ⟨_, by rw [Json.objectText, List.length_cons]⟩
  obtain ⟨fuel, hfuel⟩ := hlength
  apply Json.parse_of_reads hfuel
  apply Json.reads_object
  exact h.imp fun _ _ hmember => ⟨hmember.name, hmember.value fuel⟩

section bodies
variable (message token code jobId : CString) (expiresAt : Time)

theorem status_plain : ∀ b ∈ (CString.lit "status").bytes, b ≠ 34 ∧ b ≠ 92 ∧ ¬ b < 32 := by
  decide +kernel

theorem message_plain : ∀ b ∈ (CString.lit "message").bytes, b ≠ 34 ∧ b ≠ 92 ∧ ¬ b < 32 := by
  decide +kernel

theorem token_plain : ∀ b ∈ (CString.lit "token").bytes, b ≠ 34 ∧ b ≠ 92 ∧ ¬ b < 32 := by
  decide +kernel

theorem expiresAt_plain :
    ∀ b ∈ (CString.lit "expires_at").bytes, b ≠ 34 ∧ b ≠ 92 ∧ ¬ b < 32 := by
  decide +kernel

theorem ok_escaped : jsonEscape (.lit "ok") = (CString.lit "ok").bytes := by decide +kernel

theorem statusMessage_eq (statusText : CString) (status : Nat) :
    queueJsonStatusMessage status statusText message = .json status (Json.objectText [
      ((CString.lit "status").bytes, Json.quoted (jsonEscape statusText)),
      ((CString.lit "message").bytes, Json.quoted (jsonEscape message))]) := by
  unfold queueJsonStatusMessage
  simp only [Json.objectText, Json.quoted, List.map_cons, List.map_nil,
    List.intercalate_cons_cons, List.intercalate_singleton, List.append_assoc, List.cons_append,
    List.nil_append]
  rfl

theorem sessionResponse_eq (status : Nat) :
    queueJsonSessionResponse status message token = .json status (Json.objectText [
      ((CString.lit "status").bytes, Json.quoted (jsonEscape (.lit "ok"))),
      ((CString.lit "message").bytes, Json.quoted (jsonEscape message)),
      ((CString.lit "token").bytes, Json.quoted (jsonEscape token))]) := by
  unfold queueJsonSessionResponse
  simp only [ok_escaped, Json.objectText, Json.quoted, List.map_cons, List.map_nil,
    List.intercalate_cons_cons, List.intercalate_singleton, List.append_assoc, List.cons_append,
    List.nil_append]
  rfl

theorem pairCodeResponse_eq :
    queueJsonPairCodeResponse code expiresAt = .json 200 (Json.objectText [
      ((CString.lit "status").bytes, Json.quoted (jsonEscape (.lit "ok"))),
      ((CString.lit "code").bytes, Json.quoted (jsonEscape code)),
      ((CString.lit "expires_at").bytes, formatLong expiresAt)]) := by
  unfold queueJsonPairCodeResponse
  simp only [ok_escaped, Json.objectText, Json.quoted, List.map_cons, List.map_nil,
    List.intercalate_cons_cons, List.intercalate_singleton, List.append_assoc, List.cons_append,
    List.nil_append]
  rfl

theorem transferResponse_eq :
    queueJsonTransferResponse message jobId = .json 200 (Json.objectText [
      ((CString.lit "status").bytes, Json.quoted (jsonEscape (.lit "ok"))),
      ((CString.lit "message").bytes, Json.quoted (jsonEscape message)),
      ((CString.lit "job_id").bytes, Json.quoted (jsonEscape jobId))]) := by
  unfold queueJsonTransferResponse
  simp only [ok_escaped, Json.objectText, Json.quoted, List.map_cons, List.map_nil,
    List.intercalate_cons_cons, List.intercalate_singleton, List.append_assoc, List.cons_append,
    List.nil_append]
  rfl

theorem pairResponse_objectText :
    pairResponse message token expiresAt = Json.objectText [
      ((CString.lit "status").bytes, Json.quoted (jsonEscape (.lit "ok"))),
      ((CString.lit "message").bytes, Json.quoted (jsonEscape message)),
      ((CString.lit "token").bytes, Json.quoted (jsonEscape token)),
      ((CString.lit "expires_at").bytes, formatLong expiresAt)] := by
  unfold pairResponse
  simp only [ok_escaped, Json.objectText, Json.quoted, List.map_cons, List.map_nil,
    List.intercalate_cons_cons, List.intercalate_singleton, List.append_assoc, List.cons_append,
    List.nil_append]
  rfl

end bodies

section answers
variable {route : Route} (message token code jobId : CString) (expiresAt : Time)

theorem answers_error {status : Nat} (h : status ∈ errorStatuses) :
    Answers route (queueJsonStatusMessage status (.lit "error") message) := by
  rw [statusMessage_eq]
  apply Answers.refused route status message _ h
  apply carries_objectText
  exact .cons (readsMember_text status_plain _) (.cons (readsMember_text message_plain _) .nil)

theorem answers_done (h : route = .upload ∨ route = .pair) :
    Answers route (queueJsonStatusMessage 200 (.lit "ok") message) := by
  rw [statusMessage_eq]
  apply Answers.done route message _ h
  apply carries_objectText
  exact .cons (readsMember_text status_plain _) (.cons (readsMember_text message_plain _) .nil)

theorem answers_session : Answers .unlock (queueJsonSessionResponse 200 message token) := by
  rw [sessionResponse_eq]
  apply Answers.unlock message token
  apply carries_objectText
  exact .cons (readsMember_text status_plain _) (.cons (readsMember_text message_plain _)
    (.cons (readsMember_text token_plain _) .nil))

theorem pairCodeResponse_carries :
    ∃ body, queueJsonPairCodeResponse code expiresAt = .json 200 body ∧
    Carries body (okValue [((CString.lit "code").bytes, .str code.bytes),
      ((CString.lit "expires_at").bytes, .num expiresAt 0)]) := by
  have hcode : ∀ b ∈ (CString.lit "code").bytes, b ≠ 34 ∧ b ≠ 92 ∧ ¬ b < 32 := by decide +kernel
  refine ⟨_, pairCodeResponse_eq code expiresAt, ?_⟩
  apply carries_objectText
  exact .cons (readsMember_text status_plain _) (.cons (readsMember_text hcode _)
    (.cons (readsMember_integer expiresAt_plain _) .nil))

theorem answers_pairCode : Answers .localCode (queueJsonPairCodeResponse code expiresAt) := by
  obtain ⟨body, heq, hcarries⟩ := pairCodeResponse_carries code expiresAt
  rw [heq]
  exact .localCode code expiresAt body hcarries

theorem transferResponse_carries :
    ∃ body, queueJsonTransferResponse message jobId = .json 200 body ∧
    Carries body (okValue [messageMember message,
      ((CString.lit "job_id").bytes, .str jobId.bytes)]) := by
  have hid : ∀ b ∈ (CString.lit "job_id").bytes, b ≠ 34 ∧ b ≠ 92 ∧ ¬ b < 32 := by
    decide +kernel
  refine ⟨_, transferResponse_eq message jobId, ?_⟩
  apply carries_objectText
  exact .cons (readsMember_text status_plain _) (.cons (readsMember_text message_plain _)
    (.cons (readsMember_text hid _) .nil))

theorem answers_transfer : Answers .send (queueJsonTransferResponse message jobId) := by
  obtain ⟨body, heq, hcarries⟩ := transferResponse_carries message jobId
  rw [heq]
  exact .send message jobId body hcarries

theorem answers_pair : Answers .exchange (.json 200 (pairResponse message token expiresAt)) := by
  rw [pairResponse_objectText]
  apply Answers.exchange message token expiresAt
  apply carries_objectText
  exact .cons (readsMember_text status_plain _) (.cons (readsMember_text message_plain _)
    (.cons (readsMember_text token_plain _) (.cons (readsMember_integer expiresAt_plain _) .nil)))

end answers

theorem answers_job {queue : TransferQueue} {jobId : CString} {body : Bytes}
    (h : transferStatusGet queue jobId = some body) :
    Answers (.transfer jobId) (.json 200 body) := by
  obtain ⟨slot, hfind, rfl⟩ := Option.map_eq_some_iff.mp h
  have hslot := List.find?_some hfind
  simp only [Bool.and_eq_true, decide_eq_true_eq] at hslot
  exact .transfer jobId (queue.jobs slot) _ hslot.1 hslot.2 (parse_appendJobJson _)

def ConnectionInfo.StatusKnown (info : ConnectionInfo) : Prop :=
  info.responseStatus = 200 ∨ info.responseStatus ∈ errorStatuses

theorem ConnectionInfo.StatusKnown.error {info : ConnectionInfo} (h : info.StatusKnown)
    (hbad : 400 ≤ info.responseStatus) : info.responseStatus ∈ errorStatuses := by
  rcases h with hok | hknown
  · omega
  · exact hknown

def bodyStatuses : List Nat := [400, 413, 500]

def ConnectionInfo.StatusKept (info info' : ConnectionInfo) : Prop :=
  info'.responseStatus = info.responseStatus ∨ info'.responseStatus ∈ bodyStatuses

theorem ConnectionInfo.StatusKept.trans {info info' info'' : ConnectionInfo}
    (h : info.StatusKept info') (h' : info'.StatusKept info'') : info.StatusKept info'' := by
  rcases h' with hsame | hbody
  · unfold ConnectionInfo.StatusKept
    rwa [hsame]
  · exact .inr hbody

theorem ConnectionInfo.StatusKept.known {info info' : ConnectionInfo} (h : info.StatusKept info')
    (hknown : info.StatusKnown) : info'.StatusKnown := by
  have hsubset : bodyStatuses ⊆ errorStatuses := by decide
  rcases h with hsame | hbody
  · unfold ConnectionInfo.StatusKnown
    rwa [hsame]
  · exact .inr (hsubset hbody)

theorem answers_errorReply {route : Route} {info : ConnectionInfo}
    (h : info.responseStatus ∈ errorStatuses) : Answers route info.errorReply :=
  answers_error _ h

section recorded
variable {fs : FileSystem} {id : Nat} {auth : Auth} {info : ConnectionInfo} {headers : Headers}
  {scope : CString} {limit : Nat} {now : Time} {unwritten : CString}

theorem openStage_statusKept (item : PostItem) :
    info.StatusKept (openStage fs id info now item).2.1 := by
  unfold openStage
  split
  · split
    · exact .inr (by simp [bodyStatuses])
    · exact .inl rfl
  · exact .inl rfl

theorem writeStage_statusKept (item : PostItem) :
    info.StatusKept (writeStage fs info now item).2 := by
  unfold writeStage
  split
  · split
    · right
      dsimp only
      split <;> decide
    · exact .inl rfl
  · exact .inl rfl

theorem iteratePost_statusKept (item : PostItem) :
    info.StatusKept (iteratePost fs id info now item).2 := by
  unfold iteratePost
  split
  · exact .inl rfl
  · split
    · have hopen := @openStage_statusKept fs id info now item
      split <;> rename_i heq <;> rw [heq] at hopen
      · exact hopen
      · exact hopen.trans (writeStage_statusKept item)
    · obtain ⟨-, -, -, -, -, -, hstatus⟩ := copyField_frame info item
      exact .inl hstatus

theorem foldl_iteratePost_statusKept (items : List PostItem) :
    info.StatusKept (items.foldl (fun state item => iteratePost state.1 id state.2 now item)
      (fs, info)).2 := by
  induction items generalizing fs info with
  | nil => exact .inl rfl
  | cons item rest ih =>
      rw [List.foldl_cons]
      exact (iteratePost_statusKept item).trans ih

theorem postProcess_statusKept (route : Route) (items : List PostItem) (processed : Bool) :
    info.StatusKept (postProcess fs id info route now items processed).2 := by
  unfold postProcess
  split
  · exact .inl rfl
  · have hall := @foldl_iteratePost_statusKept fs id info now items
    dsimp only
    split
    · exact .inr (by simp [ConnectionInfo.setError, bodyStatuses])
    · exact hall

structure Records (info : ConnectionInfo) (result : Auth × ConnectionInfo × Bool) : Prop where
  known : info.StatusKnown → result.2.1.StatusKnown
  refused : info.authChecked = false → result.2.2 = false →
    result.2.1.responseStatus ∈ errorStatuses

theorem authorizeUiRequest_records :
    Records info (authorizeUiRequest auth info headers scope limit now unwritten) := by
  unfold authorizeUiRequest
  split
  · rename_i hchecked
    exact ⟨id, fun hfirst => by simp [hfirst] at hchecked⟩
  · rcases rateLimitRequest_status auth { info with authChecked := true } scope limit now
      unwritten with ⟨auth', heq⟩ | ⟨auth', info', heq, hstatus⟩ <;> rw [heq]
    · dsimp only
      split
      · exact ⟨id, fun _ h => by contradiction⟩
      · have hknown : (401 : Nat) ∈ errorStatuses := by decide
        exact ⟨fun _ => .inr hknown, fun _ _ => hknown⟩
    · have hknown : info'.responseStatus ∈ errorStatuses := by simp [hstatus, errorStatuses]
      exact ⟨fun _ => .inr hknown, fun _ _ => hknown⟩

theorem authorizeUploadRequest_known (h : info.StatusKnown) :
    (authorizeUploadRequest auth info headers now unwritten).2.1.StatusKnown := by
  unfold authorizeUploadRequest
  split
  · exact h
  · rcases rateLimitRequest_status auth { info with authChecked := true } (.lit "upload") 20 now
      unwritten with ⟨auth', heq⟩ | ⟨auth', info', heq, hstatus⟩ <;> rw [heq]
    · have hknown : (401 : Nat) ∈ errorStatuses := by decide
      dsimp only
      repeat' split
      · exact h
      · exact h
      · exact .inr hknown
    · exact .inr (by simp [hstatus, errorStatuses])

theorem limitChunk_known (h : info.StatusKnown) :
    (limitChunk auth info scope limit now unwritten).2.1.StatusKnown := by
  unfold limitChunk
  split
  · exact h
  · rcases rateLimitRequest_status auth { info with authChecked := true } scope limit now
      unwritten with ⟨auth', heq⟩ | ⟨auth', info', heq, hstatus⟩ <;> rw [heq]
    · exact h
    · exact .inr (by simp [hstatus, errorStatuses])

theorem chunkGate_known (h : info.StatusKnown) (route : Route) :
    (chunkGate auth info route headers now unwritten).2.1.StatusKnown := by
  unfold chunkGate
  split
  · exact limitChunk_known h
  · split
    · exact authorizeUploadRequest_known h
    · exact authorizeUiRequest_records.known h
    · exact authorizeUiRequest_records.known h
    · exact h

def targetStatuses : List Nat := [400, 403]

theorem validateTargetPeer_status (auth : Auth) (registry : PeerRegistry) (info : ConnectionInfo)
    (now : Time) :
    let result := validateTargetPeer auth registry info now
    result.2.1 = info ∨ result.2.2 = none ∧ result.2.1.responseStatus ∈ targetStatuses := by
  have h400 : (400 : Nat) ∈ targetStatuses := by decide
  have h403 : (403 : Nat) ∈ targetStatuses := by decide
  unfold validateTargetPeer
  dsimp only
  repeat' split
  all_goals first
    | exact .inl rfl
    | exact .inr ⟨rfl, h400⟩
    | exact .inr ⟨rfl, h403⟩

end recorded

/-- What holds of a request at all times: the status it carries is one of the known ones,
and an answer is one its route may have. -/
structure Request.Conforms (request : Request) : Prop where
  status : request.info.StatusKnown
  answered : ∀ reply, request.phase = .answered reply → Answers request.route reply

theorem Request.Conforms.answer {request : Request} {reply : Reply}
    (hstatus : request.info.StatusKnown) (h : Answers request.route reply) :
    (request.answer reply).Conforms where
  status := hstatus
  answered other heq := by
    cases heq
    exact h

theorem Request.Conforms.within {request : Request} (hstatus : request.info.StatusKnown)
    (h : ∀ reply, request.phase ≠ .answered reply) : request.Conforms where
  status := hstatus
  answered reply heq := absurd heq (h reply)

section handlers
variable {world : World} {id : Nat} {request : Request} {env : CallEnv}

theorem chunkStep_conforms (hphase : request.phase = .receiving) (h : request.info.StatusKnown)
    (body : Body) : (chunkStep world id request body env).2.1.Conforms := by
  have hgate := @chunkGate_known world.auth request.info request.headers world.clock env.unwritten
    h request.route
  have hwaiting : ∀ reply, request.phase ≠ .answered reply := by simp [hphase]
  unfold chunkStep
  dsimp only
  split <;> rename_i heq <;> rw [heq] at hgate
  · exact .within hgate hwaiting
  · exact .within ((postProcess_statusKept ..).known hgate) hwaiting

theorem unlockFinal_conforms (hroute : request.route = .unlock) (h : request.info.StatusKnown) :
    (unlockFinal world id request env).2.1.Conforms := by
  unfold unlockFinal
  dsimp only
  split
  · rename_i hbad
    exact .answer h (answers_errorReply (h.error hbad))
  · split
    · exact .answer h (answers_error _ (by decide))
    · split
      · exact .answer h (answers_error _ (by decide))
      · exact .answer h (hroute ▸ answers_session _ _)

theorem exchangeFinal_conforms (h : request.info.StatusKnown) :
    (exchangeFinal world id request env).2.1.Conforms := by
  unfold exchangeFinal
  dsimp only
  split
  · rename_i hbad
    exact .answer h (answers_errorReply (h.error hbad))
  · split
    · exact .answer h (answers_error _ (by decide))
    · split
      · exact .answer h (answers_error _ (by decide))
      · split
        · exact .answer h (answers_error _ (by decide))
        · exact .within h (by simp)

theorem uploadFinal_conforms (hroute : request.route = .upload) (h : request.info.StatusKnown) :
    (uploadFinal world id request env).2.1.Conforms := by
  unfold uploadFinal
  dsimp only
  split
  · rename_i hbad
    exact .answer h (answers_errorReply (h.error hbad))
  · split
    · exact .answer h (answers_error _ (by decide))
    · split
      · exact .answer (.inr (by simp [errorStatuses]))
          (answers_errorReply (by simp [errorStatuses]))
      · exact .answer h (answers_done _ (.inl hroute))

theorem pairFinal_conforms (h : request.info.StatusKnown) :
    (pairFinal world id request).2.1.Conforms := by
  unfold pairFinal
  dsimp only
  split
  · rename_i hbad
    exact .answer h (answers_errorReply (h.error hbad))
  · split
    · exact .answer h (answers_error _ (by decide))
    · split
      · exact .answer h (answers_error _ (by decide))
      · split
        · exact .answer h (answers_error _ (by decide))
        · split
          · exact .answer h (answers_error _ (by decide))
          · exact .within h (by simp)

theorem sendFinal_conforms (h : request.info.StatusKnown) :
    (sendFinal world request env).2.1.Conforms := by
  have htarget := validateTargetPeer_status world.auth world.registry request.info world.clock
  unfold sendFinal
  dsimp only
  split
  · rename_i hbad
    exact .answer h (answers_errorReply (h.error hbad))
  · rename_i hgood
    split
    · exact .answer h (answers_error _ (by decide))
    · split <;> rename_i heq <;> rw [heq] at htarget
      · rcases htarget with hsame | ⟨-, hknown⟩
        · -- without a token an error has been recorded
          have hcheck := validateTargetPeer_check world.auth world.registry request.info world.clock
          rw [heq] at hcheck
          cases hcheck with
          | refused auth' status message bad looked =>
              have hstatus : status = request.info.responseStatus :=
                congrArg ConnectionInfo.responseStatus hsame
              omega
        · have hsubset : targetStatuses ⊆ errorStatuses := by decide
          exact .answer (.inr (hsubset hknown)) (answers_errorReply (hsubset hknown))
      · rcases htarget with hsame | ⟨hnone, -⟩
        · dsimp only at hsame
          subst hsame
          split
          · exact .answer (.inr (by simp [errorStatuses]))
              (answers_errorReply (by simp [errorStatuses]))
          · exact .within h (by simp)
        · contradiction

theorem localCodeCall_conforms (hroute : request.route = .localCode)
    (h : request.info.StatusKnown) (hunchecked : request.info.authChecked = false) :
    (localCodeCall world id request env).2.1.Conforms := by
  have hgate := @authorizeUiRequest_records world.auth request.info request.headers
    (.lit "pair_code") 20 world.clock env.unwritten
  unfold localCodeCall
  dsimp only
  split <;> rename_i heq <;> rw [heq] at hgate
  · exact .answer (hgate.known h) (answers_errorReply (hgate.refused hunchecked rfl))
  · split
    · exact .answer (hgate.known h) (answers_error _ (by decide))
    · exact .answer (hgate.known h) (hroute ▸ answers_pairCode _ _)

theorem transfersCall_conforms (h : request.info.StatusKnown)
    (hunchecked : request.info.authChecked = false) {status : Option Bytes}
    (hstatus : ∀ body, status = some body → Answers request.route (.json 200 body)) :
    (transfersCall world id request env status).2.1.Conforms := by
  have hgate := @authorizeUiRequest_records world.auth request.info request.headers
    (.lit "transfer_status") 30 world.clock env.unwritten
  unfold transfersCall
  dsimp only
  split <;> rename_i heq <;> rw [heq] at hgate
  · exact .answer (hgate.known h) (answers_errorReply (hgate.refused hunchecked rfl))
  · split
    · exact .answer (hgate.known h) (answers_error _ (by decide))
    · exact .answer (hgate.known h) (hstatus _ rfl)

theorem answerToConnection_conforms (hphase : request.phase = .receiving)
    (h : request.info.StatusKnown)
    (hfresh : request.route.answersAtOnce = true → request.info.authChecked = false)
    (upload : Option Body) : (answerToConnection world id request upload env).2.1.Conforms := by
  have hdispatch := answerToConnection_dispatch world id request upload env
  generalize answerToConnection world id request upload env = outcome at hdispatch ⊢
  cases hdispatch with
  | index route => exact .answer h (route ▸ .index)
  | devices route =>
      exact .answer h (route ▸ .devices world.registry _ (parse_peerRegistrySnapshotJson _))
  | notFound route => exact .answer h (route ▸ .notFound)
  | localCode route => exact localCodeCall_conforms route h (hfresh (by rw [route]; rfl))
  | transfers route =>
      refine transfersCall_conforms h (hfresh (by rw [route]; rfl)) fun body hbody => ?_
      cases hbody
      exact route ▸ .transfers world.queue _ (parse_transferStatusListJson _)
  | transfer route =>
      refine transfersCall_conforms h (hfresh (by rw [route]; rfl)) fun body hbody => ?_
      exact route ▸ answers_job hbody
  | chunk body => exact chunkStep_conforms hphase h body
  | unlock route => exact unlockFinal_conforms route h
  | exchange => exact exchangeFinal_conforms h
  | upload route => exact uploadFinal_conforms route h
  | pair => exact pairFinal_conforms h
  | send => exact sendFinal_conforms h

theorem proceed_pairRefused {port : UInt16} {peer : PeerInfo} {written : Option CString}
    {proceedEnv : ProceedEnv} {outcome : Outcome} (hphase : request.phase = .pairRemote port peer)
    (hrefused : transferPairPeer proceedEnv.transport 65 256 = .refused written)
    (h : proceed world id request proceedEnv = some outcome) :
    ∃ message, outcome.2.1 =
      request.answer (queueJsonStatusMessage 502 (.lit "error") message) := by
  unfold proceed at h
  simp only [hphase, hrefused, Option.some.injEq] at h
  subst h
  exact ⟨_, rfl⟩

theorem proceed_conforms {proceedEnv : ProceedEnv} {outcome : Outcome}
    (hconforms : request.Conforms)
    (honroute : request.OnRoute) (h : proceed world id request proceedEnv = some outcome) :
    outcome.2.1.Conforms := by
  have hstatus := hconforms.status
  unfold Request.OnRoute at honroute
  cases proceed_proceeds h with
  | exchangeAdd | pairAccepted | pairStore | sendCleanup => exact .within hstatus (by simp)
  | exchangeMark phase =>
      rw [phase] at honroute
      exact .answer hstatus (honroute ▸ answers_pair _ _ _)
  | pairRefused phase refused =>
      obtain ⟨message, heq⟩ := proceed_pairRefused phase refused h
      rw [heq]
      exact .answer hstatus (answers_error _ (by decide))
  | pairMark phase =>
      rw [phase] at honroute
      exact .answer hstatus (answers_done _ (.inr honroute.1))
  | sendRefused => exact .answer hstatus (answers_error _ (by decide))
  | sendEnqueued phase =>
      rw [phase] at honroute
      exact .answer hstatus (honroute ▸ answers_transfer _ _)

end handlers

structure Conforming (process : Process) : Prop where
  traced : Traced process
  requests : ∀ id request, process.requests id = some request → request.Conforms

theorem conforming_step (process : Process) (event : Event) (after : Process)
    (h : Conforming process) (hstep : step process event = some after) : Conforming after where
  traced := traced_step process event after h.traced hstep
  requests := by
    obtain ⟨settled, entries, hnext, rfl⟩ := step_eq_some hstep
    intro id request' hid
    cases next_origin hnext hid with
    | kept was => exact h.requests id request' was
    | accepted url method clientIp headers fresh quiet new =>
        subst new
        exact .within (.inl rfl) (by simp)
    | called upload env request was phase call settled logged new =>
        subst new
        exact answerToConnection_conforms phase (h.requests id request was).status
          (fun hroute => (h.traced.fresh id request was hroute phase).1) upload
    | proceeded env request outcome was continues call settled logged new =>
        subst new
        exact proceed_conforms (h.requests id request was) (h.traced.onRoutes id request was)
          continues

theorem Started.conforming {process : Process} (h : Started process) : Conforming process where
  traced := h.traced
  requests id request hid := by simp [h.requests] at hid

/-- In every run every answer is one that its route may have: a success with the members the
client expects, or an error of a known status; and all of them are read as JSON, whatever the
texts in them are. -/
theorem everyAnswer_conforms {start process : Process} {events : List Event}
    (hstart : Started start) (hrun : run step start events = some process) {id : Nat}
    {request : Request} {reply : Reply} (hid : process.requests id = some request)
    (hanswered : request.phase = .answered reply) : Answers request.route reply :=
  ((run_invariant conforming_step hstart.conforming hrun).requests id request hid).answered reply
    hanswered

def unreachable : List Event :=
  beforePair ++ [sendEnd 1 0,
    .proceed 1 ⟨.failed (.lit "host \"beta\" not found"), CString.empty, none⟩]

theorem unreachable_conforms : ∃ process request reply,
    run step sampleStart unreachable = some process ∧ process.requests 1 = some request ∧
      request.phase = .answered reply ∧ reply.status = 502 ∧ Answers request.route reply := by
  obtain ⟨process, hrun⟩ : ∃ process, run step sampleStart unreachable = some process :=
    Option.isSome_iff_exists.mp (by decide +kernel)
  have hfacts : (run step sampleStart unreachable).all (fun process =>
      (process.requests 1).any (fun request =>
        request.phase = .answered (queueJsonStatusMessage 502 (.lit "error")
          (.lit "host \"beta\" not found")))) = true := by
    decide +kernel
  rw [hrun] at hfacts
  simp only [Option.all_some, decide_eq_true_eq, Option.any_eq_true] at hfacts
  obtain ⟨request, hid, hphase⟩ := hfacts
  exact ⟨process, request, _, hrun, hid, hphase, rfl,
    everyAnswer_conforms sampleStart_started hrun hid hphase⟩

end LocalDrop
