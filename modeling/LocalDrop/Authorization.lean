import LocalDrop.Credentials
import LocalDrop.Files
import LocalDrop.Lib.Journal

/-! Authorization is checked at a request's first body chunk and remembered, while
its effects come in later calls. Here every effect is traced back through the log
to the credential the client presented, and every credential to the secret it was
given for. -/
namespace LocalDrop
open Lib

/-- The UI token in the headers was given to this client and has not expired. -/
def UiGrant (log : List Entry) (clientIp : CString) (headers : Headers) (now : Time) : Prop :=
  ∃ token expiresAt, headers.uiToken = some token ∧ token ≠ CString.empty ∧
    Entry.session clientIp token expiresAt ∈ log ∧ now < expiresAt

def UiAuthorized (log : List Entry) (id : Nat) (route : Route) : Prop :=
  ∃ pre post clientIp headers now,
    log = pre ++ Entry.chunk id 0 route clientIp headers now :: post ∧
      UiGrant pre clientIp headers now

def Entry.peerToken : Entry → Option ((CString × UInt16) × CString × Time)
  | .issued clientIp port token expiresAt => some ((clientIp, port), token, expiresAt)
  | .recorded _ peerIp port token expiresAt => some ((peerIp, port), token, expiresAt)
  | _ => none

def recordedToken (log : List Entry) (endpoint : CString × UInt16) : Option (CString × Time) :=
  log.foldl (fun last entry =>
    match entry.peerToken with
    | some (other, token) => if other = endpoint then some token else last
    | none => last) none

/-- The pair token in the headers is the one recorded for an endpoint of this client
and has not expired: it was issued to it, or a UI-authorized pairing towards it
brought it in. -/
def PeerGrant (log : List Entry) (clientIp : CString) (headers : Headers) (now : Time) : Prop :=
  ∃ token port expiresAt, headers.pairToken = some token ∧ token ≠ CString.empty ∧
    now < expiresAt ∧ recordedToken log (clientIp, port) = some (token, expiresAt) ∧
    (Entry.issued clientIp port token expiresAt ∈ log ∨
      ∃ id, Entry.recorded id clientIp port token expiresAt ∈ log ∧ UiAuthorized log id .pair)

def UploadAuthorized (log : List Entry) (id : Nat) : Prop :=
  ∃ pre post clientIp headers now,
    log = pre ++ Entry.chunk id 0 .upload clientIp headers now :: post ∧
      (UiGrant pre clientIp headers now ∨ PeerGrant pre clientIp headers now)

def UiCalled (log : List Entry) (id : Nat) : Prop :=
  ∃ pre post clientIp headers now,
    log = pre ++ Entry.call id clientIp headers now :: post ∧ UiGrant pre clientIp headers now

/-- What has to precede an effect. -/
def Allowed (log : List Entry) : Entry → Prop
  | .staged id .upload _ => UploadAuthorized log id
  | .staged id .send _ => UiAuthorized log id .send
  | .committed id _ _ _ => UploadAuthorized log id
  | .jobCreated id _ => UiAuthorized log id .send
  | .pairStarted id _ _ => UiAuthorized log id .pair
  | .recorded id _ _ _ _ => UiAuthorized log id .pair
  | .codeDisclosed id => UiCalled log id
  | .statusDisclosed id => UiCalled log id
  | _ => True

/-- What the log says about a request or a credential is what the step did: who
called and with which headers, that a session was opened with the right admin code,
a token issued for the current pairing code, or stored towards the target. -/
def Genuine (adminCode : CString) (process : Process) (event : Event) : Entry → Prop
  | .chunk id index route clientIp headers now => ∃ request,
      process.requests id = some request ∧ request.chunks = index ∧ request.route = route ∧
        request.info.clientIp.str = clientIp ∧ request.headers = headers ∧
        process.world.clock = now
  | .call id clientIp headers now => ∃ request, process.requests id = some request ∧
      request.info.clientIp.str = clientIp ∧ request.headers = headers ∧
      process.world.clock = now
  | .session clientIp token expiresAt => ∃ id request env,
      event = .call id none env ∧ process.requests id = some request ∧
        request.route = .unlock ∧ request.info.clientIp.str = clientIp ∧
        request.info.adminCode.str = adminCode ∧
        (authCreateUiSession process.world.auth clientIp adminCode process.world.clock
          env.random).2 = some token ∧
        expiresAt = process.world.clock + uiSessionTtlSeconds
  | .issued clientIp port token expiresAt => ∃ id request env current,
      event = .call id none env ∧ process.requests id = some request ∧
        request.route = .exchange ∧ request.info.clientIp.str = clientIp ∧
        ensurePairingCodeLocked process.world.auth process.world.clock env.codeRandom =
          some current ∧
        request.info.pairCode.str = current.pairingCode.str ∧
        (authIssuePairToken process.world.auth clientIp request.info.peerName.str port
          request.info.pairCode.str process.world.clock env.codeRandom env.random).2 =
            some (token, expiresAt)
  | .recorded id peerIp _ _ _ => ∃ request, process.requests id = some request ∧
      request.route = .pair ∧ request.info.targetIp.str = peerIp
  | _ => True

theorem UiAuthorized.append {log : List Entry} {id : Nat} {route : Route}
    (h : UiAuthorized log id route) (more : List Entry) :
    UiAuthorized (log ++ more) id route := by
  obtain ⟨pre, post, clientIp, headers, now, rfl, hgrant⟩ := h
  exact ⟨pre, post ++ more, clientIp, headers, now, by simp, hgrant⟩

theorem UploadAuthorized.append {log : List Entry} {id : Nat} (h : UploadAuthorized log id)
    (more : List Entry) : UploadAuthorized (log ++ more) id := by
  obtain ⟨pre, post, clientIp, headers, now, rfl, hgrant⟩ := h
  exact ⟨pre, post ++ more, clientIp, headers, now, by simp, hgrant⟩

theorem UiCalled.append {log : List Entry} {id : Nat} (h : UiCalled log id)
    (more : List Entry) : UiCalled (log ++ more) id := by
  obtain ⟨pre, post, clientIp, headers, now, rfl, hgrant⟩ := h
  exact ⟨pre, post ++ more, clientIp, headers, now, by simp, hgrant⟩

theorem allowed_append (log more : List Entry) (entry : Entry) (h : Allowed log entry) :
    Allowed (log ++ more) entry := by
  unfold Allowed at h ⊢
  split at h
  · exact UploadAuthorized.append h more
  · exact UiAuthorized.append h more
  · exact UploadAuthorized.append h more
  · exact UiAuthorized.append h more
  · exact UiAuthorized.append h more
  · exact UiAuthorized.append h more
  · exact UiCalled.append h more
  · exact UiCalled.append h more
  · trivial

def Admitted (log : List Entry) (id : Nat) : Route → Prop
  | .upload => UploadAuthorized log id
  | route => UiAuthorized log id route

theorem admitted_of_ne_upload {log : List Entry} {id : Nat} {route : Route}
    (h : route ≠ .upload) : Admitted log id route = UiAuthorized log id route := by
  cases route <;> first | rfl | contradiction

theorem Admitted.append {log : List Entry} {id : Nat} {route : Route}
    (h : Admitted log id route) (more : List Entry) : Admitted (log ++ more) id route := by
  unfold Admitted at h ⊢
  split at h
  · exact UploadAuthorized.append h more
  · exact UiAuthorized.append h more

def SessionsLogged (process : Process) : Prop :=
  ∀ session ∈ process.world.auth.uiSessions.slots, session.active = true →
    Entry.session session.clientIp.str session.token.str session.expiresAt ∈ process.log

def PeerSource (log : List Entry) (record : PeerTokenRecord) : Prop :=
  Entry.issued record.peerIp.str record.peerPort record.token.str record.expiresAt ∈ log ∨
    ∃ id, Entry.recorded id record.peerIp.str record.peerPort record.token.str
      record.expiresAt ∈ log ∧ UiAuthorized log id .pair

def TokensLogged (process : Process) : Prop :=
  ∀ record ∈ process.world.auth.peerTokens.slots, record.active = true →
    recordedToken process.log record.endpoint = some (record.token.str, record.expiresAt) ∧
      PeerSource process.log record

theorem recordedToken_append_of_none {log entries : List Entry}
    (h : ∀ entry ∈ entries, entry.peerToken = none) (endpoint : CString × UInt16) :
    recordedToken (log ++ entries) endpoint = recordedToken log endpoint := by
  induction entries generalizing log with
  | nil => simp
  | cons entry rest ih =>
      rw [List.append_cons, ih fun other hother => h other (by simp [hother])]
      simp [recordedToken, List.foldl_append, h entry (by simp)]

theorem recordedToken_concat {log : List Entry} {entry : Entry} {other : CString × UInt16}
    {token : CString × Time} (h : entry.peerToken = some (other, token))
    (endpoint : CString × UInt16) :
    recordedToken (log ++ [entry]) endpoint =
      if other = endpoint then some token else recordedToken log endpoint := by
  simp [recordedToken, List.foldl_append, h]

theorem recordedToken_append (log more : List Entry) (endpoint : CString × UInt16) :
    recordedToken (log ++ more) endpoint =
      (recordedToken more endpoint).or (recordedToken log endpoint) := by
  induction more generalizing log with
  | nil => simp [recordedToken]
  | cons entry rest ih =>
      have hfirst : recordedToken (entry :: rest) endpoint =
          (recordedToken rest endpoint).or (recordedToken [entry] endpoint) := ih [entry]
      rw [List.append_cons, ih, hfirst, Option.or_assoc]
      congr 1
      cases hentry : entry.peerToken with
      | none =>
          rw [recordedToken_append_of_none (by simp [hentry])]
          simp [recordedToken, hentry]
      | some write =>
          rw [recordedToken_concat hentry]
          simp only [recordedToken, hentry, List.foldl_cons, List.foldl_nil]
          split <;> simp

theorem peerToken_of_not_credential {entry : Entry} (h : entry.isCredential = false) :
    entry.peerToken = none := by
  cases entry <;> first | rfl | contradiction

theorem PeerSource.append {log : List Entry} {record : PeerTokenRecord}
    (h : PeerSource log record) (more : List Entry) : PeerSource (log ++ more) record := by
  rcases h with hissued | ⟨id, hrecorded, hauthorized⟩
  · exact .inl (List.mem_append_left _ hissued)
  · exact .inr ⟨id, List.mem_append_left _ hrecorded, hauthorized.append more⟩

theorem SessionsLogged.uiGrant {process : Process} (h : SessionsLogged process)
    {clientIp : CString} {headers : Headers} {now : Time}
    (hvalid : UiValid process.world.auth clientIp headers now) :
    UiGrant process.log clientIp headers now := by
  obtain ⟨token, htoken, hne, session, hmem, hlive, hgrants⟩ := hvalid
  obtain ⟨hactive, rfl, rfl⟩ := UiSession.grants_eq_true.mp hgrants
  refine ⟨_, session.expiresAt, htoken, hne, h session hmem hactive, ?_⟩
  simp only [UiSession.live, Bool.and_eq_true, decide_eq_true_eq] at hlive
  exact hlive.2

theorem TokensLogged.peerGrant {process : Process} (h : TokensLogged process)
    {clientIp : CString} {headers : Headers} {now : Time}
    (hvalid : PeerValid process.world.auth clientIp headers now) :
    PeerGrant process.log clientIp headers now := by
  obtain ⟨token, htoken, hne, record, hmem, hlive, hgrants⟩ := hvalid
  obtain ⟨hactive, rfl, rfl⟩ := PeerTokenRecord.grants_eq_true.mp hgrants
  exact ⟨_, record.peerPort, record.expiresAt, htoken, hne,
    (PeerTokenRecord.live_eq_true.mp hlive).2, h record hmem hactive⟩

theorem sessionsLogged_step {process after : Process} {event : Event}
    (hsessions : SessionsLogged process) (h : step process event = some after) :
    SessionsLogged after := by
  obtain ⟨settled, entries, hnext, rfl⟩ := step_eq_some h
  intro session hmem hactive
  have hkept : session ∈ process.world.auth.uiSessions.slots →
      Entry.session session.clientIp.str session.token.str session.expiresAt ∈
        process.log ++ entries :=
    fun hold => List.mem_append_left _ (hsessions session hold hactive)
  change session ∈ settled.world.auth.uiSessions.slots at hmem
  cases next_auth hnext with
  | consulted lookups quiet => exact hkept (lookups.sessions session hmem hactive)
  | session id request env token call was route created logged =>
      obtain ⟨-, htoken, -⟩ := authCreateUiSession_some created
      rcases mem_of_mem_create created hmem with hold | rfl
      · exact hkept hold
      · refine List.mem_append_right _ ?_
        rw [logged, newUiSession_token htoken]
        simp [newUiSession, copyString_str]
  | issued id request env port token expiresAt call was route created logged =>
      obtain ⟨current, table, hcurrent, -, -, -, -, hauth⟩ := authIssuePairToken_eq_some created
      refine hkept ((ensurePairingCodeLocked_consulted hcurrent).sessions session ?_ hactive)
      rw [hauth] at hmem
      exact hmem
  | stored id request env port peer token expiresAt call was phase created logged =>
      obtain ⟨table, -, hauth⟩ := authStorePeerToken_eq_true created
      rw [hauth] at hmem
      exact hkept hmem

/-- A request of a gated route: it is checked at its first chunk; as long as it is not
authorized its form is empty and it is in no handler; if it is, the log tells why. -/
structure Request.Earned (log : List Entry) (id : Nat) (request : Request) : Prop where
  first : request.info.authChecked = false →
    request.chunks = 0 ∧ request.info.requestAuthorized = false
  idle : request.info.requestAuthorized = false → request.info.uploadInProgress = false ∧
    request.info.pairCode.str = CString.empty ∧ request.releasable = true
  earned : request.info.requestAuthorized = true → Admitted log id request.route

/-- What final calls and the rest of a handler leave alone. -/
structure Request.Frozen (request request' : Request) : Prop where
  route : request'.route = request.route
  chunks : request'.chunks = request.chunks
  authChecked : request'.info.authChecked = request.info.authChecked
  requestAuthorized : request'.info.requestAuthorized = request.info.requestAuthorized
  uploadInProgress : request'.info.uploadInProgress = request.info.uploadInProgress
  pairCode : request'.info.pairCode = request.info.pairCode

theorem Request.Earned.authorized {log : List Entry} {id : Nat} {request : Request}
    (h : request.Earned log id) (hactive : request.info.uploadInProgress = true ∨
      request.info.pairCode.str ≠ CString.empty ∨ request.releasable = false) :
    request.info.requestAuthorized = true := by
  by_contra hnot
  rw [Bool.not_eq_true] at hnot
  obtain ⟨hprogress, hcode, hreleasable⟩ := h.idle hnot
  rcases hactive with hactive | hactive | hactive
  · simp [hprogress] at hactive
  · exact hactive hcode
  · simp [hreleasable] at hactive

theorem Request.Earned.frozen {log : List Entry} {id : Nat} {request request' : Request}
    (h : request.Earned log id) (hfrozen : request.Frozen request')
    (hphase : request'.releasable = true ∨ request.info.requestAuthorized = true)
    (more : List Entry) : request'.Earned (log ++ more) id where
  first hunchecked := by
    rw [hfrozen.authChecked] at hunchecked
    rw [hfrozen.chunks, hfrozen.requestAuthorized]
    exact h.first hunchecked
  idle hnot := by
    rw [hfrozen.requestAuthorized] at hnot
    obtain ⟨hprogress, hcode, -⟩ := h.idle hnot
    rw [hfrozen.uploadInProgress, hfrozen.pairCode]
    rcases hphase with hreleasable | hauthorized
    · exact ⟨hprogress, hcode, hreleasable⟩
    · rw [hnot] at hauthorized
      contradiction
  earned hauthorized := by
    rw [hfrozen.requestAuthorized] at hauthorized
    rw [hfrozen.route]
    exact (h.earned hauthorized).append more

section chunks
variable {process : Process} {id : Nat} {request : Request} {env : CallEnv}

theorem gate_admits (hsessions : SessionsLogged process) (htokens : TokensLogged process)
    (hroute : request.route.gated = true) (hearned : request.Earned process.log id)
    {auth' : Auth} {info' : ConnectionInfo}
    (hgate : chunkGate process.world.auth request.info request.route request.headers
      process.world.clock env.unwritten = (auth', info', true)) (more : List Entry) :
    Admitted (process.log ++ Entry.chunk id request.chunks request.route
      request.info.clientIp.str request.headers process.world.clock :: more) id
      request.route := by
  have hauthorizes := @chunkGate_authorizes process.world.auth _ request.headers
    process.world.clock env.unwritten _ hroute
    fun hunchecked => (hearned.first hunchecked).2
  rw [hgate] at hauthorizes
  rcases hauthorizes.earned rfl with hwas | ⟨hunchecked, hvalid⟩
  · exact (hearned.earned hwas).append _
  · rw [(hearned.first hunchecked).1]
    unfold Admits at hvalid
    split at hvalid
    · rename_i hupload
      rw [hupload]
      exact ⟨_, _, _, _, _, rfl, hvalid.imp hsessions.uiGrant htokens.peerGrant⟩
    · rename_i hother
      rw [admitted_of_ne_upload hother]
      exact ⟨_, _, _, _, _, rfl, hsessions.uiGrant hvalid⟩

theorem chunkStep_earned (hsessions : SessionsLogged process) (htokens : TokensLogged process)
    (hroute : request.route.gated = true) (hphase : request.phase = .receiving)
    (hearned : request.Earned process.log id) (body : Body) :
    (chunkStep process.world id request body env).2.1.Earned
      (process.log ++ (chunkStep process.world id request body env).2.2) id := by
  have hauthorizes := @chunkGate_authorizes process.world.auth _ request.headers
    process.world.clock env.unwritten _ hroute
    fun hunchecked => (hearned.first hunchecked).2
  have hgated := @chunkGate_gated process.world.auth request.info request.headers
    process.world.clock env.unwritten request.route
  unfold chunkStep
  dsimp only
  split
  · rename_i auth' info' heq
    rw [heq] at hauthorizes hgated
    have hnot : request.info.requestAuthorized = false := by
      rw [Bool.eq_false_iff]
      exact fun hwas => absurd (hauthorizes.lasting hwas) (by simp)
    obtain ⟨hprogress, hcode, -⟩ := hearned.idle hnot
    refine ⟨fun hunchecked => ?_, fun _ => ?_, fun hauthorized => ?_⟩
    · exact absurd hauthorizes.checked (by simpa using hunchecked)
    · obtain ⟨status, message, checked, authorized, rfl⟩ := hgated
      exact ⟨hprogress, hcode, by simp [Request.releasable, hphase]⟩
    · exact absurd (hauthorizes.authorized.symm.trans hauthorized) (by simp)
  · rename_i auth' info' heq
    rw [heq] at hauthorizes
    have hclient := @postProcess_sameClient process.world.fs id info' process.world.clock
      request.route body.items body.processed
    have hauthorized := hclient.requestAuthorized.trans hauthorizes.authorized
    refine ⟨fun hunchecked => ?_, fun hnot => ?_, fun _ => ?_⟩
    · exact absurd (hclient.authChecked.trans hauthorizes.checked) (by simpa using hunchecked)
    · exact absurd hauthorized (by simpa using hnot)
    · exact gate_admits hsessions htokens hroute hearned heq _

theorem chunkStep_allowed (hsessions : SessionsLogged process) (htokens : TokensLogged process)
    (hearned : request.route.gated = true → request.Earned process.log id) (body : Body)
    {pre post : List Entry} {entry : Entry}
    (hsplit : (chunkStep process.world id request body env).2.2 = pre ++ entry :: post) :
    Allowed (process.log ++ pre) entry := by
  have hcharged : ∀ charged ∈ chargedEntries process.world.auth id request process.world.clock,
      ∀ log, Allowed log charged := by
    intro charged hmem log
    obtain ⟨scope, rfl⟩ := eq_charged_of_mem hmem
    trivial
  unfold chunkStep at hsplit
  dsimp only at hsplit
  split at hsplit
  · cases pre with
    | nil =>
        rw [List.nil_append, List.cons.injEq] at hsplit
        exact hsplit.1 ▸ trivial
    | cons first rest =>
        rw [List.cons_append, List.cons.injEq] at hsplit
        exact hcharged entry (by simp [hsplit.2]) _
  · rename_i auth' info' heq
    cases pre with
    | nil =>
        rw [List.nil_append, List.cons_append, List.cons.injEq] at hsplit
        exact hsplit.1 ▸ trivial
    | cons first rest =>
        rw [List.cons_append, List.cons_append, List.cons.injEq] at hsplit
        obtain ⟨rfl, hrest⟩ := hsplit
        have hmem : entry ∈ chargedEntries process.world.auth id request process.world.clock ++
            stagedEntries id request.route info' (postProcess process.world.fs id info'
              request.route process.world.clock body.items body.processed).2 := by
          simp [hrest]
        rcases List.mem_append.mp hmem with hmem | hmem
        · exact hcharged entry hmem _
        · rw [eq_staged_of_mem hmem]
          have hadmits := fun hroute =>
            gate_admits hsessions htokens hroute (hearned hroute) heq rest
          revert hadmits
          cases request.route <;> intro hadmits <;>
            first | trivial | exact hadmits rfl

end chunks

section finals
variable {world : World} {id : Nat} {request : Request} {env : CallEnv} {log : List Entry}

theorem uploadFinal_frozen : request.Frozen (uploadFinal world id request env).2.1 ∧
    (uploadFinal world id request env).2.1.releasable = true := by
  unfold uploadFinal
  dsimp only
  repeat' split
  all_goals exact ⟨⟨rfl, rfl, rfl, rfl, rfl, rfl⟩, rfl⟩

theorem uploadFinal_allowed (hroute : request.route = .upload) (hearned : request.Earned log id)
    {entry : Entry} (h : entry ∈ (uploadFinal world id request env).2.2) :
    Allowed log entry := by
  unfold uploadFinal at h
  dsimp only at h
  split at h
  · simp at h
  · split at h
    · simp at h
    · rename_i hprogress
      split at h
      · simp at h
      · rw [List.mem_singleton] at h
        subst h
        have hadmitted := hearned.earned (hearned.authorized (.inl (by simpa using hprogress)))
        rw [hroute] at hadmitted
        exact hadmitted

theorem pairFinal_frozen (hearned : request.Earned log id) :
    request.Frozen (pairFinal world id request).2.1 ∧
      ((pairFinal world id request).2.1.releasable = true ∨
        request.info.requestAuthorized = true) := by
  unfold pairFinal
  dsimp only
  split
  · exact ⟨⟨rfl, rfl, rfl, rfl, rfl, rfl⟩, .inl rfl⟩
  · split
    · exact ⟨⟨rfl, rfl, rfl, rfl, rfl, rfl⟩, .inl rfl⟩
    · rename_i hform
      simp only [Bool.or_eq_true, decide_eq_true_eq, not_or] at hform
      have hauthorized := hearned.authorized (.inr (.inl hform.2))
      repeat' split
      all_goals exact ⟨⟨rfl, rfl, rfl, rfl, rfl, rfl⟩, .inr hauthorized⟩

theorem pairFinal_allowed (hroute : request.route = .pair) (hearned : request.Earned log id)
    {entry : Entry} (h : entry ∈ (pairFinal world id request).2.2) : Allowed log entry := by
  unfold pairFinal at h
  dsimp only at h
  split at h
  · simp at h
  · split at h
    · simp at h
    · rename_i hform
      simp only [Bool.or_eq_true, decide_eq_true_eq, not_or] at hform
      have hadmitted := hearned.earned (hearned.authorized (.inr (.inl hform.2)))
      rw [hroute] at hadmitted
      repeat' split at h
      all_goals first
        | simp at h; done
        | rw [List.mem_singleton] at h
          subst h
          exact hadmitted

theorem sendFinal_frozen (hearned : request.Earned log id) :
    request.Frozen (sendFinal world request env).2.1 ∧
      ((sendFinal world request env).2.1.releasable = true ∨
        request.info.requestAuthorized = true) := by
  obtain ⟨status, message, hinfo⟩ :=
    validateTargetPeer_info world.auth world.registry request.info world.clock
  unfold sendFinal
  dsimp only
  split
  · exact ⟨⟨rfl, rfl, rfl, rfl, rfl, rfl⟩, .inl rfl⟩
  · split
    · exact ⟨⟨rfl, rfl, rfl, rfl, rfl, rfl⟩, .inl rfl⟩
    · rename_i hprogress
      have hauthorized := hearned.authorized (.inl (by simpa using hprogress))
      split <;> rename_i heq <;> rw [heq] at hinfo <;> subst hinfo
      · exact ⟨⟨rfl, rfl, rfl, rfl, rfl, rfl⟩, .inl rfl⟩
      · split <;> exact ⟨⟨rfl, rfl, rfl, rfl, rfl, rfl⟩, .inr hauthorized⟩

theorem sendFinal_entries : (sendFinal world request env).2.2 = [] := by
  unfold sendFinal
  dsimp only
  repeat' split
  all_goals rfl

theorem proceed_frozen {outcome : Outcome} {proceedEnv : ProceedEnv}
    (h : proceed world id request proceedEnv = some outcome) :
    request.Frozen outcome.2.1 ∧ request.releasable = false := by
  unfold Request.releasable
  cases proceed_proceeds h with
  | exchangeAdd phase | exchangeMark phase | pairRefused phase | pairAccepted phase
  | pairStore phase | pairMark phase | sendCleanup phase | sendRefused phase
  | sendEnqueued phase =>
      rw [phase]
      exact ⟨⟨rfl, rfl, rfl, rfl, rfl, rfl⟩, rfl⟩

end finals

def Route.answersAtOnce : Route → Bool
  | .localCode | .transfers | .transfer _ => true
  | _ => false

def Request.Fresh (request : Request) : Prop :=
  request.phase = .receiving →
    request.info.authChecked = false ∧ request.info.requestAuthorized = false

section calls
variable {process : Process} {id : Nat} {request : Request} {env : CallEnv}

theorem uiRequest_called (id : Nat) (hsessions : SessionsLogged process) (hfresh : request.Fresh)
    (hphase : request.phase = .receiving) {scope : CString} {limit : Nat} {auth' : Auth}
    {info' : ConnectionInfo}
    (hgate : authorizeUiRequest process.world.auth request.info request.headers scope limit
      process.world.clock env.unwritten = (auth', info', true)) :
    UiCalled (process.log ++ [.call id request.info.clientIp.str request.headers
      process.world.clock]) id := by
  obtain ⟨hunchecked, hnot⟩ := hfresh hphase
  have hauthorizes := @authorizeUiRequest_authorizes process.world.auth _ request.headers scope
    limit process.world.clock env.unwritten fun _ => hnot
  rw [hgate] at hauthorizes
  rcases hauthorizes.earned rfl with hwas | ⟨-, hvalid⟩
  · rw [hnot] at hwas
    contradiction
  · exact ⟨_, [], _, _, _, rfl, hsessions.uiGrant hvalid⟩

/-- The call itself needs no permission, what it discloses does. -/
theorem disclosure_allowed {log pre post disclosure : List Entry} {clientIp : CString}
    {headers : Headers} {now : Time} {entry : Entry}
    (hsplit : .call id clientIp headers now :: disclosure = pre ++ entry :: post)
    (hallowed : ∀ disclosed ∈ disclosure,
      Allowed (log ++ [.call id clientIp headers now]) disclosed)
    (hone : disclosure.length ≤ 1) : Allowed (log ++ pre) entry := by
  cases pre with
  | nil =>
      rw [List.nil_append, List.cons.injEq] at hsplit
      exact hsplit.1 ▸ trivial
  | cons first rest =>
      rw [List.cons_append, List.cons.injEq] at hsplit
      obtain ⟨rfl, rfl⟩ := hsplit
      have hrest : rest = [] := by
        rw [List.length_append, List.length_cons] at hone
        exact List.eq_nil_of_length_eq_zero (by omega)
      subst hrest
      exact hallowed entry (by simp)

theorem localCodeCall_allowed (hsessions : SessionsLogged process) (hfresh : request.Fresh)
    (hphase : request.phase = .receiving) {pre post : List Entry} {entry : Entry}
    (hsplit : (localCodeCall process.world id request env).2.2 = pre ++ entry :: post) :
    Allowed (process.log ++ pre) entry := by
  unfold localCodeCall at hsplit
  dsimp only at hsplit
  split at hsplit
  · exact disclosure_allowed hsplit (by simp) (by simp)
  · rename_i heq
    have hcalled := uiRequest_called id hsessions hfresh hphase heq
    split at hsplit
    · exact disclosure_allowed hsplit (by simp) (by simp)
    · refine disclosure_allowed hsplit (fun disclosed hmem => ?_) (by simp)
      rw [List.mem_singleton] at hmem
      subst hmem
      exact hcalled

theorem transfersCall_allowed (hsessions : SessionsLogged process) (hfresh : request.Fresh)
    (hphase : request.phase = .receiving) (status : Option Bytes) {pre post : List Entry}
    {entry : Entry}
    (hsplit : (transfersCall process.world id request env status).2.2 = pre ++ entry :: post) :
    Allowed (process.log ++ pre) entry := by
  unfold transfersCall at hsplit
  dsimp only at hsplit
  split at hsplit
  · exact disclosure_allowed hsplit (by simp) (by simp)
  · rename_i heq
    have hcalled := uiRequest_called id hsessions hfresh hphase heq
    split at hsplit
    · exact disclosure_allowed hsplit (by simp) (by simp)
    · refine disclosure_allowed hsplit (fun disclosed hmem => ?_) (by simp)
      rw [List.mem_singleton] at hmem
      subst hmem
      exact hcalled

theorem answersAtOnce_answered (hroute : request.route.answersAtOnce = true)
    (upload : Option Body) :
    (answerToConnection process.world id request upload env).2.1.phase ≠ .receiving := by
  have hdispatch := answerToConnection_dispatch process.world id request upload env
  generalize answerToConnection process.world id request upload env = outcome at hdispatch ⊢
  cases hdispatch with
  | localCode =>
      unfold localCodeCall
      dsimp only
      repeat' split
      all_goals simp [Request.answer]
  | transfers | transfer =>
      unfold transfersCall
      dsimp only
      repeat' split
      all_goals simp [Request.answer]
  | index | devices | notFound => exact Phase.noConfusion
  | chunk body route =>
      cases hcase : request.route <;> simp [hcase, Route.answersAtOnce] at route hroute
  | unlock route | exchange route | upload route | pair route | send route =>
      rw [route] at hroute
      contradiction

theorem proceed_not_atOnce {world : World} {proceedEnv : ProceedEnv} {outcome : Outcome}
    (honroute : request.OnRoute) (h : proceed world id request proceedEnv = some outcome) :
    request.route.answersAtOnce = false := by
  unfold Request.OnRoute at honroute
  cases proceed_proceeds h with
  | exchangeAdd phase | exchangeMark phase | sendCleanup phase | sendRefused phase
  | sendEnqueued phase =>
      rw [phase] at honroute
      rw [show request.route = _ from honroute]
      rfl
  | pairRefused phase | pairAccepted phase | pairStore phase | pairMark phase =>
      rw [phase] at honroute
      rw [honroute.1]
      rfl

end calls

structure Traced (process : Process) : Prop where
  justified : Justified Allowed process.log
  sessions : SessionsLogged process
  tokens : TokensLogged process
  onRoutes : OnRoutes process
  unique : UniqueEndpoints process.world.auth.peerTokens
  gated : ∀ id request, process.requests id = some request → request.route.gated = true →
    request.Earned process.log id
  fresh : ∀ id request, process.requests id = some request →
    request.route.answersAtOnce = true → request.Fresh

theorem Traced.allowed {process : Process} (h : Traced process) {entry : Entry}
    (hentry : entry ∈ process.log) : Allowed process.log entry := by
  obtain ⟨pre, post, hsplit⟩ := List.append_of_mem hentry
  have hbefore := h.justified pre entry post hsplit
  rw [hsplit]
  exact allowed_append _ _ _ hbefore

theorem answerToConnection_allowed {process : Process} {id : Nat} {request : Request}
    {env : CallEnv} (h : Traced process) (hwas : process.requests id = some request)
    (hphase : request.phase = .receiving) (upload : Option Body) {pre post : List Entry}
    {entry : Entry}
    (hsplit : (answerToConnection process.world id request upload env).2.2 =
      pre ++ entry :: post) : Allowed (process.log ++ pre) entry := by
  have hmem : entry ∈ (answerToConnection process.world id request upload env).2.2 := by
    simp [hsplit]
  have hdispatch := answerToConnection_dispatch process.world id request upload env
  generalize answerToConnection process.world id request upload env = outcome
    at hdispatch hsplit hmem
  cases hdispatch with
  | index | devices | notFound => simp at hmem
  | localCode route =>
      exact localCodeCall_allowed h.sessions (h.fresh id request hwas (by rw [route]; rfl)) hphase
        hsplit
  | transfers route | transfer route =>
      exact transfersCall_allowed h.sessions (h.fresh id request hwas (by rw [route]; rfl)) hphase
        _ hsplit
  | chunk body =>
      exact chunkStep_allowed h.sessions h.tokens (h.gated id request hwas) body hsplit
  | unlock =>
      unfold unlockFinal at hmem
      dsimp only at hmem
      repeat' split at hmem
      all_goals simp only [List.mem_cons, List.not_mem_nil, or_false] at hmem
      · rcases hmem with rfl
        trivial
      · rcases hmem with rfl | rfl <;> trivial
  | exchange =>
      unfold exchangeFinal at hmem
      dsimp only at hmem
      repeat' split at hmem
      all_goals simp only [List.mem_cons, List.not_mem_nil, or_false] at hmem
      · rcases hmem with rfl
        trivial
      · rcases hmem with rfl | rfl <;> trivial
  | upload route =>
      exact allowed_append _ _ _
        (uploadFinal_allowed route (h.gated id request hwas (by rw [route]; rfl)) hmem)
  | pair route =>
      exact allowed_append _ _ _
        (pairFinal_allowed route (h.gated id request hwas (by rw [route]; rfl)) hmem)
  | send => simp [sendFinal_entries] at hmem

theorem proceed_allowed {process : Process} {id : Nat} {request : Request} {env : ProceedEnv}
    {outcome : Outcome} (h : Traced process) (hwas : process.requests id = some request)
    (hcontinues : proceed process.world id request env = some outcome) :
    ∀ entry ∈ outcome.2.2, Allowed process.log entry := by
  have honroute := h.onRoutes id request hwas
  have hadmitted : request.route.gated = true → Admitted process.log id request.route := by
    intro hroute
    have hearned := h.gated id request hwas hroute
    exact hearned.earned (hearned.authorized (.inr (.inr (proceed_frozen hcontinues).2)))
  unfold Request.OnRoute at honroute
  refine (proceed_proceeds hcontinues).entries ?_ (fun _ _ => trivial) ?_
  · intro port peer token expiresAt hphase
    rw [hphase] at honroute
    rw [honroute.1] at hadmitted
    exact hadmitted rfl
  · intro port token hphase
    rw [hphase] at honroute
    rw [honroute] at hadmitted
    exact hadmitted rfl

theorem justified_step {process after : Process} {event : Event} (h : Traced process)
    (hstep : step process event = some after) : Justified Allowed after.log := by
  obtain ⟨settled, entries, hnext, rfl⟩ := step_eq_some hstep
  change Justified Allowed (process.log ++ entries)
  have hallowed : (∀ entry ∈ entries, Allowed process.log entry) →
      Justified Allowed (process.log ++ entries) :=
    h.justified.append_of_allowed allowed_append
  cases next_steps hnext with
  | call id upload env request was phase =>
      exact h.justified.append fun pre entry post hsplit =>
        answerToConnection_allowed h was phase upload hsplit
  | proceed id env request outcome was continues =>
      exact hallowed (proceed_allowed h was continues)
  | completed id request was releasable =>
      refine hallowed ?_
      unfold requestCompleted
      split
      · simp
      · exact forall_mem_abortUnlinks (fun _ _ => trivial) _ _
  | workerDone success result ends => exact hallowed (forall_mem_jobUnlinks (fun _ _ => trivial) _)
  | tick | accept | workerTake | workerCall | workerProgress | workerExit | resolved | removed
  | serverStop | queueShutdown => exact hallowed (by simp)

theorem tokensLogged_upsert {process settled : Process} {entries : List Entry} {entry : Entry}
    {peerIp peerName token : CString} {port : UInt16} {expiresAt : Time}
    {table : PeerTokenTable} (htokens : TokensLogged process) (hip : peerIp.length < 46)
    (htoken : token.length < 65) (hunique : UniqueEndpoints table)
    (hupsert : upsertPeerTokenLocked process.world.auth.peerTokens peerIp port peerName token
      expiresAt = some table) (hauth : settled.world.auth.peerTokens = table)
    (hentries : ∃ others, entries = others ++ [entry] ∧
      ∀ other ∈ others, other.peerToken = none)
    (hentry : entry.peerToken = some ((peerIp, port), token, expiresAt))
    (hsource : PeerSource (process.log ++ entries)
      (peerTokenRecord peerIp port peerName token expiresAt)) :
    TokensLogged { settled with log := process.log ++ entries } := by
  obtain ⟨others, rfl, hothers⟩ := hentries
  have hlast : ∀ endpoint, recordedToken (process.log ++ (others ++ [entry])) endpoint =
      if (peerIp, port) = endpoint then some (token, expiresAt)
      else recordedToken process.log endpoint := by
    intro endpoint
    rw [← List.append_assoc, recordedToken_concat hentry,
      recordedToken_append_of_none hothers]
  have hnewEndpoint : (peerTokenRecord peerIp port peerName token expiresAt).endpoint =
      (peerIp, port) := by
    simp [PeerTokenRecord.endpoint, peerTokenRecord, copyString_str_of_lt peerIp hip]
  intro record hmem hactive
  change record ∈ settled.world.auth.peerTokens.slots at hmem
  change recordedToken (process.log ++ (others ++ [entry])) record.endpoint = _ ∧ _
  rw [hauth] at hmem
  by_cases hsame : (peerIp, port) = record.endpoint
  · have hrecord : record = peerTokenRecord peerIp port peerName token expiresAt :=
      hunique.eq_of_key hmem (mem_upsert_new hupsert) hactive rfl
        (hsame.symm.trans hnewEndpoint.symm)
    subst hrecord
    refine ⟨?_, hsource⟩
    rw [hlast, if_pos hsame]
    simp [peerTokenRecord, copyString_str_of_lt token htoken]
  · rcases mem_of_mem_upsert hupsert hmem with hold | rfl
    · obtain ⟨hrecorded, hwas⟩ := htokens record hold hactive
      rw [hlast, if_neg hsame]
      exact ⟨hrecorded, hwas.append _⟩
    · exact absurd hnewEndpoint.symm hsame

theorem tokensLogged_step {process after : Process} {event : Event} (h : Traced process)
    (hstep : step process event = some after) : TokensLogged after := by
  have hjustified := justified_step h hstep
  obtain ⟨settled, entries, hnext, rfl⟩ := step_eq_some hstep
  have hunique := uniqueEndpoints_next h.onRoutes h.unique hnext
  -- A record the step found in the table.
  have hkept : (∀ entry ∈ entries, entry.peerToken = none) →
      ∀ record ∈ process.world.auth.peerTokens.slots, record.active = true →
      recordedToken (process.log ++ entries) record.endpoint =
          some (record.token.str, record.expiresAt) ∧
        PeerSource (process.log ++ entries) record := by
    intro hnone record hold hactive
    rw [recordedToken_append_of_none hnone]
    exact ⟨(h.tokens record hold hactive).1, (h.tokens record hold hactive).2.append entries⟩
  cases next_auth hnext with
  | consulted lookups quiet =>
      intro record hmem hactive
      exact hkept (fun entry hentry => peerToken_of_not_credential (quiet entry hentry)) record
        (lookups.tokens record hmem hactive) hactive
  | session id request env token call was route created logged =>
      obtain ⟨-, -, sessions, hauth, -⟩ := authCreateUiSession_some created
      intro record hmem hactive
      change record ∈ settled.world.auth.peerTokens.slots at hmem
      rw [hauth] at hmem
      exact hkept (by simp [logged, Entry.peerToken]) record hmem hactive
  | issued id request env port token expiresAt call was route created logged =>
      obtain ⟨current, table, -, -, htoken, -, hupsert, hauth⟩ :=
        authIssuePairToken_eq_some created
      have htable : settled.world.auth.peerTokens = table := by rw [hauth]
      have hfits : token.length < 65 := by rw [cryptoRandomToken_length htoken]; decide
      refine tokensLogged_upsert h.tokens request.info.clientIp.fits hfits (htable ▸ hunique)
        hupsert htable ⟨[_], logged, by simp [Entry.peerToken]⟩ rfl
        (.inl (List.mem_append_right _ ?_))
      simp [peerTokenRecord, logged, copyString_str_of_lt token hfits]
  | stored id request env port peer token expiresAt call was phase created logged =>
      obtain ⟨table, hupsert, hauth⟩ := authStorePeerToken_eq_true created
      have htable : settled.world.auth.peerTokens = table := by rw [hauth]
      have honroute := h.onRoutes id request was
      simp only [Request.OnRoute, phase] at honroute
      have hallowed : UiAuthorized process.log id .pair :=
        hjustified process.log (.recorded id request.info.targetIp.str port token expiresAt) []
          (by simp [logged])
      refine tokensLogged_upsert h.tokens honroute.2.1 honroute.2.2 (htable ▸ hunique)
        hupsert htable ⟨[], logged, by simp⟩ rfl
        (.inr ⟨id, List.mem_append_right _ ?_, hallowed.append entries⟩)
      simp [peerTokenRecord, logged, copyString_str_of_lt _ honroute.2.1,
        copyString_str_of_lt _ honroute.2.2]

theorem earned_step {process after : Process} {event : Event} (h : Traced process)
    (hstep : step process event = some after) :
    ∀ id request, after.requests id = some request → request.route.gated = true →
      request.Earned after.log id := by
  obtain ⟨settled, entries, hnext, rfl⟩ := step_eq_some hstep
  intro id request' hid hroute
  change request'.Earned (process.log ++ entries) id
  cases next_origin hnext hid with
  | kept was =>
      have hwas := h.gated id request' was hroute
      refine hwas.frozen ⟨rfl, rfl, rfl, rfl, rfl, rfl⟩ ?_ entries
      cases hauthorized : request'.info.requestAuthorized with
      | true => exact .inr rfl
      | false => exact .inl (hwas.idle hauthorized).2.2
  | accepted url method clientIp headers fresh quiet new =>
      subst new
      exact ⟨fun _ => ⟨rfl, rfl⟩, fun _ => ⟨rfl, Buffer.zero_str 16, rfl⟩,
        fun hauthorized => by contradiction⟩
  | called upload env request was phase call settled logged new =>
      subst new logged
      rw [(answerToConnection_keeps upload).route] at hroute
      have hwas := h.gated id request was hroute
      have hdispatch := answerToConnection_dispatch process.world id request upload env
      generalize answerToConnection process.world id request upload env = outcome at hdispatch ⊢
      cases hdispatch with
      | chunk body => exact chunkStep_earned h.sessions h.tokens hroute phase hwas body
      | upload => exact hwas.frozen uploadFinal_frozen.1 (.inl uploadFinal_frozen.2) _
      | pair => exact hwas.frozen (pairFinal_frozen hwas).1 (pairFinal_frozen hwas).2 _
      | send => exact hwas.frozen (sendFinal_frozen hwas).1 (sendFinal_frozen hwas).2 _
      | index route | devices route | notFound route | localCode route | transfers route
      | transfer route | unlock route | exchange route =>
          rw [route] at hroute
          contradiction
  | proceeded env request outcome was continues call settled logged new =>
      subst new
      obtain ⟨hfrozen, hinside⟩ := proceed_frozen continues
      rw [hfrozen.route] at hroute
      have hwas := h.gated id request was hroute
      exact hwas.frozen hfrozen (.inr (hwas.authorized (.inr (.inr hinside)))) _

theorem fresh_step {process after : Process} {event : Event} (h : Traced process)
    (hstep : step process event = some after) :
    ∀ id request, after.requests id = some request → request.route.answersAtOnce = true →
      request.Fresh := by
  obtain ⟨settled, entries, hnext, rfl⟩ := step_eq_some hstep
  intro id request' hid hroute
  cases next_origin hnext hid with
  | kept was => exact h.fresh id request' was hroute
  | accepted url method clientIp headers fresh quiet new =>
      subst new
      exact fun _ => ⟨rfl, rfl⟩
  | called upload env request was phase call settled logged new =>
      subst new
      rw [(answerToConnection_keeps upload).route] at hroute
      exact fun hphase => absurd hphase (answersAtOnce_answered hroute upload)
  | proceeded env request outcome was continues call settled logged new =>
      subst new
      rw [(proceed_keeps continues).route] at hroute
      rw [proceed_not_atOnce (h.onRoutes id request was) continues] at hroute
      contradiction

theorem traced_step (process : Process) (event : Event) (after : Process) (h : Traced process)
    (hstep : step process event = some after) : Traced after where
  justified := justified_step h hstep
  sessions := sessionsLogged_step h.sessions hstep
  tokens := tokensLogged_step h hstep
  onRoutes := by
    obtain ⟨settled, entries, hnext, rfl⟩ := step_eq_some hstep
    have honroutes := onRoutes_next h.onRoutes hnext
    exact honroutes
  unique := by
    obtain ⟨settled, entries, hnext, rfl⟩ := step_eq_some hstep
    have hunique := uniqueEndpoints_next h.onRoutes h.unique hnext
    exact hunique
  gated := earned_step h hstep
  fresh := fresh_step h hstep

theorem Started.traced {process : Process} (h : Started process) : Traced process where
  justified := h.log ▸ justified_nil
  sessions session hmem hactive := by
    rw [h.tokens_inactive.1 session hmem] at hactive
    contradiction
  tokens record hmem hactive := by
    rw [h.tokens_inactive.2 record hmem] at hactive
    contradiction
  onRoutes := h.onRoutes
  unique := h.unique
  gated id request hid := by simp [h.requests] at hid
  fresh id request hid := by simp [h.requests] at hid

def Entry.Reports (process : Process) (id : Nat) (request : Request) : Entry → Prop
  | .chunk caller index route clientIp headers now => caller = id ∧ request.chunks = index ∧
      request.route = route ∧ request.info.clientIp.str = clientIp ∧
      request.headers = headers ∧ process.world.clock = now
  | .call caller clientIp headers now => caller = id ∧
      request.info.clientIp.str = clientIp ∧ request.headers = headers ∧
      process.world.clock = now
  | _ => True

section reports
variable {process : Process} {id : Nat} {request : Request} {env : CallEnv} {entry : Entry}

theorem chunkStep_reports (body : Body)
    (h : entry ∈ (chunkStep process.world id request body env).2.2) :
    entry.Reports process id request := by
  rcases eq_of_mem_chunkStep body h with rfl | ⟨scope, rfl⟩ | ⟨path, rfl⟩
  · exact ⟨rfl, rfl, rfl, rfl, rfl, rfl⟩
  · trivial
  · trivial

theorem localCodeCall_reports (h : entry ∈ (localCodeCall process.world id request env).2.2) :
    entry.Reports process id request := by
  unfold localCodeCall at h
  dsimp only at h
  repeat' split at h
  all_goals simp only [List.mem_cons, List.not_mem_nil, or_false] at h
  · exact h ▸ ⟨rfl, rfl, rfl, rfl⟩
  · exact h ▸ ⟨rfl, rfl, rfl, rfl⟩
  · rcases h with rfl | rfl
    · exact ⟨rfl, rfl, rfl, rfl⟩
    · trivial

theorem transfersCall_reports (status : Option Bytes)
    (h : entry ∈ (transfersCall process.world id request env status).2.2) :
    entry.Reports process id request := by
  unfold transfersCall at h
  dsimp only at h
  repeat' split at h
  all_goals simp only [List.mem_cons, List.not_mem_nil, or_false] at h
  · exact h ▸ ⟨rfl, rfl, rfl, rfl⟩
  · exact h ▸ ⟨rfl, rfl, rfl, rfl⟩
  · rcases h with rfl | rfl
    · exact ⟨rfl, rfl, rfl, rfl⟩
    · trivial

theorem answerToConnection_reports (upload : Option Body)
    (h : entry ∈ (answerToConnection process.world id request upload env).2.2) :
    entry.Reports process id request := by
  have hdispatch := answerToConnection_dispatch process.world id request upload env
  generalize answerToConnection process.world id request upload env = outcome at hdispatch h
  cases hdispatch with
  | index | devices | notFound => simp at h
  | localCode => exact localCodeCall_reports h
  | transfers | transfer => exact transfersCall_reports _ h
  | chunk body => exact chunkStep_reports body h
  | unlock | exchange | upload | pair | send =>
      -- A final call writes no entry about a call.
      simp only [unlockFinal, exchangeFinal, uploadFinal, pairFinal, sendFinal] at h
      repeat' split at h
      all_goals simp only [List.mem_cons, List.not_mem_nil, or_false] at h
      all_goals first
        | exact h ▸ trivial
        | rcases h with rfl | rfl <;> trivial

end reports

def Entry.isArrival : Entry → Bool
  | .chunk _ _ _ _ _ _ => true
  | .call _ _ _ _ => true
  | _ => false

theorem proceed_not_arrival {world : World} {id : Nat} {request : Request} {env : ProceedEnv}
    {outcome : Outcome} (h : proceed world id request env = some outcome) :
    ∀ entry ∈ outcome.2.2, entry.isArrival = false := by
  exact (proceed_proceeds h).entries (fun _ _ _ _ _ => rfl) (fun _ _ => rfl) fun _ _ _ => rfl

theorem next_genuine {process after : Process} {event : Event} {entries : List Entry}
    (hroutes : OnRoutes process) (h : next process event = some (after, entries))
    {entry : Entry} (hentry : entry ∈ entries) :
    Genuine process.world.auth.adminCode.str process event entry := by
  cases hcredential : entry.isCredential with
  | true =>
      cases next_auth h with
      | consulted lookups quiet =>
          rw [quiet entry hentry] at hcredential
          contradiction
      | session id request env token call was route created logged =>
          rw [logged, List.mem_pair] at hentry
          rcases hentry with rfl | rfl
          · contradiction
          · have hcode := (authCreateUiSession_some created).1
            refine ⟨id, request, env, call, was, route, rfl, hcode.symm, ?_, rfl⟩
            rw [hcode, created]
      | issued id request env port token expiresAt call was route created logged =>
          rw [logged, List.mem_pair] at hentry
          rcases hentry with rfl | rfl
          · contradiction
          · obtain ⟨current, table, hcurrent, hcode, -, -, -, -⟩ :=
              authIssuePairToken_eq_some created
            exact ⟨id, request, env, current, call, was, route, rfl, hcurrent, hcode.symm,
              by rw [created]⟩
      | stored id request env port peer token expiresAt call was phase created logged =>
          rw [logged, List.mem_singleton] at hentry
          subst hentry
          have honroute := hroutes id request was
          simp only [Request.OnRoute, phase] at honroute
          exact ⟨request, was, honroute.1, rfl⟩
  | false =>
      have hother : entry.isArrival = false →
          Genuine process.world.auth.adminCode.str process event entry := by
        intro harrival
        cases entry <;> trivial
      cases next_steps h with
      | call id upload env request was phase =>
          have hreports := answerToConnection_reports upload hentry
          cases entry <;> first | trivial | skip
          · obtain ⟨rfl, hreports⟩ := hreports
            exact ⟨request, was, hreports⟩
          · obtain ⟨rfl, hreports⟩ := hreports
            exact ⟨request, was, hreports⟩
      | proceed id env request outcome was continues =>
          exact hother (proceed_not_arrival continues entry hentry)
      | completed id request was releasable =>
          unfold requestCompleted at hentry
          split at hentry
          · simp at hentry
          · exact hother (forall_mem_abortUnlinks (P := fun entry => entry.isArrival = false)
              (fun _ _ => rfl) _ _ entry hentry)
      | workerDone success result ends =>
          exact hother (forall_mem_jobUnlinks (P := fun entry => entry.isArrival = false)
            (fun _ _ => rfl) _ entry hentry)
      | tick | accept | workerTake | workerCall | workerProgress | workerExit | resolved
      | removed | serverStop | queueShutdown => simp at hentry

theorem adminCode_run {start process : Process} {events : List Event}
    (hrun : run step start events = some process) :
    process.world.auth.adminCode = start.world.auth.adminCode := by
  have hsame : ∀ before event after,
      before.world.auth.adminCode = start.world.auth.adminCode → step before event = some after →
      after.world.auth.adminCode = start.world.auth.adminCode := by
    intro before event after hbefore hstep
    obtain ⟨settled, entries, hnext, rfl⟩ := step_eq_some hstep
    have hcode := next_adminCode hnext
    exact hcode.trans hbefore
  have hcode := run_invariant hsame rfl hrun
  exact hcode

end LocalDrop
