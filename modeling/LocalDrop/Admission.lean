import LocalDrop.Lib.LastWrite
import LocalDrop.PairedTokens
import LocalDrop.Refusals
import LocalDrop.Replies

/-! Who is turned away. A client that presents what it was last given, and in time, is never
told that it is not authorized, whatever has been put into the tables of `auth.c` and looked
up there since. -/
namespace LocalDrop
open Lib

def Entry.opened : Entry → Option (CString × CString × Time)
  | .session clientIp token expiresAt => some (clientIp, token, expiresAt)
  | _ => none

def lastSession (log : List Entry) (clientIp : CString) : Option (CString × Time) :=
  (lastWrite Prod.fst (log.filterMap Entry.opened) clientIp).map Prod.snd

/-- The headers have the token of the client's last session, and that goes on. -/
def HoldsSession (log : List Entry) (clientIp : CString) (headers : Headers) (now : Time) :
    Prop :=
  ∃ token expiresAt, headers.uiToken = some token ∧
    lastSession log clientIp = some (token, expiresAt) ∧ now < expiresAt

/-- The headers have the token last recorded for one of the client's endpoints, and it is
still good. -/
def HoldsPeerToken (log : List Entry) (clientIp : CString) (headers : Headers) (now : Time) :
    Prop :=
  ∃ token port expiresAt, headers.pairToken = some token ∧ token ≠ CString.empty ∧
    recordedToken log (clientIp, port) = some (token, expiresAt) ∧ now < expiresAt

def Entitled (log : List Entry) (route : Route) (clientIp : CString) (headers : Headers)
    (now : Time) : Prop :=
  HoldsSession log clientIp headers now ∨ route = .upload ∧ HoldsPeerToken log clientIp headers now

/-- The request was not entitled to anything when it was checked: at its first body chunk, or
at its only call. -/
def Denied (log : List Entry) (id : Nat) (route : Route) : Prop :=
  ∃ pre post clientIp headers now, ¬ Entitled pre route clientIp headers now ∧
    (log = pre ++ Entry.chunk id 0 route clientIp headers now :: post ∨
      log = pre ++ Entry.call id clientIp headers now :: post)

theorem Denied.append {log : List Entry} {id : Nat} {route : Route} (h : Denied log id route)
    (more : List Entry) : Denied (log ++ more) id route := by
  obtain ⟨pre, post, clientIp, headers, now, hnot, rfl | rfl⟩ := h
  · exact ⟨pre, post ++ more, clientIp, headers, now, hnot, .inl (by simp)⟩
  · exact ⟨pre, post ++ more, clientIp, headers, now, hnot, .inr (by simp)⟩

theorem lastSession_append_of_none {log entries : List Entry}
    (h : ∀ entry ∈ entries, entry.opened = none) (clientIp : CString) :
    lastSession (log ++ entries) clientIp = lastSession log clientIp := by
  unfold lastSession
  rw [List.filterMap_append, List.filterMap_eq_nil_iff.mpr h, List.append_nil]

theorem lastSession_concat {log : List Entry} {entry : Entry} {other : CString}
    {session : CString × Time} (h : entry.opened = some (other, session)) (clientIp : CString) :
    lastSession (log ++ [entry]) clientIp =
      if other = clientIp then some session else lastSession log clientIp := by
  have hone : [entry].filterMap Entry.opened = [(other, session)] := by
    rw [List.filterMap_cons_some h, List.filterMap_nil]
  unfold lastSession
  rw [List.filterMap_append, hone, lastWrite_concat]
  dsimp only
  split
  · rfl
  · rfl

theorem opened_of_not_credential {entry : Entry} (h : entry.isCredential = false) :
    entry.opened = none := by
  cases entry <;> first | rfl | contradiction

def SessionsHeld (process : Process) : Prop :=
  ∀ clientIp token expiresAt, lastSession process.log clientIp = some (token, expiresAt) →
    process.world.clock < expiresAt → token ≠ CString.empty ∧
      ∃ session ∈ process.world.auth.uiSessions.slots, session.active = true ∧
        session.clientIp.str = clientIp ∧ session.token.str = token ∧
        session.expiresAt = expiresAt

def TokensHeld (process : Process) : Prop :=
  ∀ endpoint token expiresAt, recordedToken process.log endpoint = some (token, expiresAt) →
    process.world.clock < expiresAt →
      ∃ record ∈ process.world.auth.peerTokens.slots, record.active = true ∧
        record.endpoint = endpoint ∧ record.token.str = token ∧ record.expiresAt = expiresAt

theorem SessionsHeld.uiValid {process : Process} (h : SessionsHeld process) {clientIp : CString}
    {headers : Headers} (hholds : HoldsSession process.log clientIp headers process.world.clock) :
    UiValid process.world.auth clientIp headers process.world.clock := by
  obtain ⟨token, expiresAt, htoken, hlast, hnow⟩ := hholds
  obtain ⟨hne, session, hmem, hactive, hclient, hsame, rfl⟩ := h clientIp token expiresAt hlast hnow
  refine ⟨token, htoken, hne, session, hmem, ?_, ?_⟩
  · exact UiSession.live_eq_true.mpr ⟨hactive, hnow⟩
  · exact UiSession.grants_eq_true.mpr ⟨hactive, hclient, hsame⟩

theorem TokensHeld.peerValid {process : Process} (h : TokensHeld process) {clientIp : CString}
    {headers : Headers} (hholds : HoldsPeerToken process.log clientIp headers process.world.clock) :
    PeerValid process.world.auth clientIp headers process.world.clock := by
  obtain ⟨token, port, expiresAt, htoken, hne, hlast, hnow⟩ := hholds
  obtain ⟨record, hmem, hactive, hendpoint, hsame, rfl⟩ := h (clientIp, port) token expiresAt hlast
    hnow
  refine ⟨token, htoken, hne, record, hmem, ?_, ?_⟩
  · exact PeerTokenRecord.live_eq_true.mpr ⟨hactive, hnow⟩
  · exact PeerTokenRecord.grants_eq_true.mpr ⟨hactive, congrArg Prod.fst hendpoint, hsame⟩

theorem SessionsHeld.stays {process : Process} {auth : Auth} {later : Time} {clientIp : CString}
    {token : CString} {expiresAt : Time} (h : SessionsHeld process)
    (hlast : lastSession process.log clientIp = some (token, expiresAt))
    (hclock : process.world.clock ≤ later) (hnow : later < expiresAt)
    (hstays : ∀ session ∈ process.world.auth.uiSessions.slots,
      session.live process.world.clock = true → session.clientIp.str = clientIp →
      session ∈ auth.uiSessions.slots) :
    token ≠ CString.empty ∧ ∃ session ∈ auth.uiSessions.slots, session.active = true ∧
      session.clientIp.str = clientIp ∧ session.token.str = token ∧
      session.expiresAt = expiresAt := by
  have hearlier := lt_of_le_of_lt hclock hnow
  obtain ⟨hne, session, hmem, hactive, hclient, htoken, rfl⟩ :=
    h clientIp token expiresAt hlast hearlier
  have hlive := UiSession.live_eq_true.mpr ⟨hactive, hearlier⟩
  exact ⟨hne, session, hstays session hmem hlive hclient, hactive, hclient, htoken, rfl⟩

theorem sessionsHeld_step {process after : Process} {event : Event} (h : SessionsHeld process)
    (hstep : step process event = some after) : SessionsHeld after := by
  obtain ⟨settled, entries, hnext, rfl⟩ := step_eq_some hstep
  have hclock := (next_clock hnext).1
  intro clientIp token expiresAt hlast hnow
  change lastSession (process.log ++ entries) clientIp = _ at hlast
  cases next_auth hnext with
  | consulted lookups quiet =>
      rw [lastSession_append_of_none fun entry hentry =>
        opened_of_not_credential (quiet entry hentry)] at hlast
      exact h.stays hlast hclock hnow fun session hmem hlive _ => lookups.liveSession hmem hlive
  | session id request env fresh call was route created logged =>
      obtain ⟨-, hfresh, -⟩ := authCreateUiSession_some created
      have hlog : process.log ++ entries = process.log ++
          [.compared id request.info.clientIp.str (.lit "session_unlock") process.world.clock] ++
            [.session request.info.clientIp.str fresh
              (process.world.clock + uiSessionTtlSeconds)] := by simp [logged]
      rw [hlog, lastSession_concat rfl, lastSession_append_of_none (by simp [Entry.opened])]
        at hlast
      split at hlast
      · rename_i hsame
        cases Option.some.inj hlast
        have hclient : (copyString request.info.clientIp.str : Chars 46).str = clientIp :=
          (copyString_str_of_lt _ request.info.clientIp.fits).trans hsame
        exact ⟨cryptoRandomToken_ne_empty hfresh, _, mem_create_new created, rfl, hclient,
          newUiSession_token hfresh, rfl⟩
      · rename_i hother
        refine h.stays hlast hclock hnow fun session hmem hlive hclient => ?_
        exact mem_create_of_live created hmem hlive fun hsame => hother (hsame.symm.trans hclient)
  | issued id request env port fresh validUntil call was route created logged =>
      obtain ⟨current, table, hcurrent, -, -, -, -, hauth⟩ := authIssuePairToken_eq_some created
      rw [lastSession_append_of_none (by simp [logged, Entry.opened])] at hlast
      refine h.stays hlast hclock hnow fun session hmem hlive _ => ?_
      rw [hauth]
      exact (ensurePairingCodeLocked_consulted hcurrent).liveSession hmem hlive
  | stored id request env port peer fresh validUntil call was phase created logged =>
      obtain ⟨table, -, hauth⟩ := authStorePeerToken_eq_true created
      rw [lastSession_append_of_none (by simp [logged, Entry.opened])] at hlast
      refine h.stays hlast hclock hnow fun session hmem _ _ => ?_
      rw [hauth]
      exact hmem

theorem TokensHeld.stays {process : Process} {auth : Auth} {later : Time}
    {endpoint : CString × UInt16} {token : CString} {expiresAt : Time} (h : TokensHeld process)
    (hlast : recordedToken process.log endpoint = some (token, expiresAt))
    (hclock : process.world.clock ≤ later) (hnow : later < expiresAt)
    (hstays : ∀ record ∈ process.world.auth.peerTokens.slots,
      record.live process.world.clock = true → record.endpoint = endpoint →
      record ∈ auth.peerTokens.slots) :
    ∃ record ∈ auth.peerTokens.slots, record.active = true ∧ record.endpoint = endpoint ∧
      record.token.str = token ∧ record.expiresAt = expiresAt := by
  have hearlier := lt_of_le_of_lt hclock hnow
  obtain ⟨record, hmem, hactive, hendpoint, htoken, rfl⟩ :=
    h endpoint token expiresAt hlast hearlier
  have hlive := PeerTokenRecord.live_eq_true.mpr ⟨hactive, hearlier⟩
  exact ⟨record, hstays record hmem hlive hendpoint, hactive, hendpoint, htoken, rfl⟩

theorem tokensHeld_upsert {process : Process} {auth : Auth} {later : Time} {others : List Entry}
    {entry : Entry} {peerIp peerName token : CString} {port : UInt16} {expiresAt : Time}
    (h : TokensHeld process) (hclock : process.world.clock ≤ later) (hip : peerIp.length < 46)
    (htoken : token.length < 65)
    (hupsert : upsertPeerTokenLocked process.world.auth.peerTokens peerIp port peerName token
      expiresAt = some auth.peerTokens)
    (hothers : ∀ other ∈ others, other.peerToken = none)
    (hentry : entry.peerToken = some ((peerIp, port), token, expiresAt))
    {endpoint : CString × UInt16} {last : CString} {goodUntil : Time}
    (hlast : recordedToken (process.log ++ (others ++ [entry])) endpoint = some (last, goodUntil))
    (hnow : later < goodUntil) :
    ∃ record ∈ auth.peerTokens.slots, record.active = true ∧ record.endpoint = endpoint ∧
      record.token.str = last ∧ record.expiresAt = goodUntil := by
  rw [← List.append_assoc, recordedToken_concat hentry, recordedToken_append_of_none hothers]
    at hlast
  split at hlast
  · rename_i hsame
    cases Option.some.inj hlast
    exact ⟨_, mem_upsert_new hupsert, rfl, (peerTokenRecord_endpoint hip).trans hsame,
      copyString_str_of_lt token htoken, rfl⟩
  · rename_i hother
    refine h.stays hlast hclock hnow fun record hmem hlive hendpoint => ?_
    refine mem_upsert_of_mem hupsert hmem (PeerTokenRecord.live_eq_true.mp hlive).1 ?_
    rw [Bool.eq_false_iff, ne_eq, PeerTokenRecord.isFor_eq_true]
    rintro ⟨-, hfor⟩
    exact hother (hfor.symm.trans hendpoint)

theorem tokensHeld_step {process after : Process} {event : Event} (honroutes : OnRoutes process)
    (h : TokensHeld process) (hstep : step process event = some after) : TokensHeld after := by
  obtain ⟨settled, entries, hnext, rfl⟩ := step_eq_some hstep
  have hclock := (next_clock hnext).1
  intro endpoint token expiresAt hlast hnow
  change recordedToken (process.log ++ entries) endpoint = _ at hlast
  cases next_auth hnext with
  | consulted lookups quiet =>
      rw [recordedToken_append_of_none fun entry hentry =>
        peerToken_of_not_credential (quiet entry hentry)] at hlast
      exact h.stays hlast hclock hnow fun record hmem hlive _ => lookups.live record hmem hlive
  | session id request env fresh call was route created logged =>
      obtain ⟨-, -, sessions, hauth, -⟩ := authCreateUiSession_some created
      rw [recordedToken_append_of_none (by simp [logged, Entry.peerToken])] at hlast
      refine h.stays hlast hclock hnow fun record hmem _ _ => ?_
      rw [hauth]
      exact hmem
  | issued id request env port fresh validUntil call was route created logged =>
      obtain ⟨current, table, -, -, hfresh, -, hupsert, hauth⟩ := authIssuePairToken_eq_some created
      have htable : table = settled.world.auth.peerTokens := by rw [hauth]
      have hfits : fresh.length < 65 := by rw [cryptoRandomToken_length hfresh]; decide
      have hothers : ∀ other ∈ [Entry.compared id request.info.clientIp.str (.lit "pair_exchange")
          process.world.clock], other.peerToken = none := by simp [Entry.peerToken]
      rw [logged] at hlast
      exact tokensHeld_upsert h hclock request.info.clientIp.fits hfits (htable ▸ hupsert) hothers
        rfl hlast hnow
  | stored id request env port peer fresh validUntil call was phase created logged =>
      obtain ⟨table, hupsert, hauth⟩ := authStorePeerToken_eq_true created
      have htable : table = settled.world.auth.peerTokens := by rw [hauth]
      have honroute := honroutes id request was
      simp only [Request.OnRoute, phase] at honroute
      have hothers : ∀ other ∈ ([] : List Entry), other.peerToken = none := by simp
      rw [logged] at hlast
      exact tokensHeld_upsert h hclock honroute.2.1 honroute.2.2 (htable ▸ hupsert) hothers rfl
        hlast hnow

def Judges (info : ConnectionInfo) (valid : Prop) (result : Auth × ConnectionInfo × Bool) :
    Prop :=
  result.2.1.responseStatus = 401 →
    info.responseStatus = 401 ∨ info.authChecked = false ∧ ¬ valid

section gates
variable {auth auth' : Auth} {info : ConnectionInfo} {headers : Headers} {scope : CString}
  {limit : Nat} {now : Time} {unwritten : CString}

theorem validUiToken_iff (clientIp : CString) :
    (validUiToken auth clientIp headers now).2 = true ↔ UiValid auth clientIp headers now := by
  unfold validUiToken UiValid
  cases headers.uiToken with
  | none => simp
  | some token => simpa using authValidateUiSession_iff

theorem validPairToken_iff (clientIp : CString) :
    (validPairToken auth clientIp headers now).2 = true ↔ PeerValid auth clientIp headers now := by
  unfold validPairToken PeerValid
  cases headers.pairToken with
  | none => simp
  | some token => simpa using authValidatePeerToken_iff

theorem Auth.Consulted.validUiToken (h : auth.Consulted now auth') (clientIp : CString) :
    (validUiToken auth' clientIp headers now).2 = (validUiToken auth clientIp headers now).2 := by
  unfold LocalDrop.validUiToken
  split
  · rfl
  · exact h.validateUiSession clientIp _ le_rfl

theorem Auth.Consulted.validPairToken (h : auth.Consulted now auth') (clientIp : CString) :
    (validPairToken auth' clientIp headers now).2 =
      (validPairToken auth clientIp headers now).2 := by
  unfold LocalDrop.validPairToken
  split
  · rfl
  · exact h.validatePeerToken clientIp _ le_rfl

theorem authorizeUiRequest_judges :
    Judges info (UiValid auth info.clientIp.str headers now)
      (authorizeUiRequest auth info headers scope limit now unwritten) := by
  unfold authorizeUiRequest
  split
  · exact .inl
  · rename_i hchecked
    rw [Bool.not_eq_true] at hchecked
    have hconsulted := @rateLimitRequest_consulted auth { info with authChecked := true } scope
      limit now unwritten
    rcases rateLimitRequest_status auth { info with authChecked := true } scope limit now
      unwritten with ⟨limited, heq⟩ | ⟨limited, info', heq, hstatus⟩ <;>
      rw [heq] at hconsulted ⊢ <;> dsimp only
    · split
      · exact .inl
      · rename_i hinvalid
        refine fun _ => .inr ⟨hchecked, fun hvalid => ?_⟩
        have hsame := @Auth.Consulted.validUiToken _ _ headers _ hconsulted info.clientIp.str
        rw [(validUiToken_iff _).mpr hvalid, hinvalid] at hsame
        contradiction
    · intro h
      rw [hstatus] at h
      contradiction

theorem authorizeUploadRequest_judges :
    Judges info (UiValid auth info.clientIp.str headers now ∨
        PeerValid auth info.clientIp.str headers now)
      (authorizeUploadRequest auth info headers now unwritten) := by
  unfold authorizeUploadRequest
  split
  · exact .inl
  · rename_i hchecked
    rw [Bool.not_eq_true] at hchecked
    have hconsulted := @rateLimitRequest_consulted auth { info with authChecked := true }
      (.lit "upload") 20 now unwritten
    rcases rateLimitRequest_status auth { info with authChecked := true } (.lit "upload") 20 now
      unwritten with ⟨limited, heq⟩ | ⟨limited, info', heq, hstatus⟩ <;>
      rw [heq] at hconsulted ⊢ <;> dsimp only
    · split
      · exact .inl
      · rename_i swept hnoSession
        have hswept := (@validUiToken_spec limited headers now info.clientIp.str).1
        rw [hnoSession] at hswept
        split
        · exact .inl
        · rename_i hnoToken
          refine fun _ => .inr ⟨hchecked, ?_⟩
          rintro (hvalid | hvalid)
          · have hsame := @Auth.Consulted.validUiToken _ _ headers _ hconsulted info.clientIp.str
            rw [(validUiToken_iff _).mpr hvalid, hnoSession] at hsame
            contradiction
          · have hsame := @Auth.Consulted.validPairToken _ _ headers _ (hconsulted.trans hswept)
              info.clientIp.str
            rw [(validPairToken_iff _).mpr hvalid, hnoToken] at hsame
            contradiction
    · intro h
      rw [hstatus] at h
      contradiction

theorem limitChunk_keeps401 :
    (limitChunk auth info scope limit now unwritten).2.1.responseStatus = 401 →
      info.responseStatus = 401 := by
  unfold limitChunk
  split
  · exact id
  · rcases rateLimitRequest_status auth { info with authChecked := true } scope limit now
      unwritten with ⟨limited, heq⟩ | ⟨limited, info', heq, hstatus⟩ <;> rw [heq] <;> dsimp only
    · exact id
    · intro h
      rw [hstatus] at h
      contradiction

theorem chunkGate_judges (route : Route)
    (h : (chunkGate auth info route headers now unwritten).2.1.responseStatus = 401) :
    info.responseStatus = 401 ∨ route.gated = true ∧ info.authChecked = false ∧
      ¬ Admits auth info.clientIp.str headers now route := by
  unfold chunkGate at h
  cases route with
  | upload => exact (authorizeUploadRequest_judges h).imp_right fun hjudged => ⟨rfl, hjudged⟩
  | pair | send => exact (authorizeUiRequest_judges h).imp_right fun hjudged => ⟨rfl, hjudged⟩
  | unlock | exchange => exact .inl (limitChunk_keeps401 h)
  | index | devices | localCode | transfers | transfer | notFound => exact .inl h

end gates

structure Request.Judged (log : List Entry) (id : Nat) (request : Request) : Prop where
  carried : request.info.responseStatus = 401 → Denied log id request.route
  answered : ∀ reply, request.phase = .answered reply → reply.status = 401 →
    request.route = .unlock ∨ Denied log id request.route

structure Request.Repeats (request request' : Request) : Prop where
  route : request'.route = request.route
  carried : request'.info.responseStatus = 401 → request.info.responseStatus = 401
  answered : ∀ reply, request'.phase = .answered reply → reply.status = 401 →
    request.info.responseStatus = 401

theorem Request.Repeats.answer {request request' : Request} {reply : Reply}
    (hroute : request'.route = request.route)
    (hcarried : request'.info.responseStatus = 401 → request.info.responseStatus = 401)
    (h : reply.status = 401 → request.info.responseStatus = 401) :
    request.Repeats (request'.answer reply) where
  route := hroute
  carried := hcarried
  answered other heq := by
    cases heq
    exact h

theorem Request.Repeats.within {request request' : Request}
    (hroute : request'.route = request.route)
    (hcarried : request'.info.responseStatus = 401 → request.info.responseStatus = 401)
    (h : ∀ reply, request'.phase ≠ .answered reply) : request.Repeats request' where
  route := hroute
  carried := hcarried
  answered reply heq := absurd heq (h reply)

theorem Request.Judged.repeats {log : List Entry} {id : Nat} {request request' : Request}
    (h : request.Judged log id) (hrepeats : request.Repeats request') (more : List Entry) :
    request'.Judged (log ++ more) id where
  carried hstatus := hrepeats.route ▸ (h.carried (hrepeats.carried hstatus)).append more
  answered reply heq hstatus :=
    .inr (hrepeats.route ▸ (h.carried (hrepeats.answered reply heq hstatus)).append more)

section handlers
variable {world : World} {id : Nat} {request : Request} {env : CallEnv}

theorem exchangeFinal_repeats : request.Repeats (exchangeFinal world id request env).2.1 := by
  unfold exchangeFinal
  dsimp only
  split
  · exact .answer rfl (fun h => h) (fun h => h)
  · split
    · exact .answer rfl (fun h => h) (by simp)
    · split
      · exact .answer rfl (fun h => h) (by simp)
      · split
        · exact .answer rfl (fun h => h) (by simp)
        · exact .within rfl (fun h => h) (by simp)

theorem uploadFinal_repeats : request.Repeats (uploadFinal world id request env).2.1 := by
  unfold uploadFinal
  dsimp only
  split
  · exact .answer rfl (fun h => h) (fun h => h)
  · split
    · exact .answer rfl (fun h => h) (by simp)
    · split
      · exact .answer rfl (by simp) (by simp)
      · exact .answer rfl (fun h => h) (by simp)

theorem pairFinal_repeats : request.Repeats (pairFinal world id request).2.1 := by
  unfold pairFinal
  dsimp only
  split
  · exact .answer rfl (fun h => h) (fun h => h)
  · split
    · exact .answer rfl (fun h => h) (by simp)
    · split
      · exact .answer rfl (fun h => h) (by simp)
      · split
        · exact .answer rfl (fun h => h) (by simp)
        · split
          · exact .answer rfl (fun h => h) (by simp)
          · exact .within rfl (fun h => h) (by simp)

theorem sendFinal_repeats : request.Repeats (sendFinal world request env).2.1 := by
  have htarget := validateTargetPeer_status world.auth world.registry request.info world.clock
  -- What is wrong with the target is not that the client may not send.
  have hstatus : (validateTargetPeer world.auth world.registry request.info
      world.clock).2.1.responseStatus = 401 → request.info.responseStatus = 401 := by
    intro h
    rcases htarget with hsame | ⟨-, hknown⟩
    · rwa [hsame] at h
    · rw [h] at hknown
      contradiction
  unfold sendFinal
  dsimp only
  split
  · exact .answer rfl (fun h => h) (fun h => h)
  · split
    · exact .answer rfl (fun h => h) (by simp)
    · split <;> rename_i heq <;> rw [heq] at hstatus
      · exact .answer rfl hstatus hstatus
      · split
        · exact .answer rfl (by simp) (by simp)
        · exact .within rfl hstatus (by simp)

theorem proceed_repeats {proceedEnv : ProceedEnv} {outcome : Outcome}
    (h : proceed world id request proceedEnv = some outcome) : request.Repeats outcome.2.1 := by
  cases proceed_proceeds h with
  | exchangeAdd | pairAccepted | pairStore | sendCleanup => exact .within rfl (fun h => h) (by simp)
  | pairRefused phase refused bad => exact .answer rfl (fun h => h) (by simp [bad])
  | exchangeMark | pairMark | sendRefused | sendEnqueued =>
      exact .answer rfl (fun h => h) (by simp)

end handlers

section calls
variable {process : Process} {id : Nat} {request : Request} {env : CallEnv}

theorem denied_call (hsessions : SessionsHeld process) {clientIp : CString} {headers : Headers}
    {route : Route} (hroute : route ≠ .upload)
    (hnot : ¬ UiValid process.world.auth clientIp headers process.world.clock) (more : List Entry) :
    Denied (process.log ++ .call id clientIp headers process.world.clock :: more) id route := by
  refine ⟨process.log, more, clientIp, headers, process.world.clock, ?_, .inr rfl⟩
  rintro (hholds | ⟨hupload, -⟩)
  · exact hnot (hsessions.uiValid hholds)
  · exact hroute hupload

theorem denied_chunk (hsessions : SessionsHeld process) (htokens : TokensHeld process)
    {clientIp : CString} {headers : Headers} {route : Route}
    (hnot : ¬ Admits process.world.auth clientIp headers process.world.clock route)
    (more : List Entry) :
    Denied (process.log ++ .chunk id 0 route clientIp headers process.world.clock :: more) id
      route := by
  refine ⟨process.log, more, clientIp, headers, process.world.clock, ?_, .inl rfl⟩
  rintro (hholds | ⟨rfl, hholds⟩)
  · apply hnot
    unfold Admits
    split
    · exact .inl (hsessions.uiValid hholds)
    · exact hsessions.uiValid hholds
  · exact hnot (.inr (htokens.peerValid hholds))

theorem chunkStep_judged (hsessions : SessionsHeld process) (htokens : TokensHeld process)
    (hearned : request.route.gated = true → request.Earned process.log id)
    (hphase : request.phase = .receiving) (h : request.Judged process.log id) (body : Body) :
    (chunkStep process.world id request body env).2.1.Judged
      (process.log ++ (chunkStep process.world id request body env).2.2) id := by
  have hgate := @chunkGate_judges process.world.auth request.info request.headers
    process.world.clock env.unwritten request.route
  have hwaiting : ∀ reply, request.phase ≠ .answered reply := by simp [hphase]
  -- What the gate finds is in the log with this chunk.
  have hdenied : ∀ more, (chunkGate process.world.auth request.info request.route request.headers
      process.world.clock env.unwritten).2.1.responseStatus = 401 →
      Denied (process.log ++ Entry.chunk id request.chunks request.route
        request.info.clientIp.str request.headers process.world.clock :: more) id
        request.route := by
    intro more hstatus
    rcases hgate hstatus with hwas | ⟨hgated, hunchecked, hnot⟩
    · exact (h.carried hwas).append _
    · rw [((hearned hgated).first hunchecked).1]
      exact denied_chunk hsessions htokens hnot more
  unfold chunkStep
  dsimp only
  split <;> rename_i heq <;> rw [heq] at hdenied
  · exact ⟨hdenied _, fun reply hanswered => absurd hanswered (hwaiting reply)⟩
  · refine ⟨fun hstatus => ?_, fun reply hanswered => absurd hanswered (hwaiting reply)⟩
    rename_i info'
    have hkept := @postProcess_statusKept process.world.fs id info' process.world.clock
      request.route body.items body.processed
    rcases hkept with hsame | hbody
    · exact hdenied _ (hsame.symm.trans hstatus)
    · rw [show _ = 401 from hstatus] at hbody
      contradiction

theorem call_denied (hsessions : SessionsHeld process) (hroute : request.route ≠ .upload)
    (h : request.Judged process.log id) {scope : CString} {limit : Nat}
    (hstatus : (authorizeUiRequest process.world.auth request.info request.headers scope limit
      process.world.clock env.unwritten).2.1.responseStatus = 401) (more : List Entry) :
    Denied (process.log ++ .call id request.info.clientIp.str request.headers
      process.world.clock :: more) id request.route := by
  rcases authorizeUiRequest_judges hstatus with hwas | ⟨-, hnot⟩
  · exact (h.carried hwas).append _
  · exact denied_call hsessions hroute hnot more

theorem localCodeCall_judged (hsessions : SessionsHeld process) (hroute : request.route ≠ .upload)
    (h : request.Judged process.log id) :
    (localCodeCall process.world id request env).2.1.Judged
      (process.log ++ (localCodeCall process.world id request env).2.2) id := by
  have hdenied := @call_denied process id request env hsessions hroute h (.lit "pair_code") 20
  unfold localCodeCall
  dsimp only
  split <;> rename_i heq <;> rw [heq] at hdenied
  · refine ⟨fun hstatus => hdenied hstatus _, fun reply hanswered hstatus => .inr ?_⟩
    cases hanswered
    exact hdenied hstatus _
  · split
    all_goals
      refine ⟨fun hstatus => hdenied hstatus _, fun reply hanswered hstatus => ?_⟩
      cases hanswered
      simp at hstatus

theorem transfersCall_judged (hsessions : SessionsHeld process) (hroute : request.route ≠ .upload)
    (h : request.Judged process.log id) (status : Option Bytes) :
    (transfersCall process.world id request env status).2.1.Judged
      (process.log ++ (transfersCall process.world id request env status).2.2) id := by
  have hdenied := @call_denied process id request env hsessions hroute h (.lit "transfer_status") 30
  unfold transfersCall
  dsimp only
  split <;> rename_i heq <;> rw [heq] at hdenied
  · refine ⟨fun hstatus => hdenied hstatus _, fun reply hanswered hstatus => .inr ?_⟩
    cases hanswered
    exact hdenied hstatus _
  · split
    all_goals
      refine ⟨fun hstatus => hdenied hstatus _, fun reply hanswered hstatus => ?_⟩
      cases hanswered
      simp at hstatus

theorem unlockFinal_judged (hroute : request.route = .unlock) (h : request.Judged process.log id) :
    (unlockFinal process.world id request env).2.1.Judged
      (process.log ++ (unlockFinal process.world id request env).2.2) id := by
  have hkept : (unlockFinal process.world id request env).2.1.info = request.info ∧
      (unlockFinal process.world id request env).2.1.route = request.route := by
    unfold unlockFinal
    dsimp only
    repeat' split
    all_goals exact ⟨rfl, rfl⟩
  refine ⟨fun hstatus => ?_, fun _ _ _ => .inl (hkept.2.trans hroute)⟩
  rw [hkept.1] at hstatus
  exact hkept.2 ▸ (h.carried hstatus).append _

end calls

structure Admitting (process : Process) : Prop where
  traced : Traced process
  sessions : SessionsHeld process
  tokens : TokensHeld process
  requests : ∀ id request, process.requests id = some request → request.Judged process.log id

theorem answerToConnection_judged {process : Process} {id : Nat} {request : Request}
    {env : CallEnv} (h : Admitting process) (hwas : process.requests id = some request)
    (hphase : request.phase = .receiving) (upload : Option Body) :
    (answerToConnection process.world id request upload env).2.1.Judged
      (process.log ++ (answerToConnection process.world id request upload env).2.2) id := by
  have hjudged := h.requests id request hwas
  have hdispatch := answerToConnection_dispatch process.world id request upload env
  generalize answerToConnection process.world id request upload env = outcome at hdispatch ⊢
  cases hdispatch with
  | index | devices | notFound =>
      exact hjudged.repeats (.answer rfl (fun h => h) (by simp [Reply.status])) _
  | localCode route => exact localCodeCall_judged h.sessions (by simp [route]) hjudged
  | transfers route | transfer route =>
      exact transfersCall_judged h.sessions (by simp [route]) hjudged _
  | chunk body =>
      exact chunkStep_judged h.sessions h.tokens (h.traced.gated id request hwas) hphase hjudged
        body
  | unlock route => exact unlockFinal_judged route hjudged
  | exchange => exact hjudged.repeats exchangeFinal_repeats _
  | upload => exact hjudged.repeats uploadFinal_repeats _
  | pair => exact hjudged.repeats pairFinal_repeats _
  | send => exact hjudged.repeats sendFinal_repeats _

theorem admitting_step (process : Process) (event : Event) (after : Process)
    (h : Admitting process) (hstep : step process event = some after) : Admitting after where
  traced := traced_step process event after h.traced hstep
  sessions := sessionsHeld_step h.sessions hstep
  tokens := tokensHeld_step h.traced.onRoutes h.tokens hstep
  requests := by
    obtain ⟨settled, entries, hnext, rfl⟩ := step_eq_some hstep
    intro id request' hid
    change request'.Judged (process.log ++ entries) id
    cases next_origin hnext hid with
    | kept was =>
        have hjudged := h.requests id request' was
        exact ⟨fun hstatus => (hjudged.carried hstatus).append _, fun reply hanswered hstatus =>
          (hjudged.answered reply hanswered hstatus).imp_right fun hdenied => hdenied.append _⟩
    | accepted url method clientIp headers fresh quiet new =>
        subst new
        exact ⟨fun hstatus => absurd hstatus (by simp [newConnectionInfo]),
          fun reply hanswered => by contradiction⟩
    | called upload env request was phase call settled logged new =>
        subst new logged
        exact answerToConnection_judged h was phase upload
    | proceeded env request outcome was continues call settled logged new =>
        subst new
        exact (h.requests id request was).repeats (proceed_repeats continues) _

theorem Started.admitting {process : Process} (h : Started process) : Admitting process where
  traced := h.traced
  sessions clientIp token expiresAt hlast := by simp [h.log, lastSession] at hlast
  tokens endpoint token expiresAt hlast := by simp [h.log, recordedToken] at hlast
  requests id request hid := by simp [h.requests] at hid

theorem Admitting.get_iff {process : Process} (h : Admitting process) {ip token : CString}
    {port : UInt16} :
    (authGetPeerToken process.world.auth ip port process.world.clock).2 = some token ↔
      ∃ expiresAt, recordedToken process.log (ip, port) = some (token, expiresAt) ∧
        process.world.clock < expiresAt := by
  rw [authGetPeerToken_eq_some_iff h.traced.unique]
  constructor
  · rintro ⟨record, hmem, hlive, hfor, rfl⟩
    rw [PeerTokenRecord.live_eq_true] at hlive
    have hrecorded := (h.traced.tokens record hmem hlive.1).1
    rw [(PeerTokenRecord.isFor_eq_true.mp hfor).2] at hrecorded
    exact ⟨record.expiresAt, hrecorded, hlive.2⟩
  · rintro ⟨expiresAt, hrecorded, hnow⟩
    obtain ⟨record, hmem, hactive, hendpoint, htoken, rfl⟩ := h.tokens _ _ _ hrecorded hnow
    exact ⟨record, hmem, PeerTokenRecord.live_eq_true.mpr ⟨hactive, hnow⟩,
      PeerTokenRecord.isFor_eq_true.mpr ⟨hactive, hendpoint⟩, htoken⟩

/-- In every run: a request that is answered 401, and has not just guessed the admin code, had
neither the token of its client's last session with it, nor, as an upload, the last token of one
of its client's endpoints, or came too late with it. -/
theorem unauthorized_denied {start process : Process} {events : List Event} (hstart : Started start)
    (hrun : run step start events = some process) {id : Nat} {request : Request} {reply : Reply}
    (hid : process.requests id = some request) (hanswered : request.phase = .answered reply)
    (hstatus : reply.status = 401) (hroute : request.route ≠ .unlock) :
    Denied process.log id request.route := by
  have hadmitting := run_invariant admitting_step hstart.admitting hrun
  rcases (hadmitting.requests id request hid).answered reply hanswered hstatus with
    hunlock | hdenied
  · exact absurd hunlock hroute
  · exact hdenied

/-- The local code is asked for with the token of a session that has just run out. -/
def sessionOver : List Event :=
  unlocking 0 7 ++ [.tick 43200,
    .accept (.lit "/api/pair/local-code") (.lit "GET") sampleIp ⟨some (sampleToken 7), none⟩,
    .call 1 none (sampleEnv 0)]

theorem sessionOver_denied : ∃ process request reply,
    run step sampleStart sessionOver = some process ∧ process.requests 1 = some request ∧
      request.phase = .answered reply ∧ reply.status = 401 ∧
      Denied process.log 1 request.route := by
  obtain ⟨process, hrun⟩ : ∃ process, run step sampleStart sessionOver = some process :=
    Option.isSome_iff_exists.mp (by decide +kernel)
  have hfacts : (run step sampleStart sessionOver).all (fun process =>
      (process.requests 1).any (fun request => request.route = .localCode ∧
        request.phase = .answered (errorReply 401 "Sessao administrativa invalida ou expirada"))) =
      true := by
    decide +kernel
  rw [hrun] at hfacts
  simp only [Option.all_some, Bool.decide_and, Bool.and_eq_true, decide_eq_true_eq,
    Option.any_eq_true] at hfacts
  obtain ⟨request, hid, hroute, hphase⟩ := hfacts
  exact ⟨process, request, _, hrun, hid, hphase, rfl,
    unauthorized_denied sampleStart_started hrun hid hphase rfl (by simp [hroute])⟩

end LocalDrop
