import LocalDrop.Replies
import LocalDrop.Requests
import LocalDrop.Auth.UiSessions

/-! The pairing code a user reads off one device and types in on another. `/api/pair/local-code`
says how long it is good for; later then it stays the code that `/api/pair/exchange` asks for,
however many peers use it and whatever else is tried. -/
namespace LocalDrop
open Lib

structure CodeStands (code : CString) (expiresAt : Time) (process : Process) : Prop where
  present : code ≠ CString.empty
  current : process.world.clock < expiresAt → process.world.auth.pairingCode.str = code ∧
    process.world.auth.pairingCodeExpiresAt = expiresAt

def RoomFor (table : PeerTokenTable) (peerIp : CString) (peerPort : UInt16) : Prop :=
  ∃ record ∈ table.slots, record.active = false ∨ record.isFor peerIp peerPort = true

/-- An exchange that has everything but perhaps the right code. -/
structure Request.Exchanges (request : Request) (port : UInt16) : Prop where
  route : request.route = .exchange
  status : request.info.responseStatus < 400
  code : request.info.pairCode.str ≠ CString.empty
  name : request.info.peerName.str ≠ CString.empty
  port : parsePort request.info.peerPort.str = some port

section exchange
variable {auth : Auth} {now : Time}

theorem roomFor_iff {table : PeerTokenTable} {peerIp peerName token : CString}
    {peerPort : UInt16} {expiresAt : Time} : RoomFor table peerIp peerPort ↔
      (upsertPeerTokenLocked table peerIp peerPort peerName token expiresAt).isSome = true := by
  rw [Option.isSome_iff_ne_none, ne_eq, upsertPeerTokenLocked_eq_none]
  unfold RoomFor
  push Not
  constructor
  · rintro ⟨record, hmem, hroom⟩
    refine ⟨record, hmem, fun hactive => ?_⟩
    rcases hroom with hfree | hfor
    · simp [hfree] at hactive
    · simp [hfor]
  · rintro ⟨record, hmem, hroom⟩
    refine ⟨record, hmem, ?_⟩
    cases hactive : record.active with
    | false => exact .inl rfl
    | true => exact .inr (by simpa using hroom hactive)

theorem ensurePairingCodeLocked_of_current {codeRandom : RandomBytes 6}
    (hlt : now < auth.pairingCodeExpiresAt) (hcode : auth.pairingCode.str ≠ CString.empty) :
    ensurePairingCodeLocked auth now codeRandom = some auth := by
  unfold ensurePairingCodeLocked
  rw [if_pos ⟨hlt, hcode⟩]

theorem authIssuePairToken_isSome_iff {peerIp peerName provided : CString} {peerPort : UInt16}
    {codeRandom : RandomBytes 6} {random : RandomBytes 32} (hlt : now < auth.pairingCodeExpiresAt)
    (hcode : auth.pairingCode.str ≠ CString.empty) :
    (authIssuePairToken auth peerIp peerName peerPort provided now codeRandom random).2.isSome =
        true ↔
      provided = auth.pairingCode.str ∧ random.isSome = true ∧
        RoomFor auth.peerTokens peerIp peerPort := by
  unfold authIssuePairToken
  rw [ensurePairingCodeLocked_of_current hlt hcode]
  dsimp only
  split
  · rename_i hwrong
    simp [Ne.symm hwrong]
  · rename_i hright
    rw [not_not] at hright
    cases random with
    | none => simp [cryptoRandomToken]
    | some bytes =>
        have hroom := @roomFor_iff auth.peerTokens peerIp peerName
          ⟨hexBytes bytes.toList, hexBytes_nulFree _⟩ peerPort (now + peerTokenTtlSeconds)
        rw [cryptoRandomToken, Option.map_some, hroom]
        dsimp only
        split <;> rename_i hupsert <;> simp [hupsert, hright]

theorem exchangeFinal_issues_iff {world : World} {id : Nat} {request : Request} {env : CallEnv}
    {port : UInt16} (h : request.Exchanges port) :
    (∃ token expiresAt, (exchangeFinal world id request env).2.1.phase =
        .exchangeAdd port token expiresAt) ↔
      (authIssuePairToken world.auth request.info.clientIp.str request.info.peerName.str port
        request.info.pairCode.str world.clock env.codeRandom env.random).2.isSome = true := by
  unfold exchangeFinal
  dsimp only
  rw [if_neg (Nat.not_le.mpr h.status), if_neg (not_or.mpr ⟨h.code, h.name⟩), h.port]
  dsimp only
  rcases authIssuePairToken world.auth request.info.clientIp.str request.info.peerName.str port
    request.info.pairCode.str world.clock env.codeRandom env.random with ⟨current, issued⟩
  cases issued with
  | none => simp [Request.answer]
  | some issued => simp

end exchange

section steps
variable {process after : Process} {event : Event} {entries : List Entry}

theorem codeStands_next {code : CString} {expiresAt : Time} (h : CodeStands code expiresAt process)
    (hnext : next process event = some (after, entries)) : CodeStands code expiresAt after := by
  refine ⟨h.present, fun hlt => ?_⟩
  have hclock := (next_clock hnext).1
  obtain ⟨hcode, hexpires⟩ := h.current (lt_of_le_of_lt hclock hlt)
  have hnow : process.world.clock < process.world.auth.pairingCodeExpiresAt :=
    hexpires ▸ lt_of_le_of_lt hclock hlt
  have hpresent : process.world.auth.pairingCode.str ≠ CString.empty := hcode ▸ h.present
  cases next_auth hnext with
  | consulted lookups quiet =>
      obtain ⟨hsame, hsameTime⟩ := lookups.pairingCode hnow hpresent
      rw [hsame, hsameTime]
      exact ⟨hcode, hexpires⟩
  | session id request env token call was route created logged =>
      obtain ⟨-, -, sessions, hauth, -⟩ := authCreateUiSession_some created
      rw [hauth]
      exact ⟨hcode, hexpires⟩
  | issued id request env port token later call was route created logged =>
      obtain ⟨current, table, hcurrent, -, -, -, -, hauth⟩ := authIssuePairToken_eq_some created
      rw [ensurePairingCodeLocked_of_current hnow hpresent] at hcurrent
      cases Option.some.inj hcurrent
      rw [hauth]
      exact ⟨hcode, hexpires⟩
  | stored id request env port peer token later call was phase created logged =>
      obtain ⟨table, -, hauth⟩ := authStorePeerToken_eq_true created
      rw [hauth]
      exact ⟨hcode, hexpires⟩

theorem codeStands_run {later : Process} {code : CString} {expiresAt : Time} {events : List Event}
    (h : CodeStands code expiresAt process) (hrun : run step process events = some later) :
    CodeStands code expiresAt later := by
  refine run_invariant (fun process event after h hstep => ?_) h hrun
  obtain ⟨settled, entries, hnext, rfl⟩ := step_eq_some hstep
  have hlater := codeStands_next h hnext
  exact ⟨hlater.present, hlater.current⟩

theorem authGetPairingCode_current {auth auth' : Auth} {now expiresAt : Time} {code : CString}
    {codeRandom : RandomBytes 6}
    (h : authGetPairingCode auth now codeRandom = (auth', some (code, expiresAt))) :
    auth'.pairingCode.str = code ∧ auth'.pairingCodeExpiresAt = expiresAt ∧
      code ≠ CString.empty := by
  unfold authGetPairingCode at h
  cases hcurrent : ensurePairingCodeLocked auth now codeRandom with
  | none => simp [hcurrent] at h
  | some current =>
      rw [hcurrent] at h
      simp only [Prod.mk.injEq, Option.some.injEq] at h
      obtain ⟨rfl, rfl, rfl⟩ := h
      refine ⟨rfl, rfl, ?_⟩
      unfold ensurePairingCodeLocked at hcurrent
      split at hcurrent
      · rename_i hkept
        cases Option.some.inj hcurrent
        exact hkept.2
      · obtain ⟨fresh, hfresh, rfl⟩ := Option.map_eq_some_iff.mp hcurrent
        have hlength := cryptoRandomNumericCode_length hfresh
        have hfits : fresh.length < 7 := by omega
        dsimp only
        rw [copyString_str_of_lt fresh hfits]
        rintro rfl
        contradiction

def Announces (process : Process) (reply : Reply) : Prop :=
  ∃ code expiresAt, reply = queueJsonPairCodeResponse code expiresAt ∧
    CodeStands code expiresAt process

theorem localCodeCall_announces {id : Nat} {request : Request} {env : CallEnv} {reply : Reply}
    (hunchecked : request.info.authChecked = false)
    (hanswered : (localCodeCall process.world id request env).2.1.phase = .answered reply)
    (hok : reply.status = 200) :
    Announces (process.settle id (localCodeCall process.world id request env)).1 reply := by
  have hgate := @authorizeUiRequest_records process.world.auth request.info request.headers
    (.lit "pair_code") 20 process.world.clock env.unwritten
  unfold localCodeCall at hanswered ⊢
  dsimp only at hanswered ⊢
  split at hanswered <;> rename_i heq <;> rw [heq] at hgate
  · cases hanswered
    have hknown : (200 : Nat) ∈ errorStatuses := hok ▸ hgate.refused hunchecked rfl
    exact absurd hknown (by decide)
  · split at hanswered <;> rename_i hcode
    · cases hanswered
      contradiction
    · cases hanswered
      obtain ⟨hcurrent, hexpires, hpresent⟩ := authGetPairingCode_current hcode
      exact ⟨_, _, rfl, hpresent, fun _ => ⟨hcurrent, hexpires⟩⟩

end steps

structure Announcing (process : Process) : Prop where
  traced : Traced process
  announced : ∀ id request reply, process.requests id = some request →
    request.route = .localCode → request.phase = .answered reply → reply.status = 200 →
    Announces process reply

theorem announcing_step (process : Process) (event : Event) (after : Process)
    (h : Announcing process) (hstep : step process event = some after) : Announcing after := by
  have htraced := traced_step process event after h.traced hstep
  obtain ⟨settled, entries, hnext, rfl⟩ := step_eq_some hstep
  refine ⟨htraced, fun id request' reply hid hroute hanswered hok => ?_⟩
  cases next_origin hnext hid with
  | kept was =>
      obtain ⟨code, expiresAt, rfl, hstands⟩ :=
        h.announced id request' reply was hroute hanswered hok
      have hlater := codeStands_next hstands hnext
      exact ⟨code, expiresAt, rfl, hlater.present, hlater.current⟩
  | accepted url method clientIp headers fresh quiet new =>
      subst new
      contradiction
  | called upload env request was phase call settled logged new =>
      subst new
      have hkeeps := (@answerToConnection_keeps process.world id request env upload).route
      rw [hkeeps] at hroute
      have hfresh := (h.traced.fresh id request was (by rw [hroute]; rfl) phase).1
      have hcall : answerToConnection process.world id request upload env =
          localCodeCall process.world id request env := by
        unfold answerToConnection
        rw [hroute]
      rw [hcall] at hanswered settled
      obtain ⟨code, expiresAt, hreply, hstands⟩ := localCodeCall_announces hfresh hanswered hok
      rw [settled]
      exact ⟨code, expiresAt, hreply, hstands.present, hstands.current⟩
  | proceeded env request outcome was continues call settled logged new =>
      -- only the handlers of other routes go on
      subst new
      have honroute := h.traced.onRoutes id request was
      rw [(proceed_keeps continues).route] at hroute
      unfold Request.OnRoute at honroute
      cases hphase : request.phase with
      | receiving | answered other => simp [proceed, hphase] at continues
      | exchangeAdd | exchangeMark | sendCleanup | sendEnqueue =>
          rw [hphase] at honroute
          simp [hroute] at honroute
      | pairRemote | pairStore | pairMark =>
          rw [hphase] at honroute
          simp [hroute] at honroute

theorem Started.announcing {process : Process} (h : Started process) : Announcing process where
  traced := h.traced
  announced id request reply hid := by simp [h.requests] at hid

theorem read_announcement {code told : CString} {expiresAt toldUntil : Time} {body : Bytes}
    (hreply : Reply.json 200 body = queueJsonPairCodeResponse code expiresAt)
    (hread : Carries body (okValue [((CString.lit "code").bytes, .str told.bytes),
      ((CString.lit "expires_at").bytes, .num toldUntil 0)])) :
    code = told ∧ expiresAt = toldUntil := by
  obtain ⟨text, heq, hcarries⟩ := pairCodeResponse_carries code expiresAt
  rw [heq, Reply.json.injEq] at hreply
  rw [hreply.2] at hread
  have hsame := Option.some.inj (hcarries.symm.trans hread)
  simp only [okValue, Json.obj.injEq, List.cons.injEq, Prod.mk.injEq, Json.str.injEq,
    Json.num.injEq, true_and, and_true] at hsame
  exact ⟨CString.ext hsame.1, hsame.2⟩

/-- A user who has been told the pairing code and how long it is good for can rely on it: in
whatever the process goes through until then, an exchange is granted a token exactly if it has
that code, random bytes are to be had and there is room for a record of its endpoint. -/
theorem announcedCode_valid {start told process : Process} {before later : List Event}
    {id other : Nat} {request asking : Request} {env : CallEnv} {port : UInt16} {body : Bytes}
    {code : CString} {expiresAt : Time} (hstart : Started start)
    (hbefore : run step start before = some told) (hid : told.requests id = some request)
    (hroute : request.route = .localCode) (hanswered : request.phase = .answered (.json 200 body))
    (hread : Carries body (okValue [((CString.lit "code").bytes, .str code.bytes),
      ((CString.lit "expires_at").bytes, .num expiresAt 0)]))
    (hlater : run step told later = some process) (hlt : process.world.clock < expiresAt)
    (hexchanges : asking.Exchanges port) :
    (∃ token lasting, (answerToConnection process.world other asking none env).2.1.phase =
        .exchangeAdd port token lasting) ↔
      asking.info.pairCode.str = code ∧ env.random.isSome = true ∧
        RoomFor process.world.auth.peerTokens asking.info.clientIp.str port := by
  have hannouncing := run_invariant announcing_step hstart.announcing hbefore
  obtain ⟨announced, lasting, hreply, hstands⟩ :=
    hannouncing.announced id request _ hid hroute hanswered rfl
  obtain ⟨rfl, rfl⟩ := read_announcement hreply hread
  have hreached := codeStands_run hstands hlater
  obtain ⟨hcode, hexpires⟩ := hreached.current hlt
  have hcall : answerToConnection process.world other asking none env =
      exchangeFinal process.world other asking env := by
    unfold answerToConnection
    rw [hexchanges.route]
  rw [hcall, exchangeFinal_issues_iff hexchanges, ← hcode]
  exact authIssuePairToken_isSome_iff (hexpires ▸ hlt) (hcode ▸ hreached.present)

def codeAsked : List Event :=
  unlocking 0 7 ++ [.accept (.lit "/api/pair/local-code") (.lit "GET") sampleIp
    ⟨some (sampleToken 7), none⟩, .call 1 none (sampleEnv 0)]

def codeUsed : List Event :=
  exchanging 2 8 ++ [acceptPost "/api/pair/exchange" ⟨none, none⟩,
    sendFields 3 [fieldItem "pair_code" "222222", fieldItem "peer_name" "other",
      fieldItem "peer_port" "8081"], .tick 299]

theorem codeUsed_valid : ∃ told process asking, run step sampleStart codeAsked = some told ∧
    run step told codeUsed = some process ∧ process.requests 3 = some asking ∧
      asking.Exchanges 8081 ∧
      ((∃ token lasting, (answerToConnection process.world 3 asking none (sampleEnv 9)).2.1.phase =
          .exchangeAdd 8081 token lasting) ↔
        asking.info.pairCode.str = .lit "222222" ∧ (sampleEnv 9).random.isSome = true ∧
          RoomFor process.world.auth.peerTokens asking.info.clientIp.str 8081) := by
  obtain ⟨told, htold⟩ : ∃ told, run step sampleStart codeAsked = some told :=
    Option.isSome_iff_exists.mp (by decide +kernel)
  have hfacts : (run step sampleStart codeAsked).all (fun told =>
      (told.requests 1).any (fun request => request.route = .localCode ∧
        request.phase = .answered (queueJsonPairCodeResponse (.lit "222222") 1300)) ∧
      (run step told codeUsed).any (fun process => process.world.clock < 1300 ∧
        (process.requests 3).any (fun asking => asking.route = .exchange ∧
          asking.info.responseStatus < 400 ∧ asking.info.pairCode.str ≠ CString.empty ∧
          asking.info.peerName.str ≠ CString.empty ∧
          parsePort asking.info.peerPort.str = some 8081))) = true := by decide +kernel
  rw [htold] at hfacts
  simp only [Option.all_some, Bool.decide_and, Bool.and_eq_true, decide_eq_true_eq,
    Option.any_eq_true] at hfacts
  obtain ⟨⟨request, hid, hroute, hanswered⟩, process, hrun, hclock, asking, hasking, hto, hstatus,
    hcode, hname, hport⟩ := hfacts
  obtain ⟨body, heq, hread⟩ := pairCodeResponse_carries (.lit "222222") 1300
  have hexchanges : asking.Exchanges 8081 := ⟨hto, hstatus, hcode, hname, hport⟩
  exact ⟨told, process, asking, htold, hrun, hasking, hexchanges,
    announcedCode_valid sampleStart_started htold hid hroute (heq ▸ hanswered) hread hrun hclock
      hexchanges⟩

end LocalDrop
