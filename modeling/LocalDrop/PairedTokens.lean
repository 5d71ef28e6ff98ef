import LocalDrop.PairingSteps

/-! The registry says which peers are paired, the token table which can be sent to.
The two are kept in different modules; a token also ends by time alone, and the
mark in the registry does not. -/
namespace LocalDrop
open Lib

/-- Every entry marked as paired can be sent to. -/
def PairedSendable (process : Process) : Prop :=
  ∀ peer ∈ process.world.registry.entries, peer.paired = true →
    (authGetPeerToken process.world.auth peer.ip.str peer.port process.world.clock).2.isSome = true

instance (process : Process) : Decidable (PairedSendable process) :=
  inferInstanceAs (Decidable (∀ peer ∈ process.world.registry.entries, _ → _))

def PairedHasToken (process : Process) : Prop :=
  ∀ ip port, PairedEndpoint process.world.registry ip port →
    HasToken process.world.auth.peerTokens ip port process.world.clock

/-- What a step needs so that the two tables stay together: no token of a paired peer
runs out, a registered peer is marked only while its token is there, and a token
stored over that of a paired peer has not already expired. -/
def StaysSendable (process : Process) : Event → Prop
  | .tick seconds => ∀ ip port, PairedEndpoint process.world.registry ip port →
      HasToken process.world.auth.peerTokens ip port (process.world.clock + seconds)
  | .proceed id _ => ∀ request, process.requests id = some request →
      (∀ ip port, request.marking = some (ip, port) →
        (peerRegistryFindByEndpoint process.world.registry ip port).isSome = true →
        HasToken process.world.auth.peerTokens ip port process.world.clock) ∧
      ∀ ip port expiresAt, request.storing = some ((ip, port), expiresAt) →
        PairedEndpoint process.world.registry ip port → process.world.clock < expiresAt
  | _ => True

theorem pairedSendable_iff (process : Process) :
    PairedSendable process ↔ PairedHasToken process := by
  simp only [PairedSendable, PairedHasToken, PairedEndpoint, authGetPeerToken_isSome_iff]
  constructor
  · rintro h ip port ⟨peer, hmem, hpaired, rfl, rfl⟩
    exact h peer hmem hpaired
  · intro h peer hmem hpaired
    exact h peer.ip.str peer.port ⟨peer, hmem, hpaired, rfl, rfl⟩

def Request.completing (request : Request) : Option (CString × UInt16) :=
  match request.phase with
  | .exchangeAdd port _ _ => some (request.info.clientIp.str, port)
  | .exchangeMark port _ _ => some (request.info.clientIp.str, port)
  | .pairMark port => some (request.info.targetIp.str, port)
  | _ => none

def Process.Counts (process : Process) (endpoint : CString × UInt16) : Prop :=
  PairedEndpoint process.world.registry endpoint.1 endpoint.2 ∨
    ∃ id request, process.requests id = some request ∧ request.completing = some endpoint

/-- The same in terms of what comes in: the clock does not reach the expiry of a
token that counts, and the answer to a pairing finds room in the table and brings an
expiry in the future. -/
def InTime (process : Process) : Event → Prop
  | .tick seconds => ∀ record ∈ process.world.auth.peerTokens.slots,
      record.live process.world.clock = true → process.Counts record.endpoint →
      process.world.clock + seconds < record.expiresAt
  | .proceed id _ => ∀ request, process.requests id = some request →
      ∀ ip port expiresAt, request.storing = some ((ip, port), expiresAt) →
        process.world.clock < expiresAt ∧ ∃ record ∈ process.world.auth.peerTokens.slots,
          record.active = false ∨ record.isFor ip port = true
  | _ => True

theorem peerTokenRecord_endpoint {ip name token : CString} {port : UInt16} {expiresAt : Time}
    (hip : ip.length < 46) :
    (peerTokenRecord ip port name token expiresAt).endpoint = (ip, port) := by
  simp [peerTokenRecord, PeerTokenRecord.endpoint, copyString_str_of_lt ip hip]

theorem hasToken_upsert_self {table table' : PeerTokenTable} {ip name token : CString}
    {port : UInt16} {expiresAt now : Time} (hip : ip.length < 46) (hnow : now < expiresAt)
    (h : upsertPeerTokenLocked table ip port name token expiresAt = some table') :
    HasToken table' ip port now := by
  refine ⟨_, mem_upsert_new h, ?_, ?_⟩
  · simp [peerTokenRecord, hnow]
  · exact PeerTokenRecord.isFor_eq_true.mpr ⟨rfl, peerTokenRecord_endpoint hip⟩

theorem hasToken_upsert {table table' : PeerTokenTable} {ip ip' name token : CString}
    {port port' : UInt16} {expiresAt now : Time} (hip : ip.length < 46)
    (h : upsertPeerTokenLocked table ip port name token expiresAt = some table')
    (hsame : (ip, port) = (ip', port') → now < expiresAt) (hhas : HasToken table ip' port' now) :
    HasToken table' ip' port' now := by
  by_cases heq : (ip, port) = (ip', port')
  · have hnow := hsame heq
    rw [Prod.mk.injEq] at heq
    obtain ⟨rfl, rfl⟩ := heq
    exact hasToken_upsert_self hip hnow h
  · obtain ⟨record, hmem, hlive, hfor⟩ := hhas
    obtain ⟨hactive, hendpoint⟩ := PeerTokenRecord.isFor_eq_true.mp hfor
    refine ⟨record, mem_upsert_of_mem h hmem hactive ?_, hlive, hfor⟩
    rw [Bool.eq_false_iff, ne_eq, PeerTokenRecord.isFor_eq_true]
    rintro ⟨-, hsame⟩
    exact heq (hsame.symm.trans hendpoint)

theorem hasToken_upsert_iff {table table' : PeerTokenTable} {ip name token : CString}
    {port : UInt16} {expiresAt now : Time} (hip : ip.length < 46)
    (hunique : UniqueEndpoints table')
    (h : upsertPeerTokenLocked table ip port name token expiresAt = some table') :
    HasToken table' ip port now ↔ now < expiresAt := by
  refine ⟨?_, fun hnow => hasToken_upsert_self hip hnow h⟩
  rintro ⟨record, hmem, hlive, hfor⟩
  rw [PeerTokenRecord.live_eq_true] at hlive
  have hendpoint := (PeerTokenRecord.isFor_eq_true.mp hfor).2
  have hsame : record = peerTokenRecord ip port name token expiresAt :=
    hunique.eq_of_key hmem (mem_upsert_new h) hlive.1 rfl
      (hendpoint.trans (peerTokenRecord_endpoint hip).symm)
  rw [hsame] at hlive
  exact hlive.2

theorem upsert_of_hasToken {table : PeerTokenTable} {ip : CString} {port : UInt16} {now : Time}
    (name token : CString) (expiresAt : Time) (hhas : HasToken table ip port now) :
    ∃ table', upsertPeerTokenLocked table ip port name token expiresAt = some table' := by
  obtain ⟨record, hmem, -, hfor⟩ := hhas
  rw [← Option.isSome_iff_exists, ← Option.ne_none_iff_isSome]
  intro hfull
  rw [(upsertPeerTokenLocked_eq_none.mp hfull record hmem).2] at hfor
  contradiction

theorem hasToken_next {process after : Process} {event : Event} {entries : List Entry}
    (honroutes : OnRoutes process) (h : next process event = some (after, entries))
    {ip : CString} {port : UInt16}
    (hhas : HasToken process.world.auth.peerTokens ip port process.world.clock)
    (htick : ∀ seconds, event = .tick seconds →
      HasToken process.world.auth.peerTokens ip port (process.world.clock + seconds))
    (hstore : ∀ id env request expiresAt, event = .proceed id env →
      process.requests id = some request → request.storing = some ((ip, port), expiresAt) →
      process.world.clock < expiresAt) :
    HasToken after.world.auth.peerTokens ip port after.world.clock := by
  by_cases hevent : ∃ seconds, event = .tick seconds
  · obtain ⟨seconds, rfl⟩ := hevent
    cases next_steps h with
    | tick _ bound => exact htick seconds rfl
  · rw [(next_clock h).2.2 fun seconds heq => hevent ⟨seconds, heq⟩]
    cases next_auth h with
    | consulted lookups quiet =>
        obtain ⟨record, hmem, hlive, hfor⟩ := hhas
        exact ⟨record, lookups.live record hmem hlive, hlive, hfor⟩
    | session id request env token call was route created logged =>
        obtain ⟨-, -, sessions, hauth, -⟩ := authCreateUiSession_some created
        rw [hauth]
        exact hhas
    | issued id request env port' token expiresAt call was route created logged =>
        obtain ⟨current, table, -, -, -, hexpires, hupsert, hauth⟩ :=
          authIssuePairToken_eq_some created
        rw [hauth]
        refine hasToken_upsert request.info.clientIp.fits hupsert (fun _ => ?_) hhas
        rw [hexpires]
        exact Int.lt_add_of_pos_right _ (by decide)
    | stored id request env port' peer token expiresAt call was phase created logged =>
        obtain ⟨table, hupsert, hauth⟩ := authStorePeerToken_eq_true created
        have honroute := honroutes id request was
        simp only [Request.OnRoute, phase] at honroute
        rw [hauth]
        refine hasToken_upsert honroute.2.1 hupsert (fun hsame => ?_) hhas
        exact hstore id env request expiresAt call was (by simp [Request.storing, phase, hsame])

theorem next_paired {process after : Process} {event : Event} {entries : List Entry}
    (h : next process event = some (after, entries)) {ip : CString} {port : UInt16}
    (hpaired : PairedEndpoint after.world.registry ip port) :
    PairedEndpoint process.world.registry ip port ∨ ∃ id env request,
      event = .proceed id env ∧ process.requests id = some request ∧
        request.marking = some (ip, port) ∧
        (peerRegistryFindByEndpoint process.world.registry ip port).isSome = true := by
  cases next_registry h with
  | kept same unmarked => exact .inl (same ▸ hpaired)
  | added name ip' port' same unmarked => exact .inl (pairedEndpoint_addOrUpdate (same ▸ hpaired))
  | removed name call same => exact .inl (pairedEndpoint_markInactive (same ▸ hpaired))
  | marked id env request ip' port' call was marking same =>
      rw [same] at hpaired
      rcases pairedEndpoint_setPaired hpaired with hold | ⟨rfl, rfl, hknown⟩
      · exact .inl hold
      · exact .inr ⟨id, env, request, call, was, marking, hknown⟩

theorem pairedHasToken_next {process after : Process} {event : Event} {entries : List Entry}
    (honroutes : OnRoutes process) (hall : PairedHasToken process)
    (hstays : StaysSendable process event) (h : next process event = some (after, entries)) :
    PairedHasToken after := by
  intro ip port hpaired
  rcases next_paired h hpaired with hold | ⟨id, env, request, rfl, hwas, hmarking, hknown⟩
  · refine hasToken_next honroutes h (hall ip port hold) ?_ ?_
    · rintro seconds rfl
      exact hstays ip port hold
    · rintro id env request expiresAt rfl hwas hstoring
      exact (hstays request hwas).2 ip port expiresAt hstoring hold
  · refine hasToken_next honroutes h ((hstays request hwas).1 ip port hmarking hknown) ?_ ?_
    · intro seconds hevent
      contradiction
    · intro id' env' request' expiresAt hevent hwas' hstoring
      cases hevent
      rw [hwas, Option.some.injEq] at hwas'
      subst hwas'
      rw [Request.storing_eq_none hmarking] at hstoring
      contradiction

theorem staysSendable_of_next {process after : Process} {event : Event} {entries : List Entry}
    (honroutes : OnRoutes process) (hunique : UniqueEndpoints process.world.auth.peerTokens)
    (hall : PairedHasToken process) (h : next process event = some (after, entries))
    (hafter : PairedHasToken after) : StaysSendable process event := by
  have huniqueAfter := uniqueEndpoints_next honroutes hunique h
  cases next_steps h with
  | tick seconds bound => exact fun ip port hpaired => hafter ip port hpaired
  | proceed id env request outcome was continues =>
      intro request' hwas'
      rw [was, Option.some.injEq] at hwas'
      subst hwas'
      refine ⟨fun ip port hmarking hknown => ?_, fun ip port expiresAt hstoring hpaired => ?_⟩
      · have hworld := proceed_marking hmarking continues
        obtain ⟨peer, hpeer⟩ := Option.isSome_iff_exists.mp hknown
        have hfind := find_setPaired process.world.registry ip port true
        rw [hpeer] at hfind
        have hhas := hafter ip port (by
          simp only [Process.settle, hworld]
          exact .of_find hfind rfl)
        simpa only [Process.settle, hworld] using hhas
      · obtain ⟨port', peer, token, expiresAt', hphase, heq⟩ := Request.storing_eq_some hstoring
        simp only [Prod.mk.injEq] at heq
        obtain ⟨⟨rfl, rfl⟩, rfl⟩ := heq
        have honroute := honroutes id request was
        simp only [Request.OnRoute, hphase] at honroute
        rw [proceed_pairStore hphase, Option.some.injEq] at continues
        subst continues
        obtain ⟨table, htable⟩ := upsert_of_hasToken (pairedName request peer) token
          expiresAt (hall _ _ hpaired)
        have hhas := hafter _ _ hpaired
        simp only [Process.settle, authStorePeerToken, htable] at hhas huniqueAfter
        exact (hasToken_upsert_iff honroute.2.1 huniqueAfter htable).mp hhas
  | _ => trivial

theorem Request.completing_of_marking {request : Request} {endpoint : CString × UInt16}
    (h : request.marking = some endpoint) : request.completing = some endpoint := by
  unfold Request.marking at h
  split at h <;> simp_all [Request.completing]

theorem proceed_completing {process : Process} {id : Nat} {request : Request}
    {env : ProceedEnv} {outcome : Outcome} {ip : CString} {port : UInt16}
    (honroute : request.OnRoute)
    (hin : ∀ ip port expiresAt, request.storing = some ((ip, port), expiresAt) →
      process.world.clock < expiresAt ∧ ∃ record ∈ process.world.auth.peerTokens.slots,
        record.active = false ∨ record.isFor ip port = true)
    (h : proceed process.world id request env = some outcome)
    (hcompleting : outcome.2.1.completing = some (ip, port)) :
    request.completing = some (ip, port) ∨
      HasToken outcome.1.auth.peerTokens ip port process.world.clock := by
  cases proceed_proceeds h with
  | exchangeAdd phase =>
      left
      simpa [Request.completing, phase] using hcompleting
  | exchangeMark | pairRefused | pairAccepted | pairMark | sendCleanup | sendRefused
  | sendEnqueued => contradiction
  | @pairStore port' peer token expiresAt phase =>
      simp only [Request.completing, Option.some.injEq, Prod.mk.injEq] at hcompleting
      obtain ⟨rfl, rfl⟩ := hcompleting
      obtain ⟨hnow, record, hmem, hroom⟩ := hin request.info.targetIp.str port' expiresAt
        (by simp [Request.storing, phase])
      simp only [Request.OnRoute, phase] at honroute
      right
      cases htable : upsertPeerTokenLocked process.world.auth.peerTokens
          request.info.targetIp.str port' (pairedName request peer) token expiresAt with
      | none =>
          obtain ⟨hactive, hother⟩ := upsertPeerTokenLocked_eq_none.mp htable record hmem
          simp [hactive, hother] at hroom
      | some table =>
          simp only [authStorePeerToken, htable]
          exact hasToken_upsert_self honroute.2.1 hnow htable

theorem answerToConnection_completing {world : World} {id : Nat} {request : Request}
    {upload : Option Body} {env : CallEnv} {ip : CString} {port : UInt16}
    (hphase : request.phase = .receiving)
    (hcompleting : (answerToConnection world id request upload env).2.1.completing =
      some (ip, port)) :
    HasToken (answerToConnection world id request upload env).1.auth.peerTokens ip port
      world.clock := by
  cases @answerToConnection_callPhase world id _ env hphase upload with
  | receiving phase => simp [Request.completing, phase] at hcompleting
  | answered reply phase => simp [Request.completing, phase] at hcompleting
  | issued port' token expiresAt auth route parsed created shared moved =>
      rw [moved] at hcompleting
      simp only [Request.completing, Option.some.injEq, Prod.mk.injEq] at hcompleting
      obtain ⟨rfl, rfl⟩ := hcompleting
      obtain ⟨current, table, -, -, -, hexpires, hupsert, hauth⟩ :=
        authIssuePairToken_eq_some created
      rw [shared, hauth]
      refine hasToken_upsert_self request.info.clientIp.fits ?_ hupsert
      rw [hexpires]
      exact Int.lt_add_of_pos_right _ (by decide)
  | pairing port' peer route valid parsed known shared moved =>
      rw [moved] at hcompleting
      contradiction
  | queued port' token route phase => simp [Request.completing, phase] at hcompleting

structure Sendable (process : Process) : Prop where
  onRoutes : OnRoutes process
  counted : ∀ ip port, process.Counts (ip, port) →
    HasToken process.world.auth.peerTokens ip port process.world.clock

theorem sendable_step (process : Process) (event : Event) (after : Process)
    (h : Sendable process) (hin : InTime process event) (hstep : step process event = some after) :
    Sendable after := by
  obtain ⟨settled, entries, hnext, rfl⟩ := step_eq_some hstep
  have honroutes := onRoutes_next h.onRoutes hnext
  refine ⟨honroutes, fun ip port hcounts => ?_⟩
  have hkept : process.Counts (ip, port) →
      HasToken settled.world.auth.peerTokens ip port settled.world.clock := by
    intro hold
    obtain ⟨record, hmem, hlive, hfor⟩ := h.counted ip port hold
    refine hasToken_next h.onRoutes hnext ⟨record, hmem, hlive, hfor⟩ ?_ ?_
    · rintro seconds rfl
      obtain ⟨hactive, hendpoint⟩ := PeerTokenRecord.isFor_eq_true.mp hfor
      have hlater := hin record hmem hlive (hendpoint ▸ hold)
      exact ⟨record, hmem, PeerTokenRecord.live_eq_true.mpr ⟨hactive, hlater⟩, hfor⟩
    · rintro id env request expiresAt rfl hwas hstoring
      exact (hin request hwas ip port expiresAt hstoring).1
  rcases hcounts with hpaired | ⟨id, request', hid, hcompleting⟩
  · rcases next_paired hnext hpaired with hold | ⟨id, env, request, -, hwas, hmarking, -⟩
    · exact hkept (.inl hold)
    · exact hkept (.inr ⟨id, request, hwas, Request.completing_of_marking hmarking⟩)
  · cases next_origin hnext hid with
    | kept was => exact hkept (.inr ⟨id, request', was, hcompleting⟩)
    | accepted url method clientIp headers fresh quiet new =>
        rw [new] at hcompleting
        contradiction
    | called upload env request was phase call settled logged new =>
        subst call settled new
        have hclock := (@answerToConnection_keeps process.world id request env upload).clock
        have hhas := answerToConnection_completing phase hcompleting
        rw [← hclock] at hhas
        exact hhas
    | proceeded env request outcome was continues call settled logged new =>
        subst call settled new
        rcases proceed_completing (h.onRoutes id request was) (hin request was) continues
          hcompleting with hold | hhas
        · exact hkept (.inr ⟨id, request, was, hold⟩)
        · rw [← (proceed_keeps continues).clock] at hhas
          exact hhas

theorem Started.not_counts {process : Process} (h : Started process)
    (endpoint : CString × UInt16) : ¬ process.Counts endpoint := by
  rintro (⟨peer, hmem, -⟩ | ⟨id, request, hid, -⟩)
  · rw [h.registry] at hmem
    contradiction
  · rw [h.requests] at hid
    contradiction

theorem Started.sendable {process : Process} (h : Started process) : Sendable process where
  onRoutes := h.onRoutes
  counted := fun ip port hcounts => absurd hcounts (h.not_counts (ip, port))

/-- Along every run, what is marked as paired can be sent to exactly when every step
keeps the two tables together; and it can when the clock stays short of the expiries
that count and every answer to a pairing is stored with time left. -/
theorem paired_sendable_iff {start : Process} {events : List Event} (hstart : Started start) :
    (Always step PairedSendable start events ↔ Meets step StaysSendable start events) ∧
      (Meets step InTime start events → Always step PairedSendable start events) := by
  have hprop : PairedSendable = PairedHasToken :=
    funext fun process => propext (pairedSendable_iff process)
  have hinit : PairedHasToken start :=
    fun ip port hpaired => absurd (.inl hpaired) (hstart.not_counts (ip, port))
  rw [hprop]
  constructor
  · refine always_iff_meets_of_invariant uniqueEndpoints_step ?_
      ⟨hstart.onRoutes, hstart.unique⟩ hinit
    rintro process event after ⟨honroutes, hunique⟩ hall hstep
    obtain ⟨settled, entries, hnext, rfl⟩ := step_eq_some hstep
    have hiff : PairedHasToken settled ↔ StaysSendable process event :=
      ⟨staysSendable_of_next honroutes hunique hall hnext,
        fun hstays => pairedHasToken_next honroutes hall hstays hnext⟩
    exact hiff
  · intro hmeets
    exact hmeets.always sendable_step
      (fun process h ip port hpaired => h.counted ip port (.inl hpaired)) hstart.sendable

def NoneRunsOut (process : Process) : Event → Prop
  | .tick seconds => ∀ record ∈ process.world.auth.peerTokens.slots,
      record.live process.world.clock = true → process.world.clock + seconds < record.expiresAt
  | .proceed id _ => ∀ request ∈ process.requests id, ∀ store ∈ request.storing,
      process.world.clock < store.2 ∧ ∃ record ∈ process.world.auth.peerTokens.slots,
        record.active = false ∨ record.isFor store.1.1 store.1.2 = true
  | _ => True

theorem NoneRunsOut.inTime {process : Process} {event : Event} (h : NoneRunsOut process event) :
    InTime process event := by
  cases event with
  | tick seconds => exact fun record hmem hlive _ => h record hmem hlive
  | proceed id env =>
      exact fun request hwas ip port expiresAt hstoring =>
        h request hwas ((ip, port), expiresAt) hstoring
  | _ => trivial

instance (process : Process) (event : Event) : Decidable (NoneRunsOut process event) := by
  unfold NoneRunsOut
  split <;> infer_instance

def pairedWeek : List Event := exchanging 0 8 ++ [.tick 604799]

theorem pairedWeek_sendable : (run step sampleStart pairedWeek).isSome = true ∧
    Always step PairedSendable sampleStart pairedWeek := by
  have hmeets : Meets step NoneRunsOut sampleStart pairedWeek := by decide +kernel
  exact ⟨by decide +kernel, (paired_sendable_iff sampleStart_started).2
    (hmeets.mono fun _ _ => NoneRunsOut.inTime)⟩

/-- One second more, and the peer is still shown as paired. -/
theorem pairedWeek_expired : ∃ process,
    run step sampleStart (pairedWeek ++ [.tick 1]) = some process ∧
      (∃ peer ∈ process.world.registry.entries, peer.paired = true ∧
        (authGetPeerToken process.world.auth peer.ip.str peer.port process.world.clock).2 = none) ∧
      ¬ PairedSendable process := by
  obtain ⟨process, hrun⟩ : ∃ process,
      run step sampleStart (pairedWeek ++ [.tick 1]) = some process :=
    Option.isSome_iff_exists.mp (by decide +kernel)
  have hfacts : (run step sampleStart (pairedWeek ++ [.tick 1])).all (fun process =>
      (∃ peer ∈ process.world.registry.entries, peer.paired = true ∧
        (authGetPeerToken process.world.auth peer.ip.str peer.port process.world.clock).2 = none) ∧
      ¬ PairedSendable process) = true := by decide +kernel
  rw [hrun] at hfacts
  simp only [Option.all_some, decide_eq_true_eq] at hfacts
  exact ⟨process, hrun, hfacts⟩

end LocalDrop
