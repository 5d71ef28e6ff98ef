import LocalDrop.Auth.PeerTokens
import LocalDrop.Auth.UiSessions
import LocalDrop.Server

/-! What the gates of `server.c` establish and what they leave behind in the tables
of `auth.c`. A gate only looks things up: expired records may be retired, nothing
is added. -/
namespace LocalDrop
open Lib

/-- `auth'` is `auth` after lookups at `now`. -/
structure Auth.Consulted (now : Time) (auth auth' : Auth) : Prop where
  adminCode : auth'.adminCode = auth.adminCode
  pairingCode : now < auth.pairingCodeExpiresAt → auth.pairingCode.str ≠ CString.empty →
    auth'.pairingCode = auth.pairingCode ∧
      auth'.pairingCodeExpiresAt = auth.pairingCodeExpiresAt
  sessions : ∀ session ∈ auth'.uiSessions.slots, session.active = true →
    session ∈ auth.uiSessions.slots
  tokens : ∀ record ∈ auth'.peerTokens.slots, record.active = true →
    record ∈ auth.peerTokens.slots
  live : ∀ record ∈ auth.peerTokens.slots, record.live now = true →
    record ∈ auth'.peerTokens.slots
  keptSessions : ∀ later, now ≤ later → auth'.uiSessions.slots.map (UiSession.retire later) =
    auth.uiSessions.slots.map (UiSession.retire later)
  keptTokens : ∀ later, now ≤ later → auth'.peerTokens.slots.map (PeerTokenRecord.retire later) =
    auth.peerTokens.slots.map (PeerTokenRecord.retire later)
  unique : UniqueEndpoints auth.peerTokens → UniqueEndpoints auth'.peerTokens

namespace Auth.Consulted
variable {now : Time} {auth auth' auth'' : Auth}

theorem refl (now : Time) (auth : Auth) : auth.Consulted now auth :=
  ⟨rfl, fun _ _ => ⟨rfl, rfl⟩, fun _ h _ => h, fun _ h _ => h, fun _ h _ => h, fun _ _ => rfl,
    fun _ _ => rfl, fun h => h⟩

theorem trans (h : auth.Consulted now auth') (h' : auth'.Consulted now auth'') :
    auth.Consulted now auth'' where
  adminCode := h'.adminCode.trans h.adminCode
  pairingCode hexpires hcode := by
    obtain ⟨hsame, hsame'⟩ := h.pairingCode hexpires hcode
    have hnext := h'.pairingCode (by rwa [hsame']) (by rwa [hsame])
    exact ⟨hnext.1.trans hsame, hnext.2.trans hsame'⟩
  sessions _ hmem hactive := h.sessions _ (h'.sessions _ hmem hactive) hactive
  tokens _ hmem hactive := h.tokens _ (h'.tokens _ hmem hactive) hactive
  live _ hmem hlive := h'.live _ (h.live _ hmem hlive) hlive
  keptSessions later hlater := (h'.keptSessions later hlater).trans (h.keptSessions later hlater)
  keptTokens later hlater := (h'.keptTokens later hlater).trans (h.keptTokens later hlater)
  unique hunique := h'.unique (h.unique hunique)

theorem of_same (hcode : auth'.adminCode = auth.adminCode)
    (hpairing : now < auth.pairingCodeExpiresAt → auth.pairingCode.str ≠ CString.empty →
      auth'.pairingCode = auth.pairingCode ∧
        auth'.pairingCodeExpiresAt = auth.pairingCodeExpiresAt)
    (hsessions : auth'.uiSessions = auth.uiSessions)
    (htokens : auth'.peerTokens = auth.peerTokens) : auth.Consulted now auth' := by
  refine ⟨hcode, hpairing, ?_, ?_, ?_, ?_, ?_, ?_⟩ <;> simp only [hsessions, htokens]
  · exact fun _ h _ => h
  · exact fun _ h _ => h
  · exact fun _ h _ => h
  · exact fun _ _ => trivial
  · exact fun _ _ => trivial
  · exact fun h => h

theorem validateUiSession (h : auth.Consulted now auth')
    (clientIp token : CString) {later : Time} (hlater : now ≤ later) :
    (authValidateUiSession auth' clientIp token later).2 =
      (authValidateUiSession auth clientIp token later).2 := by
  unfold authValidateUiSession
  split
  · rfl
  · exact congrArg Option.isSome (sweep_congr (h.keptSessions later hlater))

theorem getPeerToken (h : auth.Consulted now auth') (peerIp : CString)
    (peerPort : UInt16) {later : Time} (hlater : now ≤ later) :
    (authGetPeerToken auth' peerIp peerPort later).2 =
      (authGetPeerToken auth peerIp peerPort later).2 := by
  exact congrArg (Option.map fun record => record.token.str)
    (sweep_congr (h.keptTokens later hlater))

theorem validatePeerToken (h : auth.Consulted now auth')
    (peerIp token : CString) {later : Time} (hlater : now ≤ later) :
    (authValidatePeerToken auth' peerIp token later).2 =
      (authValidatePeerToken auth peerIp token later).2 := by
  unfold authValidatePeerToken
  split
  · rfl
  · exact congrArg Option.isSome (sweep_congr (h.keptTokens later hlater))

theorem liveSession {session : UiSession} (h : auth.Consulted now auth')
    (hmem : session ∈ auth.uiSessions.slots) (hlive : session.live now = true) :
    session ∈ auth'.uiSessions.slots := by
  have hretired : session ∈ auth'.uiSessions.slots.map (UiSession.retire now) := by
    rw [h.keptSessions now le_rfl]
    exact List.mem_map.mpr ⟨session, hmem, UiSession.retire_of_live hlive⟩
  obtain ⟨kept, hkept, rfl⟩ := List.mem_map.mp hretired
  rw [UiSession.live_eq_true] at hlive
  rwa [(UiSession.live_of_active_retire hlive.1).1]

end Auth.Consulted

section lookups
variable {auth : Auth} {now : Time}

theorem authValidateUiSession_consulted (clientIp token : CString) :
    auth.Consulted now (authValidateUiSession auth clientIp token now).1 := by
  have hrest := authValidateUiSession_frame auth clientIp token now
  refine ⟨hrest.1, ?_, fun session => mem_of_mem_validate, ?_, ?_, ?_, ?_, ?_⟩
  · unfold authValidateUiSession
    split <;> exact fun _ _ => ⟨rfl, rfl⟩
  · rw [hrest.2]
    exact fun _ h _ => h
  · rw [hrest.2]
    exact fun _ h _ => h
  · intro later hlater
    unfold authValidateUiSession
    split
    · rfl
    · exact map_sweep (UiSession.retire_retire hlater)
  · rw [hrest.2]
    exact fun _ _ => rfl
  · rw [hrest.2]
    exact fun h => h

theorem lookupPeerTokens_consulted {hit : PeerTokenRecord → Bool}
    (hhit : ∀ r, hit r = true → r.active = true) :
    auth.Consulted now
      { auth with peerTokens := (lookupPeerTokens auth.peerTokens hit now).1 } :=
  ⟨rfl, fun _ _ => ⟨rfl, rfl⟩, fun _ h _ => h, fun _ hmem hactive => mem_of_mem_lookup hmem hactive,
    fun _ hmem hlive => mem_lookup_of_live hmem hlive, fun _ _ => rfl,
    fun _ hlater => map_sweep (PeerTokenRecord.retire_retire hlater),
    fun h => uniqueEndpoints_lookup hhit h⟩

theorem authValidatePeerToken_consulted (peerIp token : CString) :
    auth.Consulted now (authValidatePeerToken auth peerIp token now).1 := by
  unfold authValidatePeerToken
  split
  · exact .refl now auth
  · exact lookupPeerTokens_consulted fun _ hr => (PeerTokenRecord.grants_eq_true.mp hr).1

theorem authGetPeerToken_consulted (peerIp : CString) (peerPort : UInt16) :
    auth.Consulted now (authGetPeerToken auth peerIp peerPort now).1 :=
  lookupPeerTokens_consulted fun _ hr => (PeerTokenRecord.isFor_eq_true.mp hr).1

theorem authRateLimitAllow_consulted (clientIp scope : CString) (limit : Nat) (window : Time) :
    auth.Consulted now (authRateLimitAllow auth clientIp scope limit window now).1 := by
  unfold authRateLimitAllow
  split
  · exact .refl now auth
  · dsimp only
    split
    · split <;> exact .of_same rfl (fun _ _ => ⟨rfl, rfl⟩) rfl rfl
    · split <;> exact .of_same rfl (fun _ _ => ⟨rfl, rfl⟩) rfl rfl

theorem ensurePairingCodeLocked_consulted {current : Auth} {random : RandomBytes 6}
    (h : ensurePairingCodeLocked auth now random = some current) :
    auth.Consulted now current := by
  have hcurrent := (ensurePairingCodeLocked_eq_some h).2
  refine .of_same (by rw [hcurrent]) ?_ (by rw [hcurrent]) (by rw [hcurrent])
  intro hexpires hcode
  unfold ensurePairingCodeLocked at h
  rw [if_pos ⟨hexpires, hcode⟩, Option.some.injEq] at h
  rw [h]
  exact ⟨rfl, rfl⟩

theorem authGetPairingCode_consulted (random : RandomBytes 6) :
    auth.Consulted now (authGetPairingCode auth now random).1 := by
  unfold authGetPairingCode
  split
  · exact .refl now auth
  · rename_i hcurrent
    exact ensurePairingCodeLocked_consulted hcurrent

end lookups

def UiValid (auth : Auth) (clientIp : CString) (headers : Headers) (now : Time) : Prop :=
  ∃ token, headers.uiToken = some token ∧ token ≠ CString.empty ∧
    ∃ session ∈ auth.uiSessions.slots,
      session.live now = true ∧ session.grants clientIp token = true

def PeerValid (auth : Auth) (clientIp : CString) (headers : Headers) (now : Time) : Prop :=
  ∃ token, headers.pairToken = some token ∧ token ≠ CString.empty ∧
    ∃ record ∈ auth.peerTokens.slots,
      record.live now = true ∧ record.grants clientIp token = true

theorem Auth.Consulted.uiValid {auth auth' : Auth} {clientIp : CString} {headers : Headers}
    {now : Time} (h : auth.Consulted now auth') (hvalid : UiValid auth' clientIp headers now) :
    UiValid auth clientIp headers now := by
  obtain ⟨token, htoken, hne, session, hmem, hlive, hgrants⟩ := hvalid
  exact ⟨token, htoken, hne, session,
    h.sessions _ hmem (UiSession.grants_eq_true.mp hgrants).1, hlive, hgrants⟩

theorem Auth.Consulted.peerValid {auth auth' : Auth} {clientIp : CString} {headers : Headers}
    {now : Time} (h : auth.Consulted now auth') (hvalid : PeerValid auth' clientIp headers now) :
    PeerValid auth clientIp headers now := by
  obtain ⟨token, htoken, hne, record, hmem, hlive, hgrants⟩ := hvalid
  exact ⟨token, htoken, hne, record,
    h.tokens _ hmem (PeerTokenRecord.grants_eq_true.mp hgrants).1, hlive, hgrants⟩

section gates
variable {auth : Auth} {info : ConnectionInfo} {headers : Headers} {scope : CString}
  {limit : Nat} {now : Time} {unwritten : CString}

theorem validUiToken_spec (clientIp : CString) :
    auth.Consulted now (validUiToken auth clientIp headers now).1 ∧
      ((validUiToken auth clientIp headers now).2 = true → UiValid auth clientIp headers now) := by
  unfold validUiToken
  split
  · exact ⟨.refl now auth, fun h => by contradiction⟩
  · rename_i token htoken
    refine ⟨authValidateUiSession_consulted clientIp token, fun h => ?_⟩
    exact ⟨token, htoken, authValidateUiSession_iff.mp h⟩

theorem validPairToken_spec (clientIp : CString) :
    auth.Consulted now (validPairToken auth clientIp headers now).1 ∧
      ((validPairToken auth clientIp headers now).2 = true →
        PeerValid auth clientIp headers now) := by
  unfold validPairToken
  split
  · exact ⟨.refl now auth, fun h => by contradiction⟩
  · rename_i token htoken
    refine ⟨authValidatePeerToken_consulted clientIp token, fun h => ?_⟩
    exact ⟨token, htoken, authValidatePeerToken_iff.mp h⟩

theorem validUiToken_rateLimits (clientIp : CString) :
    (validUiToken auth clientIp headers now).1.rateLimits = auth.rateLimits := by
  unfold validUiToken
  split
  · rfl
  · unfold authValidateUiSession
    split <;> rfl

theorem validPairToken_rateLimits (clientIp : CString) :
    (validPairToken auth clientIp headers now).1.rateLimits = auth.rateLimits := by
  unfold validPairToken
  split
  · rfl
  · unfold authValidatePeerToken
    split <;> rfl

theorem rateLimitRequest_consulted :
    auth.Consulted now (rateLimitRequest auth info scope limit now unwritten).1 := by
  have h := @authRateLimitAllow_consulted auth now info.clientIp.str scope limit 60
  unfold rateLimitRequest
  split <;> rename_i heq <;> rw [heq] at h <;> exact h

theorem rateLimitRequest_kept (auth : Auth) (info : ConnectionInfo) (scope : CString)
    (limit : Nat) (now : Time) (unwritten : CString) :
    (rateLimitRequest auth info scope limit now unwritten).2.1.clientIp = info.clientIp ∧
      (rateLimitRequest auth info scope limit now unwritten).2.1.authChecked =
        info.authChecked ∧
      (rateLimitRequest auth info scope limit now unwritten).2.1.requestAuthorized =
        info.requestAuthorized := by
  unfold rateLimitRequest
  split <;> exact ⟨rfl, rfl, rfl⟩

/-- What an authorization gate establishes: the check is made once, its result is
remembered, and a request that passes presented something `valid` when it was
checked. -/
structure Authorizes (info : ConnectionInfo) (valid : Prop)
    (result : Auth × ConnectionInfo × Bool) : Prop where
  checked : result.2.1.authChecked = true
  authorized : result.2.1.requestAuthorized = result.2.2
  earned : result.2.2 = true → info.requestAuthorized = true ∨ info.authChecked = false ∧ valid
  lasting : info.requestAuthorized = true → result.2.2 = true

theorem authorizeUiRequest_authorizes
    (hfirst : info.authChecked = false → info.requestAuthorized = false) :
    Authorizes info (UiValid auth info.clientIp.str headers now)
      (authorizeUiRequest auth info headers scope limit now unwritten) := by
  unfold authorizeUiRequest
  split
  · rename_i hchecked
    exact ⟨hchecked, rfl, .inl, fun h => h⟩
  · rename_i hchecked
    rw [Bool.not_eq_true] at hchecked
    have hnot : info.requestAuthorized ≠ true := by simp [hfirst hchecked]
    have hlimit := @rateLimitRequest_consulted auth { info with authChecked := true } scope limit
      now unwritten
    have hkept := rateLimitRequest_kept auth { info with authChecked := true } scope limit now
      unwritten
    split <;> rename_i heq <;> rw [heq] at hlimit hkept <;>
      obtain ⟨hclient, hsame, hauthorized⟩ := hkept
    · exact ⟨hsame, hauthorized.trans (hfirst hchecked), fun h => by contradiction,
        fun h => absurd h hnot⟩
    · rename_i limited info'
      obtain ⟨hconsulted, hvalid⟩ := @validUiToken_spec limited headers now info'.clientIp.str
      split <;> rename_i heq' <;> rw [heq'] at hconsulted hvalid
      · refine ⟨hsame, rfl, fun _ => .inr ⟨hchecked, ?_⟩,
        fun _ => rfl⟩
        rw [← hclient]
        exact hlimit.uiValid (hvalid rfl)
      · exact ⟨hsame, rfl, fun h => by contradiction,
        fun h => absurd h hnot⟩

theorem authorizeUploadRequest_authorizes
    (hfirst : info.authChecked = false → info.requestAuthorized = false) :
    Authorizes info (UiValid auth info.clientIp.str headers now ∨
        PeerValid auth info.clientIp.str headers now)
      (authorizeUploadRequest auth info headers now unwritten) := by
  unfold authorizeUploadRequest
  split
  · rename_i hchecked
    exact ⟨hchecked, rfl, .inl, fun h => h⟩
  · rename_i hchecked
    rw [Bool.not_eq_true] at hchecked
    have hnot : info.requestAuthorized ≠ true := by simp [hfirst hchecked]
    have hlimit := @rateLimitRequest_consulted auth { info with authChecked := true }
      (.lit "upload") 20 now unwritten
    have hkept := rateLimitRequest_kept auth { info with authChecked := true } (.lit "upload") 20
      now unwritten
    split <;> rename_i heq <;> rw [heq] at hlimit hkept <;>
      obtain ⟨hclient, hsame, hauthorized⟩ := hkept
    · exact ⟨hsame, hauthorized.trans (hfirst hchecked), fun h => by contradiction,
        fun h => absurd h hnot⟩
    · rename_i limited info'
      obtain ⟨hconsulted, hvalid⟩ := @validUiToken_spec limited headers now info'.clientIp.str
      split <;> rename_i heq' <;> rw [heq'] at hconsulted hvalid
      · refine ⟨hsame, rfl, fun _ => .inr ⟨hchecked, .inl ?_⟩,
        fun _ => rfl⟩
        rw [← hclient]
        exact hlimit.uiValid (hvalid rfl)
      · rename_i swept
        have hvalid' := (@validPairToken_spec swept headers now info'.clientIp.str).2
        split <;> rename_i heq'' <;> rw [heq''] at hvalid'
        · refine ⟨hsame, rfl, fun _ => .inr ⟨hchecked, .inr ?_⟩,
          fun _ => rfl⟩
          rw [← hclient]
          exact (hlimit.trans hconsulted).peerValid (hvalid' rfl)
        · exact ⟨hsame, rfl, fun h => by contradiction,
        fun h => absurd h hnot⟩

theorem limitChunk_consulted :
    auth.Consulted now (limitChunk auth info scope limit now unwritten).1 := by
  have hlimit := @rateLimitRequest_consulted auth { info with authChecked := true } scope limit now
    unwritten
  unfold limitChunk
  split
  · exact .refl now auth
  · split <;> rename_i heq <;> rw [heq] at hlimit <;> exact hlimit

/-- What a request of each gated route has to present. -/
def Admits (auth : Auth) (clientIp : CString) (headers : Headers) (now : Time) : Route → Prop
  | .upload => UiValid auth clientIp headers now ∨ PeerValid auth clientIp headers now
  | _ => UiValid auth clientIp headers now

def Route.gated : Route → Bool
  | .upload | .pair | .send => true
  | _ => false

theorem chunkGate_authorizes {route : Route} (hroute : route.gated = true)
    (hfirst : info.authChecked = false → info.requestAuthorized = false) :
    Authorizes info (Admits auth info.clientIp.str headers now route)
      (chunkGate auth info route headers now unwritten) := by
  cases route <;> simp only [Route.gated, Bool.false_eq_true] at hroute
  · exact authorizeUploadRequest_authorizes hfirst
  · exact authorizeUiRequest_authorizes hfirst
  · exact authorizeUiRequest_authorizes hfirst

theorem authorizeUiRequest_consulted :
    auth.Consulted now (authorizeUiRequest auth info headers scope limit now unwritten).1 := by
  have hlimit := @rateLimitRequest_consulted auth { info with authChecked := true } scope limit now
    unwritten
  unfold authorizeUiRequest
  split
  · exact .refl now auth
  · split <;> rename_i heq <;> rw [heq] at hlimit
    · exact hlimit
    · rename_i limited info'
      have hui := (@validUiToken_spec limited headers now info'.clientIp.str).1
      split <;> rename_i heq' <;> rw [heq'] at hui <;> exact hlimit.trans hui

theorem authorizeUploadRequest_consulted :
    auth.Consulted now (authorizeUploadRequest auth info headers now unwritten).1 := by
  have hlimit := @rateLimitRequest_consulted auth { info with authChecked := true } (.lit "upload")
    20 now unwritten
  unfold authorizeUploadRequest
  split
  · exact .refl now auth
  · split <;> rename_i heq <;> rw [heq] at hlimit
    · exact hlimit
    · rename_i limited info'
      have hui := (@validUiToken_spec limited headers now info'.clientIp.str).1
      split <;> rename_i heq' <;> rw [heq'] at hui
      · exact hlimit.trans hui
      · rename_i swept
        have hpair := (@validPairToken_spec swept headers now info'.clientIp.str).1
        split <;> rename_i heq'' <;> rw [heq''] at hpair <;>
          exact (hlimit.trans hui).trans hpair

theorem chunkGate_consulted (route : Route) :
    auth.Consulted now (chunkGate auth info route headers now unwritten).1 := by
  unfold chunkGate
  split
  · exact limitChunk_consulted
  · split
    · exact authorizeUploadRequest_consulted
    · exact authorizeUiRequest_consulted
    · exact authorizeUiRequest_consulted
    · exact .refl now auth

end gates

theorem validateTargetPeer_consulted (auth : Auth) (registry : PeerRegistry)
    (info : ConnectionInfo) (now : Time) :
    auth.Consulted now (validateTargetPeer auth registry info now).1 := by
  have hcheck := validateTargetPeer_check auth registry info now
  generalize validateTargetPeer auth registry info now = result at hcheck ⊢
  cases hcheck with
  | refused auth' status message bad looked =>
      rcases looked with rfl | ⟨port, rfl⟩
      · exact .refl now auth'
      · exact authGetPeerToken_consulted info.targetIp.str port
  | accepted auth' port peer token parsed found usable known =>
      have htoken := @authGetPeerToken_consulted auth now info.targetIp.str port
      rw [known] at htoken
      exact htoken

end LocalDrop
