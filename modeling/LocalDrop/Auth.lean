import LocalDrop.Crypto
import LocalDrop.Lib.Slots

/-! `auth.c`: the admin and pairing codes, UI sessions, peer tokens and rate
limits. Every function below is one critical section of `auth_lock`, and `now`
is the clock reading of that section. Strings handed in by callers are arbitrary
C strings; what a record keeps is cut to the size of its array. -/
namespace LocalDrop
open Lib

abbrev Time := Int

structure UiSession where
  active : Bool
  token : Chars 65
  clientIp : Chars 46
  expiresAt : Time
deriving Inhabited, DecidableEq

structure PeerTokenRecord where
  active : Bool
  peerIp : Chars 46
  peerName : Chars 256
  peerPort : UInt16
  token : Chars 65
  expiresAt : Time
deriving Inhabited, DecidableEq

structure RateLimitRecord where
  active : Bool
  clientIp : Chars 46
  scope : Chars 32
  count : Nat
  windowStartedAt : Time
deriving Inhabited, DecidableEq

def maxUiSessions : Nat := 32
def maxPeerTokens : Nat := 64
def maxRateLimits : Nat := 64
def pairingCodeTtlSeconds : Time := 300
def uiSessionTtlSeconds : Time := 43200
def peerTokenTtlSeconds : Time := 7 * 24 * 60 * 60

structure Auth where
  adminCode : Chars 7
  pairingCode : Chars 7
  pairingCodeExpiresAt : Time
  uiSessions : Table maxUiSessions UiSession
  peerTokens : Table maxPeerTokens PeerTokenRecord
  rateLimits : Table maxRateLimits RateLimitRecord

def authInit (adminRandom pairingRandom : RandomBytes 6) (now : Time) : Option Auth := do
  let adminCode ← cryptoRandomNumericCode adminRandom
  let pairingCode ← cryptoRandomNumericCode pairingRandom
  pure {
    adminCode := copyString adminCode
    pairingCode := copyString pairingCode
    pairingCodeExpiresAt := now + pairingCodeTtlSeconds
    uiSessions := .replicate maxUiSessions default
    peerTokens := .replicate maxPeerTokens default
    rateLimits := .replicate maxRateLimits default }

theorem authInit_tables {adminRandom pairingRandom : RandomBytes 6} {now : Time} {auth : Auth}
    (h : authInit adminRandom pairingRandom now = some auth) :
    auth.uiSessions = .replicate maxUiSessions default ∧
      auth.peerTokens = .replicate maxPeerTokens default ∧
      auth.rateLimits = .replicate maxRateLimits default := by
  simp only [authInit, Option.bind_eq_bind, Option.bind_eq_some_iff, Option.pure_def,
    Option.some.injEq] at h
  obtain ⟨adminCode, -, pairingCode, -, hauth⟩ := h
  rw [← hauth]
  exact ⟨rfl, rfl, rfl⟩

/-- Tables as `auth_init` leaves them. -/
def sampleAuth : Auth where
  adminCode := copyString (.lit "111111")
  pairingCode := copyString (.lit "222222")
  pairingCodeExpiresAt := 300
  uiSessions := .replicate maxUiSessions default
  peerTokens := .replicate maxPeerTokens default
  rateLimits := .replicate maxRateLimits default

def ensurePairingCodeLocked (auth : Auth) (now : Time) (random : RandomBytes 6) :
    Option Auth :=
  if auth.pairingCodeExpiresAt > now ∧ auth.pairingCode.str ≠ CString.empty then some auth
  else
    (cryptoRandomNumericCode random).map fun code =>
      { auth with
        pairingCode := copyString code
        pairingCodeExpiresAt := now + pairingCodeTtlSeconds }

def authGetPairingCode (auth : Auth) (now : Time) (random : RandomBytes 6) :
    Auth × Option (CString × Time) :=
  match ensurePairingCodeLocked auth now random with
  | none => (auth, none)
  | some auth => (auth, some (auth.pairingCode.str, auth.pairingCodeExpiresAt))

def UiSession.live (now : Time) (session : UiSession) : Bool :=
  session.active && now < session.expiresAt

/-- The slot a new session may take: unused, expired, or the client's own. -/
def UiSession.usable (clientIp : CString) (now : Time) (session : UiSession) : Bool :=
  !session.active || session.expiresAt ≤ now || session.clientIp.str = clientIp

def UiSession.retire (now : Time) (session : UiSession) : UiSession :=
  if session.active ∧ session.expiresAt ≤ now then { session with active := false }
  else session

def authCreateUiSession (auth : Auth) (clientIp providedAdminCode : CString) (now : Time)
    (random : RandomBytes 32) : Auth × Option CString :=
  if auth.adminCode.str ≠ providedAdminCode then (auth, none)
  else
    match cryptoRandomToken random with
    | none => (auth, none)
    | some token =>
        match auth.uiSessions.updateFirst (UiSession.usable clientIp now) fun _ =>
            { active := true
              token := copyString token
              clientIp := copyString clientIp
              expiresAt := now + uiSessionTtlSeconds } with
        | none => (auth, none)
        | some sessions => ({ auth with uiSessions := sessions }, some token)

def UiSession.grants (clientIp token : CString) (session : UiSession) : Bool :=
  session.active && session.clientIp.str = clientIp && session.token.str = token

def authValidateUiSession (auth : Auth) (clientIp token : CString) (now : Time) :
    Auth × Bool :=
  if token = CString.empty then (auth, false)
  else
    let swept := auth.uiSessions.sweep (UiSession.retire now)
      (UiSession.grants clientIp token) id
    ({ auth with uiSessions := swept.1 }, swept.2.isSome)

def PeerTokenRecord.live (now : Time) (record : PeerTokenRecord) : Bool :=
  record.active && now < record.expiresAt

def PeerTokenRecord.isFor (peerIp : CString) (peerPort : UInt16)
    (record : PeerTokenRecord) : Bool :=
  record.active && record.peerIp.str = peerIp && record.peerPort = peerPort

def PeerTokenRecord.grants (peerIp token : CString) (record : PeerTokenRecord) : Bool :=
  record.active && record.peerIp.str = peerIp && record.token.str = token

def PeerTokenRecord.retire (now : Time) (record : PeerTokenRecord) : PeerTokenRecord :=
  if record.active ∧ record.expiresAt ≤ now then { record with active := false }
  else record

def peerTokenRecord (peerIp : CString) (peerPort : UInt16) (peerName token : CString)
    (expiresAt : Time) : PeerTokenRecord where
  active := true
  peerIp := copyString peerIp
  peerName := copyString peerName
  peerPort := peerPort
  token := copyString token
  expiresAt := expiresAt

/-- The first active record for the endpoint is overwritten whether or not it
has expired; only when there is none the first inactive slot is filled. -/
def upsertPeerTokenLocked (table : Table maxPeerTokens PeerTokenRecord)
    (peerIp : CString) (peerPort : UInt16) (peerName token : CString) (expiresAt : Time) :
    Option (Table maxPeerTokens PeerTokenRecord) :=
  match table.updateFirst (PeerTokenRecord.isFor peerIp peerPort) fun record =>
      { record with
        peerName := copyString peerName
        token := copyString token
        expiresAt := expiresAt } with
  | some updated => some updated
  | none =>
      table.updateFirst (fun record => !record.active) fun _ =>
        peerTokenRecord peerIp peerPort peerName token expiresAt

def authIssuePairToken (auth : Auth) (peerIp peerName : CString) (peerPort : UInt16)
    (providedPairCode : CString) (now : Time) (codeRandom : RandomBytes 6)
    (random : RandomBytes 32) : Auth × Option (CString × Time) :=
  match ensurePairingCodeLocked auth now codeRandom with
  | none => (auth, none)
  | some auth =>
      if auth.pairingCode.str ≠ providedPairCode then (auth, none)
      else
        match cryptoRandomToken random with
        | none => (auth, none)
        | some token =>
            let expiresAt := now + peerTokenTtlSeconds
            match upsertPeerTokenLocked auth.peerTokens peerIp peerPort peerName token
                expiresAt with
            | none => (auth, none)
            | some table => ({ auth with peerTokens := table }, some (token, expiresAt))

def authStorePeerToken (auth : Auth) (peerIp : CString) (peerPort : UInt16)
    (peerName token : CString) (expiresAt : Time) : Auth × Bool :=
  match upsertPeerTokenLocked auth.peerTokens peerIp peerPort peerName token expiresAt with
  | none => (auth, false)
  | some table => ({ auth with peerTokens := table }, true)

def authGetPeerToken (auth : Auth) (peerIp : CString) (peerPort : UInt16) (now : Time) :
    Auth × Option CString :=
  let swept := auth.peerTokens.sweep (PeerTokenRecord.retire now)
    (PeerTokenRecord.isFor peerIp peerPort) id
  ({ auth with peerTokens := swept.1 }, swept.2.map fun record => record.token.str)

def authValidatePeerToken (auth : Auth) (peerIp token : CString) (now : Time) :
    Auth × Bool :=
  if token = CString.empty then (auth, false)
  else
    let swept := auth.peerTokens.sweep (PeerTokenRecord.retire now)
      (PeerTokenRecord.grants peerIp token) id
    ({ auth with peerTokens := swept.1 }, swept.2.isSome)

def RateLimitRecord.isFor (clientIp scope : CString) (record : RateLimitRecord) : Bool :=
  record.active && record.clientIp.str = clientIp && record.scope.str = scope

def RateLimitRecord.retire (window now : Time) (record : RateLimitRecord) :
    RateLimitRecord :=
  if record.active ∧ record.windowStartedAt + window ≤ now then
    { record with active := false }
  else record

/-- A refusal carries the text written into the caller's buffer, if any was. -/
inductive RateVerdict where
  | allowed
  | refused (message : Option CString)
deriving DecidableEq

/-- A hit with room left is counted in the same pass that finds it. -/
def authRateLimitAllow (auth : Auth) (clientIp scope : CString) (limit : Nat)
    (window now : Time) : Auth × RateVerdict :=
  if limit = 0 ∨ window ≤ 0 then (auth, .refused none)
  else
    let swept := auth.rateLimits.sweep (RateLimitRecord.retire window now)
      (RateLimitRecord.isFor clientIp scope) fun record =>
        if limit ≤ record.count then record else { record with count := record.count + 1 }
    let auth := { auth with rateLimits := swept.1 }
    match swept.2 with
    | some record =>
        if limit ≤ record.count then
          (auth, .refused (some (CString.lit "Limite de requisicoes atingido para " ++ scope)))
        else (auth, .allowed)
    | none =>
        match auth.rateLimits.updateFirst (fun record => !record.active) fun _ =>
            { active := true
              clientIp := copyString clientIp
              scope := copyString scope
              count := 1
              windowStartedAt := now } with
        | none => (auth, .refused none)
        | some table => ({ auth with rateLimits := table }, .allowed)

end LocalDrop
