import LocalDrop.Auth.PeerTokens
import LocalDrop.Lib.LastWrite
import LocalDrop.Lib.Runs

/-! Histories of the four peer-token calls. The table answers like a map from endpoints
to tokens with an expiry time, whatever the lookups have retired on the way. Addresses and
tokens that are stored fit their arrays, and the clock does not run backwards. -/
namespace LocalDrop
open Lib

inductive TokenCall where
  | issue (peerIp peerName : CString) (peerPort : UInt16) (providedPairCode : CString)
      (now : Time) (codeRandom : RandomBytes 6) (random : RandomBytes 32)
  | store (peerIp : CString) (peerPort : UInt16) (peerName token : CString) (expiresAt : Time)
      (now : Time)
  | get (peerIp : CString) (peerPort : UInt16) (now : Time)
  | validate (peerIp token : CString) (now : Time)

namespace TokenCall

def now : TokenCall → Time
  | issue _ _ _ _ now _ _ => now
  | store _ _ _ _ _ now => now
  | get _ _ now => now
  | validate _ _ now => now

/-- What the call would store fits its arrays. -/
def Fits : TokenCall → Prop
  | issue peerIp _ _ _ _ _ _ => peerIp.length < 46
  | store peerIp _ _ token _ _ => peerIp.length < 46 ∧ token.length < 65
  | get _ _ _ => True
  | validate _ _ _ => True

instance : ∀ call : TokenCall, Decidable call.Fits
  | issue peerIp _ _ _ _ _ _ => inferInstanceAs (Decidable (peerIp.length < 46))
  | store peerIp _ _ token _ _ =>
      inferInstanceAs (Decidable (peerIp.length < 46 ∧ token.length < 65))
  | get _ _ _ => .isTrue trivial
  | validate _ _ _ => .isTrue trivial

end TokenCall

structure TokenUpsert where
  peerIp : CString
  peerPort : UInt16
  token : CString
  expiresAt : Time
deriving DecidableEq

def TokenUpsert.endpoint (upsert : TokenUpsert) : CString × UInt16 :=
  (upsert.peerIp, upsert.peerPort)

/-- The tables, the time of the last call, and the successful upserts in their order. -/
structure TokenHistory where
  auth : Auth
  clock : Time
  upserts : List TokenUpsert

def tokenCall (history : TokenHistory) : TokenCall → TokenHistory
  | .issue peerIp peerName peerPort providedPairCode now codeRandom random =>
      match authIssuePairToken history.auth peerIp peerName peerPort providedPairCode now
          codeRandom random with
      | (auth, none) => ⟨auth, now, history.upserts⟩
      | (auth, some (token, expiresAt)) =>
          ⟨auth, now, history.upserts ++ [⟨peerIp, peerPort, token, expiresAt⟩]⟩
  | .store peerIp peerPort peerName token expiresAt now =>
      match authStorePeerToken history.auth peerIp peerPort peerName token expiresAt with
      | (auth, false) => ⟨auth, now, history.upserts⟩
      | (auth, true) => ⟨auth, now, history.upserts ++ [⟨peerIp, peerPort, token, expiresAt⟩]⟩
  | .get peerIp peerPort now =>
      ⟨(authGetPeerToken history.auth peerIp peerPort now).1, now, history.upserts⟩
  | .validate peerIp token now =>
      ⟨(authValidatePeerToken history.auth peerIp token now).1, now, history.upserts⟩

def tokenStep (history : TokenHistory) (call : TokenCall) : Option TokenHistory :=
  if call.Fits ∧ history.clock ≤ call.now then some (tokenCall history call) else none

structure TokenHistory.Initial (history : TokenHistory) : Prop where
  init : ∃ adminRandom pairingRandom now,
    authInit adminRandom pairingRandom now = some history.auth
  upserts : history.upserts = []

/-- What the map says about an endpoint: the token of its last upsert, until it expires. -/
def TokenHistory.token (history : TokenHistory) (endpoint : CString × UInt16) (now : Time) :
    Option CString :=
  (lastWrite TokenUpsert.endpoint history.upserts endpoint).bind fun upsert =>
    if now < upsert.expiresAt then some upsert.token else none

inductive TokenChange (history after : TokenHistory) : Prop where
  | upserted (upsert : TokenUpsert) (peerName : CString) (ip : upsert.peerIp.length < 46)
      (token : upsert.token.length < 65)
      (table : upsertPeerTokenLocked history.auth.peerTokens upsert.peerIp upsert.peerPort
        peerName upsert.token upsert.expiresAt = some after.auth.peerTokens)
      (upserts : after.upserts = history.upserts ++ [upsert])
  | same (table : after.auth.peerTokens = history.auth.peerTokens)
      (upserts : after.upserts = history.upserts)
  | looked (hit : PeerTokenRecord → Bool) (now : Time) (clock : now ≤ after.clock)
      (active : ∀ record, hit record = true → record.active = true)
      (table : after.auth.peerTokens = (lookupPeerTokens history.auth.peerTokens hit now).1)
      (upserts : after.upserts = history.upserts)

theorem authIssuePairToken_eq_none {auth auth' : Auth} {peerIp peerName : CString}
    {peerPort : UInt16} {provided : CString} {now : Time} {codeRandom : RandomBytes 6}
    {random : RandomBytes 32}
    (h : authIssuePairToken auth peerIp peerName peerPort provided now codeRandom random =
      (auth', none)) :
    auth' = { auth with
      pairingCode := auth'.pairingCode
      pairingCodeExpiresAt := auth'.pairingCodeExpiresAt } := by
  unfold authIssuePairToken at h
  cases hcurrent : ensurePairingCodeLocked auth now codeRandom with
  | none =>
      rw [hcurrent] at h
      cases h
      rfl
  | some current =>
      have hsame := (ensurePairingCodeLocked_eq_some hcurrent).2
      rw [hcurrent] at h
      dsimp only at h
      split at h
      · cases h
        exact hsame
      · split at h
        · cases h
          exact hsame
        · split at h
          · cases h
            exact hsame
          · simp at h

theorem authStorePeerToken_eq_false {auth auth' : Auth} {peerIp : CString} {peerPort : UInt16}
    {peerName token : CString} {expiresAt : Time}
    (h : authStorePeerToken auth peerIp peerPort peerName token expiresAt = (auth', false)) :
    upsertPeerTokenLocked auth.peerTokens peerIp peerPort peerName token expiresAt = none ∧
      auth' = auth := by
  unfold authStorePeerToken at h
  split at h
  · rename_i hnone
    cases h
    exact ⟨hnone, rfl⟩
  · simp at h

theorem tokenStep_change {history after : TokenHistory} {call : TokenCall}
    (h : tokenStep history call = some after) :
    history.clock ≤ after.clock ∧ after.clock = call.now ∧ TokenChange history after := by
  unfold tokenStep at h
  split at h
  · rename_i hlegal
    obtain ⟨hfits, hclock⟩ := hlegal
    rw [Option.some.injEq] at h
    subst h
    cases call with
    | issue peerIp peerName peerPort provided now codeRandom random =>
        simp only [tokenCall]
        split
        · rename_i auth hnone
          refine ⟨hclock, rfl, .same ?_ rfl⟩
          rw [authIssuePairToken_eq_none hnone]
        · rename_i auth token expiresAt hsome
          obtain ⟨current, table, -, -, htoken, -, htable, hauth⟩ :=
            authIssuePairToken_eq_some hsome
          have hlength := cryptoRandomToken_length htoken
          refine ⟨hclock, rfl, .upserted ⟨peerIp, peerPort, token, expiresAt⟩ peerName hfits
            (by dsimp only; omega) ?_ rfl⟩
          rw [hauth]
          exact htable
    | store peerIp peerPort peerName token expiresAt now =>
        simp only [tokenCall]
        split
        · rename_i auth hfalse
          refine ⟨hclock, rfl, .same ?_ rfl⟩
          rw [(authStorePeerToken_eq_false hfalse).2]
        · rename_i auth htrue
          obtain ⟨table, htable, hauth⟩ := authStorePeerToken_eq_true htrue
          refine ⟨hclock, rfl, .upserted ⟨peerIp, peerPort, token, expiresAt⟩ peerName hfits.1
            hfits.2 ?_ rfl⟩
          rw [hauth]
          exact htable
    | get peerIp peerPort now =>
        exact ⟨hclock, rfl, .looked (PeerTokenRecord.isFor peerIp peerPort) now (le_refl now)
          (fun record hit => (PeerTokenRecord.isFor_eq_true.mp hit).1) rfl rfl⟩
    | validate peerIp token now =>
        refine ⟨hclock, rfl, ?_⟩
        by_cases hempty : token = CString.empty
        · refine .same ?_ rfl
          simp only [tokenCall, authValidatePeerToken, if_pos hempty]
        · refine .looked (PeerTokenRecord.grants peerIp token) now (le_refl now)
            (fun record hit => (PeerTokenRecord.grants_eq_true.mp hit).1) ?_ rfl
          simp only [tokenCall, authValidatePeerToken, if_neg hempty]
          rfl
  · contradiction

def TokenUpsert.Kept (upsert : TokenUpsert) (record : PeerTokenRecord) : Prop :=
  record.active = true ∧ record.endpoint = upsert.endpoint ∧
    record.token.str = upsert.token ∧ record.expiresAt = upsert.expiresAt

structure TokenHistory.Refines (history : TokenHistory) : Prop where
  unique : UniqueEndpoints history.auth.peerTokens
  recorded : ∀ record ∈ history.auth.peerTokens.slots, record.active = true →
    ∃ upsert, lastWrite TokenUpsert.endpoint history.upserts record.endpoint = some upsert ∧
      upsert.Kept record
  /-- Last upserts are held until they expire. -/
  kept : ∀ endpoint upsert,
    lastWrite TokenUpsert.endpoint history.upserts endpoint = some upsert →
    history.clock < upsert.expiresAt →
    ∃ record ∈ history.auth.peerTokens.slots, upsert.Kept record

theorem TokenHistory.Initial.refines {history : TokenHistory} (h : history.Initial) :
    history.Refines := by
  obtain ⟨adminRandom, pairingRandom, now, hinit⟩ := h.init
  obtain ⟨-, htable, -⟩ := authInit_tables hinit
  refine ⟨?_, ?_, ?_⟩
  · rw [htable]
    exact uniqueEndpoints_replicate
  · intro record hmem hactive
    rw [htable] at hmem
    rw [List.eq_of_mem_replicate hmem] at hactive
    contradiction
  · intro endpoint upsert hlast
    rw [h.upserts] at hlast
    contradiction

theorem TokenUpsert.kept_peerTokenRecord {upsert : TokenUpsert} (hip : upsert.peerIp.length < 46)
    (htoken : upsert.token.length < 65) (peerName : CString) :
    upsert.Kept (peerTokenRecord upsert.peerIp upsert.peerPort peerName upsert.token
      upsert.expiresAt) := by
  refine ⟨rfl, ?_, copyString_str_of_lt upsert.token htoken, rfl⟩
  exact congrArg (·, upsert.peerPort) (copyString_str_of_lt upsert.peerIp hip)

theorem refines_step (history : TokenHistory) (call : TokenCall) (after : TokenHistory)
    (h : history.Refines) (hstep : tokenStep history call = some after) : after.Refines := by
  obtain ⟨hclock, -, hchange⟩ := tokenStep_change hstep
  cases hchange with
  | same table upserts =>
      refine ⟨table ▸ h.unique, ?_, ?_⟩
      · rw [table, upserts]
        exact h.recorded
      · rw [table, upserts]
        exact fun endpoint upsert hlast hlive =>
          h.kept endpoint upsert hlast (lt_of_le_of_lt hclock hlive)
  | looked hit now clock active table upserts =>
      refine ⟨table ▸ uniqueEndpoints_lookup active h.unique, ?_, ?_⟩
      · intro record hmem hactive
        rw [table] at hmem
        rw [upserts]
        exact h.recorded record (mem_of_mem_lookup hmem hactive) hactive
      · intro endpoint upsert hlast hlive
        rw [upserts] at hlast
        obtain ⟨record, hmem, hkept⟩ :=
          h.kept endpoint upsert hlast (lt_of_le_of_lt hclock hlive)
        rw [table]
        refine ⟨record, mem_lookup_of_live hmem ?_, hkept⟩
        rw [PeerTokenRecord.live_eq_true, hkept.2.2.2]
        exact ⟨hkept.1, lt_of_le_of_lt clock hlive⟩
  | upserted upsert peerName ip token table upserts =>
      have hnew := TokenUpsert.kept_peerTokenRecord ip token peerName
      have hunique := uniqueEndpoints_upsert table ip h.unique
      refine ⟨hunique, ?_, ?_⟩
      · intro record hmem hactive
        rw [upserts, lastWrite_concat]
        split
        · -- The new record is the only active one of its endpoint.
          rename_i hendpoint
          have hsame := hunique.eq_of_key hmem (mem_upsert_new table) hactive hnew.1
            (hendpoint.symm.trans hnew.2.1.symm)
          exact ⟨upsert, rfl, hsame ▸ hnew⟩
        · rename_i hother
          rcases mem_of_mem_upsert table hmem with hold | rfl
          · exact h.recorded record hold hactive
          · exact absurd hnew.2.1.symm hother
      · intro endpoint written hlast hlive
        rw [upserts, lastWrite_concat] at hlast
        split at hlast
        · cases hlast
          exact ⟨_, mem_upsert_new table, hnew⟩
        · rename_i hother
          obtain ⟨record, hmem, hkept⟩ :=
            h.kept endpoint written hlast (lt_of_le_of_lt hclock hlive)
          refine ⟨record, mem_upsert_of_mem table hmem hkept.1 ?_, hkept⟩
          rw [← Bool.not_eq_true, PeerTokenRecord.isFor_eq_true]
          rintro ⟨-, hendpoint⟩
          exact hother (hendpoint.symm.trans (hkept.2.1.trans (key_of_lastWrite hlast)))

theorem TokenHistory.Refines.token_eq_some {history : TokenHistory} (h : history.Refines)
    {endpoint : CString × UInt16} {now : Time} {token : CString} (hclock : history.clock ≤ now) :
    history.token endpoint now = some token ↔
      ∃ record ∈ history.auth.peerTokens.slots, record.live now = true ∧
        record.endpoint = endpoint ∧ record.token.str = token := by
  unfold TokenHistory.token
  rw [Option.bind_eq_some_iff]
  constructor
  · rintro ⟨upsert, hlast, htoken⟩
    split at htoken
    · rename_i hlive
      obtain ⟨record, hmem, hactive, hendpoint, hrecord, hexpires⟩ :=
        h.kept endpoint upsert hlast (lt_of_le_of_lt hclock hlive)
      refine ⟨record, hmem, ?_, hendpoint.trans (key_of_lastWrite hlast),
        hrecord.trans (Option.some.inj htoken)⟩
      rw [PeerTokenRecord.live_eq_true, hexpires]
      exact ⟨hactive, hlive⟩
    · contradiction
  · rintro ⟨record, hmem, hlive, rfl, rfl⟩
    obtain ⟨hactive, hexpires⟩ := PeerTokenRecord.live_eq_true.mp hlive
    obtain ⟨upsert, hlast, -, -, htoken, hsame⟩ := h.recorded record hmem hactive
    refine ⟨upsert, hlast, ?_⟩
    rw [if_pos (hsame ▸ hexpires), htoken]

theorem TokenHistory.Refines.get {history : TokenHistory} (h : history.Refines)
    (peerIp : CString) (peerPort : UInt16) {now : Time} (hclock : history.clock ≤ now) :
    (authGetPeerToken history.auth peerIp peerPort now).2 =
      history.token (peerIp, peerPort) now := by
  apply Option.ext
  intro token
  rw [authGetPeerToken_eq_some_iff h.unique, h.token_eq_some hclock]
  apply exists_congr
  intro record
  apply and_congr_right
  intro _
  apply and_congr_right
  intro hlive
  rw [PeerTokenRecord.isFor_eq_true]
  simp [(PeerTokenRecord.live_eq_true.mp hlive).1]

theorem TokenHistory.Refines.validate {history : TokenHistory} (h : history.Refines)
    (peerIp token : CString) {now : Time} (hclock : history.clock ≤ now)
    (htoken : token ≠ CString.empty) :
    (authValidatePeerToken history.auth peerIp token now).2 = true ↔
      ∃ peerPort, history.token (peerIp, peerPort) now = some token := by
  rw [authValidatePeerToken_iff]
  constructor
  · rintro ⟨-, record, hmem, hlive, hgrants⟩
    obtain ⟨-, rfl, rfl⟩ := PeerTokenRecord.grants_eq_true.mp hgrants
    exact ⟨record.peerPort, (h.token_eq_some hclock).mpr ⟨record, hmem, hlive, rfl, rfl⟩⟩
  · rintro ⟨peerPort, hanswer⟩
    obtain ⟨record, hmem, hlive, hendpoint, rfl⟩ := (h.token_eq_some hclock).mp hanswer
    refine ⟨htoken, record, hmem, hlive, PeerTokenRecord.grants_eq_true.mpr ⟨?_, ?_, rfl⟩⟩
    · exact (PeerTokenRecord.live_eq_true.mp hlive).1
    · exact congrArg Prod.fst hendpoint

/-- The endpoint a call writes, and whether it succeeds. -/
def TokenCall.upsert (auth : Auth) : TokenCall → Option ((CString × UInt16) × Bool)
  | issue peerIp peerName peerPort providedPairCode now codeRandom random =>
      some ((peerIp, peerPort), (authIssuePairToken auth peerIp peerName peerPort
        providedPairCode now codeRandom random).2.isSome)
  | store peerIp peerPort peerName token expiresAt _ =>
      some ((peerIp, peerPort),
        (authStorePeerToken auth peerIp peerPort peerName token expiresAt).2)
  | get _ _ _ => none
  | validate _ _ _ => none

theorem tokenStep_upserts {history after : TokenHistory} {call : TokenCall}
    (h : tokenStep history call = some after) :
    after.upserts = history.upserts ∨
      ∃ upsert, call.upsert history.auth = some (upsert.endpoint, true) ∧
        after.upserts = history.upserts ++ [upsert] := by
  unfold tokenStep at h
  split at h
  · rw [Option.some.injEq] at h
    subst h
    cases call with
    | issue peerIp peerName peerPort provided now codeRandom random =>
        simp only [tokenCall]
        split
        · exact .inl rfl
        · rename_i auth token expiresAt hsome
          refine .inr ⟨⟨peerIp, peerPort, token, expiresAt⟩, ?_, rfl⟩
          simp [TokenCall.upsert, hsome, TokenUpsert.endpoint]
    | store peerIp peerPort peerName token expiresAt now =>
        simp only [tokenCall]
        split
        · exact .inl rfl
        · rename_i auth htrue
          refine .inr ⟨⟨peerIp, peerPort, token, expiresAt⟩, ?_, rfl⟩
          simp [TokenCall.upsert, htrue, TokenUpsert.endpoint]
    | get peerIp peerPort now => exact .inl rfl
    | validate peerIp token now => exact .inl rfl
  · contradiction

theorem tokenStep_failed {history after : TokenHistory} {call : TokenCall}
    {endpoint : CString × UInt16} (h : tokenStep history call = some after)
    (hfailed : call.upsert history.auth = some (endpoint, false)) :
    after.auth = { history.auth with
      pairingCode := after.auth.pairingCode
      pairingCodeExpiresAt := after.auth.pairingCodeExpiresAt } ∧
      after.upserts = history.upserts := by
  unfold tokenStep at h
  split at h
  · rw [Option.some.injEq] at h
    subst h
    cases call with
    | issue peerIp peerName peerPort provided now codeRandom random =>
        obtain ⟨auth, result, houtcome⟩ : ∃ auth result, authIssuePairToken history.auth peerIp
            peerName peerPort provided now codeRandom random = (auth, result) := ⟨_, _, rfl⟩
        simp only [TokenCall.upsert, houtcome, Option.some.injEq, Prod.mk.injEq,
          Option.isSome_eq_false_iff, Option.isNone_iff_eq_none] at hfailed
        rw [hfailed.2] at houtcome
        simp only [tokenCall, houtcome]
        exact ⟨authIssuePairToken_eq_none houtcome, trivial⟩
    | store peerIp peerPort peerName token expiresAt now =>
        obtain ⟨auth, stored, houtcome⟩ : ∃ auth stored, authStorePeerToken history.auth peerIp
            peerPort peerName token expiresAt = (auth, stored) := ⟨_, _, rfl⟩
        simp only [TokenCall.upsert, houtcome, Option.some.injEq, Prod.mk.injEq] at hfailed
        rw [hfailed.2] at houtcome
        simp only [tokenCall, houtcome]
        rw [(authStorePeerToken_eq_false houtcome).2]
        exact ⟨rfl, trivial⟩
    | get peerIp peerPort now => contradiction
    | validate peerIp token now => contradiction
  · contradiction

/-- In every history the table is the map of the last upserts: one active record per
endpoint, lookups answer what the map does, an upsert changes the answer for its own
endpoint only, and one that fails changes nothing but an expired pairing code. -/
theorem peerTokens_refine_map {start history : TokenHistory} {calls : List TokenCall}
    (hstart : start.Initial) (hrun : run tokenStep start calls = some history) :
    UniqueEndpoints history.auth.peerTokens ∧
    (∀ peerIp peerPort now, history.clock ≤ now →
      (authGetPeerToken history.auth peerIp peerPort now).2 =
        history.token (peerIp, peerPort) now) ∧
    (∀ peerIp token now, history.clock ≤ now → token ≠ CString.empty →
      ((authValidatePeerToken history.auth peerIp token now).2 = true ↔
        ∃ peerPort, history.token (peerIp, peerPort) now = some token)) ∧
    (∀ call after endpoint success, tokenStep history call = some after →
      call.upsert history.auth = some (endpoint, success) →
      ∀ other, other ≠ endpoint → ∀ now, after.clock ≤ now →
        (authGetPeerToken after.auth other.1 other.2 now).2 =
          (authGetPeerToken history.auth other.1 other.2 now).2) ∧
    ∀ call after endpoint, tokenStep history call = some after →
      call.upsert history.auth = some (endpoint, false) →
      after.auth = { history.auth with
        pairingCode := after.auth.pairingCode
        pairingCodeExpiresAt := after.auth.pairingCodeExpiresAt } := by
  have h := run_invariant refines_step hstart.refines hrun
  refine ⟨h.unique, ?_, ?_, ?_, ?_⟩
  · exact fun peerIp peerPort now hclock => h.get peerIp peerPort hclock
  · exact fun peerIp token now hclock htoken => h.validate peerIp token hclock htoken
  · intro call after endpoint success hstep hcall other hother now hnow
    have hafter := refines_step history call after h hstep
    have hclock := (tokenStep_change hstep).1
    rw [hafter.get other.1 other.2 hnow, h.get other.1 other.2 (hclock.trans hnow)]
    unfold TokenHistory.token
    rcases tokenStep_upserts hstep with hsame | ⟨upsert, hupsert, hsame⟩
    · rw [hsame]
    · have hendpoint : upsert.endpoint = endpoint := by
        rw [hupsert, Option.some.injEq, Prod.mk.injEq] at hcall
        exact hcall.1
      rw [hsame, lastWrite_concat_of_ne]
      exact fun heq => hother (heq.symm.trans hendpoint)
  · exact fun call after endpoint hstep hfailed => (tokenStep_failed hstep hfailed).1

/-- A pairing, its renewal, and a lookup after the first one's time. -/
def sampleTokenCalls : List TokenCall :=
  [.store (.lit "10.0.0.9") 8080 (.lit "nas") (.lit "aa") 100 0,
    .issue (.lit "10.0.0.8") (.lit "tv") 8080 (.lit "222222") 10 none (some (.replicate 32 8)),
    .store (.lit "10.0.0.9") 8080 (.lit "nas") (.lit "bb") 200 20,
    .get (.lit "10.0.0.9") 8080 150]

def sampleTokens : TokenHistory := ⟨sampleAuth, 0, []⟩

theorem sampleTokens_initial : sampleTokens.Initial :=
  ⟨⟨some (.replicate 6 1), some (.replicate 6 2), 0, rfl⟩, rfl⟩

theorem sampleTokens_refine : ∃ history,
    run tokenStep sampleTokens sampleTokenCalls = some history ∧
      (authGetPeerToken history.auth (.lit "10.0.0.9") 8080 150).2 = some (.lit "bb") := by
  obtain ⟨history, hrun⟩ := Option.isSome_iff_exists.mp
    (show (run tokenStep sampleTokens sampleTokenCalls).isSome = true by decide +kernel)
  have hanswer : (run tokenStep sampleTokens sampleTokenCalls).all (fun history =>
      decide (history.clock = 150 ∧
        history.token (.lit "10.0.0.9", 8080) 150 = some (.lit "bb"))) = true := by
    decide +kernel
  rw [hrun] at hanswer
  simp only [Option.all_some, decide_eq_true_eq] at hanswer
  refine ⟨history, hrun, ?_⟩
  rw [(peerTokens_refine_map sampleTokens_initial hrun).2.1 _ _ _ (le_of_eq hanswer.1)]
  exact hanswer.2

/-- The endpoint the call may write: a store any, an issue with the current pairing code
and a fresh token its own. -/
def TokenCall.entitled (auth : Auth) : TokenCall → Option (CString × UInt16)
  | issue peerIp _ peerPort providedPairCode now codeRandom random =>
      (ensurePairingCodeLocked auth now codeRandom).bind fun current =>
        if current.pairingCode.str = providedPairCode ∧ random.isSome then
          some (peerIp, peerPort)
        else none
  | store peerIp peerPort _ _ _ _ => some (peerIp, peerPort)
  | get _ _ _ => none
  | validate _ _ _ => none

/-- The records of other endpoints that have not expired at `now`. -/
def liveOthers (table : PeerTokenTable) (endpoint : CString × UInt16) (now : Time) :
    List PeerTokenRecord :=
  table.slots.filter fun record => record.live now && record.endpoint ≠ endpoint

/-- An entitled call fails only when the table is full of live records of others. -/
def RefusedOnlyByLive (history : TokenHistory) (call : TokenCall) : Prop :=
  ∀ endpoint, call.entitled history.auth = some endpoint →
    call.upsert history.auth = some (endpoint, false) →
    (liveOthers history.auth.peerTokens endpoint call.now).length = maxPeerTokens

/-- A slot is unused or the endpoint's own, or none of the records has expired. -/
def RoomReleased (history : TokenHistory) (call : TokenCall) : Prop :=
  ∀ endpoint, call.entitled history.auth = some endpoint →
    (∃ record ∈ history.auth.peerTokens.slots,
      record.active = false ∨ record.isFor endpoint.1 endpoint.2 = true) ∨
    ∀ record ∈ history.auth.peerTokens.slots, record.active = true → call.now < record.expiresAt

theorem length_liveOthers {table : PeerTokenTable} {endpoint : CString × UInt16} {now : Time} :
    (liveOthers table endpoint now).length = maxPeerTokens ↔
      ∀ record ∈ table.slots, record.live now = true ∧ record.endpoint ≠ endpoint := by
  have hsize : (liveOthers table endpoint now).length = maxPeerTokens ↔
      (liveOthers table endpoint now).length = table.slots.length := by
    rw [table.size]
  rw [hsize, liveOthers, List.length_filter_eq_length_iff]
  simp

theorem upsert_refused_iff {auth : Auth} {call : TokenCall} {endpoint : CString × UInt16}
    (hentitled : call.entitled auth = some endpoint) :
    call.upsert auth = some (endpoint, false) ↔
      ∀ record ∈ auth.peerTokens.slots,
        record.active = true ∧ record.isFor endpoint.1 endpoint.2 = false := by
  cases call with
  | issue peerIp peerName peerPort provided now codeRandom random =>
      obtain ⟨current, hcurrent, hentitled⟩ := Option.bind_eq_some_iff.mp hentitled
      split at hentitled
      · rename_i hright
        cases hentitled
        obtain ⟨hcode, hrandom⟩ := hright
        obtain ⟨bytes, rfl⟩ := Option.isSome_iff_exists.mp hrandom
        have htokens : current.peerTokens = auth.peerTokens := by
          rw [(ensurePairingCodeLocked_eq_some hcurrent).2]
        simp only [TokenCall.upsert, authIssuePairToken, hcurrent, hcode, ne_eq,
          not_true_eq_false, if_false, cryptoRandomToken, Option.map_some, htokens,
          Option.some.injEq, Prod.mk.injEq, true_and]
        rw [← upsertPeerTokenLocked_eq_none]
        split
        · rename_i hnone
          exact iff_of_true rfl hnone
        · rename_i table hsome
          refine iff_of_false (by simp) ?_
          rw [hsome]
          exact Option.some_ne_none table
      · contradiction
  | store peerIp peerPort peerName token expiresAt now =>
      cases hentitled
      simp only [TokenCall.upsert, authStorePeerToken, Option.some.injEq, Prod.mk.injEq, true_and]
      rw [← upsertPeerTokenLocked_eq_none]
      split
      · rename_i hnone
        exact iff_of_true rfl hnone
      · rename_i table hsome
        refine iff_of_false (by simp) ?_
        rw [hsome]
        exact Option.some_ne_none table
  | get peerIp peerPort now => contradiction
  | validate peerIp token now => contradiction

theorem refusedOnlyByLive_iff (history : TokenHistory) (call : TokenCall) :
    RefusedOnlyByLive history call ↔ RoomReleased history call := by
  unfold RefusedOnlyByLive RoomReleased
  apply forall_congr'
  intro endpoint
  apply forall_congr'
  intro hentitled
  rw [upsert_refused_iff hentitled, length_liveOthers]
  constructor
  · intro hlive
    by_cases hfull : ∀ record ∈ history.auth.peerTokens.slots,
        record.active = true ∧ record.isFor endpoint.1 endpoint.2 = false
    · refine .inr fun record hmem _ => ?_
      exact (PeerTokenRecord.live_eq_true.mp (hlive hfull record hmem).1).2
    · push Not at hfull
      obtain ⟨record, hmem, hroom⟩ := hfull
      refine .inl ⟨record, hmem, ?_⟩
      cases hactive : record.active with
      | false => exact .inl rfl
      | true => exact .inr (by simpa using hroom hactive)
  · rintro hroom hfull record hmem
    obtain ⟨hactive, hother⟩ := hfull record hmem
    rcases hroom with ⟨free, hfree, hunused | hown⟩ | hlive
    · rw [(hfull free hfree).1] at hunused
      contradiction
    · rw [(hfull free hfree).2] at hown
      contradiction
    · refine ⟨PeerTokenRecord.live_eq_true.mpr ⟨hactive, hlive record hmem hactive⟩, ?_⟩
      intro hendpoint
      rw [PeerTokenRecord.isFor_eq_true.mpr ⟨hactive, hendpoint⟩] at hother
      contradiction

/-- In every run, and for every call that may follow it, entitled pairings are refused only
for want of room among live ones exactly when, at each of them, a slot is unused or its own
or nothing has expired. -/
theorem pairing_refused_iff (start : TokenHistory) (calls : List TokenCall) :
    (Meets tokenStep RefusedOnlyByLive start calls ↔ Meets tokenStep RoomReleased start calls) ∧
    ∀ history, run tokenStep start calls = some history →
      ∀ call, RefusedOnlyByLive history call ↔ RoomReleased history call := by
  refine ⟨?_, fun history _ call => refusedOnlyByLive_iff history call⟩
  apply @meets_iff_meets _ _ _ _ _ _ _ fun _ => True
  · exact fun _ _ _ _ _ => trivial
  · exact fun history call _ _ _ => refusedOnlyByLive_iff history call
  · trivial

/-- Pairings with 64 peers that end at time 10. -/
def expiringTokenCalls : List TokenCall :=
  (List.range maxPeerTokens).map fun port =>
    .store (.lit "10.0.0.9") (UInt16.ofNat port) (.lit "nas") (.lit "aa") 10 0

/-- At time 20 none of them is live, and another peer with the right code is refused. -/
theorem expired_pairings_block : ∃ history,
    run tokenStep sampleTokens expiringTokenCalls = some history ∧
      (∀ record ∈ history.auth.peerTokens.slots, record.live 20 = false) ∧
      (authIssuePairToken history.auth (.lit "10.0.0.8") (.lit "tv") 8080 (.lit "222222") 20
        none (some (.replicate 32 8))).2 = none ∧
      ¬ RefusedOnlyByLive history (.issue (.lit "10.0.0.8") (.lit "tv") 8080 (.lit "222222") 20
        none (some (.replicate 32 8))) := by
  obtain ⟨history, hrun⟩ := Option.isSome_iff_exists.mp
    (show (run tokenStep sampleTokens expiringTokenCalls).isSome = true by decide +kernel)
  have hboth : (run tokenStep sampleTokens expiringTokenCalls).all (fun history =>
      decide ((∀ record ∈ history.auth.peerTokens.slots, record.live 20 = false) ∧
        (authIssuePairToken history.auth (.lit "10.0.0.8") (.lit "tv") 8080 (.lit "222222") 20
          none (some (.replicate 32 8))).2 = none ∧
        (TokenCall.issue (.lit "10.0.0.8") (.lit "tv") 8080 (.lit "222222") 20
          none (some (.replicate 32 8))).entitled history.auth =
            some (.lit "10.0.0.8", 8080))) = true := by
    decide +kernel
  rw [hrun] at hboth
  simp only [Option.all_some, decide_eq_true_eq] at hboth
  obtain ⟨hexpired, hrefused, hentitled⟩ := hboth
  refine ⟨history, hrun, hexpired, hrefused, ?_⟩
  intro honly
  have hfull := length_liveOthers.mp (honly _ hentitled (by simp [TokenCall.upsert, hrefused]))
  have hsome : history.auth.peerTokens.slots ≠ [] :=
    List.ne_nil_of_length_pos (by rw [history.auth.peerTokens.size]; decide)
  obtain ⟨record, hmem⟩ := List.exists_mem_of_ne_nil _ hsome
  have hlive := (hfull record hmem).1
  rw [TokenCall.now, hexpired record hmem] at hlive
  contradiction

end LocalDrop
