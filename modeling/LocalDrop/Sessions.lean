import LocalDrop.Auth.UiSessions
import LocalDrop.Lib.Runs

/-! Histories of `auth_create_ui_session` and `auth_validate_ui_session` calls by any
clients. The clock does not run backwards, and client addresses fit their array. -/
namespace LocalDrop
open Lib

inductive SessionCall where
  | create (clientIp code : CString) (now : Time) (random : RandomBytes 32)
  | validate (clientIp token : CString) (now : Time)

namespace SessionCall

def clientIp : SessionCall → CString
  | create clientIp _ _ _ => clientIp
  | validate clientIp _ _ => clientIp

def now : SessionCall → Time
  | create _ _ now _ => now
  | validate _ _ now => now

end SessionCall

structure SessionGrant where
  clientIp : CString
  code : CString
  token : CString
  expiresAt : Time
deriving DecidableEq

/-- The tables, the time of the last call, and the grants so far in their order. -/
structure SessionHistory where
  auth : Auth
  clock : Time
  grants : List SessionGrant

def sessionCall (history : SessionHistory) : SessionCall → SessionHistory
  | .create clientIp code now random =>
      match authCreateUiSession history.auth clientIp code now random with
      | (auth, none) => ⟨auth, now, history.grants⟩
      | (auth, some token) =>
          ⟨auth, now, history.grants ++ [⟨clientIp, code, token, now + uiSessionTtlSeconds⟩]⟩
  | .validate clientIp token now =>
      ⟨(authValidateUiSession history.auth clientIp token now).1, now, history.grants⟩

def sessionStep (history : SessionHistory) (call : SessionCall) : Option SessionHistory :=
  if call.clientIp.length < 46 ∧ history.clock ≤ call.now then some (sessionCall history call)
  else none

structure SessionHistory.Initial (history : SessionHistory) : Prop where
  init : ∃ adminRandom pairingRandom now,
    authInit adminRandom pairingRandom now = some history.auth
  grants : history.grants = []

inductive SessionChange (history after : SessionHistory) : SessionCall → Prop where
  | created (clientIp code : CString) (now : Time) (random : RandomBytes 32) (token : CString)
      (fits : clientIp.length < 46) (later : history.clock ≤ now)
      (taken : authCreateUiSession history.auth clientIp code now random =
        (after.auth, some token))
      (clock : after.clock = now)
      (grants : after.grants =
        history.grants ++ [⟨clientIp, code, token, now + uiSessionTtlSeconds⟩]) :
      SessionChange history after (.create clientIp code now random)
  | refused (clientIp code : CString) (now : Time) (random : RandomBytes 32)
      (later : history.clock ≤ now)
      (refused : (authCreateUiSession history.auth clientIp code now random).2 = none)
      (same : after.auth = history.auth) (clock : after.clock = now)
      (grants : after.grants = history.grants) :
      SessionChange history after (.create clientIp code now random)
  | validated (clientIp token : CString) (now : Time) (later : history.clock ≤ now)
      (auth : after.auth = (authValidateUiSession history.auth clientIp token now).1)
      (clock : after.clock = now) (grants : after.grants = history.grants) :
      SessionChange history after (.validate clientIp token now)

theorem sessionStep_change {history after : SessionHistory} {call : SessionCall}
    (h : sessionStep history call = some after) : SessionChange history after call := by
  unfold sessionStep at h
  split at h
  · rename_i hlegal
    rw [Option.some.injEq] at h
    subst h
    cases call with
    | validate clientIp token now => exact .validated _ _ _ hlegal.2 rfl rfl rfl
    | create clientIp code now random =>
        simp only [sessionCall]
        split
        · rename_i auth hnone
          exact .refused _ _ _ _ hlegal.2 (by rw [hnone]) (authCreateUiSession_none hnone) rfl rfl
        · rename_i auth token hsome
          exact .created _ _ _ _ token hlegal.1 hlegal.2 hsome rfl rfl
  · contradiction

def SessionGrant.Kept (grant : SessionGrant) (session : UiSession) : Prop :=
  session.active = true ∧ session.clientIp.str = grant.clientIp ∧
    session.token.str = grant.token ∧ session.expiresAt = grant.expiresAt

structure SessionHistory.Faithful (code : CString) (history : SessionHistory) : Prop where
  adminCode : history.auth.adminCode.str = code
  codes : ∀ grant ∈ history.grants, grant.code = code ∧ grant.token ≠ CString.empty
  granted : ∀ session ∈ history.auth.uiSessions.slots, session.active = true →
    ∃ grant ∈ history.grants, grant.Kept session
  kept : ∀ before grant later, history.grants = before ++ grant :: later →
    (∀ other ∈ later, other.clientIp ≠ grant.clientIp) → history.clock < grant.expiresAt →
    ∃ session ∈ history.auth.uiSessions.slots, grant.Kept session

theorem SessionHistory.Initial.not_active {history : SessionHistory} (h : history.Initial)
    {session : UiSession} (hmem : session ∈ history.auth.uiSessions.slots) :
    session.active = false := by
  obtain ⟨adminRandom, pairingRandom, now, hinit⟩ := h.init
  rw [(authInit_tables hinit).1] at hmem
  rw [List.eq_of_mem_replicate hmem]
  rfl

theorem SessionHistory.Initial.faithful {history : SessionHistory} (h : history.Initial) :
    history.Faithful history.auth.adminCode.str := by
  refine ⟨rfl, by simp [h.grants], ?_, by simp [h.grants]⟩
  intro session hmem hactive
  rw [h.not_active hmem] at hactive
  contradiction

theorem newUiSession_kept {clientIp code token : CString} {now : Time} {random : RandomBytes 32}
    (hfits : clientIp.length < 46) (htoken : cryptoRandomToken random = some token) :
    SessionGrant.Kept ⟨clientIp, code, token, now + uiSessionTtlSeconds⟩
      (newUiSession clientIp token now) :=
  ⟨rfl, copyString_str_of_lt clientIp hfits, newUiSession_token htoken, rfl⟩

theorem faithful_step {code : CString} (history : SessionHistory) (call : SessionCall)
    (after : SessionHistory) (h : history.Faithful code)
    (hstep : sessionStep history call = some after) : after.Faithful code := by
  cases sessionStep_change hstep with
  | refused clientIp provided now random later refused same clock grants =>
      refine ⟨same ▸ h.adminCode, grants ▸ h.codes, by rw [same, grants]; exact h.granted, ?_⟩
      rw [same, grants, clock]
      exact fun before grant rest heq hlast hlive =>
        h.kept before grant rest heq hlast (lt_of_le_of_lt later hlive)
  | validated clientIp token now later auth clock grants =>
      refine ⟨?_, grants ▸ h.codes, ?_, ?_⟩
      · rw [auth, (authValidateUiSession_frame _ _ _ _).1]
        exact h.adminCode
      · intro session hmem hactive
        rw [auth] at hmem
        rw [grants]
        exact h.granted session (mem_of_mem_validate hmem hactive) hactive
      · intro before grant rest heq hlast hlive
        rw [grants] at heq
        rw [clock] at hlive
        obtain ⟨session, hmem, hkept⟩ :=
          h.kept before grant rest heq hlast (lt_of_le_of_lt later hlive)
        rw [auth]
        refine ⟨session, mem_validate_of_live hmem ?_, hkept⟩
        rw [UiSession.live_eq_true, hkept.2.2.2]
        exact ⟨hkept.1, hlive⟩
  | created clientIp provided now random token fits later taken clock grants =>
      obtain ⟨hcode, htoken, sessions, hauth, -⟩ := authCreateUiSession_some taken
      have hnew := @newUiSession_kept clientIp provided token now random fits htoken
      refine ⟨by rw [hauth]; exact h.adminCode, ?_, ?_, ?_⟩
      · intro grant hgrant
        rw [grants, List.mem_append, List.mem_singleton] at hgrant
        rcases hgrant with hgrant | rfl
        · exact h.codes grant hgrant
        · exact ⟨hcode.symm.trans h.adminCode, cryptoRandomToken_ne_empty htoken⟩
      · intro session hmem hactive
        rw [grants]
        rcases mem_of_mem_create taken hmem with hold | rfl
        · obtain ⟨grant, hgrant, hkept⟩ := h.granted session hold hactive
          exact ⟨grant, List.mem_append_left _ hgrant, hkept⟩
        · exact ⟨_, by simp, hnew⟩
      · intro before grant rest heq hlast hlive
        rw [grants] at heq
        rw [clock] at hlive
        -- The last grant is the new one, or an older one of another client.
        rcases List.eq_nil_or_concat rest with rfl | ⟨rest, last, rfl⟩
        · obtain ⟨-, hgrant⟩ := List.append_inj' heq rfl
          cases hgrant
          exact ⟨_, mem_create_new taken, hnew⟩
        · rw [List.concat_eq_append, ← List.cons_append, ← List.append_assoc] at heq
          obtain ⟨hgrants, hgrant⟩ := List.append_inj' heq rfl
          cases hgrant
          obtain ⟨session, hmem, hkept⟩ := h.kept before grant rest hgrants
            (fun other hother => hlast other (by simp [hother])) (lt_of_le_of_lt later hlive)
          refine ⟨session, mem_create_of_live taken hmem ?_ ?_, hkept⟩
          · rw [UiSession.live_eq_true, hkept.2.2.2]
            exact ⟨hkept.1, hlive⟩
          · rw [hkept.2.1]
            exact (hlast ⟨clientIp, provided, token, now + uiSessionTtlSeconds⟩ (by simp)).symm

/-- In every history a token is accepted only if it was granted to that address for the
right code and has not expired; until it expires it is accepted, unless the address was
granted another one; and a create that fails changes no answer. -/
theorem uiSessions_honoured {start history : SessionHistory} {calls : List SessionCall}
    (hstart : start.Initial) (hrun : run sessionStep start calls = some history) :
    (∀ clientIp token now,
      (authValidateUiSession history.auth clientIp token now).2 = true →
      ∃ grant ∈ history.grants, grant.clientIp = clientIp ∧ grant.token = token ∧
        grant.code = start.auth.adminCode.str ∧ now < grant.expiresAt) ∧
    (∀ before grant later, history.grants = before ++ grant :: later →
      (∀ other ∈ later, other.clientIp ≠ grant.clientIp) →
      ∀ now, history.clock ≤ now → now < grant.expiresAt →
        (authValidateUiSession history.auth grant.clientIp grant.token now).2 = true) ∧
    ∀ clientIp code now random,
      (authCreateUiSession history.auth clientIp code now random).2 = none →
      ∀ other token later,
        (authValidateUiSession (authCreateUiSession history.auth clientIp code now random).1
          other token later).2 = (authValidateUiSession history.auth other token later).2 := by
  have h := run_invariant faithful_step hstart.faithful hrun
  refine ⟨?_, ?_, ?_⟩
  · intro clientIp token now hvalid
    obtain ⟨-, session, hmem, hlive, hgrants⟩ := authValidateUiSession_iff.mp hvalid
    obtain ⟨hactive, rfl, rfl⟩ := UiSession.grants_eq_true.mp hgrants
    obtain ⟨grant, hgrant, -, hip, htoken, hexpires⟩ := h.granted session hmem hactive
    refine ⟨grant, hgrant, hip.symm, htoken.symm, (h.codes grant hgrant).1, ?_⟩
    rw [← hexpires]
    exact (UiSession.live_eq_true.mp hlive).2
  · intro before grant later heq hlast now hclock hlive
    have hgrant : grant ∈ history.grants := by simp [heq]
    obtain ⟨session, hmem, hactive, hip, htoken, hexpires⟩ :=
      h.kept before grant later heq hlast (lt_of_le_of_lt hclock hlive)
    refine authValidateUiSession_iff.mpr ⟨(h.codes grant hgrant).2, session, hmem, ?_, ?_⟩
    · rw [UiSession.live_eq_true, hexpires]
      exact ⟨hactive, hlive⟩
    · exact UiSession.grants_eq_true.mpr ⟨hactive, hip, htoken⟩
  · intro clientIp code now random hnone other token later
    have hsame : (authCreateUiSession history.auth clientIp code now random).1 = history.auth :=
      authCreateUiSession_none (Prod.ext rfl hnone)
    rw [hsame]

/-- Two clients unlock, both for a while at once. -/
def sampleSessionCalls : List SessionCall :=
  [.create (.lit "10.0.0.9") (.lit "111111") 0 (some (.replicate 32 7)),
    .create (.lit "10.0.0.8") (.lit "111111") 10 (some (.replicate 32 8)),
    .validate (.lit "10.0.0.9") (.lit "00") 20]

def sampleSessions : SessionHistory := ⟨sampleAuth, 0, []⟩

theorem sampleSessions_initial : sampleSessions.Initial :=
  ⟨⟨some (.replicate 6 1), some (.replicate 6 2), 0, rfl⟩, rfl⟩

theorem sampleSessions_honoured : ∃ history,
    run sessionStep sampleSessions sampleSessionCalls = some history ∧
      (authValidateUiSession history.auth (.lit "10.0.0.9") (sampleToken 7) 43199).2 = true := by
  obtain ⟨history, hrun⟩ := Option.isSome_iff_exists.mp
    (show (run sessionStep sampleSessions sampleSessionCalls).isSome = true by decide +kernel)
  have hgrants : (run sessionStep sampleSessions sampleSessionCalls).all (fun history =>
      decide (history.clock = 20 ∧ history.grants =
        [⟨.lit "10.0.0.9", .lit "111111", sampleToken 7, 43200⟩,
          ⟨.lit "10.0.0.8", .lit "111111", sampleToken 8, 43210⟩])) = true := by
    decide +kernel
  rw [hrun] at hgrants
  simp only [Option.all_some, decide_eq_true_eq] at hgrants
  obtain ⟨hclock, hgrants⟩ := hgrants
  refine ⟨history, hrun, ?_⟩
  exact (uiSessions_honoured sampleSessions_initial hrun).2.1 [] _ _ hgrants (by decide +kernel)
    43199 (by rw [hclock]; decide) (by decide)

/-- At no moment two tokens of one client are accepted. -/
def SessionHistory.OneSession (history : SessionHistory) : Prop :=
  ∀ clientIp token other,
    (authValidateUiSession history.auth clientIp token history.clock).2 = true →
    (authValidateUiSession history.auth clientIp other history.clock).2 = true → token = other

/-- The slots that the scan of a create does not reach. -/
def behindUsable (slots : List UiSession) (clientIp : CString) (now : Time) : List UiSession :=
  (slots.dropWhile fun session => !session.usable clientIp now).tail

/-- No live session of the client lies behind the slot that its new one takes (or it has
the same token again). -/
def ReplacesOwn (history : SessionHistory) : SessionCall → Prop
  | .create clientIp code now random => code = history.auth.adminCode.str →
      ∀ session ∈ behindUsable history.auth.uiSessions.slots clientIp now,
        session.live now = true → session.clientIp.str = clientIp →
        ∀ token, cryptoRandomToken random = some token → session.token.str = token
  | .validate _ _ _ => True

theorem behindUsable_split {pre post : List UiSession} {old : UiSession} {clientIp : CString}
    {now : Time} (hpre : ∀ session ∈ pre, session.usable clientIp now = false)
    (hold : old.usable clientIp now = true) :
    behindUsable (pre ++ old :: post) clientIp now = post := by
  unfold behindUsable
  rw [List.dropWhile_append_of_pos (by simpa using hpre)]
  simp [hold]

theorem mem_of_mem_behindUsable {slots : List UiSession} {clientIp : CString} {now : Time}
    {session : UiSession} (h : session ∈ behindUsable slots clientIp now) : session ∈ slots :=
  (List.dropWhile_sublist _).subset (List.mem_of_mem_tail h)

theorem behindUsable_of_full {slots : List UiSession} {clientIp : CString} {now : Time}
    (hfull : ∀ session ∈ slots, session.usable clientIp now = false) :
    behindUsable slots clientIp now = [] := by
  unfold behindUsable
  rw [List.dropWhile_eq_nil_iff.mpr (by simpa using hfull)]
  rfl

section again
variable {code : CString} {history after : SessionHistory}

theorem SessionHistory.Faithful.token_ne_empty (h : history.Faithful code) {session : UiSession}
    (hmem : session ∈ history.auth.uiSessions.slots) (hactive : session.active = true) :
    session.token.str ≠ CString.empty := by
  obtain ⟨grant, hgrant, -, -, hkept, -⟩ := h.granted session hmem hactive
  rw [hkept]
  exact (h.codes grant hgrant).2

theorem SessionHistory.Faithful.accepts_iff (h : history.Faithful code) {clientIp token : CString}
    {now : Time} :
    (authValidateUiSession history.auth clientIp token now).2 = true ↔
      ∃ session ∈ history.auth.uiSessions.slots,
        session.live now = true ∧ session.grants clientIp token = true := by
  rw [authValidateUiSession_iff, and_iff_right_iff_imp]
  rintro ⟨session, hmem, -, hgrants⟩
  obtain ⟨hactive, -, htoken⟩ := UiSession.grants_eq_true.mp hgrants
  rw [← htoken]
  exact h.token_ne_empty hmem hactive

theorem replacesOwn_of_refused {clientIp provided : CString} {now : Time}
    {random : RandomBytes 32}
    (h : (authCreateUiSession history.auth clientIp provided now random).2 = none) :
    ReplacesOwn history (.create clientIp provided now random) := by
  intro hcode session hsession _ _ token htoken
  unfold authCreateUiSession at h
  rw [if_neg (by simp [hcode]), htoken] at h
  simp only at h
  split at h
  · rename_i hfull
    rw [behindUsable_of_full (Table.updateFirst_eq_none.mp hfull)] at hsession
    simp at hsession
  · simp at h

theorem accepted_after_create {auth auth' : Auth} {clientIp provided token : CString}
    {now later : Time} {random : RandomBytes 32}
    (h : authCreateUiSession auth clientIp provided now random = (auth', some token))
    (hlater : now ≤ later) {session : UiSession} (hmem : session ∈ auth'.uiSessions.slots)
    (hlive : session.live later = true) (hip : session.clientIp.str = clientIp) :
    session.token.str = token ∨
      session ∈ behindUsable auth.uiSessions.slots clientIp now ∧ session.live now = true := by
  obtain ⟨-, htoken, sessions, rfl, pre, old, post, hslots, hpre, hold, hslots'⟩ :=
    authCreateUiSession_some h
  rw [hslots, behindUsable_split hpre hold]
  rw [hslots', List.mem_append, List.mem_cons] at hmem
  rcases hmem with hmem | rfl | hmem
  · exact absurd hip (UiSession.usable_eq_false.mp (hpre session hmem)).2
  · exact .inl (newUiSession_token htoken)
  · exact .inr ⟨hmem, UiSession.live_earlier hlater hlive⟩

theorem mem_create_of_behind {auth auth' : Auth} {clientIp provided token : CString}
    {now : Time} {random : RandomBytes 32}
    (h : authCreateUiSession auth clientIp provided now random = (auth', some token))
    {session : UiSession} (hmem : session ∈ behindUsable auth.uiSessions.slots clientIp now) :
    session ∈ auth'.uiSessions.slots := by
  obtain ⟨-, -, sessions, rfl, pre, old, post, hslots, hpre, hold, hslots'⟩ :=
    authCreateUiSession_some h
  rw [hslots, behindUsable_split hpre hold] at hmem
  rw [hslots']
  simp [hmem]

theorem oneSession_step_iff {call : SessionCall} (h : history.Faithful code)
    (hone : history.OneSession) (hstep : sessionStep history call = some after) :
    after.OneSession ↔ ReplacesOwn history call := by
  have h' : after.Faithful code := faithful_step history call after h hstep
  unfold SessionHistory.OneSession at hone ⊢
  simp only [h.accepts_iff] at hone
  simp only [h'.accepts_iff]
  -- Two old sessions that are still live were so at the call before.
  have hearlier : history.clock ≤ after.clock →
      ∀ clientIp token other,
      (∃ session ∈ history.auth.uiSessions.slots,
        session.live after.clock = true ∧ session.grants clientIp token = true) →
      (∃ session ∈ history.auth.uiSessions.slots,
        session.live after.clock = true ∧ session.grants clientIp other = true) →
      token = other := by
    rintro hclock clientIp token other ⟨s, hs, hlive, hgrants⟩ ⟨s', hs', hlive', hgrants'⟩
    exact hone clientIp token other ⟨s, hs, UiSession.live_earlier hclock hlive, hgrants⟩
      ⟨s', hs', UiSession.live_earlier hclock hlive', hgrants'⟩
  cases sessionStep_change hstep with
  | refused clientIp provided now random later refused same clock grants =>
      rw [same]
      exact iff_of_true (hearlier (clock ▸ later)) (replacesOwn_of_refused refused)
  | validated clientIp token now later auth clock grants =>
      refine iff_of_true ?_ trivial
      rintro client token other ⟨s, hs, hlive, hgrants⟩ ⟨s', hs', hlive', hgrants'⟩
      rw [auth] at hs hs'
      exact hearlier (clock ▸ later) client token other
        ⟨s, mem_of_mem_validate hs (UiSession.live_eq_true.mp hlive).1, hlive, hgrants⟩
        ⟨s', mem_of_mem_validate hs' (UiSession.live_eq_true.mp hlive').1, hlive', hgrants'⟩
  | created clientIp provided now random token fits later taken clock grants =>
      obtain ⟨hcode, htoken, -⟩ := authCreateUiSession_some taken
      rw [clock] at hearlier ⊢
      constructor
      · intro hall _ session hsession hlive hip token' htoken'
        cases htoken.symm.trans htoken'
        refine hall clientIp _ _ ⟨session, mem_create_of_behind taken hsession, hlive, ?_⟩
          ⟨_, mem_create_new taken, newUiSession_live clientIp token now, ?_⟩
        · exact UiSession.grants_eq_true.mpr ⟨(UiSession.live_eq_true.mp hlive).1, hip, rfl⟩
        · exact UiSession.grants_eq_true.mpr
            ⟨rfl, copyString_str_of_lt clientIp fits, newUiSession_token htoken⟩
      · rintro hown client t t' ⟨s, hs, hlive, hgrants⟩ ⟨s', hs', hlive', hgrants'⟩
        have hgranted := UiSession.grants_eq_true.mp hgrants
        have hgranted' := UiSession.grants_eq_true.mp hgrants'
        by_cases hclient : client = clientIp
        · have hnew : ∀ session ∈ after.auth.uiSessions.slots, session.live now = true →
              session.clientIp.str = client → session.token.str = token := by
            intro session hmem hlive hip
            rw [hclient] at hip
            rcases accepted_after_create taken (le_refl now) hmem hlive hip with heq | ⟨hbehind, -⟩
            · exact heq
            · exact hown hcode.symm session hbehind hlive hip token htoken
          rw [← hgranted.2.2, ← hgranted'.2.2, hnew s hs hlive hgranted.2.1,
            hnew s' hs' hlive' hgranted'.2.1]
        · have hold : ∀ session ∈ after.auth.uiSessions.slots, session.clientIp.str = client →
              session ∈ history.auth.uiSessions.slots := by
            intro session hmem hip
            rcases mem_of_mem_create taken hmem with hold | rfl
            · exact hold
            · exact absurd (hip.symm.trans (copyString_str_of_lt clientIp fits)) hclient
          exact hearlier later client t t' ⟨s, hold s hs hgranted.2.1, hlive, hgrants⟩
            ⟨s', hold s' hs' hgranted'.2.1, hlive', hgrants'⟩

end again

/-- In every history, a new session leaves its client no other accepted token exactly
when no live one lies behind the slot it takes; and no client ever has two accepted
tokens exactly when this is so at every create. -/
theorem uiSession_replaced_iff {start history : SessionHistory} {calls : List SessionCall}
    (hstart : start.Initial) (hrun : run sessionStep start calls = some history) :
    (∀ clientIp provided now random token,
      (authCreateUiSession history.auth clientIp provided now random).2 = some token →
      ((∀ other later, other ≠ token → now ≤ later →
        (authValidateUiSession (authCreateUiSession history.auth clientIp provided now random).1
          clientIp other later).2 = false) ↔
        ReplacesOwn history (.create clientIp provided now random))) ∧
    (Always sessionStep SessionHistory.OneSession start calls ↔
      Meets sessionStep ReplacesOwn start calls) := by
  have h := run_invariant faithful_step hstart.faithful hrun
  refine ⟨?_, ?_⟩
  · intro clientIp provided now random token hcreated
    have taken : authCreateUiSession history.auth clientIp provided now random =
        ((authCreateUiSession history.auth clientIp provided now random).1, some token) :=
      Prod.ext rfl hcreated
    obtain ⟨hcode, htoken, -⟩ := authCreateUiSession_some taken
    constructor
    · intro hnone _ session hsession hlive hip token' htoken'
      cases htoken.symm.trans htoken'
      by_contra hne
      have hactive := (UiSession.live_eq_true.mp hlive).1
      have hvalid : (authValidateUiSession
          (authCreateUiSession history.auth clientIp provided now random).1 clientIp
          session.token.str now).2 = true :=
        authValidateUiSession_iff.mpr
          ⟨h.token_ne_empty (mem_of_mem_behindUsable hsession) hactive, session,
            mem_create_of_behind taken hsession, hlive,
            UiSession.grants_eq_true.mpr ⟨hactive, hip, rfl⟩⟩
      rw [hnone session.token.str now hne (le_refl now)] at hvalid
      contradiction
    · intro hown other later hne hlater
      rw [← Bool.not_eq_true, authValidateUiSession_iff]
      rintro ⟨-, session, hmem, hlive, hgrants⟩
      obtain ⟨-, hip, hother⟩ := UiSession.grants_eq_true.mp hgrants
      refine hne (hother.symm.trans ?_)
      rcases accepted_after_create taken hlater hmem hlive hip with heq | ⟨hbehind, hbefore⟩
      · exact heq
      · exact hown hcode.symm session hbehind hbefore hip token htoken
  · refine always_iff_meets_of_invariant faithful_step
      (fun _ _ _ h hone hstep => oneSession_step_iff h hone hstep) hstart.faithful ?_
    intro clientIp token other hvalid
    obtain ⟨-, session, hmem, hlive, -⟩ := authValidateUiSession_iff.mp hvalid
    rw [UiSession.live_eq_true, hstart.not_active hmem] at hlive
    simp at hlive

instance (history : SessionHistory) (call : SessionCall) : Decidable (ReplacesOwn history call) :=
  match call with
  | .create clientIp code now random =>
      inferInstanceAs (Decidable (code = _ → ∀ session ∈ behindUsable _ clientIp now,
        _ → _ → ∀ token ∈ cryptoRandomToken random, _))
  | .validate _ _ _ => .isTrue trivial

/-- A client unlocks again, and its earlier token is worth nothing from then on. -/
theorem sampleSessions_replaced : ∃ history,
    run sessionStep sampleSessions sampleSessionCalls = some history ∧
      (∀ other later, other ≠ sampleToken 9 → 30 ≤ later →
        (authValidateUiSession (authCreateUiSession history.auth (.lit "10.0.0.9")
          (.lit "111111") 30 (some (.replicate 32 9))).1 (.lit "10.0.0.9") other later).2 = false) ∧
      Always sessionStep SessionHistory.OneSession sampleSessions sampleSessionCalls := by
  obtain ⟨history, hrun⟩ := Option.isSome_iff_exists.mp
    (show (run sessionStep sampleSessions sampleSessionCalls).isSome = true by decide +kernel)
  have hfacts : (run sessionStep sampleSessions sampleSessionCalls).all (fun history =>
      (authCreateUiSession history.auth (.lit "10.0.0.9") (.lit "111111") 30
        (some (.replicate 32 9))).2 = some (sampleToken 9) ∧
      ReplacesOwn history (.create (.lit "10.0.0.9") (.lit "111111") 30
        (some (.replicate 32 9)))) = true := by decide +kernel
  rw [hrun] at hfacts
  simp only [Option.all_some, decide_eq_true_eq] at hfacts
  obtain ⟨hreplaced, hone⟩ := uiSession_replaced_iff sampleSessions_initial hrun
  exact ⟨history, hrun, (hreplaced _ _ _ _ _ hfacts.1).mpr hfacts.2,
    hone.mpr (by decide +kernel)⟩

/-- The first client's session expires; then the second one unlocks again, and its new
session takes the slot in front of the old one. -/
theorem expiredSlot_taken_first : ∃ history,
    run sessionStep sampleSessions sampleSessionCalls = some history ∧
      (authCreateUiSession history.auth (.lit "10.0.0.8") (.lit "111111") 43205
        (some (.replicate 32 9))).2 = some (sampleToken 9) ∧
      sampleToken 8 ≠ sampleToken 9 ∧
      (authValidateUiSession (authCreateUiSession history.auth (.lit "10.0.0.8")
        (.lit "111111") 43205 (some (.replicate 32 9))).1 (.lit "10.0.0.8") (sampleToken 8)
        43205).2 = true := by
  obtain ⟨history, hrun⟩ := Option.isSome_iff_exists.mp
    (show (run sessionStep sampleSessions sampleSessionCalls).isSome = true by decide +kernel)
  have hboth : (run sessionStep sampleSessions sampleSessionCalls).all (fun history =>
      let created := authCreateUiSession history.auth (.lit "10.0.0.8") (.lit "111111") 43205
        (some (.replicate 32 9))
      created.2 = some (sampleToken 9) ∧ sampleToken 8 ≠ sampleToken 9 ∧
        (authValidateUiSession created.1 (.lit "10.0.0.8") (sampleToken 8) 43205).2 = true) =
      true := by
    decide +kernel
  rw [hrun] at hboth
  simp only [Option.all_some, decide_eq_true_eq] at hboth
  exact ⟨history, hrun, hboth⟩

end LocalDrop
