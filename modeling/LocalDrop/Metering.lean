import LocalDrop.Auth.RateLimit
import LocalDrop.Credentials

/-! What the calls of `answer_to_connection` ask the rate limiter. The two handlers that
compare a secret charge its limit when the first body chunk comes and compare in the
final call; the others ask for scopes of their own. -/
namespace LocalDrop
open Lib

/-- A charge or a comparison: the request, its client, the scope and the time. -/
structure Mark where
  id : Nat
  clientIp : CString
  scope : CString
  time : Time
deriving DecidableEq

def Entry.charge : Entry → Option Mark
  | .charged id clientIp scope now => some ⟨id, clientIp, scope, now⟩
  | _ => none

def Entry.comparison : Entry → Option Mark
  | .compared id clientIp scope now => some ⟨id, clientIp, scope, now⟩
  | _ => none

def charges (log : List Entry) : List Mark := log.filterMap Entry.charge

def comparisons (log : List Entry) : List Mark := log.filterMap Entry.comparison

def OtherScope (scope : CString) : Prop :=
  ∀ route limit, Route.secretLimit route ≠ some (scope, limit)

/-- At most one question, which fits a record and is not about a secret. -/
inductive RateUse (auth : Auth) (clientIp : CString) (now : Time) (auth' : Auth) : Prop where
  | none (same : auth'.rateLimits = auth.rateLimits)
  | asked (scope : CString) (limit : Nat) (fits : scope.length < 32) (positive : 0 < limit)
      (other : OtherScope scope)
      (same : auth'.rateLimits =
        (authRateLimitAllow auth clientIp scope limit 60 now).1.rateLimits)

theorem secretLimit_eq_some {route : Route} {scope : CString} {limit : Nat}
    (h : route.secretLimit = some (scope, limit)) :
    route = .unlock ∧ scope = .lit "session_unlock" ∧ limit = 8 ∨
      route = .exchange ∧ scope = .lit "pair_exchange" ∧ limit = 12 := by
  unfold Route.secretLimit at h
  split at h
  · simp only [Option.some.injEq, Prod.mk.injEq] at h
    exact .inl ⟨rfl, h.1.symm, h.2.symm⟩
  · simp only [Option.some.injEq, Prod.mk.injEq] at h
    exact .inr ⟨rfl, h.1.symm, h.2.symm⟩
  · contradiction

theorem secretLimit_unique {route route' : Route} {scope : CString} {limit limit' : Nat}
    (h : route.secretLimit = some (scope, limit)) (h' : route'.secretLimit = some (scope, limit')) :
    limit = limit' := by
  rcases secretLimit_eq_some h with ⟨-, rfl, rfl⟩ | ⟨-, rfl, rfl⟩ <;>
    rcases secretLimit_eq_some h' with ⟨-, hscope, rfl⟩ | ⟨-, hscope, rfl⟩
  · rfl
  · exact absurd hscope (by decide)
  · exact absurd hscope (by decide)
  · rfl

theorem otherScope_of_ne {scope : CString} (hunlock : scope ≠ .lit "session_unlock")
    (hexchange : scope ≠ .lit "pair_exchange") : OtherScope scope := by
  intro route limit h
  rcases secretLimit_eq_some h with ⟨-, rfl, -⟩ | ⟨-, rfl, -⟩
  · exact absurd rfl hunlock
  · exact absurd rfl hexchange

theorem RateUse.of_same {auth auth' auth'' : Auth} {clientIp : CString} {now : Time}
    (h : RateUse auth clientIp now auth') (hsame : auth''.rateLimits = auth'.rateLimits) :
    RateUse auth clientIp now auth'' := by
  cases h with
  | none same => exact .none (hsame.trans same)
  | asked scope limit fits positive other same =>
      exact .asked scope limit fits positive other (hsame.trans same)

theorem ensurePairingCodeLocked_rateLimits {auth current : Auth} {now : Time}
    {random : RandomBytes 6} (h : ensurePairingCodeLocked auth now random = some current) :
    current.rateLimits = auth.rateLimits := by
  rw [(ensurePairingCodeLocked_eq_some h).2]

theorem authGetPairingCode_rateLimits {auth : Auth} {now : Time} (random : RandomBytes 6) :
    (authGetPairingCode auth now random).1.rateLimits = auth.rateLimits := by
  unfold authGetPairingCode
  split
  · rfl
  · rename_i current hcurrent
    exact ensurePairingCodeLocked_rateLimits hcurrent

theorem authIssuePairToken_rateLimits {auth auth' : Auth} {peerIp peerName : CString}
    {peerPort : UInt16} {provided : CString} {now : Time} {codeRandom : RandomBytes 6}
    {random : RandomBytes 32} {issued : Option (CString × Time)}
    (h : authIssuePairToken auth peerIp peerName peerPort provided now codeRandom random =
      (auth', issued)) : auth'.rateLimits = auth.rateLimits := by
  unfold authIssuePairToken at h
  split at h
  · cases h
    rfl
  · rename_i current hcurrent
    have hsame := ensurePairingCodeLocked_rateLimits hcurrent
    dsimp only at h
    repeat' split at h
    all_goals
      cases h
      exact hsame

theorem validateTargetPeer_rateLimits (auth : Auth) (registry : PeerRegistry)
    (info : ConnectionInfo) (now : Time) :
    (validateTargetPeer auth registry info now).1.rateLimits = auth.rateLimits := by
  have hcheck := validateTargetPeer_check auth registry info now
  generalize validateTargetPeer auth registry info now = result at hcheck ⊢
  cases hcheck with
  | refused auth' status message bad looked =>
      rcases looked with rfl | ⟨port, rfl⟩
      · rfl
      · rfl
  | accepted auth' port peer token parsed found usable known =>
      exact congrArg (fun found => found.1.rateLimits) known.symm

section gates
variable {auth : Auth} {info : ConnectionInfo} {headers : Headers} {scope : CString}
  {limit : Nat} {now : Time} {unwritten : CString}

theorem rateLimitRequest_rateLimits :
    (rateLimitRequest auth info scope limit now unwritten).1.rateLimits =
      (authRateLimitAllow auth info.clientIp.str scope limit 60 now).1.rateLimits := by
  unfold rateLimitRequest
  split <;> rename_i heq <;> rw [heq]

theorem authorizeUiRequest_rateUse (fits : scope.length < 32) (positive : 0 < limit)
    (other : OtherScope scope) :
    RateUse auth info.clientIp.str now
      (authorizeUiRequest auth info headers scope limit now unwritten).1 := by
  have hlimit := @rateLimitRequest_rateLimits auth { info with authChecked := true } scope limit
    now unwritten
  unfold authorizeUiRequest
  split
  · exact .none rfl
  · split <;> rename_i heq <;> rw [heq] at hlimit
    · exact .asked scope limit fits positive other hlimit
    · rename_i auth' info'
      have htoken := @validUiToken_rateLimits auth' headers now info'.clientIp.str
      split <;> rename_i heq' <;> rw [heq'] at htoken <;>
        exact .asked scope limit fits positive other (htoken.trans hlimit)

theorem authorizeUploadRequest_rateUse :
    RateUse auth info.clientIp.str now
      (authorizeUploadRequest auth info headers now unwritten).1 := by
  have hlimit := @rateLimitRequest_rateLimits auth { info with authChecked := true }
    (.lit "upload") 20 now unwritten
  have hother : OtherScope (.lit "upload") := otherScope_of_ne (by decide) (by decide)
  unfold authorizeUploadRequest
  split
  · exact .none rfl
  · split <;> rename_i heq <;> rw [heq] at hlimit
    · exact .asked _ 20 (by decide) (by decide) hother hlimit
    · rename_i auth' info'
      have htoken := @validUiToken_rateLimits auth' headers now info'.clientIp.str
      split <;> rename_i heq' <;> rw [heq'] at htoken
      · exact .asked _ 20 (by decide) (by decide) hother (htoken.trans hlimit)
      · rename_i auth''
        have hpair := @validPairToken_rateLimits auth'' headers now info'.clientIp.str
        split <;> rename_i heq'' <;> rw [heq''] at hpair <;>
          exact .asked _ 20 (by decide) (by decide) hother (hpair.trans (htoken.trans hlimit))

theorem limitChunk_unchecked (h : info.authChecked = false) :
    ((authRateLimitAllow auth info.clientIp.str scope limit 60 now).2 = .allowed ∧
      limitChunk auth info scope limit now unwritten =
        ((authRateLimitAllow auth info.clientIp.str scope limit 60 now).1,
          { info with authChecked := true }, decide (info.responseStatus < 400))) ∨
    (authRateLimitAllow auth info.clientIp.str scope limit 60 now).2 ≠ .allowed ∧
      ∃ info', limitChunk auth info scope limit now unwritten =
        ((authRateLimitAllow auth info.clientIp.str scope limit 60 now).1, info', false) ∧
        info'.authChecked = true ∧ 400 ≤ info'.responseStatus := by
  unfold limitChunk rateLimitRequest
  rw [h]
  cases hcall : authRateLimitAllow auth info.clientIp.str scope limit 60 now with
  | mk auth' verdict =>
      cases verdict with
      | allowed => exact .inl ⟨rfl, by simp⟩
      | refused written =>
          refine .inr ⟨by simp, _, rfl, rfl, ?_⟩
          simp [ConnectionInfo.setError]

end gates

/-- What a call does to the limits and to the two kinds of entries. On the routes of the
secrets the first chunk asks the limiter, later chunks do not, and the final call may
compare. -/
inductive CallMeter (world : World) (id : Nat) (request : Request) (outcome : Outcome) :
    Prop where
  | plain (secret : request.route.secretLimit = none)
      (use : RateUse world.auth request.info.clientIp.str world.clock outcome.1.auth)
      (charged : charges outcome.2.2 = []) (compared : comparisons outcome.2.2 = [])
  | charging (scope : CString) (limit : Nat)
      (secret : request.route.secretLimit = some (scope, limit))
      (unchecked : request.info.authChecked = false)
      (checked : outcome.2.1.info.authChecked = true)
      (phase : outcome.2.1.phase = request.phase)
      (rates : outcome.1.auth.rateLimits = (authRateLimitAllow world.auth
        request.info.clientIp.str scope limit 60 world.clock).1.rateLimits)
      (verdict : (authRateLimitAllow world.auth request.info.clientIp.str scope limit 60
            world.clock).2 = .allowed ∧
          charges outcome.2.2 = [⟨id, request.info.clientIp.str, scope, world.clock⟩] ∨
        (authRateLimitAllow world.auth request.info.clientIp.str scope limit 60
            world.clock).2 ≠ .allowed ∧
          charges outcome.2.2 = [] ∧ 400 ≤ outcome.2.1.info.responseStatus)
      (compared : comparisons outcome.2.2 = [])
  | later (scope : CString) (limit : Nat)
      (secret : request.route.secretLimit = some (scope, limit))
      (before : request.info.authChecked = true)
      (checked : outcome.2.1.info.authChecked = true)
      (phase : outcome.2.1.phase = request.phase)
      (failed : 400 ≤ request.info.responseStatus → 400 ≤ outcome.2.1.info.responseStatus)
      (rates : outcome.1.auth.rateLimits = world.auth.rateLimits)
      (charged : charges outcome.2.2 = []) (compared : comparisons outcome.2.2 = [])
  | final (scope : CString) (limit : Nat)
      (secret : request.route.secretLimit = some (scope, limit))
      (same : outcome.2.1.info = request.info) (phase : outcome.2.1.phase ≠ .receiving)
      (rates : outcome.1.auth.rateLimits = world.auth.rateLimits)
      (charged : charges outcome.2.2 = [])
      (compared : comparisons outcome.2.2 = [] ∨
        comparisons outcome.2.2 = [⟨id, request.info.clientIp.str, scope, world.clock⟩] ∧
          request.info.responseStatus < 400 ∧
          (request.info.adminCode.str ≠ CString.empty ∨ request.info.pairCode.str ≠ CString.empty))

section calls
variable {world : World} {id : Nat} {request : Request} {env : CallEnv}

@[simp] theorem charges_cons_chunk {index : Nat} {route : Route} {clientIp : CString}
    {headers : Headers} {now : Time} {log : List Entry} :
    charges (.chunk id index route clientIp headers now :: log) = charges log := rfl

theorem charges_append (log more : List Entry) :
    charges (log ++ more) = charges log ++ charges more := List.filterMap_append

theorem comparisons_append (log more : List Entry) :
    comparisons (log ++ more) = comparisons log ++ comparisons more := List.filterMap_append

theorem stagedEntries_marks {route : Route} {before after : ConnectionInfo} :
    charges (stagedEntries id route before after) = [] ∧
      comparisons (stagedEntries id route before after) = [] := by
  unfold stagedEntries
  split <;> exact ⟨rfl, rfl⟩

theorem chargedEntries_plain {auth : Auth} {now : Time} (h : request.route.secretLimit = none) :
    chargedEntries auth id request now = [] := by
  simp [chargedEntries, h]

theorem chargedEntries_comparisons {auth : Auth} {now : Time} :
    comparisons (chargedEntries auth id request now) = [] := by
  unfold chargedEntries
  split
  · rfl
  · split <;> rfl

theorem chunkStep_marks (body : Body) :
    charges (chunkStep world id request body env).2.2 =
        charges (chargedEntries world.auth id request world.clock) ∧
      comparisons (chunkStep world id request body env).2.2 = [] := by
  unfold chunkStep
  dsimp only
  split
  · exact ⟨rfl, chargedEntries_comparisons⟩
  · rw [charges_append, comparisons_append, stagedEntries_marks.1, stagedEntries_marks.2,
      List.append_nil, List.append_nil]
    exact ⟨rfl, chargedEntries_comparisons⟩

theorem chunkStep_plain (h : request.route.secretLimit = none) (body : Body) :
    CallMeter world id request (chunkStep world id request body env) := by
  obtain ⟨hcharges, hcomparisons⟩ := @chunkStep_marks world id request env body
  rw [chargedEntries_plain h] at hcharges
  refine .plain h ?_ hcharges hcomparisons
  have hauth : (chunkStep world id request body env).1.auth = (chunkGate world.auth request.info
      request.route request.headers world.clock env.unwritten).1 := by
    unfold chunkStep
    dsimp only
    split <;> rename_i heq <;> rw [heq]
  rw [hauth]
  unfold chunkGate
  rw [h]
  dsimp only
  split
  · exact authorizeUploadRequest_rateUse
  · exact authorizeUiRequest_rateUse (by decide) (by decide)
      (otherScope_of_ne (by decide) (by decide))
  · exact authorizeUiRequest_rateUse (by decide) (by decide)
      (otherScope_of_ne (by decide) (by decide))
  · exact .none rfl

theorem chunkStep_of_gate {auth : Auth} {info : ConnectionInfo} {passes : Bool} (id : Nat)
    (body : Body)
    (h : chunkGate world.auth request.info request.route request.headers world.clock
      env.unwritten = (auth, info, passes)) :
    (chunkStep world id request body env).1.auth = auth ∧
      (chunkStep world id request body env).2.1.phase = request.phase ∧
      (chunkStep world id request body env).2.1.info.authChecked = info.authChecked ∧
      (passes = false → (chunkStep world id request body env).2.1.info = info) := by
  unfold chunkStep
  dsimp only
  rw [h]
  cases passes with
  | false => exact ⟨rfl, rfl, rfl, fun _ => rfl⟩
  | true => exact ⟨rfl, rfl, (postProcess_sameClient ..).authChecked, Bool.noConfusion⟩

theorem chunkStep_charging {scope : CString} {limit : Nat}
    (hsecret : request.route.secretLimit = some (scope, limit))
    (hunchecked : request.info.authChecked = false) (body : Body) :
    CallMeter world id request (chunkStep world id request body env) := by
  obtain ⟨hcharges, hcomparisons⟩ := @chunkStep_marks world id request env body
  have hgate : chunkGate world.auth request.info request.route request.headers world.clock
      env.unwritten = limitChunk world.auth request.info scope limit world.clock env.unwritten := by
    simp only [chunkGate, hsecret]
  simp only [chargedEntries, hsecret, hunchecked, true_and] at hcharges
  rcases @limitChunk_unchecked world.auth _ scope limit world.clock env.unwritten hunchecked with
    ⟨hallowed, hchunk⟩ | ⟨hrefused, info', hchunk, hchecked, hstatus⟩
  · rw [if_pos hallowed] at hcharges
    obtain ⟨hauth, hphase, hinfo, -⟩ := chunkStep_of_gate id body (hgate.trans hchunk)
    exact .charging scope limit hsecret hunchecked hinfo hphase (by rw [hauth])
      (.inl ⟨hallowed, hcharges⟩) hcomparisons
  · rw [if_neg hrefused] at hcharges
    obtain ⟨hauth, hphase, hinfo, hsame⟩ := chunkStep_of_gate id body (hgate.trans hchunk)
    exact .charging scope limit hsecret hunchecked (hinfo.trans hchecked) hphase (by rw [hauth])
      (.inr ⟨hrefused, hcharges, by rw [hsame rfl]; exact hstatus⟩) hcomparisons

theorem chunkStep_later {scope : CString} {limit : Nat}
    (hsecret : request.route.secretLimit = some (scope, limit))
    (hchecked : request.info.authChecked = true) (body : Body) :
    CallMeter world id request (chunkStep world id request body env) := by
  obtain ⟨hcharges, hcomparisons⟩ := @chunkStep_marks world id request env body
  simp only [chargedEntries, hsecret, hchecked, Bool.true_eq_false, false_and, if_false]
    at hcharges
  have hgate : chunkGate world.auth request.info request.route request.headers world.clock
      env.unwritten = (world.auth, request.info, decide (request.info.responseStatus < 400)) := by
    simp only [chunkGate, hsecret, limitChunk, hchecked, if_true]
  obtain ⟨hauth, hphase, hinfo, hsame⟩ := chunkStep_of_gate id body hgate
  refine .later scope limit hsecret hchecked (hinfo.trans hchecked) hphase (fun hfailed => ?_)
    (by rw [hauth]) hcharges hcomparisons
  rw [hsame (decide_eq_false (not_lt.mpr hfailed))]
  exact hfailed

theorem chunkStep_callMeter (body : Body) :
    CallMeter world id request (chunkStep world id request body env) := by
  cases hsecret : request.route.secretLimit with
  | none => exact chunkStep_plain hsecret body
  | some charge =>
      cases hchecked : request.info.authChecked with
      | false => exact chunkStep_charging hsecret hchecked body
      | true => exact chunkStep_later hsecret hchecked body

theorem unlockFinal_callMeter (hroute : request.route = .unlock) :
    CallMeter world id request (unlockFinal world id request env) := by
  have hsecret : request.route.secretLimit = some (.lit "session_unlock", 8) := by rw [hroute]; rfl
  unfold unlockFinal
  dsimp only
  split
  · exact .final _ 8 hsecret rfl Phase.noConfusion rfl rfl (.inl rfl)
  · rename_i hstatus
    split
    · exact .final _ 8 hsecret rfl Phase.noConfusion rfl rfl (.inl rfl)
    · rename_i hcode
      split
      · rename_i auth' hcreated
        refine .final _ 8 hsecret rfl Phase.noConfusion ?_ rfl
          (.inr ⟨rfl, not_le.mp hstatus, .inl hcode⟩)
        rw [authCreateUiSession_none hcreated]
      · rename_i auth' token hcreated
        refine .final _ 8 hsecret rfl Phase.noConfusion ?_ rfl
          (.inr ⟨rfl, not_le.mp hstatus, .inl hcode⟩)
        obtain ⟨-, -, sessions, hauth, -⟩ := authCreateUiSession_some hcreated
        rw [hauth]

theorem exchangeFinal_callMeter (hroute : request.route = .exchange) :
    CallMeter world id request (exchangeFinal world id request env) := by
  have hsecret : request.route.secretLimit = some (.lit "pair_exchange", 12) := by rw [hroute]; rfl
  unfold exchangeFinal
  dsimp only
  split
  · exact .final _ 12 hsecret rfl Phase.noConfusion rfl rfl (.inl rfl)
  · rename_i hstatus
    split
    · exact .final _ 12 hsecret rfl Phase.noConfusion rfl rfl (.inl rfl)
    · rename_i hcode
      rw [not_or] at hcode
      split
      · exact .final _ 12 hsecret rfl Phase.noConfusion rfl rfl (.inl rfl)
      · split
        · rename_i auth' hcreated
          refine .final _ 12 hsecret rfl Phase.noConfusion ?_ rfl
            (.inr ⟨rfl, not_le.mp hstatus, .inr hcode.1⟩)
          exact (authIssuePairToken_rateLimits hcreated)
        · rename_i auth' token expiresAt hcreated
          refine .final _ 12 hsecret rfl Phase.noConfusion ?_ rfl
            (.inr ⟨rfl, not_le.mp hstatus, .inr hcode.1⟩)
          exact (authIssuePairToken_rateLimits hcreated)

theorem CallMeter.of_same {outcome : Outcome} (hsecret : request.route.secretLimit = none)
    (hauth : outcome.1.auth.rateLimits = world.auth.rateLimits)
    (hcharges : charges outcome.2.2 = []) (hcomparisons : comparisons outcome.2.2 = []) :
    CallMeter world id request outcome :=
  .plain hsecret (.none hauth) hcharges hcomparisons

theorem sendFinal_callMeter (hsecret : request.route.secretLimit = none) :
    CallMeter world id request (sendFinal world request env) := by
  have hpeer := validateTargetPeer_rateLimits world.auth world.registry request.info world.clock
  unfold sendFinal
  dsimp only
  split
  · exact .of_same hsecret rfl rfl rfl
  · split
    · exact .of_same hsecret rfl rfl rfl
    · split <;> rename_i heq <;> rw [heq] at hpeer
      · exact .of_same hsecret hpeer rfl rfl
      · split <;> exact .of_same hsecret hpeer rfl rfl

theorem localCodeCall_callMeter (hsecret : request.route.secretLimit = none) :
    CallMeter world id request (localCodeCall world id request env) := by
  have hgate := @authorizeUiRequest_rateUse world.auth request.info request.headers
    (.lit "pair_code") 20 world.clock env.unwritten (by decide) (by decide)
    (otherScope_of_ne (by decide) (by decide))
  unfold localCodeCall
  dsimp only
  split <;> rename_i heq <;> rw [heq] at hgate
  · exact .plain hsecret hgate rfl rfl
  · rename_i auth' info'
    have hcode := @authGetPairingCode_rateLimits auth' world.clock env.codeRandom
    split <;> rename_i heq' <;> rw [heq'] at hcode <;>
      exact .plain hsecret (hgate.of_same hcode) rfl rfl

theorem transfersCall_callMeter (hsecret : request.route.secretLimit = none)
    (status : Option Bytes) :
    CallMeter world id request (transfersCall world id request env status) := by
  have hgate := @authorizeUiRequest_rateUse world.auth request.info request.headers
    (.lit "transfer_status") 30 world.clock env.unwritten (by decide) (by decide)
    (otherScope_of_ne (by decide) (by decide))
  unfold transfersCall
  dsimp only
  split <;> rename_i heq <;> rw [heq] at hgate
  · exact .plain hsecret hgate rfl rfl
  · split <;> exact .plain hsecret hgate rfl rfl

theorem answerToConnection_callMeter (upload : Option Body) :
    CallMeter world id request (answerToConnection world id request upload env) := by
  have hdispatch := answerToConnection_dispatch world id request upload env
  generalize answerToConnection world id request upload env = outcome at hdispatch ⊢
  cases hdispatch with
  | index route | devices route | notFound route =>
      exact .of_same (by rw [route]; rfl) rfl rfl rfl
  | localCode route => exact localCodeCall_callMeter (by rw [route]; rfl)
  | transfers route | transfer route => exact transfersCall_callMeter (by rw [route]; rfl) _
  | chunk body => exact chunkStep_callMeter body
  | unlock route => exact unlockFinal_callMeter route
  | exchange route => exact exchangeFinal_callMeter route
  | upload route =>
      have hsecret : request.route.secretLimit = none := by rw [route]; rfl
      unfold uploadFinal
      dsimp only
      repeat' split
      all_goals exact .of_same hsecret rfl rfl rfl
  | pair route =>
      have hsecret : request.route.secretLimit = none := by rw [route]; rfl
      unfold pairFinal
      dsimp only
      repeat' split
      all_goals exact .of_same hsecret rfl rfl rfl
  | send route => exact sendFinal_callMeter (by rw [route]; rfl)

end calls

end LocalDrop
