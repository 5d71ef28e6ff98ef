import LocalDrop.Auth.RateLimit
import LocalDrop.Calls

/-! The texts of errors. `rate_limit_request` and the handler of `/api/pair` read a local
buffer that the function they call fills on some of its failures only. -/
namespace LocalDrop
open Lib

/-- A refusal comes with a text in the caller's buffer. -/
def RateVerdict.Written (verdict : RateVerdict) : Prop :=
  ∀ message, verdict = .refused message → message ≠ none

def PairOutcome.Written (outcome : PairOutcome) : Prop :=
  ∀ message, outcome = .refused message → message ≠ none

/-- Some slot is unused or has run out, or holds the key. -/
def RateLimitRoom (length now : Time) (table : RateLimitTable) (key : CString × CString) : Prop :=
  ∃ record ∈ table.slots, record.live length now = false ∨ record.key = key

section limiter
variable {auth : Auth} {clientIp scope : CString} {limit : Nat} {length now : Time}

open RateLimitRecord

theorem authRateLimitAllow_written_iff :
    (authRateLimitAllow auth clientIp scope limit length now).2.Written ↔
      0 < limit ∧ 0 < length ∧ RateLimitRoom length now auth.rateLimits (clientIp, scope) := by
  by_cases hargs : limit = 0 ∨ length ≤ 0
  · rw [authRateLimitAllow, if_pos hargs]
    constructor
    · intro h
      exact absurd rfl (h none rfl)
    · rintro ⟨hlimit, hlength, -⟩
      exact absurd hargs (not_or.mpr ⟨hlimit.ne', not_le.mpr hlength⟩)
  · rw [not_or, not_le] at hargs
    have hlimit : 0 < limit := Nat.pos_of_ne_zero hargs.1
    have hlength : 0 < length := hargs.2
    simp only [hlimit, hlength, true_and]
    rcases sweep_cases (RateLimitRecord.retire length now) (RateLimitRecord.isFor clientIp scope)
      (RateLimitRecord.counted limit) auth.rateLimits.slots with
      ⟨hmiss, -⟩ | ⟨pre, record, post, hslots, hpre, hhit, -⟩
    · obtain ⟨swept, hswept, hcall⟩ := authRateLimitAllow_of_miss hlimit hlength hmiss
      rw [hcall]
      cases hupdate : swept.updateFirst (fun record => !record.active)
          (fun _ => newRateLimitRecord clientIp scope now) with
      | none =>
          have hfull : ∀ record ∈ auth.rateLimits.slots, record.live length now = true := by
            intro record hmem
            have hactive := Table.updateFirst_eq_none.mp hupdate (record.retire length now)
              (by rw [hswept]; exact List.mem_map_of_mem hmem)
            exact active_retire.mp (by simpa using hactive)
          constructor
          · intro h
            exact absurd rfl (h none rfl)
          · rintro ⟨record, hmem, hstale | hkey⟩
            · rw [hfull record hmem] at hstale
              contradiction
            · have hother := hmiss record hmem
              have hlive := hfull record hmem
              rw [retire_of_live hlive,
                isFor_eq_true.mpr ⟨(live_eq_true.mp hlive).1, hkey⟩] at hother
              contradiction
      | some table =>
          obtain ⟨pre, old, post, hold, -, hfree, -⟩ :=
            updateFirst_eq_some (Table.updateFirst_slots hupdate)
          have hmem : old ∈ auth.rateLimits.slots.map (RateLimitRecord.retire length now) := by
            rw [← hswept, hold]
            simp
          obtain ⟨record, hrecord, rfl⟩ := List.mem_map.mp hmem
          refine iff_of_true (fun message h => by contradiction) ⟨record, hrecord, .inl ?_⟩
          rw [← Bool.not_eq_true, ← active_retire]
          simpa using hfree
    · rw [isFor_eq_true, active_retire, retire_key] at hhit
      obtain ⟨table, -, hcall⟩ :=
        authRateLimitAllow_of_hit hlimit hlength hslots hpre hhit.1 hhit.2
      refine iff_of_true ?_ ⟨record, by simp [hslots], .inr hhit.2⟩
      rw [hcall]
      dsimp only
      intro message h
      split at h
      · cases h
        exact Option.some_ne_none _
      · contradiction

end limiter

def HasStringField (json field : CString) : Prop :=
  ∃ front value rest, json.bytes = front ++ (fieldPattern field "\":\"" ++ (value ++ 34 :: rest))

theorem extractJsonStringField_isSome {json field : CString} {destSize : Nat} :
    (extractJsonStringField json field destSize).isSome = true ↔ HasStringField json field := by
  rw [Option.isSome_iff_exists]
  constructor
  · rintro ⟨value, h⟩
    simp only [extractJsonStringField, Option.bind_eq_bind, Option.bind_eq_some_iff] at h
    obtain ⟨found, hfound, text, htext, -⟩ := h
    obtain ⟨front, rest, hjson, rfl⟩ := strstr_eq_some hfound
    rw [List.drop_left, before] at htext
    split at htext
    · rename_i hmem
      obtain ⟨text', rest', rfl⟩ := List.append_of_mem hmem
      exact ⟨front, text', rest', hjson⟩
    · contradiction
  · rintro ⟨front, value, rest, hjson⟩
    obtain ⟨behind, hfound, hsuffix⟩ :=
      strstr_append front (fieldPattern field "\":\"") (value ++ 34 :: rest)
    have hmem : (34 : UInt8) ∈ behind := hsuffix.subset (by simp)
    simp only [extractJsonStringField, Option.bind_eq_bind, hjson, hfound, Option.bind_some,
      List.drop_left, before, if_pos hmem]
    exact ⟨_, rfl⟩

/-- What has to come back for a text to be there: an error of libcurl, a refusal, or a token. -/
def PairTransport.Tells : PairTransport → Prop
  | .unavailable => False
  | .failed _ => True
  | .replied status body => 200 ≤ status → status < 300 →
      ∃ content, body = some content ∧ HasStringField (CString.ofBuffer content) (.lit "token")

theorem transferPairPeer_written_iff {transport : PairTransport} {tokenSize messageSize : Nat} :
    (transferPairPeer transport tokenSize messageSize).Written ↔ transport.Tells := by
  unfold transferPairPeer PairTransport.Tells
  cases transport with
  | unavailable => exact iff_of_false (fun h => absurd rfl (h none rfl)) id
  | failed error =>
      refine iff_of_true (fun message h => ?_) trivial
      cases h
      exact Option.some_ne_none _
  | replied status body =>
      dsimp only
      split
      · rename_i hstatus
        refine iff_of_true (fun message h => ?_) (fun hlow hhigh => by omega)
        cases h
        exact Option.some_ne_none _
      · rename_i hstatus
        rw [not_or, not_lt, not_le] at hstatus
        simp only [hstatus, forall_const, ← @extractJsonStringField_isSome _ _ tokenSize]
        split
        · rename_i hnone
          refine iff_of_false (fun h => absurd rfl (h none rfl)) ?_
          rintro ⟨content, rfl, hsome⟩
          rw [Option.map_some, Option.bind_some] at hnone
          rw [hnone] at hsome
          contradiction
        · rename_i token hsome
          refine iff_of_true (fun message h => by contradiction) ?_
          obtain ⟨json, hjson, hextract⟩ := Option.bind_eq_some_iff.mp hsome
          obtain ⟨content, rfl, rfl⟩ := Option.map_eq_some_iff.mp hjson
          exact ⟨content, rfl, by rw [hextract]; rfl⟩

/-- Scope and limit that a call on the route is charged, by whether it brings a chunk. -/
def Route.rateLimit (bodied : Bool) : Route → Option (CString × Nat)
  | .unlock => if bodied then some (.lit "session_unlock", 8) else none
  | .exchange => if bodied then some (.lit "pair_exchange", 12) else none
  | .upload => if bodied then some (.lit "upload", 20) else none
  | .pair => if bodied then some (.lit "pair_initiate", 10) else none
  | .send => if bodied then some (.lit "send_file", 12) else none
  | .localCode => some (.lit "pair_code", 20)
  | .transfers | .transfer _ => some (.lit "transfer_status", 30)
  | .index | .devices | .notFound => none

def Request.rateLimit (request : Request) (bodied : Bool) : Option (CString × Nat) :=
  if request.info.authChecked then none else request.route.rateLimit bodied

def limiter (auth : Auth) (info : ConnectionInfo) (now : Time) (limit : CString × Nat)
    (unwritten : CString) : Auth × ConnectionInfo × Bool :=
  rateLimitRequest auth { info with authChecked := true } limit.1 limit.2 now unwritten

/-- A gate that begins with the limiter: the buffer matters for nothing else, and a refusal
ends the gate. -/
structure LimitedBy (limiter gate : CString → Auth × ConnectionInfo × Bool) : Prop where
  agrees : ∀ unwritten unwritten', limiter unwritten = limiter unwritten' →
    gate unwritten = gate unwritten'
  refuses : ∀ unwritten, (limiter unwritten).2.2 = false → gate unwritten = limiter unwritten

section gates
variable {auth : Auth} {info : ConnectionInfo} {headers : Headers} {now : Time}
  {limit : CString × Nat}

theorem authorizeUiRequest_limited (h : info.authChecked = false) :
    LimitedBy (limiter auth info now limit)
      (authorizeUiRequest auth info headers limit.1 limit.2 now) := by
  constructor
  · intro unwritten unwritten' hagree
    unfold limiter at hagree
    unfold authorizeUiRequest
    rw [hagree]
  · intro unwritten hrefuses
    unfold authorizeUiRequest
    rw [h]
    unfold limiter at hrefuses ⊢
    generalize rateLimitRequest auth _ limit.1 limit.2 now unwritten = result at hrefuses ⊢
    obtain ⟨auth, info, passes⟩ := result
    cases hrefuses
    rfl

theorem authorizeUploadRequest_limited (h : info.authChecked = false) :
    LimitedBy (limiter auth info now (.lit "upload", 20))
      (authorizeUploadRequest auth info headers now) := by
  constructor
  · intro unwritten unwritten' hagree
    unfold limiter at hagree
    unfold authorizeUploadRequest
    rw [hagree]
  · intro unwritten hrefuses
    unfold authorizeUploadRequest
    rw [h]
    unfold limiter at hrefuses ⊢
    dsimp only at hrefuses ⊢
    generalize rateLimitRequest auth _ (.lit "upload") 20 now unwritten = result at hrefuses ⊢
    obtain ⟨auth, info, passes⟩ := result
    cases hrefuses
    rfl

theorem limitChunk_limited (h : info.authChecked = false) :
    LimitedBy (limiter auth info now limit) (limitChunk auth info limit.1 limit.2 now) := by
  constructor
  · intro unwritten unwritten' hagree
    unfold limiter at hagree
    unfold limitChunk
    rw [hagree]
  · intro unwritten hrefuses
    unfold limitChunk
    rw [h]
    unfold limiter at hrefuses ⊢
    generalize rateLimitRequest auth _ limit.1 limit.2 now unwritten = result at hrefuses ⊢
    obtain ⟨auth, info, passes⟩ := result
    cases hrefuses
    rfl

theorem chunkGate_limited {route : Route}
    (hroute : route ∈ [.unlock, .exchange, .upload, .pair, .send]) (h : info.authChecked = false)
    (hlimit : route.rateLimit true = some limit) :
    LimitedBy (limiter auth info now limit) (chunkGate auth info route headers now) := by
  cases route with
  | index | devices | notFound | localCode | transfers => simp at hroute
  | transfer jobId => simp at hroute
  | unlock => cases hlimit; exact limitChunk_limited h
  | exchange => cases hlimit; exact limitChunk_limited h
  | upload => cases hlimit; exact authorizeUploadRequest_limited h
  | pair => cases hlimit; exact authorizeUiRequest_limited h
  | send => cases hlimit; exact authorizeUiRequest_limited h

theorem authorizeUiRequest_checked (h : info.authChecked = true) (unwritten unwritten' : CString) :
    authorizeUiRequest auth info headers limit.1 limit.2 now unwritten =
      authorizeUiRequest auth info headers limit.1 limit.2 now unwritten' := by
  simp [authorizeUiRequest, h]

theorem chunkGate_checked {route : Route} (h : info.authChecked = true)
    (unwritten unwritten' : CString) : chunkGate auth info route headers now unwritten =
      chunkGate auth info route headers now unwritten' := by
  cases route <;>
    simp [chunkGate, Route.secretLimit, limitChunk, authorizeUploadRequest, authorizeUiRequest, h]

end gates

def CallEnv.reading (env : CallEnv) (unwritten : CString) : CallEnv :=
  { env with unwritten := unwritten }

section calls
variable {world : World} {id : Nat} {request : Request} {env : CallEnv} {limit : CString × Nat}

/-- A call that begins with the limiter leaves the request what a refusal leaves. -/
structure CallLimitedBy (limiter : CString → Auth × ConnectionInfo × Bool)
    (call : CString → Outcome) : Prop where
  agrees : ∀ unwritten unwritten', limiter unwritten = limiter unwritten' →
    call unwritten = call unwritten'
  refuses : ∀ unwritten, (limiter unwritten).2.2 = false →
    (call unwritten).2.1.info = (limiter unwritten).2.1

section steps
variable {body : Body} {status : Option Bytes} {gate : CString → Auth × ConnectionInfo × Bool}

theorem chunkStep_congr {unwritten unwritten' : CString}
    (h : chunkGate world.auth request.info request.route request.headers world.clock unwritten =
      chunkGate world.auth request.info request.route request.headers world.clock unwritten') :
    chunkStep world id request body (env.reading unwritten) =
      chunkStep world id request body (env.reading unwritten') := by
  unfold chunkStep CallEnv.reading
  dsimp only
  rw [h]

theorem chunkStep_limited
    (h : LimitedBy gate
      (chunkGate world.auth request.info request.route request.headers world.clock)) :
    CallLimitedBy gate fun unwritten =>
      chunkStep world id request body (env.reading unwritten) := by
  constructor
  · intro unwritten unwritten' hagree
    exact chunkStep_congr (h.agrees unwritten unwritten' hagree)
  · intro unwritten hrefuses
    have hgate := h.refuses unwritten hrefuses
    unfold chunkStep CallEnv.reading
    dsimp only
    rw [hgate]
    generalize gate unwritten = result at hrefuses ⊢
    obtain ⟨auth, info, passes⟩ := result
    cases hrefuses
    rfl

theorem localCodeCall_congr {unwritten unwritten' : CString}
    (h : authorizeUiRequest world.auth request.info request.headers (.lit "pair_code") 20
      world.clock unwritten = authorizeUiRequest world.auth request.info request.headers
        (.lit "pair_code") 20 world.clock unwritten') :
    localCodeCall world id request (env.reading unwritten) =
      localCodeCall world id request (env.reading unwritten') := by
  unfold localCodeCall CallEnv.reading
  dsimp only
  rw [h]

theorem localCodeCall_limited
    (h : LimitedBy gate
      (authorizeUiRequest world.auth request.info request.headers (.lit "pair_code") 20
        world.clock)) :
    CallLimitedBy gate fun unwritten => localCodeCall world id request (env.reading unwritten) := by
  constructor
  · intro unwritten unwritten' hagree
    exact localCodeCall_congr (h.agrees unwritten unwritten' hagree)
  · intro unwritten hrefuses
    have hgate := h.refuses unwritten hrefuses
    unfold localCodeCall CallEnv.reading
    dsimp only
    rw [hgate]
    generalize gate unwritten = result at hrefuses ⊢
    obtain ⟨auth, info, passes⟩ := result
    cases hrefuses
    rfl

theorem transfersCall_congr {unwritten unwritten' : CString}
    (h : authorizeUiRequest world.auth request.info request.headers (.lit "transfer_status") 30
      world.clock unwritten = authorizeUiRequest world.auth request.info request.headers
        (.lit "transfer_status") 30 world.clock unwritten') :
    transfersCall world id request (env.reading unwritten) status =
      transfersCall world id request (env.reading unwritten') status := by
  unfold transfersCall CallEnv.reading
  dsimp only
  rw [h]

theorem transfersCall_limited
    (h : LimitedBy gate
      (authorizeUiRequest world.auth request.info request.headers (.lit "transfer_status") 30
        world.clock)) :
    CallLimitedBy gate fun unwritten =>
      transfersCall world id request (env.reading unwritten) status := by
  constructor
  · intro unwritten unwritten' hagree
    exact transfersCall_congr (h.agrees unwritten unwritten' hagree)
  · intro unwritten hrefuses
    have hgate := h.refuses unwritten hrefuses
    unfold transfersCall CallEnv.reading
    dsimp only
    rw [hgate]
    generalize gate unwritten = result at hrefuses ⊢
    obtain ⟨auth, info, passes⟩ := result
    cases hrefuses
    rfl

end steps

theorem answerToConnection_limited {upload : Option Body}
    (h : request.rateLimit upload.isSome = some limit) :
    CallLimitedBy (limiter world.auth request.info world.clock limit) fun unwritten =>
      answerToConnection world id request upload (env.reading unwritten) := by
  unfold Request.rateLimit at h
  split at h
  · contradiction
  · rename_i hunchecked
    rw [Bool.not_eq_true] at hunchecked
    unfold answerToConnection
    cases hroute : request.route with
    | index | devices | notFound => rw [hroute] at h; contradiction
    | localCode =>
        rw [hroute] at h
        cases h
        exact localCodeCall_limited (authorizeUiRequest_limited hunchecked)
    | transfers =>
        rw [hroute] at h
        cases h
        exact transfersCall_limited (authorizeUiRequest_limited hunchecked)
    | transfer jobId =>
        rw [hroute] at h
        cases h
        exact transfersCall_limited (authorizeUiRequest_limited hunchecked)
    | unlock | exchange | upload | pair | send =>
        cases upload with
        | none => rw [hroute] at h; contradiction
        | some body =>
            exact chunkStep_limited (chunkGate_limited (by simp [hroute]) hunchecked h)

theorem answerToConnection_unlimited {upload : Option Body}
    (h : request.rateLimit upload.isSome = none) (unwritten unwritten' : CString) :
    answerToConnection world id request upload (env.reading unwritten) =
      answerToConnection world id request upload (env.reading unwritten') := by
  unfold Request.rateLimit at h
  split at h
  · rename_i hchecked
    unfold answerToConnection
    cases hroute : request.route with
    | index | devices | notFound => rfl
    | localCode =>
        exact localCodeCall_congr (@authorizeUiRequest_checked _ _ _ _ (_, _) hchecked _ _)
    | transfers | transfer =>
        exact transfersCall_congr (@authorizeUiRequest_checked _ _ _ _ (_, _) hchecked _ _)
    | unlock | exchange | upload | pair | send =>
        cases upload with
        | none => rfl
        | some body => exact chunkStep_congr (chunkGate_checked hchecked unwritten unwritten')
  · unfold answerToConnection
    cases hroute : request.route with
    | index | devices | notFound => rfl
    | localCode | transfers | transfer => rw [hroute] at h; contradiction
    | unlock | exchange | upload | pair | send =>
        cases upload with
        | none => rfl
        | some body => rw [hroute] at h; contradiction

end calls

section buffers
variable {auth : Auth} {info : ConnectionInfo} {now : Time} {limit : CString × Nat}

theorem limiter_agrees
    (h : (authRateLimitAllow auth info.clientIp.str limit.1 limit.2 60 now).2.Written)
    (unwritten unwritten' : CString) :
    limiter auth info now limit unwritten = limiter auth info now limit unwritten' := by
  unfold limiter rateLimitRequest
  dsimp only
  generalize authRateLimitAllow auth info.clientIp.str limit.1 limit.2 60 now = result at h ⊢
  obtain ⟨auth, verdict⟩ := result
  cases verdict with
  | allowed => rfl
  | refused message =>
      obtain ⟨text, rfl⟩ := Option.ne_none_iff_exists'.mp (h message rfl)
      rfl

theorem limiter_reads
    (h : ¬ (authRateLimitAllow auth info.clientIp.str limit.1 limit.2 60 now).2.Written)
    {unwritten : CString} (hne : unwritten.take 127 ≠ CString.empty) :
    (limiter auth info now limit unwritten).2.2 = false ∧
      (limiter auth info now limit unwritten).2.1.responseMessage =
        copyString (unwritten.take 127) := by
  unfold limiter rateLimitRequest
  dsimp only
  generalize authRateLimitAllow auth info.clientIp.str limit.1 limit.2 60 now = result at h ⊢
  obtain ⟨auth, verdict⟩ := result
  cases verdict with
  | allowed => exact absurd (fun message hrefused => by contradiction) h
  | refused message =>
      cases message with
      | none => simp [ConnectionInfo.setError, hne]
      | some text =>
          refine absurd (fun message hrefused => ?_) h
          cases hrefused
          exact Option.some_ne_none text

end buffers

def Event.reading (unwritten : CString) : Event → Event
  | .call id upload env => .call id upload (env.reading unwritten)
  | .proceed id env => .proceed id { env with unwritten := unwritten }
  | event => event

def limiterCall (process : Process) : Event → Option (CString × CString × Nat)
  | .call id upload _ =>
      (process.requests id).bind fun request =>
        if process.serving ∧ request.phase = .receiving then
          (request.rateLimit upload.isSome).map fun limit => (request.info.clientIp.str, limit)
        else none
  | _ => none

def pairingCall (process : Process) : Event → Option PairTransport
  | .proceed id env =>
      (process.requests id).bind fun request =>
        match request.phase with
        | .pairRemote _ _ => some env.transport
        | _ => none
  | _ => none

/-- A failure comes with its text, and what the server does is the same whatever its buffers
held before. -/
structure ErrorTextDefined (process : Process) (event : Event) : Prop where
  limiter : ∀ clientIp scope limit, limiterCall process event = some (clientIp, scope, limit) →
    (authRateLimitAllow process.world.auth clientIp scope limit 60 process.world.clock).2.Written
  pairing : ∀ transport, pairingCall process event = some transport →
    (transferPairPeer transport 65 256).Written
  unread : ∀ unwritten unwritten',
    next process (event.reading unwritten) = next process (event.reading unwritten')

/-- The table has room or knows the client, and a remote that accepts sends a token. -/
structure ErrorTextAtHand (process : Process) (event : Event) : Prop where
  limiter : ∀ clientIp scope limit, limiterCall process event = some (clientIp, scope, limit) →
    RateLimitRoom 60 process.world.clock process.world.auth.rateLimits (clientIp, scope)
  pairing : ∀ transport, pairingCall process event = some transport → transport.Tells

theorem rateLimit_pos {route : Route} {bodied : Bool} {limit : CString × Nat}
    (h : route.rateLimit bodied = some limit) : 0 < limit.2 := by
  cases bodied <;> cases route <;> cases h <;> decide

theorem limiterCall_pos {process : Process} {event : Event} {clientIp scope : CString}
    {limit : Nat} (h : limiterCall process event = some (clientIp, scope, limit)) :
    0 < limit := by
  unfold limiterCall at h
  split at h
  · obtain ⟨request, -, hrequest⟩ := Option.bind_eq_some_iff.mp h
    split at hrequest
    · obtain ⟨found, hfound, heq⟩ := Option.map_eq_some_iff.mp hrequest
      cases heq
      unfold Request.rateLimit at hfound
      split at hfound
      · contradiction
      · exact rateLimit_pos hfound
    · contradiction
  · contradiction

theorem pairingCall_eq_some {process : Process} {id : Nat} {env : ProceedEnv}
    {transport : PairTransport} (h : pairingCall process (.proceed id env) = some transport) :
    env.transport = transport := by
  unfold pairingCall at h
  obtain ⟨request, -, hrequest⟩ := Option.bind_eq_some_iff.mp h
  split at hrequest
  · exact Option.some.inj hrequest
  · contradiction

theorem written_iff_atHand {process : Process} {event : Event} :
    ((∀ clientIp scope limit, limiterCall process event = some (clientIp, scope, limit) →
        (authRateLimitAllow process.world.auth clientIp scope limit 60
          process.world.clock).2.Written) ∧
      ∀ transport, pairingCall process event = some transport →
        (transferPairPeer transport 65 256).Written) ↔ ErrorTextAtHand process event := by
  simp only [authRateLimitAllow_written_iff, transferPairPeer_written_iff]
  constructor
  · rintro ⟨hlimiter, hpairing⟩
    exact ⟨fun clientIp scope limit h => (hlimiter clientIp scope limit h).2.2, hpairing⟩
  · rintro ⟨hlimiter, hpairing⟩
    refine ⟨fun clientIp scope limit h => ?_, hpairing⟩
    exact ⟨limiterCall_pos h, by decide, hlimiter clientIp scope limit h⟩

theorem call_unread {process : Process} {id : Nat} {upload : Option Body} {env : CallEnv}
    (h : ∀ clientIp scope limit,
      limiterCall process (.call id upload env) = some (clientIp, scope, limit) →
      (authRateLimitAllow process.world.auth clientIp scope limit 60
        process.world.clock).2.Written) (unwritten unwritten' : CString) :
    next process (.call id upload (env.reading unwritten)) =
      next process (.call id upload (env.reading unwritten')) := by
  unfold limiterCall at h
  unfold next
  dsimp only at h ⊢
  cases hid : process.requests id with
  | none => rfl
  | some request =>
      rw [hid, Option.bind_some] at h
      dsimp only
      split
      · rename_i hserving
        rw [if_pos hserving] at h
        cases hlimit : request.rateLimit upload.isSome with
        | none => rw [answerToConnection_unlimited hlimit unwritten unwritten']
        | some limit =>
            rw [hlimit] at h
            have hagree := limiter_agrees (h _ _ _ rfl) unwritten unwritten'
            have hcall := (@answerToConnection_limited process.world id request env limit upload
              hlimit).agrees unwritten unwritten' hagree
            rw [hcall]
      · rfl

theorem proceed_unread {process : Process} {id : Nat} {env : ProceedEnv}
    (h : ∀ transport, pairingCall process (.proceed id env) = some transport →
      (transferPairPeer transport 65 256).Written) (unwritten unwritten' : CString) :
    next process (.proceed id { env with unwritten := unwritten }) =
      next process (.proceed id { env with unwritten := unwritten' }) := by
  unfold pairingCall at h
  unfold next
  dsimp only at h ⊢
  cases hid : process.requests id with
  | none => rfl
  | some request =>
      rw [hid, Option.bind_some] at h
      dsimp only
      have hproceed : proceed process.world id request { env with unwritten := unwritten } =
          proceed process.world id request { env with unwritten := unwritten' } := by
        unfold proceed
        cases hphase : request.phase with
        | pairRemote port peer =>
            rw [hphase] at h
            have hwritten := h env.transport rfl
            dsimp only
            cases houtcome : transferPairPeer env.transport 65 256 with
            | paired token expiresAt message => rfl
            | refused message =>
                obtain ⟨text, rfl⟩ := Option.ne_none_iff_exists'.mp (hwritten message houtcome)
                rfl
        | receiving | exchangeAdd | exchangeMark | pairStore | pairMark | sendCleanup => rfl
        | sendEnqueue | answered => rfl
      rw [hproceed]

theorem next_unread {process : Process} {event : Event} (h : ErrorTextAtHand process event)
    (unwritten unwritten' : CString) :
    next process (event.reading unwritten) = next process (event.reading unwritten') := by
  obtain ⟨hlimiter, hpairing⟩ := written_iff_atHand.mpr h
  cases event with
  | call id upload env => exact call_unread hlimiter unwritten unwritten'
  | proceed id env => exact proceed_unread hpairing unwritten unwritten'
  | tick | accept | completed | workerTake | workerCall | workerProgress | workerDone => rfl
  | workerExit | resolved | removed | serverStop | queueShutdown => rfl

theorem call_reads {process : Process} {id : Nat} {upload : Option Body} {env : CallEnv}
    {clientIp scope : CString} {limit : Nat}
    (hcall : limiterCall process (.call id upload env) = some (clientIp, scope, limit))
    (hunwritten : ¬ (authRateLimitAllow process.world.auth clientIp scope limit 60
      process.world.clock).2.Written) {unwritten : CString}
    (hne : unwritten.take 127 ≠ CString.empty) :
    ∃ result request, next process (.call id upload (env.reading unwritten)) = some result ∧
      result.1.requests id = some request ∧
      request.info.responseMessage = copyString (unwritten.take 127) := by
  unfold limiterCall at hcall
  unfold next
  dsimp only at hcall ⊢
  obtain ⟨request, hid, hrequest⟩ := Option.bind_eq_some_iff.mp hcall
  rw [hid]
  dsimp only
  split at hrequest
  · rename_i hserving
    rw [if_pos hserving]
    obtain ⟨found, hfound, heq⟩ := Option.map_eq_some_iff.mp hrequest
    cases heq
    obtain ⟨hrefused, hmessage⟩ := @limiter_reads process.world.auth request.info
      process.world.clock (scope, limit) hunwritten unwritten hne
    have hinfo := (@answerToConnection_limited process.world id request env _ upload
      hfound).refuses unwritten hrefused
    refine ⟨_, _, rfl, Function.update_self .., ?_⟩
    rw [← hmessage, ← hinfo]
  · contradiction

theorem proceed_reads {process : Process} {id : Nat} {env : ProceedEnv}
    {transport : PairTransport}
    (hcall : pairingCall process (.proceed id env) = some transport)
    (hunwritten : ¬ (transferPairPeer transport 65 256).Written) {unwritten : CString}
    (hne : unwritten.take 255 ≠ CString.empty) :
    ∃ result request, next process (.proceed id { env with unwritten := unwritten }) =
        some result ∧ result.1.requests id = some request ∧
      request.phase = .answered (queueJsonStatusMessage 502 (.lit "error")
        (unwritten.take 255)) := by
  unfold pairingCall at hcall
  unfold next
  dsimp only at hcall ⊢
  obtain ⟨request, hid, hrequest⟩ := Option.bind_eq_some_iff.mp hcall
  rw [hid]
  dsimp only
  split at hrequest
  · rename_i port peer hphase
    cases hrequest
    have hrefused : transferPairPeer env.transport 65 256 = .refused none := by
      by_contra hother
      apply hunwritten
      rintro message hmessage rfl
      exact hother hmessage
    unfold proceed
    rw [hphase]
    dsimp only
    rw [hrefused]
    refine ⟨_, _, rfl, Function.update_self .., ?_⟩
    dsimp only [Request.answer, Option.getD_none]
    rw [if_pos hne]
  · contradiction

theorem next_reads {process : Process} {event : Event} (h : ¬ ErrorTextAtHand process event) :
    next process (event.reading (.lit "a")) ≠ next process (event.reading (.lit "b")) := by
  intro hsame
  rw [← written_iff_atHand, not_and_or] at h
  push Not at h
  rcases h with ⟨clientIp, scope, limit, hcall, hunwritten⟩ | ⟨transport, hcall, hunwritten⟩
  · cases event with
    | call id upload env =>
        obtain ⟨a, request, ha, hid, htext⟩ :=
          @call_reads _ _ _ _ _ _ _ hcall hunwritten (.lit "a") (by decide)
        obtain ⟨b, request', hb, hid', htext'⟩ :=
          @call_reads _ _ _ _ _ _ _ hcall hunwritten (.lit "b") (by decide)
        cases Option.some.inj ((ha.symm.trans hsame).trans hb)
        cases Option.some.inj (hid.symm.trans hid')
        exact absurd (htext.symm.trans htext') (by decide)
    | tick | accept | proceed | completed | workerTake | workerCall | workerProgress =>
        contradiction
    | workerDone | workerExit | resolved | removed | serverStop | queueShutdown => contradiction
  · cases event with
    | proceed id env =>
        obtain ⟨a, request, ha, hid, htext⟩ :=
          @proceed_reads _ _ _ _ hcall hunwritten (.lit "a") (by decide)
        obtain ⟨b, request', hb, hid', htext'⟩ :=
          @proceed_reads _ _ _ _ hcall hunwritten (.lit "b") (by decide)
        cases Option.some.inj ((ha.symm.trans hsame).trans hb)
        cases Option.some.inj (hid.symm.trans hid')
        exact absurd (htext.symm.trans htext') (by decide)
    | tick | accept | call | completed | workerTake | workerCall | workerProgress => contradiction
    | workerDone | workerExit | resolved | removed | serverStop | queueShutdown => contradiction

theorem unread_iff_atHand {process : Process} {event : Event} :
    (∀ unwritten unwritten',
      next process (event.reading unwritten) = next process (event.reading unwritten')) ↔
      ErrorTextAtHand process event := by
  constructor
  · intro hunread
    by_contra h
    exact next_reads h (hunread _ _)
  · exact next_unread

theorem errorTextDefined_iff {process : Process} {event : Event} :
    ErrorTextDefined process event ↔ ErrorTextAtHand process event := by
  constructor
  · intro h
    exact written_iff_atHand.mp ⟨h.limiter, h.pairing⟩
  · intro h
    obtain ⟨hlimiter, hpairing⟩ := written_iff_atHand.mpr h
    exact ⟨hlimiter, hpairing, unread_iff_atHand.mpr h⟩

/-- In every run, and for every event that may follow it, an error that the server answers
has a text, and no answer depends on what a buffer held before, exactly when at each such
call the table has room or knows the client, and a remote that accepts sends a token. -/
theorem errorText_defined_iff (start : Process) (events : List Event) :
    (Meets step ErrorTextDefined start events ↔ Meets step ErrorTextAtHand start events) ∧
    ∀ process, run step start events = some process →
      ∀ event, ErrorTextDefined process event ↔ ErrorTextAtHand process event := by
  refine ⟨?_, fun process _ event => errorTextDefined_iff⟩
  apply @meets_iff_meets _ _ _ _ _ _ _ fun _ => True
  · exact fun _ _ _ _ _ => trivial
  · exact fun process event _ _ _ => errorTextDefined_iff
  · trivial

/-- As many clients as the limiter holds ask for the pairing code within a minute, and then
another one does. -/
def crowdedLimiter : List Event :=
  ((List.range maxRateLimits).flatMap fun n =>
    [.accept (.lit "/api/pair/local-code") (.lit "GET") (copyString (.lit "10.0.1." ++ .ofLong n))
      ⟨none, none⟩, sendEnd n 0, .completed n]) ++
    [.accept (.lit "/api/pair/local-code") (.lit "GET") sampleIp ⟨none, none⟩]

/-- What the stack held goes out with the answer 429 of the last one, and with the answer 502
when a remote accepts without a token. -/
theorem errorText_undefined :
    (∃ process, run step sampleStart crowdedLimiter = some process ∧
      ¬ ErrorTextDefined process (sendEnd 64 0) ∧
      ((next process ((sendEnd 64 0).reading (.lit "stack"))).bind fun result =>
          result.1.requests 64).map Request.phase =
        some (.answered (errorReply 429 "stack"))) ∧
    ∃ process, run step sampleStart (beforePair ++ [sendEnd 1 0]) = some process ∧
      ¬ ErrorTextDefined process (.proceed 1 ⟨.replied 200 none, CString.empty, none⟩) ∧
      ((next process (.proceed 1 ⟨.replied 200 none, .lit "stack", none⟩)).bind fun result =>
          result.1.requests 1).map Request.phase =
        some (.answered (errorReply 502 "stack")) := by
  constructor
  · have hany : (run step sampleStart crowdedLimiter).any (fun process =>
        limiterCall process (sendEnd 64 0) = some (sampleIp.str, .lit "pair_code", 20) ∧
        (authRateLimitAllow process.world.auth sampleIp.str (.lit "pair_code") 20 60
          process.world.clock).2 = .refused none ∧
        ((next process ((sendEnd 64 0).reading (.lit "stack"))).bind fun result =>
            result.1.requests 64).map Request.phase =
          some (.answered (errorReply 429 "stack"))) = true := by decide +kernel
    obtain ⟨process, hrun, hfacts⟩ := (Option.any_eq_true _ _).mp hany
    rw [decide_eq_true_eq] at hfacts
    obtain ⟨hcall, hrefused, hanswer⟩ := hfacts
    exact ⟨process, hrun, fun h => h.limiter _ _ _ hcall none hrefused rfl, hanswer⟩
  · have hany : (run step sampleStart (beforePair ++ [sendEnd 1 0])).any (fun process =>
        (pairingCall process (.proceed 1 ⟨.replied 200 none, CString.empty, none⟩)).isSome ∧
        ((next process (.proceed 1 ⟨.replied 200 none, .lit "stack", none⟩)).bind fun result =>
            result.1.requests 1).map Request.phase =
          some (.answered (errorReply 502 "stack"))) = true := by decide +kernel
    obtain ⟨process, hrun, hfacts⟩ := (Option.any_eq_true _ _).mp hany
    rw [decide_eq_true_eq] at hfacts
    obtain ⟨hcall, hanswer⟩ := hfacts
    refine ⟨process, hrun, fun h => ?_, hanswer⟩
    obtain ⟨transport, htransport⟩ := Option.isSome_iff_exists.mp hcall
    obtain rfl := pairingCall_eq_some htransport
    exact h.pairing _ htransport none rfl rfl

end LocalDrop
