import LocalDrop.Lib.Unwinding
import LocalDrop.Admission
import LocalDrop.ErrorText
import LocalDrop.Failures

/-! What clients without a secret can find out, while others with a session or a paired token
have their requests served. They know no code and hold no token, so each of their calls is turned
away; what they are told depends on the clock, on the rate limits and on the peers in the
registry, and on nothing else: not on the codes and tokens of `auth.c`, not on the files and not
on the jobs. -/
namespace LocalDrop
open Lib

/-- What such clients can see something of. -/
structure World.Alike (world world' : World) : Prop where
  clock : world'.clock = world.clock
  rateLimits : world'.auth.rateLimits = world.auth.rateLimits
  registry : world'.registry = world.registry

structure Request.ShutOut (request : Request) : Prop where
  unauthorized : request.info.requestAuthorized = false
  idle : request.route.gated = true →
    request.info.uploadInProgress = false ∧ request.info.pairCode.str = CString.empty
  releasable : request.releasable = true

/-- The outsiders' requests are the same on both sides, and none of them has been let in. -/
structure SameConnections (outsider : Nat → Bool) (process process' : Process) : Prop where
  requests : ∀ id, outsider id = true → process'.requests id = process.requests id
  nextId : process'.nextId = process.nextId
  serving : process'.serving = process.serving
  shutOut : ∀ id request, outsider id = true → process.requests id = some request →
    request.ShutOut

structure Alike (outsider : Nat → Bool) (process process' : Process) : Prop where
  world : process.world.Alike process'.world
  connections : SameConnections outsider process process'

/-- Nothing that comes with the call is worth anything. -/
structure Worthless (world : World) (request : Request) (upload : Option Body) (env : CallEnv) :
    Prop where
  uiToken :
    (validUiToken world.auth request.info.clientIp.str request.headers world.clock).2 = false
  pairToken :
    (validPairToken world.auth request.info.clientIp.str request.headers world.clock).2 = false
  adminCode : upload = none → request.route = .unlock →
    request.info.adminCode.str ≠ world.auth.adminCode.str
  pairingCode : upload = none → request.route = .exchange →
    (ensurePairingCodeLocked world.auth world.clock env.codeRandom).map
      (fun current => current.pairingCode.str) ≠ some request.info.pairCode.str

/-- The limiter has a slot for the call, or knows its client. -/
def LimiterRoom (process : Process) (event : Event) : Prop :=
  ∀ call ∈ limiterCall process event,
    RateLimitRoom 60 process.world.clock process.world.auth.rateLimits (call.1, call.2.1)

/-- Outsiders make worthless calls only, and the limiter has room for them. -/
def Outside (outsider : Nat → Bool) (process : Process) : Event → Prop
  | .call id upload env => outsider id = true → LimiterRoom process (.call id upload env) ∧
      ∀ request, process.requests id = some request → Worthless process.world request upload env
  | _ => True

/-- What can be seen from outside: what outsiders do, what comes from the network and from the
clock, that somebody else connects, and the rate limits and the peers that are left when somebody
else's handler has changed them. -/
inductive Seen where
  | event (event : Event)
  | call (id : Nat) (upload : Option Body)
  | accepted
  | changed (rateLimits : RateLimitTable) (registry : PeerRegistry)
deriving DecidableEq

def changes (process : Process) (event : Event) : Option Seen :=
  (next process event).bind fun result =>
    if result.1.world.auth.rateLimits = process.world.auth.rateLimits ∧
        result.1.world.registry = process.world.registry then none
    else some (.changed result.1.world.auth.rateLimits result.1.world.registry)

def seen (outsider : Nat → Bool) (process : Process) (event : Event) : Option Seen :=
  match event with
  | .accept _ _ _ _ => some (if outsider process.nextId then .event event else .accepted)
  | .call id upload _ => if outsider id then some (.call id upload) else changes process event
  | .proceed id _ => if outsider id then none else changes process event
  | .completed id => if outsider id then some (.event event) else none
  | .workerTake | .workerCall | .workerProgress _ _ | .workerDone _ | .workerExit => none
  | .tick _ | .resolved _ _ _ | .removed _ | .serverStop | .queueShutdown => some (.event event)

theorem World.Alike.symm {world world' : World} (h : world.Alike world') : world'.Alike world :=
  ⟨h.clock.symm, h.rateLimits.symm, h.registry.symm⟩

theorem World.Alike.trans {world world' world'' : World} (h : world.Alike world')
    (h' : world'.Alike world'') : world.Alike world'' :=
  ⟨h'.clock.trans h.clock, h'.rateLimits.trans h.rateLimits, h'.registry.trans h.registry⟩

theorem SameConnections.symm {outsider : Nat → Bool} {process process' : Process}
    (h : SameConnections outsider process process') : SameConnections outsider process' process :=
  ⟨fun id hout => (h.requests id hout).symm, h.nextId.symm, h.serving.symm,
    fun id request hout hid => h.shutOut id request hout ((h.requests id hout).symm.trans hid)⟩

theorem Alike.symm {outsider : Nat → Bool} {process process' : Process}
    (h : Alike outsider process process') : Alike outsider process' process :=
  ⟨h.world.symm, h.connections.symm⟩

section gates
variable {auth auth' : Auth} {info : ConnectionInfo} {headers : Headers} {scope : CString}
  {limit : Nat} {now : Time} {unwritten : CString}

theorem authRateLimitAllow_alike (h : auth'.rateLimits = auth.rateLimits) (clientIp : CString)
    (window : Time) :
    (authRateLimitAllow auth' clientIp scope limit window now).2 =
        (authRateLimitAllow auth clientIp scope limit window now).2 ∧
      (authRateLimitAllow auth' clientIp scope limit window now).1.rateLimits =
        (authRateLimitAllow auth clientIp scope limit window now).1.rateLimits := by
  unfold authRateLimitAllow
  rw [h]
  dsimp only
  repeat' split
  all_goals first | exact ⟨rfl, rfl⟩ | exact ⟨rfl, h⟩

theorem rateLimitRequest_alike (h : auth'.rateLimits = auth.rateLimits) :
    (rateLimitRequest auth' info scope limit now unwritten).2 =
        (rateLimitRequest auth info scope limit now unwritten).2 ∧
      (rateLimitRequest auth' info scope limit now unwritten).1.rateLimits =
        (rateLimitRequest auth info scope limit now unwritten).1.rateLimits := by
  obtain ⟨hverdict, htable⟩ := @authRateLimitAllow_alike _ _ scope limit now h info.clientIp.str 60
  unfold rateLimitRequest
  cases hallow : authRateLimitAllow auth info.clientIp.str scope limit 60 now with
  | mk limited verdict =>
      cases hallow' : authRateLimitAllow auth' info.clientIp.str scope limit 60 now with
      | mk limited' verdict' =>
          rw [hallow, hallow'] at hverdict htable
          dsimp only at hverdict htable
          subst hverdict
          cases verdict' with
          | allowed => exact ⟨rfl, htable⟩
          | refused written => exact ⟨rfl, htable⟩

structure TurnsAway (result result' : Auth × ConnectionInfo × Bool) : Prop where
  info : result'.2.1 = result.2.1
  refused : result.2.2 = false
  refused' : result'.2.2 = false
  rateLimits : result'.1.rateLimits = result.1.rateLimits
  unauthorized : result.2.1.requestAuthorized = false

theorem rateLimitRequest_both (h : auth'.rateLimits = auth.rateLimits) (info : ConnectionInfo)
    (scope : CString) (limit : Nat) (now : Time) (unwritten : CString) :
    ∃ limited limited' info' passed,
      rateLimitRequest auth info scope limit now unwritten = (limited, info', passed) ∧
      rateLimitRequest auth' info scope limit now unwritten = (limited', info', passed) ∧
      limited'.rateLimits = limited.rateLimits ∧ auth.Consulted now limited ∧
      auth'.Consulted now limited' ∧ info'.clientIp = info.clientIp ∧
      info'.requestAuthorized = info.requestAuthorized := by
  obtain ⟨hsame, htable⟩ := @rateLimitRequest_alike _ _ info scope limit now unwritten h
  have hkept := rateLimitRequest_kept auth info scope limit now unwritten
  exact ⟨_, _, _, _, rfl, Prod.ext rfl hsame, htable, rateLimitRequest_consulted,
    rateLimitRequest_consulted, hkept.1, hkept.2.2⟩

theorem validUiToken_refused {limited : Auth} {clientIp : CString}
    (hinvalid : (validUiToken auth clientIp headers now).2 = false)
    (hconsulted : auth.Consulted now limited) :
    ∃ swept, validUiToken limited clientIp headers now = (swept, false) ∧
      swept.rateLimits = limited.rateLimits ∧ auth.Consulted now swept := by
  have hswept := @Auth.Consulted.validUiToken _ _ headers _ hconsulted clientIp
  rw [hinvalid] at hswept
  exact ⟨_, Prod.ext rfl hswept, validUiToken_rateLimits clientIp,
    hconsulted.trans (validUiToken_spec clientIp).1⟩

theorem validPairToken_refused {limited : Auth} {clientIp : CString}
    (hinvalid : (validPairToken auth clientIp headers now).2 = false)
    (hconsulted : auth.Consulted now limited) :
    ∃ swept, validPairToken limited clientIp headers now = (swept, false) ∧
      swept.rateLimits = limited.rateLimits := by
  have hswept := @Auth.Consulted.validPairToken _ _ headers _ hconsulted clientIp
  rw [hinvalid] at hswept
  exact ⟨_, Prod.ext rfl hswept, validPairToken_rateLimits clientIp⟩

theorem authorizeUiRequest_turnsAway (h : auth'.rateLimits = auth.rateLimits)
    (hnot : info.requestAuthorized = false)
    (hinvalid : (validUiToken auth info.clientIp.str headers now).2 = false)
    (hinvalid' : (validUiToken auth' info.clientIp.str headers now).2 = false) :
    TurnsAway (authorizeUiRequest auth info headers scope limit now unwritten)
      (authorizeUiRequest auth' info headers scope limit now unwritten) := by
  unfold authorizeUiRequest
  split
  · exact ⟨rfl, hnot, hnot, h, hnot⟩
  · obtain ⟨limited, limited', info', passed, heq, heq', htable, hconsulted, hconsulted', hclient,
      hauthorized⟩ := rateLimitRequest_both h { info with authChecked := true } scope limit now
        unwritten
    rw [heq, heq']
    cases passed with
    | false => exact ⟨rfl, rfl, rfl, htable, hauthorized.trans hnot⟩
    | true =>
        obtain ⟨swept, hswept, hsame, -⟩ := validUiToken_refused hinvalid hconsulted
        obtain ⟨swept', hswept', hsame', -⟩ := validUiToken_refused hinvalid' hconsulted'
        dsimp only at hclient ⊢
        rw [hclient, hswept, hswept']
        exact ⟨rfl, rfl, rfl, hsame'.trans (htable.trans hsame.symm), rfl⟩

theorem authorizeUploadRequest_turnsAway (h : auth'.rateLimits = auth.rateLimits)
    (hnot : info.requestAuthorized = false)
    (hinvalid : (validUiToken auth info.clientIp.str headers now).2 = false)
    (hinvalid' : (validUiToken auth' info.clientIp.str headers now).2 = false)
    (hunpaired : (validPairToken auth info.clientIp.str headers now).2 = false)
    (hunpaired' : (validPairToken auth' info.clientIp.str headers now).2 = false) :
    TurnsAway (authorizeUploadRequest auth info headers now unwritten)
      (authorizeUploadRequest auth' info headers now unwritten) := by
  unfold authorizeUploadRequest
  split
  · exact ⟨rfl, hnot, hnot, h, hnot⟩
  · obtain ⟨limited, limited', info', passed, heq, heq', htable, hconsulted, hconsulted', hclient,
      hauthorized⟩ := rateLimitRequest_both h { info with authChecked := true } (.lit "upload") 20
        now unwritten
    rw [heq, heq']
    cases passed with
    | false => exact ⟨rfl, rfl, rfl, htable, hauthorized.trans hnot⟩
    | true =>
        obtain ⟨swept, hswept, hsame, hlater⟩ := validUiToken_refused hinvalid hconsulted
        obtain ⟨swept', hswept', hsame', hlater'⟩ := validUiToken_refused hinvalid' hconsulted'
        obtain ⟨last, hlast, hkept⟩ := validPairToken_refused hunpaired hlater
        obtain ⟨last', hlast', hkept'⟩ := validPairToken_refused hunpaired' hlater'
        dsimp only at hclient ⊢
        rw [hclient, hswept, hswept']
        dsimp only
        rw [hlast, hlast']
        exact ⟨rfl, rfl, rfl, hkept'.trans (hsame'.trans (htable.trans (hsame.symm.trans
          hkept.symm))), rfl⟩

/-- The gate of a body chunk says the same on both sides, and lets no client through on a route
that needs a token. -/
structure SameGate (route : Route) (result result' : Auth × ConnectionInfo × Bool) : Prop where
  verdict : result'.2 = result.2
  rateLimits : result'.1.rateLimits = result.1.rateLimits
  unauthorized : result.2.1.requestAuthorized = false
  closed : route.gated = true → result.2.2 = false

theorem TurnsAway.sameGate {result result' : Auth × ConnectionInfo × Bool}
    (h : TurnsAway result result') (route : Route) : SameGate route result result' where
  verdict := Prod.ext h.info (h.refused'.trans h.refused.symm)
  rateLimits := h.rateLimits
  unauthorized := h.unauthorized
  closed _ := h.refused

theorem limitChunk_sameGate {route : Route} (hroute : route.gated = false)
    (h : auth'.rateLimits = auth.rateLimits) (hnot : info.requestAuthorized = false) :
    SameGate route (limitChunk auth info scope limit now unwritten)
      (limitChunk auth' info scope limit now unwritten) := by
  have hclosed : ∀ {passed : Bool}, route.gated = true → passed = false := by simp [hroute]
  unfold limitChunk
  split
  · exact ⟨rfl, h, hnot, hclosed⟩
  · obtain ⟨limited, limited', info', passed, heq, heq', htable, -, -, -, hauthorized⟩ :=
      rateLimitRequest_both h { info with authChecked := true } scope limit now unwritten
    rw [heq, heq']
    cases passed with
    | false => exact ⟨rfl, htable, hauthorized.trans hnot, hclosed⟩
    | true => exact ⟨rfl, htable, hauthorized.trans hnot, hclosed⟩

theorem chunkGate_sameGate (h : auth'.rateLimits = auth.rateLimits)
    (hnot : info.requestAuthorized = false)
    (hinvalid : (validUiToken auth info.clientIp.str headers now).2 = false)
    (hinvalid' : (validUiToken auth' info.clientIp.str headers now).2 = false)
    (hunpaired : (validPairToken auth info.clientIp.str headers now).2 = false)
    (hunpaired' : (validPairToken auth' info.clientIp.str headers now).2 = false) (route : Route) :
    SameGate route (chunkGate auth info route headers now unwritten)
      (chunkGate auth' info route headers now unwritten) := by
  unfold chunkGate
  cases route with
  | upload =>
      exact (authorizeUploadRequest_turnsAway h hnot hinvalid hinvalid' hunpaired
        hunpaired').sameGate _
  | pair | send => exact (authorizeUiRequest_turnsAway h hnot hinvalid hinvalid').sameGate _
  | unlock | exchange => exact limitChunk_sameGate rfl h hnot
  | index | devices | localCode | transfers | transfer | notFound =>
      exact ⟨rfl, h, hnot, fun hgated => by contradiction⟩

end gates

section parsing
variable {info : ConnectionInfo} {id : Nat} {now : Time}

theorem uploadStageOpen_blind (fs fs' : FileSystem) (filename : Option CString)
    (random : RandomBytes 8) (opened : Bool) :
    (uploadStageOpen fs' id filename now random opened).2 =
      (uploadStageOpen fs id filename now random opened).2 := by
  unfold uploadStageOpen
  dsimp only
  split
  · rfl
  · split <;> rfl

theorem uploadStageWrite_blind (fs fs' : FileSystem) (stage : UploadStage) (data : Bytes)
    (limit written : Nat) (touched : Bool) :
    (uploadStageWrite fs' stage data limit now written touched).2 =
      (uploadStageWrite fs stage data limit now written touched).2 := by
  unfold uploadStageWrite
  split
  · rfl
  · split
    · rfl
    · dsimp only
      split <;> rfl

theorem openStage_blind (fs fs' : FileSystem) (item : PostItem) :
    (openStage fs' id info now item).2 = (openStage fs id info now item).2 := by
  have hsame := @uploadStageOpen_blind id now fs fs' item.filename item.random item.opened
  unfold openStage
  split
  · generalize uploadStageOpen fs id item.filename now item.random item.opened = result at hsame ⊢
    generalize uploadStageOpen fs' id item.filename now item.random item.opened = result'
      at hsame ⊢
    obtain ⟨opened, stage, error⟩ := result
    obtain ⟨opened', stage', error'⟩ := result'
    cases hsame
    cases error <;> rfl
  · rfl

theorem writeStage_blind (fs fs' : FileSystem) (item : PostItem) :
    (writeStage fs' info now item).2 = (writeStage fs info now item).2 := by
  have hsame := @uploadStageWrite_blind now fs fs' info.uploadStage item.data maxFileSize
    item.written item.touched
  unfold writeStage
  split
  · generalize uploadStageWrite fs info.uploadStage item.data maxFileSize now item.written
      item.touched = result at hsame ⊢
    generalize uploadStageWrite fs' info.uploadStage item.data maxFileSize now item.written
      item.touched = result' at hsame ⊢
    obtain ⟨written, stage, error⟩ := result
    obtain ⟨written', stage', error'⟩ := result'
    cases hsame
    cases error <;> rfl
  · rfl

theorem iteratePost_blind (fs fs' : FileSystem) (item : PostItem) :
    (iteratePost fs' id info now item).2 = (iteratePost fs id info now item).2 := by
  have hsame := @openStage_blind info id now fs fs' item
  unfold iteratePost
  split
  · rfl
  · split
    · generalize openStage fs id info now item = result at hsame ⊢
      generalize openStage fs' id info now item = result' at hsame ⊢
      obtain ⟨opened, info', passed⟩ := result
      obtain ⟨opened', info'', passed'⟩ := result'
      cases hsame
      cases passed with
      | false => rfl
      | true => exact writeStage_blind opened opened' item
    · rfl

theorem foldl_iteratePost_blind (fs fs' : FileSystem) (items : List PostItem) :
    (items.foldl (fun state item => iteratePost state.1 id state.2 now item) (fs', info)).2 =
      (items.foldl (fun state item => iteratePost state.1 id state.2 now item) (fs, info)).2 := by
  induction items generalizing fs fs' info with
  | nil => rfl
  | cons item rest ih =>
      have hsame := @iteratePost_blind info id now fs fs' item
      rw [List.foldl_cons, List.foldl_cons]
      dsimp only
      generalize iteratePost fs id info now item = result at hsame ⊢
      generalize iteratePost fs' id info now item = result' at hsame ⊢
      obtain ⟨parsed, info'⟩ := result
      obtain ⟨parsed', info''⟩ := result'
      cases hsame
      exact ih parsed parsed'

theorem postProcess_blind (fs fs' : FileSystem) (route : Route) (items : List PostItem)
    (processed : Bool) : (postProcess fs' id info route now items processed).2 =
      (postProcess fs id info route now items processed).2 := by
  have hsame := @foldl_iteratePost_blind info id now fs fs' items
  unfold postProcess
  split
  · rfl
  · generalize items.foldl (fun state item => iteratePost state.1 id state.2 now item) (fs, info) =
      result at hsame ⊢
    generalize items.foldl (fun state item => iteratePost state.1 id state.2 now item) (fs', info) =
      result' at hsame ⊢
    obtain ⟨parsed, info'⟩ := result
    obtain ⟨parsed', info''⟩ := result'
    cases hsame
    dsimp only
    split <;> rfl

end parsing

structure SameOutcome (world world' : World) (request : Request) (outcome outcome' : Outcome) :
    Prop where
  request : outcome'.2.1 = outcome.2.1
  shutOut : outcome.2.1.ShutOut
  clock : outcome.1.clock = world.clock ∧ outcome'.1.clock = world'.clock
  registry : outcome.1.registry = world.registry ∧ outcome'.1.registry = world'.registry
  rateLimits : outcome'.1.auth.rateLimits = outcome.1.auth.rateLimits

theorem Request.ShutOut.answer {request : Request} (h : request.ShutOut) (reply : Reply) :
    (request.answer reply).ShutOut := ⟨h.unauthorized, h.idle, rfl⟩

section calls
variable {world world' : World} {id : Nat} {request : Request} {upload : Option Body}
  {env env' : CallEnv}

theorem SameOutcome.answer (halike : world.Alike world') (h : request.ShutOut) (reply : Reply)
    (entries entries' : List Entry) :
    SameOutcome world world' request (world, request.answer reply, entries)
      (world', request.answer reply, entries') :=
  ⟨rfl, h.answer reply, ⟨rfl, rfl⟩, ⟨rfl, rfl⟩, halike.rateLimits⟩

theorem chunkStep_same (halike : world.Alike world') (h : request.ShutOut)
    (hphase : request.phase = .receiving) (hworthless : Worthless world request upload env)
    (hworthless' : Worthless world' request upload env') (hwritten : env'.unwritten = env.unwritten)
    (body : Body) :
    SameOutcome world world' request (chunkStep world id request body env)
      (chunkStep world' id request body env') := by
  have hui := hworthless'.uiToken
  have hpair := hworthless'.pairToken
  rw [halike.clock] at hui hpair
  have hgate := @chunkGate_sameGate _ _ _ request.headers world.clock env.unwritten
    halike.rateLimits h.unauthorized hworthless.uiToken hui hworthless.pairToken hpair request.route
  have hgated := @chunkGate_gated world.auth request.info request.headers world.clock env.unwritten
    request.route
  have hreleasable : ∀ info : ConnectionInfo, ({ request with
      info := info, chunks := request.chunks + 1 } : Request).releasable = true := by
    intro info
    simp [Request.releasable, hphase]
  unfold chunkStep
  dsimp only
  rw [halike.clock, hwritten]
  revert hgate hgated
  generalize chunkGate world.auth request.info request.route request.headers world.clock
    env.unwritten = gate
  generalize chunkGate world'.auth request.info request.route request.headers world.clock
    env.unwritten = gate'
  obtain ⟨limited, info', passed⟩ := gate
  obtain ⟨limited', result'⟩ := gate'
  rintro ⟨hverdict, htable, hnot, hrefused⟩ hgated
  cases hverdict
  cases passed with
  | false =>
      refine ⟨rfl, ⟨hnot, fun hroute => ?_, hreleasable _⟩, ⟨rfl, halike.clock.symm⟩, ⟨rfl, rfl⟩,
        htable⟩
      obtain ⟨status, message, checked, authorized, rfl⟩ := hgated
      exact h.idle hroute
  | true =>
      have hsame := @postProcess_blind info' id world.clock world.fs world'.fs request.route
        body.items body.processed
      refine ⟨?_, ⟨?_, fun hroute => ?_, hreleasable _⟩, ⟨rfl, halike.clock.symm⟩, ⟨rfl, rfl⟩,
        htable⟩
      · dsimp only
        rw [hsame]
      · exact (postProcess_sameClient ..).requestAuthorized.trans hnot
      · have hpassed := hrefused hroute
        contradiction

theorem unlockFinal_same (halike : world.Alike world') (h : request.ShutOut)
    (hwrong : request.info.adminCode.str ≠ world.auth.adminCode.str)
    (hwrong' : request.info.adminCode.str ≠ world'.auth.adminCode.str) :
    SameOutcome world world' request (unlockFinal world id request env)
      (unlockFinal world' id request env') := by
  unfold unlockFinal
  dsimp only
  split
  · exact .answer halike h _ _ _
  · split
    · exact .answer halike h _ _ _
    · rw [authCreateUiSession_wrong hwrong.symm, authCreateUiSession_wrong hwrong'.symm]
      exact .answer halike h _ _ _

theorem authIssuePairToken_wrong {auth : Auth} {peerIp peerName provided : CString}
    {peerPort : UInt16} {now : Time} {codeRandom : RandomBytes 6} {random : RandomBytes 32}
    (hwrong : (ensurePairingCodeLocked auth now codeRandom).map
      (fun current => current.pairingCode.str) ≠ some provided) :
    ∃ current, authIssuePairToken auth peerIp peerName peerPort provided now codeRandom random =
      (current, none) ∧ current.rateLimits = auth.rateLimits := by
  unfold authIssuePairToken
  cases hcurrent : ensurePairingCodeLocked auth now codeRandom with
  | none => exact ⟨auth, rfl, rfl⟩
  | some current =>
      rw [hcurrent, Option.map_some, ne_eq, Option.some.injEq] at hwrong
      refine ⟨current, ?_, by rw [(ensurePairingCodeLocked_eq_some hcurrent).2]⟩
      dsimp only
      rw [if_pos hwrong]

theorem exchangeFinal_same (halike : world.Alike world') (h : request.ShutOut)
    (hwrong : (ensurePairingCodeLocked world.auth world.clock env.codeRandom).map
      (fun current => current.pairingCode.str) ≠ some request.info.pairCode.str)
    (hwrong' : (ensurePairingCodeLocked world'.auth world'.clock env'.codeRandom).map
      (fun current => current.pairingCode.str) ≠ some request.info.pairCode.str) :
    SameOutcome world world' request (exchangeFinal world id request env)
      (exchangeFinal world' id request env') := by
  unfold exchangeFinal
  dsimp only
  split
  · exact .answer halike h _ _ _
  · split
    · exact .answer halike h _ _ _
    · split
      · exact .answer halike h _ _ _
      · rename_i port hport
        obtain ⟨current, heq, hkept⟩ := @authIssuePairToken_wrong _ request.info.clientIp.str
          request.info.peerName.str _ port _ _ env.random hwrong
        obtain ⟨current', heq', hkept'⟩ := @authIssuePairToken_wrong _ request.info.clientIp.str
          request.info.peerName.str _ port _ _ env'.random hwrong'
        rw [heq, heq']
        exact ⟨rfl, h.answer _, ⟨rfl, rfl⟩, ⟨rfl, rfl⟩,
          hkept'.trans (halike.rateLimits.trans hkept.symm)⟩

theorem uploadFinal_same (halike : world.Alike world') (h : request.ShutOut)
    (hprogress : request.info.uploadInProgress = false) :
    SameOutcome world world' request (uploadFinal world id request env)
      (uploadFinal world' id request env') := by
  unfold uploadFinal
  dsimp only
  split
  · exact .answer halike h _ _ _
  · rw [if_pos (by simp [hprogress]), if_pos (by simp [hprogress])]
    exact .answer halike h _ _ _

theorem pairFinal_same (halike : world.Alike world') (h : request.ShutOut)
    (hcode : request.info.pairCode.str = CString.empty) :
    SameOutcome world world' request (pairFinal world id request)
      (pairFinal world' id request) := by
  unfold pairFinal
  dsimp only
  split
  · exact .answer halike h _ _ _
  · rw [if_pos (by simp [hcode]), if_pos (by simp [hcode])]
    exact .answer halike h _ _ _

theorem sendFinal_same (halike : world.Alike world') (h : request.ShutOut)
    (hprogress : request.info.uploadInProgress = false) :
    SameOutcome world world' request (sendFinal world request env)
      (sendFinal world' request env') := by
  unfold sendFinal
  dsimp only
  split
  · exact .answer halike h _ _ _
  · rw [if_pos (by simp [hprogress]), if_pos (by simp [hprogress])]
    exact .answer halike h _ _ _

theorem call_turnsAway (halike : world.Alike world') (h : request.ShutOut)
    (hworthless : Worthless world request upload env)
    (hworthless' : Worthless world' request upload env') (hwritten : env'.unwritten = env.unwritten)
    (scope : CString) (limit : Nat) :
    ∃ limited limited' info',
      authorizeUiRequest world.auth request.info request.headers scope limit world.clock
        env.unwritten = (limited, info', false) ∧
      authorizeUiRequest world'.auth request.info request.headers scope limit world'.clock
        env'.unwritten = (limited', info', false) ∧
      limited'.rateLimits = limited.rateLimits ∧ ∀ reply : Reply,
        ({ request with info := info' }.answer reply).ShutOut := by
  have hui := hworthless'.uiToken
  rw [halike.clock] at hui
  have haway := @authorizeUiRequest_turnsAway _ _ _ request.headers scope limit world.clock
    env.unwritten halike.rateLimits h.unauthorized hworthless.uiToken hui
  have hgated := @authorizeUiRequest_gated world.auth request.info request.headers scope limit
    world.clock env.unwritten
  rw [halike.clock, hwritten]
  refine ⟨_, _, _, Prod.ext rfl (Prod.ext rfl haway.refused),
    Prod.ext rfl (Prod.ext haway.info haway.refused'), haway.rateLimits, fun reply => ?_⟩
  refine ⟨haway.unauthorized, fun hroute => ?_, rfl⟩
  obtain ⟨status, message, checked, authorized, heq⟩ := hgated
  have hidle := h.idle hroute
  exact ⟨(congrArg ConnectionInfo.uploadInProgress heq).trans hidle.1,
    (congrArg (fun info => info.pairCode.str) heq).trans hidle.2⟩

theorem localCodeCall_same (halike : world.Alike world') (h : request.ShutOut)
    (hworthless : Worthless world request upload env)
    (hworthless' : Worthless world' request upload env')
    (hwritten : env'.unwritten = env.unwritten) :
    SameOutcome world world' request (localCodeCall world id request env)
      (localCodeCall world' id request env') := by
  obtain ⟨limited, limited', info', hgate, hgate', htable, hshut⟩ :=
    call_turnsAway halike h hworthless hworthless' hwritten (.lit "pair_code") 20
  unfold localCodeCall
  rw [hgate, hgate']
  exact ⟨rfl, hshut _, ⟨rfl, rfl⟩, ⟨rfl, rfl⟩, htable⟩

theorem transfersCall_same (halike : world.Alike world') (h : request.ShutOut)
    (hworthless : Worthless world request upload env)
    (hworthless' : Worthless world' request upload env')
    (hwritten : env'.unwritten = env.unwritten) (status status' : Option Bytes) :
    SameOutcome world world' request (transfersCall world id request env status)
      (transfersCall world' id request env' status') := by
  obtain ⟨limited, limited', info', hgate, hgate', htable, hshut⟩ :=
    call_turnsAway halike h hworthless hworthless' hwritten (.lit "transfer_status") 30
  unfold transfersCall
  rw [hgate, hgate']
  exact ⟨rfl, hshut _, ⟨rfl, rfl⟩, ⟨rfl, rfl⟩, htable⟩

/-- A call that is worth nothing on either side is the same call on both. -/
theorem answerToConnection_same (halike : world.Alike world') (h : request.ShutOut)
    (hphase : request.phase = .receiving) (hworthless : Worthless world request upload env)
    (hworthless' : Worthless world' request upload env')
    (hwritten : env'.unwritten = env.unwritten) :
    SameOutcome world world' request (answerToConnection world id request upload env)
      (answerToConnection world' id request upload env') := by
  unfold answerToConnection
  cases hroute : request.route with
  | index | notFound => exact .answer halike h _ _ _
  | devices =>
      rw [halike.registry]
      exact .answer halike h _ _ _
  | localCode => exact localCodeCall_same halike h hworthless hworthless' hwritten
  | transfers | transfer => exact transfersCall_same halike h hworthless hworthless' hwritten _ _
  | unlock =>
      cases upload with
      | some body => exact chunkStep_same halike h hphase hworthless hworthless' hwritten body
      | none =>
          exact unlockFinal_same halike h (hworthless.adminCode rfl hroute)
            (hworthless'.adminCode rfl hroute)
  | exchange =>
      cases upload with
      | some body => exact chunkStep_same halike h hphase hworthless hworthless' hwritten body
      | none =>
          exact exchangeFinal_same halike h (hworthless.pairingCode rfl hroute)
            (hworthless'.pairingCode rfl hroute)
  | upload =>
      cases upload with
      | some body => exact chunkStep_same halike h hphase hworthless hworthless' hwritten body
      | none => exact uploadFinal_same halike h (h.idle (by simp [hroute, Route.gated])).1
  | pair =>
      cases upload with
      | some body => exact chunkStep_same halike h hphase hworthless hworthless' hwritten body
      | none => exact pairFinal_same halike h (h.idle (by simp [hroute, Route.gated])).2
  | send =>
      cases upload with
      | some body => exact chunkStep_same halike h hphase hworthless hworthless' hwritten body
      | none => exact sendFinal_same halike h (h.idle (by simp [hroute, Route.gated])).1

end calls

section steps
variable {outsider : Nat → Bool} {process process' after after' : Process} {event event' : Event}
  {entries entries' : List Entry}

theorem changes_eq_some {view : Seen} (hnext : next process event = some (after, entries))
    (h : changes process event = some view) :
    view = .changed after.world.auth.rateLimits after.world.registry := by
  unfold changes at h
  rw [hnext, Option.bind_some] at h
  split at h
  · contradiction
  · exact (Option.some.inj h).symm

theorem changes_eq_none (hnext : next process event = some (after, entries))
    (h : changes process event = none) :
    after.world.auth.rateLimits = process.world.auth.rateLimits ∧
      after.world.registry = process.world.registry := by
  unfold changes at h
  rw [hnext, Option.bind_some] at h
  split at h
  · assumption
  · contradiction

/-- What a step is seen as, with whose it is. -/
inductive SeenAs (outsider : Nat → Bool) (process : Process) (after : Process) :
    Event → Seen → Prop
  | call (id : Nat) (upload : Option Body) (env : CallEnv) (outside : outsider id = true) :
      SeenAs outsider process after (.call id upload env) (.call id upload)
  | accepted (url method : CString) (clientIp : Chars 46) (headers : Headers)
      (inside : outsider process.nextId = false) :
      SeenAs outsider process after (.accept url method clientIp headers) .accepted
  | changed (id : Nat) (event : Event) (about : event.request = some id)
      (inside : outsider id = false) : SeenAs outsider process after event
        (.changed after.world.auth.rateLimits after.world.registry)
  | event (event : Event) (visible : seen outsider process event = some (.event event)) :
      SeenAs outsider process after event (.event event)

theorem seenAs_of_seen {view : Seen} (hnext : next process event = some (after, entries))
    (h : seen outsider process event = some view) : SeenAs outsider process after event view := by
  cases event with
  | accept url method clientIp headers =>
      cases hout : outsider process.nextId with
      | true =>
          have hview := h
          simp only [seen, hout, if_true, Option.some.injEq] at hview
          subst hview
          exact .event _ h
      | false =>
          simp only [seen, hout, Bool.false_eq_true, if_false, Option.some.injEq] at h
          subst h
          exact .accepted url method clientIp headers hout
  | call id upload env =>
      cases hout : outsider id with
      | true =>
          simp only [seen, hout, if_true, Option.some.injEq] at h
          subst h
          exact .call id upload env hout
      | false =>
          simp only [seen, hout, Bool.false_eq_true, if_false] at h
          rw [changes_eq_some hnext h]
          exact .changed id _ rfl hout
  | proceed id env =>
      cases hout : outsider id with
      | true => simp [seen, hout] at h
      | false =>
          simp only [seen, hout, Bool.false_eq_true, if_false] at h
          rw [changes_eq_some hnext h]
          exact .changed id _ rfl hout
  | completed id =>
      cases hout : outsider id with
      | true =>
          have hview := h
          simp only [seen, hout, if_true, Option.some.injEq] at hview
          subst hview
          exact .event _ h
      | false => simp [seen, hout] at h
  | workerTake | workerCall | workerProgress | workerDone | workerExit => contradiction
  | tick | resolved | removed | serverStop | queueShutdown =>
      obtain rfl := Option.some.inj h
      exact .event _ h

theorem next_about {id : Nat} (habout : event.request = some id)
    (hnext : next process event = some (after, entries)) :
    after.world.clock = process.world.clock ∧ after.nextId = process.nextId ∧
      after.serving = process.serving ∧
      ∀ other, other ≠ id → after.requests other = process.requests other := by
  refine ⟨(next_clock hnext).2.2 ?_, ?_⟩
  · rintro seconds rfl
    contradiction
  · cases next_steps hnext with
    | call target upload env request was phase =>
        cases habout
        exact ⟨rfl, rfl, fun other hne => Function.update_of_ne hne ..⟩
    | proceed target env request outcome was continues =>
        cases habout
        exact ⟨rfl, rfl, fun other hne => Function.update_of_ne hne ..⟩
    | completed target request was releasable =>
        cases habout
        exact ⟨rfl, rfl, fun other hne => Function.update_of_ne hne ..⟩
    | _ => contradiction

theorem SameConnections.insider {id : Nat} (h : SameConnections outsider process process')
    (hinside : outsider id = false) (habout : event.request = some id)
    (hnext : next process event = some (after, entries)) :
    SameConnections outsider after process' := by
  obtain ⟨-, hnextId, hserving, hothers⟩ := next_about habout hnext
  have hne : ∀ {other : Nat}, outsider other = true → other ≠ id := by
    rintro other hout rfl
    rw [hinside] at hout
    contradiction
  exact ⟨fun other hout => (h.requests other hout).trans (hothers other (hne hout)).symm,
    h.nextId.trans hnextId.symm, h.serving.trans hserving.symm, fun other request hout hid =>
      h.shutOut other request hout ((hothers other (hne hout)).symm.trans hid)⟩

theorem not_releasable_of_proceed {world : World} {id : Nat} {request : Request}
    {env : ProceedEnv} {outcome : Outcome} (h : proceed world id request env = some outcome) :
    request.releasable = false := by
  unfold Request.releasable
  cases hphase : request.phase with
  | receiving | answered reply => simp [proceed, hphase] at h
  | _ => rfl

theorem requestCompleted_alike (world : World) (id : Nat) (request : Request) :
    world.Alike (requestCompleted world id request).1 := by
  unfold requestCompleted
  split <;> exact ⟨rfl, rfl, rfl⟩

theorem Alike.unchanged {id : Nat} (h : Alike outsider process process')
    (hinside : outsider id = false) (habout : event.request = some id)
    (hnext : next process event = some (after, entries))
    (hsame : after.world.auth.rateLimits = process.world.auth.rateLimits ∧
      after.world.registry = process.world.registry) : Alike outsider after process' := by
  refine ⟨⟨?_, ?_, ?_⟩, h.connections.insider hinside habout hnext⟩
  · exact h.world.clock.trans (next_about habout hnext).1.symm
  · exact h.world.rateLimits.trans hsame.1.symm
  · exact h.world.registry.trans hsame.2.symm

theorem next_hidden (h : Alike outsider process process')
    (hview : seen outsider process event = none)
    (hnext : next process event = some (after, entries)) : Alike outsider after process' := by
  have hapart : after.world.clock = process.world.clock →
      after.world.auth.rateLimits = process.world.auth.rateLimits →
      after.world.registry = process.world.registry → after.requests = process.requests →
      after.nextId = process.nextId → after.serving = process.serving →
      Alike outsider after process' := by
    intro hclock hlimits hregistry hrequests hnextId hserving
    refine ⟨⟨h.world.1.trans hclock.symm, h.world.2.trans hlimits.symm,
      h.world.3.trans hregistry.symm⟩, ?_⟩
    refine ⟨?_, h.connections.nextId.trans hnextId.symm, h.connections.serving.trans hserving.symm,
      ?_⟩
    · rw [hrequests]
      exact h.connections.requests
    · rw [hrequests]
      exact h.connections.shutOut
  cases next_steps hnext with
  | workerTake | workerCall | workerProgress | workerDone | workerExit =>
      exact hapart rfl rfl rfl rfl rfl rfl
  | call id upload env request was phase =>
      cases hout : outsider id with
      | true => simp [seen, hout] at hview
      | false =>
          simp only [seen, hout, Bool.false_eq_true, if_false] at hview
          exact h.unchanged hout rfl hnext (changes_eq_none hnext hview)
  | proceed id env request outcome was continues =>
      cases hout : outsider id with
      | true =>
          -- no outsider has got that far
          have hreleasable := (h.connections.shutOut id request hout was).releasable
          rw [not_releasable_of_proceed continues] at hreleasable
          contradiction
      | false =>
          simp only [seen, hout, Bool.false_eq_true, if_false] at hview
          exact h.unchanged hout rfl hnext (changes_eq_none hnext hview)
  | completed id request was releasable =>
      cases hout : outsider id with
      | true => simp [seen, hout] at hview
      | false =>
          have hsame := requestCompleted_alike process.world id request
          exact h.unchanged hout rfl hnext ⟨hsame.rateLimits, hsame.registry⟩
  | accept | tick | resolved | removed | serverStop | queueShutdown => contradiction

theorem shutOut_update {requests : Nat → Option Request} {target : Nat} {changed : Option Request}
    (h : ∀ id request, outsider id = true → requests id = some request → request.ShutOut)
    (hchanged : ∀ request, outsider target = true → changed = some request → request.ShutOut) :
    ∀ id request, outsider id = true →
      Function.update requests target changed id = some request → request.ShutOut := by
  intro id request hout hid
  by_cases hsame : id = target
  · rw [hsame, Function.update_self] at hid
    exact hchanged request (hsame ▸ hout) hid
  · rw [Function.update_of_ne hsame] at hid
    exact h id request hout hid

theorem same_update {requests requests' : Nat → Option Request} {target : Nat}
    {changed changed' : Option Request} (hsame : outsider target = true → changed' = changed)
    (h : ∀ id, outsider id = true → requests' id = requests id) :
    ∀ id, outsider id = true →
      Function.update requests' target changed' id =
        Function.update requests target changed id := by
  intro id hout
  by_cases heq : id = target
  · subst heq
    rw [Function.update_self, Function.update_self, hsame hout]
  · rw [Function.update_of_ne heq, Function.update_of_ne heq, h id hout]

theorem LimiterRoom.atHand {id : Nat} {upload : Option Body} {env : CallEnv}
    (h : LimiterRoom process (.call id upload env)) :
    ErrorTextAtHand process (.call id upload env) :=
  ⟨fun clientIp scope limit hcall => h (clientIp, scope, limit) hcall,
    fun transport hpairing => by contradiction⟩

/-- A worthless call on both sides, whatever was on the stack there. -/
theorem next_call_alike (h : Alike outsider process process') {id : Nat} {upload : Option Body}
    {env env' : CallEnv} (hout : outsider id = true)
    (hworthless : Outside outsider process (.call id upload env))
    (hworthless' : Outside outsider process' (.call id upload env'))
    (hnext : next process (.call id upload env) = some (after, entries))
    (hnext' : next process' (.call id upload env') = some (after', entries')) :
    Alike outsider after after' := by
  have hunread := next_unread (hworthless' hout).1.atHand env'.unwritten env.unwritten
  change next process' (.call id upload env') = next process' (.call id upload (env'.reading _))
    at hunread
  rw [hunread] at hnext'
  cases next_steps hnext with
  | call id upload env request hwas hphase =>
      cases next_steps hnext' with
      | call id upload _ request' hwas' hphase' =>
          have hsame : request' = request := by
            rw [h.connections.requests id hout, hwas] at hwas'
            exact (Option.some.inj hwas').symm
          subst hsame
          have hthere := (hworthless' hout).2 request' hwas'
          have houtcome := @answerToConnection_same _ _ id _ _ _ (env'.reading env.unwritten)
            h.world (h.connections.shutOut id request' hout hwas) hphase
            ((hworthless hout).2 request' hwas)
            ⟨hthere.uiToken, hthere.pairToken, hthere.adminCode, hthere.pairingCode⟩ rfl
          refine ⟨⟨?_, houtcome.rateLimits, ?_⟩, ⟨?_, h.connections.nextId, h.connections.serving,
            ?_⟩⟩
          · exact houtcome.clock.2.trans (h.world.clock.trans houtcome.clock.1.symm)
          · exact houtcome.registry.2.trans (h.world.registry.trans houtcome.registry.1.symm)
          · exact same_update (fun _ => congrArg some houtcome.request) h.connections.requests
          · refine shutOut_update h.connections.shutOut fun request _ heq => ?_
            cases heq
            exact houtcome.shutOut

theorem next_event_alike (h : Alike outsider process process')
    (hvisible : seen outsider process event = some (.event event))
    (hnext : next process event = some (after, entries))
    (hnext' : next process' event = some (after', entries')) : Alike outsider after after' := by
  have hkept : ∀ {world world' : World}, world.Alike world' →
      Alike outsider { process with world := world } { process' with world := world' } :=
    fun hworld => ⟨hworld, ⟨h.connections.1, h.connections.2, h.connections.3, h.connections.4⟩⟩
  cases next_steps hnext with
  | tick seconds bound =>
      cases next_steps hnext'
      exact hkept ⟨by dsimp only; rw [h.world.clock], h.world.2, h.world.3⟩
  | accept url method clientIp headers serving =>
      cases next_steps hnext'
      have hout : outsider process.nextId = true := by
        by_contra hinside
        simp [seen, hinside] at hvisible
      refine ⟨⟨h.world.1, h.world.2, h.world.3⟩, ?_, ?_, h.connections.serving, ?_⟩
      · dsimp only
        rw [h.connections.nextId]
        exact same_update (fun _ => rfl) h.connections.requests
      · dsimp only
        rw [h.connections.nextId]
      · refine shutOut_update h.connections.shutOut fun request _ heq => ?_
        cases heq
        exact ⟨rfl, fun _ => ⟨rfl, rfl⟩, rfl⟩
  | call id upload env request was phase =>
      simp only [seen] at hvisible
      split at hvisible
      · exact absurd (Option.some.inj hvisible) Seen.noConfusion
      · exact absurd (changes_eq_some hnext hvisible) Seen.noConfusion
  | proceed id env request outcome was continues =>
      simp only [seen] at hvisible
      split at hvisible
      · contradiction
      · exact absurd (changes_eq_some hnext hvisible) Seen.noConfusion
  | workerTake | workerCall | workerProgress | workerDone | workerExit => contradiction
  | completed id request was releasable =>
      cases next_steps hnext' with
      | completed id request' was' releasable' =>
          have hreleased := (requestCompleted_alike process.world id request).symm
          have hreleased' := requestCompleted_alike process'.world id request'
          refine ⟨hreleased.trans (h.world.trans hreleased'), ?_, h.connections.nextId,
            h.connections.serving, ?_⟩
          · exact same_update (fun _ => rfl) h.connections.requests
          · exact shutOut_update h.connections.shutOut fun request _ heq => by contradiction
  | resolved name ip port =>
      cases next_steps hnext'
      refine hkept ⟨h.world.1, h.world.2, ?_⟩
      dsimp only
      rw [h.world.registry, h.world.clock]
  | removed name =>
      cases next_steps hnext'
      refine hkept ⟨h.world.1, h.world.2, ?_⟩
      dsimp only
      rw [h.world.registry]
  | serverStop =>
      cases next_steps hnext'
      exact ⟨h.world, h.connections.1, h.connections.2, rfl, h.connections.4⟩
  | queueShutdown stopped released =>
      cases next_steps hnext'
      exact hkept ⟨h.world.1, h.world.2, h.world.3⟩

theorem next_alike {view : Seen} (h : Alike outsider process process')
    (hview : seen outsider process event = some view)
    (hview' : seen outsider process' event' = some view)
    (hout : Outside outsider process event) (hout' : Outside outsider process' event')
    (hnext : next process event = some (after, entries))
    (hnext' : next process' event' = some (after', entries')) : Alike outsider after after' := by
  have hseen' := seenAs_of_seen hnext' hview'
  cases seenAs_of_seen hnext hview with
  | call id upload env outside =>
      cases hseen' with
      | call _ _ env' => exact next_call_alike h outside hout hout' hnext hnext'
  | accepted url method clientIp headers inside =>
      cases hseen' with
      | accepted url' method' clientIp' headers' inside' =>
          cases next_steps hnext
          cases next_steps hnext'
          have hnot : ∀ {target : Nat}, outsider target = false →
              ∀ {new : Prop}, outsider target = true → new := by
            intro target hfalse new htrue
            rw [hfalse] at htrue
            contradiction
          refine ⟨⟨h.world.1, h.world.2, h.world.3⟩, ?_, ?_, h.connections.serving, ?_⟩
          · dsimp only
            rw [h.connections.nextId]
            exact same_update (hnot inside) h.connections.requests
          · dsimp only
            rw [h.connections.nextId]
          · exact shutOut_update h.connections.shutOut fun request => hnot inside
  | changed id _ about inside =>
      generalize hlimits : after.world.auth.rateLimits = rateLimits at hseen'
      generalize hregistry : after.world.registry = registry at hseen'
      cases hseen' with
      | changed id' _ about' inside' =>
          have hconnections := h.connections.insider inside about hnext
          refine ⟨⟨?_, hlimits.symm, hregistry.symm⟩,
            (hconnections.symm.insider inside' about' hnext').symm⟩
          exact (next_about about' hnext').1.trans
            (h.world.clock.trans (next_about about hnext).1.symm)
  | event _ visible =>
      cases hseen' with
      | event => exact next_event_alike h visible hnext hnext'

end steps

/-- Clients without a secret find out nothing but the time, the rate limits, the peers and that
others connect. Two processes may differ in all else: their codes, their tokens, their sessions,
their files and their jobs, what was on the stack, what the random generator and the worker do,
and what the clients with secrets have them do. The outsiders get the same answers from both,
whatever they send and in whatever order. -/
theorem outsiders_learnNothing {outsider : Nat → Bool} {start start' process process' : Process}
    {events events' : List Event} (halike : Alike outsider start start')
    (hsame : observed step (seen outsider) start events =
      observed step (seen outsider) start' events')
    (hworthless : Meets step (Outside outsider) start events)
    (hworthless' : Meets step (Outside outsider) start' events')
    (hrun : run step start events = some process)
    (hrun' : run step start' events' = some process') : Alike outsider process process' := by
  refine alike_run (fun _ _ => Alike.symm) ?_ ?_ halike hsame hworthless hworthless' hrun hrun'
  · intro process process' event after h hview hstep
    obtain ⟨settled, entries, hnext, rfl⟩ := step_eq_some hstep
    have hhidden := next_hidden h hview hnext
    exact ⟨hhidden.1, ⟨hhidden.2.1, hhidden.2.2, hhidden.2.3, hhidden.2.4⟩⟩
  · intro process process' event event' view after after' h hview hview' hout hout' hstep hstep'
    obtain ⟨settled, entries, hnext, rfl⟩ := step_eq_some hstep
    obtain ⟨settled', entries', hnext', rfl⟩ := step_eq_some hstep'
    have hlater := next_alike h hview hview' hout hout' hnext hnext'
    exact ⟨hlater.1, ⟨hlater.2.1, hlater.2.2, hlater.2.3, hlater.2.4⟩⟩

instance (world : World) (request : Request) (upload : Option Body) (env : CallEnv) :
    Decidable (Worthless world request upload env) :=
  decidable_of_iff (_ ∧ _ ∧ (_ → _ → _) ∧ (_ → _ → _))
    ⟨fun h => ⟨h.1, h.2.1, h.2.2.1, h.2.2.2⟩, fun h => ⟨h.1, h.2, h.3, h.4⟩⟩

instance (process : Process) (event : Event) : Decidable (LimiterRoom process event) :=
  inferInstanceAs (Decidable (∀ call ∈ limiterCall process event, ∃ record ∈ _, _))

instance (outsider : Nat → Bool) (process : Process) (event : Event) :
    Decidable (Outside outsider process event) := by
  unfold Outside
  split <;> infer_instance

def otherStart : Process :=
  { sampleStart with world := { sampleStart.world with
      auth := { sampleStart.world.auth with
        adminCode := copyString (.lit "333333")
        pairingCode := copyString (.lit "444444")
        uiSessions := .replicate maxUiSessions ⟨true, copyString (sampleToken 3), sampleIp, 5000⟩ }
      fs := Function.update sampleStart.world.fs (.lit "downloads/1_a.txt")
        (some ⟨none, [1, 2, 3], 900⟩) } }

/-- Requests 1 and 3 are an outsider's: a wrong admin code, and a list of the transfers with a
made-up token. In between somebody else unlocks a session and sends a file. -/
def guesses (code : String) (headers : Headers) (env : CallEnv) (unlocked : List Event) :
    List Event :=
  [.accept (.lit "/api/session/unlock") (.lit "POST") (copyString (.lit "10.0.0.1")) ⟨none, none⟩,
      .call 0 (some ⟨[fieldItem "admin_code" code], true⟩) env] ++ unlocked ++
    [acceptPost "/api/session/unlock" ⟨none, none⟩,
      .call 1 (some ⟨[fieldItem "admin_code" "555555"], true⟩) env, .call 1 none env,
      .accept (.lit "/upload") (.lit "POST") (copyString (.lit "10.0.0.1")) headers,
      .call 2 (some ⟨[fileItem "a.txt" [1, 2] 4], true⟩) env,
      .accept (.lit "/api/transfers") (.lit "GET") sampleIp ⟨some (sampleToken 9), none⟩,
      .call 3 none env]

theorem guesses_learnNothing : ∃ process process',
    run step sampleStart (guesses "111111" ⟨some (sampleToken 5), none⟩ (sampleEnv 5)
        [sendEnd 0 5, .completed 0]) = some process ∧
      run step otherStart (guesses "333333" ⟨none, none⟩
        { sampleEnv 6 with unwritten := .lit "stack" } []) = some process' ∧
      Alike (fun id => id = 1 ∨ id = 3) process process' := by
  obtain ⟨process, hrun⟩ : ∃ process, run step sampleStart (guesses "111111"
      ⟨some (sampleToken 5), none⟩ (sampleEnv 5) [sendEnd 0 5, .completed 0]) = some process :=
    Option.isSome_iff_exists.mp (by decide +kernel)
  obtain ⟨process', hrun'⟩ : ∃ process', run step otherStart (guesses "333333" ⟨none, none⟩
      { sampleEnv 6 with unwritten := .lit "stack" } []) = some process' :=
    Option.isSome_iff_exists.mp (by decide +kernel)
  have halike : Alike (fun id => id = 1 ∨ id = 3) sampleStart otherStart :=
    ⟨⟨rfl, rfl, rfl⟩, fun _ _ => rfl, rfl, rfl, fun id request _ hid => by contradiction⟩
  have hsame : observed step (seen fun id => id = 1 ∨ id = 3) sampleStart (guesses "111111"
      ⟨some (sampleToken 5), none⟩ (sampleEnv 5) [sendEnd 0 5, .completed 0]) =
    observed step (seen fun id => id = 1 ∨ id = 3) otherStart (guesses "333333" ⟨none, none⟩
      { sampleEnv 6 with unwritten := .lit "stack" } []) := by decide +kernel
  exact ⟨process, process', hrun, hrun', outsiders_learnNothing halike hsame (by decide +kernel)
    (by decide +kernel) hrun hrun'⟩

end LocalDrop
