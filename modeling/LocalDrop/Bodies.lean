import LocalDrop.Gates
import LocalDrop.Requests

/-! The status a request carries while its body arrives. The gate is consulted at the
first chunk; once an error is recorded, nothing that arrives later is looked at. -/
namespace LocalDrop
open Lib

def parseFields (fs : FileSystem) (id : Nat) (info : ConnectionInfo) (now : Time)
    (items : List PostItem) : FileSystem × ConnectionInfo :=
  items.foldl (fun state item => iteratePost state.1 id state.2 now item) (fs, info)

section parsing
variable {fs : FileSystem} {id : Nat} {info : ConnectionInfo} {now : Time}

theorem parseFields_cons (item : PostItem) (rest : List PostItem) :
    parseFields fs id info now (item :: rest) =
      parseFields (iteratePost fs id info now item).1 id (iteratePost fs id info now item).2 now
        rest :=
  rfl

theorem parseFields_append (items rest : List PostItem) :
    parseFields fs id info now (items ++ rest) =
      parseFields (parseFields fs id info now items).1 id (parseFields fs id info now items).2 now
        rest :=
  List.foldl_append ..

theorem parseFields_refused (h : 400 ≤ info.responseStatus) (items : List PostItem) :
    parseFields fs id info now items = (fs, info) := by
  induction items with
  | nil => rfl
  | cons item rest ih =>
      rw [parseFields_cons, iteratePost, if_pos h]
      exact ih

theorem postProcess_open (hpost : info.postprocessor = true) (route : Route)
    (items : List PostItem) (processed : Bool) :
    postProcess fs id info route now items processed =
      if !processed ∧ (parseFields fs id info now items).2.responseStatus < 400 then
        ((parseFields fs id info now items).1,
          (parseFields fs id info now items).2.setError 400 route.postFailure)
      else parseFields fs id info now items := by
  unfold postProcess
  rw [hpost]
  rfl

theorem postProcess_closed (hpost : info.postprocessor = false) (route : Route)
    (items : List PostItem) (processed : Bool) :
    postProcess fs id info route now items processed = (fs, info) := by
  unfold postProcess
  rw [hpost]
  rfl

theorem postProcess_refused (h : 400 ≤ info.responseStatus) (route : Route)
    (items : List PostItem) (processed : Bool) :
    postProcess fs id info route now items processed = (fs, info) := by
  cases hpost : info.postprocessor with
  | false => exact postProcess_closed hpost route items processed
  | true =>
      rw [postProcess_open hpost, parseFields_refused h, if_neg]
      exact fun hok => absurd hok.2 (Nat.not_lt.mpr h)

theorem postProcess_accepted {route : Route} {items : List PostItem} {processed : Bool}
    (hpost : info.postprocessor = true)
    (hok : (postProcess fs id info route now items processed).2.responseStatus < 400) :
    postProcess fs id info route now items processed = parseFields fs id info now items := by
  rw [postProcess_open hpost] at hok ⊢
  split at hok
  · exact absurd hok (show ¬ 400 < 400 by decide)
  · rename_i hprocessed
    rw [if_neg hprocessed]

theorem postProcess_front {items rest : List PostItem}
    (h : 400 ≤ (parseFields fs id info now items).2.responseStatus)
    (hpost : info.postprocessor = true) (route : Route) (processed : Bool) :
    postProcess fs id info route now (items ++ rest) processed =
      parseFields fs id info now items := by
  have hall : parseFields fs id info now (items ++ rest) = parseFields fs id info now items := by
    rw [parseFields_append, parseFields_refused h]
  rw [postProcess_open hpost, hall, if_neg]
  omega

theorem openStage_postprocessor (item : PostItem) :
    (openStage fs id info now item).2.1.postprocessor = info.postprocessor := by
  unfold openStage
  split
  · split <;> rfl
  · rfl

theorem writeStage_postprocessor (item : PostItem) :
    (writeStage fs info now item).2.postprocessor = info.postprocessor := by
  unfold writeStage
  split
  · split <;> rfl
  · rfl

theorem iteratePost_postprocessor (item : PostItem) :
    (iteratePost fs id info now item).2.postprocessor = info.postprocessor := by
  unfold iteratePost
  split
  · rfl
  · split
    · have hopen := @openStage_postprocessor fs id info now item
      split <;> rename_i heq <;> rw [heq] at hopen
      · exact hopen
      · exact (writeStage_postprocessor item).trans hopen
    · unfold copyField
      split_ifs <;> rfl

theorem parseFields_postprocessor (items : List PostItem) :
    (parseFields fs id info now items).2.postprocessor = info.postprocessor := by
  induction items generalizing fs info with
  | nil => rfl
  | cons item rest ih => exact ih.trans (iteratePost_postprocessor item)

theorem postProcess_postprocessor (route : Route) (items : List PostItem) (processed : Bool) :
    (postProcess fs id info route now items processed).2.postprocessor = info.postprocessor := by
  have hall := @parseFields_postprocessor fs id info now items
  cases hpost : info.postprocessor with
  | false => rw [postProcess_closed hpost, hpost]
  | true =>
      rw [postProcess_open hpost]
      split <;> exact hall.trans hpost

end parsing

theorem Parsed.frame {id : Nat} {fs fs' : FileSystem} {info info' : ConnectionInfo}
    (h : Parsed id fs info fs' info') {path : CString}
    (hpath : info'.uploadInProgress = true → path ≠ info'.uploadStage.stagingPath.str) :
    fs' path = fs path := by
  rcases h.effect with ⟨-, -, rfl⟩ | ⟨-, hprogress, hsame, htouch⟩ | ⟨-, hprogress, hcreate⟩
  · rfl
  · exact htouch.others path (hsame ▸ hpath hprogress)
  · exact hcreate.others path (hpath hprogress)

theorem ConnectionInfo.Gated.receiving {info info' : ConnectionInfo} (h : info.Gated info')
    (hreceiving : info.Receiving) : info'.Receiving := by
  obtain ⟨status, message, checked, authorized, rfl⟩ := h
  exact hreceiving

/-- What the gate says about the status: it does not touch it if the chunk passes, it
records an error if it is the first to refuse, and it is asked only once. -/
structure Screens (info : ConnectionInfo) (result : Auth × ConnectionInfo × Bool) : Prop where
  passed : result.2.2 = true → result.2.1.responseStatus = info.responseStatus
  refused : result.2.2 = false → info.authChecked = false → 400 ≤ result.2.1.responseStatus
  once : info.authChecked = true → result.2.1 = info

section gates
variable {auth : Auth} {info : ConnectionInfo} {headers : Headers} {scope : CString}
  {limit : Nat} {now : Time} {unwritten : CString}

theorem rateLimitRequest_status (auth : Auth) (info : ConnectionInfo) (scope : CString)
    (limit : Nat) (now : Time) (unwritten : CString) :
    (∃ auth', rateLimitRequest auth info scope limit now unwritten = (auth', info, true)) ∨
    ∃ auth' info', rateLimitRequest auth info scope limit now unwritten = (auth', info', false) ∧
      info'.responseStatus = 429 := by
  unfold rateLimitRequest
  split
  · exact .inl ⟨_, rfl⟩
  · exact .inr ⟨_, _, rfl, rfl⟩

theorem authorizeUiRequest_screens :
    Screens info (authorizeUiRequest auth info headers scope limit now unwritten) := by
  unfold authorizeUiRequest
  split
  · rename_i hchecked
    exact ⟨fun _ => rfl, fun _ hnot => absurd hchecked (by simp [hnot]), fun _ => rfl⟩
  · rename_i hchecked
    rcases rateLimitRequest_status auth { info with authChecked := true } scope limit now
      unwritten with ⟨auth', heq⟩ | ⟨auth', info', heq, hstatus⟩ <;> rw [heq]
    · dsimp only
      split
      · exact ⟨fun _ => rfl, fun h => by contradiction, fun h => absurd h hchecked⟩
      · exact ⟨fun h => by contradiction, fun _ _ => show 400 ≤ 401 by decide,
          fun h => absurd h hchecked⟩
    · exact ⟨fun h => by contradiction, fun _ _ => by simp [hstatus], fun h => absurd h hchecked⟩

theorem authorizeUploadRequest_screens :
    Screens info (authorizeUploadRequest auth info headers now unwritten) := by
  unfold authorizeUploadRequest
  split
  · rename_i hchecked
    exact ⟨fun _ => rfl, fun _ hnot => absurd hchecked (by simp [hnot]), fun _ => rfl⟩
  · rename_i hchecked
    rcases rateLimitRequest_status auth { info with authChecked := true } (.lit "upload") 20 now
      unwritten with ⟨auth', heq⟩ | ⟨auth', info', heq, hstatus⟩ <;> rw [heq]
    · dsimp only
      split
      · exact ⟨fun _ => rfl, fun h => by contradiction, fun h => absurd h hchecked⟩
      · split
        · exact ⟨fun _ => rfl, fun h => by contradiction, fun h => absurd h hchecked⟩
        · exact ⟨fun h => by contradiction, fun _ _ => show 400 ≤ 401 by decide,
          fun h => absurd h hchecked⟩
    · exact ⟨fun h => by contradiction, fun _ _ => by simp [hstatus], fun h => absurd h hchecked⟩

theorem chunkGate_screens {route : Route} (hroute : route.gated = true) :
    Screens info (chunkGate auth info route headers now unwritten) := by
  cases route <;> simp only [Route.gated, Bool.false_eq_true] at hroute
  · exact authorizeUploadRequest_screens
  · exact authorizeUiRequest_screens
  · exact authorizeUiRequest_screens

end gates

/-- A request of a gated route between two chunks: before the first one nothing has been
found out, and a request that was refused carries the error. -/
structure Request.Screened (request : Request) : Prop where
  parses : request.info.postprocessor = true
  fresh : request.info.authChecked = false →
    request.info.responseStatus = 200 ∧ request.info.requestAuthorized = false
  refused : request.info.authChecked = true → request.info.requestAuthorized = false →
    400 ≤ request.info.responseStatus

/-- What a chunk of a gated route does: it is refused, and then the request carries an error,
or its fields are parsed. -/
inductive ChunkOutcome (world : World) (id : Nat) (request : Request) (body : Body)
    (env : CallEnv) (outcome : Outcome) : Prop where
  | refused (status : 400 ≤ outcome.2.1.info.responseStatus)
      (kept : 400 ≤ request.info.responseStatus →
        outcome.2.1.info.responseStatus = request.info.responseStatus)
      (files : outcome.1.fs = world.fs)
  | parsed (auth : Auth) (info : ConnectionInfo)
      (gate : chunkGate world.auth request.info request.route request.headers world.clock
        env.unwritten = (auth, info, true))
      (gated : request.info.Gated info)
      (same : info.responseStatus = request.info.responseStatus)
      (files : outcome.1.fs =
        (postProcess world.fs id info request.route world.clock body.items body.processed).1)
      (result : outcome.2.1.info =
        (postProcess world.fs id info request.route world.clock body.items body.processed).2)

section chunks
variable {world : World} {id : Nat} {request : Request} {body : Body} {env : CallEnv}

theorem chunkStep_of_passed {auth : Auth} {info : ConnectionInfo}
    (h : chunkGate world.auth request.info request.route request.headers world.clock
      env.unwritten = (auth, info, true)) :
    (chunkStep world id request body env).1.fs =
        (postProcess world.fs id info request.route world.clock body.items body.processed).1 ∧
      (chunkStep world id request body env).2.1.info =
        (postProcess world.fs id info request.route world.clock body.items body.processed).2 := by
  unfold chunkStep
  dsimp only
  rw [h]
  exact ⟨rfl, rfl⟩

theorem chunkStep_outcome (hroute : request.route.gated = true) (h : request.Screened) :
    ChunkOutcome world id request body env (chunkStep world id request body env) ∧
      (chunkStep world id request body env).2.1.Screened := by
  have hgated := @chunkGate_gated world.auth request.info request.headers world.clock
    env.unwritten request.route
  have hscreens := @chunkGate_screens world.auth request.info request.headers world.clock
    env.unwritten request.route hroute
  have hauthorizes := @chunkGate_authorizes world.auth request.info request.headers world.clock
    env.unwritten request.route hroute fun hunchecked => (h.fresh hunchecked).2
  unfold chunkStep
  dsimp only
  split <;> rename_i auth info heq <;> rw [heq] at hgated hscreens hauthorizes
  · have hpost : info.postprocessor = true := by
      obtain ⟨status, message, checked, authorized, rfl⟩ := hgated
      exact h.parses
    have hstatus : 400 ≤ info.responseStatus ∧ (400 ≤ request.info.responseStatus →
        info.responseStatus = request.info.responseStatus) := by
      cases hchecked : request.info.authChecked with
      | false =>
          have hfresh := (h.fresh hchecked).1
          exact ⟨hscreens.refused rfl hchecked, fun hstatus => by omega⟩
      | true =>
          have hsame : info = request.info := hscreens.once hchecked
          rw [hsame]
          exact ⟨h.refused hchecked (hsame ▸ hauthorizes.authorized), fun _ => rfl⟩
    refine ⟨.refused hstatus.1 hstatus.2 rfl, hpost, fun hunchecked => ?_, fun _ _ => hstatus.1⟩
    rw [hauthorizes.checked] at hunchecked
    contradiction
  · have hsame := @postProcess_sameClient world.fs id info world.clock request.route body.items
      body.processed
    refine ⟨.parsed auth info heq hgated (hscreens.passed rfl) rfl rfl, ?_, fun hunchecked => ?_,
      fun _ hrefused => ?_⟩
    · rw [postProcess_postprocessor]
      obtain ⟨status, message, checked, authorized, rfl⟩ := hgated
      exact h.parses
    · rw [hsame.authChecked, hauthorizes.checked] at hunchecked
      contradiction
    · rw [hsame.requestAuthorized, hauthorizes.authorized] at hrefused
      contradiction

theorem final_phase (hroute : request.route.gated = true) :
    (answerToConnection world id request none env).2.1.phase ≠ .receiving := by
  have hdispatch := answerToConnection_dispatch world id request none env
  generalize answerToConnection world id request none env = outcome at hdispatch ⊢
  cases hdispatch with
  | upload | pair | send =>
      simp only [uploadFinal, pairFinal, sendFinal]
      repeat' split
      all_goals simp [Request.answer]
  | index route | devices route | notFound route | localCode route | transfers route
  | transfer route | unlock route | exchange route =>
      rw [route] at hroute
      contradiction

theorem proceed_phase {outcome : Outcome} {proceedEnv : ProceedEnv}
    (h : proceed world id request proceedEnv = some outcome) :
    outcome.2.1.phase ≠ .receiving := by
  cases proceed_proceeds h <;> exact Phase.noConfusion

end chunks

theorem routeOf_gated {url method : CString} (h : (routeOf url method).gated = true) :
    method = .lit "POST" := by
  by_contra hnot
  unfold routeOf at h
  simp only [hnot, and_false, if_false] at h
  repeat' split at h
  all_goals contradiction

def BodiesScreened (process : Process) : Prop :=
  ∀ id request, process.requests id = some request → request.route.gated = true →
    request.phase = .receiving → request.Screened

theorem answerToConnection_chunk {world : World} {id : Nat} {request : Request} {body : Body}
    {env : CallEnv} (hroute : request.route.gated = true) :
    answerToConnection world id request (some body) env =
      chunkStep world id request body env := by
  refine answerToConnection_body ?_ body
  cases hcase : request.route <;> simp [hcase, Route.gated] at hroute ⊢

theorem bodiesScreened_next {process after : Process} {event : Event} {entries : List Entry}
    (hscreened : BodiesScreened process) (h : next process event = some (after, entries)) :
    BodiesScreened after := by
  intro id request' hid hroute hphase
  cases next_origin h hid with
  | kept was => exact hscreened id request' was hroute hphase
  | accepted url method clientIp headers fresh quiet new =>
      rw [new] at hroute ⊢
      have hpost := routeOf_gated hroute
      exact ⟨by simp [newConnectionInfo, hpost], fun _ => ⟨rfl, rfl⟩, fun h => by contradiction⟩
  | called upload env request was phase call settled logged new =>
      have hbefore : request.route.gated = true := by
        rw [← hroute, new, (answerToConnection_keeps upload).route]
      cases upload with
      | some body =>
          rw [new, answerToConnection_chunk hbefore]
          exact (chunkStep_outcome hbefore (hscreened id request was hbefore phase)).2
      | none =>
          rw [new] at hphase
          exact absurd hphase (final_phase hbefore)
  | proceeded env request outcome was continues call settled logged new =>
      rw [new] at hphase
      exact absurd hphase (proceed_phase continues)

end LocalDrop
