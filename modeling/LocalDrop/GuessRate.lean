import LocalDrop.Metering

/-! How often the secrets are tried. The limiter paces the charges, and every comparison
belongs to a charge of its own request. -/
namespace LocalDrop
open Lib

/-- The hits behind the charges of a client for a scope. -/
def PacedAt (limit : Nat) (times : List Time) (table : RateLimitTable) (key : CString × CString)
    (now : Time) : Prop :=
  ∃ hits, hits.map Hit.time = times ∧ Paced 60 limit hits (rateWindows 60 now table key) now

theorem PacedAt.later {limit : Nat} {times : List Time} {table : RateLimitTable}
    {key : CString × CString} {now later : Time} (h : PacedAt limit times table key now)
    (hunique : UniqueKeys table) (hlater : now ≤ later) : PacedAt limit times table key later := by
  obtain ⟨hits, htimes, hpaced⟩ := h
  refine ⟨hits, htimes, ?_⟩
  rw [rateWindows_later hunique hlater]
  exact hpaced.later hlater

theorem PacedAt.asked {limit limit' : Nat} {times : List Time} {auth : Auth}
    {key : CString × CString} {now : Time} {clientIp scope : CString}
    (h : PacedAt limit times auth.rateLimits key now) (hunique : UniqueKeys auth.rateLimits)
    (hip : clientIp.length < 46) (hscope : scope.length < 32) (hlimit : 0 < limit')
    (hsame : (clientIp, scope) = key → limit' = limit) :
    PacedAt limit
      (times ++ if (authRateLimitAllow auth clientIp scope limit' 60 now).2 = .allowed ∧
        (clientIp, scope) = key then [now] else [])
      (authRateLimitAllow auth clientIp scope limit' 60 now).1.rateLimits key now := by
  obtain ⟨hits, rfl, hpaced⟩ := h
  obtain ⟨-, hcall⟩ := @authRateLimitAllow_refines auth clientIp scope limit' 60 now hip hscope
    hlimit (by decide) hunique
  have hstep := hpaced.call maxRateLimits (clientIp, scope) limit' (by decide) hlimit hsame
  have htimes := @hitsOf_call_times now _ _ maxRateLimits (rateWindows 60 now auth.rateLimits) key
    (clientIp, scope) limit'
  rw [← hcall] at hstep htimes
  refine ⟨_, ?_, hstep⟩
  rw [List.map_append, htimes]
  simp only [decide_eq_true_eq]

/-- What the log says about a request: it has no comparison while it is receiving, no
charge before the limiter was asked, and one if the limiter let it pass. -/
structure Request.Metered (log : List Entry) (id : Nat) (request : Request) : Prop where
  uncompared : request.phase = .receiving → ∀ mark ∈ comparisons log, mark.id ≠ id
  uncharged : request.info.authChecked = false ∨ request.route.secretLimit = none →
    ∀ mark ∈ charges log, mark.id ≠ id
  empty : request.info.authChecked = false → request.route.secretLimit ≠ none →
    request.info.adminCode.str = CString.empty ∧ request.info.pairCode.str = CString.empty
  charged : ∀ scope limit, request.route.secretLimit = some (scope, limit) →
    request.info.authChecked = true → request.info.responseStatus < 400 →
    ∃ time, ⟨id, request.info.clientIp.str, scope, time⟩ ∈ charges log

def chargeTimes (clientIp scope : CString) (log : List Entry) : List Time :=
  ((charges log).filter fun mark => mark.clientIp = clientIp ∧ mark.scope = scope).map Mark.time

structure Metered (process : Process) : Prop where
  unique : UniqueKeys process.world.auth.rateLimits
  paced : ∀ route scope limit, Route.secretLimit route = some (scope, limit) →
    ∀ clientIp, PacedAt limit (chargeTimes clientIp scope process.log)
      process.world.auth.rateLimits (clientIp, scope) process.world.clock
  wellformed : Wellformed process
  known : ∀ mark ∈ charges process.log ++ comparisons process.log, mark.id < process.nextId
  requests : ∀ id request, process.requests id = some request → request.Metered process.log id
  chargedOnce : ((charges process.log).map Mark.id).Nodup
  comparedOnce : ((comparisons process.log).map Mark.id).Nodup
  paid : ∀ mark ∈ comparisons process.log, ∃ time,
    ⟨mark.id, mark.clientIp, mark.scope, time⟩ ∈ charges process.log

theorem Started.metered {process : Process} (h : Started process) : Metered process := by
  obtain ⟨adminRandom, pairingRandom, hinit⟩ := h.auth
  have hrates := (authInit_tables hinit).2.2
  have hno : ∀ id request, process.requests id ≠ some request := by
    intro id request hid
    rw [h.requests] at hid
    contradiction
  refine ⟨hrates ▸ uniqueKeys_replicate, fun route scope limit _ clientIp => ?_, h.wellformed, ?_,
    fun id request hid => absurd hid (hno id request), ?_, ?_, ?_⟩
  · refine ⟨[], by simp [chargeTimes, charges, h.log], ?_⟩
    rw [rateWindows_init hrates]
    exact paced_nil ..
  all_goals simp [charges, comparisons, h.log]

theorem jobUnlinks_marks (deleted : Deletions) :
    charges (jobUnlinks deleted) = [] ∧ comparisons (jobUnlinks deleted) = [] := by
  constructor
  · simp [charges, jobUnlinks, Entry.charge, List.filterMap_map, Function.comp_def]
  · simp [comparisons, jobUnlinks, Entry.comparison, List.filterMap_map, Function.comp_def]

theorem abortUnlinks_marks (id : Nat) (stage : UploadStage) :
    charges (abortUnlinks id stage) = [] ∧ comparisons (abortUnlinks id stage) = [] := by
  unfold abortUnlinks
  split <;> exact ⟨rfl, rfl⟩

theorem proceed_meter {world : World} {id : Nat} {request : Request} {env : ProceedEnv}
    {outcome : Outcome} (h : proceed world id request env = some outcome) :
    outcome.1.auth.rateLimits = world.auth.rateLimits ∧ charges outcome.2.2 = [] ∧
      comparisons outcome.2.2 = [] ∧ outcome.2.1.phase ≠ .receiving ∧
      ∃ fileSaved stage, outcome.2.1.info =
        { request.info with fileSaved := fileSaved, uploadStage := stage } := by
  have hsame : ∃ fileSaved stage, request.info =
      { request.info with fileSaved := fileSaved, uploadStage := stage } := ⟨_, _, rfl⟩
  cases proceed_proceeds h with
  | exchangeAdd | exchangeMark | pairRefused | pairAccepted | pairMark | sendCleanup =>
      exact ⟨rfl, rfl, rfl, Phase.noConfusion, hsame⟩
  | pairStore =>
      unfold authStorePeerToken
      split <;> exact ⟨rfl, rfl, rfl, Phase.noConfusion, hsame⟩
  | sendRefused =>
      refine ⟨rfl, ?_, ?_, Phase.noConfusion, _, _, rfl⟩
      · rw [charges_append, (jobUnlinks_marks _).1, (abortUnlinks_marks _ _).1]
        rfl
      · rw [comparisons_append, (jobUnlinks_marks _).2, (abortUnlinks_marks _ _).2]
        rfl
  | sendEnqueued =>
      refine ⟨rfl, ?_, ?_, Phase.noConfusion, hsame⟩
      · rw [charges_append, (jobUnlinks_marks _).1]
        rfl
      · rw [comparisons_append, (jobUnlinks_marks _).2]
        rfl

theorem Request.Metered.other {log more : List Entry} {id : Nat} {request : Request}
    (h : request.Metered log id) (hcharges : ∀ mark ∈ charges more, mark.id ≠ id)
    (hcomparisons : ∀ mark ∈ comparisons more, mark.id ≠ id) :
    request.Metered (log ++ more) id where
  uncompared hphase mark hmem := by
    rw [comparisons_append, List.mem_append] at hmem
    rcases hmem with hold | hnew
    · exact h.uncompared hphase mark hold
    · exact hcomparisons mark hnew
  uncharged hunchecked mark hmem := by
    rw [charges_append, List.mem_append] at hmem
    rcases hmem with hold | hnew
    · exact h.uncharged hunchecked mark hold
    · exact hcharges mark hnew
  empty := h.empty
  charged scope limit hsecret hchecked hstatus := by
    obtain ⟨time, hmem⟩ := h.charged scope limit hsecret hchecked hstatus
    exact ⟨time, by rw [charges_append]; exact List.mem_append_left _ hmem⟩

theorem Metered.quiet {process after : Process} {entries : List Entry} (h : Metered process)
    (hlog : after.log = process.log ++ entries) (hcharges : charges entries = [])
    (hcomparisons : comparisons entries = []) (hnext : process.nextId ≤ after.nextId)
    (hunique : UniqueKeys after.world.auth.rateLimits)
    (hpaced : ∀ route scope limit, Route.secretLimit route = some (scope, limit) → ∀ clientIp,
      PacedAt limit (chargeTimes clientIp scope process.log) after.world.auth.rateLimits
        (clientIp, scope) after.world.clock)
    (hwf : Wellformed after)
    (hrequests : ∀ id request, after.requests id = some request →
      request.Metered process.log id) : Metered after := by
  have hcharges' : charges after.log = charges process.log := by
    rw [hlog, charges_append, hcharges, List.append_nil]
  have hcomparisons' : comparisons after.log = comparisons process.log := by
    rw [hlog, comparisons_append, hcomparisons, List.append_nil]
  refine ⟨hunique, ?_, hwf, ?_, ?_, ?_, ?_, ?_⟩
  · intro route scope limit hsecret clientIp
    rw [chargeTimes, hcharges']
    exact hpaced route scope limit hsecret clientIp
  · intro mark hmem
    rw [hcharges', hcomparisons'] at hmem
    exact lt_of_lt_of_le (h.known mark hmem) hnext
  · intro id request hid
    rw [hlog]
    exact (hrequests id request hid).other (by simp [hcharges]) (by simp [hcomparisons])
  · rw [hcharges']
    exact h.chargedOnce
  · rw [hcomparisons']
    exact h.comparedOnce
  · rw [hcharges', hcomparisons']
    exact h.paid

theorem RateUse.unique {auth auth' : Auth} {clientIp : CString} {now : Time}
    (h : RateUse auth clientIp now auth') (hip : clientIp.length < 46)
    (hunique : UniqueKeys auth.rateLimits) : UniqueKeys auth'.rateLimits := by
  cases h with
  | none same => exact same ▸ hunique
  | asked scope limit fits positive other same =>
      rw [same]
      exact (authRateLimitAllow_refines hip fits positive (by decide) hunique).1

theorem RateUse.paced {auth auth' : Auth} {clientIp : CString} {now : Time}
    (h : RateUse auth clientIp now auth') (hip : clientIp.length < 46)
    (hunique : UniqueKeys auth.rateLimits) {route : Route} {scope : CString} {limit : Nat}
    (hsecret : route.secretLimit = some (scope, limit)) {client : CString} {times : List Time}
    (hpaced : PacedAt limit times auth.rateLimits (client, scope) now) :
    PacedAt limit times auth'.rateLimits (client, scope) now := by
  cases h with
  | none same => exact same ▸ hpaced
  | asked scope' limit' fits positive other same =>
      have hne : (clientIp, scope') ≠ (client, scope) := by
        intro heq
        rw [Prod.mk.injEq] at heq
        exact other route limit (heq.2 ▸ hsecret)
      have hasked := hpaced.asked hunique hip fits positive fun heq => absurd heq hne
      rw [if_neg fun hboth => hne hboth.2, List.append_nil] at hasked
      rw [same]
      exact hasked

section metered
variable {process after : Process} {id : Nat} {request : Request} {outcome : Outcome}

theorem settled_requests (entries : List Entry)
    (hrequests : after.requests = Function.update process.requests id (some outcome.2.1))
    (h : Metered process) (hcaller : outcome.2.1.Metered (process.log ++ entries) id)
    (hcharges : ∀ mark ∈ charges entries, mark.id = id)
    (hcomparisons : ∀ mark ∈ comparisons entries, mark.id = id) :
    ∀ other request', after.requests other = some request' →
      request'.Metered (process.log ++ entries) other := by
  intro other request' hother
  rw [hrequests] at hother
  by_cases hid : other = id
  · subst hid
    rw [Function.update_self, Option.some.injEq] at hother
    exact hother ▸ hcaller
  · rw [Function.update_of_ne hid] at hother
    refine (h.requests other request' hother).other ?_ ?_
    · intro mark hmem heq
      exact hid (heq.symm.trans (hcharges mark hmem))
    · intro mark hmem heq
      exact hid (heq.symm.trans (hcomparisons mark hmem))

theorem metered_chunk {request' : Request} {log : List Entry}
    (huncompared : ∀ mark ∈ comparisons log, mark.id ≠ id)
    (hroute : request'.route = request.route) {scope : CString} {limit : Nat}
    (hsecret : request.route.secretLimit = some (scope, limit))
    (hchecked : request'.info.authChecked = true)
    (hcharged : request'.info.responseStatus < 400 →
      ∃ time, ⟨id, request'.info.clientIp.str, scope, time⟩ ∈ charges log) :
    request'.Metered log id where
  uncompared _ := huncompared
  uncharged hnone := by
    rw [hchecked, hroute, hsecret] at hnone
    rcases hnone with hnone | hnone <;> contradiction
  empty hunchecked := by
    rw [hchecked] at hunchecked
    contradiction
  charged scope' limit' hsecret' _ hstatus := by
    rw [hroute, hsecret] at hsecret'
    simp only [Option.some.injEq, Prod.mk.injEq] at hsecret'
    exact hsecret'.1 ▸ hcharged hstatus

theorem Request.Metered.final {request' : Request} {log : List Entry}
    (h : request.Metered log id) (hroute : request'.route = request.route)
    (hinfo : request'.info = request.info) (hphase : request'.phase ≠ .receiving) :
    request'.Metered log id where
  uncompared hreceiving := absurd hreceiving hphase
  uncharged hnone := h.uncharged (by rwa [hroute, hinfo] at hnone)
  empty hunchecked hsecret := by
    rw [hinfo] at hunchecked ⊢
    exact h.empty hunchecked (hroute ▸ hsecret)
  charged scope limit hsecret hchecked hstatus := by
    rw [hinfo] at hchecked hstatus ⊢
    exact h.charged scope limit (hroute ▸ hsecret) hchecked hstatus

theorem Metered.charge (h : Metered process) {scope : CString} {limit : Nat} {clientIp : CString}
    (hwas : process.requests id = some request) (hphase : request.phase = .receiving)
    (hip : clientIp.length < 46) (hunchecked : request.info.authChecked = false)
    (hsecret : request.route.secretLimit = some (scope, limit))
    (hallowed : (authRateLimitAllow process.world.auth clientIp scope limit 60
      process.world.clock).2 = .allowed)
    (hrates : after.world.auth.rateLimits = (authRateLimitAllow process.world.auth clientIp scope
      limit 60 process.world.clock).1.rateLimits)
    (hclock : after.world.clock = process.world.clock)
    {entries : List Entry} (hlog : after.log = process.log ++ entries)
    (hcharges : charges entries = [⟨id, clientIp, scope, process.world.clock⟩])
    (hcomparisons : comparisons entries = [])
    (hrequests : after.requests = Function.update process.requests id (some outcome.2.1))
    (hroute : outcome.2.1.route = request.route)
    (hclient : outcome.2.1.info.clientIp.str = clientIp)
    (hchecked : outcome.2.1.info.authChecked = true)
    (hnext : after.nextId = process.nextId)
    (hwf : Wellformed after) :
    Metered after := by
  have hmetered := h.requests id request hwas
  have hscope : scope.length < 32 ∧ 0 < limit := by
    rcases secretLimit_eq_some hsecret with ⟨-, rfl, rfl⟩ | ⟨-, rfl, rfl⟩ <;> decide
  have hcharges' : charges after.log =
      charges process.log ++ [⟨id, clientIp, scope, process.world.clock⟩] := by
    rw [hlog, charges_append, hcharges]
  have hcomparisons' : comparisons after.log = comparisons process.log := by
    rw [hlog, comparisons_append, hcomparisons, List.append_nil]
  refine ⟨?_, ?_, hwf, ?_, ?_, ?_, ?_, ?_⟩
  · rw [hrates]
    exact (authRateLimitAllow_refines hip hscope.1 hscope.2 (by decide) h.unique).1
  · intro route scope' limit' hsecret' client
    have hasked := (h.paced route scope' limit' hsecret' client).asked h.unique hip hscope.1
      hscope.2 (fun heq => secretLimit_unique hsecret
        (by rw [← (Prod.mk.inj heq).2] at hsecret'; exact hsecret'))
    have htimes : chargeTimes client scope' after.log = chargeTimes client scope' process.log ++
        if (authRateLimitAllow process.world.auth clientIp scope limit 60
            process.world.clock).2 = .allowed ∧ (clientIp, scope) = (client, scope')
        then [process.world.clock] else [] := by
      rw [chargeTimes, hcharges', List.filter_append, List.map_append]
      simp only [hallowed, true_and, Prod.mk.injEq]
      by_cases hsame : clientIp = client ∧ scope = scope'
      · simp [hsame, chargeTimes]
      · rw [if_neg hsame, List.filter_singleton]
        simp only [decide_eq_false hsame, chargeTimes]
        rfl
    rw [htimes, hrates, hclock]
    exact hasked
  · intro mark hmem
    rw [hcharges', hcomparisons', List.mem_append, List.mem_append, List.mem_singleton] at hmem
    rw [hnext]
    rcases hmem with (hold | rfl) | hold
    · exact h.known mark (List.mem_append_left _ hold)
    · exact h.wellformed.lt hwas
    · exact h.known mark (List.mem_append_right _ hold)
  · rw [hlog]
    refine settled_requests _ hrequests h ?_ (by simp [hcharges]) (by simp [hcomparisons])
    refine metered_chunk ?_ hroute hsecret hchecked fun _ => ⟨process.world.clock, ?_⟩
    · rw [comparisons_append, hcomparisons, List.append_nil]
      exact hmetered.uncompared hphase
    · rw [charges_append, hcharges, hclient]
      simp
  · rw [hcharges', List.map_append]
    refine List.Nodup.append h.chargedOnce (List.nodup_singleton _) ?_
    intro mark hold hnew
    obtain ⟨charge, hcharge, rfl⟩ := List.mem_map.mp hold
    exact hmetered.uncharged (.inl hunchecked) charge hcharge (List.mem_singleton.mp hnew)
  · rw [hcomparisons']
    exact h.comparedOnce
  · intro mark hmem
    rw [hcomparisons'] at hmem
    obtain ⟨time, hpaid⟩ := h.paid mark hmem
    exact ⟨time, by rw [hcharges']; exact List.mem_append_left _ hpaid⟩

theorem Metered.compare (h : Metered process) {mark : Mark} {entries : List Entry}
    (hwas : process.requests id = some request) (hphase : request.phase = .receiving)
    (hmark : mark.id = id)
    (hpaid : ∃ time, ⟨mark.id, mark.clientIp, mark.scope, time⟩ ∈ charges process.log)
    (hrates : after.world.auth.rateLimits = process.world.auth.rateLimits)
    (hclock : after.world.clock = process.world.clock)
    (hlog : after.log = process.log ++ entries) (hcharges : charges entries = [])
    (hcomparisons : comparisons entries = [mark])
    (hrequests : after.requests = Function.update process.requests id (some outcome.2.1))
    (hroute : outcome.2.1.route = request.route) (hinfo : outcome.2.1.info = request.info)
    (hanswered : outcome.2.1.phase ≠ .receiving) (hnext : after.nextId = process.nextId)
    (hwf : Wellformed after) :
    Metered after := by
  have hmetered := h.requests id request hwas
  have hcharges' : charges after.log = charges process.log := by
    rw [hlog, charges_append, hcharges, List.append_nil]
  have hcomparisons' : comparisons after.log = comparisons process.log ++ [mark] := by
    rw [hlog, comparisons_append, hcomparisons]
  refine ⟨hrates ▸ h.unique, ?_, hwf, ?_, ?_, ?_, ?_, ?_⟩
  · intro route scope limit hsecret client
    rw [chargeTimes, hcharges', hrates, hclock]
    exact h.paced route scope limit hsecret client
  · intro other hmem
    rw [hcharges', hcomparisons', ← List.append_assoc, List.mem_append, List.mem_singleton] at hmem
    rw [hnext]
    rcases hmem with hold | rfl
    · exact h.known other hold
    · exact hmark ▸ h.wellformed.lt hwas
  · rw [hlog]
    refine settled_requests _ hrequests h ?_ (by simp [hcharges]) (by simp [hcomparisons, hmark])
    have hfinal := hmetered.final hroute hinfo hanswered
    refine ⟨fun hreceiving => absurd hreceiving hanswered, ?_, hfinal.empty, ?_⟩
    · rw [charges_append, hcharges, List.append_nil]
      exact hfinal.uncharged
    · rw [charges_append, hcharges, List.append_nil]
      exact hfinal.charged
  · rw [hcharges']
    exact h.chargedOnce
  · rw [hcomparisons', List.map_append]
    refine List.Nodup.append h.comparedOnce (List.nodup_singleton _) ?_
    intro number hold hnew
    obtain ⟨other, hother, rfl⟩ := List.mem_map.mp hold
    exact hmetered.uncompared hphase other hother
      ((List.mem_singleton.mp hnew).trans hmark)
  · intro other hmem
    rw [hcomparisons', List.mem_append, List.mem_singleton] at hmem
    rw [hcharges']
    rcases hmem with hold | rfl
    · exact h.paid other hold
    · exact hpaid

theorem metered_call (h : Metered process) (hwas : process.requests id = some request)
    (hphase : request.phase = .receiving) (hkeeps : Keeps process.world request outcome)
    (hmeter : CallMeter process.world id request outcome) (hworld : after.world = outcome.1)
    (hrequests : after.requests = Function.update process.requests id (some outcome.2.1))
    (hnext : after.nextId = process.nextId) (hlog : after.log = process.log ++ outcome.2.2)
    (hwf : Wellformed after) : Metered after := by
  have hmetered := h.requests id request hwas
  have hip := request.info.clientIp.fits
  have hclock : after.world.clock = process.world.clock := by rw [hworld, hkeeps.clock]
  -- Where the log has no new mark, the caller has to be right for the old log.
  have hsettled : outcome.2.1.Metered process.log id → ∀ other request',
      after.requests other = some request' → request'.Metered process.log other := by
    intro hcaller
    have hall := settled_requests [] hrequests h (by simpa using hcaller) (by simp [charges])
      (by simp [comparisons])
    simpa using hall
  have hsame : after.world.auth.rateLimits = process.world.auth.rateLimits →
      UniqueKeys after.world.auth.rateLimits ∧
      ∀ route scope limit, Route.secretLimit route = some (scope, limit) → ∀ clientIp,
        PacedAt limit (chargeTimes clientIp scope process.log) after.world.auth.rateLimits
          (clientIp, scope) after.world.clock := by
    intro hrates
    rw [hrates, hclock]
    exact ⟨h.unique, h.paced⟩
  cases hmeter with
  | plain secret use charged compared =>
      refine h.quiet hlog charged compared hnext.ge ?_ ?_ hwf (hsettled ?_)
      · rw [hworld]
        exact use.unique hip h.unique
      · intro route scope limit hsecret clientIp
        rw [hclock, hworld]
        exact use.paced hip h.unique hsecret (h.paced route scope limit hsecret clientIp)
      · refine ⟨fun _ => hmetered.uncompared hphase, fun _ => hmetered.uncharged (.inr secret),
          ?_, ?_⟩
        · intro _ hsecret
          rw [hkeeps.route] at hsecret
          exact absurd secret hsecret
        · intro scope limit hsecret
          rw [hkeeps.route, secret] at hsecret
          contradiction
  | charging scope limit secret unchecked checked phase rates verdict compared =>
      rw [← hworld] at rates
      rcases verdict with ⟨hallowed, hcharges⟩ | ⟨hrefused, hcharges, hstatus⟩
      · exact h.charge hwas hphase hip unchecked secret hallowed rates hclock hlog hcharges compared
          hrequests hkeeps.route (by rw [hkeeps.clientIp]) checked hnext hwf
      · have hscope : scope.length < 32 ∧ 0 < limit := by
          rcases secretLimit_eq_some secret with ⟨-, rfl, rfl⟩ | ⟨-, rfl, rfl⟩ <;> decide
        refine h.quiet hlog hcharges compared hnext.ge ?_ ?_ hwf (hsettled ?_)
        · rw [rates]
          exact (authRateLimitAllow_refines hip hscope.1 hscope.2 (by decide) h.unique).1
        · intro route scope' limit' hsecret' client
          have hasked := (h.paced route scope' limit' hsecret' client).asked h.unique hip hscope.1
            hscope.2 (fun heq => secretLimit_unique secret
              (by rw [← (Prod.mk.inj heq).2] at hsecret'; exact hsecret'))
          rw [if_neg fun hboth => hrefused hboth.1, List.append_nil] at hasked
          rw [rates, hclock]
          exact hasked
        · exact metered_chunk (hmetered.uncompared hphase) hkeeps.route secret checked
            fun hlt => absurd hlt (not_lt.mpr hstatus)
  | later scope limit secret before checked phase failed rates charged compared =>
      obtain ⟨hunique, hpaced⟩ := hsame (by rw [hworld, rates])
      refine h.quiet hlog charged compared hnext.ge hunique hpaced hwf (hsettled ?_)
      refine metered_chunk (hmetered.uncompared hphase) hkeeps.route secret checked fun hlt => ?_
      rw [hkeeps.clientIp]
      exact hmetered.charged scope limit secret before
        (not_le.mp fun hle => absurd hlt (not_lt.mpr (failed hle)))
  | final scope limit secret same phase rates charged compared =>
      obtain ⟨hunique, hpaced⟩ := hsame (by rw [hworld, rates])
      rcases compared with hnone | ⟨hmark, hstatus, hcode⟩
      · exact h.quiet hlog charged hnone hnext.ge hunique hpaced hwf
          (hsettled (hmetered.final hkeeps.route same phase))
      · have hchecked : request.info.authChecked = true := by
          rw [← Bool.not_eq_false]
          intro hunchecked
          have hempty := hmetered.empty hunchecked (by rw [secret]; exact Option.some_ne_none _)
          rcases hcode with hcode | hcode
          · exact hcode hempty.1
          · exact hcode hempty.2
        exact h.compare hwas hphase rfl (hmetered.charged scope limit secret hchecked hstatus)
          (by rw [hworld, rates]) hclock hlog charged hmark hrequests hkeeps.route same phase hnext
          hwf

theorem next_quiet {event : Event} {entries : List Entry}
    (hevent : ∀ id upload env, event ≠ .call id upload env)
    (h : next process event = some (after, entries)) :
    charges entries = [] ∧ comparisons entries = [] ∧
      after.world.auth.rateLimits = process.world.auth.rateLimits ∧
      process.nextId ≤ after.nextId := by
  cases next_steps h with
  | call id upload env request was phase => exact absurd rfl (hevent id upload env)
  | proceed id env request outcome was continues =>
      obtain ⟨hrates, hcharges, hcomparisons, -⟩ := proceed_meter continues
      exact ⟨hcharges, hcomparisons, hrates, le_refl _⟩
  | completed id request was releasable =>
      unfold requestCompleted
      split
      · exact ⟨rfl, rfl, rfl, le_refl _⟩
      · exact ⟨(abortUnlinks_marks _ _).1, (abortUnlinks_marks _ _).2, rfl, le_refl _⟩
  | workerDone success result ends =>
      exact ⟨(jobUnlinks_marks _).1, (jobUnlinks_marks _).2, rfl, le_refl _⟩
  | accept url method clientIp headers serving => exact ⟨rfl, rfl, rfl, Nat.le_succ _⟩
  | tick | workerTake | workerCall | workerProgress | workerExit | resolved | removed
  | serverStop | queueShutdown => exact ⟨rfl, rfl, rfl, le_refl _⟩

theorem newConnectionInfo_metered {log : List Entry} {route : Route} {headers : Headers}
    {method : CString} {clientIp : Chars 46}
    (hfresh : ∀ mark ∈ charges log ++ comparisons log, mark.id ≠ id) :
    Request.Metered log id ⟨route, headers, newConnectionInfo method clientIp, 0, .receiving⟩ where
  uncompared _ mark hmem := hfresh mark (List.mem_append_right _ hmem)
  uncharged _ mark hmem := hfresh mark (List.mem_append_left _ hmem)
  empty _ _ := ⟨rfl, rfl⟩
  charged _ _ _ hchecked := by contradiction

theorem metered_step (process : Process) (event : Event) (after : Process)
    (h : Metered process) (hstep : step process event = some after) : Metered after := by
  obtain ⟨settled, entries, hnext, rfl⟩ := step_eq_some hstep
  have hwf := next_wellformed h.wellformed hnext
  have hwf' : Wellformed { settled with log := process.log ++ entries } := ⟨hwf.requests, hwf.ids⟩
  by_cases hcall : ∃ id upload env, event = .call id upload env
  · obtain ⟨id, upload, env, rfl⟩ := hcall
    cases next_steps hnext with
    | call _ _ _ request was phase =>
        exact metered_call h was phase (answerToConnection_keeps upload)
          (answerToConnection_callMeter upload) rfl rfl rfl rfl hwf'
  · have hevent : ∀ id upload env, event ≠ .call id upload env :=
      fun id upload env heq => hcall ⟨id, upload, env, heq⟩
    obtain ⟨hcharges, hcomparisons, hrates, hle⟩ := next_quiet hevent hnext
    have hclock := (next_clock hnext).1
    refine @Metered.quiet process { settled with log := process.log ++ entries } entries h rfl
      hcharges hcomparisons hle (hrates ▸ h.unique) ?_ hwf' ?_
    · intro route scope limit hsecret clientIp
      have hlater := (h.paced route scope limit hsecret clientIp).later h.unique hclock
      rw [← hrates] at hlater
      exact hlater
    · intro id request' hid
      cases next_origin hnext hid with
      | kept was => exact h.requests id request' was
      | accepted url method clientIp headers fresh quiet new =>
          rw [new]
          refine newConnectionInfo_metered fun mark hmem heq => ?_
          exact absurd (h.known mark hmem) (by omega)
      | called upload env request was phase call settled logged new =>
          exact absurd call (hevent id upload env)
      | proceeded env request outcome was continues call settled logged new =>
          obtain ⟨-, -, -, hphase, fileSaved, stage, hinfo⟩ := proceed_meter continues
          have hold := h.requests id request was
          have hroute := (proceed_keeps continues).route
          rw [new]
          refine ⟨fun hreceiving => absurd hreceiving hphase, ?_, ?_, ?_⟩
          · rw [hroute, hinfo]
            exact hold.uncharged
          · rw [hroute, hinfo]
            exact hold.empty
          · rw [hroute, hinfo]
            exact hold.charged

end metered

def Mark.concerns (clientIp scope : CString) (mark : Mark) : Prop :=
  mark.clientIp = clientIp ∧ mark.scope = scope

instance (clientIp scope : CString) (mark : Mark) : Decidable (mark.concerns clientIp scope) :=
  inferInstanceAs (Decidable (_ ∧ _))

def Mark.within (first : Time) (mark : Mark) : Prop :=
  first ≤ mark.time ∧ mark.time ≤ first + 60

instance (first : Time) (mark : Mark) : Decidable (mark.within first) :=
  inferInstanceAs (Decidable (_ ∧ _))

def Mark.chargedWithin (log : List Entry) (first : Time) (mark : Mark) : Prop :=
  ∃ charge ∈ charges log, charge.id = mark.id ∧ charge.within first

instance (log : List Entry) (first : Time) (mark : Mark) :
    Decidable (mark.chargedWithin log first) :=
  inferInstanceAs (Decidable (∃ charge ∈ charges log, _))

theorem Metered.charges_bounded {process : Process} (h : Metered process) {route : Route}
    {scope : CString} {limit : Nat} (hsecret : route.secretLimit = some (scope, limit))
    (clientIp : CString) (first : Time) :
    (charges process.log).countP (fun mark => mark.concerns clientIp scope ∧ mark.within first) ≤
      2 * limit := by
  obtain ⟨hits, htimes, hpaced⟩ := h.paced route scope limit hsecret clientIp
  have hbound := hpaced.interval first
  have hcount : hits.countP (fun hit => first ≤ hit.time ∧ hit.time ≤ first + 60) =
      (hits.map Hit.time).countP (fun time => first ≤ time ∧ time ≤ first + 60) := by
    rw [List.countP_map]
    rfl
  rw [hcount, htimes, chargeTimes, List.countP_map, List.countP_filter] at hbound
  refine le_trans (List.countP_mono_left fun mark _ hmark => ?_) hbound
  obtain ⟨hconcerns, hwithin⟩ := of_decide_eq_true hmark
  simp only [Function.comp_apply, Bool.and_eq_true, decide_eq_true_eq]
  exact ⟨hwithin, hconcerns⟩

theorem Metered.comparisons_bounded {process : Process} (h : Metered process) (route : Route)
    {scope : CString} {limit : Nat} (hsecret : route.secretLimit = some (scope, limit))
    (clientIp : CString) (first : Time) :
    (comparisons process.log).countP (fun mark => mark.concerns clientIp scope ∧
      mark.chargedWithin process.log first) ≤ 2 * limit := by
  refine le_trans ?_ (h.charges_bounded hsecret clientIp first)
  rw [List.countP_eq_length_filter, List.countP_eq_length_filter, ← List.length_map Mark.id,
    ← @List.length_map _ _ ((charges process.log).filter _) Mark.id]
  have hnodup : (((comparisons process.log).filter fun mark => mark.concerns clientIp scope ∧
      mark.chargedWithin process.log first).map Mark.id).Nodup :=
    h.comparedOnce.sublist (List.filter_sublist.map _)
  refine (hnodup.subperm fun id hid => ?_).length_le
  obtain ⟨mark, hmark, rfl⟩ := List.mem_map.mp hid
  rw [List.mem_filter, decide_eq_true_eq] at hmark
  obtain ⟨hmem, hconcerns, charge, hcharge, hsame, hwithin⟩ := hmark
  obtain ⟨time, hpaid⟩ := h.paid mark hmem
  -- A request is charged once, so this is the charge its comparison was made for.
  have heq : charge = ⟨mark.id, mark.clientIp, mark.scope, time⟩ :=
    List.inj_on_of_nodup_map h.chargedOnce hcharge hpaid hsame
  refine List.mem_map.mpr ⟨charge, List.mem_filter.mpr ⟨hcharge, ?_⟩, hsame⟩
  rw [decide_eq_true_eq]
  refine ⟨?_, hwithin⟩
  rw [heq]
  exact hconcerns

/-- In every run, for every client and every minute, at most 16 comparisons with the admin
code and 24 with the pairing code are made by requests whose first body chunk was let pass
in that minute; every comparison is made by such a request, and by each at most one. -/
theorem guesses_paced {start process : Process} {events : List Event} (hstart : Started start)
    (hrun : run step start events = some process) :
    (∀ clientIp first,
      (comparisons process.log).countP (fun mark =>
        mark.concerns clientIp (.lit "session_unlock") ∧
          mark.chargedWithin process.log first) ≤ 16 ∧
      (comparisons process.log).countP (fun mark =>
        mark.concerns clientIp (.lit "pair_exchange") ∧
          mark.chargedWithin process.log first) ≤ 24) ∧
    (∀ mark ∈ comparisons process.log, ∃ time,
      ⟨mark.id, mark.clientIp, mark.scope, time⟩ ∈ charges process.log) ∧
    ((comparisons process.log).map Mark.id).Nodup := by
  have h := run_invariant metered_step hstart.metered hrun
  exact ⟨fun clientIp first =>
    ⟨h.comparisons_bounded .unlock rfl clientIp first,
      h.comparisons_bounded .exchange rfl clientIp first⟩, h.paid, h.comparedOnce⟩

def guessing (id : Nat) : List Event :=
  [acceptPost "/api/session/unlock" ⟨none, none⟩,
    sendFields id [fieldItem "admin_code" "999999"]]

/-- Eight guesses a minute wait for their final call. -/
def hoarding : List Event :=
  (List.range 8).flatMap guessing ++ [.tick 60] ++
    ((List.range 8).map (· + 8)).flatMap guessing ++ [.tick 60] ++ guessing 16

theorem hoarding_paced : ∃ process, run step sampleStart hoarding = some process ∧
    (comparisons process.log).countP (fun mark =>
      mark.concerns sampleIp.str (.lit "session_unlock") ∧
        mark.chargedWithin process.log 1000) ≤ 16 := by
  obtain ⟨process, hrun⟩ : ∃ process, run step sampleStart hoarding = some process :=
    Option.isSome_iff_exists.mp (by decide +kernel)
  exact ⟨process, hrun, ((guesses_paced sampleStart_started hrun).1 sampleIp.str 1000).1⟩

/-- All of them compare in the second in which the last one was let pass. -/
theorem hoarding_exceeds : ∃ process,
    run step sampleStart (hoarding ++ (List.range 17).map fun id => sendEnd id 0) = some process ∧
    (comparisons process.log).countP (fun mark =>
      mark.concerns sampleIp.str (.lit "session_unlock") ∧ mark.within 1120) = 17 := by
  obtain ⟨process, hrun⟩ : ∃ process, run step sampleStart
      (hoarding ++ (List.range 17).map fun id => sendEnd id 0) = some process :=
    Option.isSome_iff_exists.mp (by decide +kernel)
  have hall : (run step sampleStart
      (hoarding ++ (List.range 17).map fun id => sendEnd id 0)).all (fun process =>
        (comparisons process.log).countP (fun mark =>
          mark.concerns sampleIp.str (.lit "session_unlock") ∧ mark.within 1120) = 17) = true := by
    decide +kernel
  rw [hrun, Option.all_some, decide_eq_true_eq] at hall
  exact ⟨process, hrun, hall⟩

end LocalDrop
