import LocalDrop.Admission

/-! Whether a pairing that was answered with success is on record. Both handlers drop the
results of the calls that write the two tables; between two steps of one of them the rest of
the server does what it likes. -/
namespace LocalDrop
open Lib

/-- The rest of a handler. Before each of its steps come events of others. -/
def handlerRest (id : Nat) (rest : List (List Event × ProceedEnv)) : List Event :=
  rest.flatMap fun part => part.1 ++ [.proceed id part.2]

def handlerEvents (id : Nat) (env : CallEnv) (rest : List (List Event × ProceedEnv)) :
    List Event :=
  .call id none env :: handlerRest id rest

def OthersBetween (id : Nat) (rest : List (List Event × ProceedEnv)) : Prop :=
  ∀ part ∈ rest, ∀ event ∈ part.1, event.request ≠ some id

instance (id : Nat) (rest : List (List Event × ProceedEnv)) :
    Decidable (OthersBetween id rest) :=
  inferInstanceAs (Decidable (∀ part ∈ rest, ∀ event ∈ part.1, event.request ≠ some id))

def Request.reply (request : Request) : Option Reply :=
  match request.phase with
  | .answered reply => some reply
  | _ => none

def Process.AnsweredOk (process : Process) (id : Nat) : Prop :=
  ((process.requests id).bind Request.reply).map Reply.status = some 200

instance (process : Process) (id : Nat) : Decidable (process.AnsweredOk id) :=
  inferInstanceAs (Decidable (_ = _))

/-- The endpoint is marked, and sends to it would carry the token. -/
def Process.Records (process : Process) (ip : CString) (port : UInt16) (token : CString) : Prop :=
  (∃ peer, peerRegistryFindByEndpoint process.world.registry ip port = some peer ∧
    peer.paired = true) ∧
  (authGetPeerToken process.world.auth ip port process.world.clock).2 = some token ∧
  token ≠ CString.empty

/-- The last token that others have written for the endpoint is this one and still good; or they
have written none, and `own` decides. -/
def StandsLast (others : List Entry) (endpoint : CString × UInt16) (token : CString) (now : Time)
    (own : Prop) : Prop :=
  match recordedToken others endpoint with
  | some (last, goodUntil) => last = token ∧ now < goodUntil
  | none => own

/-- The whole text of the first `"field":"..."` in a body. -/
def fieldText (body : Bytes) (field : CString) : Option CString := do
  let pattern := fieldPattern field "\":\""
  let found ← strstr pattern (CString.ofBuffer body).bytes
  let value ← before 34 (found.drop pattern.length)
  pure (CString.ofBuffer value)

/-- What is made of the body's `expires_at`. -/
def statedExpiry (body : Bytes) : Time :=
  (extractJsonLongField (CString.ofBuffer body) (.lit "expires_at")).getD 0

structure ExchangePath (process : Process) (id : Nat) (request : Request) (env : CallEnv)
    (rest : List (List Event × ProceedEnv)) (after : Process) (port : UInt16) (token : CString)
    (issued adding : Process) : Prop where
  port : parsePort request.info.peerPort.str = some port
  issues : step process (.call id none env) = some issued
  adds : ∃ others addEnv tail, rest = (others, addEnv) :: tail ∧
    run step issued others = some adding
  answers : ∃ expiresAt, after.requests id =
    some (request.answer (.json 200 (pairResponse pairMessage token expiresAt)))

structure PairPath (process : Process) (id : Nat) (request : Request) (env : CallEnv)
    (rest : List (List Event × ProceedEnv)) (port : UInt16) (body : Bytes)
    (storing stored : Process) : Prop where
  port : parsePort request.info.targetPort.str = some port
  replied : ∃ others remote tail status, rest = (others, remote) :: tail ∧
    remote.transport = .replied status (some body) ∧ 200 ≤ status ∧ status < 300
  stores : ∃ first others storeEnv tail, rest = first :: (others, storeEnv) :: tail ∧
    run step process (handlerEvents id env [first] ++ others) = some storing ∧
    step storing (.proceed id storeEnv) = some stored

section handlers
variable {process after : Process} {id : Nat} {request : Request} {reply : Reply}
  {rest : List (List Event × ProceedEnv)}

theorem Process.AnsweredOk.exists_reply (h : process.AnsweredOk id)
    (hid : process.requests id = some request) :
    ∃ reply, request.phase = .answered reply ∧ reply.status = 200 := by
  obtain ⟨reply, hbind, hstatus⟩ := Option.map_eq_some_iff.mp h
  rw [hid, Option.bind_some] at hbind
  refine ⟨reply, ?_, hstatus⟩
  unfold Request.reply at hbind
  split at hbind
  · rename_i heq
    exact heq.trans (congrArg Phase.answered (Option.some.inj hbind))
  · contradiction

theorem request_of_others {others : List Event} (hwf : Wellformed process)
    (hwas : process.requests id = some request)
    (hothers : ∀ event ∈ others, event.request ≠ some id)
    (hrun : run step process others = some after) :
    Wellformed after ∧ after.requests id = some request := by
  induction others generalizing process with
  | nil =>
      cases Option.some.inj hrun
      exact ⟨hwf, hwas⟩
  | cons event others ih =>
      obtain ⟨moved, hstep, hrun⟩ := run_cons_eq_some hrun
      have hwf' := wellformed_step hwf hstep
      obtain ⟨settled, entries, hnext, rfl⟩ := step_eq_some hstep
      have hkept := next_of_other hwf hnext (hothers event (by simp)) hwas
      exact ih hwf' hkept (fun other hother => hothers other (by simp [hother])) hrun

theorem handler_continues (hwf : Wellformed process) (hwas : process.requests id = some request)
    (hphase : ∀ reply, request.phase ≠ .answered reply) (hothers : OthersBetween id rest)
    (h : run step process (handlerRest id rest) = some after) (hok : after.AnsweredOk id) :
    ∃ others env tail moving outcome moved, rest = (others, env) :: tail ∧
      run step process others = some moving ∧
      proceed moving.world id request env = some outcome ∧
      step moving (.proceed id env) = some moved ∧ moved.world = outcome.1 ∧
      moved.requests id = some outcome.2.1 ∧ Wellformed moved ∧
      run step moved (handlerRest id tail) = some after := by
  cases rest with
  | nil =>
      cases Option.some.inj h
      obtain ⟨reply, hreply, -⟩ := hok.exists_reply hwas
      exact absurd hreply (hphase reply)
  | cons part tail =>
      obtain ⟨others, env⟩ := part
      rw [handlerRest, List.flatMap_cons, List.append_assoc, run_append] at h
      obtain ⟨moving, hmoving, h⟩ := Option.bind_eq_some_iff.mp h
      obtain ⟨moved, hstep, h⟩ := run_cons_eq_some h
      obtain ⟨hwf', hthere⟩ := request_of_others hwf hwas (hothers (others, env) (by simp)) hmoving
      have hwf'' := wellformed_step hwf' hstep
      obtain ⟨settled, entries, hnext, rfl⟩ := step_eq_some hstep
      cases next_steps hnext with
      | proceed _ _ request' outcome was continues =>
          cases Option.some.inj (was.symm.trans hthere)
          exact ⟨others, env, tail, moving, outcome, _, rfl, hmoving, continues, hstep, rfl,
            Function.update_self .., hwf'', h⟩

theorem handler_ended (hwf : Wellformed process) (hwas : process.requests id = some request)
    (hstuck : ∀ world env, proceed world id request env = none) (hothers : OthersBetween id rest)
    (h : run step process (handlerRest id rest) = some after) : rest = [] ∧ after = process := by
  cases rest with
  | nil =>
      cases Option.some.inj h
      exact ⟨rfl, rfl⟩
  | cons part tail =>
      rw [handlerRest, List.flatMap_cons, List.append_assoc, run_append] at h
      obtain ⟨moving, hmoving, h⟩ := Option.bind_eq_some_iff.mp h
      obtain ⟨moved, hstep, -⟩ := run_cons_eq_some h
      have hthere := (request_of_others hwf hwas (hothers part (by simp)) hmoving).2
      obtain ⟨settled, entries, hnext, -⟩ := step_eq_some hstep
      cases next_steps hnext with
      | proceed _ _ request' outcome was continues =>
          cases Option.some.inj (was.symm.trans hthere)
          rw [hstuck] at continues
          contradiction

theorem OthersBetween.tail {part : List Event × ProceedEnv}
    (h : OthersBetween id (part :: rest)) : OthersBetween id rest :=
  fun other hother => h other (by simp [hother])

theorem answerToConnection_refused {world : World} {env : CallEnv}
    (hroute : request.route = .exchange ∨ request.route = .pair)
    (h : (answerToConnection world id request none env).2.1.phase = .answered reply) :
    400 ≤ reply.status := by
  rcases hroute with hroute | hroute
  · simp only [answerToConnection, hroute, exchangeFinal] at h
    repeat' split at h
    all_goals simp only [Request.answer, Phase.answered.injEq, reduceCtorEq] at h
    all_goals subst h
    all_goals simp_all [errorReply, ConnectionInfo.errorReply]
  · simp only [answerToConnection, hroute, pairFinal] at h
    repeat' split at h
    all_goals simp only [Request.answer, Phase.answered.injEq, reduceCtorEq] at h
    all_goals subst h
    all_goals simp_all [errorReply, ConnectionInfo.errorReply]

/-- The final call, when the handler is answered with success in the end. -/
theorem handler_begins {env : CallEnv} (hwf : Wellformed process)
    (hwas : process.requests id = some request)
    (hroute : request.route = .exchange ∨ request.route = .pair) (hothers : OthersBetween id rest)
    (h : run step process (handlerEvents id env rest) = some after) (hok : after.AnsweredOk id) :
    ∃ called, step process (.call id none env) = some called ∧ Wellformed called ∧
      called.world = (answerToConnection process.world id request none env).1 ∧
      called.requests id = some (answerToConnection process.world id request none env).2.1 ∧
      run step called (handlerRest id rest) = some after ∧ request.phase = .receiving ∧
      (answerToConnection process.world id request none env).2.1.phase ≠ .receiving ∧
      ∀ reply, (answerToConnection process.world id request none env).2.1.phase ≠
        .answered reply := by
  obtain ⟨called, hcall, h⟩ := run_cons_eq_some h
  have hwf' := wellformed_step hwf hcall
  have hissues := hcall
  obtain ⟨settled, entries, hnext, rfl⟩ := step_eq_some hcall
  cases next_steps hnext with
  | call _ _ _ request' was phase =>
      cases Option.some.inj (was.symm.trans hwas)
      have hthere := Function.update_self id
        (some (answerToConnection process.world id request none env).2.1) process.requests
      refine ⟨_, hissues, hwf', rfl, hthere, h, phase, fun hreceiving => ?_,
        fun reply hreply => ?_⟩
      · obtain ⟨-, rfl⟩ := handler_ended hwf' hthere
          (fun world env => by simp [proceed, hreceiving]) hothers h
        obtain ⟨reply, hreply, -⟩ := hok.exists_reply hthere
        rw [hreceiving] at hreply
        contradiction
      · obtain ⟨-, rfl⟩ := handler_ended hwf' hthere (fun _ _ => proceed_answered hreply) hothers h
        obtain ⟨last, hlast, hstatus⟩ := hok.exists_reply hthere
        rw [hreply, Phase.answered.injEq] at hlast
        have hrefused := answerToConnection_refused hroute hreply
        rw [hlast, hstatus] at hrefused
        contradiction

theorem handler_adds {port : UInt16} {token : CString} {expiresAt : Time}
    (hwf : Wellformed process)
    (hwas : process.requests id = some { request with phase := .exchangeAdd port token expiresAt })
    (hothers : OthersBetween id rest) (h : run step process (handlerRest id rest) = some after)
    (hok : after.AnsweredOk id) :
    ∃ others env tail adding added, rest = (others, env) :: tail ∧
      run step process others = some adding ∧ step adding (.proceed id env) = some added ∧
      added.world.registry = (peerRegistryAddOrUpdate adding.world.registry
        request.info.peerName.str request.info.clientIp.str port adding.world.clock).1 ∧
      added.requests id = some { request with phase := .exchangeMark port token expiresAt } ∧
      Wellformed added ∧ run step added (handlerRest id tail) = some after := by
  obtain ⟨others, env, tail, adding, outcome, added, hrest, hadding, hadds, hstep, hworld, hthere,
    hwf', h⟩ := handler_continues hwf hwas (by simp) hothers h hok
  cases Option.some.inj hadds
  exact ⟨others, env, tail, adding, added, hrest, hadding, hstep, congrArg World.registry hworld,
    hthere, hwf', h⟩

theorem handler_marks {ip : CString} {port : UInt16} (hwf : Wellformed process)
    (hwas : process.requests id = some request) (hmarking : request.marking = some (ip, port))
    (hothers : OthersBetween id rest) (h : run step process (handlerRest id rest) = some after)
    (hok : after.AnsweredOk id) :
    ∃ others env marking outcome, rest = [(others, env)] ∧
      run step process others = some marking ∧
      proceed marking.world id request env = some outcome ∧
      after.requests id = some outcome.2.1 ∧ after.world = { marking.world with
        registry := (peerRegistrySetPaired marking.world.registry ip port true).1 } := by
  have hphase : ∀ reply, request.phase ≠ .answered reply := by
    intro reply hreply
    simp [Request.marking, hreply] at hmarking
  obtain ⟨others, env, tail, marking, outcome, marked, rfl, hrun, hmarks, -, hworld, hthere, hwf',
    h⟩ := handler_continues hwf hwas hphase hothers h hok
  have hanswered : ∃ reply, outcome.2.1.phase = .answered reply := by
    unfold Request.marking at hmarking
    unfold proceed at hmarks
    split at hmarking <;> rename_i hcase
    · simp only [hcase, Option.some.injEq] at hmarks
      exact ⟨_, by rw [← hmarks]; rfl⟩
    · simp only [hcase, Option.some.injEq] at hmarks
      exact ⟨_, by rw [← hmarks]; rfl⟩
    · contradiction
  obtain ⟨reply, hreply⟩ := hanswered
  obtain ⟨rfl, rfl⟩ := handler_ended hwf' hthere (fun _ _ => proceed_answered hreply) hothers.tail h
  exact ⟨others, env, marking, outcome, rfl, hrun, hmarks, hthere,
    hworld.trans (proceed_marking hmarking hmarks)⟩

theorem extractJsonStringField_eq (body : Bytes) (field : CString) (destSize : Nat) :
    extractJsonStringField (CString.ofBuffer body) field destSize =
      (fieldText body field).map fun text => text.take (destSize - 1) := by
  simp only [extractJsonStringField, fieldText, Option.bind_eq_bind, Option.pure_def]
  cases strstr (fieldPattern field "\":\"") (CString.ofBuffer body).bytes with
  | none => rfl
  | some found =>
      simp only [Option.bind_some]
      cases before 34 (found.drop (fieldPattern field "\":\"").length) <;> rfl

theorem transferPairPeer_paired {transport : PairTransport} {messageSize : Nat}
    {token message : CString} {expiresAt : Int}
    (h : transferPairPeer transport 65 messageSize = .paired token expiresAt message) :
    ∃ status body field, transport = .replied status (some body) ∧ 200 ≤ status ∧ status < 300 ∧
      fieldText body (.lit "token") = some field ∧ token = field.take 64 ∧
      expiresAt = statedExpiry body := by
  unfold transferPairPeer at h
  split at h
  · contradiction
  · contradiction
  · rename_i status body
    dsimp only at h
    split at h
    · contradiction
    · rename_i hsuccess
      cases body with
      | none => contradiction
      | some body =>
          simp only [Option.map_some, Option.bind_some, extractJsonStringField_eq] at h
          cases hfield : fieldText body (.lit "token") with
          | none => simp [hfield] at h
          | some field =>
              simp only [hfield, Option.map_some, PairOutcome.paired.injEq] at h
              exact ⟨status, body, field, rfl, by omega, by omega, hfield, h.1.symm, h.2.1.symm⟩

theorem handler_hears {port : UInt16} {peer : PeerInfo} (hwf : Wellformed process)
    (hwas : process.requests id = some { request with phase := .pairRemote port peer })
    (hothers : OthersBetween id rest) (h : run step process (handlerRest id rest) = some after)
    (hok : after.AnsweredOk id) :
    ∃ others env tail hearing heard status body field, rest = (others, env) :: tail ∧
      run step process others = some hearing ∧ step hearing (.proceed id env) = some heard ∧
      env.transport = .replied status (some body) ∧ 200 ≤ status ∧ status < 300 ∧
      fieldText body (.lit "token") = some field ∧
      heard.requests id = some { request with
        phase := .pairStore port peer (field.take 64) (statedExpiry body) } ∧
      Wellformed heard ∧ run step heard (handlerRest id tail) = some after := by
  obtain ⟨others, env, tail, hearing, outcome, heard, rfl, hhearing, hhears, hstep, hworld, hthere,
    hwf', h⟩ := handler_continues hwf hwas (by simp) hothers h hok
  simp only [proceed] at hhears
  split at hhears
  · cases Option.some.inj hhears
    obtain ⟨rfl, rfl⟩ := handler_ended hwf' hthere (fun _ _ => proceed_answered rfl) hothers.tail h
    obtain ⟨reply, hreply, hstatus⟩ := hok.exists_reply hthere
    cases hreply
    simp at hstatus
  · rename_i token expiresAt message hpaired
    cases Option.some.inj hhears
    obtain ⟨status, body, field, htransport, hlow, hhigh, hfield, rfl, rfl⟩ :=
      transferPairPeer_paired hpaired
    exact ⟨others, env, tail, hearing, heard, status, body, field, rfl, hhearing, hstep, htransport,
      hlow, hhigh, hfield, hthere, hwf', h⟩

theorem handler_stores {port : UInt16} {peer : PeerInfo} {token : CString} {expiresAt : Time}
    (hwf : Wellformed process)
    (hwas : process.requests id =
      some { request with phase := .pairStore port peer token expiresAt })
    (hothers : OthersBetween id rest) (h : run step process (handlerRest id rest) = some after)
    (hok : after.AnsweredOk id) :
    ∃ others env tail storing stored name, rest = (others, env) :: tail ∧
      run step process others = some storing ∧ step storing (.proceed id env) = some stored ∧
      stored.world.auth = (authStorePeerToken storing.world.auth request.info.targetIp.str port name
        token expiresAt).1 ∧
      stored.requests id = some { request with phase := .pairMark port } ∧
      Wellformed stored ∧ run step stored (handlerRest id tail) = some after := by
  obtain ⟨others, env, tail, storing, outcome, stored, hrest, hstoring, hstores, hstep, hworld,
    hthere, hwf', h⟩ := handler_continues hwf hwas (by simp) hothers h hok
  rw [proceed_pairStore rfl] at hstores
  cases Option.some.inj hstores
  exact ⟨others, env, tail, storing, stored, _, hrest, hstoring, hstep,
    congrArg World.auth hworld, hthere, hwf', h⟩

end handlers

theorem exists_room_of_upsert {table table' : PeerTokenTable} {ip name token : CString}
    {port : UInt16} {expiresAt : Time}
    (h : upsertPeerTokenLocked table ip port name token expiresAt = some table') :
    ∃ record ∈ table.slots, record.active = false ∨ record.isFor ip port = true := by
  obtain ⟨pre, old, post, hslots, -, hold⟩ := upsertPeerTokenLocked_eq_some h
  refine ⟨old, by simp [hslots], ?_⟩
  rcases hold with hfor | ⟨hfree, -⟩
  · exact .inr hfor
  · exact .inl hfree

theorem exists_paired_iff {registry : PeerRegistry} {ip : CString} {port : UInt16} :
    (∃ peer, peerRegistryFindByEndpoint (peerRegistrySetPaired registry ip port true).1 ip port =
        some peer ∧ peer.paired = true) ↔
      (peerRegistryFindByEndpoint registry ip port).isSome = true := by
  rw [find_setPaired]
  cases peerRegistryFindByEndpoint registry ip port with
  | none => simp
  | some peer => simp

theorem known_run {process after : Process} {events : List Event} {ip : CString} {port : UInt16}
    (hrun : run step process events = some after)
    (hknown : (peerRegistryFindByEndpoint process.world.registry ip port).isSome = true) :
    (peerRegistryFindByEndpoint after.world.registry ip port).isSome = true := by
  refine @run_invariant _ _ step _ _ _ (fun current =>
    (peerRegistryFindByEndpoint current.world.registry ip port).isSome = true) ?_ hknown hrun
  intro before event next h hstep
  obtain ⟨settled, entries, hnext, rfl⟩ := step_eq_some hstep
  exact (next_registry hnext).grows.isSome h

theorem refuses_run {process after : Process} {events : List Event} {ip : CString} {port : UInt16}
    (hrun : run step process events = some after)
    (hrefuses : process.world.registry.Refuses ip port) :
    after.world.registry.Refuses ip port := by
  refine @run_invariant _ _ step _ _ _ (fun current => current.world.registry.Refuses ip port) ?_
    hrefuses hrun
  intro before event next h hstep
  obtain ⟨settled, entries, hnext, rfl⟩ := step_eq_some hstep
  exact (next_registry hnext).grows.refuses h

/-- What the token table returns, from what was last written at an earlier time and since. -/
theorem get_since_iff {earlier after : Process} {ip token : CString} {port : UInt16} {own : Prop}
    (h : Admitting after) (hlog : earlier.log <+: after.log)
    (hown : (∃ expiresAt, recordedToken earlier.log (ip, port) = some (token, expiresAt) ∧
      after.world.clock < expiresAt) ↔ own) :
    (authGetPeerToken after.world.auth ip port after.world.clock).2 = some token ↔
      StandsLast (after.log.drop earlier.log.length) (ip, port) token after.world.clock own := by
  obtain ⟨since, heq⟩ := hlog
  rw [h.get_iff, ← heq, List.drop_left, recordedToken_append]
  unfold StandsLast
  cases recordedToken since (ip, port) with
  | none => simpa using hown
  | some write =>
      obtain ⟨last, goodUntil⟩ := write
      simp only [Option.some_or, Option.some.injEq, Prod.mk.injEq]
      constructor
      · rintro ⟨expiresAt, ⟨rfl, rfl⟩, hnow⟩
        exact ⟨rfl, hnow⟩
      · rintro ⟨rfl, hnow⟩
        exact ⟨goodUntil, ⟨rfl, rfl⟩, hnow⟩

section recorded
variable {start process after : Process} {events : List Event} {id : Nat} {request : Request}
  {env : CallEnv} {rest : List (List Event × ProceedEnv)}

theorem marked_iff {adding added marking : Process} {others : List Event} {name ip : CString}
    {port : UInt16} {now : Time} {event : Event} (hip : ip.length < 46)
    (hadded : step adding event = some added)
    (hadd : added.world.registry =
      (peerRegistryAddOrUpdate adding.world.registry name ip port now).1)
    (hmarking : run step added others = some marking) :
    (peerRegistryFindByEndpoint marking.world.registry ip port).isSome = true ↔
      (peerRegistryFindByEndpoint adding.world.registry ip port).isSome = true ∨
        adding.world.registry.entries.length < peerRegistryMaxPeers := by
  constructor
  · intro hknown
    rw [← not_refuses_iff]
    intro hrefuses
    have hrun : run step adding (event :: others) = some marking := by
      rw [run, hadded]
      exact hmarking
    rw [(refuses_run hrun hrefuses).1] at hknown
    contradiction
  · intro hroom
    refine known_run hmarking ?_
    rw [hadd]
    exact (find_addOrUpdate adding.world.registry name hip now).mpr hroom

theorem run_handlerEvents_append {called hearing heard storing : Process}
    {others others' : List Event} {remote : ProceedEnv}
    (hcall : step process (.call id none env) = some called)
    (hhearing : run step called others = some hearing)
    (hheard : step hearing (.proceed id remote) = some heard)
    (hstoring : run step heard others' = some storing) :
    run step process (handlerEvents id env [(others, remote)] ++ others') = some storing := by
  have hevents : handlerEvents id env [(others, remote)] =
      .call id none env :: (others ++ [.proceed id remote]) := by
    simp [handlerEvents, handlerRest]
  rw [hevents, List.cons_append, run, hcall, Option.bind_some, run_append,
    run_concat hhearing hheard]
  exact hstoring

theorem exchange_records_iff (hadmitting : Admitting process) (hwf : Wellformed process)
    (hwas : process.requests id = some request) (hroute : request.route = .exchange)
    (hothers : OthersBetween id rest)
    (h : run step process (handlerEvents id env rest) = some after) (hok : after.AnsweredOk id) :
    ∃ port token issued adding,
      ExchangePath process id request env rest after port token issued adding ∧
      (after.Records request.info.clientIp.str port token ↔
        ((peerRegistryFindByEndpoint adding.world.registry request.info.clientIp.str
            port).isSome = true ∨
          adding.world.registry.entries.length < peerRegistryMaxPeers) ∧
        StandsLast (after.log.drop issued.log.length) (request.info.clientIp.str, port) token
          after.world.clock (after.world.clock < process.world.clock + 604800)) := by
  have hafter := run_invariant admitting_step hadmitting h
  obtain ⟨called, hcall, hwf₁, hworld, hthere, h, hphase, hreceiving, hanswered⟩ :=
    handler_begins hwf hwas (.inl hroute) hothers h hok
  have hissued := admitting_step process _ called hadmitting hcall
  have hlog := log_run h
  cases @answerToConnection_callPhase process.world id request env hphase none with
  | receiving phase => exact absurd phase hreceiving
  | answered reply phase => exact absurd phase (hanswered reply)
  | issued port token expiresAt auth route parsed created shared moved =>
      rw [moved] at hthere
      obtain ⟨others, addEnv, tail, adding, added, rfl, hadding, hadded, hadd, hthere, hwf₂, h⟩ :=
        handler_adds hwf₁ hthere hothers h hok
      obtain ⟨others', markEnv, marking, outcome, rfl, hmarking, hmarks, hthere, hmark⟩ :=
        handler_marks hwf₂ hthere rfl hothers.tail h hok
      cases Option.some.inj hmarks
      refine ⟨port, token, called, adding, ⟨parsed, hcall, ⟨others, addEnv, _, rfl, hadding⟩,
        ⟨expiresAt, hthere⟩⟩, ?_⟩
      obtain ⟨current, table, -, -, hrandom, hexpires, hupsert, hauth⟩ :=
        authIssuePairToken_eq_some created
      have hfits : token.length < 65 := by rw [cryptoRandomToken_length hrandom]; decide
      have hne : token ≠ CString.empty := cryptoRandomToken_ne_empty hrandom
      have hrecorded : recordedToken called.log (request.info.clientIp.str, port) =
          some (token, expiresAt) := by
        have hnew := mem_upsert_new hupsert
        have htable : called.world.auth.peerTokens = table := by rw [hworld, shared, hauth]
        have hlogged := (hissued.traced.tokens _ (htable ▸ hnew) rfl).1
        rw [peerTokenRecord_endpoint request.info.clientIp.fits] at hlogged
        rw [hlogged]
        simp [peerTokenRecord, copyString_str_of_lt token hfits]
      have hmarked : (∃ peer, peerRegistryFindByEndpoint after.world.registry
          request.info.clientIp.str port = some peer ∧ peer.paired = true) ↔
          (peerRegistryFindByEndpoint adding.world.registry request.info.clientIp.str
              port).isSome = true ∨
            adding.world.registry.entries.length < peerRegistryMaxPeers := by
        rw [hmark, exists_paired_iff]
        exact marked_iff request.info.clientIp.fits hadded hadd hmarking
      rw [Process.Records, hmarked, get_since_iff hafter hlog ?_, and_iff_left hne]
      rw [hrecorded, hexpires]
      simp [peerTokenTtlSeconds]
  | pairing port peer route valid parsed known shared moved => simp [hroute] at route
  | queued port token route phase => simp [hroute] at route

theorem stored_own_iff {storing stored : Process} {ip name token : CString} {port : UInt16}
    {expiresAt later : Time} (h : Admitting stored) (hip : ip.length < 46)
    (htoken : token.length < 65) (hclock : stored.world.clock ≤ later)
    (hauth : stored.world.auth = (authStorePeerToken storing.world.auth ip port name token
      expiresAt).1) :
    (∃ goodUntil, recordedToken stored.log (ip, port) = some (token, goodUntil) ∧
      later < goodUntil) ↔
      (∃ record ∈ storing.world.auth.peerTokens.slots, record.active = false ∨
        record.isFor ip port = true) ∧ later < expiresAt := by
  unfold authStorePeerToken at hauth
  cases hupsert : upsertPeerTokenLocked storing.world.auth.peerTokens ip port name token
      expiresAt with
  | none =>
      rw [hupsert] at hauth
      have hfull := upsertPeerTokenLocked_eq_none.mp hupsert
      refine iff_of_false ?_ ?_
      · rintro ⟨goodUntil, hrecorded, hnow⟩
        obtain ⟨record, hmem, hactive, hendpoint, -, -⟩ :=
          h.tokens _ _ _ hrecorded (lt_of_le_of_lt hclock hnow)
        rw [hauth] at hmem
        have hfor := PeerTokenRecord.isFor_eq_true.mpr ⟨hactive, hendpoint⟩
        rw [(hfull record hmem).2] at hfor
        contradiction
      · rintro ⟨⟨record, hmem, hfree | hfor⟩, -⟩
        · rw [(hfull record hmem).1] at hfree
          contradiction
        · rw [(hfull record hmem).2] at hfor
          contradiction
  | some table =>
      rw [hupsert] at hauth
      have htable : stored.world.auth.peerTokens = table := by rw [hauth]
      have hlogged := (h.traced.tokens _ (htable ▸ mem_upsert_new hupsert) rfl).1
      rw [peerTokenRecord_endpoint hip] at hlogged
      rw [hlogged, and_iff_right (exists_room_of_upsert hupsert)]
      simp [peerTokenRecord, copyString_str_of_lt token htoken]

theorem pair_records_iff (hadmitting : Admitting process) (hwf : Wellformed process)
    (hwas : process.requests id = some request) (hroute : request.route = .pair)
    (hothers : OthersBetween id rest)
    (h : run step process (handlerEvents id env rest) = some after) (hok : after.AnsweredOk id) :
    ∃ port body field storing stored,
      PairPath process id request env rest port body storing stored ∧
      fieldText body (.lit "token") = some field ∧
      (after.Records request.info.targetIp.str port field ↔
        field ≠ CString.empty ∧ field.length ≤ 64 ∧
        StandsLast (after.log.drop stored.log.length) (request.info.targetIp.str, port) field
          after.world.clock
          ((∃ record ∈ storing.world.auth.peerTokens.slots, record.active = false ∨
              record.isFor request.info.targetIp.str port = true) ∧
            after.world.clock < statedExpiry body)) := by
  have hafter := run_invariant admitting_step hadmitting h
  obtain ⟨called, hcall, hwf₁, hworld, hthere, h, hphase, hreceiving, hanswered⟩ :=
    handler_begins hwf hwas (.inr hroute) hothers h hok
  cases @answerToConnection_callPhase process.world id request env hphase none with
  | receiving phase => exact absurd phase hreceiving
  | answered reply phase => exact absurd phase (hanswered reply)
  | issued port token expiresAt auth route parsed created shared moved => simp [hroute] at route
  | pairing port peer route valid parsed known shared moved =>
      rw [moved] at hthere
      obtain ⟨others, remote, tail, hearing, heard, status, body, field, rfl, hhearing, hheard,
        htransport, hlow, hhigh, hfield, hthere, hwf₂, h⟩ := handler_hears hwf₁ hthere hothers h hok
      obtain ⟨others', storeEnv, tail', storing, stored, name, rfl, hstoring, hstored, hauth,
        hthere, hwf₃, h⟩ := handler_stores hwf₂ hthere hothers.tail h hok
      obtain ⟨others'', markEnv, marking, outcome, rfl, hmarking, hmarks, hthere, hmark⟩ :=
        handler_marks hwf₃ hthere rfl hothers.tail.tail h hok
      have hreaches := run_handlerEvents_append hcall hhearing hheard hstoring
      refine ⟨port, body, field, storing, stored, ⟨parsed, ⟨others, remote, _, status, rfl,
        htransport, hlow, hhigh⟩, ⟨_, others', storeEnv, _, rfl, hreaches, hstored⟩⟩, hfield, ?_⟩
      have hadmitted := admitting_step storing _ stored
        (run_invariant admitting_step hadmitting hreaches) hstored
      have hknown := known_run hmarking (known_run (run_concat hreaches hstored)
        (by rw [known]; rfl))
      have hmarked : ∃ peer, peerRegistryFindByEndpoint after.world.registry
          request.info.targetIp.str port = some peer ∧ peer.paired = true := by
        rw [hmark]
        exact exists_paired_iff.mpr hknown
      rw [Process.Records, and_iff_right hmarked, and_comm]
      refine and_congr_right fun hne => ?_
      by_cases hlength : field.length ≤ 64
      · have hwhole : field.take 64 = field := CString.take_of_length_le field hlength
        rw [hwhole] at hauth
        rw [and_iff_right hlength]
        exact get_since_iff hafter (log_run h) (stored_own_iff hadmitted
          (validateIpAddress_length valid) (by omega) (clock_run h) hauth)
      · refine iff_of_false (fun hget => hlength ?_) fun hboth => hlength hboth.1
        obtain ⟨record, -, -, -, rfl⟩ :=
          (authGetPeerToken_eq_some_iff hafter.traced.unique).mp hget
        exact Nat.le_of_lt_succ record.token.fits
  | queued port token route phase => simp [hroute] at route

end recorded

/-- From every state a process can reach, whatever the rest of the server does between the steps:
a pairing answered with 200 is on record exactly when, for `/api/pair/exchange`, the registry has
the endpoint or room for it when it is added, and for `/api/pair`, the remote's token is not empty,
fits its buffer and finds room in the table when it is stored; and when the last token written for
the endpoint is that one and has time left. -/
theorem pairing_recorded_iff {start process after : Process} {events : List Event} {id : Nat}
    {request : Request} {env : CallEnv} {rest : List (List Event × ProceedEnv)}
    (hstart : Started start) (hrun : run step start events = some process)
    (hwas : process.requests id = some request) (hothers : OthersBetween id rest)
    (h : run step process (handlerEvents id env rest) = some after)
    (hok : after.AnsweredOk id) :
    (request.route = .exchange → ∃ port token issued adding,
      ExchangePath process id request env rest after port token issued adding ∧
      (after.Records request.info.clientIp.str port token ↔
        ((peerRegistryFindByEndpoint adding.world.registry request.info.clientIp.str
            port).isSome = true ∨
          adding.world.registry.entries.length < peerRegistryMaxPeers) ∧
        StandsLast (after.log.drop issued.log.length) (request.info.clientIp.str, port) token
          after.world.clock (after.world.clock < process.world.clock + 604800))) ∧
    (request.route = .pair → ∃ port body field storing stored,
      PairPath process id request env rest port body storing stored ∧
      fieldText body (.lit "token") = some field ∧
      (after.Records request.info.targetIp.str port field ↔
        field ≠ CString.empty ∧ field.length ≤ 64 ∧
        StandsLast (after.log.drop stored.log.length) (request.info.targetIp.str, port) field
          after.world.clock
          ((∃ record ∈ storing.world.auth.peerTokens.slots, record.active = false ∨
              record.isFor request.info.targetIp.str port = true) ∧
            after.world.clock < statedExpiry body))) := by
  have hadmitting := run_invariant admitting_step hstart.admitting hrun
  have hwf : Wellformed process :=
    run_invariant (fun _ _ _ hbefore => wellformed_step hbefore) hstart.wellformed hrun
  exact ⟨fun hroute => exchange_records_iff hadmitting hwf hwas hroute hothers h hok,
    fun hroute => pair_records_iff hadmitting hwf hwas hroute hothers h hok⟩

def beforeExchange : List Event :=
  [acceptPost "/api/pair/exchange" ⟨none, none⟩,
    sendFields 0 [fieldItem "pair_code" "222222", fieldItem "peer_name" "peer",
      fieldItem "peer_port" "8080"]]

/-- The rest of a handler: each time another peer turns up first and some time passes, and the
remote answers 200 with the body. -/
def interrupted (steps : Nat) (body : Bytes) : List (List Event × ProceedEnv) :=
  .replicate steps ([.resolved (.lit "other") (.lit "10.0.0.7") 1, .tick 5],
    ⟨.replied 200 (some body), CString.empty, none⟩)

def honestBody : Bytes := pairResponse pairMessage (sampleToken 8) 700000

def crowd : List Event :=
  (List.range 50).map fun n => .resolved (.lit "other") (.lit "10.0.0.7") (.ofNat (n + 1))

theorem standsLast_of_none {others : List Entry} {endpoint : CString × UInt16} {token : CString}
    {now : Time} {own : Prop} (h : ∀ entry ∈ others, entry.peerToken = none) (hown : own) :
    StandsLast others endpoint token now own := by
  have hnone : recordedToken others endpoint = none :=
    @recordedToken_append_of_none [] others h endpoint
  rw [StandsLast, hnone]
  exact hown

theorem honestPairings_recorded :
    (∃ process after port token, run step sampleStart beforeExchange = some process ∧
      run step process (handlerEvents 0 (sampleEnv 8) (interrupted 2 [])) = some after ∧
      after.AnsweredOk 0 ∧ after.Records sampleIp.str port token) ∧
    ∃ process after port, run step sampleStart beforePair = some process ∧
      run step process (handlerEvents 1 (sampleEnv 8) (interrupted 3 honestBody)) = some after ∧
      after.AnsweredOk 1 ∧ after.Records sampleIp.str port (sampleToken 8) := by
  constructor
  · obtain ⟨process, hprocess⟩ : ∃ process, run step sampleStart beforeExchange = some process :=
      Option.isSome_iff_exists.mp (by decide +kernel)
    have hall : (run step sampleStart beforeExchange).all (fun process =>
        (process.requests 0).any (fun request =>
          request.route = .exchange ∧ request.info.clientIp = sampleIp) ∧
        (run step process (handlerEvents 0 (sampleEnv 8) (interrupted 2 []))).any (fun after =>
          after.AnsweredOk 0 ∧ after.world.clock < process.world.clock + 604800 ∧
          (step process (.call 0 none (sampleEnv 8))).all (fun issued =>
            (∀ entry ∈ after.log.drop issued.log.length, entry.peerToken = none) ∧
            (run step issued [.resolved (.lit "other") (.lit "10.0.0.7") 1, .tick 5]).all
              fun adding => adding.world.registry.entries.length < 50))) = true := by
      decide +kernel
    rw [hprocess] at hall
    simp only [Option.all_some, decide_eq_true_eq, Option.any_eq_true] at hall
    obtain ⟨⟨request, hwas, hroute, hclient⟩, after, hafter, hok, hclock, hissued⟩ := hall
    obtain ⟨port, token, issued, adding, hpath, hiff⟩ :=
      (pairing_recorded_iff sampleStart_started hprocess hwas (by decide) hafter hok).1 hroute
    obtain ⟨others, addEnv, tail, hrest, hadding⟩ := hpath.adds
    cases hrest
    rw [hpath.issues] at hissued
    simp only [Option.all_some, decide_eq_true_eq] at hissued
    obtain ⟨hsilent, hroom⟩ := hissued
    rw [hadding] at hroom
    simp only [Option.all_some, decide_eq_true_eq] at hroom
    have hrecords := hiff.mpr ⟨.inr hroom, standsLast_of_none hsilent hclock⟩
    rw [hclient] at hrecords
    exact ⟨process, after, port, token, hprocess, hafter, hok, hrecords⟩
  · obtain ⟨process, hprocess⟩ : ∃ process, run step sampleStart beforePair = some process :=
      Option.isSome_iff_exists.mp (by decide +kernel)
    have hall : (run step sampleStart beforePair).all (fun process =>
        (process.requests 1).any (fun request =>
          request.route = .pair ∧ request.info.targetIp.str = sampleIp.str) ∧
        (run step process (handlerEvents 1 (sampleEnv 8) (interrupted 3 honestBody))).any
          (fun after => after.AnsweredOk 1 ∧ after.world.clock = 1015 ∧
            (run step process (handlerEvents 1 (sampleEnv 8) (interrupted 1 honestBody) ++
                [.resolved (.lit "other") (.lit "10.0.0.7") 1, .tick 5])).all fun storing =>
              (∃ record ∈ storing.world.auth.peerTokens.slots, record.active = false) ∧
              (step storing (.proceed 1 ⟨.replied 200 (some honestBody), CString.empty, none⟩)).all
                fun stored => ∀ entry ∈ after.log.drop stored.log.length,
                  entry.peerToken = none)) = true := by
      decide +kernel
    rw [hprocess] at hall
    simp only [Option.all_some, decide_eq_true_eq, Option.any_eq_true] at hall
    obtain ⟨⟨request, hwas, hroute, htarget⟩, after, hafter, hok, hclock, hstoring⟩ := hall
    obtain ⟨port, body, field, storing, stored, hpath, hfield, hiff⟩ :=
      (pairing_recorded_iff sampleStart_started hprocess hwas (by decide) hafter hok).2 hroute
    obtain ⟨others, remote, tail, status, hrest, htransport, -, -⟩ := hpath.replied
    cases hrest
    cases htransport
    obtain ⟨first, others, storeEnv, tail, hrest, hruns, hstored⟩ := hpath.stores
    cases hrest
    have hsample : fieldText honestBody (.lit "token") = some (sampleToken 8) := by decide +kernel
    cases hsample.symm.trans hfield
    have hexpiry : statedExpiry honestBody = 700000 := by decide +kernel
    change run step process (handlerEvents 1 (sampleEnv 8) (interrupted 1 honestBody) ++
      [.resolved (.lit "other") (.lit "10.0.0.7") 1, .tick 5]) = some storing at hruns
    rw [hruns] at hstoring
    simp only [Option.all_some, decide_eq_true_eq] at hstoring
    obtain ⟨⟨record, hmem, hfree⟩, hstep⟩ := hstoring
    rw [hstored] at hstep
    simp only [Option.all_some, decide_eq_true_eq] at hstep
    have hrecords := hiff.mpr ⟨by decide, by decide, standsLast_of_none hstep
      ⟨⟨record, hmem, .inl hfree⟩, by rw [hclock, hexpiry]; decide⟩⟩
    rw [htarget] at hrecords
    exact ⟨process, after, port, hprocess, hafter, hok, hrecords⟩

def longToken : CString := ⟨.replicate 70 97, by decide⟩

def longBody : Bytes :=
  (CString.lit "\x7b\"token\":\"").bytes ++ longToken.bytes ++
    (CString.lit "\",\"expires_at\":99999\x7d").bytes

/-- With 50 peers registered, the exchange of another one is answered with 200 and leaves no
entry; and `/api/pair` succeeds on a body that has no expiry, and on one whose token does not fit
and is cut. -/
theorem oddPairings_unrecorded :
    (∃ process after, run step sampleStart (crowd ++ beforeExchange) = some process ∧
      run step process (handlerEvents 0 (sampleEnv 8) (interrupted 2 [])) = some after ∧
      after.AnsweredOk 0 ∧
      peerRegistryFindByEndpoint after.world.registry sampleIp.str 8080 = none ∧
      ∀ token, ¬ after.Records sampleIp.str 8080 token) ∧
    (∃ process after, run step sampleStart beforePair = some process ∧
      run step process (handlerEvents 1 (sampleEnv 8)
        (interrupted 3 (CString.lit "\x7b\"token\":\"abc\"\x7d").bytes)) = some after ∧
      after.AnsweredOk 1 ∧
      (authGetPeerToken after.world.auth sampleIp.str 8080 after.world.clock).2 = none ∧
      ∀ token, ¬ after.Records sampleIp.str 8080 token) ∧
    ∃ process after, run step sampleStart beforePair = some process ∧
      run step process (handlerEvents 1 (sampleEnv 8) (interrupted 3 longBody)) = some after ∧
      after.AnsweredOk 1 ∧ fieldText longBody (.lit "token") = some longToken ∧
      (authGetPeerToken after.world.auth sampleIp.str 8080 after.world.clock).2 =
        some (longToken.take 64) ∧
      ¬ after.Records sampleIp.str 8080 longToken := by
  refine ⟨?_, ?_, ?_⟩
  · obtain ⟨process, hprocess⟩ : ∃ process,
        run step sampleStart (crowd ++ beforeExchange) = some process :=
      Option.isSome_iff_exists.mp (by decide +kernel)
    have hall : (run step sampleStart (crowd ++ beforeExchange)).all (fun process =>
        (run step process (handlerEvents 0 (sampleEnv 8) (interrupted 2 []))).any
          (fun after => after.AnsweredOk 0 ∧
            peerRegistryFindByEndpoint after.world.registry sampleIp.str 8080 = none)) = true := by
      decide +kernel
    rw [hprocess, Option.all_some, Option.any_eq_true] at hall
    obtain ⟨after, hafter, hfacts⟩ := hall
    rw [decide_eq_true_eq] at hfacts
    refine ⟨process, after, hprocess, hafter, hfacts.1, hfacts.2, ?_⟩
    rintro token ⟨⟨peer, hpeer, -⟩, -⟩
    rw [hfacts.2] at hpeer
    contradiction
  · obtain ⟨process, hprocess⟩ : ∃ process, run step sampleStart beforePair = some process :=
      Option.isSome_iff_exists.mp (by decide +kernel)
    have hall : (run step sampleStart beforePair).all (fun process =>
        (run step process (handlerEvents 1 (sampleEnv 8)
          (interrupted 3 (CString.lit "\x7b\"token\":\"abc\"\x7d").bytes))).any
          (fun after => after.AnsweredOk 1 ∧
            (authGetPeerToken after.world.auth sampleIp.str 8080 after.world.clock).2 =
              none)) = true := by decide +kernel
    rw [hprocess, Option.all_some, Option.any_eq_true] at hall
    obtain ⟨after, hafter, hfacts⟩ := hall
    rw [decide_eq_true_eq] at hfacts
    refine ⟨process, after, hprocess, hafter, hfacts.1, hfacts.2, ?_⟩
    rintro token ⟨-, htoken, -⟩
    rw [hfacts.2] at htoken
    contradiction
  · obtain ⟨process, hprocess⟩ : ∃ process, run step sampleStart beforePair = some process :=
      Option.isSome_iff_exists.mp (by decide +kernel)
    have hall : (run step sampleStart beforePair).all (fun process =>
        (run step process (handlerEvents 1 (sampleEnv 8) (interrupted 3 longBody))).any
          (fun after => after.AnsweredOk 1 ∧
            (authGetPeerToken after.world.auth sampleIp.str 8080 after.world.clock).2 =
              some (longToken.take 64))) = true := by decide +kernel
    rw [hprocess, Option.all_some, Option.any_eq_true] at hall
    obtain ⟨after, hafter, hfacts⟩ := hall
    rw [decide_eq_true_eq] at hfacts
    refine ⟨process, after, hprocess, hafter, hfacts.1, by decide +kernel, hfacts.2, ?_⟩
    rintro ⟨-, htoken, -⟩
    rw [hfacts.2] at htoken
    exact absurd htoken (by decide)

end LocalDrop
