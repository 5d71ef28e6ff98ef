import LocalDrop.Admission
import LocalDrop.PeerRequests
import LocalDrop.Ports
import LocalDrop.Replies

/-! Pairing between two nodes over the network. The handler of `/api/pair` on one node makes one
request of its form, and this becomes a request to `/api/pair/exchange` on the other; the answer
comes back in pieces, or the connection is lost. Any number of pairings run side by side, and
both nodes do whatever else they do in between. -/
namespace LocalDrop.PairExchange
open Lib

/-- What the asking node calls itself in the form. -/
structure Host where
  name : CString
  port : UInt16

/-- The connection of one pairing: whose it is, what is still to come of the form, and the
answer once it is on its way. -/
structure Connection where
  asker : Nat
  calls : List (CString × Option CString × Bytes × Nat)
  answer : Option Reply

/-- Connections go by the number of the request they are at the granting node. `asked` has the
requests that have made theirs; `heard` is history. -/
structure Nodes where
  asker : Process
  granter : Process
  connections : Nat → Option Connection
  asked : List Nat
  heard : List LocalDrop.Event

inductive Event where
  | asker (event : LocalDrop.Event)
  | granter (event : LocalDrop.Event)
  | connect (id : Nat) (env : CurlEnv) (parts : List Part)
  | deliver (id : Nat) (items : List PostItem) (processed : Bool) (env : CallEnv)
  | finish (id : Nat) (env : CallEnv)
  | answer (id : Nat)
  | report (id : Nat) (pieces : List (Bool × Bytes)) (error : CString) (env : ProceedEnv)
  | lose (id : Nat) (env : ProceedEnv)
  | refuse (id : Nat) (env : ProceedEnv)

/-- The request is in `transfer_pair_peer`, and it is the other node that it asks. -/
def Asks (link : Link) (request : Request) : Prop :=
  match request.phase with
  | .pairRemote port _ => link.LeadsTo request.info.targetIp.str port
  | _ => False

instance (link : Link) (request : Request) : Decidable (Asks link request) := by
  unfold Asks
  split <;> infer_instance

def asks (host : Host) (env : CurlEnv) (request : Request) : Option CurlRequest :=
  match request.phase with
  | .pairRemote port _ =>
      pairRequest env request.info.targetIp.str port (some host.name) host.port
        request.info.pairCode.str
  | _ => none

def answered (transport : PairTransport) : Bool :=
  match transport with
  | .replied _ _ => true
  | _ => false

def Nodes.tellAsker (nodes : Nodes) (event : LocalDrop.Event) : Option Nodes :=
  (LocalDrop.step nodes.asker event).map fun asker => { nodes with asker := asker }

def Nodes.tellGranter (nodes : Nodes) (event : LocalDrop.Event) : Option Nodes :=
  (LocalDrop.step nodes.granter event).map fun granter =>
    { nodes with granter := granter, heard := nodes.heard ++ [event] }

def Nodes.connected (nodes : Nodes) (id : Nat) (connection : Option Connection) : Nodes :=
  { nodes with connections := Function.update nodes.connections id connection }

def connect (link : Link) (host : Host) (nodes : Nodes) (id : Nat) (env : CurlEnv)
    (parts : List Part) : Option Nodes := do
  guard (id ∉ nodes.asked)
  let request ← nodes.asker.requests id
  guard (Asks link request)
  let call ← asks host env request
  guard (List.Forall₂ MimePart.ArrivesAs call.parts parts)
  let event ← arrival link call
  let told ← nodes.tellGranter event
  pure { told.connected nodes.granter.nextId (some ⟨id, parts.flatMap Part.calls, none⟩) with
    asked := id :: nodes.asked }

def deliver (nodes : Nodes) (id : Nat) (items : List PostItem) (processed : Bool)
    (env : CallEnv) : Option Nodes := do
  let connection ← nodes.connections id
  guard (items.map PostItem.call ++ connection.calls.drop items.length = connection.calls)
  let told ← nodes.tellGranter (.call id (some ⟨items, processed⟩) env)
  pure (told.connected id (some { connection with
    calls := connection.calls.drop items.length }))

def finish (nodes : Nodes) (id : Nat) (env : CallEnv) : Option Nodes := do
  let connection ← nodes.connections id
  guard (connection.calls = [])
  nodes.tellGranter (.call id none env)

def answer (nodes : Nodes) (id : Nat) : Option Nodes := do
  let connection ← nodes.connections id
  let request ← nodes.granter.requests id
  match request.phase with
  | .answered reply => pure (nodes.connected id (some { connection with answer := some reply }))
  | _ => none

def report (nodes : Nodes) (id : Nat) (pieces : List (Bool × Bytes)) (error : CString)
    (env : ProceedEnv) : Option Nodes := do
  let connection ← nodes.connections id
  match connection.answer with
  | some (.json status body) =>
      guard (pieces.flatMap Prod.snd = body)
      let told ← nodes.tellAsker (.proceed connection.asker
        { env with transport := performed status pieces error })
      pure (told.connected id none)
  | _ => none

def lose (nodes : Nodes) (id : Nat) (env : ProceedEnv) : Option Nodes := do
  let connection ← nodes.connections id
  guard (answered env.transport = false)
  let told ← nodes.tellAsker (.proceed connection.asker env)
  pure (told.connected id none)

def refuse (link : Link) (nodes : Nodes) (id : Nat) (env : ProceedEnv) : Option Nodes := do
  guard (id ∉ nodes.asked)
  let request ← nodes.asker.requests id
  guard (Asks link request)
  guard (answered env.transport = false)
  nodes.tellAsker (.proceed id env)

def proceeds : LocalDrop.Event → Option Nat
  | .proceed id _ => some id
  | _ => none

/-- A pairing with the other node hears nothing but its connection, and only the connection
brings calls for its request there. -/
def step (link : Link) (host : Host) (nodes : Nodes) : Event → Option Nodes
  | .asker event =>
      if ((proceeds event).bind nodes.asker.requests).any fun request => Asks link request then none
      else nodes.tellAsker event
  | .granter event =>
      if (event.called.bind nodes.connections).isSome then none else nodes.tellGranter event
  | .connect id env parts => connect link host nodes id env parts
  | .deliver id items processed env => deliver nodes id items processed env
  | .finish id env => finish nodes id env
  | .answer id => answer nodes id
  | .report id pieces error env => report nodes id pieces error env
  | .lose id env => lose nodes id env
  | .refuse id env => refuse link nodes id env

theorem asks_eq_some {host : Host} {env : CurlEnv} {request : Request} {call : CurlRequest}
    (h : asks host env request = some call) : ∃ destIp destPort code,
      pairRequest env destIp destPort (some host.name) host.port code = some call := by
  unfold asks at h
  split at h
  · exact ⟨_, _, _, h⟩
  · contradiction

/-- The granting node has issued this token to the asking one, for its port. -/
structure Issued (link : Link) (host : Host) (log : List Entry) (token : CString)
    (expiresAt : Time) : Prop where
  valid : IsPairToken token
  future : 0 ≤ expiresAt
  logged : Entry.issued link.clientIp.str host.port token expiresAt ∈ log

inductive Granting (link : Link) (host : Host) (log : List Entry) : Phase → Prop
  | receiving : Granting link host log .receiving
  | adding (token : CString) (expiresAt : Time) (issued : Issued link host log token expiresAt) :
      Granting link host log (.exchangeAdd host.port token expiresAt)
  | marking (token : CString) (expiresAt : Time) (issued : Issued link host log token expiresAt) :
      Granting link host log (.exchangeMark host.port token expiresAt)
  | granted (token : CString) (expiresAt : Time) (issued : Issued link host log token expiresAt) :
      Granting link host log (.answered (.json 200 (pairResponse pairMessage token expiresAt)))
  | refused (reply : Reply) (bad : 300 ≤ reply.status) : Granting link host log (.answered reply)

section granting
variable {link : Link} {host : Host} {log : List Entry}

theorem Issued.append {token : CString} {expiresAt : Time}
    (h : Issued link host log token expiresAt) (more : List Entry) :
    Issued link host (log ++ more) token expiresAt :=
  ⟨h.valid, h.future, List.mem_append_left _ h.logged⟩

theorem Granting.append {phase : Phase} (h : Granting link host log phase) (more : List Entry) :
    Granting link host (log ++ more) phase := by
  cases h with
  | receiving => exact .receiving
  | adding token expiresAt issued => exact .adding token expiresAt (issued.append more)
  | marking token expiresAt issued => exact .marking token expiresAt (issued.append more)
  | granted token expiresAt issued => exact .granted token expiresAt (issued.append more)
  | refused reply bad => exact .refused reply bad

theorem Granting.proceed {world : World} {id : Nat} {request : Request} {env : ProceedEnv}
    {outcome : Outcome} (h : Granting link host log request.phase)
    (continues : LocalDrop.proceed world id request env = some outcome) :
    Granting link host log outcome.2.1.phase := by
  generalize hphase : request.phase = phase at h
  cases h with
  | receiving | granted | refused => simp [LocalDrop.proceed, hphase] at continues
  | adding token expiresAt issued =>
      simp only [LocalDrop.proceed, hphase, Option.some.injEq] at continues
      rw [← continues]
      exact .marking token expiresAt issued
  | marking token expiresAt issued =>
      simp only [LocalDrop.proceed, hphase, Option.some.injEq] at continues
      rw [← continues]
      exact .granted token expiresAt issued

theorem exchangeFinal_granting {world : World} {id : Nat} {request : Request} {env : CallEnv}
    (hclock : 0 ≤ world.clock) (hip : request.info.clientIp = link.clientIp)
    (hport : ∀ port, (exchangeFinal world id request env).2.1.usedPort = some port →
      port = host.port) :
    Granting link host (log ++ (exchangeFinal world id request env).2.2)
      (exchangeFinal world id request env).2.1.phase := by
  revert hport
  unfold exchangeFinal
  dsimp only
  split
  · rename_i hbad
    intro _
    have hlarge : 300 ≤ request.info.responseStatus := le_trans (by decide) hbad
    exact .refused _ hlarge
  · split
    · intro _
      exact .refused _ (by decide)
    · split
      · intro _
        exact .refused _ (by decide)
      · rename_i port _
        split
        · intro _
          exact .refused _ (by decide)
        · rename_i token expiresAt hissued
          intro hport
          obtain ⟨current, table, -, -, htoken, hexpires, -, -⟩ :=
            authIssuePairToken_eq_some hissued
          obtain rfl : port = host.port := hport port rfl
          refine .adding token expiresAt ⟨isPairToken_of_random htoken, ?_, ?_⟩
          · rw [hexpires]
            exact add_nonneg hclock (by decide)
          · rw [hip]
            exact List.mem_append_right _ (by simp)

end granting

def Genuine (link : Link) (host : Host) (log : List Entry) (token : CString) (expiresAt : Time) :
    Prop :=
  ∃ issuedUntil, Issued link host log token issuedUntil ∧
    (issuedUntil ≤ timeMax → expiresAt = issuedUntil)

def Forms (host : Host) (parts : List Part) : Prop :=
  ∃ env destIp destPort code call,
    pairRequest env destIp destPort (some host.name) host.port code = some call ∧
      List.Forall₂ MimePart.ArrivesAs call.parts parts

structure Carries (link : Link) (host : Host) (granter : Process) (heard : List LocalDrop.Event)
    (id : Nat) (connection : Connection) : Prop where
  tracked : Tracks id (fun request => request.route = .exchange ∧
    request.info.clientIp = link.clientIp) granter
  form : ∃ parts, Forms host parts ∧
    (receivedItems id heard).map PostItem.call ++ connection.calls = parts.flatMap Part.calls
  granting : ∀ request, granter.requests id = some request →
    Granting link host granter.log request.phase
  answered : ∀ reply, connection.answer = some reply →
    Granting link host granter.log (.answered reply)

structure Inv (link : Link) (host : Host) (start nodes : Nodes) : Prop where
  heard : run LocalDrop.step start.granter nodes.heard = some nodes.granter
  traced : Traced nodes.asker
  stored : ∀ id request port peer token expiresAt, nodes.asker.requests id = some request →
    request.phase = .pairStore port peer token expiresAt →
    link.LeadsTo request.info.targetIp.str port →
      Genuine link host nodes.granter.log token expiresAt
  recorded : ∀ id ip port token expiresAt, link.LeadsTo ip port →
    Entry.recorded id ip port token expiresAt ∈ nodes.asker.log →
      Genuine link host nodes.granter.log token expiresAt
  carries : ∀ id connection, nodes.connections id = some connection →
    Carries link host nodes.granter nodes.heard id connection

theorem Genuine.append {link : Link} {host : Host} {log : List Entry} {token : CString}
    {expiresAt : Time} (h : Genuine link host log token expiresAt) (more : List Entry) :
    Genuine link host (log ++ more) token expiresAt := by
  obtain ⟨issuedUntil, hissued, hsame⟩ := h
  exact ⟨issuedUntil, hissued.append more, hsame⟩

theorem keepsForm (id : Nat) (link : Link) : KeptByCalls id fun request =>
    request.route = .exchange ∧ request.info.clientIp = link.clientIp where
  call _ _ upload _ hform _ :=
    ⟨(answerToConnection_keeps upload).route.trans hform.1,
      (answerToConnection_keeps upload).clientIp.trans hform.2⟩
  proceed _ _ _ _ hform continues :=
    ⟨(proceed_keeps continues).route.trans hform.1,
      (proceed_keeps continues).clientIp.trans hform.2⟩

/-- A token is heard of in `transfer_pair_peer` only. -/
theorem answerToConnection_not_pairStore {world : World} {id : Nat} {request : Request}
    {env : CallEnv} (hphase : request.phase = .receiving) (upload : Option Body) (port : UInt16)
    (peer : PeerInfo) (token : CString) (expiresAt : Time) :
    (answerToConnection world id request upload env).2.1.phase ≠
      .pairStore port peer token expiresAt := by
  have hdispatch := answerToConnection_dispatch world id request upload env
  generalize answerToConnection world id request upload env = outcome at hdispatch ⊢
  cases hdispatch with
  | index | devices | notFound => exact Phase.noConfusion
  | chunk body =>
      rw [chunkStep_phase, hphase]
      exact Phase.noConfusion
  | localCode | transfers | transfer | unlock | upload | exchange | pair | send =>
      simp only [localCodeCall, transfersCall, unlockFinal, uploadFinal, exchangeFinal, pairFinal,
        sendFinal]
      repeat' split
      all_goals exact Phase.noConfusion

theorem pairStore_next {process after : Process} {event : LocalDrop.Event} {entries : List Entry}
    {id : Nat} {request' : Request} {port : UInt16} {peer : PeerInfo} {token : CString}
    {expiresAt : Time} (hnext : next process event = some (after, entries))
    (hid : after.requests id = some request')
    (hphase : request'.phase = .pairStore port peer token expiresAt) :
    process.requests id = some request' ∨
      ∃ env request message, event = .proceed id env ∧ process.requests id = some request ∧
        request.phase = .pairRemote port peer ∧ request'.info = request.info ∧
        transferPairPeer env.transport 65 256 = .paired token expiresAt message := by
  cases next_origin hnext hid with
  | kept was => exact .inl was
  | accepted url method clientIp headers fresh quiet new =>
      rw [new] at hphase
      contradiction
  | called upload env request was phase call settled logged new =>
      rw [new] at hphase
      exact absurd hphase (answerToConnection_not_pairStore phase upload _ _ _ _)
  | proceeded env request outcome was continues call settled logged new =>
      subst new
      right
      cases proceed_proceeds continues with
      | pairAccepted phase paired =>
          cases hphase
          exact ⟨env, request, _, call, was, phase, rfl, paired⟩
      | exchangeAdd | exchangeMark | pairRefused | pairStore | pairMark | sendCleanup | sendRefused
      | sendEnqueued => contradiction

section asker
variable {link : Link} {host : Host} {start nodes told : Nodes} {event : LocalDrop.Event}

theorem tellAsker_eq_some (h : nodes.tellAsker event = some told) :
    ∃ asker, LocalDrop.step nodes.asker event = some asker ∧
      told = { nodes with asker := asker } := by
  obtain ⟨asker, hstep, heq⟩ := Option.map_eq_some_iff.mp h
  exact ⟨asker, hstep, heq.symm⟩

/-- The asking node may do anything, as long as what it hears from the other one is genuine. -/
theorem inv_asker (h : Inv link host start nodes)
    (hheard : ∀ id env request token expiresAt message, event = .proceed id env →
      nodes.asker.requests id = some request → Asks link request →
      transferPairPeer env.transport 65 256 = .paired token expiresAt message →
        Genuine link host nodes.granter.log token expiresAt)
    (htold : nodes.tellAsker event = some told) : Inv link host start told := by
  obtain ⟨asker, hstep, rfl⟩ := tellAsker_eq_some htold
  have htraced := traced_step _ _ _ h.traced hstep
  obtain ⟨settled, entries, hnext, rfl⟩ := step_eq_some hstep
  refine ⟨h.heard, htraced, ?_, ?_, h.carries⟩
  · intro id request' port peer token expiresAt hid hphase hleads
    rcases pairStore_next hnext hid hphase with hwas |
      ⟨env, request, message, hevent, hwas, hremote, hinfo, hpaired⟩
    · exact h.stored id request' port peer token expiresAt hwas hphase hleads
    · refine hheard id env request token expiresAt message hevent hwas ?_ hpaired
      unfold Asks
      rw [hremote]
      exact hinfo ▸ hleads
  · intro id ip port token expiresAt hleads hentry
    rcases List.mem_append.mp hentry with hold | hnew
    · exact h.recorded id ip port token expiresAt hleads hold
    · cases next_auth hnext with
      | consulted lookups quiet =>
          have hcredential := quiet _ hnew
          contradiction
      | session | issued =>
          rename_i logged
          simp [logged] at hnew
      | stored other request env port' peer token' expiresAt' call was phase created logged =>
          rw [logged, List.mem_singleton] at hnew
          obtain ⟨-, rfl, rfl, rfl, rfl⟩ := Entry.recorded.inj hnew
          exact h.stored other request port peer token expiresAt was phase hleads

end asker

section granter
variable {link : Link} {host : Host} {start nodes told : Nodes} {event : LocalDrop.Event}
  {granter granter' : Process} {heard : List LocalDrop.Event} {id : Nat}
  {connection : Connection}

theorem tellGranter_eq_some (h : nodes.tellGranter event = some told) :
    ∃ granter, LocalDrop.step nodes.granter event = some granter ∧
      told = { nodes with granter := granter, heard := nodes.heard ++ [event] } := by
  obtain ⟨granter, hstep, heq⟩ := Option.map_eq_some_iff.mp h
  exact ⟨granter, hstep, heq.symm⟩

theorem Carries.other (h : Carries link host granter heard id connection)
    (hother : event.called ≠ some id) (hstep : LocalDrop.step granter event = some granter') :
    Carries link host granter' (heard ++ [event]) id connection where
  tracked := tracks_step (keepsForm id link) _ _ _ h.tracked hstep
  form := by
    rw [receivedItems_concat, items_of_not_called hother, List.append_nil]
    exact h.form
  granting := by
    obtain ⟨settled, entries, hnext, rfl⟩ := step_eq_some hstep
    intro request' hid
    cases next_origin hnext hid with
    | kept was => exact (h.granting request' was).append entries
    | accepted url method clientIp headers fresh quiet new =>
        exact absurd h.tracked.known (by omega)
    | called upload env request was phase call settled logged new =>
        rw [call] at hother
        exact absurd rfl hother
    | proceeded env request outcome was continues call settled logged new =>
        rw [new]
        exact ((h.granting request was).proceed continues).append entries
  answered reply hanswer := by
    obtain ⟨settled, entries, hnext, rfl⟩ := step_eq_some hstep
    exact (h.answered reply hanswer).append entries

theorem Carries.port (h : Carries link host granter heard id connection)
    (hcalls : connection.calls = []) {request : Request} {port : UInt16}
    (hroute : request.route = .exchange) (hport : request.PortFrom (receivedItems id heard))
    (hused : request.usedPort = some port) : port = host.port := by
  obtain ⟨parts, ⟨env, destIp, destPort, code, call, hcall, harrives⟩, hitems⟩ := h.form
  rw [hcalls, List.append_nil] at hitems
  obtain ⟨key, hkey, hparsed⟩ := hport port hused
  rw [hroute] at hkey
  cases hkey
  rw [(pairForm_read hcall harrives hitems).2.2] at hparsed
  exact eq_of_parsePort_ofLong hparsed

theorem Carries.finish {env : CallEnv} (h : Carries link host granter heard id connection)
    (hclock : 0 ≤ granter.world.clock) (hknown : PortsKnown heard granter)
    (hcalls : connection.calls = [])
    (hstep : LocalDrop.step granter (.call id none env) = some granter') :
    Carries link host granter' (heard ++ [.call id none env]) id connection where
  tracked := tracks_step (keepsForm id link) _ _ _ h.tracked hstep
  form := by
    rw [receivedItems_concat]
    change ∃ parts, Forms host parts ∧ (receivedItems id heard ++ []).map PostItem.call ++ _ = _
    rw [List.append_nil]
    exact h.form
  granting := by
    have hknown' := portsKnown_step heard granter _ granter' hknown hstep
    obtain ⟨settled, entries, hnext, rfl⟩ := step_eq_some hstep
    intro request' hid
    have hported := hknown'.used id request' hid
    cases next_steps hnext with
    | call _ _ _ request was phase =>
        obtain ⟨hroute, hip⟩ := h.tracked.has request was
        have hfinal : answerToConnection granter.world id request none env =
            exchangeFinal granter.world id request env := by simp only [answerToConnection, hroute]
        change Function.update granter.requests id _ id = some request' at hid
        rw [Function.update_self, hfinal, Option.some.injEq] at hid
        have hquiet : (LocalDrop.Event.call id none env).items id = [] := rfl
        rw [receivedItems_concat, hquiet, List.append_nil] at hported
        rw [← hid] at hported ⊢
        rw [hfinal]
        apply exchangeFinal_granting hclock hip
        intro port hused
        apply h.port hcalls _ hported hused
        rw [← hfinal]
        exact (answerToConnection_keeps none).route.trans hroute
  answered reply hreply := by
    obtain ⟨settled, entries, hnext, rfl⟩ := step_eq_some hstep
    exact (h.answered reply hreply).append entries

theorem inv_granter {connections : Nat → Option Connection} {asked : List Nat}
    (h : Inv link host start nodes) (hstep : LocalDrop.step nodes.granter event = some granter)
    (hcarries : ∀ id connection, connections id = some connection →
      Carries link host granter (nodes.heard ++ [event]) id connection) :
    Inv link host start ⟨nodes.asker, granter, connections, asked, nodes.heard ++ [event]⟩ := by
  refine ⟨run_concat h.heard hstep, h.traced, ?_, ?_, hcarries⟩
  · obtain ⟨settled, entries, hnext, rfl⟩ := step_eq_some hstep
    intro id request port peer token expiresAt hid hphase hleads
    exact (h.stored id request port peer token expiresAt hid hphase hleads).append entries
  · obtain ⟨settled, entries, hnext, rfl⟩ := step_eq_some hstep
    intro id ip port token expiresAt hleads hentry
    exact (h.recorded id ip port token expiresAt hleads hentry).append entries

theorem carries_update (h : Inv link host start nodes) (hcalled : event.called = some id)
    (hstep : LocalDrop.step nodes.granter event = some granter)
    (hcarries : Carries link host granter (nodes.heard ++ [event]) id connection) :
    ∀ other c, Function.update nodes.connections id (some connection) other = some c →
      Carries link host granter (nodes.heard ++ [event]) other c := by
  intro other c hother
  by_cases hid : other = id
  · subst hid
    rw [Function.update_self, Option.some.injEq] at hother
    rw [← hother]
    exact hcarries
  · rw [Function.update_of_ne hid] at hother
    refine (h.carries other c hother).other ?_ hstep
    rw [hcalled, ne_eq, Option.some.injEq]
    exact fun heq => hid heq.symm

end granter

structure Begins (start : Nodes) : Prop where
  asker : Started start.asker
  granter : Started start.granter
  connections : ∀ id, start.connections id = none
  heard : start.heard = []

section steps
variable {link : Link} {host : Host} {start nodes told : Nodes} {id : Nat}

theorem Inv.known (h : Inv link host start nodes) (hstart : Begins start) :
    PortsKnown nodes.heard nodes.granter :=
  run_history portsKnown_step hstart.granter.portsKnown h.heard

theorem Inv.clock (h : Inv link host start nodes) (hstart : Begins start) :
    WholeClock nodes.granter := by
  refine run_invariant ?_ hstart.granter.clock h.heard
  intro process event after hclock hstep
  obtain ⟨settled, entries, hnext, rfl⟩ := step_eq_some hstep
  have hsettled := wholeClock_next hclock hnext
  exact hsettled

theorem Inv.disconnect (h : Inv link host start nodes) :
    Inv link host start (nodes.connected id none) := by
  refine ⟨h.heard, h.traced, h.stored, h.recorded, fun other connection hother => ?_⟩
  change Function.update nodes.connections id none other = some connection at hother
  by_cases hid : other = id
  · subst hid
    rw [Function.update_self] at hother
    contradiction
  · rw [Function.update_of_ne hid] at hother
    exact h.carries other connection hother

theorem not_paired_of_status {status : Nat} {body : Option Bytes} (h : 300 ≤ status)
    {token message : CString} {expiresAt : Time} :
    transferPairPeer (.replied status body) 65 256 ≠ .paired token expiresAt message := by
  have hstatus : (status : Int) < 200 ∨ (300 : Int) ≤ status := by omega
  simp only [transferPairPeer, hstatus, if_true]
  exact PairOutcome.noConfusion

theorem pairResponse_ne_nil (message token : CString) (expiresAt : Time) :
    pairResponse message token expiresAt ≠ [] := by
  intro hnil
  obtain ⟨-, hlast⟩ := List.append_eq_nil_iff.mp hnil
  exact absurd hlast (by decide)

theorem genuine_of_granting {log : List Entry} {status : Nat} {body : Bytes}
    {pieces : List (Bool × Bytes)} {error : CString} {token message : CString} {expiresAt : Time}
    (h : Granting link host log (.answered (.json status body)))
    (hpieces : pieces.flatMap Prod.snd = body)
    (hpaired : transferPairPeer (performed status pieces error) 65 256 =
      .paired token expiresAt message) : Genuine link host log token expiresAt := by
  rcases performed_cases status pieces error with hfailed | ⟨read, hreplied, hwhole⟩
  · rw [hfailed] at hpaired
    contradiction
  · rw [hreplied] at hpaired
    cases h with
    | refused _ bad => exact absurd hpaired (not_paired_of_status bad)
    | granted issuedToken issuedUntil issued =>
        have hbody : pieces.flatMap Prod.snd ≠ [] := by
          rw [hpieces]
          exact pairResponse_ne_nil _ _ _
        rw [hwhole hbody, hpieces, Nat.cast_ofNat] at hpaired
        refine ⟨issuedUntil, ?_, fun hbound => ?_⟩
        · obtain ⟨_, _, hread⟩ := transferPairPeer_pairResponse issued.valid issuedUntil
          rw [hread] at hpaired
          cases hpaired
          exact issued
        · have hlong : -2 ^ 63 ≤ issuedUntil ∧ issuedUntil < 2 ^ 63 :=
            ⟨le_trans (by decide) issued.future, lt_of_le_of_lt hbound (by decide)⟩
          obtain ⟨_, hread, -⟩ := pairResponse_roundTrip pairMessage issued.valid hlong 256
          rw [hread] at hpaired
          cases hpaired
          rfl

theorem inv_report {pieces : List (Bool × Bytes)} {error : CString} {env : ProceedEnv}
    (h : Inv link host start nodes) (hstep : report nodes id pieces error env = some told) :
    Inv link host start told := by
  unfold report at hstep
  obtain ⟨connection, hconnection, hstep⟩ := Option.bind_eq_some_iff.mp hstep
  split at hstep
  · rename_i status body hanswer
    obtain ⟨_, hguard, hstep⟩ := Option.bind_eq_some_iff.mp hstep
    have hpieces := (Option.guard_eq_some' _).mp hguard
    obtain ⟨ended, hended, hstep⟩ := Option.bind_eq_some_iff.mp hstep
    cases Option.some.inj hstep
    have hgranting := (h.carries id connection hconnection).answered _ hanswer
    refine (inv_asker h ?_ hended).disconnect
    intro other env' request token expiresAt message hevent _ _ hpaired
    cases hevent
    exact genuine_of_granting hgranting hpieces hpaired
  · contradiction

theorem not_paired_of_unanswered {transport : PairTransport} (h : answered transport = false)
    {token message : CString} {expiresAt : Time} :
    transferPairPeer transport 65 256 ≠ .paired token expiresAt message := by
  cases transport with
  | unavailable | failed error => exact PairOutcome.noConfusion
  | replied status body => contradiction

theorem inv_lose {env : ProceedEnv} (h : Inv link host start nodes)
    (hstep : lose nodes id env = some told) : Inv link host start told := by
  unfold lose at hstep
  obtain ⟨connection, hconnection, hstep⟩ := Option.bind_eq_some_iff.mp hstep
  obtain ⟨_, hguard, hstep⟩ := Option.bind_eq_some_iff.mp hstep
  have hunanswered := (Option.guard_eq_some' _).mp hguard
  obtain ⟨ended, hended, hstep⟩ := Option.bind_eq_some_iff.mp hstep
  cases Option.some.inj hstep
  refine (inv_asker h ?_ hended).disconnect
  intro other env' request token expiresAt message hevent _ _ hpaired
  cases hevent
  exact absurd hpaired (not_paired_of_unanswered hunanswered)

theorem inv_refuse {env : ProceedEnv} (h : Inv link host start nodes)
    (hstep : refuse link nodes id env = some told) : Inv link host start told := by
  unfold refuse at hstep
  obtain ⟨_, -, hstep⟩ := Option.bind_eq_some_iff.mp hstep
  obtain ⟨request, -, hstep⟩ := Option.bind_eq_some_iff.mp hstep
  obtain ⟨_, -, hstep⟩ := Option.bind_eq_some_iff.mp hstep
  obtain ⟨_, hguard, htold⟩ := Option.bind_eq_some_iff.mp hstep
  have hunanswered := (Option.guard_eq_some' _).mp hguard
  refine inv_asker h ?_ htold
  intro other env' request token expiresAt message hevent _ _ hpaired
  cases hevent
  exact absurd hpaired (not_paired_of_unanswered hunanswered)

theorem inv_connect {env : CurlEnv} {parts : List Part} (hstart : Begins start)
    (h : Inv link host start nodes)
    (hstep : connect link host nodes id env parts = some told) : Inv link host start told := by
  unfold connect at hstep
  obtain ⟨_, -, hstep⟩ := Option.bind_eq_some_iff.mp hstep
  obtain ⟨request, -, hstep⟩ := Option.bind_eq_some_iff.mp hstep
  obtain ⟨_, -, hstep⟩ := Option.bind_eq_some_iff.mp hstep
  obtain ⟨call, hcall, hstep⟩ := Option.bind_eq_some_iff.mp hstep
  obtain ⟨_, hguard, hstep⟩ := Option.bind_eq_some_iff.mp hstep
  have harrives := (Option.guard_eq_some' _).mp hguard
  obtain ⟨event, harrival, hstep⟩ := Option.bind_eq_some_iff.mp hstep
  obtain ⟨heard, htold, hstep⟩ := Option.bind_eq_some_iff.mp hstep
  obtain ⟨granter, hgranter, rfl⟩ := tellGranter_eq_some htold
  cases Option.some.inj hstep
  obtain ⟨destIp, destPort, code, hform⟩ := asks_eq_some hcall
  obtain ⟨hip, rfl⟩ := pairRequest_eq_some hform
  obtain ⟨-, -, hevent⟩ :=
    (arrival_eq_some_iff hip rfl (by decide) (by decide +kernel)).mp harrival
  subst hevent
  obtain ⟨-, haccepted⟩ := tracks_accept (h.known hstart).forms.wellformed hgranter
  refine inv_granter h hgranter fun other connection hother => ?_
  by_cases hnew : other = nodes.granter.nextId
  · subst hnew
    change Function.update nodes.connections nodes.granter.nextId _ _ = some connection at hother
    rw [Function.update_self, Option.some.injEq] at hother
    subst hother
    refine ⟨haccepted.mono fun request heq => heq ▸ ⟨rfl, rfl⟩, ⟨parts, ?_, ?_⟩, ?_, ?_⟩
    · exact ⟨env, destIp, destPort, code, _, hform, harrives⟩
    · rw [receivedItems_concat, (h.known hstart).forms.unseen _ le_rfl]
      rfl
    · intro request hid
      rw [haccepted.has request hid]
      exact .receiving
    · intro reply hreply
      contradiction
  · change Function.update nodes.connections nodes.granter.nextId _ _ = some connection at hother
    rw [Function.update_of_ne hnew] at hother
    exact (h.carries other connection hother).other (by simp [LocalDrop.Event.called]) hgranter

theorem inv_deliver {items : List PostItem} {processed : Bool} {env : CallEnv}
    (h : Inv link host start nodes)
    (hstep : deliver nodes id items processed env = some told) : Inv link host start told := by
  unfold deliver at hstep
  obtain ⟨connection, hconnection, hstep⟩ := Option.bind_eq_some_iff.mp hstep
  obtain ⟨_, hguard, hstep⟩ := Option.bind_eq_some_iff.mp hstep
  have hitems := (Option.guard_eq_some' _).mp hguard
  obtain ⟨heard, htold, hstep⟩ := Option.bind_eq_some_iff.mp hstep
  obtain ⟨granter, hgranter, rfl⟩ := tellGranter_eq_some htold
  cases Option.some.inj hstep
  have hcarries := h.carries id connection hconnection
  refine inv_granter h hgranter (carries_update h rfl hgranter ?_)
  refine ⟨tracks_step (keepsForm id link) _ _ _ hcarries.tracked hgranter, ?_, ?_, ?_⟩
  · obtain ⟨parts, hforms, hcalls⟩ := hcarries.form
    refine ⟨parts, hforms, ?_⟩
    have hnew : (LocalDrop.Event.call id (some ⟨items, processed⟩) env).items id = items :=
      if_pos rfl
    rw [receivedItems_concat, hnew, List.map_append, List.append_assoc, hitems, hcalls]
  · obtain ⟨settled, entries, hnext, rfl⟩ := step_eq_some hgranter
    intro request' hid
    cases next_steps hnext with
    | call _ _ _ request was phase =>
        have hroute := (hcarries.tracked.has request was).1
        change Function.update nodes.granter.requests id _ id = some request' at hid
        rw [Function.update_self, answerToConnection_body (by simp [hroute]),
          Option.some.injEq] at hid
        rw [← hid, chunkStep_phase, phase]
        exact .receiving
  · intro reply hreply
    obtain ⟨settled, entries, hnext, rfl⟩ := step_eq_some hgranter
    exact (hcarries.answered reply hreply).append entries

theorem inv_finish {env : CallEnv} (hstart : Begins start) (h : Inv link host start nodes)
    (hstep : finish nodes id env = some told) : Inv link host start told := by
  unfold finish at hstep
  obtain ⟨connection, hconnection, hstep⟩ := Option.bind_eq_some_iff.mp hstep
  obtain ⟨_, hguard, htold⟩ := Option.bind_eq_some_iff.mp hstep
  have hcalls := (Option.guard_eq_some' _).mp hguard
  obtain ⟨granter, hgranter, rfl⟩ := tellGranter_eq_some htold
  have hcarries := h.carries id connection hconnection
  refine inv_granter h hgranter fun other c hother => ?_
  by_cases hid : other = id
  · subst hid
    have hsame : c = connection := Option.some.inj (hother.symm.trans hconnection)
    subst hsame
    exact hcarries.finish (h.clock hstart).1 (h.known hstart) hcalls hgranter
  · refine (h.carries other c hother).other ?_ hgranter
    exact fun hcalled => hid (Option.some.inj hcalled).symm

theorem inv_answer (h : Inv link host start nodes) (hstep : answer nodes id = some told) :
    Inv link host start told := by
  unfold answer at hstep
  obtain ⟨connection, hconnection, hstep⟩ := Option.bind_eq_some_iff.mp hstep
  obtain ⟨request, hid, hstep⟩ := Option.bind_eq_some_iff.mp hstep
  split at hstep
  · rename_i reply hphase
    cases Option.some.inj hstep
    have hcarries := h.carries id connection hconnection
    refine ⟨h.heard, h.traced, h.stored, h.recorded, fun other c hother => ?_⟩
    change Function.update nodes.connections id _ other = some c at hother
    by_cases hother_id : other = id
    · subst hother_id
      rw [Function.update_self, Option.some.injEq] at hother
      subst hother
      refine { hcarries with answered := fun reply' hreply => ?_ }
      cases hreply
      have hgranting := hcarries.granting request hid
      rw [hphase] at hgranting
      exact hgranting
    · rw [Function.update_of_ne hother_id] at hother
      exact h.carries other c hother
  · contradiction

theorem inv_step (hstart : Begins start) (nodes : Nodes) (event : Event) (after : Nodes)
    (h : Inv link host start nodes) (hstep : step link host nodes event = some after) :
    Inv link host start after := by
  cases event with
  | asker event =>
      simp only [step] at hstep
      split at hstep
      · contradiction
      · rename_i hquiet
        refine inv_asker h ?_ hstep
        rintro id env request token expiresAt message rfl hid hasks -
        refine absurd ?_ hquiet
        simp only [proceeds, Option.bind_some, hid, Option.any_some]
        exact decide_eq_true hasks
  | granter event =>
      simp only [step] at hstep
      split at hstep
      · contradiction
      · rename_i hquiet
        obtain ⟨granter, hgranter, rfl⟩ := tellGranter_eq_some hstep
        refine inv_granter h hgranter fun id connection hid => ?_
        refine (h.carries id connection hid).other (fun hcalled => hquiet ?_) hgranter
        rw [hcalled, Option.bind_some, hid]
        rfl
  | connect id env parts => exact inv_connect hstart h hstep
  | deliver id items processed env => exact inv_deliver h hstep
  | finish id env => exact inv_finish hstart h hstep
  | answer id => exact inv_answer h hstep
  | report id pieces error env => exact inv_report h hstep
  | lose id env => exact inv_lose h hstep
  | refuse id env => exact inv_refuse h hstep

theorem Begins.inv (h : Begins start) : Inv link host start start := by
  refine ⟨?_, h.asker.traced, ?_, ?_, ?_⟩
  · rw [h.heard]
    rfl
  · intro id request port peer token expiresAt hid
    simp [h.asker.requests] at hid
  · intro id ip port token expiresAt _ hentry
    simp [h.asker.log] at hentry
  · intro id connection hconnection
    simp [h.connections] at hconnection

/-- What the asking node has of the other one, in its log and in its table, the other has issued
to it; and the other's table has what it last issued or recorded for it. -/
structure PairedTokens (link : Link) (host : Host) (nodes : Nodes) : Prop where
  recorded : ∀ id ip port token expiresAt, link.LeadsTo ip port →
    Entry.recorded id ip port token expiresAt ∈ nodes.asker.log →
      Genuine link host nodes.granter.log token expiresAt
  held : ∀ record ∈ nodes.asker.world.auth.peerTokens.slots, record.active = true →
    link.LeadsTo record.peerIp.str record.peerPort →
      Entry.issued record.peerIp.str record.peerPort record.token.str record.expiresAt ∈
          nodes.asker.log ∨
        Genuine link host nodes.granter.log record.token.str record.expiresAt
  granted : ∀ token expiresAt,
    recordedToken nodes.granter.log (link.clientIp.str, host.port) = some (token, expiresAt) →
    nodes.granter.world.clock < expiresAt →
      ∃ record ∈ nodes.granter.world.auth.peerTokens.slots, record.active = true ∧
        record.endpoint = (link.clientIp.str, host.port) ∧ record.token.str = token ∧
        record.expiresAt = expiresAt

/-- However the pairings between two nodes interleave with each other and with everything else,
and however many of them break: a token that one node has recorded for the other is one that the
other has issued to it, for its port and until the same time. -/
theorem recorded_issued {events : List Event} (hstart : Begins start)
    (hrun : run (step link host) start events = some nodes) : PairedTokens link host nodes := by
  have hinv := run_invariant (inv_step hstart) hstart.inv hrun
  refine ⟨hinv.recorded, fun record hmem hactive hleads => ?_, ?_⟩
  · rcases (hinv.traced.tokens record hmem hactive).2 with hissued | ⟨id, hrecorded, -⟩
    · exact .inl hissued
    · exact .inr (hinv.recorded id _ _ _ _ hleads hrecorded)
  · have hgranter := run_invariant admitting_step hstart.granter.admitting hinv.heard
    exact hgranter.tokens _

end steps

def sampleNodes : Nodes := ⟨sampleStart, sampleStart, fun _ => none, [], []⟩

theorem sampleNodes_begins : Begins sampleNodes :=
  ⟨sampleStart_started, sampleStart_started, fun _ => rfl, rfl⟩

/-- The asking node pairs with the other one, and reads its answer in two pieces. -/
def onePairing : List Event :=
  (beforePair ++ [sendEnd 1 0]).map .asker ++
    [.connect 1 ⟨true, true, true, true⟩ (exchangingParts "8080"),
      .deliver 0 [fieldItem "pair_code" "222222", fieldItem "peer_name" "peer",
        fieldItem "peer_port" "8080"] true (sampleEnv 0),
      .finish 0 (sampleEnv 8), .granter (sampleProceed 0 0), .granter (sampleProceed 0 0),
      .answer 0, .report 0
        [(true, (pairResponse pairMessage (sampleToken 8) 605800).take 40),
          (true, (pairResponse pairMessage (sampleToken 8) 605800).drop 40)]
        CString.empty ⟨.unavailable, CString.empty, none⟩,
      .asker (sampleProceed 1 0)]

theorem onePairing_issued : ∃ nodes,
    run (step sampleLink ⟨.lit "peer", 8080⟩) sampleNodes onePairing = some nodes ∧
    (∃ record ∈ nodes.asker.world.auth.peerTokens.slots, record.active = true ∧
      record.endpoint = (sampleIp.str, 8080) ∧ record.token.str = sampleToken 8) ∧
    PairedTokens sampleLink ⟨.lit "peer", 8080⟩ nodes := by
  obtain ⟨nodes, hrun⟩ : ∃ nodes,
      run (step sampleLink ⟨.lit "peer", 8080⟩) sampleNodes onePairing = some nodes :=
    Option.isSome_iff_exists.mp (by decide +kernel)
  have hheld : (run (step sampleLink ⟨.lit "peer", 8080⟩) sampleNodes onePairing).all
      (fun nodes => ∃ record ∈ nodes.asker.world.auth.peerTokens.slots, record.active = true ∧
        record.endpoint = (sampleIp.str, 8080) ∧ record.token.str = sampleToken 8) = true := by
    decide +kernel
  rw [hrun] at hheld
  simp only [Option.all_some, decide_eq_true_eq] at hheld
  exact ⟨nodes, hrun, hheld, recorded_issued sampleNodes_begins hrun⟩

end LocalDrop.PairExchange
