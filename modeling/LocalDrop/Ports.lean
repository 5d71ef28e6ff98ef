import LocalDrop.Forms
import LocalDrop.PairingSteps

/-! The port a handler goes on with, against the one that was submitted. The handlers parse
what survived in a 16-byte buffer. -/
namespace LocalDrop
open Lib

def Route.portKey : Route → Option CString
  | .exchange => some (.lit "peer_port")
  | .pair | .send => some (.lit "target_port")
  | _ => none

def Request.usedPort (request : Request) : Option UInt16 :=
  match request.phase with
  | .exchangeAdd port _ _ | .exchangeMark port _ _ | .pairRemote port _ | .pairStore port _ _ _
  | .pairMark port | .sendCleanup port _ | .sendEnqueue port _ => some port
  | .receiving | .answered _ => none

structure PortsFilled (items : List PostItem) (info : ConnectionInfo) : Prop where
  target : info.targetPort = fieldBuffer 16 (.lit "target_port") items
  peer : info.peerPort = fieldBuffer 16 (.lit "peer_port") items

theorem FormFilled.ports {items : List PostItem} {info : ConnectionInfo}
    (h : FormFilled items info) : PortsFilled items info :=
  ⟨h .targetPort, h .peerPort⟩

theorem portKey_takesBody {route : Route} (h : route.portKey.isSome = true) :
    route.takesBody = true := by
  cases route <;> first | rfl | contradiction

section calls
variable {world : World} {id : Nat} {request : Request} {env : CallEnv} {items : List PostItem}

theorem exchangeFinal_port {port : UInt16}
    (h : (exchangeFinal world id request env).2.1.usedPort = some port) :
    request.info.responseStatus < 400 ∧ parsePort request.info.peerPort.str = some port := by
  unfold exchangeFinal at h
  dsimp only at h
  split at h
  · contradiction
  · rename_i hstatus
    split at h
    · contradiction
    · split at h
      · contradiction
      · rename_i parsed hparsed
        split at h
        · contradiction
        · exact ⟨Nat.lt_of_not_le hstatus, hparsed.trans h⟩

theorem pairFinal_port {port : UInt16}
    (h : (pairFinal world id request).2.1.usedPort = some port) :
    request.info.responseStatus < 400 ∧ parsePort request.info.targetPort.str = some port := by
  unfold pairFinal at h
  dsimp only at h
  split at h
  · contradiction
  · rename_i hstatus
    split at h
    · contradiction
    · split at h
      · contradiction
      · rename_i parsed hparsed
        split at h
        · contradiction
        · split at h
          · contradiction
          · exact ⟨Nat.lt_of_not_le hstatus, hparsed.trans h⟩

theorem validateTargetPeer_port {auth auth' : Auth} {registry : PeerRegistry}
    {info info' : ConnectionInfo} {now : Time} {port : UInt16} {token : CString}
    (h : validateTargetPeer auth registry info now = (auth', info', some (port, token))) :
    parsePort info.targetPort.str = some port := by
  have hcheck := validateTargetPeer_check auth registry info now
  rw [h] at hcheck
  cases hcheck with
  | accepted auth' port peer token parsed found usable known => exact parsed

theorem sendFinal_port {port : UInt16}
    (h : (sendFinal world request env).2.1.usedPort = some port) :
    request.info.responseStatus < 400 ∧ parsePort request.info.targetPort.str = some port := by
  unfold sendFinal at h
  dsimp only at h
  split at h
  · contradiction
  · rename_i hstatus
    split at h
    · contradiction
    · split at h
      · contradiction
      · rename_i auth info accepted token haccepted
        split at h
        · contradiction
        · cases h
          exact ⟨Nat.lt_of_not_le hstatus, validateTargetPeer_port haccepted⟩

theorem answerToConnection_port (hphase : request.phase = .receiving) (upload : Option Body)
    {port : UInt16}
    (h : (answerToConnection world id request upload env).2.1.usedPort = some port) :
    upload = none ∧ request.info.responseStatus < 400 ∧
      (request.route = .exchange ∧ parsePort request.info.peerPort.str = some port ∨
        (request.route = .pair ∨ request.route = .send) ∧
          parsePort request.info.targetPort.str = some port) := by
  have hdispatch := answerToConnection_dispatch world id request upload env
  generalize answerToConnection world id request upload env = outcome at hdispatch h
  cases hdispatch with
  | index | devices | notFound => contradiction
  | chunk body =>
      rw [Request.usedPort, chunkStep_phase, hphase] at h
      contradiction
  | localCode | transfers | transfer | unlock | upload =>
      simp only [localCodeCall, transfersCall, unlockFinal, uploadFinal] at h
      repeat' split at h
      all_goals contradiction
  | exchange route =>
      obtain ⟨hstatus, hport⟩ := exchangeFinal_port h
      exact ⟨rfl, hstatus, .inl ⟨route, hport⟩⟩
  | pair route =>
      obtain ⟨hstatus, hport⟩ := pairFinal_port h
      exact ⟨rfl, hstatus, .inr ⟨.inl route, hport⟩⟩
  | send route =>
      obtain ⟨hstatus, hport⟩ := sendFinal_port h
      exact ⟨rfl, hstatus, .inr ⟨.inr route, hport⟩⟩

theorem proceed_port {proceedEnv : ProceedEnv} {outcome : Outcome} {port : UInt16}
    (h : proceed world id request proceedEnv = some outcome)
    (hport : outcome.2.1.usedPort = some port) : request.usedPort = some port := by
  unfold Request.usedPort at hport ⊢
  cases proceed_proceeds h with
  | exchangeAdd phase | pairAccepted phase | pairStore phase | sendCleanup phase =>
      rw [phase]
      exact hport
  | exchangeMark | pairRefused | pairMark | sendRefused | sendEnqueued => contradiction

end calls

def Request.PortFrom (request : Request) (items : List PostItem) : Prop :=
  ∀ port, request.usedPort = some port → ∃ key, request.route.portKey = some key ∧
    parsePort (fieldBuffer 16 key items).str = some port

structure PortsKnown (events : List Event) (process : Process) : Prop where
  forms : FormsKnown events process
  used : ∀ id request, process.requests id = some request →
    request.PortFrom (receivedItems id events)

section known
variable {events : List Event} {process after : Process} {event : Event} {entries : List Entry}
  {id : Nat} {request' : Request}

theorem PortsFilled.parse {items : List PostItem} {info : ConnectionInfo}
    (h : PortsFilled items info) {route : Route} {port : UInt16}
    (hport : route = .exchange ∧ parsePort info.peerPort.str = some port ∨
      (route = .pair ∨ route = .send) ∧ parsePort info.targetPort.str = some port) :
    ∃ key, route.portKey = some key ∧ parsePort (fieldBuffer 16 key items).str = some port := by
  rcases hport with ⟨rfl, hport⟩ | ⟨rfl | rfl, hport⟩
  · exact ⟨_, rfl, h.peer ▸ hport⟩
  · exact ⟨_, rfl, h.target ▸ hport⟩
  · exact ⟨_, rfl, h.target ▸ hport⟩

theorem portFrom_call {request : Request} {items : List PostItem}
    (hfilled : request.route.portKey.isSome = true → request.info.responseStatus < 400 →
      PortsFilled items request.info)
    (hphase : request.phase = .receiving) (upload : Option Body) (env : CallEnv) :
    (answerToConnection process.world id request upload env).2.1.PortFrom
      (items ++ upload.elim [] Body.items) := by
  intro port hport
  obtain ⟨rfl, hstatus, hparsed⟩ := answerToConnection_port hphase upload hport
  have hroute : request.route.portKey.isSome = true := by
    rcases hparsed with ⟨hcase, -⟩ | ⟨hcase | hcase, -⟩ <;> rw [hcase] <;> rfl
  rw [Option.elim_none, List.append_nil, (answerToConnection_keeps none).route]
  exact (hfilled hroute hstatus).parse hparsed

theorem portFrom_proceed {request : Request} {items : List PostItem} {env : ProceedEnv}
    {outcome : Outcome} (h : request.PortFrom items)
    (hcontinues : proceed process.world id request env = some outcome) :
    outcome.2.1.PortFrom items := by
  intro port hport
  rw [(proceed_keeps hcontinues).route]
  exact h port (proceed_port hcontinues hport)

theorem FormsKnown.portsFilled {request : Request} (h : FormsKnown events process)
    (hid : process.requests id = some request) (hphase : request.phase = .receiving)
    (hroute : request.route.portKey.isSome = true) (hstatus : request.info.responseStatus < 400) :
    PortsFilled (receivedItems id events) request.info :=
  ((h.filling id request hid (portKey_takesBody hroute) hphase).2 hstatus).ports

theorem portsKnown_step (past : List Event) (process : Process) (event : Event) (after : Process)
    (h : PortsKnown past process) (hstep : step process event = some after) :
    PortsKnown (past ++ [event]) after := by
  refine ⟨formsKnown_step past process event after h.forms hstep, fun id request hid => ?_⟩
  obtain ⟨settled, entries, hnext, rfl⟩ := step_eq_some hstep
  refine known_next h.forms.unseen h.used ?_ ?_ ?_ hnext hid
  · intro url method clientIp headers port hport
    contradiction
  · intro id request upload env was phase
    exact portFrom_call (h.forms.portsFilled was phase) phase upload env
  · intro id request env outcome was continues
    exact portFrom_proceed (h.used id request was) continues

theorem Started.portsKnown (h : Started process) : PortsKnown [] process where
  forms := h.formsKnown
  used id request hid := by simp [h.requests] at hid

/-- In every run, however a body is cut into pieces, the port a handler goes on with is what
the submitted field spells exactly when the field fits its buffer and has no NUL byte. -/
theorem usedPort_spelled_iff {start : Process} {request : Request} {port : UInt16}
    {parts : List Part} (hstart : Started start) (hrun : run step start events = some process)
    (hparts : Delivers parts (receivedItems id events))
    (hid : process.requests id = some request) (hport : request.usedPort = some port) :
    ∃ key part, request.route.portKey = some key ∧ lastWrite Part.key parts key = some part ∧
      (SpellsPort part.content port ↔ part.content.length ≤ 15 ∧ 0 ∉ part.content) := by
  have hknown := run_history portsKnown_step hstart.portsKnown hrun
  rw [List.nil_append] at hknown
  obtain ⟨key, hkey, hparsed⟩ := hknown.used id request hid port hport
  have hspelled := parsePort_eq_some_iff.mp hparsed
  rw [fieldBuffer_str (by decide) hparts] at hspelled
  cases hlast : lastWrite Part.key parts key with
  | none =>
      rw [hlast] at hspelled
      exact absurd rfl (isNumeral_iff.mp hspelled.1).1
  | some part =>
      rw [hlast] at hspelled
      exact ⟨key, part, hkey, hlast, spellsPort_iff_fits hspelled⟩

end known

def fieldPart (key value : String) : Part := ⟨.lit key, none, [(CString.lit value).bytes], by simp⟩

def exchangingPort (value : String) : List Event :=
  [acceptPost "/api/pair/exchange" ⟨none, none⟩,
    sendFields 0 [fieldItem "pair_code" "222222", fieldItem "peer_name" "peer",
      fieldItem "peer_port" value], sendEnd 0 7]

def exchangingParts (value : String) : List Part :=
  [fieldPart "pair_code" "222222", fieldPart "peer_name" "peer", fieldPart "peer_port" value]

theorem delivers_exchangingPort (value : String) :
    Delivers (exchangingParts value) (receivedItems 0 (exchangingPort value)) := rfl

theorem lastWrite_exchangingParts (value : String) :
    lastWrite Part.key (exchangingParts value) (.lit "peer_port") =
      some (fieldPart "peer_port" value) := by
  have hkey : (fieldPart "peer_port" value).key = .lit "peer_port" := rfl
  rw [exchangingParts, lastWrite_cons, lastWrite_cons, lastWrite_cons, if_pos hkey]
  rfl

def exchangedPort (value : String) : Option UInt16 := do
  let process ← run step sampleStart (exchangingPort value)
  let request ← process.requests 0
  if request.route = .exchange then request.usedPort else none

theorem exchangedPort_eq_some {value : String} {port : UInt16}
    (h : exchangedPort value = some port) :
    ∃ process request, run step sampleStart (exchangingPort value) = some process ∧
      process.requests 0 = some request ∧ request.route = .exchange ∧
      request.usedPort = some port := by
  simp only [exchangedPort, Option.bind_eq_bind, Option.bind_eq_some_iff] at h
  obtain ⟨process, hrun, request, hid, hport⟩ := h
  split at hport
  · rename_i hroute
    exact ⟨process, request, hrun, hid, hroute, hport⟩
  · contradiction

theorem plainPort_spelled : exchangedPort "8080" = some 8080 ∧
    SpellsPort (fieldPart "peer_port" "8080").content 8080 := by
  have hexchanged : exchangedPort "8080" = some 8080 := by decide +kernel
  obtain ⟨process, request, hrun, hid, hroute, hport⟩ := exchangedPort_eq_some hexchanged
  obtain ⟨key, part, hkey, hlast, hiff⟩ := usedPort_spelled_iff sampleStart_started hrun
    (delivers_exchangingPort "8080") hid hport
  rw [hroute, Route.portKey, Option.some.injEq] at hkey
  rw [← hkey, lastWrite_exchangingParts, Option.some.injEq] at hlast
  rw [← hlast] at hiff
  exact ⟨hexchanged, hiff.mpr (by decide +kernel)⟩

/-- Fifteen digits pass for a port whatever comes behind them. -/
theorem overlongPort_used : ∃ process request,
    run step sampleStart (exchangingPort "000000000008080x") = some process ∧
      process.requests 0 = some request ∧ request.usedPort = some 8080 ∧
      Delivers (exchangingParts "000000000008080x")
        (receivedItems 0 (exchangingPort "000000000008080x")) ∧
      lastWrite Part.key (exchangingParts "000000000008080x") (.lit "peer_port") =
        some (fieldPart "peer_port" "000000000008080x") ∧
      ¬ SpellsPort (fieldPart "peer_port" "000000000008080x").content 8080 := by
  obtain ⟨process, request, hrun, hid, hroute, hport⟩ :=
    @exchangedPort_eq_some "000000000008080x" 8080 (by decide +kernel)
  refine ⟨process, request, hrun, hid, hport, delivers_exchangingPort _,
    lastWrite_exchangingParts _, ?_⟩
  intro hspelled
  have hdigits := (isNumeral_iff.mp hspelled.1).2.1
  exact absurd (hdigits 120 (by decide +kernel)) (by decide)

end LocalDrop
