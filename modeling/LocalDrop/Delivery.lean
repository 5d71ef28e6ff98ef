import LocalDrop.Confinement
import LocalDrop.FileNames
import LocalDrop.Forms
import LocalDrop.JobFiles
import LocalDrop.PeerRequests
import LocalDrop.Replies

/-! A file on its way from one node to another: the worker of the sender inside
`transfer_send_file`, and the request this becomes at the receiver. libcurl opens the file once,
makes one request of it and hands over its bytes in pieces; the connection may break at any
time. Both nodes do whatever else they do in between. -/
namespace LocalDrop.Delivery
open Lib

/-- A send that reached the receiver: which of the accepted transfers it is, the request it
became there, the file as libcurl read it and, once it is answered 200, where the receiver keeps
it and what was there at that moment. -/
structure Upload where
  ticket : Nat
  request : TransferRequest
  id : Nat
  data : Bytes
  stored : Option (CString × Bytes)

/-- The request that is open at the receiver, the part the file is, the pieces delivered so far
and the rest. -/
structure Connection where
  id : Nat
  key : CString
  filename : CString
  pieces : List Bytes
  rest : Bytes
  answer : Option Reply
deriving DecidableEq

/-- `uploads`, `did` and `heard` are history. -/
structure Nodes where
  sender : Process
  receiver : Process
  connection : Option Connection
  uploads : List Upload
  did : List LocalDrop.Event
  heard : List LocalDrop.Event

inductive Event where
  | sender (event : LocalDrop.Event)
  | receiver (event : LocalDrop.Event)
  | connect (env : CurlEnv)
  | deliver (items : List PostItem) (pieces : List Bytes) (processed : Bool) (env : CallEnv)
  | finish (env : CallEnv)
  | report
  | fail
  | elsewhere (success : Bool)
  | progress (totalToUpload uploaded : Int)

def Toward (link : Link) (request : TransferRequest) : Prop :=
  link.LeadsTo request.targetIp request.targetPort

instance (link : Link) (request : TransferRequest) : Decidable (Toward link request) :=
  inferInstanceAs (Decidable (link.LeadsTo _ _))

def sendingSlot (queue : TransferQueue) : Option Slot :=
  match queue.worker with
  | .sending slot => some slot
  | _ => none

def attached (call : CurlRequest) : Option (CString × CString) :=
  match call.parts with
  | [.file name path] => some (name, path)
  | _ => none

def Nodes.tellReceiver (nodes : Nodes) (event : LocalDrop.Event) : Option Nodes :=
  (LocalDrop.step nodes.receiver event).map fun receiver =>
    { nodes with receiver := receiver, heard := nodes.heard ++ [event] }

def Nodes.tellSender (nodes : Nodes) (event : LocalDrop.Event) : Option Nodes :=
  (LocalDrop.step nodes.sender event).map fun sender =>
    { nodes with sender := sender, did := nodes.did ++ [event] }

def connect (link : Link) (nodes : Nodes) (env : CurlEnv) : Option Nodes := do
  guard (nodes.connection = none)
  let slot ← sendingSlot nodes.sender.world.queue
  let request := (nodes.sender.world.queue.jobs slot).request
  let call ← sendRequest env request
  let (key, path) ← attached call
  let file ← nodes.sender.world.fs path
  let event ← arrival link call
  let told ← nodes.tellReceiver event
  pure { told with
    connection := some ⟨nodes.receiver.nextId, key, baseName path, [], file.content, none⟩
    uploads := nodes.uploads ++ [⟨nodes.sender.world.queue.ticket slot, request,
      nodes.receiver.nextId, file.content, none⟩] }

def deliver (nodes : Nodes) (items : List PostItem) (pieces : List Bytes) (processed : Bool)
    (env : CallEnv) : Option Nodes := do
  let connection ← nodes.connection
  guard (connection.answer = none)
  guard (items.map PostItem.call = pieceCalls connection.key (some connection.filename)
    connection.pieces.flatten.length pieces)
  guard (pieces.flatten ++ connection.rest.drop pieces.flatten.length = connection.rest)
  let told ← nodes.tellReceiver (.call connection.id (some ⟨items, processed⟩) env)
  pure { told with connection := some { connection with
    pieces := connection.pieces ++ pieces
    rest := connection.rest.drop pieces.flatten.length } }

def answerOf (process : Process) (id : Nat) : Option (Reply × Option (CString × Bytes)) :=
  (process.requests id).bind fun request =>
    match request.phase with
    | .answered reply =>
        some (reply, if reply.status = 200 then
          (process.world.fs request.info.filename.str).map fun file =>
            (request.info.filename.str, file.content)
          else none)
    | _ => none

def Upload.settle (id : Nat) (stored : Option (CString × Bytes)) (upload : Upload) : Upload :=
  if upload.id = id then { upload with stored := stored } else upload

def finish (nodes : Nodes) (env : CallEnv) : Option Nodes := do
  let connection ← nodes.connection
  guard (connection.answer = none ∧ connection.rest = [])
  let told ← nodes.tellReceiver (.call connection.id none env)
  let (reply, stored) ← answerOf told.receiver connection.id
  pure { told with
    connection := some { connection with answer := some reply }
    uploads := nodes.uploads.map (Upload.settle connection.id stored) }

def report (nodes : Nodes) : Option Nodes := do
  let connection ← nodes.connection
  let reply ← connection.answer
  let told ← nodes.tellSender (.workerDone (transferSendFile (.replied reply.status none)))
  pure { told with connection := none }

def fail (nodes : Nodes) : Option Nodes :=
  (nodes.tellSender (.workerDone false)).map fun told => { told with connection := none }

def elsewhere (link : Link) (nodes : Nodes) (success : Bool) : Option Nodes := do
  guard (nodes.connection = none)
  let slot ← sendingSlot nodes.sender.world.queue
  let request := (nodes.sender.world.queue.jobs slot).request
  guard (¬ Toward link request)
  nodes.tellSender (.workerDone success)

/-- libcurl tells how far it is, whoever the send goes to. -/
def progress (nodes : Nodes) (totalToUpload uploaded : Int) : Option Nodes := do
  let (bytesSent, totalBytes) ← progressFunc totalToUpload uploaded
  nodes.tellSender (.workerProgress bytesSent totalBytes)

def endsSend : LocalDrop.Event → Bool
  | .workerDone _ => true
  | _ => false

/-- Only the connection itself brings calls for its request and ends its send. -/
def step (link : Link) (nodes : Nodes) : Event → Option Nodes
  | .sender event => if endsSend event then none else nodes.tellSender event
  | .receiver event =>
      if nodes.connection.any fun connection => event.called = some connection.id then none
      else nodes.tellReceiver event
  | .connect env => connect link nodes env
  | .deliver items pieces processed env => deliver nodes items pieces processed env
  | .finish env => finish nodes env
  | .report => report nodes
  | .fail => fail nodes
  | .elsewhere success => elsewhere link nodes success
  | .progress totalToUpload uploaded => progress nodes totalToUpload uploaded

section queue
variable {queue queue' : TransferQueue} {event : QueueOrder.QueueEvent}

inductive WorkerMove (queue queue' : TransferQueue) : Prop where
  | same (worker : queue'.worker = queue.worker) (sent : queue'.sent = queue.sent)
  | aside (before : ∀ slot, queue.worker ≠ .sending slot)
      (after : ∀ slot, queue'.worker ≠ .sending slot) (sent : queue'.sent = queue.sent)
  | called (slot : Slot) (before : queue.worker = .claimed slot)
      (after : queue'.worker = .sending slot)
      (sent : queue'.sent = queue.sent ++ [(queue.jobs slot).request])

theorem workerMove_step (h : QueueOrder.step queue event = some queue')
    (hdone : ∀ success now, event ≠ .done success now) : WorkerMove queue queue' := by
  cases event with
  | enqueue request now random =>
      simp only [QueueOrder.step] at h
      split at h
      · cases Option.some.inj h
        rcases transferEnqueue_cases queue request now random with
          heq | heq | ⟨slot, token, -, -, heq⟩ <;> rw [heq] <;> exact .same rfl rfl
      · contradiction
  | take now =>
      simp only [QueueOrder.step, workerTake] at h
      split at h
      · rename_i hidle
        split at h <;> cases Option.some.inj h
        · exact .aside (by simp [hidle.1]) (by simp) rfl
        · exact .same rfl rfl
      · contradiction
  | call =>
      simp only [QueueOrder.step, workerCall] at h
      split at h
      · rename_i slot hclaimed
        cases Option.some.inj h
        exact .called slot hclaimed rfl rfl
      · contradiction
  | progress bytesSent totalBytes now =>
      simp only [QueueOrder.step, transferJobProgress] at h
      split at h
      · split at h <;> cases Option.some.inj h <;> exact .same rfl rfl
      · contradiction
  | done success now => exact absurd rfl (hdone success now)
  | statusGet | statusList | shutdown =>
      cases Option.some.inj h
      exact .same rfl rfl
  | exit =>
      simp only [QueueOrder.step, workerExit] at h
      split at h
      · rename_i hidle
        cases Option.some.inj h
        exact .aside (by simp [hidle.1]) (by simp) rfl
      · contradiction

theorem ticket_step (h : QueueOrder.step queue event = some queue') (slot : Slot) :
    queue'.ticket slot = queue.ticket slot ∨ (queue'.jobs slot).status = .queued := by
  rcases QueueOrder.step_frame h with ⟨request, now, random, rfl⟩ | ⟨-, hticket, -⟩
  · simp only [QueueOrder.step] at h
    split at h
    · cases Option.some.inj h
      rcases transferEnqueue_cases queue request now random with
        heq | heq | ⟨created, token, -, -, heq⟩ <;> rw [heq]
      · exact .inl rfl
      · exact .inl rfl
      · by_cases hslot : slot = created
        · subst hslot
          right
          simp [appendPending, newTransferJob]
        · left
          simp [appendPending, Function.update_of_ne hslot]
    · contradiction
  · exact .inl (by rw [hticket])

theorem completed_step (hinv : QueueOrder.Inv queue) (h : QueueOrder.step queue event = some queue')
    (hdone : ∀ success now, event ≠ .done success now) {slot : Slot}
    (hstatus : (queue'.jobs slot).status = .completed) : queue'.jobs slot = queue.jobs slot := by
  cases QueueOrder.jobChange_step slot hinv h with
  | kept job => exact job
  | worked active status =>
      rw [status] at hstatus
      contradiction
  | ended success now done => exact absurd done (hdone success now)
  | pruned request now random enqueue due job =>
      rw [job] at hstatus
      contradiction
  | created request token now random enqueue free answer job =>
      rw [job] at hstatus
      contradiction

end queue

/-- What a step of the sender other than the end of a send does to its queue. -/
structure SenderFrame (queue queue' : TransferQueue) : Prop where
  move : WorkerMove queue queue'
  ticket : ∀ slot, queue'.ticket slot = queue.ticket slot ∨ (queue'.jobs slot).status = .queued
  completed : ∀ slot, (queue'.jobs slot).status = .completed →
    queue'.jobs slot = queue.jobs slot

theorem senderFrame {process after : Process} {event : LocalDrop.Event}
    (htracked : Tracked process) (hevent : endsSend event = false)
    (h : LocalDrop.step process event = some after) :
    SenderFrame process.world.queue after.world.queue := by
  obtain ⟨settled, entries, hnext, rfl⟩ := step_eq_some h
  rcases next_queue htracked.wellformed htracked.queue.requests hnext with
    heq | ⟨queueEvent, hqueueEvent, hstep⟩
  · change SenderFrame _ settled.world.queue
    rw [heq]
    exact ⟨.same rfl rfl, fun _ => .inl rfl, fun _ _ => rfl⟩
  · have hdone : ∀ success now, queueEvent ≠ .done success now := by
      rintro success now rfl
      rw [show event = .workerDone success from hqueueEvent] at hevent
      contradiction
    exact ⟨workerMove_step hstep hdone, ticket_step hstep,
      fun slot => completed_step htracked.queue.inv hstep hdone⟩

theorem senderDone {process after : Process} {slot : Slot} {success : Bool}
    (hinv : QueueOrder.Inv process.world.queue)
    (hworker : process.world.queue.worker = .sending slot)
    (h : LocalDrop.step process (.workerDone success) = some after) :
    after.world.queue = { process.world.queue with
      worker := .idle
      jobs := Function.update process.world.queue.jobs slot
        (if success then (process.world.queue.jobs slot).completed process.world.clock
          else (process.world.queue.jobs slot).failed process.world.clock) } := by
  obtain ⟨settled, entries, hnext, rfl⟩ := step_eq_some h
  cases next_steps hnext with
  | workerDone _ result ends =>
      rw [workerDone_sending hinv hworker, Option.some.injEq] at ends
      subst ends
      rfl

theorem sending_of_done {process after : Process} {success : Bool}
    (h : LocalDrop.step process (.workerDone success) = some after) :
    ∃ slot, process.world.queue.worker = .sending slot := by
  obtain ⟨settled, entries, hnext, rfl⟩ := step_eq_some h
  cases next_steps hnext with
  | workerDone _ result ends =>
      unfold workerDone at ends
      split at ends
      · rename_i slot hworker
        exact ⟨slot, hworker⟩
      · contradiction

theorem answerOf_eq_some {process : Process} {id : Nat} {reply : Reply}
    {stored : Option (CString × Bytes)} (h : answerOf process id = some (reply, stored)) :
    ∃ request, process.requests id = some request ∧ request.phase = .answered reply ∧
      stored = if reply.status = 200 then
        (process.world.fs request.info.filename.str).map fun file =>
          (request.info.filename.str, file.content)
        else none := by
  obtain ⟨request, hid, hmatch⟩ := Option.bind_eq_some_iff.mp h
  split at hmatch
  · rename_i found hphase
    cases Option.some.inj hmatch
    exact ⟨request, hid, hphase, rfl⟩
  · contradiction

structure Finishes (process after : Process) (id : Nat) (reply : Reply)
    (stored : Option (CString × Bytes)) : Prop where
  status : reply.status = 200 ∨ 400 ≤ reply.status
  kept : reply.status = 200 → ∃ path bytes, stored = some (path, bytes)
  logged : ∀ path bytes, stored = some (path, bytes) →
    ∃ now name, Entry.committed id now name path ∈ after.log
  whole : ∀ events filename pieces, Collects events process →
    (receivedItems id events).map PostItem.call =
      pieceCalls (.lit "file") (some filename) 0 pieces →
    ∀ path bytes, stored = some (path, bytes) →
      bytes = pieces.flatten ∧ NamedAfter path (sanitizeFilename (some filename)).str

theorem storedItems_pieces {items : List PostItem} {filename : CString} {pieces : List Bytes}
    (hitems : items.map PostItem.call = pieceCalls (.lit "file") (some filename) 0 pieces)
    (hstored : storedItems items ≠ []) :
    (storedItems items).flatMap PostItem.data = pieces.flatten ∧
      (storedItems items).head?.map PostItem.filename = some (some filename) := by
  have hpieces : pieces ≠ [] := by
    rintro rfl
    rw [List.map_eq_nil_iff.mp hitems] at hstored
    exact hstored rfl
  have hdelivers : Delivers [⟨.lit "file", some filename, pieces, hpieces⟩] items := by
    simpa [Delivers, Part.calls] using hitems
  rw [(storedItems_parts hdelivers).1, (storedItems_parts hdelivers).2]
  simp [storedParts, fileParts, Part.content]

theorem finishes {process after : Process} {id : Nat} {env : CallEnv} {reply : Reply}
    {stored : Option (CString × Bytes)} (hconforming : Conforming after)
    (hroute : ∀ request, process.requests id = some request → request.route = .upload)
    (hstep : LocalDrop.step process (.call id none env) = some after)
    (hanswer : answerOf after id = some (reply, stored)) :
    Finishes process after id reply stored := by
  obtain ⟨answered, hid, hphase, rfl⟩ := answerOf_eq_some hanswer
  have hstatus := ((hconforming.requests id answered hid).answered reply hphase).status
  obtain ⟨settled, entries, hnext, rfl⟩ := step_eq_some hstep
  change settled.requests id = some answered at hid
  cases next_steps hnext with
  | call _ _ _ request was phase =>
      have hupload := @answerToConnection_upload process.world id _ env (hroute request was)
      rw [hupload] at hid hnext hstep ⊢
      change Function.update process.requests id _ id = some answered at hid
      rw [Function.update_self, Option.some.injEq] at hid
      subst hid
      refine ⟨?_, ?_, ?_, ?_⟩
      · rcases hstatus with hok | hbad
        · exact .inl hok
        · right
          have hlarge : ∀ status ∈ errorStatuses, 400 ≤ status := by decide
          exact hlarge _ hbad
      · intro hok
        obtain ⟨-, -, -, -, ⟨file, hfile⟩, -⟩ := uploadFinal_ok hphase hok
        refine ⟨(uploadFinal process.world id request env).2.1.info.filename.str,
          file.content, ?_⟩
        rw [if_pos hok]
        change ((uploadFinal process.world id request env).1.fs _).map _ = _
        rw [hfile]
        rfl
      · intro path bytes heq
        split at heq
        · rename_i hok
          obtain ⟨-, -, -, hentry, -, -⟩ := uploadFinal_ok hphase hok
          obtain ⟨file, -, hpair⟩ := Option.map_eq_some_iff.mp heq
          obtain ⟨rfl, -⟩ := Prod.mk.inj hpair
          exact ⟨_, _, List.mem_append_right _ hentry⟩
        · contradiction
      · intro events filename pieces hcollects hitems path bytes heq
        split at heq
        · rename_i hok
          obtain ⟨file, hfile, hpair⟩ := Option.map_eq_some_iff.mp heq
          obtain ⟨rfl, rfl⟩ := Prod.mk.inj hpair
          have hcalledOk : AnswersOk process (.call id none env) _ id
              (uploadFinal process.world id request env).2.1 := {
            step := hstep
            pending := ⟨request, was, by simp [phase]⟩
            request := by simp [Process.settle]
            route := by
              have hkeeps := (@uploadFinal_keeps process.world id request env).route
              rw [hkeeps, hroute request was]
              rfl
            ok := ⟨reply, hphase, hok⟩ }
          obtain ⟨-, -, first, rest, hstored, hnamed, hcontent⟩ :=
            stored_file hcollects hcalledOk
          obtain ⟨hdata, hname⟩ := storedItems_pieces hitems (by simp [hstored])
          rw [hstored, List.head?_cons, Option.map_some, Option.some.injEq] at hname
          rw [hname] at hnamed
          exact ⟨(hcontent file hfile).trans hdata, hnamed⟩
        · contradiction

/-- The sends that reached the receiver, in the sender's queue. -/
structure Sends (link : Link) (queue : TransferQueue) (uploads : List Upload) : Prop where
  ordered : (uploads.map Upload.ticket).Pairwise (· < ·)
  sent : ∀ upload ∈ uploads, queue.sent[upload.ticket]? = some upload.request
  toward : ∀ upload ∈ uploads, Toward link upload.request
  completed : ∀ slot, (queue.jobs slot).status = .completed →
    Toward link (queue.jobs slot).request → ∃ upload ∈ uploads,
      upload.ticket = queue.ticket slot ∧ upload.stored.isSome

/-- What the send brings is what a request brought to the sender. -/
def Upload.Brought (upload : Upload) (sender : Process) (did : List LocalDrop.Event) : Prop :=
  ∃ id first rest, Handed did sender id upload.request.filepath (first :: rest) ∧
    upload.data = (first :: rest).flatMap PostItem.data

structure Upload.Kept (upload : Upload) (start receiver : Process)
    (heard : List LocalDrop.Event) (path : CString) (bytes : Bytes) : Prop where
  logged : ∃ now name, Entry.committed upload.id now name path ∈ receiver.log
  whole : Meets LocalDrop.step FreshNames start heard → bytes = upload.data ∧
    NamedAfter path (sanitizeFilename (some (baseName upload.request.filepath))).str

structure Receives (start receiver : Process) (heard : List LocalDrop.Event)
    (uploads : List Upload) : Prop where
  ordered : (uploads.map Upload.id).Pairwise (· < ·)
  known : ∀ upload ∈ uploads, upload.id < receiver.nextId
  kept : ∀ upload ∈ uploads, ∀ path bytes, upload.stored = some (path, bytes) →
    upload.Kept start receiver heard path bytes

/-- An open connection: the send of `slot`, which is the last one so far. -/
structure Underway (nodes : Nodes) (connection : Connection) (slot : Slot) (upload : Upload) :
    Prop where
  worker : nodes.sender.world.queue.worker = .sending slot
  ticket : upload.ticket = nodes.sender.world.queue.ticket slot
  id : upload.id = connection.id
  data : upload.data = connection.pieces.flatten ++ connection.rest
  key : connection.key = .lit "file"
  filename : connection.filename = baseName upload.request.filepath
  tracked : Tracks connection.id (fun request => request.route = .upload) nodes.receiver
  items : connection.answer = none →
    (receivedItems connection.id nodes.heard).map PostItem.call =
      pieceCalls (.lit "file") (some connection.filename) 0 connection.pieces
  pending : connection.answer = none → upload.stored = none
  answered : ∀ reply, connection.answer = some reply →
    reply.status = 200 ∧ upload.stored.isSome ∨ 400 ≤ reply.status

structure Begins (start : Nodes) : Prop where
  sender : Started start.sender
  receiver : Started start.receiver
  connection : start.connection = none
  uploads : start.uploads = []
  did : start.did = []
  heard : start.heard = []

structure Inv (link : Link) (start nodes : Nodes) : Prop where
  did : run LocalDrop.step start.sender nodes.did = some nodes.sender
  heard : run LocalDrop.step start.receiver nodes.heard = some nodes.receiver
  sends : Sends link nodes.sender.world.queue nodes.uploads
  brought : Meets LocalDrop.step FreshNames start.sender nodes.did →
    ∀ upload ∈ nodes.uploads, upload.Brought nodes.sender nodes.did
  receives : Receives start.receiver nodes.receiver nodes.heard nodes.uploads
  closed : nodes.connection = none → ∀ slot, nodes.sender.world.queue.worker = .sending slot →
    ∀ upload ∈ nodes.uploads, upload.ticket < nodes.sender.world.queue.ticket slot
  opened : ∀ connection, nodes.connection = some connection → ∃ earlier upload slot,
    nodes.uploads = earlier ++ [upload] ∧ Underway nodes connection slot upload

theorem sent_sending {queue : TransferQueue} {slot : Slot} (hinv : QueueOrder.Inv queue)
    (hworker : queue.worker = .sending slot) :
    queue.sent[queue.ticket slot]? = some (queue.jobs slot).request := by
  obtain ⟨hlast, hticket⟩ := hinv.sending slot hworker
  rw [List.getLast?_eq_getElem?, ← hticket] at hlast
  exact hlast

theorem not_queued_of_sending {queue : TransferQueue} {slot : Slot} (hinv : QueueOrder.Inv queue)
    (hworker : queue.worker = .sending slot) : (queue.jobs slot).status ≠ .queued := by
  rw [(hinv.progress slot).mpr (.inr hworker)]
  decide

section frame
variable {link : Link} {queue queue' : TransferQueue} {uploads : List Upload}

theorem WorkerMove.sent_append (h : WorkerMove queue queue') :
    ∃ more, queue'.sent = queue.sent ++ more := by
  cases h with
  | same worker sent => exact ⟨[], by rw [sent, List.append_nil]⟩
  | aside before after sent => exact ⟨[], by rw [sent, List.append_nil]⟩
  | called slot before after sent => exact ⟨_, sent⟩

theorem Sends.lt (h : Sends link queue uploads) {upload : Upload} (hmem : upload ∈ uploads) :
    upload.ticket < queue.sent.length := by
  have hsent := h.sent upload hmem
  rw [List.getElem?_eq_some_iff] at hsent
  exact hsent.1

theorem Sends.frame (h : Sends link queue uploads) (hframe : SenderFrame queue queue') :
    Sends link queue' uploads where
  ordered := h.ordered
  sent upload hmem := by
    obtain ⟨more, hmore⟩ := hframe.move.sent_append
    rw [hmore, List.getElem?_append_left (h.lt hmem)]
    exact h.sent upload hmem
  toward := h.toward
  completed slot hstatus htoward := by
    have hjob := hframe.completed slot hstatus
    have hticket : queue'.ticket slot = queue.ticket slot := by
      rcases hframe.ticket slot with hsame | hqueued
      · exact hsame
      · rw [hstatus] at hqueued
        contradiction
    rw [hjob] at hstatus htoward
    rw [hticket]
    exact h.completed slot hstatus htoward

theorem SenderFrame.sending (h : SenderFrame queue queue') (hinv' : QueueOrder.Inv queue')
    {slot : Slot} (hworker : queue.worker = .sending slot) :
    queue'.worker = .sending slot ∧ queue'.ticket slot = queue.ticket slot := by
  have hworker' : queue'.worker = .sending slot := by
    cases h.move with
    | same worker sent => rw [worker, hworker]
    | aside before after sent => exact absurd hworker (before slot)
    | called other before after sent =>
        rw [before] at hworker
        contradiction
  refine ⟨hworker', ?_⟩
  rcases h.ticket slot with hsame | hqueued
  · exact hsame
  · exact absurd hqueued (not_queued_of_sending hinv' hworker')

theorem SenderFrame.closed (h : SenderFrame queue queue') (hinv' : QueueOrder.Inv queue')
    (hsends : Sends link queue uploads)
    (hclosed : ∀ slot, queue.worker = .sending slot → ∀ upload ∈ uploads,
      upload.ticket < queue.ticket slot)
    (slot : Slot) (hworker : queue'.worker = .sending slot) :
    ∀ upload ∈ uploads, upload.ticket < queue'.ticket slot := by
  cases h.move with
  | same worker sent =>
      rw [worker] at hworker
      rw [(h.sending hinv' hworker).2]
      exact hclosed slot hworker
  | aside before after sent => exact absurd hworker (after slot)
  | called other before after sent =>
      intro upload hmem
      have hlt := hsends.lt hmem
      have hticket := (hinv'.sending slot hworker).2
      rw [sent, List.length_append, List.length_singleton] at hticket
      omega

theorem Sends.append {upload : Upload} (h : Sends link queue uploads)
    (hlater : ∀ earlier ∈ uploads, earlier.ticket < upload.ticket)
    (hsent : queue.sent[upload.ticket]? = some upload.request)
    (htoward : Toward link upload.request) : Sends link queue (uploads ++ [upload]) where
  ordered := by simpa [List.pairwise_append, h.ordered] using hlater
  sent := by
    rw [List.forall_mem_append, List.forall_mem_singleton]
    exact ⟨h.sent, hsent⟩
  toward := by
    rw [List.forall_mem_append, List.forall_mem_singleton]
    exact ⟨h.toward, htoward⟩
  completed slot hstatus hwas := by
    obtain ⟨earlier, hmem, hearlier⟩ := h.completed slot hstatus hwas
    exact ⟨earlier, List.mem_append_left _ hmem, hearlier⟩

theorem Sends.settle {earlier : List Upload} {upload : Upload}
    (h : Sends link queue (earlier ++ [upload])) (stored : Option (CString × Bytes))
    (hstored : upload.stored.isSome = true → stored.isSome = true) :
    Sends link queue (earlier ++ [{ upload with stored := stored }]) := by
  have hmem : ∀ other ∈ earlier ++ [{ upload with stored := stored }],
      ∃ was ∈ earlier ++ [upload], other.ticket = was.ticket ∧ other.request = was.request := by
    intro other hother
    rcases List.mem_append.mp hother with hearlier | hlast
    · exact ⟨other, List.mem_append_left _ hearlier, rfl, rfl⟩
    · rw [List.mem_singleton.mp hlast]
      exact ⟨upload, by simp, rfl, rfl⟩
  refine ⟨?_, ?_, ?_, ?_⟩
  · have hordered := h.ordered
    simp only [List.map_append, List.map_cons, List.map_nil] at hordered ⊢
    exact hordered
  · intro other hother
    obtain ⟨was, hwas, hticket, hrequest⟩ := hmem other hother
    rw [hticket, hrequest]
    exact h.sent was hwas
  · intro other hother
    obtain ⟨was, hwas, -, hrequest⟩ := hmem other hother
    rw [hrequest]
    exact h.toward was hwas
  · intro slot hstatus htoward
    obtain ⟨was, hwas, hticket, hsome⟩ := h.completed slot hstatus htoward
    rcases List.mem_append.mp hwas with hearlier | hlast
    · exact ⟨was, List.mem_append_left _ hearlier, hticket, hsome⟩
    · rw [List.mem_singleton.mp hlast] at hticket hsome
      exact ⟨_, List.mem_append_right _ (List.mem_singleton_self _), hticket, hstored hsome⟩

theorem Sends.done {slot : Slot} {success : Bool} {now : Int} (h : Sends link queue uploads)
    (hreached : success = true → Toward link (queue.jobs slot).request → ∃ upload ∈ uploads,
      upload.ticket = queue.ticket slot ∧ upload.stored.isSome) :
    Sends link { queue with
      worker := .idle
      jobs := Function.update queue.jobs slot
        (if success then (queue.jobs slot).completed now else (queue.jobs slot).failed now) }
      uploads where
  ordered := h.ordered
  sent := h.sent
  toward := h.toward
  completed other hstatus htoward := by
    dsimp only at hstatus htoward ⊢
    by_cases hother : other = slot
    · subst hother
      rw [Function.update_self] at hstatus htoward
      cases success with
      | true =>
          exact hreached rfl htoward
      | false => contradiction
    · rw [Function.update_of_ne hother] at hstatus htoward
      exact h.completed other hstatus htoward

end frame

theorem Upload.Brought.step {upload : Upload} {sender after : Process}
    {did : List LocalDrop.Event} {event : LocalDrop.Event} (h : upload.Brought sender did)
    (hstep : LocalDrop.step sender event = some after) : upload.Brought after (did ++ [event]) := by
  obtain ⟨id, first, rest, hhanded, hdata⟩ := h
  exact ⟨id, first, rest, hhanded.step hstep, hdata⟩

theorem Upload.Brought.settle {upload : Upload} {sender : Process} {did : List LocalDrop.Event}
    {id : Nat} {stored : Option (CString × Bytes)} (h : upload.Brought sender did) :
    (upload.settle id stored).Brought sender did := by
  unfold Upload.settle
  split <;> exact h

theorem arrival_upload {link : Link} {env : CurlEnv} {request : TransferRequest}
    {call : CurlRequest} {event : LocalDrop.Event} (hcall : sendRequest env request = some call)
    (h : arrival link call = some event) : Toward link request ∧
      ∃ headers, event = .accept (.lit "/upload") (.lit "POST") link.clientIp headers := by
  obtain ⟨hip, rfl⟩ := sendRequest_eq_some hcall
  obtain ⟨htoward, -, hevent⟩ :=
    (arrival_eq_some_iff hip rfl (by decide) (by decide +kernel)).mp h
  exact ⟨htoward, _, hevent⟩

theorem attached_sendRequest {env : CurlEnv} {request : TransferRequest} {call : CurlRequest}
    {key path : CString} (hcall : sendRequest env request = some call)
    (h : attached call = some (key, path)) : key = .lit "file" ∧ path = request.filepath := by
  obtain ⟨-, rfl⟩ := sendRequest_eq_some hcall
  cases Option.some.inj h
  exact ⟨rfl, rfl⟩

theorem sendingSlot_eq_some {queue : TransferQueue} {slot : Slot}
    (h : sendingSlot queue = some slot) : queue.worker = .sending slot := by
  unfold sendingSlot at h
  split at h
  · rename_i hworker
    rw [hworker, Option.some.inj h]
  · contradiction

theorem pieceCalls_append (key : CString) (filename : Option CString) (off : Nat)
    (pieces more : List Bytes) : pieceCalls key filename off (pieces ++ more) =
      pieceCalls key filename off pieces ++
        pieceCalls key filename (off + pieces.flatten.length) more := by
  induction pieces generalizing off with
  | nil => simp [pieceCalls]
  | cons data pieces ih => simp [pieceCalls, ih, Nat.add_assoc]

theorem keepsRoute (id : Nat) (route : Route) :
    KeptByCalls id fun request => request.route = route where
  call _ _ upload _ hroute _ := (answerToConnection_keeps upload).route.trans hroute
  proceed _ _ _ _ hroute continues :=
    (proceed_keeps continues).route.trans hroute

section receiver
variable {start receiver receiver' : Process} {past : List LocalDrop.Event}
  {event : LocalDrop.Event} {uploads : List Upload}

theorem Upload.Kept.heard {upload : Upload} {path : CString} {bytes : Bytes}
    (h : upload.Kept start receiver past path bytes)
    (hstep : LocalDrop.step receiver event = some receiver') :
    upload.Kept start receiver' (past ++ [event]) path bytes where
  logged := by
    obtain ⟨now, name, hentry⟩ := h.logged
    obtain ⟨settled, entries, hnext, rfl⟩ := step_eq_some hstep
    exact ⟨now, name, List.mem_append_left _ hentry⟩
  whole hfresh := h.whole hfresh.of_append

theorem Receives.heard (h : Receives start receiver past uploads)
    (hstep : LocalDrop.step receiver event = some receiver') :
    Receives start receiver' (past ++ [event]) uploads where
  ordered := h.ordered
  known upload hmem := by
    obtain ⟨settled, entries, hnext, rfl⟩ := step_eq_some hstep
    have hids := next_nextId hnext
    exact lt_of_lt_of_le (h.known upload hmem) hids
  kept upload hmem path bytes hstored := (h.kept upload hmem path bytes hstored).heard hstep

theorem Receives.append {upload : Upload} (h : Receives start receiver past uploads)
    (hlater : ∀ earlier ∈ uploads, earlier.id < upload.id) (hknown : upload.id < receiver.nextId)
    (hstored : upload.stored = none) : Receives start receiver past (uploads ++ [upload]) where
  ordered := by simpa [List.pairwise_append, h.ordered] using hlater
  known := by
    rw [List.forall_mem_append, List.forall_mem_singleton]
    exact ⟨h.known, hknown⟩
  kept := by
    rw [List.forall_mem_append, List.forall_mem_singleton]
    refine ⟨h.kept, fun path bytes hsome => ?_⟩
    rw [hstored] at hsome
    contradiction

theorem Receives.settle {earlier : List Upload} {upload : Upload}
    {stored : Option (CString × Bytes)}
    (h : Receives start receiver past (earlier ++ [upload]))
    (hkept : ∀ path bytes, stored = some (path, bytes) →
      upload.Kept start receiver past path bytes) :
    Receives start receiver past (earlier ++ [{ upload with stored := stored }]) where
  ordered := by
    have hordered := h.ordered
    simp only [List.map_append, List.map_cons, List.map_nil] at hordered ⊢
    exact hordered
  known other hmem := by
    rcases List.mem_append.mp hmem with hearlier | hlast
    · exact h.known other (List.mem_append_left _ hearlier)
    · rw [List.mem_singleton.mp hlast]
      exact h.known upload (by simp)
  kept other hmem path bytes hstored := by
    rcases List.mem_append.mp hmem with hearlier | hlast
    · exact h.kept other (List.mem_append_left _ hearlier) path bytes hstored
    · rw [List.mem_singleton.mp hlast] at hstored ⊢
      exact ⟨(hkept path bytes hstored).logged, (hkept path bytes hstored).whole⟩

end receiver

section steps
variable {link : Link} {start nodes told : Nodes} {event : LocalDrop.Event}

theorem tellSender_eq_some (h : nodes.tellSender event = some told) :
    ∃ sender, LocalDrop.step nodes.sender event = some sender ∧
      told = { nodes with sender := sender, did := nodes.did ++ [event] } := by
  obtain ⟨sender, hstep, heq⟩ := Option.map_eq_some_iff.mp h
  exact ⟨sender, hstep, heq.symm⟩

theorem tellReceiver_eq_some (h : nodes.tellReceiver event = some told) :
    ∃ receiver, LocalDrop.step nodes.receiver event = some receiver ∧
      told = { nodes with receiver := receiver, heard := nodes.heard ++ [event] } := by
  obtain ⟨receiver, hstep, heq⟩ := Option.map_eq_some_iff.mp h
  exact ⟨receiver, hstep, heq.symm⟩

theorem Inv.tracked (h : Inv link start nodes) (hstart : Begins start) : Tracked nodes.sender :=
  run_invariant tracked_step hstart.sender.tracked h.did

theorem Inv.known (h : Inv link start nodes) (hstart : Begins start) :
    FormsKnown nodes.heard nodes.receiver :=
  run_history formsKnown_step hstart.receiver.formsKnown h.heard

theorem inv_sender (hstart : Begins start) (h : Inv link start nodes)
    (hevent : endsSend event = false) (htold : nodes.tellSender event = some told) :
    Inv link start told := by
  obtain ⟨sender, hstep, rfl⟩ := tellSender_eq_some htold
  have hinv' := (tracked_step _ _ _ (h.tracked hstart) hstep).queue.inv
  have hframe := senderFrame (h.tracked hstart) hevent hstep
  refine ⟨run_concat h.did hstep, h.heard, h.sends.frame hframe, fun hfresh upload hmem =>
    (h.brought hfresh.of_append upload hmem).step hstep, h.receives, ?_, ?_⟩
  · intro hnone
    exact hframe.closed hinv' h.sends (h.closed hnone)
  · intro connection hconnection
    obtain ⟨earlier, upload, slot, huploads, hunder⟩ := h.opened connection hconnection
    obtain ⟨hworker, hticket⟩ := hframe.sending hinv' hunder.worker
    exact ⟨earlier, upload, slot, huploads, { hunder with
      worker := hworker
      ticket := hunder.ticket.trans hticket.symm }⟩

theorem inv_receiver (h : Inv link start nodes)
    (hother : ∀ connection, nodes.connection = some connection →
      event.called ≠ some connection.id)
    (htold : nodes.tellReceiver event = some told) : Inv link start told := by
  obtain ⟨receiver, hstep, rfl⟩ := tellReceiver_eq_some htold
  refine ⟨h.did, run_concat h.heard hstep, h.sends, h.brought, h.receives.heard hstep, h.closed,
    ?_⟩
  intro connection hconnection
  obtain ⟨earlier, upload, slot, huploads, hunder⟩ := h.opened connection hconnection
  refine ⟨earlier, upload, slot, huploads, { hunder with tracked := ?_, items := ?_ }⟩
  · exact tracks_step (keepsRoute _ _) _ _ _ hunder.tracked hstep
  · rw [receivedItems_concat, items_of_not_called (hother connection hconnection),
      List.append_nil]
    exact hunder.items

theorem inv_connect {env : CurlEnv} (hstart : Begins start) (h : Inv link start nodes)
    (hstep : connect link nodes env = some told) : Inv link start told := by
  unfold connect at hstep
  obtain ⟨_, hguard, hstep⟩ := Option.bind_eq_some_iff.mp hstep
  have hnone := (Option.guard_eq_some' _).mp hguard
  obtain ⟨slot, hslot, hstep⟩ := Option.bind_eq_some_iff.mp hstep
  have hworker := sendingSlot_eq_some hslot
  obtain ⟨call, hcall, hstep⟩ := Option.bind_eq_some_iff.mp hstep
  obtain ⟨⟨key, path⟩, hattached, hstep⟩ := Option.bind_eq_some_iff.mp hstep
  obtain ⟨file, hfile, hstep⟩ := Option.bind_eq_some_iff.mp hstep
  obtain ⟨event, harrival, hstep⟩ := Option.bind_eq_some_iff.mp hstep
  obtain ⟨heard, htold, hstep⟩ := Option.bind_eq_some_iff.mp hstep
  obtain ⟨receiver, hreceiver, rfl⟩ := tellReceiver_eq_some htold
  obtain ⟨rfl, rfl⟩ := attached_sendRequest hcall hattached
  obtain ⟨htoward, headers, rfl⟩ := arrival_upload hcall harrival
  cases Option.some.inj hstep
  have hinv := (h.tracked hstart).queue.inv
  obtain ⟨hnextId, haccepted⟩ := tracks_accept (h.known hstart).wellformed hreceiver
  refine ⟨h.did, run_concat h.heard hreceiver, ?_, ?_, ?_, ?_, ?_⟩
  · exact h.sends.append (h.closed hnone slot hworker) (sent_sending hinv hworker) htoward
  · intro hfresh
    rw [List.forall_mem_append, List.forall_mem_singleton]
    refine ⟨h.brought hfresh, ?_⟩
    have hfilled := hfresh.history jobsFilled_step hstart.sender.jobsFilled h.did
    have hfinishing := run_invariant finishing_step hstart.sender.finishing h.did
    obtain ⟨id, first, rest, hhanded, -, -, hcontent⟩ :=
      hfilled.filled slot _ (hfinishing.sending_holds hworker)
    exact ⟨id, first, rest, hhanded, hcontent file hfile⟩
  · exact (h.receives.heard hreceiver).append h.receives.known
      (hnextId ▸ Nat.lt_succ_self nodes.receiver.nextId) rfl
  · intro hopened
    contradiction
  · intro connection hconnection
    cases Option.some.inj hconnection
    refine ⟨nodes.uploads, _, slot, rfl, ?_⟩
    exact {
      worker := hworker
      ticket := rfl
      id := rfl
      data := rfl
      key := rfl
      filename := rfl
      tracked := haccepted.mono fun request heq => heq ▸ rfl
      items := fun _ => by
        rw [receivedItems_concat, (h.known hstart).unseen _ le_rfl]
        rfl
      pending := fun _ => rfl
      answered := fun reply hreply => by contradiction }

theorem inv_deliver {items : List PostItem} {pieces : List Bytes} {processed : Bool}
    {env : CallEnv} (h : Inv link start nodes)
    (hstep : deliver nodes items pieces processed env = some told) : Inv link start told := by
  unfold deliver at hstep
  obtain ⟨connection, hconnection, hstep⟩ := Option.bind_eq_some_iff.mp hstep
  obtain ⟨_, hguard, hstep⟩ := Option.bind_eq_some_iff.mp hstep
  have hopen := (Option.guard_eq_some' _).mp hguard
  obtain ⟨_, hguard, hstep⟩ := Option.bind_eq_some_iff.mp hstep
  have hitems := (Option.guard_eq_some' _).mp hguard
  obtain ⟨_, hguard, hstep⟩ := Option.bind_eq_some_iff.mp hstep
  have hrest := (Option.guard_eq_some' _).mp hguard
  obtain ⟨heard, htold, hstep⟩ := Option.bind_eq_some_iff.mp hstep
  obtain ⟨receiver, hreceiver, rfl⟩ := tellReceiver_eq_some htold
  cases Option.some.inj hstep
  refine ⟨h.did, run_concat h.heard hreceiver, h.sends, h.brought, h.receives.heard hreceiver,
    ?_, ?_⟩
  · intro hnone
    contradiction
  · intro after hafter
    cases Option.some.inj hafter
    obtain ⟨earlier, upload, slot, huploads, hunder⟩ := h.opened connection hconnection
    refine ⟨earlier, upload, slot, huploads, { hunder with
      data := ?_
      tracked := tracks_step (keepsRoute _ _) _ _ _ hunder.tracked hreceiver
      items := fun _ => ?_ }⟩
    · rw [hunder.data, List.flatten_append, List.append_assoc, hrest]
    · have hnew : (LocalDrop.Event.call connection.id (some ⟨items, processed⟩) env).items
          connection.id = items := if_pos rfl
      rw [receivedItems_concat, hnew, List.map_append, hunder.items hopen, pieceCalls_append,
        Nat.zero_add, hitems, hunder.key]

theorem map_settle {earlier : List Upload} {upload : Upload} {id : Nat} (hid : upload.id = id)
    (stored : Option (CString × Bytes))
    (h : ((earlier ++ [upload]).map Upload.id).Pairwise (· < ·)) :
    (earlier ++ [upload]).map (Upload.settle id stored) =
      earlier ++ [{ upload with stored := stored }] := by
  have hearlier : earlier.map (Upload.settle id stored) = earlier := by
    rw [List.map_append, List.pairwise_append] at h
    refine (List.map_congr_left fun other hmem => ?_).trans (List.map_id _)
    have hlt := h.2.2 other.id (List.mem_map_of_mem hmem) upload.id (by simp)
    exact if_neg (by omega)
  rw [List.map_append, hearlier, List.map_singleton, Upload.settle, if_pos hid]

theorem inv_finish {env : CallEnv} (hstart : Begins start) (h : Inv link start nodes)
    (hstep : finish nodes env = some told) : Inv link start told := by
  unfold finish at hstep
  obtain ⟨connection, hconnection, hstep⟩ := Option.bind_eq_some_iff.mp hstep
  obtain ⟨_, hguard, hstep⟩ := Option.bind_eq_some_iff.mp hstep
  obtain ⟨hopen, hrest⟩ := (Option.guard_eq_some' _).mp hguard
  obtain ⟨heard, htold, hstep⟩ := Option.bind_eq_some_iff.mp hstep
  obtain ⟨receiver, hreceiver, rfl⟩ := tellReceiver_eq_some htold
  obtain ⟨⟨reply, stored⟩, hanswer, hstep⟩ := Option.bind_eq_some_iff.mp hstep
  cases Option.some.inj hstep
  obtain ⟨earlier, upload, slot, huploads, hunder⟩ := h.opened connection hconnection
  have hheard := run_concat h.heard hreceiver
  have hfinishes := finishes (run_invariant conforming_step hstart.receiver.conforming hheard)
    hunder.tracked.has hreceiver hanswer
  have hreceives := h.receives.heard hreceiver
  rw [huploads] at hreceives
  have hsettle := map_settle hunder.id stored hreceives.ordered
  rw [← huploads] at hsettle
  have hkept : ∀ path bytes, stored = some (path, bytes) →
      upload.Kept start.receiver receiver (nodes.heard ++ [.call connection.id none env])
        path bytes := by
    intro path bytes hstored
    refine ⟨?_, fun hfresh => ?_⟩
    · rw [hunder.id]
      exact hfinishes.logged path bytes hstored
    · have hcollects := collects_run hstart.receiver hfresh.of_append h.heard
      obtain ⟨hbytes, hnamed⟩ := hfinishes.whole _ _ _ hcollects (hunder.items hopen) path bytes
        hstored
      rw [hunder.data, hrest, List.append_nil, ← hunder.filename]
      exact ⟨hbytes, hnamed⟩
  have hsends := h.sends
  rw [huploads] at hsends
  refine ⟨h.did, hheard, ?_, ?_, ?_, ?_, ?_⟩
  · change Sends link _ (nodes.uploads.map _)
    rw [hsettle]
    exact hsends.settle stored fun hstored => by
      rw [hunder.pending hopen] at hstored
      contradiction
  · intro hfresh other hmem
    obtain ⟨was, hwas, rfl⟩ := List.mem_map.mp hmem
    exact (h.brought hfresh was hwas).settle
  · change Receives _ _ _ (nodes.uploads.map _)
    rw [hsettle]
    exact hreceives.settle hkept
  · intro hnone
    contradiction
  · intro after hafter
    cases Option.some.inj hafter
    refine ⟨earlier, _, slot, hsettle, { hunder with
      tracked := tracks_step (keepsRoute _ _) _ _ _ hunder.tracked hreceiver
      items := fun hunanswered => by contradiction
      pending := fun hunanswered => by contradiction
      answered := fun other hother => ?_ }⟩
    cases Option.some.inj hother
    rcases hfinishes.status with hok | hbad
    · obtain ⟨path, bytes, rfl⟩ := hfinishes.kept hok
      exact .inl ⟨hok, rfl⟩
    · exact .inr hbad

theorem inv_done {slot : Slot} {success : Bool} (hstart : Begins start)
    (h : Inv link start nodes)
    (hworker : nodes.sender.world.queue.worker = .sending slot)
    (hreached : success = true → Toward link (nodes.sender.world.queue.jobs slot).request →
      ∃ upload ∈ nodes.uploads, upload.ticket = nodes.sender.world.queue.ticket slot ∧
        upload.stored.isSome)
    (htold : nodes.tellSender (.workerDone success) = some told) :
    Inv link start { told with connection := none } := by
  obtain ⟨sender, hsender, rfl⟩ := tellSender_eq_some htold
  have hqueue := senderDone (h.tracked hstart).queue.inv hworker hsender
  refine ⟨run_concat h.did hsender, h.heard, ?_, fun hfresh upload hmem =>
    (h.brought hfresh.of_append upload hmem).step hsender, h.receives, ?_, ?_⟩
  · change Sends link sender.world.queue nodes.uploads
    rw [hqueue]
    exact h.sends.done hreached
  · intro _ other hother
    change sender.world.queue.worker = _ at hother
    rw [hqueue] at hother
    contradiction
  · intro connection hconnection
    contradiction

theorem inv_report (hstart : Begins start) (h : Inv link start nodes)
    (hstep : report nodes = some told) : Inv link start told := by
  unfold report at hstep
  obtain ⟨connection, hconnection, hstep⟩ := Option.bind_eq_some_iff.mp hstep
  obtain ⟨reply, hreply, hstep⟩ := Option.bind_eq_some_iff.mp hstep
  obtain ⟨ended, htold, hstep⟩ := Option.bind_eq_some_iff.mp hstep
  cases Option.some.inj hstep
  obtain ⟨earlier, upload, slot, huploads, hunder⟩ := h.opened connection hconnection
  refine inv_done hstart h hunder.worker ?_ htold
  intro hsuccess _
  refine ⟨upload, by simp [huploads], hunder.ticket, ?_⟩
  rcases hunder.answered reply hreply with ⟨-, hstored⟩ | hbad
  · exact hstored
  · simp only [transferSendFile, Bool.and_eq_true, decide_eq_true_eq] at hsuccess
    omega

theorem inv_fail (hstart : Begins start) (h : Inv link start nodes)
    (hstep : fail nodes = some told) : Inv link start told := by
  obtain ⟨ended, htold, rfl⟩ := Option.map_eq_some_iff.mp hstep
  obtain ⟨sender, hsender, -⟩ := tellSender_eq_some htold
  obtain ⟨slot, hworker⟩ := sending_of_done hsender
  exact inv_done hstart h hworker (fun hsuccess => by contradiction) htold

theorem inv_elsewhere {success : Bool} (hstart : Begins start) (h : Inv link start nodes)
    (hstep : elsewhere link nodes success = some told) : Inv link start told := by
  unfold elsewhere at hstep
  obtain ⟨_, hguard, hstep⟩ := Option.bind_eq_some_iff.mp hstep
  have hnone := (Option.guard_eq_some' _).mp hguard
  obtain ⟨slot, hslot, hstep⟩ := Option.bind_eq_some_iff.mp hstep
  obtain ⟨_, hguard, htold⟩ := Option.bind_eq_some_iff.mp hstep
  have haway := (Option.guard_eq_some' _).mp hguard
  have hended := inv_done hstart h (sendingSlot_eq_some hslot) (fun _ htoward =>
    absurd htoward haway) htold
  obtain ⟨sender, -, rfl⟩ := tellSender_eq_some htold
  rw [← hnone] at hended
  exact hended

theorem inv_step (hstart : Begins start) (nodes : Nodes) (event : Event) (after : Nodes)
    (h : Inv link start nodes) (hstep : step link nodes event = some after) :
    Inv link start after := by
  cases event with
  | sender event =>
      simp only [step] at hstep
      split at hstep
      · contradiction
      · rename_i hevent
        exact inv_sender hstart h (by simpa using hevent) hstep
  | receiver event =>
      simp only [step] at hstep
      split at hstep
      · contradiction
      · rename_i hother
        refine inv_receiver h (fun connection hconnection hcalled => hother ?_) hstep
        rw [hconnection, Option.any_some]
        exact decide_eq_true hcalled
  | connect env => exact inv_connect hstart h hstep
  | deliver items pieces processed env => exact inv_deliver h hstep
  | finish env => exact inv_finish hstart h hstep
  | report => exact inv_report hstart h hstep
  | fail => exact inv_fail hstart h hstep
  | elsewhere success => exact inv_elsewhere hstart h hstep
  | progress totalToUpload uploaded =>
      obtain ⟨⟨bytesSent, totalBytes⟩, -, htold⟩ := Option.bind_eq_some_iff.mp hstep
      exact inv_sender hstart h rfl htold

theorem Begins.inv (h : Begins start) : Inv link start start := by
  refine ⟨?_, ?_, ?_, by simp [h.uploads], ?_, ?_, ?_⟩
  · rw [h.did]
    rfl
  · rw [h.heard]
    rfl
  · rw [h.uploads]
    refine ⟨.nil, by simp, by simp, fun slot hstatus => ?_⟩
    rw [h.sender.queue] at hstatus
    contradiction
  · rw [h.uploads]
    exact ⟨.nil, by simp, by simp⟩
  · intro _ slot hworker
    rw [h.sender.queue] at hworker
    contradiction
  · intro connection hconnection
    rw [h.connection] at hconnection
    contradiction

/-- The sends that reached the receiver are accepted transfers towards it, each of them once and
in the order in which the sender accepted them. -/
structure InOrder (link : Link) (nodes : Nodes) : Prop where
  tickets : (nodes.uploads.map Upload.ticket).Pairwise (· < ·)
  requests : (nodes.uploads.map Upload.id).Pairwise (· < ·)
  accepted : ∀ upload ∈ nodes.uploads, Toward link upload.request ∧
    (nodes.sender.world.queue.accepted.map QueueOrder.stored)[upload.ticket]? =
      some upload.request

/-- Whatever both nodes do besides, and wherever a connection breaks: no transfer reaches the
receiver twice, and none overtakes another. -/
theorem transfers_inOrder {events : List Event} (hstart : Begins start)
    (hrun : run (step link) start events = some nodes) : InOrder link nodes where
  tickets := (run_invariant (inv_step hstart) hstart.inv hrun).sends.ordered
  requests := (run_invariant (inv_step hstart) hstart.inv hrun).receives.ordered
  accepted upload hmem := by
    have hinv := run_invariant (inv_step hstart) hstart.inv hrun
    refine ⟨hinv.sends.toward upload hmem, ?_⟩
    rw [(hinv.tracked hstart).queue.inv.order, List.getElem?_append_left (hinv.sends.lt hmem)]
    exact hinv.sends.sent upload hmem

/-- The transfer in `slot` has arrived: what a request brought to the sender is what the receiver
has committed for it. -/
structure Arrived (nodes : Nodes) (slot : Slot) (upload : Upload) : Prop where
  ticket : upload.ticket = nodes.sender.world.queue.ticket slot
  brought : upload.Brought nodes.sender nodes.did
  stored : ∃ path now, upload.stored = some (path, upload.data) ∧
    path = (committedPath now
      (sanitizeFilename (some (baseName upload.request.filepath))).str).str ∧
    InDirectory (.lit "downloads")
      (sanitizeFilename (some (baseName upload.request.filepath))).str path ∧
    Entry.committed upload.id now
      (sanitizeFilename (some (baseName upload.request.filepath))).str path ∈ nodes.receiver.log

/-- In every run in which neither node repeats a staging name, every transfer that is COMPLETED
at the sender has arrived in the receiver's `downloads/`, byte for byte. -/
theorem completed_arrived {events : List Event} (hstart : Begins start)
    (hrun : run (step link) start events = some nodes)
    (hsender : Meets LocalDrop.step FreshNames start.sender nodes.did)
    (hreceiver : Meets LocalDrop.step FreshNames start.receiver nodes.heard) {slot : Slot}
    (hcompleted : (nodes.sender.world.queue.jobs slot).status = .completed)
    (htoward : Toward link (nodes.sender.world.queue.jobs slot).request) :
    ∃ upload ∈ nodes.uploads, Arrived nodes slot upload := by
  have hinv := run_invariant (inv_step hstart) hstart.inv hrun
  obtain ⟨upload, hmem, hticket, hsome⟩ := hinv.sends.completed slot hcompleted htoward
  obtain ⟨⟨path, bytes⟩, hstored⟩ := Option.isSome_iff_exists.mp hsome
  have hkept := hinv.receives.kept upload hmem path bytes hstored
  obtain ⟨rfl, hnamed⟩ := hkept.whole hreceiver
  obtain ⟨now, name, hlogged⟩ := hkept.logged
  have hcommits := (hreceiver.invariant receives_step hstart.receiver.receives hinv.heard).named
  obtain ⟨hpath, hnow, hlength⟩ := hcommits _ _ _ _ hlogged
  have hsame : name = (sanitizeFilename (some (baseName upload.request.filepath))).str :=
    namedAfter_injective hlength (sanitizeFilename _).fits ⟨now, hnow, .inl hpath⟩ hnamed
  subst hsame
  exact ⟨upload, hmem, hticket, hinv.brought hsender upload hmem, path, now, hstored, hpath,
    hpath ▸ committedPath_inDirectory hnow _, hlogged⟩

end steps

def sampleNodes : Nodes := ⟨sampleStart, sampleStart, none, [], [], []⟩

theorem sampleNodes_begins : Begins sampleNodes :=
  ⟨sampleStart_started, sampleStart_started, rfl, rfl, rfl, rfl⟩

/-- Both nodes know the token the receiver issues, and one file goes over. -/
def oneDelivery : List Event :=
  (exchanging 0 8).map .receiver ++
    (unlocking 0 7 ++ exchanging 1 8 ++ sending 2 (sampleToken 7) "a.txt" 9 ++
      [sampleProceed 2 0, sampleProceed 2 11, .completed 2, .workerTake, .workerCall]).map
        .sender ++
    [.connect ⟨true, true, true, true⟩, .progress 3 2,
      .deliver [fileItem "1000_0909090909090909_a.txt" [1, 2, 3] 5] [[1, 2, 3]] true (sampleEnv 0),
      .finish (sampleEnv 0), .report]

theorem oneDelivery_inOrder : ∃ nodes, run (step sampleLink) sampleNodes oneDelivery = some nodes ∧
    nodes.uploads.length = 1 ∧ InOrder sampleLink nodes := by
  obtain ⟨nodes, hrun⟩ : ∃ nodes, run (step sampleLink) sampleNodes oneDelivery = some nodes :=
    Option.isSome_iff_exists.mp (by decide +kernel)
  have hlength : (run (step sampleLink) sampleNodes oneDelivery).all
      (fun nodes => nodes.uploads.length = 1) = true := by decide +kernel
  rw [hrun] at hlength
  simp only [Option.all_some, decide_eq_true_eq] at hlength
  exact ⟨nodes, hrun, hlength, transfers_inOrder sampleNodes_begins hrun⟩

theorem oneDelivery_arrived : ∃ nodes,
    run (step sampleLink) sampleNodes oneDelivery = some nodes ∧
    ∃ upload ∈ nodes.uploads, Arrived nodes 0 upload := by
  obtain ⟨nodes, hrun⟩ : ∃ nodes, run (step sampleLink) sampleNodes oneDelivery = some nodes :=
    Option.isSome_iff_exists.mp (by decide +kernel)
  have hfacts : (run (step sampleLink) sampleNodes oneDelivery).all (fun nodes =>
      Meets LocalDrop.step FreshNames sampleStart nodes.did ∧
      Meets LocalDrop.step FreshNames sampleStart nodes.heard ∧
      (nodes.sender.world.queue.jobs 0).status = .completed ∧
      Toward sampleLink (nodes.sender.world.queue.jobs 0).request) = true := by decide +kernel
  rw [hrun] at hfacts
  simp only [Option.all_some, decide_eq_true_eq] at hfacts
  obtain ⟨hsender, hreceiver, hcompleted, htoward⟩ := hfacts
  exact ⟨nodes, hrun,
    completed_arrived sampleNodes_begins hrun hsender hreceiver hcompleted htoward⟩

end LocalDrop.Delivery
