import LocalDrop.Ownership
import LocalDrop.QueueJobs

/-! The transfer queue inside the process: every step of the process is a step of
the queue or leaves it alone, so what holds along the queue's own runs holds in
the process. -/
namespace LocalDrop
open Lib

def QueueStep (process : Process) (event : Event) : QueueOrder.QueueEvent → Prop
  | .shutdown => event = .queueShutdown
  | .done success _ => event = .workerDone success
  | .enqueue enqueued _ _ => ∃ id request, process.requests id = some request ∧
      request.handingOver = true ∧ enqueued.filepath = request.info.filename.str
  | _ => True

def QueueReads (now : Int) : QueueOrder.QueueEvent → Prop
  | .enqueue _ time _ => time = now
  | .take time => time = now
  | .progress _ _ time => time = now
  | .done _ time => time = now
  | _ => True

theorem next_queueAt {process after : Process} {event : Event} {entries : List Entry}
    (hwf : Wellformed process)
    (hrunning : ∀ id request, process.requests id = some request →
      process.world.queue.running = true)
    (h : next process event = some (after, entries)) :
    after.world.queue = process.world.queue ∨
      ∃ queueEvent, QueueStep process event queueEvent ∧
        QueueReads process.world.clock queueEvent ∧
        QueueOrder.step process.world.queue queueEvent = some after.world.queue := by
  cases next_steps h with
  | call id upload env request was phase =>
      exact .inl (@answerToConnection_effect id process.world _ env (hwf.requests id request was)
        phase upload).2.2
  | proceed id env request outcome was continues =>
      cases hhanding : request.handingOver with
      | false => exact .inl (proceed_quiet hhanding continues).queue
      | true =>
          have henqueues : ∀ port token, ∃ queueEvent,
              QueueStep process (.proceed id env) queueEvent ∧
              QueueReads process.world.clock queueEvent ∧
              QueueOrder.step process.world.queue queueEvent = some (transferEnqueue
                process.world.queue ⟨request.info.filename.str, request.info.targetIp.str, port,
                  token⟩ process.world.clock env.random).1 := by
            intro port token
            refine ⟨.enqueue ⟨request.info.filename.str, request.info.targetIp.str, port, token⟩
              process.world.clock env.random, ⟨id, request, was, hhanding, rfl⟩, rfl, ?_⟩
            simp only [QueueOrder.step, hrunning id request was, if_true]
          cases proceed_proceeds continues with
          | sendCleanup => exact .inl rfl
          | @sendRefused port token queue deleted _ refused =>
              have henqueue := henqueues port token
              rw [refused] at henqueue
              exact .inr henqueue
          | @sendEnqueued port token jobId queue deleted _ enqueued =>
              have henqueue := henqueues port token
              rw [enqueued] at henqueue
              exact .inr henqueue
          | exchangeAdd phase | exchangeMark phase | pairRefused phase | pairAccepted phase
          | pairStore phase | pairMark phase => simp [Request.handingOver, phase] at hhanding
  | completed id request was releasable =>
      refine .inl ?_
      unfold requestCompleted
      split <;> rfl
  | workerTake queue takes => exact .inr ⟨.take process.world.clock, trivial, rfl, takes⟩
  | workerCall queue calls => exact .inr ⟨.call, trivial, trivial, calls⟩
  | workerProgress bytesSent totalBytes queue advances =>
      exact .inr ⟨.progress bytesSent totalBytes process.world.clock, trivial, rfl, advances⟩
  | workerDone success result ends =>
      exact .inr ⟨.done success process.world.clock, rfl, rfl, by simp [QueueOrder.step, ends]⟩
  | workerExit queue exits => exact .inr ⟨.exit, trivial, trivial, exits⟩
  | tick | accept | resolved | removed | serverStop => exact .inl rfl
  | queueShutdown stopped released => exact .inr ⟨.shutdown, rfl, trivial, rfl⟩

theorem next_queue {process after : Process} {event : Event} {entries : List Entry}
    (hwf : Wellformed process)
    (hrunning : ∀ id request, process.requests id = some request →
      process.world.queue.running = true)
    (h : next process event = some (after, entries)) :
    after.world.queue = process.world.queue ∨
      ∃ queueEvent, QueueStep process event queueEvent ∧
        QueueOrder.step process.world.queue queueEvent = some after.world.queue := by
  rcases next_queueAt hwf hrunning h with heq | ⟨queueEvent, hevent, -, hqueue⟩
  · exact .inl heq
  · exact .inr ⟨queueEvent, hevent, hqueue⟩

theorem next_requests {process after : Process} {event : Event} {entries : List Entry}
    (h : next process event = some (after, entries)) :
    (after.serving = true → process.serving = true) ∧
      ∀ id request, after.requests id = some request →
        process.serving = true ∨ ∃ old, process.requests id = some old := by
  have hupdate : ∀ {target : Nat} {old : Request} {changed : Option Request} {id : Nat}
      {request : Request}, process.requests target = some old →
      Function.update process.requests target changed id = some request →
      process.serving = true ∨ ∃ old, process.requests id = some old := by
    intro target old changed id request hold hrequest
    by_cases hid : id = target
    · exact .inr ⟨old, hid ▸ hold⟩
    · rw [Function.update_of_ne hid] at hrequest
      exact .inr ⟨request, hrequest⟩
  cases next_steps h with
  | accept url method clientIp headers serving =>
      exact ⟨fun _ => serving, fun _ _ _ => .inl serving⟩
  | call id upload env request was phase =>
      exact ⟨fun hserving => hserving, fun _ _ => hupdate was⟩
  | proceed id env request outcome was continues =>
      exact ⟨fun hserving => hserving, fun _ _ => hupdate was⟩
  | completed id request was releasable =>
      exact ⟨fun hserving => hserving, fun _ _ => hupdate was⟩
  | serverStop =>
      exact ⟨fun hserving => absurd hserving (by simp),
        fun _ request hid => .inr ⟨request, hid⟩⟩
  | tick | workerTake | workerCall | workerProgress | workerDone | workerExit | resolved | removed
  | queueShutdown =>
      exact ⟨fun hserving => hserving, fun _ request hid => .inr ⟨request, hid⟩⟩

structure QueueOk (process : Process) : Prop where
  inv : QueueOrder.Inv process.world.queue
  requests : ∀ id request, process.requests id = some request →
    process.world.queue.running = true
  serving : process.serving = true → process.world.queue.running = true

theorem Started.queueOk {process : Process} (h : Started process) : QueueOk process where
  inv := h.queue ▸ QueueOrder.inv_init
  requests id request hid := by simp [h.requests] at hid
  serving _ := by simp [h.queue, transferQueueInit]

theorem queueOk_next {process after : Process} {event : Event} {entries : List Entry}
    (hwf : Wellformed process) (hok : QueueOk process)
    (h : next process event = some (after, entries)) : QueueOk after := by
  have hinv : QueueOrder.Inv after.world.queue := by
    rcases next_queue hwf hok.requests h with heq | ⟨queueEvent, -, hqueue⟩
    · exact heq ▸ hok.inv
    · exact QueueOrder.inv_step _ _ _ hok.inv hqueue
  by_cases hshutdown : event = .queueShutdown
  · subst hshutdown
    cases next_steps h with
    | queueShutdown stopped released =>
        have hnone : ∀ id, process.requests id = none := by
          intro id
          by_cases hid : id < process.nextId
          · exact released id hid
          · exact hwf.ids id (by omega)
        refine ⟨hinv, fun id request hid => ?_, fun hserving => ?_⟩
        · exact absurd hid (by simp [Process.withQueue, hnone])
        · exact absurd hserving (by simp [Process.withQueue, stopped])
  · have hrunning : after.world.queue.running = process.world.queue.running := by
      rcases next_queue hwf hok.requests h with heq | ⟨queueEvent, hevent, hqueue⟩
      · rw [heq]
      · refine QueueOrder.running_step hqueue ?_
        rintro rfl
        exact hshutdown hevent
    obtain ⟨hserving, hrequests⟩ := next_requests h
    refine ⟨hinv, fun id request hid => ?_, fun hstill => ?_⟩
    · rw [hrunning]
      rcases hrequests id request hid with hwas | ⟨old, hold⟩
      · exact hok.serving hwas
      · exact hok.requests id old hold
    · rw [hrunning]
      exact hok.serving (hserving hstill)

end LocalDrop
