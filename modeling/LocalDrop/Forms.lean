import LocalDrop.Fields
import LocalDrop.Collecting

/-! The form fields of a request that is receiving its body. While nothing has gone wrong, the
buffer of every field is what `copy_form_value` made of the calls so far. -/
namespace LocalDrop
open Lib

inductive FormField where
  | targetIp
  | targetPort
  | targetName
  | adminCode
  | pairCode
  | peerName
  | peerPort
deriving DecidableEq

namespace FormField

def key : FormField → CString
  | targetIp => .lit "target_ip"
  | targetPort => .lit "target_port"
  | targetName => .lit "target_name"
  | adminCode => .lit "admin_code"
  | pairCode => .lit "pair_code"
  | peerName => .lit "peer_name"
  | peerPort => .lit "peer_port"

def size : FormField → Nat
  | targetIp => 64
  | targetName | peerName => 256
  | targetPort | adminCode | pairCode | peerPort => 16

def buffer (info : ConnectionInfo) : (field : FormField) → Buffer field.size
  | targetIp => info.targetIp
  | targetPort => info.targetPort
  | targetName => info.targetName
  | adminCode => info.adminCode
  | pairCode => info.pairCode
  | peerName => info.peerName
  | peerPort => info.peerPort

end FormField

def FormFilled (items : List PostItem) (info : ConnectionInfo) : Prop :=
  ∀ field : FormField, field.buffer info = fieldBuffer field.size field.key items

section parsing
variable {fs : FileSystem} {id : Nat} {info info' : ConnectionInfo} {now : Time}
  {items : List PostItem} {item : PostItem}

theorem openStage_buffer (field : FormField) :
    field.buffer (openStage fs id info now item).2.1 = field.buffer info := by
  unfold openStage
  split
  · split <;> cases field <;> rfl
  · rfl

theorem writeStage_buffer (field : FormField) :
    field.buffer (writeStage fs info now item).2 = field.buffer info := by
  unfold writeStage
  split
  · split <;> cases field <;> rfl
  · rfl

theorem copyField_buffer (field : FormField) :
    field.buffer (copyField info item) =
      if item.key = field.key then copyFormValue (field.buffer info) item.data item.off
      else field.buffer info := by
  by_cases hkey : item.key = field.key
  · rw [if_pos hkey]
    unfold copyField
    simp only [hkey]
    cases field <;> rfl
  · rw [if_neg hkey]
    unfold copyField
    cases field
    all_goals
      repeat' split
      all_goals first | rfl | contradiction

theorem FormFilled.file (h : FormFilled items info) (hkey : item.key = .lit "file")
    (hsame : ∀ field : FormField, field.buffer info' = field.buffer info) :
    FormFilled (items ++ [item]) info' := by
  intro field
  have hother : item.key ≠ field.key := by
    rw [hkey]
    cases field <;> decide
  rw [hsame, h field, fieldBuffer_concat, if_neg hother]

theorem copyField_filled (h : FormFilled items info) :
    FormFilled (items ++ [item]) (copyField info item) := by
  intro field
  rw [copyField_buffer, h field, fieldBuffer_concat]

theorem iteratePost_filled (h : FormFilled items info) (hok : info.responseStatus < 400) :
    FormFilled (items ++ [item]) (iteratePost fs id info now item).2 := by
  unfold iteratePost
  rw [if_neg (Nat.not_le.mpr hok)]
  split
  · rename_i hkey
    have hopen := @openStage_buffer fs id info now item
    split <;> rename_i heq <;> rw [heq] at hopen
    · exact h.file hkey hopen
    · exact h.file hkey fun field => (writeStage_buffer field).trans (hopen field)
  · exact copyField_filled h

theorem parseFields_filled (more : List PostItem) (h : FormFilled items info)
    (hok : (parseFields fs id info now more).2.responseStatus < 400) :
    FormFilled (items ++ more) (parseFields fs id info now more).2 := by
  induction more generalizing items fs info with
  | nil =>
      rw [List.append_nil]
      exact h
  | cons item more ih =>
      have hnow : info.responseStatus < 400 := by
        by_contra hfailed
        rw [parseFields_refused (Nat.le_of_not_lt hfailed)] at hok
        exact hfailed hok
      have hlater := ih (iteratePost_filled h hnow) hok
      rwa [List.append_assoc, List.singleton_append] at hlater

theorem postProcess_filled {route : Route} {more : List PostItem} {processed : Bool}
    (hpost : info.postprocessor = true)
    (h : info.responseStatus < 400 → FormFilled items info)
    (hok : (postProcess fs id info route now more processed).2.responseStatus < 400) :
    FormFilled (items ++ more) (postProcess fs id info route now more processed).2 := by
  have hbefore : info.responseStatus < 400 := by
    by_contra hrefused
    rw [postProcess_refused (Nat.le_of_not_lt hrefused)] at hok
    exact hrefused hok
  have hparse := postProcess_accepted hpost hok
  rw [hparse] at hok ⊢
  exact parseFields_filled more (h hbefore) hok

end parsing

def Route.takesBody (route : Route) : Bool := route.gated || route.secretLimit.isSome

section calls
variable {world : World} {id : Nat} {request : Request} {env : CallEnv} {items : List PostItem}

theorem takesBody_mem {route : Route} (h : route.takesBody = true) :
    route ∈ [.unlock, .exchange, .upload, .pair, .send] := by
  cases route <;> first | decide | contradiction

theorem FormFilled.gated {info info' : ConnectionInfo} (h : FormFilled items info)
    (hgated : info.Gated info') : FormFilled items info' := by
  obtain ⟨status, message, checked, authorized, rfl⟩ := hgated
  intro field
  rw [← h field]
  cases field <;> rfl

theorem limitChunk_status {auth auth' : Auth} {info info' : ConnectionInfo} {scope : CString}
    {limit : Nat} {now : Time} {unwritten : CString} {passed : Bool}
    (h : limitChunk auth info scope limit now unwritten = (auth', info', passed)) :
    info'.responseStatus = info.responseStatus ∧ passed = decide (info'.responseStatus < 400) ∨
      passed = false ∧ 400 ≤ info'.responseStatus := by
  unfold limitChunk at h
  split at h
  · cases h
    exact .inl ⟨rfl, rfl⟩
  · rcases rateLimitRequest_status auth { info with authChecked := true } scope limit now unwritten
      with ⟨auth'', heq⟩ | ⟨auth'', info'', heq, hstatus⟩ <;> rw [heq] at h <;> cases h
    · exact .inl ⟨rfl, rfl⟩
    · exact .inr ⟨rfl, by omega⟩

theorem chunkGate_of_secret {auth : Auth} {info : ConnectionInfo} {route : Route}
    {headers : Headers} {scope : CString} {limit : Nat} {now : Time} {unwritten : CString}
    (h : route.secretLimit = some (scope, limit)) :
    chunkGate auth info route headers now unwritten =
      limitChunk auth info scope limit now unwritten := by
  unfold chunkGate
  split
  · rename_i scope' limit' hsome
    rw [h] at hsome
    cases Option.some.inj hsome
    rfl
  · rename_i hnone
    rw [h] at hnone
    contradiction

theorem chunkStep_filled {body : Body} (hroute : request.route.takesBody = true)
    (hparses : request.info.postprocessor = true)
    (hscreened : request.route.gated = true → request.Screened)
    (h : request.info.responseStatus < 400 → FormFilled items request.info)
    (hok : (chunkStep world id request body env).2.1.info.responseStatus < 400) :
    FormFilled (items ++ body.items) (chunkStep world id request body env).2.1.info := by
  cases hgated : request.route.gated with
  | true =>
      cases (@chunkStep_outcome world id request body env hgated (hscreened hgated)).1 with
      | refused status kept files => omega
      | parsed auth info gate gated same files result =>
          rw [result] at hok ⊢
          have hparses' : info.postprocessor = true := by
            obtain ⟨status, message, checked, authorized, rfl⟩ := gated
            exact hparses
          exact postProcess_filled hparses' (fun hstatus => (h (same ▸ hstatus)).gated gated) hok
  | false =>
      rw [Route.takesBody, hgated, Bool.false_or] at hroute
      obtain ⟨⟨scope, limit⟩, hsecret⟩ := Option.isSome_iff_exists.mp hroute
      have hgate := @chunkGate_gated world.auth request.info request.headers world.clock
        env.unwritten request.route
      unfold chunkStep at hok ⊢
      dsimp only at hok ⊢
      split at hok <;> rename_i auth info heq
      · rw [chunkGate_of_secret hsecret] at heq
        rcases limitChunk_status heq with ⟨-, hrefused⟩ | ⟨-, hrefused⟩
        · exact absurd hok (of_decide_eq_false hrefused.symm)
        · exact absurd hok (Nat.not_lt.mpr hrefused)
      · have hstatus : info.responseStatus = request.info.responseStatus := by
          have hlimit := heq
          rw [chunkGate_of_secret hsecret] at hlimit
          rcases limitChunk_status hlimit with ⟨hsame, -⟩ | ⟨hrefused, -⟩
          · exact hsame
          · contradiction
        rw [heq] at hgate
        have hparses' : info.postprocessor = true := by
          obtain ⟨status, message, checked, authorized, rfl⟩ := hgate
          exact hparses
        exact postProcess_filled hparses' (fun hok => (h (hstatus ▸ hok)).gated hgate) hok

theorem takesBody_final_phase (hroute : request.route.takesBody = true) :
    (answerToConnection world id request none env).2.1.phase ≠ .receiving := by
  cases hgated : request.route.gated with
  | true => exact final_phase hgated
  | false =>
      rw [Route.takesBody, hgated, Bool.false_or] at hroute
      unfold answerToConnection
      cases hcase : request.route <;> rw [hcase] at hroute <;> try contradiction
      all_goals
        simp only [unlockFinal, exchangeFinal]
        repeat' split
        all_goals exact Phase.noConfusion

theorem chunkStep_postprocessor (body : Body) :
    (chunkStep world id request body env).2.1.info.postprocessor =
      request.info.postprocessor := by
  have hgate := @chunkGate_gated world.auth request.info request.headers world.clock
    env.unwritten request.route
  unfold chunkStep
  dsimp only
  split <;> rename_i auth info heq <;> rw [heq] at hgate <;>
    obtain ⟨status, message, checked, authorized, rfl⟩ := hgate
  · rfl
  · exact postProcess_postprocessor ..

theorem routeOf_takesBody {url method : CString} (h : (routeOf url method).takesBody = true) :
    method = .lit "POST" := by
  by_contra hnot
  unfold routeOf at h
  simp only [hnot, and_false, if_false] at h
  repeat' split at h
  all_goals contradiction

end calls

def Request.FillsForm (request : Request) (items : List PostItem) : Prop :=
  request.route.takesBody = true → request.phase = .receiving →
    request.info.postprocessor = true ∧
      (request.info.responseStatus < 400 → FormFilled items request.info)

structure FormsKnown (events : List Event) (process : Process) : Prop where
  wellformed : Wellformed process
  screened : BodiesScreened process
  unseen : ∀ id, process.nextId ≤ id → receivedItems id events = []
  filling : ∀ id request, process.requests id = some request →
    request.FillsForm (receivedItems id events)

section known
variable {events : List Event} {process after : Process} {event : Event} {entries : List Entry}
  {id : Nat} {request' : Request}

theorem formFilled_new (method : CString) (clientIp : Chars 46) :
    FormFilled [] (newConnectionInfo method clientIp) := by
  intro field
  cases field <;> rfl

theorem known_next {Known : Request → List PostItem → Prop}
    (hunseen : ∀ id, process.nextId ≤ id → receivedItems id events = [])
    (hknown : ∀ id request, process.requests id = some request →
      Known request (receivedItems id events))
    (haccept : ∀ url method clientIp headers,
      Known ⟨routeOf url method, headers, newConnectionInfo method clientIp, 0, .receiving⟩ [])
    (hcall : ∀ id request upload env, process.requests id = some request →
      request.phase = .receiving →
      Known (answerToConnection process.world id request upload env).2.1
        (receivedItems id events ++ upload.elim [] Body.items))
    (hproceed : ∀ id request env outcome, process.requests id = some request →
      proceed process.world id request env = some outcome →
      Known outcome.2.1 (receivedItems id events))
    (hnext : next process event = some (after, entries))
    (hid : after.requests id = some request') :
    Known request' (receivedItems id (events ++ [event])) := by
  rw [receivedItems_concat]
  by_cases hown : event.request = some id
  · cases next_own hnext hown hid with
    | call upload env request was phase =>
        cases upload with
        | none => exact hcall id request none env was phase
        | some body =>
            have hitems : Event.items id (.call id (some body) env) = body.items := if_pos rfl
            rw [hitems]
            exact hcall id request (some body) env was phase
    | proceed env request outcome was continues =>
        have hitems : Event.items id (.proceed id env) = [] := rfl
        rw [hitems, List.append_nil]
        exact hproceed id request env outcome was continues
  · rw [items_of_other hown, List.append_nil]
    cases next_origin hnext hid with
    | kept was => exact hknown id request' was
    | accepted url method clientIp headers fresh quiet new =>
        rw [hunseen id (by omega), new]
        exact haccept url method clientIp headers
    | called upload env request was phase call settled logged new =>
        rw [call] at hown
        exact absurd rfl hown
    | proceeded env request outcome was continues call settled logged new =>
        rw [call] at hown
        exact absurd rfl hown

theorem fillsForm_new (url method : CString) (clientIp : Chars 46) (headers : Headers) :
    Request.FillsForm
      ⟨routeOf url method, headers, newConnectionInfo method clientIp, 0, .receiving⟩ [] := by
  intro hroute _
  have hpost := routeOf_takesBody hroute
  exact ⟨by simp [newConnectionInfo, hpost], fun _ => formFilled_new method clientIp⟩

theorem fillsForm_call {request : Request} {items : List PostItem} (h : request.FillsForm items)
    (hphase : request.phase = .receiving)
    (hscreened : request.route.gated = true → request.Screened) (upload : Option Body)
    (env : CallEnv) :
    (answerToConnection process.world id request upload env).2.1.FillsForm
      (items ++ upload.elim [] Body.items) := by
  intro hroute hreceiving
  rw [(answerToConnection_keeps upload).route] at hroute
  obtain ⟨hparses, hfilled⟩ := h hroute hphase
  cases upload with
  | none => exact absurd hreceiving (takesBody_final_phase hroute)
  | some body =>
      rw [answerToConnection_body (takesBody_mem hroute), chunkStep_postprocessor]
      exact ⟨hparses, chunkStep_filled hroute hparses hscreened hfilled⟩

theorem formsKnown_step (past : List Event) (process : Process) (event : Event) (after : Process)
    (h : FormsKnown past process) (hstep : step process event = some after) :
    FormsKnown (past ++ [event]) after := by
  have hunseen := unseen_step h.wellformed h.unseen hstep
  obtain ⟨settled, entries, hnext, rfl⟩ := step_eq_some hstep
  have hwellformed := next_wellformed h.wellformed hnext
  have hscreened := bodiesScreened_next h.screened hnext
  refine ⟨⟨hwellformed.requests, hwellformed.ids⟩, hscreened, hunseen, fun id request hid => ?_⟩
  refine known_next h.unseen h.filling fillsForm_new ?_ ?_ hnext hid
  · intro id request upload env was phase
    exact fillsForm_call (h.filling id request was) phase
      (fun hgated => h.screened id request was hgated phase) upload env
  · intro id request env outcome was continues _ hphase
    exact absurd hphase (proceed_phase continues)

theorem Started.formsKnown (h : Started process) : FormsKnown [] process where
  wellformed := h.owned.wellformed
  screened id request hid := by simp [h.requests] at hid
  unseen id _ := rfl
  filling id request hid := by simp [h.requests] at hid

end known

end LocalDrop
