import LocalDrop.Bodies
import LocalDrop.Uploads

/-! Uploads that fail. Whatever goes wrong and whenever, `request_completed` leaves no file
of the request in `staging/`, nothing else was touched, and the client is told of the first
error. Staging names need not be fresh for this. -/
namespace LocalDrop
open Lib

def Event.request : Event → Option Nat
  | .call id _ _ => some id
  | .proceed id _ => some id
  | .completed id => some id
  | _ => none

inductive OwnStep (process : Process) (id : Nat) : Event → Process → Request → Prop
  | call (upload : Option Body) (env : CallEnv) (request : Request)
      (was : process.requests id = some request) (phase : request.phase = .receiving) :
      OwnStep process id (.call id upload env)
        (process.settle id (answerToConnection process.world id request upload env)).1
        (answerToConnection process.world id request upload env).2.1
  | proceed (env : ProceedEnv) (request : Request) (outcome : Outcome)
      (was : process.requests id = some request)
      (continues : proceed process.world id request env = some outcome) :
      OwnStep process id (.proceed id env) (process.settle id outcome).1 outcome.2.1

theorem next_own {process after : Process} {event : Event} {entries : List Entry} {id : Nat}
    {request' : Request} (h : next process event = some (after, entries))
    (hown : event.request = some id) (hid : after.requests id = some request') :
    OwnStep process id event after request' := by
  cases next_steps h with
  | call target upload env request was phase =>
      cases Option.some.inj hown
      change Function.update process.requests id _ id = some request' at hid
      rw [Function.update_self, Option.some.injEq] at hid
      rw [← hid]
      exact .call upload env request was phase
  | proceed target env request outcome was continues =>
      cases Option.some.inj hown
      change Function.update process.requests id _ id = some request' at hid
      rw [Function.update_self, Option.some.injEq] at hid
      rw [← hid]
      exact .proceed env request outcome was continues
  | completed target request was releasable =>
      cases Option.some.inj hown
      change Function.update process.requests id none id = some request' at hid
      rw [Function.update_self] at hid
      contradiction
  | tick | accept | workerTake | workerCall | workerProgress | workerDone | workerExit | resolved
  | removed | serverStop | queueShutdown => contradiction

theorem next_of_other {process after : Process} {event : Event} {entries : List Entry} {id : Nat}
    {request : Request} (hwf : Wellformed process) (h : next process event = some (after, entries))
    (hother : event.request ≠ some id) (hwas : process.requests id = some request) :
    after.requests id = some request := by
  have hupdate : ∀ {target : Nat} (changed : Option Request), target ≠ id →
      Function.update process.requests target changed id = some request := by
    intro target changed hne
    rw [Function.update_of_ne (Ne.symm hne)]
    exact hwas
  have hne : ∀ {target : Nat}, some target ≠ some id → target ≠ id := fun hne heq =>
    hne (congrArg some heq)
  cases next_steps h with
  | call target upload env request was phase => exact hupdate _ (hne hother)
  | proceed target env request outcome was continues => exact hupdate _ (hne hother)
  | completed target request was releasable => exact hupdate _ (hne hother)
  | accept url method clientIp headers serving => exact hupdate _ (hwf.lt hwas).ne'
  | tick | workerTake | workerCall | workerProgress | workerDone | workerExit | resolved | removed
  | serverStop | queueShutdown => exact hwas

theorem next_nextId {process after : Process} {event : Event} {entries : List Entry}
    (h : next process event = some (after, entries)) : process.nextId ≤ after.nextId := by
  cases next_steps h with
  | accept => exact Nat.le_succ _
  | call | proceed | completed | tick | workerTake | workerCall | workerProgress | workerDone
  | workerExit | resolved | removed | serverStop | queueShutdown => exact le_rfl

/-- As long as the request is there, it has the property. -/
structure Tracks (id : Nat) (Q : Request → Prop) (process : Process) : Prop where
  wellformed : Wellformed process
  known : id < process.nextId
  has : ∀ request, process.requests id = some request → Q request

theorem Wellformed.tracks {process : Process} {id : Nat} {request : Request} {Q : Request → Prop}
    (h : Wellformed process) (hid : process.requests id = some request) (hQ : Q request) :
    Tracks id Q process where
  wellformed := h
  known := h.lt hid
  has other hother := by
    rw [hid] at hother
    exact Option.some.inj hother ▸ hQ

theorem Tracks.mono {id : Nat} {Q Q' : Request → Prop} {process : Process}
    (h : Tracks id Q process) (himp : ∀ request, Q request → Q' request) : Tracks id Q' process :=
  ⟨h.wellformed, h.known, fun request hid => himp request (h.has request hid)⟩

theorem tracks_accept {process after : Process} {url method : CString} {clientIp : Chars 46}
    {headers : Headers} (hwellformed : Wellformed process)
    (hstep : step process (.accept url method clientIp headers) = some after) :
    after.nextId = process.nextId + 1 ∧ Tracks process.nextId (fun request => request =
      ⟨routeOf url method, headers, newConnectionInfo method clientIp, 0, .receiving⟩) after := by
  obtain ⟨settled, entries, hnext, rfl⟩ := step_eq_some hstep
  have hwf := next_wellformed hwellformed hnext
  cases next_steps hnext with
  | accept _ _ _ _ serving =>
      refine ⟨rfl, ⟨⟨hwf.requests, hwf.ids⟩, Nat.lt_succ_self _, ?_⟩⟩
      intro request hid
      change Function.update process.requests process.nextId _ process.nextId = _ at hid
      rw [Function.update_self, Option.some.injEq] at hid
      exact hid.symm

structure KeptByCalls (id : Nat) (Q : Request → Prop) : Prop where
  call : ∀ world request upload env, Q request → request.phase = .receiving →
    Q (answerToConnection world id request upload env).2.1
  proceed : ∀ world request env outcome, Q request →
    proceed world id request env = some outcome → Q outcome.2.1

theorem tracks_step {id : Nat} {Q : Request → Prop} (hkept : KeptByCalls id Q)
    (process : Process) (event : Event) (after : Process) (h : Tracks id Q process)
    (hstep : step process event = some after) : Tracks id Q after := by
  obtain ⟨settled, entries, hnext, rfl⟩ := step_eq_some hstep
  have hwf := next_wellformed h.wellformed hnext
  have hids := next_nextId hnext
  refine ⟨⟨hwf.requests, hwf.ids⟩, lt_of_lt_of_le h.known hids, ?_⟩
  intro request' hid
  cases next_origin hnext hid with
  | kept was => exact h.has request' was
  | accepted url method clientIp headers fresh quiet new => exact absurd h.known (by omega)
  | called upload env request was phase call settled logged new =>
      exact new ▸ hkept.call _ _ _ _ (h.has request was) phase
  | proceeded env request outcome was continues call settled logged new =>
      exact new ▸ hkept.proceed _ _ _ _ (h.has request was) continues

/-- The request carries this error, and if it is answered it is with it. -/
structure Request.Refused (status : Nat) (request : Request) : Prop where
  route : request.route = .upload
  carries : request.info.responseStatus = status
  phase : request.phase = .receiving ∧ request.Screened ∨
    ∃ reply, request.phase = .answered reply ∧ reply.status = status

section calls
variable {world : World} {id : Nat} {request : Request} {env : CallEnv} {status : Nat}

theorem refused_call (hstatus : 400 ≤ status) (h : request.Refused status)
    (hphase : request.phase = .receiving) (upload : Option Body) :
    (answerToConnection world id request upload env).2.1.Refused status ∧
      (answerToConnection world id request upload env).1.fs = world.fs := by
  have hgated : request.route.gated = true := by rw [h.route]; rfl
  have hkeeps := @answerToConnection_keeps world id request env upload
  have hscreened : request.Screened := by
    rcases h.phase with ⟨-, hscreened⟩ | ⟨reply, hanswered, -⟩
    · exact hscreened
    · rw [hphase] at hanswered
      contradiction
  have hcarried : 400 ≤ request.info.responseStatus := by rw [h.carries]; exact hstatus
  cases upload with
  | some body =>
      rw [answerToConnection_chunk hgated] at hkeeps ⊢
      obtain ⟨houtcome, hscreened'⟩ := @chunkStep_outcome world id request body env hgated hscreened
      have hreceiving : (chunkStep world id request body env).2.1.phase = .receiving :=
        (chunkStep_phase body).trans hphase
      cases houtcome with
      | refused _ kept files =>
          exact ⟨⟨hkeeps.route.trans h.route, (kept hcarried).trans h.carries,
            .inl ⟨hreceiving, hscreened'⟩⟩, files⟩
      | parsed auth info gate gated same files result =>
          have hskip := @postProcess_refused world.fs id info world.clock (by omega) request.route
            body.items body.processed
          rw [hskip] at files result
          exact ⟨⟨hkeeps.route.trans h.route, by rw [result, same, h.carries],
            .inl ⟨hreceiving, hscreened'⟩⟩, files⟩
  | none =>
      rw [answerToConnection_upload h.route, uploadFinal, if_pos hcarried]
      exact ⟨⟨h.route, h.carries, .inr ⟨_, rfl, h.carries⟩⟩, rfl⟩

theorem refused_proceed (h : request.Refused status) {env : ProceedEnv} :
    proceed world id request env = none := by
  rcases h.phase with ⟨hphase, -⟩ | ⟨reply, hphase, -⟩
  · simp [proceed, hphase]
  · exact proceed_answered hphase

end calls

theorem Parsed.outside {id : Nat} {fs fs' : FileSystem} {info info' : ConnectionInfo}
    (h : Parsed id fs info fs' info') {path : CString} (hpath : isStagingEntry path = false) :
    fs' path = fs path := by
  apply h.frame
  rintro hprogress rfl
  rcases h.receiving with ⟨-, hclosed⟩ | ⟨hopen, -⟩
  · rw [hprogress] at hclosed
    contradiction
  · rw [hopen.2.2] at hpath
    contradiction

theorem upload_call_outside {world : World} {id : Nat} {request : Request} {env : CallEnv}
    (hsound : request.Sound) (hroute : request.route = .upload)
    (hphase : request.phase = .receiving) (upload : Option Body) :
    (∀ path, isStagingEntry path = false →
      (answerToConnection world id request upload env).1.fs path = world.fs path) ∨
    ∃ reply, (answerToConnection world id request upload env).2.1.phase = .answered reply ∧
      reply.status = 200 := by
  obtain ⟨hreceiving, -⟩ := hsound.open_ (by simp [hphase]) (by simp [Request.handingOver, hphase])
  cases upload with
  | some body =>
      left
      intro path hpath
      rw [answerToConnection_chunk (by rw [hroute]; rfl)]
      have hgate := @chunkGate_gated world.auth request.info request.headers world.clock
        env.unwritten request.route
      unfold chunkStep
      dsimp only
      split
      · rfl
      · rename_i auth info heq
        rw [heq] at hgate
        have hparsed := @postProcess_parsed id world.fs info world.clock
          (hgate.receiving hreceiving) request.route body.items body.processed
        exact hparsed.outside hpath
  | none =>
      rw [answerToConnection_upload hroute]
      unfold uploadFinal
      dsimp only
      split
      · exact .inl fun _ _ => rfl
      · split
        · exact .inl fun _ _ => rfl
        · rename_i hprogress
          rcases uploadStageCommit_cases world.fs request.info.uploadStage world.clock
              env.sealing with
            ⟨fs', stage, error, -, htouch, heq⟩ | ⟨fs', stage, file, -, -, -, heq⟩ <;> rw [heq]
          · left
            intro path hpath
            refine htouch.others path ?_
            rintro rfl
            rcases hreceiving with ⟨-, hclosed⟩ | ⟨hopen, -⟩
            · simp [hclosed] at hprogress
            · rw [hopen.2.2] at hpath
              contradiction
          · exact .inr ⟨_, rfl, rfl⟩

def CreatorsKnown (process : Process) : Prop :=
  ∀ path file id, process.world.fs path = some file → file.creator = some id →
    id < process.nextId

/-- What an upload created in `staging/` is what it holds. -/
def UploadsHold (process : Process) : Prop :=
  ∀ id request path file, process.requests id = some request → request.route = .upload →
    isStagingEntry path = true → process.world.fs path = some file → file.creator = some id →
    request.holds = some path

section files
variable {process after : Process} {event : Event} {entries : List Entry}

theorem staged_route (hwf : Wellformed process) (hnext : next process event = some (after, entries))
    {id : Nat} {route : Route} {path : CString} (hlogged : Entry.staged id route path ∈ entries) :
    event.request = some id ∧
      ∃ request, process.requests id = some request ∧ request.route = route := by
  have hnone : stagedPaths entries = [] → False := by
    intro hnames
    have hmem := mem_stagedPaths hlogged
    rw [hnames] at hmem
    contradiction
  cases next_steps hnext with
  | call target upload env request was phase =>
      have heffect := (@answerToConnection_effect target process.world _ env
        (hwf.requests target request was) phase upload).1
      cases heffect with
      | quiet files holds quiet => exact absurd (stagedPaths_of_idle quiet) hnone
      | opened opened free holds entry creates logged =>
          obtain ⟨others, heq, hquiet⟩ := logged
          rw [heq, List.mem_append, List.mem_singleton] at hlogged
          rcases hlogged with hother | hnew
          · have hidle := hquiet _ hother
            contradiction
          · cases hnew
            exact ⟨rfl, request, was, rfl⟩
      | committed fs moved source held holds files was' renamed logged =>
          rw [logged] at hlogged
          simp at hlogged
  | proceed target env request outcome was continues =>
      have hnot : ∀ entry ∈ outcome.2.2, ∀ id route path, entry ≠ .staged id route path :=
        (proceed_proceeds continues).entries (by simp) (by simp) (by simp)
      exact absurd rfl (hnot _ hlogged id route path)
  | completed target request was releasable =>
      refine absurd ?_ hnone
      unfold requestCompleted
      split
      · rfl
      · exact stagedPaths_abortUnlinks _ _
  | workerDone success result ends => exact absurd (stagedPaths_jobUnlinks _) hnone
  | _ => contradiction

theorem committed_route (hwf : Wellformed process)
    (hnext : next process event = some (after, entries)) {id : Nat} {now : Time}
    {name path : CString} (hlogged : Entry.committed id now name path ∈ entries) :
    event.request = some id ∧
      ∃ request, process.requests id = some request ∧ request.route = .upload := by
  have hnone : committedPaths entries ≠ [] :=
    List.ne_nil_of_mem (mem_committedPaths.mpr ⟨id, now, name, hlogged⟩)
  cases next_steps hnext with
  | call target upload env request was phase =>
      have hroute : request.route = .upload := by
        by_contra hother
        exact hnone (answerToConnection_not_committed fun hupload => absurd hupload hother)
      have heffect := (@answerToConnection_effect target process.world _ env
        (hwf.requests target request was) phase upload).1
      cases heffect with
      | quiet files holds quiet => exact absurd (quiet _ hlogged) (by simp [Entry.isFileEntry])
      | opened opened free holds entry creates logged =>
          obtain ⟨others, heq, hquiet⟩ := logged
          rw [heq, List.mem_append, List.mem_singleton] at hlogged
          rcases hlogged with hother | hnew
          · exact absurd (hquiet _ hother) (by simp [Entry.isFileEntry])
          · cases hnew
      | committed fs moved source held holds files was' renamed logged =>
          rw [logged, List.mem_singleton, Entry.committed.injEq] at hlogged
          exact ⟨congrArg some hlogged.1.symm, request, hlogged.1 ▸ was, hroute⟩
  | proceed target env request outcome was continues =>
      exact absurd (proceed_not_committed continues) hnone
  | completed target request was releasable =>
      refine absurd ?_ hnone
      unfold requestCompleted
      split
      · rfl
      · exact committedPaths_abortUnlinks _ _
  | workerDone success result ends => exact absurd (committedPaths_jobUnlinks _) hnone
  | tick | accept | workerTake | workerCall | workerProgress | workerExit | resolved | removed
  | serverStop | queueShutdown => exact absurd rfl hnone

theorem staged_held (hwf : Wellformed process) (h : next process event = some (after, entries))
    {id other : Nat} {route : Route} {path : CString}
    (hlogged : Entry.staged other route path ∈ entries)
    (hcreator : (after.world.fs path).map File.creator = some (some id)) :
    after.ledger.held (.request id) = some path := by
  have hstaged := mem_stagedPaths hlogged
  cases next_moves hwf h with
  | creates target staged entry move names creator =>
      rw [names, List.mem_singleton] at hstaged
      subst hstaged
      rw [hcreator, Option.some.injEq, Option.some.injEq] at creator
      rw [creator]
      exact move.self
  | drops move names => simp [names] at hstaged
  | handsOver middle giver slot staged drop move names => simp [names] at hstaged
  | expires move cleanup names => simp [names] at hstaged

theorem held_request {id : Nat} {path : CString}
    (h : process.ledger.held (.request id) = some path) :
    ∃ request, process.requests id = some request ∧ request.holds = some path :=
  Option.bind_eq_some_iff.mp h

theorem creatorsKnown_next (hwf : Wellformed process) (hheld : HeldEntries process)
    (hknown : CreatorsKnown process) (h : next process event = some (after, entries)) :
    CreatorsKnown after := by
  intro path file id hfile hcreator
  have hids := next_nextId h
  have hsame : ∀ source, (process.world.fs source).map File.creator = some (some id) →
      id < after.nextId := by
    intro source hsource
    obtain ⟨old, hold, hcreator⟩ := Option.map_eq_some_iff.mp hsource
    exact lt_of_lt_of_le (hknown source old id hold hcreator) hids
  have hafter : (after.world.fs path).map File.creator = some (some id) := by
    rw [hfile, Option.map_some, hcreator]
  cases next_files hwf hheld h path with
  | same creator => exact hsame path (creator ▸ hafter)
  | gone entry absent =>
      rw [hfile] at absent
      contradiction
  | staged other route logged creator =>
      obtain ⟨request, hid, -⟩ := held_request (staged_held hwf h logged hafter)
      exact (next_wellformed hwf h).lt hid
  | committed other name source logged target held was creator =>
      exact hsame source (creator ▸ hafter)

theorem uploadsHold_next (hwf : Wellformed process) (hheld : HeldEntries process)
    (hknown : CreatorsKnown process) (hanswered : UploadsAnswered process)
    (hholds : UploadsHold process) (h : next process event = some (after, entries)) :
    UploadsHold after := by
  intro id request' path file hid hroute hentry hfile hcreator
  have hafter : (after.world.fs path).map File.creator = some (some id) := by
    rw [hfile, Option.map_some, hcreator]
  cases next_files hwf hheld h path with
  | same creator =>
      obtain ⟨old, hold, hmade⟩ := Option.map_eq_some_iff.mp (creator ▸ hafter)
      have hbefore : ∀ request, process.requests id = some request → request.route = .upload →
          request.holds = some path := by
        intro request hwas hupload
        exact hholds id request path old hwas hupload hentry hold hmade
      cases next_origin h hid with
      | kept was => exact hbefore request' was hroute
      | accepted url method clientIp headers fresh quiet new =>
          exact absurd (hknown path old id hold hmade) (by omega)
      | called upload env request was phase call settled logged new =>
          have hupload : request.route = .upload := by
            rw [← hroute, new, (answerToConnection_keeps upload).route]
          have hown := hbefore request was hupload
          have heffect := (@answerToConnection_effect id process.world _ env
            (hwf.requests id request was) phase upload).1
          cases heffect with
          | quiet files holds entries => rw [new, holds, hown]
          | opened opened free holds entry creates entries =>
              rw [free] at hown
              contradiction
          | committed fs moved source held holds files was renamed entries =>
              -- The file is in `downloads/` now.
              rw [held, Option.some.injEq] at hown
              have htarget : path ≠ (committedPath process.world.clock
                  request.info.uploadStage.commitName).str := by
                rintro rfl
                rw [isStagingEntry_committedPath] at hentry
                contradiction
              have hgone : after.world.fs path = none := by
                rw [settled]
                change (answerToConnection process.world id request upload env).1.fs path = none
                rw [renamed, rename_apply, if_neg htarget, if_pos hown.symm]
              rw [hfile] at hgone
              contradiction
      | proceeded env request outcome was continues call settled logged new =>
          have hupload : request.route = .upload := by
            rw [← hroute, new, (proceed_keeps continues).route]
          rcases hanswered id request was hupload with hphase | ⟨reply, hphase, -⟩
          · simp [proceed, hphase] at continues
          · rw [proceed_answered hphase] at continues
            contradiction
  | gone entry absent =>
      rw [hfile] at absent
      contradiction
  | staged other route logged creator =>
      obtain ⟨request, hrequest, hown⟩ := held_request (staged_held hwf h logged hafter)
      rw [hid] at hrequest
      exact Option.some.inj hrequest ▸ hown
  | committed other name source logged target held was creator =>
      rw [target, isStagingEntry_committedPath] at hentry
      contradiction

end files

structure Tidy (process : Process) : Prop where
  wellformed : Wellformed process
  held : HeldEntries process
  known : CreatorsKnown process
  answered : UploadsAnswered process
  holds : UploadsHold process
  screened : BodiesScreened process

theorem Started.tidy {process : Process} (h : Started process) : Tidy process where
  wellformed := h.wellformed
  held owner path howner := by rw [h.held] at howner; contradiction
  known path file id hfile hcreator := by
    rw [h.leftovers path file hfile] at hcreator
    contradiction
  answered id request hid := by simp [h.requests] at hid
  holds id request path file hid := by simp [h.requests] at hid
  screened id request hid := by simp [h.requests] at hid

theorem tidy_step (process : Process) (event : Event) (after : Process) (h : Tidy process)
    (hstep : step process event = some after) : Tidy after := by
  have hanswered := uploadsAnswered_step h.wellformed h.answered hstep
  obtain ⟨settled, entries, hnext, rfl⟩ := step_eq_some hstep
  have hwf := next_wellformed h.wellformed hnext
  have hheld := heldEntries_next h.wellformed h.held hnext
  have hknown := creatorsKnown_next h.wellformed h.held h.known hnext
  have hholds := uploadsHold_next h.wellformed h.held h.known h.answered h.holds hnext
  have hscreened := bodiesScreened_next h.screened hnext
  exact ⟨⟨hwf.requests, hwf.ids⟩, hheld, hknown, hanswered, hholds, hscreened⟩

/-- What is left of a request that failed when it has been released. -/
structure LeavesNoTrace (start : Process) (events : List Event) (id : Nat) (process : Process)
    (after : Process) : Prop where
  staging : ∀ path file, isStagingEntry path = true → after.world.fs path = some file →
    file.creator ≠ some id
  downloads : ∀ before event next, Takes step start events before event next →
    event.request = some id → ∀ path, isStagingEntry path = false →
    next.world.fs path = before.world.fs path
  released : ∀ path, isStagingEntry path = false →
    after.world.fs path = process.world.fs path

/-- The request has an error status at this point of the run, and goes on with `later`. -/
def Refuses (start : Process) (events : List Event) (id status : Nat) (before : Process)
    (later : List Event) : Prop :=
  Passes step start events before later ∧ 400 ≤ status ∧
    ∃ refused, before.requests id = some refused ∧ refused.phase = .receiving ∧
      refused.info.responseStatus = status

/-- The first error stands: from then on nothing is written, neither by later chunks nor by
what is left of the chunk it came up in, and the answer repeats it. -/
structure FirstErrorStands (start : Process) (events : List Event) (id : Nat)
    (request : Request) : Prop where
  answered : ∀ status before later, Refuses start events id status before later →
    ∀ reply, request.phase = .answered reply → reply.status = status
  unwritten : ∀ status before later, Refuses start events id status before later →
    ∀ between event next, Takes step before later between event next →
      event.request = some id → next.world.fs = between.world.fs
  fields : ∀ before body env next receiving auth info items rest,
    Takes step start events before (.call id (some body) env) next →
    before.requests id = some receiving →
    chunkGate before.world.auth receiving.info receiving.route receiving.headers
      before.world.clock env.unwritten = (auth, info, true) →
    body.items = items ++ rest →
    400 ≤ (parseFields before.world.fs id info before.world.clock items).2.responseStatus →
    next.world.fs = (parseFields before.world.fs id info before.world.clock items).1 ∧
      ∃ refused, next.requests id = some refused ∧ refused.info.responseStatus =
        (parseFields before.world.fs id info before.world.clock items).2.responseStatus

section runs
variable {start process after : Process} {events : List Event} {id : Nat} {request : Request}

theorem released_fs (h : Tidy process) (hid : process.requests id = some request)
    (hroute : request.route = .upload) (hcompleted : step process (.completed id) = some after)
    (path : CString) :
    after.world.fs path = if request.holds = some path then none else process.world.fs path := by
  have hhanding : request.handingOver = false := by
    rcases h.answered id request hid hroute with hphase | ⟨reply, hphase, -⟩ <;>
      simp [Request.handingOver, hphase]
  obtain ⟨settled, entries, hnext, rfl⟩ := step_eq_some hcompleted
  cases next_steps hnext with
  | completed _ released was releasable =>
      rw [hid] at was
      cases Option.some.inj was
      change (requestCompleted process.world id request).1.fs path = _
      unfold requestCompleted Request.holds
      cases hsaved : request.info.fileSaved with
      | true => simp [hhanding]
      | false =>
          by_cases hempty : request.info.uploadStage.stagingPath.str = CString.empty
          · simp [uploadStageAbort, storageDeleteFile, hempty]
          · simp only [uploadStageAbort, storageDeleteFile, hempty, hhanding, FileSystem.unlink,
              if_false, Bool.false_eq_true, false_and, or_false, Option.some.injEq]
            by_cases hpath : request.info.uploadStage.stagingPath.str = path
            · rw [if_pos hpath, hpath, Function.update_self]
            · rw [if_neg hpath, Function.update_of_ne (Ne.symm hpath)]

theorem route_of_passes {before : Process} {later : List Event} {earlier : Request}
    (h : Tidy before) (hlater : run step before later = some process)
    (hearlier : before.requests id = some earlier) (hid : process.requests id = some request) :
    request.route = earlier.route := by
  have hkept : KeptByCalls id fun other => other.route = earlier.route := by
    refine ⟨fun world other upload env hroute _ => ?_,
      fun world other env outcome hroute hgoes => ?_⟩
    · rw [(answerToConnection_keeps upload).route, hroute]
    · rw [(proceed_keeps hgoes).route, hroute]
  have htracks := run_invariant (tracks_step hkept) (h.wellformed.tracks hearlier rfl) hlater
  exact htracks.has request hid

theorem exists_request {event : Event} (hevent : event.request = some id)
    (hstep : step process event = some after) : ∃ request, process.requests id = some request := by
  obtain ⟨settled, entries, hnext, -⟩ := step_eq_some hstep
  cases next_steps hnext with
  | call target upload env request was phase => exact ⟨request, Option.some.inj hevent ▸ was⟩
  | proceed target env request outcome was continues =>
      exact ⟨request, Option.some.inj hevent ▸ was⟩
  | completed target request was releasable => exact ⟨request, Option.some.inj hevent ▸ was⟩
  | tick | accept | workerTake | workerCall | workerProgress | workerDone | workerExit | resolved
  | removed | serverStop | queueShutdown => contradiction

theorem released_outside (h : Tidy process) (hid : process.requests id = some request)
    (hroute : request.route = .upload) (hcompleted : step process (.completed id) = some after)
    (path : CString) (hpath : isStagingEntry path = false) :
    after.world.fs path = process.world.fs path := by
  rw [released_fs h hid hroute hcompleted path, if_neg]
  intro hholds
  have howner : process.ledger.held (.request id) = some path :=
    Option.bind_eq_some_iff.mpr ⟨request, hid, hholds⟩
  rw [h.held _ _ howner] at hpath
  contradiction

theorem upload_step_outside {event : Event} (h : Tidy process)
    (hid : process.requests id = some request) (hroute : request.route = .upload)
    (hevent : event.request = some id) (hstep : step process event = some after) :
    (∀ path, isStagingEntry path = false → after.world.fs path = process.world.fs path) ∨
    ∃ answered reply, after.requests id = some answered ∧ answered.phase = .answered reply ∧
      reply.status = 200 := by
  have hreleased := fun hcompleted => @released_outside process after id request h hid hroute
    hcompleted
  obtain ⟨settled, entries, hnext, rfl⟩ := step_eq_some hstep
  cases next_steps hnext with
  | call target upload env called was phase =>
      cases Option.some.inj hevent
      rw [hid] at was
      cases Option.some.inj was
      have hwellformed := h.wellformed.requests id request hid
      rcases @upload_call_outside process.world id request env hwellformed
        hroute phase upload with houtside | ⟨reply, hreply, hok⟩
      · exact .inl houtside
      · exact .inr ⟨_, reply, Function.update_self .., hreply, hok⟩
  | proceed target env called outcome was continues =>
      cases Option.some.inj hevent
      rw [hid] at was
      cases Option.some.inj was
      rcases h.answered id request hid hroute with hphase | ⟨reply, hphase, -⟩
      · simp [proceed, hphase] at continues
      · rw [proceed_answered hphase] at continues
        contradiction
  | completed target called was releasable =>
      cases Option.some.inj hevent
      exact .inl (hreleased hstep)
  | tick | accept | workerTake | workerCall | workerProgress | workerDone | workerExit | resolved
  | removed | serverStop | queueShutdown => contradiction

theorem leavesNoTrace (hstart : Started start) (hrun : run step start events = some process)
    (hid : process.requests id = some request) (hroute : request.route = .upload)
    (hcompleted : step process (.completed id) = some after)
    (hfailed : ∀ reply, request.phase = .answered reply → reply.status ≠ 200) :
    LeavesNoTrace start events id process after := by
  have htidy : Tidy process := run_invariant tidy_step hstart.tidy hrun
  have hanswered : KeptByCalls id fun other =>
      ∃ reply, other.phase = .answered reply ∧ reply.status = 200 := by
    refine ⟨fun world other upload env h hphase => ?_, fun world other env outcome h hgoes => ?_⟩
    · obtain ⟨reply, hreply, -⟩ := h
      rw [hphase] at hreply
      contradiction
    · obtain ⟨reply, hreply, -⟩ := h
      rw [proceed_answered hreply] at hgoes
      contradiction
  refine ⟨fun path file hentry hfile hcreator => ?_, fun before event next htakes hevent => ?_, ?_⟩
  · rw [released_fs htidy hid hroute hcompleted] at hfile
    split at hfile
    · contradiction
    · rename_i hnot
      exact hnot (htidy.holds id request path file hid hroute hentry hfile hcreator)
  · obtain ⟨hstep, later, hpasses⟩ := htakes
    have hbefore := hpasses.invariant tidy_step hstart.tidy
    have hlater := (hpasses.next hstep).run hrun
    obtain ⟨earlier, hearlier⟩ := exists_request hevent hstep
    have hupload := (route_of_passes hbefore (hpasses.run hrun) hearlier hid).symm.trans hroute
    rcases upload_step_outside hbefore hearlier hupload hevent hstep with
      houtside | ⟨answered, reply, hnext, hreply⟩
    · exact houtside
    · have hwf := (tidy_step _ _ _ hbefore hstep).wellformed
      have htracks :=
        run_invariant (tracks_step hanswered) (hwf.tracks hnext ⟨reply, hreply⟩) hlater
      obtain ⟨last, hlast, hok⟩ := htracks.has request hid
      exact absurd hok (hfailed last hlast)
  · exact released_outside htidy hid hroute hcompleted

theorem keptByCalls_refused {status : Nat} (hstatus : 400 ≤ status) :
    KeptByCalls id (Request.Refused status) where
  call world other upload env h hphase := (refused_call hstatus h hphase upload).1
  proceed world other env outcome h hgoes := by
    rw [refused_proceed h] at hgoes
    contradiction

theorem Refuses.tracks {status : Nat} {before : Process} {later : List Event}
    (h : Refuses start events id status before later) (hstart : Started start)
    (hrun : run step start events = some process) (hid : process.requests id = some request)
    (hroute : request.route = .upload) : Tracks id (Request.Refused status) before := by
  obtain ⟨hpasses, -, refused, hrefused, hphase, hcarries⟩ := h
  have hbefore := hpasses.invariant tidy_step hstart.tidy
  have hupload := (route_of_passes hbefore (hpasses.run hrun) hrefused hid).symm.trans hroute
  refine hbefore.wellformed.tracks hrefused ⟨hupload, hcarries, .inl ⟨hphase, ?_⟩⟩
  exact hbefore.screened id refused hrefused (by rw [hupload]; rfl) hphase

theorem refused_step {status : Nat} {event : Event} (hstatus : 400 ≤ status)
    (h : Tracks id (Request.Refused status) process) (hevent : event.request = some id)
    (hstep : step process event = some after) :
    after.world.fs = process.world.fs ∨ after.requests id = none := by
  obtain ⟨settled, entries, hnext, rfl⟩ := step_eq_some hstep
  cases next_steps hnext with
  | call target upload env called was phase =>
      cases Option.some.inj hevent
      exact .inl (refused_call hstatus (h.has called was) phase upload).2
  | proceed target env called outcome was continues =>
      cases Option.some.inj hevent
      rw [refused_proceed (h.has called was)] at continues
      contradiction
  | completed target called was releasable =>
      cases Option.some.inj hevent
      exact .inr (Function.update_self ..)
  | tick | accept | workerTake | workerCall | workerProgress | workerDone | workerExit | resolved
  | removed | serverStop | queueShutdown => contradiction

theorem firstErrorStands (hstart : Started start) (hrun : run step start events = some process)
    (hid : process.requests id = some request) (hroute : request.route = .upload) :
    FirstErrorStands start events id request where
  answered status before later hrefuses reply hreply := by
    have htracks := run_invariant (tracks_step (keptByCalls_refused hrefuses.2.1))
      (hrefuses.tracks hstart hrun hid hroute) (hrefuses.1.run hrun)
    rcases (htracks.has request hid).phase with ⟨hphase, -⟩ | ⟨last, hlast, hstatus⟩
    · rw [hphase] at hreply
      contradiction
    · rw [hreply] at hlast
      cases hlast
      exact hstatus
  unwritten status before later hrefuses between event next htakes hevent := by
    obtain ⟨hstep, rest, hpasses⟩ := htakes
    have htracks := hpasses.invariant (tracks_step (keptByCalls_refused hrefuses.2.1))
      (hrefuses.tracks hstart hrun hid hroute)
    rcases refused_step hrefuses.2.1 htracks hevent hstep with hsame | hreleased
    · exact hsame
    · -- The request is still there at the end, so this was not its release.
      have hgone : Tracks id (fun _ => False) next := by
        have hnext := tracks_step (keptByCalls_refused hrefuses.2.1) _ _ _ htracks hstep
        refine ⟨hnext.wellformed, hnext.known, fun other hother => ?_⟩
        rw [hreleased] at hother
        contradiction
      have hlast := run_invariant (tracks_step ⟨fun _ _ _ _ h _ => h.elim, fun _ _ _ _ h => h.elim⟩)
        hgone ((hpasses.next hstep).run (hrefuses.1.run hrun))
      exact (hlast.has request hid).elim
  fields before body env next receiving auth info items rest htakes hreceiving hgate hitems
      hstatus := by
    obtain ⟨hstep, later, hpasses⟩ := htakes
    have hbefore := hpasses.invariant tidy_step hstart.tidy
    have hupload := (route_of_passes hbefore (hpasses.run hrun) hreceiving hid).symm.trans hroute
    have hgated : receiving.route.gated = true := by rw [hupload]; rfl
    obtain ⟨settled, entries, hnext, rfl⟩ := step_eq_some hstep
    cases next_steps hnext with
    | call _ _ _ called was phase =>
        rw [hreceiving] at was
        cases Option.some.inj was
        have hscreened := hbefore.screened id receiving hreceiving hgated phase
        have hgating := @chunkGate_gated before.world.auth receiving.info receiving.headers
          before.world.clock env.unwritten receiving.route
        rw [hgate] at hgating
        have hpost : info.postprocessor = true := by
          obtain ⟨status, message, checked, authorized, rfl⟩ := hgating
          exact hscreened.parses
        have hprocess := @postProcess_front before.world.fs id info before.world.clock items rest
          hstatus hpost receiving.route body.processed
        obtain ⟨hfs, hinfo⟩ := @chunkStep_of_passed before.world id receiving body env _ _ hgate
        rw [hitems, hprocess] at hfs hinfo
        rw [← answerToConnection_chunk hgated] at hfs hinfo
        exact ⟨hfs, _, Function.update_self .., by rw [hinfo]⟩

/-- An upload that is not answered 200 leaves no trace once `request_completed` has run, and
the first error it met is the last thing that happened to it. -/
theorem failedUpload_atomic (hstart : Started start)
    (hrun : run step start events = some process) (hid : process.requests id = some request)
    (hroute : request.route = .upload)
    (hcompleted : step process (.completed id) = some after) :
    ((∀ reply, request.phase = .answered reply → reply.status ≠ 200) →
      LeavesNoTrace start events id process after) ∧
    FirstErrorStands start events id request :=
  ⟨leavesNoTrace hstart hrun hid hroute hcompleted, firstErrorStands hstart hrun hid hroute⟩

end runs

/-- The disk is full after the first byte; the next piece of the file would fit. -/
def fullDisk : List Event :=
  unlocking 0 7 ++ [acceptPost "/upload" ⟨some (sampleToken 7), none⟩,
    sendFields 1 [{ fileItem "a.txt" [1, 2, 3] 9 with written := 1 }, fileItem "a.txt" [4] 9],
    sendEnd 1 0]

theorem fullDisk_atomic : ∃ process request reply after,
    run step sampleStart fullDisk = some process ∧ process.requests 1 = some request ∧
      request.phase = .answered reply ∧ reply.status = 500 ∧
      step process (.completed 1) = some after ∧
      LeavesNoTrace sampleStart fullDisk 1 process after ∧
      FirstErrorStands sampleStart fullDisk 1 request := by
  obtain ⟨process, hrun⟩ : ∃ process, run step sampleStart fullDisk = some process :=
    Option.isSome_iff_exists.mp (by decide +kernel)
  have hfacts : (run step sampleStart fullDisk).all (fun process =>
      (process.requests 1).any (fun request => request.route = .upload ∧
        request.phase = .answered (queueJsonStatusMessage 500 (.lit "error")
          (.lit "Falha ao gravar o arquivo temporario"))) ∧
      (step process (.completed 1)).isSome) = true := by
    decide +kernel
  rw [hrun] at hfacts
  simp only [Option.all_some, decide_eq_true_eq, Option.any_eq_true] at hfacts
  obtain ⟨⟨request, hid, hroute, hphase⟩, hcompleted⟩ := hfacts
  obtain ⟨after, hafter⟩ := Option.isSome_iff_exists.mp hcompleted
  have hatomic := failedUpload_atomic sampleStart_started hrun hid hroute hafter
  refine ⟨process, request, _, after, hrun, hid, hphase, rfl, hafter, hatomic.1 ?_, hatomic.2⟩
  intro reply hreply
  rw [hphase] at hreply
  cases hreply
  decide

end LocalDrop
