import LocalDrop.Authorization
import LocalDrop.Failures
import LocalDrop.Finished
import LocalDrop.JobFiles

/-! Files that nobody asked for. The field parser opens a stage for a part named "file" on every
route that takes a body, also on the two that need no login; such a file is nobody's upload and
nobody's transfer, and it lasts no longer than the request that brought it. -/
namespace LocalDrop
open Lib

def Process.Stray (process : Process) (id : Nat) (path : CString) : Prop :=
  ∃ request, process.requests id = some request ∧ request.holds = some path ∧
    request.route ≠ .upload ∧ request.route ≠ .send

/-- Whoever was let in to leave files has left this one. -/
def MayStore (log : List Entry) (id : Nat) : Prop :=
  UploadAuthorized log id ∨ UiAuthorized log id .send

def Entry.storesFor (id : Nat) : Entry → Bool
  | .chunk id' 0 .upload _ _ _ => id' == id
  | .chunk id' 0 .send _ _ _ => id' == id
  | _ => false

theorem MayStore.append {log : List Entry} {id : Nat} (h : MayStore log id) (more : List Entry) :
    MayStore (log ++ more) id :=
  h.imp (·.append more) (·.append more)

section steps
variable {process after : Process} {event : Event} {entries : List Entry} {id : Nat}
  {path : CString}

theorem route_next {request request' : Request} (hwf : Wellformed process)
    (hnext : next process event = some (after, entries)) (hwas : process.requests id = some request)
    (hid : after.requests id = some request') : request'.route = request.route := by
  cases next_origin hnext hid with
  | kept was =>
      rw [hwas] at was
      rw [Option.some.inj was]
  | accepted url method clientIp headers fresh quiet new =>
      have hlt := hwf.lt hwas
      omega
  | called upload env called was phase call settled logged new =>
      rw [hwas] at was
      cases Option.some.inj was
      rw [new, (answerToConnection_keeps upload).route]
  | proceeded env called outcome was continues call settled logged new =>
      rw [hwas] at was
      cases Option.some.inj was
      rw [new, (proceed_keeps continues).route]

theorem stray_next (howned : Owned process) (honroutes : OnRoutes process)
    (h : process.Stray id path) (hnext : next process event = some (after, entries))
    (hpresent : after.ledger.present path) : after.Stray id path := by
  obtain ⟨request, hwas, hholds, hupload, hsend⟩ := h
  have hheld : process.ledger.held (.request id) = some path := ledger_request hwas hholds
  have hstays : after.ledger.held (.request id) = some path → after.Stray id path := by
    intro hheld'
    obtain ⟨request', hid, hholds'⟩ := held_request hheld'
    have hroute := route_next howned.wellformed hnext hwas hid
    exact ⟨request', hid, hholds', hroute ▸ hupload, hroute ▸ hsend⟩
  have hdrops : ∀ {middle : Ledger Owner CString}, process.ledger.Drops middle →
      middle.present path → middle.held (.request id) = some path := by
    intro middle hmove hthere
    rcases hmove.held (.request id) with hsame | hnone
    · exact hsame.trans hheld
    · exact absurd hthere (hmove.gone _ _ hheld hnone)
  cases next_moves howned.wellformed hnext with
  | drops move names => exact hstays (hdrops move hpresent)
  | creates target staged entry move names creator queue =>
      refine hstays ?_
      by_cases hother : id = target
      · rw [hother, move.free] at hheld
        contradiction
      · exact (move.others (.request id) (by simp [hother])).trans hheld
  | handsOver middle giver slot given drop move names =>
      have hmiddle := hdrops drop ((move.present path).mp hpresent)
      by_cases hgiver : giver = id
      · -- Then the job's file is this one, and a job gets its file from a transfer's request.
        subst hgiver
        have hgiven : given = path := Option.some.inj (move.was.symm.trans hmiddle)
        subst hgiven
        have htaker : (after.world.queue.jobs slot).holds = some given := move.taker
        cases jobHolds_next hnext howned.wellformed htaker with
        | held was =>
            have hjob : process.ledger.held (.job slot) = some given := was
            have hsame := howned.ledger.exclusive _ _ given hheld hjob
            contradiction
        | handed other env sender reply was handing call isAt =>
            have hsound := howned.wellformed.requests other sender was
            have hsaved := (hsound.handing handing).1
            have hother : process.ledger.held (.request other) = some given := by
              rw [ledger_request was (hsound.holds handing), ← hsaved, isAt]
            have hsame := howned.ledger.exclusive _ _ given hheld hother
            cases hsame
            rw [hwas] at was
            cases Option.some.inj was
            exact absurd ((honroutes giver request hwas).send handing) hsend
      · refine hstays ((move.others (.request id) ?_ ?_).trans hmiddle)
        · simpa using Ne.symm hgiver
        · simp
  | expires move cleanup names => exact hstays ((congrFun move.held _).trans hheld)

structure Attributed (process : Process) : Prop where
  owned : Owned process
  entries : HeldEntries process
  traced : Traced process
  files : ∀ path file id, process.world.fs path = some file → file.creator = some id →
    MayStore process.log id ∨ isStagingEntry path = true ∧ process.Stray id path

theorem stray_of_staged (howned : Owned process) (hentries : HeldEntries after)
    (hnext : next process event = some (after, entries)) {staging : Nat} {route : Route}
    (hlogged : Entry.staged staging route path ∈ entries)
    (hcreator : (after.world.fs path).map File.creator = some (some id))
    (hupload : route ≠ .upload) (hsend : route ≠ .send) (hid : staging = id) :
    isStagingEntry path = true ∧ after.Stray id path := by
  subst hid
  have hheld := staged_held howned.wellformed hnext hlogged hcreator
  obtain ⟨request', hid, hholds⟩ := held_request hheld
  obtain ⟨-, request, hwas, hroute⟩ := staged_route howned.wellformed hnext hlogged
  have hkept := (route_next howned.wellformed hnext hwas hid).trans hroute
  exact ⟨hentries _ path hheld, request', hid, hholds, hkept ▸ hupload, hkept ▸ hsend⟩

theorem attributed_step (process : Process) (event : Event) (after : Process)
    (h : Attributed process) (hfresh : FreshNames process event)
    (hstep : step process event = some after) : Attributed after := by
  have howned := owned_step process event after h.owned hfresh hstep
  have htraced := traced_step process event after h.traced hstep
  obtain ⟨settled, entries, hnext, rfl⟩ := step_eq_some hstep
  have hentries := heldEntries_next h.owned.wellformed h.entries hnext
  refine ⟨howned, hentries, htraced, ?_⟩
  intro path file id hfile hcreator
  change settled.world.fs path = some file at hfile
  change MayStore (process.log ++ entries) id ∨ isStagingEntry path = true ∧ settled.Stray id path
  have hmade : (settled.world.fs path).map File.creator = some (some id) := by
    rw [hfile, Option.map_some, hcreator]
  cases next_files h.owned.wellformed h.entries hnext path with
  | same creator =>
      rw [hmade] at creator
      obtain ⟨old, hold, hmaker⟩ := Option.map_eq_some_iff.mp creator.symm
      rcases h.files path old id hold hmaker with hmay | ⟨hentry, hstray⟩
      · exact .inl (hmay.append entries)
      · exact .inr ⟨hentry, stray_next h.owned h.traced.onRoutes hstray hnext
          ⟨hentry, id, hmade⟩⟩
  | gone entry absent =>
      rw [hfile] at absent
      contradiction
  | staged target route logged creator =>
      rw [hmade, Option.some.injEq, Option.some.injEq] at creator
      have hallowed := htraced.allowed (List.mem_append_right process.log logged)
      by_cases hupload : route = .upload
      · subst hupload
        exact .inl (.inl (creator ▸ hallowed))
      · by_cases hsend : route = .send
        · subst hsend
          exact .inl (.inr (creator ▸ hallowed))
        · exact .inr (stray_of_staged h.owned hentries hnext logged hmade hupload hsend
            creator.symm)
  | committed target name source logged isAt held was creator =>
      rw [hmade] at creator
      obtain ⟨old, hold, hmaker⟩ := Option.map_eq_some_iff.mp creator.symm
      rcases h.files source old id hold hmaker with hmay | ⟨-, request, hwas, hholds, -⟩
      · exact .inl (hmay.append entries)
      · have hsame := h.owned.ledger.exclusive _ _ source (ledger_request hwas hholds) held
        cases hsame
        exact .inl (.inl (htraced.allowed (List.mem_append_right process.log logged)))

theorem Started.attributed (h : Started process) : Attributed process where
  owned := h.owned
  entries owner held howner := by
    rw [h.held] at howner
    contradiction
  traced := h.traced
  files path file id hfile hcreator := by
    rw [h.leftovers path file hfile] at hcreator
    contradiction

theorem handingOver_of_releasable {request : Request} (h : request.releasable = true) :
    request.handingOver = false := by
  unfold Request.releasable at h
  unfold Request.handingOver
  split at h
  · rename_i hphase
    rw [hphase]
  · rename_i hphase
    rw [hphase]
  · contradiction

theorem stray_released (h : process.Stray id path)
    (hcompleted : step process (.completed id) = some after) : after.world.fs path = none := by
  obtain ⟨request, hwas, hholds, -⟩ := h
  obtain ⟨settled, entries, hnext, rfl⟩ := step_eq_some hcompleted
  cases next_steps hnext with
  | completed _ released was releasable =>
      rw [hwas] at was
      cases Option.some.inj was
      change (requestCompleted process.world id request).1.fs path = none
      unfold Request.holds at hholds
      rw [handingOver_of_releasable releasable] at hholds
      split at hholds
      · contradiction
      · rename_i hnot
        rw [Option.some.injEq] at hholds
        rw [hholds] at hnot
        have hunsaved : request.info.fileSaved = false := by
          simpa using fun hsaved => hnot (.inr ⟨hsaved, rfl⟩)
        have hne : path ≠ CString.empty := fun h => hnot (.inl h)
        simp [requestCompleted, hunsaved, uploadStageAbort, storageDeleteFile, hholds, hne,
          FileSystem.unlink]

end steps

theorem strangers_leaveNothing {start process : Process} {events : List Event}
    (hstart : Started start) (hfresh : Meets step FreshNames start events)
    (hrun : run step start events = some process) {path : CString} {file : File} {id : Nat}
    (hfile : process.world.fs path = some file) (hcreator : file.creator = some id)
    (hnot : ¬ MayStore process.log id) :
    isStagingEntry path = true ∧ process.Stray id path ∧
      ∀ after, step process (.completed id) = some after → after.world.fs path = none := by
  have hattributed := hfresh.invariant attributed_step hstart.attributed hrun
  rcases hattributed.files path file id hfile hcreator with hmay | ⟨hentry, hstray⟩
  · exact absurd hmay hnot
  · exact ⟨hentry, hstray, fun after => stray_released hstray⟩

def leavingFile : List Event :=
  [acceptPost "/api/session/unlock" ⟨none, none⟩, sendFields 0 [fileItem "a.txt" [1, 2, 3] 9]]

theorem not_mayStore {log : List Entry} {id : Nat}
    (h : ∀ entry ∈ log, entry.storesFor id = false) : ¬ MayStore log id := by
  rintro (⟨pre, post, clientIp, headers, now, rfl, -⟩ | ⟨pre, post, clientIp, headers, now, rfl, -⟩)
  · have hfirst := h (.chunk id 0 .upload clientIp headers now) (by simp)
    simp [Entry.storesFor] at hfirst
  · have hfirst := h (.chunk id 0 .send clientIp headers now) (by simp)
    simp [Entry.storesFor] at hfirst

theorem leavingFile_gone : ∃ process file, run step sampleStart leavingFile = some process ∧
    process.world.fs sentPath = some file ∧
    isStagingEntry sentPath = true ∧ process.Stray 0 sentPath ∧
      ∀ after, step process (.completed 0) = some after → after.world.fs sentPath = none := by
  obtain ⟨process, hrun⟩ : ∃ process, run step sampleStart leavingFile = some process :=
    Option.isSome_iff_exists.mp (by decide +kernel)
  have hfacts : (run step sampleStart leavingFile).all (fun process =>
      (process.world.fs sentPath).map File.creator = some (some 0) ∧
        process.log.all fun entry => !entry.storesFor 0) = true := by decide +kernel
  rw [hrun] at hfacts
  simp only [Option.all_some, decide_eq_true_eq] at hfacts
  obtain ⟨file, hfile, hcreator⟩ := Option.map_eq_some_iff.mp hfacts.1
  have hnot : ¬ MayStore process.log 0 := not_mayStore (by simpa using hfacts.2)
  exact ⟨process, file, hrun, hfile,
    strangers_leaveNothing sampleStart_started (by decide +kernel) hrun hfile hcreator hnot⟩

end LocalDrop
