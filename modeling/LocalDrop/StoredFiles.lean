import LocalDrop.Collecting

/-! The file that is stored for a body: the one `/upload` commits and the one `/api/send`
hands to the queue, at the moment the request is answered. -/
namespace LocalDrop
open Lib

/-- The path ends in this name, behind the second and, in `staging/`, the token. -/
def NamedAfter (path name : CString) : Prop :=
  ∃ now : Time, (0 ≤ now ∧ now ≤ timeMax) ∧ (path = (committedPath now name).str ∨
    ∃ (random : RandomBytes 8) (token : CString), cryptoRandomToken random = some token ∧
      path = (stagingPath now token name).str)

theorem stagingPath_bytes {now : Time} {random : RandomBytes 8} {token name : CString}
    (hnow : 0 ≤ now ∧ now ≤ timeMax) (htoken : cryptoRandomToken random = some token)
    (hname : name.length < 256) : (stagingPath now token name).str.bytes =
      (CString.lit "staging/").bytes ++ stagingComponent now token name :=
  (stagingPath_whole (isLong_of_time hnow) htoken hname).2

theorem notMem_token {random : RandomBytes 8} {token : CString}
    (h : cryptoRandomToken random = some token) : (95 : UInt8) ∉ token.bytes := by
  intro hmem
  obtain ⟨value, hvalue⟩ := hexDigit_of_mem_token h hmem
  have hdigit := hexDigit_toNat value
  have hmod : value % 16 < 16 := Nat.mod_lt _ (by decide)
  rw [← hvalue] at hdigit
  change 95 = _ at hdigit
  split at hdigit <;> omega

theorem namedAfter_injective {path name name' : CString} (hname : name.length < 256)
    (hname' : name'.length < 256) (h : NamedAfter path name) (h' : NamedAfter path name') :
    name = name' := by
  obtain ⟨now, hnow, hpath⟩ := h
  obtain ⟨now', hnow', hpath'⟩ := h'
  have hclock : ∀ time : Time, (95 : UInt8) ∉ formatLong time := fun time =>
    notMem_formatLong _ _ (by decide) (by decide)
  rcases hpath with rfl | ⟨random, token, htoken, rfl⟩ <;>
    rcases hpath' with heq | ⟨random', token', htoken', heq⟩ <;>
    replace heq := congrArg CString.bytes heq
  · rw [committedPath_bytes hnow hname, committedPath_bytes hnow' hname'] at heq
    exact CString.ext (append_stop_injective (hclock _) (hclock _)
      (List.append_cancel_left heq)).2
  · rw [committedPath_bytes hnow hname, stagingPath_bytes hnow' htoken' hname'] at heq
    exact absurd (List.cons.inj heq).1 (by decide)
  · rw [stagingPath_bytes hnow htoken hname, committedPath_bytes hnow' hname'] at heq
    exact absurd (List.cons.inj heq).1 (by decide)
  · rw [stagingPath_bytes hnow htoken hname, stagingPath_bytes hnow' htoken' hname'] at heq
    exact CString.ext (append_stop_injective (notMem_token htoken) (notMem_token htoken')
      (append_stop_injective (hclock _) (hclock _) (List.append_cancel_left heq)).2).2

theorem uploadStageCommit_content {fs fs' : FileSystem} {stage stage' : UploadStage} {now : Time}
    {env : SealEnv} {path : Chars 512}
    (h : uploadStageCommit fs stage now env = (fs', stage', .ok path)) :
    path = committedPath now stage.commitName ∧ (∃ file, fs' path.str = some file) ∧
      ∀ file, fs' path.str = some file →
        ∃ old, fs stage.stagingPath.str = some old ∧ file.content = old.content := by
  unfold uploadStageCommit at h
  split at h
  · cases h
  · rename_i sealed stage'' hseal
    obtain ⟨hpath, hname, -⟩ := uploadStageSeal_spec hseal
    have hcommit : stage''.commitName = stage.commitName := by
      unfold UploadStage.commitName
      rw [hname]
    dsimp only at h
    split at h
    · rename_i hthere
      cases h
      refine ⟨by rw [hcommit], ?_, fun file hfile => ?_⟩
      · rw [rename_apply, if_pos rfl]
        exact Option.isSome_iff_exists.mp (Bool.and_eq_true_iff.mp hthere).2
      · rw [rename_apply, if_pos rfl, hpath] at hfile
        exact uploadStageSeal_content hseal hfile
    · cases h

theorem Received.stored {items : List PostItem} {fs : FileSystem} {info : ConnectionInfo}
    (h : Received items fs info) (hprogress : info.uploadInProgress = true) :
    ∃ first rest, storedItems items = first :: rest ∧
      info.uploadStage.originalName = sanitizeFilename first.filename ∧
      StageNamed info.uploadStage ∧ ∀ file, fs info.uploadStage.stagingPath.str = some file →
        file.content = (storedItems items).flatMap PostItem.data := by
  cases hstored : storedItems items with
  | nil =>
      rw [h.closed hstored] at hprogress
      contradiction
  | cons first rest =>
      obtain ⟨-, hname, hnamed, hcontent⟩ := h.open_ first rest hstored
      exact ⟨first, rest, rfl, hname, hnamed, hstored ▸ hcontent⟩

section answers
variable {world : World} {id : Nat} {request : Request} {reply : Reply}

theorem uploadFinal_ok {env : CallEnv}
    (hphase : (uploadFinal world id request env).2.1.phase = .answered reply)
    (hok : reply.status = 200) :
    request.info.responseStatus < 400 ∧ request.info.uploadInProgress = true ∧
      (uploadFinal world id request env).2.1.info.filename =
        committedPath world.clock request.info.uploadStage.commitName ∧
      Entry.committed id world.clock request.info.uploadStage.commitName
        (uploadFinal world id request env).2.1.info.filename.str ∈
          (uploadFinal world id request env).2.2 ∧
      (∃ file, (uploadFinal world id request env).1.fs
        (uploadFinal world id request env).2.1.info.filename.str = some file) ∧
      ∀ file, (uploadFinal world id request env).1.fs
          (uploadFinal world id request env).2.1.info.filename.str = some file →
        ∃ old, world.fs request.info.uploadStage.stagingPath.str = some old ∧
          file.content = old.content := by
  revert hphase
  unfold uploadFinal
  dsimp only
  split
  · rename_i hstatus
    rintro ⟨⟩
    exact absurd hok (show request.info.responseStatus ≠ 200 by omega)
  · rename_i hstatus
    split
    · rintro ⟨⟩
      exact absurd hok (by decide)
    · rename_i hprogress
      split
      · rintro ⟨⟩
        exact absurd hok (show 500 ≠ 200 by decide)
      · rename_i hcommit
        intro _
        obtain ⟨rfl, hthere, hcontent⟩ := uploadStageCommit_content hcommit
        exact ⟨Nat.lt_of_not_le hstatus, by simpa using hprogress, rfl, List.mem_singleton_self _,
          hthere, hcontent⟩

theorem validateTargetPeer_refused {auth auth' : Auth} {registry : PeerRegistry}
    {info info' : ConnectionInfo} {now : Time}
    (h : validateTargetPeer auth registry info now = (auth', info', none)) :
    400 ≤ info'.responseStatus := by
  have hcheck := validateTargetPeer_check auth registry info now
  rw [h] at hcheck
  cases hcheck with
  | refused auth' status message bad looked => exact bad

theorem sendFinal_not_ok {env : CallEnv}
    (hphase : (sendFinal world request env).2.1.phase = .answered reply) :
    reply.status ≠ 200 := by
  revert hphase
  unfold sendFinal
  dsimp only
  split
  · rename_i hstatus
    rintro ⟨⟩
    exact show request.info.responseStatus ≠ 200 by omega
  · split
    · rintro ⟨⟩
      decide
    · split
      · rename_i auth info hrefused
        have hstatus := validateTargetPeer_refused hrefused
        rintro ⟨⟩
        exact show info.responseStatus ≠ 200 by omega
      · split
        · rintro ⟨⟩
          exact show 500 ≠ 200 by decide
        · rintro ⟨⟩

theorem proceed_ok {env : ProceedEnv} {outcome : Outcome}
    (h : proceed world id request env = some outcome) (hroute : request.route.stores = true)
    (honroute : request.OnRoute) (hphase : outcome.2.1.phase = .answered reply)
    (hok : reply.status = 200) :
    request.handingOver = true ∧ outcome.2.1.info = request.info ∧
      Entry.jobCreated id request.info.filename.str ∈ outcome.2.2 := by
  cases proceed_proceeds h with
  | exchangeAdd | pairAccepted | pairStore | sendCleanup => contradiction
  | exchangeMark phase =>
      unfold Request.OnRoute at honroute
      rw [phase] at honroute
      rw [show request.route = .exchange from honroute] at hroute
      contradiction
  | pairMark phase | pairRefused phase =>
      unfold Request.OnRoute at honroute
      rw [phase] at honroute
      rw [honroute.1] at hroute
      contradiction
  | sendRefused =>
      cases hphase
      exact absurd hok (by decide)
  | sendEnqueued phase =>
      exact ⟨by simp [Request.handingOver, phase], rfl,
        List.mem_append_right _ (List.mem_singleton_self _)⟩

end answers

/-- The step in which a request that brought a file is answered 200. -/
structure AnswersOk (process : Process) (event : Event) (after : Process) (id : Nat)
    (answered : Request) : Prop where
  step : step process event = some after
  pending : ∃ request, process.requests id = some request ∧
    ∀ reply, request.phase ≠ .answered reply
  request : after.requests id = some answered
  route : answered.route.stores = true
  ok : ∃ reply, answered.phase = .answered reply ∧ reply.status = 200

def FiledAt (process : Process) (id : Nat) (path : CString) : Prop :=
  (∃ now name, Entry.committed id now name path ∈ process.log) ∨
    Entry.jobCreated id path ∈ process.log

section stored
variable {events : List Event} {process after : Process} {event : Event} {id : Nat}
  {answered : Request}

theorem stored_file (h : Collects events process)
    (hok : AnswersOk process event after id answered) :
    FiledAt after id answered.info.filename.str ∧
      (answered.route = .upload → ∃ file, after.world.fs answered.info.filename.str = some file) ∧
      ∃ first rest, storedItems (receivedItems id events) = first :: rest ∧
        NamedAfter answered.info.filename.str (sanitizeFilename first.filename).str ∧
        ∀ file, after.world.fs answered.info.filename.str = some file →
          file.content = (storedItems (receivedItems id events)).flatMap PostItem.data := by
  obtain ⟨hstep, ⟨pending, hpending, hunanswered⟩, hid, hroute, reply, hphase, hstatus⟩ := hok
  obtain ⟨settled, entries, hnext, rfl⟩ := step_eq_some hstep
  cases next_origin hnext hid with
  | kept was =>
      rw [hpending] at was
      cases Option.some.inj was
      exact absurd hphase (hunanswered reply)
  | accepted url method clientIp headers fresh quiet new =>
      rw [new] at hphase
      contradiction
  | called upload env request was phase call settled logged new =>
      subst new
      rw [(answerToConnection_keeps upload).route] at hroute
      have hgated := Route.gated_of_stores hroute
      cases upload with
      | some body =>
          rw [answerToConnection_chunk hgated] at hphase
          rw [chunkStep_phase, phase] at hphase
          contradiction
      | none =>
          cases hcase : request.route <;>
            simp only [hcase, Route.stores, Bool.false_eq_true] at hroute
          · rw [answerToConnection_upload hcase] at hphase settled logged ⊢
            obtain ⟨hlt, hprogress, hfilename, hentry, hthere, hmoved⟩ :=
              uploadFinal_ok hphase hstatus
            have hreceived := h.received id request was (by rw [hcase]; rfl) (.inl phase) hlt
            obtain ⟨first, rest, hstored, hname, -, hcontent⟩ := hreceived.stored hprogress
            have hcommit : request.info.uploadStage.commitName =
                (sanitizeFilename first.filename).str := by
              unfold UploadStage.commitName
              rw [hname, if_pos (sanitizeFilename_ne_empty _)]
            refine ⟨.inl ⟨_, _, List.mem_append_right _ (logged ▸ hentry)⟩,
              fun _ => settled ▸ hthere, first, rest, hstored,
              ⟨process.world.clock, h.clock, .inl (by rw [hfilename, hcommit])⟩, ?_⟩
            intro file hfile
            rw [settled] at hfile
            obtain ⟨old, hold, hsame⟩ := hmoved file hfile
            rw [hsame, hcontent old hold]
          · rw [answerToConnection_send hcase] at hphase
            exact absurd hstatus (sendFinal_not_ok hphase)
  | proceeded env request outcome was continues call settled logged new =>
      subst new
      rw [(proceed_keeps continues).route] at hroute
      obtain ⟨hhanding, hinfo, hentry⟩ := proceed_ok continues hroute (h.onRoutes id request was)
        hphase hstatus
      obtain ⟨hlt, hprogress⟩ := h.handing id request was hhanding
      have hreceived := h.received id request was hroute (.inr hhanding) hlt
      obtain ⟨first, rest, hstored, hname, hnamed, hcontent⟩ := hreceived.stored hprogress
      obtain ⟨hfilename, -, -⟩ := (h.owned.wellformed.requests id request was).handing hhanding
      obtain ⟨now, random, token, hlow, hhigh, htoken, hpath⟩ := hnamed
      rw [hinfo]
      refine ⟨.inr (List.mem_append_right _ (logged ▸ hentry)), ?_, first, rest, hstored,
        ⟨now, ⟨hlow, hhigh⟩, .inr ⟨random, token, htoken, by rw [hfilename, hpath, hname]⟩⟩, ?_⟩
      · intro hupload
        rw [(proceed_keeps continues).route, (h.onRoutes id request was).send hhanding] at hupload
        contradiction
      · intro file hfile
        rw [settled] at hfile
        change outcome.1.fs _ = some file at hfile
        rw [hfilename] at hfile
        rcases proceed_frame continues request.info.uploadStage.stagingPath.str with hsame | hgone
        · exact hcontent file (hsame ▸ hfile)
        · rw [hfile] at hgone
          contradiction

/-- The stored file is one of the "file" parts, under that part's name. -/
def StoredOnePart (process : Process) (id : Nat) (parts : List Part) (path : CString)
    (file : File) : Prop :=
  FiledAt process id path ∧ ∃ part ∈ fileParts parts,
    file.content = part.content ∧ NamedAfter path part.storedName

/-- In every run that does not repeat a staging name, whatever the parts of a body and however
they arrive, the file stored for it is one of its parts exactly when the body has one file. -/
theorem storedFile_onePart_iff {start : Process} {parts : List Part}
    (hstart : Started start) (hfresh : Meets step FreshNames start events)
    (hrun : run step start events = some process)
    (hparts : Delivers parts (receivedItems id events))
    (hok : AnswersOk process event after id answered) :
    (answered.route = .upload → ∃ file, after.world.fs answered.info.filename.str = some file) ∧
    ∀ file, after.world.fs answered.info.filename.str = some file →
      (StoredOnePart after id parts answered.info.filename.str file ↔ SingleFile parts) := by
  obtain ⟨hfiled, hthere, item, items, hstored, hnamed, hcontent⟩ :=
    stored_file (collects_run hstart hfresh hrun) hok
  obtain ⟨hdata, hhead⟩ := storedItems_parts hparts
  rw [hstored, List.head?_cons, Option.map_some, eq_comm] at hhead
  obtain ⟨first, hfirst, hfilename⟩ := Option.map_eq_some_iff.mp hhead
  obtain ⟨rest, hrest⟩ := List.head?_eq_some_iff.mp hfirst
  have hlength : ∀ part : Part, part.storedName.length < 256 := fun part =>
    (sanitizeFilename part.filename).fits
  have hname : NamedAfter answered.info.filename.str first.storedName := by
    rw [Part.storedName, hfilename]
    exact hnamed
  refine ⟨hthere, fun file hfile => ?_⟩
  have hbytes := (hcontent file hfile).trans hdata
  rw [← singleFile_iff hrest]
  constructor
  · rintro ⟨-, part, hpart, hsame, hnamed'⟩
    exact ⟨part, hpart, hsame.symm.trans hbytes,
      namedAfter_injective (hlength part) (hlength first) hnamed' hname⟩
  · rintro ⟨part, hpart, hsame, hsameName⟩
    exact ⟨hfiled, part, hpart, hbytes.trans hsame.symm, hsameName ▸ hname⟩

end stored

def uploadingFields (items : List PostItem) : List Event :=
  unlocking 0 7 ++ [acceptPost "/upload" ⟨some (sampleToken 7), none⟩, sendFields 1 items]

def filePart (name : String) (data : Bytes) : Part :=
  ⟨.lit "file", some (.lit name), [data], by simp⟩

def answeredFile (items : List PostItem) : Option (Process × Process × Request × File) := do
  let process ← run step sampleStart (uploadingFields items)
  let after ← step process (sendEnd 1 0)
  let answered ← after.requests 1
  let file ← after.world.fs answered.info.filename.str
  pure (process, after, answered, file)

theorem answeredFile_ok {items : List PostItem} {content : Bytes}
    (h : (answeredFile items).any (fun (process, _, answered, file) =>
      (process.requests 1).any (fun request => request.phase = .receiving) ∧
        answered.route = .upload ∧ answered.phase = .answered (queueJsonStatusMessage 200
          (.lit "ok") (.lit "Arquivo recebido com sucesso")) ∧ file.content = content) = true) :
    ∃ process after answered file, run step sampleStart (uploadingFields items) = some process ∧
      AnswersOk process (sendEnd 1 0) after 1 answered ∧
      after.world.fs answered.info.filename.str = some file ∧ file.content = content := by
  obtain ⟨⟨process, after, answered, file⟩, hresult, hfacts⟩ := (Option.any_eq_true _ _).mp h
  simp only [decide_eq_true_eq, Option.any_eq_true] at hfacts
  obtain ⟨⟨request, hpending, hreceiving⟩, hroute, hphase, hcontent⟩ := hfacts
  simp only [answeredFile, Option.bind_eq_bind, Option.bind_eq_some_iff, Option.pure_def,
    Option.some.injEq, Prod.mk.injEq] at hresult
  obtain ⟨_, hrun, _, hstep, _, hid, _, hfile, rfl, rfl, rfl, rfl⟩ := hresult
  refine ⟨_, _, _, _, hrun, ⟨hstep, ⟨request, hpending, ?_⟩, hid, by rw [hroute]; rfl, _, hphase,
    rfl⟩, hfile, hcontent⟩
  intro reply hreply
  rw [hreceiving] at hreply
  contradiction

theorem oneFile_stored : ∃ process after answered file,
    run step sampleStart (uploadingFields [fieldItem "note" "x", fileItem "a.txt" [1, 2] 9]) =
      some process ∧ AnswersOk process (sendEnd 1 0) after 1 answered ∧
      StoredOnePart after 1 [⟨.lit "note", none, [[120]], by simp⟩, filePart "a.txt" [1, 2]]
        answered.info.filename.str file := by
  obtain ⟨process, after, answered, file, hrun, hok, hfile, -⟩ :=
    @answeredFile_ok [fieldItem "note" "x", fileItem "a.txt" [1, 2] 9] [1, 2] (by decide +kernel)
  refine ⟨process, after, answered, file, hrun, hok, ?_⟩
  apply ((storedFile_onePart_iff sampleStart_started (by decide +kernel) hrun (by decide +kernel)
    hok).2 file hfile).mpr
  exact ⟨filePart "a.txt" [1, 2], [], rfl,
    .inl ⟨[], filePart "a.txt" [1, 2], [], rfl, by simp, rfl⟩⟩

/-- Two files in one body come out as one. -/
theorem twoFiles_joined : Meets step FreshNames sampleStart
      (uploadingFields [fileItem "a.txt" [1] 9, fileItem "b.txt" [2] 10]) ∧
    Delivers [filePart "a.txt" [1], filePart "b.txt" [2]] (receivedItems 1
      (uploadingFields [fileItem "a.txt" [1] 9, fileItem "b.txt" [2] 10])) ∧
    ∃ process after answered file,
      run step sampleStart (uploadingFields [fileItem "a.txt" [1] 9, fileItem "b.txt" [2] 10]) =
        some process ∧ AnswersOk process (sendEnd 1 0) after 1 answered ∧
      after.world.fs answered.info.filename.str = some file ∧
      ¬ StoredOnePart after 1 [filePart "a.txt" [1], filePart "b.txt" [2]]
        answered.info.filename.str file := by
  refine ⟨by decide +kernel, by decide +kernel, ?_⟩
  obtain ⟨process, after, answered, file, hrun, hok, hfile, hcontent⟩ :=
    @answeredFile_ok [fileItem "a.txt" [1] 9, fileItem "b.txt" [2] 10] [1, 2] (by decide +kernel)
  refine ⟨process, after, answered, file, hrun, hok, hfile, ?_⟩
  rintro ⟨-, part, hpart, hsame, -⟩
  have hnone : ∀ part ∈ fileParts [filePart "a.txt" [1], filePart "b.txt" [2]],
      part.content ≠ [1, 2] := by
    simp [fileParts, filePart, Part.content]
  exact hnone part hpart (hsame.symm.trans hcontent)

end LocalDrop
