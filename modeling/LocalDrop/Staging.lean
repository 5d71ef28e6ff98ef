import LocalDrop.Lib.Holding
import LocalDrop.Calls

/-! What requests and jobs do to the files in `staging/`. A request opens at most
one stage while its body arrives; afterwards the file is committed, handed to a
job, or deleted. Every step of the process is described as a move of a ledger
whose holders are the requests and the job slots. -/
namespace LocalDrop
open Lib

def ConnectionInfo.Receiving (info : ConnectionInfo) : Prop :=
  info.uploadStage.Closed ∧ info.uploadInProgress = false ∨
    info.uploadStage.Open ∧ info.uploadInProgress = true

structure Parsed (id : Nat) (fs : FileSystem) (info : ConnectionInfo) (fs' : FileSystem)
    (info' : ConnectionInfo) : Prop where
  fileSaved : info'.fileSaved = info.fileSaved
  receiving : info'.Receiving
  effect :
    (info.uploadInProgress = false ∧ info'.uploadInProgress = false ∧ fs' = fs) ∨
    (info.uploadInProgress = true ∧ info'.uploadInProgress = true ∧
      info'.uploadStage.stagingPath = info.uploadStage.stagingPath ∧
      fs.Touches fs' info.uploadStage.stagingPath.str) ∨
    (info.uploadInProgress = false ∧ info'.uploadInProgress = true ∧
      fs.Creates fs' info'.uploadStage.stagingPath.str id)

section parsing
variable {id : Nat} {fs fs' fs'' : FileSystem} {info info' info'' : ConnectionInfo} {now : Time}

theorem Parsed.of_eq (h : info.Receiving) (hstage : info'.uploadStage = info.uploadStage)
    (hprogress : info'.uploadInProgress = info.uploadInProgress)
    (hsaved : info'.fileSaved = info.fileSaved) : Parsed id fs info fs info' := by
  refine ⟨hsaved, ?_, ?_⟩
  · unfold ConnectionInfo.Receiving at h ⊢
    rwa [hstage, hprogress]
  · cases hwas : info.uploadInProgress with
    | false => exact .inl ⟨rfl, hprogress.trans hwas, rfl⟩
    | true =>
        exact .inr (.inl ⟨rfl, hprogress.trans hwas, congrArg _ hstage, .refl _ _⟩)

theorem Parsed.trans (h : Parsed id fs info fs' info') (h' : Parsed id fs' info' fs'' info'') :
    Parsed id fs info fs'' info'' := by
  refine ⟨h'.fileSaved.trans h.fileSaved, h'.receiving, ?_⟩
  rcases h.effect with ⟨hwas, hmid, rfl⟩ | ⟨hwas, hmid, hpath, htouch⟩ | ⟨hwas, hmid, hcreate⟩ <;>
    rcases h'.effect with ⟨hmid', hnow, rfl⟩ | ⟨hmid', hnow, hpath', htouch'⟩ |
      ⟨hmid', hnow, hcreate'⟩ <;>
    try (rw [hmid] at hmid'; contradiction)
  · exact .inl ⟨hwas, hnow, rfl⟩
  · exact .inr (.inr ⟨hwas, hnow, hcreate'⟩)
  · rw [hpath] at htouch'
    exact .inr (.inl ⟨hwas, hnow, hpath'.trans hpath, htouch.trans htouch'⟩)
  · refine .inr (.inr ⟨hwas, hnow, ?_⟩)
    rw [hpath']
    exact hcreate.touches htouch'

theorem openStage_parsed (h : info.Receiving) (item : PostItem) :
    Parsed id fs info (openStage fs id info now item).1
      (openStage fs id info now item).2.1 := by
  unfold openStage
  split
  · rename_i hopen
    have hclosed : info.uploadStage.Closed ∧ info.uploadInProgress = false := by
      rcases h with hclosed | ⟨⟨hfp, -⟩, -⟩
      · exact hclosed
      · rw [hopen.2.1] at hfp
        contradiction
    rcases uploadStageOpen_cases fs id item.filename now item.random item.opened with
      ⟨stage, error, hstage, heq⟩ | ⟨fs', stage, hstage, hcreate, heq⟩
    · rw [heq]
      exact ⟨rfl, .inl ⟨hstage, hclosed.2⟩, .inl ⟨hclosed.2, hclosed.2, rfl⟩⟩
    · rw [heq]
      exact ⟨rfl, .inr ⟨hstage, rfl⟩, .inr (.inr ⟨hclosed.2, rfl, hcreate⟩)⟩
  · exact .of_eq h rfl rfl rfl

theorem writeStage_parsed (h : info.Receiving) (item : PostItem) :
    Parsed id fs info (writeStage fs info now item).1 (writeStage fs info now item).2 := by
  unfold writeStage
  split
  · rename_i hwrite
    rcases h with ⟨hclosed, hprogress⟩ | ⟨⟨hfp, hsealed, hentry⟩, hprogress⟩
    · rcases hwrite.1 with hfp | hsealed
      · rw [hclosed.1] at hfp
        contradiction
      · rw [hclosed.2.1] at hsealed
        contradiction
    · split
      · rename_i fs' stage error hresult
        obtain ⟨hfp', hsealed', hpath, -, htouch⟩ := uploadStageWrite_spec hresult
        refine ⟨rfl, .inr ⟨⟨hfp'.trans hfp, hsealed'.trans hsealed, ?_⟩, hprogress⟩,
          .inr (.inl ⟨hprogress, hprogress, hpath, htouch⟩)⟩
        simp only [hpath, hentry]
      · rename_i fs' stage hresult
        obtain ⟨hfp', hsealed', hpath, -, htouch⟩ := uploadStageWrite_spec hresult
        refine ⟨rfl, .inr ⟨⟨hfp'.trans hfp, hsealed'.trans hsealed, ?_⟩, hprogress⟩,
          .inr (.inl ⟨hprogress, hprogress, hpath, htouch⟩)⟩
        simp only [hpath, hentry]
  · exact .of_eq h rfl rfl rfl

theorem copyField_frame (info : ConnectionInfo) (item : PostItem) :
    (copyField info item).uploadStage = info.uploadStage ∧
      (copyField info item).uploadInProgress = info.uploadInProgress ∧
      (copyField info item).fileSaved = info.fileSaved ∧
      (copyField info item).clientIp = info.clientIp ∧
      (copyField info item).authChecked = info.authChecked ∧
      (copyField info item).requestAuthorized = info.requestAuthorized ∧
      (copyField info item).responseStatus = info.responseStatus := by
  unfold copyField
  split_ifs <;> exact ⟨rfl, rfl, rfl, rfl, rfl, rfl, rfl⟩

theorem iteratePost_parsed (h : info.Receiving) (item : PostItem) :
    Parsed id fs info (iteratePost fs id info now item).1 (iteratePost fs id info now item).2 := by
  unfold iteratePost
  split
  · exact .of_eq h rfl rfl rfl
  · split
    · have hopen := @openStage_parsed id fs _ now h item
      split
      · rename_i heq
        rw [heq] at hopen
        exact hopen
      · rename_i heq
        rw [heq] at hopen
        exact hopen.trans (writeStage_parsed hopen.receiving item)
    · obtain ⟨hstage, hprogress, hsaved, -⟩ := copyField_frame info item
      exact .of_eq h hstage hprogress hsaved

theorem foldl_iteratePost_parsed (items : List PostItem) (h : info.Receiving) :
    Parsed id fs info
      (items.foldl (fun state item => iteratePost state.1 id state.2 now item) (fs, info)).1
      (items.foldl (fun state item => iteratePost state.1 id state.2 now item) (fs, info)).2 := by
  induction items generalizing fs info with
  | nil => exact .of_eq h rfl rfl rfl
  | cons item rest ih =>
      have hfirst := @iteratePost_parsed id fs _ now h item
      exact hfirst.trans (ih hfirst.receiving)

theorem postProcess_parsed (h : info.Receiving) (route : Route) (items : List PostItem)
    (processed : Bool) :
    Parsed id fs info (postProcess fs id info route now items processed).1
      (postProcess fs id info route now items processed).2 := by
  unfold postProcess
  split
  · exact .of_eq h rfl rfl rfl
  · have hall := @foldl_iteratePost_parsed id fs _ now items h
    dsimp only
    split
    · exact hall.trans (.of_eq hall.receiving rfl rfl rfl)
    · exact hall

end parsing

def ConnectionInfo.Gated (info info' : ConnectionInfo) : Prop :=
  ∃ status message checked authorized, info' = { info with
    responseStatus := status
    responseMessage := message
    authChecked := checked
    requestAuthorized := authorized }

theorem ConnectionInfo.Gated.refl (info : ConnectionInfo) : info.Gated info :=
  ⟨_, _, _, _, rfl⟩

section gates
variable {auth : Auth} {info : ConnectionInfo} {headers : Headers} {scope : CString}
  {limit : Nat} {now : Time} {unwritten : CString}

theorem rateLimitRequest_gated :
    info.Gated (rateLimitRequest auth info scope limit now unwritten).2.1 := by
  unfold rateLimitRequest
  split
  · exact .refl info
  · exact ⟨_, _, _, _, rfl⟩

theorem limitChunk_gated : info.Gated (limitChunk auth info scope limit now unwritten).2.1 := by
  unfold limitChunk
  split
  · exact .refl info
  · obtain ⟨status, message, checked, authorized, heq⟩ :=
      @rateLimitRequest_gated auth { info with authChecked := true } scope limit now unwritten
    split <;> rename_i hlimit <;> rw [hlimit] at heq <;> exact ⟨_, _, _, _, heq⟩

theorem authorizeUiRequest_gated :
    info.Gated (authorizeUiRequest auth info headers scope limit now unwritten).2.1 := by
  unfold authorizeUiRequest
  split
  · exact .refl info
  · obtain ⟨status, message, checked, authorized, heq⟩ :=
      @rateLimitRequest_gated auth { info with authChecked := true } scope limit now unwritten
    split
    · rename_i hlimit
      rw [hlimit] at heq
      exact ⟨_, _, _, _, heq⟩
    · rename_i hlimit
      rw [hlimit] at heq
      simp only at heq
      split <;> subst heq <;> exact ⟨_, _, _, _, rfl⟩

theorem authorizeUploadRequest_gated :
    info.Gated (authorizeUploadRequest auth info headers now unwritten).2.1 := by
  unfold authorizeUploadRequest
  split
  · exact .refl info
  · obtain ⟨status, message, checked, authorized, heq⟩ :=
      @rateLimitRequest_gated auth { info with authChecked := true } (.lit "upload") 20 now
        unwritten
    split
    · rename_i hlimit
      rw [hlimit] at heq
      exact ⟨_, _, _, _, heq⟩
    · rename_i hlimit
      rw [hlimit] at heq
      simp only at heq
      split
      · subst heq
        exact ⟨_, _, _, _, rfl⟩
      · split <;> subst heq <;> exact ⟨_, _, _, _, rfl⟩

theorem chunkGate_gated (route : Route) :
    info.Gated (chunkGate auth info route headers now unwritten).2.1 := by
  unfold chunkGate
  split
  · exact limitChunk_gated
  · split
    · exact authorizeUploadRequest_gated
    · exact authorizeUiRequest_gated
    · exact authorizeUiRequest_gated
    · exact .refl info

end gates

def FileSystem.Staged (fs : FileSystem) (path : CString) : Prop :=
  isStagingEntry path = true ∧ ∃ id, (fs path).map File.creator = some (some id)

/-- Inside `/api/send`, between sealing the file and the queue's answer. -/
def Request.handingOver (request : Request) : Bool :=
  match request.phase with
  | .sendCleanup _ _ => true
  | .sendEnqueue _ _ => true
  | _ => false

/-- The staging file a request answers for: its `staging_path`, until the file is
saved; during the hand-over still the request's although `file_saved` is set. -/
def Request.holds (request : Request) : Option CString :=
  if request.info.uploadStage.stagingPath.str = CString.empty ∨
      request.info.fileSaved = true ∧ request.handingOver = false then none
  else some request.info.uploadStage.stagingPath.str

def TransferJob.holds (job : TransferJob) : Option CString :=
  if job.inUse = true ∧ job.filepath.str ≠ CString.empty then some job.filepath.str else none

def ledgerOf (fs : FileSystem) (requests : Nat → Option Request) (jobs : Slot → TransferJob) :
    Ledger Owner CString where
  present := fs.Staged
  held := fun
    | .request id => (requests id).bind Request.holds
    | .job slot => (jobs slot).holds

def Process.ledger (process : Process) : Ledger Owner CString :=
  ledgerOf process.world.fs process.requests process.world.queue.jobs

/-- A request between calls or inside a handler still has its stage as the parser
left it; during the hand-over the sealed file's path has been copied out. -/
structure Request.Sound (request : Request) : Prop where
  open_ : (∀ reply, request.phase ≠ .answered reply) → request.handingOver = false →
    request.info.Receiving ∧ request.info.fileSaved = false
  handing : request.handingOver = true →
    request.info.filename = request.info.uploadStage.stagingPath ∧
      request.info.uploadStage.stagingPath.str ≠ CString.empty ∧
      request.info.fileSaved = true

theorem Request.sound_answer (request : Request) (reply : Reply) :
    (request.answer reply).Sound :=
  ⟨fun h => absurd rfl (h reply), fun h => absurd h (by simp [Request.answer, handingOver])⟩

def FileSystem.SameFiles (fs fs' : FileSystem) : Prop :=
  ∀ path, (fs' path).map File.creator = (fs path).map File.creator

theorem FileSystem.Touches.sameFiles {fs fs' : FileSystem} {path : CString}
    (h : fs.Touches fs' path) : fs.SameFiles fs' := by
  intro other
  by_cases hother : other = path
  · rw [hother, h.creator]
  · rw [h.others other hother]

theorem FileSystem.SameFiles.refl (fs : FileSystem) : fs.SameFiles fs := fun _ => rfl

theorem FileSystem.SameFiles.staged {fs fs' : FileSystem} (h : fs.SameFiles fs')
    (path : CString) : fs'.Staged path ↔ fs.Staged path := by
  unfold FileSystem.Staged
  rw [h path]

def Entry.isFileEntry : Entry → Bool
  | .staged _ _ _ => true
  | .committed _ _ _ _ => true
  | .unlinked _ _ => true
  | _ => false

inductive CallEffect (id : Nat) (world : World) (request : Request) (outcome : Outcome) :
    Prop where
  | quiet (files : world.fs.SameFiles outcome.1.fs)
      (holds : outcome.2.1.holds = request.holds)
      (entries : ∀ entry ∈ outcome.2.2, entry.isFileEntry = false)
  | opened (path : CString) (free : request.holds = none)
      (holds : outcome.2.1.holds = some path)
      (entry : isStagingEntry path = true)
      (creates : world.fs.Creates outcome.1.fs path id)
      (entries : ∃ others, outcome.2.2 = others ++ [.staged id request.route path] ∧
        ∀ entry ∈ others, entry.isFileEntry = false)
  | committed (fs : FileSystem) (file : File) (source : CString)
      (held : request.holds = some source)
      (holds : outcome.2.1.holds = none)
      (files : world.fs.SameFiles fs) (was : fs source = some file)
      (renamed : outcome.1.fs = fs.rename source
        (committedPath world.clock request.info.uploadStage.commitName).str)
      (entries : outcome.2.2 = [.committed id world.clock request.info.uploadStage.commitName
        (committedPath world.clock request.info.uploadStage.commitName).str])

theorem Request.holds_of_receiving {request : Request}
    (hreceiving : request.info.Receiving) (hsaved : request.info.fileSaved = false) :
    request.holds = if request.info.uploadInProgress = true then
      some request.info.uploadStage.stagingPath.str else none := by
  unfold Request.holds
  rcases hreceiving with ⟨hclosed, hprogress⟩ | ⟨hopen, hprogress⟩
  · simp [hclosed.2.2, hprogress]
  · simp [isStagingEntry_ne_empty hopen.2.2, hprogress, hsaved]

theorem holds_of_same {request request' : Request} (hsaved : request.info.fileSaved = false)
    (hstage : request'.info.uploadStage = request.info.uploadStage)
    (hsaved' : request'.info.fileSaved = request.info.fileSaved) :
    request'.holds = request.holds := by
  unfold Request.holds
  rw [hstage, hsaved', hsaved]
  simp

section calls
variable {id : Nat} {world : World} {request : Request} {env : CallEnv}

theorem chargedEntries_idle {auth : Auth} {now : Time} :
    ∀ entry ∈ chargedEntries auth id request now, entry.isFileEntry = false := by
  intro entry hentry
  obtain ⟨scope, rfl⟩ := eq_charged_of_mem hentry
  rfl

theorem chunkStep_effect (hsound : request.Sound) (hphase : request.phase = .receiving)
    (body : Body) :
    CallEffect id world request (chunkStep world id request body env) ∧
      (chunkStep world id request body env).2.1.Sound ∧
      (chunkStep world id request body env).1.queue = world.queue := by
  have hopen : request.info.Receiving ∧ request.info.fileSaved = false :=
    hsound.open_ (by simp [hphase]) (by simp [Request.handingOver, hphase])
  obtain ⟨hreceiving, hsaved⟩ := hopen
  have hgate := @chunkGate_gated world.auth request.info request.headers world.clock env.unwritten
    request.route
  unfold chunkStep
  dsimp only
  split
  · rename_i auth info heq
    rw [heq] at hgate
    obtain ⟨status, message, checked, authorized, rfl⟩ := hgate
    refine ⟨.quiet (.refl _) (holds_of_same hsaved rfl rfl) ?_, ⟨fun _ _ => ⟨hreceiving, hsaved⟩,
      fun h => ?_⟩, rfl⟩
    · intro entry hentry
      rcases List.mem_cons.mp hentry with rfl | hentry
      · rfl
      · exact chargedEntries_idle entry hentry
    · simp [Request.handingOver, hphase] at h
  · rename_i auth info heq
    rw [heq] at hgate
    have hstage : info.uploadStage = request.info.uploadStage ∧
        info.uploadInProgress = request.info.uploadInProgress ∧
        info.fileSaved = request.info.fileSaved := by
      obtain ⟨status, message, checked, authorized, rfl⟩ := hgate
      exact ⟨rfl, rfl, rfl⟩
    have hreceiving' : info.Receiving := by
      unfold ConnectionInfo.Receiving at hreceiving ⊢
      rwa [hstage.1, hstage.2.1]
    have hparsed := @postProcess_parsed id world.fs info world.clock hreceiving' request.route
      body.items body.processed
    set after := postProcess world.fs id info request.route world.clock body.items
      body.processed
    have hsaved' : after.2.fileSaved = false := by rw [hparsed.fileSaved, hstage.2.2, hsaved]
    have hholds : request.holds = if info.uploadInProgress = true then
        some info.uploadStage.stagingPath.str else none := by
      rw [hstage.1, hstage.2.1]
      exact Request.holds_of_receiving hreceiving hsaved
    have hholds' := @Request.holds_of_receiving
      { request with info := after.2, chunks := request.chunks + 1 } hparsed.receiving hsaved'
    have hidle : ∀ entry ∈ Entry.chunk id request.chunks request.route
        request.info.clientIp.str request.headers world.clock ::
        chargedEntries world.auth id request world.clock, entry.isFileEntry = false := by
      intro entry hentry
      rcases List.mem_cons.mp hentry with rfl | hentry
      · rfl
      · exact chargedEntries_idle entry hentry
    refine ⟨?_, ⟨fun _ _ => ⟨hparsed.receiving, hsaved'⟩, fun h => ?_⟩, rfl⟩
    · rcases hparsed.effect with ⟨hwas, hnow, hfs⟩ | ⟨hwas, hnow, hpath, htouch⟩ |
        ⟨hwas, hnow, hcreate⟩
      · refine .quiet (hfs ▸ .refl _) ?_ ?_
        · rw [hholds', hholds, hwas]
          simp [hnow]
        · simpa [stagedEntries, hnow] using hidle
      · refine .quiet htouch.sameFiles ?_ ?_
        · rw [hholds', hholds, hwas]
          simp [hnow, hpath]
        · simpa [stagedEntries, hwas] using hidle
      · have hentry : isStagingEntry after.2.uploadStage.stagingPath.str = true := by
          rcases hparsed.receiving with ⟨-, hclosed⟩ | ⟨hopen, -⟩
          · rw [hnow] at hclosed
            contradiction
          · exact hopen.2.2
        refine .opened after.2.uploadStage.stagingPath.str ?_ ?_ hentry hcreate
          ⟨_, ?_, hidle⟩
        · rw [hholds, hwas]
          rfl
        · rw [hholds']
          exact if_pos hnow
        · simp [stagedEntries, hwas, hnow]
    · simp [Request.handingOver, hphase] at h

structure Quiet (world : World) (request : Request) (outcome : Outcome) : Prop where
  fs : outcome.1.fs = world.fs
  queue : outcome.1.queue = world.queue
  stage : outcome.2.1.info.uploadStage = request.info.uploadStage
  progress : outcome.2.1.info.uploadInProgress = request.info.uploadInProgress
  saved : outcome.2.1.info.fileSaved = request.info.fileSaved
  handing : outcome.2.1.handingOver = false
  entries : ∀ entry ∈ outcome.2.2, entry.isFileEntry = false

theorem Quiet.effect {outcome : Outcome} (id : Nat) (h : Quiet world request outcome)
    (hopen : request.info.Receiving ∧ request.info.fileSaved = false) :
    CallEffect id world request outcome ∧ outcome.2.1.Sound ∧
      outcome.1.queue = world.queue := by
  refine ⟨.quiet (h.fs ▸ .refl _) (holds_of_same hopen.2 h.stage h.saved) h.entries,
    ⟨fun _ _ => ⟨?_, h.saved.trans hopen.2⟩, fun hhand => ?_⟩, h.queue⟩
  · have hreceiving := hopen.1
    unfold ConnectionInfo.Receiving at hreceiving ⊢
    rwa [h.stage, h.progress]
  · rw [h.handing] at hhand
    contradiction

theorem quiet_answer (reply : Reply) : Quiet world request (world, request.answer reply, []) :=
  ⟨rfl, rfl, rfl, rfl, rfl, rfl, by simp⟩

theorem unlockFinal_quiet : Quiet world request (unlockFinal world id request env) := by
  unfold unlockFinal
  dsimp only
  split
  · exact quiet_answer _
  · split
    · exact quiet_answer _
    · split <;> exact ⟨rfl, rfl, rfl, rfl, rfl, rfl, by simp [Entry.isFileEntry]⟩

theorem exchangeFinal_quiet : Quiet world request (exchangeFinal world id request env) := by
  unfold exchangeFinal
  dsimp only
  split
  · exact quiet_answer _
  · split
    · exact quiet_answer _
    · split
      · exact quiet_answer _
      · split <;> exact ⟨rfl, rfl, rfl, rfl, rfl, rfl, by simp [Entry.isFileEntry]⟩

theorem pairFinal_quiet : Quiet world request (pairFinal world id request) := by
  unfold pairFinal
  dsimp only
  split
  · exact quiet_answer _
  · split
    · exact quiet_answer _
    · split
      · exact quiet_answer _
      · split
        · exact quiet_answer _
        · split
          · exact quiet_answer _
          · exact ⟨rfl, rfl, rfl, rfl, rfl, rfl, by simp [Entry.isFileEntry]⟩

theorem localCodeCall_quiet : Quiet world request (localCodeCall world id request env) := by
  have hgate := @authorizeUiRequest_gated world.auth request.info request.headers
    (.lit "pair_code") 20 world.clock env.unwritten
  unfold localCodeCall
  dsimp only
  split
  · rename_i heq
    rw [heq] at hgate
    obtain ⟨status, message, checked, authorized, rfl⟩ := hgate
    exact ⟨rfl, rfl, rfl, rfl, rfl, rfl, by simp [Entry.isFileEntry]⟩
  · rename_i heq
    rw [heq] at hgate
    obtain ⟨status, message, checked, authorized, rfl⟩ := hgate
    split <;> exact ⟨rfl, rfl, rfl, rfl, rfl, rfl, by simp [Entry.isFileEntry]⟩

theorem transfersCall_quiet (status : Option Bytes) :
    Quiet world request (transfersCall world id request env status) := by
  have hgate := @authorizeUiRequest_gated world.auth request.info request.headers
    (.lit "transfer_status") 30 world.clock env.unwritten
  unfold transfersCall
  dsimp only
  split
  · rename_i heq
    rw [heq] at hgate
    obtain ⟨status, message, checked, authorized, rfl⟩ := hgate
    exact ⟨rfl, rfl, rfl, rfl, rfl, rfl, by simp [Entry.isFileEntry]⟩
  · rename_i heq
    rw [heq] at hgate
    obtain ⟨status, message, checked, authorized, rfl⟩ := hgate
    split <;> exact ⟨rfl, rfl, rfl, rfl, rfl, rfl, by simp [Entry.isFileEntry]⟩

theorem validateTargetPeer_info (auth : Auth) (registry : PeerRegistry)
    (info : ConnectionInfo) (now : Time) :
    ∃ status message, (validateTargetPeer auth registry info now).2.1 =
      { info with responseStatus := status, responseMessage := message } := by
  have hcheck := validateTargetPeer_check auth registry info now
  generalize validateTargetPeer auth registry info now = result at hcheck ⊢
  cases hcheck with
  | refused => exact ⟨_, _, rfl⟩
  | accepted => exact ⟨_, _, rfl⟩

theorem validateTargetPeer_gated (auth : Auth) (registry : PeerRegistry)
    (info : ConnectionInfo) (now : Time) :
    info.Gated (validateTargetPeer auth registry info now).2.1 := by
  obtain ⟨status, message, heq⟩ := validateTargetPeer_info auth registry info now
  exact ⟨status, message, info.authChecked, info.requestAuthorized, heq⟩

theorem uploadFinal_effect (hopen : request.info.Receiving ∧ request.info.fileSaved = false) :
    CallEffect id world request (uploadFinal world id request env) ∧
      (uploadFinal world id request env).2.1.Sound ∧
      (uploadFinal world id request env).1.queue = world.queue := by
  unfold uploadFinal
  dsimp only
  split
  · exact (quiet_answer _).effect id hopen
  · split
    · exact (quiet_answer _).effect id hopen
    · rename_i hprogress
      have hprogress : request.info.uploadInProgress = true := by simpa using hprogress
      rcases uploadStageCommit_cases world.fs request.info.uploadStage world.clock env.sealing with
        ⟨fs', stage, error, hpath, htouch, heq⟩ | ⟨fs', stage, file, hpath, htouch, hfile, heq⟩
      · rw [heq]
        refine ⟨.quiet htouch.sameFiles ?_ (by simp), Request.sound_answer _ _, rfl⟩
        simp [Request.holds, Request.answer, hpath, hopen.2]
      · rw [heq]
        refine ⟨.committed fs' file request.info.uploadStage.stagingPath.str ?_ ?_
          htouch.sameFiles hfile rfl rfl, Request.sound_answer _ _, rfl⟩
        · rw [Request.holds_of_receiving hopen.1 hopen.2, if_pos hprogress]
        · simp [Request.holds, Request.answer, hpath]

theorem sendFinal_effect (hopen : request.info.Receiving ∧ request.info.fileSaved = false) :
    CallEffect id world request (sendFinal world request env) ∧
      (sendFinal world request env).2.1.Sound ∧
      (sendFinal world request env).1.queue = world.queue := by
  unfold sendFinal
  dsimp only
  split
  · exact (quiet_answer _).effect id hopen
  · split
    · exact (quiet_answer _).effect id hopen
    · rename_i hprogress
      have hprogress : request.info.uploadInProgress = true := by simpa using hprogress
      have hne : request.info.uploadStage.stagingPath.str ≠ CString.empty := by
        rcases hopen.1 with ⟨-, hclosed⟩ | ⟨hstage, -⟩
        · rw [hprogress] at hclosed
          contradiction
        · exact isStagingEntry_ne_empty hstage.2.2
      have hgate := validateTargetPeer_gated world.auth world.registry request.info world.clock
      split
      · rename_i heq
        rw [heq] at hgate
        obtain ⟨status, message, checked, authorized, rfl⟩ := hgate
        exact ⟨.quiet (.refl _) (holds_of_same hopen.2 rfl rfl) (by simp),
          Request.sound_answer _ _, rfl⟩
      · rename_i heq
        rw [heq] at hgate
        obtain ⟨status, message, checked, authorized, rfl⟩ := hgate
        split
        · rename_i fs' stage error hseal
          obtain ⟨hpath, -, htouch⟩ := uploadStageSeal_spec hseal
          refine ⟨.quiet htouch.sameFiles ?_ (by simp), Request.sound_answer _ _, rfl⟩
          simp only [Request.holds, Request.answer, hopen.2]
          simp only at hpath
          simp [hpath]
        · rename_i fs' stage hseal
          obtain ⟨hpath, -, htouch⟩ := uploadStageSeal_spec hseal
          simp only at hpath
          refine ⟨.quiet htouch.sameFiles ?_ (by simp), ⟨fun _ h => ?_, fun _ => ?_⟩, rfl⟩
          · simp [Request.holds, Request.handingOver, hpath, hopen.2]
          · simp [Request.handingOver] at h
          · exact ⟨rfl, by rw [hpath]; exact hne, rfl⟩

theorem answerToConnection_effect (hsound : request.Sound)
    (hphase : request.phase = .receiving) (upload : Option Body) :
    CallEffect id world request (answerToConnection world id request upload env) ∧
      (answerToConnection world id request upload env).2.1.Sound ∧
      (answerToConnection world id request upload env).1.queue = world.queue := by
  have hopen : request.info.Receiving ∧ request.info.fileSaved = false :=
    hsound.open_ (by simp [hphase]) (by simp [Request.handingOver, hphase])
  have hdispatch := answerToConnection_dispatch world id request upload env
  generalize answerToConnection world id request upload env = outcome at hdispatch ⊢
  cases hdispatch with
  | index | devices | notFound => exact (quiet_answer _).effect id hopen
  | localCode => exact localCodeCall_quiet.effect id hopen
  | transfers | transfer => exact (transfersCall_quiet _).effect id hopen
  | chunk body => exact chunkStep_effect hsound hphase body
  | unlock => exact unlockFinal_quiet.effect id hopen
  | exchange => exact exchangeFinal_quiet.effect id hopen
  | upload => exact uploadFinal_effect hopen
  | pair => exact pairFinal_quiet.effect id hopen
  | send => exact sendFinal_effect hopen

theorem proceed_quiet {outcome : Outcome} {proceedEnv : ProceedEnv}
    (hhanding : request.handingOver = false)
    (h : proceed world id request proceedEnv = some outcome) : Quiet world request outcome := by
  cases proceed_proceeds h with
  | exchangeAdd | exchangeMark | pairRefused | pairAccepted | pairMark =>
      exact ⟨rfl, rfl, rfl, rfl, rfl, rfl, by simp⟩
  | pairStore =>
      refine ⟨rfl, rfl, rfl, rfl, rfl, rfl, ?_⟩
      dsimp only
      split <;> simp [Entry.isFileEntry]
  | sendCleanup phase | sendRefused phase | sendEnqueued phase =>
      simp [Request.handingOver, phase] at hhanding

theorem proceed_answered {reply : Reply} {proceedEnv : ProceedEnv}
    (hphase : request.phase = .answered reply) :
    proceed world id request proceedEnv = none := by
  simp [proceed, hphase]

end calls

end LocalDrop
