import LocalDrop.Bodies

/-! The size limit of an upload. However its data is cut into chunks, writing stops at the first
one that would exceed the limit, and nothing is stopped before. `fwrite` accepts what it is
given. -/
namespace LocalDrop
open Lib

structure Chunk where
  data : Bytes
  now : Time
  touched : Bool

def writeChunks (fs : FileSystem) (stage : UploadStage) (maxFileSize : Nat) :
    List Chunk → FileSystem × UploadStage × Option CString
  | [] => (fs, stage, none)
  | chunk :: rest =>
      match uploadStageWrite fs stage chunk.data maxFileSize chunk.now chunk.data.length
          chunk.touched with
      | (fs, stage, some error) => (fs, stage, some error)
      | (fs, stage, none) => writeChunks fs stage maxFileSize rest

def chunkData (chunks : List Chunk) : Bytes := chunks.flatMap Chunk.data

/-- An open stage whose file holds this data, all of it within the limit. -/
structure Staged (fs : FileSystem) (stage : UploadStage) (maxFileSize : Nat) (data : Bytes) :
    Prop where
  fp : stage.fp = true
  received : stage.bytesReceived = data.length
  within : data.length ≤ maxFileSize
  content : (fs stage.stagingPath.str).map File.content = some data

def limitText : CString := .lit "Arquivo excede o limite permitido"

section chunks
variable {fs fs' : FileSystem} {stage stage' : UploadStage} {maxFileSize : Nat} {data : Bytes}

theorem uploadStageWrite_staged (h : Staged fs stage maxFileSize data) {chunk : Chunk}
    (hsize : maxFileSize + chunk.data.length < 2 ^ 64) :
    if (data ++ chunk.data).length ≤ maxFileSize then
      ∃ fs' stage', uploadStageWrite fs stage chunk.data maxFileSize chunk.now chunk.data.length
        chunk.touched = (fs', stage', none) ∧ Staged fs' stage' maxFileSize (data ++ chunk.data)
    else uploadStageWrite fs stage chunk.data maxFileSize chunk.now chunk.data.length
      chunk.touched = (fs, stage, some limitText) := by
  have hsum : (stage.bytesReceived + chunk.data.length) % 2 ^ 64 =
      (data ++ chunk.data).length := by
    rw [h.received, List.length_append]
    have hwithin := h.within
    exact Nat.mod_eq_of_lt (by omega)
  unfold uploadStageWrite
  rw [h.fp, hsum]
  simp only [Bool.not_true, Bool.false_eq_true, if_false, lt_irrefl]
  split
  · rename_i hroom
    rw [if_neg (not_lt.mpr hroom)]
    refine ⟨_, _, rfl, rfl, rfl, hroom, ?_⟩
    obtain ⟨file, hfile, hcontent⟩ := Option.map_eq_some_iff.mp h.content
    dsimp only
    rw [FileSystem.modify, Function.update_self, hfile, Option.map_some, Option.map_some,
      File.append, List.take_length, hcontent]
  · rename_i hfull
    rw [if_pos (not_le.mp hfull)]
    rfl

/-- Without an error everything is staged; with one, some front of it is. -/
theorem writeChunks_staged (h : Staged fs stage maxFileSize data) (chunks : List Chunk)
    (hsize : ∀ chunk ∈ chunks, maxFileSize + chunk.data.length < 2 ^ 64) :
    ∃ fs' stage' error, writeChunks fs stage maxFileSize chunks = (fs', stage', error) ∧
      ((data ++ chunkData chunks).length ≤ maxFileSize ∧ error = none ∧
          Staged fs' stage' maxFileSize (data ++ chunkData chunks) ∨
        maxFileSize < (data ++ chunkData chunks).length ∧ error = some limitText ∧
          ∃ written, Staged fs' stage' maxFileSize written) := by
  induction chunks generalizing fs stage data with
  | nil =>
      have hself : data ++ chunkData [] = data := List.append_nil data
      rw [hself]
      exact ⟨fs, stage, none, rfl, .inl ⟨h.within, rfl, h⟩⟩
  | cons chunk rest ih =>
      have hcons : data ++ chunkData (chunk :: rest) = data ++ chunk.data ++ chunkData rest := by
        rw [chunkData, List.flatMap_cons, List.append_assoc]
        rfl
      have hwrite := uploadStageWrite_staged h (hsize chunk (by simp))
      rw [hcons, writeChunks]
      split at hwrite
      · obtain ⟨fs', stage', hwritten, hstaged⟩ := hwrite
        rw [hwritten]
        exact ih hstaged fun later hlater => hsize later (by simp [hlater])
      · rename_i hfull
        rw [hwrite]
        refine ⟨fs, stage, some limitText, rfl, .inr ⟨?_, rfl, data, h⟩⟩
        rw [List.length_append]
        omega

theorem uploadStageOpen_staged {creator : Nat} {filename : Option CString} {now : Time}
    {random : RandomBytes 8} {opened : Bool}
    (h : uploadStageOpen fs creator filename now random opened = (fs', stage, none))
    (maxFileSize : Nat) : Staged fs' stage maxFileSize [] := by
  unfold uploadStageOpen at h
  dsimp only at h
  split at h
  · simp at h
  · split at h
    · cases h
      exact ⟨rfl, rfl, Nat.zero_le _, by rw [Function.update_self]; rfl⟩
    · simp at h

end chunks

def postFile (fs : FileSystem) (id : Nat) (info : ConnectionInfo) (calls : List (Time × PostItem)) :
    FileSystem × ConnectionInfo :=
  calls.foldl (fun state call => iteratePost state.1 id state.2 call.1 call.2) (fs, info)

/-- The chunk that a call brings; one without data is not written. -/
def fileChunks (calls : List (Time × PostItem)) : List Chunk :=
  (calls.filter fun call => call.2.data ≠ []).map fun call =>
    ⟨call.2.data, call.1, call.2.touched⟩

def ConnectionInfo.failed (info : ConnectionInfo) (stage : UploadStage) (error : CString) :
    ConnectionInfo :=
  { info with
    uploadStage := stage
    responseMessage := copyString error
    responseStatus :=
      if (strstr (CString.lit "limite").bytes (copyString error : Chars 256).str.bytes).isSome
      then 413 else 500 }

section calls
variable {fs : FileSystem} {id : Nat} {info : ConnectionInfo} {calls : List (Time × PostItem)}

theorem postFile_failed (h : 400 ≤ info.responseStatus) :
    postFile fs id info calls = (fs, info) := by
  induction calls with
  | nil => rfl
  | cons call rest ih =>
      rw [postFile, List.foldl_cons, iteratePost, if_pos h]
      exact ih

theorem uploadStageWrite_fp (fs : FileSystem) (stage : UploadStage) (data : Bytes) (limit : Nat)
    (now : Time) (written : Nat) (touched : Bool) :
    (uploadStageWrite fs stage data limit now written touched).2.1.fp = stage.fp := by
  unfold uploadStageWrite
  dsimp only
  repeat' split
  all_goals rfl

theorem ConnectionInfo.failed_status (info : ConnectionInfo) (stage : UploadStage)
    (error : CString) : 400 ≤ (info.failed stage error).responseStatus := by
  unfold ConnectionInfo.failed
  dsimp only
  split <;> decide

theorem postFile_writeChunks (hfp : info.uploadStage.fp = true) (hok : info.responseStatus < 400)
    (hcalls : ∀ call ∈ calls, call.2.key = .lit "file" ∧ call.2.written = call.2.data.length) :
    postFile fs id info calls =
      match writeChunks fs info.uploadStage maxFileSize (fileChunks calls) with
      | (fs, stage, none) => (fs, { info with uploadStage := stage })
      | (fs, stage, some error) => (fs, info.failed stage error) := by
  induction calls generalizing fs info with
  | nil => rfl
  | cons call rest ih =>
      obtain ⟨now, item⟩ := call
      obtain ⟨hkey, hwritten⟩ := hcalls (now, item) (by simp)
      have hrest := fun fs info hfp hok => @ih fs info hfp hok fun later hlater =>
        hcalls later (by simp [hlater])
      have hopen : openStage fs id info now item = (fs, info, true) := by
        simp [openStage, hfp]
      rw [postFile, List.foldl_cons]
      dsimp only
      rw [iteratePost, if_neg (Nat.not_le.mpr hok), if_pos hkey, hopen]
      dsimp only
      by_cases hdata : item.data = []
      · have hskip : fileChunks ((now, item) :: rest) = fileChunks rest := by
          simp [fileChunks, hdata]
        rw [hskip, writeStage, if_neg (by simp [hdata])]
        exact hrest fs info hfp hok
      · have hchunk : fileChunks ((now, item) :: rest) =
            ⟨item.data, now, item.touched⟩ :: fileChunks rest := by
          simp [fileChunks, hdata]
        rw [hchunk, writeStage, if_pos ⟨.inl hfp, hdata⟩, writeChunks]
        dsimp only at hwritten ⊢
        rw [hwritten]
        have hkeeps := uploadStageWrite_fp fs info.uploadStage item.data maxFileSize now
          item.data.length item.touched
        obtain ⟨fs', stage', error, heq⟩ : ∃ fs' stage' error,
            uploadStageWrite fs info.uploadStage item.data maxFileSize now item.data.length
              item.touched = (fs', stage', error) := ⟨_, _, _, rfl⟩
        rw [heq] at hkeeps ⊢
        cases error with
        | none => exact hrest fs' _ (hkeeps.trans hfp) hok
        | some error => exact postFile_failed (info.failed_status stage' error)

end calls

theorem final_failed {world : World} {id : Nat} {request : Request} {env : CallEnv}
    (hroute : request.route = .upload ∨ request.route = .send)
    (h : 400 ≤ request.info.responseStatus) :
    (answerToConnection world id request none env).2.1 =
      request.answer request.info.errorReply := by
  rcases hroute with hroute | hroute
  · rw [answerToConnection_upload hroute]
    unfold uploadFinal
    dsimp only
    rw [if_pos h]
  · rw [answerToConnection_send hroute]
    unfold sendFinal
    dsimp only
    rw [if_pos h]

/-- However data is cut, writing it to a fresh stage succeeds exactly if it is within the limit,
and then all of it is staged; at every moment what is staged is counted and within the limit;
and `iterate_post` answers an upload that is refused with 413. -/
theorem chunkedUpload_spec {fs fs' : FileSystem} {creator : Nat} {filename : Option CString}
    {now : Time} {random : RandomBytes 8} {opened : Bool} {stage : UploadStage}
    (hopen : uploadStageOpen fs creator filename now random opened = (fs', stage, none))
    (limit : Nat) (chunks : List Chunk)
    (hsize : ∀ chunk ∈ chunks, limit + chunk.data.length < 2 ^ 64) :
    ((writeChunks fs' stage limit chunks).2.2 = none ↔ (chunkData chunks).length ≤ limit) ∧
    ((writeChunks fs' stage limit chunks).2.2 = none →
      ((writeChunks fs' stage limit chunks).1
          (writeChunks fs' stage limit chunks).2.1.stagingPath.str).map File.content =
        some (chunkData chunks) ∧
      (writeChunks fs' stage limit chunks).2.1.bytesReceived = (chunkData chunks).length) ∧
    (∀ before later, chunks = before ++ later → ∃ written,
      ((writeChunks fs' stage limit before).1
          (writeChunks fs' stage limit before).2.1.stagingPath.str).map File.content =
        some written ∧
      (writeChunks fs' stage limit before).2.1.bytesReceived = written.length ∧
      written.length ≤ limit) ∧
    ∀ id info calls, info.uploadStage = stage → info.responseStatus < 400 →
      (∀ call ∈ calls, call.2.key = .lit "file" ∧ call.2.written = call.2.data.length) →
      fileChunks calls = chunks → limit = maxFileSize →
      (postFile fs' id info calls).2.responseStatus =
        (if (chunkData chunks).length ≤ limit then info.responseStatus else 413) ∧
      ∀ world request env, request.info = (postFile fs' id info calls).2 →
        request.route = .upload ∨ request.route = .send → limit < (chunkData chunks).length →
        ∃ reply, (answerToConnection world id request none env).2.1.phase = .answered reply ∧
          reply.status = 413 := by
  have hstart := uploadStageOpen_staged hopen limit
  have hresult : ∀ part : List Chunk, (∀ chunk ∈ part, chunk ∈ chunks) →
      ∃ fs'' stage'' error, writeChunks fs' stage limit part = (fs'', stage'', error) ∧
        ((chunkData part).length ≤ limit ∧ error = none ∧
            Staged fs'' stage'' limit (chunkData part) ∨
          limit < (chunkData part).length ∧ error = some limitText ∧
            ∃ written, Staged fs'' stage'' limit written) := fun part hpart =>
    writeChunks_staged hstart part fun chunk hchunk => hsize chunk (hpart chunk hchunk)
  obtain ⟨fs'', stage'', error, heq, hcases⟩ := hresult chunks fun _ hchunk => hchunk
  refine ⟨?_, ?_, ?_, ?_⟩
  · rw [heq]
    rcases hcases with ⟨hfits, rfl, -⟩ | ⟨hlong, rfl, -⟩
    · exact iff_of_true rfl hfits
    · exact iff_of_false (by simp) (not_le.mpr hlong)
  · rw [heq]
    rintro rfl
    rcases hcases with ⟨-, -, hstaged⟩ | ⟨-, hnone, -⟩
    · exact ⟨hstaged.content, hstaged.received⟩
    · contradiction
  · rintro before later rfl
    obtain ⟨fs'', stage'', error, heq, hcases⟩ := hresult before fun chunk hchunk =>
      List.mem_append_left _ hchunk
    rw [heq]
    rcases hcases with ⟨-, -, hstaged⟩ | ⟨-, -, written, hstaged⟩
    · exact ⟨_, hstaged.content, hstaged.received, hstaged.within⟩
    · exact ⟨written, hstaged.content, hstaged.received, hstaged.within⟩
  · rintro id info calls hinfo hok hcalls rfl rfl
    have hstatus : (postFile fs' id info calls).2.responseStatus =
        if (chunkData (fileChunks calls)).length ≤ maxFileSize then info.responseStatus
        else 413 := by
      rw [postFile_writeChunks (hinfo ▸ hstart.fp) hok hcalls, hinfo, heq]
      rcases hcases with ⟨hfits, rfl, -⟩ | ⟨hlong, rfl, -⟩
      · rw [if_pos hfits]
      · rw [if_neg (not_le.mpr hlong)]
        have hnamed : (strstr (CString.lit "limite").bytes
            (copyString limitText : Chars 256).str.bytes).isSome = true := by
          decide +kernel
        unfold ConnectionInfo.failed
        dsimp only
        rw [if_pos hnamed]
    refine ⟨hstatus, fun world request env hrequest hroute hlong => ?_⟩
    rw [if_neg (not_le.mpr hlong)] at hstatus
    have hrefused : request.info.responseStatus = 413 := hrequest ▸ hstatus
    exact ⟨_, congrArg Request.phase (final_failed hroute (by omega)), hrefused⟩

theorem sampleChunks_spec : ∃ fs stage,
    uploadStageOpen (fun _ => none) 0 (some (.lit "a.txt")) 5 (some (.replicate 8 1)) true =
      (fs, stage, none) ∧
    (writeChunks fs stage 3 [⟨[1, 2], 6, true⟩, ⟨[3], 7, false⟩]).2.2 = none ∧
    (writeChunks fs stage 2 [⟨[1, 2], 6, true⟩, ⟨[3], 7, false⟩]).2.2 ≠ none := by
  obtain ⟨fs, stage, hopen⟩ : ∃ fs stage, uploadStageOpen (fun _ => none) 0
      (some (.lit "a.txt")) 5 (some (.replicate 8 1)) true = (fs, stage, none) := ⟨_, _, rfl⟩
  refine ⟨fs, stage, hopen, ?_, ?_⟩
  · exact (chunkedUpload_spec hopen 3 _ (by decide +kernel)).1.mpr (by decide)
  · intro hnone
    exact absurd ((chunkedUpload_spec hopen 2 _ (by decide +kernel)).1.mp hnone) (by decide)

end LocalDrop
