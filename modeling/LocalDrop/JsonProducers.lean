import LocalDrop.JsonViews
import LocalDrop.Lib.GrowingBuffer

/-! The JSON producers when memory runs out. `realloc` tells of each call that a producer
makes, counted from 0, whether it succeeds. -/
namespace LocalDrop.Allocating
open Lib GrowingBuffer GrowingBuffer.Tracks

abbrev JsonBuffer := GrowingBuffer UInt8

/-- -1, or 0 with what `*json_out` then is, which may be `NULL`; or a byte was read in front
of a buffer that is not there. -/
inductive JsonResult where
  | failed
  | produced (json : Option Bytes)
  | fault
deriving DecidableEq

def escapedPieces (text : CString) : List Bytes := text.bytes.map jsonEscapeByte

def peerPieces (peer : PeerInfo) : List Bytes :=
  (CString.lit "\x7b\"name\":\"").bytes :: escapedPieces peer.name.str ++
    (CString.lit "\",\"ip\":\"").bytes :: escapedPieces peer.ip.str ++
    [(CString.lit "\",\"port\":").bytes ++ decimal peer.port.toNat ++
      (CString.lit ",\"active\":").bytes ++ (jsonBool peer.active).bytes ++
      (CString.lit ",\"paired\":").bytes ++ (jsonBool peer.paired).bytes ++
      (CString.lit ",\"last_seen\":").bytes ++ formatLong peer.lastSeen ++
      (CString.lit "\x7d").bytes]

def jobNumbers (job : TransferJob) : Bytes :=
  (CString.lit "\",\"target_port\":").bytes ++ decimal job.targetPort.toNat ++
    (CString.lit ",\"bytes_sent\":").bytes ++ decimal job.bytesSent ++
    (CString.lit ",\"total_bytes\":").bytes ++ decimal job.totalBytes ++
    (CString.lit ",\"created_at\":").bytes ++ formatLong job.createdAt ++
    (CString.lit ",\"updated_at\":").bytes ++ formatLong job.updatedAt ++
    (CString.lit ",\"error_message\":\"").bytes

section producers
variable (realloc : Nat → Bool)

/-- Also `json_buffer_appendf`, given the formatted text. -/
def jsonBufferAppend (buffer : JsonBuffer) (text : Bytes) : JsonBuffer × Bool :=
  buffer.append 256 realloc text

def jsonBufferAppendEscaped (buffer : JsonBuffer) (text : CString) : JsonBuffer × Bool :=
  buffer.appendAll 256 realloc (escapedPieces text)

/-- Every append is checked, and the buffer freed if one fails. -/
def peerRegistrySnapshotJson (registry : PeerRegistry) : JsonResult :=
  let appended := (null : JsonBuffer).appendAll 256 realloc
    ([91] :: [[44]].intercalate (registry.entries.map peerPieces) ++ [[93]])
  if appended.2 then .produced appended.1.text else .failed

/-- No append is checked. -/
def appendJobJson (buffer : JsonBuffer) (job : TransferJob) : JsonBuffer :=
  let append (buffer : JsonBuffer) (text : Bytes) := (jsonBufferAppend realloc buffer text).1
  let appendEscaped (buffer : JsonBuffer) (text : CString) :=
    (jsonBufferAppendEscaped realloc buffer text).1
  let buffer := append buffer (CString.lit "\x7b\"job_id\":\"").bytes
  let buffer := appendEscaped buffer job.jobId.str
  let buffer := append buffer (CString.lit "\",\"status\":\"").bytes
  let buffer := appendEscaped buffer (transferStatusName job.status)
  let buffer := append buffer (CString.lit "\",\"target_ip\":\"").bytes
  let buffer := appendEscaped buffer job.targetIp.str
  let buffer := append buffer (jobNumbers job)
  let buffer := appendEscaped buffer job.errorMessage.str
  append buffer (CString.lit "\"\x7d").bytes

def transferStatusGet (queue : TransferQueue) (jobId : CString) : JsonResult :=
  match (List.finRange maxTransferJobs).find? fun slot =>
      (queue.jobs slot).inUse && (queue.jobs slot).jobId.str = jobId with
  | none => .failed
  | some slot => .produced (appendJobJson realloc null (queue.jobs slot)).text

/-- The loop of `transfer_status_list_json`, which looks at `payload[length - 1]`. -/
def appendJobs (queue : TransferQueue) : JsonBuffer → List Slot → Option JsonBuffer
  | buffer, [] => some buffer
  | buffer, slot :: rest =>
      if (queue.jobs slot).inUse then
        match buffer.content.getLast? with
        | none => none
        | some last =>
            appendJobs queue (appendJobJson realloc
              (if last ≠ 91 then (jsonBufferAppend realloc buffer [44]).1 else buffer)
              (queue.jobs slot)) rest
      else appendJobs queue buffer rest

def transferStatusListJson (queue : TransferQueue) : JsonResult :=
  match appendJobs realloc queue (jsonBufferAppend realloc null [91]).1
      (List.finRange maxTransferJobs) with
  | none => .fault
  | some buffer => .produced (jsonBufferAppend realloc buffer [93]).1.text

end producers

theorem jsonEscapeByte_ne_nil (b : UInt8) : jsonEscapeByte b ≠ [] := by
  rcases jsonEscapeByte_cases b with ⟨rest, hescape, -⟩ | ⟨hself, -⟩
  · simp [hescape]
  · simp [hself]

theorem escapedPieces_ne_nil (text : CString) : ∀ piece ∈ escapedPieces text, piece ≠ [] := by
  intro piece hpiece
  obtain ⟨b, -, rfl⟩ := List.mem_map.mp hpiece
  exact jsonEscapeByte_ne_nil b

theorem flatten_escapedPieces (text : CString) :
    (escapedPieces text).flatten = jsonEscape text := rfl

def jobPieces (job : TransferJob) : List Bytes :=
  (CString.lit "\x7b\"job_id\":\"").bytes :: escapedPieces job.jobId.str ++
    (CString.lit "\",\"status\":\"").bytes :: escapedPieces (transferStatusName job.status) ++
    (CString.lit "\",\"target_ip\":\"").bytes :: escapedPieces job.targetIp.str ++
    jobNumbers job :: escapedPieces job.errorMessage.str ++ [(CString.lit "\"\x7d").bytes]

theorem flatten_jobPieces (job : TransferJob) :
    (jobPieces job).flatten = LocalDrop.appendJobJson job := by
  unfold jobPieces LocalDrop.appendJobJson jobNumbers
  simp only [List.flatten_append, List.flatten_cons, List.flatten_nil, flatten_escapedPieces,
    List.append_assoc, List.append_nil]

theorem flatten_peerPieces (peer : PeerInfo) : (peerPieces peer).flatten = peerJson peer := by
  simp only [peerPieces, List.flatten_append, List.flatten_cons, List.flatten_nil,
    flatten_escapedPieces, peerJson, List.append_assoc, List.append_nil]

def listPieces (jobs : List TransferJob) : List Bytes :=
  [91] :: [[44]].intercalate (jobs.map jobPieces)

theorem flatten_intercalate {pieces : List (List Bytes)} {separator : Bytes} :
    ([separator].intercalate pieces).flatten = separator.intercalate (pieces.map List.flatten) := by
  induction pieces using List.reverseRecOn with
  | nil => rfl
  | append_singleton pieces last ih =>
      by_cases hempty : pieces = []
      · simp [hempty]
      · rw [List.map_append, List.map_singleton, Json.intercalate_concat hempty,
          Json.intercalate_concat (by simpa using hempty), List.flatten_append,
          List.flatten_append, ih, List.flatten_singleton]

theorem flatten_listPieces (jobs : List TransferJob) :
    (listPieces jobs).flatten = 91 :: [44].intercalate (jobs.map LocalDrop.appendJobJson) := by
  rw [listPieces, List.flatten_cons, flatten_intercalate, List.map_map]
  have hpieces : List.flatten ∘ jobPieces = LocalDrop.appendJobJson := funext flatten_jobPieces
  rw [hpieces]
  rfl

theorem listPieces_concat (jobs : List TransferJob) (job : TransferJob) :
    listPieces (jobs ++ [job]) =
      listPieces jobs ++ (if jobs = [] then [] else [[44]]) ++ jobPieces job := by
  unfold listPieces
  split
  · rename_i hempty
    simp [hempty]
  · rename_i hne
    rw [List.map_append, List.map_singleton, Json.intercalate_concat (by simpa using hne)]
    simp

section unchecked
variable {realloc : Nat → Bool} {pieces : List Bytes} {buffer : JsonBuffer} {queue : TransferQueue}

theorem tracks_append (h : Tracks 256 realloc pieces buffer) (text : Bytes) (hne : text ≠ []) :
    Tracks 256 realloc (pieces ++ [text]) (jsonBufferAppend realloc buffer text).1 :=
  h.append hne

theorem tracks_appendEscaped (h : Tracks 256 realloc pieces buffer) (text : CString) :
    Tracks 256 realloc (pieces ++ escapedPieces text)
      (jsonBufferAppendEscaped realloc buffer text).1 :=
  h.appendAll (escapedPieces_ne_nil text)

theorem jobNumbers_ne_nil (job : TransferJob) : jobNumbers job ≠ [] :=
  List.append_ne_nil_of_right_ne_nil _ (by decide)

theorem tracks_appendJobJson (h : Tracks 256 realloc pieces buffer) (job : TransferJob) :
    Tracks 256 realloc (pieces ++ jobPieces job) (appendJobJson realloc buffer job) := by
  have hopened := tracks_append h (CString.lit "\x7b\"job_id\":\"").bytes (by decide)
  have hid := tracks_appendEscaped hopened job.jobId.str
  have hstatusKey := tracks_append hid (CString.lit "\",\"status\":\"").bytes (by decide)
  have hstatus := tracks_appendEscaped hstatusKey (transferStatusName job.status)
  have htargetKey := tracks_append hstatus (CString.lit "\",\"target_ip\":\"").bytes (by decide)
  have htarget := tracks_appendEscaped htargetKey job.targetIp.str
  have hnumbers := tracks_append htarget (jobNumbers job) (jobNumbers_ne_nil job)
  have herror := tracks_appendEscaped hnumbers job.errorMessage.str
  have hclosed := tracks_append herror (CString.lit "\"\x7d").bytes (by decide)
  unfold appendJobJson jobPieces
  simpa using hclosed

/-- The comma is left out in front of the first job, and elsewhere only where something is
missing already. -/
theorem tracks_separated {jobs : List TransferJob} {last : UInt8}
    (h : Tracks 256 realloc (listPieces jobs) buffer)
    (hlast : buffer.content.getLast? = some last) :
    Tracks 256 realloc (listPieces jobs ++ if jobs = [] then [] else [[44]])
      (if last ≠ 91 then (jsonBufferAppend realloc buffer [44]).1 else buffer) := by
  by_cases hempty : jobs = []
  · subst hempty
    rw [if_pos rfl, List.append_nil]
    cases h with
    | whole run =>
        rw [content_of_whole run] at hlast
        cases hlast
        exact .whole run
    | short run lacks =>
        have hnil : buffer.content = [] := List.length_eq_zero_iff.mp (Nat.lt_one_iff.mp lacks)
        rw [hnil] at hlast
        contradiction
  · rw [if_neg hempty]
    split
    · exact tracks_append h [44] (by decide)
    · rename_i hbracket
      cases h with
      | whole run =>
          rw [content_of_whole run, flatten_listPieces, getLast_opened (by simpa using hempty)]
            at hlast
          · cases hlast
            contradiction
          · intro text htext
            obtain ⟨job, -, rfl⟩ := List.mem_map.mp htext
            exact appendJobJson_getLast job
      | short run lacks => exact .skip run lacks

theorem listPieces_append (jobs others : List TransferJob) :
    ∃ more, listPieces (jobs ++ others) = listPieces jobs ++ more := by
  induction others using List.reverseRecOn with
  | nil => exact ⟨[], by simp⟩
  | append_singleton others job ih =>
      obtain ⟨more, hmore⟩ := ih
      rw [← List.append_assoc, listPieces_concat, hmore]
      exact ⟨_, by rw [List.append_assoc, List.append_assoc]⟩

theorem appendJobs_tracks {slots : List Slot} {jobs : List TransferJob}
    (h : Tracks 256 realloc (listPieces jobs) buffer) :
    let listed := jobs ++ ((slots.filter fun slot => (queue.jobs slot).inUse).map queue.jobs)
    (∀ after, appendJobs realloc queue buffer slots = some after →
      Tracks 256 realloc (listPieces listed) after) ∧
    (appendJobs realloc queue buffer slots = none →
      ((null : JsonBuffer).appendAll 256 realloc (listPieces listed)).2 = false) := by
  induction slots generalizing jobs buffer with
  | nil =>
      simp only [appendJobs, List.filter_nil, List.map_nil, List.append_nil]
      refine ⟨fun after hafter => ?_, fun hnone => by contradiction⟩
      cases hafter
      exact h
  | cons slot slots ih =>
      rw [appendJobs]
      split
      · rename_i huse
        rw [List.filter_cons_of_pos (by simpa using huse), List.map_cons]
        cases hlast : buffer.content.getLast? with
        | none =>
            refine ⟨fun after hafter => by contradiction, fun _ => ?_⟩
            have hnil := List.getLast?_eq_none_iff.mp hlast
            obtain ⟨more, hmore⟩ := listPieces_append jobs
              (queue.jobs slot :: (slots.filter fun slot => (queue.jobs slot).inUse).map queue.jobs)
            rw [hmore]
            cases h with
            | whole run =>
                rw [content_of_whole run, flatten_listPieces] at hnil
                contradiction
            | short run lacks => exact failed_append run
        | some last =>
            have hnext := tracks_appendJobJson (tracks_separated h hlast) (queue.jobs slot)
            rw [← listPieces_concat] at hnext
            have hlater := ih hnext
            rw [List.append_assoc, List.singleton_append] at hlater
            exact hlater
      · rename_i hunused
        rw [List.filter_cons_of_neg (by simpa using hunused)]
        exact ih h

end unchecked

def ReallocsSucceed (realloc : Nat → Bool) (pieces : List Bytes) : Prop :=
  ∀ call < calls 256 0 0 (pieces.map List.length), realloc call = true

/-- -1, or the document there would be if no allocation failed. -/
def AllOrNothing (producer : (Nat → Bool) → JsonResult) (realloc : Nat → Bool) : Prop :=
  producer realloc = .failed ∨ ∃ document, producer always = .produced (some document) ∧
    producer realloc = .produced (some document)

def snapshotPieces (registry : PeerRegistry) : List Bytes :=
  [91] :: [[44]].intercalate (registry.entries.map peerPieces) ++ [[93]]

def jobListPieces (queue : TransferQueue) : List Bytes :=
  listPieces ((inUseSlots queue).map queue.jobs) ++ [[93]]

def jobOf (queue : TransferQueue) (jobId : CString) : Option Slot :=
  (List.finRange maxTransferJobs).find? fun slot =>
    (queue.jobs slot).inUse && (queue.jobs slot).jobId.str = jobId

theorem allOrNothing_iff_produced {producer : (Nat → Bool) → JsonResult} {realloc : Nat → Bool}
    {document : Bytes} (hcomplete : producer always = .produced (some document))
    (hfailed : producer realloc ≠ .failed) :
    AllOrNothing producer realloc ↔ producer realloc = .produced (some document) := by
  constructor
  · rintro (h | ⟨other, halways, hproduced⟩)
    · exact absurd h hfailed
    · exact hproduced.trans (halways.symm.trans hcomplete)
  · intro hproduced
    exact .inr ⟨document, hcomplete, hproduced⟩

section documents
variable {realloc : Nat → Bool} {registry : PeerRegistry} {queue : TransferQueue}
  {jobId : CString}

theorem reallocsSucceed_iff {pieces : List Bytes} :
    ((null : JsonBuffer).appendAll 256 realloc pieces).2 = true ↔
      ReallocsSucceed realloc pieces := by
  have hasked : ((null : JsonBuffer).appendAll 256 always pieces).1.asked =
      calls 256 0 0 (pieces.map List.length) :=
    (asked_appendAll fun _ => rfl).trans (Nat.zero_add _)
  rw [appendAll_succeeds_iff, hasked]
  constructor
  · intro h call hlt
    exact h call (Nat.zero_le _) hlt
  · intro h call _ hlt
    exact h call hlt

theorem reallocsSucceed_always (pieces : List Bytes) : ReallocsSucceed always pieces :=
  fun _ _ => rfl

theorem flatten_snapshotPieces :
    (snapshotPieces registry).flatten = LocalDrop.peerRegistrySnapshotJson registry := by
  have hpieces : List.flatten ∘ peerPieces = peerJson := funext flatten_peerPieces
  simp only [snapshotPieces, List.flatten_append, List.flatten_cons, List.flatten_nil,
    flatten_intercalate, List.map_map, hpieces, List.append_nil]
  rfl

theorem flatten_jobListPieces :
    (jobListPieces queue).flatten = LocalDrop.transferStatusListJson queue := by
  rw [jobListPieces, List.flatten_append, flatten_listPieces, List.flatten_singleton,
    transferStatusListJson_eq, List.map_map]
  rfl

theorem snapshot_eq : peerRegistrySnapshotJson realloc registry =
    if ((null : JsonBuffer).appendAll 256 realloc (snapshotPieces registry)).2 then
      .produced (some (LocalDrop.peerRegistrySnapshotJson registry))
    else .failed := by
  unfold peerRegistrySnapshotJson
  dsimp only
  rw [← snapshotPieces]
  split
  · rename_i hsucceeds
    rw [← flatten_snapshotPieces]
    exact congrArg JsonResult.produced (appendAll_text hsucceeds)
  · rfl

theorem jobList_produced_iff : transferStatusListJson realloc queue =
      .produced (some (LocalDrop.transferStatusListJson queue)) ↔
    ReallocsSucceed realloc (jobListPieces queue) := by
  rw [← flatten_jobListPieces, ← reallocsSucceed_iff]
  have hopened : Tracks 256 realloc (listPieces []) (jsonBufferAppend realloc null [91]).1 :=
    tracks_append .nil [91] (by decide)
  obtain ⟨hlisted, hfault⟩ := @appendJobs_tracks realloc _ queue
    (List.finRange maxTransferJobs) [] hopened
  unfold transferStatusListJson
  split
  · rename_i hnone
    have hfailed := @failed_append _ _ _ _ [[93]] (hfault hnone)
    refine iff_of_false (fun h => by contradiction) ?_
    rw [jobListPieces, Bool.not_eq_true]
    exact hfailed
  · rename_i buffer hsome
    rw [JsonResult.produced.injEq]
    exact (tracks_append (hlisted buffer hsome) [93] (by decide)).text_iff

theorem jobList_not_failed : transferStatusListJson realloc queue ≠ .failed := by
  unfold transferStatusListJson
  split
  · simp
  · simp

theorem transferStatusGet_some {slot : Slot} (h : jobOf queue jobId = some slot) :
    transferStatusGet realloc queue jobId =
      .produced (appendJobJson realloc null (queue.jobs slot)).text := by
  unfold jobOf at h
  rw [transferStatusGet, h]

theorem transferStatusGet_not_failed {slot : Slot} (h : jobOf queue jobId = some slot) :
    transferStatusGet realloc queue jobId ≠ .failed := by
  rw [transferStatusGet_some h]
  simp

theorem transferStatusGet_none (h : jobOf queue jobId = none) :
    transferStatusGet realloc queue jobId = .failed := by
  unfold jobOf at h
  rw [transferStatusGet, h]

theorem job_produced_iff {slot : Slot} (h : jobOf queue jobId = some slot) :
    transferStatusGet realloc queue jobId =
      .produced (some (LocalDrop.appendJobJson (queue.jobs slot))) ↔
    ReallocsSucceed realloc (jobPieces (queue.jobs slot)) := by
  rw [transferStatusGet_some h, JsonResult.produced.injEq, ← flatten_jobPieces,
    ← reallocsSucceed_iff]
  exact (tracks_appendJobJson .nil (queue.jobs slot)).text_iff

end documents

theorem producers_complete (registry : PeerRegistry) (queue : TransferQueue) (jobId : CString) :
    peerRegistrySnapshotJson always registry =
        .produced (some (LocalDrop.peerRegistrySnapshotJson registry)) ∧
      transferStatusListJson always queue =
        .produced (some (LocalDrop.transferStatusListJson queue)) ∧
      transferStatusGet always queue jobId =
        (LocalDrop.transferStatusGet queue jobId).elim .failed fun json =>
          .produced (some json) := by
  refine ⟨?_, jobList_produced_iff.mpr (reallocsSucceed_always _), ?_⟩
  · rw [snapshot_eq, if_pos (reallocsSucceed_iff.mpr (reallocsSucceed_always _))]
  · have hjson : LocalDrop.transferStatusGet queue jobId = (jobOf queue jobId).map fun slot =>
        LocalDrop.appendJobJson (queue.jobs slot) := rfl
    rw [hjson]
    cases hslot : jobOf queue jobId with
    | none => exact transferStatusGet_none hslot
    | some slot => exact (job_produced_iff hslot).mpr (reallocsSucceed_always _)

/-- The registry's producer is all or nothing whatever `realloc` does, and the two of the
queue exactly where none of the calls fails that the whole document takes. -/
theorem jsonProducers_allOrNothing_iff (registry : PeerRegistry) (queue : TransferQueue)
    (jobId : CString) (realloc : Nat → Bool) :
    AllOrNothing (fun realloc => peerRegistrySnapshotJson realloc registry) realloc ∧
    (AllOrNothing (fun realloc => transferStatusListJson realloc queue) realloc ↔
      ReallocsSucceed realloc (jobListPieces queue)) ∧
    (AllOrNothing (fun realloc => transferStatusGet realloc queue jobId) realloc ↔
      ∀ slot, jobOf queue jobId = some slot →
        ReallocsSucceed realloc (jobPieces (queue.jobs slot))) := by
  obtain ⟨hsnapshot, hlist, -⟩ := producers_complete registry queue jobId
  refine ⟨?_, ?_, ?_⟩
  · have heq := @snapshot_eq realloc registry
    split at heq
    · exact .inr ⟨_, hsnapshot, heq⟩
    · exact .inl heq
  · rw [← jobList_produced_iff]
    exact allOrNothing_iff_produced hlist jobList_not_failed
  · cases hslot : jobOf queue jobId with
    | none => exact iff_of_true (.inl (transferStatusGet_none hslot)) fun slot h => by contradiction
    | some slot =>
        have hcomplete := (@job_produced_iff always queue jobId slot hslot).mpr
          (reallocsSucceed_always _)
        simp only [Option.some.injEq, forall_eq']
        rw [← job_produced_iff hslot]
        exact allOrNothing_iff_produced hcomplete (transferStatusGet_not_failed hslot)

def oneJobQueue : TransferQueue :=
  (transferEnqueue transferQueueInit
    ⟨.lit "staging/1000_a.txt", .lit "10.0.0.9", 8080, .lit "aa"⟩ 1000 (some (.replicate 8 1))).1

def oneJobId : CString := (oneJobQueue.jobs 0).jobId.str

/-- If only the first of its calls fails, the status of the job lacks its opening, and the
list is read in front of its buffer; if all fail, the status is `NULL`. -/
theorem oneJob_truncated :
    transferStatusGet (fun call => call ≠ 0) oneJobQueue oneJobId =
        .produced (some ((LocalDrop.appendJobJson (oneJobQueue.jobs 0)).drop 11)) ∧
      ¬ AllOrNothing (fun realloc => transferStatusGet realloc oneJobQueue oneJobId)
        (fun call => call ≠ 0) ∧
      transferStatusGet (fun _ => false) oneJobQueue oneJobId = .produced none ∧
      transferStatusListJson (fun call => call ≠ 0) oneJobQueue = .fault ∧
      ¬ AllOrNothing (fun realloc => transferStatusListJson realloc oneJobQueue)
        (fun call => call ≠ 0) := by
  have hslot : jobOf oneJobQueue oneJobId = some 0 := by decide +kernel
  have hget := (@job_produced_iff always _ _ _ hslot).mpr (reallocsSucceed_always _)
  have hlist := (@jobList_produced_iff always oneJobQueue).mpr (reallocsSucceed_always _)
  refine ⟨by decide +kernel, ?_, by decide +kernel, by decide +kernel, ?_⟩
  · rw [@allOrNothing_iff_produced (fun realloc =>
      transferStatusGet realloc oneJobQueue oneJobId) _ _ hget (transferStatusGet_not_failed hslot)]
    decide +kernel
  · rw [@allOrNothing_iff_produced (fun realloc =>
      transferStatusListJson realloc oneJobQueue) _ _ hlist jobList_not_failed]
    decide +kernel

end LocalDrop.Allocating
