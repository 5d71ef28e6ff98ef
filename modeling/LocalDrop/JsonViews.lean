import LocalDrop.Lib.Json
import LocalDrop.PeerRegistry
import LocalDrop.TransferQueue
import Mathlib.Data.List.Induction

/-! What a client reads in the two lists the server sends: the peers of
`peer_registry_snapshot_json` and the jobs of `transfer_status_list_json`. -/
namespace LocalDrop
open Lib

theorem hexValue_hexDigit (value : Nat) : Json.hexValue (hexDigit value) = some (value % 16) := by
  have hmod : value % 16 < 16 := Nat.mod_lt _ (by decide)
  have hnat := hexDigit_toNat value
  unfold Json.hexValue
  split at hnat
  · rename_i hdigit
    have hisDigit : isDigit (hexDigit value) = true := by
      simp only [isDigit, UInt8.le_iff_toNat_le, hnat, Bool.and_eq_true, decide_eq_true_eq]
      change 48 ≤ 48 + value % 16 ∧ 48 + value % 16 ≤ 57
      omega
    rw [if_pos hisDigit, hnat]
    apply congrArg some
    omega
  · rename_i hletter
    have hisDigit : ¬ isDigit (hexDigit value) = true := by
      simp only [isDigit, UInt8.le_iff_toNat_le, hnat, Bool.and_eq_true, decide_eq_true_eq]
      change ¬ (48 ≤ 87 + value % 16 ∧ 87 + value % 16 ≤ 57)
      omega
    rw [if_neg hisDigit, hnat, if_pos (by omega)]
    apply congrArg some
    omega

theorem readString_control {b : UInt8} (h : b < 32) (rest : Bytes) :
    Json.readString (92 :: 117 :: 48 :: 48 :: hexDigit (b.toNat / 16) :: hexDigit b.toNat ::
        rest) =
      (Json.readString rest).map fun (text, rest) => (b :: text, rest) := by
  have hlt : b.toNat < 32 := by simpa [UInt8.lt_iff_toNat_lt] using h
  have hzero : Json.hexValue 48 = some 0 := by decide
  have hunit : Json.codeUnit 48 48 (hexDigit (b.toNat / 16)) (hexDigit b.toNat) =
      some b.toNat := by
    simp only [Json.codeUnit, hzero, hexValue_hexDigit, Option.bind_eq_bind, Option.bind_some,
      Option.pure_def, Option.some.injEq]
    omega
  have hutf8 : Json.utf8 b.toNat = [b] := by
    rw [Json.utf8, if_pos (by omega), UInt8.ofNat_toNat]
  rw [Json.readString_codeUnit hunit (by omega), hutf8]
  rfl

theorem readString_jsonEscapeByte (b : UInt8) (rest : Bytes) :
    Json.readString (jsonEscapeByte b ++ rest) =
      (Json.readString rest).map fun (text, rest) => (b :: text, rest) := by
  have hsimple : ∀ {escape c : UInt8}, Json.simpleEscape escape = some c → b = c →
      Json.readString (92 :: escape :: rest) =
        (Json.readString rest).map fun (text, rest) => (b :: text, rest) := by
    intro escape c hescape hc
    rw [hc]
    exact Json.readString_simpleEscape hescape rest
  unfold jsonEscapeByte
  by_cases h92 : b = 92
  · rw [if_pos h92]
    exact hsimple (by decide) h92
  by_cases h34 : b = 34
  · rw [if_neg h92, if_pos h34]
    exact hsimple (by decide) h34
  rw [if_neg h92, if_neg h34]
  repeat' split
  · apply hsimple (by decide) ‹b = 8›
  · apply hsimple (by decide) ‹b = 12›
  · apply hsimple (by decide) ‹b = 10›
  · apply hsimple (by decide) ‹b = 13›
  · apply hsimple (by decide) ‹b = 9›
  · rename_i hcontrol
    exact readString_control hcontrol rest
  · rename_i hcontrol
    exact Json.readString_plain h34 h92 hcontrol rest

theorem readString_jsonEscape (text : CString) (rest : Bytes) :
    Json.readString (jsonEscape text ++ 34 :: rest) = some (text.bytes, rest) := by
  obtain ⟨bytes, hnul⟩ := text
  simp only [jsonEscape]
  clear hnul
  induction bytes with
  | nil => rfl
  | cons b bytes ih =>
      rw [List.flatMap_cons, List.append_assoc, readString_jsonEscapeByte, ih]
      rfl

def peerValue (peer : PeerInfo) : Json :=
  .obj [
    ((CString.lit "name").bytes, .str peer.name.str.bytes),
    ((CString.lit "ip").bytes, .str peer.ip.str.bytes),
    ((CString.lit "port").bytes, .num peer.port.toNat 0),
    ((CString.lit "active").bytes, .bool peer.active),
    ((CString.lit "paired").bytes, .bool peer.paired),
    ((CString.lit "last_seen").bytes, .num peer.lastSeen 0)]

/-- The word a client reads for a status. -/
def statusText : TransferJobStatus → Bytes
  | .unused => (CString.lit "unused").bytes
  | .queued => (CString.lit "queued").bytes
  | .inProgress => (CString.lit "in_progress").bytes
  | .completed => (CString.lit "completed").bytes
  | .failed => (CString.lit "failed").bytes

theorem transferStatusName_bytes (status : TransferJobStatus) :
    (transferStatusName status).bytes = statusText status := by
  cases status <;> rfl

def jobValue (job : TransferJob) : Json :=
  .obj [
    ((CString.lit "job_id").bytes, .str job.jobId.str.bytes),
    ((CString.lit "status").bytes, .str (statusText job.status)),
    ((CString.lit "target_ip").bytes, .str job.targetIp.str.bytes),
    ((CString.lit "target_port").bytes, .num job.targetPort.toNat 0),
    ((CString.lit "bytes_sent").bytes, .num job.bytesSent 0),
    ((CString.lit "total_bytes").bytes, .num job.totalBytes 0),
    ((CString.lit "created_at").bytes, .num job.createdAt 0),
    ((CString.lit "updated_at").bytes, .num job.updatedAt 0),
    ((CString.lit "error_message").bytes, .str job.errorMessage.str.bytes)]

theorem peerJson_eq (peer : PeerInfo) :
    peerJson peer = Json.objectText [
      ((CString.lit "name").bytes, Json.quoted (jsonEscape peer.name.str)),
      ((CString.lit "ip").bytes, Json.quoted (jsonEscape peer.ip.str)),
      ((CString.lit "port").bytes, decimal peer.port.toNat),
      ((CString.lit "active").bytes, (jsonBool peer.active).bytes),
      ((CString.lit "paired").bytes, (jsonBool peer.paired).bytes),
      ((CString.lit "last_seen").bytes, formatLong peer.lastSeen)] := by
  unfold peerJson
  simp only [Json.objectText, Json.quoted, List.map_cons, List.map_nil,
    List.intercalate_cons_cons, List.intercalate_singleton, List.append_assoc, List.cons_append,
    List.nil_append]
  rfl

theorem appendJobJson_eq (job : TransferJob) :
    appendJobJson job = Json.objectText [
      ((CString.lit "job_id").bytes, Json.quoted (jsonEscape job.jobId.str)),
      ((CString.lit "status").bytes, Json.quoted (jsonEscape (transferStatusName job.status))),
      ((CString.lit "target_ip").bytes, Json.quoted (jsonEscape job.targetIp.str)),
      ((CString.lit "target_port").bytes, decimal job.targetPort.toNat),
      ((CString.lit "bytes_sent").bytes, decimal job.bytesSent),
      ((CString.lit "total_bytes").bytes, decimal job.totalBytes),
      ((CString.lit "created_at").bytes, formatLong job.createdAt),
      ((CString.lit "updated_at").bytes, formatLong job.updatedAt),
      ((CString.lit "error_message").bytes, Json.quoted (jsonEscape job.errorMessage.str))] := by
  unfold appendJobJson
  simp only [Json.objectText, Json.quoted, List.map_cons, List.map_nil,
    List.intercalate_cons_cons, List.intercalate_singleton, List.append_assoc, List.cons_append,
    List.nil_append]
  rfl

section reads
variable {fuel : Nat}

theorem reads_jsonEscape (text : CString) :
    Json.Reads (Json.readValue (fuel + 1)) (Json.quoted (jsonEscape text)) (.str text.bytes) :=
  Json.reads_quoted (readString_jsonEscape text)

theorem reads_jsonBool (value : Bool) :
    Json.Reads (Json.readValue (fuel + 1)) (jsonBool value).bytes (.bool value) := by
  have hread := @Json.reads_bool fuel value
  cases value
  · exact hread
  · exact hread

theorem reads_peerJson (peer : PeerInfo) :
    Json.Reads (Json.readValue (fuel + 1 + 1)) (peerJson peer) (peerValue peer) := by
  rw [peerJson_eq]
  apply Json.reads_object
  refine .cons ⟨?_, reads_jsonEscape _⟩ (.cons ⟨?_, reads_jsonEscape _⟩ (.cons
    ⟨?_, Json.reads_natural _⟩ (.cons ⟨?_, reads_jsonBool _⟩ (.cons ⟨?_, reads_jsonBool _⟩ (.cons
    ⟨?_, Json.reads_integer _⟩ .nil)))))
  all_goals
    dsimp only
    apply Json.readString_verbatim
    decide +kernel

theorem reads_appendJobJson (job : TransferJob) :
    Json.Reads (Json.readValue (fuel + 1 + 1)) (appendJobJson job) (jobValue job) := by
  rw [appendJobJson_eq, jobValue, ← transferStatusName_bytes]
  apply Json.reads_object
  refine .cons ⟨?_, reads_jsonEscape _⟩ (.cons ⟨?_, reads_jsonEscape _⟩ (.cons
    ⟨?_, reads_jsonEscape _⟩ (.cons ⟨?_, Json.reads_natural _⟩ (.cons ⟨?_, Json.reads_natural _⟩
    (.cons ⟨?_, Json.reads_natural _⟩ (.cons ⟨?_, Json.reads_integer _⟩ (.cons
    ⟨?_, Json.reads_integer _⟩ (.cons ⟨?_, reads_jsonEscape _⟩ .nil))))))))
  all_goals
    dsimp only
    apply Json.readString_verbatim
    decide +kernel

end reads

def inUseSlots (queue : TransferQueue) : List Slot :=
  (List.finRange maxTransferJobs).filter fun slot => (queue.jobs slot).inUse

theorem appendJobJson_getLast (job : TransferJob) :
    (appendJobJson job).getLast? = some 125 := by
  have hclose : (CString.lit "\"\x7d").bytes = [34] ++ [125] := by decide
  unfold appendJobJson
  rw [hclose, ← List.append_assoc, List.getLast?_concat]

theorem getLast_opened {texts : List Bytes} (hne : texts ≠ [])
    (h : ∀ text ∈ texts, text.getLast? = some 125) :
    (91 :: [44].intercalate texts).getLast? = some 125 := by
  rw [List.getLast?_cons, Json.getLast_intercalate hne h]
  rfl

theorem foldl_separated {texts : List Bytes} (h : ∀ text ∈ texts, text.getLast? = some 125) :
    texts.foldl
        (fun payload text =>
          (if payload.getLast? ≠ some 91 then payload ++ [44] else payload) ++ text)
        [91] =
      91 :: [44].intercalate texts := by
  induction texts using List.reverseRecOn with
  | nil => rfl
  | append_singleton texts text ih =>
      rw [List.foldl_concat, ih fun other hother => h other (by simp [hother])]
      by_cases hempty : texts = []
      · simp [hempty]
      · have hlast := getLast_opened hempty fun other hother => h other (by simp [hother])
        rw [if_pos (by simp [hlast]), Json.intercalate_concat hempty]
        simp

theorem transferStatusListJson_eq (queue : TransferQueue) :
    transferStatusListJson queue =
      Json.arrayText ((inUseSlots queue).map fun slot => appendJobJson (queue.jobs slot)) := by
  have hclosed : ∀ text ∈ (inUseSlots queue).map fun slot => appendJobJson (queue.jobs slot),
      text.getLast? = some 125 := by
    intro text htext
    obtain ⟨slot, -, rfl⟩ := List.mem_map.mp htext
    exact appendJobJson_getLast _
  have hfold := foldl_separated hclosed
  rw [List.foldl_map, inUseSlots, List.foldl_filter] at hfold
  rw [transferStatusListJson, hfold]
  rfl

theorem parse_arrayText {items : List α} {text : α → Bytes} {value : α → Json}
    (h : ∀ fuel item, Json.Reads (Json.readValue (fuel + 1 + 1)) (text item) (value item)) :
    Json.parse (Json.arrayText (items.map text)) = some (.arr (items.map value)) := by
  have hlength : ∃ fuel, (Json.arrayText (items.map text)).length + 1 = fuel + 1 + 1 + 1 :=
    ⟨([44].intercalate (items.map text)).length, by simp [Json.arrayText]⟩
  obtain ⟨fuel, hfuel⟩ := hlength
  apply Json.parse_of_reads hfuel
  apply Json.reads_array
  rw [List.forall₂_map_left_iff, List.forall₂_map_right_iff, List.forall₂_same]
  intro item _
  exact h fuel item

theorem parse_peerRegistrySnapshotJson (registry : PeerRegistry) :
    Json.parse (peerRegistrySnapshotJson registry) =
      some (.arr (registry.entries.map peerValue)) :=
  parse_arrayText fun _ => reads_peerJson

theorem parse_transferStatusListJson (queue : TransferQueue) :
    Json.parse (transferStatusListJson queue) =
      some (.arr ((inUseSlots queue).map fun slot => jobValue (queue.jobs slot))) := by
  rw [transferStatusListJson_eq]
  exact parse_arrayText fun _ slot => reads_appendJobJson (queue.jobs slot)

theorem parse_appendJobJson (job : TransferJob) :
    Json.parse (appendJobJson job) = some (jobValue job) := by
  have hlength : ∃ fuel, (appendJobJson job).length + 1 = fuel + 1 + 1 := by
    rw [appendJobJson_eq, Json.objectText]
    exact ⟨_, by rw [List.length_cons]⟩
  obtain ⟨fuel, hfuel⟩ := hlength
  exact Json.parse_of_reads hfuel (reads_appendJobJson job)

def statusField (document : Bytes) : Option Bytes :=
  (Json.parse document).bind (Json.textAt (CString.lit "status").bytes)

theorem statusField_appendJobJson (job : TransferJob) :
    statusField (appendJobJson job) = some (statusText job.status) := by
  rw [statusField, parse_appendJobJson, Option.bind_some]
  rfl

def UniqueId (queue : TransferQueue) (slot : Slot) : Prop :=
  ∀ other, (queue.jobs other).inUse = true →
    (queue.jobs other).jobId.str = (queue.jobs slot).jobId.str → other = slot

theorem transferStatusGet_of_uniqueId {queue : TransferQueue} {slot : Slot}
    (huse : (queue.jobs slot).inUse = true) (hunique : UniqueId queue slot) :
    transferStatusGet queue (queue.jobs slot).jobId.str =
      some (appendJobJson (queue.jobs slot)) := by
  unfold transferStatusGet
  cases hfind : (List.finRange maxTransferJobs).find? fun other =>
      (queue.jobs other).inUse && (queue.jobs other).jobId.str = (queue.jobs slot).jobId.str with
  | none =>
      have hnone := List.find?_eq_none.mp hfind slot (List.mem_finRange slot)
      simp [huse] at hnone
  | some other =>
      have hother := List.find?_some hfind
      simp only [Bool.and_eq_true, decide_eq_true_eq] at hother
      rw [hunique other hother.1 hother.2]
      rfl

/-- Both lists say what is stored, entry by entry, and a job that is asked for by its id is
described by its own piece of the list. -/
theorem jsonViews_faithful (registry : PeerRegistry) (queue : TransferQueue) :
    Json.parse (peerRegistrySnapshotJson registry) =
        some (.arr (registry.entries.map peerValue)) ∧
      Json.parse (transferStatusListJson queue) =
        some (.arr ((inUseSlots queue).map fun slot => jobValue (queue.jobs slot))) ∧
      ∃ elements, transferStatusListJson queue = Json.arrayText elements ∧
        List.Forall₂ (fun slot element =>
          Json.parse element = some (jobValue (queue.jobs slot)) ∧
            (UniqueId queue slot →
              transferStatusGet queue (queue.jobs slot).jobId.str = some element))
          (inUseSlots queue) elements := by
  refine ⟨parse_peerRegistrySnapshotJson registry, parse_transferStatusListJson queue, _,
    transferStatusListJson_eq queue, ?_⟩
  rw [List.forall₂_map_right_iff, List.forall₂_same]
  intro slot hslot
  have huse : (queue.jobs slot).inUse = true := by
    simpa [inUseSlots] using hslot
  exact ⟨parse_appendJobJson _, fun hunique => transferStatusGet_of_uniqueId huse hunique⟩

/-- One failed job, with a quote and a line end in its error message. -/
def failedJobQueue : TransferQueue :=
  { transferQueueInit with
    jobs := fun slot =>
      if slot = 3 then
        { (default : TransferJob) with
          inUse := true
          jobId := copyString (.lit "a1")
          status := .failed
          errorMessage := copyString (.lit "refused: \"busy\"\n") }
      else default }

theorem failedJob_listed :
    ∃ element, transferStatusListJson failedJobQueue = 91 :: (element ++ [93]) ∧
      transferStatusGet failedJobQueue (.lit "a1") = some element ∧
      statusField element = some (CString.lit "failed").bytes := by
  have hslots : inUseSlots failedJobQueue = [3] := by decide +kernel
  have hid : (failedJobQueue.jobs 3).jobId.str = .lit "a1" := by decide +kernel
  have hunique : UniqueId failedJobQueue 3 := by
    intro other huse _
    have hmem : other ∈ inUseSlots failedJobQueue := by
      simpa [inUseSlots] using huse
    rw [hslots] at hmem
    exact List.mem_singleton.mp hmem
  obtain ⟨-, -, elements, htext, helements⟩ := jsonViews_faithful ⟨[], by decide⟩ failedJobQueue
  rw [hslots] at helements
  obtain ⟨element, _, ⟨hparse, hget⟩, hnil, rfl⟩ := List.forall₂_cons_left_iff.mp helements
  cases List.forall₂_nil_left_iff.mp hnil
  rw [hid] at hget
  have hstatus : statusField element = some (CString.lit "failed").bytes := by
    rw [statusField, hparse]
    rfl
  exact ⟨element, by simpa [Json.arrayText] using htext, hget hunique, hstatus⟩

end LocalDrop
