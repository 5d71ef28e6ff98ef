import LocalDrop.JsonMemory
import LocalDrop.Server

/-! The answers that `server.c` assembles, and the page of `ui.c`, when memory runs out: each is
sent whole or not at all. -/
namespace LocalDrop.Machine
open Lib GrowingBuffer

/-- `MHD_NO`, or the response that is queued. -/
inductive Queued where
  | no
  | reply (reply : Reply)
  | page (body : Bytes)
deriving DecidableEq

/-- The bytes that `strlen` counts; in a block without a NUL byte it does not stop. -/
def strlenBytes (block : Bytes) : Option Bytes :=
  if 0 ∈ block then some (block.takeWhile (· ≠ 0)) else none

/-- `created` tells whether there is memory for a response. -/
def queueJsonPayload (created : Bool) (statusCode : Nat) (payload : Option Bytes) :
    Option Queued :=
  payload.bind fun block =>
    (strlenBytes block).map fun body => if created then .reply (.json statusCode body) else .no

section calls
variable (alloc : Allocator) (created : Bool)

/-- `if (a != 0 || b != 0 || ...)`: the calls up to the first that fails. -/
def jsonCalls : JsonMemory → List JsonCall → Option (JsonMemory × Bool)
  | memory, [] => some (memory, true)
  | memory, call :: rest =>
      checked (jsonCall alloc memory call) fun memory => jsonCalls memory rest

def Allocator.after (asked : Nat) : Allocator := fun call => alloc (asked + call)

def literal (text : String) : JsonCall := .append (some (.lit text))

def escaped (text : CString) : JsonCall := .appendEscaped (some text)

def queueJson (statusCode : Nat) (calls : List JsonCall) : Option Queued :=
  (jsonCalls alloc .null calls).bind fun (memory, appended) =>
    if appended then queueJsonPayload created statusCode memory.block else some .no

def statusMessageCalls (statusText message : CString) : List JsonCall :=
  [literal "\x7b\"status\":\"", escaped statusText, literal "\",\"message\":\"",
    escaped message, literal "\"\x7d"]

def queueJsonStatusMessage (statusCode : Nat) (statusText message : CString) : Option Queued :=
  queueJson alloc created statusCode (statusMessageCalls statusText message)

def sessionResponseCalls (message token : CString) : List JsonCall :=
  [literal "\x7b\"status\":\"ok\",\"message\":\"", escaped message, literal "\",\"token\":\"",
    escaped token, literal "\"\x7d"]

def queueJsonSessionResponse (statusCode : Nat) (message token : CString) : Option Queued :=
  queueJson alloc created statusCode (sessionResponseCalls message token)

def expiresAtCall (expiresAt : Time) : JsonCall :=
  .appendf (some ((CString.lit "\",\"expires_at\":").bytes ++ formatLong expiresAt ++
    (CString.lit "\x7d").bytes))

def pairCodeResponseCalls (code : CString) (expiresAt : Time) : List JsonCall :=
  [literal "\x7b\"status\":\"ok\",\"code\":\"", escaped code, expiresAtCall expiresAt]

def queueJsonPairCodeResponse (code : CString) (expiresAt : Time) : Option Queued :=
  queueJson alloc created 200 (pairCodeResponseCalls code expiresAt)

def pairResponseCalls (message token : CString) (expiresAt : Time) : List JsonCall :=
  [literal "\x7b\"status\":\"ok\",\"message\":\"", escaped message, literal "\",\"token\":\"",
    escaped token, expiresAtCall expiresAt]

def queueJsonPairResponse (message token : CString) (expiresAt : Time) : Option Queued :=
  queueJson alloc created 200 (pairResponseCalls message token expiresAt)

def transferResponseCalls (message jobId : CString) : List JsonCall :=
  [literal "\x7b\"status\":\"ok\",\"message\":\"", escaped message, literal "\",\"job_id\":\"",
    escaped jobId, literal "\"\x7d"]

def queueJsonTransferResponse (message jobId : CString) : Option Queued :=
  queueJson alloc created 200 (transferResponseCalls message jobId)

def peerCalls (peer : PeerInfo) : List JsonCall :=
  [literal "\x7b\"name\":\"", escaped peer.name.str, literal "\",\"ip\":\"", escaped peer.ip.str,
    .appendf (some ((CString.lit "\",\"port\":").bytes ++ decimal peer.port.toNat ++
      (CString.lit ",\"active\":").bytes ++ (jsonBool peer.active).bytes ++
      (CString.lit ",\"paired\":").bytes ++ (jsonBool peer.paired).bytes ++
      (CString.lit ",\"last_seen\":").bytes ++ formatLong peer.lastSeen ++
      (CString.lit "\x7d").bytes))]

def snapshotCalls (registry : PeerRegistry) : List JsonCall :=
  literal "[" :: [literal ","].intercalate (registry.entries.map peerCalls) ++ [literal "]"]

/-- -1, or 0 with the block that `*json_out` then points to. -/
def peerRegistrySnapshotJson (registry : PeerRegistry) : Option (JsonMemory × Bool) :=
  jsonCalls alloc .null (snapshotCalls registry)

def devicesCall (registry : PeerRegistry) : Option Queued :=
  (peerRegistrySnapshotJson alloc registry).bind fun (memory, appended) =>
    if appended then queueJsonPayload created 200 memory.block
    else queueJsonStatusMessage (alloc.after memory.asked) created 500 (.lit "error")
      (.lit "Falha ao serializar os peers descobertos")

/-- One round of the loop over `HTML_LINES`, where the token takes the place of a `NULL`. -/
def lineCalls (uiToken : Option CString) : Option CString → List JsonCall
  | some line => [.append (some line)]
  | none => [literal "\"", escaped (uiToken.getD (.lit "")), literal "\""]

def uiRenderIndexPage (htmlLines : List (Option CString)) (uiToken : Option CString) :
    Option (JsonMemory × Bool) :=
  jsonCalls alloc .null (htmlLines.flatMap (lineCalls uiToken))

def indexCall (htmlLines : List (Option CString)) : Option Queued :=
  (uiRenderIndexPage alloc htmlLines none).bind fun (memory, appended) =>
    match if appended then memory.block else none with
    | none => queueJsonStatusMessage (alloc.after memory.asked) created 500 (.lit "error")
        (.lit "Falha ao renderizar a interface")
    | some block => (strlenBytes block).map fun body => if created then .page body else .no

end calls

def JsonCall.pieces : JsonCall → List Bytes
  | append text => [text.elim [] CString.bytes]
  | appendf formatted => [formatted.getD []]
  | appendEscaped text => text.elim [[]] Allocating.escapedPieces

inductive JsonCall.Proper : JsonCall → Prop
  | append (text : CString) : Proper (.append (some text))
  | appendf (formatted : Bytes) (int : formatted.length < 2 ^ 31) (nulFree : 0 ∉ formatted) :
      Proper (.appendf (some formatted))
  | appendEscaped (text : CString) : Proper (.appendEscaped (some text))

section chain
variable {alloc : Allocator} {memory : JsonMemory} {call : JsonCall} {calls : List JsonCall}

theorem JsonCall.Proper.flatten_pieces (h : call.Proper) : call.pieces.flatten = call.text := by
  cases h with
  | append text => exact List.flatten_singleton
  | appendf formatted => exact List.flatten_singleton
  | appendEscaped text => exact Allocating.flatten_escapedPieces text

theorem JsonCall.Proper.nulFree (h : call.Proper) : 0 ∉ call.text := by
  cases h with
  | append text => exact text.nulFree
  | appendf formatted int nulFree => exact nulFree
  | appendEscaped text => exact jsonEscape_nulFree text

theorem flatten_flatMap_pieces (h : ∀ call ∈ calls, call.Proper) :
    (calls.flatMap JsonCall.pieces).flatten = calls.flatMap JsonCall.text := by
  induction calls with
  | nil => rfl
  | cons call calls ih =>
      rw [List.flatMap_cons, List.flatMap_cons, List.flatten_append,
        (h call (by simp)).flatten_pieces, ih fun other hother => h other (by simp [hother])]

theorem jsonCall_refines (h : memory.Sound) (hproper : call.Proper)
    (hlength : memory.length.toNat + call.text.length + 1 < 2 ^ 63) :
    Refines (jsonCall alloc memory call)
      (memory.buffer.appendAll 256 alloc.succeeds call.pieces) := by
  cases hproper with
  | append text =>
      rw [JsonCall.pieces, appendAll_singleton]
      exact jsonBufferAppend_refines h text hlength
  | appendf formatted int nulFree =>
      rw [JsonCall.pieces, appendAll_singleton]
      exact jsonBufferAppendf_refines h int hlength
  | appendEscaped text => exact jsonBufferAppendEscaped_refines h text hlength

theorem jsonCalls_refines (h : memory.Sound) (hproper : ∀ call ∈ calls, call.Proper)
    (hlength : memory.length.toNat + (calls.flatMap JsonCall.text).length + 1 < 2 ^ 63) :
    Refines (jsonCalls alloc memory calls)
      (memory.buffer.appendAll 256 alloc.succeeds (calls.flatMap JsonCall.pieces)) := by
  induction calls generalizing memory with
  | nil => exact ⟨memory, rfl, h, rfl⟩
  | cons call calls ih =>
      rw [List.flatMap_cons, List.length_append] at hlength
      have hcall := hproper call (by simp)
      rw [jsonCalls, List.flatMap_cons, appendAll_append]
      refine checked_refines (jsonCall_refines h hcall (by omega)) ?_
      intro hsucceeds after hsound hbuffer
      rw [← hbuffer]
      refine ih hsound (fun other hother => hproper other (by simp [hother])) ?_
      have hafter := hsound.length_buffer
      rw [hbuffer, appendAll_content hsucceeds, List.length_append, h.length_buffer,
        hcall.flatten_pieces] at hafter
      omega

theorem strlen_content {block : Bytes} (h : memory.Sound) (hblock : memory.block = some block)
    (hnul : 0 ∉ memory.content) : strlenBytes block = some memory.content := by
  cases h with
  | null none => simp [none] at hblock
  | allocated bytes k some size power room terminated =>
      rw [some, Option.some.injEq] at hblock
      subst hblock
      obtain ⟨hlt, hzero⟩ := List.getElem?_eq_some_iff.mp terminated
      have hcontent : memory.content = bytes.take memory.length.toNat := by
        rw [JsonMemory.content, some, Option.getD_some]
      have hsplit : bytes = memory.content ++ 0 :: bytes.drop (memory.length.toNat + 1) := by
        rw [hcontent, ← hzero, List.getElem_cons_drop, List.take_append_drop]
      rw [strlenBytes, if_pos (hzero ▸ List.getElem_mem hlt)]
      rw [hsplit, List.takeWhile_append_of_pos, List.takeWhile_cons_of_neg (by simp),
        List.append_nil]
      intro b hb
      simpa using fun hb0 : b = 0 => hnul (hb0 ▸ hb)

theorem jsonCalls_text (hne : calls.flatMap JsonCall.pieces ≠ [])
    (hproper : ∀ call ∈ calls, call.Proper)
    (hlength : (calls.flatMap JsonCall.text).length < 2 ^ 62) :
    ∃ after succeeded, jsonCalls alloc .null calls = some (after, succeeded) ∧
      (succeeded = true ↔
        Allocating.ReallocsSucceed alloc.succeeds (calls.flatMap JsonCall.pieces)) ∧
      (succeeded = true → ∃ block, after.block = some block ∧
        strlenBytes block = some (calls.flatMap JsonCall.text)) := by
  have hrefines := @jsonCalls_refines alloc _ calls null_sound hproper (by
    change 0 + _ + 1 < 2 ^ 63
    omega)
  obtain ⟨after, hresult, hsound, hbuffer⟩ := hrefines
  have hnull : JsonMemory.null.buffer = (null : Allocating.JsonBuffer) := rfl
  rw [hnull] at hresult hbuffer
  refine ⟨after, _, hresult, Allocating.reallocsSucceed_iff, fun hsucceeds => ?_⟩
  obtain ⟨piece, pieces, hpieces⟩ := List.exists_cons_of_ne_nil hne
  have htext : after.buffer.text = some (calls.flatMap JsonCall.text) := by
    rw [← flatten_flatMap_pieces hproper, hbuffer]
    rw [hpieces] at hsucceeds ⊢
    exact appendAll_text hsucceeds
  obtain ⟨block, hblock, -⟩ := Option.map_eq_some_iff.mp htext
  have hcontent : after.content = calls.flatMap JsonCall.text := by
    rw [← content_buffer, GrowingBuffer.content, htext, Option.getD_some]
  refine ⟨block, hblock, hcontent ▸ strlen_content hsound hblock ?_⟩
  rw [hcontent, List.mem_flatMap]
  rintro ⟨call, hcall, hzero⟩
  exact (hproper call hcall).nulFree hzero

theorem queueJson_eq {created : Bool} {statusCode : Nat}
    (hne : calls.flatMap JsonCall.pieces ≠ []) (hproper : ∀ call ∈ calls, call.Proper)
    (hlength : (calls.flatMap JsonCall.text).length < 2 ^ 62) :
    ∃ queued, queueJson alloc created statusCode calls = some queued ∧
      (created = true ∧
          Allocating.ReallocsSucceed alloc.succeeds (calls.flatMap JsonCall.pieces) ∧
          queued = .reply (.json statusCode (calls.flatMap JsonCall.text)) ∨
        ¬ (created = true ∧
          Allocating.ReallocsSucceed alloc.succeeds (calls.flatMap JsonCall.pieces)) ∧
          queued = .no) := by
  obtain ⟨after, succeeded, hresult, hiff, hwhole⟩ :=
    @jsonCalls_text alloc calls hne hproper hlength
  rw [queueJson, hresult, Option.bind_some, ← hiff]
  cases succeeded with
  | false => exact ⟨.no, rfl, .inr ⟨by simp, rfl⟩⟩
  | true =>
      obtain ⟨block, hblock, hstrlen⟩ := hwhole rfl
      dsimp only
      rw [if_pos rfl, queueJsonPayload, hblock, Option.bind_some, hstrlen, Option.map_some]
      refine ⟨_, rfl, ?_⟩
      cases created <;> simp

end chain

inductive Answer where
  | statusMessage (statusCode : Nat) (statusText message : CString)
  | session (statusCode : Nat) (message token : CString)
  | pairCode (code : CString) (expiresAt : Time)
  | pair (message token : CString) (expiresAt : Time)
  | transfer (message jobId : CString)
  | devices (registry : PeerRegistry)
  | index (htmlLines : List (Option CString))

namespace Answer

def queue (alloc : Allocator) (created : Bool) : Answer → Option Queued
  | statusMessage statusCode statusText message =>
      queueJsonStatusMessage alloc created statusCode statusText message
  | session statusCode message token =>
      queueJsonSessionResponse alloc created statusCode message token
  | pairCode code expiresAt => queueJsonPairCodeResponse alloc created code expiresAt
  | pair message token expiresAt => queueJsonPairResponse alloc created message token expiresAt
  | transfer message jobId => queueJsonTransferResponse alloc created message jobId
  | devices registry => devicesCall alloc created registry
  | index htmlLines => indexCall alloc created htmlLines

def calls : Answer → List JsonCall
  | statusMessage _ statusText message => statusMessageCalls statusText message
  | session _ message token => sessionResponseCalls message token
  | pairCode code expiresAt => pairCodeResponseCalls code expiresAt
  | pair message token expiresAt => pairResponseCalls message token expiresAt
  | transfer message jobId => transferResponseCalls message jobId
  | devices registry => snapshotCalls registry
  | index htmlLines => htmlLines.flatMap (lineCalls none)

def whole : Answer → Queued
  | statusMessage statusCode statusText message =>
      .reply (LocalDrop.queueJsonStatusMessage statusCode statusText message)
  | session statusCode message token =>
      .reply (LocalDrop.queueJsonSessionResponse statusCode message token)
  | pairCode code expiresAt => .reply (LocalDrop.queueJsonPairCodeResponse code expiresAt)
  | pair message token expiresAt => .reply (.json 200 (pairResponse message token expiresAt))
  | transfer message jobId => .reply (LocalDrop.queueJsonTransferResponse message jobId)
  | devices registry => .reply (.json 200 (LocalDrop.peerRegistrySnapshotJson registry))
  | index htmlLines => .page (htmlLines.flatMap fun line => line.elim [34, 34] CString.bytes)

def failures : Answer → List Queued
  | devices _ => [.no, .reply (errorReply 500 "Falha ao serializar os peers descobertos")]
  | index _ => [.no, .reply (errorReply 500 "Falha ao renderizar a interface")]
  | _ => [.no]

def Valid : Answer → Prop
  | pairCode _ expiresAt | pair _ _ expiresAt => -2 ^ 63 ≤ expiresAt ∧ expiresAt < 2 ^ 63
  | devices registry => ∀ peer ∈ registry.entries, -2 ^ 63 ≤ peer.lastSeen ∧ peer.lastSeen < 2 ^ 63
  | index htmlLines => htmlLines ≠ []
  | _ => True

def text (answer : Answer) : Bytes := answer.calls.flatMap JsonCall.text

def pieces (answer : Answer) : List Bytes := answer.calls.flatMap JsonCall.pieces

def sent (body : Bytes) : Answer → Queued
  | statusMessage statusCode _ _ | session statusCode _ _ => .reply (.json statusCode body)
  | pairCode _ _ | pair _ _ _ | transfer _ _ | devices _ => .reply (.json 200 body)
  | index _ => .page body

end Answer

section answers
variable {alloc : Allocator} {created : Bool}

theorem proper_literal (text : String) : (literal text).Proper := .append _

theorem proper_escaped (text : CString) : (escaped text).Proper := .appendEscaped text

theorem proper_expiresAt {expiresAt : Time} (h : -2 ^ 63 ≤ expiresAt ∧ expiresAt < 2 ^ 63) :
    (expiresAtCall expiresAt).Proper := by
  have hlong := formatLong_length_long h
  refine .appendf _ ?_ ?_
  · have hkey : (CString.lit "\",\"expires_at\":").bytes.length = 15 := by decide
    have hclose : (CString.lit "\x7d").bytes.length = 1 := by decide
    rw [List.length_append, List.length_append, hkey, hclose]
    omega
  · rw [List.mem_append, List.mem_append]
    rintro ((hkey | hvalue) | hclose)
    · exact (CString.lit _).nulFree hkey
    · exact notMem_formatLong expiresAt 0 (by decide) (by decide) hvalue
    · exact (CString.lit _).nulFree hclose

theorem proper_peer {peer : PeerInfo} (h : -2 ^ 63 ≤ peer.lastSeen ∧ peer.lastSeen < 2 ^ 63) :
    ∀ call ∈ peerCalls peer, call.Proper := by
  have hlong := formatLong_length_long h
  have hport : (decimal peer.port.toNat).length ≤ 5 :=
    decimal_length_le (by decide) (lt_trans peer.port.toNat_lt (by decide))
  have hbool : ∀ value, (jsonBool value).bytes.length ≤ 5 := by decide
  simp only [peerCalls, List.forall_mem_cons, List.not_mem_nil, false_implies, implies_true,
    and_true]
  refine ⟨proper_literal _, proper_escaped _, proper_literal _, proper_escaped _, .appendf _ ?_ ?_⟩
  · have hactive := hbool peer.active
    have hpaired := hbool peer.paired
    have hport' : (CString.lit "\",\"port\":").bytes.length = 9 := by decide
    have hactive' : (CString.lit ",\"active\":").bytes.length = 10 := by decide
    have hpaired' : (CString.lit ",\"paired\":").bytes.length = 10 := by decide
    have hseen : (CString.lit ",\"last_seen\":").bytes.length = 13 := by decide
    have hclose : (CString.lit "\x7d").bytes.length = 1 := by decide
    simp only [List.length_append, hport', hactive', hpaired', hseen, hclose]
    omega
  · have hdecimal : (0 : UInt8) ∉ decimal peer.port.toNat := by
      intro hzero
      have hdigit := isDigit_decimal hzero
      contradiction
    have hseen := notMem_formatLong peer.lastSeen 0 (by decide) (by decide)
    simp only [List.mem_append, not_or]
    exact ⟨⟨⟨⟨⟨⟨⟨⟨(CString.lit _).nulFree, hdecimal⟩, (CString.lit _).nulFree⟩,
      (jsonBool peer.active).nulFree⟩, (CString.lit _).nulFree⟩, (jsonBool peer.paired).nulFree⟩,
      (CString.lit _).nulFree⟩, hseen⟩, (CString.lit _).nulFree⟩

theorem snapshot_pieces (registry : PeerRegistry) :
    (snapshotCalls registry).flatMap JsonCall.pieces = Allocating.snapshotPieces registry := by
  have hpeer : (fun peer => (peerCalls peer).flatMap JsonCall.pieces) = Allocating.peerPieces := by
    funext peer
    simp [peerCalls, Allocating.peerPieces, JsonCall.pieces, literal, escaped]
  rw [snapshotCalls, List.flatMap_append, List.flatMap_cons, Json.flatMap_intercalate, List.map_map]
  change _ ++ List.intercalate _ (registry.entries.map fun peer =>
    (peerCalls peer).flatMap JsonCall.pieces) ++ _ = _
  rw [hpeer]
  rfl

theorem proper_line (line : Option CString) : ∀ call ∈ lineCalls none line, call.Proper := by
  cases line with
  | some line => simp [lineCalls, JsonCall.Proper.append]
  | none => simp [lineCalls, proper_literal, proper_escaped]

theorem Answer.proper {answer : Answer} (h : answer.Valid) :
    ∀ call ∈ answer.calls, call.Proper := by
  cases answer with
  | statusMessage statusCode statusText message =>
      simp [calls, statusMessageCalls, proper_literal, proper_escaped]
  | session statusCode message token =>
      simp [calls, sessionResponseCalls, proper_literal, proper_escaped]
  | pairCode code expiresAt =>
      simp [calls, pairCodeResponseCalls, proper_literal, proper_escaped, proper_expiresAt h]
  | pair message token expiresAt =>
      simp [calls, pairResponseCalls, proper_literal, proper_escaped, proper_expiresAt h]
  | transfer message jobId =>
      simp [calls, transferResponseCalls, proper_literal, proper_escaped]
  | devices registry =>
      intro call hcall
      change call ∈ _ ++ _ at hcall
      rw [List.mem_append, List.mem_cons, List.mem_singleton] at hcall
      rcases hcall with (rfl | hpeers) | rfl
      · exact proper_literal _
      · rcases Json.mem_intercalate hpeers with hcomma | ⟨part, hpart, hmem⟩
        · rw [List.mem_singleton.mp hcomma]
          exact proper_literal _
        · obtain ⟨peer, hpeer, rfl⟩ := List.mem_map.mp hpart
          exact proper_peer (h peer hpeer) call hmem
      · exact proper_literal _
  | index htmlLines =>
      intro call hcall
      obtain ⟨line, -, hline⟩ := List.mem_flatMap.mp hcall
      exact proper_line line call hline

theorem Answer.pieces_ne_nil {answer : Answer} (h : answer.Valid) : answer.pieces ≠ [] := by
  cases answer with
  | index htmlLines =>
      obtain ⟨line, lines, rfl⟩ := List.exists_cons_of_ne_nil h
      cases line <;> simp [pieces, calls, lineCalls, JsonCall.pieces, literal]
  | statusMessage | session | pairCode | pair | transfer | devices =>
      exact List.append_ne_nil_of_left_ne_nil (List.cons_ne_nil _ _) _

theorem Answer.whole_eq {answer : Answer} (h : answer.Valid) :
    answer.whole = answer.sent answer.text := by
  cases answer with
  | statusMessage statusCode statusText message =>
      simp [whole, sent, text, calls, LocalDrop.queueJsonStatusMessage, statusMessageCalls, literal,
        escaped, JsonCall.text]
  | session statusCode message token =>
      simp [whole, sent, text, calls, LocalDrop.queueJsonSessionResponse, sessionResponseCalls,
        literal, escaped, JsonCall.text]
  | pairCode code expiresAt =>
      simp [whole, sent, text, calls, LocalDrop.queueJsonPairCodeResponse, pairCodeResponseCalls,
        literal, escaped, expiresAtCall, JsonCall.text]
  | pair message token expiresAt =>
      simp [whole, sent, text, calls, pairResponse, pairResponseCalls, literal, escaped,
        expiresAtCall, JsonCall.text]
  | transfer message jobId =>
      simp [whole, sent, text, calls, LocalDrop.queueJsonTransferResponse, transferResponseCalls,
        literal, escaped, JsonCall.text]
  | devices registry =>
      have hflatten := flatten_flatMap_pieces (Answer.proper h)
      change ((snapshotCalls registry).flatMap JsonCall.pieces).flatten = _ at hflatten
      rw [snapshot_pieces, Allocating.flatten_snapshotPieces] at hflatten
      rw [whole, hflatten]
      rfl
  | index htmlLines =>
      have hlines : ∀ line, (lineCalls none line).flatMap JsonCall.text =
          line.elim [34, 34] CString.bytes := by
        intro line
        cases line with
        | none => decide
        | some line => simp [lineCalls, JsonCall.text]
      simp only [whole, sent, text, calls, List.flatMap_assoc, hlines]

/-- The answer of the model without memory, exactly if no allocation fails that it takes; or
else what is meant for that case. -/
def WholeOrFailed (alloc : Allocator) (created : Bool) (answer : Answer) : Prop :=
  ∃ queued, answer.queue alloc created = some queued ∧
    (queued = answer.whole ∨ queued ∈ answer.failures) ∧
    (queued = answer.whole ↔
      created = true ∧ Allocating.ReallocsSucceed alloc.succeeds answer.pieces)

theorem queueJson_wholeOrFailed {answer : Answer} {statusCode : Nat} (hvalid : answer.Valid)
    (hroom : answer.text.length < 2 ^ 62)
    (hqueue : answer.queue alloc created = queueJson alloc created statusCode answer.calls)
    (hsent : answer.sent answer.text = .reply (.json statusCode answer.text))
    (hfailures : answer.failures = [.no]) : WholeOrFailed alloc created answer := by
  obtain ⟨queued, hqueued, hcases⟩ := @queueJson_eq alloc _ created statusCode
    (Answer.pieces_ne_nil hvalid) (Answer.proper hvalid) hroom
  refine ⟨queued, hqueue.trans hqueued, ?_⟩
  rw [Answer.whole_eq hvalid, hsent, hfailures, List.mem_singleton]
  rcases hcases with ⟨hcreated, hsucceeds, hwhole⟩ | ⟨hnot, hno⟩
  · exact ⟨.inl hwhole, iff_of_true hwhole ⟨hcreated, hsucceeds⟩⟩
  · exact ⟨.inr hno, iff_of_false (by simp [hno]) hnot⟩

theorem statusMessage_sent (alloc : Allocator) (created : Bool) (message : String)
    (hroom : (Answer.statusMessage 500 (.lit "error") (.lit message)).text.length < 2 ^ 62) :
    ∃ queued, queueJsonStatusMessage alloc created 500 (.lit "error") (.lit message) =
        some queued ∧ queued ∈ [.no, .reply (errorReply 500 message)] := by
  obtain ⟨queued, hqueued, hcases, -⟩ := @queueJson_wholeOrFailed alloc created
    (.statusMessage 500 (.lit "error") (.lit message)) 500 trivial hroom rfl rfl rfl
  refine ⟨queued, hqueued, ?_⟩
  rcases hcases with hwhole | hno
  · exact List.mem_cons_of_mem _ (List.mem_singleton.mpr hwhole)
  · exact List.mem_cons.mpr (.inl (List.mem_singleton.mp hno))

theorem devices_wholeOrFailed {registry : PeerRegistry} (hvalid : (Answer.devices registry).Valid)
    (hroom : (Answer.devices registry).text.length < 2 ^ 62) :
    WholeOrFailed alloc created (.devices registry) := by
  obtain ⟨after, succeeded, hresult, hiff, hwhole⟩ := @jsonCalls_text alloc _
    (Answer.pieces_ne_nil hvalid) (Answer.proper hvalid) hroom
  have hcall : (Answer.devices registry).queue alloc created =
      if succeeded then queueJsonPayload created 200 after.block
      else queueJsonStatusMessage (alloc.after after.asked) created 500 (.lit "error")
        (.lit "Falha ao serializar os peers descobertos") := by
    change devicesCall alloc created registry = _
    rw [devicesCall, peerRegistrySnapshotJson]
    exact (congrArg (Option.bind · _) hresult).trans (Option.bind_some _ _)
  unfold WholeOrFailed
  rw [hcall, Answer.pieces, ← hiff, Answer.whole_eq hvalid]
  cases succeeded with
  | true =>
      obtain ⟨block, hblock, hstrlen⟩ := hwhole rfl
      rw [if_pos rfl, queueJsonPayload, hblock, Option.bind_some, hstrlen, Option.map_some]
      refine ⟨_, rfl, ?_⟩
      cases created <;> simp [Answer.sent, Answer.failures, Answer.text]
  | false =>
      obtain ⟨queued, hqueued, hmem⟩ := statusMessage_sent (alloc.after after.asked) created
        "Falha ao serializar os peers descobertos" (by decide +kernel)
      refine ⟨queued, hqueued, .inr hmem, iff_of_false ?_ (by simp)⟩
      rintro rfl
      simp [Answer.sent, errorReply, LocalDrop.queueJsonStatusMessage] at hmem

theorem index_wholeOrFailed {htmlLines : List (Option CString)}
    (hvalid : (Answer.index htmlLines).Valid)
    (hroom : (Answer.index htmlLines).text.length < 2 ^ 62) :
    WholeOrFailed alloc created (.index htmlLines) := by
  obtain ⟨after, succeeded, hresult, hiff, hwhole⟩ := @jsonCalls_text alloc _
    (Answer.pieces_ne_nil hvalid) (Answer.proper hvalid) hroom
  have hcall : (Answer.index htmlLines).queue alloc created =
      match if succeeded then after.block else none with
      | none => queueJsonStatusMessage (alloc.after after.asked) created 500 (.lit "error")
          (.lit "Falha ao renderizar a interface")
      | some block => (strlenBytes block).map fun body => if created then .page body else .no := by
    change indexCall alloc created htmlLines = _
    rw [indexCall, uiRenderIndexPage]
    exact (congrArg (Option.bind · _) hresult).trans (Option.bind_some _ _)
  unfold WholeOrFailed
  rw [hcall, Answer.pieces, ← hiff, Answer.whole_eq hvalid]
  cases succeeded with
  | true =>
      obtain ⟨block, hblock, hstrlen⟩ := hwhole rfl
      rw [if_pos rfl, hblock]
      dsimp only
      rw [hstrlen, Option.map_some]
      refine ⟨_, rfl, ?_⟩
      cases created <;> simp [Answer.sent, Answer.failures, Answer.text]
  | false =>
      obtain ⟨queued, hqueued, hmem⟩ := statusMessage_sent (alloc.after after.asked) created
        "Falha ao renderizar a interface" (by decide +kernel)
      refine ⟨queued, hqueued, .inr hmem, iff_of_false ?_ (by simp)⟩
      rintro rfl
      simp [Answer.sent] at hmem

/-- Whatever allocations fail, no answer faults. -/
theorem answers_wholeOrFailed (alloc : Allocator) (created : Bool) (answer : Answer)
    (hvalid : answer.Valid) (hroom : answer.text.length < 2 ^ 62) :
    WholeOrFailed alloc created answer := by
  cases answer with
  | statusMessage | session | pairCode | pair | transfer =>
      exact queueJson_wholeOrFailed hvalid hroom rfl rfl rfl
  | devices registry => exact devices_wholeOrFailed hvalid hroom
  | index htmlLines => exact index_wholeOrFailed hvalid hroom

end answers

def onePeerRegistry : PeerRegistry :=
  ⟨[⟨copyString (.lit "peer"), copyString (.lit "10.0.0.9"), 8080, true, false, 1000⟩], by decide⟩

/-- The list of peers finds no memory, the message about it does. -/
theorem onePeer_failed : (Answer.devices onePeerRegistry).queue failingFirst true =
      some (.reply (errorReply 500 "Falha ao serializar os peers descobertos")) ∧
    WholeOrFailed failingFirst true (.devices onePeerRegistry) :=
  ⟨by decide +kernel,
    answers_wholeOrFailed failingFirst true (.devices onePeerRegistry)
      (by simp [Answer.Valid, onePeerRegistry]) (by decide +kernel)⟩

end LocalDrop.Machine
