import LocalDrop.Fields
import LocalDrop.Lib.Http
import LocalDrop.Process

/-! The two requests one node makes to another, as `transfer.c` hands them to libcurl: the file
that the worker sends and the form that asks for a pairing. The other node reads back what was
meant. -/
namespace LocalDrop
open Lib

instance neZero128 : NeZero 128 := ⟨by decide⟩

def validateDestinationIp (destIp : CString) : Bool :=
  destIp ≠ CString.empty && (inetPton4 destIp.bytes || inetPton6 destIp.bytes)

/-- A part of a `curl_mime` form: text, or the contents of a file. -/
inductive MimePart where
  | text (name value : CString)
  | file (name path : CString)
deriving DecidableEq

structure CurlRequest where
  url : CString
  header : Option CString
  parts : List MimePart
deriving DecidableEq

/-- What the calls in front of `curl_easy_perform` answer. -/
structure CurlEnv where
  ready : Bool
  opened : Bool
  prepared : Bool
  listed : Bool

/-- `snprintf(url, sizeof(url), ...)` with a 512-byte array. -/
def peerUrl (destIp : CString) (destPort : UInt16) (path : String) : Chars 512 :=
  if 58 ∈ destIp.bytes then
    copyString (.lit "http://[" ++ destIp ++ .lit "]:" ++ CString.ofLong destPort.toNat ++
      .lit path)
  else
    copyString (.lit "http://" ++ destIp ++ .lit ":" ++ CString.ofLong destPort.toNat ++ .lit path)

def pairTokenHeader : CString := .lit "X-LocalDrop-Pair-Token"

/-- The header of a send; nothing is sent when the token is empty or the list cannot be built. -/
def pairTokenLine (env : CurlEnv) (pairToken : CString) : Option CString :=
  if pairToken ≠ CString.empty ∧ env.listed then
    some (copyString (pairTokenHeader ++ .lit ": " ++ pairToken) : Chars 128).str
  else none

/-- `transfer_send_file` up to `curl_easy_perform`. -/
def sendRequest (env : CurlEnv) (request : TransferRequest) : Option CurlRequest :=
  if !env.ready || !validateDestinationIp request.targetIp then none
  else if !env.opened || !env.prepared then none
  else
    some {
      url := (peerUrl request.targetIp request.targetPort "/upload").str
      header := pairTokenLine env request.pairToken
      parts := [.file (.lit "file") request.filepath] }

def transferSendFile (transport : PairTransport) : Bool :=
  match transport with
  | .replied status _ => 200 ≤ status && status < 300
  | _ => false

/-- `transfer_pair_peer` up to `curl_easy_perform`; the results of building the form are
not looked at. -/
def pairRequest (env : CurlEnv) (destIp : CString) (destPort : UInt16)
    (peerName : Option CString) (peerPort : UInt16) (pairCode : CString) : Option CurlRequest :=
  if !env.ready || !validateDestinationIp destIp then none
  else if !env.prepared then none
  else
    some {
      url := (peerUrl destIp destPort "/api/pair/exchange").str
      header := none
      parts := [.text (.lit "pair_code") pairCode,
        .text (.lit "peer_name") (peerName.getD (.lit "localdrop-peer")),
        .text (.lit "peer_port") (CString.ofLong peerPort.toNat)] }

/-- `progress_func`: what the callback is told, if it is called. -/
def progressFunc (totalToUpload uploaded : Int) : Option (Nat × Nat) :=
  if 0 < totalToUpload ∧ 0 ≤ uploaded then some (uploaded.toNat, totalToUpload.toNat) else none

/-- `write_response`: what is in the buffer afterwards, and how many bytes were taken. -/
def writeResponse (resized : Bool) (buffer : Option Bytes) (contents : Bytes) :
    Option Bytes × Nat :=
  if contents = [] ∨ resized = false then (buffer, 0)
  else (some (buffer.getD [] ++ contents), contents.length)

/-- libcurl hands over the body piece by piece and gives up when one is not taken. -/
def receiveResponse : Option Bytes → List (Bool × Bytes) → Option (Option Bytes)
  | buffer, [] => some buffer
  | buffer, (resized, contents) :: rest =>
      let (buffer', taken) := writeResponse resized buffer contents
      if taken = contents.length then receiveResponse buffer' rest else none

def performed (status : Int) (pieces : List (Bool × Bytes)) (error : CString) : PairTransport :=
  match receiveResponse none pieces with
  | none => .failed error
  | some body => .replied status body

/-- What the nodes rely on between the call of libcurl at one of them and the callback of
libmicrohttpd at the other: a numeric address leads to whoever listens there, however it is
spelled, and a header of visible characters is found as it was written. -/
structure Transport where
  same : CString → CString → Bool
  same_self : ∀ ip, same ip ip = true
  /-- The path that is asked for at the node with this address and port, if the URL leads there. -/
  reaches : CString → CString → UInt16 → Option CString
  reaches_iff : ∀ {url destIp path ip target : CString} {destPort port : UInt16},
    validateDestinationIp destIp = true → HttpUrl.isPlainPath path.bytes = true →
    url.bytes = HttpUrl.text ⟨destIp.bytes, destPort.toNat, path.bytes⟩ →
      (reaches url ip port = some target ↔
        (same destIp ip = true ∧ destPort = port) ∧ port ≠ 0 ∧ target = path)
  headers : Option CString → Headers
  headers_none : headers none = ⟨none, none⟩
  headers_line : ∀ token line : CString, isHeaderText token.bytes = true →
    line.bytes = headerLine pairTokenHeader.bytes token.bytes →
      headers (some line) = ⟨none, some token⟩

/-- How two nodes reach each other: where the called one listens, and the caller's address as
that one sees it. -/
structure Link where
  ip : CString
  port : UInt16
  clientIp : Chars 46
  transport : Transport

/-- The address and the port are those of the called node. -/
def Link.LeadsTo (link : Link) (destIp : CString) (destPort : UInt16) : Prop :=
  link.transport.same destIp link.ip = true ∧ destPort = link.port

instance (link : Link) (destIp : CString) (destPort : UInt16) :
    Decidable (link.LeadsTo destIp destPort) :=
  inferInstanceAs (Decidable (_ ∧ _))

theorem Link.leadsTo_self (link : Link) : link.LeadsTo link.ip link.port :=
  ⟨link.transport.same_self _, rfl⟩

/-- How a request arrives at the other end of the link, if it leads there. With
`CURLOPT_MIMEPOST` it is a POST. -/
def arrival (link : Link) (call : CurlRequest) : Option Event :=
  (link.transport.reaches call.url link.ip link.port).map fun path =>
    .accept path (.lit "POST") link.clientIp (link.transport.headers call.header)

def MimePart.ArrivesAs (mime : MimePart) (part : Part) : Prop :=
  match mime with
  | .text name value => part.key = name ∧ part.filename = none ∧ part.content = value.bytes
  | .file _ _ => False

instance (mime : MimePart) (part : Part) : Decidable (mime.ArrivesAs part) := by
  unfold MimePart.ArrivesAs
  split <;> infer_instance

theorem validateDestinationIp_eq (destIp : CString) :
    validateDestinationIp destIp = validateIpAddress destIp := rfl

theorem validateIpAddress_bytes {value : CString} (h : validateIpAddress value = true) {b : UInt8}
    (hb : b ∈ value.bytes) : isAddressByte b = true := by
  simp only [validateIpAddress, Bool.and_eq_true, Bool.or_eq_true] at h
  rcases h.2 with h4 | h6
  · exact isAddressByte_of_inetPton4 h4 hb
  · exact inetPton6_bytes h6 hb

theorem not_bracket_of_addressByte {b : UInt8} (h : isAddressByte b = true) : b ≠ 91 ∧ b ≠ 93 := by
  constructor <;> rintro rfl <;> exact absurd h (by decide)

theorem ofLong_port (port : UInt16) : (CString.ofLong port.toNat).bytes = decimal port.toNat := by
  have hlong : (CString.ofLong port.toNat).bytes = formatLong port.toNat := rfl
  rw [hlong, formatLong, if_neg (by omega)]
  rfl

theorem decimal_port_length (port : UInt16) : (decimal port.toNat).length ≤ 5 :=
  decimal_length_le (by decide) (lt_trans port.toNat_lt (by decide))

theorem peerUrl_bytes {destIp : CString} (hip : destIp.length < 46) (destPort : UInt16)
    {path : String} (hpath : (CString.lit path).length ≤ 64) :
    (peerUrl destIp destPort path).str.bytes =
      HttpUrl.text ⟨destIp.bytes, destPort.toNat, (CString.lit path).bytes⟩ := by
  have hport := decimal_port_length destPort
  have hopen : (CString.lit "http://[").bytes = HttpUrl.scheme ++ [91] := by decide +kernel
  have hclose : (CString.lit "]:").bytes = [93, 58] := by decide +kernel
  have hplain : (CString.lit "http://").bytes = HttpUrl.scheme := rfl
  have hcolon : (CString.lit ":").bytes = [58] := by decide +kernel
  have hscheme : HttpUrl.scheme.length = 7 := by decide +kernel
  unfold CString.length at hip hpath
  unfold peerUrl HttpUrl.text
  split
  · rw [copyString_str_of_lt]
    · simp only [CString.append_bytes, ofLong_port, hopen, hclose, List.append_assoc,
        List.cons_append, List.nil_append]
    · simp only [CString.length, CString.append_bytes, ofLong_port, hopen, hclose,
        List.length_append, List.length_cons, List.length_nil]
      omega
  · rw [copyString_str_of_lt]
    · simp only [CString.append_bytes, ofLong_port, hplain, hcolon, List.append_assoc,
        List.cons_append, List.nil_append]
    · simp only [CString.length, CString.append_bytes, ofLong_port, hplain, hcolon,
        List.length_append, List.length_cons, List.length_nil]
      omega

theorem isHeaderText_of_isPairToken {token : CString} (h : IsPairToken token) :
    isHeaderText token.bytes = true := by
  obtain ⟨hlength, hdigits⟩ := h
  have hne : token.bytes ≠ [] := by
    intro hnil
    simp [CString.length, hnil] at hlength
  simp only [isHeaderText, Bool.and_eq_true, decide_eq_true_eq, List.all_eq_true]
  refine ⟨hne, fun b hb => ?_⟩
  obtain ⟨value, rfl⟩ := hdigits b hb
  have hdigit := hexDigit_toNat value
  rw [UInt8.le_iff_toNat_le, UInt8.le_iff_toNat_le, hdigit]
  constructor <;> split <;> simp <;> omega

theorem pairTokenLine_bytes {env : CurlEnv} {token line : CString} (htoken : IsPairToken token)
    (h : pairTokenLine env token = some line) :
    line.bytes = headerLine pairTokenHeader.bytes token.bytes := by
  have hname : pairTokenHeader.length = 22 := by decide +kernel
  have hcolon : (CString.lit ": ").bytes = [58, 32] := by decide +kernel
  have hlength := htoken.1
  unfold pairTokenLine at h
  split at h
  · cases Option.some.inj h
    rw [copyString_str_of_lt]
    · simp only [CString.append_bytes, hcolon, List.append_assoc, List.cons_append,
        List.nil_append]
      rfl
    · unfold CString.length at hlength hname
      simp only [CString.length, CString.append_bytes, hcolon, List.length_append,
        List.length_cons, List.length_nil]
      omega
  · contradiction

theorem parsePort_ofLong {port : UInt16} (h : port ≠ 0) :
    parsePort (CString.ofLong port.toNat) = some port := by
  rw [parsePort_eq_some_iff]
  refine ⟨⟨[], [], decimal port.toNat, ?_, by simp, .inl rfl, decimal_ne_nil _,
    fun b hb => isDigit_decimal hb, digitsValue_decimal _⟩, ?_⟩
  · rw [ofLong_port]
    rfl
  · rw [Nat.pos_iff_ne_zero]
    intro hzero
    exact h (UInt16.toNat_inj.mp hzero)

theorem ofBuffer_bytes (text : CString) : CString.ofBuffer text.bytes = text :=
  CString.ofBuffer_of_nulFree text.bytes text.nulFree

/-- A request to an endpoint arrives at the node that listens there, and nowhere else. -/
theorem arrival_eq_some_iff {link : Link} {call : CurlRequest} {destIp : CString}
    {destPort : UInt16} {path : String} (hip : validateIpAddress destIp = true)
    (hurl : call.url = (peerUrl destIp destPort path).str)
    (hfits : (CString.lit path).length ≤ 64)
    (hplain : HttpUrl.isPlainPath (CString.lit path).bytes = true) {event : Event} :
    arrival link call = some event ↔
      link.LeadsTo destIp destPort ∧ link.port ≠ 0 ∧
        event = .accept (.lit path) (.lit "POST") link.clientIp
          (link.transport.headers call.header) := by
  have hbytes := peerUrl_bytes (validateIpAddress_length hip) destPort hfits
  unfold arrival
  rw [hurl, Option.map_eq_some_iff]
  constructor
  · rintro ⟨target, hreaches, rfl⟩
    obtain ⟨hleads, hport, rfl⟩ := (link.transport.reaches_iff hip hplain hbytes).mp hreaches
    exact ⟨hleads, hport, rfl⟩
  · rintro ⟨hleads, hport, rfl⟩
    exact ⟨_, (link.transport.reaches_iff hip hplain hbytes).mpr ⟨hleads, hport, rfl⟩, rfl⟩

theorem sendRequest_eq_some {env : CurlEnv} {request : TransferRequest} {call : CurlRequest}
    (h : sendRequest env request = some call) : validateIpAddress request.targetIp = true ∧
      call = ⟨(peerUrl request.targetIp request.targetPort "/upload").str,
        pairTokenLine env request.pairToken, [.file (.lit "file") request.filepath]⟩ := by
  unfold sendRequest at h
  split at h
  · contradiction
  · rename_i hready
    rw [Bool.or_eq_true, not_or, validateDestinationIp_eq] at hready
    split at h
    · contradiction
    · exact ⟨by simpa using hready.2, (Option.some.inj h).symm⟩

theorem pairRequest_eq_some {env : CurlEnv} {destIp pairCode : CString} {destPort peerPort : UInt16}
    {peerName : Option CString} {call : CurlRequest}
    (h : pairRequest env destIp destPort peerName peerPort pairCode = some call) :
    validateIpAddress destIp = true ∧
      call = ⟨(peerUrl destIp destPort "/api/pair/exchange").str, none,
        [.text (.lit "pair_code") pairCode,
          .text (.lit "peer_name") (peerName.getD (.lit "localdrop-peer")),
          .text (.lit "peer_port") (CString.ofLong peerPort.toNat)]⟩ := by
  unfold pairRequest at h
  split at h
  · contradiction
  · rename_i hready
    rw [Bool.or_eq_true, not_or, validateDestinationIp_eq] at hready
    split at h
    · contradiction
    · exact ⟨by simpa using hready.2, (Option.some.inj h).symm⟩

theorem headers_pairTokenLine (transport : Transport) (env : CurlEnv) {token : CString}
    (htoken : IsPairToken token) : transport.headers (pairTokenLine env token) =
      ⟨none, if env.listed then some token else none⟩ := by
  have hne : token ≠ CString.empty := by
    rintro rfl
    exact absurd htoken.1 (by decide)
  cases hline : pairTokenLine env token with
  | none =>
      simp only [pairTokenLine, hne, ne_eq, not_false_eq_true, true_and, ite_eq_right_iff,
        reduceCtorEq, imp_false] at hline
      rw [transport.headers_none, if_neg hline]
  | some line =>
      have hlisted : env.listed := by
        unfold pairTokenLine at hline
        split at hline
        · rename_i hboth
          exact hboth.2
        · contradiction
      rw [if_pos hlisted, transport.headers_line token line (isHeaderText_of_isPairToken htoken)
        (pairTokenLine_bytes htoken hline)]

/-- A send arrives at the endpoint it was accepted for, and there only, as an upload that carries
the token it was accepted with. -/
theorem send_arrives_iff {link : Link} {env : CurlEnv} {request : TransferRequest}
    {call : CurlRequest} (hcall : sendRequest env request = some call)
    (htoken : IsPairToken request.pairToken) (event : Event) : arrival link call = some event ↔
      link.LeadsTo request.targetIp request.targetPort ∧ link.port ≠ 0 ∧
        event = .accept (.lit "/upload") (.lit "POST") link.clientIp
          ⟨none, if env.listed then some request.pairToken else none⟩ := by
  obtain ⟨hip, rfl⟩ := sendRequest_eq_some hcall
  rw [arrival_eq_some_iff hip rfl (by decide) (by decide +kernel),
    headers_pairTokenLine link.transport env htoken]

/-- Addresses are the same when their texts are; URLs and headers are read back. -/
def sampleTransport : Transport where
  same destIp ip := destIp = ip
  same_self _ := decide_eq_true rfl
  reaches url ip port := (HttpUrl.read url.bytes).bind fun read =>
    if (read.host = ip.bytes ∧ read.port = port.toNat) ∧ port ≠ 0 then
      some (CString.ofBuffer read.path)
    else none
  reaches_iff {url destIp path ip target destPort port} hip hplain hurl := by
    have hread : HttpUrl.read url.bytes = some ⟨destIp.bytes, destPort.toNat, path.bytes⟩ := by
      rw [hurl]
      refine HttpUrl.read_text (fun b hb => ?_) ?_
      · exact not_bracket_of_addressByte (validateIpAddress_bytes hip hb)
      · simp only [HttpUrl.isPlainPath, Bool.and_eq_true, decide_eq_true_eq] at hplain
        exact hplain.1
    rw [hread, Option.bind_some]
    dsimp only
    rw [ofBuffer_bytes, decide_eq_true_eq]
    constructor
    · intro h
      split at h
      · rename_i hsame
        obtain ⟨⟨hhost, hport⟩, hne⟩ := hsame
        exact ⟨⟨CString.ext hhost, UInt16.toNat_inj.mp hport⟩, hne, (Option.some.inj h).symm⟩
      · contradiction
    · rintro ⟨⟨rfl, rfl⟩, hne, rfl⟩
      rw [if_pos ⟨⟨rfl, rfl⟩, hne⟩]
  headers line := ⟨none, (line.bind fun line =>
    readHeader pairTokenHeader.bytes line.bytes).map CString.ofBuffer⟩
  headers_none := rfl
  headers_line token line htext hline := by
    rw [Option.bind_some, hline, readHeader_headerLine _ htext, Option.map_some, ofBuffer_bytes]

def sampleLink : Link := ⟨sampleIp.str, 8080, sampleIp, sampleTransport⟩

def sampleTransfer : TransferRequest :=
  ⟨.lit "staging/1000_0909090909090909_a.txt", sampleIp.str, 8080, sampleToken 8⟩

theorem sampleTransfer_arrives :
    arrival sampleLink
        ⟨.lit "http://10.0.0.9:8080/upload",
          some (.lit "X-LocalDrop-Pair-Token: " ++ sampleToken 8),
          [.file (.lit "file") sampleTransfer.filepath]⟩ =
      some (.accept (.lit "/upload") (.lit "POST") sampleIp ⟨none, some (sampleToken 8)⟩) := by
  have hcall : sendRequest ⟨true, true, true, true⟩ sampleTransfer =
      some ⟨.lit "http://10.0.0.9:8080/upload",
        some (.lit "X-LocalDrop-Pair-Token: " ++ sampleToken 8),
        [.file (.lit "file") sampleTransfer.filepath]⟩ := by decide +kernel
  have htoken : IsPairToken sampleTransfer.pairToken :=
    isPairToken_of_random (show cryptoRandomToken (some (Vector.replicate 32 8)) = _ from rfl)
  exact (send_arrives_iff hcall htoken _).mpr ⟨sampleLink.leadsTo_self, by decide, rfl⟩

theorem receiveResponse_eq_some {buffer body : Option Bytes} {pieces : List (Bool × Bytes)}
    (h : receiveResponse buffer pieces = some body) :
    body.getD [] = buffer.getD [] ++ pieces.flatMap Prod.snd ∧
      (buffer ≠ none ∨ pieces.flatMap Prod.snd ≠ [] → body ≠ none) := by
  induction pieces generalizing buffer with
  | nil =>
      cases Option.some.inj h
      simp
  | cons piece pieces ih =>
      obtain ⟨resized, contents⟩ := piece
      simp only [receiveResponse, writeResponse] at h
      by_cases hempty : contents = []
      · subst hempty
        simp only [true_or, if_true, List.length_nil] at h
        obtain ⟨hbody, hsome⟩ := ih h
        refine ⟨by simpa using hbody, ?_⟩
        simpa using hsome
      · cases resized with
        | false =>
            simp [hempty, Ne.symm, List.length_eq_zero_iff] at h
        | true =>
            simp only [hempty, Bool.true_eq_false, or_self, if_false, if_true] at h
            obtain ⟨hbody, hsome⟩ := ih h
            refine ⟨by simpa using hbody, fun _ => hsome (.inl (by simp))⟩

theorem performed_cases (status : Int) (pieces : List (Bool × Bytes)) (error : CString) :
    performed status pieces error = .failed error ∨
      ∃ body, performed status pieces error = .replied status body ∧
        (pieces.flatMap Prod.snd ≠ [] → body = some (pieces.flatMap Prod.snd)) := by
  unfold performed
  cases hreceived : receiveResponse none pieces with
  | none => exact .inl rfl
  | some body =>
      refine .inr ⟨body, rfl, fun hbody => ?_⟩
      obtain ⟨hwhole, hsome⟩ := receiveResponse_eq_some hreceived
      obtain ⟨bytes, rfl⟩ := Option.ne_none_iff_exists'.mp (hsome (.inr hbody))
      rw [Option.getD_some, Option.getD_none, List.nil_append] at hwhole
      rw [hwhole]

theorem survivingText_bytes (text : CString) :
    survivingText n text.bytes = (text.take (n - 1)).bytes := by
  refine List.takeWhile_eq_self_iff.mpr fun b hb => ?_
  have hne : b ≠ 0 := fun he => text.nulFree (he ▸ List.mem_of_mem_take hb)
  simpa using hne

theorem pairForm_parts {env : CurlEnv} {destIp pairCode : CString} {destPort peerPort : UInt16}
    {peerName : Option CString} {call : CurlRequest} {parts : List Part}
    (hcall : pairRequest env destIp destPort peerName peerPort pairCode = some call)
    (harrives : List.Forall₂ MimePart.ArrivesAs call.parts parts) :
    ((lastWrite Part.key parts (.lit "pair_code")).elim [] Part.content = pairCode.bytes ∧
      (lastWrite Part.key parts (.lit "peer_name")).elim [] Part.content =
        (peerName.getD (.lit "localdrop-peer")).bytes) ∧
      (lastWrite Part.key parts (.lit "peer_port")).elim [] Part.content =
        (CString.ofLong peerPort.toNat).bytes := by
  obtain ⟨-, rfl⟩ := pairRequest_eq_some hcall
  have hkeys : CString.lit "pair_code" ≠ .lit "peer_name" ∧
      CString.lit "pair_code" ≠ .lit "peer_port" ∧ CString.lit "peer_name" ≠ .lit "peer_port" := by
    decide +kernel
  obtain ⟨hcodeName, hcodePort, hnamePort⟩ := hkeys
  cases harrives with
  | cons hcode harrives =>
      cases harrives with
      | cons hname harrives =>
          cases harrives with
          | cons hport harrives =>
              cases harrives
              obtain ⟨hcodeKey, -, hcode⟩ := hcode
              obtain ⟨hnameKey, -, hname⟩ := hname
              obtain ⟨hportKey, -, hport⟩ := hport
              simp [lastWrite_cons, hcodeKey, hnameKey, hportKey, hcode, hname, hport,
                hcodeName, hcodePort, hnamePort, hcodeName.symm, hcodePort.symm, hnamePort.symm]

theorem eq_of_parsePort_ofLong {port port' : UInt16}
    (h : parsePort (CString.ofLong port.toNat) = some port') : port' = port := by
  by_cases hzero : port = 0
  · subst hzero
    have hnone : parsePort (CString.ofLong (0 : UInt16).toNat) = none := by decide +kernel
    rw [hnone] at h
    contradiction
  · rw [parsePort_ofLong hzero] at h
    exact (Option.some.inj h).symm

theorem pairForm_read {env : CurlEnv} {destIp pairCode : CString} {destPort peerPort : UInt16}
    {peerName : Option CString} {call : CurlRequest} {parts : List Part} {items : List PostItem}
    (hcall : pairRequest env destIp destPort peerName peerPort pairCode = some call)
    (harrives : List.Forall₂ MimePart.ArrivesAs call.parts parts)
    (hdelivers : Delivers parts items) :
    (fieldBuffer 16 (.lit "pair_code") items).str = pairCode.take 15 ∧
      (fieldBuffer 256 (.lit "peer_name") items).str =
        (peerName.getD (.lit "localdrop-peer")).take 255 ∧
      (fieldBuffer 16 (.lit "peer_port") items).str = CString.ofLong peerPort.toNat := by
  obtain ⟨⟨hcode, hname⟩, hport⟩ := pairForm_parts hcall harrives
  refine ⟨CString.ext ?_, CString.ext ?_, CString.ext ?_⟩
  · rw [fieldBuffer_str (by decide) hdelivers, hcode, survivingText_bytes]
  · rw [fieldBuffer_str (by decide) hdelivers, hname, survivingText_bytes]
  · have hlength := decimal_port_length peerPort
    rw [fieldBuffer_str (by decide) hdelivers, hport, survivingText_bytes,
      CString.take_of_length_le]
    rw [CString.length, ofLong_port]
    omega

end LocalDrop
