import LocalDrop.Auth
import LocalDrop.JsonUtils

/-! The pairing exchange as it travels: the JSON text `queue_json_pair_response`
writes in `server.c` and the substring scan by which `transfer.c` reads it back.
libcurl is outside the sources; what it did to a request is a `PairTransport`. -/
namespace LocalDrop
open Lib

def pairResponse (message token : CString) (expiresAt : Time) : Bytes :=
  (CString.lit "\x7b\"status\":\"ok\",\"message\":\"").bytes ++ jsonEscape message ++
    (CString.lit "\",\"token\":\"").bytes ++ jsonEscape token ++
    (CString.lit "\",\"expires_at\":").bytes ++ formatLong expiresAt ++ (CString.lit "\x7d").bytes

/-- `snprintf(pattern, sizeof(pattern), ...)` with a 64-byte pattern. -/
def fieldPattern (field : CString) (opening : String) : Bytes :=
  ((CString.lit "\"").bytes ++ field.bytes ++ (CString.lit opening).bytes).take 63

def extractJsonStringField (json field : CString) (destSize : Nat) : Option CString := do
  let pattern := fieldPattern field "\":\""
  let found ← strstr pattern json.bytes
  let value ← before 34 (found.drop pattern.length)
  pure ((CString.ofBuffer value).take (destSize - 1))

def extractJsonLongField (json field : CString) : Option Int := do
  let pattern := fieldPattern field "\":"
  let found ← strstr pattern json.bytes
  pure (strtol (found.drop pattern.length)).1

/-- What became of the request: it was never sent, libcurl reported an error, or
an answer came with a status and possibly a body. -/
inductive PairTransport where
  | unavailable
  | failed (error : CString)
  | replied (status : Int) (body : Option Bytes)
deriving DecidableEq

/-- A failure carries what was written into `message_out`, if anything was. -/
inductive PairOutcome where
  | refused (message : Option CString)
  | paired (token : CString) (expiresAt : Int) (message : CString)
deriving DecidableEq

def transferPairPeer (transport : PairTransport) (tokenSize messageSize : Nat) :
    PairOutcome :=
  match transport with
  | .unavailable => .refused none
  | .failed error => .refused (some (error.take (messageSize - 1)))
  | .replied status body =>
      let json := body.map CString.ofBuffer
      let message := json.bind fun json =>
        extractJsonStringField json (.lit "message") messageSize
      if status < 200 ∨ 300 ≤ status then
        .refused (some (message.getD
          ((CString.lit "Pareamento recusado pelo peer remoto").take (messageSize - 1))))
      else
        match json.bind fun json => extractJsonStringField json (.lit "token") tokenSize with
        | none => .refused none
        | some token =>
            .paired token
              ((json.bind fun json => extractJsonLongField json (.lit "expires_at")).getD 0)
              (message.getD
                ((CString.lit "Pareamento realizado com sucesso").take (messageSize - 1)))

theorem extractJsonStringField_length {json field value : CString} {destSize : Nat}
    (hsize : 0 < destSize) (h : extractJsonStringField json field destSize = some value) :
    value.length < destSize := by
  simp only [extractJsonStringField, Option.bind_eq_bind, Option.bind_eq_some_iff,
    Option.pure_def, Option.some.injEq] at h
  obtain ⟨found, -, text, -, rfl⟩ := h
  simp only [CString.length, CString.take, List.length_take]
  omega

theorem transferPairPeer_length {transport : PairTransport} {tokenSize messageSize : Nat}
    (hsize : 0 < tokenSize) {token message : CString} {expiresAt : Int}
    (h : transferPairPeer transport tokenSize messageSize = .paired token expiresAt message) :
    token.length < tokenSize := by
  unfold transferPairPeer at h
  split at h
  · contradiction
  · contradiction
  · dsimp only at h
    split at h
    · contradiction
    · split at h
      · contradiction
      · rename_i found hfound
        simp only [PairOutcome.paired.injEq] at h
        obtain ⟨rfl, -, -⟩ := h
        obtain ⟨json, -, hextract⟩ := Option.bind_eq_some_iff.mp hfound
        exact extractJsonStringField_length hsize hextract

def pairMessage : CString := .lit "Peer pareado com sucesso"

/-- An issued token: 64 lower-case hexadecimal digits. -/
def IsPairToken (token : CString) : Prop :=
  token.length = 64 ∧ ∀ b ∈ token.bytes, ∃ value, b = hexDigit value

theorem isPairToken_of_random {random : RandomBytes 32} {token : CString}
    (h : cryptoRandomToken random = some token) : IsPairToken token :=
  ⟨cryptoRandomToken_length h, fun _ hb => hexDigit_of_mem_token h hb⟩

theorem IsPairToken.jsonEscape {token : CString} (h : IsPairToken token) :
    jsonEscape token = token.bytes := by
  apply jsonEscape_of_plain
  intro b hb
  obtain ⟨value, rfl⟩ := h.2 b hb
  exact jsonEscapeByte_hexDigit value

theorem quote_notMem_of_plain {text : CString} (h : ∀ b ∈ text.bytes, jsonEscapeByte b = [b]) :
    (34 : UInt8) ∉ text.bytes := by
  intro hmem
  exact absurd (h 34 hmem) (by decide)

theorem pairResponse_eq (message token : CString) (expiresAt : Time) :
    pairResponse message token expiresAt =
      (CString.lit "\x7b\"status\":\"ok\",\"message\":").bytes ++
        34 :: (jsonEscape message ++ 34 :: 44 :: ((CString.lit "\"token\":").bytes ++
          34 :: (jsonEscape token ++ 34 :: 44 :: ((CString.lit "\"expires_at\":").bytes ++
            (formatLong expiresAt ++ [125]))))) := by
  have hstart : (CString.lit "\x7b\"status\":\"ok\",\"message\":\"").bytes =
      (CString.lit "\x7b\"status\":\"ok\",\"message\":").bytes ++ [34] := by decide
  have htoken : (CString.lit "\",\"token\":\"").bytes =
      34 :: 44 :: (CString.lit "\"token\":").bytes ++ [34] := by decide
  have hexpires : (CString.lit "\",\"expires_at\":").bytes =
      34 :: 44 :: (CString.lit "\"expires_at\":").bytes := by decide
  have hend : (CString.lit "\x7d").bytes = [125] := by decide
  unfold pairResponse
  rw [hstart, htoken, hexpires, hend]
  simp only [List.append_assoc, List.cons_append, List.nil_append]

theorem pairResponse_nulFree (message token : CString) (expiresAt : Time) :
    0 ∉ pairResponse message token expiresAt := by
  simp [pairResponse, CString.nulFree, jsonEscape_nulFree, notMem_formatLong]

section fields
variable (message : CString) {token : CString} (htoken : IsPairToken token) (expiresAt : Time)

theorem strstr_token :
    strstr (fieldPattern (.lit "token") "\":\"") (pairResponse message token expiresAt) =
      some (fieldPattern (.lit "token") "\":\"" ++
        (jsonEscape token ++ 34 :: 44 :: ((CString.lit "\"expires_at\":").bytes ++
          (formatLong expiresAt ++ [125])))) := by
  have hname : ∀ b ∈ (CString.lit "token").bytes, b ≠ 34 ∧ b ≠ 92 ∧ b ≠ 44 := by decide +kernel
  rw [pairResponse_eq]
  exact (strstr_quoted hname message _).trans (strstr_self _ _)

include htoken in
theorem extractToken_pairResponse :
    extractJsonStringField (CString.ofBuffer (pairResponse message token expiresAt))
      (.lit "token") 65 = some token := by
  have hquote : (34 : UInt8) ∉ token.bytes := quote_notMem_of_plain fun b hb => by
    obtain ⟨value, rfl⟩ := htoken.2 b hb
    exact jsonEscapeByte_hexDigit value
  rw [CString.ofBuffer_of_nulFree _ (pairResponse_nulFree message token expiresAt)]
  simp only [extractJsonStringField, strstr_token, List.drop_left, htoken.jsonEscape,
    before_append 34 _ _ hquote, Option.bind_eq_bind, Option.bind_some, Option.pure_def,
    Option.some.injEq]
  rw [CString.ofBuffer_of_nulFree _ token.nulFree]
  exact CString.take_of_length_le _ (by rw [CString.length]; exact htoken.1.le)

theorem extractExpiresAt_pairResponse (hlong : -2 ^ 63 ≤ expiresAt ∧ expiresAt < 2 ^ 63) :
    extractJsonLongField (CString.ofBuffer (pairResponse message token expiresAt))
      (.lit "expires_at") = some expiresAt := by
  have hname : ∀ b ∈ (CString.lit "expires_at").bytes, b ≠ 34 ∧ b ≠ 92 ∧ b ≠ 44 := by
    decide +kernel
  have hfind : strstr (fieldPattern (.lit "expires_at") "\":")
      (pairResponse message token expiresAt) =
      some (fieldPattern (.lit "expires_at") "\":" ++ (formatLong expiresAt ++ [125])) := by
    rw [pairResponse_eq]
    exact (strstr_quoted hname message _).trans
      ((strstr_quoted hname token _).trans (strstr_self _ _))
  rw [CString.ofBuffer_of_nulFree _ (pairResponse_nulFree message token expiresAt)]
  simp only [extractJsonLongField, hfind, List.drop_left, Option.bind_eq_bind, Option.bind_some,
    Option.pure_def, Option.some.injEq]
  exact strtol_formatLong hlong (by simp [isDigit])

theorem extractMessage_pairResponse (messageSize : Nat)
    (hplain : ∀ b ∈ message.bytes, jsonEscapeByte b = [b]) :
    extractJsonStringField (CString.ofBuffer (pairResponse message token expiresAt))
      (.lit "message") messageSize = some (message.take (messageSize - 1)) := by
  rw [CString.ofBuffer_of_nulFree _ (pairResponse_nulFree message token expiresAt)]
  have hfind : strstr (fieldPattern (.lit "message") "\":\"")
      (pairResponse message token expiresAt) =
      some (fieldPattern (.lit "message") "\":\"" ++ (jsonEscape message ++
        34 :: 44 :: ((CString.lit "\"token\":").bytes ++
          34 :: (jsonEscape token ++ 34 :: 44 :: ((CString.lit "\"expires_at\":").bytes ++
            (formatLong expiresAt ++ [125])))))) := by
    rw [pairResponse_eq]
    exact strstr_self _ _
  simp only [extractJsonStringField, hfind, List.drop_left, jsonEscape_of_plain message hplain,
    before_append 34 _ _ (quote_notMem_of_plain hplain), Option.bind_eq_bind, Option.bind_some,
    Option.pure_def, Option.some.injEq]
  rw [CString.ofBuffer_of_nulFree _ message.nulFree]

end fields

theorem transferPairPeer_pairResponse {token : CString} (htoken : IsPairToken token)
    (expiresAt : Time) :
    ∃ expiresAt' message, transferPairPeer
      (.replied 200 (some (pairResponse pairMessage token expiresAt))) 65 256 =
        .paired token expiresAt' message := by
  unfold transferPairPeer
  simp [extractToken_pairResponse pairMessage htoken]

/-- Whatever the message is, the peer reads back token and expiry; and the message too,
cut to its buffer, if no byte of it is escaped. -/
theorem pairResponse_roundTrip (message : CString) {token : CString} (htoken : IsPairToken token)
    {expiresAt : Time} (hlong : -2 ^ 63 ≤ expiresAt ∧ expiresAt < 2 ^ 63) (messageSize : Nat) :
    ∃ read, transferPairPeer
      (.replied 200 (some (pairResponse message token expiresAt))) 65 messageSize =
        .paired token expiresAt read ∧
      ((∀ b ∈ message.bytes, jsonEscapeByte b = [b]) → read = message.take (messageSize - 1)) := by
  unfold transferPairPeer
  simp only [Option.map_some, Option.bind_some, extractToken_pairResponse message htoken,
    extractExpiresAt_pairResponse message expiresAt hlong, Option.getD_some]
  refine ⟨_, rfl, fun hplain => ?_⟩
  rw [extractMessage_pairResponse message expiresAt messageSize hplain]
  rfl

theorem spoofingMessage_roundTrip :
    ∃ read, transferPairPeer (.replied 200 (some (pairResponse
      (.lit "\",\"token\":\"00\",\"expires_at\":1") (sampleToken 7) (-5)))) 65 256 =
        .paired (sampleToken 7) (-5) read := by
  have htoken : IsPairToken (sampleToken 7) :=
    isPairToken_of_random (show cryptoRandomToken (some (Vector.replicate 32 7)) = _ from rfl)
  have hlong : (-2 ^ 63 : Time) ≤ -5 ∧ (-5 : Time) < 2 ^ 63 := by decide
  obtain ⟨read, hread, -⟩ := pairResponse_roundTrip
    (.lit "\",\"token\":\"00\",\"expires_at\":1") htoken hlong 256
  exact ⟨read, hread⟩

end LocalDrop
