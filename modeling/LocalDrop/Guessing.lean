import LocalDrop.Lib.Counting
import LocalDrop.GuessRate
import LocalDrop.Ownership
import Mathlib.Algebra.Order.BigOperators.Group.List

/-! Guessing the admin code. The process looks at its admin code only where `/api/session/unlock`
compares it, and a comparison that fails tells nothing but that. So a process with another code
does the same in every step until somebody hits it, and clients hit no more codes than they make
comparisons. -/
namespace LocalDrop
open Lib

theorem numericDigit_toNat (b : UInt8) : (numericDigit b).toNat = 48 + b.toNat % 10 := by
  have hmod : b.toNat % 10 < 10 := Nat.mod_lt _ (by decide)
  rw [numericDigit, UInt8.toNat_ofNat', Nat.mod_eq_of_lt (by omega)]

theorem card_residue (digit : Fin 10) :
    ((Finset.range 256).filter fun value => value % 10 = digit.val).card =
      if digit.val < 6 then 26 else 25 := by
  decide +kernel +revert

/-- How many of the 256 bytes give a digit: one more for each of the first six digits. -/
def digitCount (d : UInt8) : Nat :=
  if 48 ≤ d.toNat ∧ d.toNat < 54 then 26 else if 54 ≤ d.toNat ∧ d.toNat < 58 then 25 else 0

theorem digitCount_le (d : UInt8) : digitCount d ≤ 26 := by
  unfold digitCount
  repeat' split
  all_goals omega

theorem card_digit (d : UInt8) :
    ((Finset.range 256).filter fun value => 48 + value % 10 = d.toNat).card = digitCount d := by
  by_cases hdigit : 48 ≤ d.toNat ∧ d.toNat < 58
  · have hsame : ((Finset.range 256).filter fun value => 48 + value % 10 = d.toNat) =
        (Finset.range 256).filter fun value => value % 10 = d.toNat - 48 := by
      apply Finset.filter_congr
      intro value _
      omega
    rw [hsame, card_residue ⟨d.toNat - 48, by omega⟩]
    dsimp only
    unfold digitCount
    repeat' split
    all_goals omega
  · have hnone : ((Finset.range 256).filter fun value => 48 + value % 10 = d.toNat) = ∅ := by
      apply Finset.filter_eq_empty_iff.mpr
      intro value _
      omega
    rw [hnone, Finset.card_empty]
    unfold digitCount
    repeat' split
    all_goals omega

theorem ncard_numericDigit_eq (d : UInt8) :
    {b : UInt8 | numericDigit b = d}.ncard = digitCount d := by
  have himage : {b : UInt8 | numericDigit b = d} = UInt8.ofNat ''
      ((Finset.range 256).filter fun value => 48 + value % 10 = d.toNat : Finset Nat) := by
    ext b
    simp only [Set.mem_ofPred_eq, Set.mem_image, Finset.coe_filter, Finset.mem_range]
    rw [← UInt8.toNat_inj, numericDigit_toNat]
    constructor
    · intro h
      exact ⟨b.toNat, ⟨b.toNat_lt, h⟩, UInt8.ofNat_toNat⟩
    · rintro ⟨value, ⟨hlt, h⟩, rfl⟩
      rw [UInt8.toNat_ofNat', Nat.mod_eq_of_lt hlt]
      exact h
  have hinjective : Set.InjOn UInt8.ofNat
      ((Finset.range 256).filter fun value => 48 + value % 10 = d.toNat : Finset Nat) := by
    intro value hvalue value' hvalue' heq
    simp only [Finset.coe_filter, Finset.mem_range, Set.mem_ofPred_eq] at hvalue hvalue'
    have hnat := congrArg UInt8.toNat heq
    rw [UInt8.toNat_ofNat', UInt8.toNat_ofNat', Nat.mod_eq_of_lt hvalue.1,
      Nat.mod_eq_of_lt hvalue'.1] at hnat
    exact hnat
  rw [himage, Set.InjOn.ncard_image hinjective, Set.ncard_coe_finset, card_digit]

instance finite_byte : Finite UInt8 :=
  Finite.of_injective UInt8.toFin fun _ _ => UInt8.toFin_inj.mp

theorem cryptoRandomNumericCode_eq_iff {count : Nat} {bytes : Vector UInt8 count}
    {code : CString} : cryptoRandomNumericCode (some bytes) = some code ↔
      bytes.toList.map numericDigit = code.bytes := by
  rw [cryptoRandomNumericCode, Option.map_some, Option.some.injEq]
  exact CString.ext_iff

theorem numericCode_count (count : Nat) (code : CString) :
    {bytes : Vector UInt8 count | cryptoRandomNumericCode (some bytes) = some code}.ncard =
      if code.length = count then (code.bytes.map digitCount).prod else 0 := by
  have hsame : {bytes : Vector UInt8 count | cryptoRandomNumericCode (some bytes) = some code} =
      {bytes : Vector UInt8 count | bytes.toList.map numericDigit = code.bytes} := by
    ext bytes
    exact cryptoRandomNumericCode_eq_iff
  rw [hsame]
  split
  · rename_i hlength
    rw [ncard_vector_map_eq numericDigit hlength]
    congr 1
    apply List.map_congr_left
    intro d _
    exact ncard_numericDigit_eq d
  · rename_i hlength
    have hnone : {bytes : Vector UInt8 count | bytes.toList.map numericDigit = code.bytes} = ∅ := by
      ext bytes
      simp only [Set.mem_ofPred_eq, Set.mem_empty_iff_false, iff_false]
      intro heq
      exact hlength (by rw [CString.length, ← heq]; simp)
    rw [hnone, Set.ncard_empty]

theorem numericCode_count_le (count : Nat) (code : CString) :
    {bytes : Vector UInt8 count | cryptoRandomNumericCode (some bytes) = some code}.ncard ≤
      26 ^ count := by
  rw [numericCode_count]
  split
  · rename_i hlength
    have hbound := List.prod_le_pow_card (code.bytes.map digitCount) 26 (by
      intro value hvalue
      obtain ⟨d, -, rfl⟩ := List.mem_map.mp hvalue
      exact digitCount_le d)
    rw [List.length_map] at hbound
    rw [← hlength]
    exact hbound
  · exact Nat.zero_le _

def Auth.withAdminCode (auth : Auth) (code : Chars 7) : Auth := { auth with adminCode := code }

def World.withAdminCode (world : World) (code : Chars 7) : World :=
  { world with auth := world.auth.withAdminCode code }

def Process.withAdminCode (process : Process) (code : Chars 7) : Process :=
  { process with world := process.world.withAdminCode code }

def Outcome.withAdminCode (outcome : Outcome) (code : Chars 7) : Outcome :=
  (outcome.1.withAdminCode code, outcome.2)

section gates
variable {α : Type} (auth : Auth) (code : Chars 7) (info : ConnectionInfo) (headers : Headers)
  (scope : CString) (limit : Nat) (now : Time) (unwritten : CString)

/-- What a function of `auth.c` returns, with another admin code. -/
def recoded (result : Auth × α) : Auth × α := (result.1.withAdminCode code, result.2)

theorem authRateLimitAllow_recoded (clientIp : CString) (window : Time) :
    authRateLimitAllow (auth.withAdminCode code) clientIp scope limit window now =
      recoded code (authRateLimitAllow auth clientIp scope limit window now) := by
  unfold authRateLimitAllow Auth.withAdminCode
  dsimp only
  repeat' split
  all_goals rfl

theorem rateLimitRequest_recoded :
    rateLimitRequest (auth.withAdminCode code) info scope limit now unwritten =
      recoded code (rateLimitRequest auth info scope limit now unwritten) := by
  unfold rateLimitRequest
  rw [authRateLimitAllow_recoded]
  rcases authRateLimitAllow auth info.clientIp.str scope limit 60 now with ⟨limited, verdict⟩
  cases verdict <;> rfl

theorem validUiToken_recoded (clientIp : CString) :
    validUiToken (auth.withAdminCode code) clientIp headers now =
      recoded code (validUiToken auth clientIp headers now) := by
  unfold validUiToken authValidateUiSession Auth.withAdminCode
  repeat' split
  all_goals rfl

theorem validPairToken_recoded (clientIp : CString) :
    validPairToken (auth.withAdminCode code) clientIp headers now =
      recoded code (validPairToken auth clientIp headers now) := by
  unfold validPairToken authValidatePeerToken Auth.withAdminCode
  repeat' split
  all_goals rfl

theorem authorizeUiRequest_recoded :
    authorizeUiRequest (auth.withAdminCode code) info headers scope limit now unwritten =
      recoded code (authorizeUiRequest auth info headers scope limit now unwritten) := by
  unfold authorizeUiRequest
  rw [rateLimitRequest_recoded]
  split
  · rfl
  · rcases rateLimitRequest auth { info with authChecked := true } scope limit now unwritten with
      ⟨limited, info', passed⟩
    cases passed with
    | false => rfl
    | true =>
        dsimp only [recoded]
        rw [validUiToken_recoded]
        rcases validUiToken limited info'.clientIp.str headers now with ⟨swept, valid⟩
        cases valid <;> rfl

theorem authorizeUploadRequest_recoded :
    authorizeUploadRequest (auth.withAdminCode code) info headers now unwritten =
      recoded code (authorizeUploadRequest auth info headers now unwritten) := by
  unfold authorizeUploadRequest
  rw [rateLimitRequest_recoded]
  split
  · rfl
  · rcases rateLimitRequest auth { info with authChecked := true } (.lit "upload") 20 now
      unwritten with ⟨limited, info', passed⟩
    cases passed with
    | false => rfl
    | true =>
        dsimp only [recoded]
        rw [validUiToken_recoded]
        rcases validUiToken limited info'.clientIp.str headers now with ⟨swept, valid⟩
        cases valid with
        | true => rfl
        | false =>
            dsimp only [recoded]
            rw [validPairToken_recoded]
            rcases validPairToken swept info'.clientIp.str headers now with ⟨last, valid⟩
            cases valid <;> rfl

theorem limitChunk_recoded :
    limitChunk (auth.withAdminCode code) info scope limit now unwritten =
      recoded code (limitChunk auth info scope limit now unwritten) := by
  unfold limitChunk
  rw [rateLimitRequest_recoded]
  split
  · rfl
  · rcases rateLimitRequest auth { info with authChecked := true } scope limit now unwritten with
      ⟨limited, info', passed⟩
    cases passed <;> rfl

theorem chunkGate_recoded (route : Route) :
    chunkGate (auth.withAdminCode code) info route headers now unwritten =
      recoded code (chunkGate auth info route headers now unwritten) := by
  unfold chunkGate
  split
  · exact limitChunk_recoded ..
  · split
    · exact authorizeUploadRequest_recoded ..
    · exact authorizeUiRequest_recoded ..
    · exact authorizeUiRequest_recoded ..
    · rfl

theorem authGetPeerToken_recoded (peerIp : CString) (peerPort : UInt16) :
    authGetPeerToken (auth.withAdminCode code) peerIp peerPort now =
      recoded code (authGetPeerToken auth peerIp peerPort now) := rfl

theorem validateTargetPeer_recoded (registry : PeerRegistry) :
    validateTargetPeer (auth.withAdminCode code) registry info now =
      recoded code (validateTargetPeer auth registry info now) := by
  unfold validateTargetPeer
  dsimp only
  split
  · rfl
  · split
    · rfl
    · rename_i port hport
      split
      · rfl
      · rw [authGetPeerToken_recoded]
        rcases authGetPeerToken auth info.targetIp.str port now with ⟨swept, token⟩
        split
        · rfl
        · split
          · rfl
          · cases token <;> rfl

theorem ensurePairingCodeLocked_recoded (codeRandom : RandomBytes 6) :
    ensurePairingCodeLocked (auth.withAdminCode code) now codeRandom =
      (ensurePairingCodeLocked auth now codeRandom).map (·.withAdminCode code) := by
  unfold ensurePairingCodeLocked Auth.withAdminCode
  dsimp only
  split
  · rfl
  · cases cryptoRandomNumericCode codeRandom <;> rfl

theorem authGetPairingCode_recoded (codeRandom : RandomBytes 6) :
    authGetPairingCode (auth.withAdminCode code) now codeRandom =
      recoded code (authGetPairingCode auth now codeRandom) := by
  unfold authGetPairingCode
  rw [ensurePairingCodeLocked_recoded]
  cases ensurePairingCodeLocked auth now codeRandom <;> rfl

theorem authIssuePairToken_recoded (peerIp peerName provided : CString) (peerPort : UInt16)
    (codeRandom : RandomBytes 6) (random : RandomBytes 32) :
    authIssuePairToken (auth.withAdminCode code) peerIp peerName peerPort provided now codeRandom
        random =
      recoded code
        (authIssuePairToken auth peerIp peerName peerPort provided now codeRandom random) := by
  unfold authIssuePairToken
  rw [ensurePairingCodeLocked_recoded]
  cases ensurePairingCodeLocked auth now codeRandom with
  | none => rfl
  | some current =>
      dsimp only [Option.map_some, Auth.withAdminCode]
      repeat' split
      all_goals rfl

theorem authStorePeerToken_recoded (peerIp peerName token : CString) (peerPort : UInt16)
    (expiresAt : Time) :
    authStorePeerToken (auth.withAdminCode code) peerIp peerPort peerName token expiresAt =
      recoded code (authStorePeerToken auth peerIp peerPort peerName token expiresAt) := by
  unfold authStorePeerToken Auth.withAdminCode
  dsimp only
  split <;> rfl

end gates

section handlers
variable {world : World} {id : Nat} {request : Request} {env : CallEnv} (code : Chars 7)

theorem chunkStep_recoded (body : Body) :
    chunkStep (world.withAdminCode code) id request body env =
      (chunkStep world id request body env).withAdminCode code := by
  have hcharged : chargedEntries (world.auth.withAdminCode code) id request world.clock =
      chargedEntries world.auth id request world.clock := by
    unfold chargedEntries
    split
    · rfl
    · rw [authRateLimitAllow_recoded]
      rfl
  unfold chunkStep
  dsimp only [World.withAdminCode]
  rw [chunkGate_recoded, hcharged]
  rcases chunkGate world.auth request.info request.route request.headers world.clock env.unwritten
    with ⟨limited, info, passed⟩
  cases passed <;> rfl

theorem exchangeFinal_recoded : exchangeFinal (world.withAdminCode code) id request env =
    (exchangeFinal world id request env).withAdminCode code := by
  unfold exchangeFinal
  dsimp only [World.withAdminCode]
  split
  · rfl
  · split
    · rfl
    · split
      · rfl
      · rename_i port hport
        rw [authIssuePairToken_recoded]
        rcases authIssuePairToken world.auth request.info.clientIp.str request.info.peerName.str
          port request.info.pairCode.str world.clock env.codeRandom env.random with
          ⟨current, issued⟩
        cases issued <;> rfl

theorem uploadFinal_recoded : uploadFinal (world.withAdminCode code) id request env =
    (uploadFinal world id request env).withAdminCode code := by
  unfold uploadFinal
  dsimp only [World.withAdminCode]
  repeat' split
  all_goals rfl

theorem pairFinal_recoded : pairFinal (world.withAdminCode code) id request =
    (pairFinal world id request).withAdminCode code := by
  unfold pairFinal
  dsimp only [World.withAdminCode]
  repeat' split
  all_goals rfl

theorem sendFinal_recoded : sendFinal (world.withAdminCode code) request env =
    (sendFinal world request env).withAdminCode code := by
  unfold sendFinal
  dsimp only [World.withAdminCode]
  rw [validateTargetPeer_recoded]
  split
  · rfl
  · split
    · rfl
    · rcases validateTargetPeer world.auth world.registry request.info world.clock with
        ⟨looked, info, target⟩
      cases target with
      | none => rfl
      | some target =>
          dsimp only [recoded]
          split <;> rfl

theorem localCodeCall_recoded : localCodeCall (world.withAdminCode code) id request env =
    (localCodeCall world id request env).withAdminCode code := by
  unfold localCodeCall
  dsimp only [World.withAdminCode]
  rw [authorizeUiRequest_recoded]
  rcases authorizeUiRequest world.auth request.info request.headers (.lit "pair_code") 20
    world.clock env.unwritten with ⟨limited, info, passed⟩
  cases passed with
  | false => rfl
  | true =>
      dsimp only [recoded]
      rw [authGetPairingCode_recoded]
      rcases authGetPairingCode limited world.clock env.codeRandom with ⟨current, disclosed⟩
      cases disclosed <;> rfl

theorem transfersCall_recoded (status : Option Bytes) :
    transfersCall (world.withAdminCode code) id request env status =
      (transfersCall world id request env status).withAdminCode code := by
  unfold transfersCall
  dsimp only [World.withAdminCode]
  rw [authorizeUiRequest_recoded]
  rcases authorizeUiRequest world.auth request.info request.headers (.lit "transfer_status") 30
    world.clock env.unwritten with ⟨limited, info, passed⟩
  cases passed with
  | false => rfl
  | true => cases status <;> rfl

/-- With another code that is not hit either, a failed unlock fails in the same way. -/
theorem unlockFinal_recoded
    (hquiet : ∀ clientIp token expiresAt,
      Entry.session clientIp token expiresAt ∉ (unlockFinal world id request env).2.2)
    (hmiss : request.info.responseStatus < 400 → request.info.adminCode.str ≠ CString.empty →
      code.str ≠ request.info.adminCode.str) :
    unlockFinal (world.withAdminCode code) id request env =
      (unlockFinal world id request env).withAdminCode code := by
  unfold unlockFinal at hquiet ⊢
  dsimp only [World.withAdminCode] at hquiet ⊢
  split
  · rfl
  · rename_i hstatus
    split
    · rfl
    · rename_i hcode
      rw [if_neg hstatus, if_neg hcode] at hquiet
      have hmissed : (world.auth.withAdminCode code).adminCode.str ≠ request.info.adminCode.str :=
        hmiss (by omega) hcode
      rw [authCreateUiSession_wrong hmissed]
      cases hcreated : authCreateUiSession world.auth request.info.clientIp.str
          request.info.adminCode.str world.clock env.random with
      | mk created result =>
          cases result with
          | none =>
              rw [authCreateUiSession_none hcreated]
              rfl
          | some token =>
              rw [hcreated] at hquiet
              exact absurd (by simp) (hquiet request.info.clientIp.str token
                (world.clock + uiSessionTtlSeconds))

def unlockGuess (request : Request) (upload : Option Body) : List CString :=
  if request.route = .unlock ∧ upload.isNone ∧ request.info.responseStatus < 400 ∧
      request.info.adminCode.str ≠ CString.empty then
    [request.info.adminCode.str]
  else []

theorem answerToConnection_recoded {upload : Option Body}
    (hquiet : ∀ clientIp token expiresAt, Entry.session clientIp token expiresAt ∉
      (answerToConnection world id request upload env).2.2)
    (hmiss : code.str ∉ unlockGuess request upload) :
    answerToConnection (world.withAdminCode code) id request upload env =
      (answerToConnection world id request upload env).withAdminCode code := by
  unfold answerToConnection at hquiet ⊢
  cases hroute : request.route with
  | index | notFound | devices => rfl
  | localCode => exact localCodeCall_recoded code
  | transfers | transfer => exact transfersCall_recoded code _
  | exchange =>
      cases upload with
      | some body => exact chunkStep_recoded code body
      | none => exact exchangeFinal_recoded code
  | upload =>
      cases upload with
      | some body => exact chunkStep_recoded code body
      | none => exact uploadFinal_recoded code
  | pair =>
      cases upload with
      | some body => exact chunkStep_recoded code body
      | none => exact pairFinal_recoded code
  | send =>
      cases upload with
      | some body => exact chunkStep_recoded code body
      | none => exact sendFinal_recoded code
  | unlock =>
      cases upload with
      | some body => exact chunkStep_recoded code body
      | none =>
          rw [hroute] at hquiet
          refine unlockFinal_recoded code hquiet fun hstatus hcode heq => hmiss ?_
          simp [unlockGuess, hroute, hstatus, hcode, heq]

theorem proceed_recoded {env : ProceedEnv} : proceed (world.withAdminCode code) id request env =
    (proceed world id request env).map (·.withAdminCode code) := by
  unfold proceed
  dsimp only [World.withAdminCode]
  cases request.phase with
  | receiving | answered reply => rfl
  | exchangeAdd port token expiresAt => rfl
  | exchangeMark port token expiresAt => rfl
  | pairRemote port peer => cases transferPairPeer env.transport 65 256 <;> rfl
  | pairStore port peer token expiresAt =>
      dsimp only
      rw [authStorePeerToken_recoded]
      rfl
  | pairMark port => rfl
  | sendCleanup port token => rfl
  | sendEnqueue port token =>
      dsimp only
      split <;> rfl

end handlers

/-- How often somebody has tried an admin code. -/
def unlockAttempts (log : List Entry) : Nat :=
  (comparisons log).countP fun mark => mark.scope = .lit "session_unlock"

def Opens (log : List Entry) : Prop :=
  ∃ clientIp token expiresAt, Entry.session clientIp token expiresAt ∈ log

theorem unlockAttempts_append (log more : List Entry) :
    unlockAttempts (log ++ more) = unlockAttempts log + unlockAttempts more := by
  rw [unlockAttempts, comparisons_append, List.countP_append]
  rfl

section steps
variable {process after : Process} {event : Event} {entries : List Entry}

theorem unlockGuess_length {world : World} {id : Nat} {request : Request} {upload : Option Body}
    {env : CallEnv} : (unlockGuess request upload).length ≤
      unlockAttempts (answerToConnection world id request upload env).2.2 := by
  unfold unlockGuess
  split
  · rename_i hguess
    obtain ⟨hroute, hupload, hstatus, hcode⟩ := hguess
    rw [Option.isNone_iff_eq_none] at hupload
    subst hupload
    unfold answerToConnection
    rw [hroute]
    dsimp only
    unfold unlockFinal
    dsimp only
    rw [if_neg (by omega), if_neg hcode]
    split <;> simp [unlockAttempts, comparisons, Entry.comparison]
  · exact Nat.zero_le _

theorem next_call_recoded {id : Nat} {upload : Option Body} {env : CallEnv}
    (hquiet : ¬ Opens entries)
    (hnext : next process (.call id upload env) = some (after, entries)) :
    ∃ guesses : List CString, guesses.length ≤ unlockAttempts entries ∧
      ∀ code : Chars 7, code.str ∉ guesses →
        next (process.withAdminCode code) (.call id upload env) =
          some (after.withAdminCode code, entries) := by
  unfold next at hnext
  dsimp only at hnext
  split at hnext
  · rename_i request hwas
    split at hnext
    · rename_i henabled
      cases Option.some.inj hnext
      refine ⟨unlockGuess request upload, unlockGuess_length, fun code hmiss => ?_⟩
      have hsame := @answerToConnection_recoded process.world id request env code upload
        (fun clientIp token expiresAt hmem => hquiet ⟨clientIp, token, expiresAt, hmem⟩) hmiss
      unfold next
      dsimp only [Process.withAdminCode]
      rw [hwas]
      refine (if_pos henabled).trans ?_
      rw [hsame]
      rfl
    · contradiction
  · contradiction

theorem requestCompleted_recoded {world : World} {id : Nat} {request : Request} (code : Chars 7) :
    requestCompleted (world.withAdminCode code) id request =
      ((requestCompleted world id request).1.withAdminCode code,
        (requestCompleted world id request).2) := by
  unfold requestCompleted
  split <;> rfl

/-- A step that opens no session is the same step for all codes but those it tries. -/
theorem next_recoded (hquiet : ¬ Opens entries)
    (hnext : next process event = some (after, entries)) :
    ∃ guesses : List CString, guesses.length ≤ unlockAttempts entries ∧
      ∀ code : Chars 7, code.str ∉ guesses →
        next (process.withAdminCode code) event = some (after.withAdminCode code, entries) := by
  cases hsteps : next_steps hnext with
  | call id upload env request was phase => exact next_call_recoded hquiet hnext
  | tick seconds bound => exact ⟨[], Nat.zero_le _, fun code _ => if_pos bound⟩
  | accept url method clientIp headers serving =>
      exact ⟨[], Nat.zero_le _, fun code _ => if_pos serving⟩
  | proceed id env request outcome was continues =>
      refine ⟨[], Nat.zero_le _, fun code _ => ?_⟩
      have hsame := @proceed_recoded process.world id request code env
      unfold next
      dsimp only [Process.withAdminCode]
      rw [was]
      dsimp only
      rw [hsame, continues]
      rfl
  | completed id request was releasable =>
      refine ⟨[], Nat.zero_le _, fun code _ => ?_⟩
      unfold next
      dsimp only [Process.withAdminCode]
      rw [was]
      dsimp only
      rw [if_pos releasable, requestCompleted_recoded]
  | workerTake queue takes =>
      exact ⟨[], Nat.zero_le _, fun code _ => congrArg (Option.map _) takes⟩
  | workerCall queue calls =>
      exact ⟨[], Nat.zero_le _, fun code _ => congrArg (Option.map _) calls⟩
  | workerProgress bytesSent totalBytes queue advances =>
      exact ⟨[], Nat.zero_le _, fun code _ => congrArg (Option.map _) advances⟩
  | workerDone success result ends =>
      exact ⟨[], Nat.zero_le _, fun code _ => congrArg (Option.map _) ends⟩
  | workerExit queue exits =>
      exact ⟨[], Nat.zero_le _, fun code _ => congrArg (Option.map _) exits⟩
  | resolved name ip port => exact ⟨[], Nat.zero_le _, fun code _ => rfl⟩
  | removed name => exact ⟨[], Nat.zero_le _, fun code _ => rfl⟩
  | serverStop => exact ⟨[], Nat.zero_le _, fun code _ => rfl⟩
  | queueShutdown stopped released =>
      exact ⟨[], Nat.zero_le _, fun code _ => if_pos ⟨stopped, released⟩⟩

end steps

theorem run_recoded {process final : Process} {events : List Event}
    (hrun : run step process events = some final) (hquiet : ¬ Opens final.log) :
    ∃ guesses : List CString,
      guesses.length + unlockAttempts process.log ≤ unlockAttempts final.log ∧
        ∀ code : Chars 7, code.str ∉ guesses →
          run step (process.withAdminCode code) events = some (final.withAdminCode code) := by
  induction events generalizing process with
  | nil =>
      cases Option.some.inj hrun
      exact ⟨[], by simp, fun code _ => rfl⟩
  | cons event rest ih =>
      obtain ⟨after, hafter, hrest⟩ := run_cons_eq_some hrun
      obtain ⟨settled, entries, hnext, rfl⟩ := step_eq_some hafter
      obtain ⟨later, hlater, hsame⟩ := ih hrest
      -- nothing was opened at the end, so nothing was opened here
      have hlog := log_run hrest
      have hopens : ¬ Opens entries := by
        rintro ⟨clientIp, token, expiresAt, hmem⟩
        exact hquiet ⟨clientIp, token, expiresAt, hlog.subset (List.mem_append_right _ hmem)⟩
      obtain ⟨guesses, hguesses, hstep⟩ := next_recoded hopens hnext
      refine ⟨guesses ++ later, ?_, fun code hmiss => ?_⟩
      · rw [unlockAttempts_append] at hlater
        rw [List.length_append]
        omega
      · rw [List.mem_append, not_or] at hmiss
        have hrecoded : step (process.withAdminCode code) event = some (Process.withAdminCode
            { settled with log := process.log ++ entries } code) := by
          unfold step
          rw [hstep code hmiss.1]
          rfl
        rw [run, hrecoded]
        exact hsame code hmiss.2

def drawnCode (random : Vector UInt8 6) : Chars 7 :=
  copyString ((cryptoRandomNumericCode (some random)).getD CString.empty)

/-- The same process, come up with other random bytes for its admin code. -/
def Process.drawn (start : Process) (random : Vector UInt8 6) : Process :=
  start.withAdminCode (drawnCode random)

theorem Started.drawn {start : Process} (h : Started start) (random : Vector UInt8 6) :
    Started (start.drawn random) := by
  refine ⟨h.clock, ?_, h.registry, h.queue, h.leftovers, h.requests, h.nextId, h.serving, h.log⟩
  obtain ⟨adminRandom, pairingRandom, hinit⟩ := h.auth
  refine ⟨some random, pairingRandom, ?_⟩
  obtain ⟨adminCode, -, hinit⟩ := Option.bind_eq_some_iff.mp hinit
  obtain ⟨pairingCode, hpairing, hinit⟩ := Option.bind_eq_some_iff.mp hinit
  have hauth := (Option.some.inj hinit).symm
  unfold authInit
  dsimp only [Process.drawn, Process.withAdminCode, World.withAdminCode]
  rw [hpairing, hauth]
  rfl

theorem drawnCode_eq_iff {random : Vector UInt8 6} {code : CString} :
    (drawnCode random).str = code ↔ cryptoRandomNumericCode (some random) = some code := by
  obtain ⟨drawn, hdrawn⟩ : ∃ drawn, cryptoRandomNumericCode (some random) = some drawn := ⟨_, rfl⟩
  have hlength : drawn.length < 7 := by
    rw [cryptoRandomNumericCode_length hdrawn]
    decide
  rw [drawnCode, hdrawn, Option.getD_some, copyString_str_of_lt drawn hlength, Option.some.injEq]

def Unlocked (start : Process) (events : List Event) : Prop :=
  ∃ earlier process, earlier <+: events ∧ run step start earlier = some process ∧
    Opens process.log

/-- However clients go about it: where they have tried in vain to guess the admin code, there are
at most 26 ^ 6 of the 256 ^ 6 random inputs for each of their attempts with which the same
requests would have opened a session. -/
theorem guesses_bounded {start final : Process} {events : List Event} (hstart : Started start)
    (hrun : run step start events = some final) (hquiet : ¬ Opens final.log) :
    (∀ random, Started (start.drawn random)) ∧
      {random : Vector UInt8 6 | Unlocked (start.drawn random) events}.ncard ≤
        unlockAttempts final.log * 26 ^ 6 := by
  refine ⟨hstart.drawn, ?_⟩
  obtain ⟨guesses, hguesses, hsame⟩ := run_recoded hrun hquiet
  have hhit : {random : Vector UInt8 6 | Unlocked (start.drawn random) events} ⊆
      {random : Vector UInt8 6 | (drawnCode random).str ∈ guesses} := by
    rintro random ⟨earlier, process, ⟨later, rfl⟩, hearlier, clientIp, token, expiresAt, hmem⟩
    by_contra hmiss
    have hwhole := hsame (drawnCode random) hmiss
    rw [run_append] at hwhole
    obtain ⟨reached, hreached, hrest⟩ := Option.bind_eq_some_iff.mp hwhole
    cases Option.some.inj (hearlier.symm.trans hreached)
    exact hquiet ⟨clientIp, token, expiresAt, (log_run hrest).subset hmem⟩
  have hbound : ∀ code, {random : Vector UInt8 6 | (drawnCode random).str = code}.ncard ≤
      26 ^ 6 := by
    intro code
    simp only [drawnCode_eq_iff]
    exact numericCode_count_le 6 code
  calc {random : Vector UInt8 6 | Unlocked (start.drawn random) events}.ncard
      ≤ {random : Vector UInt8 6 | (drawnCode random).str ∈ guesses}.ncard :=
        Set.ncard_le_ncard hhit
    _ ≤ guesses.length * 26 ^ 6 := ncard_guessed_le hbound guesses
    _ ≤ unlockAttempts final.log * 26 ^ 6 := by gcongr; omega

/-- Twelve requests in a row try one code each; the limit stops the last four. -/
def tryingCodes : List Event :=
  (List.range 12).flatMap fun id =>
    [acceptPost "/api/session/unlock" ⟨none, none⟩,
      sendFields id [fieldItem "admin_code" "555555"], sendEnd id 7]

theorem tryingCodes_bounded : ∃ final, run step sampleStart tryingCodes = some final ∧
    unlockAttempts final.log = 8 ∧ (∀ random, Started (sampleStart.drawn random)) ∧
      {random : Vector UInt8 6 | Unlocked (sampleStart.drawn random) tryingCodes}.ncard ≤
        unlockAttempts final.log * 26 ^ 6 := by
  obtain ⟨final, hrun⟩ : ∃ final, run step sampleStart tryingCodes = some final :=
    Option.isSome_iff_exists.mp (by decide +kernel)
  have hfacts : (run step sampleStart tryingCodes).all (fun final =>
      unlockAttempts final.log = 8 ∧ final.log.all (fun entry => !entry.isCredential)) = true := by
    decide +kernel
  rw [hrun] at hfacts
  simp only [Option.all_some, decide_eq_true_eq] at hfacts
  have hquiet : ¬ Opens final.log := by
    rintro ⟨clientIp, token, expiresAt, hmem⟩
    have hnot := List.all_eq_true.mp hfacts.2 _ hmem
    simp [Entry.isCredential] at hnot
  exact ⟨final, hrun, hfacts.1, guesses_bounded sampleStart_started hrun hquiet⟩

end LocalDrop
