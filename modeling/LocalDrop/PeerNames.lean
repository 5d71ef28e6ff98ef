import LocalDrop.Ports
import LocalDrop.Registry
import LocalDrop.Lib.Utf8

/-! Whether the list of peers is valid UTF-8. The escapes of a name are as valid as the name,
but the name was cut to 255 bytes, wherever its characters begin. -/
namespace LocalDrop
open Lib

theorem ascii_jsonEscapeByte {b : UInt8} (h : b < 128) :
    jsonEscapeByte b ≠ [] ∧ Ascii (jsonEscapeByte b) := by
  have hhex : ∀ value, hexDigit value < 128 := by
    intro value
    have hdigit := hexDigit_toNat value
    have hmod : value % 16 < 16 := Nat.mod_lt _ (by decide)
    rw [UInt8.lt_iff_toNat_lt]
    change (hexDigit value).toNat < 128
    split at hdigit <;> omega
  unfold jsonEscapeByte
  repeat' split
  all_goals simp [Ascii, h, hhex]

theorem jsonEscapeByte_of_high {b : UInt8} (h : ¬ b < 128) : jsonEscapeByte b = [b] := by
  have hne : ∀ c : UInt8, c < 128 → b ≠ c := by
    rintro c hc rfl
    exact h hc
  have hlt : ¬ b < 32 := fun hb => h (UInt8.lt_trans hb (by decide))
  unfold jsonEscapeByte
  simp [hne 92 (by decide), hne 34 (by decide), hne 8 (by decide), hne 12 (by decide),
    hne 10 (by decide), hne 13 (by decide), hne 9 (by decide), hlt]

theorem utf8_jsonEscape_iff {text : CString} : Utf8 (jsonEscape text) ↔ Utf8 text.bytes :=
  utf8_flatMap_iff (fun _ => ascii_jsonEscapeByte) (fun _ => jsonEscapeByte_of_high) []

theorem ascii_decimal (n : Nat) : Ascii (decimal n) := by
  intro b hb
  have hdigit := isDigit_decimal hb
  simp only [isDigit, Bool.and_eq_true, decide_eq_true_eq] at hdigit
  exact UInt8.lt_of_le_of_lt hdigit.2 (by decide)

theorem ascii_formatLong (value : Int) : Ascii (formatLong value) := by
  unfold formatLong
  split
  · exact List.forall_mem_cons.mpr ⟨by decide, ascii_decimal _⟩
  · exact ascii_decimal _

structure PeerInfo.TextsUtf8 (peer : PeerInfo) : Prop where
  name : Utf8 peer.name.str.bytes
  ip : Utf8 peer.ip.str.bytes

theorem utf8_peerJson_iff {peer : PeerInfo} : Utf8 (peerJson peer) ↔ peer.TextsUtf8 := by
  have hname : Ascii (CString.lit "\x7b\"name\":\"").bytes := by decide
  have hip : Ascii (CString.lit "\",\"ip\":\"").bytes := by decide
  have hport : Ascii (CString.lit "\",\"port\":").bytes := by decide
  have hbool : ∀ value, Ascii (jsonBool value).bytes := by decide
  have hrest : Ascii (decimal peer.port.toNat ++ ((CString.lit ",\"active\":").bytes ++
      ((jsonBool peer.active).bytes ++ ((CString.lit ",\"paired\":").bytes ++
        ((jsonBool peer.paired).bytes ++ ((CString.lit ",\"last_seen\":").bytes ++
          (formatLong peer.lastSeen ++ (CString.lit "\x7d").bytes))))))) := by
    refine (ascii_decimal _).append (Ascii.append (by decide) ((hbool _).append ?_))
    refine Ascii.append (by decide) ((hbool _).append (Ascii.append (by decide) ?_))
    exact (ascii_formatLong _).append (by decide)
  unfold peerJson
  simp only [List.append_assoc]
  rw [hname.utf8.append_iff, utf8_around_iff hip (by decide), utf8_around_iff hport (by decide),
    utf8_jsonEscape_iff, utf8_jsonEscape_iff]
  exact ⟨fun h => ⟨h.1, h.2.1⟩, fun h => ⟨h.name, h.ip, hrest.utf8⟩⟩

theorem utf8_snapshot_iff {registry : PeerRegistry} :
    Utf8 (peerRegistrySnapshotJson registry) ↔ ∀ peer ∈ registry.entries, peer.TextsUtf8 := by
  have hopen : Ascii [91] := by decide
  have hclose : Ascii [93] := by decide
  have hcomma : Ascii [44] := by decide
  have hlist := utf8_intercalate_iff hcomma (by decide) (registry.entries.map peerJson)
  have hend := @utf8_around_iff ([44].intercalate (registry.entries.map peerJson)) [] _ hclose
    (by decide)
  rw [List.append_nil] at hend
  unfold peerRegistrySnapshotJson
  rw [List.append_assoc, hopen.utf8.append_iff, hend, hlist, List.forall_mem_map]
  simp only [utf8_peerJson_iff, utf8_nil, and_true]

/-- The cut at 255 bytes is in front of a character, or behind the name. What is stored ends at
a NUL byte. -/
def CutsBetween (name : Bytes) : Prop :=
  ∀ b ∈ (name.takeWhile (· ≠ 0))[255]?, b.IsUTF8FirstByte

instance (name : Bytes) : Decidable (CutsBetween name) :=
  @Option.decidableForallMem _ UInt8.IsUTF8FirstByte _
    (name.takeWhile fun b => decide (b ≠ 0))[255]?

section registry
variable {registry : PeerRegistry} {name ip : CString} {port : UInt16} {now : Time}

theorem copyString_bytes {n : Nat} [NeZero n] (text : CString) :
    (copyString text : Chars n).str.bytes = survivingText n text.bytes := by
  have hself : text.bytes.takeWhile (· ≠ 0) = text.bytes :=
    congrArg CString.bytes (CString.ofBuffer_of_nulFree text.bytes text.nulFree)
  rw [survivingText, ← List.take_takeWhile, hself]
  rfl

theorem copyString_surviving {n : Nat} [NeZero n] {text : CString} {submitted : Bytes}
    (h : text.bytes = survivingText n submitted) :
    (copyString text : Chars n).str.bytes = survivingText n submitted := by
  have hfits : text.length < n := by
    have hn := NeZero.ne n
    have hlength := (List.takeWhile_prefix (· ≠ 0) (l := submitted.take (n - 1))).length_le
    rw [List.length_take] at hlength
    rw [CString.length, h, survivingText]
    omega
  rw [copyString_str_of_lt text hfits, h]

theorem utf8_survivingText_iff {submitted : Bytes} (h : Utf8 submitted) :
    Utf8 (survivingText 256 submitted) ↔ CutsBetween submitted := by
  have hrest : ∀ b ∈ (submitted.dropWhile (· ≠ 0)).head?, b.IsUTF8FirstByte := by
    intro b hb
    have hzero := List.head?_dropWhile_not (· ≠ 0) submitted
    rw [Option.mem_def.mp hb] at hzero
    have hb0 : b = 0 := by simpa using hzero
    rw [hb0]
    decide
  have hfront : Utf8 (submitted.takeWhile (· ≠ 0)) := by
    rw [← List.takeWhile_append_dropWhile (p := (· ≠ 0)) (l := submitted)] at h
    exact ((utf8_append_iff hrest).mp h).1
  rw [survivingText, ← List.take_takeWhile]
  exact hfront.take_iff 255

theorem textsUtf8_addOrUpdate_iff (hip : Ascii ip.bytes)
    (hbefore : ∀ peer ∈ registry.entries, peer.TextsUtf8) :
    (∀ peer ∈ (peerRegistryAddOrUpdate registry name ip port now).1.entries, peer.TextsUtf8) ↔
      registry.Refuses ip port ∨ Utf8 (copyString name : Chars 256).str.bytes := by
  cases hadded : (peerRegistryAddOrUpdate registry name ip port now).2 with
  | false =>
      have hsame := @registryCall_failed registry (.addOrUpdate name ip port now) hadded
      simp only [registryCall] at hsame
      rw [hsame]
      exact iff_of_true hbefore (.inl (addOrUpdate_refused_iff.mp hadded))
  | true =>
      have haccepted : ¬ registry.Refuses ip port := by
        intro hrefuses
        rw [addOrUpdate_refused_iff.mpr hrefuses] at hadded
        contradiction
      have hstored : Utf8 (copyString ip : Chars 46).str.bytes :=
        Ascii.utf8 fun b hb => hip b (List.mem_of_mem_take hb)
      rw [or_iff_right haccepted]
      rcases addOrUpdate_cases hadded with ⟨pre, old, post, hentries, -, hafter⟩ | ⟨-, hafter⟩
      · rw [hentries, List.forall_mem_append, List.forall_mem_cons] at hbefore
        obtain ⟨hpre, hold, hpost⟩ := hbefore
        rw [hafter, List.forall_mem_append, List.forall_mem_cons]
        exact ⟨fun h => h.2.1.name, fun h => ⟨hpre, ⟨h, hold.ip⟩, hpost⟩⟩
      · rw [hafter, List.forall_mem_append, List.forall_mem_singleton]
        exact ⟨fun h => h.2.name, fun h => ⟨hbefore, h, hstored⟩⟩

theorem utf8_addOrUpdate_iff {submitted : Bytes}
    (hstored : (copyString name : Chars 256).str.bytes = survivingText 256 submitted)
    (hname : Utf8 submitted) (hip : Ascii ip.bytes)
    (hbefore : Utf8 (peerRegistrySnapshotJson registry)) :
    Utf8 (peerRegistrySnapshotJson (peerRegistryAddOrUpdate registry name ip port now).1) ↔
      registry.Refuses ip port ∨ CutsBetween submitted := by
  rw [utf8_snapshot_iff, textsUtf8_addOrUpdate_iff hip (utf8_snapshot_iff.mp hbefore), hstored,
    utf8_survivingText_iff hname]

theorem utf8_markInactive_iff :
    Utf8 (peerRegistrySnapshotJson (peerRegistryMarkInactive registry name).1) ↔
      Utf8 (peerRegistrySnapshotJson registry) := by
  rw [utf8_snapshot_iff, utf8_snapshot_iff, peerRegistryMarkInactive, List.forall_mem_map]
  refine forall₂_congr fun peer _ => ?_
  split
  · exact ⟨fun h => ⟨h.name, h.ip⟩, fun h => ⟨h.name, h.ip⟩⟩
  · rfl

theorem utf8_setPaired_iff {paired : Bool} :
    Utf8 (peerRegistrySnapshotJson (peerRegistrySetPaired registry ip port paired).1) ↔
      Utf8 (peerRegistrySnapshotJson registry) := by
  cases hpaired : (peerRegistrySetPaired registry ip port paired).2 with
  | false =>
      have hsame := @registryCall_failed registry (.setPaired ip port paired) hpaired
      simp only [registryCall] at hsame
      rw [hsame]
  | true =>
      obtain ⟨pre, old, post, hentries, -, hafter⟩ := setPaired_cases hpaired
      rw [utf8_snapshot_iff, utf8_snapshot_iff, hafter, hentries, List.forall_mem_append,
        List.forall_mem_append, List.forall_mem_cons, List.forall_mem_cons]
      have htexts : PeerInfo.TextsUtf8 { old with paired := paired } ↔ old.TextsUtf8 :=
        ⟨fun h => ⟨h.name, h.ip⟩, fun h => ⟨h.name, h.ip⟩⟩
      rw [htexts]

end registry

def Request.NameFrom (request : Request) (items : List PostItem) : Prop :=
  ∀ port token expiresAt, request.phase = .exchangeAdd port token expiresAt →
    request.info.peerName = fieldBuffer 256 (.lit "peer_name") items

def NamesKnown (events : List Event) (process : Process) : Prop :=
  ∀ id request, process.requests id = some request →
    request.NameFrom (receivedItems id events)

/-- A step that gives `peer_registry_add_or_update` a name, and the name as it was submitted. -/
inductive Names (events : List Event) (process : Process) :
    Event → Bytes → CString → UInt16 → Prop
  | discovered (name ip : CString) (port : UInt16) :
      Names events process (.resolved name ip port) name.bytes ip port
  | exchanged (id : Nat) (env : ProceedEnv) (request : Request) (port : UInt16) (token : CString)
      (expiresAt : Time) (parts : List Part) (part : Part)
      (was : process.requests id = some request)
      (phase : request.phase = .exchangeAdd port token expiresAt)
      (delivered : Delivers parts (receivedItems id events))
      (last : lastWrite Part.key parts (.lit "peer_name") = some part) :
      Names events process (.proceed id env) part.content request.info.clientIp.str port

section names
variable {events : List Event} {process after : Process} {event : Event} {entries : List Entry}
  {id : Nat}

theorem nameFrom_call {request : Request} {items : List PostItem} (h : request.FillsForm items)
    (hphase : request.phase = .receiving) (upload : Option Body) (env : CallEnv) :
    (answerToConnection process.world id request upload env).2.1.NameFrom
      (items ++ upload.elim [] Body.items) := by
  intro port token expiresAt hadding
  cases @answerToConnection_callPhase process.world id request env hphase upload with
  | issued port' token' expiresAt' auth route parsed created shared moved =>
      have hport : (answerToConnection process.world id request upload env).2.1.usedPort =
          some port' := by
        rw [moved]
        rfl
      obtain ⟨rfl, hstatus, -⟩ := answerToConnection_port hphase upload hport
      have hroute : request.route.takesBody = true := by
        rw [route]
        rfl
      rw [moved, Option.elim_none, List.append_nil]
      exact (h hroute hphase).2 hstatus .peerName
  | receiving phase | answered reply phase | queued port token route phase =>
      rw [phase] at hadding
      contradiction
  | pairing port peer route valid parsed known shared moved =>
      rw [moved] at hadding
      contradiction

theorem nameFrom_proceed {request : Request} {items : List PostItem} {env : ProceedEnv}
    {outcome : Outcome} (h : proceed process.world id request env = some outcome) :
    outcome.2.1.NameFrom items := by
  intro port token expiresAt hadding
  cases proceed_proceeds h <;> contradiction

theorem namesKnown_step (past : List Event) (process : Process) (event : Event) (after : Process)
    (h : FormsKnown past process ∧ NamesKnown past process)
    (hstep : step process event = some after) :
    FormsKnown (past ++ [event]) after ∧ NamesKnown (past ++ [event]) after := by
  have hforms := formsKnown_step past process event after h.1 hstep
  obtain ⟨settled, entries, hnext, rfl⟩ := step_eq_some hstep
  refine ⟨hforms, fun id request hid => ?_⟩
  refine known_next h.1.unseen h.2 ?_ ?_ ?_ hnext hid
  · intro url method clientIp headers port token expiresAt hadding
    contradiction
  · intro id request upload env was phase
    exact nameFrom_call (h.1.filling id request was) phase upload env
  · intro id request env outcome was continues
    exact nameFrom_proceed continues

theorem Started.namesKnown (h : Started process) : NamesKnown [] process := by
  intro id request hid
  rw [h.requests] at hid
  contradiction

theorem Names.registry {submitted : Bytes} {ip : CString} {port : UInt16}
    (h : Names events process event submitted ip port) (hknown : NamesKnown events process)
    (hstep : step process event = some after) :
    ∃ name : CString, (copyString name : Chars 256).str.bytes = survivingText 256 submitted ∧
      after.world.registry = (peerRegistryAddOrUpdate process.world.registry name ip port
        process.world.clock).1 := by
  obtain ⟨settled, entries, hnext, rfl⟩ := step_eq_some hstep
  cases h with
  | discovered name =>
      cases Option.some.inj hnext
      exact ⟨name, copyString_bytes name, rfl⟩
  | exchanged id env request port token expiresAt parts part was phase delivered last =>
      cases next_steps hnext with
      | proceed id env request' outcome was' continues =>
          rw [was, Option.some.injEq] at was'
          subst was'
          have hbuffer := hknown id request was port token expiresAt phase
          refine ⟨request.info.peerName.str, ?_, ?_⟩
          · apply copyString_surviving
            rw [hbuffer, fieldBuffer_str (by decide) delivered, last]
            rfl
          · simp only [proceed, phase, Option.some.injEq] at continues
            rw [← continues]
            rfl

theorem Names.utf8_iff {submitted : Bytes} {ip : CString} {port : UInt16}
    (h : Names events process event submitted ip port) (hknown : NamesKnown events process)
    (hstep : step process event = some after) (hname : Utf8 submitted) (hip : Ascii ip.bytes)
    (hbefore : Utf8 (peerRegistrySnapshotJson process.world.registry)) :
    Utf8 (peerRegistrySnapshotJson after.world.registry) ↔
      process.world.registry.Refuses ip port ∨ CutsBetween submitted := by
  obtain ⟨name, hstored, hafter⟩ := h.registry hknown hstep
  rw [hafter]
  exact utf8_addOrUpdate_iff hstored hname hip hbefore

/-- In every run, however the name came in, the list is valid after a step that submits a valid
name exactly when nothing is stored or the cut is not inside a character. -/
theorem peerList_utf8_iff {start : Process} {submitted : Bytes} {ip : CString} {port : UInt16}
    (hstart : Started start) (hrun : run step start events = some process)
    (hstep : step process event = some after)
    (hnames : Names events process event submitted ip port)
    (hname : Utf8 submitted) (hip : Ascii ip.bytes)
    (hbefore : Utf8 (peerRegistrySnapshotJson process.world.registry)) :
    Utf8 (peerRegistrySnapshotJson after.world.registry) ↔
      process.world.registry.Refuses ip port ∨ CutsBetween submitted := by
  obtain ⟨-, hknown⟩ := run_history namesKnown_step ⟨hstart.formsKnown, hstart.namesKnown⟩ hrun
  rw [List.nil_append] at hknown
  exact hnames.utf8_iff hknown hstep hname hip hbefore

theorem peerList_utf8_kept (hstep : step process event = some after)
    (hresolved : ∀ name ip port, event ≠ .resolved name ip port)
    (hadding : ∀ id env request, event = .proceed id env → process.requests id = some request →
      ∀ port token expiresAt, request.phase ≠ .exchangeAdd port token expiresAt) :
    Utf8 (peerRegistrySnapshotJson after.world.registry) ↔
      Utf8 (peerRegistrySnapshotJson process.world.registry) := by
  obtain ⟨settled, entries, hnext, rfl⟩ := step_eq_some hstep
  change Utf8 (peerRegistrySnapshotJson settled.world.registry) ↔ _
  cases next_steps hnext with
  | resolved name ip port => exact absurd rfl (hresolved name ip port)
  | removed name => exact utf8_markInactive_iff
  | proceed id env request outcome was continues =>
      cases proceed_proceeds continues with
      | exchangeAdd phase => exact absurd phase (hadding id env request rfl was _ _ _)
      | exchangeMark | pairMark => exact utf8_setPaired_iff
      | pairRefused | pairAccepted | pairStore | sendCleanup | sendRefused | sendEnqueued => rfl
  | call id upload env request was phase =>
      have hsame := @answerToConnection_registry process.world id request env upload
      rw [Process.settle, hsame]
  | completed id request was releasable =>
      unfold requestCompleted
      split <;> rfl
  | tick | accept | workerTake | workerCall | workerProgress | workerDone | workerExit
  | serverStop | queueShutdown => rfl

end names

def namePart (front back : Bytes) : Part := ⟨.lit "peer_name", none, [front, back], by simp⟩

def exchangingName (front back : Bytes) : List Event :=
  [acceptPost "/api/pair/exchange" ⟨none, none⟩,
    sendFields 0 [fieldItem "pair_code" "222222",
      ⟨.lit "peer_name", none, front, 0, none, false, 0, false⟩,
      ⟨.lit "peer_name", none, back, front.length, none, false, 0, false⟩,
      fieldItem "peer_port" "8080"], sendEnd 0 7]

def exchangedName (front back : Bytes) : Option (Phase × Chars 46 × PeerRegistry) := do
  let process ← run step sampleStart (exchangingName front back)
  let request ← process.requests 0
  return (request.phase, request.info.clientIp, process.world.registry)

theorem names_exchangingName {front back : Bytes} {expiresAt : Time}
    (h : exchangedName front back =
      some (.exchangeAdd 8080 (sampleToken 7) expiresAt, sampleIp, peerRegistryInit)) :
    ∃ process after, run step sampleStart (exchangingName front back) = some process ∧
      step process (sampleProceed 0 0) = some after ∧
      process.world.registry = peerRegistryInit ∧
      Names (exchangingName front back) process (sampleProceed 0 0) (front ++ back)
        sampleIp.str 8080 := by
  simp only [exchangedName, Option.bind_eq_bind, Option.bind_eq_some_iff, Option.pure_def,
    Option.some.injEq, Prod.mk.injEq] at h
  obtain ⟨process, hrun, request, hid, hphase, hclient, hregistry⟩ := h
  have hparts : Delivers [fieldPart "pair_code" "222222", namePart front back,
      fieldPart "peer_port" "8080"] (receivedItems 0 (exchangingName front back)) := by
    simp [Delivers, receivedItems, exchangingName, Event.items, acceptPost, sendFields, sendEnd,
      Part.calls, pieceCalls, PostItem.call, fieldItem, fieldPart, namePart]
  have hlast : lastWrite Part.key [fieldPart "pair_code" "222222", namePart front back,
      fieldPart "peer_port" "8080"] (.lit "peer_name") = some (namePart front back) := rfl
  have hnames := Names.exchanged 0 ⟨.unavailable, CString.empty, some (.replicate 8 0)⟩ request
    8080 _ _ _ _ hid hphase hparts hlast
  have hcontent : (namePart front back).content = front ++ back := by
    simp [Part.content, namePart]
  rw [hcontent, hclient] at hnames
  have henabled : (step process (sampleProceed 0 0)).isSome = true := by
    simp [step, next, sampleProceed, hid, proceed, hphase]
  obtain ⟨after, hstep⟩ := Option.isSome_iff_exists.mp henabled
  exact ⟨process, after, hrun, hstep, hregistry, hnames⟩

theorem emptyList_utf8 : Utf8 (peerRegistrySnapshotJson peerRegistryInit) := by
  rw [utf8_snapshot_iff]
  intro peer hpeer
  contradiction

def cafeFront : Bytes := [99, 97, 102, 195]

theorem cafe_listed : ∃ process after,
    run step sampleStart (exchangingName cafeFront [169]) = some process ∧
      step process (sampleProceed 0 0) = some after ∧
      Utf8 (peerRegistrySnapshotJson after.world.registry) := by
  obtain ⟨process, after, hrun, hstep, hregistry, hnames⟩ :=
    @names_exchangingName cafeFront [169] 605800 (by decide +kernel)
  have hname : Utf8 (cafeFront ++ [169]) := utf8_iff.mpr ⟨['c', 'a', 'f', 'é'], by decide +kernel⟩
  have hbefore : Utf8 (peerRegistrySnapshotJson process.world.registry) := by
    rw [hregistry]
    exact emptyList_utf8
  refine ⟨process, after, hrun, hstep, ?_⟩
  exact (peerList_utf8_iff sampleStart_started hrun hstep hnames hname (by decide) hbefore).mpr
    (.inr (by decide))

def longFront : Bytes := List.replicate 254 97 ++ [195]

theorem longName_utf8 : Utf8 (longFront ++ [169]) := by
  have hletters : Ascii (List.replicate 254 97) := by decide +kernel
  have hlast : Utf8 [195, 169] := utf8_iff.mpr ⟨['é'], by decide +kernel⟩
  rw [longFront, List.append_assoc]
  exact hletters.utf8.append hlast

/-- A name of 256 bytes breaks the list, from either side. -/
theorem longName_breaks_list :
    (∃ process after, run step sampleStart (exchangingName longFront [169]) = some process ∧
      step process (sampleProceed 0 0) = some after ∧
      Names (exchangingName longFront [169]) process (sampleProceed 0 0) (longFront ++ [169])
        sampleIp.str 8080 ∧
      Utf8 (longFront ++ [169]) ∧ Utf8 (peerRegistrySnapshotJson process.world.registry) ∧
      ¬ Utf8 (peerRegistrySnapshotJson after.world.registry)) ∧
    ∃ name : CString, name.bytes = longFront ++ [169] ∧
      ¬ Utf8 (peerRegistrySnapshotJson
        (peerRegistryAddOrUpdate peerRegistryInit name sampleIp.str 8080 1000).1) := by
  have hcut : ¬ CutsBetween (longFront ++ [169]) := by decide +kernel
  have haccepted : ¬ peerRegistryInit.Refuses sampleIp.str 8080 := fun h => by cases h.2
  have hip : Ascii sampleIp.str.bytes := by decide
  constructor
  · obtain ⟨process, after, hrun, hstep, hregistry, hnames⟩ :=
      @names_exchangingName longFront [169] 605800 (by decide +kernel)
    have hbefore : Utf8 (peerRegistrySnapshotJson process.world.registry) := by
      rw [hregistry]
      exact emptyList_utf8
    refine ⟨process, after, hrun, hstep, hnames, longName_utf8, hbefore, ?_⟩
    obtain ⟨-, hknown⟩ := run_history namesKnown_step
      ⟨sampleStart_started.formsKnown, sampleStart_started.namesKnown⟩ hrun
    rw [hnames.utf8_iff hknown hstep longName_utf8 hip hbefore, hregistry]
    exact not_or.mpr ⟨haccepted, hcut⟩
  · obtain ⟨name, hbytes⟩ : ∃ name : CString, name.bytes = longFront ++ [169] :=
      ⟨⟨longFront ++ [169], by decide +kernel⟩, rfl⟩
    have hstored := @copyString_bytes 256 _ name
    rw [hbytes] at hstored
    refine ⟨name, hbytes, ?_⟩
    rw [utf8_addOrUpdate_iff hstored longName_utf8 hip emptyList_utf8]
    exact not_or.mpr ⟨haccepted, hcut⟩

end LocalDrop
