import LocalDrop.Auth
import Mathlib.Logic.Function.Basic

/-! `storage.c` over a file system that maps paths to regular files. What the
system calls answer is part of a call's arguments; `unlink` and the removal of a
renamed file's old name do not fail. -/
namespace LocalDrop
open Lib

/-- `creator` is history: the request whose `fopen` made the file. -/
structure File where
  creator : Option Nat
  content : Bytes
  mtime : Time
deriving DecidableEq

/-- What a stream wrote; the time changes only when it reached the file. -/
def File.append (data : Bytes) (touched : Bool) (now : Time) (file : File) : File :=
  { file with
    content := file.content ++ data
    mtime := if touched then now else file.mtime }

abbrev FileSystem := CString → Option File

def FileSystem.unlink (fs : FileSystem) (path : CString) : FileSystem :=
  Function.update fs path none

def FileSystem.modify (fs : FileSystem) (path : CString) (f : File → File) : FileSystem :=
  Function.update fs path ((fs path).map f)

/-- A target that exists is replaced. -/
def FileSystem.rename (fs : FileSystem) (source target : CString) : FileSystem :=
  Function.update (fs.unlink source) target (fs source)

/-- `default` is the stage after `memset`; `fp` says whether the stream is open. -/
structure UploadStage where
  fp : Bool
  originalName : Chars 256
  stagingPath : Chars 512
  bytesReceived : Nat
  sealed : Bool
deriving DecidableEq, Inhabited

def afterLast (separator : UInt8) (text : Bytes) : Option Bytes :=
  if separator ∈ text then some (text.reverse.takeWhile (· ≠ separator)).reverse else none

def isSafeByte (b : UInt8) : Bool :=
  (97 ≤ b && b ≤ 122) || (65 ≤ b && b ≤ 90) || isDigit b || b = 46 || b = 95 || b = 45

def sanitizeByte (b : UInt8) : UInt8 := if isSafeByte b then b else 95

theorem sanitizeByte_safe (b : UInt8) : isSafeByte (sanitizeByte b) = true := by
  unfold sanitizeByte
  split
  · assumption
  · decide

theorem notMem_map_sanitizeByte (text : Bytes) {b : UInt8} (hb : isSafeByte b = false) :
    b ∉ text.map sanitizeByte := by
  intro h
  obtain ⟨x, -, rfl⟩ := List.mem_map.mp h
  rw [sanitizeByte_safe] at hb
  contradiction

/-- A backslash only separates when there is no slash at all. -/
def sanitizeFilename (filename : Option CString) : Chars 256 :=
  match filename with
  | none => copyString (.lit "upload.bin")
  | some name =>
      if name = CString.empty then copyString (.lit "upload.bin")
      else
        let base := ((afterLast 47 name.bytes).or (afterLast 92 name.bytes)).getD name.bytes
        let safe : CString :=
          ⟨base.map sanitizeByte, notMem_map_sanitizeByte base (by decide)⟩
        if safe = CString.empty then copyString (.lit "upload.bin") else copyString safe

def stagingPath (now : Time) (token name : CString) : Chars 512 :=
  copyString (.lit "staging/" ++ .ofLong now ++ .lit "_" ++ token ++ .lit "_" ++ name)

def committedPath (now : Time) (name : CString) : Chars 512 :=
  copyString (.lit "downloads/" ++ .ofLong now ++ .lit "_" ++ name)

/-- The third component of a result is the text written for a failure. -/
def uploadStageOpen (fs : FileSystem) (creator : Nat) (filename : Option CString) (now : Time)
    (random : RandomBytes 8) (opened : Bool) : FileSystem × UploadStage × Option CString :=
  let safeFilename := sanitizeFilename filename
  let stage := { (default : UploadStage) with originalName := safeFilename }
  match cryptoRandomToken random with
  | none => (fs, stage, some (.lit "Falha ao gerar identificador do arquivo"))
  | some token =>
      let path := stagingPath now token safeFilename.str
      if opened then
        (Function.update fs path.str (some ⟨some creator, [], now⟩),
          { stage with fp := true, stagingPath := path }, none)
      else (fs, stage, some (.lit "Nao foi possivel criar o arquivo temporario"))

/-- `written` is what `fwrite` accepted, `touched` whether it reached the file and
so set its modification time; an unlinked file is written without a name. -/
def uploadStageWrite (fs : FileSystem) (stage : UploadStage) (data : Bytes) (maxFileSize : Nat)
    (now : Time) (written : Nat) (touched : Bool) :
    FileSystem × UploadStage × Option CString :=
  if !stage.fp then (fs, stage, some (.lit "Upload temporario nao foi inicializado"))
  else if maxFileSize < (stage.bytesReceived + data.length) % 2 ^ 64 then
    (fs, stage, some (.lit "Arquivo excede o limite permitido"))
  else
    let fs := fs.modify stage.stagingPath.str (File.append (data.take written) touched now)
    if written < data.length then
      (fs, stage, some (.lit "Falha ao gravar o arquivo temporario"))
    else
      (fs, { stage with bytesReceived := (stage.bytesReceived + data.length) % 2 ^ 64 }, none)

structure SealEnv where
  flushed : Bool
  closed : Bool
  touched : Bool
  renamed : Bool
deriving DecidableEq

def uploadStageSeal (fs : FileSystem) (stage : UploadStage) (now : Time) (env : SealEnv) :
    FileSystem × UploadStage × Option CString :=
  if stage.sealed then (fs, stage, none)
  else if !stage.fp then (fs, stage, some (.lit "Arquivo temporario ausente"))
  else
    let fs := fs.modify stage.stagingPath.str (File.append [] env.touched now)
    if !env.flushed then (fs, stage, some (.lit "Falha ao persistir o arquivo temporario"))
    else if !env.closed then
      (fs, { stage with fp := false }, some (.lit "Falha ao fechar o arquivo temporario"))
    else (fs, { stage with fp := false, sealed := true }, none)

def UploadStage.commitName (stage : UploadStage) : CString :=
  if stage.originalName.str ≠ CString.empty then stage.originalName.str else .lit "upload.bin"

/-- A commit answers with the error, or with the path the file now has. -/
def uploadStageCommit (fs : FileSystem) (stage : UploadStage) (now : Time) (env : SealEnv) :
    FileSystem × UploadStage × Except CString (Chars 512) :=
  match uploadStageSeal fs stage now env with
  | (fs, stage, some error) => (fs, stage, .error error)
  | (fs, stage, none) =>
      let path := committedPath now stage.commitName
      if env.renamed && (fs stage.stagingPath.str).isSome then
        (fs.rename stage.stagingPath.str path.str,
          { stage with stagingPath := copyString CString.empty }, .ok path)
      else (fs, stage, .error (.lit "Falha ao mover o arquivo para downloads"))

def storageDeleteFile (fs : FileSystem) (path : CString) : FileSystem :=
  if path = CString.empty then fs else fs.unlink path

def uploadStageAbort (fs : FileSystem) (stage : UploadStage) : FileSystem × UploadStage :=
  (storageDeleteFile fs stage.stagingPath.str, default)

/-- An entry that `readdir` lists for `staging/`. -/
def isStagingEntry (path : CString) : Bool :=
  (CString.lit "staging/").bytes.isPrefixOf path.bytes &&
    path.bytes.drop 8 ≠ [] && !(path.bytes.drop 8).contains 47

def File.expired (maxAgeSeconds now : Time) (file : File) : Bool :=
  file.mtime + maxAgeSeconds ≤ now

/-- Entries are looked at one by one and independently. -/
def cleanupExpiredStagingFiles (fs : FileSystem) (maxAgeSeconds now : Time) : FileSystem :=
  if maxAgeSeconds ≤ 0 then fs
  else fun path =>
    if isStagingEntry path && (fs path).any (File.expired maxAgeSeconds now) then none
    else fs path

def stagingRetentionSeconds : Time := 86400

theorem sanitizeFilename_safe (filename : Option CString) {b : UInt8}
    (hb : isSafeByte b = false) : b ∉ (sanitizeFilename filename).str.bytes := by
  have hdefault : b ∉ (copyString (.lit "upload.bin") : Chars 256).str.bytes := by
    intro h
    have hall : ∀ c ∈ (copyString (.lit "upload.bin") : Chars 256).str.bytes,
        isSafeByte c = true := by decide +kernel
    rw [hall b h] at hb
    contradiction
  unfold sanitizeFilename
  split
  · exact hdefault
  · split
    · exact hdefault
    · dsimp only
      split
      · exact hdefault
      · intro h
        exact notMem_map_sanitizeByte _ hb (List.mem_of_mem_take h)

theorem isStagingEntry_stagingPath (now : Time) {random : RandomBytes 8} {token name : CString}
    (htoken : cryptoRandomToken random = some token) (hname : 47 ∉ name.bytes) :
    isStagingEntry (stagingPath now token name).str = true := by
  have hhex : (47 : UInt8) ∉ token.bytes := by
    intro h
    obtain ⟨value, hvalue⟩ := hexDigit_of_mem_token htoken h
    have hdigit := hexDigit_toNat value
    rw [← hvalue] at hdigit
    change 47 = _ at hdigit
    split at hdigit <;> omega
  have hpath : (stagingPath now token name).str.bytes =
      (CString.lit "staging/").bytes ++
        (formatLong now ++ 95 :: (token.bytes ++ 95 :: name.bytes)).take 503 := by
    have hshape : (stagingPath now token name).str.bytes =
        ((CString.lit "staging/").bytes ++
          (formatLong now ++ 95 :: (token.bytes ++ 95 :: name.bytes))).take 511 := by
      simp only [stagingPath, copyString, CString.take, CString.append_bytes, List.append_assoc]
      rfl
    rw [hshape, List.take_append, List.take_of_length_le (by decide)]
    rfl
  have hdrop : (stagingPath now token name).str.bytes.drop 8 =
      (formatLong now ++ 95 :: (token.bytes ++ 95 :: name.bytes)).take 503 := by
    rw [hpath, List.drop_append]
    rfl
  have hslash : (47 : UInt8) ∉ formatLong now ++ 95 :: (token.bytes ++ 95 :: name.bytes) := by
    simp [hhex, hname, notMem_formatLong]
  unfold isStagingEntry
  rw [hdrop, hpath]
  simp only [Bool.and_eq_true, Bool.not_eq_true', decide_eq_true_eq, List.isPrefixOf_iff_prefix,
    List.prefix_append, true_and, List.contains_eq_mem, decide_eq_false_iff_not]
  refine ⟨?_, fun h => hslash (List.mem_of_mem_take h)⟩
  simp

theorem isStagingEntry_committedPath (now : Time) (name : CString) :
    isStagingEntry (committedPath now name).str = false := by
  have hhead : ∃ rest, (committedPath now name).str.bytes = 100 :: rest :=
    ⟨_, rfl⟩
  obtain ⟨rest, hrest⟩ := hhead
  unfold isStagingEntry
  rw [hrest]
  rfl

structure FileSystem.Touches (fs fs' : FileSystem) (path : CString) : Prop where
  others : ∀ other, other ≠ path → fs' other = fs other
  creator : (fs' path).map File.creator = (fs path).map File.creator

structure FileSystem.Creates (fs fs' : FileSystem) (path : CString) (creator : Nat) : Prop where
  others : ∀ other, other ≠ path → fs' other = fs other
  self : (fs' path).map File.creator = some (some creator)

namespace FileSystem

theorem Touches.refl (fs : FileSystem) (path : CString) : fs.Touches fs path :=
  ⟨fun _ _ => rfl, rfl⟩

theorem Touches.trans {fs fs' fs'' : FileSystem} {path : CString} (h : fs.Touches fs' path)
    (h' : fs'.Touches fs'' path) : fs.Touches fs'' path :=
  ⟨fun other hne => (h'.others other hne).trans (h.others other hne),
    h'.creator.trans h.creator⟩

theorem Creates.touches {fs fs' fs'' : FileSystem} {path : CString} {creator : Nat}
    (h : fs.Creates fs' path creator) (h' : fs'.Touches fs'' path) :
    fs.Creates fs'' path creator :=
  ⟨fun other hne => (h'.others other hne).trans (h.others other hne), h'.creator.trans h.self⟩

theorem modify_touches (fs : FileSystem) (path : CString) {f : File → File}
    (hf : ∀ file, (f file).creator = file.creator) : fs.Touches (fs.modify path f) path where
  others other hne := Function.update_of_ne hne ..
  creator := by
    rw [FileSystem.modify, Function.update_self, Option.map_map]
    exact congrArg (fun g => Option.map g (fs path)) (funext hf)

end FileSystem

def UploadStage.Closed (stage : UploadStage) : Prop :=
  stage.fp = false ∧ stage.sealed = false ∧ stage.stagingPath.str = CString.empty

def UploadStage.Open (stage : UploadStage) : Prop :=
  stage.fp = true ∧ stage.sealed = false ∧ isStagingEntry stage.stagingPath.str = true

theorem isStagingEntry_ne_empty {path : CString} (h : isStagingEntry path = true) :
    path ≠ CString.empty := by
  rintro rfl
  exact absurd h (by decide)

theorem uploadStageOpen_cases (fs : FileSystem) (creator : Nat) (filename : Option CString)
    (now : Time) (random : RandomBytes 8) (opened : Bool) :
    (∃ stage error, stage.Closed ∧
      uploadStageOpen fs creator filename now random opened = (fs, stage, some error)) ∨
    ∃ fs' stage, stage.Open ∧ fs.Creates fs' stage.stagingPath.str creator ∧
      uploadStageOpen fs creator filename now random opened = (fs', stage, none) := by
  unfold uploadStageOpen
  dsimp only
  split
  · exact .inl ⟨_, _, ⟨rfl, rfl, rfl⟩, rfl⟩
  · rename_i token htoken
    split
    · refine .inr ⟨_, _, ⟨rfl, rfl, ?_⟩, ⟨?_, ?_⟩, rfl⟩
      · exact isStagingEntry_stagingPath now htoken (sanitizeFilename_safe filename (by decide))
      · exact fun other hne => Function.update_of_ne hne ..
      · simp
    · exact .inl ⟨_, _, ⟨rfl, rfl, rfl⟩, rfl⟩

theorem uploadStageWrite_spec {fs fs' : FileSystem} {stage stage' : UploadStage} {data : Bytes}
    {limit : Nat} {now : Time} {written : Nat} {touched : Bool} {error : Option CString}
    (h : uploadStageWrite fs stage data limit now written touched = (fs', stage', error)) :
    stage'.fp = stage.fp ∧ stage'.sealed = stage.sealed ∧
      stage'.stagingPath = stage.stagingPath ∧ stage'.originalName = stage.originalName ∧
      fs.Touches fs' stage.stagingPath.str := by
  unfold uploadStageWrite at h
  split at h
  · cases h
    exact ⟨rfl, rfl, rfl, rfl, .refl _ _⟩
  · split at h
    · cases h
      exact ⟨rfl, rfl, rfl, rfl, .refl _ _⟩
    · split at h <;> cases h <;>
        exact ⟨rfl, rfl, rfl, rfl, FileSystem.modify_touches _ _ fun _ => rfl⟩

theorem uploadStageSeal_spec {fs fs' : FileSystem} {stage stage' : UploadStage} {now : Time}
    {env : SealEnv} {error : Option CString}
    (h : uploadStageSeal fs stage now env = (fs', stage', error)) :
    stage'.stagingPath = stage.stagingPath ∧ stage'.originalName = stage.originalName ∧
      fs.Touches fs' stage.stagingPath.str := by
  unfold uploadStageSeal at h
  split at h
  · cases h
    exact ⟨rfl, rfl, .refl _ _⟩
  · split at h
    · cases h
      exact ⟨rfl, rfl, .refl _ _⟩
    · split at h
      · cases h
        exact ⟨rfl, rfl, FileSystem.modify_touches _ _ fun _ => rfl⟩
      · split at h <;> cases h <;>
          exact ⟨rfl, rfl, FileSystem.modify_touches _ _ fun _ => rfl⟩

/-- A commit fails and leaves the file staged, or moves it into `downloads/`. -/
theorem uploadStageCommit_cases (fs : FileSystem) (stage : UploadStage) (now : Time)
    (env : SealEnv) :
    (∃ fs' stage' error, stage'.stagingPath = stage.stagingPath ∧
      fs.Touches fs' stage.stagingPath.str ∧
      uploadStageCommit fs stage now env = (fs', stage', .error error)) ∨
    ∃ fs' stage' file, stage'.stagingPath.str = CString.empty ∧
      fs.Touches fs' stage.stagingPath.str ∧ fs' stage.stagingPath.str = some file ∧
      uploadStageCommit fs stage now env =
        (fs'.rename stage.stagingPath.str (committedPath now stage.commitName).str, stage',
          .ok (committedPath now stage.commitName)) := by
  unfold uploadStageCommit
  split
  · rename_i fs' stage' error hseal
    obtain ⟨hpath, -, htouch⟩ := uploadStageSeal_spec hseal
    exact .inl ⟨fs', stage', error, hpath, htouch, rfl⟩
  · rename_i fs' stage' hseal
    obtain ⟨hpath, hname, htouch⟩ := uploadStageSeal_spec hseal
    dsimp only
    split
    · rename_i hrename
      simp only [Bool.and_eq_true] at hrename
      obtain ⟨file, hfile⟩ := Option.isSome_iff_exists.mp hrename.2
      rw [hpath] at hfile
      refine .inr ⟨fs', { stage' with stagingPath := copyString CString.empty }, file, rfl,
        htouch, hfile, ?_⟩
      simp only [UploadStage.commitName, hpath, hname]
    · exact .inl ⟨fs', stage', _, hpath, htouch, rfl⟩

end LocalDrop
