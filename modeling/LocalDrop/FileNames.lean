import LocalDrop.Storage

/-! The names that files are stored under. A client's file name is reduced to a safe one, and
the paths made of it stay in their directory. -/
namespace LocalDrop
open Lib

def IsLong (value : Int) : Prop := -2 ^ 63 ≤ value ∧ value < 2 ^ 63

instance (value : Int) : Decidable (IsLong value) := inferInstanceAs (Decidable (_ ∧ _))

section names
variable {filename : Option CString} {name : CString}

theorem sanitizeFilename_ne_empty (filename : Option CString) :
    (sanitizeFilename filename).str ≠ CString.empty := by
  have hdefault : (copyString (.lit "upload.bin") : Chars 256).str ≠ CString.empty := by decide
  unfold sanitizeFilename
  split
  · exact hdefault
  · split
    · exact hdefault
    · dsimp only
      split
      · exact hdefault
      · rename_i hsafe
        intro hempty
        apply hsafe
        have hbytes := congrArg CString.bytes hempty
        simp only [copyString, CString.take, CString.empty, List.take_eq_nil_iff] at hbytes
        exact CString.ext (hbytes.resolve_left (by decide))

theorem sanitizeFilename_bytes (filename : Option CString) :
    ∀ b ∈ (sanitizeFilename filename).str.bytes, isSafeByte b = true := by
  intro b hb
  by_contra hunsafe
  exact sanitizeFilename_safe filename (by simpa using hunsafe) hb

theorem sanitizeFilename_of_safe (hne : name ≠ CString.empty)
    (hsafe : ∀ b ∈ name.bytes, isSafeByte b = true) :
    sanitizeFilename (some name) = copyString name := by
  have habsent : ∀ separator, isSafeByte separator = false → afterLast separator name.bytes = none
      := by
    intro separator hunsafe
    rw [afterLast, if_neg]
    intro hmem
    rw [hsafe separator hmem] at hunsafe
    contradiction
  have hself : name.bytes.map sanitizeByte = name.bytes := by
    refine (List.map_congr_left fun b hb => ?_).trans (List.map_id _)
    rw [sanitizeByte, if_pos (hsafe b hb), id_eq]
  unfold sanitizeFilename
  dsimp only
  rw [if_neg hne]
  simp only [habsent 47 (by decide), habsent 92 (by decide), Option.or_none, Option.getD_none,
    hself]
  rw [if_neg hne]

theorem sanitizeFilename_idempotent (filename : Option CString) :
    sanitizeFilename (some (sanitizeFilename filename).str) = sanitizeFilename filename := by
  rw [sanitizeFilename_of_safe (sanitizeFilename_ne_empty filename)
    (sanitizeFilename_bytes filename), copyString_str]

end names

def stagingComponent (now : Time) (token name : CString) : Bytes :=
  formatLong now ++ 95 :: (token.bytes ++ 95 :: name.bytes)

def committedComponent (now : Time) (name : CString) : Bytes := formatLong now ++ 95 :: name.bytes

section paths
variable {now : Time} {random : RandomBytes 8} {token name : CString}

theorem stagingPath_whole (hnow : IsLong now) (htoken : cryptoRandomToken random = some token)
    (hname : name.length < 256) :
    (stagingPath now token name).str =
        .lit "staging/" ++ .ofLong now ++ .lit "_" ++ token ++ .lit "_" ++ name ∧
      (stagingPath now token name).str.bytes =
        (CString.lit "staging/").bytes ++ stagingComponent now token name := by
  have hclock := formatLong_length_long hnow
  have hlength := cryptoRandomToken_length htoken
  have hwhole : (CString.lit "staging/" ++ .ofLong now ++ .lit "_" ++ token ++ .lit "_" ++
      name).length < 512 := by
    have hliterals : (CString.lit "staging/").bytes.length = 8 ∧
        (CString.lit "_").bytes.length = 1 := by decide
    have hlong : (CString.ofLong now).bytes = formatLong now := rfl
    unfold CString.length at hname hlength ⊢
    simp only [CString.append_bytes, List.length_append, hliterals, hlong]
    omega
  rw [stagingPath, copyString_str_of_lt _ hwhole]
  refine ⟨rfl, ?_⟩
  simp only [CString.append_bytes, List.append_assoc]
  rfl

theorem committedPath_whole (hnow : IsLong now) (hname : name.length < 256) :
    (committedPath now name).str =
        .lit "downloads/" ++ .ofLong now ++ .lit "_" ++ name ∧
      (committedPath now name).str.bytes =
        (CString.lit "downloads/").bytes ++ committedComponent now name := by
  have hclock := formatLong_length_long hnow
  have hwhole : (CString.lit "downloads/" ++ .ofLong now ++ .lit "_" ++ name).length < 512 := by
    have hliterals : (CString.lit "downloads/").bytes.length = 10 ∧
        (CString.lit "_").bytes.length = 1 := by decide
    have hlong : (CString.ofLong now).bytes = formatLong now := rfl
    unfold CString.length at hname ⊢
    simp only [CString.append_bytes, List.length_append, hliterals, hlong]
    omega
  rw [committedPath, copyString_str_of_lt _ hwhole]
  refine ⟨rfl, ?_⟩
  simp only [CString.append_bytes, List.append_assoc]
  rfl

theorem token_bytes (htoken : cryptoRandomToken random = some token) :
    ∀ b ∈ token.bytes, isSafeByte b = true := by
  intro b hb
  obtain ⟨value, rfl⟩ := hexDigit_of_mem_token htoken hb
  have hdigit := hexDigit_toNat value
  have hmod : value % 16 < 16 := Nat.mod_lt _ (by decide)
  have hrange : 48 ≤ (hexDigit value).toNat ∧ (hexDigit value).toNat ≤ 57 ∨
      97 ≤ (hexDigit value).toNat ∧ (hexDigit value).toNat ≤ 122 := by
    split at hdigit <;> omega
  simp only [isSafeByte, isDigit, Bool.or_eq_true, Bool.and_eq_true, decide_eq_true_eq,
    UInt8.le_iff_toNat_le]
  rcases hrange with hrange | hrange
  · exact .inl (.inl (.inl (.inr hrange)))
  · exact .inl (.inl (.inl (.inl (.inl hrange))))

theorem formatLong_bytes (value : Int) : ∀ b ∈ formatLong value, isSafeByte b = true := by
  have hdecimal : ∀ n, ∀ b ∈ decimal n, isSafeByte b = true := by
    intro n b hb
    simp only [isSafeByte, isDigit_decimal hb, Bool.or_true, Bool.true_or]
  intro b hb
  unfold formatLong at hb
  split at hb
  · rcases List.mem_cons.mp hb with rfl | hb
    · decide
    · exact hdecimal _ b hb
  · exact hdecimal _ b hb

theorem stagingComponent_bytes (htoken : cryptoRandomToken random = some token)
    (hname : ∀ b ∈ name.bytes, isSafeByte b = true) :
    ∀ b ∈ stagingComponent now token name, isSafeByte b = true := by
  intro b hb
  simp only [stagingComponent, List.mem_append, List.mem_cons] at hb
  rcases hb with hb | rfl | hb | rfl | hb
  · exact formatLong_bytes now b hb
  · decide
  · exact token_bytes htoken b hb
  · decide
  · exact hname b hb

theorem committedComponent_bytes (hname : ∀ b ∈ name.bytes, isSafeByte b = true) :
    ∀ b ∈ committedComponent now name, isSafeByte b = true := by
  intro b hb
  simp only [committedComponent, List.mem_append, List.mem_cons] at hb
  rcases hb with hb | rfl | hb
  · exact formatLong_bytes now b hb
  · decide
  · exact hname b hb

/-- The path names an entry of the directory, and the entry's name ends in this one. -/
def InDirectory (directory name path : CString) : Prop :=
  ∃ component, path.bytes = directory.bytes ++ 47 :: component ∧ path.bytes.count 47 = 1 ∧
    component ≠ [46] ∧ component ≠ [46, 46] ∧ name.bytes <:+ component

theorem inDirectory_of_safe {directory path : CString} {component : Bytes}
    (hpath : path.bytes = directory.bytes ++ 47 :: component)
    (hdirectory : (47 : UInt8) ∉ directory.bytes)
    (hsafe : ∀ b ∈ component, isSafeByte b = true) (hname : 95 :: name.bytes <:+ component) :
    InDirectory directory name path := by
  have hmem : (95 : UInt8) ∈ component := hname.subset (by simp)
  have hslash : (47 : UInt8) ∉ component := fun hslash => absurd (hsafe 47 hslash) (by decide)
  refine ⟨component, hpath, ?_, ?_, ?_, (List.suffix_cons _ _).trans hname⟩
  · rw [hpath, List.count_append, List.count_cons_self, List.count_eq_zero_of_not_mem hdirectory,
      List.count_eq_zero_of_not_mem hslash]
  · rintro rfl
    exact absurd hmem (by decide)
  · rintro rfl
    exact absurd hmem (by decide)

theorem uploadStageOpen_path {fs fs' : FileSystem} {creator : Nat} {filename : Option CString}
    {opened : Bool} {stage : UploadStage}
    (h : uploadStageOpen fs creator filename now random opened = (fs', stage, none)) :
    stage.originalName = sanitizeFilename filename ∧ ∃ token,
      cryptoRandomToken random = some token ∧
      stage.stagingPath = stagingPath now token (sanitizeFilename filename).str := by
  unfold uploadStageOpen at h
  dsimp only at h
  split at h
  · simp at h
  · rename_i token htoken
    split at h
    · cases h
      exact ⟨rfl, token, htoken, rfl⟩
    · simp at h

theorem uploadStageCommit_path {fs fs' : FileSystem} {stage stage' : UploadStage} {env : SealEnv}
    {path : Chars 512} (h : uploadStageCommit fs stage now env = (fs', stage', .ok path)) :
    path = committedPath now stage.commitName ∧ ∃ sealed,
      fs.Touches sealed stage.stagingPath.str ∧
      fs' = sealed.rename stage.stagingPath.str path.str := by
  rcases uploadStageCommit_cases fs stage now env with
    ⟨_, _, _, -, -, heq⟩ | ⟨sealed, _, _, -, htouch, -, heq⟩
  · rw [h] at heq
    simp at heq
  · rw [h] at heq
    simp only [Prod.mk.injEq, Except.ok.injEq] at heq
    obtain ⟨rfl, -, rfl⟩ := heq
    exact ⟨rfl, sealed, htouch, rfl⟩

theorem commitName_of_sanitized {stage : UploadStage} {filename : Option CString}
    (h : stage.originalName = sanitizeFilename filename) :
    stage.commitName = (sanitizeFilename filename).str := by
  rw [UploadStage.commitName, h, if_pos (sanitizeFilename_ne_empty filename)]

end paths

/-- Whatever a client calls its file, the safe name is of safe bytes and fits its buffer, is its
own safe name, and the paths made of it are built whole and stay in their directory. -/
theorem filename_confined (filename : Option CString) {now : Time} (hnow : IsLong now) :
    let name := (sanitizeFilename filename).str
    name ≠ CString.empty ∧ name.length ≤ 255 ∧ (∀ b ∈ name.bytes, isSafeByte b = true) ∧
    sanitizeFilename (some name) = sanitizeFilename filename ∧
    (∀ fs creator random opened fs' stage,
      uploadStageOpen fs creator filename now random opened = (fs', stage, none) →
      stage.originalName = sanitizeFilename filename ∧ ∃ token,
        cryptoRandomToken random = some token ∧
        stage.stagingPath.str =
          .lit "staging/" ++ .ofLong now ++ .lit "_" ++ token ++ .lit "_" ++ name ∧
        InDirectory (.lit "staging") name stage.stagingPath.str) ∧
    ∀ fs stage env fs' stage' path, stage.originalName = sanitizeFilename filename →
      uploadStageCommit fs stage now env = (fs', stage', .ok path) →
      path.str = .lit "downloads/" ++ .ofLong now ++ .lit "_" ++ name ∧
      InDirectory (.lit "downloads") name path.str ∧ ∃ sealed,
        fs.Touches sealed stage.stagingPath.str ∧
        fs' = sealed.rename stage.stagingPath.str path.str := by
  have hfits : (sanitizeFilename filename).str.length < 256 := (sanitizeFilename filename).fits
  have hsafe := sanitizeFilename_bytes filename
  refine ⟨sanitizeFilename_ne_empty filename, Nat.le_of_lt_succ hfits, hsafe,
    sanitizeFilename_idempotent filename, ?_, ?_⟩
  · intro fs creator random opened fs' stage hopen
    obtain ⟨hname, token, htoken, hpath⟩ := uploadStageOpen_path hopen
    obtain ⟨hwhole, hbytes⟩ := stagingPath_whole hnow htoken hfits
    refine ⟨hname, token, htoken, hpath ▸ hwhole, ?_⟩
    rw [hpath]
    refine inDirectory_of_safe hbytes (by decide) (stagingComponent_bytes htoken hsafe) ?_
    exact ⟨formatLong now ++ 95 :: token.bytes, by simp [stagingComponent]⟩
  · intro fs stage env fs' stage' path hname hcommit
    obtain ⟨hpath, sealed, htouch, hrename⟩ := uploadStageCommit_path hcommit
    obtain ⟨hwhole, hbytes⟩ := committedPath_whole hnow hfits
    rw [commitName_of_sanitized hname] at hpath
    rw [hpath] at hrename ⊢
    refine ⟨hwhole, inDirectory_of_safe hbytes (by decide) (committedComponent_bytes hsafe) ?_,
      sealed, htouch, hrename⟩
    exact ⟨formatLong now, rfl⟩

/-- Opened and committed in one second. -/
theorem dots_confined : ∃ fs stage fs' stage' path,
    uploadStageOpen (fun _ => none) 0 (some (.lit "../..")) 1700000000
      (some (.replicate 8 1)) true = (fs, stage, none) ∧
    uploadStageCommit fs stage 1700000000 ⟨true, true, true, true⟩ = (fs', stage', .ok path) ∧
    InDirectory (.lit "staging") (.lit "..") stage.stagingPath.str ∧
    InDirectory (.lit "downloads") (.lit "..") path.str ∧
    (fs' path.str).isSome = true := by
  obtain ⟨-, -, -, -, hopened, hcommitted⟩ :=
    @filename_confined (some (.lit "../..")) 1700000000 (by decide)
  have hname : (sanitizeFilename (some (.lit "../.."))).str = .lit ".." := by decide +kernel
  rw [hname] at hopened hcommitted
  obtain ⟨fs, stage, hopen⟩ : ∃ fs stage, uploadStageOpen (fun _ => none) 0
      (some (.lit "../..")) 1700000000 (some (.replicate 8 1)) true = (fs, stage, none) :=
    ⟨_, _, rfl⟩
  obtain ⟨horiginal, -, -, -, hstaged⟩ := hopened _ _ _ _ _ _ hopen
  obtain ⟨hopened, hunsealed, hpresent⟩ : stage.fp = true ∧ stage.sealed = false ∧
      (fs stage.stagingPath.str).isSome = true := by
    cases hopen
    exact ⟨rfl, rfl, by simp⟩
  obtain ⟨fs', stage', path, hcommit⟩ : ∃ fs' stage' path, uploadStageCommit fs stage 1700000000
      ⟨true, true, true, true⟩ = (fs', stage', .ok path) := by
    simp [uploadStageCommit, uploadStageSeal, hopened, hunsealed, FileSystem.modify, hpresent]
  obtain ⟨-, hdownloads, sealed, htouch, hrename⟩ := hcommitted _ _ _ _ _ _ horiginal hcommit
  refine ⟨fs, stage, fs', stage', path, hopen, hcommit, hstaged, hdownloads, ?_⟩
  rw [hrename]
  have hkept := congrArg Option.isSome htouch.creator
  simpa [FileSystem.rename, hpresent] using hkept

/-- The last component of a path, which is also the name curl sends for the file. -/
def baseName (path : CString) : CString where
  bytes := (afterLast 47 path.bytes).getD path.bytes
  nulFree h := by
    unfold afterLast at h
    split at h
    · rw [Option.getD_some, List.mem_reverse] at h
      exact path.nulFree (List.mem_reverse.mp ((List.takeWhile_prefix _).subset h))
    · exact path.nulFree h

theorem baseName_bytes {path : CString} {directory component : Bytes}
    (hpath : path.bytes = directory ++ 47 :: component) (hslash : (47 : UInt8) ∉ component) :
    (baseName path).bytes = component := by
  have hmem : (47 : UInt8) ∈ path.bytes := by simp [hpath]
  have hall : ∀ b ∈ component.reverse, (decide (b ≠ 47)) = true := by
    intro b hb
    have hne : b ≠ 47 := fun heq => hslash (heq ▸ List.mem_reverse.mp hb)
    simpa using hne
  unfold baseName afterLast
  dsimp only
  rw [if_pos hmem, Option.getD_some, hpath, List.reverse_append,
    List.reverse_cons, List.append_assoc, List.singleton_append,
    List.takeWhile_append_of_pos hall, List.takeWhile_cons_of_neg (by simp), List.append_nil,
    List.reverse_reverse]

/-- The names a file gets: staged and committed where it is uploaded, and staged and committed
where the staged file is sent to. -/
def storedNames (filename : Option CString) (staged committed remoteStaged remoteCommitted : Time)
    (token remoteToken : CString) : List CString :=
  let name := (sanitizeFilename filename).str
  let source := stagingPath staged token name
  let forwarded := (sanitizeFilename (some (baseName source.str))).str
  [baseName source.str, baseName (committedPath committed name).str,
    baseName (stagingPath remoteStaged remoteToken forwarded).str,
    baseName (committedPath remoteCommitted forwarded).str]

/-- Where a file is staged and committed, and staged and committed again on the node that the
staged file is sent to, these are the names it has there. -/
theorem storedNames_stored {fs fs' fs₁ fs₁' remote remote' remote₁ remote₁' : FileSystem}
    {creator remoteCreator : Nat} {filename : Option CString}
    {staged committed remoteStaged remoteCommitted : Time} {random remoteRandom : RandomBytes 8}
    {opened remoteOpened : Bool} {stage sealed sealed' remoteStage remoteSealed remoteSealed' :
      UploadStage} {env remoteEnv : SealEnv} {path remotePath : Chars 512}
    (hopen : uploadStageOpen fs creator filename staged random opened = (fs', stage, none))
    (hsealed : sealed.originalName = stage.originalName)
    (hcommit : uploadStageCommit fs₁ sealed committed env = (fs₁', sealed', .ok path))
    (hremoteOpen : uploadStageOpen remote remoteCreator (some (baseName stage.stagingPath.str))
      remoteStaged remoteRandom remoteOpened = (remote', remoteStage, none))
    (hremoteSealed : remoteSealed.originalName = remoteStage.originalName)
    (hremoteCommit : uploadStageCommit remote₁ remoteSealed remoteCommitted remoteEnv =
      (remote₁', remoteSealed', .ok remotePath)) :
    ∃ token remoteToken, cryptoRandomToken random = some token ∧
      cryptoRandomToken remoteRandom = some remoteToken ∧
      storedNames filename staged committed remoteStaged remoteCommitted token remoteToken =
        [baseName stage.stagingPath.str, baseName path.str, baseName remoteStage.stagingPath.str,
          baseName remotePath.str] := by
  obtain ⟨hname, token, htoken, hpath⟩ := uploadStageOpen_path hopen
  obtain ⟨hremoteName, remoteToken, hremoteToken, hremotePath⟩ := uploadStageOpen_path hremoteOpen
  have hcommitted := (uploadStageCommit_path hcommit).1
  have hremoteCommitted := (uploadStageCommit_path hremoteCommit).1
  rw [commitName_of_sanitized (hsealed.trans hname)] at hcommitted
  rw [commitName_of_sanitized (hremoteSealed.trans hremoteName)] at hremoteCommitted
  refine ⟨token, remoteToken, htoken, hremoteToken, ?_⟩
  rw [storedNames, hremotePath, hremoteCommitted, hcommitted, hpath]

def nameMax : Nat := 255

section lengths
variable {now : Time} {random : RandomBytes 8} {token name : CString}

theorem baseName_stagingPath (hnow : IsLong now) (htoken : cryptoRandomToken random = some token)
    (hfits : name.length < 256) (hsafe : ∀ b ∈ name.bytes, isSafeByte b = true) :
    (baseName (stagingPath now token name).str).bytes = stagingComponent now token name := by
  have hpath : (stagingPath now token name).str.bytes =
      (CString.lit "staging").bytes ++ 47 :: stagingComponent now token name :=
    (stagingPath_whole hnow htoken hfits).2
  refine baseName_bytes hpath fun hslash => ?_
  exact absurd (stagingComponent_bytes htoken hsafe 47 hslash) (by decide)

theorem baseName_committedPath (hnow : IsLong now) (hfits : name.length < 256)
    (hsafe : ∀ b ∈ name.bytes, isSafeByte b = true) :
    (baseName (committedPath now name).str).bytes = committedComponent now name := by
  have hpath : (committedPath now name).str.bytes =
      (CString.lit "downloads").bytes ++ 47 :: committedComponent now name :=
    (committedPath_whole hnow hfits).2
  refine baseName_bytes hpath fun hslash => ?_
  exact absurd (committedComponent_bytes hsafe 47 hslash) (by decide)

theorem stagedName_length (hnow : IsLong now) (htoken : cryptoRandomToken random = some token)
    (hfits : name.length < 256) (hsafe : ∀ b ∈ name.bytes, isSafeByte b = true) :
    (baseName (stagingPath now token name).str).length =
      (formatLong now).length + name.length + 18 := by
  have hlength := cryptoRandomToken_length htoken
  rw [CString.length, baseName_stagingPath hnow htoken hfits hsafe]
  unfold CString.length at hlength ⊢
  simp only [stagingComponent, List.length_append, List.length_cons, hlength]
  omega

theorem committedName_length (hnow : IsLong now) (hfits : name.length < 256)
    (hsafe : ∀ b ∈ name.bytes, isSafeByte b = true) :
    (baseName (committedPath now name).str).length =
      (formatLong now).length + name.length + 1 := by
  rw [CString.length, baseName_committedPath hnow hfits hsafe]
  unfold CString.length
  simp only [committedComponent, List.length_append, List.length_cons]
  omega

theorem sanitizeFilename_forwarded (hnow : IsLong now)
    (htoken : cryptoRandomToken random = some token) (hfits : name.length < 256)
    (hsafe : ∀ b ∈ name.bytes, isSafeByte b = true) :
    (sanitizeFilename (some (baseName (stagingPath now token name).str))).str.length =
      min 255 ((formatLong now).length + name.length + 18) := by
  have hbytes := baseName_stagingPath hnow htoken hfits hsafe
  have hne : baseName (stagingPath now token name).str ≠ CString.empty := by
    intro hempty
    have hnil := congrArg CString.bytes hempty
    rw [hbytes] at hnil
    simp [stagingComponent] at hnil
  rw [sanitizeFilename_of_safe hne (by rw [hbytes]; exact stagingComponent_bytes htoken hsafe)]
  rw [← stagedName_length hnow htoken hfits hsafe]
  exact List.length_take

end lengths

/-- Every name a file gets fits the file system exactly when its safe name leaves room for the
second and the token, twice over where it is forwarded. -/
theorem storedNames_fit_iff (filename : Option CString)
    {staged committed remoteStaged remoteCommitted : Time} {random remoteRandom : RandomBytes 8}
    {token remoteToken : CString} (hstaged : IsLong staged) (hcommitted : IsLong committed)
    (hremoteStaged : IsLong remoteStaged) (hremoteCommitted : IsLong remoteCommitted)
    (htoken : cryptoRandomToken random = some token)
    (hremoteToken : cryptoRandomToken remoteRandom = some remoteToken) :
    (∀ name ∈ storedNames filename staged committed remoteStaged remoteCommitted token remoteToken,
      name.length ≤ nameMax) ↔
    (formatLong staged).length + (formatLong remoteStaged).length +
        (sanitizeFilename filename).str.length + 36 ≤ nameMax ∧
      (formatLong committed).length + (sanitizeFilename filename).str.length + 1 ≤ nameMax ∧
      (formatLong staged).length + (formatLong remoteCommitted).length +
        (sanitizeFilename filename).str.length + 19 ≤ nameMax := by
  have hfits : (sanitizeFilename filename).str.length < 256 := (sanitizeFilename filename).fits
  have hsafe := sanitizeFilename_bytes filename
  have hforwarded := sanitizeFilename_forwarded hstaged htoken hfits hsafe
  have hremote := (sanitizeFilename (some (baseName (stagingPath staged token
    (sanitizeFilename filename).str).str))).fits
  have hremoteSafe := sanitizeFilename_bytes (some (baseName (stagingPath staged token
    (sanitizeFilename filename).str).str))
  simp only [storedNames, List.forall_mem_cons, List.not_mem_nil, false_imp_iff, implies_true,
    and_true]
  rw [stagedName_length hstaged htoken hfits hsafe, committedName_length hcommitted hfits hsafe,
    stagedName_length hremoteStaged hremoteToken hremote hremoteSafe,
    committedName_length hremoteCommitted hremote hremoteSafe, hforwarded]
  unfold nameMax
  omega

def sampleStageToken (seed : UInt8) : CString :=
  ⟨hexBytes (List.replicate 8 seed), hexBytes_nulFree _⟩

theorem shortName_fits : (sanitizeFilename (some (.lit "a.txt"))).str = .lit "a.txt" ∧
    ∀ name ∈ storedNames (some (.lit "a.txt")) 1700000000 1700000001 1700000002 1700000003
      (sampleStageToken 1) (sampleStageToken 2), name.length ≤ nameMax :=
  ⟨by decide +kernel, (@storedNames_fit_iff (some (.lit "a.txt")) 1700000000 1700000001 1700000002
    1700000003 (some (.replicate 8 1)) (some (.replicate 8 2)) (sampleStageToken 1)
    (sampleStageToken 2) (by decide) (by decide) (by decide) (by decide) rfl rfl).mpr
    (by decide +kernel)⟩

/-- A name that the file system itself still takes cannot be staged, and one that can be staged
cannot be forwarded. -/
theorem longName_refused :
    (∃ name ∈ storedNames (some ⟨List.replicate 255 97, by decide⟩) 1700000000 1700000001
      1700000002 1700000003 (sampleStageToken 1) (sampleStageToken 2), nameMax < name.length) ∧
    ∃ name ∈ (storedNames (some ⟨List.replicate 220 97, by decide⟩) 1700000000 1700000001
      1700000002 1700000003 (sampleStageToken 1) (sampleStageToken 2)).drop 2,
      nameMax < name.length := by
  decide +kernel

end LocalDrop
