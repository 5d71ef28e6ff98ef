import LocalDrop.ProcessQueue

/-! Age-based cleanup and live files. `cleanup_expired_staging_files` looks at
modification times only; whether it spares the files still in use depends on how
long these have waited. -/
namespace LocalDrop
open Lib

def TransferJob.Live (job : TransferJob) : Prop :=
  job.status = .queued ∨ job.status = .inProgress

/-- The file of an unfinished upload, of the request that is just handing it over,
or of a job that is queued or in progress. -/
def Process.Live (process : Process) (path : CString) : Prop :=
  (∃ id, process.Owns path (.request id)) ∨
    ∃ slot, (process.world.queue.jobs slot).Live ∧
      (process.world.queue.jobs slot).filepath.str = path ∧ path ≠ CString.empty

/-- A cleanup leaves every live file that is on disk. -/
def SparesLive (process : Process) (event : Event) : Prop :=
  CleansUp process event → ∀ after, step process event = some after →
    ∀ path, process.Live path → process.world.fs path ≠ none → after.world.fs path ≠ none

/-- When a cleanup starts, every live file on disk was modified less than
`STAGING_RETENTION_SECONDS` ago. -/
def LiveFilesYoung (process : Process) (event : Event) : Prop :=
  CleansUp process event → ∀ path file, process.Live path → process.world.fs path = some file →
    process.world.clock < file.mtime + stagingRetentionSeconds

def LivePresent (process : Process) : Prop :=
  ∀ path, process.Live path → process.world.fs.Staged path

/-- A live job was live before the step, or was created by it. -/
theorem liveJob_step {queue queue' : TransferQueue} {event : QueueOrder.QueueEvent} {slot : Slot}
    (hinv : QueueOrder.Inv queue) (h : QueueOrder.step queue event = some queue')
    (hlive : (queue'.jobs slot).Live) :
    (queue.jobs slot).Live ∧ (queue'.jobs slot).filepath = (queue.jobs slot).filepath ∨
      ∃ request now random, event = .enqueue request now random ∧
        (queue'.jobs slot).filepath = copyString request.filepath := by
  cases QueueOrder.jobChange_step slot hinv h with
  | kept job same =>
      rw [job] at hlive ⊢
      exact .inl ⟨hlive, rfl⟩
  | worked active status inUse jobId filepath same => exact .inl ⟨active, filepath⟩
  | ended success now done worker job same =>
      rw [job] at hlive
      cases success <;> rcases hlive with hstatus | hstatus <;> contradiction
  | pruned request now random enqueue due job =>
      rw [job] at hlive
      rcases hlive with hstatus | hstatus <;> exact absurd hstatus (by decide)
  | created request token now random enqueue free answer job new =>
      exact .inr ⟨request, now, random, enqueue, by rw [job]; rfl⟩

theorem Process.Live.held {process : Process} (hok : QueueOk process) {path : CString}
    (h : process.Live path) : ∃ owner, process.ledger.held owner = some path := by
  rcases h with ⟨id, howns⟩ | ⟨slot, hlive, hpath, hne⟩
  · exact ⟨_, owns_iff.mp howns⟩
  · refine ⟨.job slot, TransferJob.holds_eq_some.mpr ⟨?_, hpath, hne⟩⟩
    rw [hok.inv.inUse]
    rcases hlive with hstatus | hstatus <;> simp [hstatus]

theorem live_next {process after : Process} {event : Event} {entries : List Entry}
    (hwf : Wellformed process) (hok : QueueOk process)
    (h : next process event = some (after, entries)) {path : CString}
    (hlive : after.Live path) : process.Live path ∨ path ∈ stagedPaths entries := by
  rcases hlive with ⟨id, howns⟩ | ⟨slot, hjob, hpath, hne⟩
  · rw [owns_iff] at howns
    cases next_moves hwf h with
    | drops move names => exact .inl (.inl ⟨id, owns_iff.mpr (move.held_of_held howns)⟩)
    | creates staged path' entry move names =>
        by_cases hid : id = staged
        · rw [hid, move.self, Option.some.injEq] at howns
          exact .inr (by simp [names, howns])
        · rw [move.others _ (by simpa using hid)] at howns
          exact .inl (.inl ⟨id, owns_iff.mpr howns⟩)
    | handsOver middle giver slot path' drop move names =>
        by_cases hid : id = giver
        · rw [hid, move.giver] at howns
          contradiction
        · rw [move.others _ (by simpa using hid) (by simp)] at howns
          exact .inl (.inl ⟨id, owns_iff.mpr (drop.held_of_held howns)⟩)
    | expires move cleanup names => exact .inl (.inl ⟨id, owns_iff.mpr (move.held ▸ howns)⟩)
  · left
    rcases next_queue hwf hok.requests h with heq | ⟨queueEvent, hevent, hqueue⟩
    · rw [heq] at hjob hpath
      exact .inr ⟨slot, hjob, hpath, hne⟩
    · rcases liveJob_step hok.inv hqueue hjob with ⟨hold, hsame⟩ | ⟨request, now, random, rfl, hnew⟩
      · exact .inr ⟨slot, hold, hsame ▸ hpath, hne⟩
      · obtain ⟨id, giver, hgiver, hhanding, hfilepath⟩ := hevent
        obtain ⟨hfilename, hstaging, -⟩ := (hwf.requests id giver hgiver).handing hhanding
        have hstagingPath : giver.info.uploadStage.stagingPath.str = path := by
          rw [hnew, hfilepath, hfilename, copyString_str] at hpath
          exact hpath
        exact .inl ⟨id, giver, hgiver, hstagingPath, hne, .inr hhanding⟩

theorem cleansUp_step {process after : Process} {event : Event} (hclean : CleansUp process event)
    (h : step process event = some after) :
    after.world.fs =
        cleanupExpiredStagingFiles process.world.fs stagingRetentionSeconds process.world.clock ∧
      ∀ path, process.Live path → after.Live path := by
  obtain ⟨id, env, request, port, token, rfl, hwas, hphase⟩ := hclean
  obtain ⟨settled, entries, hnext, rfl⟩ := step_eq_some h
  simp only [next, hwas, proceed, hphase] at hnext
  cases Option.some.inj hnext
  refine ⟨rfl, fun path hlive => ?_⟩
  rcases hlive with ⟨other, old, hold, hpath, hne, howned⟩ | hjob
  · by_cases hother : other = id
    · subst hother
      rw [hwas, Option.some.injEq] at hold
      subst hold
      refine .inl ⟨other, _, Function.update_self .., hpath, hne, .inr ?_⟩
      simp [Request.handingOver]
    · refine .inl ⟨other, old, ?_, hpath, hne, howned⟩
      exact (Function.update_of_ne hother ..).trans hold
  · exact .inr hjob

theorem cleanup_keeps_iff {fs : FileSystem} {path : CString} {file : File} (now : Time)
    (hentry : isStagingEntry path = true) (hfile : fs path = some file) :
    cleanupExpiredStagingFiles fs stagingRetentionSeconds now path ≠ none ↔
      now < file.mtime + stagingRetentionSeconds := by
  rw [cleanup_apply, hentry, hfile]
  simp [File.expired]

structure Tracked (process : Process) : Prop where
  wellformed : Wellformed process
  queue : QueueOk process
  entries : HeldEntries process

theorem Started.tracked {process : Process} (h : Started process) : Tracked process :=
  ⟨h.wellformed, h.queueOk, fun owner path howner => by rw [h.held] at howner; contradiction⟩

theorem tracked_step (process : Process) (event : Event) (after : Process) (h : Tracked process)
    (hstep : step process event = some after) : Tracked after := by
  obtain ⟨settled, entries, hnext, rfl⟩ := step_eq_some hstep
  have hwf := next_wellformed h.wellformed hnext
  have hok := queueOk_next h.wellformed h.queue hnext
  have hheld := heldEntries_next h.wellformed h.entries hnext
  exact ⟨⟨hwf.requests, hwf.ids⟩, ⟨hok.inv, hok.requests, hok.serving⟩, hheld⟩

theorem Tracked.live_entry {process : Process} (h : Tracked process) {path : CString}
    (hlive : process.Live path) : isStagingEntry path = true := by
  obtain ⟨owner, howner⟩ := hlive.held h.queue
  exact h.entries owner path howner

theorem sparesLive_iff (process : Process) (event : Event) (after : Process)
    (h : Tracked process) (hstep : step process event = some after) :
    SparesLive process event ↔ LiveFilesYoung process event := by
  unfold SparesLive LiveFilesYoung
  refine forall_congr' fun hclean => ?_
  obtain ⟨hfs, -⟩ := cleansUp_step hclean hstep
  constructor
  · intro hspares path file hlive hfile
    have hkept := hspares after hstep path hlive (by simp [hfile])
    rw [hfs] at hkept
    exact (cleanup_keeps_iff _ (h.live_entry hlive) hfile).mp hkept
  · intro hyoung other hother path hlive hdisk
    rw [hstep, Option.some.injEq] at hother
    subst hother
    obtain ⟨file, hfile⟩ := Option.ne_none_iff_exists'.mp hdisk
    rw [hfs]
    exact (cleanup_keeps_iff _ (h.live_entry hlive) hfile).mpr (hyoung path file hlive hfile)

theorem livePresent_next {process after : Process} {event : Event} {entries : List Entry}
    (howned : Owned process) (hok : QueueOk process) (hok' : QueueOk after)
    (hpresent : LivePresent process) (hclean : ¬ CleansUp process event)
    (h : next process event = some (after, entries)) : LivePresent after := by
  intro path hlive
  obtain ⟨owner, howner⟩ := hlive.held hok'
  have hwas := live_next howned.wellformed hok h hlive
  cases next_moves howned.wellformed h with
  | drops move names =>
      rcases hwas with hwas | hstaged
      · exact move.present_of_held howned.ledger howner (hpresent path hwas)
      · simp [names] at hstaged
  | creates id staged entry move names =>
      refine (move.present path).mpr ?_
      rcases hwas with hwas | hstaged
      · exact .inl (hpresent path hwas)
      · exact .inr (by simpa [names] using hstaged)
  | handsOver middle id slot staged drop move names =>
      rcases hwas with hwas | hstaged
      · have hmiddle : ∃ other, middle.held other = some path := by
          by_cases hslot : owner = .job slot
          · rw [hslot, move.taker, Option.some.injEq] at howner
            exact ⟨_, howner ▸ move.was⟩
          · have hid : owner ≠ .request id := by
              rintro rfl
              rw [move.giver] at howner
              contradiction
            exact ⟨owner, (move.others owner hid hslot).symm.trans howner⟩
        obtain ⟨other, hother⟩ := hmiddle
        exact (move.present path).mpr
          (drop.present_of_held howned.ledger hother (hpresent path hwas))
      · simp [names] at hstaged
  | expires move cleanup names => exact absurd cleanup hclean

theorem livePresent_step_iff (process : Process) (event : Event) (after : Process)
    (howned : Owned process) (htracked : Tracked process) (hpresent : LivePresent process)
    (hstep : step process event = some after) :
    LivePresent after ↔ LiveFilesYoung process event := by
  have hafter := tracked_step _ _ _ htracked hstep
  by_cases hclean : CleansUp process event
  · obtain ⟨hfs, hlive⟩ := cleansUp_step hclean hstep
    constructor
    · intro hkept _ path file hpath hfile
      obtain ⟨-, id, hid⟩ := hkept path (hlive path hpath)
      refine (cleanup_keeps_iff _ (htracked.live_entry hpath) hfile).mp ?_
      rw [← hfs]
      intro hnone
      simp [hnone] at hid
    · intro hyoung path hpath
      obtain ⟨settled, entries, hnext, rfl⟩ := step_eq_some hstep
      have hwas : process.Live path := by
        rcases live_next htracked.wellformed htracked.queue hnext hpath with hwas | hstaged
        · exact hwas
        · obtain ⟨id, env, request, port, token, rfl, hrequest, hphase⟩ := hclean
          simp only [next, hrequest, proceed, hphase] at hnext
          cases Option.some.inj hnext
          simp [stagedPaths] at hstaged
      obtain ⟨hentry, id, hid⟩ := hpresent path hwas
      obtain ⟨file, hfile, hcreator⟩ := Option.map_eq_some_iff.mp hid
      refine ⟨hentry, id, ?_⟩
      have hkeep := (cleanup_keeps_iff process.world.clock hentry hfile).mpr
        (hyoung hclean path file hwas hfile)
      rw [hfs]
      rw [cleanup_apply] at hkeep ⊢
      split at hkeep
      · contradiction
      · rename_i hcond
        rw [if_neg hcond]
        exact hid
  · constructor
    · intro _ hyes
      exact absurd hyes hclean
    · intro _
      obtain ⟨settled, entries, hnext, rfl⟩ := step_eq_some hstep
      have hkept := livePresent_next howned htracked.queue
        (queueOk_next htracked.wellformed htracked.queue hnext) hpresent hclean hnext
      exact hkept

/-- Along every run the cleanups spare the live files exactly when each cleanup
finds them young; and then, staging names not repeating, no live file is ever
missing from disk. -/
theorem cleanup_spares_live_iff {start : Process} {events : List Event}
    (hstart : Started start) :
    (Meets step SparesLive start events ↔ Meets step LiveFilesYoung start events) ∧
    (Meets step FreshNames start events →
      (Always step LivePresent start events ↔ Meets step LiveFilesYoung start events)) := by
  refine ⟨meets_iff_meets tracked_step sparesLive_iff hstart.tracked, fun hfresh => ?_⟩
  have hinv : ∀ s e t, Owned s ∧ Tracked s → FreshNames s e → step s e = some t →
      Owned t ∧ Tracked t :=
    fun s e t hs hside hstep =>
      ⟨owned_step s e t hs.1 hside hstep, tracked_step s e t hs.2 hstep⟩
  refine always_iff_meets hinv
    (fun s e t hs _ hP hstep => livePresent_step_iff s e t hs.1 hs.2 hP hstep)
    hfresh ⟨hstart.owned, hstart.tracked⟩ fun path hlive => ?_
  obtain ⟨owner, howner⟩ := hlive.held hstart.queueOk
  rw [hstart.held] at howner
  contradiction

def AllFilesYoung (process : Process) : Prop :=
  (∀ id < process.nextId, ∀ request ∈ process.requests id,
    ∀ file ∈ process.world.fs request.info.uploadStage.stagingPath.str,
      process.world.clock < file.mtime + stagingRetentionSeconds) ∧
  ∀ slot, ∀ file ∈ process.world.fs (process.world.queue.jobs slot).filepath.str,
    process.world.clock < file.mtime + stagingRetentionSeconds

instance (process : Process) : Decidable (AllFilesYoung process) :=
  inferInstanceAs (Decidable (_ ∧ _))

theorem AllFilesYoung.live {process : Process} (h : AllFilesYoung process)
    (hwf : Wellformed process) (event : Event) : LiveFilesYoung process event := by
  rintro - path file (⟨id, request, hid, rfl, -⟩ | ⟨slot, -, rfl, -⟩) hfile
  · exact h.1 id (hwf.lt hid) request hid file hfile
  · exact h.2 slot file hfile

theorem handOverRun_spares :
    (run step sampleStart handOverRun).isSome = true ∧
      Meets step SparesLive sampleStart handOverRun ∧
      Always step LivePresent sampleStart handOverRun := by
  have hall : Meets step (fun process _ => AllFilesYoung process) sampleStart handOverRun := by
    decide +kernel
  have hyoung : Meets step LiveFilesYoung sampleStart handOverRun :=
    hall.mono_of_invariant (fun _ _ _ => wellformed_step)
      (fun _ event hwf hyoung => hyoung.live hwf event) sampleStart_started.wellformed
  have hiff := @cleanup_spares_live_iff _ handOverRun sampleStart_started
  exact ⟨by decide +kernel, hiff.1.mpr hyoung, (hiff.2 (by decide +kernel)).mpr hyoung⟩

/-- An upload stalls for a day; then somebody sends a file. -/
def stalledUpload : List Event :=
  unlocking 0 7 ++ exchanging 1 8 ++
    [acceptPost "/upload" ⟨some (sampleToken 7), none⟩,
      sendFields 2 [fileItem "b.txt" [4] 10], .tick 86400] ++
    unlocking 3 11 ++ sending 4 (sampleToken 11) "a.txt" 9

def stalledPath : CString :=
  .lit "staging/1000_0a0a0a0a0a0a0a0a_b.txt"

theorem stalledUpload_removed : ∃ before after,
    run step sampleStart stalledUpload = some before ∧
      CleansUp before (sampleProceed 4 0) ∧ step before (sampleProceed 4 0) = some after ∧
      before.Live stalledPath ∧ before.world.fs stalledPath ≠ none ∧
      after.world.fs stalledPath = none ∧ ¬ SparesLive before (sampleProceed 4 0) := by
  obtain ⟨before, hrun⟩ : ∃ before, run step sampleStart stalledUpload = some before :=
    Option.isSome_iff_exists.mp (by decide +kernel)
  have hfacts : (run step sampleStart stalledUpload).all (fun before =>
      (before.requests 4).any (fun request =>
        request.phase = .sendCleanup 8080 (sampleToken 8)) ∧
      (before.requests 2).any (fun request =>
        request.info.uploadStage.stagingPath.str = stalledPath ∧
          request.info.fileSaved = false) ∧
      before.world.fs stalledPath ≠ none ∧
      (step before (sampleProceed 4 0)).any (fun after =>
        after.world.fs stalledPath = none)) = true := by decide +kernel
  rw [hrun] at hfacts
  simp only [Option.all_some, decide_eq_true_eq, Option.any_eq_true] at hfacts
  obtain ⟨⟨sender, hsender, hphase⟩, ⟨staller, hstaller, hpath, hsaved⟩, hdisk,
    after, hafter, hgone⟩ := hfacts
  have hclean : CleansUp before (sampleProceed 4 0) :=
    ⟨4, _, sender, 8080, sampleToken 8, rfl, hsender, hphase⟩
  have hlive : before.Live stalledPath :=
    .inl ⟨2, staller, hstaller, hpath, by decide, .inl hsaved⟩
  exact ⟨before, after, hrun, hclean, hafter, hlive, hdisk, hgone, fun hspares =>
    hspares hclean after hafter stalledPath hlive hdisk hgone⟩

end LocalDrop
